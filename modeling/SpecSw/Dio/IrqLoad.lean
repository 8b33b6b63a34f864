import SpecSw.Dio.System

/-!
# The load of the interrupt

`wrn_dio_interrupt` keeps the clock at its start and at its end in `t_ini` and `t_end`, and
computes the rate `100 * ontime / offtime` of the time spent in the last interrupt and the time
since. The division is one of `int`s, made only when `offtime` is at most `100 * ontime`: this
bounds the ratio, but not `ontime`, and it holds for two durations of zero.

The first interrupt does not set `t_ini`, so the second one takes for `ontime` all the time since
the host was started.

## Main definitions

* `Dio.clockReadings`, `Dio.ClockOk`: what the interrupts of a run read.
* `Dio.RateSafe`, `Dio.RateFits`: what is wanted of the rate, and when it is so.

## Main results

* `Dio.irqLoad_iff`, `Dio.not_forall_rateSafe`.
-/

namespace SpecSw.Dio

open EventRun

/-! ### The rate -/

/-- The values that the `int` operations of the rate computation yield if they are not reduced to
32 bits: the two casts, the product and the quotient. -/
def rateInts (ontime offtime : ℤ) : List ℤ :=
  if u64 (100 * ontime) < offtime then []
  else
    [ontime, offtime, int32 ontime * 100, (int32 (int32 ontime * 100)).tdiv (int32 offtime)]

theorem u64_of_range {x : ℤ} (hlo : 0 ≤ x) (hhi : x < 2 ^ 64) : u64 x = x := by
  simp only [u64]
  omega

section Rate

variable {ontime offtime : ℤ}

/-- A load below one percent has the rate 0. -/
theorem irqRate_of_idle (hon : 0 ≤ ontime) (hoff : offtime < 2 ^ 63)
    (hidle : 100 * ontime < offtime) :
    irqRate ontime offtime = some (100 * ontime / offtime) ∧ rateInts ontime offtime = [] := by
  have hprod : u64 (100 * ontime) < offtime := by
    rw [u64_of_range (by omega) (by omega)]
    exact hidle
  have hquot : 100 * ontime / offtime = 0 := Int.ediv_eq_zero_of_lt (by omega) hidle
  exact ⟨by rw [irqRate, if_pos hprod, hquot], if_pos hprod⟩

/-- Otherwise the division is one of `int`s, exact when these keep their values. -/
theorem irqRate_of_busy (hoff : 0 < offtime) (hbusy : offtime ≤ 100 * ontime)
    (hfits : 100 * ontime < 2 ^ 31) :
    irqRate ontime offtime = some (100 * ontime / offtime) ∧
      rateInts ontime offtime = [ontime, offtime, 100 * ontime, 100 * ontime / offtime] := by
  have hprod : ¬u64 (100 * ontime) < offtime := by
    rw [u64_of_range (by omega) (by omega)]
    omega
  have hmul : int32 ontime * 100 = 100 * ontime := by
    rw [int32_of_range (by omega) (by omega), mul_comm]
  have hnum : int32 (100 * ontime) = 100 * ontime := int32_of_range (by omega) (by omega)
  have hden : int32 offtime = offtime := int32_of_range (by omega) (by omega)
  have hquot : (100 * ontime).tdiv offtime = 100 * ontime / offtime :=
    Int.tdiv_eq_ediv_of_nonneg (by omega)
  rw [irqRate, if_neg hprod, rateInts, if_neg hprod]
  simp only [hmul, hnum, hden, hquot]
  exact ⟨if_neg (by omega), trivial⟩

/-- For durations that are `ktime_t`s, the rate is exact and its `int`s keep their values exactly
when the load is below one percent, or some time has passed and the product is an `int`. -/
theorem irqRate_exact_iff (hon : 0 ≤ ontime) (hoff : 0 ≤ offtime) (hmax : offtime < 2 ^ 63) :
    (irqRate ontime offtime = some (100 * ontime / offtime) ∧
        ∀ x ∈ rateInts ontime offtime, -2 ^ 31 ≤ x ∧ x < 2 ^ 31) ↔
      100 * ontime < offtime ∨ 0 < offtime ∧ 100 * ontime < 2 ^ 31 := by
  constructor
  · rintro ⟨hrate, hints⟩
    by_cases hprod : u64 (100 * ontime) < offtime
    · have hwrapped : 0 ≤ u64 (100 * ontime) := Int.emod_nonneg _ (by decide)
      rw [irqRate, if_pos hprod] at hrate
      have hquot : 100 * ontime / offtime = 0 := (Option.some.inj hrate).symm
      have hlt := (Int.ediv_lt_iff_lt_mul (by omega)).mp (by omega : 100 * ontime / offtime < 1)
      exact Or.inl (by omega)
    · rw [rateInts, if_neg hprod] at hints
      simp only [List.forall_mem_cons] at hints
      obtain ⟨hon', hoff', hmul, -⟩ := hints
      rw [int32_of_range hon'.1 hon'.2] at hmul
      have hnonzero : offtime ≠ 0 := by
        rintro rfl
        rw [irqRate, if_neg hprod, if_pos (Or.inl (int32_of_range hoff'.1 hoff'.2))] at hrate
        exact absurd hrate (by simp)
      exact Or.inr (by omega)
  · intro hfits
    by_cases hidle : 100 * ontime < offtime
    · obtain ⟨hrate, hints⟩ := irqRate_of_idle hon hmax hidle
      exact ⟨hrate, by simp [hints]⟩
    · obtain ⟨hpos, hprod⟩ := hfits.resolve_left hidle
      obtain ⟨hrate, hints⟩ := irqRate_of_busy hpos (not_lt.mp hidle) hprod
      have hquot : 0 ≤ 100 * ontime / offtime ∧ 100 * ontime / offtime ≤ 100 * ontime :=
        ⟨Int.ediv_nonneg (by omega) hoff, Int.ediv_le_self _ (by omega)⟩
      refine ⟨hrate, ?_⟩
      simp only [hints, List.forall_mem_cons, List.not_mem_nil, false_implies, implies_true,
        and_true]
      omega

end Rate

/-! ### The clock -/

/-- The readings of `ktime_get` that an event takes in `wrn_dio_interrupt`. -/
def irqReadings (d : WrnDrvdata) : DioEvent → List ℤ
  | .interrupt irq =>
    if irq.eeprom then (if d.tEnd ≠ 0 then [irq.now, irq.finish] else [irq.finish]) else []
  | .ioctl _ _ => []
  | .resume _ _ _ => []

/-- The readings that the interrupts of a run take. -/
def clockReadings : WrnDrvdata → List DioEvent → List ℤ
  | _, [] => []
  | d, e :: es => irqReadings d e ++ clockReadings (step d e) es

/-- The readings are `ktime_t`s that do not decrease. -/
structure ClockOk (readings : List ℤ) : Prop where
  ktime : ∀ t ∈ readings, 0 ≤ t ∧ t < 2 ^ 63
  nondecreasing : readings.Pairwise (· ≤ ·)

/-- The readings of an event do not go back behind the last one, `t_end`. -/
def Ticks (d : WrnDrvdata) : DioEvent → Prop
  | .interrupt irq => irq.eeprom = true →
    d.tEnd ≤ irq.finish ∧ irq.finish < 2 ^ 63 ∧
      (d.tEnd ≠ 0 → d.tEnd ≤ irq.now ∧ irq.now ≤ irq.finish)
  | .ioctl _ _ => True
  | .resume _ _ _ => True

/-- The static variables of the measurement. -/
def WrnDrvdata.statics (d : WrnDrvdata) : ℤ × ℤ := (d.tIni, d.tEnd)

theorem serveChannel_statics (fifo : ℕ → List FifoSample) (d : WrnDrvdata) (ch : ℕ) :
    (serveChannel fifo d ch).statics = d.statics := by
  unfold serveChannel
  dsimp only
  split
  · split_ifs <;> rfl
  · rfl

theorem protect_statics (now : ℤ) (d : WrnDrvdata) :
    (protect now d).statics = (if d.tEnd ≠ 0 then now else d.tIni, d.tEnd) := by
  rw [protect]
  split_ifs with hfirst
  · cases rateAt d now <;> rfl
  · rfl

/-- An interrupt stores its readings, the first one only the end. -/
theorem interrupt_statics {irq : DioIrq} (heeprom : irq.eeprom = true) (d : WrnDrvdata) :
    (step d (.interrupt irq)).statics =
      (if d.tEnd ≠ 0 then irq.now else d.tIni, irq.finish) := by
  have hserve : (run (serveChannel irq.fifo) (protect irq.now d) (servedChannels irq.isr)).statics =
      (protect irq.now d).statics := by
    refine run_proj_eq (I := fun _ => True) (fun _ _ _ _ => trivial) (fun t j _ _ => ?_) trivial
    exact serveChannel_statics irq.fifo t j
  rw [protect_statics] at hserve
  have hini := congrArg Prod.fst hserve
  simp only [step, wrnDioInterrupt, heeprom, if_true]
  exact Prod.ext hini rfl

theorem pulse_statics (utc : UtcReads) (d : WrnDrvdata) (cmd : WrDioCmd) :
    (wrnDioCmdPulse utc d cmd).drvdata.statics = d.statics := by
  rw [wrnDioCmdPulse]
  split_ifs
  · rfl
  · rfl
  · simp only [wrnNewPulse, setupLoop]
    split_ifs <;> rfl

theorem statics_of_onlyTails {d d' : WrnDrvdata} (h : OnlyTails d d') : d'.statics = d.statics := by
  obtain ⟨b, rfl⟩ := h
  rfl

/-- An ioctl leaves the static variables of the interrupt. -/
theorem ioctl_statics (ioctlcmd : ℕ) (u : UserCall) (d : WrnDrvdata) :
    (step d (.ioctl ioctlcmd u)).statics = d.statics :=
  ioctl_proj_eq (fun cmd _ => pulse_statics u.utc d cmd) (fun _ => statics_of_onlyTails)
    fun _ _ => rfl

theorem resume_statics (signalPending copyToUser : Bool) (cmd : WrDioCmd) (d : WrnDrvdata) :
    (step d (.resume signalPending copyToUser cmd)).statics = d.statics :=
  statics_of_onlyTails (resume_onlyTails signalPending copyToUser d cmd)

/-- Readings that do not decrease tick at each event of the run. -/
theorem along_ticks {d : WrnDrvdata} {es : List DioEvent}
    (hktime : ∀ t ∈ clockReadings d es, 0 ≤ t ∧ t < 2 ^ 63)
    (hsorted : (d.tEnd :: clockReadings d es).Pairwise (· ≤ ·)) : Along step Ticks d es := by
  induction es generalizing d with
  | nil => trivial
  | cons e es ih =>
    rw [clockReadings] at hktime hsorted
    have hidle (hnone : irqReadings d e = []) (hstatics : (step d e).statics = d.statics)
        (hticks : Ticks d e) : Along step Ticks d (e :: es) := by
      rw [hnone, List.nil_append] at hktime hsorted
      rw [← show (step d e).tEnd = d.tEnd from congrArg Prod.snd hstatics] at hsorted
      exact ⟨hticks, ih hktime hsorted⟩
    cases e with
    | ioctl ioctlcmd u => exact hidle rfl (ioctl_statics ioctlcmd u d) trivial
    | resume signalPending copyToUser cmd =>
      exact hidle rfl (resume_statics signalPending copyToUser cmd d) trivial
    | interrupt irq =>
      cases heeprom : irq.eeprom with
      | false =>
        refine hidle (by simp [irqReadings, heeprom]) ?_ fun h => absurd h (by simp [heeprom])
        simp [step, wrnDioInterrupt, heeprom, WrnDrvdata.statics]
      | true =>
        have hend : (step d (.interrupt irq)).tEnd = irq.finish :=
          congrArg Prod.snd (interrupt_statics heeprom d)
        by_cases hfirst : d.tEnd ≠ 0
        · have hread : irqReadings d (.interrupt irq) = [irq.now, irq.finish] := by
            simp [irqReadings, heeprom, hfirst]
          simp only [hread, List.cons_append, List.nil_append, List.pairwise_cons,
            List.forall_mem_cons] at hktime hsorted
          obtain ⟨⟨hnow, hfinish, -⟩, ⟨horder, -⟩, hrest⟩ := hsorted
          refine ⟨fun _ => ⟨hfinish, hktime.2.1.2, fun _ => ⟨hnow, horder⟩⟩, ih hktime.2.2 ?_⟩
          rw [hend]
          exact List.pairwise_cons.mpr hrest
        · have hread : irqReadings d (.interrupt irq) = [irq.finish] := by
            simp [irqReadings, heeprom, hfirst]
          simp only [hread, List.cons_append, List.nil_append, List.pairwise_cons,
            List.forall_mem_cons] at hktime hsorted
          obtain ⟨⟨hfinish, -⟩, hrest⟩ := hsorted
          refine ⟨fun _ => ⟨hfinish, hktime.1.2, fun h => absurd h hfirst⟩, ih hktime.2 ?_⟩
          rw [hend]
          exact List.pairwise_cons.mpr hrest

/-! ### The rate of every interrupt -/

/-- The time spent in the last interrupt, as the static variables have it. -/
def WrnDrvdata.ontime (d : WrnDrvdata) : ℤ := d.tEnd - d.tIni

/-- The time since the last interrupt. -/
def WrnDrvdata.offtime (d : WrnDrvdata) (now : ℤ) : ℤ := now - d.tEnd

/-- An interrupt that computes a rate gets the exact percentage, without a trap, and its `int`
operations neither overflow nor lose the values of the durations. -/
def RateSafe (d : WrnDrvdata) : DioEvent → Prop
  | .interrupt irq => irq.eeprom = true → d.tEnd ≠ 0 →
    rateAt d irq.now = some (100 * d.ontime / d.offtime irq.now) ∧
      ∀ x ∈ rateInts (u64 d.ontime) (u64 (d.offtime irq.now)), -2 ^ 31 ≤ x ∧ x < 2 ^ 31
  | .ioctl _ _ => True
  | .resume _ _ _ => True

/-- The load is below one percent, or some time has passed since the last interrupt and a hundred
times the time spent there is an `int`. -/
def RateFits (d : WrnDrvdata) : DioEvent → Prop
  | .interrupt irq => irq.eeprom = true → d.tEnd ≠ 0 →
    100 * d.ontime < d.offtime irq.now ∨ 0 < d.offtime irq.now ∧ 100 * d.ontime < 2 ^ 31
  | .ioctl _ _ => True
  | .resume _ _ _ => True

/-- The static variables are times, in their order. -/
def StaticsInv (s : ℤ × ℤ) : Prop := 0 ≤ s.1 ∧ s.1 ≤ s.2 ∧ s.2 < 2 ^ 63

theorem staticsInv_step {d : WrnDrvdata} {e : DioEvent} (hinv : StaticsInv d.statics)
    (hticks : Ticks d e) : StaticsInv (step d e).statics := by
  cases e with
  | ioctl ioctlcmd u => rwa [ioctl_statics]
  | resume signalPending copyToUser cmd => rwa [resume_statics]
  | interrupt irq =>
    cases heeprom : irq.eeprom with
    | false => simpa [step, wrnDioInterrupt, heeprom, WrnDrvdata.statics] using hinv
    | true =>
      obtain ⟨hfinish, hmax, hnow⟩ := hticks heeprom
      obtain ⟨hini, hend, -⟩ := hinv
      dsimp only [WrnDrvdata.statics] at hini hend
      rw [interrupt_statics heeprom]
      split_ifs with hfirst
      · exact ⟨le_trans (by omega) (hnow hfirst).1, (hnow hfirst).2, hmax⟩
      · exact ⟨hini, by dsimp only; omega, hmax⟩

theorem rateSafe_iff {d : WrnDrvdata} {e : DioEvent} (hinv : StaticsInv d.statics)
    (hticks : Ticks d e) : RateSafe d e ↔ RateFits d e := by
  cases e with
  | ioctl ioctlcmd u => exact Iff.rfl
  | resume signalPending copyToUser cmd => exact Iff.rfl
  | interrupt irq =>
    refine imp_congr_right fun heeprom => imp_congr_right fun hfirst => ?_
    obtain ⟨-, hmax, hnow⟩ := hticks heeprom
    obtain ⟨hini, hend, hlast⟩ := hinv
    obtain ⟨hoff, hfinish⟩ := hnow hfirst
    dsimp only [WrnDrvdata.statics] at hini hend hlast
    have hontime : u64 d.ontime = d.ontime := u64_of_range (sub_nonneg.mpr hend)
      (by rw [WrnDrvdata.ontime]; omega)
    have hofftime : u64 (d.offtime irq.now) = d.offtime irq.now :=
      u64_of_range (sub_nonneg.mpr hoff) (by rw [WrnDrvdata.offtime]; omega)
    have hrate : rateAt d irq.now = irqRate (u64 d.ontime) (u64 (d.offtime irq.now)) := rfl
    rw [hrate, hontime, hofftime]
    exact irqRate_exact_iff (sub_nonneg.mpr hend) (sub_nonneg.mpr hoff)
      (by rw [WrnDrvdata.offtime]; omega)

/-- **The load of the interrupt.** Whatever the clock reads, the rates of a run are right and their
computations safe exactly when the durations fit. -/
theorem irqLoad_iff (hw : PowerOn) (es : List DioEvent)
    (hclock : ClockOk (clockReadings (wrnMezzanineInit hw) es)) :
    Along step RateSafe (wrnMezzanineInit hw) es ↔
      Along step RateFits (wrnMezzanineInit hw) es := by
  have hsorted : ((wrnMezzanineInit hw).tEnd :: clockReadings (wrnMezzanineInit hw) es).Pairwise
      (· ≤ ·) :=
    List.pairwise_cons.mpr ⟨fun t ht => (hclock.ktime t ht).1, hclock.nondecreasing⟩
  refine (along_ticks hclock.ktime hsorted).along_iff_along
    (I := fun d : WrnDrvdata => StaticsInv d.statics) ?_ (fun t e => staticsInv_step)
    fun t e => rateSafe_iff
  exact ⟨le_rfl, le_rfl, (by decide : (0 : ℤ) < 2 ^ 63)⟩

/-- An interrupt that serves no channel. -/
def emptyIrq (now finish : ℤ) : DioIrq := ⟨true, now, finish, 0, fun _ => []⟩

theorem irqLoad_iff_three :
    Along step RateSafe (wrnMezzanineInit .zero)
        [.interrupt (emptyIrq 900 1000), .interrupt (emptyIrq 200000 201000),
          .interrupt (emptyIrq 201500 202000)] ↔
      Along step RateFits (wrnMezzanineInit .zero)
        [.interrupt (emptyIrq 900 1000), .interrupt (emptyIrq 200000 201000),
          .interrupt (emptyIrq 201500 202000)] := by
  have hread : clockReadings (wrnMezzanineInit .zero)
      [.interrupt (emptyIrq 900 1000), .interrupt (emptyIrq 200000 201000),
        .interrupt (emptyIrq 201500 202000)] = [1000, 200000, 201000, 201500, 202000] := rfl
  exact irqLoad_iff .zero _ (hread ▸ ⟨by decide, by decide⟩)

/-- The second interrupt takes for the duration of the first one all the time until its end. -/
theorem ontime_of_first (hw : PowerOn) {irq : DioIrq} (heeprom : irq.eeprom = true) :
    (step (wrnMezzanineInit hw) (.interrupt irq)).ontime = irq.finish := by
  obtain ⟨hini, hend⟩ := Prod.mk.inj (interrupt_statics heeprom (wrnMezzanineInit hw))
  rw [WrnDrvdata.ontime, hini, hend]
  exact sub_zero irq.finish

/-- **The product overflows**: after a first interrupt one second from the start, the next one
computes a wrong rate. -/
theorem not_forall_rateSafe :
    ¬∀ (hw : PowerOn) (es : List DioEvent), ClockOk (clockReadings (wrnMezzanineInit hw) es) →
      (clockReadings (wrnMezzanineInit hw) es).head? ≠ some 0 →
      Along step RateSafe (wrnMezzanineInit hw) es := by
  intro h
  let es : List DioEvent :=
    [.interrupt (emptyIrq 999999000 1000000000), .interrupt (emptyIrq 1000001000 1000002000)]
  have hread : clockReadings (wrnMezzanineInit .zero) es =
      [1000000000, 1000001000, 1000002000] := rfl
  have hclock : ClockOk (clockReadings (wrnMezzanineInit .zero) es) := by
    rw [hread]
    exact ⟨by decide, by decide⟩
  obtain ⟨-, hsecond, -⟩ := h .zero es hclock (by rw [hread]; decide)
  have hrate := (hsecond rfl (by decide)).1
  exact absurd hrate (by decide)

end SpecSw.Dio
