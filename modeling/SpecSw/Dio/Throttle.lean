import SpecSw.Dio.System

/-!
# The protection against interrupt storms

`wrn_dio_interrupt` averages its load, `rate_avg = (rate_avg * 1023 + rate) / 1024`, and masks the
DIO line when the average exceeds 80. The division truncates, so the average grows by less than
`rate / 1024` in each interrupt, and stands still as soon as the rate is less than 1024 above it:
a constant rate takes the average beyond 80 exactly if it is at least 1104.

A run of rates of at most 80 keeps the average at most 80, unless `rate_avg * 1023 + rate` falls
below the least `int`, which takes rates far below zero.

## Main definitions

* `Dio.StormMasked`, `Dio.HighRate`, `Dio.LowRate`.

## Main results

* `Dio.throttle_iff`, `Dio.not_forall_throttle`.
* `Dio.run_wrnDioInterrupt_throttle`: the interrupts of a run throttle by the rates they compute.
-/

namespace SpecSw.Dio

open EventRun

/-- A rate above 80 percent, an `int`. -/
abbrev HighRate := { r : ℤ // 80 < r ∧ r < 2 ^ 31 }

/-- A rate of at most 80 percent, an `int`. -/
abbrev LowRate := { r : ℤ // -2 ^ 31 ≤ r ∧ r ≤ 80 }

/-- The average exceeds 80, and the DIO line is masked in the VIC. -/
def StormMasked (d : WrnDrvdata) : Prop := 80 < d.rateAvg ∧ d.vicImr &&& wrnVicMaskDio = 0

/-! ### One interrupt -/

theorem tdiv_of_nonneg {x : ℤ} (hx : 0 ≤ x) : x.tdiv 1024 = x / 1024 :=
  Int.tdiv_eq_ediv_of_nonneg hx

theorem tdiv_of_neg {x : ℤ} (hx : x < 0) : x.tdiv 1024 = -(-x / 1024) := by
  rw [← Int.tdiv_eq_ediv_of_nonneg (by omega : 0 ≤ -x), Int.neg_tdiv, neg_neg]

/-- As long as the sum is an `int`, the average is the truncated one. -/
theorem nextRateAvg_eq {a r : ℤ} (ha : -2 ^ 21 ≤ a ∧ a ≤ 80) (hlo : -2 ^ 31 ≤ 1023 * a + r)
    (hhi : 1023 * a + r < 2 ^ 31) : nextRateAvg a r = (1023 * a + r).tdiv 1024 := by
  have hprod : int32 (a * 1023) = a * 1023 := int32_of_range (by omega) (by omega)
  have hsum : int32 (a * 1023 + r) = 1023 * a + r := by
    rw [int32_of_range (by omega) (by omega)]
    omega
  rw [nextRateAvg, hprod, hsum]

/-- A sum below the least `int` becomes a large one. -/
theorem nextRateAvg_of_underflow {a r : ℤ} (ha : -2 ^ 21 ≤ a ∧ a ≤ 80) (hr : -2 ^ 31 ≤ r)
    (hlo : 1023 * a + r < -2 ^ 31) : 80 < nextRateAvg a r := by
  have hprod : int32 (a * 1023) = a * 1023 := int32_of_range (by omega) (by omega)
  have hsum : int32 (a * 1023 + r) = 1023 * a + r + 2 ^ 32 := by
    rw [int32]
    omega
  rw [nextRateAvg, hprod, hsum, tdiv_of_nonneg (by omega)]
  omega

theorem throttle_rateAvg (d : WrnDrvdata) (r : ℤ) :
    (throttle d r).rateAvg = nextRateAvg d.rateAvg r := rfl

theorem stormMasked_throttle {d : WrnDrvdata} {r : ℤ} (h : 80 < (throttle d r).rateAvg) :
    StormMasked (throttle d r) := by
  refine ⟨h, ?_⟩
  have hmask : (throttle d r).vicImr = d.vicImr &&& ~~~wrnVicMaskDio := if_pos h
  rw [hmask, BitVec.and_assoc, show ~~~wrnVicMaskDio &&& wrnVicMaskDio = 0 from by decide]
  exact BitVec.and_zero

/-! ### A constant rate -/

/-- Below 1104, the average does not get past 80. -/
theorem rateAvg_le_of_lt {r : ℤ} (hr : 80 < r ∧ r < 1104) {d : WrnDrvdata}
    (hd : 0 ≤ d.rateAvg ∧ d.rateAvg ≤ 80) (n : ℕ) :
    0 ≤ (run throttle d (List.replicate n r)).rateAvg ∧
      (run throttle d (List.replicate n r)).rateAvg ≤ 80 := by
  induction n generalizing d with
  | zero => exact hd
  | succ n ih =>
    rw [List.replicate_succ, run_cons]
    refine ih ?_
    rw [throttle_rateAvg, nextRateAvg_eq (by omega) (by omega) (by omega),
      tdiv_of_nonneg (by omega)]
    omega

/-- From 1104 on, the average grows in each interrupt until it is past 80. -/
theorem rateAvg_grows {r : ℤ} (hr : 1104 ≤ r ∧ r < 2 ^ 31 - 2 ^ 20) {d : WrnDrvdata}
    (hd : 0 ≤ d.rateAvg ∧ d.rateAvg ≤ 80) : d.rateAvg + 1 ≤ (throttle d r).rateAvg := by
  rw [throttle_rateAvg, nextRateAvg_eq (by omega) (by omega) (by omega), tdiv_of_nonneg (by omega)]
  omega

theorem exists_stormMasked {r : ℤ} (hr : 1104 ≤ r ∧ r < 2 ^ 31) {d : WrnDrvdata}
    (hd : d.rateAvg = 0) : ∃ n, StormMasked (run throttle d (List.replicate n r)) := by
  by_cases hbig : 81 * 1024 ≤ r
  · refine ⟨1, stormMasked_throttle ?_⟩
    rw [throttle_rateAvg, hd, nextRateAvg_eq (by omega) (by omega) (by omega),
      tdiv_of_nonneg (by omega)]
    omega
  · by_contra hnever
    have hgrow : ∀ n : ℕ, (n : ℤ) ≤ (run throttle d (List.replicate n r)).rateAvg ∧
        (run throttle d (List.replicate n r)).rateAvg ≤ 80 := by
      intro n
      induction n with
      | zero => simp [hd]
      | succ n ih =>
        have hnext := rateAvg_grows (r := r) (by omega) (d := run throttle d (List.replicate n r))
          (by omega)
        have hle : (throttle (run throttle d (List.replicate n r)) r).rateAvg ≤ 80 := by
          by_contra hgt
          refine hnever ⟨n + 1, ?_⟩
          rw [List.replicate_succ', run_append]
          exact stormMasked_throttle (not_le.mp hgt)
        rw [List.replicate_succ', run_append]
        refine ⟨?_, hle⟩
        rw [Nat.cast_succ]
        exact (by omega : (n : ℤ) + 1 ≤ (throttle (run throttle d (List.replicate n r)) r).rateAvg)
    have hlast := hgrow 81
    omega

/-- In the state after the initialization, a constant rate masks the line exactly from 1104 on. -/
theorem exists_stormMasked_iff {d : WrnDrvdata} (hd : d.rateAvg = 0) (r : HighRate) :
    (∃ n, StormMasked (run throttle d (List.replicate n r.1))) ↔ 1104 ≤ r.1 := by
  constructor
  · rintro ⟨n, hmasked, -⟩
    by_contra hlt
    have hle := rateAvg_le_of_lt (r := r.1) ⟨r.2.1, by omega⟩ (d := d) (by omega) n
    omega
  · exact fun h => exists_stormMasked ⟨h, r.2.2⟩ hd

/-! ### Rates of at most 80 -/

/-- The sum that the average is computed from does not fall below the least `int`. -/
def SumFits (d : WrnDrvdata) (r : LowRate) : Prop := -2 ^ 31 ≤ 1023 * d.rateAvg + r.1

theorem rateAvg_le_iff {d : WrnDrvdata} (hd : d.rateAvg = 0) (rates : List LowRate) :
    Throughout (fun d r => throttle d r.1) (fun d => d.rateAvg ≤ 80) d rates ↔
      Along (fun d r => throttle d r.1) SumFits d rates := by
  refine throughout_iff_along (I := fun d : WrnDrvdata => -2 ^ 21 ≤ d.rateAvg ∧ d.rateAvg ≤ 80)
    (by omega) (fun t ht => ht.2) ?_ ?_ rates
  · intro t r ht hfits
    have hr := r.2
    unfold SumFits at hfits
    rw [throttle_rateAvg, nextRateAvg_eq ht hfits (by omega)]
    rcases Int.lt_or_le (1023 * t.rateAvg + r.1) 0 with hneg | hnonneg
    · rw [tdiv_of_neg hneg]
      omega
    · rw [tdiv_of_nonneg hnonneg]
      omega
  · intro t r ht hfits hle
    have hlarge := nextRateAvg_of_underflow ht r.2.1 (not_le.mp hfits)
    exact absurd hle (not_le.mpr hlarge)

/-! ### Whole interrupts -/

theorem serveChannel_rateAvg (fifo : ℕ → List FifoSample) (d : WrnDrvdata) (ch : ℕ) :
    (serveChannel fifo d ch).rateAvg = d.rateAvg ∧ (serveChannel fifo d ch).vicImr = d.vicImr := by
  unfold serveChannel
  dsimp only
  split
  · split_ifs <;> exact ⟨rfl, rfl⟩
  · exact ⟨rfl, rfl⟩

/-- The interrupt is not the first, finds the mezzanine, and computes the rate. -/
def Measures (d : WrnDrvdata) (e : DioIrq × ℤ) : Prop :=
  e.1.eeprom = true ∧ d.tEnd ≠ 0 ∧ rateAt d e.1.now = some e.2

/-- Of a whole interrupt, the average and the mask of the VIC are those of the throttle. -/
theorem wrnDioInterrupt_throttle {d : WrnDrvdata} {e : DioIrq × ℤ} (h : Measures d e) :
    (wrnDioInterrupt e.1 d).2.rateAvg = (throttle d e.2).rateAvg ∧
      (wrnDioInterrupt e.1 d).2.vicImr = (throttle d e.2).vicImr := by
  obtain ⟨heeprom, hend, hrate⟩ := h
  have hprotect : protect e.1.now d = throttle { d with tIni := e.1.now } e.2 := by
    rw [protect, if_pos hend, hrate]
  let view : WrnDrvdata → ℤ × BitVec 32 := fun t => (t.rateAvg, t.vicImr)
  have hserve : view (run (serveChannel e.1.fifo) (protect e.1.now d) (servedChannels e.1.isr)) =
      view (protect e.1.now d) := by
    refine run_proj_eq (I := fun _ => True) (fun _ _ _ _ => trivial) (fun t j _ _ => ?_) trivial
    obtain ⟨havg, hmask⟩ := serveChannel_rateAvg e.1.fifo t j
    exact Prod.ext havg hmask
  rw [hprotect] at hserve
  simp only [wrnDioInterrupt, heeprom, if_true, hprotect]
  exact ⟨congrArg Prod.fst hserve, congrArg Prod.snd hserve⟩

/-- The average and the mask after a run of interrupts are those of the throttle after the rates
that they compute. -/
theorem run_wrnDioInterrupt_throttle {d d' : WrnDrvdata} {es : List (DioIrq × ℤ)}
    (hd : d.rateAvg = d'.rateAvg ∧ d.vicImr = d'.vicImr)
    (h : Along (fun d e => (wrnDioInterrupt e.1 d).2) Measures d es) :
    (run (fun d e => (wrnDioInterrupt e.1 d).2) d es).rateAvg =
        (run throttle d' (es.map Prod.snd)).rateAvg ∧
      (run (fun d e => (wrnDioInterrupt e.1 d).2) d es).vicImr =
        (run throttle d' (es.map Prod.snd)).vicImr := by
  induction es generalizing d d' with
  | nil => exact hd
  | cons e es ih =>
    obtain ⟨hmeasures, hrest⟩ := h
    obtain ⟨havg, hmask⟩ := wrnDioInterrupt_throttle hmeasures
    refine ih ?_ hrest
    rw [havg, hmask]
    simp only [throttle, hd.1, hd.2, and_self]

/-! ### The main result -/

/-- **The throttle.** From the initial state, a constant rate above 80 masks the DIO line after
some number of interrupts exactly when it is at least 1104; and rates of at most 80 keep the
average at most 80 exactly as long as the sums it is computed from do not fall below the least
`int`. -/
theorem throttle_iff (hw : PowerOn) :
    (∀ r : HighRate, (∃ n, StormMasked (run throttle (wrnMezzanineInit hw)
        (List.replicate n r.1))) ↔ 1104 ≤ r.1) ∧
      ∀ rates : List LowRate,
        Throughout (fun d r => throttle d r.1) (fun d => d.rateAvg ≤ 80) (wrnMezzanineInit hw)
            rates ↔
          Along (fun d r => throttle d r.1) SumFits (wrnMezzanineInit hw) rates :=
  ⟨exists_stormMasked_iff rfl, rateAvg_le_iff rfl⟩

/-- A constant rate of 400 percent, which is 80% of the total time, never masks the line. -/
theorem not_forall_throttle : ¬ ∀ (hw : PowerOn) (r : HighRate),
    ∃ n, StormMasked (run throttle (wrnMezzanineInit hw) (List.replicate n r.1)) := by
  intro hall
  obtain ⟨n, hmasked, -⟩ := hall .zero ⟨400, by decide⟩
  have hle := rateAvg_le_of_lt (r := 400) (by decide) (d := wrnMezzanineInit .zero) (by decide) n
  exact absurd hmasked (not_lt.mpr hle.2)

end SpecSw.Dio
