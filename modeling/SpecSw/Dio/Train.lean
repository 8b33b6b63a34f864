import Mathlib.Logic.Function.Iterate
import SpecSw.Dio.System

/-!
# Pulse trains

A PULSE with `F_LOOP` programs the first pulse and leaves the others to the interrupt, which
programs the next one whenever the previous one has been stamped. The set-point `prevts` is moved
by the period each time, and what is programmed is computed from it, so no error accumulates.

`Train` is the part of the state that the pulses of one channel depend on, together with the pulses
programmed so far. An event that is not a PULSE on the channel changes it only if it is an interrupt
that stamps the channel, and then by `Train.next` (`train_step`); this needs that a train
that runs on another channel does not target this one (`OwnTarget`). So the train after a run is an
iterate of `Train.next` (`train_run`), whose pulses are known (`Train.iterate_next_triggers`).

## Main definitions

* `Dio.Train`, `Dio.train`, `Dio.Train.next`, `Dio.OwnTarget`.
* `Dio.DioEvent.pulseOn`, `Dio.DioEvent.stampsOn`.

## Main results

* `Dio.train_step`, `Dio.train_run`, `Dio.pulseTrain_exact`.
-/

namespace SpecSw.Dio

open EventRun

/-- The pulse train of a channel, and the pulses programmed on the channel, the oldest first. -/
structure Train where
  targetChannel : ℕ
  count : BitVec 32
  prevts : Timespec
  delay : Timespec
  triggers : List Trigger

/-- The train of a channel in a state of the driver. -/
def train (ch : ℕ) (d : WrnDrvdata) : Train :=
  ⟨(d.ch ch).targetChannel, (d.ch ch).count, (d.ch ch).prevts, (d.ch ch).delay, d.triggersOn ch⟩

/-- A pulse of the train has been stamped: unless the count is over, the next one is programmed. -/
def Train.next (ch : ℕ) (p : Train) : Train :=
  if p.count = 0 then p
  else
    { p with
      count := if 0 < p.count.toInt then p.count - 1 else p.count
      prevts := timespecAdd p.prevts p.delay
      triggers := p.triggers ++ [triggerAt ch (p.prevts.ns + p.delay.ns)] }

/-- A train that has not ended targets the channel it is on. -/
def OwnTarget (d : WrnDrvdata) : Prop :=
  ∀ i < 5, (train i d).count ≠ 0 → (train i d).targetChannel = i

/-- The interrupt is served and finds a sample in the FIFO of the channel. -/
def DioIrq.stampsOn (irq : DioIrq) (ch : ℕ) : Bool :=
  irq.eeprom && (servedChannels irq.isr).contains ch && !(irq.fifo ch).isEmpty

/-- The event is an interrupt that stamps the channel. -/
def DioEvent.stampsOn (ch : ℕ) : DioEvent → Bool
  | .interrupt irq => irq.stampsOn ch
  | _ => false

/-- The event is a PULSE command on the channel. -/
def DioEvent.pulseOn (ch : ℕ) : DioEvent → Prop
  | .ioctl ioctlcmd u => ∃ cmd, u.runs ioctlcmd = some (.pulse, cmd) ∧ cmd.channel.toNat = ch
  | _ => False

/-! ### One channel of the interrupt -/

theorem foldl_pushSample (xs : List FifoSample) (c : DioChannel) :
    ∃ tsbuf bhead btail,
      xs.foldl pushSample c = { c with tsbuf := tsbuf, bhead := bhead, btail := btail } := by
  induction xs generalizing c with
  | nil => exact ⟨c.tsbuf, c.bhead, c.btail, rfl⟩
  | cons x xs ih =>
    obtain ⟨tsbuf, bhead, btail, h⟩ := ih (pushSample c x)
    exact ⟨tsbuf, bhead, btail, h⟩

theorem triggersOn_of_latched {d d' : WrnDrvdata} {i : ℕ} {t : ℤ}
    (h : d'.dio.latched = d.dio.latched ++ [triggerAt i t]) (ch : ℕ) :
    d'.triggersOn ch =
      if i = ch then d.triggersOn ch ++ [triggerAt ch t] else d.triggersOn ch := by
  rw [WrnDrvdata.triggersOn, h, List.filter_append]
  split_ifs with hi
  · subst hi
    simp [WrnDrvdata.triggersOn, triggerAt]
  · simp [WrnDrvdata.triggersOn, triggerAt, hi]

theorem wrnNewPulse_triggersOn (ch i : ℕ) (ts : Timespec) (d : WrnDrvdata) :
    (wrnNewPulse i ts d).2.triggersOn ch =
      if i = ch then d.triggersOn ch ++ [triggerAt ch ts.ns] else d.triggersOn ch :=
  triggersOn_of_latched (wrnNewPulse_latched i ts d) ch

theorem train_setCh_of_ne {ch i : ℕ} (hi : i ≠ ch) (c : DioChannel) (d : WrnDrvdata) :
    train ch (d.setCh i c) = train ch d := by
  simp only [train, WrnDrvdata.setCh_ch_of_ne d hi.symm, WrnDrvdata.setCh_triggersOn]

theorem train_wrnTrigNextPulse_of_ne {ch i : ℕ} (hi : i ≠ ch) {d : WrnDrvdata}
    (htarget : (d.ch i).targetChannel ≠ ch) (ts : Timespec) :
    train ch (wrnTrigNextPulse i ts d) = train ch d := by
  rw [wrnTrigNextPulse, train_setCh_of_ne hi]
  have htarget' : (if (d.ch i).targetChannel = i then { d.ch i with
      prevts := timespecAdd (if (d.ch i).targetChannel = i then (d.ch i).prevts else ts)
        (d.ch i).delay } else d.ch i).targetChannel ≠ ch := by
    split_ifs <;> exact htarget
  simp only [train, wrnNewPulse_ch, wrnNewPulse_triggersOn, if_neg htarget',
    WrnDrvdata.setCh_triggersOn, WrnDrvdata.setCh_ch_of_ne d hi.symm]

theorem train_wrnTrigNextPulse_self {ch : ℕ} {d : WrnDrvdata}
    (htarget : (d.ch ch).targetChannel = ch) (hcount : (d.ch ch).count ≠ 0) (ts : Timespec) :
    train ch (wrnTrigNextPulse ch ts d) = (train ch d).next ch := by
  simp only [train, Train.next, if_neg hcount, wrnTrigNextPulse,
    WrnDrvdata.setCh_ch_self, WrnDrvdata.setCh_triggersOn, wrnNewPulse_triggersOn, htarget,
    if_true, ns_timespecAdd]

/-- Serving another channel does not change the train. -/
theorem serveChannel_train_of_ne {ch i : ℕ} (hi : i ≠ ch) {d : WrnDrvdata}
    (hown : (train i d).count ≠ 0 → (train i d).targetChannel = i)
    (fifo : ℕ → List FifoSample) : train ch (serveChannel fifo d i) = train ch d := by
  obtain ⟨tsbuf, bhead, btail, hc⟩ := foldl_pushSample (fifo i) (d.ch i)
  simp only [serveChannel, hc]
  split
  · split_ifs with hcount
    · rw [train_wrnTrigNextPulse_of_ne hi, train_setCh_of_ne hi]
      rw [WrnDrvdata.setCh_ch_self]
      exact fun htarget => hi ((hown hcount).symm.trans htarget)
    · exact train_setCh_of_ne hi _ d
  · exact train_setCh_of_ne hi _ d

/-- Serving the channel is a step of the train if there is a sample. -/
theorem serveChannel_train_self {ch : ℕ} {d : WrnDrvdata}
    (hown : (train ch d).count ≠ 0 → (train ch d).targetChannel = ch)
    (fifo : ℕ → List FifoSample) :
    train ch (serveChannel fifo d ch) =
      if (fifo ch).isEmpty then train ch d else (train ch d).next ch := by
  obtain ⟨tsbuf, bhead, btail, hc⟩ := foldl_pushSample (fifo ch) (d.ch ch)
  have hpush : train ch (d.setCh ch
      { d.ch ch with tsbuf := tsbuf, bhead := bhead, btail := btail }) = train ch d := by
    simp only [train, WrnDrvdata.setCh_ch_self, WrnDrvdata.setCh_triggersOn]
  simp only [serveChannel, hc]
  cases hlast : (fifo ch).getLast? with
  | none =>
    rw [List.getLast?_eq_none_iff] at hlast
    simpa [hlast] using hpush
  | some x =>
    have hne : (fifo ch).isEmpty = false := by
      cases hfifo : fifo ch with
      | nil => simp [hfifo] at hlast
      | cons y ys => rfl
    simp only [hne, Bool.false_eq_true, if_false]
    split_ifs with hcount
    · rw [train_wrnTrigNextPulse_self _ _, hpush]
      · rw [WrnDrvdata.setCh_ch_self]
        exact hown hcount
      · rw [WrnDrvdata.setCh_ch_self]
        exact hcount
    · have hzero : (train ch d).count = 0 := not_not.mp hcount
      rw [hpush, Train.next, if_pos hzero]

/-! ### Every event -/

theorem Train.next_own {ch : ℕ} {p : Train} (h : p.count ≠ 0 → p.targetChannel = ch) :
    (p.next ch).count ≠ 0 → (p.next ch).targetChannel = ch := by
  by_cases hzero : p.count = 0
  · rwa [Train.next, if_pos hzero]
  · rw [Train.next, if_neg hzero]
    exact fun _ => h hzero

theorem OwnTarget.serveChannel {d : WrnDrvdata} (h : OwnTarget d) (fifo : ℕ → List FifoSample)
    {i : ℕ} (hi : i < 5) : OwnTarget (serveChannel fifo d i) := by
  intro j hj
  by_cases hij : i = j
  · subst hij
    rw [serveChannel_train_self (h i hi)]
    split_ifs
    · exact h i hi
    · exact Train.next_own (h i hi)
  · rw [serveChannel_train_of_ne hij (h i hi)]
    exact h j hj

theorem train_protect (ch : ℕ) (now : ℤ) (d : WrnDrvdata) :
    train ch (protect now d) = train ch d := by
  unfold protect
  split_ifs
  · split <;> rfl
  · rfl

theorem OwnTarget.of_train {d d' : WrnDrvdata} (h : OwnTarget d)
    (heq : ∀ i < 5, train i d' = train i d) : OwnTarget d' := by
  intro i hi
  rw [heq i hi]
  exact h i hi

/-- An interrupt is a step of the train of each channel that it stamps. -/
theorem train_wrnDioInterrupt {d : WrnDrvdata} (h : OwnTarget d) {ch : ℕ} (hch : ch < 5)
    (irq : DioIrq) : train ch (wrnDioInterrupt irq d).2 =
      if irq.stampsOn ch then (train ch d).next ch else train ch d := by
  cases heeprom : irq.eeprom with
  | false => simp [wrnDioInterrupt, heeprom, DioIrq.stampsOn, train, WrnDrvdata.triggersOn]
  | true =>
    have hown : OwnTarget (protect irq.now d) := h.of_train fun i _ => train_protect i irq.now d
    have hserve : ∀ t, ∀ j ∈ servedChannels irq.isr, OwnTarget t →
        OwnTarget (serveChannel irq.fifo t j) :=
      fun t j hj ht => ht.serveChannel irq.fifo (lt_of_mem_servedChannels hj)
    have hother : ∀ t, ∀ j ∈ servedChannels irq.isr, OwnTarget t → j ≠ ch →
        train ch (serveChannel irq.fifo t j) = train ch t :=
      fun t j hj ht hne => serveChannel_train_of_ne hne (ht j (lt_of_mem_servedChannels hj)) _
    have hrun : train ch (wrnDioInterrupt irq d).2 =
        train ch (run (serveChannel irq.fifo) (protect irq.now d) (servedChannels irq.isr)) := by
      simp only [wrnDioInterrupt, heeprom, if_true]
      rfl
    rw [hrun]
    by_cases hmem : ch ∈ servedChannels irq.isr
    · rw [run_proj_of_mem (g := fun p => if (irq.fifo ch).isEmpty then p else p.next ch)
        (servedChannels_nodup irq.isr) hmem hserve
        (fun t ht => serveChannel_train_self (ht ch hch) irq.fifo) hother hown, train_protect]
      simp only [DioIrq.stampsOn, heeprom, List.contains_iff_mem.mpr hmem]
      cases (irq.fifo ch).isEmpty <;> rfl
    · have hnot : irq.stampsOn ch = false := by
        simp [DioIrq.stampsOn, hmem]
      rw [hnot, run_proj_eq hserve (fun t j hj ht => hother t j hj ht ?_) hown, train_protect]
      · simp
      · rintro rfl
        exact hmem hj

/-- A PULSE on another channel does not change the train. -/
theorem train_wrnDioCmdPulse_of_ne {ch : ℕ} {cmd : WrDioCmd} (hch : cmd.channel.toNat ≠ ch)
    (utc : UtcReads) (d : WrnDrvdata) :
    train ch (wrnDioCmdPulse utc d cmd).drvdata = train ch d := by
  rcases wrnDioCmdPulse_cases utc d cmd with ⟨-, heq⟩ | ⟨-, -, hsame, hlatched⟩ |
    ⟨-, -, hset, hlatched⟩
  · rw [heq]
  · simp only [train, WrnDrvdata.triggersOn, hsame, hlatched]
  · have hkeep : (wrnDioCmdPulse utc d cmd).drvdata.ch ch = d.ch ch := by
      rw [hset, setupLoop]
      split_ifs
      · exact WrnDrvdata.setCh_ch_of_ne d hch.symm _
      · rfl
    simp only [train, hkeep, triggersOn_of_latched hlatched, if_neg hch]

/-- The count that a PULSE with `F_LOOP` leaves for the interrupts, the first pulse removed. -/
def loopCount (value : BitVec 32) : BitVec 32 := if 0 < value then value - 1 else value

/-- A PULSE with `F_LOOP` that is not immediate programs the first pulse and sets up the train. -/
theorem train_wrnDioCmdPulse_loop {ch : ℕ} {cmd : WrDioCmd} (hch : cmd.channel.toNat = ch)
    (hle : ch ≤ 4) (hnow : cmd.has wrDioFNow = false) (hloop : cmd.has wrDioFLoop = true)
    (utc : UtcReads) (d : WrnDrvdata) :
    train ch (wrnDioCmdPulse utc d cmd).drvdata =
      { targetChannel := ch
        count := loopCount cmd.value
        prevts := pulseStart utc cmd
        delay := cmd.t 2
        triggers := d.triggersOn ch ++ [triggerAt ch (pulseStart utc cmd).ns] } := by
  subst hch
  rcases wrnDioCmdPulse_cases utc d cmd with ⟨hbig, -⟩ | ⟨-, htrue, -⟩ | ⟨-, -, hset, hlatched⟩
  · omega
  · rw [hnow] at htrue
    exact absurd htrue Bool.false_ne_true
  · have hadd : (addNow utc cmd).has wrDioFLoop = true ∧ (addNow utc cmd).value = cmd.value ∧
        (addNow utc cmd).t 2 = cmd.t 2 := by
      unfold addNow
      split_ifs
      · exact ⟨hloop, rfl, by simp [WrDioCmd.setT]⟩
      · exact ⟨hloop, rfl, rfl⟩
    have hremove : (removeFirst (addNow utc cmd)).has wrDioFLoop = true ∧
        (removeFirst (addNow utc cmd)).value = loopCount cmd.value := by
      rw [removeFirst, if_pos hadd.1, hadd.2.1]
      exact ⟨hadd.1, rfl⟩
    have hchan : (wrnDioCmdPulse utc d cmd).drvdata.ch cmd.channel.toNat =
        { d.ch cmd.channel.toNat with
          targetChannel := cmd.channel.toNat
          count := loopCount cmd.value
          prevts := pulseStart utc cmd
          delay := cmd.t 2 } := by
      rw [hset, setupLoop, if_pos hremove.1, WrnDrvdata.setCh_ch_self, hremove.2, removeFirst_t,
        hadd.2.2]
      rfl
    simp only [train, hchan, triggersOn_of_latched hlatched, if_true]

/-- An immediate PULSE does not change the train. -/
theorem train_wrnDioCmdPulse_now {cmd : WrDioCmd} (hnow : cmd.has wrDioFNow = true) (ch : ℕ)
    (utc : UtcReads) (d : WrnDrvdata) :
    train ch (wrnDioCmdPulse utc d cmd).drvdata = train ch d := by
  rcases wrnDioCmdPulse_cases utc d cmd with ⟨-, heq⟩ | ⟨-, -, hsame, hlatched⟩ | ⟨-, hfalse, -⟩
  · rw [heq]
  · simp only [train, WrnDrvdata.triggersOn, hsame, hlatched]
  · rw [hnow] at hfalse
    exact absurd hfalse.symm Bool.false_ne_true

/-- A PULSE leaves the channel it names with a train of its own. -/
theorem train_wrnDioCmdPulse_own {ch : ℕ} {cmd : WrDioCmd} (hch : cmd.channel.toNat = ch)
    {d : WrnDrvdata} (hown : (train ch d).count ≠ 0 → (train ch d).targetChannel = ch)
    (utc : UtcReads) : (train ch (wrnDioCmdPulse utc d cmd).drvdata).count ≠ 0 →
      (train ch (wrnDioCmdPulse utc d cmd).drvdata).targetChannel = ch := by
  rcases wrnDioCmdPulse_cases utc d cmd with ⟨-, heq⟩ | ⟨-, -, hsame, -⟩ | ⟨-, -, hset, -⟩
  · rw [heq]
    exact hown
  · simp only [train, hsame]
    exact hown
  · simp only [train, hset, hch, setupLoop]
    split_ifs
    · rw [WrnDrvdata.setCh_ch_self]
      exact fun _ => rfl
    · exact hown

theorem train_of_onlyTails {d d' : WrnDrvdata} (h : OnlyTails d d') (ch : ℕ) :
    train ch d' = train ch d := by
  obtain ⟨b, rfl⟩ := h
  rfl

/-- An ioctl changes the train of a channel only if it is a PULSE on it. -/
theorem train_ioctl {ch ioctlcmd : ℕ} {u : UserCall}
    (hno : ¬ DioEvent.pulseOn ch (.ioctl ioctlcmd u)) (d : WrnDrvdata) :
    train ch (wrnMezzanineIoctl ioctlcmd u d).drvdata = train ch d := by
  refine ioctl_proj_eq (fun cmd hruns => ?_) (fun d' htails => train_of_onlyTails htails ch)
    fun gpio iomode => rfl
  exact train_wrnDioCmdPulse_of_ne (fun hch => hno ⟨cmd, hruns, hch⟩) u.utc d

/-- **One event.** An event that is not a PULSE on the channel is a step of its train if it is an
interrupt that stamps the channel, and else leaves the train alone. -/
theorem train_step {d : WrnDrvdata} (h : OwnTarget d) {ch : ℕ} (hch : ch < 5) {e : DioEvent}
    (hno : ¬ e.pulseOn ch) :
    train ch (step d e) = if e.stampsOn ch then (train ch d).next ch else train ch d := by
  cases e with
  | interrupt irq => exact train_wrnDioInterrupt h hch irq
  | ioctl ioctlcmd u => exact train_ioctl hno d
  | resume signalPending copyToUser cmd =>
    exact train_of_onlyTails (resume_onlyTails signalPending copyToUser d cmd) ch

theorem ownTarget_init (hw : PowerOn) : OwnTarget (wrnMezzanineInit hw) := by
  intro i hi hcount
  simp only [train, wrnMezzanineInit_ch hw hi] at hcount
  exact absurd rfl hcount

theorem OwnTarget.step {d : WrnDrvdata} (h : OwnTarget d) (e : DioEvent) :
    OwnTarget (step d e) := by
  intro i hi
  by_cases hpulse : e.pulseOn i
  · cases e with
    | ioctl ioctlcmd u =>
      obtain ⟨cmd, hruns, hchan⟩ := hpulse
      rw [step_of_runs_pulse hruns]
      exact train_wrnDioCmdPulse_own hchan (h i hi) u.utc
    | interrupt irq => exact absurd hpulse id
    | resume signalPending copyToUser cmd => exact absurd hpulse id
  · rw [train_step h hi hpulse]
    split_ifs
    · exact Train.next_own (h i hi)
    · exact h i hi

/-- In every state reached, a train that has not ended targets the channel it is on. -/
theorem ownTarget_run (hw : PowerOn) (es : List DioEvent) :
    OwnTarget (run step (wrnMezzanineInit hw) es) :=
  run_invariant (I := fun _ d => OwnTarget d) (ownTarget_init hw) (fun _ _ e h => h.step e) es

/-! ### Runs -/

/-- **The train after a run.** Without a PULSE on the channel, the train has made one step for each
interrupt that stamped the channel. -/
theorem train_run {d : WrnDrvdata} (h : OwnTarget d) {ch : ℕ} (hch : ch < 5)
    {es : List DioEvent} (hes : ∀ e ∈ es, ¬ e.pulseOn ch) :
    train ch (run step d es) = (Train.next ch)^[es.countP (DioEvent.stampsOn ch)] (train ch d) := by
  induction es generalizing d with
  | nil => rfl
  | cons e es ih =>
    have hstep := train_step h hch (hes e List.mem_cons_self)
    rw [run_cons, ih (h.step e) fun e' he' => hes e' (List.mem_cons_of_mem e he'), hstep]
    cases hstamp : e.stampsOn ch with
    | true => rw [List.countP_cons_of_pos hstamp, Function.iterate_succ_apply, if_pos rfl]
    | false =>
      rw [List.countP_cons_of_neg (by simp [hstamp]), if_neg Bool.false_ne_true]

/-- What is latched for `n` pulses from the time `start` on, a period apart, in nanoseconds. -/
def pulses (ch : ℕ) (start period : ℤ) (n : ℕ) : List Trigger :=
  (List.range n).map fun i : ℕ => triggerAt ch (start + i * period)

theorem pulses_succ (ch : ℕ) (start period : ℤ) (n : ℕ) :
    pulses ch start period (n + 1) = triggerAt ch start :: pulses ch (start + period) period n := by
  rw [pulses, List.range_succ_eq_map, List.map_cons, List.map_map, pulses]
  congr 1
  · rw [Nat.cast_zero, zero_mul, add_zero]
  · refine List.map_congr_left fun i _ => congrArg (triggerAt ch) ?_
    rw [Nat.succ_eq_add_one, Nat.cast_succ]
    ring

/-- The number of pulses that a train with this count programs in `k` steps. -/
def pulsesIn (k : ℕ) (count : BitVec 32) : ℕ := if count.toInt < 0 then k else min k count.toNat

theorem pulsesIn_zero_count (k : ℕ) : pulsesIn k 0 = 0 := by
  simp [pulsesIn]

theorem sub_one_of_toInt_pos (count : BitVec 32) (h : 0 < count.toInt) :
    (count - 1).toNat = count.toNat - 1 ∧ ¬ (count - 1).toInt < 0 ∧ 0 < count.toNat := by
  simp only [BitVec.toInt_eq_toNat_cond] at h ⊢
  have hlt := count.isLt
  have hone : (1 : BitVec 32).toNat = 1 := rfl
  have hsub : (count - 1).toNat = count.toNat - 1 := by
    rw [BitVec.toNat_sub, hone]
    split_ifs at h <;> omega
  rw [hsub]
  split_ifs at h ⊢ <;> omega

/-- A train that has not ended programs one pulse in its first step. -/
theorem pulsesIn_succ (k : ℕ) {count : BitVec 32} (h : count ≠ 0) :
    pulsesIn (k + 1) count = pulsesIn k (if 0 < count.toInt then count - 1 else count) + 1 := by
  by_cases hpos : 0 < count.toInt
  · obtain ⟨hnat, hnonneg, hlt⟩ := sub_one_of_toInt_pos count hpos
    rw [if_pos hpos, pulsesIn, pulsesIn, if_neg (by omega), if_neg hnonneg, hnat]
    omega
  · have hneg : count.toInt < 0 := by
      have hne : count.toInt ≠ 0 := fun e => h (BitVec.eq_of_toInt_eq (by simpa using e))
      omega
    rw [if_neg hpos, pulsesIn, pulsesIn, if_pos hneg, if_pos hneg]

theorem pulsesIn_loopCount {N : ℕ} (hpos : 1 ≤ N) (hlt : N < 2 ^ 31) (k : ℕ) :
    pulsesIn k (loopCount (BitVec.ofNat 32 N)) + 1 = min (k + 1) N := by
  have hnat : (BitVec.ofNat 32 N).toNat = N := by
    rw [BitVec.toNat_ofNat, Nat.mod_eq_of_lt (by omega)]
  have hint : (BitVec.ofNat 32 N).toInt = N := by
    rw [BitVec.toInt_eq_toNat_cond, hnat, if_pos (by omega)]
  have hvalue : (0 : BitVec 32) < BitVec.ofNat 32 N := by
    rw [BitVec.lt_def, hnat]
    exact hpos
  obtain ⟨hsub, hnonneg, -⟩ := sub_one_of_toInt_pos (BitVec.ofNat 32 N) (by omega)
  rw [loopCount, if_pos hvalue, pulsesIn, if_neg hnonneg, hsub, hnat]
  omega

theorem pulsesIn_loopCount_neg_one (k : ℕ) : pulsesIn k (loopCount 0xffffffff) = k := rfl

/-- **The pulses of a train.** Those of `k` steps are for the times one, two, ... periods after the
set-point, as many as the count allows. -/
theorem Train.iterate_next_triggers (ch k : ℕ) (p : Train) :
    ((Train.next ch)^[k] p).triggers =
      p.triggers ++ pulses ch (p.prevts.ns + p.delay.ns) p.delay.ns (pulsesIn k p.count) := by
  induction k generalizing p with
  | zero => simp [pulsesIn, pulses]
  | succ k ih =>
    rw [Function.iterate_succ_apply, ih]
    by_cases hzero : p.count = 0
    · rw [Train.next, if_pos hzero, hzero, pulsesIn_zero_count, pulsesIn_zero_count]
    · rw [Train.next, if_neg hzero, pulsesIn_succ k hzero, pulses_succ, List.append_assoc,
        List.singleton_append]
      simp only [ns_timespecAdd]

/-! ### The main result -/

/-- The pulses programmed on a channel by a PULSE that loops and the events after it: one for the
start time, and one for each interrupt that stamps the channel as long as the count allows. -/
theorem pulseTrain_run {d : WrnDrvdata} (h : OwnTarget d) {ch ioctlcmd : ℕ} {u : UserCall}
    {cmd : WrDioCmd} (hruns : u.runs ioctlcmd = some (.pulse, cmd)) (hch : cmd.channel.toNat = ch)
    (hle : ch ≤ 4) (hnow : cmd.has wrDioFNow = false) (hloop : cmd.has wrDioFLoop = true)
    {es : List DioEvent} (hes : ∀ e ∈ es, ¬ e.pulseOn ch) :
    (run step d (.ioctl ioctlcmd u :: es)).triggersOn ch = d.triggersOn ch ++
      pulses ch (pulseStart u.utc cmd).ns (cmd.t 2).ns
        (pulsesIn (es.countP (DioEvent.stampsOn ch)) (loopCount cmd.value) + 1) := by
  have hset := train_wrnDioCmdPulse_loop hch hle hnow hloop u.utc d
  have hrun := train_run (h.step (.ioctl ioctlcmd u)) (Nat.lt_succ_of_le hle) hes
  rw [step_of_runs_pulse hruns, hset] at hrun
  rw [run_cons, step_of_runs_pulse hruns]
  have htriggers := (congrArg Train.triggers hrun).trans (Train.iterate_next_triggers ch _ _)
  rw [pulses_succ, ← List.singleton_append, ← List.append_assoc]
  exact htriggers

/-- **Pulse trains are exact.** In any state reached, let a PULSE with `F_LOOP`, not immediate, with
the start time `t0` and the period `p`, be followed by any events but a PULSE on its channel, of
which `k` are interrupts that stamp the channel. With a value `N` below `2 ^ 31` the channel is
programmed for `t0`, `t0 + p`, `t0 + 2 p`, ..., `min (k + 1) N` times, and so exactly `N` times when
every pulse has been stamped; with the value -1 it is programmed `k + 1` times. -/
theorem pulseTrain_exact (hw : PowerOn) (es₀ es : List DioEvent) (ioctlcmd : ℕ) (u : UserCall)
    (cmd : WrDioCmd) (hruns : u.runs ioctlcmd = some (.pulse, cmd))
    (hle : cmd.channel.toNat ≤ 4) (hnow : cmd.has wrDioFNow = false)
    (hloop : cmd.has wrDioFLoop = true) (hes : ∀ e ∈ es, ¬ e.pulseOn cmd.channel.toNat) :
    let ch := cmd.channel.toNat
    let before := run step (wrnMezzanineInit hw) es₀
    let after := run step before (.ioctl ioctlcmd u :: es)
    let k := es.countP (DioEvent.stampsOn ch)
    ∃ n, after.triggersOn ch =
        before.triggersOn ch ++ pulses ch (pulseStart u.utc cmd).ns (cmd.t 2).ns n ∧
      (∀ N : ℕ, 1 ≤ N → N < 2 ^ 31 → cmd.value = BitVec.ofNat 32 N →
        n = min (k + 1) N ∧ (k = n → n = N)) ∧
      (cmd.value = 0xffffffff → n = k + 1) := by
  intro ch before after k
  refine ⟨_, pulseTrain_run (ownTarget_run hw es₀) hruns rfl hle hnow hloop hes, ?_, ?_⟩
  · intro N hpos hlt hvalue
    rw [hvalue, pulsesIn_loopCount hpos hlt]
    refine ⟨rfl, fun hk => ?_⟩
    have hk' : k = min (k + 1) N := hk
    omega
  · intro hvalue
    rw [hvalue, pulsesIn_loopCount_neg_one]

/-- A train of two pulses on channel 0, the first of which has been stamped. -/
theorem pulseTrain_exact_two :
    (run step (wrnMezzanineInit .zero)
      [.ioctl privMezzanineCmd ⟨true, some ⟨0, 0, 2, wrDioFLoop, 0, fun i => ⟨5 - 2 * i, 0⟩⟩, true,
        ⟨0, 0, 0, 0⟩⟩,
      .interrupt ⟨true, 0, 0, 1, fun _ => [⟨0, 5, 0⟩]⟩]).triggersOn 0 =
      pulses 0 5000000000 1000000000 2 := by
  obtain ⟨n, htriggers, hcount, -⟩ := pulseTrain_exact .zero []
    [.interrupt ⟨true, 0, 0, 1, fun _ => [⟨0, 5, 0⟩]⟩] privMezzanineCmd
    ⟨true, some ⟨0, 0, 2, wrDioFLoop, 0, fun i => ⟨5 - 2 * i, 0⟩⟩, true, ⟨0, 0, 0, 0⟩⟩
    ⟨0, 0, 2, wrDioFLoop, 0, fun i => ⟨5 - 2 * i, 0⟩⟩ rfl (by decide) (by decide) (by decide)
    (by simp [DioEvent.pulseOn])
  obtain ⟨hn, -⟩ := hcount 2 (by decide) (by decide) rfl
  have htwo : n = 2 := hn.trans (by decide)
  subst htwo
  exact htriggers

end SpecSw.Dio
