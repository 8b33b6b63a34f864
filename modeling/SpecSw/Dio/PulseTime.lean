import Mathlib.Order.Monotone.Basic
import SpecSw.Dio.System

/-!
# The times of stamps and pulses

The gateware counts seconds in 40 bits and, within a second, cycles of 8 ns. A stamp is the time of
a sample less five cycles, as normalized seconds and nanoseconds; a pulse is programmed one cycle
before the time requested. Both corrections borrow from the seconds. A pulse requested 48 ns after
a stamp is programmed for the second and the cycle of its sample.

With `F_REL` the current second is added to the time requested. It is read from the PPS
generator in two halves, the high half twice, and the low half again when the high half has
changed.

## Main definitions

* `Dio.FifoSample.InRange`, `Dio.FifoSample.second`, `Dio.Trigger.second`.
* `Dio.UtcTimes`, `Dio.UtcTimes.reads`: the times at which the PPS generator is read.

## Main results

* `Dio.pulse_stamp_inverse`: stamps and pulses.
* `Dio.now_eq_counter`: the current second.
-/

namespace SpecSw.Dio

/-- The cycles of a second. -/
def cyclesPerSec : ℕ := 125000000

/-! ### Stamps -/

/-- The seconds of a sample. -/
def FifoSample.second (x : FifoSample) : ℕ := x.taiH.toNat * 2 ^ 32 + x.taiL.toNat

/-- A sample as the gateware makes it: eight bits of high seconds, and cycles within a second. -/
structure FifoSample.InRange (x : FifoSample) : Prop where
  taiH : x.taiH.toNat < 2 ^ 8
  cycle : x.cycle.toNat < cyclesPerSec

/-- Two halves of 32 bits. -/
theorem toNat_halves (h l : BitVec 32) : (h ++ l).toNat = h.toNat * 2 ^ 32 + l.toNat := by
  rw [BitVec.toNat_append, ← Nat.shiftLeft_add_eq_or_of_lt l.isLt, Nat.shiftLeft_eq]

section Stamps

variable {x : FifoSample}

theorem FifoSample.InRange.tvSec (h : x.InRange) : (x.taiH ++ x.taiL).toInt = x.second := by
  have hhi := h.taiH
  have hlo := x.taiL.isLt
  have hjoin : (x.taiH ++ x.taiL).toNat = x.second := toNat_halves x.taiH x.taiL
  rw [BitVec.toInt_eq_toNat_of_lt, hjoin]
  rw [hjoin, FifoSample.second]
  omega

theorem ns_stamp (h : x.InRange) :
    x.stamp.ns = x.second * nsecPerSec + 8 * x.cycle.toNat - 40 := by
  have hcycle := h.cycle
  have height : (8 * x.cycle).toNat = 8 * x.cycle.toNat := by
    rw [BitVec.toNat_mul]
    simp only [cyclesPerSec] at hcycle
    change 8 * x.cycle.toNat % 2 ^ 32 = _
    omega
  rw [FifoSample.stamp, wrnTsSub, ns_setNormalizedTimespec, h.tvSec, height]
  push_cast
  ring

theorem stamp_normalized (x : FifoSample) : x.stamp.Normalized :=
  setNormalizedTimespec_normalized _ _

/-- The interrupt stores the stamp of a sample at the head of the ring. -/
theorem pushSample_tsbuf (c : DioChannel) (x : FifoSample) :
    (pushSample c x).tsbuf c.bhead = x.stamp := Function.update_self _ _ _

end Stamps

/-! ### Pulses -/

/-- The seconds of a trigger. -/
def Trigger.second (p : Trigger) : ℕ := p.trigH.toNat * 2 ^ 32 + p.trigL.toNat

/-- The registers of a trigger, from the time that they name. -/
theorem triggerAt_toNat {t : ℤ} (hlo : 8 ≤ t) (hhi : t < 2 ^ 40 * nsecPerSec + 8) (ch : ℕ) :
    ((triggerAt ch t).second : ℤ) = (t - 8) / nsecPerSec ∧
      ((triggerAt ch t).cycle.toNat : ℤ) = (t - 8) % nsecPerSec / 8 := by
  simp only [nsecPerSec] at hhi
  simp only [Trigger.second, triggerAt, setNormalizedTimespec, nsecPerSec, BitVec.toNat_ofInt,
    Int.tdiv_eq_ediv_of_nonneg (Int.emod_nonneg (t - 8) (by decide : (1000000000 : ℤ) ≠ 0))]
  omega

/-- The time latched for a pulse is one cycle before the one requested, in whole cycles. -/
theorem triggerAt_cycles {t : ℤ} (hlo : 8 ≤ t) (hhi : t < 2 ^ 40 * nsecPerSec + 8) (ch : ℕ) :
    (triggerAt ch t).cycle.toNat < cyclesPerSec ∧
      ((triggerAt ch t).second * cyclesPerSec + (triggerAt ch t).cycle.toNat : ℤ) =
        (t - 8) / 8 := by
  obtain ⟨hsecond, hcycle⟩ := triggerAt_toNat hlo hhi ch
  simp only [nsecPerSec] at hsecond hcycle
  simp only [cyclesPerSec]
  omega

/-- The pulse for the time of a sample and one cycle more has its second and cycle. -/
theorem triggerAt_sample {x : FifoSample} (h : x.InRange) (ch : ℕ) :
    triggerAt ch (x.second * nsecPerSec + 8 * x.cycle.toNat + 8) =
      ⟨ch, x.taiL, x.taiH, x.cycle⟩ := by
  have hhi := h.taiH
  have hcycle := h.cycle
  have hlo := x.taiL.isLt
  have hlast : x.second < 2 ^ 40 := by
    rw [FifoSample.second]
    omega
  generalize ht : (x.second * nsecPerSec + 8 * x.cycle.toNat + 8 : ℤ) = t
  simp only [nsecPerSec, cyclesPerSec] at ht hcycle
  obtain ⟨hsecond', hcycle'⟩ :=
    @triggerAt_toNat t (by omega) (by simp only [nsecPerSec]; omega) ch
  simp only [nsecPerSec] at hsecond' hcycle'
  have hsame : (triggerAt ch t).second = x.second := by omega
  have hch : (triggerAt ch t).ch = ch := rfl
  have hl := (triggerAt ch t).trigL.isLt
  generalize triggerAt ch t = p at hch hsame hcycle' hl
  obtain ⟨i, trigL, trigH, cycle⟩ := p
  simp only [Trigger.second, FifoSample.second] at hch hsame hcycle' hl
  rw [hch, BitVec.eq_of_toNat_eq (by omega : trigL.toNat = x.taiL.toNat),
    BitVec.eq_of_toNat_eq (by omega : trigH.toNat = x.taiH.toNat),
    BitVec.eq_of_toNat_eq (by omega : cycle.toNat = x.cycle.toNat)]

/-- **Stamps and pulses.** The stamp stored for a sample is normalized and five cycles before the
sample. A pulse requested for a time is programmed one cycle before it, in whole cycles; and one
requested 48 ns after a stamp for the second and the cycle of its sample. -/
theorem pulse_stamp_inverse (d : WrnDrvdata) (ch : ℕ) :
    (∀ (c : DioChannel) (x : FifoSample), x.InRange →
      ((pushSample c x).tsbuf c.bhead).Normalized ∧
      ((pushSample c x).tsbuf c.bhead).ns = x.second * nsecPerSec + 8 * x.cycle.toNat - 40) ∧
    (∀ t : Timespec, 8 ≤ t.ns → t.ns < 2 ^ 40 * nsecPerSec →
      ∃ p : Trigger, (wrnNewPulse ch t d).2.dio.latched = d.dio.latched ++ [p] ∧ p.ch = ch ∧
        p.cycle.toNat < cyclesPerSec ∧
        (p.second * cyclesPerSec + p.cycle.toNat : ℤ) = (t.ns - 8) / 8) ∧
    ∀ (c : DioChannel) (x : FifoSample) (t : Timespec), x.InRange →
      t.ns = ((pushSample c x).tsbuf c.bhead).ns + 48 →
      (wrnNewPulse ch t d).2.dio.latched =
        d.dio.latched ++ [⟨ch, x.taiL, x.taiH, x.cycle⟩] := by
  refine ⟨fun c x hx => ?_, fun t hlo hhi => ?_, fun c x t hx ht => ?_⟩
  · rw [pushSample_tsbuf]
    exact ⟨stamp_normalized x, ns_stamp hx⟩
  · obtain ⟨hcycle, hcycles⟩ := triggerAt_cycles hlo (by omega) ch
    exact ⟨triggerAt ch t.ns, wrnNewPulse_latched ch t d, rfl, hcycle, hcycles⟩
  · rw [pushSample_tsbuf, ns_stamp hx] at ht
    have hsample : t.ns = x.second * nsecPerSec + 8 * x.cycle.toNat + 8 := by
      rw [ht]
      ring
    rw [wrnNewPulse_latched, hsample, triggerAt_sample hx]

/-- A sample whose stamp is in the second before. -/
theorem pulse_stamp_inverse_borrow :
    (pushSample .zero ⟨1, 7, 3⟩).tsbuf 0 = ⟨4294967302, 999999984⟩ ∧
    (wrnNewPulse 3 ⟨4294967302, 1000000032⟩ (wrnMezzanineInit .zero)).2.dio.latched =
      [⟨3, 7, 1, 3⟩] :=
  ⟨by decide, (pulse_stamp_inverse (wrnMezzanineInit .zero) 3).2.2 .zero ⟨1, 7, 3⟩
    ⟨4294967302, 1000000032⟩ ⟨by decide, by decide⟩ (by decide)⟩

/-! ### The current second -/

section CurrentSecond

variable {τ : Type*} [Preorder τ]

/-- The instants at which `wrn_dio_cmd_pulse` reads the PPS generator, in the order of the code. The
last one counts only if `CNTR_UTCLO` is read again. -/
structure UtcTimes (τ : Type*) where
  h1 : τ
  l : τ
  h2 : τ
  l2 : τ

/-- What the reads return: the low 32 bits of the counter, and the eight above them. -/
def UtcTimes.reads (counter : τ → ℕ) (t : UtcTimes τ) : UtcReads where
  h1 := BitVec.ofNat 32 (counter t.h1 / 2 ^ 32 % 2 ^ 8)
  l := BitVec.ofNat 32 (counter t.l)
  h2 := BitVec.ofNat 32 (counter t.h2 / 2 ^ 32 % 2 ^ 8)
  l2 := BitVec.ofNat 32 (counter t.l2)

/-- The instant of the last read. -/
def UtcTimes.last (counter : τ → ℕ) (t : UtcTimes τ) : τ :=
  if (t.reads counter).h2 ≠ (t.reads counter).h1 then t.l2 else t.h2

/-- The reads are made one after the other. -/
structure UtcTimes.Ordered (t : UtcTimes τ) : Prop where
  l : t.h1 ≤ t.l
  h2 : t.l ≤ t.h2
  l2 : t.h2 ≤ t.l2

/-- A counter of 40 bits that does not go back. -/
structure SecondCounter (counter : τ → ℕ) : Prop where
  mono : Monotone counter
  lt : ∀ t, counter t < 2 ^ 40

variable {counter : τ → ℕ} {t : UtcTimes τ}

/-- A high and a low half read while the high half does not change make up a value of the
counter. -/
theorem halves_eq_counter (hc : SecondCounter counter) {s s' : τ}
    (hsame : counter s / 2 ^ 32 = counter s' / 2 ^ 32) :
    ((BitVec.ofNat 32 (counter s / 2 ^ 32 % 2 ^ 8) ++ BitVec.ofNat 32 (counter s')).toNat : ℤ) =
      counter s' := by
  have hlt := hc.lt s
  rw [toNat_halves, BitVec.toNat_ofNat, BitVec.toNat_ofNat]
  omega

theorem high_ne_iff (hc : SecondCounter counter) :
    (t.reads counter).h2 ≠ (t.reads counter).h1 ↔
      counter t.h2 / 2 ^ 32 ≠ counter t.h1 / 2 ^ 32 := by
  have h1 := hc.lt t.h1
  have h2 := hc.lt t.h2
  rw [not_iff_not, UtcTimes.reads, ← BitVec.toNat_inj, BitVec.toNat_ofNat, BitVec.toNat_ofNat]
  omega

/-- The current second read is one that the counter has had between the first and the last read. -/
theorem exists_now_eq (hc : SecondCounter counter) (ht : t.Ordered)
    (hwrap : counter (t.last counter) / 2 ^ 32 ≤ counter t.h1 / 2 ^ 32 + 1) :
    ∃ s, t.h1 ≤ s ∧ s ≤ t.last counter ∧ (t.reads counter).now = counter s := by
  have hmono : ∀ {s s' : τ}, s ≤ s' → counter s / 2 ^ 32 ≤ counter s' / 2 ^ 32 :=
    fun h => Nat.div_le_div_right (hc.mono h)
  by_cases hne : (t.reads counter).h2 ≠ (t.reads counter).h1
  · -- The low half has wrapped by the third read, and does not again before the fourth.
    have hlast : t.last counter = t.l2 := if_pos hne
    rw [hlast] at hwrap ⊢
    refine ⟨t.l2, ht.l.trans (ht.h2.trans ht.l2), le_refl _, ?_⟩
    have hfirst := hmono (ht.l.trans ht.h2)
    have hsecond := hmono ht.l2
    have hdiff := (high_ne_iff hc).mp hne
    rw [UtcReads.now, if_pos hne]
    exact halves_eq_counter hc (by omega)
  · have hlast : t.last counter = t.h2 := if_neg hne
    rw [hlast]
    refine ⟨t.l, ht.l, ht.h2, ?_⟩
    have hfirst := hmono ht.l
    have hsecond := hmono ht.h2
    have hsame := not_not.mp (mt (high_ne_iff hc).mpr hne)
    rw [UtcReads.now, if_neg hne]
    exact halves_eq_counter hc (by omega)

end CurrentSecond

/-- **The current second.** For any counter of 40 bits that does not go back, and any reads one
after the other during which its low half wraps at most once, a PULSE with `F_REL` adds to `t[0]` a
second that the counter has had between the first and the last read, and latches its pulse for
that time. -/
theorem now_eq_counter {τ : Type*} [Preorder τ] {counter : τ → ℕ} (hc : SecondCounter counter)
    {t : UtcTimes τ} (ht : t.Ordered)
    (hwrap : counter (t.last counter) / 2 ^ 32 ≤ counter t.h1 / 2 ^ 32 + 1) (d : WrnDrvdata)
    (cmd : WrDioCmd) (hch : cmd.channel.toNat ≤ 4) (hnow : cmd.has wrDioFNow = false)
    (hrel : cmd.has wrDioFRel = true) :
    ∃ s, t.h1 ≤ s ∧ s ≤ t.last counter ∧
      pulseStart (t.reads counter) cmd =
        ⟨(cmd.t 0).tvSec + counter s, (cmd.t 0).tvNsec⟩ ∧
      (wrnDioCmdPulse (t.reads counter) d cmd).drvdata.dio.latched =
        d.dio.latched ++ [triggerAt cmd.channel.toNat
          ((cmd.t 0).ns + counter s * nsecPerSec)] := by
  obtain ⟨s, hfirst, hlast, hs⟩ := exists_now_eq hc ht hwrap
  have hstart : pulseStart (t.reads counter) cmd =
      ⟨(cmd.t 0).tvSec + counter s, (cmd.t 0).tvNsec⟩ := by
    rw [pulseStart, addNow, if_pos hrel, hs]
    simp [WrDioCmd.setT]
  refine ⟨s, hfirst, hlast, hstart, ?_⟩
  rcases wrnDioCmdPulse_cases (t.reads counter) d cmd with ⟨hbig, -⟩ | ⟨-, htrue, -⟩ |
    ⟨-, -, -, hlatched⟩
  · omega
  · rw [hnow] at htrue
    cases htrue
  · rw [hlatched, hstart, Timespec.ns, Timespec.ns]
    congr 3
    ring

/-- A counter whose low half wraps at the instant 2. -/
def wrappingCounter (t : ℕ) : ℕ := 2 ^ 32 - 2 + min t 4

theorem wrappingCounter_ok : SecondCounter wrappingCounter where
  mono s s' h := by
    simp only [wrappingCounter]
    omega
  lt s := by
    simp only [wrappingCounter]
    omega

/-- A pulse on channel 1, three seconds from now. -/
def relativePulse : WrDioCmd := ⟨0, 1, 0, wrDioFRel, 0, fun _ => ⟨3, 0⟩⟩

theorem now_eq_counter_wrapping : ∃ s, 0 ≤ s ∧
    s ≤ UtcTimes.last wrappingCounter ⟨0, 1, 2, 3⟩ ∧
    pulseStart (UtcTimes.reads wrappingCounter ⟨0, 1, 2, 3⟩) relativePulse =
      ⟨3 + wrappingCounter s, 0⟩ ∧
    (wrnDioCmdPulse (UtcTimes.reads wrappingCounter ⟨0, 1, 2, 3⟩)
      (wrnMezzanineInit .zero) relativePulse).drvdata.dio.latched =
      [triggerAt 1 (3 * nsecPerSec + 0 + wrappingCounter s * nsecPerSec)] :=
  now_eq_counter wrappingCounter_ok (t := ⟨0, 1, 2, 3⟩) ⟨by decide, by decide, by decide⟩
    (by decide) (wrnMezzanineInit .zero) relativePulse (by decide) (by decide) (by decide)

end SpecSw.Dio
