import SpecSw.Carrier.EepromAccess

/-!
# The bounds of EEPROM accesses

`spec_read_ee` and `spec_write_ee` pass a position and a length, both `int`, to functions that take
them as `uint32_t` and `size_t` and compare the position and the sum with the size of the EEPROM.
The length is extended with its sign to 64 bits and the sum wraps, so what is compared with the size
is the sum of the two integers whenever that is not negative. A negative length that does not reach
below the start of the EEPROM is not noticed.

## Main definitions

* `Carrier.RangeChecks`: the checks, as both functions make them.
* `Carrier.eepromReadBus`, `Carrier.eeCallPast`: what follows the checks.
* `Carrier.BoundsExact`: a call is let through exactly when it is in range, and has no effect
  otherwise.

## Main results

* `Carrier.eeCall_eq`: a call is checked, then made.
* `Carrier.boundsExact_iff`, `Carrier.not_forall_boundsExact`.
-/

namespace SpecSw.Carrier

open I2cBus Errno

/-! ### The checks and what follows them -/

/-- The range checks of `spec_eeprom_read` and `spec_eeprom_write` let a request through. -/
def RangeChecks (offset : BitVec 32) (size : BitVec 64) : Prop :=
  ¬ specI2cEepromSize < offset.setWidth 64 ∧ ¬ specI2cEepromSize < offset.setWidth 64 + size

instance (offset : BitVec 32) (size : BitVec 64) : Decidable (RangeChecks offset size) :=
  inferInstanceAs (Decidable (_ ∧ _))

section Calls

variable {σ : Type*} (T : Target σ)

/-- `spec_eeprom_read` from its first START on. -/
def eepromReadBus (fmc : FmcDevice) (offset : BitVec 32) (size : BitVec 64) (b : Bus σ) :
    ℤ × List (BitVec 8) × Bus σ :=
  let (err, b) := mi2cPutByte T (fmc.eepromAddr <<< 1) (mi2cStart T b)
  if err < 0 then (-eio, [], mi2cStop T b)
  else
    let b := mi2cStart T (mi2cStop T (putOffset T offset b))
    let b := (mi2cPutByte T ((fmc.eepromAddr <<< 1) ||| 1) b).2
    let (buf, b) := readBytes T size.toNat b
    (int32 size.toNat, buf, mi2cStop T b)

theorem specEepromRead_eq {fmc : FmcDevice} (hhw : fmc.flags &&& specFlagFakeEeprom = 0)
    (offset : BitVec 32) (size : BitVec 64) (b : Bus σ) :
    specEepromRead T fmc offset size b =
      if RangeChecks offset size then eepromReadBus T fmc offset size b else (-einval, [], b) := by
  rw [specEepromRead, if_neg (not_not.mpr hhw)]
  by_cases hoffset : specI2cEepromSize < offset.setWidth 64
  · rw [if_pos hoffset, if_neg fun h => h.1 hoffset]
  · by_cases hsum : specI2cEepromSize < offset.setWidth 64 + size
    · rw [if_neg hoffset, if_pos hsum, if_neg fun h => h.2 hsum]
    · rw [if_neg hoffset, if_neg hsum, if_pos (show RangeChecks offset size from ⟨hoffset, hsum⟩)]
      rfl

theorem specEepromWrite_eq (fuel : ℕ) (fmc : FmcDevice) (offset : BitVec 32) (buf : ℕ → BitVec 8)
    (size : BitVec 64) (b : Bus σ) :
    specEepromWrite T fuel fmc offset buf size b =
      if RangeChecks offset size then
        writeBytes T fuel (int32 size.toNat) size.toNat fmc offset buf b
      else some (-einval, fmc, b) := by
  rw [specEepromWrite]
  by_cases hoffset : specI2cEepromSize < offset.setWidth 64
  · rw [if_pos hoffset, if_neg fun h => h.1 hoffset]
  · by_cases hsum : specI2cEepromSize < offset.setWidth 64 + size
    · rw [if_neg hoffset, if_pos hsum, if_neg fun h => h.2 hsum]
    · rw [if_neg hoffset, if_neg hsum, if_pos (show RangeChecks offset size from ⟨hoffset, hsum⟩)]

namespace EeCall

/-- The position. -/
def pos : EeCall → ℤ
  | read pos _ _ => pos
  | write pos _ _ => pos

/-- What the caller's buffer holds. -/
def buf : EeCall → ℕ → BitVec 8
  | read _ _ buffer => buffer
  | write _ _ data => data

/-- Position and length are `int`s. -/
structure Ints (call : EeCall) : Prop where
  pos_lo : -2 ^ 31 ≤ call.pos
  pos_hi : call.pos < 2 ^ 31
  len_lo : -2 ^ 31 ≤ call.length
  len_hi : call.length < 2 ^ 31

/-- The range checks let the call through. -/
def Passes (call : EeCall) : Prop :=
  RangeChecks (BitVec.ofInt 32 call.pos) (BitVec.ofInt 64 call.length)

instance (call : EeCall) : Decidable call.Passes :=
  inferInstanceAs (Decidable (RangeChecks _ _))

theorem inRange_iff (call : EeCall) :
    call.InRange ↔ 0 ≤ call.pos ∧ 0 ≤ call.length ∧ call.pos + call.length ≤ 8192 := by
  cases call with
  | read pos len buffer => exact Iff.rfl
  | write pos len data => exact Iff.rfl

end EeCall

/-- A call on a card with the golden gateware and an EEPROM, from where the checks have been
made. -/
def eeCallPast (fuel : ℕ) (c : EeCard σ) : EeCall → Option (EeOutcome σ)
  | .read pos len buffer =>
    let r := eepromReadBus T c.fmc (BitVec.ofInt 32 pos) (BitVec.ofInt 64 len) c.bus
    some ⟨r.1, store r.2.1 buffer, { c with bus := r.2.2 }⟩
  | .write pos len data =>
    (writeBytes T fuel (int32 (BitVec.ofInt 64 len).toNat) (BitVec.ofInt 64 len).toNat c.fmc
      (BitVec.ofInt 32 pos) data c.bus).map fun r =>
        ⟨r.1, data, { c with fmc := r.2.1, bus := r.2.2 }⟩

/-- A call is checked and, if it is not let through, returns -EINVAL and has no effect. -/
theorem eeCall_eq (fuel : ℕ) {c : EeCard σ} (hgolden : c.hasGolden = true)
    (hhw : c.fmc.flags &&& specFlagFakeEeprom = 0) (call : EeCall) :
    eeCall T fuel c call =
      if call.Passes then eeCallPast T fuel c call else some ⟨-einval, call.buf, c⟩ := by
  have hfalse : ¬ (!c.hasGolden) = true := by
    rw [hgolden]
    decide
  cases call with
  | read pos len buffer =>
    have hread : specReadEe T c pos len =
        if RangeChecks (BitVec.ofInt 32 pos) (BitVec.ofInt 64 len) then
          eepromReadBus T c.fmc (BitVec.ofInt 32 pos) (BitVec.ofInt 64 len) c.bus
        else (-einval, [], c.bus) := by
      rw [specReadEe, if_neg hfalse, specEepromRead_eq T hhw]
    rw [eeCall, hread]
    by_cases hpass : RangeChecks (BitVec.ofInt 32 pos) (BitVec.ofInt 64 len)
    · rw [if_pos hpass, if_pos (show (EeCall.read pos len buffer).Passes from hpass)]
      rfl
    · rw [if_neg hpass, if_neg (show ¬ (EeCall.read pos len buffer).Passes from hpass)]
      rfl
  | write pos len data =>
    rw [eeCall, specWriteEe, if_neg hfalse, specEepromWrite_eq]
    by_cases hpass : RangeChecks (BitVec.ofInt 32 pos) (BitVec.ofInt 64 len)
    · rw [if_pos hpass, if_pos (show (EeCall.write pos len data).Passes from hpass)]
      rfl
    · rw [if_neg hpass, if_neg (show ¬ (EeCall.write pos len data).Passes from hpass)]
      rfl

/-- The call is let through exactly when it is in range, and otherwise it returns -EINVAL and
changes neither the caller's buffer nor the card, with its bus and its copy of the EEPROM. -/
structure BoundsExact (fuel : ℕ) (c : EeCard σ) (call : EeCall) : Prop where
  passes : call.Passes ↔ call.InRange
  rejects : ¬ call.InRange → eeCall T fuel c call = some ⟨-einval, call.buf, c⟩

end Calls

/-! ### The arithmetic of the checks -/

theorem rangeChecks_iff (offset : BitVec 32) (size : BitVec 64) :
    RangeChecks offset size ↔
      offset.toNat ≤ 8192 ∧ (offset.toNat + size.toNat) % 2 ^ 64 ≤ 8192 := by
  have hlt := offset.isLt
  have hoffset : (offset.setWidth 64).toNat = offset.toNat := by
    rw [BitVec.toNat_setWidth]
    omega
  rw [RangeChecks, BitVec.lt_def, BitVec.lt_def, BitVec.toNat_add, hoffset, not_lt, not_lt]
  rfl

/-- For `int`s the checks compare the position and the sum, where neither is negative. -/
theorem EeCall.Ints.passes_iff {call : EeCall} (h : call.Ints) :
    call.Passes ↔ (0 ≤ call.pos ∧ call.pos ≤ 8192) ∧
      0 ≤ call.pos + call.length ∧ call.pos + call.length ≤ 8192 := by
  obtain ⟨hpos, hpos', hlen, hlen'⟩ := h
  rw [EeCall.Passes, rangeChecks_iff, BitVec.toNat_ofInt, BitVec.toNat_ofInt]
  omega

/-- **The bounds of EEPROM accesses.** On a card with the golden gateware and an EEPROM, a call with
`int` arguments is let through exactly when it is in range, and has no effect otherwise, unless its
length is negative, its position is inside and its end is not below the start. -/
theorem boundsExact_iff {σ : Type*} (T : Target σ) (fuel : ℕ) {c : EeCard σ}
    (hgolden : c.hasGolden = true) (hhw : c.fmc.flags &&& specFlagFakeEeprom = 0) {call : EeCall}
    (hints : call.Ints) :
    BoundsExact T fuel c call ↔
      ¬ (call.length < 0 ∧ call.pos ≤ 8192 ∧ 0 ≤ call.pos + call.length) := by
  have hpasses : (call.Passes ↔ call.InRange) ↔
      ¬ (call.length < 0 ∧ call.pos ≤ 8192 ∧ 0 ≤ call.pos + call.length) := by
    rw [hints.passes_iff, call.inRange_iff]
    omega
  refine ⟨fun h => hpasses.mp h.passes, fun h => ⟨hpasses.mpr h, fun hout => ?_⟩⟩
  rw [eeCall_eq T fuel hgolden hhw, if_neg fun hpass => hout ((hpasses.mpr h).mp hpass)]

theorem boundsExact_before_start :
    BoundsExact (eepromTarget fun _ => 0) 1 (erasedCard 0) (.read 4 (-5) fun _ => 0) :=
  (boundsExact_iff _ 1 rfl rfl ⟨by decide, by decide, by decide, by decide⟩).mpr (by decide)

/-- Five bytes back from the position 10. -/
theorem not_forall_boundsExact : ¬ ∀ (fuel : ℕ) (c : EeCard Eeprom) (call : EeCall),
    c.hasGolden = true → c.fmc.flags &&& specFlagFakeEeprom = 0 → call.Ints →
      BoundsExact (eepromTarget fun _ => 0) fuel c call := by
  intro hall
  have hexact := hall 1 (erasedCard 0) (.read 10 (-5) fun _ => 0) rfl rfl
    ⟨by decide, by decide, by decide, by decide⟩
  have hpass : (EeCall.read 10 (-5) fun _ => 0).Passes := by decide
  exact absurd (hexact.passes.mp hpass) (by decide)

end SpecSw.Carrier
