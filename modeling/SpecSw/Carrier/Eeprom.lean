import Mathlib.Data.Finset.Lattice.Fold
import SpecSw.Carrier.I2cMaster
import SpecSw.Library.I2cEeprom

/-!
# Reading and writing the EEPROM of the mezzanine

`spec_eeprom_read` reads any range of the EEPROM in one go: the two address bytes in a transaction
of their own, and then the bytes, the last one without an acknowledgement. `spec_eeprom_write`
writes byte by byte, and after each asks for the device until it answers; it keeps the copy in
`fmc->eeprom` up to date. Neither uses the bus when the EEPROM of the card is a fake one.

The definitions, and the results for an address that nobody answers, are for any device on the bus;
the transfers are for the EEPROM of `Library.I2cEeprom`.

## Main definitions

* `Carrier.FmcDevice`.
* `Carrier.specEepromRead`, `Carrier.specEepromWrite`.

## Main results

* `Carrier.specEepromRead_answered`, `Carrier.specEepromWrite_answered`,
  `Carrier.specEepromRead_refused`, `Carrier.specEepromWrite_refused`.
* `Carrier.eeprom_transactions`.
-/

namespace SpecSw.Carrier

open I2cBus Errno

/-- `SPEC_FLAG_FAKE_EEPROM`. -/
def specFlagFakeEeprom : BitVec 32 := 1

/-- `SPEC_I2C_EEPROM_SIZE`, a `size_t`. -/
def specI2cEepromSize : BitVec 64 := 8 * 1024

/-- The fields of `struct fmc_device` that the functions use, with the `flags` of its carrier. -/
structure FmcDevice where
  flags : BitVec 32
  eepromAddr : BitVec 32
  eeprom : ℕ → BitVec 8

section Functions

variable {σ : Type*} (T : Target σ)

/-- The two address bytes, as both functions put them. -/
def putOffset (offset : BitVec 32) (b : Bus σ) : Bus σ :=
  let b := (mi2cPutByte T ((offset >>> 8) &&& 0xff) b).2
  (mi2cPutByte T (offset &&& 0xff) b).2

/-- The loop of `spec_eeprom_read` with `size` bytes to go: the bytes it stores in the buffer. -/
def readBytes : ℕ → Bus σ → List (BitVec 8) × Bus σ
  | 0, b => ([], b)
  | size + 1, b =>
    let (c, b) := mi2cGetByte T (size != 0) b
    let (buf, b) := readBytes size b
    (c :: buf, b)

/-- `spec_eeprom_read`: the result, the bytes it stores in the buffer, and the bus. -/
def specEepromRead (fmc : FmcDevice) (offset : BitVec 32) (size : BitVec 64) (b : Bus σ) :
    ℤ × List (BitVec 8) × Bus σ :=
  let ret := int32 size.toNat
  if fmc.flags &&& specFlagFakeEeprom ≠ 0 then (int32 size.toNat, [], b)
  else if specI2cEepromSize < offset.setWidth 64 then (-einval, [], b)
  else if specI2cEepromSize < offset.setWidth 64 + size then (-einval, [], b)
  else
    let (err, b) := mi2cPutByte T (fmc.eepromAddr <<< 1) (mi2cStart T b)
    if err < 0 then (-eio, [], mi2cStop T b)
    else
      let b := mi2cStart T (mi2cStop T (putOffset T offset b))
      let b := (mi2cPutByte T ((fmc.eepromAddr <<< 1) ||| 1) b).2
      let (buf, b) := readBytes T size.toNat b
      (ret, buf, mi2cStop T b)

/-- The `do` loop of `spec_eeprom_write`: wait until the chip becomes ready. -/
def waitReady (eepromAddr : BitVec 32) : ℕ → Bus σ → Option (Bus σ)
  | 0, _ => none
  | fuel + 1, b =>
    let (busy, b) := mi2cPutByte T (eepromAddr <<< 1) (mi2cStart T b)
    let b := mi2cStop T b
    if busy ≠ 0 then waitReady eepromAddr fuel b else some b

/-- The loop of `spec_eeprom_write` with `left` bytes to go, from the place in the buffer and in
the EEPROM that it has come to; `size` is returned at its end. -/
def writeBytes (fuel : ℕ) (size : ℤ) :
    ℕ → FmcDevice → BitVec 32 → (ℕ → BitVec 8) → Bus σ → Option (ℤ × FmcDevice × Bus σ)
  | 0, fmc, _, _, b => some (size, fmc, b)
  | left + 1, fmc, offset, buf, b =>
    let cached := { fmc with eeprom := Function.update fmc.eeprom offset.toNat (buf 0) }
    if fmc.flags &&& specFlagFakeEeprom ≠ 0 then
      writeBytes fuel size left cached (offset + 1) (fun i => buf (i + 1)) b
    else
      let (err, b) := mi2cPutByte T (fmc.eepromAddr <<< 1) (mi2cStart T b)
      if err < 0 then some (-1, fmc, mi2cStop T b)
      else
        let b := (mi2cPutByte T ((buf 0).setWidth 32) (putOffset T offset b)).2
        match waitReady T fmc.eepromAddr fuel (mi2cStop T b) with
        | none => none
        | some b => writeBytes fuel size left cached (offset + 1) (fun i => buf (i + 1)) b

/-- `spec_eeprom_write`: the result, the card and the bus, or `none` when the device still does not
answer after `fuel` tries. -/
def specEepromWrite (fuel : ℕ) (fmc : FmcDevice) (offset : BitVec 32) (buf : ℕ → BitVec 8)
    (size : BitVec 64) (b : Bus σ) : Option (ℤ × FmcDevice × Bus σ) :=
  if specI2cEepromSize < offset.setWidth 64 then some (-einval, fmc, b)
  else if specI2cEepromSize < offset.setWidth 64 + size then some (-einval, fmc, b)
  else writeBytes T fuel (int32 size.toNat) size.toNat fmc offset buf b

end Functions

/-! ### The bytes on the bus -/

theorem setWidth_and_0xff (x : BitVec 32) : (x &&& 0xff).setWidth 8 = x.setWidth 8 := by
  rw [BitVec.setWidth_and, show (0xff : BitVec 32).setWidth 8 = BitVec.allOnes 8 from rfl,
    BitVec.and_allOnes]

/-- The address of a device and the bit below it. -/
theorem addressByte (a : BitVec 32) (v : Bool) :
    ((a <<< 1 ||| (BitVec.ofBool v).setWidth 32).setWidth 8).extractLsb' 1 7 = a.setWidth 7 ∧
      ((a <<< 1 ||| (BitVec.ofBool v).setWidth 32).setWidth 8).getLsbD 0 = v := by
  constructor
  · refine BitVec.eq_of_getLsbD_eq fun i hi => ?_
    have hlt : 1 + i < 8 := by omega
    have hpos : ¬ 1 + i < 1 := by omega
    simp [hi, hlt, hpos]
  · cases v <;> simp

theorem addressByte_write (a : BitVec 32) :
    ((a <<< 1).setWidth 8).extractLsb' 1 7 = a.setWidth 7 ∧
      ((a <<< 1).setWidth 8).getLsbD 0 = false := by
  have h := addressByte a false
  rwa [show (BitVec.ofBool false).setWidth 32 = 0#32 from rfl, BitVec.or_zero] at h

theorem addressByte_read (a : BitVec 32) :
    ((a <<< 1 ||| 1).setWidth 8).extractLsb' 1 7 = a.setWidth 7 ∧
      ((a <<< 1 ||| 1).setWidth 8).getLsbD 0 = true :=
  addressByte a true

/-- The two address bytes put together. -/
theorem offset_bytes (x : BitVec 32) :
    ((x >>> 8).setWidth 8 ++ x.setWidth 8).setWidth 13 = x.setWidth 13 := by
  refine BitVec.eq_of_getLsbD_eq fun i hi => ?_
  rw [BitVec.getLsbD_setWidth, BitVec.getLsbD_append, BitVec.getLsbD_setWidth]
  by_cases h : i < 8
  · simp [h]
  · have hlow : i - 8 < 8 := by omega
    rw [if_neg h, BitVec.getLsbD_setWidth, BitVec.getLsbD_ushiftRight,
      show 8 + (i - 8) = i by omega]
    simp [hlow]

/-- The range checks pass inside the EEPROM. -/
theorem specI2cEepromSize_checks {offset : BitVec 32} {size : BitVec 64}
    (hrange : offset.toNat + size.toNat ≤ 8192) :
    ¬ specI2cEepromSize < offset.setWidth 64 ∧
      ¬ specI2cEepromSize < offset.setWidth 64 + size := by
  have hoffset : (offset.setWidth 64).toNat = offset.toNat := by
    rw [BitVec.toNat_setWidth]
    omega
  have hsum : (offset.setWidth 64 + size).toNat = offset.toNat + size.toNat := by
    rw [BitVec.toNat_add, hoffset]
    omega
  simp only [BitVec.lt_def, hoffset, hsum, show specI2cEepromSize.toNat = 8192 from rfl]
  omega

/-! ### Nobody answers -/

section Refused

variable {σ : Type*} {T : Target σ} {fmc : FmcDevice} {offset : BitVec 32} {size : BitVec 64}
  {b : Bus σ}

/-- The bus after a transaction with the address `a` alone, that nobody has answered. -/
def unanswered (T : Target σ) (a : BitVec 32) (b : Bus σ) : Bus σ :=
  ⟨true, true, ⟨T.stop (T.receive (T.start b.node.dev) ((a <<< 1).setWidth 8)).2, .idle, true⟩,
    b.conds ++ Bus.transactions 1⟩

/-- An address byte that is not acknowledged, and the STOP after it. -/
theorem address_refused {a : BitVec 32} (h : b.Idle)
    (hack : (T.receive (T.start b.node.dev) ((a <<< 1).setWidth 8)).1 = false) :
    ∃ b', mi2cPutByte T (a <<< 1) (mi2cStart T b) = (-eio, b') ∧
      mi2cStop T b' = unanswered T a b := by
  rw [mi2cStart_of_idle h, Node.start, mi2cPutByte_refused hack]
  refine ⟨_, rfl, ?_⟩
  rw [mi2cStop_released rfl, List.append_assoc]
  rfl

/-- When nobody answers, nothing is read. -/
theorem specEepromRead_refused (hhw : fmc.flags &&& specFlagFakeEeprom = 0)
    (hrange : offset.toNat + size.toNat ≤ 8192) (h : b.Idle)
    (hack : (T.receive (T.start b.node.dev) ((fmc.eepromAddr <<< 1).setWidth 8)).1 = false) :
    specEepromRead T fmc offset size b = (-eio, [], unanswered T fmc.eepromAddr b) := by
  obtain ⟨hoffset, hsum⟩ := specI2cEepromSize_checks hrange
  obtain ⟨b', hput, hstop⟩ := address_refused h hack
  rw [specEepromRead, if_neg (not_not.mpr hhw), if_neg hoffset, if_neg hsum, hput, ← hstop]
  exact if_pos (by decide)

/-- When nobody answers, nothing is written. -/
theorem specEepromWrite_refused (hhw : fmc.flags &&& specFlagFakeEeprom = 0)
    (hrange : offset.toNat + size.toNat ≤ 8192) (hsize : 1 ≤ size.toNat) (h : b.Idle)
    (hack : (T.receive (T.start b.node.dev) ((fmc.eepromAddr <<< 1).setWidth 8)).1 = false)
    (fuel : ℕ) (buf : ℕ → BitVec 8) :
    specEepromWrite T fuel fmc offset buf size b =
      some (-1, fmc, unanswered T fmc.eepromAddr b) := by
  obtain ⟨hoffset, hsum⟩ := specI2cEepromSize_checks hrange
  obtain ⟨b', hput, hstop⟩ := address_refused h hack
  obtain ⟨left, hleft⟩ : ∃ left, size.toNat = left + 1 := ⟨size.toNat - 1, by omega⟩
  rw [specEepromWrite, if_neg hoffset, if_neg hsum, hleft, writeBytes, if_neg (not_not.mpr hhw),
    hput, ← hstop]
  exact if_pos (by decide)

end Refused

/-! ### The EEPROM answers -/

/-- On an idle bus, an EEPROM with the address `a`. -/
structure Attached (a : BitVec 32) (b : Bus Eeprom) : Prop where
  idle : b.Idle
  devAddr : b.node.dev.devAddr = a.setWidth 7

section Answered

variable {busyTime : ℕ → ℕ} {a : BitVec 32} {b : Bus Eeprom}

/-- The address byte of a write is acknowledged, and the device waits for the next byte. -/
theorem Attached.put_write (h : Attached a b) (hbusy : b.node.dev.busy = 0) :
    mi2cPutByte (eepromTarget busyTime) (a <<< 1) (mi2cStart (eepromTarget busyTime) b) =
      (0, ⟨false, false,
        ⟨{ b.node.dev with stage := .addrHigh, pending := [] }, .receiving 0 0, true⟩,
        b.conds ++ [.start]⟩) := by
  obtain ⟨hbyte, hbit⟩ := addressByte_write a
  rw [mi2cStart_of_idle h.idle, Node.start]
  exact mi2cPutByte_acked (Eeprom.receive_write (hbyte.trans h.devAddr.symm) hbit hbusy) rfl

/-- The address byte of a read is acknowledged, and the device sends from its pointer. -/
theorem Attached.put_read (h : Attached a b) (hbusy : b.node.dev.busy = 0) :
    mi2cPutByte (eepromTarget busyTime) ((a <<< 1) ||| 1) (mi2cStart (eepromTarget busyTime) b) =
      (0, ⟨false, false,
        Node.load (eepromTarget busyTime) { b.node.dev with stage := .reading, pending := [] },
        b.conds ++ [.start]⟩) := by
  obtain ⟨hbyte, hbit⟩ := addressByte_read a
  rw [mi2cStart_of_idle h.idle, Node.start]
  exact mi2cPutByte_acked_sends (Eeprom.receive_read (hbyte.trans h.devAddr.symm) hbit hbusy) rfl

/-- The two address bytes set the pointer. -/
theorem putOffset_addrHigh {e : Eeprom} (he : e.stage = .addrHigh) (offset : BitVec 32) (s : Bool)
    (cs : List Cond) :
    putOffset (eepromTarget busyTime) offset ⟨false, s, ⟨e, .receiving 0 0, true⟩, cs⟩ =
      ⟨false, false,
        ⟨{ e with stage := .writing, ptr := offset.setWidth 13 }, .receiving 0 0, true⟩, cs⟩ := by
  have hhigh : (eepromTarget busyTime).receive e (((offset >>> 8) &&& 0xff).setWidth 8) =
      (true, { e with stage := .addrLow ((offset >>> 8).setWidth 8) }) := by
    rw [setWidth_and_0xff]
    simp [eepromTarget, Eeprom.receive, he]
  have hlow : (eepromTarget busyTime).receive
      { e with stage := .addrLow ((offset >>> 8).setWidth 8) } ((offset &&& 0xff).setWidth 8) =
      (true, { e with stage := .writing, ptr := offset.setWidth 13 }) := by
    rw [setWidth_and_0xff, ← offset_bytes offset]
    rfl
  rw [putOffset, mi2cPutByte_acked hhigh rfl]
  simp only [mi2cPutByte_acked hlow rfl]

/-- The bytes that a device sends, the last one without an acknowledgement. -/
theorem readBytes_load {σ : Type*} (T : Target σ) (dev : σ) (size : ℕ) (s : Bool)
    (cs : List Cond) :
    readBytes T (size + 1) ⟨false, s, Node.load T dev, cs⟩ =
      ((List.range (size + 1)).map fun i => T.byte (T.sent^[i] dev),
        ⟨false, false, ⟨T.sent^[size + 1] dev, .idle, true⟩, cs⟩) := by
  induction size generalizing dev s with
  | zero =>
    rw [readBytes, mi2cGetByte_sending]
    rfl
  | succ size ih =>
    rw [readBytes, mi2cGetByte_sending, if_pos (by simp), List.range_succ_eq_map, List.map_cons,
      List.map_map]
    simp only [ih]
    rfl

/-! ### Reading -/

/-- `n` bytes of a memory, from `offset`. -/
def slice (mem : BitVec 13 → BitVec 8) (offset n : ℕ) : List (BitVec 8) :=
  (List.range n).map fun i => mem (BitVec.ofNat 13 (offset + i))

/-- The bytes sent from the pointer on. -/
theorem byte_sent_iterate (e : Eeprom) (offset : BitVec 32) (he : e.ptr = offset.setWidth 13)
    (n : ℕ) :
    ((List.range n).map fun i =>
      (eepromTarget busyTime).byte ((eepromTarget busyTime).sent^[i] e)) =
      slice e.mem offset.toNat n := by
  refine List.map_congr_left fun i _ => ?_
  have hptr : e.ptr + BitVec.ofNat 13 i = BitVec.ofNat 13 (offset.toNat + i) := by
    rw [he, BitVec.ofNat_add]
    rfl
  change (Eeprom.sent^[i] e).mem (Eeprom.sent^[i] e).ptr = _
  rw [Eeprom.sent_iterate, hptr]

variable {fmc : FmcDevice} {offset : BitVec 32} {size : BitVec 64}

/-- The bus after a transaction that sets the pointer. -/
def afterOffset (offset : BitVec 32) (b : Bus Eeprom) : Bus Eeprom :=
  ⟨true, true,
    ⟨{ b.node.dev with stage := .standby, ptr := offset.setWidth 13, pending := [] }, .idle, true⟩,
    b.conds ++ Bus.transactions 1⟩

/-- A STOP after the two address bytes only sets the pointer. -/
theorem Attached.put_offset (h : Attached a b) (hbusy : b.node.dev.busy = 0)
    (offset : BitVec 32) :
    mi2cStop (eepromTarget busyTime) (putOffset (eepromTarget busyTime) offset
      (mi2cPutByte (eepromTarget busyTime) (a <<< 1) (mi2cStart (eepromTarget busyTime) b)).2) =
      afterOffset offset b := by
  rw [h.put_write hbusy, putOffset_addrHigh rfl, mi2cStop_released rfl, List.append_assoc]
  rfl

/-- The bus after the EEPROM has been read. -/
def afterRead (offset : BitVec 32) (size : ℕ) (b : Bus Eeprom) : Bus Eeprom :=
  ⟨true, true,
    ⟨{ b.node.dev with
        ptr := offset.setWidth 13 + BitVec.ofNat 13 size, stage := .standby, pending := [] },
      .idle, true⟩,
    b.conds ++ Bus.transactions 2⟩

/-- The bytes in the range are read, and the device keeps its memory. -/
theorem specEepromRead_answered (hhw : fmc.flags &&& specFlagFakeEeprom = 0)
    (hrange : offset.toNat + size.toNat ≤ 8192) (hsize : 1 ≤ size.toNat)
    (h : Attached fmc.eepromAddr b) (hbusy : b.node.dev.busy = 0) :
    specEepromRead (eepromTarget busyTime) fmc offset size b =
      ((size.toNat : ℤ), slice b.node.dev.mem offset.toNat size.toNat,
        afterRead offset size.toNat b) := by
  obtain ⟨hoffset, hsum⟩ := specI2cEepromSize_checks hrange
  obtain ⟨left, hleft⟩ : ∃ left, size.toNat = left + 1 := ⟨size.toNat - 1, by omega⟩
  have hret : int32 size.toNat = size.toNat := int32_of_range (by omega) (by omega)
  have hack : ¬ (mi2cPutByte (eepromTarget busyTime) (fmc.eepromAddr <<< 1)
      (mi2cStart (eepromTarget busyTime) b)).1 < 0 := by
    rw [h.put_write hbusy]
    exact lt_irrefl 0
  have hagain : Attached fmc.eepromAddr (afterOffset offset b) := ⟨⟨rfl, rfl⟩, h.devAddr⟩
  rw [specEepromRead, if_neg (not_not.mpr hhw), if_neg hoffset, if_neg hsum, hret]
  simp only [if_neg hack]
  rw [h.put_offset hbusy, hagain.put_read hbusy, hleft]
  simp only [readBytes_load]
  rw [byte_sent_iterate _ offset rfl, mi2cStop_released rfl, Node.stop,
    show (eepromTarget busyTime).sent = Eeprom.sent from rfl, Eeprom.sent_iterate,
    List.append_assoc]
  simp only [afterOffset, List.append_assoc]
  rfl

/-! ### Writing -/

/-- The bus after the EEPROM has been asked until it answers. -/
def afterReady (b : Bus Eeprom) : Bus Eeprom :=
  ⟨true, true, ⟨{ b.node.dev with stage := .standby, pending := [], busy := 0 }, .idle, true⟩,
    b.conds ++ Bus.transactions (b.node.dev.busy + 1)⟩

/-- A transaction with the address alone, while the device is busy. -/
theorem Attached.unanswered (h : Attached a b) (hbusy : b.node.dev.busy ≠ 0) :
    unanswered (eepromTarget busyTime) a b =
      ⟨true, true,
        ⟨{ b.node.dev with stage := .standby, pending := [], busy := b.node.dev.busy - 1 },
          .idle, true⟩,
        b.conds ++ Bus.transactions 1⟩ := by
  have hbyte := (addressByte_write a).1.trans h.devAddr.symm
  change Bus.mk true true ⟨Eeprom.stop busyTime (Eeprom.receive b.node.dev.start _).2, _, _⟩ _ = _
  rw [Eeprom.receive_busy hbyte hbusy, Eeprom.stop_empty busyTime rfl]

/-- The device is asked as long as it is busy, and once more. -/
theorem waitReady_answered (h : Attached a b) {fuel : ℕ} (hfuel : b.node.dev.busy < fuel) :
    waitReady (eepromTarget busyTime) a fuel b = some (afterReady b) := by
  induction fuel generalizing b with
  | zero => omega
  | succ fuel ih =>
    rw [waitReady]
    by_cases hbusy : b.node.dev.busy = 0
    · rw [h.put_write hbusy]
      simp only [ne_eq, not_true_eq_false, if_false]
      rw [mi2cStop_released rfl, List.append_assoc, afterReady, hbusy]
      rfl
    · have hbyte := (addressByte_write a).1.trans h.devAddr.symm
      have hrefused : ((eepromTarget busyTime).receive ((eepromTarget busyTime).start b.node.dev)
          ((a <<< 1).setWidth 8)).1 = false :=
        congrArg Prod.fst (Eeprom.receive_busy hbyte hbusy)
      obtain ⟨b', hput, hstop⟩ := address_refused h.idle hrefused
      have hagain : Attached a (unanswered (eepromTarget busyTime) a b) := by
        rw [h.unanswered hbusy]
        exact ⟨⟨rfl, rfl⟩, h.devAddr⟩
      have hless : (unanswered (eepromTarget busyTime) a b).node.dev.busy < fuel := by
        rw [h.unanswered hbusy]
        change b.node.dev.busy - 1 < fuel
        omega
      rw [hput]
      simp only [hstop]
      rw [if_pos (by decide), ih hagain hless, h.unanswered hbusy, afterReady, afterReady,
        List.append_assoc, ← Bus.transactions_add,
        show 1 + (b.node.dev.busy - 1 + 1) = b.node.dev.busy + 1 by omega]

/-- The bus after a transaction that writes one byte. -/
def afterByte (busyTime : ℕ → ℕ) (offset : BitVec 32) (byte : BitVec 8) (b : Bus Eeprom) :
    Bus Eeprom :=
  ⟨true, true,
    ⟨{ b.node.dev with
        mem := Function.update b.node.dev.mem (offset.setWidth 13) byte
        ptr := Eeprom.pageNext (offset.setWidth 13)
        stage := .standby
        pending := []
        busy := busyTime b.node.dev.writes
        writes := b.node.dev.writes + 1 }, .idle, true⟩,
    b.conds ++ Bus.transactions 1⟩

/-- A STOP after the two address bytes and one more byte stores it. -/
theorem Attached.put_byte (h : Attached a b) (hbusy : b.node.dev.busy = 0) (offset : BitVec 32)
    (byte : BitVec 8) :
    mi2cStop (eepromTarget busyTime) (mi2cPutByte (eepromTarget busyTime) (byte.setWidth 32)
      (putOffset (eepromTarget busyTime) offset (mi2cPutByte (eepromTarget busyTime) (a <<< 1)
        (mi2cStart (eepromTarget busyTime) b)).2)).2 = afterByte busyTime offset byte b := by
  have hbyte : (byte.setWidth 32).setWidth 8 = byte :=
    BitVec.setWidth_setWidth_of_le byte (by decide)
  have hack : (eepromTarget busyTime).receive
      { b.node.dev with stage := .writing, ptr := offset.setWidth 13, pending := [] }
      ((byte.setWidth 32).setWidth 8) =
      (true, { b.node.dev with
        stage := .writing
        ptr := Eeprom.pageNext (offset.setWidth 13)
        pending := [(offset.setWidth 13, byte)] }) := by
    rw [hbyte]
    rfl
  have hstored : Eeprom.stop busyTime { b.node.dev with
      stage := .writing
      ptr := Eeprom.pageNext (offset.setWidth 13)
      pending := [(offset.setWidth 13, byte)] } = (afterByte busyTime offset byte b).node.dev :=
    Eeprom.stop_pending busyTime rfl
  rw [h.put_write hbusy, putOffset_addrHigh rfl, mi2cPutByte_acked hack rfl,
    mi2cStop_released rfl, List.append_assoc]
  exact congrArg (fun e => Bus.mk true true ⟨e, .idle, true⟩ (b.conds ++ Bus.transactions 1))
    hstored

/-- `mem` with the bytes of `buf` at the `n` places from `offset` on, where `pos` numbers the
places. -/
def patch {ι : Type*} (pos : ι → ℕ) (offset n : ℕ) (buf : ℕ → BitVec 8) (mem : ι → BitVec 8)
    (x : ι) : BitVec 8 :=
  if offset ≤ pos x ∧ pos x < offset + n then buf (pos x - offset) else mem x

theorem patch_zero {ι : Type*} (pos : ι → ℕ) (offset : ℕ) (buf : ℕ → BitVec 8)
    (mem : ι → BitVec 8) : patch pos offset 0 buf mem = mem := by
  funext x
  exact if_neg (by omega)

/-- The first byte, and then the others. -/
theorem patch_update {ι : Type*} [DecidableEq ι] {pos : ι → ℕ} (hpos : Function.Injective pos)
    {offset : ℕ} {x : ι} (hx : pos x = offset) (n : ℕ) (buf : ℕ → BitVec 8)
    (mem : ι → BitVec 8) :
    patch pos (offset + 1) n (fun i => buf (i + 1)) (Function.update mem x (buf 0)) =
      patch pos offset (n + 1) buf mem := by
  funext y
  simp only [patch]
  by_cases hy : y = x
  · subst hy
    rw [if_neg (by omega), Function.update_self, if_pos (by omega), hx, Nat.sub_self]
  · have hne : pos y ≠ offset := fun h => hy (hpos (h.trans hx.symm))
    rw [Function.update_of_ne hy]
    by_cases hin : offset + 1 ≤ pos y ∧ pos y < offset + 1 + n
    · rw [if_pos hin, if_pos (by omega), show pos y - (offset + 1) + 1 = pos y - offset by omega]
    · rw [if_neg hin, if_neg (by omega)]

/-- The number of transactions in `n` writes with `writes` before them: the one that writes, as
many as the device is busy, and one that it answers. -/
def writeTransactions (busyTime : ℕ → ℕ) : ℕ → ℕ → ℕ
  | _, 0 => 0
  | writes, n + 1 => busyTime writes + 2 + writeTransactions busyTime (writes + 1) n

/-- What a write of `n` bytes has done. -/
structure Written (busyTime : ℕ → ℕ) (offset n : ℕ) (buf : ℕ → BitVec 8) (fmc : FmcDevice)
    (b : Bus Eeprom) (fmc' : FmcDevice) (b' : Bus Eeprom) : Prop where
  attached : Attached fmc.eepromAddr b'
  answers : b'.node.dev.busy = 0
  mem : b'.node.dev.mem = patch BitVec.toNat offset n buf b.node.dev.mem
  conds : b'.conds =
    b.conds ++ Bus.transactions (writeTransactions busyTime b.node.dev.writes n)
  flags : fmc'.flags = fmc.flags
  eepromAddr : fmc'.eepromAddr = fmc.eepromAddr
  cache : fmc'.eeprom = patch id offset n buf fmc.eeprom

/-- One byte, and then the others. -/
theorem Written.cons {n : ℕ} {buf : ℕ → BitVec 8} {fmc' : FmcDevice} {b' : Bus Eeprom}
    (hoffset : offset.toNat < 8192)
    (h : Written busyTime (offset.toNat + 1) n (fun i => buf (i + 1))
      { fmc with eeprom := Function.update fmc.eeprom offset.toNat (buf 0) }
      (afterReady (afterByte busyTime offset (buf 0) b)) fmc' b') :
    Written busyTime offset.toNat (n + 1) buf fmc b fmc' b' := by
  have hplace : (offset.setWidth 13).toNat = offset.toNat := by
    rw [BitVec.toNat_setWidth]
    omega
  refine ⟨h.attached, h.answers, ?_, ?_, h.flags, h.eepromAddr, ?_⟩
  · rw [h.mem]
    exact patch_update (fun _ _ => BitVec.eq_of_toNat_eq) hplace n buf b.node.dev.mem
  · rw [h.conds, writeTransactions]
    simp only [afterReady, afterByte, List.append_assoc, ← Bus.transactions_add]
    congr 2
    omega
  · rw [h.cache]
    exact patch_update Function.injective_id rfl n buf fmc.eeprom

/-- The loop writes byte after byte, and waits after each. -/
theorem writeBytes_answered (hhw : fmc.flags &&& specFlagFakeEeprom = 0) (ret : ℤ) {left : ℕ}
    (buf : ℕ → BitVec 8) (hrange : offset.toNat + left ≤ 8192)
    (h : Attached fmc.eepromAddr b) (hbusy : b.node.dev.busy = 0) {fuel : ℕ}
    (hfuel : ∀ i < left, busyTime (b.node.dev.writes + i) < fuel) :
    ∃ fmc' b', writeBytes (eepromTarget busyTime) fuel ret left fmc offset buf b =
      some (ret, fmc', b') ∧ Written busyTime offset.toNat left buf fmc b fmc' b' := by
  induction left generalizing fmc offset buf b with
  | zero =>
    refine ⟨fmc, b, rfl, h, hbusy, ?_, (List.append_nil _).symm, rfl, rfl, ?_⟩
    · exact (patch_zero _ _ _ _).symm
    · exact (patch_zero _ _ _ _).symm
  | succ left ih =>
    have hack : ¬ (mi2cPutByte (eepromTarget busyTime) (fmc.eepromAddr <<< 1)
        (mi2cStart (eepromTarget busyTime) b)).1 < 0 := by
      rw [h.put_write hbusy]
      exact lt_irrefl 0
    have hstored : Attached fmc.eepromAddr (afterByte busyTime offset (buf 0) b) :=
      ⟨⟨rfl, rfl⟩, h.devAddr⟩
    have hready : waitReady (eepromTarget busyTime) fmc.eepromAddr fuel
        (afterByte busyTime offset (buf 0) b) =
        some (afterReady (afterByte busyTime offset (buf 0) b)) :=
      waitReady_answered hstored (hfuel 0 (Nat.zero_lt_succ left))
    have hnext : (offset + 1).toNat = offset.toNat + 1 := by
      rw [BitVec.toNat_add]
      exact Nat.mod_eq_of_lt (show offset.toNat + 1 < 2 ^ 32 by omega)
    have hagain : Attached fmc.eepromAddr (afterReady (afterByte busyTime offset (buf 0) b)) :=
      ⟨⟨rfl, rfl⟩, h.devAddr⟩
    have hrange' : (offset + 1).toNat + left ≤ 8192 := by omega
    have hfuel' : ∀ i < left, busyTime
        ((afterReady (afterByte busyTime offset (buf 0) b)).node.dev.writes + i) < fuel := by
      intro i hi
      have hlt := hfuel (i + 1) (by omega)
      rwa [show b.node.dev.writes + (i + 1) = b.node.dev.writes + 1 + i by omega] at hlt
    obtain ⟨fmc', b', hrun, hwritten⟩ :=
      @ih _ { fmc with eeprom := Function.update fmc.eeprom offset.toNat (buf 0) } (offset + 1)
        hhw (fun i => buf (i + 1)) hrange' hagain rfl hfuel'
    rw [hnext] at hwritten
    refine ⟨fmc', b', ?_, hwritten.cons (by omega)⟩
    rw [writeBytes, if_neg (not_not.mpr hhw)]
    simp only [if_neg hack]
    rw [h.put_byte hbusy, hready]
    exact hrun

/-- With enough tries for the longest wait, the bytes in the range are written, and no others. -/
theorem specEepromWrite_answered (hhw : fmc.flags &&& specFlagFakeEeprom = 0)
    (buf : ℕ → BitVec 8) (hrange : offset.toNat + size.toNat ≤ 8192)
    (h : Attached fmc.eepromAddr b) (hbusy : b.node.dev.busy = 0) {fuel : ℕ}
    (hfuel : ∀ i < size.toNat, busyTime (b.node.dev.writes + i) < fuel) :
    ∃ fmc' b', specEepromWrite (eepromTarget busyTime) fuel fmc offset buf size b =
      some ((size.toNat : ℤ), fmc', b') ∧
      Written busyTime offset.toNat size.toNat buf fmc b fmc' b' := by
  obtain ⟨hoffset, hsum⟩ := specI2cEepromSize_checks hrange
  have hret : int32 size.toNat = size.toNat := int32_of_range (by omega) (by omega)
  rw [specEepromWrite, if_neg hoffset, if_neg hsum, hret]
  exact writeBytes_answered hhw _ buf hrange h hbusy hfuel

end Answered

/-! ### Transactions -/

/-- **EEPROM transactions.** For a card without a fake EEPROM and a range of at least one byte: on
an idle bus with an EEPROM that answers, a read gives the bytes of the range and a write changes
just them, however often the EEPROM does not answer after each byte. When nobody acknowledges the
address, both give a negative error. SDA changes while SCL is high only in a START and a STOP for
each transaction, and the bus is idle at the end. -/
theorem eeprom_transactions {σ : Type*} (busyTime : ℕ → ℕ) (fmc : FmcDevice)
    (offset : BitVec 32) (size : BitVec 64) (buf : ℕ → BitVec 8)
    (hhw : fmc.flags &&& specFlagFakeEeprom = 0) (hsize : 1 ≤ size.toNat)
    (hrange : offset.toNat + size.toNat ≤ 8192) :
    (∀ b : Bus Eeprom, Attached fmc.eepromAddr b → b.node.dev.busy = 0 →
      (∃ b', specEepromRead (eepromTarget busyTime) fmc offset size b =
          ((size.toNat : ℤ), slice b.node.dev.mem offset.toNat size.toNat, b') ∧
        b'.node.dev.mem = b.node.dev.mem ∧
        b'.conds = b.conds ++ Bus.transactions 2 ∧ b'.Idle) ∧
      ∃ tries, ∀ fuel, tries ≤ fuel → ∃ fmc' b',
        specEepromWrite (eepromTarget busyTime) fuel fmc offset buf size b =
          some ((size.toNat : ℤ), fmc', b') ∧
        b'.node.dev.mem = patch BitVec.toNat offset.toNat size.toNat buf b.node.dev.mem ∧
        b'.conds = b.conds ++
          Bus.transactions (writeTransactions busyTime b.node.dev.writes size.toNat) ∧
        b'.Idle) ∧
    ∀ (T : Target σ) (b : Bus σ), b.Idle →
      (T.receive (T.start b.node.dev) ((fmc.eepromAddr <<< 1).setWidth 8)).1 = false →
      (∃ b', specEepromRead T fmc offset size b = (-eio, [], b') ∧
        b'.conds = b.conds ++ Bus.transactions 1 ∧ b'.Idle) ∧
      ∀ fuel, ∃ b', specEepromWrite T fuel fmc offset buf size b = some (-1, fmc, b') ∧
        b'.conds = b.conds ++ Bus.transactions 1 ∧ b'.Idle := by
  constructor
  · intro b h hbusy
    constructor
    · exact ⟨_, specEepromRead_answered hhw hrange hsize h hbusy, rfl, rfl, rfl, rfl⟩
    · let tries := (Finset.range size.toNat).sup fun i => busyTime (b.node.dev.writes + i)
      refine ⟨tries + 1, fun fuel htries => ?_⟩
      have hfuel : ∀ i < size.toNat, busyTime (b.node.dev.writes + i) < fuel := by
        intro i hi
        have hle : busyTime (b.node.dev.writes + i) ≤ tries :=
          Finset.le_sup (f := fun i => busyTime (b.node.dev.writes + i)) (Finset.mem_range.mpr hi)
        omega
      obtain ⟨fmc', b', hrun, hwritten⟩ := specEepromWrite_answered hhw buf hrange h hbusy hfuel
      exact ⟨fmc', b', hrun, hwritten.mem, hwritten.conds, hwritten.attached.idle⟩
  · intro T b h hack
    constructor
    · exact ⟨_, specEepromRead_refused hhw hrange h hack, rfl, rfl, rfl⟩
    · exact fun fuel =>
        ⟨_, specEepromWrite_refused hhw hrange hsize h hack fuel buf, rfl, rfl, rfl⟩

/-- An idle bus with an erased EEPROM at `0x50`. -/
def erasedBus : Bus Eeprom :=
  ⟨true, true, ⟨⟨0x50, fun _ => 0xff, 0, .standby, [], 0, 0⟩, .idle, true⟩, []⟩

/-- Two bytes across a page of an erased EEPROM that does not answer for three tries after a write:
read, written, and asked for at another address. -/
theorem eeprom_transactions_erased :
    (∃ b', specEepromRead (eepromTarget fun _ => 3) ⟨0, 0x50, fun _ => 0⟩ 31 2 erasedBus =
      (2, [0xff, 0xff], b') ∧ b'.conds = [.start, .stop, .start, .stop] ∧ b'.Idle) ∧
    (∃ tries, ∀ fuel, tries ≤ fuel → ∃ fmc' b',
      specEepromWrite (eepromTarget fun _ => 3) fuel ⟨0, 0x50, fun _ => 0⟩ 31
        (fun i => BitVec.ofNat 8 (i + 1)) 2 erasedBus = some (2, fmc', b') ∧
      b'.node.dev.mem 31 = 1 ∧ b'.node.dev.mem 32 = 2 ∧ b'.node.dev.mem 33 = 0xff ∧
      b'.conds = Bus.transactions 10 ∧ b'.Idle) ∧
    ∃ b', specEepromRead (eepromTarget fun _ => 3) ⟨0, 0x51, fun _ => 0⟩ 31 2 erasedBus =
      (-eio, [], b') ∧ b'.conds = [.start, .stop] ∧ b'.Idle := by
  have hanswered := (eeprom_transactions (σ := Eeprom) (fun _ => 3) ⟨0, 0x50, fun _ => 0⟩ 31 2
    (fun i => BitVec.ofNat 8 (i + 1)) (by decide) (by decide) (by decide)).1 erasedBus
    ⟨⟨rfl, rfl⟩, by decide⟩ rfl
  have hrefused := (eeprom_transactions (fun _ => 3) ⟨0, 0x51, fun _ => 0⟩ 31 2
    (fun i => BitVec.ofNat 8 (i + 1)) (by decide) (by decide) (by decide)).2
    (eepromTarget fun _ => 3) erasedBus ⟨rfl, rfl⟩ (by decide)
  obtain ⟨⟨b', hread, -, hconds, hidle⟩, tries, hwrite⟩ := hanswered
  refine ⟨⟨b', hread, hconds, hidle⟩, ⟨tries, fun fuel htries => ?_⟩, hrefused.1⟩
  obtain ⟨fmc', b', hrun, hmem, hconds, hidle⟩ := hwrite fuel htries
  refine ⟨fmc', b', hrun, ?_, ?_, ?_, hconds, hidle⟩
  · rw [hmem]
    decide
  · rw [hmem]
    decide
  · rw [hmem]
    decide

end SpecSw.Carrier
