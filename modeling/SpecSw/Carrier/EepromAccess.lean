import SpecSw.Carrier.Eeprom
import SpecSw.Library.Run

/-!
# EEPROM access for mezzanine drivers

`spec_read_ee` and `spec_write_ee` are what the carrier offers to the drivers of mezzanines. They
only work with the golden gateware, and shape their arguments for the functions of `spec-i2c.c`. A
card whose EEPROM image comes from a module parameter keeps it in `fmc->eeprom` and never uses
the bus.

What both kinds of card should do is described by an image of 8 KiB: a write patches it
(`EeCall.image`), a read returns bytes of it. A real card does so (`Mirrors`), but for one case: a
read of no bytes leaves the EEPROM sending, and no STOP gets through unless the bit on the line is
set. On a fake card a write patches the image, but a read stores nothing in the caller's buffer.

## Main definitions

* `Carrier.EeCard`, `Carrier.specReadEe`, `Carrier.specWriteEe`.
* `Carrier.EeCall`, `Carrier.eeCall`, `Carrier.EeCall.image`.
* `Carrier.Agree`: a fake and a real card cannot be told apart.
* `Carrier.EeCall.FakeOk`: the condition on a call.

## Main results

* `Carrier.fakeEeprom_agrees`, `Carrier.not_forall_fakeEeprom_agrees`.
-/

namespace SpecSw.Carrier

open I2cBus Errno EventRun

/-! ### The calls -/

/-- A card: the fields of its `fmc_device`, whether `FMC_DEVICE_HAS_GOLDEN` is set in the flags of
that, and its I2C bus. -/
structure EeCard (σ : Type*) where
  fmc : FmcDevice
  hasGolden : Bool
  bus : Bus σ

section Calls

variable {σ : Type*} (T : Target σ)

/-- `spec_read_ee`: the result, the bytes it stores in the caller's buffer, and the bus. -/
def specReadEe (c : EeCard σ) (pos len : ℤ) : ℤ × List (BitVec 8) × Bus σ :=
  if !c.hasGolden then (-enotsupp, [], c.bus)
  else specEepromRead T c.fmc (BitVec.ofInt 32 pos) (BitVec.ofInt 64 len) c.bus

/-- `spec_write_ee`, or `none` when the device does not answer in time. -/
def specWriteEe (fuel : ℕ) (c : EeCard σ) (pos : ℤ) (data : ℕ → BitVec 8) (len : ℤ) :
    Option (ℤ × FmcDevice × Bus σ) :=
  if !c.hasGolden then some (-enotsupp, c.fmc, c.bus)
  else
    specEepromWrite T fuel c.fmc (BitVec.ofInt 32 pos) data (BitVec.ofInt 64 len) c.bus

/-- A call of one of the two, with what the caller's buffer holds. -/
inductive EeCall
  | read (pos len : ℤ) (buffer : ℕ → BitVec 8)
  | write (pos len : ℤ) (data : ℕ → BitVec 8)

/-- The buffer with bytes stored at its start. -/
def store (bytes : List (BitVec 8)) (buffer : ℕ → BitVec 8) (i : ℕ) : BitVec 8 :=
  bytes.getD i (buffer i)

/-- What a call leaves: its result, the caller's buffer, and the card. -/
structure EeOutcome (σ : Type*) where
  ret : ℤ
  buffer : ℕ → BitVec 8
  card : EeCard σ

/-- Each call. -/
def eeCall (fuel : ℕ) (c : EeCard σ) : EeCall → Option (EeOutcome σ)
  | .read pos len buffer =>
    let r := specReadEe T c pos len
    some ⟨r.1, store r.2.1 buffer, { c with bus := r.2.2 }⟩
  | .write pos len data =>
    (specWriteEe T fuel c pos data len).map fun r =>
      ⟨r.1, data, { c with fmc := r.2.1, bus := r.2.2 }⟩

end Calls

namespace EeCall

/-- The position and the length are in range. -/
def InRange : EeCall → Prop
  | read pos len _ => 0 ≤ pos ∧ 0 ≤ len ∧ pos + len ≤ 8192
  | write pos len _ => 0 ≤ pos ∧ 0 ≤ len ∧ pos + len ≤ 8192

instance : DecidablePred InRange
  | read _ _ _ => inferInstanceAs (Decidable (_ ∧ _ ∧ _))
  | write _ _ _ => inferInstanceAs (Decidable (_ ∧ _ ∧ _))

/-- The image after a call. -/
def image (M : ℕ → BitVec 8) : EeCall → ℕ → BitVec 8
  | read _ _ _ => M
  | write pos len data => patch id pos.toNat len.toNat data M

/-- A read has delivered the bytes of the image. -/
def Delivered (M : ℕ → BitVec 8) (buffer : ℕ → BitVec 8) : EeCall → Prop
  | read pos len _ => ∀ i < len.toNat, buffer i = M (pos.toNat + i)
  | write _ _ _ => True

/-- A read finds the bytes already in the caller's buffer, or reads nothing from a place whose
byte has its top bit set. -/
def FakeOk (M : ℕ → BitVec 8) : EeCall → Prop
  | read pos len buffer =>
    if len = 0 then (M (pos.toNat % 8192)).msb = true
    else ∀ i < len.toNat, buffer i = M (pos.toNat + i)
  | write _ _ _ => True

end EeCall

/-! ### The contract -/

/-- The copies of both cards are the same, and that of the real one is what its EEPROM holds. -/
structure SameImage {σ : Type*} (f : EeCard σ) (r : EeCard Eeprom) : Prop where
  copies : ∀ i < 8192, f.fmc.eeprom i = r.fmc.eeprom i
  device : ∀ i < 8192, r.fmc.eeprom i = r.bus.node.dev.mem (BitVec.ofNat 13 i)

/-- A fake and a real card cannot be told apart by the calls: they give the same results and the
same buffers, a read the bytes of the copy, and the copies stay the same. -/
def Agree {σ : Type*} (T : Target σ) (busyTime : ℕ → ℕ) (fuel : ℕ) :
    EeCard σ → EeCard Eeprom → List {c : EeCall // c.InRange} → Prop
  | f, r, [] => SameImage f r
  | f, r, c :: cs =>
    SameImage f r ∧ ∃ of or, eeCall T fuel f c = some of ∧
      eeCall (eepromTarget busyTime) fuel r c = some or ∧
      of.ret = or.ret ∧ of.buffer = or.buffer ∧ c.val.Delivered r.fmc.eeprom or.buffer ∧
      (∀ i < 8192, or.card.fmc.eeprom i = c.val.image r.fmc.eeprom i) ∧
      Agree T busyTime fuel of.card or.card cs

/-! ### More tries -/

section Fuel

variable {σ : Type*} {T : Target σ} {fuel fuel' : ℕ}

/-- More tries make no difference when the device has answered. -/
theorem waitReady_mono (hle : fuel ≤ fuel') {a : BitVec 32} {b b' : Bus σ}
    (h : waitReady T a fuel b = some b') : waitReady T a fuel' b = some b' := by
  induction fuel generalizing fuel' b with
  | zero => cases h
  | succ fuel ih =>
    obtain ⟨fuel', rfl⟩ : ∃ n, fuel' = n + 1 := ⟨fuel' - 1, by omega⟩
    rw [waitReady] at h ⊢
    dsimp only at h ⊢
    split_ifs at h ⊢
    · exact ih (Nat.le_of_succ_le_succ hle) h
    · exact h

theorem writeBytes_mono (hle : fuel ≤ fuel') {ret : ℤ} {left : ℕ} {fmc : FmcDevice}
    {offset : BitVec 32} {buf : ℕ → BitVec 8} {b : Bus σ} {r : ℤ × FmcDevice × Bus σ}
    (h : writeBytes T fuel ret left fmc offset buf b = some r) :
    writeBytes T fuel' ret left fmc offset buf b = some r := by
  induction left generalizing fmc offset buf b with
  | zero => exact h
  | succ left ih =>
    rw [writeBytes] at h ⊢
    dsimp only at h ⊢
    split_ifs at h ⊢
    · exact ih h
    · exact h
    · cases hready : waitReady T fmc.eepromAddr fuel (mi2cStop T (mi2cPutByte T
        ((buf 0).setWidth 32) (putOffset T offset
          (mi2cPutByte T (fmc.eepromAddr <<< 1) (mi2cStart T b)).2)).2) with
      | none =>
        rw [hready] at h
        cases h
      | some b' =>
        rw [hready] at h
        rw [waitReady_mono hle hready]
        exact ih h

theorem specEepromWrite_mono (hle : fuel ≤ fuel') {fmc : FmcDevice} {offset : BitVec 32}
    {buf : ℕ → BitVec 8} {size : BitVec 64} {b : Bus σ} {r : ℤ × FmcDevice × Bus σ}
    (h : specEepromWrite T fuel fmc offset buf size b = some r) :
    specEepromWrite T fuel' fmc offset buf size b = some r := by
  unfold specEepromWrite at h ⊢
  split_ifs at h ⊢
  · exact h
  · exact h
  · exact writeBytes_mono hle h

end Fuel

/-! ### The image -/

namespace EeCall

/-- The caller's buffer after a call on a card with the image `M`. -/
def filled (M : ℕ → BitVec 8) : EeCall → ℕ → BitVec 8
  | read pos len buffer => fun i => if i < len.toNat then M (pos.toNat + i) else buffer i
  | write _ _ data => data

/-- The result of a call in range. -/
def length : EeCall → ℤ
  | read _ len _ => len
  | write _ len _ => len

theorem delivered_filled (M : ℕ → BitVec 8) (call : EeCall) :
    call.Delivered M (call.filled M) := by
  cases call with
  | read pos len buffer => exact fun i hi => if_pos hi
  | write pos len data => trivial

end EeCall

/-- What a call does on a card with the image `M`. -/
structure Serves {σ : Type*} (M : ℕ → BitVec 8) (call : EeCall) (o : EeOutcome σ) : Prop where
  ret : o.ret = call.length
  buffer : o.buffer = call.filled M

theorem store_slice (M : ℕ → BitVec 8) (offset n : ℕ) (buffer : ℕ → BitVec 8) :
    store ((List.range n).map fun i => M (offset + i)) buffer =
      fun i => if i < n then M (offset + i) else buffer i := by
  funext i
  by_cases hi : i < n
  · simp [store, hi]
  · simp [store, hi]

/-- The arguments of a call in range are passed on as they are. -/
theorem args_inRange {pos len : ℤ} (h : 0 ≤ pos ∧ 0 ≤ len ∧ pos + len ≤ 8192) :
    (BitVec.ofInt 32 pos).toNat = pos.toNat ∧ (BitVec.ofInt 64 len).toNat = len.toNat ∧
      pos.toNat + len.toNat ≤ 8192 ∧ int32 len.toNat = len := by
  obtain ⟨hpos, hlen, hsum⟩ := h
  refine ⟨?_, ?_, by omega, ?_⟩
  · rw [BitVec.toNat_ofInt]
    omega
  · rw [BitVec.toNat_ofInt]
    omega
  · rw [int32_of_range] <;> omega

/-- Images that agree still do after a call. -/
theorem EeCall.image_congr {M M' : ℕ → BitVec 8} (h : ∀ i < 8192, M i = M' i) (call : EeCall) :
    ∀ i < 8192, call.image M i = call.image M' i := by
  intro i hi
  cases call with
  | read pos len buffer => exact h i hi
  | write pos len data => simp only [EeCall.image, patch, h i hi]

theorem EeCall.Delivered.congr {M M' buffer : ℕ → BitVec 8} {call : EeCall}
    (hcall : call.Delivered M buffer) (hrange : call.InRange) (h : ∀ i < 8192, M i = M' i) :
    call.Delivered M' buffer := by
  cases call with
  | read pos len _ =>
    obtain ⟨hpos, hlen, hsum⟩ := hrange
    intro i hi
    rw [hcall i hi, h _ (by omega)]
  | write pos len data => trivial

/-! ### A fake card -/

/-- A fake card with the image `M`. -/
structure Fakes {σ : Type*} (M : ℕ → BitVec 8) (c : EeCard σ) : Prop where
  golden : c.hasGolden = true
  fake : c.fmc.flags &&& specFlagFakeEeprom ≠ 0
  copy : ∀ i < 8192, c.fmc.eeprom i = M i

section Fake

variable {σ : Type*} {T : Target σ} {M : ℕ → BitVec 8} {c : EeCard σ}

/-- The loop of a write patches the copy. -/
theorem writeBytes_fake {fmc : FmcDevice} (hfake : fmc.flags &&& specFlagFakeEeprom ≠ 0)
    (fuel : ℕ) (ret : ℤ) {left : ℕ} {offset : BitVec 32} (buf : ℕ → BitVec 8) (b : Bus σ)
    (hrange : offset.toNat + left ≤ 8192) :
    writeBytes T fuel ret left fmc offset buf b =
      some (ret, { fmc with eeprom := patch id offset.toNat left buf fmc.eeprom }, b) := by
  induction left generalizing fmc offset buf with
  | zero => rw [writeBytes, patch_zero]
  | succ left ih =>
    have hnext : (offset + 1).toNat = offset.toNat + 1 := by
      rw [BitVec.toNat_add]
      exact Nat.mod_eq_of_lt (show offset.toNat + 1 < 2 ^ 32 by omega)
    have hpatch : patch id (offset.toNat + 1) left (fun i => buf (i + 1))
        (Function.update fmc.eeprom offset.toNat (buf 0)) =
        patch id offset.toNat (left + 1) buf fmc.eeprom :=
      patch_update Function.injective_id rfl left buf fmc.eeprom
    have hrest := @ih { fmc with eeprom := Function.update fmc.eeprom offset.toNat (buf 0) } hfake
      (offset + 1) (fun i => buf (i + 1)) (by omega)
    rw [hnext] at hrest
    rw [writeBytes, if_pos hfake, ← hpatch]
    exact hrest

/-- A fake card answers every call, but a read leaves the buffer as it is. -/
theorem Fakes.call (h : Fakes M c) {call : EeCall} (hrange : call.InRange) :
    ∃ o, (∀ fuel, eeCall T fuel c call = some o) ∧ Fakes (call.image M) o.card ∧
      o.ret = call.length ∧ (call.FakeOk M → o.buffer = call.filled M) := by
  cases call with
  | read pos len buffer =>
    obtain ⟨hpos, hlen, hsum, hret⟩ := args_inRange hrange
    have hread : specReadEe T c pos len = (len, [], c.bus) := by
      rw [specReadEe, h.golden, specEepromRead, if_pos h.fake, hlen, hret]
      rfl
    refine ⟨⟨len, buffer, c⟩, fun fuel => ?_, h, rfl, fun hok => ?_⟩
    · simp only [eeCall, hread]
      rfl
    · funext i
      simp only [EeCall.filled]
      split_ifs with hi
      · rw [EeCall.FakeOk, if_neg (by omega)] at hok
        exact hok i hi
      · rfl
  | write pos len data =>
    obtain ⟨hpos, hlen, hsum, hret⟩ := args_inRange hrange
    have hrange' : (BitVec.ofInt 32 pos).toNat + (BitVec.ofInt 64 len).toNat ≤ 8192 := by
      rw [hpos, hlen]
      exact hsum
    obtain ⟨hoffset, hsize⟩ := specI2cEepromSize_checks hrange'
    let fmc := { c.fmc with eeprom := patch id pos.toNat len.toNat data c.fmc.eeprom }
    have hwrite (fuel : ℕ) : specWriteEe T fuel c pos data len = some (len, fmc, c.bus) := by
      rw [specWriteEe, h.golden, specEepromWrite, if_neg hoffset, if_neg hsize,
        writeBytes_fake h.fake _ _ _ _ hrange', hpos, hlen, hret]
      rfl
    refine ⟨⟨len, data, { c with fmc := fmc }⟩, fun fuel => ?_, ⟨h.golden, h.fake, ?_⟩, rfl,
      fun _ => rfl⟩
    · simp only [eeCall, hwrite, Option.map_some]
    · exact (EeCall.write pos len data).image_congr h.copy

end Fake

/-! ### A real card -/

/-- A real card with the image `M`, whose EEPROM answers. -/
structure Mirrors (M : ℕ → BitVec 8) (c : EeCard Eeprom) : Prop where
  golden : c.hasGolden = true
  hw : c.fmc.flags &&& specFlagFakeEeprom = 0
  attached : Attached c.fmc.eepromAddr c.bus
  answers : c.bus.node.dev.busy = 0
  copy : ∀ i < 8192, c.fmc.eeprom i = M i
  device : ∀ i < 8192, c.bus.node.dev.mem (BitVec.ofNat 13 i) = M i

section Real

variable {busyTime : ℕ → ℕ} {M : ℕ → BitVec 8} {c : EeCard Eeprom}

/-- A read of no bytes ends with a STOP if the device leaves SDA high, that is, if the top bit of
the byte it would send is set. -/
theorem specEepromRead_zero {fmc : FmcDevice} {offset : BitVec 32} {size : BitVec 64}
    {b : Bus Eeprom} (hhw : fmc.flags &&& specFlagFakeEeprom = 0)
    (hrange : offset.toNat + size.toNat ≤ 8192) (hsize : size.toNat = 0)
    (h : Attached fmc.eepromAddr b) (hbusy : b.node.dev.busy = 0)
    (hbit : (b.node.dev.mem (offset.setWidth 13)).msb = true) :
    specEepromRead (eepromTarget busyTime) fmc offset size b =
      ((size.toNat : ℤ), slice b.node.dev.mem offset.toNat size.toNat,
        afterRead offset size.toNat b) := by
  obtain ⟨hoffset, hsum⟩ := specI2cEepromSize_checks hrange
  have hack : ¬ (mi2cPutByte (eepromTarget busyTime) (fmc.eepromAddr <<< 1)
      (mi2cStart (eepromTarget busyTime) b)).1 < 0 := by
    rw [h.put_write hbusy]
    exact lt_irrefl 0
  have hagain : Attached fmc.eepromAddr (afterOffset offset b) := ⟨⟨rfl, rfl⟩, h.devAddr⟩
  rw [specEepromRead, if_neg (not_not.mpr hhw), if_neg hoffset, if_neg hsum, hsize]
  simp only [if_neg hack]
  rw [h.put_offset hbusy, hagain.put_read hbusy]
  simp only [readBytes]
  rw [mi2cStop_released hbit, Node.stop, afterRead, BitVec.add_zero]
  simp only [afterOffset, List.append_assoc]
  rfl

/-- The place in the EEPROM that an offset in range selects. -/
theorem Mirrors.device_offset (h : Mirrors M c) {pos : ℕ} {offset : BitVec 32}
    (hpos : offset.toNat = pos) :
    c.bus.node.dev.mem (offset.setWidth 13) = M (pos % 8192) := by
  rw [← h.device _ (Nat.mod_lt pos (by decide))]
  congr 1
  refine BitVec.eq_of_toNat_eq ?_
  rw [BitVec.toNat_setWidth, BitVec.toNat_ofNat, hpos]
  omega

variable (busyTime)

/-- A read gives the bytes of the image, and leaves an EEPROM that answers. -/
theorem Mirrors.read (h : Mirrors M c) {pos len : ℤ} {buffer : ℕ → BitVec 8}
    (hrange : (EeCall.read pos len buffer).InRange)
    (hok : len = 0 → (M (pos.toNat % 8192)).msb = true) :
    ∃ bytes b', specReadEe (eepromTarget busyTime) c pos len = (len, bytes, b') ∧
      store bytes buffer = (EeCall.read pos len buffer).filled M ∧
      Attached c.fmc.eepromAddr b' ∧ b'.node.dev.busy = 0 ∧
      b'.node.dev.mem = c.bus.node.dev.mem := by
  obtain ⟨hpos, hlen, hsum, -⟩ := args_inRange hrange
  rw [← hpos, ← hlen] at hsum
  have hcast : ((BitVec.ofInt 64 len).toNat : ℤ) = len := by
    obtain ⟨-, hnonneg, -⟩ := hrange
    omega
  have hread : specEepromRead (eepromTarget busyTime) c.fmc (BitVec.ofInt 32 pos)
      (BitVec.ofInt 64 len) c.bus = (((BitVec.ofInt 64 len).toNat : ℤ),
        slice c.bus.node.dev.mem (BitVec.ofInt 32 pos).toNat (BitVec.ofInt 64 len).toNat,
        afterRead (BitVec.ofInt 32 pos) (BitVec.ofInt 64 len).toNat c.bus) := by
    by_cases hzero : len = 0
    · refine specEepromRead_zero h.hw hsum (by omega) h.attached h.answers ?_
      rw [h.device_offset hpos]
      exact hok hzero
    · exact specEepromRead_answered h.hw hsum (by omega) h.attached h.answers
  have hbytes : slice c.bus.node.dev.mem (BitVec.ofInt 32 pos).toNat
      (BitVec.ofInt 64 len).toNat = (List.range len.toNat).map fun i => M (pos.toNat + i) := by
    rw [slice, hpos, hlen]
    refine List.map_congr_left fun i hi => h.device _ ?_
    have := List.mem_range.mp hi
    omega
  rw [hcast, hbytes] at hread
  refine ⟨_, afterRead (BitVec.ofInt 32 pos) (BitVec.ofInt 64 len).toNat c.bus, ?_,
    store_slice M pos.toNat len.toNat buffer, ⟨⟨rfl, rfl⟩, h.attached.devAddr⟩, h.answers, rfl⟩
  rw [specReadEe, if_neg (by simp [h.golden])]
  exact hread

/-- A write patches the copy and the EEPROM. -/
theorem Mirrors.write (h : Mirrors M c) {pos len : ℤ} {data : ℕ → BitVec 8}
    (hrange : (EeCall.write pos len data).InRange) :
    ∃ tries fmc' b', (∀ fuel ≥ tries,
        specWriteEe (eepromTarget busyTime) fuel c pos data len = some (len, fmc', b')) ∧
      Mirrors ((EeCall.write pos len data).image M) ⟨fmc', c.hasGolden, b'⟩ := by
  obtain ⟨hpos, hlen, hsum, -⟩ := args_inRange hrange
  rw [← hpos, ← hlen] at hsum
  have hcast : ((BitVec.ofInt 64 len).toNat : ℤ) = len := by
    obtain ⟨-, hnonneg, -⟩ := hrange
    omega
  let tries := (Finset.range len.toNat).sup fun i => busyTime (c.bus.node.dev.writes + i)
  have htries : ∀ i < (BitVec.ofInt 64 len).toNat,
      busyTime (c.bus.node.dev.writes + i) < tries + 1 := by
    intro i hi
    have hle : busyTime (c.bus.node.dev.writes + i) ≤ tries :=
      Finset.le_sup (f := fun i => busyTime (c.bus.node.dev.writes + i))
        (Finset.mem_range.mpr (hlen ▸ hi))
    omega
  obtain ⟨fmc', b', hrun, hwritten⟩ :=
    specEepromWrite_answered h.hw data hsum h.attached h.answers htries
  refine ⟨tries + 1, fmc', b', fun fuel hfuel => ?_, ?_⟩
  · rw [hcast] at hrun
    rw [specWriteEe, if_neg (by simp [h.golden])]
    exact specEepromWrite_mono hfuel hrun
  · refine ⟨h.golden, ?_, ?_, hwritten.answers, fun i hi => ?_, fun i hi => ?_⟩
    · exact (congrArg (· &&& specFlagFakeEeprom) hwritten.flags).trans h.hw
    · exact hwritten.eepromAddr ▸ hwritten.attached
    · rw [hwritten.cache, hpos, hlen]
      exact (EeCall.write pos len data).image_congr h.copy i hi
    · have hplace : (BitVec.ofNat 13 i).toNat = i := Nat.mod_eq_of_lt hi
      rw [hwritten.mem, hpos, hlen]
      simp only [patch, hplace, h.device i hi]
      rfl

/-- A real card answers every call with the bytes of its image, and a write patches it. -/
theorem Mirrors.call (h : Mirrors M c) {call : EeCall} (hrange : call.InRange)
    (hok : call.FakeOk M) :
    ∃ tries o, (∀ fuel ≥ tries, eeCall (eepromTarget busyTime) fuel c call = some o) ∧
      Mirrors (call.image M) o.card ∧ o.ret = call.length ∧ o.buffer = call.filled M := by
  cases call with
  | read pos len buffer =>
    obtain ⟨bytes, b', hread, hstore, hattached, hanswers, hmem⟩ :=
      h.read busyTime hrange fun hzero => by
        simpa only [EeCall.FakeOk, hzero, if_true] using hok
    refine ⟨0, ⟨len, store bytes buffer, { c with bus := b' }⟩, fun fuel _ => ?_, ?_, rfl, hstore⟩
    · simp only [eeCall, hread]
    · exact ⟨h.golden, h.hw, hattached, hanswers, h.copy, fun i hi => hmem ▸ h.device i hi⟩
  | write pos len data =>
    obtain ⟨tries, fmc', b', hwrite, hmirrors⟩ := h.write busyTime hrange
    refine ⟨tries, ⟨len, data, ⟨fmc', c.hasGolden, b'⟩⟩, fun fuel hfuel => ?_, hmirrors, rfl, rfl⟩
    simp only [eeCall, hwrite fuel hfuel, Option.map_some]

end Real

/-! ### The main result -/

theorem sameImage {σ : Type*} {M : ℕ → BitVec 8} {f : EeCard σ} {r : EeCard Eeprom}
    (hf : Fakes M f) (hr : Mirrors M r) : SameImage f r where
  copies i hi := (hf.copy i hi).trans (hr.copy i hi).symm
  device i hi := (hr.copy i hi).trans (hr.device i hi).symm

/-- **A fake EEPROM.** On a golden-loaded card, a fake EEPROM with an image and a real one with
that content cannot be told apart by any sequence of calls in range in which every read finds the
bytes already in the caller's buffer, and each read of no bytes finds the top bit of the byte at its
position set. -/
theorem fakeEeprom_agrees {σ : Type*} (T : Target σ) (busyTime : ℕ → ℕ) (M : ℕ → BitVec 8)
    (f : EeCard σ) (r : EeCard Eeprom) (hf : Fakes M f) (hr : Mirrors M r)
    (cs : List {c : EeCall // c.InRange})
    (hok : Along (fun M c => EeCall.image M c.val) (fun M c => c.val.FakeOk M) M cs) :
    ∃ tries, ∀ fuel ≥ tries, Agree T busyTime fuel f r cs := by
  induction cs generalizing M f r with
  | nil => exact ⟨0, fun _ _ => sameImage hf hr⟩
  | cons c cs ih =>
    obtain ⟨hfirst, hrest⟩ := hok
    obtain ⟨of, hfcall, hf', hfret, hfbuffer⟩ := hf.call (T := T) c.property
    obtain ⟨tries, or, hrcall, hr', hrret, hrbuffer⟩ :=
      hr.call busyTime c.property hfirst
    obtain ⟨tries', hagree⟩ := ih _ of.card or.card hf' hr' hrest
    refine ⟨max tries tries', fun fuel hfuel => ?_⟩
    obtain ⟨hle, hle'⟩ := max_le_iff.mp hfuel
    refine ⟨sameImage hf hr, of, or, hfcall fuel, hrcall fuel hle, ?_, ?_, ?_, ?_, hagree fuel hle'⟩
    · rw [hfret, hrret]
    · rw [hfbuffer hfirst, hrbuffer]
    · rw [hrbuffer]
      exact (EeCall.delivered_filled M c.val).congr c.property fun i hi => (hr.copy i hi).symm
    · intro i hi
      rw [hr'.copy i hi]
      exact EeCall.image_congr (fun i hi => (hr.copy i hi).symm) c.val i hi

/-- A golden-loaded card with an erased EEPROM at `0x50`, and a fake one. -/
def erasedCard (flags : BitVec 32) : EeCard Eeprom :=
  ⟨⟨flags, 0x50, fun _ => 0xff⟩, true, erasedBus⟩

theorem erasedCard_mirrors : Mirrors (fun _ => 0xff) (erasedCard 0) :=
  ⟨rfl, rfl, ⟨⟨rfl, rfl⟩, rfl⟩, rfl, fun _ _ => rfl, fun _ _ => rfl⟩

theorem erasedCard_fakes : Fakes (fun _ => 0xff) (erasedCard specFlagFakeEeprom) :=
  ⟨rfl, by decide, fun _ _ => rfl⟩

/-- A byte written, and read back into a buffer that already holds it. -/
theorem fakeEeprom_agrees_written : ∃ tries, ∀ fuel ≥ tries,
    Agree (eepromTarget fun _ => 3) (fun _ => 3) fuel (erasedCard specFlagFakeEeprom)
      (erasedCard 0)
      [⟨.write 5 1 fun _ => 7, by decide⟩, ⟨.read 5 1 fun _ => 7, by decide⟩] :=
  fakeEeprom_agrees _ _ _ _ _ erasedCard_fakes erasedCard_mirrors _
    ⟨trivial, by simp [EeCall.FakeOk, EeCall.image, patch], trivial⟩

/-- A byte read into a cleared buffer. -/
theorem not_forall_fakeEeprom_agrees : ¬ ∀ (M : ℕ → BitVec 8) (f r : EeCard Eeprom),
    Fakes M f → Mirrors M r → ∀ cs : List {c : EeCall // c.InRange},
      ∃ tries, ∀ fuel ≥ tries, Agree (eepromTarget fun _ => 3) (fun _ => 3) fuel f r cs := by
  intro hall
  obtain ⟨tries, hagree⟩ := hall _ _ _ erasedCard_fakes erasedCard_mirrors
    [⟨.read 0 1 fun _ => 0, by decide⟩]
  obtain ⟨-, of, or, hf, -, -, hbuffer, hdelivered, -⟩ := hagree tries (Nat.le_refl tries)
  obtain rfl := Option.some.inj hf
  have hbyte := hdelivered 0 (by decide)
  rw [← hbuffer] at hbyte
  revert hbyte
  decide

end SpecSw.Carrier
