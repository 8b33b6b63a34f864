import SpecSw.Nic.Wire

/-!
# The words of a copy

`__wrn_copy_out` and `__wrn_copy_in` go in steps of four bytes while the signed `size` is positive,
so the last word may reach up to three bytes behind the data. The rounds of a loop are listed, the
loop being a fold over them: what each of them writes is then bounded, in the packet memory by the
2 kB of a descriptor, in the host's memory by the buffer that `__wrn_rx_descriptor` allocates.

## Main definitions

* `Nic.wrnCopyOutWrites`, `Nic.wrnCopyInStores`: the words that a copy writes.
* `Nic.CopyLoops`.

## Main results

* `Nic.wrnCopyOut_eq_foldl`, `Nic.wrnCopyIn_eq_foldl`.
* `Nic.copyLoops`: the copies are inverse and bounded.
-/

namespace SpecSw.Nic

/-! ### The rounds of the loops -/

/-- The words that the loop of `__wrn_copy_out` writes, with their addresses. -/
def copyOutRounds (dst : ℕ) (mem : ℤ → Byte) (src size : ℤ) : List (ℕ × BitVec 32) :=
  if 0 < size then
    (dst, getUnalignedLe32 mem src) :: copyOutRounds (dst + 4) mem (src + 4) (size - 4)
  else []
termination_by size.toNat

/-- The words that `__wrn_copy_out` writes. -/
def wrnCopyOutWrites (dst : ℕ) (mem : ℤ → Byte) (size : ℤ) : List (ℕ × BitVec 32) :=
  copyOutRounds dst mem (0 - wrnDdataOffset) (size + wrnDdataOffset)

/-- The words that the loop of `__wrn_copy_in` stores, with their addresses. -/
def copyInRounds (dst : ℤ) (ram : ℕ → Byte) (src : ℕ) (size : ℤ) : List (ℤ × BitVec 32) :=
  if 0 < size then (dst, readlMem ram src) :: copyInRounds (dst + 4) ram (src + 4) (size - 4)
  else []
termination_by size.toNat

/-- The words that `__wrn_copy_in` stores. -/
def wrnCopyInStores (ram : ℕ → Byte) (src : ℕ) (size : ℤ) : List (ℤ × BitVec 32) :=
  copyInRounds (0 - wrnDdataOffset) ram src (size + wrnDdataOffset)

/-- The values that `size` takes in either loop. -/
def copySizes (size : ℤ) : List ℤ := if 0 < size then size :: copySizes (size - 4) else [size]
termination_by size.toNat

theorem copyOutLoop_eq_foldl (ram : ℕ → Byte) (dst : ℕ) (mem : ℤ → Byte) (src size : ℤ) :
    wrnCopyOutLoop ram dst mem src size =
      (copyOutRounds dst mem src size).foldl (fun ram w => writelMem ram w.1 w.2) ram := by
  induction ram, dst, src, size using wrnCopyOutLoop.induct mem with
  | case1 ram dst src size hpos ih =>
    rw [wrnCopyOutLoop, if_pos hpos, copyOutRounds, if_pos hpos, List.foldl_cons, ih]
  | case2 ram dst src size hpos =>
    rw [wrnCopyOutLoop, if_neg hpos, copyOutRounds, if_neg hpos, List.foldl_nil]

theorem copyInLoop_eq_foldl (mem : ℤ → Byte) (dst : ℤ) (ram : ℕ → Byte) (src : ℕ) (size : ℤ) :
    wrnCopyInLoop mem dst ram src size =
      (copyInRounds dst ram src size).foldl (fun mem w => putUnalignedLe32 mem w.2 w.1) mem := by
  induction mem, dst, src, size using wrnCopyInLoop.induct ram with
  | case1 mem dst src size hpos ih =>
    rw [wrnCopyInLoop, if_pos hpos, copyInRounds, if_pos hpos, List.foldl_cons, ih]
  | case2 mem dst src size hpos =>
    rw [wrnCopyInLoop, if_neg hpos, copyInRounds, if_neg hpos, List.foldl_nil]

/-- What `__wrn_copy_out` does is to write its words. -/
theorem wrnCopyOut_eq_foldl (ram : ℕ → Byte) (dst : ℕ) (mem : ℤ → Byte) (size : ℤ) :
    wrnCopyOut ram dst mem size =
      (wrnCopyOutWrites dst mem size).foldl (fun ram w => writelMem ram w.1 w.2) ram :=
  copyOutLoop_eq_foldl ram dst mem _ _

/-- What `__wrn_copy_in` does is to store its words. -/
theorem wrnCopyIn_eq_foldl (mem : ℤ → Byte) (ram : ℕ → Byte) (src : ℕ) (size : ℤ) :
    wrnCopyIn mem ram src size =
      (wrnCopyInStores ram src size).foldl (fun mem w => putUnalignedLe32 mem w.2 w.1) mem :=
  copyInLoop_eq_foldl mem _ ram src _

/-! ### Their number and their places -/

/-- The number of rounds. -/
def copyRounds (size : ℤ) : ℕ := ((size + 3) / 4).toNat

/-- A loop with something left to copy goes through its first round and the later ones. -/
theorem map_range_copyRounds {α : Type*} {size : ℤ} (h : 0 < size) (f : ℕ → α) :
    (List.range (copyRounds size)).map f =
      f 0 :: (List.range (copyRounds (size - 4))).map fun k => f (k + 1) := by
  have hsucc : copyRounds size = copyRounds (size - 4) + 1 := by
    simp only [copyRounds]
    omega
  rw [hsucc, List.range_succ_eq_map, List.map_cons, List.map_map]
  rfl

theorem range_copyRounds_of_nonpos {size : ℤ} (h : ¬0 < size) :
    List.range (copyRounds size) = [] := by
  have hzero : copyRounds size = 0 := by
    simp only [copyRounds]
    omega
  rw [hzero, List.range_zero]

/-- The rounds of `__wrn_copy_out` write consecutive words. -/
theorem copyOutRounds_addrs (dst : ℕ) (mem : ℤ → Byte) (src size : ℤ) :
    (copyOutRounds dst mem src size).map Prod.fst =
      (List.range (copyRounds size)).map fun k => dst + 4 * k := by
  induction dst, src, size using copyOutRounds.induct with
  | case1 dst src size hpos ih =>
    rw [copyOutRounds, if_pos hpos, List.map_cons, ih, map_range_copyRounds hpos]
    exact congrArg (dst :: ·) (List.map_congr_left fun k _ => by omega)
  | case2 dst src size hpos =>
    rw [copyOutRounds, if_neg hpos, range_copyRounds_of_nonpos hpos, List.map_nil, List.map_nil]

/-- The rounds of `__wrn_copy_in` store consecutive words. -/
theorem copyInRounds_addrs (dst : ℤ) (ram : ℕ → Byte) (src : ℕ) (size : ℤ) :
    (copyInRounds dst ram src size).map Prod.fst =
      (List.range (copyRounds size)).map fun k : ℕ => dst + 4 * k := by
  induction dst, src, size using copyInRounds.induct with
  | case1 dst src size hpos ih =>
    rw [copyInRounds, if_pos hpos, List.map_cons, ih, map_range_copyRounds hpos]
    exact congrArg₂ List.cons (by simp) (List.map_congr_left fun k _ => by omega)
  | case2 dst src size hpos =>
    rw [copyInRounds, if_neg hpos, range_copyRounds_of_nonpos hpos, List.map_nil, List.map_nil]

/-- A word that `__wrn_copy_out` writes is one of the first `copyRounds` from `dst` on. -/
theorem exists_of_mem_wrnCopyOutWrites {dst : ℕ} {mem : ℤ → Byte} {size : ℤ} {w : ℕ × BitVec 32}
    (hw : w ∈ wrnCopyOutWrites dst mem size) :
    ∃ k < copyRounds (size + wrnDdataOffset), w.1 = dst + 4 * k := by
  have haddr := List.mem_map_of_mem (f := Prod.fst) hw
  rw [wrnCopyOutWrites, copyOutRounds_addrs] at haddr
  obtain ⟨k, hk, hkw⟩ := List.mem_map.mp haddr
  exact ⟨k, List.mem_range.mp hk, hkw.symm⟩

/-- A word that `__wrn_copy_in` stores is one of the first `copyRounds` from two bytes before the
buffer on. -/
theorem exists_of_mem_wrnCopyInStores {ram : ℕ → Byte} {src : ℕ} {size : ℤ} {w : ℤ × BitVec 32}
    (hw : w ∈ wrnCopyInStores ram src size) :
    ∃ k < copyRounds (size + wrnDdataOffset), w.1 = -2 + 4 * (k : ℤ) := by
  have haddr := List.mem_map_of_mem (f := Prod.fst) hw
  rw [wrnCopyInStores, copyInRounds_addrs] at haddr
  obtain ⟨k, hk, hkw⟩ := List.mem_map.mp haddr
  exact ⟨k, List.mem_range.mp hk, hkw.symm⟩

/-- In the loops `size` does not grow, and it ends above -4. -/
theorem mem_copySizes {size s : ℤ} (hsize : -4 < size) (hs : s ∈ copySizes size) :
    -4 < s ∧ s ≤ size := by
  induction size using copySizes.induct with
  | case1 size hpos ih =>
    rw [copySizes, if_pos hpos] at hs
    rcases List.mem_cons.mp hs with rfl | hrest
    · exact ⟨hsize, le_rfl⟩
    · have hlater := ih (by omega) hrest
      omega
  | case2 size hpos =>
    rw [copySizes, if_neg hpos] at hs
    obtain rfl := List.mem_singleton.mp hs
    exact ⟨hsize, le_rfl⟩

/-! ### There and back -/

/-- The size of the buffer that `__wrn_rx_descriptor` allocates for `len` bytes. -/
def rxAllocSize (len : ℕ) : ℤ := len + 16

/-- The bytes that it reserves at the start of the buffer. -/
def rxReserve : ℤ := 2

/-- The two copies of a payload of `len` bytes, between a buffer and the packet memory at `dst`. -/
structure CopyLoops (mem mem' : ℤ → Byte) (ram : ℕ → Byte) (dst len : ℕ) : Prop where
  /-- What is copied out and back in is the payload. -/
  inverse : ∀ k : ℕ, k < len → wrnCopyIn mem' (wrnCopyOut ram dst mem len) dst len k = mem k
  /-- The payload is two bytes further on in the packet memory. -/
  payload : ∀ i : ℕ, i < len → wrnCopyOut ram dst mem len (dst + 2 + i) = mem i
  /-- The words written are consecutive, and as many as `(len + 2) / 4`, rounded up. -/
  words : (wrnCopyOutWrites dst mem len).map Prod.fst =
    (List.range ((len + 2 + 3) / 4)).map fun k => dst + 4 * k
  /-- At a descriptor, they are within its 2 kB. -/
  slot : len ≤ wrnMtu → ∀ dir i, dst = wrnDescOffset dir i →
    ∀ w ∈ wrnCopyOutWrites dst mem len, ∀ j < 4, InBuffer dir i (w.1 + j)
  /-- What is stored is from two bytes before the buffer to three behind the payload. -/
  stores : ∀ w ∈ wrnCopyInStores ram dst len, -2 ≤ w.1 ∧ w.1 + 4 ≤ len + 3
  /-- The buffer that is allocated has room for it. -/
  buffer : ∀ w ∈ wrnCopyInStores ram dst len,
    0 ≤ rxReserve + w.1 ∧ rxReserve + w.1 + 4 ≤ rxAllocSize len
  /-- No other byte is changed, in either memory. -/
  frame :
    (∀ a, a < dst ∨ dst + 4 * ((len + 2 + 3) / 4) ≤ a → wrnCopyOut ram dst mem len a = ram a) ∧
      ∀ b : ℤ, b < -2 ∨ len + 3 ≤ b → wrnCopyIn mem' ram dst len b = mem' b
  /-- The values of `size` are `int`s, if the first one is. -/
  sizes : (len : ℤ) + 2 < 2 ^ 31 →
    ∀ s ∈ copySizes (len + wrnDdataOffset), -2 ^ 31 ≤ s ∧ s < 2 ^ 31

theorem copyRounds_len (len : ℕ) : copyRounds (len + wrnDdataOffset) = (len + 2 + 3) / 4 := by
  rw [copyRounds, wrnDdataOffset]
  omega

theorem wordBytes_len (len : ℕ) : wordBytes (len + 2) = 4 * ((len + 2 + 3) / 4) := by
  rw [← copyRounds_len]
  rfl

/-- The words cover the payload and the two bytes before it, and at most three behind. -/
theorem wordBytes_bounds (len : ℕ) :
    len + 2 ≤ wordBytes (len + 2) ∧ wordBytes (len + 2) ≤ len + 5 := by
  simp only [wordBytes]
  omega

/-- **The copy loops are inverse and bounded**, for every length. -/
theorem copyLoops (mem mem' : ℤ → Byte) (ram : ℕ → Byte) (dst len : ℕ) :
    CopyLoops mem mem' ram dst len where
  inverse k hk := by
    have hwords := (wordBytes_bounds len).1
    rw [wrnCopyIn_apply _ _ _ _ (by omega), wrnCopyOut_apply, if_pos (by omega)]
    congr 1
    omega
  payload i hi := by
    have hwords := (wordBytes_bounds len).1
    rw [wrnCopyOut_apply, if_pos (by omega)]
    congr 1
    omega
  words := by
    rw [wrnCopyOutWrites, copyOutRounds_addrs, copyRounds_len]
  slot hlen dir i hdst w hw j hj := by
    obtain ⟨k, hk, hw⟩ := exists_of_mem_wrnCopyOutWrites hw
    simp only [copyRounds, wrnDdataOffset, wrnMtu] at hk hlen
    rw [InBuffer, ← hdst]
    omega
  stores w hw := by
    obtain ⟨k, hk, hw⟩ := exists_of_mem_wrnCopyInStores hw
    simp only [copyRounds, wrnDdataOffset] at hk
    omega
  buffer w hw := by
    obtain ⟨k, hk, hw⟩ := exists_of_mem_wrnCopyInStores hw
    simp only [copyRounds, wrnDdataOffset] at hk
    rw [rxReserve, rxAllocSize]
    omega
  frame := by
    have hwords := (wordBytes_bounds len).2
    refine ⟨fun a ha => ?_, fun b hb => ?_⟩
    · rw [wrnCopyOut_apply, wordBytes_len, if_neg (by omega)]
    · rw [wrnCopyIn, wrnCopyInLoop_apply, wrnDdataOffset, if_neg (by omega)]
  sizes hlen s hs := by
    have hrange := mem_copySizes (by rw [wrnDdataOffset]; omega) hs
    rw [wrnDdataOffset] at hrange
    omega

end SpecSw.Nic
