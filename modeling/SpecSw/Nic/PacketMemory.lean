import SpecSw.Nic.Receive

/-!
# What the two copy loops do

`__wrn_copy_out` and `__wrn_copy_in` move a frame by words of four bytes, from two bytes before the
data on, so they move up to three bytes behind it as well. Both are described byte by byte: the
bytes of whole words are those of the source, all others are as they were.

## Main definitions

* `Nic.wordBytes`: the number of bytes that a copy moves.

## Main results

* `Nic.wrnCopyOut_apply`, `Nic.wrnCopyIn_apply`.
-/

namespace SpecSw.Nic

/-! ### One word -/

/-- The bytes of a little-endian word. -/
theorem extractLsb'_bytes (b0 b1 b2 b3 : Byte) :
    (b3 ++ b2 ++ b1 ++ b0).extractLsb' 0 8 = b0 ∧ (b3 ++ b2 ++ b1 ++ b0).extractLsb' 8 8 = b1 ∧
      (b3 ++ b2 ++ b1 ++ b0).extractLsb' 16 8 = b2 ∧
      (b3 ++ b2 ++ b1 ++ b0).extractLsb' 24 8 = b3 := by
  refine ⟨?_, ?_, ?_, ?_⟩ <;> ext k hk <;>
    simp only [BitVec.getElem_extractLsb', BitVec.getLsbD_append] <;> grind

/-- A word read from a buffer and written to the packet memory moves four bytes. -/
theorem writelMem_getUnalignedLe32 (ram : ℕ → Byte) (dst a : ℕ) (mem : ℤ → Byte) (src : ℤ) :
    writelMem ram dst (getUnalignedLe32 mem src) a =
      if dst ≤ a ∧ a < dst + 4 then mem (src + (a - dst : ℕ)) else ram a := by
  obtain ⟨h0, h1, h2, h3⟩ :=
    extractLsb'_bytes (mem src) (mem (src + 1)) (mem (src + 2)) (mem (src + 3))
  simp only [writelMem, getUnalignedLe32, h0, h1, h2, h3]
  split_ifs <;> first | omega | rfl | (congr 1; omega)

/-- A word read from the packet memory and stored in a buffer moves four bytes. -/
theorem putUnalignedLe32_readlMem (mem : ℤ → Byte) (dst a : ℤ) (ram : ℕ → Byte) (src : ℕ) :
    putUnalignedLe32 mem (readlMem ram src) dst a =
      if dst ≤ a ∧ a < dst + 4 then ram (src + (a - dst).toNat) else mem a := by
  obtain ⟨h0, h1, h2, h3⟩ :=
    extractLsb'_bytes (ram src) (ram (src + 1)) (ram (src + 2)) (ram (src + 3))
  simp only [putUnalignedLe32, readlMem, h0, h1, h2, h3]
  split_ifs <;> first | omega | rfl | (congr 1; omega)

/-! ### The loops -/

/-- The bytes of the words that hold `size` bytes. -/
def wordBytes (size : ℤ) : ℕ := 4 * ((size + 3) / 4).toNat

theorem wordBytes_of_nonpos {size : ℤ} (h : ¬ 0 < size) : wordBytes size = 0 := by
  simp only [wordBytes]
  omega

theorem wordBytes_of_pos {size : ℤ} (h : 0 < size) : wordBytes size = wordBytes (size - 4) + 4 := by
  simp only [wordBytes]
  omega

theorem wrnCopyOutLoop_apply (ram : ℕ → Byte) (dst : ℕ) (mem : ℤ → Byte) (src size : ℤ) (a : ℕ) :
    wrnCopyOutLoop ram dst mem src size a =
      if dst ≤ a ∧ a < dst + wordBytes size then mem (src + (a - dst : ℕ)) else ram a := by
  induction ram, dst, src, size using wrnCopyOutLoop.induct mem with
  | case1 ram dst src size hpos ih =>
    rw [wrnCopyOutLoop, if_pos hpos, ih, wordBytes_of_pos hpos, writelMem_getUnalignedLe32]
    split_ifs <;> first | omega | rfl | (congr 1; omega)
  | case2 ram dst src size hpos =>
    rw [wrnCopyOutLoop, if_neg hpos, wordBytes_of_nonpos hpos, if_neg (by omega)]

theorem wrnCopyInLoop_apply (mem : ℤ → Byte) (dst : ℤ) (ram : ℕ → Byte) (src : ℕ) (size a : ℤ) :
    wrnCopyInLoop mem dst ram src size a =
      if dst ≤ a ∧ a < dst + wordBytes size then ram (src + (a - dst).toNat) else mem a := by
  induction mem, dst, src, size using wrnCopyInLoop.induct ram with
  | case1 mem dst src size hpos ih =>
    rw [wrnCopyInLoop, if_pos hpos, ih, wordBytes_of_pos hpos, putUnalignedLe32_readlMem]
    split_ifs <;> first | omega | rfl | (congr 1; omega)
  | case2 mem dst src size hpos =>
    rw [wrnCopyInLoop, if_neg hpos, wordBytes_of_nonpos hpos, if_neg (by omega)]

/-- `__wrn_copy_out` writes whole words from `dst` on, with the data two bytes behind. -/
theorem wrnCopyOut_apply (ram : ℕ → Byte) (dst : ℕ) (mem : ℤ → Byte) (size : ℤ) (a : ℕ) :
    wrnCopyOut ram dst mem size a =
      if dst ≤ a ∧ a < dst + wordBytes (size + 2) then mem ((a - dst : ℕ) - 2) else ram a := by
  rw [wrnCopyOut, wrnCopyOutLoop_apply, wrnDdataOffset, show (0 : ℤ) - 2 + (a - dst : ℕ) =
    (a - dst : ℕ) - 2 by omega]

/-- `__wrn_copy_in` brings the data to the start of the buffer. -/
theorem wrnCopyIn_apply (mem : ℤ → Byte) (ram : ℕ → Byte) (src : ℕ) (size : ℤ) {k : ℕ}
    (hk : k < size) : wrnCopyIn mem ram src size k = ram (src + 2 + k) := by
  have hwords : size + 2 ≤ wordBytes (size + 2) := by
    simp only [wordBytes]
    omega
  rw [wrnCopyIn, wrnCopyInLoop_apply, wrnDdataOffset, if_pos (by omega)]
  congr 1
  omega

end SpecSw.Nic
