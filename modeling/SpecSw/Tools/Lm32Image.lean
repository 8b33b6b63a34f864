import SpecSw.Nic.Probe
import SpecSw.Library.CountedLoop

/-!
# The program of the LM32

`wrn_load_wrc` of the driver and `spec_load_lm32` of the library of the tools write a file to the
memory of the LM32, word by word. The file holds the program for a big-endian processor, the host is
little-endian, and both swap the bytes of each word.

Both round the number of words up, and fetch all four bytes of the last word from a buffer that ends
with the file. The driver counts bytes in an `int`, which becomes negative after `2^31`, and
compares it with a `size_t`; the library computes addresses in 32 bits.

## Main definitions

* `Tools.wrnLoadWrcTrace`, `Tools.specLoadLm32Trace`: what the two functions fetch and write.
* `Tools.SameImage`: both write the image that the file determines.

## Main results

* `Tools.sameImage_iff`, `Tools.not_forall_sameImage`.
* `Tools.writeWrc_eq_foldl_imageAt`: the image in the RAM.
-/

namespace SpecSw.Tools

open Nic CountedLoop

/-! ### The two loops -/

/-- What a loader has done: the bytes of the file that it has fetched, by their indices, and its
register writes, with addresses of `w` bits. -/
structure LoadTrace (w : ℕ) where
  fetched : List ℕ
  writes : List (BitVec w × BitVec 32)
  deriving DecidableEq, Repr

/-- The word `p` of the file, as the host loads it. -/
def leWord (data : ℕ → BitVec 8) (p : ℕ) : BitVec 32 :=
  data (4 * p + 3) ++ data (4 * p + 2) ++ data (4 * p + 1) ++ data (4 * p)

/-- `__cpu_to_be32` and `htonl`. -/
def swab32 (x : BitVec 32) : BitVec 32 :=
  x.extractLsb' 0 8 ++ x.extractLsb' 8 8 ++ x.extractLsb' 16 8 ++ x.extractLsb' 24 8

variable {w : ℕ}

/-- Fetch the word `p` of the file, and write it with its bytes swapped. -/
def LoadTrace.put (data : ℕ → BitVec 8) (addr : BitVec w) (p : ℕ) (t : LoadTrace w) :
    LoadTrace w where
  fetched := t.fetched ++ [4 * p, 4 * p + 1, 4 * p + 2, 4 * p + 3]
  writes := t.writes ++ [(addr, swab32 (leWord data p))]

/-- The `for` loop of `wrn_load_wrc`; `p` counts the words. -/
def wrnLoadWrcLoop (data : ℕ → BitVec 8) (size ram : BitVec 64) :
    ℕ → BitVec 32 → ℕ → LoadTrace 64 → Option (LoadTrace 64)
  | 0, _, _, _ => none
  | fuel + 1, count, p, t =>
    if count.signExtend 64 < size then
      wrnLoadWrcLoop data size ram fuel (count + 4) (p + 1)
        (t.put data (ram + count.signExtend 64) p)
    else some t

/-- `wrn_load_wrc` after the file has been found. -/
def wrnLoadWrcTrace (data : ℕ → BitVec 8) (size ram ramsize : BitVec 64) (fuel : ℕ) :
    Option (LoadTrace 64) :=
  if ramsize < size then some ⟨[], []⟩ else wrnLoadWrcLoop data size ram fuel 0 0 ⟨[], []⟩

/-- The first `for` loop of `spec_load_lm32`. -/
def specLoadLm32Loop (data : ℕ → BitVec 8) (size : BitVec 64) (baseAddr : BitVec 32) :
    ℕ → BitVec 32 → LoadTrace 32 → Option (LoadTrace 32)
  | 0, _, _ => none
  | fuel + 1, i, t =>
    if i.signExtend 64 < (size + 3) / 4 then
      specLoadLm32Loop data size baseAddr fuel (i + 1) (t.put data (baseAddr + i * 4) i.toNat)
    else some t

/-- The writes of the file in `spec_load_lm32`. -/
def specLoadLm32Trace (data : ℕ → BitVec 8) (size : BitVec 64) (baseAddr : BitVec 32) (fuel : ℕ) :
    Option (LoadTrace 32) :=
  specLoadLm32Loop data size baseAddr fuel 0 ⟨[], []⟩

/-- The register writes, with addresses as numbers. -/
def LoadTrace.image (t : LoadTrace w) : List (ℕ × BitVec 32) :=
  t.writes.map fun x => (x.1.toNat, x.2)

/-- The image of a file of `n` bytes at a base address. -/
def imageAt (data : ℕ → BitVec 8) (n base : ℕ) : List (ℕ × BitVec 32) :=
  (List.range ((n + 3) / 4)).map fun k => (base + 4 * k, wrcWord data k)

/-- Both loaders come to an end with the writes of the image, and have fetched no byte after the end
of the file. -/
def SameImage (data : ℕ → BitVec 8) (n ramsize : BitVec 64) (base : BitVec 32) : Prop :=
  ∃ fuel kernel user,
    wrnLoadWrcTrace data n (base.setWidth 64) ramsize fuel = some kernel ∧
    specLoadLm32Trace data n base fuel = some user ∧
    kernel.image = imageAt data n.toNat base.toNat ∧ user.image = imageAt data n.toNat base.toNat ∧
    (∀ b ∈ kernel.fetched, b < n.toNat) ∧ ∀ b ∈ user.fetched, b < n.toNat

/-! ### The loops as counted loops -/

/-- Swapping the bytes of the loaded word gives them in the order of the file. -/
theorem swab32_leWord (data : ℕ → BitVec 8) (p : ℕ) : swab32 (leWord data p) = wrcWord data p := by
  rw [swab32, leWord, wrcWord, BitVec.extractLsb'_append_eq_right,
    BitVec.extractLsb'_append_eq_of_le (by decide), BitVec.extractLsb'_append_eq_right,
    BitVec.extractLsb'_append_eq_of_le (by decide), BitVec.extractLsb'_append_eq_of_le (by decide),
    BitVec.extractLsb'_append_eq_right, BitVec.extractLsb'_append_eq_of_le (by decide),
    BitVec.extractLsb'_append_eq_of_le (by decide), BitVec.extractLsb'_append_eq_left]

/-- The test of the kernel's loop before the word `p`. -/
def KernelTest (n : BitVec 64) (p : ℕ) : Prop := (BitVec.ofNat 32 (4 * p)).signExtend 64 < n

/-- The test of the loop of the tools. -/
def UserTest (n : BitVec 64) (i : ℕ) : Prop := (BitVec.ofNat 32 i).signExtend 64 < (n + 3) / 4

instance (n : BitVec 64) : DecidablePred (KernelTest n) := fun _ =>
  inferInstanceAs (Decidable (_ < _))

instance (n : BitVec 64) : DecidablePred (UserTest n) := fun _ =>
  inferInstanceAs (Decidable (_ < _))

/-- The address of the word `p` in the kernel. -/
def kernelAddr (ram : BitVec 64) (p : ℕ) : BitVec 64 :=
  ram + (BitVec.ofNat 32 (4 * p)).signExtend 64

/-- The address of the word `i` in the tools. -/
def userAddr (base : BitVec 32) (i : ℕ) : BitVec 32 := base + BitVec.ofNat 32 i * 4

section Loops

variable {data : ℕ → BitVec 8} {n ram : BitVec 64} {base : BitVec 32} {fuel : ℕ}

theorem wrnLoadWrcLoop_eq (p : ℕ) (t : LoadTrace 64) :
    wrnLoadWrcLoop data n ram fuel (BitVec.ofNat 32 (4 * p)) p t =
      loop (KernelTest n) (fun p => LoadTrace.put data (kernelAddr ram p) p) fuel p t := by
  induction fuel generalizing p t with
  | zero => rfl
  | succ fuel ih =>
    have hcount : BitVec.ofNat 32 (4 * p) + 4 = BitVec.ofNat 32 (4 * (p + 1)) := by
      rw [Nat.mul_add, BitVec.ofNat_add]
      rfl
    rw [wrnLoadWrcLoop, loop, hcount, ih]
    rfl

/-- An `int` as a `size_t`. -/
theorem toNat_signExtend_ofNat {x : ℕ} (hx : x < 2 ^ 32) :
    ((BitVec.ofNat 32 x).signExtend 64).toNat = if x < 2 ^ 31 then x else 2 ^ 64 - 2 ^ 32 + x := by
  rw [BitVec.toNat_signExtend, BitVec.toNat_setWidth, BitVec.msb_eq_decide, BitVec.toNat_ofNat,
    Nat.mod_eq_of_lt hx, Nat.mod_eq_of_lt (hx.trans (by decide))]
  simp only [decide_eq_true_eq]
  split_ifs <;> omega

/-- The index of the tools is not negative where the test holds. -/
theorem UserTest.lt {i : ℕ} (h : UserTest n i) (hi : i ≤ 2 ^ 31) : i < 2 ^ 31 := by
  rw [UserTest, BitVec.lt_def, toNat_signExtend_ofNat (by omega), BitVec.toNat_udiv,
    show (4 : BitVec 64).toNat = 4 from rfl] at h
  have hn := (n + 3).isLt
  by_contra hlarge
  rw [if_neg hlarge] at h
  omega

theorem specLoadLm32Loop_eq (i : ℕ) (hi : i ≤ 2 ^ 31) (t : LoadTrace 32) :
    specLoadLm32Loop data n base fuel (BitVec.ofNat 32 i) t =
      loop (UserTest n) (fun i => LoadTrace.put data (userAddr base i) i) fuel i t := by
  induction fuel generalizing i t with
  | zero => rfl
  | succ fuel ih =>
    have hsucc : BitVec.ofNat 32 i + 1 = BitVec.ofNat 32 (i + 1) := (BitVec.ofNat_add i 1).symm
    have hindex : (BitVec.ofNat 32 i).toNat = i := by
      rw [BitVec.toNat_ofNat, Nat.mod_eq_of_lt (by omega)]
    rw [specLoadLm32Loop, loop, hsucc, hindex]
    by_cases htest : (BitVec.ofNat 32 i).signExtend 64 < (n + 3) / 4
    · have huser : UserTest n i := htest
      rw [if_pos htest, if_pos huser, ih (i + 1) (huser.lt hi)]
      rfl
    · rw [if_neg htest, if_neg (show ¬ UserTest n i from htest)]

/-- What a loader has done after a number of rounds. -/
def putWords (data : ℕ → BitVec 8) (addr : ℕ → BitVec w) (m : ℕ) : LoadTrace w :=
  rounds (fun p => LoadTrace.put data (addr p) p) 0 m ⟨[], []⟩

theorem putWords_eq (addr : ℕ → BitVec w) (m : ℕ) :
    putWords data addr m =
      ⟨(List.range m).flatMap fun p => [4 * p, 4 * p + 1, 4 * p + 2, 4 * p + 3],
        (List.range m).map fun p => (addr p, wrcWord data p)⟩ := by
  induction m with
  | zero => rfl
  | succ m ih =>
    rw [putWords] at ih ⊢
    rw [rounds_succ, ih, Nat.zero_add, LoadTrace.put, swab32_leWord, List.range_succ,
      List.flatMap_append, List.map_append]
    rfl

/-- No byte after the end of the file has been fetched, exactly when the words are in the file. -/
theorem fetched_putWords_lt_iff (addr : ℕ → BitVec w) (m size : ℕ) :
    (∀ b ∈ (putWords data addr m).fetched, b < size) ↔ 4 * m ≤ size := by
  rw [putWords_eq]
  constructor
  · intro hall
    cases m with
    | zero => exact Nat.zero_le size
    | succ m =>
      have hlast := hall (4 * m + 3) (List.mem_flatMap.mpr ⟨m, by simp, by simp⟩)
      omega
  · intro hsize b hb
    obtain ⟨p, hp, hb⟩ := List.mem_flatMap.mp hb
    rw [List.mem_range] at hp
    simp only [List.mem_cons, List.not_mem_nil, or_false] at hb
    omega

/-- The image is right when all words are written, at the right addresses. -/
theorem image_putWords_eq_iff (data : ℕ → BitVec 8) (addr : ℕ → BitVec w) (m size start : ℕ) :
    (putWords data addr m).image = imageAt data size start ↔
      m = (size + 3) / 4 ∧ ∀ k < m, (addr k).toNat = start + 4 * k := by
  rw [putWords_eq, LoadTrace.image, imageAt, List.map_map]
  constructor
  · intro heq
    have hlength := congrArg List.length heq
    simp only [List.length_map, List.length_range] at hlength
    subst hlength
    refine ⟨rfl, fun k hk => ?_⟩
    have hword := List.map_inj_left.mp heq k (List.mem_range.mpr hk)
    exact congrArg Prod.fst hword
  · rintro ⟨rfl, haddr⟩
    refine List.map_inj_left.mpr fun k hk => ?_
    exact Prod.ext (haddr k (List.mem_range.mp hk)) rfl

/-- The driver writes words until the test of its loop fails. -/
theorem wrnLoadWrcTrace_eq_some_iff {ramsize : BitVec 64} (h : n ≤ ramsize) {t : LoadTrace 64} :
    wrnLoadWrcTrace data n ram ramsize fuel = some t ↔
      ∃ m < fuel, EndsAfter (KernelTest n) 0 m ∧ t = putWords data (kernelAddr ram) m := by
  rw [wrnLoadWrcTrace, if_neg (BitVec.not_lt.mpr h)]
  exact (wrnLoadWrcLoop_eq 0 ⟨[], []⟩ ▸ loop_eq_some_iff)

/-- The tools write words until the test of their loop fails. -/
theorem specLoadLm32Trace_eq_some_iff {t : LoadTrace 32} :
    specLoadLm32Trace data n base fuel = some t ↔
      ∃ m < fuel, EndsAfter (UserTest n) 0 m ∧ t = putWords data (userAddr base) m := by
  rw [specLoadLm32Trace]
  exact (specLoadLm32Loop_eq 0 (Nat.zero_le _) ⟨[], []⟩ ▸ loop_eq_some_iff)

/-- Both loops have to end after all words of the file, which must be in the file, and write them
to the right addresses. -/
theorem sameImage_iff_endsAfter {ramsize : BitVec 64} (h : n ≤ ramsize) {m : ℕ}
    (hm : m = (n.toNat + 3) / 4) :
    SameImage data n ramsize base ↔
      (EndsAfter (KernelTest n) 0 m ∧ EndsAfter (UserTest n) 0 m) ∧ 4 * m ≤ n.toNat ∧
      ∀ k < m, (kernelAddr (base.setWidth 64) k).toNat = base.toNat + 4 * k ∧
        (userAddr base k).toNat = base.toNat + 4 * k := by
  constructor
  · rintro ⟨fuel, kernel, user, hkernel, huser, hkimage, huimage, hkfetched, hufetched⟩
    obtain ⟨m₁, -, hkends, rfl⟩ := (wrnLoadWrcTrace_eq_some_iff h).mp hkernel
    obtain ⟨m₂, -, huends, rfl⟩ := specLoadLm32Trace_eq_some_iff.mp huser
    obtain ⟨hm₁, hkaddr⟩ := (image_putWords_eq_iff data _ m₁ _ _).mp hkimage
    obtain ⟨hm₂, huaddr⟩ := (image_putWords_eq_iff data _ m₂ _ _).mp huimage
    obtain rfl := hm₁.trans hm.symm
    obtain rfl := hm₂.trans hm.symm
    exact ⟨⟨hkends, huends⟩, (fetched_putWords_lt_iff _ _ _).mp hkfetched,
      fun k hk => ⟨hkaddr k hk, huaddr k hk⟩⟩
  · rintro ⟨⟨hkends, huends⟩, hfile, haddr⟩
    have hkimage := (image_putWords_eq_iff data (kernelAddr (base.setWidth 64)) m _ base.toNat).mpr
      ⟨hm, fun k hk => (haddr k hk).1⟩
    have huimage := (image_putWords_eq_iff data (userAddr base) m _ base.toNat).mpr
      ⟨hm, fun k hk => (haddr k hk).2⟩
    exact ⟨m + 1, _, _,
      (wrnLoadWrcTrace_eq_some_iff h).mpr ⟨m, Nat.lt_succ_self m, hkends, rfl⟩,
      specLoadLm32Trace_eq_some_iff.mpr ⟨m, Nat.lt_succ_self m, huends, rfl⟩, hkimage, huimage,
      (fetched_putWords_lt_iff _ m _).mpr hfile, (fetched_putWords_lt_iff _ m _).mpr hfile⟩

end Loops

/-! ### The main result -/

section Main

variable {n : BitVec 64} {base : BitVec 32} {m k : ℕ}

/-- The driver's loop ends after the last word of the file, when its counter does not wrap. -/
theorem endsAfter_kernelTest (hm : n.toNat = 4 * m) (hsize : n.toNat ≤ 2 ^ 31) :
    EndsAfter (KernelTest n) 0 m where
  goes j hj := by
    rw [Nat.zero_add, KernelTest, BitVec.lt_def, toNat_signExtend_ofNat (by omega),
      if_pos (by omega)]
    omega
  stops := by
    rw [Nat.zero_add, KernelTest, BitVec.lt_def, toNat_signExtend_ofNat (by omega)]
    split_ifs <;> omega

/-- With a larger file the counter wraps before the last word, and ends the loop there if it ever
does. -/
theorem le_of_endsAfter_kernelTest (hm : n.toNat = 4 * m) (hends : EndsAfter (KernelTest n) 0 m) :
    n.toNat ≤ 2 ^ 31 := by
  by_contra hlarge
  -- as a `size_t`, the counter is `2^64 - 2^31` after `2^29` words and `2^64 - 4` at its largest
  have hfirst := hends.goes (2 ^ 29) (by omega)
  rw [Nat.zero_add, KernelTest, BitVec.lt_def, toNat_signExtend_ofNat (by omega),
    if_neg (by omega)] at hfirst
  have hlast := hends.goes (2 ^ 30 - 1) (by omega)
  rw [Nat.zero_add, KernelTest, BitVec.lt_def, toNat_signExtend_ofNat (by omega),
    if_neg (by omega)] at hlast
  have hsize := n.isLt
  omega

theorem endsAfter_userTest (hm : n.toNat = 4 * m) (hsize : n.toNat ≤ 2 ^ 31) :
    EndsAfter (UserTest n) 0 m := by
  have hcount : ((n + 3) / 4).toNat = m := by
    rw [BitVec.toNat_udiv, BitVec.toNat_add, show (4 : BitVec 64).toNat = 4 from rfl,
      show (3 : BitVec 64).toNat = 3 from rfl]
    omega
  constructor
  · intro j hj
    rw [Nat.zero_add, UserTest, BitVec.lt_def, hcount, toNat_signExtend_ofNat (by omega),
      if_pos (by omega)]
    exact hj
  · rw [Nat.zero_add, UserTest, BitVec.lt_def, hcount, toNat_signExtend_ofNat (by omega),
      if_pos (by omega)]
    exact lt_irrefl m

theorem toNat_kernelAddr (hk : 4 * k < 2 ^ 31) :
    (kernelAddr (base.setWidth 64) k).toNat = base.toNat + 4 * k := by
  have hbase := base.isLt
  rw [kernelAddr, BitVec.toNat_add, toNat_signExtend_ofNat (by omega), if_pos hk,
    BitVec.toNat_setWidth]
  omega

/-- The address in the tools is right when it fits in 32 bits. -/
theorem toNat_userAddr_iff (hk : 4 * k < 2 ^ 31) :
    (userAddr base k).toNat = base.toNat + 4 * k ↔ base.toNat + 4 * k < 2 ^ 32 := by
  rw [userAddr, BitVec.toNat_add, BitVec.toNat_mul, BitVec.toNat_ofNat,
    show (4 : BitVec 32).toNat = 4 from rfl]
  omega

/-- **The image of the LM32 program.** For any file that fits in the RAM and any base address, both
loaders write the image that the file determines and fetch nothing after its end, exactly when its
size is a multiple of four and no more than `2^31` bytes, and the last address fits in 32 bits. -/
theorem sameImage_iff (data : ℕ → BitVec 8) (n ramsize : BitVec 64) (base : BitVec 32)
    (h : n ≤ ramsize) :
    SameImage data n ramsize base ↔
      4 ∣ n.toNat ∧ n.toNat ≤ 2 ^ 31 ∧ base.toNat + n.toNat < 2 ^ 32 + 4 := by
  rw [sameImage_iff_endsAfter h rfl]
  constructor
  · rintro ⟨⟨hkends, huends⟩, hfile, haddr⟩
    have hm : n.toNat = 4 * ((n.toNat + 3) / 4) := by omega
    have hsize := le_of_endsAfter_kernelTest hm hkends
    refine ⟨⟨_, hm⟩, hsize, ?_⟩
    by_cases hzero : n.toNat = 0
    · have hbase := base.isLt
      omega
    · have hlast := (haddr ((n.toNat + 3) / 4 - 1) (by omega)).2
      rw [toNat_userAddr_iff (by omega)] at hlast
      omega
  · rintro ⟨⟨m, hm⟩, hsize, hbase⟩
    obtain rfl : m = (n.toNat + 3) / 4 := by omega
    refine ⟨⟨endsAfter_kernelTest hm hsize, endsAfter_userTest hm hsize⟩, hm.ge, fun k hk => ?_⟩
    exact ⟨toNat_kernelAddr (by omega), (toNat_userAddr_iff (by omega)).mpr (by omega)⟩

/-- Two words at the offset of the RAM. -/
theorem sameImage_eight : SameImage (BitVec.ofNat 8) 8 16 0x80000 :=
  (sameImage_iff _ 8 16 0x80000 (by decide)).mpr ⟨by decide, by decide, by decide⟩

/-- Of a file of one byte, both loaders fetch three bytes after the end. -/
theorem not_forall_sameImage :
    ¬ ∀ (data : ℕ → BitVec 8) (n ramsize : BitVec 64) (base : BitVec 32), n ≤ ramsize →
      SameImage data n ramsize base := by
  intro hall
  have hle : (1 : BitVec 64) ≤ 1 := BitVec.le_refl 1
  have hsame := hall (fun _ => 0) 1 1 0 hle
  rw [sameImage_iff_endsAfter hle rfl] at hsame
  exact absurd hsame.2.1 (by decide)

end Main

/-- Writing the image to the RAM is what the loop of `wrn_load_wrc` does to it. -/
theorem writeWrc_eq_foldl_imageAt (data : ℕ → BitVec 8) (size base : ℕ) (ram : ℕ → BitVec 32) :
    writeWrc data size ram =
      (imageAt data size base).foldl (fun ram x => Function.update ram ((x.1 - base) / 4) x.2)
        ram := by
  rw [writeWrc, imageAt, List.foldl_map]
  congr 1
  funext ram k
  rw [Nat.add_sub_cancel_left, Nat.mul_div_cancel_left k (by decide)]

end SpecSw.Tools
