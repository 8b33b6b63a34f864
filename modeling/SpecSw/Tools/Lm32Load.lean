import SpecSw.Library.LastWrite
import SpecSw.Library.Run
import SpecSw.Tools.Lm32Image

/-!
# Loading a program with `spec-cl`

`spec_load_lm32` asserts the reset of the LM32, waits until the reset line is up, writes the file,
reads it back, and releases the processor; if a word reads back wrong it returns without that. While
the processor runs, it may change its RAM.

The reset register is at a fixed offset from the RAM, and the size of the file is not checked: of a
file that is long enough, the word at that offset goes to the register.

## Main definitions

* `Tools.Lm32Card`, `Tools.Lm32State`: the RAM, the reset line and the processor.
* `Tools.specLoadLm32`.
* `Tools.Lm32File.Releases`, `Tools.FitsIn`.

## Main results

* `Tools.throughout_held_iff`, `Tools.readBack_iff`, `Tools.specLoadLm32_iff`.
-/

namespace SpecSw.Tools

open EventRun Nic

/-! ### The processor -/

/-- The card as seen from the host: the base address, the cell of the RAM at an address, if there is
one, what reads at the other addresses, how many accesses it takes until the reset line is up, and
what the processor does to its RAM between two accesses when it runs. -/
structure Lm32Card where
  base : BitVec 32
  decode : BitVec 32 → Option ℕ
  elsewhere : BitVec 32 → BitVec 32
  delay : ℕ
  program : ℕ → (ℕ → BitVec 32) → ℕ → BitVec 32

/-- The address of the register `RSTR`. -/
def Lm32Card.rstr (card : Lm32Card) : BitVec 32 := card.base + 0x20400

/-- The reset line of the processor. -/
inductive ResetLine
  | released
  | rising (k : ℕ)
  | held
  deriving DecidableEq, Repr

/-- The RAM, the reset line, and the number of accesses so far. -/
structure Lm32State where
  ram : ℕ → BitVec 32
  line : ResetLine
  time : ℕ

/-- `SYSC_RSTR_TRIG_R`. -/
def syscRstrTrig (reg : BitVec 32) : BitVec 32 := reg >>> 0 &&& ((1 <<< 28) - 1)

/-- `SYSC_RSTR_RST`. -/
def syscRstrRst : BitVec 32 := 1 <<< 28

/-- The line after a write to `RSTR`: without the magic value nothing happens. -/
def ResetLine.afterWrite (delay : ℕ) (val : BitVec 32) (line : ResetLine) : ResetLine :=
  if syscRstrTrig val ≠ 0xdeadbee then line
  else if val &&& syscRstrRst = 0 then .released
  else if line = .released then .rising delay
  else line

/-- The line an access later. -/
def ResetLine.next : ResetLine → ResetLine
  | released => released
  | rising 0 => held
  | rising (k + 1) => rising k
  | held => held

namespace Lm32State

variable (card : Lm32Card)

/-- The time of an access passes. -/
def pass (s : Lm32State) : Lm32State where
  ram := if s.line = .held then s.ram else card.program s.time s.ram
  line := s.line.next
  time := s.time + 1

/-- What a write does. -/
def put (s : Lm32State) (addr val : BitVec 32) : Lm32State :=
  if addr = card.rstr then { s with line := s.line.afterWrite card.delay val }
  else
    match card.decode addr with
    | none => s
    | some c => { s with ram := Function.update s.ram c val }

/-- `spec_writel`. -/
def write (s : Lm32State) (addr val : BitVec 32) : Lm32State := (s.put card addr val).pass card

/-- What `spec_readl` returns. -/
def read (s : Lm32State) (addr : BitVec 32) : BitVec 32 :=
  if addr = card.rstr then if s.line = .held then syscRstrRst else 0
  else
    match card.decode addr with
    | none => card.elsewhere addr
    | some c => s.ram c

end Lm32State

/-! ### The tool -/

/-- A file that has been loaded: a larger one would overflow the index of the loops. -/
structure Lm32File where
  data : ℕ → BitVec 8
  size : ℕ
  size_le : size ≤ 2 ^ 31

/-- The words that the first loop writes, and the second one reads, with their addresses. -/
def Lm32File.words (file : Lm32File) (base : BitVec 32) : List (BitVec 32 × BitVec 32) :=
  (List.range ((file.size + 3) / 4)).map fun i =>
    (userAddr base i, swab32 (leWord file.data i))

section Load

variable (card : Lm32Card)

/-- `while (!(spec_readl(card, base_addr + 0x20400) & (1 << 28)));`. -/
def pollReset : ℕ → Lm32State → Option Lm32State
  | 0, _ => none
  | fuel + 1, s =>
    if s.read card card.rstr &&& (1 <<< 28) = 0 then pollReset fuel (s.pass card)
    else some (s.pass card)

/-- The first loop. -/
def writeWords (words : List (BitVec 32 × BitVec 32)) (s : Lm32State) : Lm32State :=
  run (fun s x => s.write card x.1 x.2) s words

/-- The second loop, and what comes after it. -/
def verifyWords : List (BitVec 32 × BitVec 32) → Lm32State → ℤ × Lm32State
  | [], s => (0, s.write card card.rstr 0x0deadbee)
  | x :: words, s =>
    if s.read card x.1 ≠ x.2 then (-1, s.pass card) -- programming error
    else verifyWords words (s.pass card)

/-- `spec_load_lm32` after the file has been loaded. -/
def specLoadLm32 (file : Lm32File) (fuel : ℕ) (s : Lm32State) : Option (ℤ × Lm32State) :=
  (pollReset card fuel (s.write card card.rstr 0x1deadbee)).map fun s =>
    verifyWords card (file.words card.base) (writeWords card (file.words card.base) s)

end Load

/-- A write of this value to `RSTR` releases the processor. -/
def IsRelease (val : BitVec 32) : Prop := syscRstrTrig val = 0xdeadbee ∧ val &&& syscRstrRst = 0

instance : DecidablePred IsRelease := fun _ => inferInstanceAs (Decidable (_ ∧ _))

/-- The file is so long that it has a word for `RSTR`, and this word releases the processor. -/
def Lm32File.Releases (file : Lm32File) : Prop :=
  0x20400 < file.size ∧ IsRelease (wrcWord file.data 0x8100)

section Fits

variable (card : Lm32Card)

/-- The cell that a word of the file is written to. -/
def cellOf (x : BitVec 32 × BitVec 32) : Option ℕ :=
  if x.1 = card.rstr then none else card.decode x.1

/-- What the word reads as when it has no cell and the processor is in reset. -/
def fixedAt (x : BitVec 32 × BitVec 32) : BitVec 32 :=
  if x.1 = card.rstr then syscRstrRst else card.elsewhere x.1

/-- The RAM holds the words: none is written over by another one, and the words that have no cell
happen to be what reads there. -/
def FitsIn (words : List (BitVec 32 × BitVec 32)) : Prop :=
  ∀ x ∈ words,
    match cellOf card x with
    | none => fixedAt card x = x.2
    | some c => ∀ y ∈ words, cellOf card y = some c → y.2 = x.2

end Fits

/-! ### The reset line -/

section Proofs

variable {card : Lm32Card} {s : Lm32State}

theorem line_write_rstr (val : BitVec 32) :
    (s.write card card.rstr val).line = (s.line.afterWrite card.delay val).next := by
  rw [Lm32State.write, Lm32State.put, if_pos rfl, Lm32State.pass]

theorem ram_put_rstr (val : BitVec 32) : (s.put card card.rstr val).ram = s.ram := by
  rw [Lm32State.put, if_pos rfl]

theorem read_rstr_held (h : s.line = .held) : s.read card card.rstr = syscRstrRst := by
  rw [Lm32State.read, if_pos rfl, if_pos h]

theorem read_rstr_not_held (h : s.line ≠ .held) : s.read card card.rstr = 0 := by
  rw [Lm32State.read, if_pos rfl, if_neg h]

/-- In reset, time passes and nothing happens. -/
theorem pass_held (h : s.line = .held) : s.pass card = { s with time := s.time + 1 } := by
  rw [Lm32State.pass, if_pos h, h, ResetLine.next]

/-- The loop ends when the line is up. -/
theorem exists_pollReset (h : s.line ≠ .released) :
    ∃ t, t.line = .held ∧ ∃ n, ∀ fuel, n ≤ fuel → pollReset card fuel s = some t := by
  have hheld : ∀ s : Lm32State, s.line = .held →
      ∀ fuel, 1 ≤ fuel → pollReset card fuel s = some (s.pass card) := by
    intro s hs fuel hfuel
    obtain ⟨fuel, rfl⟩ := Nat.exists_eq_add_of_le' hfuel
    rw [pollReset, read_rstr_held hs, if_neg (by decide)]
  cases hline : s.line with
  | released => exact absurd hline h
  | held => exact ⟨s.pass card, by rw [pass_held hline, hline], 1, hheld s hline⟩
  | rising k =>
    clear h
    induction k generalizing s with
    | zero =>
      have hnext : (s.pass card).line = .held := by rw [Lm32State.pass, hline]; rfl
      refine ⟨(s.pass card).pass card, by rw [pass_held hnext, hnext], 2, fun fuel hfuel => ?_⟩
      obtain ⟨fuel, rfl⟩ := Nat.exists_eq_add_of_le' (Nat.one_le_of_lt hfuel)
      rw [pollReset, read_rstr_not_held (by simp [hline]), if_pos (by decide),
        hheld _ hnext fuel (by omega)]
    | succ k ih =>
      have hnext : (s.pass card).line = .rising k := by rw [Lm32State.pass, hline]; rfl
      obtain ⟨t, ht, n, hn⟩ := ih hnext
      refine ⟨t, ht, n + 1, fun fuel hfuel => ?_⟩
      obtain ⟨fuel, rfl⟩ := Nat.exists_eq_add_of_le' (Nat.one_le_of_lt hfuel)
      rw [pollReset, read_rstr_not_held (by simp [hline]), if_pos (by decide),
        hn fuel (by omega)]

theorem line_after_reset : (s.write card card.rstr 0x1deadbee).line ≠ .released := by
  rw [line_write_rstr]
  have htrig : syscRstrTrig 0x1deadbee = 0xdeadbee := by decide
  have hrst : ¬ (0x1deadbee : BitVec 32) &&& syscRstrRst = 0 := by decide
  rw [ResetLine.afterWrite, if_neg (not_not.mpr htrig), if_neg hrst]
  cases hline : s.line with
  | released =>
    rw [if_pos rfl]
    cases card.delay <;> simp [ResetLine.next]
  | rising k =>
    rw [if_neg (by simp)]
    cases k <;> simp [ResetLine.next]
  | held => simp [ResetLine.next]

/-! ### Writing the words -/

theorem afterWrite_held (delay : ℕ) (val : BitVec 32) :
    ResetLine.held.afterWrite delay val = if IsRelease val then .released else .held := by
  rw [ResetLine.afterWrite, if_neg (ResetLine.noConfusion : ¬ ResetLine.held = .released)]
  by_cases htrig : syscRstrTrig val = 0xdeadbee
  · rw [if_neg (not_not.mpr htrig)]
    exact if_congr (and_iff_right htrig).symm rfl rfl
  · rw [if_pos htrig, if_neg fun h => htrig h.1]

theorem put_held_line (h : s.line = .held) (x : BitVec 32 × BitVec 32) :
    (s.put card x.1 x.2).line =
      if x.1 = card.rstr ∧ IsRelease x.2 then .released else .held := by
  rw [Lm32State.put]
  by_cases hrstr : x.1 = card.rstr
  · rw [if_pos hrstr, h, afterWrite_held]
    exact if_congr (and_iff_right hrstr).symm rfl rfl
  · rw [if_neg hrstr, if_neg fun hx => hrstr hx.1]
    cases card.decode x.1 with
    | none => exact h
    | some c => exact h

theorem write_held_line (h : s.line = .held) (x : BitVec 32 × BitVec 32) :
    (s.write card x.1 x.2).line = .held ↔ ¬ (x.1 = card.rstr ∧ IsRelease x.2) := by
  rw [Lm32State.write, Lm32State.pass, put_held_line h]
  by_cases hx : x.1 = card.rstr ∧ IsRelease x.2
  · rw [if_pos hx]
    exact iff_of_false ResetLine.noConfusion (not_not.mpr hx)
  · rw [if_neg hx]
    exact iff_of_true rfl hx

/-- What a word does to the RAM. -/
def putRam (card : Lm32Card) (ram : ℕ → BitVec 32) (x : BitVec 32 × BitVec 32) : ℕ → BitVec 32 :=
  match cellOf card x with
  | none => ram
  | some c => Function.update ram c x.2

theorem write_held_ram (h : s.line = .held) {x : BitVec 32 × BitVec 32}
    (hx : ¬ (x.1 = card.rstr ∧ IsRelease x.2)) :
    (s.write card x.1 x.2).ram = putRam card s.ram x := by
  have hram : (s.put card x.1 x.2).ram = putRam card s.ram x := by
    rw [Lm32State.put, putRam, cellOf]
    split_ifs
    · rfl
    · cases card.decode x.1 <;> rfl
  have hline : (s.put card x.1 x.2).line = .held := (put_held_line h x).trans (if_neg hx)
  rw [Lm32State.write, pass_held hline, hram]

/-- The processor stays in reset exactly when no word releases it. -/
theorem throughout_held_iff (h : s.line = .held) (words : List (BitVec 32 × BitVec 32)) :
    Throughout (fun s x => s.write card x.1 x.2) (fun s : Lm32State => s.line = .held) s words ↔
      ∀ x ∈ words, ¬ (x.1 = card.rstr ∧ IsRelease x.2) := by
  rw [← along_const_iff (fun s x => Lm32State.write card s x.1 x.2) (s := s)]
  exact throughout_iff_along (I := fun s : Lm32State => s.line = .held) h (fun _ ht => ht)
    (fun _ x ht hx => (write_held_line ht x).mpr hx)
    (fun _ x ht hx => fun hheld => hx ((write_held_line ht x).mp hheld)) words

/-- The RAM then has the words, and nothing else has happened to it. -/
theorem writeWords_held (h : s.line = .held) {words : List (BitVec 32 × BitVec 32)}
    (hwords : ∀ x ∈ words, ¬ (x.1 = card.rstr ∧ IsRelease x.2)) :
    (writeWords card words s).line = .held ∧
      (writeWords card words s).ram = words.foldl (putRam card) s.ram := by
  induction words generalizing s with
  | nil => exact ⟨h, rfl⟩
  | cons x words ih =>
    rw [List.forall_mem_cons] at hwords
    have hnext := (write_held_line h x).mpr hwords.1
    obtain ⟨hline, hram⟩ := ih hnext hwords.2
    refine ⟨hline, hram.trans ?_⟩
    rw [List.foldl_cons, write_held_ram h hwords.1]

theorem rstr_iff {base : BitVec 32} {i : ℕ} (hi : i ≤ 2 ^ 29) :
    userAddr base i = base + 0x20400 ↔ i = 0x8100 := by
  rw [userAddr, BitVec.add_right_inj]
  constructor
  · intro heq
    have hnat := congrArg BitVec.toNat heq
    rw [BitVec.toNat_mul, BitVec.toNat_ofNat, show (4 : BitVec 32).toNat = 4 from rfl,
      show (0x20400 : BitVec 32).toNat = 0x20400 from rfl] at hnat
    omega
  · rintro rfl
    rfl

theorem forall_words_iff (file : Lm32File) :
    (∀ x ∈ file.words card.base, ¬ (x.1 = card.rstr ∧ IsRelease x.2)) ↔ ¬ file.Releases := by
  have hsize := file.size_le
  simp only [Lm32File.words, List.forall_mem_map, List.mem_range, swab32_leWord]
  constructor
  · rintro hall ⟨hlong, hrelease⟩
    exact hall 0x8100 (by omega) ⟨(rstr_iff (by decide)).mpr rfl, hrelease⟩
  · rintro hno i hi ⟨haddr, hrelease⟩
    obtain rfl := (rstr_iff (by omega)).mp haddr
    exact hno ⟨by omega, hrelease⟩

/-! ### Reading them back -/

theorem read_held (h : s.line = .held) (x : BitVec 32 × BitVec 32) :
    s.read card x.1 =
      match cellOf card x with
      | none => fixedAt card x
      | some c => s.ram c := by
  rw [Lm32State.read, cellOf, fixedAt]
  split_ifs
  · rfl
  · rfl

/-- The second loop gets to its end. -/
theorem verifyWords_of_read {words : List (BitVec 32 × BitVec 32)} (h : s.line = .held)
    (hread : ∀ x ∈ words, s.read card x.1 = x.2) :
    ∃ k, verifyWords card words s =
      (0, ({ s with time := k } : Lm32State).write card card.rstr 0x0deadbee) := by
  induction words generalizing s with
  | nil => exact ⟨s.time, rfl⟩
  | cons x words ih =>
    rw [List.forall_mem_cons] at hread
    rw [verifyWords, if_neg (not_not.mpr hread.1), pass_held h]
    exact @ih { s with time := s.time + 1 } h hread.2

/-- A word reads back wrong. -/
theorem verifyWords_of_not_read {words : List (BitVec 32 × BitVec 32)} (h : s.line = .held)
    (hread : ¬ ∀ x ∈ words, s.read card x.1 = x.2) :
    ∃ k, verifyWords card words s = (-1, { s with time := k }) := by
  induction words generalizing s with
  | nil => exact absurd (fun x hx => absurd hx List.not_mem_nil) hread
  | cons x words ih =>
    rw [verifyWords, pass_held h]
    by_cases hx : s.read card x.1 = x.2
    · rw [if_neg (not_not.mpr hx)]
      refine @ih { s with time := s.time + 1 } h fun hall => hread ?_
      exact List.forall_mem_cons.mpr ⟨hx, hall⟩
    · rw [if_pos hx]
      exact ⟨s.time + 1, rfl⟩

/-- The value of a cell after the words. -/
theorem foldl_putRam (words : List (BitVec 32 × BitVec 32)) (ram : ℕ → BitVec 32) (c : ℕ) :
    words.foldl (putRam card) ram c =
      LastWrite.after (fun x => if cellOf card x = some c then some x.2 else none) words
        (ram c) := by
  refine @LastWrite.cell_foldl _ _ _ _ _ _ (fun ram : ℕ → BitVec 32 => ram c)
    (fun ram x _ => ?_) ram
  rw [putRam]
  cases hcell : cellOf card x with
  | none => rfl
  | some c' =>
    by_cases hc : c' = c
    · subst hc
      simp
    · simp [hc, Function.update_of_ne (Ne.symm hc)]

/-- All words are found again exactly when they fit. -/
theorem readBack_iff (h : s.line = .held) {words : List (BitVec 32 × BitVec 32)}
    (hwords : ∀ x ∈ words, ¬ (x.1 = card.rstr ∧ IsRelease x.2)) :
    (∀ x ∈ words, (writeWords card words s).read card x.1 = x.2) ↔ FitsIn card words := by
  obtain ⟨hline, hram⟩ := writeWords_held h hwords
  have hvalue (x : BitVec 32 × BitVec 32) (hx : x ∈ words) {c : ℕ} (hc : cellOf card x = some c) :
      ∃ e ∈ words, cellOf card e = some c ∧ words.foldl (putRam card) s.ram c = e.2 := by
    rw [foldl_putRam]
    rcases LastWrite.exists_last
      (fun x : BitVec 32 × BitVec 32 => if cellOf card x = some c then some x.2 else none) words
      with hnone | ⟨before, e, v, rest, hsplit, he, hrest⟩
    · exact absurd (hnone x hx) (by simp [hc])
    · obtain ⟨hcell, rfl⟩ : cellOf card e = some c ∧ e.2 = v := by
        split_ifs at he with hcell
        exact ⟨hcell, Option.some.inj he⟩
      refine ⟨e, by simp [hsplit], hcell, ?_⟩
      rw [hsplit]
      exact LastWrite.after_of_last (if_pos hcell) hrest
  constructor
  · intro hread x hx
    have hself := hread x hx
    rw [read_held hline, hram] at hself
    cases hcell : cellOf card x with
    | none => rwa [hcell] at hself
    | some c =>
      rw [hcell] at hself
      intro y hy hycell
      have hother := hread y hy
      rw [read_held hline, hram, hycell] at hother
      exact hother.symm.trans hself
  · intro hfits x hx
    have hself := hfits x hx
    rw [read_held hline, hram]
    cases hcell : cellOf card x with
    | none => rwa [hcell] at hself
    | some c =>
      rw [hcell] at hself
      obtain ⟨e, he, hecell, hlast⟩ := hvalue x hx hcell
      exact hlast.trans (hself e he hecell)

/-! ### The whole load -/

theorem userAddr_inj {base : BitVec 32} {i j : ℕ} (hi : i < 2 ^ 30) (hj : j < 2 ^ 30)
    (h : userAddr base i = userAddr base j) : i = j := by
  rw [userAddr, userAddr, BitVec.add_right_inj] at h
  have hnat := congrArg BitVec.toNat h
  rw [BitVec.toNat_mul, BitVec.toNat_mul, BitVec.toNat_ofNat, BitVec.toNat_ofNat,
    show (4 : BitVec 32).toNat = 4 from rfl] at hnat
  omega

/-- A file that does not reach the reset register fits into a RAM that has a cell of its own for
each word. -/
theorem fitsIn_of_ram {file : Lm32File} (hsize : file.size ≤ 0x20400)
    (hcell : ∀ x ∈ file.words card.base, (card.decode x.1).isSome = true)
    (hinj : ∀ x ∈ file.words card.base, ∀ y ∈ file.words card.base,
      card.decode x.1 = card.decode y.1 → x.1 = y.1) :
    FitsIn card (file.words card.base) := by
  have hram : ∀ x ∈ file.words card.base, cellOf card x = card.decode x.1 := by
    intro x hx
    obtain ⟨i, hi, rfl⟩ := List.mem_map.mp hx
    rw [List.mem_range] at hi
    exact if_neg fun hrstr => by
      have hindex := (rstr_iff (by omega)).mp hrstr
      omega
  intro x hx
  rw [hram x hx]
  obtain ⟨c, hc⟩ := Option.isSome_iff_exists.mp (hcell x hx)
  rw [hc]
  intro y hy hycell
  rw [hram y hy, ← hc] at hycell
  have haddr := hinj y hy x hx hycell
  obtain ⟨i, hi, rfl⟩ := List.mem_map.mp hx
  obtain ⟨j, hj, rfl⟩ := List.mem_map.mp hy
  rw [List.mem_range] at hi hj
  obtain rfl : j = i := userAddr_inj (by omega) (by omega) haddr
  rfl

/-- **A program is run when all of it has been loaded.** The call gets the processor into reset, and
keeps it there while it writes the file, exactly if the file has no word for the reset register that
releases it. For such a file the call returns 0 if the RAM holds every word, and has then released
the processor with them in the RAM; otherwise it returns -1, and the processor stays in reset. -/
theorem specLoadLm32_iff (card : Lm32Card) (file : Lm32File) (s : Lm32State) :
    let words := file.words card.base
    ∃ t : Lm32State, t.line = .held ∧
      (∃ n, ∀ fuel, n ≤ fuel → specLoadLm32 card file fuel s =
        some (verifyWords card words (writeWords card words t))) ∧
      (Throughout (fun s x => s.write card x.1 x.2) (fun s : Lm32State => s.line = .held) t words ↔
        ¬ file.Releases) ∧
      (¬ file.Releases →
        let r := verifyWords card words (writeWords card words t)
        (FitsIn card words ∧ r.1 = 0 ∧ r.2.line = .released ∧
          ∃ k, r.2.ram = card.program k (words.foldl (putRam card) t.ram)) ∨
        (¬ FitsIn card words ∧ r.1 = -1 ∧ r.2.line = .held)) := by
  intro words
  obtain ⟨t, ht, n, hn⟩ :=
    @exists_pollReset card (s.write card card.rstr 0x1deadbee) line_after_reset
  refine ⟨t, ht, ⟨n, fun fuel hfuel => ?_⟩, ?_, fun hno => ?_⟩
  · rw [specLoadLm32, hn fuel hfuel]
    rfl
  · rw [throughout_held_iff ht, forall_words_iff]
  · have hwords := (@forall_words_iff card file).mpr hno
    obtain ⟨hline, hram⟩ := writeWords_held ht hwords
    have hread := readBack_iff ht hwords
    by_cases hfits : FitsIn card words
    · obtain ⟨k, hverify⟩ := verifyWords_of_read hline (hread.mpr hfits)
      refine .inl ⟨hfits, ?_⟩
      generalize hloaded : ({ writeWords card words t with time := k } : Lm32State) = loaded
        at hverify
      have hheld : loaded.line = .held := hloaded ▸ hline
      have hcells : loaded.ram = words.foldl (putRam card) t.ram := hloaded ▸ hram
      have hvalue : IsRelease 0x0deadbee := by decide
      have hreleased : (loaded.put card card.rstr 0x0deadbee).line = .released :=
        (put_held_line hheld (card.rstr, 0x0deadbee)).trans (if_pos ⟨rfl, hvalue⟩)
      rw [hverify, Lm32State.write, Lm32State.pass, hreleased, ram_put_rstr, hcells,
        if_neg (ResetLine.noConfusion : ¬ ResetLine.released = .held)]
      exact ⟨rfl, rfl, _, rfl⟩
    · obtain ⟨k, hverify⟩ := verifyWords_of_not_read hline (mt hread.mp hfits)
      rw [hverify]
      exact .inr ⟨hfits, rfl, hline⟩

end Proofs

end SpecSw.Tools
