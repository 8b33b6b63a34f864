import SpecSw.Carrier.Loader
import Mathlib.Tactic.IntervalCases

/-!
# The bitstream in the FIFO of the FPGA loader

`loader_low_level` swaps the bits of each byte of the bitstream and writes the words to `FCL_FIFO`,
at most 32 after each read of `FCL_IRQ` that shows the FIFO at least half empty, and returns after a
read that shows an error. The registers may return any values, so a loop that waits for the FIFO
need not end, and what has been written until then is intact as well.

The size of the bitstream is rounded up in an `int`: with `2^31 - 3` bytes or more the sum is
negative, no word is written, and the loader returns 0.

## Main definitions

* `Carrier.loaderLowLevelFor`: the loader, for a number of steps.
* `Carrier.FifoIntact`, `Carrier.LoaderIntact`: the bitstream is intact in the FIFO.

## Main results

* `Carrier.toOption_loaderLowLevelFor`: it is the loader.
* `Carrier.loaderIntact_iff`, `Carrier.not_forall_loaderIntact`.
-/

namespace SpecSw.Carrier

open RegisterLog Errno

/-! ### The loader for a number of steps -/

/-- `waitFifo`, with the registers as they are when the fuel has run out. -/
def waitFifoFor : ℕ → GennumRegs → Except GennumRegs GennumRegs
  | 0, g => .error g
  | fuel + 1, g =>
    let (i, g) := g.read fclIrq
    if i &&& (1 <<< 5) ≠ 0 then waitFifoFor fuel g else .ok g

/-- `pushWords`, with the registers as they are when the fuel has run out. -/
def pushWordsFor (data : ℕ → BitVec 8) :
    ℕ → ℕ → ℕ → Bool → GennumRegs → Except GennumRegs (ℤ × GennumRegs)
  | 0, _, _, _, g => .error g
  | fuel + 1, size32, wrote, done, g =>
    if size32 = 0 then .ok (wrote, g.write fclCtrl 0x186)
    else
      let (i, g) := g.read fclIrq
      if ¬ (i &&& 8 ≠ 0 ∧ wrote ≠ 0) ∧ i &&& 0x4 ≠ 0 ∧ !done then .ok (-eio, g)
      else
        let done := done || (i &&& 8 != 0 && wrote != 0)
        match waitFifoFor fuel g with
        | .error g => .error g
        | .ok g =>
          let count := min size32 32
          pushWordsFor data fuel (size32 - count) (wrote + count) done
            (writeFifo data count wrote g)

/-- `loader_low_level`, with the registers as they are when the fuel has run out. -/
def loaderLowLevelFor (fuel : ℕ) (data : ℕ → BitVec 8) (size8 : ℤ) (g : GennumRegs) :
    Except GennumRegs (ℤ × GennumRegs) :=
  let size32 := int32 (size8 + 3) / 4
  let (i, g) := (resetLoader g).read fclCtrl
  if i ≠ 0x40 then .ok (-eio, g)
  else pushWordsFor data fuel size32.toNat 0 false (startLoader (fclCtrlValue size8) g)

theorem toOption_waitFifoFor (fuel : ℕ) (g : GennumRegs) :
    (waitFifoFor fuel g).toOption = waitFifo fuel g := by
  induction fuel generalizing g with
  | zero => rfl
  | succ fuel ih =>
    rw [waitFifoFor, waitFifo]
    dsimp only
    split_ifs
    · exact ih _
    · rfl

theorem toOption_pushWordsFor (data : ℕ → BitVec 8) (fuel size32 wrote : ℕ) (done : Bool)
    (g : GennumRegs) :
    (pushWordsFor data fuel size32 wrote done g).toOption =
      pushWords data fuel size32 wrote done g := by
  induction fuel generalizing size32 wrote done g with
  | zero => rfl
  | succ fuel ih =>
    rw [pushWordsFor, pushWords]
    dsimp only
    split_ifs
    · rfl
    · rfl
    · rw [← toOption_waitFifoFor]
      cases waitFifoFor fuel (g.read fclIrq).2 with
      | error g => rfl
      | ok g => exact ih _ _ _ _

/-- A run for a number of steps that has come to its end is a run of the loader. -/
theorem toOption_loaderLowLevelFor (fuel : ℕ) (data : ℕ → BitVec 8) (size8 : ℤ) (g : GennumRegs) :
    (loaderLowLevelFor fuel data size8 g).toOption = loaderLowLevel fuel data size8 g := by
  rw [loaderLowLevelFor, loaderLowLevel]
  dsimp only
  split_ifs
  · rfl
  · exact toOption_pushWordsFor data fuel _ 0 false _

/-! ### The words -/

/-- The word `i` of a bitstream of `n` bytes: the bytes keep their order and the bits of each are
reversed. Nothing is said about bytes after the end. -/
def WordIntact (data : ℕ → BitVec 8) (n i : ℕ) (word : BitVec 32) : Prop :=
  ∀ j < 4, 4 * i + j < n → ∀ b < 8,
    word.getLsbD (8 * j + b) = (data (4 * i + j)).getLsbD (7 - b)

theorem getLsbD_reverseBits8 (x : BitVec 8) {b : ℕ} (hb : b < 8) :
    (reverseBits8 x).getLsbD b = x.getLsbD (7 - b) := by
  interval_cases b <;> simp [reverseBits8]

theorem wordIntact_bitswapWord (data : ℕ → BitVec 8) (n i : ℕ) :
    WordIntact data n i (bitswapWord data i) := by
  intro j hj _ b hb
  rw [← getLsbD_reverseBits8 _ hb, bitswapWord]
  simp only [BitVec.getLsbD_append]
  interval_cases j
  · rw [if_pos (by omega), Nat.mul_zero, Nat.zero_add, Nat.add_zero]
  · rw [if_neg (by omega), if_pos (by omega), show 8 * 1 + b - 8 = b by omega]
  · rw [if_neg (by omega), if_neg (by omega), if_pos (by omega),
      show 8 * 2 + b - 8 - 8 = b by omega]
  · rw [if_neg (by omega), if_neg (by omega), if_neg (by omega),
      show 8 * 3 + b - 8 - 8 - 8 = b by omega]

/-! ### The pace -/

/-- The status says that at least half of the FIFO is empty. -/
abbrev FifoFree (status : BitVec 32) : Prop := status &&& (1 <<< 5) = 0

/-- How many words the FIFO takes after a log. -/
abbrev fifoRoom (log : List (Access (BitVec 32) (BitVec 32))) : ℕ :=
  roomAfter fclIrq fclFifo FifoFree 32 log

/-- At most 32 words are written after a read of a status that says that the FIFO is free. -/
abbrev FifoPaced (log : List (Access (BitVec 32) (BitVec 32))) : Prop :=
  Paced fclIrq fclFifo FifoFree 32 log

section Pace

variable {data : ℕ → BitVec 8} {g g' g₀ : GennumRegs} {fuel : ℕ}

/-- Accesses other than writes to the FIFO keep the pace. -/
theorem fifoPaced_of_writes (h : FifoPaced g.log) (hw : Writes fclFifo [] g g') :
    FifoPaced g'.log := by
  obtain ⟨log, hlog, hnone⟩ := hw
  rw [hlog]
  exact h.append hnone

theorem waitFifoFor_ok (h : waitFifoFor fuel g = .ok g') : waitFifo fuel g = some g' := by
  rw [← toOption_waitFifoFor, h]
  rfl

/-- The wait writes nothing to the FIFO, also as long as it lasts. -/
theorem waitFifoFor_error (h : waitFifoFor fuel g = .error g') : Writes fclFifo [] g g' := by
  induction fuel generalizing g with
  | zero =>
    obtain rfl := Except.error.inj h
    exact Writes.refl fclFifo g
  | succ fuel ih =>
    rw [waitFifoFor] at h
    dsimp only at h
    split_ifs at h
    exact ((Writes.refl fclFifo g).read fclIrq).trans (ih h)

/-- After the wait there is room for 32 words. -/
theorem fifoRoom_waitFifo (h : waitFifo fuel g = some g') : fifoRoom g'.log = 32 := by
  induction fuel generalizing g with
  | zero => cases h
  | succ fuel ih =>
    rw [waitFifo] at h
    dsimp only at h
    split_ifs at h with hfull
    · exact ih h
    · obtain rfl := Option.some.inj h
      rw [fifoRoom, Regs.read, roomAfter_snoc, Access.room, if_pos rfl]
      exact if_pos (not_not.mp hfull)

theorem fifoPaced_writeFifo {count wrote : ℕ} (h : FifoPaced g.log)
    (hroom : count ≤ fifoRoom g.log) :
    FifoPaced (writeFifo data count wrote g).log := by
  induction count generalizing wrote g with
  | zero => exact h
  | succ count ih =>
    have hfree : 0 < fifoRoom g.log := by omega
    have hroom' : fifoRoom (g.write fclFifo (bitswapWord data wrote)).log = fifoRoom g.log - 1 := by
      rw [fifoRoom, Regs.write, roomAfter_snoc, Access.room, if_pos rfl]
    exact ih (h.snoc fun _ _ => hfree) (by omega)

end Pace

/-! ### The loop -/

/-- The first `k` words of the data have been written, none too early. -/
structure Pushed (data : ℕ → BitVec 8) (k : ℕ) (g₀ g : GennumRegs) : Prop where
  writes : Writes fclFifo (firstWords data k) g₀ g
  paced : FifoPaced g.log

/-- The last access is the read for which the loader gives up. -/
def EndsInError (log : List (Access (BitVec 32) (BitVec 32))) : Prop :=
  ∃ before addr v, log = before ++ [.read addr v] ∧
    (addr = fclCtrl ∧ v ≠ 0x40 ∨ addr = fclIrq ∧ v &&& 0x4 ≠ 0)

/-- Up to `m` words have been pushed, and all of them if the loader has not given up. -/
def Pushing (data : ℕ → BitVec 8) (m : ℕ) (g₀ : GennumRegs) :
    Except GennumRegs (ℤ × GennumRegs) → Prop
  | .error g => ∃ k ≤ m, Pushed data k g₀ g
  | .ok (r, g) =>
    r = m ∧ Pushed data m g₀ g ∨ r = -eio ∧ EndsInError g.log ∧ ∃ k ≤ m, Pushed data k g₀ g

section Loop

variable {data : ℕ → BitVec 8} {g g' g₀ : GennumRegs} {k : ℕ}

/-- Accesses other than writes to the FIFO. -/
theorem Pushed.trans (h : Pushed data k g₀ g) (hw : Writes fclFifo [] g g') :
    Pushed data k g₀ g' where
  writes := by
    have hwrites := h.writes.trans hw
    rwa [List.append_nil] at hwrites
  paced := fifoPaced_of_writes h.paced hw

theorem Pushed.read (h : Pushed data k g₀ g) (addr : BitVec 32) :
    Pushed data k g₀ (g.read addr).2 :=
  h.trans ((Writes.refl fclFifo g).read addr)

/-- Each round of the loop waits for the FIFO and pushes up to 32 words. -/
theorem pushing_pushWordsFor {fuel size32 wrote : ℕ} {done : Bool} (h : Pushed data wrote g₀ g) :
    Pushing data (wrote + size32) g₀ (pushWordsFor data fuel size32 wrote done g) := by
  induction fuel generalizing size32 wrote done g with
  | zero => exact ⟨wrote, Nat.le_add_right wrote size32, h⟩
  | succ fuel ih =>
    have hread : Pushed data wrote g₀ (g.read fclIrq).2 := h.read fclIrq
    rw [pushWordsFor]
    dsimp only
    split_ifs with hzero hfail
    · subst hzero
      exact Or.inl ⟨rfl, h.trans ((Writes.refl fclFifo g).write_of_ne (by decide) _)⟩
    · refine Or.inr ⟨rfl, ⟨g.log, fclIrq, _, rfl, Or.inr ⟨rfl, hfail.2.1⟩⟩, wrote, ?_, hread⟩
      exact Nat.le_add_right wrote size32
    · cases hwait : waitFifoFor fuel (g.read fclIrq).2 with
      | error g₁ =>
        exact ⟨wrote, Nat.le_add_right wrote size32, hread.trans (waitFifoFor_error hwait)⟩
      | ok g₁ =>
        -- what the first read of the round shows does not matter: the wait ends with another one
        have hwait := waitFifoFor_ok hwait
        have hfree : Pushed data wrote g₀ g₁ :=
          hread.trans (waitFifo_writes (Writes.refl fclFifo _) hwait)
        have hroom : min size32 32 ≤ fifoRoom g₁.log := by
          rw [fifoRoom_waitFifo hwait]
          exact min_le_right _ _
        have hround : Pushed data (wrote + min size32 32) g₀
            (writeFifo data (min size32 32) wrote g₁) :=
          ⟨writeFifo_writes hfree.writes, fifoPaced_writeFifo hfree.paced hroom⟩
        have hrest : wrote + min size32 32 + (size32 - min size32 32) = wrote + size32 := by omega
        rw [← hrest]
        exact ih hround

variable {fuel : ℕ} {size8 : ℤ} {input : ℕ → BitVec 32}

theorem pushed_resetLoader :
    Pushed data 0 ⟨input, []⟩ ((resetLoader ⟨input, []⟩).read fclCtrl).2 := by
  have hnone : Pushed data 0 ⟨input, []⟩ ⟨input, []⟩ := ⟨Writes.refl fclFifo _, Paced.nil⟩
  exact (hnone.trans (resetLoader_writes (Writes.refl fclFifo _))).read fclCtrl

/-- Without its reset the loader gives up. -/
theorem loaderLowLevelFor_of_ne (h : controlAfterReset input ≠ 0x40) :
    loaderLowLevelFor fuel data size8 ⟨input, []⟩ =
      .ok (-eio, ((resetLoader ⟨input, []⟩).read fclCtrl).2) :=
  if_pos h

/-- After its reset the loader starts the loop. -/
theorem loaderLowLevelFor_of_eq (h : controlAfterReset input = 0x40) :
    loaderLowLevelFor fuel data size8 ⟨input, []⟩ =
      pushWordsFor data fuel (int32 (size8 + 3) / 4).toNat 0 false
        (startLoader (fclCtrlValue size8) ((resetLoader ⟨input, []⟩).read fclCtrl).2) :=
  if_neg (not_not.mpr h)

/-- The loader pushes the words that the `int` counts. -/
theorem pushing_of_eq (h : controlAfterReset input = 0x40) :
    Pushing data (int32 (size8 + 3) / 4).toNat ⟨input, []⟩
      (loaderLowLevelFor fuel data size8 ⟨input, []⟩) := by
  rw [loaderLowLevelFor_of_eq h]
  have hloop := @pushing_pushWordsFor data _ ⟨input, []⟩ fuel (int32 (size8 + 3) / 4).toNat 0 false
    (pushed_resetLoader.trans (startLoader_writes (Writes.refl fclFifo _) (fclCtrlValue size8)))
  rwa [Nat.zero_add] at hloop

/-- Without its reset the loader pushes nothing. -/
theorem pushing_of_ne (h : controlAfterReset input ≠ 0x40) :
    Pushing data 0 ⟨input, []⟩ (loaderLowLevelFor fuel data size8 ⟨input, []⟩) := by
  rw [loaderLowLevelFor_of_ne h]
  exact Or.inr ⟨rfl, ⟨_, fclCtrl, _, rfl, Or.inl ⟨rfl, h⟩⟩, 0, le_rfl, pushed_resetLoader⟩

end Loop

/-! ### The main result -/

/-- What a log has written to the FIFO of a bitstream of `n` bytes: its first words, at most 32
after a read of the status that says that the FIFO is free, and none after another one. -/
structure FifoIntact (data : ℕ → BitVec 8) (n : ℕ)
    (log : List (Access (BitVec 32) (BitVec 32))) : Prop where
  length_le : (writesTo fclFifo log).length ≤ (n + 3) / 4
  word : ∀ i word, (writesTo fclFifo log)[i]? = some word → WordIntact data n i word
  pace : ∀ before v burst after, log = before ++ .read fclIrq v :: (burst ++ after) →
    (∀ u, .read fclIrq u ∉ burst) →
      (writesTo fclFifo burst).length ≤ if FifoFree v then 32 else 0
  start : ∀ burst after, log = burst ++ after → (∀ u, .read fclIrq u ∉ burst) →
    writesTo fclFifo burst = []

/-- The bitstream of `n` bytes is intact in the FIFO, all of it has been written when the loader
returns a number of words, and nothing follows the read for which it returns an error. -/
def RunIntact (data : ℕ → BitVec 8) (n : ℕ) : Except GennumRegs (ℤ × GennumRegs) → Prop
  | .error g => FifoIntact data n g.log
  | .ok (r, g) => FifoIntact data n g.log ∧
      (0 ≤ r → r = ((n + 3) / 4 : ℕ) ∧ (writesTo fclFifo g.log).length = (n + 3) / 4) ∧
      (r < 0 → EndsInError g.log)

/-- Whatever the registers return, for as long as the loader runs. -/
def LoaderIntact (data : ℕ → BitVec 8) (size8 : ℤ) (input : ℕ → BitVec 32) : Prop :=
  ∀ fuel, RunIntact data size8.toNat (loaderLowLevelFor fuel data size8 ⟨input, []⟩)

section Main

variable {data : ℕ → BitVec 8} {input : ℕ → BitVec 32} {g : GennumRegs} {k m n : ℕ}

theorem Pushed.writesTo_eq (h : Pushed data k ⟨input, []⟩ g) :
    writesTo fclFifo g.log = firstWords data k := h.writes.of_start rfl

theorem Pushed.fifoIntact (h : Pushed data k ⟨input, []⟩ g) (hk : k ≤ (n + 3) / 4) :
    FifoIntact data n g.log where
  length_le := by rwa [h.writesTo_eq, length_firstWords]
  word i word hi := by
    rw [h.writesTo_eq, firstWords, List.getElem?_map] at hi
    obtain ⟨j, hj, rfl⟩ := Option.map_eq_some_iff.mp hi
    obtain ⟨-, rfl⟩ := List.getElem?_eq_some_iff.mp hj
    rw [List.getElem_range]
    exact wordIntact_bitswapWord data n i
  pace before v burst after hlog hburst := by
    have hpaced := h.paced
    rw [hlog, ← List.singleton_append, ← List.append_assoc, ← List.append_assoc] at hpaced
    have hle := hpaced.of_append.length_writesTo_le hburst
    rw [roomAfter_snoc _ (Access.read fclIrq v), Access.room, if_pos rfl] at hle
    exact (Nat.le_add_right _ _).trans hle
  start burst after hlog hburst := by
    have hpaced := h.paced
    rw [hlog, ← List.nil_append burst] at hpaced
    have hle := hpaced.of_append.length_writesTo_le hburst
    rw [roomAfter_nil] at hle
    exact List.length_eq_zero_iff.mp (by omega)

/-- When no word too many is counted, what is pushed is intact. -/
theorem Pushing.runIntact {run : Except GennumRegs (ℤ × GennumRegs)}
    (h : Pushing data m ⟨input, []⟩ run) (hm : m ≤ (n + 3) / 4)
    (hall : ∀ r g, run = .ok (r, g) → 0 ≤ r → m = (n + 3) / 4) : RunIntact data n run := by
  cases run with
  | error g =>
    obtain ⟨k, hk, hpushed⟩ := h
    exact hpushed.fifoIntact (hk.trans hm)
  | ok p =>
    obtain ⟨r, g⟩ := p
    rcases h with ⟨rfl, hpushed⟩ | ⟨rfl, hends, k, hk, hpushed⟩
    · have hm := hall _ _ rfl (Int.natCast_nonneg m)
      refine ⟨hpushed.fifoIntact hm.le, fun _ => ⟨congrArg Nat.cast hm, ?_⟩, fun hneg => ?_⟩
      · rw [hpushed.writesTo_eq, length_firstWords, hm]
      · exact absurd hneg (Int.natCast_nonneg m).not_gt
    · exact ⟨hpushed.fifoIntact (hk.trans hm), fun hr => absurd hr (by decide), fun _ => hends⟩

/-- A large size is counted as a negative number of words. -/
theorem loaderLowLevelFor_large {size8 : ℤ} (h : controlAfterReset input = 0x40)
    (hlarge : 2 ^ 31 - 3 ≤ size8) (hsize : size8 < 2 ^ 31) :
    ∃ g, loaderLowLevelFor 1 data size8 ⟨input, []⟩ = .ok (0, g) := by
  have hcount : (int32 (size8 + 3) / 4).toNat = 0 := by
    simp only [int32]
    omega
  rw [loaderLowLevelFor_of_eq h, hcount]
  exact ⟨_, rfl⟩

/-- **The bitstream in the FIFO.** For any size that is an `int` and any values of the registers,
the bitstream reaches the FIFO intact, exactly when the size can be rounded up in an `int`, or the
loader gives up because its reset fails. -/
theorem loaderIntact_iff (data : ℕ → BitVec 8) (input : ℕ → BitVec 32) (size8 : ℤ)
    (hnonneg : 0 ≤ size8) (hsize : size8 < 2 ^ 31) :
    LoaderIntact data size8 input ↔ size8 < 2 ^ 31 - 3 ∨ controlAfterReset input ≠ 0x40 := by
  constructor
  · intro hintact
    by_contra hbad
    obtain ⟨hlarge, hctrl⟩ := not_or.mp hbad
    obtain ⟨g, hrun⟩ :=
      @loaderLowLevelFor_large data _ _ (not_not.mp hctrl) (not_lt.mp hlarge) hsize
    have hone := hintact 1
    rw [hrun] at hone
    have hall := (hone.2.1 le_rfl).1
    omega
  · intro hgood fuel
    by_cases hctrl : controlAfterReset input = 0x40
    · have hsmall := hgood.resolve_right (not_not.mpr hctrl)
      have hcount : (int32 (size8 + 3) / 4).toNat = (size8.toNat + 3) / 4 := by
        simp only [int32]
        omega
      exact (pushing_of_eq hctrl).runIntact hcount.le fun _ _ _ _ => hcount
    · refine (pushing_of_ne hctrl).runIntact (Nat.zero_le _) fun r g hrun hr => ?_
      rw [loaderLowLevelFor_of_ne hctrl] at hrun
      obtain ⟨rfl, -⟩ := Prod.mk.inj (Except.ok.inj hrun)
      exact absurd hr (by decide)

/-- A bitstream of five bytes, into a FIFO that is always free. -/
theorem loaderIntact_five :
    LoaderIntact (BitVec.ofNat 8) 5 (fun i => if i = 14 then 0x40 else 0) :=
  (loaderIntact_iff _ _ 5 (by decide) (by decide)).mpr (Or.inl (by decide))

/-- Of the first size that is too large no word is pushed, and the loader returns 0. -/
theorem not_forall_loaderIntact :
    ¬ ∀ (data : ℕ → BitVec 8) (input : ℕ → BitVec 32) (size8 : ℤ), 0 ≤ size8 → size8 < 2 ^ 31 →
      LoaderIntact data size8 input := by
  intro hall
  obtain ⟨g, hrun⟩ := @loaderLowLevelFor_large (fun _ => 0) (fun i => if i = 14 then 0x40 else 0)
    (2 ^ 31 - 3) rfl le_rfl (by decide)
  have hone := hall (fun _ => 0) (fun i => if i = 14 then 0x40 else 0) (2 ^ 31 - 3) (by decide)
    (by decide) 1
  rw [hrun] at hone
  exact absurd (hone.2.1 le_rfl).1 (by decide)

end Main

end SpecSw.Carrier
