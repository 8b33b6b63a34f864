import Mathlib.Data.List.DropRight
import Mathlib.Logic.Function.Basic
import SpecSw.Library.CyclicWindow

/-!
# A ring buffer that drops its oldest entry

A ring of `n` cells with a head, where the next entry goes, and a tail, where the oldest entry is.
Its `contents` are the cells of the window from the tail to the head. Appending to a ring whose
head would meet the tail moves the tail on, so the ring keeps the newest `n - 1` entries: it
refines the list on which `push` appends and keeps the last `n - 1` entries (`contents_push`) and
`take k` removes a prefix (`contents_popN`, `popN_fst`).

## Main definitions

* `RingFifo.Ring`, `RingFifo.Ring.contents`, `RingFifo.Ring.push`, `RingFifo.Ring.popN`.
* `RingFifo.Op`, `RingFifo.Interleaves`: what some order of whole pushes and whole pops does to
  the list that keeps its last `k` entries.

## Main results

* `RingFifo.Ring.contents_push`, `RingFifo.Ring.contents_foldl_push`,
  `RingFifo.Ring.popN_fst`, `RingFifo.Ring.contents_popN`.
* `RingFifo.Interleaves.pushes`, `RingFifo.Interleaves.pop`, `RingFifo.Interleaves.sublist`.
-/

namespace RingFifo

open CyclicWindow

/-- A ring of `n` cells, its head and its tail. -/
structure Ring (n : ℕ) (α : Type*) where
  buf : Fin n → α
  head : Fin n
  tail : Fin n

namespace Ring

variable {n : ℕ} [NeZero n] {α : Type*}

/-- The entries of a ring, oldest first. -/
def contents (r : Ring n α) : List α := (window r.tail r.head).map r.buf

/-- Append an entry; a full ring gives up its oldest one. -/
def push (r : Ring n α) (x : α) : Ring n α where
  buf := Function.update r.buf r.head x
  head := r.head + 1
  tail := if r.head + 1 = r.tail then r.tail + 1 else r.tail

/-- Remove the oldest entries, at most `k`, and list them. -/
def popN : ℕ → Ring n α → List α × Ring n α
  | 0, r => ([], r)
  | k + 1, r =>
    if r.head = r.tail then ([], r)
    else
      let rest := popN k { r with tail := r.tail + 1 }
      (r.buf r.tail :: rest.1, rest.2)

theorem length_contents_lt (r : Ring n α) : r.contents.length < n := by
  simpa [contents] using ringDist_lt r.tail r.head

@[simp] theorem contents_eq_nil_iff (r : Ring n α) : r.contents = [] ↔ r.head = r.tail := by
  rw [← List.length_eq_zero_iff, contents, List.length_map, length_window, ringDist_eq_zero_iff,
    eq_comm]

theorem contents_eq_cons {r : Ring n α} (hne : r.head ≠ r.tail) :
    r.contents = r.buf r.tail :: contents { r with tail := r.tail + 1 } := by
  rw [contents, window_eq_cons (Ne.symm hne), List.map_cons]
  rfl

/-- The cell at the head is outside the window, so writing it changes no entry. -/
private theorem map_update_head (r : Ring n α) (t : Fin n) (x : α) :
    (window t r.head).map (Function.update r.buf r.head x) = (window t r.head).map r.buf := by
  refine List.map_congr_left fun i hi => ?_
  refine Function.update_of_ne ?_ _ _
  rintro rfl
  exact not_between_head t r.head (mem_window.mp hi)

/-- Appending keeps the newest `n - 1` entries. -/
theorem contents_push (hn : 2 ≤ n) (r : Ring n α) (x : α) :
    (r.push x).contents = (r.contents ++ [x]).rtake (n - 1) := by
  by_cases hfull : r.head + 1 = r.tail
  · have hlen : r.contents.length = n - 1 := by
      rw [contents, List.length_map, length_window, ringDist_of_succ_eq hfull]
    have hne : r.head ≠ r.tail := fun e => by
      have := (contents_eq_nil_iff r).mpr e
      rw [this, List.length_nil] at hlen
      omega
    have hhead : r.head + 1 ≠ r.tail + 1 := fun e => hne (succ_inj.mp e)
    rw [List.rtake, List.length_append, hlen, List.length_singleton,
      show n - 1 + 1 - (n - 1) = 1 by omega, contents_eq_cons hne, List.cons_append,
      List.drop_succ_cons, List.drop_zero]
    simp only [contents, push, if_pos hfull]
    rw [window_succ_head hhead, List.map_append, map_update_head]
    simp
  · have hlen : r.contents.length < n - 1 := by
      have h := ringDist_lt r.tail (r.head + 1)
      rw [ringDist_succ_head hfull] at h
      rw [contents, List.length_map, length_window]
      omega
    rw [List.rtake, List.length_append, List.length_singleton,
      show r.contents.length + 1 - (n - 1) = 0 by omega, List.drop_zero]
    simp only [contents, push, if_neg hfull]
    rw [window_succ_head hfull, List.map_append, map_update_head]
    simp

theorem rtake_rtake_append (xs ys : List α) (k : ℕ) :
    (xs.rtake k ++ ys).rtake k = (xs ++ ys).rtake k := by
  simp only [List.rtake, List.length_append, List.length_drop]
  rcases Nat.lt_or_ge k xs.length with hk | hk
  · rw [List.drop_append, List.drop_append, List.drop_drop, List.length_drop]
    congr 2 <;> omega
  · rw [Nat.sub_eq_zero_of_le hk, List.drop_zero, Nat.sub_zero]

/-- Appending a batch keeps the newest `n - 1` entries. -/
theorem contents_foldl_push (hn : 2 ≤ n) (r : Ring n α) (xs : List α) :
    (xs.foldl push r).contents = (r.contents ++ xs).rtake (n - 1) := by
  induction xs generalizing r with
  | nil =>
    have := r.length_contents_lt
    rw [List.foldl_nil, List.append_nil, List.rtake, show r.contents.length - (n - 1) = 0 by omega,
      List.drop_zero]
  | cons x xs ih =>
    rw [List.foldl_cons, ih, contents_push hn, rtake_rtake_append, List.append_assoc]
    rfl

/-- The entries removed are the oldest ones. -/
theorem popN_fst (k : ℕ) (r : Ring n α) : (r.popN k).1 = r.contents.take k := by
  induction k generalizing r with
  | zero => simp [popN]
  | succ k ih =>
    by_cases hne : r.head = r.tail
    · simp [popN, hne, (contents_eq_nil_iff r).mpr hne]
    · simp [popN, hne, contents_eq_cons hne, ih]

/-- What a removal leaves are the other entries, in order. -/
theorem contents_popN (k : ℕ) (r : Ring n α) : (r.popN k).2.contents = r.contents.drop k := by
  induction k generalizing r with
  | zero => simp [popN]
  | succ k ih =>
    by_cases hne : r.head = r.tail
    · simp [popN, hne, (contents_eq_nil_iff r).mpr hne]
    · simp [popN, hne, contents_eq_cons hne, ih]

end Ring

/-! ### Orders of whole operations -/

/-- An operation on a list that keeps its last entries. -/
inductive Op (α : Type*)
  | push (x : α)
  | pop

variable {α : Type*} {k : ℕ}

/-- The entry that an operation appends. -/
def Op.pushed : Op α → Option α
  | push x => some x
  | pop => none

/-- An operation on the list, of which the last `k` entries stay, and what has been popped. -/
def Op.apply (k : ℕ) (s : List α × List α) : Op α → List α × List α
  | push x => ((s.1 ++ [x]).rtake k, s.2)
  | pop => (s.1.tail, s.2 ++ s.1.head?.toList)

/-- Some order of whole operations, the entries of `pushed` being pushed in turn, pops the entries
`popped` from the list `q` and leaves `rest`. -/
def Interleaves (k : ℕ) (q pushed popped rest : List α) : Prop :=
  ∃ ops : List (Op α), ops.filterMap Op.pushed = pushed ∧
    ops.foldl (Op.apply k) (q, []) = (rest, popped)

namespace Interleaves

variable {q pushed popped rest : List α}

theorem refl (k : ℕ) (q : List α) : Interleaves k q [] [] q := ⟨[], rfl, rfl⟩

theorem push (h : Interleaves k q pushed popped rest) (x : α) :
    Interleaves k q (pushed ++ [x]) popped ((rest ++ [x]).rtake k) := by
  obtain ⟨ops, hpushed, hops⟩ := h
  refine ⟨ops ++ [.push x], ?_, ?_⟩
  · rw [List.filterMap_append, hpushed]
    rfl
  · rw [List.foldl_append, hops]
    rfl

/-- A batch of pushes comes after all the operations before. -/
theorem pushes (h : Interleaves k q pushed popped rest) (hlen : rest.length ≤ k) (xs : List α) :
    Interleaves k q (pushed ++ xs) popped ((rest ++ xs).rtake k) := by
  induction xs using List.reverseRecOn with
  | nil =>
    rw [List.append_nil, List.append_nil, List.rtake, Nat.sub_eq_zero_of_le hlen, List.drop_zero]
    exact h
  | append_singleton xs x ih =>
    have hnext := ih.push x
    rwa [Ring.rtake_rtake_append, List.append_assoc, List.append_assoc] at hnext

/-- A pop takes the oldest entry. -/
theorem pop {x : α} (h : Interleaves k q pushed popped (x :: rest)) :
    Interleaves k q pushed (popped ++ [x]) rest := by
  obtain ⟨ops, hpushed, hops⟩ := h
  refine ⟨ops ++ [.pop], ?_, ?_⟩
  · rw [List.filterMap_append, hpushed]
    exact List.append_nil pushed
  · rw [List.foldl_append, hops]
    rfl

/-- The last operation of an order, and what comes before it. -/
theorem cases_concat {ops : List (Op α)} {op : Op α}
    (hpushed : (ops ++ [op]).filterMap Op.pushed = pushed)
    (hops : (ops ++ [op]).foldl (Op.apply k) (q, []) = (rest, popped)) :
    ∃ r p, Interleaves k q (ops.filterMap Op.pushed) p r ∧
      (ops.foldl (Op.apply k) (q, []) = (r, p)) ∧
      ((∃ x, op = .push x ∧ pushed = ops.filterMap Op.pushed ++ [x] ∧ popped = p ∧
          rest = (r ++ [x]).rtake k) ∨
        (op = .pop ∧ pushed = ops.filterMap Op.pushed ∧ popped ++ rest = p ++ r)) := by
  obtain ⟨⟨r, p⟩, hs⟩ : ∃ s, ops.foldl (Op.apply k) (q, []) = s := ⟨_, rfl⟩
  rw [List.foldl_append, hs] at hops
  rw [List.filterMap_append] at hpushed
  refine ⟨r, p, ⟨ops, rfl, hs⟩, hs, ?_⟩
  cases op with
  | push x =>
    obtain ⟨rfl, rfl⟩ := Prod.mk.inj hops
    exact Or.inl ⟨x, rfl, hpushed.symm, rfl, rfl⟩
  | pop =>
    refine Or.inr ⟨rfl, hpushed.symm.trans (List.append_nil _), ?_⟩
    cases r with
    | nil =>
      obtain ⟨rfl, rfl⟩ := Prod.mk.inj hops
      simp
    | cons y r =>
      obtain ⟨rfl, rfl⟩ := Prod.mk.inj hops
      simp

/-- Every entry is popped once or left at most, and in the order of their pushes. -/
theorem sublist (h : Interleaves k q pushed popped rest) :
    (popped ++ rest).Sublist (q ++ pushed) := by
  obtain ⟨ops, hpushed, hops⟩ := h
  induction ops using List.reverseRecOn generalizing pushed popped rest with
  | nil =>
    obtain ⟨rfl, rfl⟩ := Prod.mk.inj hops
    obtain rfl : [] = pushed := hpushed
    simp
  | append_singleton ops op ih =>
    obtain ⟨r, p, -, hs, hcase⟩ := cases_concat hpushed hops
    have hbefore := ih rfl hs
    rcases hcase with ⟨x, -, rfl, rfl, rfl⟩ | ⟨-, rfl, heq⟩
    · have hdrop : (popped ++ (r ++ [x]).rtake k).Sublist (popped ++ r ++ [x]) := by
        rw [List.append_assoc]
        exact (List.Sublist.refl popped).append (List.drop_sublist _ _)
      rw [← List.append_assoc]
      exact hdrop.trans (hbefore.append (List.Sublist.refl [x]))
    · rwa [heq]

/-- Without a push nothing is lost. -/
theorem append_of_no_push (h : Interleaves k q [] popped rest) : popped ++ rest = q := by
  obtain ⟨ops, hpushed, hops⟩ := h
  induction ops using List.reverseRecOn generalizing popped rest with
  | nil =>
    obtain ⟨rfl, rfl⟩ := Prod.mk.inj hops
    rfl
  | append_singleton ops op ih =>
    obtain ⟨r, p, -, hs, hcase⟩ := cases_concat hpushed hops
    rcases hcase with ⟨x, -, hnil, -⟩ | ⟨-, hnil, heq⟩
    · exact absurd hnil (by simp)
    · rw [heq]
      exact ih hnil.symm hs

/-- One push loses nothing, or the oldest entry before any is popped. -/
theorem append_of_one_push (hq : q.length ≤ k) {x : α} (h : Interleaves k q [x] popped rest) :
    popped ++ rest = q ++ [x] ∨ popped ++ rest = (q ++ [x]).tail := by
  obtain ⟨ops, hpushed, hops⟩ := h
  induction ops using List.reverseRecOn generalizing popped rest with
  | nil => exact absurd hpushed (by simp)
  | append_singleton ops op ih =>
    obtain ⟨r, p, hbefore, hs, hcase⟩ := cases_concat hpushed hops
    rcases hcase with ⟨y, -, hone, rfl, rfl⟩ | ⟨-, hone, heq⟩
    · have hsplit : [] ++ [x] = ops.filterMap Op.pushed ++ [y] := hone
      obtain ⟨hnil, hy⟩ := List.append_inj' hsplit rfl
      obtain rfl : x = y := List.singleton_inj.mp hy
      rw [← hnil] at hbefore
      have hall := hbefore.append_of_no_push
      have hlen := congrArg List.length hall
      rw [List.length_append] at hlen
      rw [List.rtake, List.length_append, List.length_singleton]
      by_cases hfull : r.length + 1 ≤ k
      · rw [Nat.sub_eq_zero_of_le hfull, List.drop_zero, ← List.append_assoc, hall]
        exact Or.inl rfl
      · have hzero : popped = [] := List.length_eq_zero_iff.mp (by omega)
        rw [hzero, List.nil_append] at hall ⊢
        rw [hall, show q.length + 1 - k = 1 by rw [hall] at hfull; omega, List.drop_one]
        exact Or.inr rfl
    · rw [heq]
      exact ih hone.symm hs

end Interleaves

end RingFifo
