import Mathlib.Data.List.Induction

/-!
# Cells that lists of entries write

The entries of a list are handled in order, and each writes a value to a cell or leaves it as it is.
The cell then has the value of the last entry that writes it, and handling the list once more does
not change it. A state may have many cells, and what a step does is told cell by cell.

## Main definitions

* `LastWrite.after`: the value of a cell after a list.

## Main results

* `LastWrite.after_of_last`, `LastWrite.after_of_none`, `LastWrite.after_after`.
* `LastWrite.cell_foldl`: a cell of a state.
-/

namespace LastWrite

variable {ι σ ν : Type*}

/-- The value of a cell after a list of entries. -/
def after (writes : ι → Option ν) (l : List ι) (v : ν) : ν :=
  l.foldl (fun v e => (writes e).getD v) v

variable {writes : ι → Option ν} {l l' : List ι} {v : ν}

@[simp] theorem after_nil : after writes [] v = v := rfl

@[simp] theorem after_cons (e : ι) :
    after writes (e :: l) v = after writes l ((writes e).getD v) := rfl

@[simp] theorem after_append : after writes (l ++ l') v = after writes l' (after writes l v) :=
  List.foldl_append

/-- A cell that no entry writes is as it was. -/
theorem after_of_none (h : ∀ e ∈ l, writes e = none) : after writes l v = v := by
  induction l generalizing v with
  | nil => rfl
  | cons e l ih =>
    rw [after_cons, h e List.mem_cons_self, Option.getD_none]
    exact ih fun e' he' => h e' (List.mem_cons_of_mem e he')

/-- A cell has the value of the last entry that writes it. -/
theorem after_of_last {e : ι} {x : ν} (he : writes e = some x) (h : ∀ e' ∈ l', writes e' = none) :
    after writes (l ++ e :: l') v = x := by
  rw [after_append, after_cons, he, Option.getD_some, after_of_none h]

/-- No entry writes the cell, or there is a last one that does. -/
theorem exists_last (writes : ι → Option ν) (l : List ι) :
    (∀ e ∈ l, writes e = none) ∨
      ∃ before e x rest, l = before ++ e :: rest ∧ writes e = some x ∧
        ∀ e' ∈ rest, writes e' = none := by
  induction l using List.reverseRecOn with
  | nil => exact Or.inl fun e he => absurd he List.not_mem_nil
  | append_singleton l e ih =>
    cases he : writes e with
    | some x => exact Or.inr ⟨l, e, x, [], rfl, he, fun e' he' => absurd he' List.not_mem_nil⟩
    | none =>
      rcases ih with hnone | ⟨before, e₀, x, rest, rfl, he₀, hrest⟩
      · refine Or.inl fun e' he' => ?_
        rcases List.mem_append.mp he' with hmem | hmem
        · exact hnone e' hmem
        · rw [List.mem_singleton.mp hmem, he]
      · refine Or.inr ⟨before, e₀, x, rest ++ [e], by simp, he₀, fun e' he' => ?_⟩
        rcases List.mem_append.mp he' with hmem | hmem
        · exact hrest e' hmem
        · rw [List.mem_singleton.mp hmem, he]

/-- The same list once more changes nothing. -/
theorem after_after : after writes l (after writes l v) = after writes l v := by
  rcases exists_last writes l with hnone | ⟨before, e, x, rest, rfl, he, hrest⟩
  · rw [after_of_none hnone]
  · rw [after_of_last he hrest, after_of_last he hrest]

/-- When each step of a state does to a cell what the entry writes, so does the whole list. -/
theorem cell_foldl {step : σ → ι → σ} {cell : σ → ν}
    (h : ∀ s, ∀ e ∈ l, cell (step s e) = (writes e).getD (cell s)) (s : σ) :
    cell (l.foldl step s) = after writes l (cell s) := by
  induction l generalizing s with
  | nil => rfl
  | cons e l ih =>
    rw [List.foldl_cons, ih fun t e' he' => h t e' (List.mem_cons_of_mem e he'),
      h s e List.mem_cons_self, after_cons]

end LastWrite
