import Mathlib.Algebra.GroupWithZero.Nat
import Mathlib.Data.Fin.Basic
import Mathlib.Data.List.Basic
import Mathlib.Logic.Function.Iterate
import Mathlib.Tactic.SplitIfs

/-!
# Windows of a cyclic array of slots

A ring of `n` slots is indexed by `Fin n`, and an index moves on by `i + 1`, which wraps. A tail
`t` and a head `h` delimit the window of the slots from `t` up to, but not including, `h`:
`ringDist t h` is their number, `window t h` lists them in order and `Between t h i` tests one. As
`ringDist t t = 0`, a window never holds all `n` slots: a ring that stored `n` entries would show an
empty window.

## Main definitions

* `CyclicWindow.ringDist`, `CyclicWindow.Between`, `CyclicWindow.span`, `CyclicWindow.window`.

## Main results

* `CyclicWindow.window_succ_head`, `CyclicWindow.window_eq_cons`, `CyclicWindow.window_split`,
  `CyclicWindow.filter_not_between`: how a window changes when its head or its tail moves on.
-/

namespace CyclicWindow

variable {n : ℕ} [NeZero n]

/-- The number of slots from `t` up to, but not including, `h`. -/
def ringDist (t h : Fin n) : ℕ := (h - t).val

/-- The slot `i` is one of those from `t` up to, but not including, `h`. -/
def Between (t h i : Fin n) : Prop := ringDist t i < ringDist t h

instance (t h i : Fin n) : Decidable (Between t h i) := inferInstanceAs (Decidable (_ < _))

omit [NeZero n] in
private theorem ringDist_eq_ite (t h : Fin n) :
    ringDist t h = if t.val ≤ h.val then h.val - t.val else n - t.val + h.val := by
  have ht := t.isLt
  have hh := h.isLt
  rw [ringDist, Fin.val_sub]
  split_ifs with hle
  · rw [show n - t.val + h.val = (h.val - t.val) + n by omega, Nat.add_mod_right]
    exact Nat.mod_eq_of_lt (by omega)
  · exact Nat.mod_eq_of_lt (by omega)

private theorem val_succ_eq_ite (i : Fin n) :
    (i + 1).val = if i.val + 1 = n then 0 else i.val + 1 := by
  have hi := i.isLt
  rw [Fin.val_add_eq_ite]
  have hone : (1 : Fin n).val = 1 % n := Fin.val_one' n
  rcases Nat.lt_or_ge 1 n with h1 | h1
  · rw [hone, Nat.mod_eq_of_lt h1]
    split_ifs <;> omega
  · have : n = 1 := by omega
    subst this
    simp

theorem succ_inj {i j : Fin n} : i + 1 = j + 1 ↔ i = j := by
  have hi := val_succ_eq_ite i
  have hj := val_succ_eq_ite j
  rw [Fin.ext_iff, Fin.ext_iff]
  split_ifs at hi hj <;> omega

omit [NeZero n] in
theorem ringDist_lt (t h : Fin n) : ringDist t h < n := (h - t).isLt

@[simp] theorem ringDist_self (t : Fin n) : ringDist t t = 0 := by simp [ringDist]

omit [NeZero n] in
@[simp] theorem ringDist_eq_zero_iff {t h : Fin n} : ringDist t h = 0 ↔ t = h := by
  rw [ringDist_eq_ite, Fin.ext_iff]
  have ht := t.isLt
  split_ifs <;> omega

/-- Moving the head on adds one slot, unless the head would meet the tail. -/
theorem ringDist_succ_head {t h : Fin n} (hne : h + 1 ≠ t) :
    ringDist t (h + 1) = ringDist t h + 1 := by
  have hv := val_succ_eq_ite h
  have hne' : (h + 1).val ≠ t.val := fun e => hne (Fin.ext e)
  have ht := t.isLt
  have hh := h.isLt
  rw [ringDist_eq_ite, ringDist_eq_ite]
  split_ifs at hv ⊢ <;> omega

/-- A head just behind the tail has the longest window. -/
theorem ringDist_of_succ_eq {t h : Fin n} (heq : h + 1 = t) : ringDist t h = n - 1 := by
  have hv := val_succ_eq_ite h
  have hh := h.isLt
  subst heq
  rw [ringDist_eq_ite]
  split_ifs at hv ⊢ <;> omega

/-- Moving the tail on removes one slot of a window that has one. -/
theorem ringDist_succ_tail {t h : Fin n} (hne : t ≠ h) :
    ringDist t h = ringDist (t + 1) h + 1 := by
  have hv := val_succ_eq_ite t
  have hne' : t.val ≠ h.val := fun e => hne (Fin.ext e)
  have ht := t.isLt
  have hh := h.isLt
  rw [ringDist_eq_ite, ringDist_eq_ite]
  split_ifs at hv ⊢ <;> omega

theorem ringDist_succ_head_le {t u h : Fin n} (hle : ringDist t u ≤ ringDist t h) (hne : u ≠ h) :
    ringDist t (u + 1) ≤ ringDist t h := by
  have hv := val_succ_eq_ite u
  have hne' : u.val ≠ h.val := fun e => hne (Fin.ext e)
  have ht := t.isLt
  have hu := u.isLt
  have hh := h.isLt
  rw [ringDist_eq_ite t u, ringDist_eq_ite t h] at hle
  rw [ringDist_eq_ite t (u + 1), ringDist_eq_ite t h]
  split_ifs at hv hle ⊢ <;> omega

theorem iterate_succ_dist (t h : Fin n) : (· + 1)^[ringDist t h] t = h := by
  generalize hk : ringDist t h = k
  induction k generalizing t with
  | zero => exact ringDist_eq_zero_iff.mp hk
  | succ k ih =>
    have hne : t ≠ h := fun e => by simp [e] at hk
    rw [Function.iterate_succ_apply]
    exact ih (t + 1) (by have := ringDist_succ_tail hne; omega)

theorem ringDist_right_inj {t u h : Fin n} : ringDist t u = ringDist t h ↔ u = h := by
  constructor
  · intro heq
    rw [← iterate_succ_dist t u, heq, iterate_succ_dist]
  · rintro rfl
    rfl

/-- The slot after one of a window is not the tail. -/
theorem succ_ne_of_between {t h i : Fin n} (hi : Between t h i) : i + 1 ≠ t := by
  intro heq
  have hlast := ringDist_of_succ_eq heq
  have hlt := ringDist_lt t h
  have hi : ringDist t i < ringDist t h := hi
  omega

/-! ### The slots of a window in order -/

/-- The `k` slots from `t` on. -/
def span (t : Fin n) : ℕ → List (Fin n)
  | 0 => []
  | k + 1 => t :: span (t + 1) k

@[simp] theorem length_span (t : Fin n) (k : ℕ) : (span t k).length = k := by
  induction k generalizing t with
  | zero => rfl
  | succ k ih => simp [span, ih]

theorem span_add (t : Fin n) (j k : ℕ) :
    span t (j + k) = span t j ++ span ((· + 1)^[j] t) k := by
  induction j generalizing t with
  | zero => simp [span]
  | succ j ih =>
    rw [Nat.succ_add, span, span, ih, Function.iterate_succ_apply, List.cons_append]

/-- The slots from `t` up to, but not including, `h`, in order. -/
def window (t h : Fin n) : List (Fin n) := span t (ringDist t h)

@[simp] theorem length_window (t h : Fin n) : (window t h).length = ringDist t h := length_span t _

@[simp] theorem window_self (t : Fin n) : window t t = [] := by simp [window, span]

theorem window_eq_cons {t h : Fin n} (hne : t ≠ h) : window t h = t :: window (t + 1) h := by
  rw [window, ringDist_succ_tail hne, span, window]

theorem window_succ_head {t h : Fin n} (hne : h + 1 ≠ t) :
    window t (h + 1) = window t h ++ [h] := by
  rw [window, ringDist_succ_head hne, span_add, iterate_succ_dist, window]
  rfl

omit [NeZero n] in
theorem ringDist_add_dist {t u h : Fin n} (hle : ringDist t u ≤ ringDist t h) :
    ringDist t u + ringDist u h = ringDist t h := by
  have ht := t.isLt
  have hu := u.isLt
  have hh := h.isLt
  rw [ringDist_eq_ite t u, ringDist_eq_ite t h] at *
  rw [ringDist_eq_ite u h]
  split_ifs at hle ⊢ <;> omega

/-- A slot `u` of the window, or its head, splits the window in two. -/
theorem window_split {t u h : Fin n} (hle : ringDist t u ≤ ringDist t h) :
    window t h = window t u ++ window u h := by
  rw [window, ← ringDist_add_dist hle, span_add, iterate_succ_dist, window, window]

theorem mem_window {t h i : Fin n} : i ∈ window t h ↔ Between t h i := by
  generalize hk : ringDist t h = k
  induction k generalizing t with
  | zero =>
    obtain rfl := ringDist_eq_zero_iff.mp hk
    simp [Between]
  | succ k ih =>
    have hne : t ≠ h := fun e => by simp [e] at hk
    have hth := ringDist_succ_tail hne
    rw [window_eq_cons hne, List.mem_cons, ih (by omega), Between, Between]
    by_cases hi : i = t
    · subst hi
      simp [hk]
    · have hti := ringDist_succ_tail (Ne.symm hi)
      simp only [hi, false_or]
      omega

/-! ### Testing one slot -/

theorem not_between_self (t i : Fin n) : ¬ Between t t i := by simp [Between]

omit [NeZero n] in
theorem not_between_head (t h : Fin n) : ¬ Between t h h := lt_irrefl _

theorem between_tail {t h : Fin n} (hne : t ≠ h) : Between t h t := by
  rw [Between, ringDist_self]
  exact Nat.pos_of_ne_zero fun h0 => hne (ringDist_eq_zero_iff.mp h0)

theorem between_succ_head {t h i : Fin n} (hne : h + 1 ≠ t) :
    Between t (h + 1) i ↔ Between t h i ∨ i = h := by
  rw [← mem_window, window_succ_head hne, List.mem_append, List.mem_singleton, mem_window]

theorem ne_of_between {t h i : Fin n} (hi : Between t h i) : t ≠ h := by
  rintro rfl
  exact not_between_self t i hi

theorem between_succ_tail {t h i : Fin n} (hne : t ≠ h) :
    Between (t + 1) h i ↔ Between t h i ∧ i ≠ t := by
  have hth := ringDist_succ_tail hne
  by_cases hi : i = t
  · subst hi
    have hlast : ringDist (i + 1) i = n - 1 := ringDist_of_succ_eq rfl
    have hlt := ringDist_lt (i + 1) h
    simp only [Between, ne_eq, not_true_eq_false, and_false, iff_false]
    omega
  · have hti := ringDist_succ_tail (Ne.symm hi)
    simp only [Between, ne_eq, hi, not_false_eq_true, and_true]
    omega

/-- Dropping the slots before `u` from a window that `u` splits leaves the second part. -/
theorem filter_not_between {t u h : Fin n} (hle : ringDist t u ≤ ringDist t h) :
    (window t h).filter (fun i => ¬ Between t u i) = window u h := by
  rw [window_split hle, List.filter_append, List.filter_eq_nil_iff.mpr, List.filter_eq_self.mpr,
    List.nil_append]
  · intro i hi
    have hui : ringDist u i < ringDist u h := mem_window.mp hi
    have hadd := ringDist_add_dist hle
    have hti : ringDist t u ≤ ringDist t i := by
      have ht := t.isLt
      have hu := u.isLt
      have hh := h.isLt
      have hi := i.isLt
      rw [ringDist_eq_ite t u, ringDist_eq_ite t h, ringDist_eq_ite u h] at hadd
      rw [ringDist_eq_ite u i, ringDist_eq_ite u h] at hui
      rw [ringDist_eq_ite t u, ringDist_eq_ite t i]
      split_ifs at * <;> omega
    exact decide_eq_true (Nat.not_lt.mpr hti)
  · intro i hi
    simpa using mem_window.mp hi

end CyclicWindow
