import Mathlib.Data.List.Range

/-!
# Loops with a counter

A loop tests its counter before each round, and the round may use the counter. When it ends, the
test has held before each round and has failed for the first time, so what two such loops do is the
same when their rounds are, and their tests fail first at the same place.

## Main definitions

* `CountedLoop.loop`: the loop, with fuel.
* `CountedLoop.EndsAfter`: the number of rounds after which the test fails.
* `CountedLoop.rounds`: the state after a number of rounds.

## Main results

* `CountedLoop.loop_eq_some_iff`.
-/

namespace CountedLoop

variable {σ : Type*}

/-- The rounds from `i` on while the test holds, or `none` when the fuel has run out. -/
def loop (test : ℕ → Prop) [DecidablePred test] (body : ℕ → σ → σ) : ℕ → ℕ → σ → Option σ
  | 0, _, _ => none
  | fuel + 1, i, s => if test i then loop test body fuel (i + 1) (body i s) else some s

/-- From `i` on the test holds `m` times, and then fails. -/
structure EndsAfter (test : ℕ → Prop) (i m : ℕ) : Prop where
  goes : ∀ j < m, test (i + j)
  stops : ¬ test (i + m)

/-- The state after `m` rounds from `i` on. -/
def rounds (body : ℕ → σ → σ) (i m : ℕ) (s : σ) : σ :=
  (List.range' i m).foldl (fun s j => body j s) s

variable {test : ℕ → Prop} {body : ℕ → σ → σ} {fuel i m : ℕ} {s s' : σ}

theorem rounds_succ_left : rounds body i (m + 1) s = rounds body (i + 1) m (body i s) := by
  rw [rounds, List.range'_succ, List.foldl_cons, rounds]

theorem rounds_succ : rounds body i (m + 1) s = body (i + m) (rounds body i m s) := by
  rw [rounds, List.range'_1_concat, List.foldl_append, rounds]
  rfl

theorem endsAfter_succ_iff :
    EndsAfter test i (m + 1) ↔ test i ∧ EndsAfter test (i + 1) m := by
  constructor
  · intro h
    refine ⟨h.goes 0 (Nat.zero_lt_succ m), fun j hj => ?_, ?_⟩
    · rw [Nat.add_right_comm, Nat.add_assoc]
      exact h.goes (j + 1) (Nat.succ_lt_succ hj)
    · rw [Nat.add_right_comm, Nat.add_assoc]
      exact h.stops
  · rintro ⟨hi, h⟩
    refine ⟨fun j hj => ?_, ?_⟩
    · cases j with
      | zero => exact hi
      | succ j =>
        have hgoes := h.goes j (Nat.lt_of_succ_lt_succ hj)
        rwa [Nat.add_right_comm, Nat.add_assoc] at hgoes
    · have hstops := h.stops
      rwa [Nat.add_right_comm, Nat.add_assoc] at hstops

/-- The loop ends with the rounds up to the first place where the test fails. -/
theorem loop_eq_some_iff [DecidablePred test] :
    loop test body fuel i s = some s' ↔
      ∃ m < fuel, EndsAfter test i m ∧ s' = rounds body i m s := by
  induction fuel generalizing i s with
  | zero => simp [loop]
  | succ fuel ih =>
    rw [loop]
    by_cases hi : test i
    · rw [if_pos hi, ih]
      constructor
      · rintro ⟨m, hm, hends, rfl⟩
        exact ⟨m + 1, Nat.succ_lt_succ hm, endsAfter_succ_iff.mpr ⟨hi, hends⟩,
          rounds_succ_left.symm⟩
      · rintro ⟨m, hm, hends, rfl⟩
        cases m with
        | zero => exact absurd hi hends.stops
        | succ m =>
          exact ⟨m, Nat.lt_of_succ_lt_succ hm, (endsAfter_succ_iff.mp hends).2, rounds_succ_left⟩
    · rw [if_neg hi, Option.some.injEq]
      constructor
      · rintro rfl
        exact ⟨0, Nat.zero_lt_succ fuel, ⟨fun j hj => absurd hj (Nat.not_lt_zero j), hi⟩, rfl⟩
      · rintro ⟨m, -, hends, rfl⟩
        cases m with
        | zero => rfl
        | succ m => exact absurd (hends.goes 0 (Nat.zero_lt_succ m)) hi

end CountedLoop
