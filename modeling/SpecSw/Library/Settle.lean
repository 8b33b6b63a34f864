import SpecSw.Library.Run

/-!
# Components that come to rest

Some of the events of a component are moves it can make on its own: `Move s e` says that `e` is one
in the state `s`. When every move lowers a measure, no schedule of moves is longer than the measure
of the state it starts from (`length_add_measure_le`), so a component that keeps moving while
something is left to do comes to a state in which nothing is (`exists_run_of_live`), and so does
every schedule that goes on as long as there is a move (`goal_of_maximal`).

The measure need only be lowered in the states of an invariant that the moves keep.

## Main definitions

* `EventRun.Lowers`: every move lowers the measure.
* `EventRun.Live`: there is a move unless the goal is reached.

## Main results

* `EventRun.length_add_measure_le`, `EventRun.exists_run_of_live`, `EventRun.goal_of_maximal`.
-/

namespace EventRun

variable {σ ε : Type*} (step : σ → ε → σ) (I : σ → Prop) (Move : σ → ε → Prop)

/-- Every move keeps the invariant and lowers the measure. -/
def Lowers (μ : σ → ℕ) : Prop := ∀ s e, I s → Move s e → I (step s e) ∧ μ (step s e) < μ s

/-- In a state of the invariant there is a move, or the goal is reached. -/
def Live (Goal : σ → Prop) : Prop := ∀ s, I s → Goal s ∨ ∃ e, Move s e

variable {step I Move} {μ : σ → ℕ} {Goal : σ → Prop} {s : σ}

/-- The moves keep the invariant. -/
theorem Lowers.run (h : Lowers step I Move μ) (hs : I s) {es : List ε}
    (hes : Along step Move s es) : I (run step s es) := by
  induction es generalizing s with
  | nil => exact hs
  | cons e es ih => exact ih (h s e hs hes.1).1 hes.2

/-- A schedule of moves is no longer than what it takes off the measure. -/
theorem length_add_measure_le (h : Lowers step I Move μ) (hs : I s) {es : List ε}
    (hes : Along step Move s es) : es.length + μ (run step s es) ≤ μ s := by
  induction es generalizing s with
  | nil => simp
  | cons e es ih =>
    obtain ⟨hnext, hlower⟩ := h s e hs hes.1
    have hrest := ih hnext hes.2
    rw [run_cons, List.length_cons]
    omega

/-- Some schedule of moves reaches the goal. -/
theorem exists_run_of_live (h : Lowers step I Move μ) (hlive : Live I Move Goal) (hs : I s) :
    ∃ es, Along step Move s es ∧ Goal (run step s es) := by
  induction hn : μ s using Nat.strongRecOn generalizing s with
  | ind n ih =>
    obtain hgoal | ⟨e, he⟩ := hlive s hs
    · exact ⟨[], trivial, hgoal⟩
    · obtain ⟨hnext, hlower⟩ := h s e hs he
      obtain ⟨es, hes, hgoal⟩ := ih (μ (step s e)) (hn ▸ hlower) hnext rfl
      exact ⟨e :: es, ⟨he, hes⟩, hgoal⟩

/-- A schedule of moves that cannot go on has reached the goal. -/
theorem goal_of_maximal (h : Lowers step I Move μ) (hlive : Live I Move Goal) (hs : I s)
    {es : List ε} (hes : Along step Move s es) (hmax : ∀ e, ¬ Move (run step s es) e) :
    Goal (run step s es) :=
  (hlive _ (h.run hs hes)).resolve_right fun ⟨e, he⟩ => hmax e he

end EventRun
