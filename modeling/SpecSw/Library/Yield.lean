import Mathlib.Data.ENat.Basic
import SpecSw.Library.Run

/-!
# What a component can still put out

The steps of a component put something out, `out s` of it up to the state `s`; `left s`, which may
be infinite, is what it can put out from `s` on. If every allowed step only turns what is left into
what is out, and there is an allowed step towards the next output as long as something is left, then
`left` is exact (`Yields.reach_iff`).

## Main definitions

* `EventRun.Yields`.

## Main results

* `EventRun.Yields.reach_iff`, `EventRun.Yields.bounded_iff`, `EventRun.Yields.forall_reach_iff`.
-/

namespace EventRun

variable {σ ε : Type*}

/-- The allowed steps keep `I` and the sum of `out` and `left`; and as long as something is left,
one of them puts something out or comes nearer to it. -/
structure Yields (step : σ → ε → σ) (ok : ε → Prop) (I : σ → Prop) (out : σ → ℕ) (left : σ → ℕ∞)
    (work : σ → ℕ) : Prop where
  inv : ∀ s e, I s → ok e → I (step s e)
  conserved : ∀ s e, I s → ok e → (out (step s e) : ℕ∞) + left (step s e) = out s + left s
  moves : ∀ s, I s → left s ≠ 0 → ∃ e, ok e ∧
    (out s < out (step s e) ∨ out (step s e) = out s ∧ work (step s e) < work s)

namespace Yields

variable {step : σ → ε → σ} {ok : ε → Prop} {I : σ → Prop} {out : σ → ℕ} {left : σ → ℕ∞}
  {work : σ → ℕ} (h : Yields step ok I out left work)

include h

theorem conserved_run {s : σ} (hs : I s) {es : List ε} (hes : ∀ e ∈ es, ok e) :
    I (run step s es) ∧ (out (run step s es) : ℕ∞) + left (run step s es) =
      out s + left s := by
  induction es generalizing s with
  | nil => exact ⟨hs, rfl⟩
  | cons e es ih =>
    rw [List.forall_mem_cons] at hes
    obtain ⟨hI, hsum⟩ := ih (h.inv s e hs hes.1) hes.2
    exact ⟨hI, hsum.trans (h.conserved s e hs hes.1)⟩

/-- As long as something is left, some allowed run puts something out. -/
theorem exists_run {s : σ} (hs : I s) (hleft : left s ≠ 0) :
    ∃ es, (∀ e ∈ es, ok e) ∧ out s < out (run step s es) := by
  induction hwork : work s using Nat.strong_induction_on generalizing s with
  | h n ih =>
    obtain ⟨e, he, hout | ⟨hout, hless⟩⟩ := h.moves s hs hleft
    · exact ⟨[e], by simpa using he, hout⟩
    · have hsum := h.conserved s e hs he
      rw [hout] at hsum
      have hsame : left (step s e) = left s := ENat.add_right_injective_of_ne_top
        (ENat.natCast_ne_top _) hsum
      obtain ⟨es, hes, hmore⟩ := ih _ (hwork ▸ hless) (h.inv s e hs he) (hsame ▸ hleft) rfl
      exact ⟨e :: es, List.forall_mem_cons.mpr ⟨he, hes⟩, hout ▸ hmore⟩

/-- **What is left is exact.** Some allowed run puts out `n` more exactly if `n` is left. -/
theorem reach_iff {s : σ} (hs : I s) (n : ℕ) :
    (∃ es, (∀ e ∈ es, ok e) ∧ out s + n ≤ out (run step s es)) ↔ (n : ℕ∞) ≤ left s := by
  constructor
  · rintro ⟨es, hes, hn⟩
    have hle : (out s : ℕ∞) + n ≤ out s + left s := by
      rw [← (h.conserved_run hs hes).2]
      calc (out s : ℕ∞) + n ≤ out (run step s es) := by exact_mod_cast hn
        _ ≤ _ := le_self_add
    exact (ENat.add_le_add_iff_left (ENat.natCast_ne_top _)).mp hle
  · intro hn
    induction n with
    | zero => exact ⟨[], by simp, le_rfl⟩
    | succ n ih =>
      obtain ⟨es, hes, hout⟩ := ih (le_trans (by exact_mod_cast n.le_succ) hn)
      by_cases hdone : out s + (n + 1) ≤ out (run step s es)
      · exact ⟨es, hes, hdone⟩
      · obtain ⟨hI, hsum⟩ := h.conserved_run hs hes
        have hleft : left (run step s es) ≠ 0 := by
          intro hzero
          rw [hzero, add_zero] at hsum
          have hle : (out s : ℕ∞) + ((n + 1 : ℕ) : ℕ∞) ≤ out s + left s := by gcongr
          rw [← hsum] at hle
          exact hdone (by exact_mod_cast hle)
        obtain ⟨es', hes', hmore⟩ := h.exists_run hI hleft
        refine ⟨es ++ es', List.forall_mem_append.mpr ⟨hes, hes'⟩, ?_⟩
        rw [run_append]
        omega

/-- What the allowed runs put out is bounded exactly if what is left is finite. -/
theorem bounded_iff {s : σ} (hs : I s) :
    (∃ n, ∀ es, (∀ e ∈ es, ok e) → out (run step s es) ≤ out s + n) ↔ left s ≠ ⊤ := by
  constructor
  · rintro ⟨n, hn⟩ htop
    obtain ⟨es, hes, hmore⟩ := (h.reach_iff hs (n + 1)).mpr (htop ▸ le_top)
    have hle := hn es hes
    omega
  · intro hfinite
    obtain ⟨n, hn⟩ := ENat.ne_top_iff_exists.mp hfinite
    refine ⟨n, fun es hes => ?_⟩
    by_contra hmore
    have hle := (h.reach_iff hs (n + 1)).mp ⟨es, hes, by omega⟩
    rw [← hn] at hle
    exact absurd (by exact_mod_cast hle : n + 1 ≤ n) (Nat.not_succ_le_self n)

/-- The allowed runs put out as much as is asked, and no more, exactly if that is what is left. -/
theorem forall_reach_iff {s : σ} (hs : I s) (asked : ℕ∞) :
    (∀ n : ℕ, (∃ es, (∀ e ∈ es, ok e) ∧ out s + n ≤ out (run step s es)) ↔
      (n : ℕ∞) ≤ asked) ↔ left s = asked := by
  simp only [h.reach_iff hs]
  exact ⟨ENat.eq_of_forall_natCast_le_iff, fun heq n => by rw [heq]⟩

end Yields

end EventRun
