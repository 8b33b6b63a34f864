import Mathlib.Data.List.Count
import Mathlib.Logic.Function.Basic
import Mathlib.Logic.ExistsUnique
import Mathlib.Data.Set.Insert

/-!
# Custody of resources handed to a component

Resources named by `κ` are handed to a component that keeps them in places named by `ι` and
releases them one by one. `Custody` records which place holds what and what has been released;
a resource is `Accounted` for when it has been released once and is held nowhere, or has not been
released and is held in exactly one place.

Releasing what a place holds keeps every resource accounted for, and so does storing a new
resource in a free place. Storing over a resource that a place still holds loses that resource,
and a resource that is never stored is lost as well. `Custody.Tracks` is the invariant for whole
histories: the resources that occur are those handed over, and all of them are accounted for.

## Main definitions

* `Custody`, `Custody.Accounted`, `Custody.Tracks`, `Custody.store`, `Custody.release`.

## Main results

* `Custody.Tracks.release`, `Custody.Tracks.store`: the invariant is kept.
* `Custody.not_accounted_store_over`, `Custody.not_accounted_of_absent`: how a resource is lost.
-/

/-- Which place holds which resource, and the resources released so far. -/
structure Custody (ι κ : Type*) where
  held : ι → Option κ
  released : List κ

namespace Custody

variable {ι κ : Type*} [DecidableEq ι] [DecidableEq κ]

/-- A resource has been released exactly once and is held nowhere, or is held in exactly one place
and has not been released. -/
def Accounted (c : Custody ι κ) (k : κ) : Prop :=
  (c.released.count k = 1 ∧ ∀ i, c.held i ≠ some k) ∨
    (c.released.count k = 0 ∧ ∃! i, c.held i = some k)

/-- Put a resource in a place. -/
def store (c : Custody ι κ) (i : ι) (k : κ) : Custody ι κ :=
  { c with held := Function.update c.held i (some k) }

/-- Release what a place holds, if anything. -/
def release (c : Custody ι κ) (i : ι) : Custody ι κ :=
  match c.held i with
  | none => c
  | some k => { held := Function.update c.held i none, released := k :: c.released }

variable {c : Custody ι κ} {i : ι} {k l : κ}

omit [DecidableEq κ] in
theorem release_of_held (hi : c.held i = some k) :
    c.release i = { held := Function.update c.held i none, released := k :: c.released } := by
  simp [release, hi]

omit [DecidableEq κ] in
theorem release_of_free (hi : c.held i = none) : c.release i = c := by simp [release, hi]

omit [DecidableEq ι] in
/-- Two places of one resource are the same place. -/
theorem Accounted.held_inj {j : ι} (h : c.Accounted k) (hi : c.held i = some k)
    (hj : c.held j = some k) : i = j := by
  rcases h with ⟨-, hnone⟩ | ⟨-, huniq⟩
  · exact absurd hi (hnone i)
  · exact huniq.unique hi hj

/-- A release keeps every resource accounted for. -/
theorem Accounted.release (h : c.Accounted k) (i : ι) : (c.release i).Accounted k := by
  cases hi : c.held i with
  | none => rwa [release_of_free hi]
  | some l =>
    rw [release_of_held hi]
    by_cases hkl : k = l
    · subst hkl
      rcases h with ⟨-, hnone⟩ | ⟨hzero, huniq⟩
      · exact absurd hi (hnone i)
      · refine Or.inl ⟨by simp [hzero], fun j hj => ?_⟩
        by_cases hji : j = i
        · simp [hji] at hj
        · exact hji (huniq.unique (by simpa [hji] using hj) hi)
    · have hheld (j : ι) : Function.update c.held i none j = some k ↔ c.held j = some k := by
        by_cases hji : j = i
        · subst hji
          simp [hi, Ne.symm hkl]
        · simp [hji]
      simpa only [Accounted, hheld, ne_eq, List.count_cons_of_ne (Ne.symm hkl)] using h

/-- Storing in a free place keeps every other resource accounted for. -/
theorem Accounted.store (h : c.Accounted k) (hi : c.held i = none) (hkl : k ≠ l) :
    (c.store i l).Accounted k := by
  have hheld (j : ι) : Function.update c.held i (some l) j = some k ↔ c.held j = some k := by
    by_cases hji : j = i
    · subst hji
      simp [hi, Ne.symm hkl]
    · simp [hji]
  simpa only [Accounted, Custody.store, hheld, ne_eq] using h

/-- A new resource is accounted for once it is stored. -/
theorem accounted_store_self (hheld : ∀ j, c.held j ≠ some k) (hrel : k ∉ c.released) (i : ι) :
    (c.store i k).Accounted k := by
  refine Or.inr ⟨List.count_eq_zero_of_not_mem hrel, i, by simp [Custody.store], fun j hj => ?_⟩
  by_contra hji
  exact hheld j (by simpa [Custody.store, hji] using hj)

/-- Storing over a resource that the place still holds loses that resource. -/
theorem not_accounted_store_over (h : c.Accounted k) (hi : c.held i = some k) (hkl : k ≠ l) :
    ¬ (c.store i l).Accounted k := by
  have hzero : c.released.count k = 0 := by
    rcases h with ⟨-, hnone⟩ | ⟨hzero, -⟩
    · exact absurd hi (hnone i)
    · exact hzero
  rintro (⟨hone, -⟩ | ⟨-, j, hj, -⟩)
  · exact absurd (hzero.symm.trans hone) (by decide)
  · by_cases hji : j = i
    · simp [Custody.store, hji, Ne.symm hkl] at hj
    · exact hji (h.held_inj (by simpa [Custody.store, hji] using hj) hi)

/-- The resources that occur are those of `S`, and all of them are accounted for. -/
structure Tracks (c : Custody ι κ) (S : Set κ) : Prop where
  accounted : ∀ k ∈ S, c.Accounted k
  held_mem : ∀ i k, c.held i = some k → k ∈ S
  released_mem : ∀ k ∈ c.released, k ∈ S

theorem Tracks.release {S : Set κ} (h : c.Tracks S) (i : ι) : (c.release i).Tracks S := by
  refine ⟨fun k hk => (h.accounted k hk).release i, fun j k hj => ?_, fun k hk => ?_⟩
  · cases hi : c.held i with
    | none => exact h.held_mem j k (by rwa [release_of_free hi] at hj)
    | some l =>
      rw [release_of_held hi] at hj
      by_cases hji : j = i
      · simp [hji] at hj
      · exact h.held_mem j k (by simpa [hji] using hj)
  · cases hi : c.held i with
    | none => exact h.released_mem k (by rwa [release_of_free hi] at hk)
    | some l =>
      rw [release_of_held hi] at hk
      rcases List.mem_cons.mp hk with rfl | hk
      · exact h.held_mem i k hi
      · exact h.released_mem k hk

/-- A resource that has not been handed over before is stored in a free place. -/
theorem Tracks.store {S : Set κ} (h : c.Tracks S) (hi : c.held i = none) (hl : l ∉ S) :
    (c.store i l).Tracks (insert l S) := by
  refine ⟨fun k hk => ?_, fun j k hj => ?_, fun k hk => Or.inr (h.released_mem k hk)⟩
  · rcases hk with rfl | hk
    · exact accounted_store_self (fun j hj => hl (h.held_mem j k hj))
        (fun hrel => hl (h.released_mem k hrel)) i
    · exact (h.accounted k hk).store hi fun e => hl (e ▸ hk)
  · by_cases hji : j = i
    · exact Or.inl (by simpa [Custody.store, hji, eq_comm] using hj)
    · exact Or.inr (h.held_mem j k (by simpa [Custody.store, hji] using hj))

omit [DecidableEq ι] in
/-- A resource that is held nowhere and was never released is lost. -/
theorem not_accounted_of_absent (hheld : ∀ j, c.held j ≠ some k) (hrel : k ∉ c.released) :
    ¬ c.Accounted k := by
  rintro (⟨hone, -⟩ | ⟨-, j, hj, -⟩)
  · rw [List.count_eq_zero_of_not_mem hrel] at hone
    exact absurd hone (by decide)
  · exact hheld j hj

end Custody
