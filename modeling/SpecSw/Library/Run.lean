import Mathlib.Data.List.Induction

/-!
# Runs of an event-driven component

A component is a state type `σ`, a type `ε` of events and a function `step : σ → ε → σ`; an event
carries every input and every outcome its step depends on, so a run is a list of events. The
module gives the rules by which a property of one step becomes a property of whole runs.

* A property of the state reached is proved by an invariant that may mention the events so far
  (`run_invariant`).
* A property `Q s e` of a step is required *along* a run (`Along`): at every state `s` the run
  passes and the event `e` handled there. A property of states is required *throughout* it
  (`Throughout`): in every state that the run reaches, its first and its last included.
* Let the steps that meet a condition `ok` keep an invariant. If a step from a state of the
  invariant has `Q` exactly when it meets `ok`, a run has `Q` along it exactly when all its steps
  meet `ok` (`along_iff_along`). If the invariant implies `P`, and a step that does not meet `ok`
  leads out of `P`, a run has `P` throughout exactly when all its steps meet `ok`
  (`throughout_iff_along`). If a step that does not meet `ok` breaks `P` for ever, `P` in the last
  state will do (`run_iff_along`).
* What the steps of a run give out is collected in order (`collect`), and an invariant may relate it
  to the state reached (`Along.collect_invariant`). A component of a larger one makes a run of its
  own, of the events it is given (`run_collect`, `Along.collect`).
* A component whose step may fail, `step : σ → ε → Option σ`, runs until its first failure
  (`runPartial`), and invariants hold in the states reached before it.
* When the events are indices, each handled once, and the step of an index `j ≠ i` leaves a part of
  the state alone, that part is changed by the step of `i` only (`run_proj_of_mem`).

## Main definitions

* `EventRun.run`, `EventRun.Along`, `EventRun.Throughout`, `EventRun.collect`,
  `EventRun.runPartial`.

## Main results

* `EventRun.run_invariant`, `EventRun.along_iff_along`, `EventRun.throughout_iff_along`,
  `EventRun.run_proj_of_mem`, `EventRun.runPartial_invariant`.
-/

namespace EventRun

variable {σ ε : Type*}

/-! ### Total steps -/

section Total

variable (step : σ → ε → σ)

/-- The state reached from `s` by handling the events `es` in order. -/
def run (s : σ) (es : List ε) : σ := es.foldl step s

@[simp] theorem run_nil (s : σ) : run step s [] = s := rfl

@[simp] theorem run_cons (s : σ) (e : ε) (es : List ε) :
    run step s (e :: es) = run step (step s e) es := rfl

@[simp] theorem run_append (s : σ) (es es' : List ε) :
    run step s (es ++ es') = run step (run step s es) es' :=
  List.foldl_append

variable {step}

/-- A predicate on the events so far and the state they lead to holds of every run when it holds
at the start and every step keeps it. -/
theorem run_invariant {I : List ε → σ → Prop} {s : σ} (hinit : I [] s)
    (hstep : ∀ es t e, I es t → I (es ++ [e]) (step t e)) (es : List ε) : I es (run step s es) := by
  induction es using List.reverseRecOn with
  | nil => exact hinit
  | append_singleton es e ih =>
    rw [run_append]
    exact hstep es _ e ih

variable (step)

/-- `Q` holds at every step of the run of `es` from `s`. -/
def Along (Q : σ → ε → Prop) : σ → List ε → Prop
  | _, [] => True
  | s, e :: es => Q s e ∧ Along Q (step s e) es

@[simp] theorem along_nil (Q : σ → ε → Prop) (s : σ) : Along step Q s [] := trivial

@[simp] theorem along_cons (Q : σ → ε → Prop) (s : σ) (e : ε) (es : List ε) :
    Along step Q s (e :: es) ↔ Q s e ∧ Along step Q (step s e) es := Iff.rfl

/-- A property of the events alone holds along a run when it holds of each of its events. -/
theorem along_const_iff {ok : ε → Prop} {s : σ} {es : List ε} :
    Along step (fun _ e => ok e) s es ↔ ∀ e ∈ es, ok e := by
  induction es generalizing s with
  | nil => simp
  | cons e es ih => rw [along_cons, ih, List.forall_mem_cons]

theorem along_and {Q R : σ → ε → Prop} {s : σ} {es : List ε} :
    Along step (fun s e => Q s e ∧ R s e) s es ↔ Along step Q s es ∧ Along step R s es := by
  induction es generalizing s with
  | nil => simp
  | cons e es ih =>
    rw [along_cons, along_cons, along_cons, ih]
    exact and_and_and_comm

theorem along_append {Q : σ → ε → Prop} {s : σ} {es es' : List ε} :
    Along step Q s (es ++ es') ↔ Along step Q s es ∧ Along step Q (run step s es) es' := by
  induction es generalizing s with
  | nil => simp
  | cons e es ih => rw [List.cons_append, along_cons, along_cons, ih, run_cons, and_assoc]

/-- A condition that does not depend on the run. -/
theorem along_imp {p : Prop} {Q : σ → ε → Prop} {s : σ} {es : List ε} :
    Along step (fun s e => p → Q s e) s es ↔ (p → Along step Q s es) := by
  induction es generalizing s with
  | nil => simp
  | cons e es ih => rw [along_cons, along_cons, ih, imp_and]

/-- `P` holds in every state that the run of `es` from `s` reaches. -/
def Throughout (P : σ → Prop) : σ → List ε → Prop
  | s, [] => P s
  | s, e :: es => P s ∧ Throughout P (step s e) es

variable {step} {I P : σ → Prop} {ok Q : σ → ε → Prop}

theorem Throughout.start {s : σ} {es : List ε} (h : Throughout step P s es) : P s := by
  cases es with
  | nil => exact h
  | cons e es => exact h.1

theorem Throughout.last {s : σ} {es : List ε} (h : Throughout step P s es) :
    P (run step s es) := by
  induction es generalizing s with
  | nil => exact h
  | cons e es ih => exact ih h.2

/-- When the steps meeting `ok` keep the invariant and a step from a state of the invariant has
`Q` exactly when it meets `ok`, a run has `Q` along it exactly when its steps all meet `ok`. -/
theorem along_iff_along {s : σ} (hs : I s) (hstep : ∀ t e, I t → ok t e → I (step t e))
    (hiff : ∀ t e, I t → (Q t e ↔ ok t e)) (es : List ε) :
    Along step Q s es ↔ Along step ok s es := by
  induction es generalizing s with
  | nil => exact Iff.rfl
  | cons e es ih =>
    rw [along_cons, along_cons, hiff s e hs]
    exact and_congr_right fun hok => ih (hstep s e hs hok)

/-- The same for the runs whose steps all meet `C`, when these steps keep the invariant. -/
theorem Along.along_iff_along {C : σ → ε → Prop} {s : σ} {es : List ε} (hC : Along step C s es)
    (hs : I s) (hstep : ∀ t e, I t → C t e → I (step t e))
    (hiff : ∀ t e, I t → C t e → (Q t e ↔ ok t e)) : Along step Q s es ↔ Along step ok s es := by
  induction es generalizing s with
  | nil => exact Iff.rfl
  | cons e es ih =>
    obtain ⟨hCe, hrest⟩ := hC
    rw [along_cons, along_cons, hiff s e hs hCe, ih hrest (hstep s e hs hCe)]

/-- When the steps meeting `ok` keep an invariant that implies `P`, a run whose steps all meet `ok`
has `P` throughout. -/
theorem Along.throughout {s : σ} (hs : I s) (hP : ∀ t, I t → P t)
    (hstep : ∀ t e, I t → ok t e → I (step t e)) {es : List ε} (h : Along step ok s es) :
    Throughout step P s es := by
  induction es generalizing s with
  | nil => exact hP s hs
  | cons e es ih =>
    obtain ⟨hok, hrest⟩ := h
    exact ⟨hP s hs, ih (hstep s e hs hok) hrest⟩

/-- When the steps meeting `ok` keep an invariant that implies `P`, and the other steps from it
lead out of `P`, a run has `P` throughout exactly when its steps all meet `ok`. -/
theorem throughout_iff_along {s : σ} (hs : I s) (hP : ∀ t, I t → P t)
    (hstep : ∀ t e, I t → ok t e → I (step t e)) (hbad : ∀ t e, I t → ¬ ok t e → ¬ P (step t e))
    (es : List ε) : Throughout step P s es ↔ Along step ok s es := by
  refine ⟨fun h => ?_, Along.throughout hs hP hstep⟩
  induction es generalizing s with
  | nil => trivial
  | cons e es ih =>
    obtain ⟨-, hrest⟩ := h
    have hok : ok s e := by
      by_contra hok
      exact hbad s e hs hok hrest.start
    exact ⟨hok, ih (hstep s e hs hok) hrest⟩

/-- When a step from a state of the invariant leads to `P` exactly if `P` holds and the step meets
`ok`, a run leads to `P` exactly if `P` holds at its start and all its steps meet `ok`. -/
theorem run_iff_along {s : σ} (hs : I s) (hstep : ∀ t e, I t → I (step t e))
    (hiff : ∀ t e, I t → (P (step t e) ↔ P t ∧ ok t e)) (es : List ε) :
    P (run step s es) ↔ P s ∧ Along step ok s es := by
  induction es generalizing s with
  | nil => simp
  | cons e es ih => rw [run_cons, ih (hstep s e hs), hiff s e hs, along_cons, and_assoc]

/-! ### What a run gives out -/

variable {τ : Type*}

/-- What the steps of the run of `es` from `s` give out, when the step of `e` in the state `t` gives
out `f t e`. -/
def collect (step : σ → ε → σ) (f : σ → ε → List τ) : σ → List ε → List τ
  | _, [] => []
  | s, e :: es => f s e ++ collect step f (step s e) es

/-- A predicate on what has been given out and the state reached holds of every run whose steps all
meet `ok` when it holds at the start and these steps keep it. -/
theorem Along.collect_invariant {f : σ → ε → List τ} {I : List τ → σ → Prop} {s : σ}
    (hinit : I [] s) (hstep : ∀ out t e, I out t → ok t e → I (out ++ f t e) (step t e))
    {es : List ε} (h : Along step ok s es) : I (collect step f s es) (run step s es) := by
  suffices hfrom : ∀ out t, I out t → Along step ok t es →
      I (out ++ collect step f t es) (run step t es) from hfrom [] s hinit h
  clear h
  induction es with
  | nil =>
    intro out t ht _
    rwa [collect, List.append_nil]
  | cons e es ih =>
    intro out t ht hes
    rw [collect, ← List.append_assoc]
    exact ih (out ++ f t e) (step t e) (hstep out t e ht hes.1) hes.2

/-! ### Components -/

section Component

variable {σ' ε' : Type*} {step' : σ' → ε' → σ'} {f : σ → σ'} {g : σ → ε → List ε'}
  (h : ∀ s e, f (step s e) = run step' (f s) (g s e))

include h

/-- A component that makes the steps of `g s e` whenever the whole makes the step of `e` in `s`
makes a run of its own. -/
theorem run_collect (s : σ) (es : List ε) :
    f (run step s es) = run step' (f s) (collect step g s es) := by
  induction es generalizing s with
  | nil => rfl
  | cons e es ih => rw [run_cons, ih, h, collect, run_append]

/-- What holds along the steps of the component holds along its run. -/
theorem Along.collect {Q' : σ' → ε' → Prop} (hQ : ∀ s e, Q s e → Along step' Q' (f s) (g s e))
    {s : σ} {es : List ε} (hes : Along step Q s es) :
    Along step' Q' (f s) (collect step g s es) := by
  induction es generalizing s with
  | nil => trivial
  | cons e es ih =>
    refine (along_append step').mpr ⟨hQ s e hes.1, ?_⟩
    rw [← h]
    exact ih hes.2

end Component

end Total

/-! ### One part of the state -/

section Projection

variable {ι τ : Type*} {step : σ → ι → σ} {f : σ → τ} {I : σ → Prop}

/-- A part of the state that no event changes is as it was. -/
theorem run_proj_eq {l : List ι} (hI : ∀ t, ∀ j ∈ l, I t → I (step t j))
    (hother : ∀ t, ∀ j ∈ l, I t → f (step t j) = f t) {s : σ} (hs : I s) :
    f (run step s l) = f s := by
  induction l generalizing s with
  | nil => rfl
  | cons j l ih =>
    have htail : ∀ k ∈ l, k ∈ j :: l := fun k hk => List.mem_cons_of_mem j hk
    rw [run_cons, ih (fun t k hk => hI t k (htail k hk)) (fun t k hk => hother t k (htail k hk))
      (hI s j List.mem_cons_self hs)]
    exact hother s j List.mem_cons_self hs

/-- A part of the state that only the event `i` changes is changed once. -/
theorem run_proj_of_mem {l : List ι} {i : ι} {g : τ → τ} (hl : l.Nodup) (hi : i ∈ l)
    (hI : ∀ t, ∀ j ∈ l, I t → I (step t j)) (hself : ∀ t, I t → f (step t i) = g (f t))
    (hother : ∀ t, ∀ j ∈ l, I t → j ≠ i → f (step t j) = f t) {s : σ} (hs : I s) :
    f (run step s l) = g (f s) := by
  induction l generalizing s with
  | nil => exact absurd hi List.not_mem_nil
  | cons j l ih =>
    rw [List.nodup_cons] at hl
    have htail : ∀ k ∈ l, k ∈ j :: l := fun k hk => List.mem_cons_of_mem j hk
    have hnext : I (step s j) := hI s j List.mem_cons_self hs
    rw [run_cons]
    rcases List.mem_cons.mp hi with rfl | hmem
    · rw [← hself s hs]
      refine run_proj_eq (fun t k hk => hI t k (htail k hk)) (fun t k hk ht => ?_) hnext
      refine hother t k (htail k hk) ht ?_
      rintro rfl
      exact hl.1 hk
    · have hji : j ≠ i := by
        rintro rfl
        exact hl.1 hmem
      rw [ih hl.2 hmem (fun t k hk => hI t k (htail k hk)) (fun t k hk => hother t k (htail k hk))
        hnext, hother s j List.mem_cons_self hs hji]

end Projection

/-! ### Steps that may fail -/

section Partial

variable (step : σ → ε → Option σ)

/-- The state reached from `s` by the events `es`, `none` when one of the steps fails. -/
def runPartial (s : σ) (es : List ε) : Option σ := es.foldlM step s

@[simp] theorem runPartial_nil (s : σ) : runPartial step s [] = some s := rfl

theorem runPartial_concat (s : σ) (es : List ε) (e : ε) :
    runPartial step s (es ++ [e]) = (runPartial step s es).bind fun t => step t e := by
  simp [runPartial, List.foldlM_append]

variable {step}

/-- A predicate on the events so far and the state they lead to holds whenever a run has not
failed, if it holds at the start and every step that succeeds keeps it. -/
theorem runPartial_invariant {I : List ε → σ → Prop} {s t : σ} {es : List ε} (hinit : I [] s)
    (hstep : ∀ es u e u', I es u → step u e = some u' → I (es ++ [e]) u')
    (ht : runPartial step s es = some t) : I es t := by
  induction es using List.reverseRecOn generalizing t with
  | nil =>
    obtain rfl := Option.some.inj ht
    exact hinit
  | append_singleton es e ih =>
    rw [runPartial_concat, Option.bind_eq_some_iff] at ht
    obtain ⟨u, hu, hut⟩ := ht
    exact hstep es u e t (ih hu) hut

end Partial

end EventRun
