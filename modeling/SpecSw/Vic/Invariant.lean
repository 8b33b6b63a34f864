import SpecSw.Vic.Controller

/-!
# The vector table, the hardware and dispatch agree

In every run of requests and frees, a line of the controller is in one of two states. An idle line
has no handler and is disabled, and the RAM holds its id from the table. A line that serves a
registration has its handler, is enabled, and the RAM holds its index; then it is the first line of
its id, and the registration is the one that was last requested for that id. Requests move the
first line of an id to the second state and frees move all lines of an id to the first, so that
all words of the table are back in the RAM when the controller is removed, and the next
initialization reads the same ids.

## Main definitions

* `Vic.VicEvent`, `Vic.step`: the calls of the two functions, in any order.
* `Vic.lastRequest`: the registration last requested for an id.
* `Vic.LineState`, `Vic.Invariant`.

## Main results

* `Vic.Invariant.step`, `Vic.invariant_of_run`.
* `Vic.Invariant.installs`: when a request succeeds, and what it installs then.
* `Vic.table_hardware_dispatch_agree`.
-/

namespace SpecSw.Vic

open EventRun

variable {H F : Type*}

/-! ### Calls -/

/-- A call of `spec_vic_irq_request` or `spec_vic_irq_free`. -/
inductive VicEvent (H F : Type*)
  | request (o : InitCalls) (fmc : F) (id : BitVec 64) (handler : H)
  | free (id : BitVec 64)

/-- The state after a call; `none` when it dereferences `NULL`. -/
def step (spec : SpecDev H F) : VicEvent H F → Option (SpecDev H F)
  | .request o fmc id handler => some (specVicIrqRequest o fmc id handler spec).2
  | .free id => specVicIrqFree id spec

/-- The registration that a call requests for an id: the handler and the device. -/
def VicEvent.requested (id : BitVec 64) : VicEvent H F → Option (H × F)
  | .request _ fmc id' handler => if id' = id then some (handler, fmc) else none
  | .free _ => none

@[simp] theorem requested_request_self (o : InitCalls) (fmc : F) (id : BitVec 64) (handler : H) :
    (VicEvent.request o fmc id handler).requested id = some (handler, fmc) := if_pos rfl

theorem requested_request_of_ne {id id' : BitVec 64} (h : id' ≠ id) (o : InitCalls) (fmc : F)
    (handler : H) : (VicEvent.request o fmc id' handler).requested id = none := if_neg h

/-- The registration last requested for an id. -/
def lastRequest (id : BitVec 64) (es : List (VicEvent H F)) : Option (H × F) :=
  es.reverse.findSome? (VicEvent.requested id)

theorem lastRequest_concat (id : BitVec 64) (es : List (VicEvent H F)) (e : VicEvent H F) :
    lastRequest id (es ++ [e]) = (e.requested id).or (lastRequest id es) := by
  rw [lastRequest, List.reverse_append, List.findSome?_append]
  simp [lastRequest]

theorem lastRequest_concat_of_requested_none {id : BitVec 64} {e : VicEvent H F}
    (he : e.requested id = none) (es : List (VicEvent H F)) :
    lastRequest id (es ++ [e]) = lastRequest id es := by
  rw [lastRequest_concat, he, Option.none_or]

/-! ### The states of a line -/

/-- The id of a line of the table, as `unsigned long`. -/
def tableId (table : LineNr → BitVec 32) (i : LineNr) : BitVec 64 := (table i).signExtend 64

theorem tableId_setWidth (table : LineNr → BitVec 32) (i : LineNr) :
    (tableId table i).setWidth 32 = table i := by
  ext k hk
  have hlong : k < 64 := by omega
  rw [tableId, BitVec.getElem_setWidth, BitVec.getLsbD_signExtend]
  simp [hk, hlong]

theorem tableId_inj {table : LineNr → BitVec 32} {i j : LineNr} :
    tableId table i = tableId table j ↔ table i = table j := by
  constructor
  · intro h
    rw [← tableId_setWidth table i, h, tableId_setWidth]
  · intro h
    rw [tableId, h, tableId]

/-- The line has no handler. -/
structure Line.Idle (word : BitVec 32) (l : Line H F) : Prop where
  savedId : l.vector.savedId = word
  handler : l.vector.handler = none
  ivt : l.ivt = word
  enabled : l.enabled = false

/-- The line has the handler and the device of the registration `r`. -/
structure Line.Serves (word : BitVec 32) (i : LineNr) (r : H × F) (l : Line H F) : Prop where
  savedId : l.vector.savedId = word
  handler : l.vector.handler = some r.1
  requestor : l.vector.requestor = some r.2
  ivt : l.ivt = BitVec.ofNat 32 i
  enabled : l.enabled = true

/-- The two states of a line after the calls `es`, when the RAM came up with `table`. -/
inductive LineState (table : LineNr → BitVec 32) (es : List (VicEvent H F)) (i : LineNr)
    (l : Line H F) : Prop
  | idle (h : l.Idle (table i))
  | serves (r : H × F) (h : l.Serves (table i) i r) (first : ∀ j < i, table j ≠ table i)
      (last : lastRequest (tableId table i) es = some r)

namespace LineState

variable {table : LineNr → BitVec 32} {es : List (VicEvent H F)} {i : LineNr} {l : Line H F}

theorem savedId (h : LineState table es i l) : l.vector.savedId = table i := by
  cases h with
  | idle h => exact h.savedId
  | serves r h => exact h.savedId

theorem hasId (h : LineState table es i l) (id : BitVec 64) :
    l.vector.hasId id = true ↔ tableId table i = id := by
  rw [Vector.hasId, h.savedId, beq_iff_eq, tableId]

/-- A call that requests nothing for the id of a line leaves its state alone. -/
theorem concat (h : LineState table es i l) {e : VicEvent H F}
    (he : e.requested (tableId table i) = none) : LineState table (es ++ [e]) i l := by
  cases h with
  | idle h => exact .idle h
  | serves r h first last =>
    exact .serves r h first ((lastRequest_concat_of_requested_none he es).trans last)

/-- A line that is not the first of its id is idle. -/
theorem idle_of_not_first (h : LineState table es i l) {j : LineNr} (hj : j < i)
    (hid : table j = table i) : l.Idle (table i) := by
  cases h with
  | idle h => exact h
  | serves r h first => exact absurd hid (first j hj)

/-- Freeing an id puts its lines in the idle state. -/
theorem free (h : LineState table es i l) (id : BitVec 64) :
    LineState table (es ++ [.free id]) i (l.free id) := by
  rw [Line.free]
  split_ifs with hid
  · have hword : id.setWidth 32 = table i := by
      rw [← (h.hasId id).mp hid, tableId_setWidth]
    exact .idle ⟨h.savedId, rfl, hword, rfl⟩
  · exact h.concat rfl

end LineState

/-! ### The invariant -/

/-- With a controller every line is in one of the two states, and without one the RAM holds the
words it came up with. -/
structure Invariant (table : LineNr → BitVec 32) (es : List (VicEvent H F)) (t : SpecDev H F) :
    Prop where
  lines : ∀ vic, t.vic = some vic → ∀ i, LineState table es i (line i (vic, t.regs))
  restored : t.vic = none → t.regs.ivtRam = table

section Calls

variable {table : LineNr → BitVec 32} {es : List (VicEvent H F)}

/-- The invariant of a state with a controller. -/
theorem invariant_of_lines {p : VicIrqController H F × VicRegs}
    (h : ∀ i, LineState table es i (line i p)) : Invariant table es ⟨some p.1, p.2⟩ where
  lines := by
    rintro vic ⟨⟩
    exact h
  restored hnone := by cases hnone

/-- The loop of a request finds the first line of the id in the table. -/
theorem findVector_cases {vic : VicIrqController H F} {regs : VicRegs}
    (h : ∀ i, LineState table es i (line i (vic, regs))) (id : BitVec 64) :
    (findVector vic id = none ∧ ∀ i, tableId table i ≠ id) ∨
      ∃ i, findVector vic id = some i ∧ tableId table i = id ∧ ∀ j < i, tableId table j ≠ id := by
  have hother : ∀ i, (vic.vectors i).hasId id = false → tableId table i ≠ id := fun i hi hid =>
    Bool.false_ne_true (hi.symm.trans (((h i).hasId id).mpr hid))
  cases hfind : findVector vic id with
  | none => exact .inl ⟨rfl, fun i => hother i (findVector_eq_none_iff.mp hfind i)⟩
  | some i =>
    obtain ⟨hi, hfirst⟩ := findVector_eq_some_iff.mp hfind
    exact .inr ⟨i, rfl, ((h i).hasId id).mp hi, fun j hj => hother j (hfirst j hj)⟩

/-- A request on an existing controller: the first line of the id serves the registration. -/
theorem Invariant.requestVector {vic : VicIrqController H F} {regs : VicRegs}
    (h : ∀ i, LineState table es i (line i (vic, regs))) (o : InitCalls) (fmc : F)
    (id : BitVec 64) (handler : H) : Invariant table (es ++ [.request o fmc id handler])
      (requestVector fmc id handler vic regs).2 := by
  have hother : ∀ i, tableId table i ≠ id →
      LineState table (es ++ [.request o fmc id handler]) i (line i (vic, regs)) := fun i hi =>
    (h i).concat (requested_request_of_ne hi.symm o fmc handler)
  obtain ⟨hfind, hno⟩ | ⟨i, hfind, hid, hfirst⟩ := findVector_cases h id
  · rw [requestVector_of_none hfind]
    exact invariant_of_lines (p := (vic, regs)) fun i => hother i (hno i)
  · rw [requestVector_of_some hfind]
    refine invariant_of_lines (p := claimVector fmc handler i vic regs) fun j => ?_
    rcases lt_trichotomy j i with hji | rfl | hij
    · rw [line_claimVector_of_ne hji.ne]
      exact hother j (hfirst j hji)
    · have hlt : ∀ i < j, table i ≠ table j := fun i hi heq =>
        hfirst i hi ((tableId_inj.mpr heq).trans hid)
      rw [line_claimVector_self]
      refine .serves (handler, fmc) ⟨(h j).savedId, rfl, rfl, rfl, rfl⟩ hlt ?_
      rw [lastRequest_concat, hid, requested_request_self, Option.some_or]
    · rw [line_claimVector_of_ne hij.ne']
      by_cases hj : tableId table j = id
      · exact .idle ((h j).idle_of_not_first hij (tableId_inj.mp (hid.trans hj.symm)))
      · exact hother j hj

/-- **Requests.** A request keeps the invariant, whether or not it has to create the controller
and whether or not it succeeds. -/
theorem Invariant.request {t : SpecDev H F} (h : Invariant table es t) (o : InitCalls) (fmc : F)
    (id : BitVec 64) (handler : H) : Invariant table (es ++ [.request o fmc id handler])
      (specVicIrqRequest o fmc id handler t).2 := by
  cases hvic : t.vic with
  | some vic =>
    rw [specVicIrqRequest_of_vic hvic]
    exact .requestVector (h.lines vic hvic) o fmc id handler
  | none =>
    have hram := h.restored hvic
    rcases specVicInit_cases (H := H) (F := F) o t.regs with ⟨-, p, hp, hlines⟩ | ⟨-, rv, -, hp⟩
    · rw [specVicIrqRequest_of_init hvic hp]
      refine .requestVector (fun i => .idle ?_) o fmc id handler
      rw [hlines, hram]
      exact ⟨rfl, rfl, rfl, rfl⟩
    · rw [specVicIrqRequest_of_error hvic hp]
      exact ⟨fun vic hsome => absurd (hvic.symm.trans hsome) (by simp), fun _ => hram⟩

/-- **Frees.** A free keeps the invariant, and when it removes the controller the words of the
table are back in the RAM. -/
theorem Invariant.free {t t' : SpecDev H F} (h : Invariant table es t) {id : BitVec 64}
    (ht : specVicIrqFree id t = some t') : Invariant table (es ++ [.free id]) t' := by
  obtain ⟨vic, hvic, hcase⟩ := specVicIrqFree_cases ht
  have hlines : ∀ i, LineState table (es ++ [.free id]) i (line i (freeVectors id vic t.regs)) := by
    intro i
    rw [line_freeVectors]
    exact (h.lines vic hvic i).free id
  rcases hcase with ⟨-, rfl⟩ | ⟨hnone, rfl⟩
  · exact invariant_of_lines hlines
  · refine ⟨by rintro vic ⟨⟩, fun _ => funext fun i => ?_⟩
    rw [ivtRam_specVicExit, ← line_ivt]
    cases hlines i with
    | idle h => exact h.ivt
    | serves r h =>
      have hsome := h.handler
      rw [line_vector, hnone i] at hsome
      cases hsome

theorem Invariant.step {t t' : SpecDev H F} {e : VicEvent H F} (h : Invariant table es t)
    (ht : step t e = some t') : Invariant table (es ++ [e]) t' := by
  cases e with
  | request o fmc id handler =>
    obtain rfl := Option.some.inj ht
    exact h.request o fmc id handler
  | free id => exact h.free ht

end Calls

/-- The invariant holds after every run from a state without a controller. -/
theorem invariant_of_run {regs : VicRegs} {es : List (VicEvent H F)} {t : SpecDev H F}
    (ht : runPartial step ⟨none, regs⟩ es = some t) : Invariant regs.ivtRam es t :=
  runPartial_invariant ⟨by rintro vic ⟨⟩, fun _ => rfl⟩ (fun _ _ _ _ h hstep => h.step hstep) ht

/-! ### Table, hardware and dispatch -/

/-- The value of `VAR` when the controller reports line `i`. -/
def VicRegs.var (r : VicRegs) (i : LineNr) : BitVec 32 := r.ivtRam i

/-- The first line of an id serves the registration `r`. -/
def Installed (table : LineNr → BitVec 32) (id : BitVec 64) (r : H × F) (t : SpecDev H F) : Prop :=
  ∃ vic i, t.vic = some vic ∧ tableId table i = id ∧ (∀ j < i, tableId table j ≠ id) ∧
    (line i (vic, t.regs)).Serves (table i) i r

/-- The vector table, the registers and dispatch agree in `t`, after the calls `es` on a RAM that
came up with `table`. -/
structure Agree (table : LineNr → BitVec 32) (es : List (VicEvent H F)) (t : SpecDev H F) :
    Prop where
  /-- A line with a handler has its index in the RAM and is enabled. -/
  claimed : ∀ vic, t.vic = some vic → ∀ i, (vic.vectors i).handler ≠ none →
    t.regs.ivtRam i = BitVec.ofNat 32 i ∧ t.regs.enabled i = true
  /-- A line without a handler has its id in the RAM and is disabled. -/
  free : ∀ vic, t.vic = some vic → ∀ i, (vic.vectors i).handler = none →
    t.regs.ivtRam i = table i ∧ t.regs.enabled i = false
  /-- When an enabled line is reported, the handler last requested for its id is called, with the
  id and the device of that request. -/
  dispatch : t.vic ≠ none → ∀ i, t.regs.enabled i = true →
    ∃ handler fmc, lastRequest (tableId table i) es = some (handler, fmc) ∧
      specVicIrqDispatch (t.regs.var i) t = some ⟨handler, table i, some fmc⟩
  /-- A further request succeeds when a line has its id and there is a controller or one can be
  made, and otherwise fails. When it succeeds its handler is installed and the line is enabled. -/
  request : ∀ o fmc id handler,
    ((specVicIrqRequest o fmc id handler t).1 = 0 ↔
      (t.vic = none → o.Succeeds) ∧ ∃ i, tableId table i = id) ∧
    ((specVicIrqRequest o fmc id handler t).1 = 0 →
      Installed table id (handler, fmc) (specVicIrqRequest o fmc id handler t).2)
  /-- When a free leaves no handler the controller is gone and the RAM is as it came up, so that
  the next initialization finds the same ids. -/
  restored : ∀ id t', specVicIrqFree id t = some t' → ¬ t'.HasHandler →
    t'.vic = none ∧ t'.regs.ivtRam = table ∧
      ∀ o (p : VicIrqController H F × VicRegs), specVicInit o t'.regs = .ok p →
        ∀ i, (p.1.vectors i).savedId = table i

theorem Invariant.dispatch {table : LineNr → BitVec 32} {es : List (VicEvent H F)}
    {t : SpecDev H F} (h : Invariant table es t) (hvic : t.vic ≠ none) {i : LineNr}
    (henabled : t.regs.enabled i = true) :
    ∃ handler fmc, lastRequest (tableId table i) es = some (handler, fmc) ∧
      specVicIrqDispatch (t.regs.var i) t = some ⟨handler, table i, some fmc⟩ := by
  obtain ⟨vic, hvic⟩ := Option.ne_none_iff_exists'.mp hvic
  cases h.lines vic hvic i with
  | idle hidle => exact absurd (hidle.enabled.symm.trans henabled) Bool.false_ne_true
  | serves r hr _ hlast =>
    refine ⟨r.1, r.2, hlast, ?_⟩
    have hivt : t.regs.var i = BitVec.ofNat 32 i := hr.ivt
    have hhandler : (vic.vectors i).handler = some r.1 := hr.handler
    have hsaved : (vic.vectors i).savedId = table i := hr.savedId
    have hrequestor : (vic.vectors i).requestor = some r.2 := hr.requestor
    rw [hivt, specVicIrqDispatch_ofNat hvic, hhandler, hsaved, hrequestor, Option.map_some]

section Request

variable {table : LineNr → BitVec 32} {es : List (VicEvent H F)}

/-- On an existing controller a request succeeds when a line has its id. -/
theorem requestVector_installs {vic : VicIrqController H F} {regs : VicRegs}
    (h : ∀ i, LineState table es i (line i (vic, regs))) (fmc : F) (id : BitVec 64) (handler : H) :
    ((requestVector fmc id handler vic regs).1 = 0 ↔ ∃ i, tableId table i = id) ∧
      ((requestVector fmc id handler vic regs).1 = 0 →
        Installed table id (handler, fmc) (requestVector fmc id handler vic regs).2) := by
  obtain ⟨hfind, hno⟩ | ⟨i, hfind, hid, hfirst⟩ := findVector_cases h id
  · have hrv : -Errno.einval ≠ 0 := by decide
    rw [requestVector_of_none hfind]
    exact ⟨iff_of_false hrv (not_exists.mpr hno), fun hzero => absurd hzero hrv⟩
  · have hline := line_claimVector_self fmc handler i vic regs
    rw [requestVector_of_some hfind]
    refine ⟨iff_of_true rfl ⟨i, hid⟩, fun _ => ⟨_, i, rfl, hid, hfirst, ?_⟩⟩
    exact hline ▸ ⟨(h i).savedId, rfl, rfl, rfl, rfl⟩

/-- A request succeeds when a line has its id and there is a controller, or one can be made. -/
theorem Invariant.installs {t : SpecDev H F} (h : Invariant table es t) (o : InitCalls) (fmc : F)
    (id : BitVec 64) (handler : H) :
    ((specVicIrqRequest o fmc id handler t).1 = 0 ↔
      (t.vic = none → o.Succeeds) ∧ ∃ i, tableId table i = id) ∧
    ((specVicIrqRequest o fmc id handler t).1 = 0 →
      Installed table id (handler, fmc) (specVicIrqRequest o fmc id handler t).2) := by
  cases hvic : t.vic with
  | some vic =>
    rw [specVicIrqRequest_of_vic hvic]
    obtain ⟨hrv, hinstalled⟩ := requestVector_installs (h.lines vic hvic) fmc id handler
    exact ⟨hrv.trans (and_iff_right (by simp)).symm, hinstalled⟩
  | none =>
    rcases specVicInit_cases (H := H) (F := F) o t.regs with
      ⟨ho, p, hp, hlines⟩ | ⟨ho, rv, hrv, hp⟩
    · have hidle : ∀ i, LineState table es i (line i (p.1, p.2)) := fun i => .idle <| by
        rw [hlines, h.restored hvic]
        exact ⟨rfl, rfl, rfl, rfl⟩
      rw [specVicIrqRequest_of_init hvic hp]
      obtain ⟨hrv, hinstalled⟩ := requestVector_installs hidle fmc id handler
      exact ⟨hrv.trans (and_iff_right fun _ => ho).symm, hinstalled⟩
    · rw [specVicIrqRequest_of_error hvic hp]
      exact ⟨iff_of_false hrv fun hmade => ho (hmade.1 rfl), fun hzero => absurd hzero hrv⟩

end Request

/-- A free that leaves no handler puts the words of the table back. -/
theorem Invariant.free_restored {table : LineNr → BitVec 32} {es : List (VicEvent H F)}
    {t t' : SpecDev H F} (h : Invariant table es t) {id : BitVec 64}
    (ht : specVicIrqFree id t = some t') (hno : ¬ t'.HasHandler) :
    t'.vic = none ∧ t'.regs.ivtRam = table := by
  have hnone : t'.vic = none := by
    obtain ⟨vic, -, ⟨⟨i, hi⟩, rfl⟩ | ⟨-, rfl⟩⟩ := specVicIrqFree_cases ht
    · exact absurd ⟨_, rfl, i, hi⟩ hno
    · rfl
  exact ⟨hnone, (h.free ht).restored hnone⟩

/-- **The vector table, the hardware and dispatch agree.** After every run of requests and frees,
with any ids and outcomes, from a card without a controller and with any words in its RAM. -/
theorem table_hardware_dispatch_agree (regs : VicRegs) (es : List (VicEvent H F))
    {t : SpecDev H F} (ht : runPartial step ⟨none, regs⟩ es = some t) :
    Agree regs.ivtRam es t := by
  have hinv := invariant_of_run ht
  refine ⟨fun vic hvic i hsome => ?_, fun vic hvic i hnone => ?_, fun hvic i => hinv.dispatch hvic,
    hinv.installs, fun id t' hfree hno => ?_⟩
  · cases hinv.lines vic hvic i with
    | idle h => exact absurd h.handler hsome
    | serves r h => exact ⟨h.ivt, h.enabled⟩
  · cases hinv.lines vic hvic i with
    | idle h => exact ⟨h.ivt, h.enabled⟩
    | serves r h => exact absurd (h.handler.symm.trans hnone) (by simp)
  · obtain ⟨hvic, hram⟩ := hinv.free_restored hfree hno
    refine ⟨hvic, hram, fun o p hp i => ?_⟩
    rcases specVicInit_cases (H := H) (F := F) o t'.regs with ⟨-, q, hq, hlines⟩ | ⟨-, rv, -, hq⟩
    · obtain rfl := Except.ok.inj (hp.symm.trans hq)
      rw [← line_vector, hlines, hram]
    · cases hp.symm.trans hq

/-- The id 3 is requested twice, on a card whose RAM comes up with every id on two lines. -/
theorem table_hardware_dispatch_agree_twice :
    let regs : VicRegs := ⟨fun i => BitVec.ofNat 32 (i / 2), 0, 0⟩
    let e : VicEvent ℕ ℕ := .request ⟨0, true⟩ 0 3 1
    let e' : VicEvent ℕ ℕ := .request ⟨0, true⟩ 0 3 2
    ∃ t, runPartial step ⟨none, regs⟩ [e, e'] = some t ∧ Agree regs.ivtRam [e, e'] t :=
  ⟨_, rfl, table_hardware_dispatch_agree _ _ rfl⟩

end SpecSw.Vic
