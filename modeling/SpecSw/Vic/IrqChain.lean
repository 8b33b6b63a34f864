import SpecSw.Library.Run
import SpecSw.Vic.Controller

/-!
# From an interrupt line to the handler

A line reaches the host in two stages. The VIC latches its enabled lines, picks one of them, puts
its vector in `VAR`, raises its output and waits for a write to `EOIR`; then it forces the output
low for a while and starts over. The GN4124 latches the rising edge of that output in
`INT_STATUS`, which interrupts the host until the register is read. An edge that the GN4124 has
latched and lost is not repeated while the VIC waits.

A handler is the list of its accesses to the two, and the system takes one access, one move of the
VIC or one change from outside at a time. The PCI interrupt is shared, so the handler may also be
called when another device has raised it, and `wrn_handler` may be called before the driver is
bound to its device.

Nothing is lost exactly when a handler that reads `INT_STATUS` writes `EOIR` later
(`neverLoses_iff`); this is so for `spec_vic_irq_handler`, and for `wrn_handler` except for the
call that finds the driver not yet bound.

## Main definitions

* `Vic.IrqChain`, `Vic.IrqEvent`, `Vic.IrqChain.step`: the two stages and the host.
* `Vic.IrqDriver`, `Vic.wrnIrqDriver`, `Vic.specVicIrqDriver`: what a driver does to them.
* `Vic.AtRest`, `Vic.Unheard`, `Vic.NeverLoses`, `Vic.acksVicLast`.

## Main results

* `Vic.neverLoses_iff`, `Vic.not_unheard_of_along`.
-/

namespace SpecSw.Vic

open EventRun

/-! ### The hardware -/

/-- `VIC_CTL_ENABLE` is set in `CTL`. -/
def VicRegs.on (r : VicRegs) : Bool := r.ctl.getLsbD 0

/-- `priority_decode`: a pending line, if there is one. -/
structure PriorityDecode where
  pick : BitVec 32 → LineNr
  pending : ∀ isr : BitVec 32, isr ≠ 0 → isr.getLsbD (pick isr).val = true

/-- Where the VIC is: about to look at its lines, with a low output; waiting for the end of the
interrupt of a line, with a high output; forcing the output low after it. -/
inductive VicPhase
  | scan
  | wait (i : LineNr)
  | pulse
  deriving DecidableEq

/-- What an interrupt handler does: `readl(&vic->VAR)`, the call for the vector that it has read,
the read of `INT_STATUS` in `spec_shared_irq_ack`, `writel(0, &vic->EOIR)`. -/
inductive IrqAccess
  | readVar
  | dispatch
  | readIntStatus
  | writeEoir
  deriving DecidableEq

/-- The lines `RISR`, the registers and the state of the VIC; whether the GN4124 has latched an
edge; whether the driver is bound; the accesses that the running handler has not made, and the
vector it has read. `calls` are the vectors dispatched so far and `ended` the lines whose
interrupt the VIC has been told to be over. -/
structure IrqChain where
  risr : BitVec 32
  regs : VicRegs
  isr : BitVec 32
  var : BitVec 32
  phase : VicPhase
  intStatus : Bool
  bound : Bool
  todo : List IrqAccess
  vector : BitVec 32
  calls : List (BitVec 32)
  ended : List LineNr

namespace IrqChain

/-- `ISR |= RISR & IMR`. -/
def latched (c : IrqChain) : BitVec 32 := c.isr ||| (c.risr &&& c.regs.imr)

/-- The VIC looks at its lines: with one pending, it sets `VAR` and raises its output. -/
def scanLines (dec : PriorityDecode) (c : IrqChain) : IrqChain :=
  if c.latched = 0 then { c with isr := c.latched }
  else
    { c with
      isr := c.latched
      var := c.regs.ivtRam (dec.pick c.latched)
      phase := .wait (dec.pick c.latched)
      intStatus := true }

/-- The next move of the VIC. It waits for `EOIR`, and does nothing when it is disabled. -/
def advance (dec : PriorityDecode) (c : IrqChain) : IrqChain :=
  if c.regs.on then
    match c.phase with
    | .scan => c.scanLines dec
    | .wait _ => c
    | .pulse => { c with phase := .scan }
  else c

/-- Registers are written. A VIC that is disabled lowers its output. -/
def setRegs (c : IrqChain) (regs : VicRegs) : IrqChain :=
  { c with
    regs := regs
    phase := if regs.on then c.phase else .scan }

/-- A write to `EOIR` ends the interrupt that the VIC is waiting for. -/
def endOfInterrupt (c : IrqChain) : IrqChain :=
  match c.phase with
  | .wait i => { c with isr := c.isr &&& ~~~lineBit i, phase := .pulse, ended := c.ended ++ [i] }
  | _ => c

/-- One access of a handler. -/
def exec (c : IrqChain) : IrqAccess → IrqChain
  | .readVar => { c with vector := c.var }
  | .dispatch => { c with calls := c.calls ++ [c.vector] }
  | .readIntStatus => { c with intStatus := false }
  | .writeEoir => c.endOfInterrupt

/-- After reset, with any words in the vector table. -/
def start (ivtRam : LineNr → BitVec 32) : IrqChain :=
  ⟨0, ⟨ivtRam, 0, 0⟩, 0, 0, .scan, false, false, [], 0, [], []⟩

end IrqChain

/-! ### The drivers -/

/-- What a driver does to the chain: the accesses of its handler, by whether the driver is bound,
and what it writes to the VIC when it is bound and when it is released. -/
structure IrqDriver where
  handler : Bool → List IrqAccess
  up : VicRegs → VicRegs
  down : VicRegs → VicRegs
  on_up : ∀ r, (up r).on = true
  on_down : ∀ r, (down r).on = false

/-- `WRN_VIC_ID_TXTSU`, `WRN_VIC_ID_NIC` and `WRN_VIC_ID_DIO`. -/
def wrnVicIds : List LineNr := [⟨0, by decide⟩, ⟨1, by decide⟩, ⟨2, by decide⟩]

/-- `WRN_ALL_MASK`. -/
def wrnAllMask : BitVec 32 := 7

/-- `wrn_handler`: the accesses it makes, by whether `fmc->mezzanine_data` is set. -/
def wrnHandler (bound : Bool) : List IrqAccess :=
  if !bound then [.readIntStatus] -- too early, just do nothing
  else [.readVar, .dispatch, .readIntStatus, .writeEoir]

/-- `wrn_vic_init`: fill the vector table, enable the VIC and the lines. -/
def wrnVicUp (r : VicRegs) : VicRegs :=
  let r := wrnVicIds.foldl (fun r i => r.writeIvt i (BitVec.ofNat 32 i)) r
  let r := { r with ctl := vicCtlOn }
  r.ier wrnAllMask

/-- `wrn_vic_exit`: leave the polarity bit on. -/
def wrnVicDown (r : VicRegs) : VicRegs := { r.idr 0xff with ctl := 2 }

/-- The interrupts of `wr-nic-eth.c`. The handler is there before the driver is bound. -/
def wrnIrqDriver : IrqDriver where
  handler := wrnHandler
  up := wrnVicUp
  down := wrnVicDown
  on_up _ := by simp only [wrnVicUp, VicRegs.ier, VicRegs.on]; decide
  on_down _ := by simp only [wrnVicDown, VicRegs.on]; decide

/-- `spec_vic_irq_handler`, which is installed while `spec->vic` is set: the GN4124 is acknowledged
before the VIC. -/
def specVicIrqHandler (bound : Bool) : List IrqAccess :=
  if bound then [.readVar, .dispatch, .readIntStatus, .writeEoir] else []

/-- The interrupts of `spec-vic.c`, from `spec_vic_init` to `spec_vic_exit`. -/
def specVicIrqDriver : IrqDriver where
  handler := specVicIrqHandler
  up r := { r.idr 0xffffffff with ctl := vicCtlOn }
  down := specVicExit
  on_up _ := by simp only [VicRegs.on]; decide
  on_down _ := by simp only [specVicExit, VicRegs.on]; decide

/-! ### The system -/

/-- What can happen: the lines change; `IER` or `IDR` of the VIC is written; the VIC moves on; the
host calls the handler, for the GN4124 or for another device on the same PCI interrupt; the handler
makes its next access; the driver is bound or released. -/
inductive IrqEvent
  | lines (risr : BitVec 32)
  | ier (mask : BitVec 32)
  | idr (mask : BitVec 32)
  | vic
  | enter (foreign : Bool)
  | access
  | up
  | down

namespace IrqChain

variable (d : IrqDriver) (dec : PriorityDecode)

/-- Each event. A handler is not entered while it runs. -/
def step (c : IrqChain) : IrqEvent → IrqChain
  | .lines risr => { c with risr := risr }
  | .ier mask => c.setRegs (c.regs.ier mask)
  | .idr mask => c.setRegs (c.regs.idr mask)
  | .vic => c.advance dec
  | .enter foreign =>
    if c.todo = [] ∧ (c.intStatus || foreign) then { c with todo := d.handler c.bound } else c
  | .access =>
    match c.todo with
    | [] => c
    | a :: rest => { c.exec a with todo := rest }
  | .up => if c.bound then c else { c.setRegs (d.up c.regs) with bound := true }
  | .down => if c.bound then { c.setRegs (d.down c.regs) with bound := false } else c

end IrqChain

/-- Nothing is left to do: no handler runs, the host is not interrupted and the VIC does not move,
but it is enabled. -/
structure AtRest (dec : PriorityDecode) (c : IrqChain) : Prop where
  on : c.regs.on = true
  todo : c.todo = []
  intStatus : c.intStatus = false
  advance : c.advance dec = c

/-- An enabled line is active. -/
def Unheard (c : IrqChain) : Prop := c.risr &&& c.regs.imr ≠ 0

/-- In no run is an enabled line active with everything at rest. -/
def NeverLoses (d : IrqDriver) : Prop :=
  ∀ dec ivtRam es, AtRest dec (run (IrqChain.step d dec) (.start ivtRam) es) →
    ¬ Unheard (run (IrqChain.step d dec) (.start ivtRam) es)

/-- Every read of `INT_STATUS` is followed by a write to `EOIR`. -/
def acksVicLast : List IrqAccess → Bool
  | [] => true
  | a :: rest => (a != .readIntStatus || rest.contains .writeEoir) && acksVicLast rest

/-! ### Single events -/

section Step

variable {d : IrqDriver} {dec : PriorityDecode} {c : IrqChain}

@[simp] theorem on_ier (r : VicRegs) (mask : BitVec 32) : (r.ier mask).on = r.on := rfl

@[simp] theorem on_idr (r : VicRegs) (mask : BitVec 32) : (r.idr mask).on = r.on := rfl

/-- What the moves of the VIC leave alone. -/
theorem advance_frame (dec : PriorityDecode) (c : IrqChain) :
    (c.advance dec).regs = c.regs ∧ (c.advance dec).risr = c.risr ∧
      (c.advance dec).bound = c.bound ∧ (c.advance dec).todo = c.todo := by
  rw [IrqChain.advance]
  split_ifs
  · cases c.phase with
    | scan =>
      simp only [IrqChain.scanLines]
      split_ifs <;> exact ⟨rfl, rfl, rfl, rfl⟩
    | wait i => exact ⟨rfl, rfl, rfl, rfl⟩
    | pulse => exact ⟨rfl, rfl, rfl, rfl⟩
  · exact ⟨rfl, rfl, rfl, rfl⟩

/-- The VIC starts to wait, with an edge that the GN4124 latches; or its output is low; or it does
not move. -/
theorem advance_cases (dec : PriorityDecode) (c : IrqChain) :
    (c.phase = .scan ∧ (c.advance dec).intStatus = true) ∨
      (c.advance dec).phase = .scan ∨ c.advance dec = c := by
  rw [IrqChain.advance]
  split_ifs
  · cases hphase : c.phase with
    | scan =>
      simp only [IrqChain.scanLines]
      split_ifs
      · exact .inr (.inl hphase)
      · exact .inl ⟨trivial, rfl⟩
    | wait i => exact .inr (.inr rfl)
    | pulse => exact .inr (.inl rfl)
  · exact .inr (.inr rfl)

/-- What the accesses of a handler leave alone. -/
theorem exec_frame (c : IrqChain) (a : IrqAccess) :
    (c.exec a).regs = c.regs ∧ (c.exec a).risr = c.risr ∧ (c.exec a).bound = c.bound := by
  cases a with
  | readVar => exact ⟨rfl, rfl, rfl⟩
  | dispatch => exact ⟨rfl, rfl, rfl⟩
  | readIntStatus => exact ⟨rfl, rfl, rfl⟩
  | writeEoir =>
    simp only [IrqChain.exec, IrqChain.endOfInterrupt]
    split <;> exact ⟨rfl, rfl, rfl⟩

theorem step_access {a : IrqAccess} {rest : List IrqAccess} (h : c.todo = a :: rest) :
    c.step d dec .access = { c.exec a with todo := rest } := by
  simp only [IrqChain.step, h]

theorem step_access_nil (h : c.todo = []) : c.step d dec .access = c := by
  simp only [IrqChain.step, h]

/-- The VIC is enabled while the driver is bound. -/
theorem on_eq_bound_step (h : c.regs.on = c.bound) (e : IrqEvent) :
    (c.step d dec e).regs.on = (c.step d dec e).bound := by
  cases e with
  | lines risr => exact h
  | ier mask => exact h
  | idr mask => exact h
  | vic =>
    obtain ⟨hregs, -, hbound, -⟩ := advance_frame dec c
    rw [IrqChain.step, hregs, hbound, h]
  | enter foreign =>
    simp only [IrqChain.step]
    split_ifs <;> exact h
  | access =>
    cases htodo : c.todo with
    | nil => rwa [step_access_nil htodo]
    | cons a rest =>
      obtain ⟨hregs, -, hbound⟩ := exec_frame c a
      rw [step_access htodo]
      exact (congrArg VicRegs.on hregs).trans (h.trans hbound.symm)
  | up =>
    simp only [IrqChain.step]
    split_ifs
    · exact h
    · exact d.on_up c.regs
  | down =>
    simp only [IrqChain.step]
    split_ifs
    · exact d.on_down c.regs
    · exact h

theorem on_eq_bound_run (h : c.regs.on = c.bound) (es : List IrqEvent) :
    (run (IrqChain.step d dec) c es).regs.on = (run (IrqChain.step d dec) c es).bound :=
  run_invariant (I := fun _ (c : IrqChain) => c.regs.on = c.bound) h
    (fun _ _ e h => on_eq_bound_step h e) es

theorem on_start (ivtRam : LineNr → BitVec 32) :
    (IrqChain.start ivtRam).regs.on = (IrqChain.start ivtRam).bound := by
  simp [IrqChain.start, VicRegs.on]

end Step

/-! ### Nothing is lost -/

/-- An interrupt for which the VIC waits is known to the host, or a handler is about to end it. -/
structure Signalled (c : IrqChain) : Prop where
  wait : ∀ i, c.phase = .wait i → c.intStatus = true ∨ .writeEoir ∈ c.todo
  todo : c.bound = true → acksVicLast c.todo = true
  off : c.regs.on = false → c.phase = .scan

/-- The driver is not bound while a handler runs that would read `INT_STATUS` and write no `EOIR`
after it. -/
def BoundInPeace (c : IrqChain) : IrqEvent → Prop
  | .up => acksVicLast c.todo = true
  | _ => True

theorem acksVicLast_cons {a : IrqAccess} {rest : List IrqAccess} :
    acksVicLast (a :: rest) = true ↔
      (a = .readIntStatus → .writeEoir ∈ rest) ∧ acksVicLast rest = true := by
  rw [acksVicLast, Bool.and_eq_true, Bool.or_eq_true, bne_iff_ne, List.contains_iff_mem,
    imp_iff_not_or]

namespace Signalled

variable {d : IrqDriver} {dec : PriorityDecode} {c : IrqChain}

theorem setRegs (h : Signalled c) {regs : VicRegs} (hon : regs.on = c.regs.on) :
    Signalled (c.setRegs regs) := by
  have hphase : (c.setRegs regs).phase = c.phase := by
    cases hc : c.regs.on with
    | true => exact if_pos (hon.trans hc)
    | false =>
      rw [h.off hc]
      exact if_neg (by rw [hon, hc]; decide)
  exact ⟨fun i hi => h.wait i (hphase ▸ hi), h.todo, fun hoff => hphase.trans (h.off (hon ▸ hoff))⟩

theorem advance (h : Signalled c) : Signalled (c.advance dec) := by
  obtain ⟨hregs, -, hbound, htodo⟩ := advance_frame dec c
  refine ⟨fun i hi => ?_, fun hb => ?_, fun hoff => ?_⟩
  · obtain ⟨-, hint⟩ | hscan | hsame := advance_cases dec c
    · exact .inl hint
    · exact absurd (hscan.symm.trans hi) (by simp)
    · rw [hsame] at hi ⊢
      exact h.wait i hi
  · rw [htodo]
    exact h.todo (hbound ▸ hb)
  · rw [hregs] at hoff
    rw [IrqChain.advance, if_neg (by rw [hoff]; decide)]
    exact h.off hoff

/-- The next access: the end of an interrupt is still to come, or it comes now. -/
theorem access (h : Signalled c) (hon : c.regs.on = c.bound) {a : IrqAccess}
    {rest : List IrqAccess} (htodo : c.todo = a :: rest) :
    Signalled { c.exec a with todo := rest } := by
  obtain ⟨hregs, -, hbound⟩ := exec_frame c a
  have hrest : c.bound = true → acksVicLast rest = true := fun hb =>
    (acksVicLast_cons.mp (htodo ▸ h.todo hb)).2
  cases a with
  | readVar =>
    refine ⟨fun i hi => (h.wait i hi).imp id fun hmem => ?_, hrest, h.off⟩
    simpa [htodo] using hmem
  | dispatch =>
    refine ⟨fun i hi => (h.wait i hi).imp id fun hmem => ?_, hrest, h.off⟩
    simpa [htodo] using hmem
  | readIntStatus =>
    refine ⟨fun i hi => .inr ?_, hrest, h.off⟩
    have hb : c.bound = true := by
      rw [← hon]
      by_contra hoff
      exact absurd ((h.off (Bool.not_eq_true _ ▸ hoff)).symm.trans hi) (by simp)
    exact (acksVicLast_cons.mp (htodo ▸ h.todo hb)).1 rfl
  | writeEoir =>
    have hphase : ∀ i, (c.exec .writeEoir).phase ≠ .wait i := by
      intro i
      cases hc : c.phase <;> simp [IrqChain.exec, IrqChain.endOfInterrupt, hc]
    refine ⟨fun i hi => absurd hi (hphase i), fun hb => hrest (hbound ▸ hb), fun hoff => ?_⟩
    have hscan : c.phase = .scan := h.off (hregs ▸ hoff)
    simp [IrqChain.exec, IrqChain.endOfInterrupt, hscan]

/-- Every event keeps it, if binding the driver meets no handler that would lose an interrupt. -/
theorem step (hd : acksVicLast (d.handler true) = true) (h : Signalled c)
    (hon : c.regs.on = c.bound) {e : IrqEvent} (he : BoundInPeace c e) :
    Signalled (c.step d dec e) := by
  cases e with
  | lines risr => exact ⟨h.wait, h.todo, h.off⟩
  | ier mask => exact h.setRegs (on_ier c.regs mask)
  | idr mask => exact h.setRegs (on_idr c.regs mask)
  | vic => exact h.advance
  | enter foreign =>
    simp only [IrqChain.step]
    split_ifs with henter
    · refine ⟨fun i hi => .inl ?_, fun hb => ?_, h.off⟩
      · exact (h.wait i hi).resolve_right (by simp [henter.1])
      · have hbound : c.bound = true := hb
        simpa [hbound] using hd
    · exact h
  | access =>
    cases htodo : c.todo with
    | nil => rwa [step_access_nil htodo]
    | cons a rest =>
      rw [step_access htodo]
      exact h.access hon htodo
  | up =>
    simp only [IrqChain.step]
    split_ifs with hb
    · exact h
    · have hoff : c.regs.on = false := by rw [hon]; simpa using hb
      have hscan : (c.setRegs (d.up c.regs)).phase = .scan :=
        (if_pos (d.on_up c.regs)).trans (h.off hoff)
      refine ⟨fun i hi => ?_, fun _ => he, fun hup => ?_⟩
      · exact absurd (hscan.symm.trans hi) (by simp)
      · exact absurd (hup.symm.trans (d.on_up c.regs)) (by simp)
  | down =>
    simp only [IrqChain.step]
    split_ifs with hb
    · have hscan : (c.setRegs (d.down c.regs)).phase = .scan :=
        if_neg (by rw [d.on_down]; decide)
      exact ⟨fun i hi => absurd (hscan.symm.trans hi) (by simp), fun hup => by simp at hup,
        fun _ => hscan⟩
    · exact h

/-- At rest, the VIC has looked at its lines and found none. -/
theorem not_unheard (h : Signalled c) (hrest : AtRest dec c) : ¬ Unheard c := by
  have hmove := hrest.advance
  rw [IrqChain.advance, if_pos hrest.on] at hmove
  cases hphase : c.phase with
  | scan =>
    simp only [hphase, IrqChain.scanLines] at hmove
    split_ifs at hmove with hlatched
    · intro hline
      exact hline (BitVec.or_eq_zero_iff.mp hlatched).2
    · have hwait := congrArg IrqChain.phase hmove
      rw [hphase] at hwait
      exact absurd hwait (by simp)
  | wait i =>
    rcases h.wait i hphase with hint | hmem
    · exact absurd (hint.symm.trans hrest.intStatus) (by decide)
    · rw [hrest.todo] at hmem
      exact absurd hmem List.not_mem_nil
  | pulse =>
    simp only [hphase] at hmove
    have hscan := congrArg IrqChain.phase hmove
    rw [hphase] at hscan
    exact absurd hscan (by simp)

end Signalled

/-- **Nothing is lost while the VIC is acknowledged last.** With a handler that reads `INT_STATUS`
only before it writes `EOIR`, no enabled line is active at rest, whatever the order in which
the lines, the VIC, the host and other devices act, if the driver is bound while no handler runs
that would break this rule. -/
theorem not_unheard_of_along {d : IrqDriver} (hd : acksVicLast (d.handler true) = true)
    {dec : PriorityDecode} {ivtRam : LineNr → BitVec 32} {es : List IrqEvent}
    (hes : Along (IrqChain.step d dec) BoundInPeace (.start ivtRam) es)
    (hrest : AtRest dec (run (IrqChain.step d dec) (.start ivtRam) es)) :
    ¬ Unheard (run (IrqChain.step d dec) (.start ivtRam) es) := by
  have hstart : Signalled (.start ivtRam) := ⟨nofun, fun _ => rfl, fun _ => rfl⟩
  have hthrough : Throughout (IrqChain.step d dec) Signalled (.start ivtRam) es :=
    Along.throughout (I := fun c => Signalled c ∧ c.regs.on = c.bound)
      ⟨hstart, on_start ivtRam⟩
      (fun _ h => h.1) (fun _ e h he => ⟨h.1.step hd h.2 he, on_eq_bound_step h.2 e⟩) hes
  exact hthrough.last.not_unheard hrest

/-! ### What is lost otherwise -/

/-- The lowest pending line. -/
def lowestFirst : PriorityDecode where
  pick isr := ((List.finRange vicMaxVectors).find? fun i => isr.getLsbD i.val).getD ⟨0, by decide⟩
  pending isr hisr := by
    cases hfind : (List.finRange vicMaxVectors).find? fun i => isr.getLsbD i.val with
    | some i => simpa using List.find?_some hfind
    | none =>
      refine absurd (BitVec.eq_of_getLsbD_eq fun k hk => ?_) hisr
      have hk' := List.find?_eq_none.mp hfind ⟨k, hk⟩ (List.mem_finRange _)
      have hzero : (0 : BitVec 32).getLsbD k = false := BitVec.getLsbD_zero
      rw [hzero]
      simpa using hk'

/-- A handler that breaks the rule reads `INT_STATUS` with no write to `EOIR` to come. -/
theorem exists_of_not_acksVicLast {p : List IrqAccess} (h : acksVicLast p = false) :
    ∃ l r, p = l ++ .readIntStatus :: r ∧ .writeEoir ∉ r := by
  induction p with
  | nil => exact absurd h (by decide)
  | cons a rest ih =>
    by_cases hrest : acksVicLast rest = true
    · have hbad : ¬ (a = .readIntStatus → .writeEoir ∈ rest) := fun ha =>
        absurd (acksVicLast_cons.mpr ⟨ha, hrest⟩) (by rw [h]; decide)
      obtain ⟨rfl, hmem⟩ := Classical.not_imp.mp hbad
      exact ⟨[], rest, rfl, hmem⟩
    · obtain ⟨l, r, rfl, hr⟩ := ih (by simpa using hrest)
      exact ⟨a :: l, r, rfl, hr⟩

section Lost

variable {d : IrqDriver} {dec : PriorityDecode} {c : IrqChain}

/-- A handler makes some of its accesses. -/
theorem run_access {l r : List IrqAccess} (h : c.todo = l ++ r) :
    (run (IrqChain.step d dec) c (List.replicate l.length .access)).todo = r ∧
      (run (IrqChain.step d dec) c (List.replicate l.length .access)).bound = c.bound := by
  induction l generalizing c with
  | nil => exact ⟨h, rfl⟩
  | cons a l ih =>
    rw [List.length_cons, List.replicate_succ, run_cons, step_access h]
    have hframe := (exec_frame c a).2.2
    exact ⟨(ih rfl).1, (ih rfl).2.trans hframe⟩

/-- The rest of a handler that writes no `EOIR`, once `INT_STATUS` has been read while the VIC
waits. -/
theorem run_access_of_wait {i : LineNr} {r : List IrqAccess} (hr : .writeEoir ∉ r)
    (hphase : c.phase = .wait i) (hint : c.intStatus = false) (htodo : c.todo = r) :
    let c' := run (IrqChain.step d dec) c (List.replicate r.length .access)
    c'.phase = .wait i ∧ c'.intStatus = false ∧ c'.todo = [] ∧ c'.regs = c.regs ∧
      c'.risr = c.risr := by
  induction r generalizing c with
  | nil => exact ⟨hphase, hint, htodo, rfl, rfl⟩
  | cons a r ih =>
    rw [List.mem_cons, not_or] at hr
    have hexec : (c.exec a).phase = .wait i ∧ (c.exec a).intStatus = false := by
      cases a with
      | readVar => exact ⟨hphase, hint⟩
      | dispatch => exact ⟨hphase, hint⟩
      | readIntStatus => exact ⟨hphase, rfl⟩
      | writeEoir => exact absurd rfl hr.1
    obtain ⟨hregs, hrisr, -⟩ := exec_frame c a
    rw [List.length_cons, List.replicate_succ, run_cons, step_access htodo]
    obtain ⟨h₁, h₂, h₃, h₄, h₅⟩ := ih (c := { c.exec a with todo := r }) hr.2 hexec.1 hexec.2 rfl
    exact ⟨h₁, h₂, h₃, h₄.trans hregs, h₅.trans hrisr⟩

/-- With an enabled line active, the VIC comes to wait within two moves. -/
theorem exists_wait (hon : c.regs.on = true) (hline : Unheard c) :
    ∃ i, ((c.advance dec).advance dec).phase = .wait i := by
  have hlatched : c.latched ≠ 0 := fun h => hline (BitVec.or_eq_zero_iff.mp h).2
  cases hphase : c.phase with
  | scan =>
    have hmove : c.advance dec = { c with
        isr := c.latched
        var := c.regs.ivtRam (dec.pick c.latched)
        phase := .wait (dec.pick c.latched)
        intStatus := true } := by
      rw [IrqChain.advance, if_pos hon]
      simp only [hphase, IrqChain.scanLines, if_neg hlatched]
    refine ⟨dec.pick c.latched, ?_⟩
    rw [hmove, IrqChain.advance, if_pos hon]
  | wait i =>
    have hmove : c.advance dec = c := by
      rw [IrqChain.advance, if_pos hon]
      simp only [hphase]
    exact ⟨i, by rw [hmove, hmove, hphase]⟩
  | pulse =>
    have hmove : c.advance dec = { c with phase := .scan } := by
      rw [IrqChain.advance, if_pos hon]
      simp only [hphase]
    refine ⟨dec.pick c.latched, ?_⟩
    rw [hmove, IrqChain.advance, if_pos hon]
    have hagain : ({ c with phase := .scan } : IrqChain).latched ≠ 0 := hlatched
    simp only [IrqChain.scanLines, if_neg hagain]
    rfl

theorem unheard_of_line (hrisr : c.risr = 1) (himr : c.regs.imr.getLsbD 0 = true) : Unheard c := by
  intro hzero
  have hbit : (c.risr &&& c.regs.imr).getLsbD 0 = (0 : BitVec 32).getLsbD 0 := by rw [hzero]
  rw [BitVec.getLsbD_and, hrisr, himr] at hbit
  exact absurd hbit (by decide)

/-- The VIC waits for a write to `EOIR` and the host knows nothing of it. -/
structure Deaf (c : IrqChain) : Prop where
  bound : c.bound = true
  todo : c.todo = []
  intStatus : c.intStatus = false
  wait : ∃ i, c.phase = .wait i

/-- What may end that: a call for another device, or the release of the driver. -/
def Wakes : IrqEvent → Prop
  | .enter true => True
  | .down => True
  | _ => False

/-- Nothing else does. -/
theorem Deaf.step (h : Deaf c) (hon : c.regs.on = c.bound) {e : IrqEvent} (he : ¬ Wakes e) :
    Deaf (c.step d dec e) ∧ (c.step d dec e).calls = c.calls := by
  obtain ⟨hbound, htodo, hint, i, hphase⟩ := h
  have hregs : ∀ regs : VicRegs, regs.on = c.regs.on → Deaf (c.setRegs regs) := by
    intro regs hsame
    have hon' : regs.on = true := hsame.trans (hon.trans hbound)
    exact ⟨hbound, htodo, hint, i, (if_pos hon').trans hphase⟩
  cases e with
  | lines risr => exact ⟨⟨hbound, htodo, hint, i, hphase⟩, rfl⟩
  | ier mask => exact ⟨hregs _ (on_ier c.regs mask), rfl⟩
  | idr mask => exact ⟨hregs _ (on_idr c.regs mask), rfl⟩
  | vic =>
    have hstay : c.advance dec = c := by
      rw [IrqChain.advance]
      split_ifs
      · simp only [hphase]
      · rfl
    rw [IrqChain.step, hstay]
    exact ⟨⟨hbound, htodo, hint, i, hphase⟩, rfl⟩
  | enter foreign =>
    cases foreign with
    | true => exact absurd trivial he
    | false =>
      have hno : ¬ (c.todo = [] ∧ (c.intStatus || false) = true) := by simp [hint]
      rw [IrqChain.step, if_neg hno]
      exact ⟨⟨hbound, htodo, hint, i, hphase⟩, rfl⟩
  | access =>
    rw [step_access_nil htodo]
    exact ⟨⟨hbound, htodo, hint, i, hphase⟩, rfl⟩
  | up =>
    rw [IrqChain.step, if_pos hbound]
    exact ⟨⟨hbound, htodo, hint, i, hphase⟩, rfl⟩
  | down => exact absurd trivial he

/-- It stays so, and no handler is called any more. -/
theorem Deaf.run (h : Deaf c) (hon : c.regs.on = c.bound) {es : List IrqEvent}
    (hes : ∀ e ∈ es, ¬ Wakes e) : Deaf (EventRun.run (IrqChain.step d dec) c es) ∧
      (EventRun.run (IrqChain.step d dec) c es).calls = c.calls := by
  induction es generalizing c with
  | nil => exact ⟨h, rfl⟩
  | cons e es ih =>
    rw [List.forall_mem_cons] at hes
    obtain ⟨hdeaf, hcalls⟩ := @Deaf.step d dec c h hon e hes.1
    obtain ⟨hrun, hrest⟩ := ih hdeaf (on_eq_bound_step hon e) hes.2
    exact ⟨hrun, hrest.trans hcalls⟩

/-- A handler that has to read `INT_STATUS` and writes no `EOIR` after it can lose an interrupt: the
driver is bound, a line becomes active and the VIC comes to wait before the handler goes on. -/
theorem exists_lost {r : List IrqAccess} (hon : c.regs.on = c.bound)
    (htodo : c.todo = .readIntStatus :: r) (hr : .writeEoir ∉ r) :
    ∃ es, AtRest dec (run (IrqChain.step d dec) c es) ∧
      Unheard (run (IrqChain.step d dec) c es) ∧ Deaf (run (IrqChain.step d dec) c es) := by
  let c₁ := c.step d dec .up
  have hup : c₁.todo = c.todo ∧ c₁.bound = true := by
    simp only [c₁, IrqChain.step]
    split_ifs with hb
    · exact ⟨rfl, hb⟩
    · exact ⟨rfl, rfl⟩
  let c₂ := (c₁.step d dec (.lines 1)).step d dec (.ier 1)
  have hon₂ : c₂.regs.on = true := (on_eq_bound_step hon .up).trans hup.2
  have himr : c₂.regs.imr.getLsbD 0 = true := by
    simp [c₂, IrqChain.step, IrqChain.setRegs, VicRegs.ier]
  have hline : Unheard c₂ := unheard_of_line rfl himr
  obtain ⟨i, hwait⟩ := @exists_wait dec c₂ hon₂ hline
  let c₃ := (c₂.advance dec).advance dec
  obtain ⟨hregs, hrisr, -, htodo₃⟩ := advance_frame dec (c₂.advance dec)
  obtain ⟨hregs', hrisr', -, htodo₂⟩ := advance_frame dec c₂
  have htodo₄ : c₃.todo = .readIntStatus :: r :=
    htodo₃.trans (htodo₂.trans (hup.1.trans htodo))
  obtain ⟨hphase, hint, hdone, hregs₄, hrisr₄⟩ := @run_access_of_wait d dec
    { c₃.exec .readIntStatus with todo := r } i r hr hwait rfl rfl
  refine ⟨.up :: .lines 1 :: .ier 1 :: .vic :: .vic :: .access ::
    List.replicate r.length .access, ?_⟩
  have hrun : run (IrqChain.step d dec) c (.up :: .lines 1 :: .ier 1 :: .vic :: .vic :: .access ::
      List.replicate r.length .access) = run (IrqChain.step d dec)
        { c₃.exec .readIntStatus with todo := r } (List.replicate r.length .access) := by
    rw [run_cons, run_cons, run_cons, run_cons, run_cons, run_cons, ← step_access htodo₄]
    rfl
  rw [hrun]
  have hsame := hregs₄.trans (hregs.trans hregs')
  have hbound := @on_eq_bound_run d dec c hon (.up :: .lines 1 :: .ier 1 :: .vic ::
    .vic :: .access :: List.replicate r.length .access)
  rw [hrun, hsame] at hbound
  refine ⟨⟨?_, hdone, hint, ?_⟩, unheard_of_line (hrisr₄.trans (hrisr.trans hrisr')) ?_,
    ⟨hbound.symm.trans hon₂, hdone, hint, i, hphase⟩⟩
  · rw [hsame]
    exact hon₂
  · rw [IrqChain.advance]
    split_ifs
    · simp only [hphase]
    · rfl
  · rw [hsame]
    exact himr

end Lost

/-- Every state in which the handler of a bound or an unbound driver has made its first accesses
can be reached. -/
theorem exists_entered (d : IrqDriver) (dec : PriorityDecode) (ivtRam : LineNr → BitVec 32)
    {b : Bool} {l r : List IrqAccess} (h : d.handler b = l ++ r) :
    ∃ es, (run (IrqChain.step d dec) (.start ivtRam) es).todo = r := by
  cases b with
  | true =>
    refine ⟨.up :: .enter true :: List.replicate l.length .access, ?_⟩
    rw [run_cons, run_cons]
    refine (run_access (r := r) ?_).1
    rw [← h]
    simp [IrqChain.step, IrqChain.start, IrqChain.setRegs]
  | false =>
    refine ⟨.enter true :: List.replicate l.length .access, ?_⟩
    rw [run_cons]
    refine (run_access (r := r) ?_).1
    rw [← h]
    simp [IrqChain.step, IrqChain.start]

/-- A driver whose handlers both keep the rule has a handler that keeps it in progress. -/
theorem acksVicLast_step {d : IrqDriver} {dec : PriorityDecode} {c : IrqChain}
    (hd : ∀ b, acksVicLast (d.handler b) = true) (h : acksVicLast c.todo = true) (e : IrqEvent) :
    acksVicLast (c.step d dec e).todo = true := by
  cases e with
  | lines risr => exact h
  | ier mask => exact h
  | idr mask => exact h
  | vic => rwa [IrqChain.step, (advance_frame dec c).2.2.2]
  | enter foreign =>
    simp only [IrqChain.step]
    split_ifs
    · exact hd c.bound
    · exact h
  | access =>
    cases htodo : c.todo with
    | nil => rwa [step_access_nil htodo]
    | cons a rest =>
      rw [step_access htodo]
      exact (acksVicLast_cons.mp (htodo ▸ h)).2
  | up =>
    simp only [IrqChain.step]
    split_ifs <;> exact h
  | down =>
    simp only [IrqChain.step]
    split_ifs <;> exact h

/-- **Nothing is ever lost exactly when the VIC is acknowledged last.** A driver loses no interrupt
in any run if and only if its handler, bound or not, writes `EOIR` after every read of
`INT_STATUS`. -/
theorem neverLoses_iff (d : IrqDriver) :
    NeverLoses d ↔ ∀ b, acksVicLast (d.handler b) = true := by
  constructor
  · intro hnever b
    by_contra hbad
    obtain ⟨l, r, hp, hr⟩ := exists_of_not_acksVicLast (Bool.not_eq_true _ ▸ hbad)
    obtain ⟨es, htodo⟩ := exists_entered d lowestFirst (fun _ => 0) hp
    have hon := @on_eq_bound_run d lowestFirst _ (on_start fun _ => 0) es
    obtain ⟨es', hrest, hline, -⟩ := @exists_lost d lowestFirst _ r hon htodo hr
    rw [← run_append] at hrest hline
    exact hnever lowestFirst (fun _ => 0) (es ++ es') hrest hline
  · intro hd dec ivtRam es hrest
    refine not_unheard_of_along (hd true) ?_ hrest
    have hiff : Along (IrqChain.step d dec) BoundInPeace (.start ivtRam) es ↔
        Along (IrqChain.step d dec) (fun _ _ => True) (.start ivtRam) es :=
      along_iff_along (I := fun c => acksVicLast c.todo = true) rfl
        (fun c e h _ => acksVicLast_step hd h e)
        (fun c e h => by cases e <;> simp [BoundInPeace, h]) es
    exact hiff.mpr ((along_const_iff (IrqChain.step d dec)).mpr fun _ _ => trivial)

/-! ### The two drivers -/

/-- `spec_vic_irq_handler` with its two acknowledgements the other way around. -/
def specVicFirstDriver : IrqDriver :=
  { specVicIrqDriver with
    handler := fun bound =>
      if bound then [.readVar, .dispatch, .writeEoir, .readIntStatus] else [] }

/-- **The GN4124 is to be acknowledged before the VIC.** The handler of `spec-fmc.c` loses no
interrupt in any run; with its two acknowledgements the other way around there is a run in which
it does. -/
theorem ackOrder : NeverLoses specVicIrqDriver ∧ ¬ NeverLoses specVicFirstDriver := by
  refine ⟨(neverLoses_iff _).mpr fun b => ?_, fun h => ?_⟩
  · cases b <;> rfl
  · exact absurd ((neverLoses_iff _).mp h true) (by decide)

/-- A call of `wrn_handler` that has found no device. -/
structure EarlyCall (c : IrqChain) : Prop where
  bound : c.bound = false
  todo : c.todo = wrnHandler false

/-- **`wrn_handler` loses an interrupt only through an early call.** In a run in which the driver is
bound while no early call is in progress, every enabled line that is active is heard. From every
state with an early call in progress some run leads to an active line that is not heard any more,
whatever happens, unless another device interrupts the host or the driver is released. -/
theorem wrnHandler_early (dec : PriorityDecode) (ivtRam : LineNr → BitVec 32)
    (es : List IrqEvent) :
    let c := run (IrqChain.step wrnIrqDriver dec) (.start ivtRam) es
    (Along (IrqChain.step wrnIrqDriver dec) BoundInPeace (.start ivtRam) es → AtRest dec c →
      ¬ Unheard c) ∧
    (EarlyCall c → ∃ es', Unheard (run (IrqChain.step wrnIrqDriver dec) c es') ∧
      ∀ es'', (∀ e ∈ es'', ¬ Wakes e) →
        (run (IrqChain.step wrnIrqDriver dec) c (es' ++ es'')).calls =
          (run (IrqChain.step wrnIrqDriver dec) c es').calls) := by
  intro c
  refine ⟨fun hes hrest => not_unheard_of_along rfl hes hrest, fun hearly => ?_⟩
  have hon : c.regs.on = c.bound := on_eq_bound_run (on_start ivtRam) es
  obtain ⟨es', -, hline, hdeaf⟩ := @exists_lost wrnIrqDriver dec c [] hon hearly.todo
    List.not_mem_nil
  refine ⟨es', hline, fun es'' hes'' => ?_⟩
  rw [run_append]
  exact (hdeaf.run (on_eq_bound_run hon es') hes'').2

end SpecSw.Vic
