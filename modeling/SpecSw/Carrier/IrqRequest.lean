import SpecSw.Carrier.Gpio
import SpecSw.Vic.Controller

/-!
# Requesting and freeing the interrupts of a card

A card has one interrupt on the PCI bus. In VIC mode every request takes a line of the vectored
interrupt controller, the first one also installs the handler of the controller on the PCI
interrupt and configures the pins that raise it, and the last free removes that handler. Whether a
request is the first is told by the pointer to the controller.

A card has one `struct fmc_device`, which is the `dev_id` of all its handlers; its `irq` field,
which the mezzanine driver sets before each call, is an argument here, as `unsigned long`.

After a request that fails between the initialization of the controller and the installation of
its handler, the controller exists but its handler is not installed, and the later requests are
not the first. `VicSet`, `HasHandler` and `MasterInstalled` are therefore equivalent throughout a
run of requests and frees exactly when no request of it fails there.

## Main definitions

* `Carrier.SpecCard`, `Carrier.specIrqRequest`, `Carrier.specIrqFree`.
* `Carrier.IrqEvent`, `Carrier.step`: calls in any order, with any outcomes.
* `Carrier.Coherent`, `Carrier.Atomic`, `Carrier.InitKept`.

## Main results

* `Carrier.requestOutcome`: all that a request in VIC mode can do.
* `Carrier.coherent_along_iff`.
-/

namespace SpecSw.Carrier

open EventRun Vic

variable {H F : Type*}

/-! ### The state -/

/-- A handler of the PCI interrupt: `spec_vic_irq_handler`, or one that was requested with
`IRQF_SHARED`. -/
inductive PciHandler (H : Type*)
  | vic
  | shared (handler : H)

/-- The part of the state of a card that concerns its interrupts: the controller and the registers
of the bridge, the handlers of its PCI interrupt, `SPEC_FLAG_IRQS_REQUESTED` and
`spec_vic_gpio_cfg`. -/
structure SpecCard (H F : Type*) where
  dev : Vic.SpecDev H F
  gennum : Gennum
  pciHandlers : List (PciHandler H)
  irqsRequested : Bool
  vicGpioCfg : List FmcGpio

/-- What the outside decides about a request: the calls of `spec_vic_init`, the value that
`request_irq` returns, and the module parameter `spec_use_msi`. -/
structure RequestCalls where
  init : InitCalls
  requestIrq : ℤ
  useMsi : Bool

/-! ### Requests and frees -/

/-- The `MSI_CONTROL` that `spec_shared_irq_request` writes. -/
def Gennum.enableMsi (g : Gennum) : Gennum :=
  { g with msiControl := 0xa50000 ||| (g.msiControl &&& 0xffff) }

/-- `spec_shared_irq_request`. -/
def specSharedIrqRequest (o : RequestCalls) (handler : PciHandler H) (card : SpecCard H F) :
    ℤ × SpecCard H F :=
  if o.requestIrq ≠ 0 then (o.requestIrq, card)
  else
    (0, { card with
      pciHandlers := card.pciHandlers ++ [handler]
      gennum := if o.useMsi then card.gennum.enableMsi else card.gennum })

/-- The call of `gpio_config` in `spec_irq_request`, whose return value is not used. -/
def configVicPins (card : SpecCard H F) : SpecCard H F :=
  let r := specGpioConfig card.vicGpioCfg card.gennum
  { card with vicGpioCfg := r.2.1, gennum := r.2.2 }

/-- `spec_irq_request`, where `shared` tells whether `IRQF_SHARED` is set in the flags. -/
def specIrqRequest (o : RequestCalls) (fmc : F) (irq : BitVec 64) (handler : H) (shared : Bool)
    (card : SpecCard H F) : ℤ × SpecCard H F :=
  if !shared then
    let firstTime := card.dev.vic.isNone
    let r := specVicIrqRequest o.init fmc irq handler card.dev
    let card := { card with dev := r.2 }
    if r.1 ≠ 0 then (r.1, card)
    else if firstTime then
      let s := specSharedIrqRequest o .vic card
      if s.1 ≠ 0 then s else (0, { configVicPins s.2 with irqsRequested := true })
    else (0, { card with irqsRequested := true })
  else
    let s := specSharedIrqRequest o (.shared handler) card
    if s.1 = 0 then (s.1, { s.2 with irqsRequested := true }) else s

/-- `spec_shared_irq_free`. All handlers have the same `dev_id`, so `free_irq` removes the first,
if there is one. -/
def specSharedIrqFree (card : SpecCard H F) : SpecCard H F :=
  { card with gennum := card.gennum.intMaskSet 0xffff, pciHandlers := card.pciHandlers.tail }

/-- `spec_irq_free`, which always returns 0. -/
def specIrqFree (irq : BitVec 64) (card : SpecCard H F) : SpecCard H F :=
  let card := { card with dev := (specVicIrqFree irq card.dev).getD card.dev }
  if card.dev.vic.isNone then specSharedIrqFree card else card

/-! ### Runs -/

/-- A call of `spec_irq_request` without `IRQF_SHARED`, or of `spec_irq_free`. -/
inductive IrqEvent (H : Type*)
  | request (o : RequestCalls) (irq : BitVec 64) (handler : H)
  | free (irq : BitVec 64)

/-- The state after a call, on the card of the device `fmc`. -/
def step (fmc : F) (card : SpecCard H F) : IrqEvent H → SpecCard H F
  | .request o irq handler => (specIrqRequest o fmc irq handler false card).2
  | .free irq => specIrqFree irq card

/-- `spec->vic` is not `NULL`. -/
def VicSet (card : SpecCard H F) : Prop := ∃ vic, card.dev.vic = some vic

/-- At least one vector has a handler. -/
def HasHandler (card : SpecCard H F) : Prop := card.dev.HasHandler

/-- `spec_vic_irq_handler` is installed on the PCI interrupt. -/
def MasterInstalled (card : SpecCard H F) : Prop := PciHandler.vic ∈ card.pciHandlers

/-- The three facts are equivalent. -/
structure Coherent (card : SpecCard H F) : Prop where
  hasHandler : VicSet card ↔ HasHandler card
  master : VicSet card ↔ MasterInstalled card

/-- The three facts and the set of enabled lines are the same in the two states. -/
structure SameIrqs (card card' : SpecCard H F) : Prop where
  vicSet : VicSet card' ↔ VicSet card
  hasHandler : HasHandler card' ↔ HasHandler card
  master : MasterInstalled card' ↔ MasterInstalled card
  enabled : ∀ i, card'.dev.regs.enabled i = card.dev.regs.enabled i

/-- A call leaves the three facts equivalent; a request that fails leaves them and the enabled
lines as they were; after one that succeeds the handler of the controller is installed. -/
def Atomic (fmc : F) (card : SpecCard H F) (e : IrqEvent H) : Prop :=
  Coherent (step fmc card e) ∧
    match e with
    | .request o irq handler =>
      let r := specIrqRequest o fmc irq handler false card
      (r.1 ≠ 0 → SameIrqs card r.2) ∧ (r.1 = 0 → MasterInstalled r.2)
    | .free _ => True

/-- The call is no request that creates the controller and fails afterwards, because its id is not
in the RAM or `request_irq` fails. -/
def InitKept (card : SpecCard H F) : IrqEvent H → Prop
  | .request o irq _ => card.dev.vic = none → o.init.Succeeds →
      (∃ i, (card.dev.regs.ivtRam i).signExtend 64 = irq) ∧ o.requestIrq = 0
  | .free _ => True

/-! ### What a call does -/

/-- The outcomes of a request in VIC mode: the value returned and the card afterwards. -/
inductive RequestOutcome (o : RequestCalls) (irq : BitVec 64) (card : SpecCard H F) :
    ℤ × SpecCard H F → Prop
  /-- It fails and changes nothing. -/
  | refused {rv : ℤ} (hrv : rv ≠ 0) (hinit : card.dev.vic = none → ¬ o.init.Succeeds) :
      RequestOutcome o irq card (rv, card)
  /-- It creates the controller and does not find the id. -/
  | noVector {r : ℤ × SpecCard H F} (hrv : r.1 ≠ 0) (hnone : card.dev.vic = none)
      (hinit : o.init.Succeeds) (hid : ∀ i, (card.dev.regs.ivtRam i).signExtend 64 ≠ irq)
      (hvic : VicSet r.2) (hno : ¬ HasHandler r.2) : RequestOutcome o irq card r
  /-- It creates the controller, takes a line and does not get the PCI interrupt. -/
  | noIrq {r : ℤ × SpecCard H F} (hrv : r.1 ≠ 0) (hnone : card.dev.vic = none)
      (hinit : o.init.Succeeds) (hirq : o.requestIrq ≠ 0) (hhandler : HasHandler r.2)
      (hpci : r.2.pciHandlers = card.pciHandlers) : RequestOutcome o irq card r
  /-- It is the first, and succeeds. -/
  | first {r : ℤ × SpecCard H F} (hrv : r.1 = 0) (hnone : card.dev.vic = none)
      (hid : ∃ i, (card.dev.regs.ivtRam i).signExtend 64 = irq) (hirq : o.requestIrq = 0)
      (hhandler : HasHandler r.2) (hpci : r.2.pciHandlers = card.pciHandlers ++ [.vic]) :
      RequestOutcome o irq card r
  /-- It is a later one, and succeeds. -/
  | later {r : ℤ × SpecCard H F} (hrv : r.1 = 0) (hvic : VicSet card) (hhandler : HasHandler r.2)
      (hpci : r.2.pciHandlers = card.pciHandlers) : RequestOutcome o irq card r

theorem requestOutcome (o : RequestCalls) (fmc : F) (irq : BitVec 64) (handler : H)
    (card : SpecCard H F) :
    RequestOutcome o irq card (specIrqRequest o fmc irq handler false card) := by
  rw [specIrqRequest]
  obtain ⟨hrv, hsame, hinit⟩ | ⟨hrv, hnone, hinit, hid, vic, hvic, hno⟩ | ⟨hrv, hhandler, hfirst⟩ :=
    specVicIrqRequest_cases o.init fmc irq handler card.dev
  · simp only [Bool.not_false, if_true, if_pos hrv, hsame]
    exact .refused hrv hinit
  · simp only [Bool.not_false, if_true, if_pos hrv]
    refine .noVector hrv hnone hinit hid ⟨vic, hvic⟩ ?_
    rintro ⟨vic', hvic', i, hi⟩
    obtain rfl := Option.some.inj (hvic.symm.trans hvic')
    exact hi (hno i)
  · simp only [Bool.not_false, if_true, hrv, ne_eq, not_true_eq_false, if_false]
    cases hvic : card.dev.vic with
    | some vic =>
      simp only [Option.isNone_some, Bool.false_eq_true, if_false]
      exact .later rfl ⟨vic, hvic⟩ hhandler rfl
    | none =>
      obtain ⟨hinit, hid⟩ := hfirst hvic
      simp only [Option.isNone_none, if_true]
      by_cases hirq : o.requestIrq = 0
      · simp only [specSharedIrqRequest, hirq, ne_eq, not_true_eq_false, if_false]
        exact .first rfl hvic hid hirq hhandler rfl
      · simp only [specSharedIrqRequest, hirq, ne_eq, not_false_eq_true, if_true]
        exact .noIrq hirq hvic hinit hirq hhandler rfl

/-! ### The states between calls -/

/-- Either there is no controller and no handler of the PCI interrupt, or some vector has a
handler and `spec_vic_irq_handler` is installed. -/
inductive Settled (card : SpecCard H F) : Prop
  | idle (hvic : card.dev.vic = none) (hpci : card.pciHandlers = [])
  | active (hhandler : HasHandler card) (hpci : card.pciHandlers = [.vic])

theorem HasHandler.vicSet {card : SpecCard H F} (h : HasHandler card) : VicSet card := by
  obtain ⟨vic, hvic, -⟩ := h
  exact ⟨vic, hvic⟩

theorem not_vicSet {card : SpecCard H F} (h : card.dev.vic = none) : ¬ VicSet card := by
  rintro ⟨vic, hvic⟩
  cases h.symm.trans hvic

theorem Settled.coherent {card : SpecCard H F} (h : Settled card) : Coherent card := by
  cases h with
  | idle hvic hpci =>
    refine ⟨iff_of_false (not_vicSet hvic) fun h => not_vicSet hvic h.vicSet,
      iff_of_false (not_vicSet hvic) ?_⟩
    rw [MasterInstalled, hpci]
    exact List.not_mem_nil
  | active hhandler hpci =>
    refine ⟨iff_of_true hhandler.vicSet hhandler, iff_of_true hhandler.vicSet ?_⟩
    rw [MasterInstalled, hpci]
    exact List.mem_singleton_self _

theorem Settled.pciHandlers_of_none {card : SpecCard H F} (h : Settled card)
    (hvic : card.dev.vic = none) : card.pciHandlers = [] := by
  cases h with
  | idle _ hpci => exact hpci
  | active hhandler => exact absurd hhandler.vicSet (not_vicSet hvic)

theorem Settled.pciHandlers_of_vicSet {card : SpecCard H F} (h : Settled card)
    (hvic : VicSet card) : card.pciHandlers = [.vic] := by
  cases h with
  | idle hnone => exact absurd hvic (not_vicSet hnone)
  | active _ hpci => exact hpci

theorem SameIrqs.refl (card : SpecCard H F) : SameIrqs card card :=
  ⟨Iff.rfl, Iff.rfl, Iff.rfl, fun _ => rfl⟩

/-- A free leads from a settled state to a settled state. -/
theorem Settled.free {card : SpecCard H F} (h : Settled card) (irq : BitVec 64) :
    Settled (specIrqFree irq card) := by
  rw [specIrqFree]
  cases hfree : specVicIrqFree irq card.dev with
  | none =>
    have hvic : card.dev.vic = none := Option.map_eq_none_iff.mp hfree
    simp only [Option.getD_none, hvic, Option.isNone_none, if_true]
    refine .idle hvic ?_
    rw [specSharedIrqFree, h.pciHandlers_of_none hvic, List.tail_nil]
  | some dev =>
    obtain ⟨vic, hvic, hcase⟩ := specVicIrqFree_cases hfree
    have hpci := h.pciHandlers_of_vicSet ⟨vic, hvic⟩
    obtain ⟨⟨i, hi⟩, rfl⟩ | ⟨-, rfl⟩ := hcase
    · simp only [Option.getD_some, Option.isNone_some, Bool.false_eq_true, if_false]
      exact .active ⟨_, rfl, i, hi⟩ hpci
    · simp only [Option.getD_some, Option.isNone_none, if_true]
      refine .idle rfl ?_
      rw [specSharedIrqFree, hpci, List.tail_cons]

/-- A request whose outcome is not one of the two halfway failures leads to a settled state. -/
theorem RequestOutcome.settled {o : RequestCalls} {irq : BitVec 64} {handler : H}
    {card : SpecCard H F} {r : ℤ × SpecCard H F} (h : RequestOutcome o irq card r)
    (hcard : Settled card) (hkept : InitKept card (.request o irq handler)) : Settled r.2 := by
  cases h with
  | refused => exact hcard
  | noVector _ hnone hinit hid =>
    obtain ⟨⟨i, hi⟩, -⟩ := hkept hnone hinit
    exact absurd hi (hid i)
  | noIrq _ hnone hinit hirq => exact absurd (hkept hnone hinit).2 hirq
  | first _ hnone _ _ hhandler hpci =>
    rw [hcard.pciHandlers_of_none hnone, List.nil_append] at hpci
    exact .active hhandler hpci
  | later _ hvic hhandler hpci =>
    exact .active hhandler (hpci.trans (hcard.pciHandlers_of_vicSet hvic))

/-- The calls that meet the condition lead from settled states to settled states. -/
theorem Settled.step {fmc : F} {card : SpecCard H F} {e : IrqEvent H} (h : Settled card)
    (hkept : InitKept card e) : Settled (step fmc card e) := by
  cases e with
  | request o irq handler => exact (requestOutcome o fmc irq handler card).settled h hkept
  | free irq => exact h.free irq

/-- **One call.** From a settled state a call is atomic exactly when it meets the condition. -/
theorem Settled.atomic_iff {fmc : F} {card : SpecCard H F} {e : IrqEvent H} (h : Settled card) :
    Atomic fmc card e ↔ InitKept card e := by
  cases e with
  | free irq => exact iff_of_true ⟨(h.free irq).coherent, trivial⟩ trivial
  | request o irq handler =>
    have hout := requestOutcome o fmc irq handler card
    constructor
    · rintro ⟨hcoherent, -⟩ hnone hinit
      change Coherent (specIrqRequest o fmc irq handler false card).2 at hcoherent
      generalize specIrqRequest o fmc irq handler false card = r at hout hcoherent
      cases hout with
      | refused _ hnot => exact absurd hinit (hnot hnone)
      | noVector _ _ _ _ hvic hno => exact absurd (hcoherent.hasHandler.mp hvic) hno
      | noIrq _ _ _ _ hhandler hpci =>
        have hmaster := hcoherent.master.mp hhandler.vicSet
        rw [MasterInstalled, hpci, h.pciHandlers_of_none hnone] at hmaster
        exact absurd hmaster List.not_mem_nil
      | first _ _ hid hirq => exact ⟨hid, hirq⟩
      | later _ hvic => exact absurd hvic (not_vicSet hnone)
    · intro hkept
      have hsettled := hout.settled h hkept
      refine ⟨hsettled.coherent, ?_⟩
      dsimp only
      generalize specIrqRequest o fmc irq handler false card = r at hout hsettled
      cases hout with
      | refused hrv => exact ⟨fun _ => .refl card, fun h0 => absurd h0 hrv⟩
      | noVector _ hnone hinit hid =>
        obtain ⟨⟨i, hi⟩, -⟩ := hkept hnone hinit
        exact absurd hi (hid i)
      | noIrq _ hnone hinit hirq => exact absurd (hkept hnone hinit).2 hirq
      | first hrv _ _ _ hhandler =>
        exact ⟨fun hne => absurd hrv hne, fun _ => hsettled.coherent.master.mp hhandler.vicSet⟩
      | later hrv _ hhandler =>
        exact ⟨fun hne => absurd hrv hne, fun _ => hsettled.coherent.master.mp hhandler.vicSet⟩

/-! ### Runs of calls -/

/-- A card without a controller and without handlers of its PCI interrupt, as after its creation.
The array `spec_vic_gpio_cfg` may have been used for another card before. -/
def SpecCard.fresh (regs : VicRegs) (gennum : Gennum) (irqsRequested : Bool)
    (vicGpioCfg : List FmcGpio) : SpecCard H F :=
  ⟨⟨none, regs⟩, gennum, [], irqsRequested, vicGpioCfg⟩

theorem settled_fresh (regs : VicRegs) (gennum : Gennum) (irqsRequested : Bool)
    (vicGpioCfg : List FmcGpio) :
    Settled (.fresh regs gennum irqsRequested vicGpioCfg : SpecCard H F) := .idle rfl rfl

/-- **The controller and the PCI handler.** Along a run of requests and frees from a fresh card,
every call is atomic exactly when no request creates the controller and then fails. -/
theorem coherent_along_iff (fmc : F) (regs : VicRegs) (gennum : Gennum) (irqsRequested : Bool)
    (vicGpioCfg : List FmcGpio) (es : List (IrqEvent H)) :
    Along (step fmc) (Atomic fmc) (.fresh regs gennum irqsRequested vicGpioCfg) es ↔
      Along (step fmc) InitKept (.fresh regs gennum irqsRequested vicGpioCfg) es :=
  along_iff_along (settled_fresh regs gennum irqsRequested vicGpioCfg)
    (fun _ _ h hkept => h.step hkept) (fun _ _ h => h.atomic_iff) es

/-- The first request is for the id 1, on a card whose RAM holds the id 0 on all lines. -/
theorem not_forall_coherent : ¬ ∀ es : List (IrqEvent Unit),
    Along (step ()) (Atomic ()) (.fresh ⟨fun _ => 0, 0, 0⟩ ⟨0, 0, 0, 0, 0, 0, 0, 0, 0⟩ false
      specVicGpioCfg) es := by
  intro h
  have hatomic := (h [.request ⟨⟨0, true⟩, 0, false⟩ 1 ()]).1
  obtain ⟨⟨i, hi⟩, -⟩ := (settled_fresh _ _ _ _).atomic_iff.mp hatomic rfl ⟨le_refl 0, rfl⟩
  have hne : (0#32).signExtend 64 ≠ 1#64 := by decide
  exact hne hi

end SpecSw.Carrier
