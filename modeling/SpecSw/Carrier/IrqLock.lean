import SpecSw.Library.Settle
import SpecSw.Vic.Controller

/-!
# `irq_lock`

`spec_irq_request` and `spec_irq_free` hold `irq_lock` while they change the VIC and its table, and
`spec_vic_irq_handler` holds it while it runs. So the handler never runs while the controller goes
away. But `spec_irq_free` also holds the lock when it removes the handler by `free_irq`, which waits
for the handler to return, and neither function disables interrupts while it holds the lock, so the
handler can interrupt them on their own CPU and wait for a lock that cannot be released.

A call is a process, whose accesses are made one by one, and so is the handler. It runs either on
the CPU of the call, which then cannot go on, or on another one. The calls for a card are made one
after the other.

A state is *doomed* when the handler waits for the lock, and the call that has it is interrupted by
the handler or about to wait for it. These are exactly the states from which the two cannot both
come to an end (`exists_finished_iff`).

## Main definitions

* `Carrier.IrqLock`, `Carrier.LockEvent`, `Carrier.IrqLock.step`.
* `Carrier.IrqLock.Doomed`, `Carrier.KeptApart`.

## Main results

* `Carrier.LockInv.step`, `Carrier.IrqLock.exists_finished_iff`, `Carrier.finishes_throughout_iff`.
-/

namespace SpecSw.Carrier

open EventRun Vic

variable {H F : Type*}

/-! ### The two parties -/

/-- Where a call of `spec_irq_request` in VIC mode, or of `spec_irq_free`, is: each case names the
next thing it does. `requestIrq` tells whether `request_irq` will succeed. -/
inductive CallAt (H : Type*)
  | idle
  | requestLock (o : InitCalls) (irq : BitVec 64) (handler : H) (requestIrq : Bool)
  | requestVic (o : InitCalls) (irq : BitVec 64) (handler : H) (requestIrq : Bool)
  | requestUnlock (firstTime : Bool) (rv : ℤ) (requestIrq : Bool)
  | requestShared (firstTime : Bool) (rv : ℤ) (requestIrq : Bool)
  | freeLock (irq : BitVec 64)
  | freeVic (irq : BitVec 64)
  | freeShared
  | freeUnlock

/-- Where `spec_vic_irq_handler` is. -/
inductive HandlerAt
  | away
  | lock
  | dispatch
  | sharedAck
  | vicAck
  | unlock
  deriving DecidableEq

/-- The call has the lock. -/
def CallAt.holds : CallAt H → Bool
  | requestVic .. => true
  | requestUnlock .. => true
  | freeVic _ => true
  | freeShared => true
  | freeUnlock => true
  | _ => false

/-- The handler has the lock. -/
def HandlerAt.holds : HandlerAt → Bool
  | away => false
  | lock => false
  | _ => true

/-- The controller with its registers, whether `spec_vic_irq_handler` is installed on the PCI
interrupt, whether the lock is taken, the call and the handler, whether the handler runs on the CPU
of the call, and whether `spec->vic` has been dereferenced while it was `NULL`. -/
structure IrqLock (H F : Type*) where
  dev : Vic.SpecDev H F
  installed : Bool
  locked : Bool
  call : CallAt H
  handler : HandlerAt
  sameCpu : Bool
  crashed : Bool

/-- What can happen: a call begins; the PCI interrupt arrives; the call, or the handler, makes its
next access. -/
inductive LockEvent (H : Type*)
  | request (o : InitCalls) (irq : BitVec 64) (handler : H) (requestIrq : Bool)
  | free (irq : BitVec 64)
  | interrupt (sameCpu : Bool)
  | call
  | handler

namespace IrqLock

/-- The VIC after `spec_vic_irq_free`, if there is one. -/
def freed (irq : BitVec 64) (dev : Vic.SpecDev H F) : Vic.SpecDev H F :=
  (specVicIrqFree irq dev).getD dev

/-- The next access of the call. `free_irq` waits for the handler to return. -/
def callStep (fmc : F) (s : IrqLock H F) : IrqLock H F :=
  match s.call with
  | .idle => s
  | .requestLock o irq handler requestIrq =>
    if s.locked then s else { s with locked := true, call := .requestVic o irq handler requestIrq }
  | .requestVic o irq handler requestIrq =>
    let r := specVicIrqRequest o fmc irq handler s.dev
    { s with dev := r.2, call := .requestUnlock s.dev.vic.isNone r.1 requestIrq }
  | .requestUnlock firstTime rv requestIrq =>
    { s with locked := false, call := .requestShared firstTime rv requestIrq }
  | .requestShared firstTime rv requestIrq =>
    { s with installed := s.installed || (rv == 0 && firstTime && requestIrq), call := .idle }
  | .freeLock irq => if s.locked then s else { s with locked := true, call := .freeVic irq }
  | .freeVic irq => { s with dev := freed irq s.dev, call := .freeShared }
  | .freeShared =>
    if s.dev.vic.isSome then { s with call := .freeUnlock }
    else if s.handler = .away then { s with installed := false, call := .freeUnlock }
    else s
  | .freeUnlock => { s with locked := false, call := .idle }

/-- The next access of the handler. What it dispatches to changes nothing here. -/
def handlerStep (s : IrqLock H F) : IrqLock H F :=
  match s.handler with
  | .away => s
  | .lock => if s.locked then s else { s with locked := true, handler := .dispatch }
  | .dispatch => { s with handler := .sharedAck }
  | .sharedAck => { s with handler := .vicAck }
  | .vicAck => { s with crashed := s.crashed || s.dev.vic.isNone, handler := .unlock }
  | .unlock => { s with locked := false, handler := .away }

/-- A call begins when there is none. -/
def begin (s : IrqLock H F) (c : CallAt H) : IrqLock H F :=
  match s.call with
  | .idle => { s with call := c }
  | _ => s

/-- Each event. A call that the handler has interrupted does not go on. -/
def step (fmc : F) (s : IrqLock H F) : LockEvent H → IrqLock H F
  | .request o irq handler requestIrq => s.begin (.requestLock o irq handler requestIrq)
  | .free irq => s.begin (.freeLock irq)
  | .interrupt sameCpu =>
    if s.installed ∧ s.handler = .away then { s with handler := .lock, sameCpu := sameCpu } else s
  | .call => if s.handler ≠ .away ∧ s.sameCpu then s else s.callStep fmc
  | .handler => s.handlerStep

/-- A card without a controller. -/
def start (regs : VicRegs) : IrqLock H F :=
  ⟨⟨none, regs⟩, false, false, .idle, .away, false, false⟩

/-- No call and no handler is under way. -/
structure Finished (s : IrqLock H F) : Prop where
  call : s.call = .idle
  handler : s.handler = .away

/-- The call is about to wait for the handler. -/
def Awaits (s : IrqLock H F) : Prop :=
  (∃ irq, s.call = .freeVic irq ∧ (freed irq s.dev).vic = none) ∨
    s.call = .freeShared ∧ s.dev.vic = none

/-- The handler waits for the lock, and the call that has it is interrupted by the handler or about
to wait for it. -/
structure Doomed (s : IrqLock H F) : Prop where
  handler : s.handler = .lock
  holds : s.call.holds = true
  blocked : s.sameCpu = true ∨ s.Awaits

end IrqLock

/-! ### What the lock is for -/

/-- The lock is taken by at most one party, and the handler is installed only while there is a
controller, but in the last free. -/
structure LockInv (s : IrqLock H F) : Prop where
  locked : s.locked = (s.call.holds || s.handler.holds)
  exclusive : s.call.holds = true → s.handler.holds = false
  installed : s.handler ≠ .away → s.installed = true
  vic : s.installed = true → s.dev.vic = none → s.call = .freeShared
  request : ∀ firstTime requestIrq, s.call = .requestUnlock firstTime 0 requestIrq ∨
    s.call = .requestShared firstTime 0 requestIrq → s.dev.vic ≠ none
  crashed : s.crashed = false

/-- A request that succeeds, or that finds a controller, leaves one. -/
theorem vic_specVicIrqRequest {o : InitCalls} {fmc : F} {irq : BitVec 64} {handler : H}
    {dev : Vic.SpecDev H F}
    (h : dev.vic ≠ none ∨ (specVicIrqRequest o fmc irq handler dev).1 = 0) :
    (specVicIrqRequest o fmc irq handler dev).2.vic ≠ none := by
  obtain ⟨hrv, hsame, -⟩ | ⟨-, -, -, -, vic, hvic, -⟩ | ⟨-, ⟨vic, hvic, -⟩, -⟩ :=
    specVicIrqRequest_cases o fmc irq handler dev
  · rw [hsame]
    exact h.resolve_right hrv
  · simp [hvic]
  · simp [hvic]

namespace LockInv

variable {s : IrqLock H F} {fmc : F}

theorem start (regs : VicRegs) : LockInv (.start regs : IrqLock H F) :=
  ⟨rfl, fun h => absurd h (by simp [IrqLock.start, CallAt.holds]), fun h => absurd rfl h,
    fun h => absurd h (by simp [IrqLock.start]),
    fun _ _ h => by simp [IrqLock.start] at h, rfl⟩

theorem callStep (h : LockInv s) (fmc : F) : LockInv (s.callStep fmc) := by
  obtain ⟨dev, installed, locked, call, handler, sameCpu, crashed⟩ := s
  obtain ⟨hlocked, hexclusive, hinstalled, hvic, hrequest, hcrashed⟩ := h
  simp only at hlocked hexclusive hinstalled hvic hrequest hcrashed
  cases call with
  | idle => exact ⟨hlocked, hexclusive, hinstalled, hvic, hrequest, hcrashed⟩
  | requestLock o irq handler' requestIrq =>
    simp only [IrqLock.callStep]
    split_ifs with hfree
    · exact ⟨hlocked, hexclusive, hinstalled, hvic, hrequest, hcrashed⟩
    · have haway : handler.holds = false := by simpa [hlocked, CallAt.holds] using hfree
      exact ⟨rfl, fun _ => haway, hinstalled, fun hi hn => by simpa using hvic hi hn,
        fun _ _ h => by simp at h, hcrashed⟩
  | requestVic o irq handler' requestIrq =>
    simp only [IrqLock.callStep]
    refine ⟨hlocked, hexclusive, hinstalled, fun hi hn => ?_, fun firstTime ok hat => ?_, hcrashed⟩
    · exact absurd hn (vic_specVicIrqRequest (.inl fun hnone => by simpa using hvic hi hnone))
    · refine vic_specVicIrqRequest (.inr ?_)
      simp only [CallAt.requestUnlock.injEq, reduceCtorEq, or_false] at hat
      exact hat.2.1
  | requestUnlock firstTime rv requestIrq =>
    have haway : handler.holds = false := hexclusive rfl
    simp only [IrqLock.callStep]
    refine ⟨by simp [CallAt.holds, haway], fun h => absurd h (by simp [CallAt.holds]), hinstalled,
      fun hi hn => by simpa using hvic hi hn, fun first ok hat => ?_, hcrashed⟩
    simp only [reduceCtorEq, CallAt.requestShared.injEq, false_or] at hat
    exact hrequest first ok (.inl (by simp [hat.1, hat.2.1, hat.2.2]))
  | requestShared firstTime rv requestIrq =>
    simp only [IrqLock.callStep]
    refine ⟨hlocked, fun h => absurd h (by simp [CallAt.holds]), fun hat => ?_, fun hi hn => ?_,
      fun _ _ h => by simp at h, hcrashed⟩
    · simp [hinstalled hat]
    · simp only [Bool.or_eq_true, Bool.and_eq_true, beq_iff_eq] at hi
      rcases hi with hi | ⟨⟨rfl, -⟩, -⟩
      · simpa using hvic hi hn
      · exact absurd hn (hrequest firstTime requestIrq (.inr rfl))
  | freeLock irq =>
    simp only [IrqLock.callStep]
    split_ifs with hfree
    · exact ⟨hlocked, hexclusive, hinstalled, hvic, hrequest, hcrashed⟩
    · have haway : handler.holds = false := by simpa [hlocked, CallAt.holds] using hfree
      exact ⟨rfl, fun _ => haway, hinstalled, fun hi hn => by simpa using hvic hi hn,
        fun _ _ h => by simp at h, hcrashed⟩
  | freeVic irq =>
    simp only [IrqLock.callStep]
    exact ⟨hlocked, hexclusive, hinstalled, fun _ _ => rfl, fun _ _ h => by simp at h, hcrashed⟩
  | freeShared =>
    simp only [IrqLock.callStep]
    split_ifs with hsome haway
    · exact ⟨hlocked, hexclusive, hinstalled, fun _ hn => by rw [hn] at hsome; simp at hsome,
        fun _ _ h => by simp at h, hcrashed⟩
    · exact ⟨hlocked, hexclusive, fun h => absurd haway h, fun h => absurd h (by simp),
        fun _ _ h => by simp at h, hcrashed⟩
    · exact ⟨hlocked, hexclusive, hinstalled, hvic, hrequest, hcrashed⟩
  | freeUnlock =>
    have haway : handler.holds = false := hexclusive rfl
    simp only [IrqLock.callStep]
    exact ⟨by simp [CallAt.holds, haway], fun h => absurd h (by simp [CallAt.holds]), hinstalled,
      fun hi hn => by simpa using hvic hi hn, fun _ _ h => by simp at h, hcrashed⟩

/-- While the handler has the lock there is a controller. -/
theorem vic_of_holds (h : LockInv s) (hholds : s.handler.holds = true) : s.dev.vic ≠ none := by
  intro hnone
  have hne : s.handler ≠ .away := by
    intro haway
    rw [haway] at hholds
    exact absurd hholds (by decide)
  have hcall := h.vic (h.installed hne) hnone
  have hfalse := h.exclusive (by rw [hcall]; rfl)
  exact absurd (hfalse.symm.trans hholds) Bool.false_ne_true

theorem handlerStep (h : LockInv s) : LockInv s.handlerStep := by
  have hvic := h.vic_of_holds
  obtain ⟨dev, installed, locked, call, handler, sameCpu, crashed⟩ := s
  obtain ⟨hlocked, hexclusive, hinstalled, hvicNone, hrequest, hcrashed⟩ := h
  simp only at hlocked hexclusive hinstalled hvicNone hrequest hcrashed hvic
  have hcall : handler.holds = true → call.holds = false := fun hholds => by
    by_contra hne
    exact absurd ((hexclusive (by simpa using hne)).symm.trans hholds) Bool.false_ne_true
  cases handler with
  | away => exact ⟨hlocked, hexclusive, hinstalled, hvicNone, hrequest, hcrashed⟩
  | lock =>
    simp only [IrqLock.handlerStep]
    split_ifs with hfree
    · exact ⟨hlocked, hexclusive, hinstalled, hvicNone, hrequest, hcrashed⟩
    · have hno : call.holds = false := by simpa [hlocked, HandlerAt.holds] using hfree
      exact ⟨by simp [HandlerAt.holds], fun h => by simp [hno] at h,
        fun _ => hinstalled (by decide), hvicNone, hrequest, hcrashed⟩
  | dispatch => exact ⟨hlocked, hexclusive, fun _ => hinstalled (by decide), hvicNone, hrequest,
      hcrashed⟩
  | sharedAck => exact ⟨hlocked, hexclusive, fun _ => hinstalled (by decide), hvicNone, hrequest,
      hcrashed⟩
  | vicAck =>
    refine ⟨hlocked, hexclusive, fun _ => hinstalled (by decide), hvicNone, hrequest, ?_⟩
    simp only [IrqLock.handlerStep, hcrashed, Bool.false_or, Option.isNone_eq_false_iff,
      Option.isSome_iff_ne_none]
    exact hvic rfl
  | unlock =>
    simp only [IrqLock.handlerStep]
    exact ⟨by simp [hcall rfl, HandlerAt.holds], fun _ => rfl, fun h => absurd rfl h, hvicNone,
      hrequest, hcrashed⟩

theorem begin (h : LockInv s) {c : CallAt H} (hholds : c.holds = false)
    (hc : ∀ firstTime rv requestIrq, c ≠ .requestUnlock firstTime rv requestIrq ∧
      c ≠ .requestShared firstTime rv requestIrq) : LockInv (s.begin c) := by
  simp only [IrqLock.begin]
  split
  · rename_i hcall
    refine ⟨?_, fun h => by simp [hholds] at h, h.installed, fun hi hn => ?_, fun f ok hat => ?_,
      h.crashed⟩
    · have hlocked := h.locked
      rw [hcall] at hlocked
      rw [hholds]
      exact hlocked
    · exact absurd ((hcall.symm.trans (h.vic hi hn))) (by simp)
    · exact hat.elim (fun hat => absurd hat (hc f 0 ok).1) fun hat => absurd hat (hc f 0 ok).2
  · exact h

theorem step (h : LockInv s) (e : LockEvent H) : LockInv (s.step fmc e) := by
  cases e with
  | request o irq handler requestIrq => exact h.begin rfl fun _ _ _ => ⟨by simp, by simp⟩
  | free irq => exact h.begin rfl fun _ _ _ => ⟨by simp, by simp⟩
  | interrupt sameCpu =>
    simp only [IrqLock.step]
    split_ifs with hcond
    · have hlocked := h.locked
      rw [hcond.2] at hlocked
      exact ⟨hlocked, fun _ => rfl, fun _ => hcond.1, h.vic, h.request, h.crashed⟩
    · exact h
  | call =>
    simp only [IrqLock.step]
    split_ifs
    · exact h
    · exact h.callStep fmc
  | handler => exact h.handlerStep

end LockInv

theorem lockInv_run (fmc : F) (regs : VicRegs) (es : List (LockEvent H)) :
    LockInv (run (IrqLock.step fmc) (.start regs : IrqLock H F) es) :=
  run_invariant (I := fun _ s => LockInv s) (.start regs) (fun _ _ e h => h.step e) es

/-! ### The price -/

/-- The handler is not called on the CPU of a call that has the lock, nor on any CPU when that call
is about to wait for it, and the last free does not take the lock while the handler waits for it. -/
def KeptApart (s : IrqLock H F) : LockEvent H → Prop
  | .interrupt sameCpu => s.installed = true → s.handler = .away → s.call.holds = true →
      sameCpu = false ∧ ¬ s.Awaits
  | .call => ∀ irq, s.call = .freeLock irq → s.handler = .lock → s.sameCpu = false →
      (IrqLock.freed irq s.dev).vic ≠ none
  | _ => True

namespace IrqLock

variable {s : IrqLock H F} {fmc : F}

@[simp] theorem callStep_handler (s : IrqLock H F) (fmc : F) :
    (s.callStep fmc).handler = s.handler ∧ (s.callStep fmc).sameCpu = s.sameCpu := by
  simp only [callStep]
  split
  case h_8 => split_ifs <;> exact ⟨rfl, rfl⟩
  all_goals first | exact ⟨rfl, rfl⟩ | (split_ifs <;> exact ⟨rfl, rfl⟩)

theorem begin_of_holds (h : s.call.holds = true) (c : CallAt H) : s.begin c = s := by
  simp only [begin]
  split
  · rename_i hcall
    rw [hcall] at h
    exact absurd h Bool.false_ne_true
  · rfl

/-- A doomed state stays doomed. -/
theorem Doomed.step (h : s.Doomed) (hinv : LockInv s) (e : LockEvent H) :
    (s.step fmc e).Doomed := by
  have hlock : s.locked = true := by rw [hinv.locked, h.holds, Bool.true_or]
  have hnear : s.handler ≠ .away := by simp [h.handler]
  cases e with
  | request o irq handler requestIrq => rwa [IrqLock.step, begin_of_holds h.holds]
  | free irq => rwa [IrqLock.step, begin_of_holds h.holds]
  | interrupt sameCpu => rwa [IrqLock.step, if_neg fun hcond => hnear hcond.2]
  | handler =>
    have hsame : s.handlerStep = s := by simp only [handlerStep, h.handler, hlock, if_true]
    rwa [IrqLock.step, hsame]
  | call =>
    simp only [IrqLock.step]
    split_ifs with hcond
    · exact h
    · obtain ⟨irq, hcall, hnone⟩ | ⟨hcall, hnone⟩ :=
        h.blocked.resolve_left fun hsame => hcond ⟨hnear, hsame⟩
      · have hstep : s.callStep fmc = { s with dev := freed irq s.dev, call := .freeShared } := by
          simp only [callStep, hcall]
        rw [hstep]
        exact ⟨h.handler, rfl, .inr (.inr ⟨rfl, hnone⟩)⟩
      · have hstep : s.callStep fmc = s := by
          simp only [callStep, hcall, hnone, Option.isSome_none, Bool.false_eq_true, if_false,
            hnear]
        rwa [hstep]

theorem Doomed.run (h : s.Doomed) (hinv : LockInv s) (es : List (LockEvent H)) :
    (EventRun.run (IrqLock.step fmc) s es).Doomed := by
  induction es generalizing s with
  | nil => exact h
  | cons e es ih => exact ih (h.step hinv e) (hinv.step e)

/-- A call that goes on beside a handler that waits for the lock gets stuck only if it was about to
wait for the handler, or if it is the last free and takes the lock. -/
theorem not_doomed_callStep (h : ¬ s.Doomed) (hfree : ∀ irq, s.call = .freeLock irq →
    s.handler = .lock → s.sameCpu = false → (freed irq s.dev).vic ≠ none)
    (hgoes : ¬ (s.handler ≠ .away ∧ s.sameCpu = true)) : ¬ (s.callStep fmc).Doomed := by
  intro hdoomed
  obtain ⟨hhandler, hsame⟩ := callStep_handler s fmc
  have hlock : s.handler = .lock := hhandler.symm.trans hdoomed.handler
  have hother : s.sameCpu = false := by
    by_contra hne
    exact hgoes ⟨by simp [hlock], by simpa using hne⟩
  have hawaits := hdoomed.blocked.resolve_left fun htrue =>
    absurd ((hother.symm.trans hsame.symm).trans htrue) Bool.false_ne_true
  have hno : ¬ (s.call.holds = true ∧ s.Awaits) := fun hboth =>
    h ⟨hlock, hboth.1, .inr hboth.2⟩
  cases hcall : s.call with
  | idle =>
    simp only [callStep, hcall] at hawaits
    rcases hawaits with ⟨irq, hat, -⟩ | ⟨hat, -⟩ <;> simp [hcall] at hat
  | requestLock o irq handler requestIrq =>
    simp only [callStep, hcall] at hawaits
    split_ifs at hawaits <;> rcases hawaits with ⟨irq, hat, -⟩ | ⟨hat, -⟩ <;> simp_all
  | requestVic o irq handler requestIrq =>
    simp only [callStep, hcall] at hawaits
    rcases hawaits with ⟨irq, hat, -⟩ | ⟨hat, -⟩ <;> simp at hat
  | requestUnlock firstTime rv requestIrq =>
    simp only [callStep, hcall] at hawaits
    rcases hawaits with ⟨irq, hat, -⟩ | ⟨hat, -⟩ <;> simp at hat
  | requestShared firstTime rv requestIrq =>
    simp only [callStep, hcall] at hawaits
    rcases hawaits with ⟨irq, hat, -⟩ | ⟨hat, -⟩ <;> simp at hat
  | freeLock irq =>
    have hsome := hfree irq hcall hlock hother
    simp only [callStep, hcall] at hawaits
    split_ifs at hawaits
    · rcases hawaits with ⟨irq', hat, -⟩ | ⟨hat, -⟩ <;> simp [hcall] at hat
    · rcases hawaits with ⟨irq', hat, hnone⟩ | ⟨hat, -⟩
      · obtain rfl := CallAt.freeVic.inj hat
        exact hsome hnone
      · simp at hat
  | freeVic irq =>
    simp only [callStep, hcall] at hawaits
    rcases hawaits with ⟨irq', hat, -⟩ | ⟨-, hnone⟩
    · simp at hat
    · exact hno ⟨by rw [hcall]; rfl, .inl ⟨irq, hcall, hnone⟩⟩
  | freeShared =>
    cases hvic : s.dev.vic with
    | none => exact hno ⟨by rw [hcall]; rfl, .inr ⟨hcall, hvic⟩⟩
    | some vic =>
      simp only [callStep, hcall, hvic, Option.isSome_some, if_true] at hawaits
      rcases hawaits with ⟨irq, hat, -⟩ | ⟨hat, -⟩ <;> simp at hat
  | freeUnlock =>
    simp only [callStep, hcall] at hawaits
    rcases hawaits with ⟨irq, hat, -⟩ | ⟨hat, -⟩ <;> simp at hat

/-! ### Coming to an end -/

end IrqLock

/-- How many accesses the call has left. -/
def CallAt.work : CallAt H → ℕ
  | idle => 0
  | requestLock .. => 4
  | requestVic .. => 3
  | requestUnlock .. => 2
  | requestShared .. => 1
  | freeLock _ => 4
  | freeVic _ => 3
  | freeShared => 2
  | freeUnlock => 1

/-- How many accesses the handler has left. -/
def HandlerAt.work : HandlerAt → ℕ
  | away => 0
  | lock => 5
  | dispatch => 4
  | sharedAck => 3
  | vicAck => 2
  | unlock => 1

namespace IrqLock

variable {s : IrqLock H F} {fmc : F}

/-- How many accesses the two have left. -/
def work (s : IrqLock H F) : ℕ := s.call.work + s.handler.work

/-- The call or the handler makes an access that brings it forward, and the two are not stuck. -/
structure Goes (fmc : F) (s : IrqLock H F) (e : LockEvent H) : Prop where
  access : e = .call ∨ e = .handler
  forward : (s.step fmc e).work < s.work
  free : ¬ (s.step fmc e).Doomed

/-- A call goes forward when the lock is free, or it has it and does not wait for the handler. -/
theorem work_callStep (hcall : s.call ≠ .idle) (hfree : s.call.holds = false → s.locked = false)
    (haway : s.call = .freeShared → s.dev.vic = none → s.handler = .away) :
    (s.callStep fmc).work < s.work := by
  obtain ⟨dev, installed, locked, call, handler, sameCpu, crashed⟩ := s
  cases call with
  | idle => exact absurd rfl hcall
  | requestLock o irq handler' requestIrq =>
    obtain rfl : locked = false := hfree rfl
    simp [callStep, work, CallAt.work]
  | freeLock irq =>
    obtain rfl : locked = false := hfree rfl
    simp [callStep, work, CallAt.work]
  | freeShared =>
    simp only [callStep]
    split_ifs with hsome hat
    · simp [work, CallAt.work]
    · simp [work, CallAt.work]
    · exact absurd (haway rfl (by simpa using hsome)) hat
  | _ => simp [callStep, work, CallAt.work]

/-- The handler goes forward when it does not wait for the lock. -/
theorem work_handlerStep (hnear : s.handler ≠ .away)
    (hfree : s.handler = .lock → s.locked = false) :
    s.handlerStep.work < s.work ∧ s.handlerStep.handler ≠ .lock := by
  obtain ⟨dev, installed, locked, call, handler, sameCpu, crashed⟩ := s
  cases handler with
  | away => exact absurd rfl hnear
  | lock =>
    obtain rfl : locked = false := hfree rfl
    simp [handlerStep, work, HandlerAt.work]
  | _ => simp [handlerStep, work, HandlerAt.work]

/-- Beside a handler that waits for the lock, the call that has it goes on. -/
theorem goes_call_of_locked (h : ¬ s.Doomed) (hhandler : s.handler = .lock)
    (hholds : s.call.holds = true) : Goes fmc s .call := by
  have hother : s.sameCpu = false := by
    by_contra hne
    exact h ⟨hhandler, hholds, .inl (by simpa using hne)⟩
  have hstep : s.step fmc .call = s.callStep fmc := if_neg (by simp [hother])
  refine ⟨.inl rfl, ?_, ?_⟩ <;> rw [hstep]
  · refine work_callStep (fun hidle => ?_) (fun hno => ?_) fun hat hnone => ?_
    · exact absurd hholds (by simp [hidle, CallAt.holds])
    · exact absurd (hno.symm.trans hholds) Bool.false_ne_true
    · exact absurd ⟨hhandler, hholds, .inr (.inr ⟨hat, hnone⟩)⟩ h
  · refine not_doomed_callStep h (fun irq hat => ?_) (by simp [hother])
    exact absurd hholds (by simp [hat, CallAt.holds])

/-- Alone, the call goes on. -/
theorem goes_call_of_away (hinv : LockInv s) (hhandler : s.handler = .away)
    (hcall : s.call ≠ .idle) : Goes fmc s .call := by
  have hstep : s.step fmc .call = s.callStep fmc := if_neg (by simp [hhandler])
  refine ⟨.inl rfl, ?_, ?_⟩ <;> rw [hstep]
  · refine work_callStep hcall (fun hno => ?_) fun _ _ => hhandler
    rw [hinv.locked, hno, hhandler]
    rfl
  · intro hdoomed
    have hlock := (callStep_handler s fmc).1.symm.trans hdoomed.handler
    exact absurd (hhandler.symm.trans hlock) (by simp)

/-- A handler that does not wait for the lock goes on. -/
theorem goes_handler (hnear : s.handler ≠ .away) (hfree : s.handler = .lock → s.locked = false) :
    Goes fmc s .handler := by
  obtain ⟨hwork, hnot⟩ := work_handlerStep hnear hfree
  exact ⟨.inr rfl, hwork, fun hdoomed => hnot hdoomed.handler⟩

theorem lowers_work (fmc : F) : Lowers (step fmc)
    (fun s : IrqLock H F => LockInv s ∧ ¬ s.Doomed) (Goes fmc) work :=
  fun _ e hs he => ⟨⟨hs.1.step e, he.free⟩, he.forward⟩

/-- While the two are not stuck, one of them goes on, or both are at their end. -/
theorem live_goes (fmc : F) : Live (fun s : IrqLock H F => LockInv s ∧ ¬ s.Doomed) (Goes fmc)
    Finished := by
  rintro s ⟨hinv, hdoomed⟩
  by_cases haway : s.handler = .away
  · by_cases hidle : s.call = .idle
    · exact .inl ⟨hidle, haway⟩
    · exact .inr ⟨.call, goes_call_of_away hinv haway hidle⟩
  · right
    by_cases hlock : s.handler = .lock ∧ s.call.holds = true
    · exact ⟨.call, goes_call_of_locked hdoomed hlock.1 hlock.2⟩
    · refine ⟨.handler, goes_handler haway fun hat => ?_⟩
      have hno : s.call.holds = false := by simpa using fun hholds => hlock ⟨hat, hholds⟩
      rw [hinv.locked, hno, hat]
      rfl

/-- The call and the handler can both come to an end exactly when they are not stuck. -/
theorem exists_finished_iff (hinv : LockInv s) (fmc : F) :
    (∃ es, Finished (EventRun.run (step fmc) s es)) ↔ ¬ s.Doomed := by
  constructor
  · rintro ⟨es, hfinished⟩ hdoomed
    have hstuck : (EventRun.run (step fmc) s es).Doomed := hdoomed.run hinv es
    exact absurd (hfinished.handler.symm.trans hstuck.handler) (by simp)
  · intro hdoomed
    obtain ⟨es, -, hfinished⟩ := exists_run_of_live (lowers_work fmc) (live_goes fmc)
      ⟨hinv, hdoomed⟩
    exact ⟨es, hfinished⟩

/-- A call that begins has yet to take the lock. -/
theorem not_doomed_begin (h : ¬ s.Doomed) {c : CallAt H} (hc : c.holds = false) :
    ¬ (s.begin c).Doomed := by
  simp only [begin]
  split
  · exact fun hdoomed => Bool.false_ne_true (hc.symm.trans hdoomed.holds)
  · exact h

theorem not_doomed_handlerStep (h : ¬ s.Doomed) : ¬ s.handlerStep.Doomed := by
  intro hdoomed
  by_cases hstay : s.handlerStep = s
  · exact h (hstay ▸ hdoomed)
  · have hnear : s.handler ≠ .away := fun haway => hstay (by simp only [handlerStep, haway])
    refine (work_handlerStep hnear fun hlock => ?_).2 hdoomed.handler
    by_contra htaken
    exact hstay (by simp only [handlerStep, hlock, htaken, if_true])

/-- A step that keeps the two apart does not get them stuck. -/
theorem not_doomed_step (h : ¬ s.Doomed) {e : LockEvent H} (he : KeptApart s e) :
    ¬ (s.step fmc e).Doomed := by
  cases e with
  | request o irq handler requestIrq => exact not_doomed_begin h rfl
  | free irq => exact not_doomed_begin h rfl
  | interrupt sameCpu =>
    simp only [step]
    split_ifs with hcond
    · intro hdoomed
      obtain ⟨hother, hawaits⟩ := he hcond.1 hcond.2 hdoomed.holds
      exact hdoomed.blocked.elim (fun hsame => Bool.false_ne_true (hother.symm.trans hsame)) hawaits
    · exact h
  | call =>
    simp only [step]
    split_ifs with hcond
    · exact h
    · exact not_doomed_callStep h he hcond
  | handler => exact not_doomed_handlerStep h

/-- A step that does not keep the two apart gets them stuck. -/
theorem doomed_step (hinv : LockInv s) {e : LockEvent H} (he : ¬ KeptApart s e) :
    (s.step fmc e).Doomed := by
  cases e with
  | request o irq handler requestIrq => exact absurd trivial he
  | free irq => exact absurd trivial he
  | handler => exact absurd trivial he
  | interrupt sameCpu =>
    simp only [KeptApart, Classical.not_imp, not_and_or, not_not] at he
    obtain ⟨hinstalled, haway, hholds, hblocked⟩ := he
    rw [step, if_pos ⟨hinstalled, haway⟩]
    exact ⟨rfl, hholds, hblocked.imp (by simp) id⟩
  | call =>
    simp only [KeptApart, not_forall, not_not] at he
    obtain ⟨irq, hcall, hlock, hother, hnone⟩ := he
    have hfree : s.locked = false := by
      rw [hinv.locked, hcall, hlock]
      rfl
    have hstep : s.step fmc .call = { s with locked := true, call := .freeVic irq } := by
      simp only [step, hother, Bool.false_eq_true, and_false, if_false, callStep, hcall, hfree]
    rw [hstep]
    exact ⟨hlock, rfl, .inr (.inl ⟨irq, rfl, hnone⟩)⟩

end IrqLock

/-- **The lock.** In every interleaving of a call of `spec_irq_request` or `spec_irq_free` with the
handler of the controller, on any CPUs, the handler finds the controller that it acknowledges. In
every state that the interleaving reaches, the call and the handler can both come to their end
exactly when all its steps keep the two apart. -/
theorem finishes_throughout_iff (fmc : F) (regs : VicRegs) (es : List (LockEvent H)) :
    let start : IrqLock H F := .start regs
    (run (IrqLock.step fmc) start es).crashed = false ∧
      (Throughout (IrqLock.step fmc)
          (fun s => ∃ es', IrqLock.Finished (run (IrqLock.step fmc) s es')) start es ↔
        Along (IrqLock.step fmc) KeptApart start es) := by
  refine ⟨(lockInv_run fmc regs es).crashed, ?_⟩
  have hstart : ¬ (IrqLock.start regs : IrqLock H F).Doomed := fun hdoomed =>
    Bool.false_ne_true hdoomed.holds
  refine throughout_iff_along (I := fun s => LockInv s ∧ ¬ s.Doomed) ⟨.start regs, hstart⟩
    ?_ ?_ ?_ es
  · rintro s ⟨hinv, hdoomed⟩
    exact (IrqLock.exists_finished_iff hinv fmc).mpr hdoomed
  · rintro s e ⟨hinv, hdoomed⟩ he
    exact ⟨hinv.step e, IrqLock.not_doomed_step hdoomed he⟩
  · rintro s e ⟨hinv, -⟩ he hfinishes
    exact (IrqLock.exists_finished_iff (hinv.step e) fmc).mp hfinishes (IrqLock.doomed_step hinv he)

end SpecSw.Carrier
