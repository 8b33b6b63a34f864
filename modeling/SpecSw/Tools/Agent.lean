import SpecSw.Library.LossyLink
import SpecSw.Tools.Ruler

/-!
# `wr-dio-agent` and the network

The agent takes each frame that is as long as its `struct frame` and has the type of the ruler, and
passes the command in it to the PRIV_MEZZANINE_CMD ioctl of its own card; if the ioctl fails, the
agent returns. Frames of anybody else that look the same are taken too.

`RulerNet` is the whole: the ruler with its card, the network, which keeps the order of the frames
of the ruler and may lose some, and the agent with its card. A turn of the ruler sends the frames of
its remote actions, which are the commands issued in that turn.

## Main definitions

* `Tools.RulerFrame`, `Tools.Agent`, `Tools.Agent.take`.
* `Tools.RulerNet`, `Tools.NetEvent`, `Tools.netStep`.

## Main results

* `Tools.netInOrder_run`, `Tools.netComplete_run`.
-/

namespace SpecSw.Tools

open Dio EventRun LossyLink

/-! ### The agent -/

/-- `RULER_PROTO`: WR. -/
def rulerProto : BitVec 16 := 0x5752

/-- `sizeof(struct frame)`: the header, the padding, and a command with 16 time stamps. -/
def sizeofRulerFrame : ℕ := 14 + 2 + (16 + 16 * 16)

/-- A frame: its length, the type in its header, and the command in it if it is long enough. -/
structure RulerFrame where
  len : ℕ
  etherType : BitVec 16
  cmd : WrDioCmd

/-- The frame that the ruler sends for a remote action. -/
def rulerFrame (x : Issue) : RulerFrame := ⟨sizeofRulerFrame, rulerProto, x.cmd⟩

/-- Where the agent is: in its loop, asleep in the driver with a command, or back from `main`. -/
inductive AgentControl
  | receiving
  | asleep (cmd : WrDioCmd)
  | returned

/-- The agent and its card. -/
structure Agent where
  drvdata : WrnDrvdata
  control : AgentControl

/-- What an ioctl of the agent depends on: whether the driver gets memory for the command, and the
time it reads. -/
structure AgentCall where
  kmalloc : Bool
  utc : UtcReads

/-- The agent tests whether the frame is one of the ruler. -/
def RulerFrame.passes (f : RulerFrame) : Bool :=
  f.len == sizeofRulerFrame && f.etherType == rulerProto

/-- What follows when the driver returns or sleeps. -/
def Agent.afterIoctl (a : Agent) (r : IoctlResult) : Agent :=
  match r.outcome with
  | .returns ret => ⟨r.drvdata, if ret < 0 then .returned else .receiving⟩
  | .sleeps _ => ⟨r.drvdata, r.cmd.elim a.control .asleep⟩

/-- A turn of the loop of the agent, with the frame it has received. -/
def Agent.take (a : Agent) (u : AgentCall) (f : RulerFrame) : Agent :=
  if f.passes then
    a.afterIoctl
      (wrnMezzanineIoctl privMezzanineCmd ⟨u.kmalloc, some f.cmd, true, u.utc⟩ a.drvdata)
  else a

/-! ### The network -/

/-- The ruler, the network and the agent. -/
structure RulerNet where
  ruler : Ruler
  link : Link RulerFrame
  agent : Agent

/-- What can happen: a turn of the ruler; somebody else sends a frame; a frame is lost; the agent
receives a frame; something happens on the card of the agent; the agent is woken up there. -/
inductive NetEvent
  | turn (e : RulerTurn)
  | foreign (f : RulerFrame)
  | lose (i : ℕ)
  | receive (u : AgentCall)
  | card (e : DioEvent)
  | wake

/-- The commands that a turn of the ruler issues. -/
def newIssues (inch : Fin 5) (actions : List RulerAction) (s : Ruler) (e : RulerTurn) :
    List Issue := (rulerTurn inch actions s e).issued.drop s.issued.length

/-- Each event. -/
def netStep (inch : Fin 5) (actions : List RulerAction) (s : RulerNet) : NetEvent → RulerNet
  | .turn e =>
    { s with
      ruler := rulerTurn inch actions s.ruler e
      link := s.link.send
        (((newIssues inch actions s.ruler e).filter Issue.isremote).map rulerFrame) }
  | .foreign f => { s with link := s.link.inject f }
  | .lose i => { s with link := s.link.lose i }
  | .receive u =>
    match s.agent.control, s.link.wire with
    | .receiving, m :: rest =>
      { s with link := s.link.receive m rest, agent := s.agent.take u m.payload }
    | _, _ => s
  | .card e => { s with agent := { s.agent with drvdata := step s.agent.drvdata e } }
  | .wake =>
    match s.agent.control with
    | .asleep cmd =>
      { s with agent := s.agent.afterIoctl (mezzanineResume false true s.agent.drvdata cmd) }
    | _ => s

/-- The programs before their main loops, on cards with the driver loaded. -/
def RulerNet.start (hw hw' : PowerOn) : RulerNet :=
  ⟨.start (wrnMezzanineInit hw), .empty, ⟨wrnMezzanineInit hw', .receiving⟩⟩

/-! ### Turns of the ruler -/

section Turn

variable {inch : Fin 5} {actions : List RulerAction}

/-- A turn adds to what has been issued. -/
theorem issued_rulerTurn (s : Ruler) (e : RulerTurn) :
    (rulerTurn inch actions s e).issued = s.issued ++ newIssues inch actions s e := by
  have hprefix : s.issued <+: (rulerTurn inch actions s e).issued := by
    unfold rulerTurn
    split_ifs
    · exact List.prefix_rfl
    · split
      · exact List.prefix_rfl
      · split_ifs
        · exact List.prefix_rfl
        · exact List.prefix_append _ _
  exact (List.prefix_iff_eq_append.mp hprefix).symm

end Turn

/-! ### The order of the frames -/

/-- The frames that the ruler has sent are those of the remote actions. -/
def SendsRemote (s : RulerNet) : Prop :=
  s.link.sent = (s.ruler.issued.filter Issue.isremote).map rulerFrame

section Order

variable {inch : Fin 5} {actions : List RulerAction} {s : RulerNet}

theorem SendsRemote.step (h : SendsRemote s) (e : NetEvent) :
    SendsRemote (netStep inch actions s e) := by
  cases e with
  | turn e =>
    rw [SendsRemote, netStep, issued_rulerTurn, List.filter_append, List.map_append, ← h]
    rfl
  | foreign f => exact h
  | lose i => exact h
  | receive u =>
    rw [SendsRemote, netStep]
    split <;> exact h
  | card e => exact h
  | wake =>
    rw [SendsRemote, netStep]
    split <;> exact h

theorem sendsRemote_run (inch : Fin 5) (actions : List RulerAction) (hw hw' : PowerOn)
    (es : List NetEvent) : SendsRemote (run (netStep inch actions) (.start hw hw') es) := by
  have hstart : SendsRemote (.start hw hw') := rfl
  exact run_invariant (I := fun _ s => SendsRemote s) hstart (fun _ _ e h => h.step e) es

theorem inOrder_netStep (h : s.link.InOrder) (e : NetEvent) :
    (netStep inch actions s e).link.InOrder := by
  cases e with
  | turn e => exact h.send _
  | foreign f => exact h.inject f
  | lose i => exact h.lose i
  | receive u =>
    rw [netStep]
    split
    · rename_i hwire
      exact h.receive hwire
    · exact h
  | card e => exact h
  | wake =>
    rw [netStep]
    split <;> exact h

/-- In every run the frames of the ruler that the agent has received are a subsequence of those of
the remote actions. -/
theorem netInOrder_run (inch : Fin 5) (actions : List RulerAction) (hw hw' : PowerOn)
    (es : List NetEvent) : (run (netStep inch actions) (.start hw hw') es).link.InOrder := by
  have hstart : (RulerNet.start hw hw').link.InOrder := List.Sublist.refl _
  exact run_invariant (I := fun _ (s : RulerNet) => s.link.InOrder) hstart
    (fun _ _ e h => inOrder_netStep h e) es

/-- The event loses no frame. -/
def NetEvent.Keeps : NetEvent → Prop
  | .lose _ => False
  | _ => True

theorem complete_netStep (h : s.link.Complete) {e : NetEvent} (he : e.Keeps) :
    (netStep inch actions s e).link.Complete := by
  cases e with
  | turn e => exact h.send _
  | foreign f => exact h.inject f
  | lose i => exact absurd he id
  | receive u =>
    rw [netStep]
    split
    · rename_i hwire
      exact h.receive hwire
    · exact h
  | card e => exact h
  | wake =>
    rw [netStep]
    split <;> exact h

/-- If no frame is lost, they are all that have arrived so far. -/
theorem netComplete_run (inch : Fin 5) (actions : List RulerAction) (hw hw' : PowerOn)
    {es : List NetEvent} (hes : ∀ e ∈ es, e.Keeps) :
    (run (netStep inch actions) (.start hw hw') es).link.Complete := by
  have hkeeps : Along (netStep inch actions) (fun _ e => NetEvent.Keeps e) (.start hw hw') es :=
    (along_const_iff (netStep inch actions)).mpr hes
  have hstart : (RulerNet.start hw hw').link.Complete := rfl
  have hthrough : Throughout (netStep inch actions) (fun s => s.link.Complete) (.start hw hw') es :=
    hkeeps.throughout (I := fun s : RulerNet => s.link.Complete) hstart (fun _ h => h)
      fun _ _ h he => complete_netStep h he
  exact hthrough.last

end Order

end SpecSw.Tools
