import SpecSw.Dio.Train
import SpecSw.Tools.Agent

/-!
# From a stamp of the ruler to a pulse at the agent

The ruler turns each stamp of its input channel into commands, the network carries those of the
remote actions, the agent passes them to its driver, and the driver programs the pulses. Put
together, the pulses of a channel at the agent are a subsequence of what the remote actions on it
demand: for each stamp handed over to the ruler, a pulse at the time of the stamp plus the delay.
Nothing is invented, repeated or overtaken, however many frames are lost. If none is lost and the
ruler never gets two stamps at once, every pulse demanded is programmed as soon as its frame
arrives.

This needs that nobody else uses the channel: no other program on the card of the agent, and no
frame of others with a PULSE on it.

## Main definitions

* `Tools.demanded`, `Tools.NetEvent.LeavesAlone`, `Tools.NetEvent.Reliable`.

## Main results

* `Tools.newIssues_executes`, `Tools.Obeys.step`, `Tools.pulses_replicated`.
-/

namespace SpecSw.Tools

open Dio EventRun LossyLink

/-! ### What the ruler issues -/

/-- What the loop issues executes the first actions, as many as have been issued. -/
theorem actionLoop_executes (utc : UtcReads) (ok : ℕ → Bool) (ts : Timespec) (i : ℕ)
    (actions : List RulerAction) (d : WrnDrvdata) {f : WrDioCmd} (hf : PlainPulse f) :
    ∃ done, done <+: actions ∧ List.Forall₂ Executes (actionLoop utc ok ts i actions d f).issued
      (done.map fun a => (a, ts)) := by
  induction actions generalizing i d f with
  | nil => exact ⟨[], List.prefix_rfl, .nil⟩
  | cons a actions ih =>
    have haim : PlainPulse (aim ts a f) := hf
    have hexec := executes_aim ts a hf
    rw [actionLoop]
    cases hok : ok i with
    | false => exact ⟨[], List.nil_prefix, .nil⟩
    | true =>
      simp only [Bool.not_true, Bool.false_eq_true, if_false]
      cases hremote : a.isremote with
      | true =>
        rw [hremote] at hexec
        obtain ⟨done, hdone, hissued⟩ := ih (i + 1) d haim
        exact ⟨a :: done, (List.prefix_cons_inj a).mpr hdone, .cons hexec hissued⟩
      | false =>
        rw [hremote] at hexec
        obtain ⟨p, hcall, hret, hplain⟩ := mezzanineCmd_aim utc d ts a hf
        simp only [hcall, hret, lt_irrefl, if_false]
        obtain ⟨done, hdone, hissued⟩ := ih (i + 1) p.drvdata hplain
        exact ⟨a :: done, (List.prefix_cons_inj a).mpr hdone, .cons hexec hissued⟩

/-- The pairs of an action and a stamp that a turn is to execute. -/
def pairs (actions : List RulerAction) (stamps : List Timespec) : List (RulerAction × Timespec) :=
  stamps.flatMap fun ts => actions.map fun a => (a, ts)

theorem pairs_append (actions : List RulerAction) (xs ys : List Timespec) :
    pairs actions (xs ++ ys) = pairs actions xs ++ pairs actions ys :=
  List.flatMap_append

section Turn

variable {inch : Fin 5} {actions : List RulerAction} {s : Ruler} {e : RulerTurn}

theorem newIssues_eq {new : List Issue}
    (h : (rulerTurn inch actions s e).issued = s.issued ++ new) :
    newIssues inch actions s e = new := by
  rw [newIssues, h, List.drop_left]

/-- What a turn issues executes some of the pairs, in order, and all if there is at most one stamp
and no action fails for it. -/
theorem newIssues_executes (hs : FrameInv s) :
    ∃ q, q.Sublist (pairs actions (handedOver inch s e)) ∧
      List.Forall₂ Executes (newIssues inch actions s e) q ∧
      (OneStamp inch actions s e → q = pairs actions (handedOver inch s e)) := by
  by_cases hone : OneStamp inch actions s e
  · obtain ⟨new, hissued, hnew⟩ := (replicates_iff actions hs).mpr hone
    exact ⟨_, List.Sublist.refl _, newIssues_eq hissued ▸ hnew, fun _ => rfl⟩
  · obtain ⟨hexited, hrest⟩ := not_or.mp hone
    have hne : queues (s.card e) inch ≠ [] := fun h => hrest (.inr (.inl h))
    obtain ⟨p, hcall, hret, hstamps⟩ := rulerWaitEvent_of_ne_nil hne e.utc s.rulerCmd
    have htake : (queues (s.card e) inch).take wrDioNStamp ≠ [] := by
      simpa [wrDioNStamp] using hne
    obtain ⟨x, xs, hcons⟩ := List.exists_cons_of_ne_nil htake
    have hx : p.cmd.t 0 = x := t_zero_of_stamps (hstamps.trans hcons)
    have hover : handedOver inch s e = x :: xs := by
      simp [handedOver, hexited, hcall, hret, hstamps, hcons]
    have hissued : (rulerTurn inch actions s e).issued =
        s.issued ++ (rulerRunActions e.utc e.ok x actions p.drvdata s.f).issued := by
      simp [rulerTurn, hexited, hcall, hret, hx]
    obtain ⟨done, hdone, hexec⟩ :=
      actionLoop_executes e.utc e.ok x 0 actions p.drvdata
        (f := { s.f.setT 1 { s.f.t 1 with tvNsec := 1000 * 1000 } with
          command := commandNumber .pulse }) ⟨rfl, hs⟩
    refine ⟨_, ?_, newIssues_eq hissued ▸ hexec, fun h => absurd h hone⟩
    rw [hover, pairs, List.flatMap_cons]
    exact (hdone.sublist.map _).trans (List.sublist_append_left _ _)

end Turn

/-! ### What the driver of the agent does -/

/-- The pulse that a frame asks for. -/
def RulerFrame.trigger (ch : ℕ) (f : RulerFrame) : Trigger := triggerAt ch (f.cmd.t 0).ns

/-- A frame as the ruler sends them. -/
structure RulerFrame.Aimed (f : RulerFrame) : Prop where
  passes : f.passes = true
  plain : PlainPulse f.cmd
  channel : f.cmd.channel.toNat ≤ 4

/-- The frame does nothing to the channel: the agent does not take it, or it is no PULSE on it. -/
def RulerFrame.Spares (ch : ℕ) (f : RulerFrame) : Prop :=
  f.passes = true → f.cmd.command = commandNumber .pulse → f.cmd.channel.toNat ≠ ch

/-- A PULSE without flags programs one pulse more, and leaves the train. -/
theorem train_plainPulse {cmd : WrDioCmd} (hplain : PlainPulse cmd)
    (hle : cmd.channel.toNat ≤ 4) (ch : ℕ) (utc : UtcReads) (d : WrnDrvdata) :
    train ch (wrnDioCmdPulse utc d cmd).drvdata =
      { train ch d with
        triggers := d.triggersOn ch ++
          if cmd.channel.toNat = ch then [triggerAt ch (cmd.t 0).ns] else [] } := by
  have hno : ∀ flag, cmd.has flag = false := fun flag => by simp [WrDioCmd.has, hplain.2]
  by_cases hch : cmd.channel.toNat = ch
  · rcases wrnDioCmdPulse_cases utc d cmd with ⟨hbig, -⟩ | ⟨-, htrue, -⟩ | ⟨-, -, hset, hlatched⟩
    · omega
    · exact absurd (hno wrDioFNow) (by rw [htrue]; decide)
    · have hsame : (wrnDioCmdPulse utc d cmd).drvdata.ch = d.ch := by
        rw [hset]
        simp [setupLoop, removeFirst, addNow, hno]
      have hstart : pulseStart utc cmd = cmd.t 0 := by simp [pulseStart, addNow, hno]
      rw [hstart] at hlatched
      simp only [train, hsame, triggersOn_of_latched hlatched, if_pos hch]
  · rw [train_wrnDioCmdPulse_of_ne hch, if_neg hch, List.append_nil]
    rfl

section Take

variable {a : Agent} {u : AgentCall} {f : RulerFrame}

theorem drvdata_afterIoctl (a : Agent) (r : IoctlResult) :
    (a.afterIoctl r).drvdata = r.drvdata := by
  unfold Agent.afterIoctl
  split <;> rfl

/-- What taking a frame does to the card is an ioctl of the agent. -/
theorem drvdata_take (a : Agent) (u : AgentCall) (f : RulerFrame) :
    (a.take u f).drvdata =
      if f.passes then
        step a.drvdata (.ioctl privMezzanineCmd ⟨u.kmalloc, some f.cmd, true, u.utc⟩)
      else a.drvdata := by
  unfold Agent.take
  split_ifs
  · exact drvdata_afterIoctl a _
  · rfl

/-- A frame of the ruler runs a PULSE if there is memory. -/
theorem runs_of_aimed (hf : f.Aimed) (utc : UtcReads) (kmalloc : Bool) :
    UserCall.runs ⟨kmalloc, some f.cmd, true, utc⟩ privMezzanineCmd =
      if kmalloc then some (.pulse, f.cmd) else none := by
  cases kmalloc <;> simp [UserCall.runs, hf.plain.1]

/-- A frame of the ruler is executed if there is memory. -/
theorem train_take_aimed (hf : f.Aimed) (hmem : u.kmalloc = true) (ch : ℕ) :
    train ch (a.take u f).drvdata =
      { train ch a.drvdata with
        triggers := a.drvdata.triggersOn ch ++
          if f.cmd.channel.toNat = ch then [f.trigger ch] else [] } := by
  have hruns := runs_of_aimed hf u.utc u.kmalloc
  rw [if_pos hmem] at hruns
  rw [drvdata_take, if_pos hf.passes, step_of_runs_pulse hruns]
  exact train_plainPulse hf.plain hf.channel ch u.utc a.drvdata

/-- And the agent goes on. -/
theorem control_take_aimed (hf : f.Aimed) (hmem : u.kmalloc = true) :
    (a.take u f).control = .receiving := by
  have hruns := runs_of_aimed hf u.utc u.kmalloc
  rw [if_pos hmem] at hruns
  have hno : ∀ flag, f.cmd.has flag = false := fun flag => by simp [WrDioCmd.has, hf.plain.2]
  have hout : (wrnDioCmdPulse u.utc a.drvdata f.cmd).outcome = .returns 0 := by
    simp [wrnDioCmdPulse, Nat.not_lt.mpr hf.channel, hno]
  rw [Agent.take, if_pos hf.passes, ioctl_of_runs hruns]
  simp [runCmd, finishCmd, hout, Agent.afterIoctl]

/-- Without memory it is not. -/
theorem train_take_of_no_memory (hf : f.Aimed) (hmem : u.kmalloc = false) (ch : ℕ) :
    train ch (a.take u f).drvdata = train ch a.drvdata := by
  have hruns := runs_of_aimed hf u.utc u.kmalloc
  rw [hmem, if_neg Bool.false_ne_true] at hruns
  obtain ⟨ret, cmd, -, hioctl⟩ := ioctl_of_not_runs hruns a.drvdata
  rw [drvdata_take, if_pos hf.passes, hmem, step, hioctl]

theorem command_of_pulse {command : BitVec 16} (h : wrDioCmdName command = some .pulse) :
    command = commandNumber .pulse := by
  unfold wrDioCmdName at h
  split_ifs at h with hzero <;> simp_all [commandNumber]

/-- A frame that spares the channel leaves its train alone. -/
theorem train_take_of_spares {ch : ℕ} (hf : f.Spares ch) :
    train ch (a.take u f).drvdata = train ch a.drvdata := by
  rw [drvdata_take]
  split_ifs with hpasses
  · refine train_ioctl (fun hpulse => ?_) a.drvdata
    obtain ⟨cmd, hruns, hch⟩ := hpulse
    simp only [UserCall.runs, Option.bind_some] at hruns
    split_ifs at hruns
    obtain ⟨name, hname, hpair⟩ := Option.map_eq_some_iff.mp hruns
    obtain ⟨rfl, rfl⟩ := Prod.mk.inj hpair
    exact hf hpasses (command_of_pulse hname) hch
  · rfl

end Take

/-! ### The invariant -/

/-- The event does nothing to the channel of the agent but through the ruler. -/
def NetEvent.LeavesAlone (ch : ℕ) : NetEvent → Prop
  | .foreign f => f.Spares ch
  | .card e => ¬ e.pulseOn ch
  | _ => True

/-- The event loses no frame, does not fail for want of memory, and sends the agent no frame that
it takes for one of the ruler. -/
def NetEvent.Reliable : NetEvent → Prop
  | .foreign f => f.passes = false
  | .lose _ => False
  | .receive u => u.kmalloc = true
  | _ => True

theorem NetEvent.Reliable.keeps {e : NetEvent} (h : e.Reliable) : e.Keeps := by
  cases e with
  | lose i => exact h
  | _ => trivial

/-- The stamps handed over to the ruler in a step. -/
def turnStamps (inch : Fin 5) (s : RulerNet) : NetEvent → List Timespec
  | .turn e => handedOver inch s.ruler e
  | _ => []

/-- The pulses that the commands received ask for on the channel. -/
def asked (ch : ℕ) (fs : List RulerFrame) : List Trigger :=
  (fs.filter fun f => f.cmd.channel.toNat = ch).map (RulerFrame.trigger ch)

theorem asked_append (ch : ℕ) (fs gs : List RulerFrame) :
    asked ch (fs ++ gs) = asked ch fs ++ asked ch gs := by
  simp [asked]

theorem asked_singleton (ch : ℕ) (f : RulerFrame) :
    asked ch [f] = if f.cmd.channel.toNat = ch then [f.trigger ch] else [] := by
  by_cases hch : f.cmd.channel.toNat = ch <;> simp [asked, hch]

/-- The messages on the wire: those of the ruler are commands as it issues them, the others spare
the channel. -/
def WireOk (ch : ℕ) (ms : List (Message RulerFrame)) : Prop :=
  ∀ m ∈ ms, if m.own then m.payload.Aimed else m.payload.Spares ch

/-- The agent has no train on the channel, and its pulses are what the commands received ask for. -/
structure Obeys (ch : ℕ) (s : RulerNet) : Prop where
  frame : FrameInv s.ruler
  wire : WireOk ch s.link.wire
  own : OwnTarget s.agent.drvdata
  idle : (train ch s.agent.drvdata).count = 0
  pulses : (s.agent.drvdata.triggersOn ch).Sublist (asked ch (ownPayloads s.link.received))

section Step

variable {inch : Fin 5} {actions : List RulerAction} {ch : ℕ} {s : RulerNet}

/-- What happens on the card of the agent without a PULSE on the channel. -/
theorem train_card {d : WrnDrvdata} (hown : OwnTarget d) (hidle : (train ch d).count = 0)
    (hch : ch < 5) {e : DioEvent} (he : ¬ e.pulseOn ch) : train ch (step d e) = train ch d := by
  rw [train_step hown hch he]
  split_ifs
  · exact if_pos hidle
  · rfl

theorem aimed_rulerFrame {x : Issue} {p : RulerAction × Timespec} (h : Executes x p) :
    (rulerFrame x).Aimed where
  passes := by simp [RulerFrame.passes, rulerFrame]
  plain := ⟨h.command, h.flags⟩
  channel := by
    have hlt := p.1.channel.isLt
    have heq := h.channel
    change x.cmd.channel.toNat ≤ 4
    omega

/-- The frames that a turn sends. -/
theorem aimed_of_turn (hs : FrameInv s.ruler) (e : RulerTurn) :
    ∀ x ∈ newIssues inch actions s.ruler e, (rulerFrame x).Aimed := by
  obtain ⟨q, -, hexec, -⟩ := @newIssues_executes inch actions _ e hs
  intro x hx
  obtain ⟨i, hi, rfl⟩ := List.getElem_of_mem hx
  exact aimed_rulerFrame (hexec.get hi (hexec.length_eq ▸ hi))

/-- The agent takes the first message from the wire. -/
theorem Obeys.receive (h : Obeys ch s) {u : AgentCall} {m : Message RulerFrame}
    {rest : List (Message RulerFrame)} (hwire : s.link.wire = m :: rest) :
    Obeys ch { s with link := s.link.receive m rest, agent := s.agent.take u m.payload } := by
  have hm := h.wire m (hwire ▸ List.mem_cons_self)
  have hrest : WireOk ch rest := fun m' hm' => h.wire m' (hwire ▸ List.mem_cons_of_mem m hm')
  have hown : OwnTarget (s.agent.take u m.payload).drvdata := by
    rw [drvdata_take]
    split_ifs
    · exact h.own.step _
    · exact h.own
  have hgrow : (asked ch (ownPayloads s.link.received)).Sublist
      (asked ch (ownPayloads (s.link.received ++ [m]))) := by
    rw [ownPayloads_append, asked_append]
    exact List.sublist_append_left _ _
  have hkeep : train ch (s.agent.take u m.payload).drvdata = train ch s.agent.drvdata →
      Obeys ch { s with link := s.link.receive m rest, agent := s.agent.take u m.payload } := by
    intro heq
    have htriggers : (s.agent.take u m.payload).drvdata.triggersOn ch =
        s.agent.drvdata.triggersOn ch := congrArg Train.triggers heq
    exact ⟨h.frame, hrest, hown, (congrArg Train.count heq).trans h.idle,
      htriggers ▸ h.pulses.trans hgrow⟩
  cases hmine : m.own with
  | false =>
    rw [hmine, if_neg Bool.false_ne_true] at hm
    exact hkeep (train_take_of_spares hm)
  | true =>
    rw [hmine, if_pos rfl] at hm
    cases hmem : u.kmalloc with
    | false => exact hkeep (train_take_of_no_memory hm hmem ch)
    | true =>
      have heq := train_take_aimed (a := s.agent) hm hmem ch
      have htriggers : (s.agent.take u m.payload).drvdata.triggersOn ch =
          s.agent.drvdata.triggersOn ch ++ asked ch [m.payload] := by
        rw [asked_singleton]
        exact congrArg Train.triggers heq
      refine ⟨h.frame, hrest, hown, (congrArg Train.count heq).trans h.idle, ?_⟩
      change ((s.agent.take u m.payload).drvdata.triggersOn ch).Sublist
        (asked ch (ownPayloads (s.link.received ++ [m])))
      rw [htriggers, ownPayloads_append, ownPayloads_singleton, hmine, if_pos rfl, asked_append]
      exact h.pulses.append_right _

theorem Obeys.step (h : Obeys ch s) (hch : ch < 5) {e : NetEvent} (he : e.LeavesAlone ch) :
    Obeys ch (netStep inch actions s e) := by
  cases e with
  | turn e =>
    refine ⟨frameInv_rulerTurn actions h.frame, fun m hm => ?_, h.own, h.idle, h.pulses⟩
    rcases List.mem_append.mp hm with hm | hm
    · exact h.wire m hm
    · obtain ⟨f, hf, rfl⟩ := List.mem_map.mp hm
      obtain ⟨x, hx, rfl⟩ := List.mem_map.mp hf
      exact aimed_of_turn h.frame e x (List.mem_of_mem_filter hx)
  | foreign f =>
    refine ⟨h.frame, fun m hm => ?_, h.own, h.idle, h.pulses⟩
    rcases List.mem_append.mp hm with hm | hm
    · exact h.wire m hm
    · rw [List.mem_singleton.mp hm]
      exact he
  | lose i =>
    exact ⟨h.frame, fun m hm => h.wire m ((List.eraseIdx_sublist _ i).subset hm), h.own, h.idle,
      h.pulses⟩
  | receive u =>
    rw [netStep]
    split
    · rename_i hwire
      exact h.receive hwire
    · exact h
  | card e =>
    have heq := train_card h.own h.idle hch he
    have htriggers : (Dio.step s.agent.drvdata e).triggersOn ch = s.agent.drvdata.triggersOn ch :=
      congrArg Train.triggers heq
    refine ⟨h.frame, h.wire, h.own.step e, (congrArg Train.count heq).trans h.idle, ?_⟩
    change ((Dio.step s.agent.drvdata e).triggersOn ch).Sublist _
    rw [htriggers]
    exact h.pulses
  | wake =>
    rw [netStep]
    split
    · rename_i cmd _
      have heq : train ch (s.agent.afterIoctl
          (mezzanineResume false true s.agent.drvdata cmd)).drvdata = train ch s.agent.drvdata := by
        rw [drvdata_afterIoctl]
        exact train_of_onlyTails (resume_onlyTails false true _ cmd) ch
      have htriggers := congrArg Train.triggers heq
      refine ⟨h.frame, h.wire, ?_, (congrArg Train.count heq).trans h.idle, ?_⟩
      · rw [drvdata_afterIoctl]
        exact h.own.step (.resume false true cmd)
      · exact (show (s.agent.afterIoctl _).drvdata.triggersOn ch = _ from htriggers) ▸ h.pulses
    · exact h

/-! ### Nothing lost -/

/-- The agent is in its loop and has executed every command received, and none of the frames of
others that are on the way is taken. -/
structure Faithful (ch : ℕ) (s : RulerNet) : Prop where
  receiving : s.agent.control = .receiving
  ignored : ∀ m ∈ s.link.wire, m.own = false → m.payload.passes = false
  pulses : s.agent.drvdata.triggersOn ch = asked ch (ownPayloads s.link.received)

theorem Faithful.receive (h : Faithful ch s) (ho : Obeys ch s) {u : AgentCall}
    (hmem : u.kmalloc = true) {m : Message RulerFrame} {rest : List (Message RulerFrame)}
    (hwire : s.link.wire = m :: rest) :
    Faithful ch { s with link := s.link.receive m rest, agent := s.agent.take u m.payload } := by
  have hm := ho.wire m (hwire ▸ List.mem_cons_self)
  have hrest : ∀ m' ∈ rest, m'.own = false → m'.payload.passes = false := fun m' hm' =>
    h.ignored m' (hwire ▸ List.mem_cons_of_mem m hm')
  cases hmine : m.own with
  | false =>
    have hpasses := h.ignored m (hwire ▸ List.mem_cons_self) hmine
    have htake : s.agent.take u m.payload = s.agent := if_neg (by simp [hpasses])
    have hreceived : ownPayloads (s.link.received ++ [m]) = ownPayloads s.link.received := by
      simp [ownPayloads_singleton, hmine]
    have hreceiving : (s.agent.take u m.payload).control = .receiving := by
      rw [htake]
      exact h.receiving
    refine ⟨hreceiving, hrest, ?_⟩
    change (s.agent.take u m.payload).drvdata.triggersOn ch =
      asked ch (ownPayloads (s.link.received ++ [m]))
    rw [htake, hreceived]
    exact h.pulses
  | true =>
    rw [hmine, if_pos rfl] at hm
    have heq := train_take_aimed (a := s.agent) hm hmem ch
    refine ⟨control_take_aimed hm hmem, hrest, ?_⟩
    change (s.agent.take u m.payload).drvdata.triggersOn ch =
      asked ch (ownPayloads (s.link.received ++ [m]))
    rw [ownPayloads_append, ownPayloads_singleton, hmine, if_pos rfl, asked_append,
      asked_singleton, ← h.pulses]
    exact congrArg Train.triggers heq

theorem Faithful.step (h : Faithful ch s) (ho : Obeys ch s) (hch : ch < 5) {e : NetEvent}
    (he : e.LeavesAlone ch) (hreliable : e.Reliable) : Faithful ch (netStep inch actions s e) := by
  cases e with
  | turn e =>
    refine ⟨h.receiving, fun m hm hmine => ?_, h.pulses⟩
    rcases List.mem_append.mp hm with hm | hm
    · exact h.ignored m hm hmine
    · obtain ⟨f, -, rfl⟩ := List.mem_map.mp hm
      exact absurd hmine (by simp)
  | foreign f =>
    refine ⟨h.receiving, fun m hm hmine => ?_, h.pulses⟩
    rcases List.mem_append.mp hm with hm | hm
    · exact h.ignored m hm hmine
    · rw [List.mem_singleton.mp hm]
      exact hreliable
  | lose i => exact absurd hreliable id
  | receive u =>
    rw [netStep]
    split
    · rename_i hwire
      exact h.receive ho hreliable hwire
    · exact h
  | card e =>
    have heq := train_card ho.own ho.idle hch he
    have htriggers : (Dio.step s.agent.drvdata e).triggersOn ch = s.agent.drvdata.triggersOn ch :=
      congrArg Train.triggers heq
    exact ⟨h.receiving, h.ignored, htriggers.trans h.pulses⟩
  | wake =>
    simp only [netStep, h.receiving]
    exact h

end Step

/-! ### From the stamps to the pulses -/

/-- The pulses on the channel that the remote actions among the pairs ask for. -/
def demands (ch : ℕ) (q : List (RulerAction × Timespec)) : List Trigger :=
  (q.filter fun p => p.1.isremote && p.1.channel.val == ch).map fun p =>
    triggerAt ch (p.2.ns + p.1.delay.ns)

/-- The pulses that the remote actions on the channel ask for, for each of the stamps. -/
def demanded (ch : ℕ) (actions : List RulerAction) (stamps : List Timespec) : List Trigger :=
  demands ch (pairs actions stamps)

/-- The frames sent for the pairs ask for their pulses. -/
theorem asked_of_executes (ch : ℕ) {xs : List Issue} {q : List (RulerAction × Timespec)}
    (h : List.Forall₂ Executes xs q) :
    asked ch ((xs.filter Issue.isremote).map rulerFrame) = demands ch q := by
  induction h with
  | nil => rfl
  | @cons x p xs q hx _ ih =>
    have hchannel : x.cmd.channel.toNat = p.1.channel.val := hx.channel
    have htrigger : (rulerFrame x).trigger ch = triggerAt ch (p.2.ns + p.1.delay.ns) := by
      rw [RulerFrame.trigger, ← hx.trigger]
      rfl
    have hhead : asked ch (([x].filter Issue.isremote).map rulerFrame) = demands ch [p] := by
      cases hremote : p.1.isremote with
      | false => simp [hx.isremote, hremote, demands, asked]
      | true =>
        by_cases hch : p.1.channel.val = ch
        · simp [hx.isremote, hremote, demands, asked, rulerFrame, hchannel, hch, ← htrigger]
        · simp [hx.isremote, hremote, demands, asked, rulerFrame, hchannel, hch]
    have hcons : demands ch (p :: q) = demands ch [p] ++ demands ch q := by
      rw [demands, ← List.singleton_append, List.filter_append, List.map_append]
      rfl
    rw [hcons, ← hhead, ← ih, ← asked_append, ← List.map_append, ← List.filter_append,
      List.singleton_append]

/-- The ruler has issued commands for some of the pairs, and for all of them if every turn has been
as it assumes. -/
def Issued (actions : List RulerAction) (exact : Prop) (stamps : List Timespec) (s : Ruler) :
    Prop :=
  ∃ q, q.Sublist (pairs actions stamps) ∧ List.Forall₂ Executes s.issued q ∧
    (exact → q = pairs actions stamps)

theorem Issued.turn {inch : Fin 5} {actions : List RulerAction} {exact : Prop}
    {stamps : List Timespec} {s : Ruler} (h : Issued actions exact stamps s) (hs : FrameInv s)
    {e : RulerTurn} (he : exact → OneStamp inch actions s e) :
    Issued actions exact (stamps ++ handedOver inch s e) (rulerTurn inch actions s e) := by
  obtain ⟨q, hq, hexec, hall⟩ := h
  obtain ⟨q', hq', hexec', hall'⟩ := @newIssues_executes inch actions s e hs
  refine ⟨q ++ q', ?_, ?_, fun hex => ?_⟩
  · rw [pairs_append]
    exact hq.append hq'
  · rw [issued_rulerTurn]
    exact List.rel_append hexec hexec'
  · rw [pairs_append, hall hex, hall' (he hex)]

/-- A turn of the ruler is as the ruler assumes. -/
def NetOneStamp (inch : Fin 5) (actions : List RulerAction) (s : RulerNet) : NetEvent → Prop
  | .turn e => OneStamp inch actions s.ruler e
  | _ => True

/-- What is known after a run with these stamps. -/
structure Replicating (ch : ℕ) (actions : List RulerAction) (exact : Prop)
    (stamps : List Timespec) (s : RulerNet) : Prop where
  obeys : Obeys ch s
  issued : Issued actions exact stamps s.ruler
  faithful : exact → Faithful ch s

section Run

variable {inch : Fin 5} {actions : List RulerAction} {ch : ℕ} {exact : Prop}

theorem Replicating.start (hw hw' : PowerOn) (hch : ch < 5) :
    Replicating ch actions exact [] (.start hw hw') := by
  have hidle : (train ch (wrnMezzanineInit hw')).count = 0 := by
    rw [train, wrnMezzanineInit_ch hw' hch]
    rfl
  have hpulses : (wrnMezzanineInit hw').triggersOn ch = [] := rfl
  exact ⟨⟨rfl, fun m hm => absurd hm List.not_mem_nil, ownTarget_init hw', hidle,
      hpulses ▸ List.nil_sublist _⟩,
    ⟨[], List.nil_sublist _, .nil, fun _ => rfl⟩,
    fun _ => ⟨rfl, fun m hm => absurd hm List.not_mem_nil, hpulses⟩⟩

theorem Replicating.step {stamps : List Timespec} {s : RulerNet}
    (h : Replicating ch actions exact stamps s) (hch : ch < 5) {e : NetEvent}
    (he : e.LeavesAlone ch) (hexact : exact → e.Reliable ∧ NetOneStamp inch actions s e) :
    Replicating ch actions exact (stamps ++ turnStamps inch s e) (netStep inch actions s e) := by
  refine ⟨h.obeys.step hch he, ?_,
    fun hex => (h.faithful hex).step h.obeys hch he (hexact hex).1⟩
  have hsame : (netStep inch actions s e).ruler = s.ruler →
      Issued actions exact (stamps ++ []) (netStep inch actions s e).ruler := by
    intro heq
    rw [heq, List.append_nil]
    exact h.issued
  cases e with
  | turn e => exact h.issued.turn h.obeys.frame fun hex => (hexact hex).2
  | foreign f => exact hsame rfl
  | lose i => exact hsame rfl
  | receive u =>
    refine hsame ?_
    rw [netStep]
    split <;> rfl
  | card e => exact hsame rfl
  | wake =>
    refine hsame ?_
    rw [netStep]
    split <;> rfl

theorem replicating_run (hw hw' : PowerOn) (hch : ch < 5) {es : List NetEvent}
    (hes : Along (netStep inch actions) (fun s e => e.LeavesAlone ch ∧
      (exact → e.Reliable ∧ NetOneStamp inch actions s e)) (.start hw hw') es) :
    Replicating ch actions exact
      (collect (netStep inch actions) (turnStamps inch) (.start hw hw') es)
      (run (netStep inch actions) (.start hw hw') es) :=
  hes.collect_invariant (I := Replicating ch actions exact) (.start hw hw' hch)
    fun _ _ _ h he => h.step hch he.1 he.2

/-- Of the pulses demanded, the agent has programmed some, in order. -/
theorem Replicating.sublist {stamps : List Timespec} {s : RulerNet}
    (h : Replicating ch actions exact stamps s) (hsends : SendsRemote s)
    (horder : s.link.InOrder) :
    (s.agent.drvdata.triggersOn ch).Sublist (demanded ch actions stamps) := by
  obtain ⟨q, hq, hexec, -⟩ := h.issued
  have hsent : asked ch s.link.sent = demands ch q := by
    rw [hsends, asked_of_executes ch hexec]
  have hreceived : (asked ch (ownPayloads s.link.received)).Sublist (demands ch q) := by
    rw [← hsent]
    exact (horder.sublist.filter _).map _
  exact (h.obeys.pulses.trans hreceived).trans ((hq.filter _).map _)

/-- And all of them once the frames have arrived, if nothing has gone wrong. -/
theorem Replicating.eq_demanded {stamps : List Timespec} {s : RulerNet}
    (h : Replicating ch actions exact stamps s) (hexact : exact) (hsends : SendsRemote s)
    (hcomplete : s.link.Complete) (hwire : ownPayloads s.link.wire = []) :
    s.agent.drvdata.triggersOn ch = demanded ch actions stamps := by
  obtain ⟨q, -, hexec, hall⟩ := h.issued
  rw [(h.faithful hexact).pulses, hcomplete.received_eq hwire, hsends, asked_of_executes ch hexec,
    hall hexact, demanded]

end Run

/-- **From the stamps of the ruler to the pulses at the agent.** In every run in which nobody else
programs pulses on the channel of the agent's card, the pulses programmed on it are a subsequence of
those that the remote actions demand for the stamps handed over to the ruler, each at the stamp plus
the delay. If no frame is lost, nobody else sends the agent commands, there is memory for each
command, and the ruler is never handed two stamps at once and no action of it fails, the agent stays
in its loop, and once all frames have arrived the pulses are exactly those demanded. -/
theorem pulses_replicated (inch : Fin 5) (actions : List RulerAction) (hw hw' : PowerOn)
    (ch : Fin 5) {es : List NetEvent} (hes : ∀ e ∈ es, e.LeavesAlone ch) :
    let s := run (netStep inch actions) (.start hw hw') es
    let stamps := collect (netStep inch actions) (turnStamps inch) (.start hw hw') es
    (s.agent.drvdata.triggersOn ch).Sublist (demanded ch actions stamps) ∧
    ((∀ e ∈ es, e.Reliable) →
      Along (netStep inch actions) (NetOneStamp inch actions) (.start hw hw') es →
      s.agent.control = .receiving ∧
        (ownPayloads s.link.wire = [] →
          s.agent.drvdata.triggersOn ch = demanded ch actions stamps)) := by
  intro s stamps
  let exact : Prop := (∀ e ∈ es, e.Reliable) ∧
    Along (netStep inch actions) (NetOneStamp inch actions) (.start hw hw') es
  have hexact : exact → Along (netStep inch actions)
      (fun s e => e.Reliable ∧ NetOneStamp inch actions s e) (.start hw hw') es := fun hex =>
    (along_and (netStep inch actions)).mpr
      ⟨(along_const_iff (netStep inch actions)).mpr hex.1, hex.2⟩
  have hrun : Replicating ch actions exact stamps s :=
    replicating_run hw hw' ch.isLt ((along_and (netStep inch actions)).mpr
      ⟨(along_const_iff (netStep inch actions)).mpr hes,
        (along_imp (netStep inch actions)).mpr hexact⟩)
  have hsends := sendsRemote_run inch actions hw hw' es
  refine ⟨hrun.sublist hsends (netInOrder_run inch actions hw hw' es), fun hreliable hone => ?_⟩
  have hcomplete := netComplete_run inch actions hw hw' fun e he => (hreliable e he).keeps
  exact ⟨(hrun.faithful ⟨hreliable, hone⟩).receiving,
    hrun.eq_demanded ⟨hreliable, hone⟩ hsends hcomplete⟩

/-- A sample of channel 0, and its interrupt. -/
def oneSample : DioIrq := ⟨true, 0, 0, 1, fun _ => [⟨0, 1, 0⟩]⟩

/-- `wr-dio-ruler wr1 IN0 R3+0.001`: one stamp, one frame and one pulse. -/
theorem pulses_replicated_once :
    let actions := [⟨true, 3, ⟨0, 1000000⟩⟩]
    let es : List NetEvent := [.turn ⟨[.interrupt oneSample], ⟨0, 0, 0, 0⟩, fun _ => true⟩,
      .receive ⟨true, ⟨0, 0, 0, 0⟩⟩]
    let s := run (netStep 0 actions) (.start .zero .zero) es
    s.agent.drvdata.triggersOn 3 =
      demanded 3 actions (collect (netStep 0 actions) (turnStamps 0) (.start .zero .zero) es) := by
  intro actions es s
  have hes : ∀ e ∈ es, e.LeavesAlone 3 := by simp [es, NetEvent.LeavesAlone]
  have hreliable : ∀ e ∈ es, e.Reliable := by simp [es, NetEvent.Reliable]
  have hone : Along (netStep 0 actions) (NetOneStamp 0 actions) (.start .zero .zero) es :=
    ⟨.inr (.inr (.inr ⟨by decide, fun _ _ => rfl⟩)), trivial, trivial⟩
  exact ((pulses_replicated 0 actions .zero .zero 3 hes).2 hreliable hone).2 (by rfl)

end SpecSw.Tools
