import SpecSw.Library.LossyLink
import SpecSw.Nic.IrqPath
import SpecSw.Nic.OnWire

/-!
# Two hosts on a fibre

Two hosts, each with a card as in `HostIrq`, are joined by a fibre that carries the frames of each
to the other: what a NIC sends is on its way until the NIC at the other end has taken it, unless it
is lost. A frame may arrive with an error, which the hardware reports; any other arrives with the
bytes that were sent. It is stored if there is an empty descriptor for it.

Each direction is a link that keeps the order and may lose frames: the frames sent, the frames on
their way, and the frames stored without an error (`HostPair.link`). Every event is one operation of
that link, hence what one host's driver passes on is a subsequence of what the other's has accepted;
and when both have come to rest, it is all of it exactly if no frame has been lost, was broken, or
found no descriptor.

## Main definitions

* `Nic.HostPair`, `Nic.PairEvent`, `Nic.HostPair.step`, `Nic.HostPair.link`.
* `Nic.HostPair.Spares`, `Nic.HostPair.Settled`.

## Main results

* `Nic.HostPair.PairInv.step`, `Nic.HostPair.delivered_iff`.
-/

namespace SpecSw.Nic

open EventRun LossyLink Vic

/-! ### What an event is to the NIC -/

namespace NicIrq

/-- Every event of the driver and the hardware is one event of the NIC or none, and only the
hardware sends and stores. -/
theorem sys_step_cases (s : NicIrq) (e : NicIrqEvent) :
    (s.step e).sys = s.sys ∨ ∃ ev, (s.step e).sys = s.sys.step ev ∧
      (ev = .transmit → e = .transmit) ∧ ∀ frame, ev = .receive frame → e = .receive frame := by
  cases e with
  | startXmit skb => exact .inr ⟨.startXmit skb, rfl, by simp, by simp⟩
  | tstampInterrupt r r0 r1 r2 => exact .inr ⟨.tstampInterrupt r r0 r1 r2, rfl, by simp, by simp⟩
  | transmit => exact .inr ⟨.transmit, rfl, by simp, by simp⟩
  | receive frame => exact .inr ⟨.receive frame, rfl, by simp, by simp⟩
  | raise mask => exact .inl rfl
  | enter r =>
    simp only [step]
    split <;> exact .inl rfl
  | access =>
    simp only [step]
    split
    · exact .inl rfl
    · rename_i a rest _
      cases a with
      | txInterrupt r => exact .inr ⟨.txInterrupt r, rfl, by simp, by simp⟩
      | _ => exact .inl rfl
  | tasklet r fresh =>
    simp only [step, runTasklet]
    split
    · split_ifs <;> exact .inl rfl
    · exact .inl rfl
    · exact .inr ⟨.rxRound r fresh, rfl, by simp, by simp⟩
    · exact .inl rfl

end NicIrq

/-- A frame arrives. -/
def HostEvent.receives : HostEvent → Bool
  | .nic (.receive _) => true
  | _ => false

namespace HostIrq

variable {dec : PriorityDecode}

theorem nicEvents_cases (s : HostIrq) (e : HostEvent) :
    s.nicEvents e = [] ∨ ∃ e', s.nicEvents e = [e'] ∧ (e = .nic e' ∨ ∃ r, e' = .enter r) := by
  cases e with
  | nic e =>
    cases e with
    | enter r => exact .inl rfl
    | _ => exact .inr ⟨_, rfl, .inl rfl⟩
  | others risr => exact .inl rfl
  | chain e => exact .inl rfl
  | access r =>
    rw [nicEvents]
    split_ifs
    · exact .inr ⟨_, rfl, .inr ⟨r, rfl⟩⟩
    · exact .inl rfl

theorem sys_step_cases (s : HostIrq) (e : HostEvent) :
    (s.step dec e).nic.sys = s.nic.sys ∨ ∃ ev, (s.step dec e).nic.sys = s.nic.sys.step ev ∧
      (ev = .transmit → e = .nic .transmit) ∧
      ∀ frame, ev = .receive frame → e = .nic (.receive frame) := by
  have hnic : (s.step dec e).nic = run NicIrq.step s.nic (s.nicEvents e) := rfl
  rw [hnic]
  rcases s.nicEvents_cases e with hnone | ⟨e', hone, he⟩
  · exact .inl (by rw [hnone, run_nil])
  · rw [hone, run_cons, run_nil]
    refine (s.nic.sys_step_cases e').imp id ?_
    rintro ⟨ev, hev, htx, hrx⟩
    refine ⟨ev, hev, ?_⟩
    rcases he with rfl | ⟨r, rfl⟩
    · exact ⟨fun h => congrArg _ (htx h), fun frame h => congrArg _ (hrx frame h)⟩
    · exact ⟨fun h => by simpa using htx h, fun frame h => by simpa using hrx frame h⟩

variable (pad : ℕ → Byte)

/-- What a host puts on the fibre in an event. -/
def puts (s : HostIrq) : HostEvent → List (List Byte)
  | .nic .transmit =>
    if (s.nic.sys.nic.txd s.nic.sys.txPtr).ready then
      [nicOnWire pad s.nic.sys.nic.toWrnDev s.nic.sys.txPtr]
    else []
  | _ => []

/-- The frames that a host has sent, as they are on the fibre. -/
def onFibre (s : HostIrq) : List (List Byte) := s.nic.sys.sent.map fun f => filled pad f.bytes

/-- The frames that a host has stored without an error. -/
def takenWhole (s : HostIrq) : List (List Byte) :=
  (s.nic.sys.stored.filter fun x => !x.errored).map RxFrame.bytes

variable {pad}

theorem onFibre_step {s : HostIrq} (h : PadInv s.nic.sys.nic.toWrnDev) (e : HostEvent) :
    (s.step dec e).onFibre pad = s.onFibre pad ++ s.puts pad e := by
  by_cases he : e = .nic .transmit
  · subst he
    have hsent : (s.step dec (.nic .transmit)).nic.sys.sent =
        s.nic.sys.sent ++ s.nic.sys.transmitted .transmit := NicSystem.sent_step s.nic.sys .transmit
    rw [onFibre, hsent, List.map_append, NicSystem.transmitted, puts]
    split_ifs with hready
    · rw [List.map_singleton, nicOnWire_eq h hready]
      rfl
    · rfl
  · have hputs : s.puts pad e = [] := by
      unfold puts
      split
      · exact absurd rfl he
      · rfl
    have hsent : (s.step dec e).nic.sys.sent = s.nic.sys.sent := by
      rcases s.sys_step_cases e with hsame | ⟨ev, hev, htx, -⟩
      · rw [hsame]
      · rw [hev, NicSystem.sent_step]
        cases ev with
        | transmit => exact absurd (htx rfl) he
        | _ => exact List.append_nil _
    rw [hputs, List.append_nil, onFibre, hsent, onFibre]

/-- Nothing is stored when no frame arrives. -/
theorem stored_step {s : HostIrq} {e : HostEvent} (he : e.receives = false) :
    (s.step dec e).nic.sys.stored = s.nic.sys.stored := by
  rcases s.sys_step_cases e with hsame | ⟨ev, hev, -, hrx⟩
  · rw [hsame]
  · rw [hev, NicSystem.stored_step]
    cases ev with
    | receive frame =>
      rw [hrx frame rfl] at he
      exact absurd he (by simp [HostEvent.receives])
    | _ => exact List.append_nil _

/-- A frame that arrives is taken whole if it has no error and finds a descriptor. -/
theorem takenWhole_receive (s : HostIrq) (frame : RxFrame) :
    (s.step dec (.nic (.receive frame))).takenWhole = s.takenWhole ++
      if frame.errored = false ∧ (s.nic.sys.nic.rxd s.nic.sys.rxPtr).empty = true then
        [frame.bytes]
      else [] := by
  have hstored : (s.step dec (.nic (.receive frame))).nic.sys.stored =
      s.nic.sys.stored ++ s.nic.sys.taken (.receive frame) :=
    NicSystem.stored_step s.nic.sys (.receive frame)
  rw [takenWhole, hstored, List.filter_append, List.map_append, takenWhole, NicSystem.taken]
  congr 1
  by_cases hempty : (s.nic.sys.nic.rxd s.nic.sys.rxPtr).empty = true <;>
    cases herr : frame.errored <;> simp [hempty, herr]

theorem padInv_step {s : HostIrq} (h : PadInv s.nic.sys.nic.toWrnDev) (e : HostEvent) :
    PadInv (s.step dec e).nic.sys.nic.toWrnDev := by
  rcases s.sys_step_cases e with hsame | ⟨ev, hev, -⟩
  · rwa [hsame]
  · rw [hev]
    exact h.step ev

theorem nicInv_step {s : HostIrq} (h : s.nic.sys.NicInv) (e : HostEvent) :
    (s.step dec e).nic.sys.NicInv := by
  rcases s.sys_step_cases e with hsame | ⟨ev, hev, -⟩
  · rwa [hsame]
  · rw [hev]
    exact h.step ev

end HostIrq

/-! ### The pair -/

/-- The two hosts, and the frames on their way from each of them, the oldest first. -/
structure HostPair where
  host : Bool → HostIrq
  wire : Bool → List (List Byte)

/-- What can happen: something at one of the hosts; a frame on its way from one of them is lost; the
first one on its way arrives at the other, where the hardware sees it as `frame`. -/
inductive PairEvent
  | host (d : Bool) (e : HostEvent)
  | lose (d : Bool) (i : ℕ)
  | arrive (d : Bool) (frame : RxFrame)

namespace HostPair

/-- The first frame on its way from `d` can be seen as `frame`: with its own bytes, or with an
error. -/
def lands (s : HostPair) (d : Bool) (frame : RxFrame) : Bool :=
  match s.wire d with
  | [] => false
  | bytes :: _ => frame.error || frame.bytes == bytes

/-- What an event is to the host `d`, where frames arrive from the fibre only. -/
def hostEvents (s : HostPair) (d : Bool) : PairEvent → List HostEvent
  | .host d' e => if d' = d ∧ e.receives = false then [e] else []
  | .lose _ _ => []
  | .arrive d' frame => if d' = !d ∧ s.lands d' frame then [.nic (.receive frame)] else []

variable (pad : ℕ → Byte)

/-- What is on its way from `d` after an event. -/
def wireAfter (s : HostPair) (d : Bool) : PairEvent → List (List Byte)
  | .host d' e => if d' = d then s.wire d ++ (s.host d).puts pad e else s.wire d
  | .lose d' i => if d' = d then (s.wire d).eraseIdx i else s.wire d
  | .arrive d' frame => if d' = d ∧ s.lands d' frame then (s.wire d).tail else s.wire d

variable (dec : PriorityDecode)

/-- Each event. -/
def step (s : HostPair) (e : PairEvent) : HostPair :=
  ⟨fun d => run (HostIrq.step dec) (s.host d) (s.hostEvents d e), fun d => s.wireAfter pad d e⟩

/-- Both hosts have probed their card, and nothing is on its way. -/
def start (ivtRam : Bool → LineNr → BitVec 32) (hw : Bool → PowerOn) (rx2 : Bool → Desc → BitVec 32)
    (isr : Bool → BitVec 32) : HostPair :=
  ⟨fun d => .start (ivtRam d) (hw d) (rx2 d) (isr d), fun _ => []⟩

/-- The frames that `d` is to send, filled up where they are too short for the fibre. -/
def toSend (s : HostPair) (d : Bool) : List (List Byte) :=
  (s.host d).nic.sys.accepted.map fun frame => filled pad frame.wire.bytes

/-- The frames that the driver of `d` has passed on. -/
def passedOn (s : HostPair) (d : Bool) : List (List Byte) :=
  (s.host d).nic.sys.nic.received.map RxSkb.bytes

/-- The direction from `d` as a link. -/
def link (s : HostPair) (d : Bool) : Link (List Byte) where
  sent := (s.host d).onFibre pad
  wire := (s.wire d).map fun bytes => ⟨bytes, true⟩
  received := (s.host !d).takenWhole.map fun bytes => ⟨bytes, true⟩

/-- No frame from `d` is lost in an event, broken or without a descriptor. -/
def Spares (d : Bool) (s : HostPair) : PairEvent → Prop
  | .host _ _ => True
  | .lose d' i => d' = d → (s.wire d).length ≤ i
  | .arrive d' frame => d' = d → s.lands d frame = true →
    frame.errored = false ∧
      ((s.host !d).nic.sys.nic.rxd (s.host !d).nic.sys.rxPtr).empty = true

/-- The driver of `d` is bound while no early call of its `wrn_handler` is in progress. -/
def InPeace (d : Bool) (s : HostPair) : PairEvent → Prop
  | .host d' e => d' = d → (s.host d).InPeace e
  | _ => True

/-- The NIC of `d` has nothing to send, nothing is on its way, and at the other host nobody has
anything to do and the line of the NIC is enabled. -/
structure Settled (s : HostPair) (d : Bool) : Prop where
  sender : ((s.host d).nic.sys.nic.txd (s.host d).nic.sys.txPtr).ready = false
  wire : s.wire d = []
  receiver : (s.host !d).AtRest dec
  enabled : regBit (s.host !d).chain.regs.imr 1 = true

variable {pad} {dec} {s : HostPair} {d : Bool}

/-! ### Every event is an operation of the link -/

/-- What has been sent is on its way. -/
theorem link_host (hpad : PadInv (s.host d).nic.sys.nic.toWrnDev) (e : HostEvent) :
    (s.step pad dec (.host d e)).link pad d = (s.link pad d).send ((s.host d).puts pad e) := by
  have hsent : ((s.step pad dec (.host d e)).host d).onFibre pad =
      (s.host d).onFibre pad ++ (s.host d).puts pad e := by
    simp only [step, hostEvents, true_and]
    split_ifs with he
    · exact HostIrq.onFibre_step hpad e
    · have hputs : (s.host d).puts pad e = [] := by
        unfold HostIrq.puts
        split
        · exact absurd rfl he
        · rfl
      rw [hputs, List.append_nil, run_nil]
  have hother : (s.step pad dec (.host d e)).host (!d) = s.host !d := by
    simp [step, hostEvents]
  rw [link, hsent, hother]
  simp [link, Link.send, step, wireAfter]

/-- The other host takes nothing in but what arrives. -/
theorem link_host_not (e : HostEvent) :
    (s.step pad dec (.host (!d) e)).link pad d = s.link pad d := by
  have hsame : (s.step pad dec (.host (!d) e)).host d = s.host d := by
    simp [step, hostEvents]
  have htaken : ((s.step pad dec (.host (!d) e)).host !d).takenWhole =
      (s.host !d).takenWhole := by
    simp only [step, hostEvents, true_and]
    split_ifs with he
    · rw [HostIrq.takenWhole, run_cons, run_nil, HostIrq.stored_step he, HostIrq.takenWhole]
    · rfl
  rw [link, hsame, htaken]
  simp [link, step, wireAfter]

theorem link_lose (i : ℕ) :
    (s.step pad dec (.lose d i)).link pad d = (s.link pad d).lose i := by
  simp [link, Link.lose, step, wireAfter, hostEvents, List.eraseIdx_map]

theorem link_lose_not (i : ℕ) :
    (s.step pad dec (.lose (!d) i)).link pad d = s.link pad d := by
  simp [link, step, wireAfter, hostEvents]

/-- What arrives at `d` itself leaves its frames alone. -/
theorem link_arrive_not (frame : RxFrame) :
    (s.step pad dec (.arrive (!d) frame)).link pad d = s.link pad d := by
  have hsent : ((s.step pad dec (.arrive (!d) frame)).host d).nic.sys.sent =
      (s.host d).nic.sys.sent := by
    simp only [step, hostEvents, true_and]
    split_ifs
    · exact (NicSystem.sent_step (s.host d).nic.sys (.receive frame)).trans (List.append_nil _)
    · rfl
  rw [link, HostIrq.onFibre, hsent]
  simp [link, HostIrq.onFibre, step, wireAfter, hostEvents]

/-- What cannot be seen so does not arrive. -/
theorem step_arrive_of_not_lands {frame : RxFrame} (h : s.lands d frame = false) :
    s.step pad dec (.arrive d frame) = s := by
  have hhost (d' : Bool) : (s.step pad dec (.arrive d frame)).host d' = s.host d' := by
    simp [step, hostEvents, h]
  have hwire (d' : Bool) : (s.step pad dec (.arrive d frame)).wire d' = s.wire d' := by
    simp [step, wireAfter, h]
  cases s
  exact congrArg₂ HostPair.mk (funext hhost) (funext hwire)

/-- A frame that arrives is received, if it has no error and finds a descriptor; else it is lost. -/
theorem link_arrive {frame : RxFrame} {bytes : List Byte} {rest : List (List Byte)}
    (hwire : s.wire d = bytes :: rest) (hlands : s.lands d frame = true) :
    (s.step pad dec (.arrive d frame)).link pad d =
      if frame.errored = false ∧
          ((s.host !d).nic.sys.nic.rxd (s.host !d).nic.sys.rxPtr).empty = true then
        (s.link pad d).receive ⟨bytes, true⟩ (rest.map fun bytes => ⟨bytes, true⟩)
      else (s.link pad d).lose 0 := by
  have hhost : (s.step pad dec (.arrive d frame)).host d = s.host d := by
    simp [step, hostEvents]
  have htaken := @HostIrq.takenWhole_receive dec (s.host !d) frame
  have hother : (s.step pad dec (.arrive d frame)).host (!d) =
      (s.host !d).step dec (.nic (.receive frame)) := by
    simp [step, hostEvents, hlands]
  have hrest : (s.step pad dec (.arrive d frame)).wire d = rest := by
    simp [step, wireAfter, hlands, hwire]
  rw [link, hhost, hother, hrest, htaken]
  split_ifs with hgood
  · have hbytes : frame.bytes = bytes := by
      have herr : frame.error = false := by
        have := hgood.1
        simp only [RxFrame.errored, Bool.or_eq_false_iff] at this
        exact this.1
      simpa [lands, hwire, herr] using hlands
    simp [link, Link.receive, hbytes]
  · simp [link, Link.lose, hwire]

/-! ### The invariant -/

/-- Both NICs are in order, and so are both links. -/
structure PairInv (pad : ℕ → Byte) (s : HostPair) : Prop where
  padded : ∀ d, PadInv (s.host d).nic.sys.nic.toWrnDev
  nic : ∀ d, (s.host d).nic.sys.NicInv
  order : ∀ d, (s.link pad d).InOrder

theorem pairInv_start (ivtRam : Bool → LineNr → BitVec 32) (hw : Bool → PowerOn)
    (rx2 : Bool → Desc → BitVec 32) (isr : Bool → BitVec 32) :
    PairInv pad (.start ivtRam hw rx2 isr) where
  padded d := PadInv.start (hw d)
  nic d := NicSystem.nicInv_start (hw d) (rx2 d)
  order _ := List.Sublist.refl []

/-- A host makes one step or none. -/
theorem host_step_cases (s : HostPair) (d : Bool) (e : PairEvent) :
    (s.step pad dec e).host d = s.host d ∨
      ∃ e', (s.step pad dec e).host d = (s.host d).step dec e' := by
  cases e with
  | host d' e =>
    simp only [step, hostEvents]
    split_ifs
    · exact .inr ⟨e, rfl⟩
    · exact .inl rfl
  | lose d' i => exact .inl rfl
  | arrive d' frame =>
    simp only [step, hostEvents]
    split_ifs
    · exact .inr ⟨.nic (.receive frame), rfl⟩
    · exact .inl rfl

/-- The frames on their way are all of the sender. -/
theorem own_of_mem_wire {m : Message (List Byte)} (hm : m ∈ (s.link pad d).wire) :
    m.own = true := by
  obtain ⟨bytes, -, rfl⟩ := List.mem_map.mp hm
  rfl

namespace PairInv

/-- A link is as complete as it was, exactly if the event spares its frames. -/
theorem link_step (h : PairInv pad s) (d : Bool) (e : PairEvent) :
    ((s.step pad dec e).link pad d).InOrder ∧
      (((s.step pad dec e).link pad d).Complete ↔ (s.link pad d).Complete ∧ Spares d s e) := by
  have hd (d' : Bool) : d' = d ∨ d' = !d :=
    (eq_or_ne d' d).imp id Bool.eq_not_of_ne
  have horder := h.order d
  have hlose (i : ℕ) := horder.complete_lose_iff (fun _ => own_of_mem_wire) i
  have hlen : (s.link pad d).wire.length = (s.wire d).length := List.length_map _
  cases e with
  | host d' e =>
    rcases hd d' with rfl | rfl
    · rw [link_host (h.padded d'), Link.complete_send_iff]
      exact ⟨horder.send _, (and_iff_left trivial).symm⟩
    · rw [link_host_not]
      exact ⟨horder, (and_iff_left trivial).symm⟩
  | lose d' i =>
    rcases hd d' with rfl | rfl
    · rw [link_lose, hlose, hlen]
      exact ⟨horder.lose i, by simp [Spares]⟩
    · rw [link_lose_not]
      exact ⟨horder, by simp [Spares]⟩
  | arrive d' frame =>
    rcases hd d' with rfl | rfl
    · cases hlands : s.lands d' frame with
      | false =>
        rw [step_arrive_of_not_lands hlands]
        exact ⟨horder, by simp [Spares, hlands]⟩
      | true =>
        obtain ⟨bytes, rest, hwire⟩ : ∃ bytes rest, s.wire d' = bytes :: rest := by
          refine List.exists_cons_of_ne_nil fun hnil => ?_
          simp [lands, hnil] at hlands
        have hlink : (s.link pad d').wire =
            ⟨bytes, true⟩ :: rest.map fun bytes => ⟨bytes, true⟩ := by simp [link, hwire]
        rw [link_arrive hwire hlands]
        split_ifs with hgood
        · rw [Link.complete_receive_iff hlink]
          exact ⟨horder.receive hlink, by simp [Spares, hgood]⟩
        · rw [hlose, hlen, hwire]
          exact ⟨horder.lose 0, by simpa [Spares, hlands] using fun _ => hgood⟩
    · rw [link_arrive_not]
      exact ⟨horder, by simp [Spares]⟩

/-- Every event keeps the invariant. -/
theorem step (h : PairInv pad s) (e : PairEvent) : PairInv pad (s.step pad dec e) where
  padded d := by
    rcases s.host_step_cases d e with hsame | ⟨e', he'⟩
    · rw [hsame]
      exact h.padded d
    · rw [he']
      exact HostIrq.padInv_step (h.padded d) e'
  nic d := by
    rcases s.host_step_cases d e with hsame | ⟨e', he'⟩
    · rw [hsame]
      exact h.nic d
    · rw [he']
      exact HostIrq.nicInv_step (h.nic d) e'
  order d := (h.link_step d e).1

/-- What has been taken whole is part of what has been sent. -/
theorem takenWhole_sublist (h : PairInv pad s) (d : Bool) :
    (s.host !d).takenWhole.Sublist ((s.host d).onFibre pad) := by
  have horder := (h.order d).sublist
  rwa [link, ownPayloads_map_own] at horder

/-- What has been passed on is part of what was to be sent. -/
theorem passedOn_sublist (h : PairInv pad s) (d : Bool) :
    (s.passedOn !d).Sublist (s.toSend pad d) := by
  have hsent : ((s.host d).onFibre pad).IsPrefix (s.toSend pad d) := by
    have hprefix := (h.nic d).tx.delivers.isPrefix.map fun f : SentFrame => filled pad f.bytes
    rwa [List.map_map] at hprefix
  have hpassed : (s.passedOn !d).IsPrefix (s.host !d).takenWhole := by
    obtain ⟨processed, pending, hstored, hacc⟩ := (h.nic !d).rx.accounted
    rw [passedOn, hacc.received, HostIrq.takenWhole, hstored]
    exact ((List.prefix_append processed pending).filter fun x => !x.errored).map RxFrame.bytes
  exact (hpassed.sublist.trans (h.takenWhole_sublist d)).trans hsent.sublist

end PairInv

theorem pairInv_run (ivtRam : Bool → LineNr → BitVec 32) (hw : Bool → PowerOn)
    (rx2 : Bool → Desc → BitVec 32) (isr : Bool → BitVec 32) (es : List PairEvent) :
    PairInv pad (run (step pad dec) (.start ivtRam hw rx2 isr) es) :=
  run_invariant (I := fun _ s => PairInv pad s) (pairInv_start ivtRam hw rx2 isr)
    (fun _ _ e h => h.step e) es

/-! ### At rest -/

/-- A host makes a run of its own. -/
theorem host_run (s : HostPair) (d : Bool) (es : List PairEvent) :
    (run (step pad dec) s es).host d = run (HostIrq.step dec) (s.host d)
      (collect (step pad dec) (fun s e => s.hostEvents d e) s es) :=
  run_collect (f := fun s => s.host d) (fun _ _ => rfl) s es

theorem along_hostEvents {e : PairEvent} (h : s.InPeace d e) :
    Along (HostIrq.step dec) HostIrq.InPeace (s.host d) (s.hostEvents d e) := by
  cases e with
  | host d' e =>
    simp only [hostEvents]
    split_ifs with hd
    · exact ⟨h hd.1, trivial⟩
    · trivial
  | lose d' i => trivial
  | arrive d' frame =>
    simp only [hostEvents]
    split_ifs
    · exact ⟨trivial, trivial⟩
    · trivial

/-- **From host to host.** In every run of two hosts on a fibre, of which every part moves in any
order: the frames that one driver has passed on are a subsequence of those that the other has
accepted, in order and with their bytes, filled up to 60. When the driver is bound in peace, and
there is nothing left to send, nothing on its way and nothing left to do at the receiver, the frames
passed on are all the accepted ones exactly if in the whole run no frame of that direction has been
lost, was broken or found no descriptor. -/
theorem delivered_iff (dec : PriorityDecode) (pad : ℕ → Byte) (ivtRam : Bool → LineNr → BitVec 32)
    (hw : Bool → PowerOn) (rx2 : Bool → Desc → BitVec 32) (isr : Bool → BitVec 32)
    (es : List PairEvent) (d : Bool) :
    let start : HostPair := .start ivtRam hw rx2 isr
    let s := run (step pad dec) start es
    (s.passedOn !d).Sublist (s.toSend pad d) ∧
    (Along (step pad dec) (InPeace !d) start es → s.Settled dec d →
      (s.passedOn (!d) = s.toSend pad d ↔ Along (step pad dec) (Spares d) start es)) := by
  intro start s
  have h : PairInv pad s := pairInv_run ivtRam hw rx2 isr es
  refine ⟨h.passedOn_sublist d, fun hpeace hsettled => ?_⟩
  -- the sender has sent all it has accepted
  have hsent : (s.host d).onFibre pad = s.toSend pad d := by
    obtain ⟨q, hsplit, hholds⟩ := (h.nic d).tx.delivers
    have hempty : txSlot (s.host d).nic.sys.nic.toWrnDev (s.host d).nic.sys.txPtr = none :=
      if_neg (by rw [hsettled.sender]; exact Bool.false_ne_true)
    rw [hholds.eq_nil hempty, List.append_nil] at hsplit
    rw [HostIrq.onFibre, ← hsplit, List.map_map]
    rfl
  -- the receiver has passed on all it has taken whole
  have hpassed : s.passedOn (!d) = (s.host !d).takenWhole := by
    have hrun := @host_run pad dec start (!d) es
    have hdrained : (s.host !d).nic.sys.drained = true := by
      have hrest := hsettled.receiver
      have henabled := hsettled.enabled
      rw [hrun] at hrest henabled ⊢
      refine HostIrq.drained_of_atRest ?_ hrest henabled
      exact Along.collect (f := fun s : HostPair => s.host !d) (fun _ _ => rfl)
        (fun _ _ hp => along_hostEvents hp) hpeace
    exact ((h.nic !d).received_of_drained hdrained).1
  have hcomplete : (s.link pad d).Complete ↔ Along (step pad dec) (Spares d) start es := by
    have hstart : (start.link pad d).Complete := rfl
    refine (run_iff_along (P := fun s => (s.link pad d).Complete) (I := PairInv pad)
      (pairInv_start ivtRam hw rx2 isr) (fun _ e hs => hs.step e)
      (fun _ e hs => (hs.link_step d e).2) es).trans (and_iff_right hstart)
  have harrivals : (s.link pad d).arrivals = s.passedOn !d := by
    rw [Link.arrivals, link, hsettled.wire, ownPayloads_map_own, hpassed]
    exact List.append_nil _
  rw [← hcomplete, ← hsent, Link.Complete, harrivals]
  rfl

/-- One host sends a byte, and the other serves its interrupt to the end. -/
def oneByteRun : List PairEvent :=
  [.host true (.chain .up), .host false (.nic (.startXmit ⟨⟨1, fun _ => 0x2a, 0⟩, 0⟩)),
    .host false (.nic .transmit),
    .arrive false ⟨60, by decide, fun k => if k = 0 then 0x2a else 0, false, true, false, 0⟩] ++
  (HostIrq.oneFrameRun.drop 2).map (.host true)

theorem delivered_iff_one :
    let s := run (step (fun _ => 0) lowestFirst) (.start (fun _ _ => 0)
      (fun _ => ⟨fun _ => 0, fun _ => 0, fun _ => 0⟩) (fun _ _ => 0) fun _ => 0) oneByteRun
    s.passedOn true = s.toSend (fun _ => 0) false ∧ (s.toSend (fun _ => 0) false).length = 1 := by
  intro s
  have hpeace : Along (step (fun _ => 0) lowestFirst) (InPeace true) (.start (fun _ _ => 0)
      (fun _ => ⟨fun _ => 0, fun _ => 0, fun _ => 0⟩) (fun _ _ => 0) fun _ => 0) oneByteRun := by
    refine ⟨fun _ => rfl, ?_⟩
    simp [InPeace, HostIrq.InPeace, HostIrq.oneFrameRun]
  have hchain : Vic.AtRest lowestFirst (s.host true).chain :=
    ⟨by decide +kernel, by decide +kernel, by decide +kernel,
      HostIrq.advance_of_latched (by decide +kernel) (by decide +kernel) (by decide +kernel)⟩
  have hsettled : s.Settled lowestFirst false :=
    ⟨by decide +kernel, by decide +kernel, ⟨hchain, List.eq_nil_of_length_eq_zero
      (by decide +kernel), by decide +kernel, by decide +kernel⟩, by decide +kernel⟩
  have hspares : Along (step (fun _ => 0) lowestFirst) (Spares false) (.start (fun _ _ => 0)
      (fun _ => ⟨fun _ => 0, fun _ => 0, fun _ => 0⟩) (fun _ _ => 0) fun _ => 0) oneByteRun := by
    refine ⟨trivial, trivial, trivial, fun _ _ => ⟨rfl, by decide +kernel⟩, ?_⟩
    simp [Spares, HostIrq.oneFrameRun]
  exact ⟨((delivered_iff lowestFirst (fun _ => 0) _ _ _ _ oneByteRun false).2 hpeace
    hsettled).mpr hspares, by decide +kernel⟩

end HostPair

end SpecSw.Nic
