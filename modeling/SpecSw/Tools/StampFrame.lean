import Mathlib.Data.BitVec
import Mathlib.Logic.Function.Basic
import SpecSw.Library.Run

/-!
# `stamp-frame`

A sender and a listener exchange frames and their time stamps. Each of them sends a frame, which is
stamped by the hardware as it departs, and then the same frame again with the stamp in it, the
*follow-up*; each of them waits for a frame, which is stamped as it arrives, and reads one more,
which it takes for the follow-up. The listener answers forever from one buffer; a sender is run once
for each exchange, and reports the four stamps.

The programs are connected by a link in each direction, which keeps the order and may lose frames,
and frames of others may arrive at any socket. A frame is 144 bytes of memory, in which a time
stamp is the 16 bytes of a `struct timespec`, so that nothing depends on how long the frames of
others are. Where a frame comes from and when it departed and arrived is recorded beside the
programs, which cannot see it.

The second frame is read without any check, and none of the frames is checked to come from the
partner.

## Main definitions

* `Tools.StampFrame.System`, `Tools.StampFrame.Event`, `Tools.StampFrame.step`: the two programs,
  the links and the sockets.
* `Tools.StampFrame.Consistent`: the stamps of one exchange.
* `Tools.StampFrame.Paired`: a step in which nobody takes a frame for one that it is not.

## Main results

* `Tools.StampFrame.inv_step`.
* `Tools.StampFrame.consistent_throughout`.
-/

namespace SpecSw.Tools.StampFrame

open EventRun

/-! ### Frames -/

/-- A part of memory, by offsets. -/
abbrev Memory := ℕ → BitVec 8

/-- The bytes of a `struct timespec`. -/
abbrev Stamp := Fin 16 → BitVec 8

/-- Copy `n` bytes to `offset`. -/
def memcpy (f : Memory) (offset n : ℕ) (src : Memory) : Memory := fun k =>
  if offset ≤ k ∧ k < offset + n then src (k - offset) else f k

/-- `sizeof(struct frame)`. -/
def sizeofFrame : ℕ := 144

/-- `STAMP_PROTO`. -/
def stampProto : BitVec 16 := 0xf001

/-- `ntohs(f->h.ether_type)`. -/
def etherType (f : Memory) : BitVec 16 := f 12 ++ f 13

/-- `f->phase`. -/
def phase (f : Memory) : BitVec 16 := f 15 ++ f 14

/-- `f->ts`. -/
def ts (f : Memory) : Fin 4 → Stamp := fun i k => f (16 + 16 * i + k)

/-- Fill ether header: the destination is broadcast. -/
def fillHeader (mac f : Memory) : Memory :=
  let f := memcpy f 0 6 fun _ => 0xff
  let f := memcpy f 6 6 mac
  memcpy f 12 2 fun k => if k = 0 then stampProto.extractLsb' 8 8 else stampProto.extractLsb' 0 8

/-- Assign `f->phase`. -/
def setPhase (f : Memory) (phase : BitVec 16) : Memory :=
  memcpy f 14 2 fun k => if k = 0 then phase.extractLsb' 0 8 else phase.extractLsb' 8 8

/-- Assign `f->ts[i]`. -/
def setTs (f : Memory) (i : Fin 4) (stamp : Stamp) : Memory :=
  memcpy f (16 + 16 * i) 16 fun k => if h : k < 16 then stamp ⟨k, h⟩ else 0

theorem ts_memcpy_header (f src : Memory) {offset n : ℕ} (h : offset + n ≤ 16) :
    ts (memcpy f offset n src) = ts f := by
  funext i k
  rw [ts, memcpy, if_neg (by omega)]
  rfl

theorem ts_memcpy_frame (f src : Memory) : ts (memcpy f 0 sizeofFrame src) = ts src := by
  funext i k
  rw [ts, memcpy, if_pos (by rw [sizeofFrame]; omega), Nat.sub_zero]
  rfl

@[simp] theorem ts_fillHeader (mac f : Memory) : ts (fillHeader mac f) = ts f := by
  rw [fillHeader, ts_memcpy_header _ _ (by decide), ts_memcpy_header _ _ (by decide),
    ts_memcpy_header _ _ (by decide)]

@[simp] theorem ts_setPhase (f : Memory) (phase : BitVec 16) : ts (setPhase f phase) = ts f :=
  ts_memcpy_header _ _ (by decide)

@[simp] theorem ts_setTs (f : Memory) (i : Fin 4) (stamp : Stamp) :
    ts (setTs f i stamp) = Function.update (ts f) i stamp := by
  funext j k
  by_cases hij : j = i
  · subst hij
    rw [Function.update_self, ts, setTs, memcpy, if_pos (by omega)]
    simp only [Nat.add_sub_cancel_left, k.isLt, dif_pos]
  · have hne : j.val ≠ i.val := fun h => hij (Fin.ext h)
    rw [Function.update_of_ne hij, ts, setTs, memcpy, if_neg (by omega)]
    rfl

/-! ### The programs -/

/-- The two programs: `main` without and with `listen`. -/
inductive Role
  | sender
  | listener
  deriving DecidableEq, Repr

namespace Role

def other : Role → Role
  | sender => listener
  | listener => sender

/-- The `offset` of `send_one_with_followup`. -/
def sendOffset : Role → Fin 4
  | sender => 0
  | listener => 2

/-- The `offset` of `recv_one_with_followup`. -/
def recvOffset : Role → Fin 4
  | sender => 3
  | listener => 1

end Role

/-- Where a frame comes from: it is the first one, or the follow-up, of the `id`-th that a program
has sent, or it is of others. -/
inductive Origin
  | first (r : Role) (id : ℕ)
  | followUp (r : Role) (id : ℕ)
  | foreign
  deriving DecidableEq, Repr

/-- The number of a first frame. -/
def Origin.firstId : Origin → Option ℕ
  | .first _ id => some id
  | _ => none

/-- A frame on its way. -/
structure Packet where
  len : ℕ
  data : Memory
  origin : Origin

/-- A frame at a socket, with the stamp of its arrival. -/
structure Received where
  packet : Packet
  arrival : Stamp

/-- Where a program is: a sender that has not been started, before and between the two calls of
`send_and_stamp`, in the loop of `recv_one_with_followup` and after it, with the stamp that
`stamp` has there, and at `report_times`. -/
inductive Control
  | idle
  | sending
  | following (stamp : Stamp) (id : ℕ)
  | receiving
  | accepting (stamp : Stamp) (origin : Origin)
  | reporting

/-- A program, with its frame `f` and the frames that wait at its socket. `accepted` is the number
of the frame that it has received last. -/
structure Proc where
  f : Memory
  control : Control
  socket : List Received
  accepted : Option ℕ

/-- Where a program goes on after `recv_one_with_followup`. -/
def Role.afterRecv : Role → Control
  | .sender => .reporting
  | .listener => .sending

/-- A good frame: the tests of the loop of `recv_one_with_followup`. -/
def goodFrame (ret : ℕ) (f : Memory) : Bool :=
  ret == sizeofFrame && etherType f == stampProto && phase f == 0

/-- The end of `recv_one_with_followup`. -/
def Proc.received (r : Role) (P : Proc) (stamp : Stamp) (origin : Origin) : Proc :=
  { P with
    f := setTs P.f r.recvOffset stamp
    control := r.afterRecv
    accepted := origin.firstId }

/-- A call of `recv_and_stamp` in `recv_one_with_followup` that gets the frame `q`. -/
def Proc.recv (r : Role) (P : Proc) (q : Received) (rest : List Received) : Proc :=
  let ret := min q.packet.len sizeofFrame
  let f := memcpy P.f 0 ret q.packet.data
  match P.control with
  | .receiving =>
    if goodFrame ret f then
      { P with f := f, socket := rest, control := .accepting q.arrival q.packet.origin }
    else { P with f := f, socket := rest }
  | .accepting stamp origin => { P with f := f, socket := rest }.received r stamp origin
  | _ => P

/-- A call of `recv_and_stamp` that fails. -/
def Proc.recvError (r : Role) (P : Proc) : Proc :=
  match P.control with
  | .accepting stamp origin => P.received r stamp origin
  | _ => P

/-! ### The system -/

/-- What happens to first frames: the departure of one, which may be a reply to another, and the
arrival of one at a socket. -/
inductive Happening
  | departed (r : Role) (id : ℕ) (replyTo : Option ℕ) (stamp : Stamp)
  | arrived (r : Role) (id : ℕ) (stamp : Stamp)

/-- The programs, the links to each of them, the number of the next frame, and what has happened. -/
structure System where
  proc : Role → Proc
  wire : Role → List Packet
  nextId : ℕ
  log : List Happening

namespace System

/-- The listener has been started. -/
def start : System where
  proc
    | .sender => ⟨fun _ => 0, .idle, [], none⟩
    | .listener => ⟨fun _ => 0, .receiving, [], none⟩
  wire _ := []
  nextId := 0
  log := []

def setProc (s : System) (r : Role) (P : Proc) : System :=
  { s with proc := Function.update s.proc r P }

def setWire (s : System) (r : Role) (w : List Packet) : System :=
  { s with wire := Function.update s.wire r w }

def record (s : System) (hs : List Happening) : System := { s with log := s.log ++ hs }

end System

/-- What can happen: a sender is run, possibly in place of one that has not come to its end; a
program makes its next call of `send_and_stamp`, with the stamp of the departure; the link to a
program delivers or loses a frame; a frame of others arrives; a program gets a frame or an error
from `recv_and_stamp`. -/
inductive Event
  | run
  | send (r : Role) (stamp : Stamp)
  | deliver (r : Role) (stamp : Stamp)
  | lose (r : Role)
  | foreign (r : Role) (len : ℕ) (data : Memory) (stamp : Stamp)
  | recv (r : Role)
  | recvError (r : Role)

section Step

variable (mac : Role → Memory) (s : System)

/-- The next call of `send_and_stamp` in `send_one_with_followup`. -/
def sendStep (r : Role) (stamp : Stamp) : System :=
  let P := s.proc r
  match P.control with
  | .sending =>
    let f := setPhase (fillHeader (mac r) P.f) 0
    let s := s.record [.departed r s.nextId P.accepted stamp]
    let s := s.setWire r.other (s.wire r.other ++ [⟨sizeofFrame, f, .first r s.nextId⟩])
    let s := s.setProc r { P with f := f, control := .following stamp s.nextId }
    { s with nextId := s.nextId + 1 }
  | .following stamp id =>
    let f := setTs (setPhase P.f 1) r.sendOffset stamp
    let s := s.setWire r.other (s.wire r.other ++ [⟨sizeofFrame, f, .followUp r id⟩])
    s.setProc r { P with f := f, control := .receiving }
  | _ => s

/-- The record of an arrival. -/
def arrivalOf (r : Role) (stamp : Stamp) : Origin → List Happening
  | .first _ id => [.arrived r id stamp]
  | _ => []

/-- A frame arrives at the socket of a program. -/
def arrive (r : Role) (p : Packet) (stamp : Stamp) : System :=
  let P := s.proc r
  (s.record (arrivalOf r stamp p.origin)).setProc r { P with socket := P.socket ++ [⟨p, stamp⟩] }

/-- What an event does. -/
def step : Event → System
  | .run => s.setProc .sender ⟨fun _ => 0, .sending, [], none⟩
  | .send r stamp => sendStep mac s r stamp
  | .deliver r stamp =>
    match s.wire r with
    | [] => s
    | p :: rest => arrive (s.setWire r rest) r p stamp
  | .lose r => s.setWire r (s.wire r).tail
  | .foreign r len data stamp => arrive s r ⟨len, data, .foreign⟩ stamp
  | .recv r =>
    match (s.proc r).socket with
    | [] => s
    | q :: rest => s.setProc r ((s.proc r).recv r q rest)
  | .recvError r => s.setProc r ((s.proc r).recvError r)

end Step

/-! ### The stamps of one exchange -/

/-- The stamps are the departure and arrival of one forward frame, and the departure and arrival of
the reply of the listener to that frame. -/
def Consistent (log : List Happening) (t : Fin 4 → Stamp) : Prop :=
  ∃ n m, .departed .sender n none (t 0) ∈ log ∧ .arrived .listener n (t 1) ∈ log ∧
    .departed .listener m (some n) (t 2) ∈ log ∧ .arrived .sender m (t 3) ∈ log

/-- When the sender calls `report_times`, the stamps are those of one exchange. -/
def Reports (s : System) : Prop :=
  match (s.proc .sender).control with
  | .reporting => Consistent s.log (ts (s.proc .sender).f)
  | _ => True

/-- A program that gets a frame while it waits for one does not take it for a good frame unless it
is a first frame of its partner, and the frame that it gets next is the follow-up to that one. -/
def Paired (s : System) : Event → Prop
  | .recv r =>
    match (s.proc r).socket, (s.proc r).control with
    | q :: _, .receiving =>
      let ret := min q.packet.len sizeofFrame
      goodFrame ret (memcpy (s.proc r).f 0 ret q.packet.data) = true →
        ∃ id, q.packet.origin = .first r.other id
    | q :: _, .accepting _ origin =>
      ∃ id, origin = .first r.other id ∧ q.packet.origin = .followUp r.other id
    | _, _ => True
  | .recvError r =>
    match (s.proc r).control with
    | .accepting _ _ => False
    | _ => True
  | _ => True

/-! ### The invariant -/

/-- The stamps in the follow-up to a frame: of the departure of that frame and, if it is a reply, of
the frame that it replies to. -/
def Knows (log : List Happening) (t : Fin 4 → Stamp) : Role → ℕ → Prop
  | .sender, id => .departed .sender id none (t 0) ∈ log
  | .listener, id => ∃ n, .departed .listener id (some n) (t 2) ∈ log ∧
      .departed .sender n none (t 0) ∈ log ∧ .arrived .listener n (t 1) ∈ log

/-- The stamps of a program that has received a frame and its follow-up. -/
def Heard (log : List Happening) (t : Fin 4 → Stamp) (r : Role) (id : ℕ) : Prop :=
  Knows log t r.other id ∧ .arrived r id (t r.recvOffset) ∈ log

/-- What holds of a frame: a follow-up has the stamps. -/
def Packet.Genuine (log : List Happening) (p : Packet) : Prop :=
  match p.origin with
  | .followUp r id => p.len = sizeofFrame ∧ Knows log (ts p.data) r id
  | _ => True

theorem Packet.genuine_first (log : List Happening) (len : ℕ) (f : Memory) (r : Role) (id : ℕ) :
    Packet.Genuine log ⟨len, f, .first r id⟩ := trivial

theorem Packet.genuine_foreign (log : List Happening) (len : ℕ) (f : Memory) :
    Packet.Genuine log ⟨len, f, .foreign⟩ := trivial

theorem Packet.genuine_followUp {log : List Happening} {f : Memory} {r : Role} {id : ℕ}
    (h : Knows log (ts f) r id) : Packet.Genuine log ⟨sizeofFrame, f, .followUp r id⟩ := ⟨rfl, h⟩

/-- What holds of a frame at a socket: it is genuine, and its arrival is recorded. -/
structure Received.Genuine (log : List Happening) (r : Role) (q : Received) : Prop where
  packet : q.packet.Genuine log
  arrival : ∀ h ∈ arrivalOf r q.arrival q.packet.origin, h ∈ log

/-- What the stamps of a program are, by where it is. -/
def Control.Inv (log : List Happening) (r : Role) (P : Proc) : Control → Prop
  | .sending =>
    match r with
    | .sender => P.accepted = none
    | .listener => ∃ n, P.accepted = some n ∧ Heard log (ts P.f) .listener n
  | .following stamp id => Knows log (Function.update (ts P.f) r.sendOffset stamp) r id
  | .accepting stamp origin =>
    ∃ id, origin = .first r.other id ∧ .arrived r id stamp ∈ log
  | .reporting => ∃ id, Heard log (ts P.f) r id
  | _ => True

structure Proc.Inv (log : List Happening) (r : Role) (P : Proc) : Prop where
  socket : ∀ q ∈ P.socket, q.Genuine log r
  control : P.control.Inv log r P

structure Inv (s : System) : Prop where
  proc : ∀ r, (s.proc r).Inv s.log r
  wire : ∀ r, ∀ p ∈ s.wire r, p.Genuine s.log

section Log

variable {log log' : List Happening} (hlog : log ⊆ log') {t t' : Fin 4 → Stamp} {r : Role} {id : ℕ}

include hlog

theorem Knows.mono (h : Knows log t r id) : Knows log' t r id := by
  cases r with
  | sender => exact hlog h
  | listener =>
    obtain ⟨n, hdep, hdep', harr⟩ := h
    exact ⟨n, hlog hdep, hlog hdep', hlog harr⟩

theorem Heard.mono (h : Heard log t r id) : Heard log' t r id := ⟨h.1.mono hlog, hlog h.2⟩

theorem Packet.Genuine.mono {p : Packet} (h : p.Genuine log) : p.Genuine log' := by
  rw [Packet.Genuine] at h ⊢
  split
  · next heq =>
    rw [heq] at h
    exact ⟨h.1, h.2.mono hlog⟩
  · trivial

theorem Received.Genuine.mono {q : Received} (h : q.Genuine log r) : q.Genuine log' r :=
  ⟨h.packet.mono hlog, fun x hx => hlog (h.arrival x hx)⟩

theorem Control.Inv.mono {P : Proc} {c : Control} (h : c.Inv log r P) : c.Inv log' r P := by
  cases c with
  | sending =>
    cases r with
    | sender => exact h
    | listener =>
      obtain ⟨n, hacc, hheard⟩ := h
      exact ⟨n, hacc, hheard.mono hlog⟩
  | following stamp id => exact Knows.mono hlog h
  | accepting stamp origin =>
    obtain ⟨id, horigin, harr⟩ := h
    exact ⟨id, horigin, hlog harr⟩
  | reporting =>
    obtain ⟨id, hheard⟩ := h
    exact ⟨id, hheard.mono hlog⟩
  | idle => trivial
  | receiving => trivial

theorem Proc.Inv.mono {P : Proc} (h : P.Inv log r) : P.Inv log' r :=
  ⟨fun q hq => (h.socket q hq).mono hlog, Control.Inv.mono hlog h.control⟩

end Log

namespace Inv

variable {s : System}

theorem record (h : Inv s) (hs : List Happening) : Inv (s.record hs) where
  proc r := (h.proc r).mono (List.subset_append_left s.log hs)
  wire r p hp := (h.wire r p hp).mono (List.subset_append_left s.log hs)

theorem setProc (h : Inv s) {r : Role} {P : Proc} (hP : P.Inv s.log r) : Inv (s.setProc r P) where
  proc r' := by
    rw [System.setProc]
    dsimp only
    by_cases hr : r' = r
    · subst hr
      rwa [Function.update_self]
    · rw [Function.update_of_ne hr]
      exact h.proc r'
  wire := h.wire

theorem setWire (h : Inv s) {r : Role} {w : List Packet} (hw : ∀ p ∈ w, p.Genuine s.log) :
    Inv (s.setWire r w) where
  proc := h.proc
  wire r' := by
    rw [System.setWire]
    dsimp only
    by_cases hr : r' = r
    · subst hr
      rwa [Function.update_self]
    · rw [Function.update_of_ne hr]
      exact h.wire r'

theorem appendWire (h : Inv s) {r : Role} {p : Packet} (hp : p.Genuine s.log) :
    Inv (s.setWire r (s.wire r ++ [p])) := by
  refine h.setWire fun p' hp' => ?_
  rcases List.mem_append.mp hp' with hp' | hp'
  · exact h.wire r p' hp'
  · rwa [List.mem_singleton.mp hp']

theorem nextId (h : Inv s) (n : ℕ) : Inv { s with nextId := n } := ⟨h.proc, h.wire⟩

end Inv

/-! ### Steps -/

theorem knows_update_recvOffset {log : List Happening} {t : Fin 4 → Stamp} {r : Role} {id : ℕ}
    (h : Knows log t r.other id) (stamp : Stamp) :
    Knows log (Function.update t r.recvOffset stamp) r.other id := by
  cases r with
  | sender => exact h
  | listener => exact h

theorem Proc.Inv.received {log : List Happening} {r : Role} {P : Proc} {stamp : Stamp} {id : ℕ}
    (hsocket : ∀ q ∈ P.socket, q.Genuine log r) (hknows : Knows log (ts P.f) r.other id)
    (harr : .arrived r id stamp ∈ log) : (P.received r stamp (.first r.other id)).Inv log r where
  socket := hsocket
  control := by
    have hheard : Heard log (ts (setTs P.f r.recvOffset stamp)) r id := by
      rw [ts_setTs]
      refine ⟨knows_update_recvOffset hknows stamp, ?_⟩
      rwa [Function.update_self]
    cases r with
    | sender => exact ⟨id, hheard⟩
    | listener => exact ⟨id, rfl, hheard⟩

theorem Proc.Inv.recv {log : List Happening} {r : Role} {P : Proc} (hP : P.Inv log r)
    {q : Received} {rest : List Received} (hsocket : P.socket = q :: rest)
    (hgood : P.control = .receiving →
      goodFrame (min q.packet.len sizeofFrame)
        (memcpy P.f 0 (min q.packet.len sizeofFrame) q.packet.data) = true →
      ∃ id, q.packet.origin = .first r.other id)
    (hfollow : ∀ stamp origin, P.control = .accepting stamp origin →
      ∃ id, origin = .first r.other id ∧ q.packet.origin = .followUp r.other id) :
    (P.recv r q rest).Inv log r := by
  have hq : q.Genuine log r := hP.socket q (by simp [hsocket])
  have hrest : ∀ q' ∈ rest, q'.Genuine log r := fun q' hq' => hP.socket q' (by simp [hsocket, hq'])
  have hcontrol := hP.control
  rw [Proc.recv]
  cases hc : P.control with
  | receiving =>
    dsimp only
    split_ifs with hgood'
    · obtain ⟨id, horigin⟩ := hgood hc hgood'
      refine ⟨hrest, id, horigin, hq.arrival _ ?_⟩
      rw [horigin]
      exact List.mem_singleton_self _
    · exact ⟨hrest, trivial⟩
  | accepting stamp origin =>
    obtain ⟨id, rfl, horigin⟩ := hfollow stamp origin hc
    rw [hc] at hcontrol
    obtain ⟨id', heq, harr⟩ := hcontrol
    obtain ⟨-, rfl⟩ := Origin.first.inj heq
    have hgenuine := hq.packet
    rw [Packet.Genuine, horigin] at hgenuine
    obtain ⟨hlen, hknows⟩ := hgenuine
    refine Proc.Inv.received hrest ?_ harr
    rw [hlen, min_self, ts_memcpy_frame]
    exact hknows
  | _ => exact hP

/-- When its first frame has departed, a program has the stamps for the follow-up. -/
theorem knows_departed {log : List Happening} {r : Role} {P : Proc}
    (hP : Control.Inv log r P .sending) (id : ℕ) (stamp : Stamp) :
    Knows (log ++ [.departed r id P.accepted stamp])
      (Function.update (ts P.f) r.sendOffset stamp) r id := by
  have hmem : Happening.departed r id P.accepted stamp ∈
      log ++ [.departed r id P.accepted stamp] := by simp
  cases r with
  | sender =>
    rw [show P.accepted = none from hP] at hmem ⊢
    exact hmem
  | listener =>
    obtain ⟨n, hacc, hdep, harr⟩ := hP
    rw [hacc] at hmem ⊢
    exact ⟨n, hmem, List.mem_append_left _ hdep, List.mem_append_left _ harr⟩

theorem inv_sendStep (mac : Role → Memory) {s : System} (h : Inv s) (r : Role) (stamp : Stamp) :
    Inv (sendStep mac s r stamp) := by
  have hcontrol := (h.proc r).control
  rw [sendStep]
  cases hc : (s.proc r).control with
  | sending =>
    rw [hc] at hcontrol
    have hrecord := h.record [.departed r s.nextId (s.proc r).accepted stamp]
    have hwire := hrecord.appendWire (r := r.other) (Packet.genuine_first _ sizeofFrame
      (setPhase (fillHeader (mac r) (s.proc r).f) 0) r s.nextId)
    refine Inv.nextId (hwire.setProc ?_) (s.nextId + 1)
    refine ⟨(hrecord.proc r).socket, ?_⟩
    show Knows (s.log ++ [_]) (Function.update (ts (setPhase _ 0)) _ _) r s.nextId
    rw [ts_setPhase, ts_fillHeader]
    exact knows_departed hcontrol s.nextId stamp
  | following stamp' id =>
    rw [hc] at hcontrol
    have hknows : Knows s.log (ts (setTs (setPhase (s.proc r).f 1) r.sendOffset stamp')) r id := by
      rw [ts_setTs, ts_setPhase]
      exact hcontrol
    exact Inv.setProc (h.appendWire (Packet.genuine_followUp hknows)) ⟨(h.proc r).socket, trivial⟩
  | _ => exact h

theorem inv_arrive {s : System} (h : Inv s) (r : Role) {p : Packet} (hp : p.Genuine s.log)
    (stamp : Stamp) : Inv (arrive s r p stamp) := by
  have hrecord := h.record (arrivalOf r stamp p.origin)
  refine hrecord.setProc ⟨fun q hq => ?_, (hrecord.proc r).control⟩
  rcases List.mem_append.mp hq with hq | hq
  · exact (hrecord.proc r).socket q hq
  · rw [List.mem_singleton.mp hq]
    exact ⟨hp.mono (List.subset_append_left _ _), fun x hx => List.mem_append_right _ hx⟩

theorem inv_step (mac : Role → Memory) {s : System} (h : Inv s) {e : Event} (he : Paired s e) :
    Inv (step mac s e) := by
  cases e with
  | run => exact h.setProc ⟨by simp, rfl⟩
  | send r stamp => exact inv_sendStep mac h r stamp
  | deliver r stamp =>
    rw [step]
    have hw := h.wire r
    cases hwire : s.wire r with
    | nil => exact h
    | cons p rest =>
      rw [hwire, List.forall_mem_cons] at hw
      exact inv_arrive (h.setWire hw.2) r hw.1 stamp
  | lose r => exact h.setWire fun p hp => h.wire r p (List.mem_of_mem_tail hp)
  | foreign r len data stamp => exact inv_arrive h r (Packet.genuine_foreign _ len data) stamp
  | recv r =>
    rw [step]
    cases hsocket : (s.proc r).socket with
    | nil => exact h
    | cons q rest =>
      rw [Paired, hsocket] at he
      refine h.setProc ((h.proc r).recv hsocket (fun hc => ?_) fun stamp origin hc => ?_)
      · rw [hc] at he
        exact he
      · rw [hc] at he
        exact he
  | recvError r =>
    refine h.setProc ?_
    rw [Paired] at he
    rw [Proc.recvError]
    cases hc : (s.proc r).control with
    | accepting stamp origin =>
      rw [hc] at he
      exact he.elim
    | _ => exact h.proc r

theorem inv_start : Inv .start where
  proc r := by cases r <;> exact ⟨by simp [System.start], trivial⟩
  wire r := by simp [System.start]

theorem reports_of_inv {s : System} (h : Inv s) : Reports s := by
  have hcontrol := (h.proc .sender).control
  rw [Reports]
  cases hc : (s.proc .sender).control with
  | reporting =>
    rw [hc] at hcontrol
    obtain ⟨m, ⟨n, hreply, hdep, harr⟩, harr'⟩ := hcontrol
    exact ⟨n, m, hdep, harr, hreply, harr'⟩
  | _ => trivial

/-- **One consistent exchange.** In a run in which nobody takes a frame for one that it is not, the
stamps are those of one exchange whenever the sender reports them. -/
theorem consistent_throughout (mac : Role → Memory) {es : List Event}
    (h : Along (step mac) Paired .start es) : Throughout (step mac) Reports .start es :=
  Along.throughout inv_start (fun _ => reports_of_inv) (fun _ _ hI he => inv_step mac hI he) h

/-- The stamps of an example, which differ. -/
def stampOf (b : BitVec 8) : Stamp := fun _ => b

/-- Both programs with the address zero. -/
def noMac : Role → Memory := fun _ _ => 0

/-- A whole exchange. -/
def exchange : List Event :=
  [.run, .send .sender (stampOf 1), .send .sender (stampOf 5), .deliver .listener (stampOf 2),
    .deliver .listener (stampOf 6), .recv .listener, .recv .listener,
    .send .listener (stampOf 3), .send .listener (stampOf 7), .deliver .sender (stampOf 4),
    .deliver .sender (stampOf 8), .recv .sender, .recv .sender]

theorem exchange_consistent : Throughout (step noMac) Reports .start exchange := by
  refine consistent_throughout noMac ?_
  simp only [exchange, along_cons, along_nil, and_true]
  refine ⟨trivial, trivial, trivial, trivial, trivial, fun _ => Exists.intro 0 rfl,
    Exists.intro 0 ⟨rfl, rfl⟩, trivial, trivial, trivial, trivial, fun _ => Exists.intro 1 rfl,
    Exists.intro 1 ⟨rfl, rfl⟩⟩

/-- An exchange in which the listener gets a frame of others, of 60 zeros, between the frame of the
sender and its follow-up. -/
def interrupted : List Event :=
  [.run, .send .sender (stampOf 1), .send .sender (stampOf 5), .deliver .listener (stampOf 2),
    .foreign .listener 60 (fun _ => 0) (stampOf 9), .recv .listener, .recv .listener,
    .send .listener (stampOf 3), .send .listener (stampOf 7), .deliver .sender (stampOf 4),
    .deliver .sender (stampOf 8), .recv .sender, .recv .sender]

theorem interrupted_log : (run (step noMac) .start interrupted).log =
    [.departed .sender 0 none (stampOf 1), .arrived .listener 0 (stampOf 2),
      .departed .listener 1 (some 0) (stampOf 3), .arrived .sender 1 (stampOf 4)] := rfl

/-- The listener takes the frame of others for the follow-up, and the sender reports a departure
that is not in the log. -/
theorem not_forall_consistent :
    ¬ ∀ (mac : Role → Memory) (es : List Event), Throughout (step mac) Reports .start es := by
  intro h
  have hlast : Consistent (run (step noMac) .start interrupted).log
      (ts ((run (step noMac) .start interrupted).proc .sender).f) := (h noMac interrupted).last
  obtain ⟨n, m, hdep, -⟩ := hlast
  rw [interrupted_log] at hdep
  obtain ⟨-, hstamp⟩ : n = 0 ∧
      ts ((run (step noMac) .start interrupted).proc .sender).f 0 = stampOf 1 := by
    simpa using hdep
  exact absurd (congrFun hstamp 0) (by decide)

end SpecSw.Tools.StampFrame
