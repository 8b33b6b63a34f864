import SpecSw.Kernel
import SpecSw.Library.Receipts

/-!
# The transmit time stamps of `stamp-frame`

`send_and_stamp` sends a frame and gets its time stamp back from the error queue of the socket,
where the driver puts the frames that it has stamped, in the order in which they were sent. It asks
for a time stamp every 10 ms, for a second, and then reports a time-out. It does not look at the
frame that comes with the time stamp: a time stamp that comes too late is taken for that of the
next frame, that of the next frame for the one after it, and so on (`sendAndStamp_lag`).

`send_one_with_followup` calls it twice. The time stamp of the first frame goes into the second
one, the *follow-up*, whose own time stamp is dropped.

## Main definitions

* `Tools.StampSocket`, `Tools.SocketEvent`, `Tools.StampSocket.step`: the calls of `send_and_stamp`
  on a socket.
* `Tools.followUpTs`: what a follow-up says.

## Main results

* `Tools.sendAndStamp_lag`, `Tools.ended_of_trials`.
-/

namespace SpecSw.Tools

open EventRun Errno

/-! ### The socket -/

/-- A socket and the call of `send_and_stamp` that waits on it. -/
structure StampSocket where
  receipts : Receipts
  /-- The trials that are left, `j`. -/
  trials : ℕ

/-- What happens: a call begins, and its frame is sent or not; the driver has stamped a frame, or
will never stamp one; the call asks the error queue. -/
inductive SocketEvent
  | send (sent : Bool)
  | stamped
  | lost (j : ℕ)
  | recvmsg
  deriving DecidableEq, Repr

namespace StampSocket

def start : StampSocket := ⟨.start, 0⟩

/-- What `recvmsg` on the error queue comes to. -/
def recvmsg (s : StampSocket) : List Receipts.Event :=
  if s.receipts.queue ≠ [] then [.take] else if s.trials = 0 then [.giveUp] else []

/-- What an event is to the receipts. -/
def moves (s : StampSocket) : SocketEvent → List Receipts.Event
  | .send sent => [if sent then .post else .refuse]
  | .stamped => [.arrive]
  | .lost j => [.lose j]
  | .recvmsg => s.recvmsg

/-- The trials that are left: `j = 100` before the first one, and `j--` after one that fails. -/
def nextTrials (s : StampSocket) : SocketEvent → ℕ
  | .send _ => if s.receipts.waiting then s.trials else 100
  | .recvmsg => if s.receipts.waiting ∧ s.receipts.queue = [] then s.trials - 1 else s.trials
  | _ => s.trials

/-- Each event. -/
def step (s : StampSocket) (e : SocketEvent) : StampSocket :=
  ⟨run Receipts.step s.receipts (s.moves e), s.nextTrials e⟩

theorem receipts_run (s : StampSocket) (es : List SocketEvent) :
    (run step s es).receipts = run Receipts.step s.receipts (collect step moves s es) :=
  run_collect (fun _ _ => rfl) s es

theorem inOrder (es : List SocketEvent) : (run step start es).receipts.InOrder := by
  rw [receipts_run]
  exact Receipts.inOrder_run _

end StampSocket

/-! ### What is reported -/

/-- `struct ts_data`, of its time stamps the raw one of the hardware. -/
structure TsData where
  hwRaw : Timespec
  error : ℤ
  deriving DecidableEq, Repr

/-- `tstamp` after a call; `raw k` is the time stamp of the frame `k`. It is not written if nothing
has been sent. -/
def tsData (raw : ℕ → Timespec) : ReceiptOutcome → Option TsData
  | .refused => none
  | .gaveUp => some ⟨⟨0, 0⟩, etimedout⟩
  | .got k => some ⟨raw k, 0⟩

/-- `f->ts[offset]` in the follow-up number `m`: what the call for the frame before it says. -/
def followUpTs (raw : ℕ → Timespec) (s : StampSocket) (m : ℕ) : Option Timespec :=
  s.receipts.outcomes[2 * m]?.bind fun o => (tsData raw o).map TsData.hwRaw

/-- The calls before the call `i` that have timed out. -/
def timeouts (s : StampSocket) (i : ℕ) : ℕ :=
  (s.receipts.outcomes.take i).countP ReceiptOutcome.isGaveUp

/-- The frames before that of the call `i` that are never stamped. -/
def lostBefore (s : StampSocket) (i : ℕ) : ℕ := s.receipts.lost.countP (· < i)

/-! ### Calls -/

namespace StampSocket

variable (s : StampSocket)

theorem outcomes_run (es : List SocketEvent) :
    s.receipts.outcomes <+: (run step s es).receipts.outcomes := by
  rw [receipts_run]
  exact Receipts.outcomes_run _ _

theorem lost_run {es : List SocketEvent} (hes : ∀ e ∈ es, ∀ j, e ≠ .lost j) :
    (run step s es).receipts.lost = s.receipts.lost := by
  induction es generalizing s with
  | nil => rfl
  | cons e es ih =>
    rw [List.forall_mem_cons] at hes
    rw [run_cons, ih (s.step e) hes.2]
    refine s.receipts.lost_run fun m hm j => ?_
    cases e with
    | send sent => cases sent <;> simp_all [moves]
    | stamped => simp_all [moves]
    | lost i => exact absurd rfl (hes.1 i)
    | recvmsg =>
      simp only [moves, recvmsg] at hm
      split_ifs at hm <;> simp_all

/-- Nothing but a question to the error queue ends a call that waits. -/
theorem step_of_ne_recvmsg {s : StampSocket} (hwaiting : s.receipts.waiting = true)
    {e : SocketEvent} (he : e ≠ .recvmsg) :
    (s.step e).receipts.waiting = true ∧ (s.step e).trials = s.trials := by
  cases e with
  | send sent =>
    cases sent <;> simp [step, moves, nextTrials, Receipts.step, hwaiting]
  | stamped =>
    refine ⟨?_, rfl⟩
    simp only [step, moves, run_cons, run_nil, Receipts.step]
    split <;> exact hwaiting
  | lost j =>
    refine ⟨?_, rfl⟩
    simp only [step, moves, run_cons, run_nil, Receipts.step]
    split <;> exact hwaiting
  | recvmsg => exact absurd rfl he

/-- A question ends the call, or it is one trial less. -/
theorem step_recvmsg {s : StampSocket} (hwaiting : s.receipts.waiting = true) :
    (s.step .recvmsg).receipts.outcomes.length = s.receipts.outcomes.length + 1 ∨
      (s.step .recvmsg).receipts.waiting = true ∧
        (s.step .recvmsg).trials + 1 = s.trials := by
  cases hqueue : s.receipts.queue with
  | cons k rest =>
    left
    simp [step, moves, recvmsg, hqueue, Receipts.step, hwaiting, Receipts.ends]
  | nil =>
    by_cases htrials : s.trials = 0
    · left
      simp [step, moves, recvmsg, hqueue, htrials, Receipts.step, hwaiting, Receipts.ends]
    · right
      simp only [step, moves, recvmsg, hqueue, htrials, nextTrials, hwaiting]
      refine ⟨by simpa using hwaiting, ?_⟩
      simp only [and_self, if_true]
      omega

end StampSocket

/-- A call ends when it has asked `j + 1` times. -/
theorem ended_of_trials {s : StampSocket} (hwaiting : s.receipts.waiting = true)
    {es : List SocketEvent} (hes : s.trials < es.count .recvmsg) :
    s.receipts.outcomes.length < (run StampSocket.step s es).receipts.outcomes.length := by
  induction es generalizing s with
  | nil => exact absurd hes (Nat.not_lt_zero _)
  | cons e es ih =>
    have hfirst := (s.outcomes_run [e]).length_le
    by_cases he : e = .recvmsg
    · subst he
      rw [List.count_cons_self] at hes
      rcases StampSocket.step_recvmsg hwaiting with hended | ⟨hnext, htrials⟩
      · have hrest := ((s.step .recvmsg).outcomes_run es).length_le
        rw [run_cons]
        omega
      · have hless : (s.step .recvmsg).trials < es.count .recvmsg := by omega
        exact hfirst.trans_lt (ih hnext hless)
    · obtain ⟨hnext, htrials⟩ := StampSocket.step_of_ne_recvmsg hwaiting he
      rw [List.count_cons_of_ne he] at hes
      exact hfirst.trans_lt (ih hnext (htrials ▸ hes))

/-- **A time stamp that comes too late makes all that follow late.** A call that obtains the time
stamp of the frame `k` is late by as many stamped frames as calls before it have timed out, less the
frames before it that are never stamped: it obtains its own exactly when these are as many. After
more time-outs than there are such frames, no call obtains its own time stamp any more, as long as
every frame is stamped. -/
theorem sendAndStamp_lag (es es' : List SocketEvent) :
    let s := run StampSocket.step .start es
    let t := run StampSocket.step s es'
    (∀ i k, s.receipts.outcomes[i]? = some (.got k) → k ≤ i ∧
      (s.receipts.kept.countP fun j => k ≤ j && j < i) + lostBefore s i = timeouts s i ∧
      (k = i ↔ lostBefore s i = timeouts s i)) ∧
    (s.receipts.lost.length < timeouts s s.receipts.outcomes.length →
      (∀ e ∈ es', ∀ j, e ≠ .lost j) →
      ∀ i k, s.receipts.outcomes.length ≤ i → t.receipts.outcomes[i]? = some (.got k) → k < i) := by
  intro s t
  have hs : s.receipts.InOrder := StampSocket.inOrder es
  have ht : t.receipts.InOrder := by
    have hrun := StampSocket.inOrder (es ++ es')
    rwa [run_append] at hrun
  refine ⟨fun i k hi => ⟨hs.causal i k hi, hs.lag hi, hs.own_iff hi⟩, ?_⟩
  intro hlate hes' i k hle hi
  have hlost : t.receipts.lost = s.receipts.lost := s.lost_run hes'
  have hprefix : s.receipts.outcomes <+: t.receipts.outcomes.take i :=
    List.prefix_take_iff.mpr ⟨s.outcomes_run es', hle⟩
  have hmore : timeouts s s.receipts.outcomes.length ≤ timeouts t i := by
    rw [timeouts, List.take_length]
    exact hprefix.sublist.countP_le
  have hfew : lostBefore t i ≤ s.receipts.lost.length := by
    rw [lostBefore, hlost]
    exact List.countP_le_length
  have hne : k ≠ i := fun hown => by
    have heq : lostBefore t i = timeouts t i := (ht.own_iff hi).mp hown
    omega
  exact lt_of_le_of_ne (ht.causal i k hi) hne

/-- The first time stamp comes after 101 trials, and the second call takes it for its own. -/
example : (run StampSocket.step .start ([.send true] ++ List.replicate 101 .recvmsg ++
    [.stamped, .send true, .recvmsg, .stamped])).receipts.outcomes = [.gaveUp, .got 0] := by
  decide +kernel

/-- When every frame is sent and stamped, the follow-up `m` has the time stamp of the frame that was
sent as many frames before as calls have timed out. After one time-out, it is that of the follow-up
before it. -/
theorem followUpTs_eq (raw : ℕ → Timespec) (es : List SocketEvent) {m k : ℕ} :
    let s := run StampSocket.step .start es
    s.receipts.lost = [] → (∀ o ∈ s.receipts.outcomes, o ≠ .refused) →
      s.receipts.outcomes[2 * m]? = some (.got k) →
      followUpTs raw s m = some (raw (2 * m - timeouts s (2 * m))) := by
  intro s hlost hposted hm
  have hs : s.receipts.InOrder := StampSocket.inOrder es
  have hlag : k + timeouts s (2 * m) = 2 * m := hs.lag_of_faithful hm hlost hposted
  obtain rfl : k = 2 * m - timeouts s (2 * m) := by omega
  rw [followUpTs, hm]
  rfl

end SpecSw.Tools
