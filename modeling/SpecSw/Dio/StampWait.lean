import SpecSw.Dio.StampFifo
import SpecSw.UserIndices

/-!
# A STAMP that waits

A STAMP with `F_WAIT` that finds nothing sleeps on the queue of one channel, and goes back to
`again` when it is woken up because the ring of that channel is not empty. A pass over a mask may
look at other channels than the one slept on, so the call should reject `F_MASK` together with
`F_WAIT`. Its test uses `F_MASK || F_WAIT`, which is 1: it rejects `F_NOW` instead.

A waiting call and the card form a system. Between the steps of the call anything can happen to
the card that does not read stamps; in particular, samples arrive between the moment the condition
is found true and the next pass.

## Main definitions

* `Dio.StampCall`, `Dio.WaitSystem`, `Dio.WaitEvent`.
* `Dio.StampContract`: what a waiting STAMP is meant to do.

## Main results

* `Dio.stampAgain_spins`: a pass over a mask may find nothing although the condition is true.
* `Dio.stampContract_iff`, `Dio.not_forall_stampContract`.
-/

namespace SpecSw.Dio

open EventRun

/-! ### A waiting call -/

/-- Where a STAMP call is: asleep on the queue of a channel, past `wait_event_interruptible` with
its condition true, or back in the ioctl. -/
inductive StampCall
  | asleep (ch : ℕ) (cmd : WrDioCmd)
  | woken (ch : ℕ) (cmd : WrDioCmd)
  | returned (ret : ℤ) (cmd : WrDioCmd)

/-- The card and a STAMP call. -/
structure WaitSystem where
  drvdata : WrnDrvdata
  call : StampCall

/-- What can happen: something else on the card, a look at the condition of
`wait_event_interruptible`, or the call goes on behind it. -/
inductive WaitEvent
  | card (e : DioEvent)
  | check
  | goOn (signalPending : Bool)

/-- The event runs a STAMP. -/
def DioEvent.Reads : DioEvent → Prop
  | .interrupt _ => False
  | .ioctl ioctlcmd u => ∃ cmd, u.runs ioctlcmd = some (.stamp, cmd)
  | .resume .. => True

/-- There is another reader. -/
def WaitEvent.Reads : WaitEvent → Prop
  | .card e => e.Reads
  | .check => False
  | .goOn _ => False

namespace WaitSystem

/-- The system after a part of the call. -/
def ofResult (r : CmdResult) : WaitSystem where
  drvdata := r.drvdata
  call :=
    match r.outcome with
    | .sleeps ch => .asleep ch r.cmd
    | .returns ret => .returned ret r.cmd

/-- The system when the call has returned or first sleeps. -/
def start (d : WrnDrvdata) (cmd : WrDioCmd) : WaitSystem := ofResult (wrnDioCmdStamp d cmd)

/-- The call goes on behind `wait_event_interruptible`. Asleep, it does so with a signal only. -/
def goOn (s : WaitSystem) (signalPending : Bool) : WaitSystem :=
  match s.call with
  | .woken _ cmd => ofResult (stampResume signalPending s.drvdata cmd)
  | .asleep _ cmd => if signalPending then ofResult (stampResume true s.drvdata cmd) else s
  | .returned .. => s

/-- The condition `c->bhead != c->btail` is looked at. -/
def check (s : WaitSystem) : WaitSystem :=
  match s.call with
  | .asleep ch cmd =>
    if (s.drvdata.ch ch).bhead ≠ (s.drvdata.ch ch).btail then { s with call := .woken ch cmd }
    else s
  | .woken .. => s
  | .returned .. => s

/-- Each event. -/
def step (s : WaitSystem) : WaitEvent → WaitSystem
  | .card e => { s with drvdata := Dio.step s.drvdata e }
  | .check => s.check
  | .goOn signalPending => s.goOn signalPending

/-- If the call has been woken up, the next pass returns at least one stamp. -/
def Serves (s : WaitSystem) : Prop :=
  ∀ ch cmd, s.call = .woken ch cmd →
    (stampAgain s.drvdata cmd).outcome = .returns 0 ∧
      0 < (stampAgain s.drvdata cmd).cmd.nstamp.toNat

end WaitSystem

/-- What a STAMP is meant to do in the state `d`: reject a wait on several channels before anything
is touched and nothing else, and when it has been woken up, return a stamp in the next pass. -/
structure StampContract (d : WrnDrvdata) (cmd : WrDioCmd) : Prop where
  rejects : cmd.has wrDioFMask = true → cmd.has wrDioFWait = true →
    wrnDioCmdStamp d cmd = ⟨d, cmd, .returns (-Errno.einval), []⟩
  accepts : ¬ (cmd.has wrDioFMask = true ∧ cmd.has wrDioFWait = true) →
    (wrnDioCmdStamp d cmd).outcome ≠ .returns (-Errno.einval)
  progress : ∀ es, Along WaitSystem.step (fun _ e => ¬ e.Reads) (.start d cmd) es →
    Throughout WaitSystem.step WaitSystem.Serves (.start d cmd) es

/-! ### One pass -/

/-- A pass that is not rejected never fails with `-EINVAL`. -/
theorem stampAgain_outcome_ne (d : WrnDrvdata) (cmd : WrDioCmd) :
    (stampAgain d cmd).outcome ≠ .returns (-Errno.einval) := by
  cases hfirst : (queues d).first (chSelect cmd).channels with
  | none =>
    rw [(stampAgain_of_none hfirst).2.2]
    split_ifs
    · exact fun h => absurd h (by simp)
    · decide
  | some ch =>
    rw [(stampAgain_of_some hfirst).2.2.1]
    decide

/-- A pass that sleeps does so with `F_WAIT` set, and on the last channel. -/
theorem stampAgain_sleeps_last {d : WrnDrvdata} {cmd : WrDioCmd} {ch : ℕ}
    (h : (stampAgain d cmd).outcome = .sleeps ch) :
    cmd.has wrDioFWait = true ∧ ch = (chSelect cmd).last := by
  cases hfirst : (queues d).first (chSelect cmd).channels with
  | none =>
    rw [(stampAgain_of_none hfirst).2.2] at h
    split_ifs at h with hwait
    exact ⟨hwait, (Outcome.sleeps.inj h).symm⟩
  | some i =>
    rw [(stampAgain_of_some hfirst).2.2.1] at h
    exact absurd h (by simp)

/-- Without `F_MASK`, a pass returns a stamp if its channel has one. -/
theorem stampAgain_serves {d : WrnDrvdata} {cmd : WrDioCmd} (hmask : cmd.has wrDioFMask = false)
    (hne : queues d cmd.channel.toNat ≠ []) :
    (stampAgain d cmd).outcome = .returns 0 ∧ 0 < (stampAgain d cmd).cmd.nstamp.toNat := by
  have hfirst : (queues d).first (chSelect cmd).channels = some cmd.channel.toNat := by
    simp [channels_single hmask, Queues.first, hne]
  obtain ⟨-, hcmd, hout, hpos⟩ := stampAgain_of_some hfirst
  refine ⟨hout, ?_⟩
  rw [hcmd, toNat_stampDrain_nstamp]
  exact Nat.pos_of_ne_zero hpos

/-- With `F_MASK` and `F_WAIT`, a pass that finds nothing in the channels of the mask sleeps on
channel 4 with nothing changed, whether that channel has stamps or not. -/
theorem stampAgain_spins {d : WrnDrvdata} {cmd : WrDioCmd} (hmask : cmd.has wrDioFMask = true)
    (hwait : cmd.has wrDioFWait = true)
    (hempty : ∀ ch < 5, cmd.channel.getLsbD ch = true → queues d ch = []) :
    (stampAgain d cmd).outcome = .sleeps 4 ∧ (stampAgain d cmd).drvdata = d := by
  have hfirst : (queues d).first (chSelect cmd).channels = none := by
    rw [Queues.first_eq_none_iff, channels_mask hmask]
    intro ch hch
    obtain ⟨hlt, hbit⟩ := List.mem_filter.mp hch
    exact hempty ch (List.mem_range.mp hlt) hbit
  obtain ⟨hdrv, -, hout⟩ := stampAgain_of_none hfirst
  rw [if_pos hwait, chSelect, if_pos hmask] at hout
  exact ⟨hout, hdrv⟩

/-! ### Waiting on one channel -/

/-- Stamps are removed by readers only. -/
theorem queues_step_ne_nil {d : WrnDrvdata} {e : DioEvent} {ch : ℕ} (he : ¬ e.Reads)
    (h : queues d ch ≠ []) : queues (step d e) ch ≠ [] := by
  rw [queues_step]
  cases e with
  | interrupt irq =>
    have hlen := List.length_pos_iff.mpr h
    rw [← List.length_pos_iff]
    simp only [DioEvent.op, Queues.step, List.rtake, List.length_drop, List.length_append,
      wrnDioBufferLen]
    omega
  | ioctl ioctlcmd u =>
    simp only [DioEvent.op]
    split
    · rename_i cmd hruns
      exact absurd ⟨cmd, hruns⟩ he
    · exact h
  | resume signalPending copyToUser cmd => exact absurd trivial he

/-- A call on one channel sleeps on that channel, and when it has been woken up the channel has
stamps. -/
def WaitInv (s : WaitSystem) : Prop :=
  match s.call with
  | .asleep ch cmd => cmd.has wrDioFMask = false ∧ ch = cmd.channel.toNat
  | .woken _ cmd => cmd.has wrDioFMask = false ∧ queues s.drvdata cmd.channel.toNat ≠ []
  | .returned .. => True

namespace WaitInv

variable {s : WaitSystem}

theorem serves (h : WaitInv s) : s.Serves := by
  intro ch cmd hcall
  rw [WaitInv, hcall] at h
  exact stampAgain_serves h.1 h.2

/-- A pass that may be waited for keeps the invariant. -/
theorem stampAgain {d : WrnDrvdata} {cmd : WrDioCmd}
    (h : cmd.has wrDioFWait = true → cmd.has wrDioFMask = false) :
    WaitInv (.ofResult (stampAgain d cmd)) := by
  cases hout : (Dio.stampAgain d cmd).outcome with
  | returns ret => simp only [WaitInv, WaitSystem.ofResult, hout]
  | sleeps ch =>
    obtain ⟨hwait, hlast⟩ := stampAgain_sleeps_last hout
    have hmask := h hwait
    rw [chSelect, if_neg (Bool.eq_false_iff.mp hmask)] at hlast
    simp only [WaitInv, WaitSystem.ofResult, hout, stampAgain_sleeps hout]
    exact ⟨hmask, hlast⟩

theorem stampResume {d : WrnDrvdata} {cmd : WrDioCmd} (h : cmd.has wrDioFMask = false)
    (signalPending : Bool) : WaitInv (.ofResult (stampResume signalPending d cmd)) := by
  cases signalPending with
  | true => trivial
  | false => exact WaitInv.stampAgain fun _ => h

/-- A step without another reader keeps the invariant. -/
theorem step (h : WaitInv s) {e : WaitEvent} (he : ¬ e.Reads) : WaitInv (s.step e) := by
  obtain ⟨d, call⟩ := s
  cases call with
  | returned ret cmd => cases e <;> trivial
  | asleep ch cmd =>
    obtain ⟨hmask, rfl⟩ := h
    cases e with
    | card e => exact ⟨hmask, rfl⟩
    | check =>
      simp only [WaitSystem.step, WaitSystem.check]
      split_ifs with hne
      · exact ⟨hmask, mt (queues_eq_nil_iff d _).mp hne⟩
      · exact ⟨hmask, rfl⟩
    | goOn signalPending =>
      cases signalPending with
      | true => trivial
      | false => exact ⟨hmask, rfl⟩
  | woken ch cmd =>
    obtain ⟨hmask, hne⟩ := h
    cases e with
    | card e => exact ⟨hmask, queues_step_ne_nil he hne⟩
    | check => exact ⟨hmask, hne⟩
    | goOn signalPending => exact WaitInv.stampResume hmask signalPending

end WaitInv

/-! ### The main result -/

/-- **A waiting STAMP.** The call does what it is meant to do exactly when `F_NOW` is set for the
waits on several channels and for nothing else. -/
theorem stampContract_iff (d : WrnDrvdata) (cmd : WrDioCmd) :
    StampContract d cmd ↔
      (cmd.has wrDioFNow = true ↔ cmd.has wrDioFMask = true ∧ cmd.has wrDioFWait = true) := by
  have hnow : cmd.has wrDioFNow = true →
      wrnDioCmdStamp d cmd = ⟨d, cmd, .returns (-Errno.einval), []⟩ := fun h =>
    if_pos ((stamp_rejects_iff cmd).mpr h)
  have hagain : ¬ cmd.has wrDioFNow = true → wrnDioCmdStamp d cmd = stampAgain d cmd := fun h =>
    if_neg (mt (stamp_rejects_iff cmd).mp h)
  constructor
  · intro h
    constructor
    · intro hset
      by_contra hnot
      exact h.accepts hnot (by rw [hnow hset])
    · rintro ⟨hmask, hwait⟩
      by_contra hset
      have hrej := h.rejects hmask hwait
      rw [hagain hset] at hrej
      exact stampAgain_outcome_ne d cmd (by rw [hrej])
  · intro hiff
    refine ⟨fun hmask hwait => hnow (hiff.mpr ⟨hmask, hwait⟩), fun hnot => ?_, fun es hes => ?_⟩
    · rw [hagain (mt hiff.mp hnot)]
      exact stampAgain_outcome_ne d cmd
    · have hstart : WaitInv (.start d cmd) := by
        by_cases hset : cmd.has wrDioFNow = true
        · rw [WaitSystem.start, hnow hset]
          trivial
        · rw [WaitSystem.start, hagain hset]
          refine WaitInv.stampAgain fun hwait => Bool.eq_false_iff.mpr fun hmask => ?_
          exact hset (hiff.mpr ⟨hmask, hwait⟩)
      exact hes.throughout hstart (fun _ => WaitInv.serves) fun _ _ h he => h.step he

/-- A STAMP that waits on the mask of channel 0, after the initialization. -/
theorem not_forall_stampContract : ¬ ∀ (hw : PowerOn) (es : List DioEvent) (cmd : WrDioCmd),
    cmd.Addressed → cmd.has wrDioFWait = true →
      StampContract (run step (wrnMezzanineInit hw) es) cmd := by
  intro hall
  have hrej := (hall .zero [] ⟨1, 1, 0, wrDioFMask ||| wrDioFWait, 0, fun _ => ⟨0, 0⟩⟩
    (Or.inl (by decide)) (by decide)).rejects (by decide) (by decide)
  have hout := congrArg CmdResult.outcome hrej
  exact absurd hout (by decide)

end SpecSw.Dio
