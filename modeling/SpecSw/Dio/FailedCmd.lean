import SpecSw.Dio.StampWait

/-!
# Failed DIO commands

`wrn_mezzanine_ioctl` allocates a buffer for the command, copies it from user space, runs it and
copies it back. A call that fails should leave the card as it was, and every call should free its
buffer. All exits go through `out:` but the last: when `copy_to_user` fails, the command has been
run, and the call returns at once with the buffer still allocated.

The model of the ioctl in `Dio.Command` says what happens to the card; here the exits are
followed once more for what happens to the buffer.

## Main definitions

* `Dio.CmdBuffer`, `Dio.ioctlBuffer`: what is allocated and freed.
* `Dio.CallPart`: the parts of a call, each with the state before it.
* `Dio.FailsCleanly`, `Dio.UserCall.CopiesBack`.

## Main results

* `Dio.failsCleanly_iff`, `Dio.not_forall_failsCleanly`.
-/

namespace SpecSw.Dio

open EventRun

/-! ### The command buffer -/

/-- How often `cmd` has been allocated, and how often it has been freed. -/
structure CmdBuffer where
  kmallocs : ℕ
  kfrees : ℕ
  deriving DecidableEq, Repr

/-- `kfree(cmd)`. -/
def CmdBuffer.kfree (b : CmdBuffer) : CmdBuffer := { b with kfrees := b.kfrees + 1 }

/-- The end of `wrn_mezzanine_ioctl`, when the command has returned: a failing `copy_to_user` does
not go to `out`. -/
def finishBuffer (copyToUser : Bool) (r : CmdResult) (b : CmdBuffer) : CmdBuffer :=
  match r.outcome with
  | .sleeps _ => b
  | .returns _ => if copyToUser then b.kfree else b

/-- A case of the `switch`, with what follows it. -/
def runBuffer (u : UserCall) (d : WrnDrvdata) (cmd : WrDioCmd) (b : CmdBuffer) :
    WrDioCmdName → CmdBuffer
  | .pulse => finishBuffer u.copyToUser (wrnDioCmdPulse u.utc d cmd) b
  | .stamp => finishBuffer u.copyToUser (wrnDioCmdStamp d cmd) b
  | .inout => finishBuffer u.copyToUser (wrnDioCmdInout d cmd) b
  | .dac => b.kfree

/-- What `wrn_mezzanine_ioctl` has done with its buffer when it returns or first sleeps. -/
def ioctlBuffer (ioctlcmd : ℕ) (u : UserCall) (d : WrnDrvdata) : CmdBuffer :=
  if ioctlcmd = privMezzanineId then ⟨0, 0⟩
  else if ioctlcmd ≠ privMezzanineCmd then ⟨0, 0⟩
  else if !u.kmalloc then ⟨0, 0⟩
  else
    let b : CmdBuffer := ⟨1, 0⟩
    match u.copyFromUser with
    | none => b.kfree
    | some cmd =>
      match wrDioCmdName cmd.command with
      | none => b.kfree
      | some name => runBuffer u d cmd b name

/-! ### Calls that fail cleanly -/

/-- The parts of one `PRIV_MEZZANINE_CMD` call from the state `d₀`, each with the state before it:
what it does until it returns or first sleeps, and what follows each sleep, the state having
become any other in the meantime. -/
inductive CallPart (u : UserCall) (d₀ : WrnDrvdata) : WrnDrvdata → IoctlResult → CmdBuffer → Prop
  | call : CallPart u d₀ d₀ (wrnMezzanineIoctl privMezzanineCmd u d₀)
      (ioctlBuffer privMezzanineCmd u d₀)
  | resume {d r b ch cmd} (h : CallPart u d₀ d r b) (hsleeps : r.outcome = .sleeps ch)
      (hcmd : r.cmd = some cmd) (signalPending : Bool) (d' : WrnDrvdata) :
      CallPart u d₀ d' (mezzanineResume signalPending u.copyToUser d' cmd)
        (finishBuffer u.copyToUser (stampResume signalPending d' cmd) b)

/-- The call returns a value that is no error. -/
def Outcome.Succeeds : Outcome → Prop
  | .returns ret => 0 ≤ ret
  | .sleeps _ => False

instance : DecidablePred Outcome.Succeeds
  | .returns ret => inferInstanceAs (Decidable (0 ≤ ret))
  | .sleeps _ => inferInstanceAs (Decidable False)

/-- A part of a call changes the card only if the call succeeds with it, the result reaching user
space, and when the call returns the buffer it has allocated has been freed once. -/
structure CleanPart (d : WrnDrvdata) (r : IoctlResult) (b : CmdBuffer) : Prop where
  unchanged : ¬ r.outcome.Succeeds → r.drvdata = d
  replied : r.outcome.Succeeds → r.replied = true
  freed : ∀ ret, r.outcome = .returns ret → b.kfrees = b.kmallocs

/-- All parts of the call are clean. -/
def FailsCleanly (u : UserCall) (d₀ : WrnDrvdata) : Prop :=
  ∀ d r b, CallPart u d₀ d r b → CleanPart d r b

/-- The command is one of those that are copied back. -/
def UserCall.CopiesBack (u : UserCall) : Prop :=
  ∃ name cmd, u.runs privMezzanineCmd = some (name, cmd) ∧ name ≠ .dac

/-! ### The exits -/

/-- A call that gets to a command frees its buffer where the command does. -/
theorem ioctlBuffer_of_runs {u : UserCall} {name : WrDioCmdName} {cmd : WrDioCmd}
    (hruns : u.runs privMezzanineCmd = some (name, cmd)) (d : WrnDrvdata) :
    ioctlBuffer privMezzanineCmd u d = runBuffer u d cmd ⟨1, 0⟩ name := by
  have hid : privMezzanineCmd ≠ privMezzanineId := by decide
  by_cases hk : u.kmalloc = true
  · rw [UserCall.runs, if_pos ⟨rfl, hk⟩] at hruns
    obtain ⟨cmd', hcopy, hname⟩ := Option.bind_eq_some_iff.mp hruns
    obtain ⟨name', hname', hpair⟩ := Option.map_eq_some_iff.mp hname
    obtain ⟨rfl, rfl⟩ := Prod.mk.inj hpair
    simp [ioctlBuffer, hid, hk, hcopy, hname']
  · rw [UserCall.runs, if_neg fun h => hk h.2] at hruns
    exact absurd hruns (by simp)

/-- A call that gets to no command has freed what it has allocated. -/
theorem ioctlBuffer_of_not_runs {u : UserCall} (hruns : u.runs privMezzanineCmd = none)
    (d : WrnDrvdata) :
    (ioctlBuffer privMezzanineCmd u d).kfrees = (ioctlBuffer privMezzanineCmd u d).kmallocs := by
  have hid : privMezzanineCmd ≠ privMezzanineId := by decide
  cases hk : u.kmalloc with
  | false => simp [ioctlBuffer, hid, hk]
  | true =>
    rw [UserCall.runs, if_pos ⟨rfl, hk⟩] at hruns
    cases hcopy : u.copyFromUser with
    | none => simp [ioctlBuffer, hid, hk, hcopy, CmdBuffer.kfree]
    | some cmd =>
      have hname : wrDioCmdName cmd.command = none := by
        simpa [hcopy] using hruns
      simp [ioctlBuffer, hid, hk, hcopy, hname, CmdBuffer.kfree]

/-! ### The commands -/

/-- A command that does not succeed leaves the card as it is. -/
def CmdResult.Clean (d : WrnDrvdata) (r : CmdResult) : Prop :=
  ¬ r.outcome.Succeeds → r.drvdata = d

theorem pulse_clean (utc : UtcReads) (d : WrnDrvdata) (cmd : WrDioCmd) :
    (wrnDioCmdPulse utc d cmd).Clean d := by
  intro hfail
  by_cases hch : 4 < cmd.channel.toNat
  · rw [wrnDioCmdPulse, if_pos hch]
  · rw [pulse_outcome, if_neg hch] at hfail
    exact absurd (le_refl 0) hfail

theorem stampAgain_clean (d : WrnDrvdata) (cmd : WrDioCmd) : (stampAgain d cmd).Clean d := by
  intro hfail
  cases hfirst : (queues d).first (chSelect cmd).channels with
  | none => exact (stampAgain_of_none hfirst).1
  | some ch =>
    rw [(stampAgain_of_some hfirst).2.2.1] at hfail
    exact absurd (le_refl 0) hfail

theorem stamp_clean (d : WrnDrvdata) (cmd : WrDioCmd) : (wrnDioCmdStamp d cmd).Clean d := by
  rw [wrnDioCmdStamp]
  split_ifs
  · exact fun _ => rfl
  · exact stampAgain_clean d cmd

theorem stampResume_clean (signalPending : Bool) (d : WrnDrvdata) (cmd : WrDioCmd) :
    (stampResume signalPending d cmd).Clean d := by
  cases signalPending with
  | true => exact fun _ => rfl
  | false => exact stampAgain_clean d cmd

theorem inout_clean (d : WrnDrvdata) (cmd : WrDioCmd) : (wrnDioCmdInout d cmd).Clean d :=
  fun hfail => absurd (le_refl 0) hfail

/-! ### Copying the command back -/

/-- When the command can be copied back, the end of the call is clean if the command is. -/
theorem CmdResult.Clean.finish {d : WrnDrvdata} {r : CmdResult} (h : r.Clean d) :
    CleanPart d (finishCmd true r) (finishBuffer true r ⟨1, 0⟩) := by
  cases hout : r.outcome with
  | sleeps ch =>
    have hfinish : finishCmd true r = ⟨r.drvdata, .sleeps ch, some r.cmd, false, r.touched⟩ := by
      simp only [finishCmd, hout]
    rw [hfinish]
    exact ⟨fun _ => h (by rw [hout]; exact id), fun hsucc => absurd hsucc id,
      fun ret hret => absurd hret (by simp)⟩
  | returns ret =>
    have hfinish : finishCmd true r = ⟨r.drvdata, .returns ret, some r.cmd, true, r.touched⟩ := by
      simp only [finishCmd, hout, if_true]
    have hbuffer : finishBuffer true r ⟨1, 0⟩ = ⟨1, 1⟩ := by
      simp only [finishBuffer, hout, if_true, CmdBuffer.kfree]
    rw [hfinish, hbuffer]
    exact ⟨fun hfail => h (by rwa [hout]), fun _ => rfl, fun _ _ => rfl⟩

/-- When the command cannot be copied back, a call whose command returns leaks its buffer. -/
theorem finish_leaks {d : WrnDrvdata} {r : CmdResult} {ret : ℤ} (hout : r.outcome = .returns ret) :
    ¬ CleanPart d (finishCmd false r) (finishBuffer false r ⟨1, 0⟩) := by
  intro hclean
  have hfreed := hclean.freed (-Errno.efault) (by simp [finishCmd, hout])
  simp [finishBuffer, hout] at hfreed

theorem finishBuffer_of_sleeps {r : CmdResult} {ch : ℕ} (hout : r.outcome = .sleeps ch)
    (copyToUser : Bool) (b : CmdBuffer) : finishBuffer copyToUser r b = b := by
  simp only [finishBuffer, hout]

/-! ### The main result -/

/-- A call is clean up to its first sleep when its command can be copied back or does not have to
be; and only a STAMP sleeps, with the buffer allocated. -/
theorem call_clean {u : UserCall} (hok : u.copyToUser = true ∨ ¬ u.CopiesBack) (d : WrnDrvdata) :
    CleanPart d (wrnMezzanineIoctl privMezzanineCmd u d) (ioctlBuffer privMezzanineCmd u d) ∧
      ∀ ch, (wrnMezzanineIoctl privMezzanineCmd u d).outcome = .sleeps ch →
        u.copyToUser = true ∧ ioctlBuffer privMezzanineCmd u d = ⟨1, 0⟩ := by
  cases hruns : u.runs privMezzanineCmd with
  | none =>
    obtain ⟨ret, cmd, hneg, heq⟩ := ioctl_of_not_runs hruns d
    have hfreed := ioctlBuffer_of_not_runs hruns d
    rw [heq]
    exact ⟨⟨fun _ => rfl, fun hsucc => absurd hsucc (Int.not_le.mpr hneg), fun _ _ => hfreed⟩,
      fun ch hsleeps => absurd hsleeps (by simp)⟩
  | some run =>
    obtain ⟨name, cmd⟩ := run
    rw [ioctl_of_runs hruns, ioctlBuffer_of_runs hruns]
    by_cases hdac : name = .dac
    · subst hdac
      exact ⟨⟨fun _ => rfl, fun hsucc => absurd hsucc (by decide : ¬ 0 ≤ -Errno.enotsupp),
        fun _ _ => rfl⟩, fun ch hsleeps => absurd hsleeps (by simp [runCmd])⟩
    · have hcopy : u.copyToUser = true := hok.resolve_right (not_not.mpr ⟨name, cmd, hruns, hdac⟩)
      have hfinish : ∀ r : CmdResult, r.Clean d →
          CleanPart d (finishCmd u.copyToUser r) (finishBuffer u.copyToUser r ⟨1, 0⟩) ∧
            ∀ ch, (finishCmd u.copyToUser r).outcome = .sleeps ch →
              u.copyToUser = true ∧ finishBuffer u.copyToUser r ⟨1, 0⟩ = ⟨1, 0⟩ := by
        intro r hr
        refine ⟨hcopy ▸ hr.finish, fun ch hsleeps => ⟨hcopy, ?_⟩⟩
        exact finishBuffer_of_sleeps (finishCmd_sleeps hsleeps) _ _
      cases name with
      | pulse => exact hfinish _ (pulse_clean u.utc d cmd)
      | stamp => exact hfinish _ (stamp_clean d cmd)
      | inout => exact hfinish _ (inout_clean d cmd)
      | dac => exact absurd rfl hdac

/-- **Failed commands.** A call fails cleanly exactly when its command can be copied back or is
none of those that are. -/
theorem failsCleanly_iff (u : UserCall) (d : WrnDrvdata) :
    FailsCleanly u d ↔ (u.copyToUser = true ∨ ¬ u.CopiesBack) := by
  constructor
  · intro hclean
    by_contra hnot
    obtain ⟨hcopy, hback⟩ := not_or.mp hnot
    rw [Bool.not_eq_true] at hcopy
    obtain ⟨name, cmd, hruns, hdac⟩ := not_not.mp hback
    have hpart : CallPart u d d _ _ := .call
    rw [ioctl_of_runs hruns, ioctlBuffer_of_runs hruns] at hpart
    cases name with
    | pulse =>
      rw [runCmd, runBuffer, hcopy] at hpart
      exact finish_leaks (pulse_outcome u.utc d cmd) (hclean _ _ _ hpart)
    | inout =>
      rw [runCmd, runBuffer, hcopy] at hpart
      exact finish_leaks rfl (hclean _ _ _ hpart)
    | dac => exact hdac rfl
    | stamp =>
      rw [runCmd, runBuffer, hcopy] at hpart
      cases hout : (wrnDioCmdStamp d cmd).outcome with
      | returns ret => exact finish_leaks hout (hclean _ _ _ hpart)
      | sleeps ch =>
        -- a signal ends the sleep
        have hsleeps : (finishCmd false (wrnDioCmdStamp d cmd)).outcome = .sleeps ch := by
          simp only [finishCmd, hout]
        have hresume := hpart.resume hsleeps (finishCmd_cmd false _) true d
        rw [mezzanineResume, hcopy, finishBuffer_of_sleeps hout] at hresume
        exact finish_leaks rfl (hclean _ _ _ hresume)
  · intro hok d' r b hpart
    have hgood : CleanPart d' r b ∧
        ∀ ch, r.outcome = .sleeps ch → u.copyToUser = true ∧ b = ⟨1, 0⟩ := by
      induction hpart with
      | call => exact call_clean hok d
      | resume h hsleeps hcmd signalPending d' ih =>
        obtain ⟨hcopy, rfl⟩ := ih.2 _ hsleeps
        rw [mezzanineResume, hcopy]
        refine ⟨(stampResume_clean signalPending d' _).finish, fun ch hch => ⟨rfl, ?_⟩⟩
        exact finishBuffer_of_sleeps (finishCmd_sleeps hch) _ _
    exact hgood.1

/-- A PULSE on channel 0 after the initialization, whose result cannot be copied back. -/
theorem not_forall_failsCleanly : ¬ ∀ (hw : PowerOn) (es : List DioEvent) (u : UserCall),
    FailsCleanly u (run step (wrnMezzanineInit hw) es) := by
  intro hall
  have hclean := hall .zero [] ⟨true, some ⟨0, 0, 0, wrDioFNow, 0, fun _ => ⟨0, 0⟩⟩, false,
    ⟨0, 0, 0, 0⟩⟩ _ _ _ .call
  have hiomode := congrArg (fun d => d.dio.iomode) (hclean.unchanged (by decide))
  exact absurd hiomode (by decide)

end SpecSw.Dio
