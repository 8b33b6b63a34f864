import SpecSw.Dio.Interrupt
import SpecSw.Library.Run

/-!
# The DIO card as a system

Ioctls and interrupts act on the driver data in any order, each call running until it returns or
sleeps and each interrupt to its end. A STAMP that sleeps goes on with `resume`, at any later time.

An ioctl changes the state only through one of the three commands, and only if the command
structure reaches the driver (`ioctl_of_runs`). Of these, PULSE is the only one that changes
a train or programs a pulse (`wrnDioCmdPulse_cases`): STAMP moves tails (`stamp_onlyTails`) and
INOUT sets outputs (`inout_onlyOutputs`).

## Main definitions

* `Dio.DioEvent`, `Dio.step`, `Dio.UserCall.runs`.
* `Dio.triggerAt`, `Dio.pulseStart`.

## Main results

* `Dio.ioctl_of_runs`, `Dio.ioctl_of_not_runs`.
* `Dio.stamp_onlyTails`, `Dio.inout_onlyOutputs`, `Dio.ioctl_proj_eq`, `Dio.wrnDioCmdPulse_cases`.
-/

namespace SpecSw.Dio

/-- What can happen to the card. -/
inductive DioEvent
  | interrupt (irq : DioIrq)
  | ioctl (ioctlcmd : ℕ) (u : UserCall)
  | resume (signalPending copyToUser : Bool) (cmd : WrDioCmd)

/-- Each event. -/
def step (d : WrnDrvdata) : DioEvent → WrnDrvdata
  | .interrupt irq => (wrnDioInterrupt irq d).2
  | .ioctl ioctlcmd u => (wrnMezzanineIoctl ioctlcmd u d).drvdata
  | .resume signalPending copyToUser cmd =>
    (mezzanineResume signalPending copyToUser d cmd).drvdata

/-- The command that an ioctl runs, if it gets so far. -/
def UserCall.runs (u : UserCall) (ioctlcmd : ℕ) : Option (WrDioCmdName × WrDioCmd) :=
  if ioctlcmd = privMezzanineCmd ∧ u.kmalloc then
    u.copyFromUser.bind fun cmd => (wrDioCmdName cmd.command).map fun name => (name, cmd)
  else none

/-! ### What an ioctl can do -/

@[simp] theorem finishCmd_drvdata (copyToUser : Bool) (r : CmdResult) :
    (finishCmd copyToUser r).drvdata = r.drvdata := by
  unfold finishCmd
  split
  · rfl
  · split_ifs <;> rfl

@[simp] theorem finishCmd_touched (copyToUser : Bool) (r : CmdResult) :
    (finishCmd copyToUser r).touched = r.touched := by
  unfold finishCmd
  split
  · rfl
  · split_ifs <;> rfl

/-- An ioctl that gets to a command runs it. -/
theorem ioctl_of_runs {ioctlcmd : ℕ} {u : UserCall} {name : WrDioCmdName} {cmd : WrDioCmd}
    (hruns : u.runs ioctlcmd = some (name, cmd)) (d : WrnDrvdata) :
    wrnMezzanineIoctl ioctlcmd u d = runCmd u d cmd name := by
  by_cases hreach : ioctlcmd = privMezzanineCmd ∧ u.kmalloc = true
  · obtain ⟨rfl, hk⟩ := hreach
    have hid : privMezzanineCmd ≠ privMezzanineId := by decide
    rw [UserCall.runs, if_pos ⟨rfl, hk⟩] at hruns
    obtain ⟨cmd', hcopy, hname⟩ := Option.bind_eq_some_iff.mp hruns
    obtain ⟨name', hname', hpair⟩ := Option.map_eq_some_iff.mp hname
    obtain ⟨rfl, rfl⟩ := Prod.mk.inj hpair
    simp [wrnMezzanineIoctl, hid, hk, hcopy, hname']
  · rw [UserCall.runs, if_neg hreach] at hruns
    exact absurd hruns (by simp)

/-- An ioctl that gets to no command fails, leaves the state and touches nothing. -/
theorem ioctl_of_not_runs {ioctlcmd : ℕ} {u : UserCall} (hruns : u.runs ioctlcmd = none)
    (d : WrnDrvdata) : ∃ ret cmd, ret < 0 ∧
      wrnMezzanineIoctl ioctlcmd u d = ⟨d, .returns ret, cmd, false, []⟩ := by
  by_cases hid : ioctlcmd = privMezzanineId
  · exact ⟨-Errno.eagain, none, by decide, if_pos hid⟩
  · by_cases hcmd : ioctlcmd = privMezzanineCmd
    · subst hcmd
      cases hk : u.kmalloc with
      | false => exact ⟨-Errno.enomem, none, by decide, by simp [wrnMezzanineIoctl, hid, hk]⟩
      | true =>
        rw [UserCall.runs, if_pos ⟨rfl, hk⟩] at hruns
        cases hcopy : u.copyFromUser with
        | none =>
          exact ⟨-Errno.efault, none, by decide, by simp [wrnMezzanineIoctl, hid, hk, hcopy]⟩
        | some cmd =>
          have hname : wrDioCmdName cmd.command = none := by
            simpa [hcopy] using hruns
          exact ⟨-Errno.einval, some cmd, by decide,
            by simp [wrnMezzanineIoctl, hid, hk, hcopy, hname]⟩
    · exact ⟨-Errno.enoioctlcmd, none, by decide, by simp [wrnMezzanineIoctl, hid, hcmd]⟩

/-- The effect of an ioctl that runs a PULSE. -/
theorem step_of_runs_pulse {ioctlcmd : ℕ} {u : UserCall} {cmd : WrDioCmd}
    (hruns : u.runs ioctlcmd = some (.pulse, cmd)) (d : WrnDrvdata) :
    step d (.ioctl ioctlcmd u) = (wrnDioCmdPulse u.utc d cmd).drvdata := by
  rw [step, ioctl_of_runs hruns]
  exact finishCmd_drvdata u.copyToUser _

/-! ### STAMP and INOUT -/

theorem stampDrain_onlyTail (left : ℕ) (s : DrainState) :
    ∃ b, (stampDrain left s).c = { s.c with btail := b } := by
  induction left generalizing s with
  | zero => exact ⟨s.c.btail, rfl⟩
  | succ left ih =>
    rw [stampDrain]
    split_ifs
    · exact ⟨s.c.btail, rfl⟩
    · obtain ⟨b, hb⟩ := ih ⟨{ s.c with btail := s.c.btail + 1 }, s.nstamp + 1,
        Function.update s.t s.nstamp (s.c.tsbuf s.c.btail)⟩
      exact ⟨b, hb⟩

/-- The states that differ from `d` in nothing but tails. -/
def OnlyTails (d d' : WrnDrvdata) : Prop :=
  ∃ b : ℕ → Fin wrnDioBufferLen, d' = { d with ch := fun i => { d.ch i with btail := b i } }

theorem OnlyTails.refl (d : WrnDrvdata) : OnlyTails d d := ⟨fun i => (d.ch i).btail, rfl⟩

theorem onlyTails_setCh (d : WrnDrvdata) (ch : ℕ) (b : Fin wrnDioBufferLen) :
    OnlyTails d (d.setCh ch { d.ch ch with btail := b }) := by
  refine ⟨Function.update (fun i => (d.ch i).btail) ch b, ?_⟩
  have hch : Function.update d.ch ch { d.ch ch with btail := b } = fun i =>
      { d.ch i with btail := Function.update (fun i => (d.ch i).btail) ch b i } := by
    funext i
    by_cases hi : i = ch
    · subst hi
      simp
    · simp [hi]
  rw [WrnDrvdata.setCh, hch]

theorem stampLoop_onlyTails (chs : List ℕ) (d : WrnDrvdata) (cmd : WrDioCmd) :
    OnlyTails d (stampLoop chs d cmd).drvdata := by
  induction chs generalizing d cmd with
  | nil => exact OnlyTails.refl d
  | cons ch chs ih =>
    simp only [stampLoop]
    split_ifs
    · obtain ⟨b, hb⟩ := stampDrain_onlyTail wrDioNStamp ⟨d.ch ch, 0, cmd.t⟩
      rw [hb]
      exact onlyTails_setCh d ch b
    · exact ih d cmd

/-- A pass that finds no stamp leaves the command as it is. -/
theorem stampLoop_cmd (chs : List ℕ) (d : WrnDrvdata) (cmd : WrDioCmd)
    (h : (stampLoop chs d cmd).nstamp = 0) : (stampLoop chs d cmd).cmd = cmd := by
  induction chs generalizing d cmd with
  | nil => rfl
  | cons ch chs ih =>
    simp only [stampLoop] at h ⊢
    split_ifs at h ⊢ with hstamp
    · exact absurd h hstamp
    · exact ih d cmd h

theorem stampAgain_onlyTails (d : WrnDrvdata) (cmd : WrDioCmd) :
    OnlyTails d (stampAgain d cmd).drvdata := by
  have h := stampLoop_onlyTails (chSelect cmd).channels d cmd
  simp only [stampAgain]
  split_ifs <;> exact h

/-- STAMP only moves tails. -/
theorem stamp_onlyTails (d : WrnDrvdata) (cmd : WrDioCmd) :
    OnlyTails d (wrnDioCmdStamp d cmd).drvdata := by
  rw [wrnDioCmdStamp]
  split_ifs
  · exact OnlyTails.refl d
  · exact stampAgain_onlyTails d cmd

theorem resume_onlyTails (signalPending copyToUser : Bool) (d : WrnDrvdata) (cmd : WrDioCmd) :
    OnlyTails d (mezzanineResume signalPending copyToUser d cmd).drvdata := by
  rw [mezzanineResume, finishCmd_drvdata, stampResume]
  split_ifs
  · exact OnlyTails.refl d
  · exact stampAgain_onlyTails d cmd

/-- INOUT only sets outputs: the GPIO and `IOMODE`. -/
theorem inout_onlyOutputs (d : WrnDrvdata) (cmd : WrDioCmd) :
    ∃ gpio iomode, (wrnDioCmdInout d cmd).drvdata =
      { d with gpio := gpio, dio := { d.dio with iomode := iomode } } := by
  rw [wrnDioCmdInout]
  generalize WrDioCmd.value _ = value
  induction (chSelect cmd).channels generalizing d with
  | nil => exact ⟨d.gpio, d.dio.iomode, rfl⟩
  | cons ch chs ih =>
    obtain ⟨gpio, iomode, h⟩ := ih (inoutChannel value d ch)
    exact ⟨gpio, iomode, h⟩

/-- A part of the state that neither tails nor outputs belong to is changed by no other ioctl than
a PULSE. -/
theorem ioctl_proj_eq {τ : Type*} {f : WrnDrvdata → τ} {d : WrnDrvdata} {ioctlcmd : ℕ}
    {u : UserCall}
    (hpulse : ∀ cmd, u.runs ioctlcmd = some (.pulse, cmd) →
      f (wrnDioCmdPulse u.utc d cmd).drvdata = f d)
    (htails : ∀ d', OnlyTails d d' → f d' = f d)
    (houtputs : ∀ gpio iomode,
      f { d with gpio := gpio, dio := { d.dio with iomode := iomode } } = f d) :
    f (wrnMezzanineIoctl ioctlcmd u d).drvdata = f d := by
  cases hruns : u.runs ioctlcmd with
  | none =>
    obtain ⟨ret, cmd, -, heq⟩ := ioctl_of_not_runs hruns d
    rw [heq]
  | some run =>
    obtain ⟨name, cmd⟩ := run
    rw [ioctl_of_runs hruns]
    cases name with
    | pulse =>
      rw [runCmd, finishCmd_drvdata]
      exact hpulse cmd hruns
    | stamp =>
      rw [runCmd, finishCmd_drvdata]
      exact htails _ (stamp_onlyTails d cmd)
    | inout =>
      obtain ⟨gpio, iomode, heq⟩ := inout_onlyOutputs d cmd
      rw [runCmd, finishCmd_drvdata, heq]
      exact houtputs gpio iomode
    | dac => rfl

/-! ### PULSE -/

/-- What is latched for a pulse on a channel at the time `t`, in nanoseconds, before the correction
by one cycle of 8 ns. -/
def triggerAt (ch : ℕ) (t : ℤ) : Trigger :=
  let ts := setNormalizedTimespec 0 (t - 8)
  ⟨ch, BitVec.ofInt 32 ts.tvSec, BitVec.ofInt 32 (ts.tvSec / 2 ^ 32),
    BitVec.ofInt 32 (ts.tvNsec.tdiv 8)⟩

/-- The start time of a PULSE: `t[0]`, to which `F_REL` adds the current second. -/
def pulseStart (utc : UtcReads) (cmd : WrDioCmd) : Timespec := (addNow utc cmd).t 0

theorem wrnTsSub_eq (ts : Timespec) (nano : ℤ) :
    wrnTsSub ts nano = setNormalizedTimespec 0 (ts.ns - nano) := by
  rw [wrnTsSub, setNormalizedTimespec_eq, Timespec.ns, add_sub_assoc]

@[simp] theorem setupLoop_dio (ch : ℕ) (cmd : WrDioCmd) (d : WrnDrvdata) :
    (setupLoop ch cmd d).dio = d.dio := by
  unfold setupLoop
  split_ifs <;> rfl

/-- The output registers do not matter for setting up a train. -/
theorem setupLoop_ch_congr (ch : ℕ) (cmd : WrDioCmd) {d d' : WrnDrvdata} (h : d'.ch = d.ch) :
    (setupLoop ch cmd d').ch = (setupLoop ch cmd d).ch := by
  simp only [setupLoop, WrnDrvdata.setCh, h]
  split_ifs
  · rfl
  · exact h

/-- `F_LOOP` does not move the start time. -/
theorem removeFirst_t (cmd : WrDioCmd) : (removeFirst cmd).t = cmd.t := by
  unfold removeFirst
  split_ifs <;> rfl

@[simp] theorem wrnNewPulse_ch (ch : ℕ) (ts : Timespec) (d : WrnDrvdata) :
    (wrnNewPulse ch ts d).2.ch = d.ch := rfl

/-- A new pulse is latched for the time of the timespec. -/
@[simp] theorem wrnNewPulse_latched (ch : ℕ) (ts : Timespec) (d : WrnDrvdata) :
    (wrnNewPulse ch ts d).2.dio.latched = d.dio.latched ++ [triggerAt ch ts.ns] := by
  simp [wrnNewPulse, DioWb.rLatch, triggerAt, wrnTsSub_eq]

/-- A PULSE is rejected, or an immediate pulse that changes no channel and latches nothing, or
latches a pulse for its start time, having set up a train if it is to loop. -/
theorem wrnDioCmdPulse_cases (utc : UtcReads) (d : WrnDrvdata) (cmd : WrDioCmd) :
    (4 < cmd.channel.toNat ∧
        wrnDioCmdPulse utc d cmd = ⟨d, cmd, .returns (-Errno.einval), []⟩) ∨
      (cmd.channel.toNat ≤ 4 ∧ cmd.has wrDioFNow = true ∧
        (wrnDioCmdPulse utc d cmd).drvdata.ch = d.ch ∧
        (wrnDioCmdPulse utc d cmd).drvdata.dio.latched = d.dio.latched) ∨
      (cmd.channel.toNat ≤ 4 ∧ cmd.has wrDioFNow = false ∧
        (wrnDioCmdPulse utc d cmd).drvdata.ch =
          (setupLoop cmd.channel.toNat (removeFirst (addNow utc cmd)) d).ch ∧
        (wrnDioCmdPulse utc d cmd).drvdata.dio.latched =
          d.dio.latched ++ [triggerAt cmd.channel.toNat (pulseStart utc cmd).ns]) := by
  by_cases hch : 4 < cmd.channel.toNat
  · exact Or.inl ⟨hch, if_pos hch⟩
  · have hle : cmd.channel.toNat ≤ 4 := Nat.le_of_not_lt hch
    cases hnow : cmd.has wrDioFNow with
    | true =>
      refine Or.inr (Or.inl ⟨hle, rfl, ?_⟩)
      simp [wrnDioCmdPulse, hch, hnow, configureOutput]
    | false =>
      refine Or.inr (Or.inr ⟨hle, rfl, ?_, ?_⟩)
      · simp only [wrnDioCmdPulse, if_neg hch, hnow, Bool.false_eq_true, if_false, wrnNewPulse_ch]
        exact setupLoop_ch_congr _ _ rfl
      · simp only [wrnDioCmdPulse, if_neg hch, hnow, Bool.false_eq_true, if_false,
          wrnNewPulse_latched, setupLoop_dio, removeFirst_t]
        rfl

end SpecSw.Dio
