import SpecSw.Dio.Train

/-!
# Stopping a pulse train

A PULSE with `F_LOOP` and a value of 0 ought to stop the pulses of its channel. It does set the
count to 0, so that the interrupt programs no further pulse; but `wrn_dio_cmd_pulse` goes on behind
the set-up of the train and programs a pulse itself. With `F_NOW` it does not get there, nor does
it get to the count.

So the command stops the channel only if it sends an immediate pulse and there is no train to stop
(`stop_iff`).

## Main results

* `Dio.stop_iff`, `Dio.not_forall_stop`.
-/

namespace SpecSw.Dio

open EventRun

/-- The command that is to turn a train off. -/
def WrDioCmd.IsStop (cmd : WrDioCmd) : Prop := cmd.has wrDioFLoop = true ∧ cmd.value = 0

/-- From here on, no pulse is programmed on the channel before another PULSE on it: the ioctl
programs none, nor do the events after it. -/
def StopsPulses (d : WrnDrvdata) (ch ioctlcmd : ℕ) (u : UserCall) : Prop :=
  ∀ es : List DioEvent, (∀ e ∈ es, ¬ e.pulseOn ch) →
    (run step d (.ioctl ioctlcmd u :: es)).triggersOn ch = d.triggersOn ch

/-- An interrupt that finds a sample on every channel. -/
def stampAll : DioIrq := ⟨true, 0, 0, wrnDioIrqMask, fun _ => [⟨0, 0, 0⟩]⟩

theorem stampAll_stampsOn {ch : ℕ} (hch : ch < 5) : stampAll.stampsOn ch = true := by
  have hserved : servedChannels wrnDioIrqMask = List.range 5 := rfl
  simp [DioIrq.stampsOn, stampAll, hserved, hch]

/-- A train that has ended programs nothing. -/
theorem triggersOn_run_of_count_zero {d : WrnDrvdata} (h : OwnTarget d) {ch : ℕ} (hch : ch < 5)
    (hcount : (d.ch ch).count = 0) {es : List DioEvent} (hes : ∀ e ∈ es, ¬ e.pulseOn ch) :
    (run step d es).triggersOn ch = d.triggersOn ch := by
  have hrun := congrArg Train.triggers (train_run h hch hes)
  have hzero : (train ch d).count = 0 := hcount
  rw [Train.iterate_next_triggers, hzero, pulsesIn_zero_count] at hrun
  simpa [pulses, train] using hrun

/-- A train that has not ended programs a pulse at the next stamp. -/
theorem triggersOn_stamp {d : WrnDrvdata} (h : OwnTarget d) {ch : ℕ} (hch : ch < 5)
    (hcount : (d.ch ch).count ≠ 0) {e : DioEvent} (hno : ¬ e.pulseOn ch)
    (hstamp : e.stampsOn ch = true) : (step d e).triggersOn ch ≠ d.triggersOn ch := by
  have hcount' : (train ch d).count ≠ 0 := hcount
  have hstep := congrArg Train.triggers (train_step h hch hno)
  rw [if_pos hstamp, Train.next, if_neg hcount'] at hstep
  intro heq
  have hlen := congrArg List.length (hstep.symm.trans heq)
  simp [train] at hlen

/-- **Stopping.** In any state reached, a PULSE with `F_LOOP` and the value 0 stops the pulses of
its channel exactly when it also has `F_NOW` and the count of the channel is already 0. -/
theorem stop_iff (hw : PowerOn) (es₀ : List DioEvent) (ioctlcmd : ℕ) (u : UserCall)
    (cmd : WrDioCmd) (hruns : u.runs ioctlcmd = some (.pulse, cmd))
    (hle : cmd.channel.toNat ≤ 4) (hcmd : cmd.IsStop) :
    let d := run step (wrnMezzanineInit hw) es₀
    StopsPulses d cmd.channel.toNat ioctlcmd u ↔
      cmd.has wrDioFNow = true ∧ (d.ch cmd.channel.toNat).count = 0 := by
  intro d
  have hown : OwnTarget d := ownTarget_run hw es₀
  have hlt : cmd.channel.toNat < 5 := Nat.lt_succ_of_le hle
  have hnext : OwnTarget (step d (.ioctl ioctlcmd u)) := hown.step _
  have hsame : cmd.has wrDioFNow = true → train cmd.channel.toNat (step d (.ioctl ioctlcmd u)) =
      train cmd.channel.toNat d := by
    intro hnow
    rw [step_of_runs_pulse hruns]
    exact train_wrnDioCmdPulse_now hnow _ u.utc d
  constructor
  · intro hstop
    have hnow : cmd.has wrDioFNow = true := by
      by_contra hnot
      have hrun := pulseTrain_run hown hruns rfl hle (Bool.eq_false_of_not_eq_true hnot) hcmd.1
        (fun e he => absurd he List.not_mem_nil)
      have hlen := congrArg List.length (hrun.symm.trans (hstop [] (by simp)))
      simp [pulses] at hlen
    refine ⟨hnow, ?_⟩
    by_contra hcount
    have hcount' : ((step d (.ioctl ioctlcmd u)).ch cmd.channel.toNat).count ≠ 0 := by
      rw [show ((step d (.ioctl ioctlcmd u)).ch cmd.channel.toNat).count =
        (d.ch cmd.channel.toNat).count from congrArg Train.count (hsame hnow)]
      exact hcount
    refine triggersOn_stamp hnext hlt hcount' (e := .interrupt stampAll) id
      (stampAll_stampsOn hlt) ?_
    exact (hstop [.interrupt stampAll] (by simp [DioEvent.pulseOn])).trans
      (congrArg Train.triggers (hsame hnow)).symm
  · rintro ⟨hnow, hcount⟩ es hes
    have hcount' : ((step d (.ioctl ioctlcmd u)).ch cmd.channel.toNat).count = 0 :=
      (congrArg Train.count (hsame hnow)).trans hcount
    rw [run_cons, triggersOn_run_of_count_zero hnext hlt hcount' hes]
    exact congrArg Train.triggers (hsame hnow)

/-- A stop command on a channel that runs an endless train, without `F_NOW`: it programs a pulse. -/
theorem not_forall_stop : ¬ ∀ (hw : PowerOn) (es₀ : List DioEvent) (u : UserCall) (cmd : WrDioCmd),
    u.runs privMezzanineCmd = some (.pulse, cmd) → cmd.channel.toNat ≤ 4 → cmd.IsStop →
      StopsPulses (run step (wrnMezzanineInit hw) es₀) cmd.channel.toNat privMezzanineCmd u := by
  intro hall
  have hstop := hall .zero
    [.ioctl privMezzanineCmd ⟨true, some ⟨0, 0, 0xffffffff, wrDioFLoop, 0, fun _ => ⟨5, 0⟩⟩, true,
      ⟨0, 0, 0, 0⟩⟩]
    ⟨true, some ⟨0, 0, 0, wrDioFLoop, 0, fun _ => ⟨5, 0⟩⟩, true, ⟨0, 0, 0, 0⟩⟩
    ⟨0, 0, 0, wrDioFLoop, 0, fun _ => ⟨5, 0⟩⟩ rfl (by decide) ⟨by decide, rfl⟩ [] (by simp)
  exact absurd (congrArg List.length hstop) (by decide)

/-- On a channel without a train, an immediate pulse with the stop flags programs nothing. -/
theorem stop_iff_now :
    StopsPulses (wrnMezzanineInit .zero) 0 privMezzanineCmd
      ⟨true, some ⟨0, 0, 0, wrDioFLoop ||| wrDioFNow, 0, fun _ => ⟨5, 0⟩⟩, true, ⟨0, 0, 0, 0⟩⟩ :=
  (stop_iff .zero [] privMezzanineCmd
    ⟨true, some ⟨0, 0, 0, wrDioFLoop ||| wrDioFNow, 0, fun _ => ⟨5, 0⟩⟩, true, ⟨0, 0, 0, 0⟩⟩
    ⟨0, 0, 0, wrDioFLoop ||| wrDioFNow, 0, fun _ => ⟨5, 0⟩⟩ rfl (by decide)
    ⟨by decide, rfl⟩).mpr ⟨by decide, rfl⟩

end SpecSw.Dio
