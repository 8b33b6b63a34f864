import SpecSw.Dio.System

/-!
# Indices that user space controls

The ioctls of the network device take a channel, or a register number, from user space. PULSE
checks its channel. STAMP and INOUT check nothing: a mask selects among the five channels, but
without `F_MASK` they use the channel as it is; only the test against `F_WAIT` in STAMP, which
rejects `F_NOW` instead, stops some of these calls. And `PRIV_IOCREADREG` accepts the number just
behind the registers.

## Main definitions

* `Nic.privReadreg`: the case `PRIV_IOCREADREG` of `wrn_ioctl`.
* `Dio.IoctlPart`, `Dio.IndicesSafe`, `Dio.WrDioCmdName.Checked`.

## Main results

* `Dio.indicesSafe_iff`, `userIndices_iff`, `not_forall_userIndices`.
-/

namespace SpecSw

/-! ### Registers of the endpoint -/

namespace Nic

/-- `sizeof(struct EP_WB)`. -/
def sizeofEpWb : ℕ := 0x100

/-- What `PRIV_IOCREADREG` does: its return value, the number of the register it has read, and
what it has copied to user space. -/
structure ReadregResult where
  ret : ℤ
  readAt : Option (BitVec 32)
  reply : Option (BitVec 32)

/-- The case `PRIV_IOCREADREG` of `wrn_ioctl`, from what `get_user` yields unless it fails, whether
`put_user` succeeds, and the registers. -/
def privReadreg (getUser : Option (BitVec 32)) (putUser : Bool) (epRegs : BitVec 32 → BitVec 32) :
    ReadregResult :=
  match getUser with
  | none => ⟨-Errno.efault, none, none⟩
  | some reg =>
    if sizeofEpWb < reg.toNat ∨ reg &&& 3 ≠ 0 then ⟨-Errno.einval, none, none⟩
    else if putUser then ⟨0, some reg, some (epRegs reg)⟩
    else ⟨-Errno.efault, some reg, none⟩

/-- A register that is read lies within the structure. -/
def ReadregResult.InBounds (r : ReadregResult) : Prop :=
  ∀ reg, r.readAt = some reg → reg.toNat + 4 ≤ sizeofEpWb

/-- Two bits decide whether a number is a multiple of 4. -/
theorem toNat_mod_four {reg : BitVec 32} (h : reg &&& 3 = 0) : reg.toNat % 4 = 0 := by
  have hnat := congrArg BitVec.toNat h
  rw [BitVec.toNat_and] at hnat
  have hthree : (3 : BitVec 32).toNat = 2 ^ 2 - 1 := rfl
  rw [hthree, Nat.and_two_pow_sub_one_eq_mod] at hnat
  exact hnat

/-- The read stays within the registers for every number but the size of the structure. -/
theorem privReadreg_inBounds_iff (reg : BitVec 32) (putUser : Bool)
    (epRegs : BitVec 32 → BitVec 32) :
    (privReadreg (some reg) putUser epRegs).InBounds ↔ reg ≠ 0x100 := by
  by_cases hrej : sizeofEpWb < reg.toNat ∨ reg &&& 3 ≠ 0
  · simp only [privReadreg, if_pos hrej, ReadregResult.InBounds]
    refine iff_of_true (fun _ h => absurd h (by simp)) ?_
    rintro rfl
    exact absurd hrej (by decide)
  · have hread : (privReadreg (some reg) putUser epRegs).readAt = some reg := by
      simp only [privReadreg, if_neg hrej]
      split_ifs <;> rfl
    obtain ⟨hle, hmul⟩ := not_or.mp hrej
    have hmod := toNat_mod_four (not_not.mp hmul)
    simp only [ReadregResult.InBounds, hread, Option.some.injEq, forall_eq', sizeofEpWb] at hle ⊢
    constructor
    · rintro hin rfl
      exact absurd hin (by decide)
    · intro hne
      have hnat : reg.toNat ≠ 0x100 := fun e => hne (BitVec.eq_of_toNat_eq (by simpa using e))
      omega

end Nic

/-! ### Channels of the DIO commands -/

namespace Dio

/-- The parts of one `PRIV_MEZZANINE_CMD` call: what it does until it returns or first sleeps, and
what follows each sleep, the state having become any other in the meantime. -/
inductive IoctlPart (u : UserCall) (d : WrnDrvdata) : IoctlResult → Prop
  | call : IoctlPart u d (wrnMezzanineIoctl privMezzanineCmd u d)
  | resume {r ch cmd} (h : IoctlPart u d r) (hsleeps : r.outcome = .sleeps ch)
      (hcmd : r.cmd = some cmd) (signalPending copyToUser : Bool) (d' : WrnDrvdata) :
      IoctlPart u d (mezzanineResume signalPending copyToUser d' cmd)

/-- The call returns a negative value. -/
def Outcome.IsError : Outcome → Prop
  | .returns ret => ret < 0
  | .sleeps _ => False

/-- The command names a single channel, and not one of the five. -/
def UserCall.NamesOther (u : UserCall) : Prop :=
  ∃ name cmd, u.runs privMezzanineCmd = some (name, cmd) ∧ 4 < cmd.channel.toNat ∧
    (name = .pulse ∨ cmd.has wrDioFMask = false)

/-- A call uses the indices 0 to 4 only, and rejects any other channel with an error. -/
def IndicesSafe (u : UserCall) (d : WrnDrvdata) : Prop :=
  ∀ r, IoctlPart u d r →
    (∀ a ∈ r.touched, a.index ≤ 4) ∧ (u.NamesOther → r.outcome.IsError)

/-- A mask, or one of the five channels. -/
def WrDioCmd.Addressed (cmd : WrDioCmd) : Prop :=
  cmd.has wrDioFMask = true ∨ cmd.channel.toNat ≤ 4

/-- Where a command relies on its channel, it is a mask or one of the five channels; STAMP does not
when `F_NOW` is set. -/
def WrDioCmdName.Checked (cmd : WrDioCmd) : WrDioCmdName → Prop
  | .stamp => cmd.has wrDioFNow = true ∨ cmd.Addressed
  | .inout => cmd.Addressed
  | .pulse => True
  | .dac => True

/-! ### What the commands touch -/

theorem pulse_touched (utc : UtcReads) (d : WrnDrvdata) (cmd : WrDioCmd) :
    ∀ a ∈ (wrnDioCmdPulse utc d cmd).touched, a.index ≤ 4 := by
  intro a ha
  by_cases hch : 4 < cmd.channel.toNat
  · simp [wrnDioCmdPulse, hch] at ha
  · have hle : cmd.channel.toNat ≤ 4 := Nat.le_of_not_lt hch
    simp only [wrnDioCmdPulse, if_neg hch] at ha
    split_ifs at ha <;> simp only [List.mem_cons, List.not_mem_nil, or_false] at ha
    · rcases ha with rfl | rfl <;> exact hle
    · rcases ha with rfl | rfl | rfl <;> exact hle

theorem pulse_outcome (utc : UtcReads) (d : WrnDrvdata) (cmd : WrDioCmd) :
    (wrnDioCmdPulse utc d cmd).outcome =
      .returns (if 4 < cmd.channel.toNat then -Errno.einval else 0) := by
  by_cases hch : 4 < cmd.channel.toNat
  · simp only [wrnDioCmdPulse, if_pos hch]
  · simp only [wrnDioCmdPulse, if_neg hch]
    split_ifs <;> rfl

theorem stampLoop_touched (chs : List ℕ) (d : WrnDrvdata) (cmd : WrDioCmd) :
    ∀ a ∈ (stampLoop chs d cmd).touched, a.index ∈ chs := by
  induction chs generalizing d cmd with
  | nil => exact fun a ha => absurd ha List.not_mem_nil
  | cons ch chs ih =>
    intro a ha
    simp only [stampLoop] at ha
    split_ifs at ha
    · obtain rfl := List.mem_singleton.mp ha
      exact List.mem_cons_self
    · rcases List.mem_cons.mp ha with rfl | ha
      · exact List.mem_cons_self
      · exact List.mem_cons_of_mem ch (ih d cmd a ha)

theorem chSelect_le {cmd : WrDioCmd} (h : cmd.Addressed) :
    (∀ ch ∈ (chSelect cmd).channels, ch ≤ 4) ∧ (chSelect cmd).last ≤ 4 := by
  cases hmask : cmd.has wrDioFMask with
  | true =>
    refine ⟨fun ch hch => ?_, by simp [chSelect, hmask]⟩
    rw [channels_mask hmask] at hch
    exact Nat.le_of_lt_succ (List.mem_range.mp (List.mem_of_mem_filter hch))
  | false =>
    have hle : cmd.channel.toNat ≤ 4 := h.resolve_left (by simp [hmask])
    refine ⟨?_, by simpa [chSelect, hmask] using hle⟩
    simpa [channels_single hmask] using hle

/-- The test of STAMP against `F_MASK || F_WAIT` is a test of `F_NOW`. -/
theorem stamp_rejects_iff (cmd : WrDioCmd) :
    cmd.flags &&& logicalOr wrDioFMask wrDioFWait = logicalOr wrDioFMask wrDioFWait ↔
      cmd.has wrDioFNow = true := by
  have hone : logicalOr wrDioFMask wrDioFWait = 1 := rfl
  have hbit : cmd.flags &&& 1 = (BitVec.ofBool (cmd.flags.getLsbD 0)).setWidth 32 :=
    BitVec.and_one_eq_setWidth_ofBool_getLsbD
  rw [hone, WrDioCmd.has, show wrDioFNow = 1 from rfl, bne_iff_ne, ne_eq]
  cases hflag : cmd.flags.getLsbD 0 <;> rw [hflag] at hbit <;> rw [hbit] <;> decide

theorem stampAgain_touched {cmd : WrDioCmd} (h : cmd.Addressed) (d : WrnDrvdata) :
    ∀ a ∈ (stampAgain d cmd).touched, a.index ≤ 4 := by
  obtain ⟨hchs, hlast⟩ := chSelect_le h
  have hloop : ∀ a ∈ (stampLoop (chSelect cmd).channels d cmd).touched, a.index ≤ 4 :=
    fun a ha => hchs a.index (stampLoop_touched _ d cmd a ha)
  intro a ha
  simp only [stampAgain] at ha
  split_ifs at ha
  · rcases List.mem_append.mp ha with ha | ha
    · exact hloop a ha
    · obtain rfl := List.mem_singleton.mp ha
      exact hlast
  · exact hloop a ha
  · exact hloop a ha

/-- A command that sleeps goes on with the same flags and the same channel. -/
theorem stampAgain_sleeps {d : WrnDrvdata} {cmd : WrDioCmd} {ch : ℕ}
    (h : (stampAgain d cmd).outcome = .sleeps ch) :
    (stampAgain d cmd).cmd = { cmd with nstamp := 0 } := by
  simp only [stampAgain] at h ⊢
  split_ifs at h ⊢ with hstamp
  · rw [stampLoop_cmd _ d cmd hstamp, hstamp]
    rfl

/-- Without `F_MASK`, a pass uses the channel whatever it is. -/
theorem stampAgain_uses {cmd : WrDioCmd} (hmask : cmd.has wrDioFMask = false) (d : WrnDrvdata) :
    .ch cmd.channel.toNat ∈ (stampAgain d cmd).touched := by
  have hloop : .ch cmd.channel.toNat ∈ (stampLoop (chSelect cmd).channels d cmd).touched := by
    rw [channels_single hmask]
    simp only [stampLoop]
    split_ifs <;> exact List.mem_cons_self
  simp only [stampAgain]
  split_ifs
  · exact List.mem_append_left _ hloop
  · exact hloop
  · exact hloop

/-! ### The calls -/

theorem Outcome.IsError.finishCmd {r : CmdResult} (h : r.outcome.IsError) (copyToUser : Bool) :
    (finishCmd copyToUser r).outcome.IsError := by
  cases hout : r.outcome with
  | sleeps ch =>
    rw [hout] at h
    exact absurd h id
  | returns ret =>
    rw [hout] at h
    cases copyToUser with
    | true => simpa [Dio.finishCmd, hout] using h
    | false =>
      simp only [Dio.finishCmd, hout, Bool.false_eq_true, if_false]
      exact (by decide : -Errno.efault < 0)

theorem finishCmd_sleeps {copyToUser : Bool} {r : CmdResult} {ch : ℕ}
    (h : (finishCmd copyToUser r).outcome = .sleeps ch) : r.outcome = .sleeps ch := by
  cases hout : r.outcome with
  | sleeps ch' => simpa [finishCmd, hout] using h
  | returns ret => cases copyToUser <;> simp [finishCmd, hout] at h

theorem finishCmd_cmd (copyToUser : Bool) (r : CmdResult) :
    (finishCmd copyToUser r).cmd = some r.cmd := by
  unfold finishCmd
  split
  · rfl
  · split_ifs <;> rfl

theorem runs_inj {u : UserCall} {name name' : WrDioCmdName} {cmd cmd' : WrDioCmd}
    (h : u.runs privMezzanineCmd = some (name, cmd))
    (h' : u.runs privMezzanineCmd = some (name', cmd')) : name = name' ∧ cmd = cmd' :=
  Prod.mk.inj (Option.some.inj (h.symm.trans h'))

theorem not_namesOther {u : UserCall} {name : WrDioCmdName} {cmd : WrDioCmd}
    (hruns : u.runs privMezzanineCmd = some (name, cmd)) (hname : name ≠ .pulse)
    (hadd : cmd.Addressed) : ¬ u.NamesOther := by
  rintro ⟨name', cmd', hruns', hbig, hsingle⟩
  obtain ⟨rfl, rfl⟩ := runs_inj hruns hruns'
  have hmask : cmd.has wrDioFMask = false := hsingle.resolve_left hname
  exact absurd (hadd.resolve_left (by simp [hmask])) (Nat.not_le.mpr hbig)

/-- A part of a call is safe, and when it sleeps its command is addressed and a further part has
nothing to reject. -/
private structure SafePart (u : UserCall) (r : IoctlResult) : Prop where
  touched : ∀ a ∈ r.touched, a.index ≤ 4
  rejects : u.NamesOther → r.outcome.IsError
  sleeps : ∀ ch cmd, r.outcome = .sleeps ch → r.cmd = some cmd → cmd.Addressed ∧ ¬ u.NamesOther

/-- A command is a safe part of its call if it is safe itself. -/
private theorem safePart_finishCmd {u : UserCall} {r : CmdResult} (copyToUser : Bool)
    (htouched : ∀ a ∈ r.touched, a.index ≤ 4) (hrejects : u.NamesOther → r.outcome.IsError)
    (hsleeps : ∀ ch, r.outcome = .sleeps ch → r.cmd.Addressed ∧ ¬ u.NamesOther) :
    SafePart u (finishCmd copyToUser r) where
  touched := by rwa [finishCmd_touched]
  rejects h := (hrejects h).finishCmd copyToUser
  sleeps ch cmd hout hcmd := by
    rw [finishCmd_cmd] at hcmd
    obtain rfl := Option.some.inj hcmd
    exact hsleeps ch (finishCmd_sleeps hout)

/-- A pass over the channels of a command that is addressed. -/
private theorem safePart_stampAgain {u : UserCall} {cmd : WrDioCmd} (hadd : cmd.Addressed)
    (hnot : ¬ u.NamesOther) (copyToUser : Bool) (d : WrnDrvdata) :
    SafePart u (finishCmd copyToUser (stampAgain d cmd)) := by
  refine safePart_finishCmd copyToUser (stampAgain_touched hadd d) (fun h => absurd h hnot)
    fun ch hsleeps => ⟨?_, hnot⟩
  rw [stampAgain_sleeps hsleeps]
  exact hadd

private theorem safePart_pulse {u : UserCall} {cmd : WrDioCmd}
    (hruns : u.runs privMezzanineCmd = some (.pulse, cmd)) (d : WrnDrvdata) :
    SafePart u (finishCmd u.copyToUser (wrnDioCmdPulse u.utc d cmd)) := by
  have hout := pulse_outcome u.utc d cmd
  refine safePart_finishCmd _ (pulse_touched u.utc d cmd) ?_ fun ch hsleeps => ?_
  · rintro ⟨name, cmd', hruns', hbig, -⟩
    obtain ⟨rfl, rfl⟩ := runs_inj hruns hruns'
    rw [hout, if_pos hbig]
    exact (by decide : -Errno.einval < 0)
  · rw [hout] at hsleeps
    exact absurd hsleeps (by simp)

private theorem safePart_stamp {u : UserCall} {cmd : WrDioCmd}
    (hruns : u.runs privMezzanineCmd = some (.stamp, cmd))
    (hchecked : WrDioCmdName.Checked cmd .stamp) (d : WrnDrvdata) :
    SafePart u (finishCmd u.copyToUser (wrnDioCmdStamp d cmd)) := by
  cases hnow : cmd.has wrDioFNow with
  | true =>
    have hrej : wrnDioCmdStamp d cmd = ⟨d, cmd, .returns (-Errno.einval), []⟩ :=
      if_pos ((stamp_rejects_iff cmd).mpr hnow)
    rw [hrej]
    exact safePart_finishCmd _ (fun a ha => absurd ha List.not_mem_nil)
      (fun _ => (by decide : -Errno.einval < 0)) fun ch h => absurd h (by simp)
  | false =>
    have hadd : cmd.Addressed := hchecked.resolve_left (by simp [hnow])
    have hagain : wrnDioCmdStamp d cmd = stampAgain d cmd :=
      if_neg fun e => absurd ((stamp_rejects_iff cmd).mp e) (by simp [hnow])
    rw [hagain]
    exact safePart_stampAgain hadd (not_namesOther hruns (by decide) hadd) _ d

private theorem safePart_inout {u : UserCall} {cmd : WrDioCmd}
    (hruns : u.runs privMezzanineCmd = some (.inout, cmd)) (hadd : cmd.Addressed)
    (d : WrnDrvdata) : SafePart u (finishCmd u.copyToUser (wrnDioCmdInout d cmd)) := by
  refine safePart_finishCmd _ (fun a ha => ?_)
    (fun h => absurd h (not_namesOther hruns (by decide) hadd))
    fun ch h => absurd h (by simp [wrnDioCmdInout])
  obtain ⟨ch, hch, rfl⟩ := List.mem_map.mp ha
  exact (chSelect_le hadd).1 ch hch

/-- The part of a call before the first sleep is safe when the command passes its check. -/
private theorem safePart_call {u : UserCall} {d : WrnDrvdata}
    (hchecked : ∀ name cmd, u.runs privMezzanineCmd = some (name, cmd) → name.Checked cmd) :
    SafePart u (wrnMezzanineIoctl privMezzanineCmd u d) := by
  cases hruns : u.runs privMezzanineCmd with
  | none =>
    obtain ⟨ret, cmd, hneg, heq⟩ := ioctl_of_not_runs hruns d
    rw [heq]
    exact ⟨fun a ha => absurd ha List.not_mem_nil, fun _ => hneg,
      fun ch cmd h => absurd h (by simp)⟩
  | some run =>
    obtain ⟨name, cmd⟩ := run
    have hcheck := hchecked name cmd hruns
    rw [ioctl_of_runs hruns]
    cases name with
    | pulse => exact safePart_pulse hruns d
    | stamp => exact safePart_stamp hruns hcheck d
    | inout => exact safePart_inout hruns hcheck d
    | dac =>
      exact ⟨fun a ha => absurd ha List.not_mem_nil, fun _ => (by decide : -Errno.enotsupp < 0),
        fun ch cmd h => absurd h (by simp [runCmd])⟩

/-- The part of a call after a sleep is safe when the part before it is. -/
private theorem SafePart.resume {u : UserCall} {r : IoctlResult} {ch : ℕ} {cmd : WrDioCmd}
    (h : SafePart u r) (hsleeps : r.outcome = .sleeps ch) (hcmd : r.cmd = some cmd)
    (signalPending copyToUser : Bool) (d : WrnDrvdata) :
    SafePart u (mezzanineResume signalPending copyToUser d cmd) := by
  obtain ⟨hadd, hnot⟩ := h.sleeps ch cmd hsleeps hcmd
  cases signalPending with
  | true =>
    exact safePart_finishCmd copyToUser (fun a ha => absurd ha List.not_mem_nil)
      (fun h => absurd h hnot) fun ch h => absurd h (by simp [stampResume])
  | false => exact safePart_stampAgain hadd hnot copyToUser d

/-- A command that uses the indices 0 to 4 only passes its check. -/
private theorem checked_of_touched {u : UserCall} {d : WrnDrvdata} {name : WrDioCmdName}
    {cmd : WrDioCmd} (hruns : u.runs privMezzanineCmd = some (name, cmd))
    (htouched : ∀ a ∈ (wrnMezzanineIoctl privMezzanineCmd u d).touched, a.index ≤ 4) :
    name.Checked cmd := by
  rw [ioctl_of_runs hruns] at htouched
  cases name with
  | pulse => trivial
  | dac => trivial
  | stamp =>
    by_contra hnot
    obtain ⟨hnow, hadd⟩ := not_or.mp hnot
    obtain ⟨hmask, hbig⟩ := not_or.mp hadd
    have hagain : wrnDioCmdStamp d cmd = stampAgain d cmd :=
      if_neg fun e => hnow ((stamp_rejects_iff cmd).mp e)
    rw [runCmd, finishCmd_touched, hagain] at htouched
    exact hbig (htouched _ (stampAgain_uses (Bool.eq_false_of_not_eq_true hmask) d))
  | inout =>
    by_contra hnot
    obtain ⟨hmask, hbig⟩ := not_or.mp hnot
    rw [runCmd, finishCmd_touched, wrnDioCmdInout,
      channels_single (Bool.eq_false_of_not_eq_true hmask)] at htouched
    exact hbig (htouched (.shift cmd.channel.toNat) List.mem_cons_self)

/-- **Channels.** A call uses the indices 0 to 4 only, and rejects any other channel, exactly when
the command relies on its channel only where it is a mask or one of the five channels. -/
theorem indicesSafe_iff (u : UserCall) (d : WrnDrvdata) :
    IndicesSafe u d ↔
      ∀ name cmd, u.runs privMezzanineCmd = some (name, cmd) → name.Checked cmd := by
  constructor
  · intro hsafe name cmd hruns
    exact checked_of_touched hruns (hsafe _ .call).1
  · intro hchecked r hr
    have hpart : SafePart u r := by
      induction hr with
      | call => exact safePart_call hchecked
      | resume h hsleeps hcmd signalPending copyToUser d' ih =>
        exact ih.resume hsleeps hcmd signalPending copyToUser d'
    exact ⟨hpart.touched, hpart.rejects⟩

end Dio

/-! ### The main result -/

/-- **Indices.** A DIO call is safe exactly when its command relies on its channel only where it is
a mask or one of the five channels, and a register read is within the registers for every number
but `sizeof(struct EP_WB)`. -/
theorem userIndices_iff (u : Dio.UserCall) (d : Dio.WrnDrvdata) (reg : BitVec 32) (putUser : Bool)
    (epRegs : BitVec 32 → BitVec 32) :
    (Dio.IndicesSafe u d ↔
        ∀ name cmd, u.runs Dio.privMezzanineCmd = some (name, cmd) → name.Checked cmd) ∧
      ((Nic.privReadreg (some reg) putUser epRegs).InBounds ↔ reg ≠ 0x100) :=
  ⟨Dio.indicesSafe_iff u d, Nic.privReadreg_inBounds_iff reg putUser epRegs⟩

/-- A STAMP on channel 5, in the state after the initialization. -/
theorem not_forall_userIndices : ¬ ∀ (u : Dio.UserCall) (hw : Dio.PowerOn),
    Dio.IndicesSafe u (Dio.wrnMezzanineInit hw) := by
  intro hall
  obtain ⟨htouched, -⟩ := hall ⟨true, some ⟨1, 5, 0, 0, 0, fun _ => ⟨0, 0⟩⟩, true, ⟨0, 0, 0, 0⟩⟩
    .zero _ .call
  exact absurd (htouched (.ch 5) (by decide)) (by decide)

end SpecSw
