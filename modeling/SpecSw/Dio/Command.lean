import SpecSw.Dio.Device

/-!
# The commands of the DIO ioctl

`PRIV_MEZZANINE_CMD` copies a `struct wr_dio_cmd` from user space, runs one of the commands
PULSE, STAMP and INOUT on it and copies the structure back. Each definition is the function of
`wr-nic-dio.c` of that name; where a function is long, its steps are definitions of their own.

A STAMP with `F_WAIT` that finds nothing sleeps and starts again when it is woken up. The
ioctl lock is not held meanwhile, so what happens between two passes is not part of the
command: `wrnDioCmdStamp` is the pass up to the first sleep, `stampResume` what follows a sleep.

## Main definitions

* `Dio.wrnNewPulse`, `Dio.wrnDioCmdPulse`, `Dio.wrnDioCmdStamp`, `Dio.stampResume`,
  `Dio.wrnDioCmdInout`, `Dio.wrnMezzanineIoctl`, `Dio.mezzanineResume`.
-/

namespace SpecSw.Dio

/-! ### PULSE -/

/-- `wrn_ts_sub`: instead of `timespec_sub`, just subtract the nanos. -/
def wrnTsSub (ts : Timespec) (nano : ℤ) : Timespec :=
  setNormalizedTimespec ts.tvSec (ts.tvNsec - nano)

/-- `__wrn_new_pulse`: this programs a new pulse without changing the width. The timespec is
moved back by one cycle in place, to account for output latencies. -/
def wrnNewPulse (ch : ℕ) (ts : Timespec) (d : WrnDrvdata) : Timespec × WrnDrvdata :=
  let ts := wrnTsSub ts 8
  let dio := { d.dio with
    cycle := Function.update d.dio.cycle ch (BitVec.ofInt 32 (ts.tvNsec.tdiv 8))
    trigH := Function.update d.dio.trigH ch (BitVec.ofInt 32 (ts.tvSec / 2 ^ 32))
    trigL := Function.update d.dio.trigL ch (BitVec.ofInt 32 ts.tvSec) }
  (ts, { d with dio := dio.rLatch ch })

/-- The values that `wrn_dio_cmd_pulse` reads from the PPS generator, in the order of the code:
`CNTR_UTCHI`, `CNTR_UTCLO`, `CNTR_UTCHI`, and `CNTR_UTCLO` once more if it is read again. -/
structure UtcReads where
  h1 : BitVec 32
  l : BitVec 32
  h2 : BitVec 32
  l2 : BitVec 32

/-- The current second, `now`. -/
def UtcReads.now (r : UtcReads) : ℤ := (r.h2 ++ if r.h2 ≠ r.h1 then r.l2 else r.l).toNat

/-- Configure the channel as a DIO output, and the width of its pulse. -/
def configureOutput (ch : ℕ) (width : Timespec) (d : WrnDrvdata) : WrnDrvdata :=
  { d with dio := { d.dio with
      iomode := d.dio.iomode ||| shl 1 (4 * ch)
      pulse := Function.update d.dio.pulse ch (BitVec.ofInt 32 (width.tvNsec.tdiv 8)) } }

/-- With `F_REL`, add the current second to `t[0]`. -/
def addNow (utc : UtcReads) (cmd : WrDioCmd) : WrDioCmd :=
  if cmd.has wrDioFRel then
    cmd.setT 0 { cmd.t 0 with tvSec := (cmd.t 0).tvSec + utc.now }
  else cmd

/-- With `F_LOOP`, the count is used after the pulse, so the first one is removed from it. -/
def removeFirst (cmd : WrDioCmd) : WrDioCmd :=
  if cmd.has wrDioFLoop then
    { cmd with value := if 0 < cmd.value then cmd.value - 1 else cmd.value }
  else cmd

/-- With `F_LOOP`, the train of the channel is set up: `t[0]` is the current setpoint. -/
def setupLoop (ch : ℕ) (cmd : WrDioCmd) (d : WrnDrvdata) : WrnDrvdata :=
  if cmd.has wrDioFLoop then
    d.setCh ch { d.ch ch with
      targetChannel := ch
      count := cmd.value
      prevts := cmd.t 0
      delay := cmd.t 2 }
  else d

/-- `wrn_dio_cmd_pulse`. -/
def wrnDioCmdPulse (utc : UtcReads) (d : WrnDrvdata) (cmd : WrDioCmd) : CmdResult :=
  let ch := cmd.channel.toNat
  if 4 < ch then ⟨d, cmd, .returns (-Errno.einval), []⟩ -- mask not supported
  else
    let d := configureOutput ch (cmd.t 1) d
    if cmd.has wrDioFNow then
      -- if "now" we are done
      ⟨{ d with dio := { d.dio with pulsed := d.dio.pulsed ++ [ch] } }, cmd, .returns 0,
        [.shift ch, .regmap ch]⟩
    else
      let cmd := removeFirst (addNow utc cmd)
      let p := wrnNewPulse ch (cmd.t 0) (setupLoop ch cmd d)
      ⟨p.2, cmd.setT 0 p.1, .returns 0, [.shift ch, .regmap ch, .ch ch]⟩

/-! ### STAMP -/

/-- `a || b` of C. -/
def logicalOr (a b : BitVec 32) : BitVec 32 := if a ≠ 0 ∨ b ≠ 0 then 1 else 0

/-- What the `while (1)` loop of `wrn_dio_cmd_stamp` works on: `c`, `nstamp` and `t[]`. -/
structure DrainState where
  c : DioChannel
  nstamp : ℕ
  t : ℕ → Timespec

/-- The `while (1)` loop of `wrn_dio_cmd_stamp`, with room for `left` more stamps. -/
def stampDrain : ℕ → DrainState → DrainState
  | 0, s => s
  | left + 1, s =>
    if s.c.bhead = s.c.btail then s
    else
      stampDrain left
        { c := { s.c with btail := s.c.btail + 1 }
          nstamp := s.nstamp + 1
          t := Function.update s.t s.nstamp (s.c.tsbuf s.c.btail) }

/-- What a pass of `wrn_dio_cmd_stamp` over the selected channels has done. -/
structure StampPass where
  drvdata : WrnDrvdata
  cmd : WrDioCmd
  nstamp : ℕ
  touched : List Access

/-- The `for` loop of `wrn_dio_cmd_stamp`: it ends at the first channel with stamps. -/
def stampLoop : List ℕ → WrnDrvdata → WrDioCmd → StampPass
  | [], d, cmd => ⟨d, cmd, 0, []⟩
  | ch :: chs, d, cmd =>
    let s := stampDrain wrDioNStamp ⟨d.ch ch, 0, cmd.t⟩
    if s.nstamp ≠ 0 then
      ⟨d.setCh ch s.c, { cmd with t := s.t, channel := BitVec.ofNat 16 ch }, s.nstamp, [.ch ch]⟩
    else
      let p := stampLoop chs d cmd
      { p with touched := .ch ch :: p.touched }

/-- `wrn_dio_cmd_stamp` from the label `again`. -/
def stampAgain (d : WrnDrvdata) (cmd : WrDioCmd) : CmdResult :=
  let s := chSelect cmd
  let p := stampLoop s.channels d cmd
  let cmd := { p.cmd with nstamp := BitVec.ofNat 32 p.nstamp }
  if p.nstamp = 0 then
    if cmd.has wrDioFWait then ⟨p.drvdata, cmd, .sleeps s.last, p.touched ++ [.ch s.last]⟩
    else ⟨p.drvdata, cmd, .returns (-Errno.eagain), p.touched⟩
  else ⟨p.drvdata, cmd, .returns 0, p.touched⟩

/-- `wrn_dio_cmd_stamp`, until it returns or sleeps. -/
def wrnDioCmdStamp (d : WrnDrvdata) (cmd : WrDioCmd) : CmdResult :=
  if cmd.flags &&& logicalOr wrDioFMask wrDioFWait = logicalOr wrDioFMask wrDioFWait then
    ⟨d, cmd, .returns (-Errno.einval), []⟩ -- wait on several channels not supported
  else stampAgain d cmd

/-- What follows a sleep in `wrn_dio_cmd_stamp`, until it returns or sleeps again. -/
def stampResume (signalPending : Bool) (d : WrnDrvdata) (cmd : WrDioCmd) : CmdResult :=
  if signalPending then ⟨d, cmd, .returns (-Errno.erestartsys), []⟩ else stampAgain d cmd

/-! ### INOUT -/

/-- `WR_DIO_INOUT_DIO`. -/
def wrDioInoutDio : BitVec 32 := 1 <<< 0

/-- `WR_DIO_INOUT_VALUE`. -/
def wrDioInoutValue : BitVec 32 := 1 <<< 8

/-- `WR_DIO_INOUT_OUTPUT`. -/
def wrDioInoutOutput : BitVec 32 := 1 <<< 16

/-- `WR_DIO_INOUT_TERM`. -/
def wrDioInoutTerm : BitVec 32 := 1 <<< 24

/-- The source selected by `bits`: 2 is the WRPC, 1 the DIO core, 0 the GPIO. -/
def inoutSource (bits : BitVec 32) : BitVec 32 :=
  if bits &&& wrDioInoutDio ≠ 0 then (if bits &&& wrDioInoutValue ≠ 0 then 2 else 1) else 0

/-- The `IOMODE` bits of a channel: the source with the `TERM` and `OUTPUT_ENABLE_N` bits. -/
def inoutIomode (bits : BitVec 32) : BitVec 32 :=
  inoutSource bits ||| ((if bits &&& wrDioInoutTerm ≠ 0 then 1 else 0) <<< 3 |||
    (if bits &&& wrDioInoutOutput = 0 then 1 else 0) <<< 2)

/-- One turn of the loop of `wrn_dio_cmd_inout`; a channel of the GPIO has its output value
set or cleared as well. -/
def inoutChannel (value : BitVec 32) (d : WrnDrvdata) (ch : ℕ) : WrnDrvdata :=
  let bits := value >>> (ch % 32)
  let reg := d.dio.iomode &&& ~~~shl 0xf (4 * ch)
  { d with
    gpio :=
      if bits &&& wrDioInoutDio ≠ 0 then d.gpio
      else if bits &&& wrDioInoutValue ≠ 0 then d.gpio ||| wrnGpioValue ch
      else d.gpio &&& ~~~wrnGpioValue ch
    dio := { d.dio with iomode := reg ||| shl (inoutIomode bits) (4 * ch) } }

/-- `wrn_dio_cmd_inout`. For one channel the value is shifted to its place first. -/
def wrnDioCmdInout (d : WrnDrvdata) (cmd : WrDioCmd) : CmdResult :=
  let s := chSelect cmd
  let cmd := if cmd.has wrDioFMask then cmd else { cmd with value := shl cmd.value s.ch }
  ⟨s.channels.foldl (inoutChannel cmd.value) d, cmd, .returns 0, s.channels.map .shift⟩

/-! ### The ioctl -/

/-- `SIOCDEVPRIVATE`. -/
def siocdevprivate : ℕ := 0x89f0

/-- `PRIV_MEZZANINE_ID`. -/
def privMezzanineId : ℕ := siocdevprivate + 14

/-- `PRIV_MEZZANINE_CMD`. -/
def privMezzanineCmd : ℕ := siocdevprivate + 15

/-- `enum wr_dio_cmd_name`. -/
inductive WrDioCmdName
  | pulse
  | stamp
  | dac
  | inout
  deriving DecidableEq, Repr

/-- The command of a number, if there is one. -/
def wrDioCmdName (command : BitVec 16) : Option WrDioCmdName :=
  if command = 0 then some .pulse
  else if command = 1 then some .stamp
  else if command = 2 then some .dac
  else if command = 3 then some .inout
  else none

/-- The outcomes of the calls that `wrn_mezzanine_ioctl` depends on: whether `kmalloc` succeeds,
what `copy_from_user` copies unless it fails, whether `copy_to_user` succeeds; and the values read
from the PPS generator. -/
structure UserCall where
  kmalloc : Bool
  copyFromUser : Option WrDioCmd
  copyToUser : Bool
  utc : UtcReads

/-- What an ioctl does: the new state, how it leaves, the command structure if it has been copied
from user space, whether it has been copied back, and what has been touched. -/
structure IoctlResult where
  drvdata : WrnDrvdata
  outcome : Outcome
  cmd : Option WrDioCmd
  replied : Bool
  touched : List Access

/-- The end of `wrn_mezzanine_ioctl`, when the command has returned: it is copied back. -/
def finishCmd (copyToUser : Bool) (r : CmdResult) : IoctlResult :=
  match r.outcome with
  | .sleeps ch => ⟨r.drvdata, .sleeps ch, some r.cmd, false, r.touched⟩
  | .returns ret =>
    if copyToUser then ⟨r.drvdata, .returns ret, some r.cmd, true, r.touched⟩
    else ⟨r.drvdata, .returns (-Errno.efault), some r.cmd, false, r.touched⟩

/-- A case of the `switch` of `wrn_mezzanine_ioctl`, with what follows it. -/
def runCmd (u : UserCall) (d : WrnDrvdata) (cmd : WrDioCmd) : WrDioCmdName → IoctlResult
  | .pulse => finishCmd u.copyToUser (wrnDioCmdPulse u.utc d cmd)
  | .stamp => finishCmd u.copyToUser (wrnDioCmdStamp d cmd)
  | .inout => finishCmd u.copyToUser (wrnDioCmdInout d cmd)
  | .dac => ⟨d, .returns (-Errno.enotsupp), some cmd, false, []⟩

/-- `wrn_mezzanine_ioctl`, until it returns or sleeps. -/
def wrnMezzanineIoctl (ioctlcmd : ℕ) (u : UserCall) (d : WrnDrvdata) : IoctlResult :=
  if ioctlcmd = privMezzanineId then
    ⟨d, .returns (-Errno.eagain), none, false, []⟩ -- special marker
  else if ioctlcmd ≠ privMezzanineCmd then ⟨d, .returns (-Errno.enoioctlcmd), none, false, []⟩
  else if !u.kmalloc then ⟨d, .returns (-Errno.enomem), none, false, []⟩
  else
    match u.copyFromUser with
    | none => ⟨d, .returns (-Errno.efault), none, false, []⟩
    | some cmd =>
      match wrDioCmdName cmd.command with
      | none => ⟨d, .returns (-Errno.einval), some cmd, false, []⟩
      | some name => runCmd u d cmd name

/-- What follows a sleep in `wrn_mezzanine_ioctl`, until it returns or sleeps again. -/
def mezzanineResume (signalPending copyToUser : Bool) (d : WrnDrvdata) (cmd : WrDioCmd) :
    IoctlResult :=
  finishCmd copyToUser (stampResume signalPending d cmd)

end SpecSw.Dio
