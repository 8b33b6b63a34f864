import SpecSw.Dio.Command

/-!
# The DIO tools: command line and ioctl

The tools fill a `struct wr_dio_cmd`, pass it to `ioctl(sock, PRIV_MEZZANINE_CMD, &ifr)` and
read from the same structure what the driver has copied back. The calls are those in which the
kernel has memory for its copy and the structure can be read and written.

Of the command line, the tools compare words with fixed strings and convert numbers by
`sscanf(word, "%i%c", ...)`, which succeeds when nothing is left for the `%c`. What they write to
`stderr` is left out.

## Main definitions

* `Tools.Word`, `Tools.ToolEnd`.
* `Tools.IoctlReturn`, `Tools.mezzanineCmd`.

## Main results

* `Tools.mezzanineCmd_stamp`, `Tools.mezzanineCmd_inout`.
-/

namespace SpecSw.Tools

open Dio

/-! ### The command line -/

/-- A word of the command line: its characters, and the integer that `sscanf(word, "%i%c", ...)`
reads if it converts just that. -/
structure Word where
  text : List Char
  integer : Option ℤ

/-- How a function of a tool ends: it returns, it calls `exit`, or it sleeps in the driver. -/
inductive ToolEnd
  | ret (value : ℤ)
  | exit (status : ℤ)
  | sleeps
  deriving DecidableEq, Repr

/-- `main` exits with 1 when the function of the command returns a negative value. -/
def ToolEnd.ofMain : ToolEnd → ToolEnd
  | ret value => exit (if value < 0 then 1 else 0)
  | exit status => exit status
  | sleeps => sleeps

/-! ### The ioctl -/

/-- The number of a command in `enum wr_dio_cmd_name`. -/
def commandNumber : WrDioCmdName → BitVec 16
  | .pulse => 0
  | .stamp => 1
  | .dac => 2
  | .inout => 3

/-- The static `_cmd` of a tool, once `main` has set its `command`. -/
def staticCmd (name : WrDioCmdName) : WrDioCmd := ⟨commandNumber name, 0, 0, 0, 0, fun _ => ⟨0, 0⟩⟩

/-- What an ioctl gives the tool: the value the driver returns, an error being negative, the
structure that `ifr_data` points to, and the driver as it is left. -/
structure IoctlReturn where
  ret : ℤ
  cmd : WrDioCmd
  drvdata : WrnDrvdata

/-- `ioctl(sock, PRIV_MEZZANINE_CMD, &ifr)` on the structure `cmd`, or `none` if the driver sleeps
until something happens on the card. -/
def mezzanineCmd (utc : UtcReads) (d : WrnDrvdata) (cmd : WrDioCmd) : Option IoctlReturn :=
  let r := wrnMezzanineIoctl privMezzanineCmd ⟨true, some cmd, true, utc⟩ d
  match r.outcome with
  | .returns ret => some ⟨ret, if r.replied then r.cmd.getD cmd else cmd, r.drvdata⟩
  | .sleeps _ => none

@[simp] theorem wrDioCmdName_commandNumber (name : WrDioCmdName) :
    wrDioCmdName (commandNumber name) = some name := by
  cases name <;> rfl

/-- A command that the `switch` knows is run, and the structure copied back. -/
theorem mezzanineCmd_eq (utc : UtcReads) (d : WrnDrvdata) {cmd : WrDioCmd} {name : WrDioCmdName}
    (h : cmd.command = commandNumber name) :
    wrnMezzanineIoctl privMezzanineCmd ⟨true, some cmd, true, utc⟩ d =
      runCmd ⟨true, some cmd, true, utc⟩ d cmd name := by
  have hid : privMezzanineCmd ≠ privMezzanineId := by decide
  simp [wrnMezzanineIoctl, hid, h]

/-- A STAMP that returns. -/
theorem mezzanineCmd_stamp (utc : UtcReads) {d : WrnDrvdata} {cmd : WrDioCmd} {ret : ℤ}
    (h : cmd.command = commandNumber .stamp)
    (hret : (wrnDioCmdStamp d cmd).outcome = .returns ret) :
    mezzanineCmd utc d cmd =
      some ⟨ret, (wrnDioCmdStamp d cmd).cmd, (wrnDioCmdStamp d cmd).drvdata⟩ := by
  simp [mezzanineCmd, mezzanineCmd_eq utc d h, runCmd, finishCmd, hret]

/-- A STAMP that sleeps. -/
theorem mezzanineCmd_stamp_sleeps (utc : UtcReads) {d : WrnDrvdata} {cmd : WrDioCmd} {ch : ℕ}
    (h : cmd.command = commandNumber .stamp)
    (hsleeps : (wrnDioCmdStamp d cmd).outcome = .sleeps ch) :
    mezzanineCmd utc d cmd = none := by
  simp [mezzanineCmd, mezzanineCmd_eq utc d h, runCmd, finishCmd, hsleeps]

/-- An INOUT always returns. -/
theorem mezzanineCmd_inout (utc : UtcReads) (d : WrnDrvdata) {cmd : WrDioCmd}
    (h : cmd.command = commandNumber .inout) :
    mezzanineCmd utc d cmd =
      some ⟨0, (wrnDioCmdInout d cmd).cmd, (wrnDioCmdInout d cmd).drvdata⟩ := by
  simp [mezzanineCmd, mezzanineCmd_eq utc d h, runCmd, finishCmd, wrnDioCmdInout]

end SpecSw.Tools
