import Mathlib.Data.BitVec
import Mathlib.Logic.Function.Basic
import SpecSw.Kernel
import SpecSw.Library.RingFifo

/-!
# The DIO mezzanine: channels, registers and commands

The card has five input/output channels. For each the driver keeps a ring of time stamps and the
fields of a pulse train (`struct dio_channel`), and the gateware has the registers of its next
pulse. A pulse is programmed by writing the channel's trigger registers and then latching them;
`DioWb.latched` lists what has been latched, the oldest first.

User space names a channel by 16 bits and the code indexes `ch[]` and `regmap[]` with what it
derives from them. The model keeps the channels in a function on `ℕ`: the entries 0 to 4 are the
array, the others whatever memory holds behind it. What a command touches is part of its result
(`Access`).

## Main definitions

* `Dio.DioChannel`, `Dio.DioWb`, `Dio.WrnDrvdata`, `Dio.wrnMezzanineInit`.
* `Dio.WrDioCmd`, `Dio.CmdResult`, `Dio.ChSelect`.
-/

namespace SpecSw.Dio

/-! ### Constants of `wr-dio.h` and `wr-nic-dio.c` -/

/-- `WRN_DIO_BUFFER_LEN`. -/
abbrev wrnDioBufferLen : ℕ := 512

instance : NeZero wrnDioBufferLen := ⟨Nat.succ_ne_zero 511⟩

/-- `WR_DIO_N_STAMP`: at least 5 * 3. -/
def wrDioNStamp : ℕ := 16

/-- `WR_DIO_F_NOW`: output is now, `t[0]` ignored. -/
def wrDioFNow : BitVec 32 := 0x01

/-- `WR_DIO_F_REL`: `t[0].tv_sec` is relative. -/
def wrDioFRel : BitVec 32 := 0x02

/-- `WR_DIO_F_MASK`: the channel is 0x00..0x1f. -/
def wrDioFMask : BitVec 32 := 0x04

/-- `WR_DIO_F_LOOP`: output should loop, `t[2]` is looping. -/
def wrDioFLoop : BitVec 32 := 0x08

/-- `WR_DIO_F_WAIT`: wait for an event. -/
def wrDioFWait : BitVec 32 := 0x10

/-- `WRN_DIO_IRQ_MASK`: the five bits `NEMPTY_0` to `NEMPTY_4`. -/
def wrnDioIrqMask : BitVec 32 := 0x1f

/-- `WRN_VIC_MASK_DIO`. -/
def wrnVicMaskDio : BitVec 32 := 1 <<< 2

/-- `x << n` on 32 bits, the amount being taken modulo 32 as the processor does. -/
def shl (x : BitVec 32) (n : ℕ) : BitVec 32 := x <<< (n % 32)

/-- `WRN_GPIO_VALUE`. -/
def wrnGpioValue (bit : ℕ) : BitVec 32 := shl 1 (4 * bit + 0)

/-! ### The device -/

/-- `struct dio_channel`. -/
structure DioChannel where
  tsbuf : Fin wrnDioBufferLen → Timespec
  bhead : Fin wrnDioBufferLen
  btail : Fin wrnDioBufferLen
  prevts : Timespec
  delay : Timespec
  count : BitVec 32
  targetChannel : ℕ

/-- What the gateware latches of a channel: the time of its next pulse. -/
structure Trigger where
  ch : ℕ
  trigL : BitVec 32
  trigH : BitVec 32
  cycle : BitVec 32
  deriving DecidableEq, Repr

/-- The registers of `struct DIO_WB` that the driver writes, those of a channel under the names of
`struct regmap`, the pulses latched, and the immediate pulses. -/
structure DioWb where
  trigL : ℕ → BitVec 32
  trigH : ℕ → BitVec 32
  cycle : ℕ → BitVec 32
  pulse : ℕ → BitVec 32
  iomode : BitVec 32
  eicImr : BitVec 32
  latched : List Trigger
  pulsed : List ℕ

/-- The part of `struct wrn_drvdata` that the DIO code uses, with the registers it points to (of
the VIC only the mask), and the static variables of `wrn_dio_interrupt`, times in nanoseconds.
`trapped` records that the rate computation has divided by zero. -/
structure WrnDrvdata where
  ch : ℕ → DioChannel
  dio : DioWb
  gpio : BitVec 32
  vicImr : BitVec 32
  tIni : ℤ
  tEnd : ℤ
  rateAvg : ℤ
  trapped : Bool

/-- The ring of time stamps of a channel. -/
def DioChannel.ring (c : DioChannel) : RingFifo.Ring wrnDioBufferLen Timespec :=
  ⟨c.tsbuf, c.bhead, c.btail⟩

/-- Writing `1 << ch` to `R_LATCH`. -/
def DioWb.rLatch (dio : DioWb) (ch : ℕ) : DioWb :=
  { dio with latched := dio.latched ++ [⟨ch, dio.trigL ch, dio.trigH ch, dio.cycle ch⟩] }

namespace WrnDrvdata

variable (d : WrnDrvdata)

/-- Assign an entry of `ch[]`. -/
def setCh (i : ℕ) (c : DioChannel) : WrnDrvdata := { d with ch := Function.update d.ch i c }

/-- The pulses that have been programmed on a channel, the oldest first. -/
def triggersOn (ch : ℕ) : List Trigger := d.dio.latched.filter fun p => p.ch = ch

@[simp] theorem setCh_ch_self (i : ℕ) (c : DioChannel) : (d.setCh i c).ch i = c := by
  simp only [setCh, Function.update_self]

theorem setCh_ch_of_ne {i j : ℕ} (hji : j ≠ i) (c : DioChannel) : (d.setCh i c).ch j = d.ch j := by
  simp only [setCh, Function.update_of_ne hji]

@[simp] theorem setCh_triggersOn (i : ℕ) (c : DioChannel) (ch : ℕ) :
    (d.setCh i c).triggersOn ch = d.triggersOn ch := rfl

end WrnDrvdata

/-! ### The state after `wrn_mezzanine_init` -/

/-- A zeroed channel. -/
def DioChannel.zero : DioChannel := ⟨fun _ => ⟨0, 0⟩, 0, 0, ⟨0, 0⟩, ⟨0, 0⟩, 0, 0⟩

/-- What the hardware, and the memory behind `ch[]`, hold before the driver is loaded. -/
structure PowerOn where
  beyond : ℕ → DioChannel
  trigL : ℕ → BitVec 32
  trigH : ℕ → BitVec 32
  cycle : ℕ → BitVec 32
  pulse : ℕ → BitVec 32
  iomode : BitVec 32
  eicImr : BitVec 32
  gpio : BitVec 32
  vicImr : BitVec 32

/-- A card with all registers zero. -/
def PowerOn.zero : PowerOn :=
  ⟨fun _ => .zero, fun _ => 0, fun _ => 0, fun _ => 0, fun _ => 0, 0, 0, 0, 0⟩

/-- `wrn_mezzanine_init`, once the allocation has succeeded, in a module just loaded. -/
def wrnMezzanineInit (hw : PowerOn) : WrnDrvdata where
  ch i := if i < 5 then .zero else hw.beyond i
  dio :=
    { trigL := hw.trigL
      trigH := hw.trigH
      cycle := hw.cycle
      pulse := hw.pulse
      iomode := hw.iomode
      eicImr := hw.eicImr ||| wrnDioIrqMask
      latched := []
      pulsed := [] }
  gpio := hw.gpio
  vicImr := hw.vicImr
  tIni := 0
  tEnd := 0
  rateAvg := 0
  trapped := false

theorem wrnMezzanineInit_ch (hw : PowerOn) {i : ℕ} (hi : i < 5) :
    (wrnMezzanineInit hw).ch i = .zero := if_pos hi

/-! ### Commands -/

/-- `struct wr_dio_cmd`. Of `t[]` only the first `WR_DIO_N_STAMP` entries exist. -/
structure WrDioCmd where
  command : BitVec 16
  channel : BitVec 16
  value : BitVec 32
  flags : BitVec 32
  nstamp : BitVec 32
  t : ℕ → Timespec

namespace WrDioCmd

variable (cmd : WrDioCmd)

/-- `cmd->flags & f`. -/
def has (f : BitVec 32) : Bool := cmd.flags &&& f != 0

/-- Assign an entry of `t[]`. -/
def setT (i : ℕ) (ts : Timespec) : WrDioCmd := { cmd with t := Function.update cmd.t i ts }

end WrDioCmd

/-- The uses of an index derived from a command: an entry of `ch[]`, an entry of `regmap[]`, a
shift by four times the index. -/
inductive Access
  | ch (i : ℕ)
  | regmap (i : ℕ)
  | shift (i : ℕ)
  deriving DecidableEq, Repr

/-- The index used. -/
def Access.index : Access → ℕ
  | .ch i => i
  | .regmap i => i
  | .shift i => i

/-- How a command leaves the processor: it returns a value, or it sleeps until the ring of a
channel is not empty. -/
inductive Outcome
  | returns (ret : ℤ)
  | sleeps (ch : ℕ)
  deriving DecidableEq, Repr

/-- What a command does: the new state, the command structure as the code leaves it, how it
leaves, and what it has touched. -/
structure CmdResult where
  drvdata : WrnDrvdata
  cmd : WrDioCmd
  outcome : Outcome
  touched : List Access

/-! ### The channels of a command -/

/-- The variables `ch`, `last` and `mask` that STAMP and INOUT set up for their loop. -/
structure ChSelect where
  ch : ℕ
  last : ℕ
  mask : BitVec 32

/-- With `F_MASK` the loop goes over the five channels, else only over the one named. -/
def chSelect (cmd : WrDioCmd) : ChSelect :=
  if cmd.has wrDioFMask then ⟨0, 4, cmd.channel.setWidth 32⟩
  else ⟨cmd.channel.toNat, cmd.channel.toNat, shl 1 cmd.channel.toNat⟩

/-- The values of `ch` in `for (; ch <= last; ch++)` that pass the test against the mask. -/
def ChSelect.channels (s : ChSelect) : List ℕ :=
  (List.range' s.ch (s.last + 1 - s.ch)).filter fun ch => shl 1 ch &&& s.mask != 0

theorem shl_one_ne_zero (n : ℕ) : shl 1#32 n ≠ 0#32 := by
  have hlt : n % 32 < 32 := Nat.mod_lt n (by omega)
  intro h
  have hbit : (shl 1#32 n).getLsbD (n % 32) = true := by
    simp [shl, hlt]
  rw [h] at hbit
  simp at hbit

/-- Without `F_MASK` the loop visits the channel named. -/
theorem channels_single {cmd : WrDioCmd} (h : cmd.has wrDioFMask = false) :
    (chSelect cmd).channels = [cmd.channel.toNat] := by
  simp [chSelect, h, ChSelect.channels, shl_one_ne_zero]

theorem shl_one_and_ne_zero {ch : ℕ} (hch : ch < 32) (x : BitVec 32) :
    (shl 1 ch &&& x != 0) = x.getLsbD ch := by
  have hshl : shl 1#32 ch = BitVec.twoPow 32 ch := by
    rw [shl, Nat.mod_eq_of_lt hch, BitVec.twoPow]
  have hpow : BitVec.twoPow 32 ch ≠ 0#32 := by
    rw [← hshl]
    exact shl_one_ne_zero ch
  change (shl 1#32 ch &&& x != 0#32) = x.getLsbD ch
  rw [hshl, BitVec.and_comm, BitVec.and_twoPow]
  cases x.getLsbD ch <;> simp [hpow]

/-- With `F_MASK` the loop visits the channels of the mask, as far as the card has them. -/
theorem channels_mask {cmd : WrDioCmd} (h : cmd.has wrDioFMask = true) :
    (chSelect cmd).channels = (List.range 5).filter cmd.channel.getLsbD := by
  rw [chSelect, if_pos h, ChSelect.channels, List.range_eq_range']
  refine List.filter_congr fun ch hch => ?_
  have hle : ch < 5 := (List.mem_range'_1.mp hch).2
  have hlt : ch < 32 := by omega
  rw [shl_one_and_ne_zero hlt, BitVec.getLsbD_setWidth]
  simp [hlt]

end SpecSw.Dio
