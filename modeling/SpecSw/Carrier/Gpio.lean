import Mathlib.Data.BitVec
import SpecSw.Kernel

/-!
# The pins of the PCI bridge

The GN4124 bridge of the card has sixteen GPIO pins, each with one bit in the registers for
direction, output and interrupt. A driver configures pins with a list of `struct fmc_gpio`: an
entry names a pin of this carrier, or a virtual pin, which is mapped to one of the carrier when it
is first used, and the mapping is kept in the entry.

## Main definitions

* `Carrier.Gennum`: the registers.
* `Carrier.specCfgPin`, `Carrier.specGpioConfig`.
-/

namespace SpecSw.Carrier

/-! ### Registers -/

/-- The registers of the GN4124 that the GPIO and interrupt functions use. A set bit of
`GNGPIO_INT_MASK` disables the interrupt of a pin. -/
@[ext] structure Gennum where
  msiControl : BitVec 32
  directionMode : BitVec 32
  outputEnable : BitVec 32
  outputValue : BitVec 32
  inputValue : BitVec 32
  intMask : BitVec 32
  intType : BitVec 32
  intValue : BitVec 32
  intOnAny : BitVec 32

/-- `gennum_mask_val`: the new value of the register. -/
def gennumMaskVal (mask val reg : BitVec 32) : BitVec 32 := (reg &&& ~~~mask) ||| val

/-- Writing `GNGPIO_INT_MASK_SET`. -/
def Gennum.intMaskSet (g : Gennum) (value : BitVec 32) : Gennum :=
  { g with intMask := g.intMask ||| value }

/-- Writing `GNGPIO_INT_MASK_CLR`. -/
def Gennum.intMaskClr (g : Gennum) (value : BitVec 32) : Gennum :=
  { g with intMask := g.intMask &&& ~~~value }

/-! ### Flags and pin numbers -/

def gpiofDirIn : BitVec 32 := 1

def gpiofDirOut : BitVec 32 := 0

def gpiofInitHigh : BitVec 32 := 2

def gpiofInitLow : BitVec 32 := 0

def irqfTriggerRising : BitVec 32 := 1

def irqfTriggerHigh : BitVec 32 := 4

def irqfTriggerLow : BitVec 32 := 8

def irqfTriggerMask : BitVec 32 := 0xf

def fmcGpioRaw (x : ℤ) : ℤ := x

def fmcGpioIrq (x : ℤ) : ℤ := x + 0x1000

def fmcGpioTp (x : ℤ) : ℤ := x + 0x1300

/-- `spec_gpio_map`: virtual pin numbers and the pins of the carrier. -/
def specGpioMap : List (ℤ × ℤ) :=
  [(fmcGpioTp 3, fmcGpioRaw 6), (fmcGpioTp 2, fmcGpioRaw 7), (fmcGpioIrq 0, fmcGpioRaw 8),
    (fmcGpioIrq 1, fmcGpioRaw 9), (fmcGpioTp 1, fmcGpioRaw 10), (fmcGpioTp 0, fmcGpioRaw 11)]

/-- `spec_map_pin`. -/
def specMapPin (virt : ℤ) : ℤ :=
  match specGpioMap.find? fun p => p.1 == virt with
  | some p => p.2
  | none => -Errno.enoent

/-! ### One pin -/

/-- The part of `spec_cfg_pin` for the direction: its return value and the registers. -/
def cfgDirection (bit mode : BitVec 32) (g : Gennum) : ℤ × Gennum :=
  if mode &&& gpiofDirIn ≠ 0 then
    (if g.inputValue &&& bit ≠ 0 then 1 else 0,
      { g with
        outputEnable := gennumMaskVal bit 0 g.outputEnable
        directionMode := gennumMaskVal bit bit g.directionMode })
  else
    (0,
      { g with
        outputValue :=
          gennumMaskVal bit (if mode &&& gpiofInitHigh ≠ 0 then bit else 0) g.outputValue
        directionMode := gennumMaskVal bit 0 g.directionMode
        outputEnable := gennumMaskVal bit bit g.outputEnable })

/-- The part of `spec_cfg_pin` for the interrupt. -/
def cfgInterrupt (bit imode : BitVec 32) (g : Gennum) : Gennum :=
  if imode &&& irqfTriggerMask = 0 then g.intMaskSet bit
  else
    { g with
      intValue := gennumMaskVal bit
        (if imode &&& (irqfTriggerHigh ||| irqfTriggerRising) ≠ 0 then bit else 0) g.intValue
      intType := gennumMaskVal bit
        (if imode &&& (irqfTriggerHigh ||| irqfTriggerLow) ≠ 0 then bit else 0) g.intType
      intOnAny := gennumMaskVal bit 0 g.intOnAny : Gennum }.intMaskClr bit

/-- `spec_cfg_pin`: the return value and the registers. -/
def specCfgPin (pin : ℤ) (mode imode : BitVec 32) (g : Gennum) : ℤ × Gennum :=
  let validBits := gpiofDirIn ||| gpiofDirOut ||| gpiofInitHigh ||| gpiofInitLow
  let bit : BitVec 32 := 1#32 <<< pin.toNat
  if pin < 0 ∨ 15 < pin then (-Errno.enodev, g)
  else if mode &&& ~~~validBits ≠ 0 then (-Errno.einval, g)
  else
    let r := cfgDirection bit mode g
    (r.1, cfgInterrupt bit imode r.2)

/-! ### Lists of pins -/

/-- `struct fmc_gpio`; `carrierGpio` is its `_gpio`. -/
structure FmcGpio where
  carrierName : Option String
  gpio : ℤ
  carrierGpio : ℤ
  mode : BitVec 32
  irqmode : BitVec 32
  deriving DecidableEq, Repr

/-- The entry is for another carrier. -/
def FmcGpio.forOther (e : FmcGpio) : Bool := e.carrierName.any fun name => name != "SPEC"

/-- The entry with its pin on the carrier, or the error of the mapping. -/
def FmcGpio.resolve (e : FmcGpio) : Except ℤ FmcGpio :=
  if e.carrierName.isSome then .ok { e with carrierGpio := e.gpio }
  else if e.carrierGpio = 0 then
    if specMapPin e.gpio < 0 then .error (specMapPin e.gpio)
    else .ok { e with carrierGpio := specMapPin e.gpio }
  else .ok e

/-- The loop of `spec_gpio_config`, which has configured `done` pins so far and returns `retval` or
an error; with it the entries and the registers that it leaves. -/
def gpioConfigLoop : List FmcGpio → ℕ → ℤ → Gennum → ℤ × List FmcGpio × Gennum
  | [], done, retval, g => (if done = 0 then -Errno.enodev else retval, [], g)
  | e :: es, done, retval, g =>
    if e.forOther then
      let r := gpioConfigLoop es done retval g
      (r.1, e :: r.2.1, r.2.2)
    else
      match e.resolve with
      | .error i => (i, e :: es, g)
      | .ok e' =>
        let c := specCfgPin e'.carrierGpio e'.mode e'.irqmode g
        if c.1 < 0 then (c.1, e' :: es, c.2)
        else
          let r := gpioConfigLoop es (done + 1) (retval + c.1) c.2
          (r.1, e' :: r.2.1, r.2.2)

/-- `spec_gpio_config`. -/
def specGpioConfig (gpio : List FmcGpio) (g : Gennum) : ℤ × List FmcGpio × Gennum :=
  gpioConfigLoop gpio 0 0 g

/-- `spec_vic_gpio_cfg`, as it is initialized. -/
def specVicGpioCfg : List FmcGpio :=
  [⟨none, fmcGpioIrq 1, 0, gpiofDirIn, irqfTriggerRising⟩,
    ⟨none, fmcGpioIrq 0, 0, gpiofDirIn, irqfTriggerRising⟩]

end SpecSw.Carrier
