import SpecSw.Vic.Controller

/-!
# Probing and removing the driver

`wrn_fmc_probe` writes the gateware of the NIC into the FPGA, loads the WRC program where the
gateware comes without it, registers a `gpio_chip`, and calls `wrn_eth_init`, which requests the
interrupt, makes a copy of the platform device with what it needs, registers it and sets up the
VIC. `wrn_fmc_remove` undoes that for a device that was probed in full.

The exits of `wrn_fmc_probe` share the variable `ret`. Two of them are taken for an error but leave
it with the value of the last call that succeeded: no RAM or no system controller in the SDB where
WRC has to be loaded, and a reset of the LM32 that takes too long. A core that is missing from
`wrn_cores2` is skipped, and the result of `platform_device_register` is ignored.

Functions that dereference a null pointer have the result `none`. Addresses are natural numbers,
0 is null.

## Main definitions

* `Nic.ProbeParams`, `Nic.ProbeEnv`: the parameters, and what one probe gets from outside.
* `Nic.NicFmc`: the device, `Nic.wrnEthInit`, `Nic.wrnEthExit`, `Nic.wrnFmcProbe`,
  `Nic.wrnFmcRemove`.
* `Nic.attempt`: a probe, with the removal when it returns a value that is not negative.
-/

namespace SpecSw.Nic

open Errno Vic

/-! ### The cores of the gateware -/

/-- `SDB_CERN`. -/
def sdbCern : BitVec 64 := 0xce42

/-- `SDB_7SOL`. -/
def sdb7sol : BitVec 64 := 0x75cb

/-- `WRN_SDB_RAM`. -/
def wrnSdbRam : BitVec 32 := 0x66cfeb52

/-- `WRN_SDB_SYSCON`. -/
def wrnSdbSyscon : BitVec 32 := 0xff07fc47

/-- `WRN_GATEWARE_DEFAULT_NAME`. -/
def wrnGatewareDefaultName : String := "fmc/wr_nic_dio.bin"

/-- `WRN_WRC_DEFAULT_NAME`. -/
def wrnWrcDefaultName : String := "fmc/wr_nic_dio-wrc.bin"

/-- `fmc_find_sdb_device` for the tree of the device: the offset of a core, negative when there is
none, and its size. -/
abbrev Sdb := BitVec 64 → BitVec 32 → ℤ × ℕ

/-- The base addresses in `struct wrn_drvdata`. -/
structure DrvBases where
  vicBase : ℕ
  gpioBase : ℕ
  wrdioBase : ℕ
  ppsgBase : ℕ
  deriving DecidableEq, Repr

/-- `struct wrn_core`. -/
structure WrnCore where
  name : String
  vendor : BitVec 64
  device : BitVec 32
  deriving DecidableEq, Repr

/-- `wrn_cores`: these cores are used by the nic driver itself. -/
def wrnCores : List WrnCore :=
  [⟨"NIC", sdbCern, 0x00000012⟩, ⟨"Endpoint", sdbCern, 0x650c2d4f⟩,
    ⟨"PPS-Gen", sdbCern, 0xde0d8ced⟩, ⟨"Tx-Stamp", sdbCern, 0x00000014⟩]

/-- The entry of the VIC in `wrn_cores2`. -/
def vicCore : WrnCore := ⟨"VIC", sdbCern, 0x00000013⟩

/-- The entry of the GPIO in `wrn_cores2`. -/
def gpioCore : WrnCore := ⟨"GPIO", sdbCern, 0x441c5143⟩

/-- The entry of the DIO in `wrn_cores2`. -/
def wrdioCore : WrnCore := ⟨"WR-DIO", sdb7sol, 0x00000001⟩

/-- The entry of the PPS generator in `wrn_cores2`. -/
def ppsgCore : WrnCore := ⟨"PPS-Gen", sdbCern, 0xde0d8ced⟩

/-- `wrn_cores2`: these cores are used by the wr-nic fmc device, each with the assignment to the
field that `offset` is the place of. -/
def wrnCores2 : List (WrnCore × (ℕ → DrvBases → DrvBases)) :=
  [(vicCore, fun a d => { d with vicBase := a }), (gpioCore, fun a d => { d with gpioBase := a }),
    (wrdioCore, fun a d => { d with wrdioBase := a }),
    (ppsgCore, fun a d => { d with ppsgBase := a })]

/-! ### The device -/

/-- `struct resource`, with both ends included. -/
structure Resource where
  name : String
  start : ℕ
  stop : ℕ
  deriving DecidableEq, Repr

/-- The addresses in `struct wrn_dev`. -/
structure WrnBases where
  bases : List ℕ
  regs : ℕ
  txtsuRegs : ℕ
  ppsgRegs : ℕ
  deriving DecidableEq, Repr

/-- The copy of `wrn_pdev`, with `struct wrn_drvdata` and `struct wrn_dev`; `bound` says that
`wrn_driver` is bound to it. -/
structure Pdev where
  id : ℕ
  resource : List Resource
  drvdata : DrvBases
  wrn : WrnBases
  bound : Bool
  deriving DecidableEq, Repr

/-- What `wrn_eth_init` allocates. -/
inductive EthAlloc
  | pdev
  | resarr
  | drvdata
  | wrn
  deriving DecidableEq, Repr

/-- The part of `struct fmc_device` and of its hardware that the driver uses. `gpioChip` is
`dd->gc`, `heap` is what `wrn_eth_init` has allocated and has not been freed, `nextId` is
`wrn_pdev.id`. -/
structure NicFmc where
  irq : Bool
  gpioChip : Bool
  heap : List EthAlloc
  mezzanineData : Option Pdev
  nextId : ℕ
  vic : VicRegs
  syscon : BitVec 32
  ram : ℕ → BitVec 32

/-- An address that is not null. -/
abbrev Address := {a : ℕ // 0 < a}

/-- The parameters of the module, the addresses of the card, and `CONFIG_GPIOLIB`. -/
structure ProbeParams where
  gwN : ℕ
  wrnFilename : String
  wrnWrcFilename : String
  gpiolib : Bool
  fpgaBase : Address
  areaStart : Address

/-- A firmware file: the value of `request_firmware`, and the size and the data. -/
structure WrcFile where
  ret : {r : ℤ // r ≤ 0}
  size : ℕ
  data : ℕ → BitVec 8

/-- What one probe gets from outside. `lm32TimedOut` is the last test of `time_after`; `wrnDriver`
says that `wrn_driver` is registered and probes the platform device, `allocEtherdev` that there is
memory for its network device, `wrnEndpoint` that this registers an endpoint, and `dioKzalloc` that
its `dio_device` is allocated. -/
structure ProbeEnv where
  validate : ℤ
  ddKzalloc : Bool
  reprogram : String → ℤ
  sdb : Sdb
  ramWord : BitVec 32
  lm32TimedOut : Bool
  requestFirmware : String → WrcFile
  gcKzalloc : Bool
  gpiochipAdd : ℤ
  irqRequest : ℤ
  kmalloc : EthAlloc → Bool
  wrnDriver : Bool
  ioremap : ℕ → ℕ → ℕ
  allocEtherdev : Bool
  wrnEndpoint : Bool
  dioKzalloc : Bool

section Functions

variable (p : ProbeParams) (env : ProbeEnv)

/-! ### `wrn_load_wrc` -/

/-- `__cpu_to_be32` of a word of the file. -/
def wrcWord (data : ℕ → BitVec 8) (i : ℕ) : BitVec 32 :=
  data (4 * i) ++ data (4 * i + 1) ++ data (4 * i + 2) ++ data (4 * i + 3)

/-- The loop of `wrn_load_wrc` over a file of `size` bytes. -/
def writeWrc (data : ℕ → BitVec 8) (size : ℕ) (ram : ℕ → BitVec 32) : ℕ → BitVec 32 :=
  (List.range ((size + 3) / 4)).foldl (fun ram i => Function.update ram i (wrcWord data i)) ram

/-- `wrn_load_wrc`. -/
def wrnLoadWrc (name : String) (ramsize : ℕ) (f : NicFmc) : ℤ × NicFmc :=
  let fw := env.requestFirmware name
  if fw.ret.val < 0 then (fw.ret.val, f)
  else if ramsize < fw.size then (-enomem, f)
  else (fw.ret.val, { f with ram := writeWrc fw.data fw.size f.ram })

/-! ### `wrn_gpio_init` and `wrn_gpio_exit` -/

/-- `wrn_gpio_init`. -/
def wrnGpioInit (f : NicFmc) : ℤ × NicFmc :=
  if !p.gpiolib then (0, f)
  else if !env.gcKzalloc then (-enomem, f)
  else if env.gpiochipAdd < 0 then (env.gpiochipAdd, f)
  else (0, { f with gpioChip := true })

/-- `wrn_gpio_exit`. -/
def wrnGpioExit (f : NicFmc) : Option NicFmc :=
  if !p.gpiolib then some f
  else if !f.gpioChip then none
  else some { f with gpioChip := false }

/-! ### The VIC -/

/-- `wrn_vic_init`: fill the vector table, enable the VIC and the three lines. -/
def wrnVicInit (f : NicFmc) : Option NicFmc :=
  match f.mezzanineData with
  | none => none
  | some pdev =>
    if pdev.drvdata.vicBase = 0 then none
    else
      let vic := ((f.vic.writeIvt 0 0).writeIvt 1 1).writeIvt 2 2
      let vic := { vic with ctl := vicCtlOn }
      some { f with vic := vic.ier 7 }

/-- `wrn_vic_exit`: the polarity bit stays on. -/
def wrnVicExit (f : NicFmc) : Option NicFmc :=
  match f.mezzanineData with
  | none => none
  | some pdev =>
    if pdev.drvdata.vicBase = 0 then none
    else some { f with vic := { f.vic.idr 0xff with ctl := 2 } }

/-! ### The platform device -/

/-- `__wrn_map_resources`. -/
def wrnMapResources : List Resource → Option (List ℕ)
  | [] => some []
  | res :: rest =>
    if res.start = 0 then (wrnMapResources rest).map (0 :: ·)
    else
      let ptr := env.ioremap res.start (res.stop + 1 - res.start)
      if ptr = 0 then none else (wrnMapResources rest).map (ptr :: ·)

/-- `platform_device_register`: where `wrn_driver` is registered, `wrn_probe` maps the resources,
allocates the network device and enables the interrupts of the DIO. When the mapping fails,
`wrn_remove` writes to registers whose address has not been set; the network device gets its parent
before it is tested for null. -/
def platformDeviceRegister (pdev : Pdev) : Option Pdev :=
  if !env.wrnDriver then some pdev
  else
    match wrnMapResources env pdev.resource with
    | none => none
    | some bases =>
      let wrn : WrnBases := ⟨bases, bases.getD 0 0, bases.getD 3 0, bases.getD 2 0⟩
      if wrn.regs = 0 then none
      else if !env.allocEtherdev then none
      else if env.wrnEndpoint && env.dioKzalloc && pdev.drvdata.wrdioBase = 0 then none
      else some { pdev with wrn := wrn, bound := env.wrnEndpoint }

/-- `platform_device_unregister`: `wrn_remove` stops the NIC and disables the interrupts of the
DIO. -/
def platformDeviceUnregister (pdev : Pdev) : Option Pdev :=
  if pdev.bound && (pdev.wrn.regs = 0 || pdev.drvdata.wrdioBase = 0) then none
  else some { pdev with bound := false }

/-! ### `wrn_eth_init` and `wrn_eth_exit` -/

/-- The blocks, in the order in which they are allocated. -/
def ethAllocs : List EthAlloc := [.pdev, .resarr, .drvdata, .wrn]

/-- Allocate the blocks for which there is memory. -/
def ethKmalloc (f : NicFmc) : NicFmc :=
  { f with
    heap := ethAllocs.foldl (fun heap a => if env.kmalloc a then a :: heap else heap) f.heap }

/-- `kfree` for each block, the last first. -/
def ethKfree (f : NicFmc) : NicFmc :=
  { f with heap := ethAllocs.reverse.foldl List.erase f.heap }

/-- The label `out_mem`; `kfree` does nothing for a null pointer. -/
def outMem (f : NicFmc) : NicFmc :=
  { f with
    heap := ethAllocs.reverse.foldl (fun heap a => if env.kmalloc a then heap.erase a else heap)
      f.heap
    irq := false }

/-- The resource of a core, `none` when the SDB does not list it. -/
def coreResource (c : WrnCore) : Option Resource :=
  let (start, size) := env.sdb c.vendor c.device
  if start < 0 then none
  else
    let start := p.areaStart.val + start.toNat
    some ⟨c.name, start, start + size - 1⟩

/-- The loop over `wrn_cores2`. -/
def drvBases : DrvBases :=
  wrnCores2.foldl
    (fun d c =>
      let start := (env.sdb c.1.vendor c.1.device).1
      if start < 0 then d else c.2 (p.fpgaBase.val + start.toNat) d)
    ⟨0, 0, 0, 0⟩

/-- The end of `wrn_eth_init`: fill the platform device, register it, and set up the VIC. -/
def ethRegister (resource : List Resource) (f : NicFmc) : Option (ℤ × NicFmc) :=
  let pdev : Pdev := ⟨f.nextId, resource, drvBases p env, ⟨[], 0, 0, 0⟩, false⟩
  match platformDeviceRegister env pdev with
  | none => none
  | some pdev =>
    match wrnVicInit { f with mezzanineData := some pdev } with
    | none => none
    | some f => some (0, { f with nextId := f.nextId + 1 })

/-- `wrn_eth_init`. -/
def wrnEthInit (f : NicFmc) : Option (ℤ × NicFmc) :=
  if env.irqRequest < 0 then some (env.irqRequest, f)
  else
    let f := ethKmalloc env { f with irq := true }
    if !ethAllocs.all env.kmalloc then some (-enomem, outMem env f)
    else
      match wrnCores.mapM (coreResource p env) with
      | none => some (-enomem, outMem env f)
      | some resource => ethRegister p env resource f

/-- `wrn_eth_exit`. -/
def wrnEthExit (f : NicFmc) : Option NicFmc :=
  match wrnVicExit f with
  | none => none
  | some f =>
    match f.mezzanineData with
    | none => some { f with irq := false }
    | some pdev =>
      match platformDeviceUnregister pdev with
      | none => none
      | some _ => some { ethKfree f with mezzanineData := none, irq := false }

/-! ### `wrn_fmc_probe` and `wrn_fmc_remove` -/

/-- The name that `fmc_reprogram` gets: with `gateware=`, the per-board names are used instead of
the global one. -/
def gatewareName : String := if p.gwN ≠ 0 then "" else p.wrnFilename

/-- The offset of the RAM of the LM32, and its size. -/
def ramOf : ℤ × ℕ := env.sdb sdbCern wrnSdbRam

/-- The offset of the system controller. -/
def sysconOf : ℤ := (env.sdb sdbCern wrnSdbSyscon).1

/-- `need_wrc`: the gateware does not include the WRC code, or the user has asked for a file. -/
def needWrc : Bool :=
  (0 ≤ (ramOf env).1 && env.ramWord != 0x98000000) || p.wrnWrcFilename != wrnWrcDefaultName

/-- `filename`: the value `1` of the parameter means the default. -/
def wrcName : String := if p.wrnWrcFilename = "1" then wrnWrcDefaultName else p.wrnWrcFilename

/-- Load WRC where it is needed: the value that a `goto out` leaves in `ret`, which has the value
`ret` before, or `none`. -/
def wrnWrc (ret : ℤ) (f : NicFmc) : Option ℤ × NicFmc :=
  if !needWrc p env then (none, f)
  else if (ramOf env).1 < 0 || sysconOf env < 0 then (some ret, f)
  else
    let f := { f with syscon := 0x1deadbee }
    if env.lm32TimedOut then (some ret, { f with syscon := 0x0deadbee })
    else
      let (ret, f) := wrnLoadWrc env (wrcName p) (ramOf env).2 f
      let f := { f with syscon := 0x0deadbee }
      if ret ≠ 0 then (some ret, f) else (none, f)

/-- The end of `wrn_fmc_probe`: the gpio stuff, and the network device. -/
def probeDevices (f : NicFmc) : Option (ℤ × NicFmc) :=
  let (ret, f) := wrnGpioInit p env f
  if ret < 0 then some (ret, f)
  else
    match wrnEthInit p env f with
    | none => none
    | some (ret, f) => if ret < 0 then (wrnGpioExit p f).map (ret, ·) else some (ret, f)

/-- `wrn_fmc_probe`. -/
def wrnFmcProbe (f : NicFmc) : Option (ℤ × NicFmc) :=
  if env.validate < 0 then some (-enodev, f)
  else if !env.ddKzalloc then some (-enomem, f)
  else
    let f := { f with gpioChip := false }
    let ret := env.reprogram (gatewareName p)
    if ret < 0 then some (if ret = -esrch then -enodev else ret, f)
    else
      match wrnWrc p env ret f with
      | (some ret, f) => some (ret, f)
      | (none, f) => probeDevices p env f

/-- `wrn_fmc_remove`. -/
def wrnFmcRemove (f : NicFmc) : Option NicFmc :=
  match wrnEthExit f with
  | none => none
  | some f => wrnGpioExit p f

/-- A probe, and the removal of the device when it returns a value that is not negative; `none`
after a null pointer has been dereferenced. -/
def attempt (s : Option NicFmc) (env : ProbeEnv) : Option NicFmc :=
  match s with
  | none => none
  | some f =>
    match wrnFmcProbe p env f with
    | none => none
    | some (ret, f) => if 0 ≤ ret then wrnFmcRemove p f else some f

end Functions

end SpecSw.Nic
