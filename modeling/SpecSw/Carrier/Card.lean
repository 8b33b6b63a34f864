import SpecSw.Carrier.EepromAccess

/-!
# Creating and destroying the `fmc` of a card

`spec_reconfigure` destroys the `fmc` of the card, loads the golden gateware and creates a new one:
it checks the gateware, looks for a mezzanine and caches its EEPROM, tests the interrupts and
registers the device on the bus. `spec_fmc_destroy` undoes it all. The cards share the list of fake
EEPROM images and the index of the next one; all else is their own.

Each call gets from outside what it asks for in the course of its work: memory, firmware files,
register reads, the I2C bus, and what the functions of other modules return.

## Main definitions

* `Carrier.SpecDev`, `Carrier.specI2cInit`, `Carrier.specFmcCreate`, `Carrier.specFmcDestroy`,
  `Carrier.specReconfigure`.
* `Carrier.Cards.step`: a call for one of the cards.
* `Carrier.Caches`: an EEPROM is cached.

## Main results

* `Carrier.specI2cInit_of_caches`, `Carrier.specI2cInit_of_not_caches`.
* `Carrier.caches_iff`: an EEPROM that is found is cached.
-/

namespace SpecSw.Carrier

open I2cBus Errno EventRun

/-- `SPEC_FLAG_FMC_REGISTERED`. -/
def specFlagFmcRegistered : BitVec 32 := 4

/-- `SPEC_I2C_EEPROM_ADDR`. -/
def specI2cEepromAddr : BitVec 32 := 0x50

/-- The fields of `struct fmc_device` that are set here; the two `Bool`s are flags of it. -/
structure Fmc where
  eepromAddr : BitVec 32
  hasGolden : Bool
  noMezzanine : Bool
  eeprom : Option (ℕ → BitVec 8)
  eepromLen : ℕ

/-- The fields of `struct spec_dev`, with the PCI device number, and the numbers of `fmc` structures
and EEPROM buffers that have been allocated for the card and not been freed. -/
structure SpecDev where
  flags : BitVec 32
  device : ℕ
  fmc : Option Fmc
  liveFmcs : ℤ
  liveEeproms : ℤ

/-- The module parameters. -/
structure ModuleParams where
  fwName : String
  fwName45t : String
  fwName100t : String
  fwName150t : String
  eeprom : List String

/-- `request_firmware`: its result and the data, for each name. -/
abbrev Firmware := String → ℤ × List (BitVec 8)

/-! ### `spec_i2c_init` -/

/-- What `spec_i2c_init` gets from outside. The I2C bus is idle when it is called. -/
structure I2cEnv (σ : Type*) where
  bus : Bus σ
  idle : bus.Idle
  kzalloc : Bool
  requestFirmware : Firmware

/-- What `spec_i2c_init` leaves. -/
structure I2cInit where
  ret : ℤ
  found : Bool
  spec : SpecDev
  fmc : Fmc
  eepromIndex : ℕ

section Init

variable {σ : Type*} (T : Target σ)

/-- `mi2c_scan`. -/
def mi2cScan (eepromAddr : BitVec 32) (b : Bus σ) : Bool × Bus σ :=
  let b := mi2cStart T (mi2cStop T (mi2cStart T b))
  let (ack, b) := mi2cPutByte T (eepromAddr <<< 1) b
  (ack == 0, mi2cStop T b)

/-- The part of `spec_i2c_init` that loads a fake image: the flags of the card, the buffer and the
index. -/
def loadFake (images : List String) (requestFirmware : Firmware) (eepromIndex : ℕ)
    (flags : BitVec 32) : BitVec 32 × (ℕ → BitVec 8) × ℕ :=
  match images[eepromIndex]? with
  | none => (flags, fun _ => 0, eepromIndex)
  | some name =>
    let (i, data) := requestFirmware name
    if i < 0 then (flags, fun _ => 0, eepromIndex + 1)
    else
      (flags ||| specFlagFakeEeprom,
        store (data.take specI2cEepromSize.toNat) fun _ => 0, eepromIndex + 1)

/-- `spec_i2c_init`. -/
def specI2cInit (images : List String) (env : I2cEnv σ) (eepromIndex : ℕ) (spec : SpecDev)
    (fmc : Fmc) : I2cInit :=
  let (found, b) := mi2cScan T fmc.eepromAddr env.bus
  if !found then ⟨0, found, spec, { fmc with noMezzanine := true }, eepromIndex⟩
  else if !env.kzalloc then ⟨-enomem, found, spec, fmc, eepromIndex⟩
  else
    let spec := { spec with liveEeproms := spec.liveEeproms + 1 }
    let (flags, buf, eepromIndex) := loadFake images env.requestFirmware eepromIndex spec.flags
    let spec := { spec with flags := flags }
    let read := specEepromRead T ⟨spec.flags, fmc.eepromAddr, buf⟩ 0 specI2cEepromSize b
    if BitVec.ofInt 64 read.1 ≠ specI2cEepromSize then
      ⟨-eio, found, { spec with liveEeproms := spec.liveEeproms - 1 },
        { fmc with eeprom := none, eepromLen := 0 }, eepromIndex⟩
    else
      ⟨0, found, spec,
        { fmc with eeprom := some (store read.2.1 buf), eepromLen := specI2cEepromSize.toNat },
        eepromIndex⟩

/-- `spec_i2c_exit`; `kfree` does nothing when there is no buffer. -/
def specI2cExit (spec : SpecDev) (fmc : Fmc) : SpecDev × Fmc :=
  ({ spec with liveEeproms := spec.liveEeproms - if fmc.eeprom.isSome then 1 else 0 },
    { fmc with eeprom := none, eepromLen := 0 })

/-! ### `spec_fmc_create` and `spec_fmc_destroy` -/

/-- What `spec_fmc_create` gets from outside: `readl` is `fmc_readl`, `scanSdbTree` the result of
`fmc_scan_sdb_tree`, `irqInit` that of `spec_irq_init` and `register` that of
`fmc_device_register_gw`. -/
structure CreateEnv (σ : Type*) where
  kzalloc : Bool
  readl : BitVec 32 → BitVec 32
  scanSdbTree : ℤ
  i2c : I2cEnv σ
  irqInit : ℤ
  register : ℤ

/-- `check_golden`. -/
def checkGolden (env : CreateEnv σ) : ℤ :=
  if env.readl 0x100 ≠ 0x5344422d then -enodev
  else if env.scanSdbTree < 0 then -enodev
  else if env.readl 0x15c ≠ 0x0000ce42 then -enodev
  else if env.readl 0x160 ≠ 0xff07fc47 then -enodev
  else 0

/-- What a call leaves: its result, the card, the index, and what `spec_i2c_init` has left if it
was called. -/
structure CreateResult where
  ret : ℤ
  spec : SpecDev
  eepromIndex : ℕ
  init : Option I2cInit

/-- The label `out_free` of `spec_fmc_create`. -/
def outFree (spec : SpecDev) : SpecDev := { spec with fmc := none, liveFmcs := spec.liveFmcs - 1 }

/-- `spec_fmc_create`. -/
def specFmcCreate (images : List String) (env : CreateEnv σ) (eepromIndex : ℕ) (spec : SpecDev) :
    CreateResult :=
  if !env.kzalloc then ⟨-enomem, spec, eepromIndex, none⟩
  else
    let fmc : Fmc := ⟨specI2cEepromAddr, false, false, none, 0⟩
    let spec := { spec with fmc := some fmc, liveFmcs := spec.liveFmcs + 1 }
    let ret := checkGolden env
    if ret ≠ 0 then ⟨ret, outFree spec, eepromIndex, none⟩
    else
      let fmc := { fmc with hasGolden := true }
      let init := specI2cInit T images env.i2c eepromIndex spec fmc
      if init.ret ≠ 0 then ⟨init.ret, outFree init.spec, init.eepromIndex, some init⟩
      else if env.irqInit ≠ 0 then ⟨env.irqInit, outFree init.spec, init.eepromIndex, some init⟩
      -- `out_irq` frees nothing before `out_free` does
      else if env.register ≠ 0 then ⟨env.register, outFree init.spec, init.eepromIndex, some init⟩
      else
        ⟨0, { init.spec with
            flags := init.spec.flags ||| specFlagFmcRegistered, fmc := some init.fmc },
          init.eepromIndex, some init⟩

/-- `spec_fmc_destroy`; the last `put_device` frees the structure. -/
def specFmcDestroy (spec : SpecDev) : SpecDev :=
  if spec.flags &&& specFlagFmcRegistered = 0 then spec
  else
    let spec := match spec.fmc with
      | none => spec
      | some fmc => (specI2cExit spec fmc).1
    { spec with
      flags := spec.flags &&& ~~~specFlagFmcRegistered
      fmc := none
      liveFmcs := spec.liveFmcs - 1 }

/-! ### `spec_reconfigure` -/

/-- `spec_golden_name_get`, with the numbers of the three SPEC cards. -/
def specGoldenNameGet (params : ModuleParams) (device : ℕ) : Option String :=
  if params.fwName.length > 0 then some params.fwName
  else if device = 0x018d then some params.fwName45t
  else if device = 0x01a2 then some params.fwName100t
  else if device = 0x01a3 then some params.fwName150t
  else none

/-- What `spec_reconfigure` gets from outside; `loadFpga` is `spec_load_fpga`. -/
structure ReconfigureEnv (σ : Type*) where
  requestFirmware : Firmware
  loadFpga : List (BitVec 8) → ℤ
  create : CreateEnv σ

/-- `spec_load_fpga_file`. -/
def specLoadFpgaFile (env : ReconfigureEnv σ) : Option String → ℤ
  | none => -einval
  | some name =>
    let (err, data) := env.requestFirmware name
    if err < 0 then err else env.loadFpga data

/-- `spec_reconfigure`. -/
def specReconfigure (params : ModuleParams) (env : ReconfigureEnv σ) (eepromIndex : ℕ)
    (spec : SpecDev) : CreateResult :=
  let spec := if spec.flags &&& specFlagFmcRegistered ≠ 0 then specFmcDestroy spec else spec
  let ret := specLoadFpgaFile env (specGoldenNameGet params spec.device)
  if ret ≠ 0 then ⟨ret, spec, eepromIndex, none⟩
  else specFmcCreate T params.eeprom env.create eepromIndex spec

end Init

/-! ### Several cards -/

/-- The cards, and the index of the next fake image. -/
structure Cards (ι : Type*) where
  spec : ι → SpecDev
  eepromIndex : ℕ

/-- A call for one of the cards. -/
inductive CardEvent (ι σ : Type*)
  | reconfigure (card : ι) (env : ReconfigureEnv σ)
  | destroy (card : ι)

section Step

variable {ι σ : Type*} [DecidableEq ι] (T : Target σ) (params : ModuleParams)

/-- The card of a call. -/
def CardEvent.card : CardEvent ι σ → ι
  | reconfigure card _ => card
  | destroy card => card

/-- What each call leaves; `spec_fmc_destroy` has no result. -/
def Cards.call (s : Cards ι) : CardEvent ι σ → CreateResult
  | .reconfigure card env => specReconfigure T params env s.eepromIndex (s.spec card)
  | .destroy card => ⟨0, specFmcDestroy (s.spec card), s.eepromIndex, none⟩

/-- The cards after a call. -/
def Cards.step (s : Cards ι) (e : CardEvent ι σ) : Cards ι :=
  let r := s.call T params e
  ⟨Function.update s.spec e.card r.spec, r.eepromIndex⟩

end Step

/-! ### The EEPROM is cached -/

section Caches

variable {σ : Type*} (T : Target σ)

/-- The device acknowledges its address on the bus. -/
def Answers (eepromAddr : BitVec 32) (b : Bus σ) : Prop :=
  (mi2cPutByte T (eepromAddr <<< 1) (mi2cStart T b)).1 = 0

/-- The image that the next `spec_i2c_init` loads. -/
def fakeImage (images : List String) (requestFirmware : Firmware) (eepromIndex : ℕ) :
    Option (List (BitVec 8)) :=
  match images[eepromIndex]? with
  | none => none
  | some name => if (requestFirmware name).1 < 0 then none else some (requestFirmware name).2

/-- A mezzanine is found, there is memory for its EEPROM, and that is a fake one or can be read. -/
structure Caches (images : List String) (env : I2cEnv σ) (eepromIndex : ℕ)
    (flags eepromAddr : BitVec 32) : Prop where
  found : (mi2cScan T eepromAddr env.bus).1 = true
  kzalloc : env.kzalloc = true
  readable : flags &&& specFlagFakeEeprom ≠ 0 ∨
    fakeImage images env.requestFirmware eepromIndex ≠ none ∨
    Answers T eepromAddr (mi2cScan T eepromAddr env.bus).2

variable {T}

/-! ### The flags -/

theorem or_fake_and_fake (flags : BitVec 32) :
    (flags ||| specFlagFakeEeprom) &&& specFlagFakeEeprom ≠ 0 := by
  rw [BitVec.and_or_distrib_right, BitVec.and_self]
  intro h
  exact absurd (BitVec.or_eq_zero_iff.mp h).2 (by decide)

theorem loadFake_none {images : List String} {requestFirmware : Firmware} {eepromIndex : ℕ}
    {flags : BitVec 32} (h : fakeImage images requestFirmware eepromIndex = none) :
    (loadFake images requestFirmware eepromIndex flags).1 = flags ∧
      (loadFake images requestFirmware eepromIndex flags).2.1 = fun _ => 0 := by
  rw [fakeImage] at h
  rw [loadFake]
  cases hname : images[eepromIndex]? with
  | none => exact ⟨rfl, rfl⟩
  | some name =>
    rw [hname] at h
    dsimp only at h ⊢
    split_ifs at h ⊢ with herr
    exact ⟨rfl, rfl⟩

theorem loadFake_some {images : List String} {requestFirmware : Firmware} {eepromIndex : ℕ}
    {flags : BitVec 32} {data : List (BitVec 8)}
    (h : fakeImage images requestFirmware eepromIndex = some data) :
    (loadFake images requestFirmware eepromIndex flags).1 = flags ||| specFlagFakeEeprom ∧
      (loadFake images requestFirmware eepromIndex flags).2.1 =
        store (data.take 8192) fun _ => 0 := by
  rw [fakeImage] at h
  rw [loadFake]
  cases hname : images[eepromIndex]? with
  | none =>
    rw [hname] at h
    cases h
  | some name =>
    rw [hname] at h
    dsimp only at h ⊢
    split_ifs at h ⊢ with herr
    obtain rfl := Option.some.inj h
    exact ⟨rfl, rfl⟩

theorem loadFake_fake (images : List String) (requestFirmware : Firmware) (eepromIndex : ℕ)
    (flags : BitVec 32) :
    (loadFake images requestFirmware eepromIndex flags).1 &&& specFlagFakeEeprom ≠ 0 ↔
      flags &&& specFlagFakeEeprom ≠ 0 ∨ fakeImage images requestFirmware eepromIndex ≠ none := by
  cases himage : fakeImage images requestFirmware eepromIndex with
  | none => simp [(loadFake_none himage).1]
  | some data =>
    rw [(loadFake_some himage).1]
    exact iff_of_true (or_fake_and_fake flags) (Or.inr (Option.some_ne_none data))

/-! ### The scan -/

theorem scanReset {b : Bus σ} (h : b.Idle) :
    mi2cStop T (mi2cStart T b) =
      ⟨true, true, ⟨T.stop (T.start b.node.dev), .idle, true⟩, b.conds ++ [.start, .stop]⟩ := by
  rw [mi2cStart_of_idle h, mi2cStop_released rfl, List.append_assoc]
  rfl

/-- The scan finds a device that acknowledges the address. -/
theorem mi2cScan_fst {b : Bus σ} (h : b.Idle) (a : BitVec 32) :
    (mi2cScan T a b).1 =
      (T.receive (T.start (T.stop (T.start b.node.dev))) ((a <<< 1).setWidth 8)).1 := by
  rw [mi2cScan, scanReset h, mi2cStart_of_idle ⟨rfl, rfl⟩, Node.start, mi2cPutByte_receiving]
  cases (T.receive (T.start (T.stop (T.start b.node.dev))) ((a <<< 1).setWidth 8)).1 with
  | true => rfl
  | false => rfl

/-! ### Reading the whole EEPROM -/

/-- The results of putting a byte. -/
theorem mi2cPutByte_neg_iff (data : BitVec 32) (b : Bus σ) :
    (mi2cPutByte T data b).1 < 0 ↔ (mi2cPutByte T data b).1 ≠ 0 := by
  rw [mi2cPutByte]
  dsimp only
  split_ifs <;> simp [eio]

/-- What is read of a fake EEPROM, or of one that answers. -/
theorem specEepromRead_ret {fmc : FmcDevice} (offset : BitVec 32) (size : BitVec 64) {b : Bus σ}
    (hrange : offset.toNat + size.toNat ≤ 8192)
    (h : fmc.flags &&& specFlagFakeEeprom ≠ 0 ∨ Answers T fmc.eepromAddr b) :
    (specEepromRead T fmc offset size b).1 = size.toNat := by
  obtain ⟨hoffset, hsum⟩ := specI2cEepromSize_checks hrange
  have hret : int32 size.toNat = size.toNat := int32_of_range (by omega) (by omega)
  rw [specEepromRead, if_neg hoffset, if_neg hsum]
  dsimp only
  split_ifs with hhw hack
  · exact hret
  · exact absurd (h.resolve_left hhw) ((mi2cPutByte_neg_iff _ _).mp hack)
  · exact hret

/-- Nothing is read of an EEPROM that does not answer. -/
theorem specEepromRead_ret_refused {fmc : FmcDevice} (offset : BitVec 32) (size : BitVec 64)
    {b : Bus σ} (hrange : offset.toNat + size.toNat ≤ 8192)
    (h : ¬ (fmc.flags &&& specFlagFakeEeprom ≠ 0 ∨ Answers T fmc.eepromAddr b)) :
    (specEepromRead T fmc offset size b).1 = -eio := by
  obtain ⟨hoffset, hsum⟩ := specI2cEepromSize_checks hrange
  obtain ⟨hhw, hack⟩ := not_or.mp h
  rw [specEepromRead, if_neg hhw, if_neg hoffset, if_neg hsum]
  exact congrArg Prod.fst (if_pos ((mi2cPutByte_neg_iff _ _).mpr hack))

/-! ### `spec_i2c_init` caches the EEPROM -/

section CachesInit

variable {images : List String} {env : I2cEnv σ} {eepromIndex : ℕ} {spec : SpecDev} {fmc : Fmc}

/-- The card, as `spec_i2c_init` reads the EEPROM of it. -/
def beforeRead (images : List String) (env : I2cEnv σ) (eepromIndex : ℕ)
    (flags eepromAddr : BitVec 32) : FmcDevice :=
  ⟨(loadFake images env.requestFirmware eepromIndex flags).1, eepromAddr,
    (loadFake images env.requestFirmware eepromIndex flags).2.1⟩

/-- The EEPROM that `spec_i2c_init` caches. -/
def cached (T : Target σ) (images : List String) (env : I2cEnv σ) (eepromIndex : ℕ)
    (flags eepromAddr : BitVec 32) : ℕ → BitVec 8 :=
  let fmc := beforeRead images env eepromIndex flags eepromAddr
  store (specEepromRead T fmc 0 specI2cEepromSize (mi2cScan T eepromAddr env.bus).2).2.1 fmc.eeprom

/-- The EEPROM is cached. -/
theorem specI2cInit_of_caches (h : Caches T images env eepromIndex spec.flags fmc.eepromAddr) :
    specI2cInit T images env eepromIndex spec fmc =
      ⟨0, true,
        { spec with
          flags := (loadFake images env.requestFirmware eepromIndex spec.flags).1
          liveEeproms := spec.liveEeproms + 1 },
        { fmc with
          eeprom := some (cached T images env eepromIndex spec.flags fmc.eepromAddr)
          eepromLen := specI2cEepromSize.toNat },
        (loadFake images env.requestFirmware eepromIndex spec.flags).2.2⟩ := by
  have hreadable : (beforeRead images env eepromIndex spec.flags fmc.eepromAddr).flags &&&
      specFlagFakeEeprom ≠ 0 ∨ Answers T fmc.eepromAddr (mi2cScan T fmc.eepromAddr env.bus).2 := by
    rw [beforeRead, loadFake_fake, or_assoc]
    exact h.readable
  have hread := specEepromRead_ret 0 specI2cEepromSize (by decide) hreadable
  have hall : ¬ BitVec.ofInt 64 (specI2cEepromSize.toNat : ℤ) ≠ specI2cEepromSize := by decide
  rw [specI2cInit, cached]
  simp only [beforeRead] at hread ⊢
  rw [h.found, h.kzalloc, if_neg (by simp), if_neg (by simp), hread, if_neg hall]

/-- The EEPROM is not cached, and the card is as it was. -/
theorem specI2cInit_of_not_caches
    (h : ¬ Caches T images env eepromIndex spec.flags fmc.eepromAddr) (hfmc : fmc.eeprom = none) :
    ∃ ret found noMezzanine eepromLen next,
      specI2cInit T images env eepromIndex spec fmc =
        ⟨ret, found, spec, { fmc with noMezzanine := noMezzanine, eepromLen := eepromLen }, next⟩ ∧
      (found = true → ret ≠ 0) := by
  rw [specI2cInit]
  dsimp only
  by_cases hfound : (mi2cScan T fmc.eepromAddr env.bus).1 = true
  · rw [hfound, if_neg (by simp)]
    by_cases hkzalloc : env.kzalloc = true
    · have hunreadable : ¬ (spec.flags &&& specFlagFakeEeprom ≠ 0 ∨
          fakeImage images env.requestFirmware eepromIndex ≠ none ∨
          Answers T fmc.eepromAddr (mi2cScan T fmc.eepromAddr env.bus).2) :=
        fun hreadable => h ⟨hfound, hkzalloc, hreadable⟩
      have hflags : (loadFake images env.requestFirmware eepromIndex spec.flags).1 = spec.flags :=
        (loadFake_none (by tauto)).1
      have hrefused : ¬ ((beforeRead images env eepromIndex spec.flags fmc.eepromAddr).flags &&&
          specFlagFakeEeprom ≠ 0 ∨
          Answers T fmc.eepromAddr (mi2cScan T fmc.eepromAddr env.bus).2) := by
        rwa [beforeRead, loadFake_fake, or_assoc]
      have hread := specEepromRead_ret_refused 0 specI2cEepromSize (by decide) hrefused
      simp only [beforeRead, hflags] at hread
      rw [hkzalloc, if_neg (by simp), hflags, hread, if_pos (by decide)]
      refine ⟨-eio, true, fmc.noMezzanine, 0,
        (loadFake images env.requestFirmware eepromIndex spec.flags).2.2, ?_, by decide⟩
      rw [hfmc, Int.add_sub_cancel]
    · rw [if_pos (by simpa using hkzalloc)]
      exact ⟨-enomem, true, fmc.noMezzanine, fmc.eepromLen, eepromIndex, rfl, by decide⟩
  · rw [if_pos (by simpa using hfound)]
    exact ⟨0, _, true, fmc.eepromLen, eepromIndex, rfl, fun hc => absurd hc hfound⟩

end CachesInit

end Caches

/-! ### An EEPROM on the bus -/

section Found

variable {busyTime : ℕ → ℕ} {a : BitVec 32} {b : Bus Eeprom}

/-- A START and a STOP leave an EEPROM on standby. -/
theorem stop_start (e : Eeprom) :
    (eepromTarget busyTime).stop ((eepromTarget busyTime).start e) =
      { e with stage := .standby, pending := [] } := by
  change Eeprom.stop busyTime e.start = _
  rw [Eeprom.stop_empty busyTime rfl]
  rfl

/-- The bus after an EEPROM has been found. -/
def afterScan (b : Bus Eeprom) : Bus Eeprom :=
  ⟨true, true, ⟨{ b.node.dev with stage := .standby, pending := [] }, .idle, true⟩,
    b.conds ++ Bus.transactions 2⟩

theorem Attached.afterScan (h : Attached a b) : Attached a (afterScan b) := ⟨⟨rfl, rfl⟩, h.devAddr⟩

/-- An EEPROM at the address is found unless it is busy. -/
theorem mi2cScan_answered (h : Attached a b) (hbusy : b.node.dev.busy = 0) :
    mi2cScan (eepromTarget busyTime) a b = (true, afterScan b) := by
  have hreset : Attached a ⟨true, true,
      ⟨{ b.node.dev with stage := .standby, pending := [] }, .idle, true⟩,
      b.conds ++ [.start, .stop]⟩ := ⟨⟨rfl, rfl⟩, h.devAddr⟩
  rw [mi2cScan, scanReset h.idle, stop_start, hreset.put_write hbusy]
  dsimp only
  rw [mi2cStop_released rfl, List.append_assoc, List.append_assoc]
  rfl

theorem mi2cScan_iff (h : b.Idle) :
    (mi2cScan (eepromTarget busyTime) a b).1 = true ↔
      b.node.dev.devAddr = a.setWidth 7 ∧ b.node.dev.busy = 0 := by
  have hbyte := (addressByte_write a).1
  refine ⟨fun hfound => ?_, fun hdev => ?_⟩
  · rw [mi2cScan_fst h, stop_start] at hfound
    change (Eeprom.receive { b.node.dev with stage := .address, pending := [] } _).1 = true
      at hfound
    simp only [Eeprom.receive, hbyte] at hfound
    split_ifs at hfound with haddr hbusy hbit
    · exact ⟨(not_not.mp haddr).symm, not_not.mp hbusy⟩
    · exact ⟨(not_not.mp haddr).symm, not_not.mp hbusy⟩
  · rw [mi2cScan_answered ⟨h, hdev.1⟩ hdev.2]

/-- An EEPROM that is found can be read. -/
theorem caches_iff {images : List String} {env : I2cEnv Eeprom} {eepromIndex : ℕ}
    {flags : BitVec 32} :
    Caches (eepromTarget busyTime) images env eepromIndex flags a ↔
      (mi2cScan (eepromTarget busyTime) a env.bus).1 = true ∧ env.kzalloc = true := by
  refine ⟨fun h => ⟨h.found, h.kzalloc⟩, fun ⟨hfound, hkzalloc⟩ => ⟨hfound, hkzalloc, ?_⟩⟩
  obtain ⟨haddr, hbusy⟩ := (mi2cScan_iff env.idle).mp hfound
  have hattached : Attached a env.bus := ⟨env.idle, haddr⟩
  rw [mi2cScan_answered hattached hbusy]
  exact Or.inr (Or.inr (congrArg Prod.fst (hattached.afterScan.put_write hbusy)))

end Found

end SpecSw.Carrier
