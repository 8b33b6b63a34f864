import SpecSw.Carrier.CardBalance

/-!
# Reprogramming the FPGA

The drivers of mezzanines can have the carrier load another gateware, from a buffer
(`spec_reprogram_raw`) or from a file (`spec_reprogram`). The flag `FMC_DEVICE_HAS_GOLDEN` says that
the FPGA holds the golden gateware, and with it `spec_read_ee` and `spec_write_ee` may use the
registers of that. It is cleared before anything is loaded, and set again after the file of the
module parameter `fw_name` has been loaded, which the code knows by the address of its name.

Strings are at addresses of any type, `str` is what is there, and `fwName` is the address in
`spec_fw_name`. What the FPGA holds is modelled with where it comes from.

## Main definitions

* `Carrier.specValidate`, `Carrier.specReprogramRaw`, `Carrier.specReprogram`.
* `Carrier.GwCall`, `Carrier.gwCall`: a call of one of the functions for drivers.
* `Carrier.GwCard.HoldsGolden`: the FPGA holds the golden gateware.

## Main results

* `Carrier.gwCall_honest`, `Carrier.specFmcCreate_hasGolden`.
* `Carrier.eepromOnlyWithGolden`.
-/

namespace SpecSw.Carrier

open I2cBus Errno EventRun

/-! ### The card -/

/-- Where a bitstream comes from: `spec_reconfigure`, a file, or the buffer of a caller. -/
inductive Origin
  | creation
  | file (name : String)
  | buffer
  deriving DecidableEq, Repr

/-- A bitstream. -/
structure Bitstream where
  origin : Origin
  data : List (BitVec 8)

/-- A card with what its FPGA holds, `none` when that is not known. `hasCustom` is the flag
`FMC_DEVICE_HAS_CUSTOM`. -/
structure GwCard (σ : Type*) where
  ee : EeCard σ
  hasCustom : Bool
  fpga : Option Bitstream

/-- What drivers can call when `spec_fmc_create` has made `fmc`. -/
def GwCard.created {σ : Type*} (spec : SpecDev) (fmc : Fmc) (golden : List (BitVec 8))
    (bus : Bus σ) : GwCard σ where
  ee := ⟨⟨spec.flags, fmc.eepromAddr, fmc.eeprom.getD fun _ => 0⟩, fmc.hasGolden, bus⟩
  hasCustom := false
  fpga := some ⟨.creation, golden⟩

/-- The parameters `busid` and `gateware` of a driver; `gwVal` is null where it has no name. -/
structure FmcDriver (α : Type*) where
  busidVal : List ℤ
  gwVal : ℕ → Option α

/-- `spec_validate`, for a card with the bus number `busid`. -/
def specValidate {α : Type*} (busid : ℤ) (drv : FmcDriver α) : ℤ :=
  if drv.busidVal.length = 0 then 0
  else
    match drv.busidVal.findIdx? (· == busid) with
    | some i => i
    | none => -enoent

/-- A driver that `spec_validate` accepts. -/
abbrev Accepted (α : Type*) (busid : ℤ) := {drv : FmcDriver α // 0 ≤ specValidate busid drv}

/-- The result of `spec_load_fpga`: zero, or an error. -/
abbrev LoadResult := {ret : ℤ // ret ≤ 0}

/-- The result of `request_firmware`, and the data of the file, null when it has none. -/
abbrev FirmwareFile := ℤ × Option (List (BitVec 8))

/-! ### The functions -/

/-- `request_firmware`, which refuses an empty name. -/
def requestFirmware (file : FirmwareFile) (name : String) : FirmwareFile :=
  if name.length = 0 then (-einval, none) else file

section Functions

variable {α σ : Type*}

/-- `spec_reprogram_raw`. The driver is only used for a message. -/
def specReprogramRaw (c : GwCard σ) (gw : Option (List (BitVec 8))) (origin : Origin)
    (load : LoadResult) : ℤ × GwCard σ :=
  match gw with
  | none => (-einval, c)
  | some data =>
    if data.length = 0 then (-einval, c)
    else
      let c := { c with ee := { c.ee with hasGolden := false } }
      let c := { c with fpga := if load.val = 0 then some ⟨origin, data⟩ else none }
      if load.val < 0 then (load.val, c) else (0, { c with hasCustom := true })

variable [DecidableEq α] (str : α → String) (fwName : α)

/-- `spec_reprogram`. -/
def specReprogram (busid : ℤ) (c : GwCard σ) (drv : FmcDriver α) (gw : Option α)
    (file : FirmwareFile) (load : LoadResult) : ℤ × GwCard σ :=
  let gw := gw.getD fwName
  let gw := if (str gw).length = 0 then drv.gwVal (specValidate busid drv).toNat else some gw
  match gw with
  | none => (-esrch, c)
  | some gw =>
    let (ret, data) := requestFirmware file (str gw)
    if ret < 0 then (ret, c)
    else
      let (ret, c) := specReprogramRaw c data (.file (str gw)) load
      if ret < 0 then (ret, c)
      else
        (ret, if gw = fwName then { c with ee := { c.ee with hasGolden := true } } else c)

/-- A call of one of the functions for drivers, with what the functions they call return. -/
inductive GwCall (α : Type*) (busid : ℤ)
  | reprogram (drv : Accepted α busid) (gw : Option α) (file : FirmwareFile) (load : LoadResult)
  | reprogramRaw (gw : Option (List (BitVec 8))) (load : LoadResult)
  | readEe (pos len : ℤ)
  | writeEe (fuel : ℕ) (pos : ℤ) (data : ℕ → BitVec 8) (len : ℤ)

variable (T : Target σ) {busid : ℤ}

/-- The card after each call, `none` when the EEPROM does not answer. -/
def gwCall (c : GwCard σ) : GwCall α busid → Option (GwCard σ)
  | .reprogram drv gw file load => some (specReprogram str fwName busid c drv.val gw file load).2
  | .reprogramRaw gw load => some (specReprogramRaw c gw .buffer load).2
  | .readEe pos len =>
    some { c with ee := { c.ee with bus := (specReadEe T c.ee pos len).2.2 } }
  | .writeEe fuel pos data len =>
    (specWriteEe T fuel c.ee pos data len).map fun r =>
      { c with ee := { c.ee with fmc := r.2.1, bus := r.2.2 } }

/-! ### The golden gateware -/

/-- The FPGA holds the bitstream of the creation, or of the file that a `fw_name` which is not
empty names. -/
def GwCard.HoldsGolden (c : GwCard σ) : Prop :=
  ∃ b, c.fpga = some b ∧
    (b.origin = .creation ∨ str fwName ≠ "" ∧ b.origin = .file (str fwName))

/-- The flag is set only when the FPGA holds the golden gateware. -/
def GwCard.Honest (c : GwCard σ) : Prop := c.ee.hasGolden = true → c.HoldsGolden str fwName

end Functions

section Golden

variable {α σ : Type*} {str : α → String} {fwName : α} {c : GwCard σ}

/-- After `spec_reprogram_raw` either nothing has changed, or the flag is clear; when it succeeds
the FPGA holds what it was given. -/
theorem specReprogramRaw_spec (c : GwCard σ) (gw : Option (List (BitVec 8))) (origin : Origin)
    (load : LoadResult) :
    ((specReprogramRaw c gw origin load).2 = c ∨
        (specReprogramRaw c gw origin load).2.ee.hasGolden = false) ∧
      (0 ≤ (specReprogramRaw c gw origin load).1 →
        ∃ data, (specReprogramRaw c gw origin load).2.fpga = some ⟨origin, data⟩) := by
  cases gw with
  | none => exact ⟨Or.inl rfl, fun h => absurd h (by decide : ¬ 0 ≤ -einval)⟩
  | some data =>
    rw [specReprogramRaw]
    dsimp only
    by_cases hempty : data.length = 0
    · rw [if_pos hempty]
      exact ⟨Or.inl rfl, fun h => absurd h (by decide : ¬ 0 ≤ -einval)⟩
    · rw [if_neg hempty]
      by_cases hneg : load.val < 0
      · rw [if_pos hneg]
        exact ⟨Or.inr rfl, fun h => absurd hneg (not_lt.mpr h)⟩
      · rw [if_neg hneg]
        exact ⟨Or.inr rfl, fun _ => ⟨data, if_pos (le_antisymm load.property (not_lt.mp hneg))⟩⟩

theorem specReprogramRaw_honest (h : c.Honest str fwName) (gw : Option (List (BitVec 8)))
    (origin : Origin) (load : LoadResult) :
    (specReprogramRaw c gw origin load).2.Honest str fwName := by
  rcases (specReprogramRaw_spec c gw origin load).1 with hsame | hclear
  · rwa [hsame]
  · exact fun hset => absurd (hclear.symm.trans hset) Bool.false_ne_true

variable [DecidableEq α]

/-- The flag is set after the file of `fw_name` has been loaded. -/
theorem specReprogram_honest (h : c.Honest str fwName) (busid : ℤ) (drv : FmcDriver α)
    (gw : Option α) (file : FirmwareFile) (load : LoadResult) :
    (specReprogram str fwName busid c drv gw file load).2.Honest str fwName := by
  rw [specReprogram]
  dsimp only
  split
  · exact h
  · rename_i name _
    split_ifs with hrequest hraw hname
    · exact h
    · exact specReprogramRaw_honest h _ _ load
    · subst hname
      have hnonempty : str name ≠ "" := by
        intro hempty
        rw [requestFirmware, if_pos (by rw [hempty]; rfl)] at hrequest
        exact hrequest (by decide)
      obtain ⟨data, hfpga⟩ := (specReprogramRaw_spec c _ _ load).2 (not_lt.mp hraw)
      exact fun _ => ⟨_, hfpga, Or.inr ⟨hnonempty, rfl⟩⟩
    · exact specReprogramRaw_honest h _ _ load

/-- Every call keeps the flag honest. -/
theorem gwCall_honest {T : Target σ} {busid : ℤ} {c' : GwCard σ} (h : c.Honest str fwName)
    (e : GwCall α busid) (hcall : gwCall str fwName T c e = some c') : c'.Honest str fwName := by
  cases e with
  | reprogram drv gw file load =>
    obtain rfl := Option.some.inj hcall
    exact specReprogram_honest h busid drv.val gw file load
  | reprogramRaw gw load =>
    obtain rfl := Option.some.inj hcall
    exact specReprogramRaw_honest h gw .buffer load
  | readEe pos len =>
    obtain rfl := Option.some.inj hcall
    exact h
  | writeEe fuel pos data len =>
    obtain ⟨r, -, rfl⟩ := Option.map_eq_some_iff.mp hcall
    exact h

end Golden

/-! ### The creation -/

/-- `spec_fmc_create` sets the flag. -/
theorem specFmcCreate_hasGolden {σ : Type*} {T : Target σ} {images : List String}
    {env : CreateEnv σ} {eepromIndex : ℕ} {spec : SpecDev} {fmc : Fmc}
    (hret : (specFmcCreate T images env eepromIndex spec).ret = 0)
    (hfmc : (specFmcCreate T images env eepromIndex spec).spec.fmc = some fmc) :
    fmc.hasGolden = true := by
  have hinit : (specI2cInit T images env.i2c eepromIndex (opened spec) goldenFmc).fmc.hasGolden =
      true := by
    by_cases hcaches : Caches T images env.i2c eepromIndex (opened spec).flags goldenFmc.eepromAddr
    · rw [specI2cInit_of_caches hcaches]
      rfl
    · obtain ⟨ret, found, noMezzanine, eepromLen, next, hinit, -⟩ :=
        specI2cInit_of_not_caches hcaches rfl
      rw [hinit]
      rfl
  by_cases hearly : env.kzalloc = true ∧ checkGolden env = 0
  · rw [specFmcCreate_eq hearly.1 hearly.2] at hret hfmc
    generalize specI2cInit T images env.i2c eepromIndex (opened spec) goldenFmc = init
      at hret hfmc hinit
    dsimp only at hret hfmc
    split_ifs at hret hfmc with hzero hirq hregister
    · exact absurd hret hzero
    · exact absurd hret hirq
    · exact absurd hret hregister
    · obtain rfl := Option.some.inj hfmc
      exact hinit
  · obtain ⟨ret, hne, hsame | hfreed⟩ := @specFmcCreate_early σ T images env eepromIndex spec hearly
    · rw [hsame] at hret
      exact absurd hret hne
    · rw [hfreed] at hret
      exact absurd hret hne

/-! ### The main result -/

section Main

variable {α σ : Type*} [DecidableEq α]

/-- **The EEPROM is accessed with the golden gateware only.** A successful `spec_fmc_create` sets
the flag. After any calls by drivers, whatever `request_firmware` and `spec_load_fpga` return, the
flag is set only when the FPGA holds the golden gateware; when it does not, `spec_read_ee` and
`spec_write_ee` leave the bus and the card alone and return an error. -/
theorem eepromOnlyWithGolden (T : Target σ) (images : List String) (env : CreateEnv σ)
    (eepromIndex : ℕ) (spec spec' : SpecDev) (fmc : Fmc)
    (hret : (specFmcCreate T images env eepromIndex spec).ret = 0)
    (hspec : (specFmcCreate T images env eepromIndex spec).spec = spec')
    (hfmc : spec'.fmc = some fmc) (golden : List (BitVec 8)) (bus : Bus σ) (str : α → String)
    (fwName : α) (busid : ℤ) :
    (GwCard.created spec' fmc golden bus).ee.hasGolden = true ∧
      ∀ (es : List (GwCall α busid)) (c : GwCard σ),
        runPartial (gwCall str fwName T) (GwCard.created spec' fmc golden bus) es = some c →
        (c.ee.hasGolden = true → c.HoldsGolden str fwName) ∧
        (¬ c.HoldsGolden str fwName →
          (∀ pos len, specReadEe T c.ee pos len = (-enotsupp, [], c.ee.bus)) ∧
          ∀ fuel pos data len,
            specWriteEe T fuel c.ee pos data len = some (-enotsupp, c.ee.fmc, c.ee.bus)) := by
  refine ⟨specFmcCreate_hasGolden hret (hspec ▸ hfmc), fun es c hrun => ?_⟩
  have hhonest : c.Honest str fwName := by
    refine runPartial_invariant (I := fun _ c => c.Honest str fwName) ?_ ?_ hrun
    · exact fun _ => ⟨_, rfl, Or.inl rfl⟩
    · exact fun _ _ e _ h hcall => gwCall_honest h e hcall
  refine ⟨hhonest, fun hnot => ?_⟩
  have hclear : c.ee.hasGolden = false := by
    simpa using mt hhonest hnot
  constructor
  · intro pos len
    rw [specReadEe, hclear]
    rfl
  · intro fuel pos data len
    rw [specWriteEe, hclear]
    rfl

end Main

/-- An environment with no mezzanine, in which the creation succeeds. -/
def bareEnv : CreateEnv Eeprom :=
  { (goldenEnv 0).create with
    i2c := { (goldenEnv 0).create.i2c with
      bus := { erasedBus with node := { erasedBus.node with
        dev := { erasedBus.node.dev with devAddr := 0x51 } } }
      idle := ⟨rfl, rfl⟩ } }

/-- The `fmc` that is created there. -/
def bareFmc : Fmc := { goldenFmc with noMezzanine := true }

/-- The gateware of a driver is loaded and the golden one again, and then a buffer that is empty is
not loaded. -/
def driverCalls : List (GwCall String 0x0400) :=
  [.reprogram ⟨⟨[0x0400], fun _ => some "driver.bin"⟩, by decide⟩ (some "") (0, some [0x02])
      ⟨0, le_rfl⟩,
    .reprogram ⟨⟨[], fun _ => none⟩, by decide⟩ none (0, some [0x01]) ⟨0, le_rfl⟩,
    .reprogramRaw (some []) ⟨0, le_rfl⟩]

theorem eepromOnlyWithGolden_again :
    ∃ c, runPartial (gwCall id "golden.bin" (eepromTarget fun _ => 0))
      (GwCard.created ⟨4, 0x018d, some bareFmc, 1, 0⟩ bareFmc [0x01] erasedBus) driverCalls =
        some c ∧
    c.ee.hasGolden = true ∧ c.HoldsGolden id "golden.bin" := by
  have h := (eepromOnlyWithGolden (eepromTarget fun _ => 0) [] bareEnv 0 ⟨0, 0x018d, none, 0, 0⟩
    ⟨4, 0x018d, some bareFmc, 1, 0⟩ bareFmc (by decide) rfl rfl [0x01] erasedBus id "golden.bin"
    0x0400).2 driverCalls _ rfl
  exact ⟨_, rfl, rfl, h.1 rfl⟩

end SpecSw.Carrier
