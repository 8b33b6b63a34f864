import SpecSw.Carrier.Card

/-!
# What the cards hold

A card that is registered has an `fmc`, and with a mezzanine a buffer for its EEPROM; another has
neither (`Settled`). `spec_fmc_destroy` gives both back. `spec_fmc_create` gives them back when it
fails, but for one case: the buffer stays allocated when a step after `spec_i2c_init` fails
(`Leaks`).

## Main definitions

* `Carrier.SpecDev.Balanced`, `Carrier.SpecDev.Empty`, `Carrier.SpecDev.Settled`.
* `Carrier.Leaks`: a step after `spec_i2c_init` fails.

## Main results

* `Carrier.specFmcDestroy_empty`, `Carrier.specFmcCreate_settled`, `Carrier.specFmcCreate_leaks`.
* `Carrier.balanced_along_iff`, `Carrier.not_forall_balanced`.
-/

namespace SpecSw.Carrier

open I2cBus Errno EventRun

namespace SpecDev

variable (spec : SpecDev)

/-- `SPEC_FLAG_FMC_REGISTERED` is set. -/
def Registered : Prop := spec.flags &&& specFlagFmcRegistered ≠ 0

/-- The card is registered when it has an `fmc`, that is, when one is live; it has at most one
EEPROM buffer, and none if it is not registered. -/
structure Balanced : Prop where
  registered : spec.Registered ↔ spec.fmc.isSome
  fmcs : spec.fmc.isSome ↔ spec.liveFmcs = 1
  eeproms : spec.liveEeproms ≤ 1
  eeproms_registered : 0 < spec.liveEeproms → spec.Registered

/-- The card holds nothing. -/
structure Empty : Prop where
  registered : ¬ spec.Registered
  fmc : spec.fmc = none
  fmcs : spec.liveFmcs = 0
  eeproms : spec.liveEeproms = 0

/-- The card has an `fmc`, and the buffer of that if it has one. -/
structure Holds (fmc : Fmc) : Prop where
  registered : spec.Registered
  has : spec.fmc = some fmc
  fmcs : spec.liveFmcs = 1
  eeproms : spec.liveEeproms = if fmc.eeprom.isSome then 1 else 0

/-- The card holds an `fmc` or nothing. -/
def Settled : Prop := spec.Empty ∨ ∃ fmc, spec.Holds fmc

variable {spec}

theorem Settled.balanced (h : spec.Settled) : spec.Balanced := by
  rcases h with h | ⟨fmc, h⟩
  · refine ⟨iff_of_false h.registered ?_, iff_of_false ?_ ?_, ?_, ?_⟩
    · simp [h.fmc]
    · simp [h.fmc]
    · simp [h.fmcs]
    · simp [h.eeproms]
    · simp [h.eeproms]
  · refine ⟨iff_of_true h.registered ?_, iff_of_true ?_ h.fmcs, ?_, fun _ => h.registered⟩
    · simp [h.has]
    · simp [h.has]
    · rw [h.eeproms]
      split_ifs <;> decide

end SpecDev

/-! ### `spec_fmc_destroy` -/

theorem clear_registered (flags : BitVec 32) :
    flags &&& ~~~specFlagFmcRegistered &&& specFlagFmcRegistered = 0 := by
  rw [BitVec.and_assoc]
  exact BitVec.and_zero

theorem clear_registered_and_fake (flags : BitVec 32) :
    flags &&& ~~~specFlagFmcRegistered &&& specFlagFakeEeprom = flags &&& specFlagFakeEeprom := by
  rw [BitVec.and_assoc]
  rfl

section Destroy

variable {spec : SpecDev}

/-- Everything is given back. -/
theorem specFmcDestroy_empty (h : spec.Settled) : (specFmcDestroy spec).Empty := by
  rcases h with h | ⟨fmc, h⟩
  · rwa [specFmcDestroy, if_pos (not_not.mp h.registered)]
  · rw [specFmcDestroy, if_neg h.registered, h.has]
    refine ⟨not_not.mpr (clear_registered spec.flags), rfl, ?_, ?_⟩
    · simp [specI2cExit, h.fmcs]
    · simp [specI2cExit, h.eeproms]

/-- The fake flag stays. -/
theorem specFmcDestroy_fake (spec : SpecDev) :
    (specFmcDestroy spec).flags &&& specFlagFakeEeprom = spec.flags &&& specFlagFakeEeprom := by
  rw [specFmcDestroy]
  split_ifs with h
  · rfl
  · cases spec.fmc with
    | none => exact clear_registered_and_fake spec.flags
    | some fmc => exact clear_registered_and_fake spec.flags

theorem specFmcDestroy_device (spec : SpecDev) : (specFmcDestroy spec).device = spec.device := by
  rw [specFmcDestroy]
  split_ifs with h
  · rfl
  · cases spec.fmc with
    | none => rfl
    | some fmc => rfl

end Destroy

/-! ### `spec_fmc_create` -/

/-- The EEPROM is cached, and a step after that fails. -/
structure Leaks {σ : Type*} (T : Target σ) (images : List String) (env : CreateEnv σ)
    (eepromIndex : ℕ) (flags : BitVec 32) : Prop where
  kzalloc : env.kzalloc = true
  golden : checkGolden env = 0
  caches : Caches T images env.i2c eepromIndex flags specI2cEepromAddr
  fails : env.irqInit ≠ 0 ∨ env.register ≠ 0

/-- The `fmc` when `spec_i2c_init` is called for it. -/
def goldenFmc : Fmc := ⟨specI2cEepromAddr, true, false, none, 0⟩

/-- The card when `spec_i2c_init` is called for it. -/
def opened (spec : SpecDev) : SpecDev :=
  { spec with
    fmc := some ⟨specI2cEepromAddr, false, false, none, 0⟩
    liveFmcs := spec.liveFmcs + 1 }

section Create

variable {σ : Type*} {T : Target σ} {images : List String} {env : CreateEnv σ} {eepromIndex : ℕ}
  {spec : SpecDev}

/-- The steps after the gateware has been checked. -/
theorem specFmcCreate_eq (hkzalloc : env.kzalloc = true) (hgolden : checkGolden env = 0) :
    specFmcCreate T images env eepromIndex spec =
      let init := specI2cInit T images env.i2c eepromIndex (opened spec) goldenFmc
      if init.ret ≠ 0 then ⟨init.ret, outFree init.spec, init.eepromIndex, some init⟩
      else if env.irqInit ≠ 0 then ⟨env.irqInit, outFree init.spec, init.eepromIndex, some init⟩
      else if env.register ≠ 0 then ⟨env.register, outFree init.spec, init.eepromIndex, some init⟩
      else
        ⟨0, { init.spec with
            flags := init.spec.flags ||| specFlagFmcRegistered, fmc := some init.fmc },
          init.eepromIndex, some init⟩ := by
  rw [specFmcCreate, hkzalloc, if_neg (by simp)]
  dsimp only [opened, goldenFmc]
  rw [if_neg (not_not.mpr hgolden)]

/-- The card is as it was when there is no memory or the gateware is not the golden one. -/
theorem specFmcCreate_early (h : ¬ (env.kzalloc = true ∧ checkGolden env = 0)) :
    ∃ ret, ret ≠ 0 ∧ (specFmcCreate T images env eepromIndex spec = ⟨ret, spec, eepromIndex, none⟩ ∨
      specFmcCreate T images env eepromIndex spec =
        ⟨ret, outFree (opened spec), eepromIndex, none⟩) := by
  rw [specFmcCreate]
  by_cases hkzalloc : env.kzalloc = true
  · have hgolden : checkGolden env ≠ 0 := fun hzero => h ⟨hkzalloc, hzero⟩
    rw [hkzalloc, if_neg (by simp)]
    exact ⟨checkGolden env, hgolden, Or.inr (if_pos hgolden)⟩
  · exact ⟨-enomem, by decide, Or.inl (if_pos (by simpa using hkzalloc))⟩

theorem or_registered (flags : BitVec 32) :
    (flags ||| specFlagFmcRegistered) &&& specFlagFmcRegistered ≠ 0 := by
  rw [BitVec.and_or_distrib_right, BitVec.and_self]
  intro h
  exact absurd (BitVec.or_eq_zero_iff.mp h).2 (by decide)

theorem outFree_opened (h : spec.Empty) : (outFree (opened spec)).Empty := by
  refine ⟨h.registered, rfl, ?_, h.eeproms⟩
  rw [outFree, opened, h.fmcs]
  rfl

/-- Without a leak, the card holds nothing after a failure and an `fmc` after a success. -/
theorem specFmcCreate_settled (h : spec.Empty)
    (hleak : ¬ Leaks T images env eepromIndex spec.flags) :
    ((specFmcCreate T images env eepromIndex spec).ret ≠ 0 ∧
        (specFmcCreate T images env eepromIndex spec).spec.Empty) ∨
      ((specFmcCreate T images env eepromIndex spec).ret = 0 ∧
        ∃ fmc, (specFmcCreate T images env eepromIndex spec).spec.Holds fmc) := by
  have hfmcs : (opened spec).liveFmcs = 1 := by
    rw [opened, h.fmcs]
    rfl
  by_cases hearly : env.kzalloc = true ∧ checkGolden env = 0
  · obtain ⟨hkzalloc, hgolden⟩ := hearly
    rw [specFmcCreate_eq hkzalloc hgolden]
    by_cases hcaches : Caches T images env.i2c eepromIndex (opened spec).flags goldenFmc.eepromAddr
    · have hlater : env.irqInit = 0 ∧ env.register = 0 := by
        by_contra hfails
        exact hleak ⟨hkzalloc, hgolden, hcaches, by tauto⟩
      rw [specI2cInit_of_caches hcaches]
      dsimp only
      rw [if_neg (by simp), if_neg (by simp [hlater.1]), if_neg (by simp [hlater.2])]
      refine Or.inr ⟨rfl, _, or_registered _, rfl, hfmcs, ?_⟩
      simp [opened, h.eeproms]
    · obtain ⟨ret, found, noMezzanine, eepromLen, next, hinit, -⟩ :=
        specI2cInit_of_not_caches hcaches rfl
      rw [hinit]
      dsimp only
      split_ifs with hret hirq hregister
      · exact Or.inl ⟨hret, outFree_opened h⟩
      · exact Or.inl ⟨hirq, outFree_opened h⟩
      · exact Or.inl ⟨hregister, outFree_opened h⟩
      · exact Or.inr ⟨rfl, _, or_registered _, rfl, hfmcs, h.eeproms⟩
  · obtain ⟨ret, hret, hsame | hfreed⟩ :=
      @specFmcCreate_early σ T images env eepromIndex spec hearly
    · rw [hsame]
      exact Or.inl ⟨hret, h⟩
    · rw [hfreed]
      exact Or.inl ⟨hret, outFree_opened h⟩

/-- A leak is a failure that leaves a buffer. -/
theorem specFmcCreate_leaks (h : spec.Empty) (hleak : Leaks T images env eepromIndex spec.flags) :
    (specFmcCreate T images env eepromIndex spec).ret ≠ 0 ∧
      (specFmcCreate T images env eepromIndex spec).spec.liveEeproms = 1 := by
  have hcaches : Caches T images env.i2c eepromIndex (opened spec).flags goldenFmc.eepromAddr :=
    hleak.caches
  have heeproms : (opened spec).liveEeproms + 1 = 1 := by
    rw [opened, h.eeproms]
    rfl
  rw [specFmcCreate_eq hleak.kzalloc hleak.golden, specI2cInit_of_caches hcaches]
  dsimp only
  rw [if_neg (by simp)]
  split_ifs with hirq hregister
  · exact ⟨hirq, heeproms⟩
  · exact ⟨hregister, heeproms⟩
  · exact absurd hleak.fails (by tauto)

/-- Only the fake flag of a card matters for a leak. -/
theorem Leaks.congr {flags flags' : BitVec 32}
    (h : flags &&& specFlagFakeEeprom = flags' &&& specFlagFakeEeprom)
    (hleak : Leaks T images env eepromIndex flags) : Leaks T images env eepromIndex flags' :=
  ⟨hleak.kzalloc, hleak.golden,
    ⟨hleak.caches.found, hleak.caches.kzalloc, h ▸ hleak.caches.readable⟩, hleak.fails⟩

end Create

/-! ### `spec_reconfigure` -/

section Reconfigure

variable {σ : Type*} (T : Target σ) (params : ModuleParams) (env : ReconfigureEnv σ)
  (eepromIndex : ℕ) (spec : SpecDev)

/-- The golden gateware loads. -/
def GoldenLoads : Prop := specLoadFpgaFile env (specGoldenNameGet params spec.device) = 0

/-- The three steps. -/
theorem specReconfigure_eq :
    specReconfigure T params env eepromIndex spec =
      if specLoadFpgaFile env (specGoldenNameGet params spec.device) ≠ 0 then
        ⟨specLoadFpgaFile env (specGoldenNameGet params spec.device), specFmcDestroy spec,
          eepromIndex, none⟩
      else specFmcCreate T params.eeprom env.create eepromIndex (specFmcDestroy spec) := by
  have hdestroy : (if spec.flags &&& specFlagFmcRegistered ≠ 0 then specFmcDestroy spec
      else spec) = specFmcDestroy spec := by
    split_ifs with h
    · rfl
    · exact (if_pos (not_not.mp h)).symm
  rw [specReconfigure, hdestroy, specFmcDestroy_device]

variable {T params env eepromIndex spec}

theorem specReconfigure_settled (h : spec.Settled)
    (hok : GoldenLoads params env spec →
      ¬ Leaks T params.eeprom env.create eepromIndex spec.flags) :
    ((specReconfigure T params env eepromIndex spec).ret ≠ 0 ∧
        (specReconfigure T params env eepromIndex spec).spec.Empty) ∨
      ((specReconfigure T params env eepromIndex spec).ret = 0 ∧
        ∃ fmc, (specReconfigure T params env eepromIndex spec).spec.Holds fmc) := by
  have hempty := specFmcDestroy_empty h
  rw [specReconfigure_eq]
  split_ifs with hload
  · exact Or.inl ⟨hload, hempty⟩
  · refine specFmcCreate_settled hempty fun hleak => ?_
    exact hok (not_not.mp hload) (hleak.congr (specFmcDestroy_fake spec))

theorem specReconfigure_leaks (h : spec.Settled) (hload : GoldenLoads params env spec)
    (hleak : Leaks T params.eeprom env.create eepromIndex spec.flags) :
    (specReconfigure T params env eepromIndex spec).ret ≠ 0 ∧
      (specReconfigure T params env eepromIndex spec).spec.liveEeproms = 1 := by
  rw [specReconfigure_eq, if_neg (not_not.mpr (show specLoadFpgaFile env _ = 0 from hload))]
  exact specFmcCreate_leaks (specFmcDestroy_empty h) (hleak.congr (specFmcDestroy_fake spec).symm)

end Reconfigure

/-! ### Runs -/

section Runs

variable {ι σ : Type*} [DecidableEq ι] (T : Target σ) (params : ModuleParams)

/-- All is balanced after the call, and the card holds nothing if the call has failed. -/
def Cards.BalancedAfter (s : Cards ι) (e : CardEvent ι σ) : Prop :=
  (∀ c, ((s.step T params e).spec c).Balanced) ∧
    ((s.call T params e).ret ≠ 0 → ((s.step T params e).spec e.card).Empty)

/-- When the golden gateware loads, no step fails after the EEPROM has been cached. -/
def Cards.LeakFree (s : Cards ι) : CardEvent ι σ → Prop
  | .reconfigure card env =>
    GoldenLoads params env (s.spec card) →
      ¬ Leaks T params.eeprom env.create s.eepromIndex (s.spec card).flags
  | .destroy _ => True

/-- The cards before any call. -/
def Cards.start (device : ι → ℕ) : Cards ι where
  spec card := ⟨0, device card, none, 0, 0⟩
  eepromIndex := 0

variable {T params} {s : Cards ι} {e : CardEvent ι σ}

theorem Cards.step_spec_self (s : Cards ι) (e : CardEvent ι σ) :
    (s.step T params e).spec e.card = (s.call T params e).spec :=
  Function.update_self e.card _ s.spec

omit [DecidableEq ι] in
/-- Without a leak, a call leaves its card settled, and holding nothing if it fails. -/
theorem Cards.call_settled (hs : ∀ c, (s.spec c).Settled) (hok : s.LeakFree T params e) :
    (s.call T params e).spec.Settled ∧
      ((s.call T params e).ret ≠ 0 → (s.call T params e).spec.Empty) := by
  cases e with
  | reconfigure card env =>
    rcases specReconfigure_settled (hs card) hok with ⟨hret, hempty⟩ | ⟨hret, hholds⟩
    · exact ⟨Or.inl hempty, fun _ => hempty⟩
    · exact ⟨Or.inr hholds, fun hne => absurd hret hne⟩
  | destroy card =>
    have hempty := specFmcDestroy_empty (hs card)
    exact ⟨Or.inl hempty, fun _ => hempty⟩

theorem Cards.step_settled (hs : ∀ c, (s.spec c).Settled) (hok : s.LeakFree T params e) (c : ι) :
    ((s.step T params e).spec c).Settled := by
  by_cases hc : c = e.card
  · subst hc
    rw [Cards.step_spec_self]
    exact (Cards.call_settled hs hok).1
  · rw [Cards.step]
    dsimp only
    rw [Function.update_of_ne hc]
    exact hs c

/-- A call is balanced exactly when nothing leaks in it. -/
theorem Cards.balancedAfter_iff (hs : ∀ c, (s.spec c).Settled) :
    s.BalancedAfter T params e ↔ s.LeakFree T params e := by
  constructor
  · rintro ⟨-, hfailed⟩
    cases e with
    | reconfigure card env =>
      intro hload hleak
      obtain ⟨hret, heeproms⟩ := specReconfigure_leaks (hs card) hload hleak
      have hempty := hfailed hret
      rw [Cards.step_spec_self] at hempty
      have hzero := hempty.eeproms
      exact absurd (heeproms.symm.trans hzero) one_ne_zero
    | destroy card => trivial
  · intro hok
    refine ⟨fun c => (Cards.step_settled hs hok c).balanced, fun hret => ?_⟩
    rw [Cards.step_spec_self]
    exact (Cards.call_settled hs hok).2 hret

omit [DecidableEq ι] in
theorem Cards.start_settled {device : ι → ℕ} (c : ι) : ((Cards.start device).spec c).Settled := by
  refine Or.inl ⟨?_, rfl, rfl, rfl⟩
  simp [SpecDev.Registered, Cards.start]

/-- **Re-creation is balanced.** For any cards, module parameters and I2C devices: in a run of
`spec_reconfigure` and `spec_fmc_destroy`, whichever of their steps fail, every call leaves the
cards balanced, and its own card empty if it fails, exactly when no step of a creation fails after
`spec_i2c_init` has cached an EEPROM. -/
theorem balanced_along_iff (T : Target σ) (params : ModuleParams) (device : ι → ℕ)
    (es : List (CardEvent ι σ)) :
    Along (Cards.step T params) (Cards.BalancedAfter T params) (Cards.start device) es ↔
      Along (Cards.step T params) (Cards.LeakFree T params) (Cards.start device) es :=
  along_iff_along (I := fun s => ∀ c, (s.spec c).Settled) Cards.start_settled
    (fun _ _ hs hok => Cards.step_settled hs hok) (fun _ _ hs => Cards.balancedAfter_iff hs) es

end Runs

/-! ### A leak -/

/-- An environment with the EEPROM of `erasedBus` and no files for it, in which all steps before
the last succeed. -/
def goldenEnv (register : ℤ) : ReconfigureEnv Eeprom where
  requestFirmware _ := (0, [])
  loadFpga _ := 0
  create :=
    { kzalloc := true
      readl := fun a =>
        if a = 0x100 then 0x5344422d else if a = 0x15c then 0x0000ce42 else 0xff07fc47
      scanSdbTree := 0
      i2c := ⟨erasedBus, ⟨rfl, rfl⟩, true, fun _ => (-enoent, [])⟩
      irqInit := 0
      register := register }

/-- The parameters that load `fmc/spec-init.bin` and no fake images. -/
def noFakes : ModuleParams := ⟨"fmc/spec-init.bin", "", "", "", []⟩

/-- The bus does not register the device. -/
theorem not_forall_balanced : ¬ ∀ es : List (CardEvent Unit Eeprom),
    Along (Cards.step (eepromTarget fun _ => 0) noFakes)
      (Cards.BalancedAfter (eepromTarget fun _ => 0) noFakes) (Cards.start fun _ => 0x018d) es := by
  intro hall
  let s : Cards Unit := Cards.start fun _ => 0x018d
  have hleak : Leaks (eepromTarget fun _ => 0) [] (goldenEnv (-enomem)).create 0 0 :=
    ⟨rfl, by decide, caches_iff.mpr ⟨(mi2cScan_iff ⟨rfl, rfl⟩).mpr ⟨by decide, rfl⟩, rfl⟩,
      Or.inr (by decide)⟩
  have hload : GoldenLoads noFakes (goldenEnv (-enomem)) (s.spec ()) := rfl
  have hok := (Cards.balancedAfter_iff Cards.start_settled).mp
    (hall [.reconfigure () (goldenEnv (-enomem))]).1
  exact hok hload hleak

end SpecSw.Carrier
