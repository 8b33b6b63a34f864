import SpecSw.Carrier.CardBalance

/-!
# The cached EEPROM

When `spec_i2c_init` loads a fake image it sets a flag of the card, and as long as that is set the
EEPROM itself is not read. The flag outlives the `fmc`: after a re-creation for which no image is
left, the cached EEPROM is neither an image nor what the EEPROM holds, but zeros.

## Main definitions

* `Carrier.Genuine`: the contents of an image, or those of the EEPROM.
* `Carrier.Cards.GenuineAfter`, `Carrier.Cards.Fresh`: what a call should give, and its condition.
* `Carrier.Cards.LoadsImage`: a call loads an image.

## Main results

* `Carrier.cached_genuine_iff`.
* `Carrier.fake_run_iff`: where the flag comes from.
* `Carrier.genuine_along_iff`, `Carrier.not_forall_genuine`.
-/

namespace SpecSw.Carrier

open I2cBus Errno EventRun

/-! ### The call of `spec_i2c_init` -/

/-- `spec_i2c_init` is called. -/
structure CallsInit {σ : Type*} (params : ModuleParams) (env : ReconfigureEnv σ)
    (spec : SpecDev) : Prop where
  golden : GoldenLoads params env spec
  kzalloc : env.create.kzalloc = true
  check : checkGolden env.create = 0

section Calls

variable {σ : Type*} {T : Target σ} {params : ModuleParams} {env : ReconfigureEnv σ}
  {eepromIndex : ℕ} {spec : SpecDev}

/-- It is called for the card that has been destroyed. -/
theorem specReconfigure_init (h : CallsInit params env spec) :
    (specReconfigure T params env eepromIndex spec).init =
      some (specI2cInit T params.eeprom env.create.i2c eepromIndex (opened (specFmcDestroy spec))
        goldenFmc) := by
  have hload : ¬ specLoadFpgaFile env (specGoldenNameGet params spec.device) ≠ 0 :=
    not_not.mpr h.golden
  rw [specReconfigure_eq, if_neg hload, specFmcCreate_eq h.kzalloc h.check]
  generalize specI2cInit T params.eeprom env.create.i2c eepromIndex (opened (specFmcDestroy spec))
    goldenFmc = init
  dsimp only
  split_ifs
  · rfl
  · rfl
  · rfl
  · rfl

theorem specReconfigure_init_none (h : ¬ CallsInit params env spec) :
    (specReconfigure T params env eepromIndex spec).init = none := by
  rw [specReconfigure_eq]
  split_ifs with hload
  · rfl
  · have hearly : ¬ (env.create.kzalloc = true ∧ checkGolden env.create = 0) :=
      fun hcreate => h ⟨not_not.mp hload, hcreate.1, hcreate.2⟩
    obtain ⟨ret, -, hsame | hfreed⟩ := @specFmcCreate_early σ T params.eeprom env.create eepromIndex
      (specFmcDestroy spec) hearly
    · rw [hsame]
    · rw [hfreed]

end Calls

/-! ### What is cached -/

/-- The contents of an image, with zeros after its end, or those of the EEPROM. -/
def Genuine (image : Option (List (BitVec 8))) (mem : BitVec 13 → BitVec 8)
    (eeprom : ℕ → BitVec 8) : Prop :=
  (∃ data, image = some data ∧ ∀ i < 8192, eeprom i = data.getD i 0) ∨
    ∀ i < 8192, eeprom i = mem (BitVec.ofNat 13 i)

section Cached

variable {busyTime : ℕ → ℕ} {images : List String} {env : I2cEnv Eeprom} {eepromIndex : ℕ}
  {flags a : BitVec 32}

theorem specEepromRead_fake {σ : Type*} {T : Target σ} {fmc : FmcDevice} {offset : BitVec 32}
    {size : BitVec 64} {b : Bus σ} (h : fmc.flags &&& specFlagFakeEeprom ≠ 0) :
    specEepromRead T fmc offset size b = (int32 size.toNat, [], b) :=
  if_pos h

theorem store_nil (buf : ℕ → BitVec 8) : store [] buf = buf := rfl

theorem store_take (data : List (BitVec 8)) {i : ℕ} (hi : i < 8192) :
    store (data.take 8192) (fun _ => 0) i = data.getD i 0 := by
  rw [store, List.getD_eq_getElem?_getD, List.getElem?_take, if_pos hi, List.getD_eq_getElem?_getD]

/-- With the flag set, only an image gets into the buffer. -/
theorem cached_fake {σ : Type*} {T : Target σ} {env : I2cEnv σ}
    (h : (loadFake images env.requestFirmware eepromIndex flags).1 &&& specFlagFakeEeprom ≠ 0) :
    cached T images env eepromIndex flags a =
      (loadFake images env.requestFirmware eepromIndex flags).2.1 := by
  rw [cached]
  dsimp only [beforeRead]
  rw [specEepromRead_fake h, store_nil]

/-- With the flag clear, the EEPROM is read. -/
theorem cached_hw (h : flags &&& specFlagFakeEeprom = 0)
    (himage : fakeImage images env.requestFirmware eepromIndex = none)
    (hfound : (mi2cScan (eepromTarget busyTime) a env.bus).1 = true) {i : ℕ} (hi : i < 8192) :
    cached (eepromTarget busyTime) images env eepromIndex flags a i =
      env.bus.node.dev.mem (BitVec.ofNat 13 i) := by
  obtain ⟨haddr, hbusy⟩ := (mi2cScan_iff env.idle).mp hfound
  have hattached : Attached a env.bus := ⟨env.idle, haddr⟩
  have hflags : (beforeRead images env eepromIndex flags a).flags &&& specFlagFakeEeprom = 0 := by
    rw [beforeRead, (loadFake_none himage).1, h]
  have hread := @specEepromRead_answered busyTime (afterScan env.bus)
    (beforeRead images env eepromIndex flags a) 0 specI2cEepromSize hflags (by decide) (by decide)
    hattached.afterScan hbusy
  have hslice : slice (afterScan env.bus).node.dev.mem (0 : BitVec 32).toNat
      specI2cEepromSize.toNat = (List.range specI2cEepromSize.toNat).map fun j =>
        env.bus.node.dev.mem (BitVec.ofNat 13 (0 + j)) := rfl
  rw [cached, mi2cScan_answered hattached hbusy]
  dsimp only
  rw [hread, hslice, store_slice (fun j => env.bus.node.dev.mem (BitVec.ofNat 13 j))]
  exact (if_pos hi).trans (by rw [Nat.zero_add])

/-- The cached EEPROM is genuine unless the flag is left from before, there is no image, and the
EEPROM is not blank. -/
theorem cached_genuine_iff (hfound : (mi2cScan (eepromTarget busyTime) a env.bus).1 = true) :
    Genuine (fakeImage images env.requestFirmware eepromIndex) env.bus.node.dev.mem
        (cached (eepromTarget busyTime) images env eepromIndex flags a) ↔
      flags &&& specFlagFakeEeprom = 0 ∨
        fakeImage images env.requestFirmware eepromIndex ≠ none ∨
        ∀ i < 8192, env.bus.node.dev.mem (BitVec.ofNat 13 i) = 0 := by
  cases himage : fakeImage images env.requestFirmware eepromIndex with
  | some data =>
    have hfake := (loadFake_fake images env.requestFirmware eepromIndex flags).mpr
      (Or.inr (himage ▸ Option.some_ne_none data))
    refine iff_of_true (Or.inl ⟨data, rfl, fun i hi => ?_⟩)
      (Or.inr (Or.inl (Option.some_ne_none data)))
    rw [cached_fake hfake, (loadFake_some himage).2, store_take data hi]
  | none =>
    by_cases hflags : flags &&& specFlagFakeEeprom = 0
    · exact iff_of_true (Or.inr fun i hi => cached_hw hflags himage hfound hi) (Or.inl hflags)
    · have hfake := (loadFake_fake images env.requestFirmware eepromIndex flags).mpr
        (Or.inl hflags)
      have hzero : cached (eepromTarget busyTime) images env eepromIndex flags a = fun _ => 0 := by
        rw [cached_fake hfake, (loadFake_none himage).2]
      constructor
      · rintro (⟨data, hdata, -⟩ | hmem)
        · cases hdata
        · refine Or.inr (Or.inr fun i hi => ?_)
          rw [← hmem i hi, hzero]
      · rintro (hclear | hnone | hblank)
        · exact absurd hclear hflags
        · exact absurd rfl hnone
        · refine Or.inr fun i hi => ?_
          rw [hblank i hi, hzero]

end Cached

/-! ### Where the flag comes from -/

section Flag

variable {ι σ : Type*} [DecidableEq ι] (T : Target σ) (params : ModuleParams)

/-- The call loads an image for its card. -/
def Cards.LoadsImage (s : Cards ι) : CardEvent ι σ → Prop
  | .reconfigure card env =>
    CallsInit params env (s.spec card) ∧
      (mi2cScan T specI2cEepromAddr env.create.i2c.bus).1 = true ∧
      env.create.i2c.kzalloc = true ∧
      fakeImage params.eeprom env.create.i2c.requestFirmware s.eepromIndex ≠ none
  | .destroy _ => False

/-- The flag of a card says that its EEPROM is a fake one. -/
def SpecDev.Fake (spec : SpecDev) : Prop := spec.flags &&& specFlagFakeEeprom ≠ 0

variable {T params} {s : Cards ι}

theorem or_registered_and_fake (flags : BitVec 32) :
    (flags ||| specFlagFmcRegistered) &&& specFlagFakeEeprom = flags &&& specFlagFakeEeprom := by
  rw [BitVec.and_or_distrib_right]
  exact BitVec.or_zero

/-- The flag is set by an image that is loaded, and by nothing else. -/
theorem specI2cInit_fake {images : List String} {env : I2cEnv σ} {eepromIndex : ℕ}
    {spec : SpecDev} :
    (specI2cInit T images env eepromIndex spec goldenFmc).spec.Fake ↔
      spec.Fake ∨ (mi2cScan T specI2cEepromAddr env.bus).1 = true ∧ env.kzalloc = true ∧
        fakeImage images env.requestFirmware eepromIndex ≠ none := by
  by_cases hcaches : Caches T images env eepromIndex spec.flags goldenFmc.eepromAddr
  · rw [specI2cInit_of_caches hcaches]
    refine (loadFake_fake images env.requestFirmware eepromIndex spec.flags).trans
      (or_congr_right ?_)
    exact ⟨fun himage => ⟨hcaches.found, hcaches.kzalloc, himage⟩, fun h => h.2.2⟩
  · obtain ⟨ret, found, noMezzanine, eepromLen, next, hfailed, -⟩ :=
      specI2cInit_of_not_caches hcaches rfl
    rw [hfailed]
    refine ⟨Or.inl, fun h => h.resolve_right ?_⟩
    rintro ⟨hfound, hkzalloc, himage⟩
    exact hcaches ⟨hfound, hkzalloc, Or.inr (Or.inl himage)⟩

/-- The flag after `spec_fmc_create` is that after `spec_i2c_init`. -/
theorem specFmcCreate_fake {images : List String} {env : CreateEnv σ} {eepromIndex : ℕ}
    {spec : SpecDev} :
    (specFmcCreate T images env eepromIndex spec).spec.Fake ↔
      spec.Fake ∨ (env.kzalloc = true ∧ checkGolden env = 0) ∧
        (mi2cScan T specI2cEepromAddr env.i2c.bus).1 = true ∧ env.i2c.kzalloc = true ∧
        fakeImage images env.i2c.requestFirmware eepromIndex ≠ none := by
  by_cases hearly : env.kzalloc = true ∧ checkGolden env = 0
  · have hinit := @specI2cInit_fake σ T images env.i2c eepromIndex (opened spec)
    rw [specFmcCreate_eq hearly.1 hearly.2]
    refine Iff.trans ?_ (hinit.trans (or_congr_right (and_iff_right hearly).symm))
    generalize specI2cInit T images env.i2c eepromIndex (opened spec) goldenFmc = init
    dsimp only
    split_ifs
    · exact Iff.rfl
    · exact Iff.rfl
    · exact Iff.rfl
    · rw [SpecDev.Fake, or_registered_and_fake, SpecDev.Fake]
  · obtain ⟨ret, -, hsame | hfreed⟩ := @specFmcCreate_early σ T images env eepromIndex spec hearly
    · rw [hsame]
      exact ⟨Or.inl, fun h => h.resolve_right fun h => hearly h.1⟩
    · rw [hfreed]
      exact ⟨Or.inl, fun h => h.resolve_right fun h => hearly h.1⟩

/-- The flag of a card is set by the calls that load an image for it. -/
theorem Cards.step_fake (s : Cards ι) (e : CardEvent ι σ) (c : ι) :
    ((s.step T params e).spec c).Fake ↔
      (s.spec c).Fake ∨ e.card = c ∧ s.LoadsImage T params e := by
  by_cases hc : c = e.card
  · subst hc
    have hdestroy (spec : SpecDev) : (specFmcDestroy spec).Fake ↔ spec.Fake := by
      rw [SpecDev.Fake, specFmcDestroy_fake, SpecDev.Fake]
    rw [Cards.step_spec_self, Cards.call.eq_def]
    cases e with
    | destroy card => simp [LoadsImage, CardEvent.card, hdestroy]
    | reconfigure card env =>
      dsimp only [CardEvent.card, LoadsImage]
      rw [specReconfigure_eq]
      split_ifs with hload
      · refine ⟨fun h => Or.inl ((hdestroy _).mp h), fun h => (hdestroy _).mpr ?_⟩
        exact h.resolve_right fun h => hload h.2.1.golden
      · rw [specFmcCreate_fake, hdestroy]
        refine or_congr_right ⟨fun h => ⟨rfl, ⟨not_not.mp hload, h.1.1, h.1.2⟩, h.2⟩, fun h => ?_⟩
        exact ⟨⟨h.2.1.kzalloc, h.2.1.check⟩, h.2.2⟩
  · rw [Cards.step]
    dsimp only
    rw [Function.update_of_ne hc]
    exact ⟨Or.inl, fun h => h.resolve_right fun h => hc h.1.symm⟩

/-- After a run, the flag of a card is set when one of its calls has loaded an image. -/
theorem fake_run_iff (device : ι → ℕ) (es : List (CardEvent ι σ)) (c : ι) :
    ((run (Cards.step T params) (Cards.start device) es).spec c).Fake ↔
      ∃ before e after, es = before ++ e :: after ∧ e.card = c ∧
        (run (Cards.step T params) (Cards.start device) before).LoadsImage T params e := by
  induction es using List.reverseRecOn with
  | nil =>
    refine iff_of_false (by simp [SpecDev.Fake, Cards.start]) ?_
    rintro ⟨before, e, after, hnil, -⟩
    simp at hnil
  | append_singleton es e ih =>
    rw [run_append, run_cons, run_nil, Cards.step_fake, ih]
    constructor
    · rintro (⟨before, e', after, rfl, hcard, hloads⟩ | ⟨hcard, hloads⟩)
      · exact ⟨before, e', after ++ [e], by simp, hcard, hloads⟩
      · exact ⟨es, e, [], rfl, hcard, hloads⟩
    · rintro ⟨before, e', after, heq, hcard, hloads⟩
      rcases List.eq_nil_or_concat after with rfl | ⟨after, e'', rfl⟩
      · obtain ⟨rfl, hlast⟩ := List.append_inj' heq rfl
        obtain rfl := List.singleton_injective hlast
        exact Or.inr ⟨hcard, hloads⟩
      · refine Or.inl ⟨before, e', after, ?_, hcard, hloads⟩
        rw [List.concat_eq_append, ← List.cons_append, ← List.append_assoc] at heq
        exact (List.append_inj' heq rfl).1

end Flag

/-! ### Runs -/

section Runs

variable {ι : Type*} [DecidableEq ι] (busyTime : ℕ → ℕ) (params : ModuleParams)

/-- If the call has found a mezzanine, what it has cached is genuine. -/
def Cards.GenuineAfter (s : Cards ι) : CardEvent ι Eeprom → Prop
  | .reconfigure card env =>
    ∀ init, (s.call (eepromTarget busyTime) params (.reconfigure card env)).init = some init →
      init.found = true → init.ret = 0 →
      ∃ eeprom, init.fmc.eeprom = some eeprom ∧
        Genuine (fakeImage params.eeprom env.create.i2c.requestFirmware s.eepromIndex)
          env.create.i2c.bus.node.dev.mem eeprom
  | .destroy _ => True

/-- If the call finds an EEPROM and has memory for it, the flag of the card is clear, or there is
an image, or the EEPROM is blank. -/
def Cards.Fresh (s : Cards ι) : CardEvent ι Eeprom → Prop
  | .reconfigure card env =>
    CallsInit params env (s.spec card) →
    env.create.i2c.bus.node.dev.devAddr = specI2cEepromAddr.setWidth 7 →
    env.create.i2c.bus.node.dev.busy = 0 → env.create.i2c.kzalloc = true →
      ¬ (s.spec card).Fake ∨
        fakeImage params.eeprom env.create.i2c.requestFirmware s.eepromIndex ≠ none ∨
        ∀ i < 8192, env.create.i2c.bus.node.dev.mem (BitVec.ofNat 13 i) = 0
  | .destroy _ => True

variable {busyTime params} {s : Cards ι} {e : CardEvent ι Eeprom}

omit [DecidableEq ι] in
theorem Cards.genuineAfter_iff :
    s.GenuineAfter busyTime params e ↔ s.Fresh params e := by
  cases e with
  | destroy card => exact Iff.rfl
  | reconfigure card env =>
    by_cases hcalls : CallsInit params env (s.spec card)
    · have hinit := @specReconfigure_init Eeprom (eepromTarget busyTime) params env s.eepromIndex
        (s.spec card) hcalls
      have hflags := specFmcDestroy_fake (s.spec card)
      let called := opened (specFmcDestroy (s.spec card))
      by_cases hcaches : Caches (eepromTarget busyTime) params.eeprom env.create.i2c s.eepromIndex
        called.flags goldenFmc.eepromAddr
      · obtain ⟨haddr, hbusy⟩ := (mi2cScan_iff env.create.i2c.idle).mp hcaches.found
        rw [specI2cInit_of_caches hcaches] at hinit
        have hiff := @cached_genuine_iff busyTime params.eeprom env.create.i2c s.eepromIndex
          (specFmcDestroy (s.spec card)).flags _ hcaches.found
        rw [hflags] at hiff
        simp only [GenuineAfter, Fresh]
        constructor
        · intro hgenuine _ _ _ _
          obtain ⟨eeprom, heeprom, hgen⟩ := hgenuine _ hinit rfl rfl
          obtain rfl := Option.some.inj heeprom
          rw [SpecDev.Fake, not_not]
          exact hiff.mp hgen
        · intro hfresh init hsome _ _
          obtain rfl := Option.some.inj (hinit.symm.trans hsome)
          refine ⟨_, rfl, hiff.mpr ?_⟩
          rw [← not_not (a := (s.spec card).flags &&& specFlagFakeEeprom = 0)]
          exact hfresh hcalls haddr hbusy hcaches.kzalloc
      · obtain ⟨ret, found, noMezzanine, eepromLen, next, hfailed, hret⟩ :=
          specI2cInit_of_not_caches hcaches rfl
        rw [hfailed] at hinit
        refine iff_of_true (fun init hsome hfound hzero => ?_) fun _ haddr hbusy hkzalloc => ?_
        · obtain rfl := Option.some.inj (hinit.symm.trans hsome)
          exact absurd hzero (hret hfound)
        · have hfound := (@mi2cScan_iff busyTime _ _ env.create.i2c.idle).mpr ⟨haddr, hbusy⟩
          exact absurd (caches_iff.mpr ⟨hfound, hkzalloc⟩) hcaches
    · refine iff_of_true (fun init hsome _ _ => ?_) fun h => absurd h hcalls
      rw [Cards.call, specReconfigure_init_none hcalls] at hsome
      cases hsome

/-- **Genuine EEPROMs.** For any module parameters and cards with any EEPROMs: in a run of
`spec_reconfigure` and `spec_fmc_destroy`, every `spec_i2c_init` that finds a mezzanine and succeeds
caches the image it has loaded or the contents of the EEPROM, exactly when each one that finds an
EEPROM and has memory for it either finds the flag of the card clear, or loads an image, or the
EEPROM is blank. -/
theorem genuine_along_iff (busyTime : ℕ → ℕ) (params : ModuleParams) (device : ι → ℕ)
    (es : List (CardEvent ι Eeprom)) :
    Along (Cards.step (eepromTarget busyTime) params) (Cards.GenuineAfter busyTime params)
        (Cards.start device) es ↔
      Along (Cards.step (eepromTarget busyTime) params) (Cards.Fresh params)
        (Cards.start device) es :=
  along_iff_along (I := fun _ => True) trivial (fun _ _ _ _ => trivial)
    (fun _ _ _ => Cards.genuineAfter_iff) es

end Runs

/-! ### A stale flag -/

/-- The parameters with one fake image. -/
def oneFake : ModuleParams := ⟨"fmc/spec-init.bin", "", "", "", ["fake.bin"]⟩

/-- An environment in which the image can be loaded. -/
def fakeEnv : ReconfigureEnv Eeprom :=
  { goldenEnv 0 with
    create := { (goldenEnv 0).create with
      i2c := { (goldenEnv 0).create.i2c with requestFirmware := fun _ => (0, [0x01]) } } }

/-- A card is re-created after the only image has been used. -/
theorem not_forall_genuine : ¬ ∀ es : List (CardEvent Unit Eeprom),
    Along (Cards.step (eepromTarget fun _ => 0) oneFake)
      (Cards.GenuineAfter (fun _ => 0) oneFake) (Cards.start fun _ => 0x018d) es := by
  intro hall
  let s : Cards Unit := Cards.start fun _ => 0x018d
  let e : CardEvent Unit Eeprom := .reconfigure () fakeEnv
  have hloads : s.LoadsImage (eepromTarget fun _ => 0) oneFake e :=
    ⟨⟨rfl, rfl, by decide⟩, (mi2cScan_iff ⟨rfl, rfl⟩).mpr ⟨by decide, rfl⟩, rfl, by decide⟩
  have hfake := (s.step_fake e ()).mpr (Or.inr ⟨rfl, hloads⟩)
  have hindex : (s.step (eepromTarget fun _ => 0) oneFake e).eepromIndex = 1 := by decide
  obtain ⟨-, hgenuine, -⟩ := hall [e, e]
  have hfresh := Cards.genuineAfter_iff.mp hgenuine ⟨rfl, rfl, by decide⟩ rfl rfl rfl
  rw [hindex] at hfresh
  rcases hfresh with hclear | himage | hblank
  · exact hclear hfake
  · exact himage (by decide)
  · exact absurd (hblank 0 (by decide)) (by decide)

end SpecSw.Carrier
