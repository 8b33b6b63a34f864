import SpecSw.Carrier.CardBalance

/-!
# The PCI driver and the misc device

`spec_probe` enables the PCI device, allocates a `struct spec_dev`, maps the three BARs, configures
the card and registers a misc device; `spec_remove` undoes it all. Who opens the misc device gets a
pointer to the `struct spec_dev` for as long as the file is open, and each write to the file
configures the card anew. Nothing orders the writes of different files, or a write and
`spec_remove`, and an open file does not keep the `struct spec_dev`.

A write is a process here: it destroys the `fmc`, loads the golden gateware and creates a new `fmc`
in three accesses, between which anything can happen. `spec_probe` is one event, because its
`struct spec_dev` is its own until the misc device is registered; so is `spec_remove`.

The cards that have been bound are told apart by the serial numbers of their `struct spec_dev`.

## Main definitions

* `Carrier.PciCard`, `Carrier.specProbe`, `Carrier.specRemove`, `Carrier.PciCard.access`.
* `Carrier.PciEvent`, `Carrier.PciCard.step`.
* `Carrier.PciCard.Clean`, `Carrier.PciCard.Sound`, `Carrier.PciCard.Orderly`.

## Main results

* `Carrier.PciCard.lone_write`: the accesses of a write alone make up `spec_reconfigure`.
* `Carrier.PciCard.sound_throughout_iff`.
-/

namespace SpecSw.Carrier

open I2cBus Errno EventRun

/-! ### The state -/

/-- What a write does next in `spec_reconfigure`. -/
inductive WriteAt
  | destroy
  | load
  | create
  deriving DecidableEq

/-- A call of `spec_mdev_write_raw` that is in `spec_reconfigure`: its `struct spec_dev`, and the
number of bytes to write. -/
structure RawWrite where
  serial : ℕ
  count : ℕ
  next : WriteAt

/-- A PCI device, and what the driver holds of it: how often it is enabled, whether it has
interrupt vectors, how many BARs are mapped, how many `struct spec_dev` and misc devices there are.
Further: the `fmc` structures that have been lost with their `struct spec_dev`, the number of the
allocations of `struct spec_dev`, the one of a bound card, which open file has which, the writes
under way, what the writes have returned, the index of the next fake image, and whether memory has
been accessed after it was freed. -/
structure PciCard where
  enabled : ℤ
  vectors : Bool
  maps : ℤ
  specs : ℤ
  miscs : ℤ
  lostFmcs : ℤ
  serial : ℕ
  spec : Option SpecDev
  files : List ℕ
  writes : List RawWrite
  returned : List ℤ
  eepromIndex : ℕ
  crashed : Bool

/-- A device that no driver has been bound to. -/
def PciCard.start (eepromIndex : ℕ) : PciCard :=
  ⟨0, false, 0, 0, 0, 0, 0, none, [], [], [], eepromIndex, false⟩

/-- What `spec_probe` gets from outside: what `pci_enable_device`, `pci_alloc_irq_vectors` and
`misc_register` return, whether `kzalloc` and `ioremap` succeed, and what `spec_reconfigure` gets.
The three BARs of the bridge are memory. -/
structure PciProbeEnv where
  enable : ℤ
  kzalloc : Bool
  allocVectors : ℤ
  ioremap : Fin 3 → Bool
  reconfigure : ReconfigureEnv Eeprom
  misc : ℤ

/-- How many BARs are mapped. -/
def PciProbeEnv.mapped (env : PciProbeEnv) : ℤ := (List.finRange 3).countP env.ioremap

/-! ### `spec_probe` and `spec_remove` -/

section Calls

variable (busyTime : ℕ → ℕ) (params : ModuleParams) (useMsi : Bool) (device : ℕ)

/-- The label `out_unmap` of `spec_probe`. -/
def outUnmap (mapped : ℤ) (spec : SpecDev) (s : PciCard) : PciCard :=
  { s with
    maps := s.maps - mapped
    vectors := if useMsi then false else s.vectors
    enabled := s.enabled - 1
    specs := s.specs - 1
    lostFmcs := s.lostFmcs + spec.liveFmcs }

/-- `spec_probe`. -/
def specProbe (env : PciProbeEnv) (s : PciCard) : ℤ × PciCard :=
  if env.enable < 0 then (env.enable, s)
  else
    let s := { s with enabled := s.enabled + 1 }
    if !env.kzalloc then (-enomem, s)
    else
      let spec : SpecDev := ⟨0, device, none, 0, 0⟩
      let s := { s with
        specs := s.specs + 1
        serial := s.serial + 1
        vectors := if useMsi then decide (0 ≤ env.allocVectors) else s.vectors
        maps := s.maps + env.mapped }
      if ∃ i, env.ioremap i = false then (-enomem, outUnmap useMsi env.mapped spec s)
      else
        let r := specReconfigure (eepromTarget busyTime) params env.reconfigure s.eepromIndex spec
        let s := { s with eepromIndex := r.eepromIndex }
        if r.ret ≠ 0 then (r.ret, outUnmap useMsi env.mapped r.spec s)
        else if env.misc ≠ 0 then
          (env.misc, outUnmap useMsi env.mapped (specFmcDestroy r.spec) s)
        else (0, { s with spec := some r.spec, miscs := s.miscs + 1 })

/-- `spec_remove`, for a card that is bound. -/
def specRemove (spec : SpecDev) (s : PciCard) : PciCard :=
  { s with
    miscs := s.miscs - 1
    maps := s.maps - 3
    specs := s.specs - 1
    vectors := false
    enabled := s.enabled - 1
    lostFmcs := s.lostFmcs + (specFmcDestroy spec).liveFmcs
    spec := none }

/-! ### Writes -/

namespace PciCard

/-- `spec_mdev_write_raw` up to `spec_reconfigure`; `vmalloc` and `copy` tell whether there is
memory for the bytes, and whether they can be copied. -/
def beginWrite (serial count : ℕ) (vmalloc copy : Bool) (s : PciCard) : PciCard :=
  if count = 0 then { s with returned := s.returned ++ [-einval] }
  else if !vmalloc then { s with returned := s.returned ++ [-enomem] }
  else if !copy then { s with returned := s.returned ++ [-efault] }
  else { s with writes := s.writes ++ [⟨serial, count, .destroy⟩] }

/-- The next access of the `i`-th write under way, which is `w`, to its `struct spec_dev`. -/
def accessSpec (i : ℕ) (w : RawWrite) (env : ReconfigureEnv Eeprom) (spec : SpecDev)
    (s : PciCard) : PciCard :=
  match w.next with
  | .destroy =>
    { s with spec := some (specFmcDestroy spec), writes := s.writes.set i { w with next := .load } }
  | .load =>
    let ret := specLoadFpgaFile env (specGoldenNameGet params spec.device)
    if ret ≠ 0 then
      { s with writes := s.writes.eraseIdx i, returned := s.returned ++ [ret] }
    else { s with writes := s.writes.set i { w with next := .create } }
  | .create =>
    let r := specFmcCreate (eepromTarget busyTime) params.eeprom env.create s.eepromIndex spec
    { s with
      spec := some r.spec
      eepromIndex := r.eepromIndex
      writes := s.writes.eraseIdx i
      returned := s.returned ++ [if r.ret ≠ 0 then r.ret else w.count] }

/-- The next access of the `i`-th write under way. -/
def access (i : ℕ) (env : ReconfigureEnv Eeprom) (s : PciCard) : PciCard :=
  match s.writes[i]?, s.spec with
  | none, _ => s
  | some w, some spec =>
    if w.serial = s.serial then accessSpec busyTime params i w env spec s
    else { s with crashed := true }
  | some _, none => { s with crashed := true }

end PciCard

end Calls

/-! ### Runs -/

/-- What can happen: the device is bound or released; the misc device is opened; a write is called
on a file; a write under way makes its next access. -/
inductive PciEvent
  | probe (env : PciProbeEnv)
  | remove
  | openFile
  | write (file count : ℕ) (vmalloc copy : Bool)
  | access (i : ℕ) (env : ReconfigureEnv Eeprom)

/-- A write under way goes on. -/
def PciEvent.IsAccess : PciEvent → Prop
  | access _ _ => True
  | _ => False

namespace PciCard

variable (busyTime : ℕ → ℕ) (params : ModuleParams) (useMsi : Bool) (device : ℕ)

/-- Each event. Only a device that is not bound is probed. -/
def step (s : PciCard) : PciEvent → PciCard
  | .probe env =>
    match s.spec with
    | none => (specProbe busyTime params useMsi device env s).2
    | some _ => s
  | .remove =>
    match s.spec with
    | none => s
    | some spec => specRemove spec s
  | .openFile =>
    match s.spec with
    | none => s
    | some _ => { s with files := s.files ++ [s.serial] }
  | .write file count vmalloc copy =>
    match s.files[file]? with
    | none => s
    | some serial => s.beginWrite serial count vmalloc copy
  | .access i env => s.access busyTime params i env

end PciCard

/-! ### The `fmc` of a card -/

namespace SpecDev

/-- The card has no `fmc`. -/
structure NoFmc (spec : SpecDev) : Prop where
  registered : ¬ spec.Registered
  fmc : spec.fmc = none
  fmcs : spec.liveFmcs = 0

/-- The card has an `fmc`, and no other. -/
structure OneFmc (spec : SpecDev) : Prop where
  registered : spec.Registered
  fmc : spec.fmc ≠ none
  fmcs : spec.liveFmcs = 1

/-- The `fmc` structures are the same, as far as they can be told apart. -/
structure SameFmcs (spec spec' : SpecDev) : Prop where
  registered : spec'.Registered ↔ spec.Registered
  fmcs : spec'.liveFmcs = spec.liveFmcs
  device : spec'.device = spec.device

variable {spec : SpecDev}

theorem noFmc_specFmcDestroy (h : spec.NoFmc ∨ spec.OneFmc) : (specFmcDestroy spec).NoFmc := by
  rcases h with h | h
  · rwa [specFmcDestroy, if_pos (not_not.mp h.registered)]
  · rw [specFmcDestroy, if_neg h.registered]
    obtain ⟨fmc, hfmc⟩ := Option.ne_none_iff_exists'.mp h.fmc
    rw [hfmc]
    exact ⟨not_not.mpr (clear_registered spec.flags), rfl, by simp [specI2cExit, h.fmcs]⟩

theorem or_fake_and_registered (flags : BitVec 32) :
    (flags ||| specFlagFakeEeprom) &&& specFlagFmcRegistered = flags &&& specFlagFmcRegistered := by
  rw [BitVec.and_or_distrib_right]
  exact BitVec.or_zero

theorem loadFake_registered (images : List String) (requestFirmware : Firmware) (eepromIndex : ℕ)
    (flags : BitVec 32) :
    (loadFake images requestFirmware eepromIndex flags).1 &&& specFlagFmcRegistered =
      flags &&& specFlagFmcRegistered := by
  cases himage : fakeImage images requestFirmware eepromIndex with
  | none => rw [(loadFake_none himage).1]
  | some data => rw [(loadFake_some himage).1, or_fake_and_registered]

section Create

variable {σ : Type*} {T : Target σ} {images : List String} {eepromIndex : ℕ}

/-- `spec_i2c_init` has to do with the EEPROM only. -/
theorem sameFmcs_specI2cInit (env : I2cEnv σ) (spec : SpecDev) {fmc : Fmc}
    (hfmc : fmc.eeprom = none) :
    SameFmcs spec (specI2cInit T images env eepromIndex spec fmc).spec := by
  by_cases hcaches : Caches T images env eepromIndex spec.flags fmc.eepromAddr
  · rw [specI2cInit_of_caches hcaches]
    refine ⟨?_, rfl, rfl⟩
    rw [Registered, Registered, loadFake_registered]
  · obtain ⟨ret, found, noMezzanine, eepromLen, next, hinit, -⟩ :=
      specI2cInit_of_not_caches hcaches hfmc
    rw [hinit]
    exact ⟨Iff.rfl, rfl, rfl⟩

/-- A creation that succeeds adds an `fmc`, one that fails leaves none. -/
theorem specFmcCreate_fmc (env : CreateEnv σ) (h : spec.NoFmc) :
    ((specFmcCreate T images env eepromIndex spec).ret ≠ 0 ∧
        (specFmcCreate T images env eepromIndex spec).spec.NoFmc) ∨
      ((specFmcCreate T images env eepromIndex spec).ret = 0 ∧
        (specFmcCreate T images env eepromIndex spec).spec.OneFmc) := by
  have hfmcs : (opened spec).liveFmcs = 1 := by
    rw [opened, h.fmcs]
    rfl
  by_cases hearly : env.kzalloc = true ∧ checkGolden env = 0
  · rw [specFmcCreate_eq hearly.1 hearly.2]
    have hsame : SameFmcs (opened spec)
        (specI2cInit T images env.i2c eepromIndex (opened spec) goldenFmc).spec :=
      sameFmcs_specI2cInit env.i2c (opened spec) rfl
    generalize specI2cInit T images env.i2c eepromIndex (opened spec) goldenFmc = init at hsame ⊢
    have hfree : (outFree init.spec).NoFmc :=
      ⟨fun hreg => h.registered (hsame.registered.mp hreg), rfl,
        by rw [outFree, hsame.fmcs, hfmcs]; rfl⟩
    dsimp only
    split_ifs with hret hirq hregister
    · exact .inl ⟨hret, hfree⟩
    · exact .inl ⟨hirq, hfree⟩
    · exact .inl ⟨hregister, hfree⟩
    · exact .inr ⟨rfl, or_registered _, Option.some_ne_none _, hsame.fmcs.trans hfmcs⟩
  · obtain ⟨ret, hret, hsame | hfreed⟩ :=
      @specFmcCreate_early σ T images env eepromIndex spec hearly
    · rw [hsame]
      exact .inl ⟨hret, h⟩
    · rw [hfreed]
      exact .inl ⟨hret, h.registered, rfl, by rw [outFree, hfmcs]; rfl⟩

theorem specFmcCreate_device (env : CreateEnv σ) (spec : SpecDev) :
    (specFmcCreate T images env eepromIndex spec).spec.device = spec.device := by
  by_cases hearly : env.kzalloc = true ∧ checkGolden env = 0
  · rw [specFmcCreate_eq hearly.1 hearly.2]
    have hsame : SameFmcs (opened spec)
        (specI2cInit T images env.i2c eepromIndex (opened spec) goldenFmc).spec :=
      sameFmcs_specI2cInit env.i2c (opened spec) rfl
    generalize specI2cInit T images env.i2c eepromIndex (opened spec) goldenFmc = init at hsame ⊢
    dsimp only
    split_ifs <;> exact hsame.device
  · obtain ⟨ret, -, hsame | hfreed⟩ :=
      @specFmcCreate_early σ T images env eepromIndex spec hearly
    · rw [hsame]
    · rw [hfreed]
      rfl

end Create

end SpecDev

/-! ### Probing -/

section Probe

variable {busyTime : ℕ → ℕ} {params : ModuleParams} {useMsi : Bool} {device : ℕ}

/-- A configuration that succeeds leaves an `fmc`, one that fails none. -/
theorem specReconfigure_fmc {T : Target Eeprom} (env : ReconfigureEnv Eeprom) (eepromIndex : ℕ)
    {spec : SpecDev} (h : spec.NoFmc ∨ spec.OneFmc) :
    ((specReconfigure T params env eepromIndex spec).ret ≠ 0 ∧
        (specReconfigure T params env eepromIndex spec).spec.NoFmc) ∨
      ((specReconfigure T params env eepromIndex spec).ret = 0 ∧
        (specReconfigure T params env eepromIndex spec).spec.OneFmc ∧
        (specReconfigure T params env eepromIndex spec).spec.device = spec.device ∧
        specGoldenNameGet params spec.device ≠ none) := by
  have hempty := SpecDev.noFmc_specFmcDestroy h
  rw [specReconfigure_eq]
  split_ifs with hload
  · exact .inl ⟨hload, hempty⟩
  · refine (SpecDev.specFmcCreate_fmc env.create hempty).imp id fun hok => ⟨hok.1, hok.2, ?_, ?_⟩
    · rw [SpecDev.specFmcCreate_device, specFmcDestroy_device]
    · intro hnone
      rw [hnone] at hload
      exact hload (show (-einval : ℤ) ≠ 0 by decide)

/-- `out_unmap` gives back what has been taken before. -/
theorem outUnmap_eq (env : PciProbeEnv) {spec : SpecDev} (h : spec.NoFmc) (s : PciCard)
    (serial eepromIndex : ℕ) :
    outUnmap useMsi env.mapped spec
        { s with
          enabled := s.enabled + 1
          vectors := if useMsi then decide (0 ≤ env.allocVectors) else s.vectors
          maps := s.maps + env.mapped
          specs := s.specs + 1
          serial := serial
          eepromIndex := eepromIndex } =
      { s with
        vectors := if useMsi then false else s.vectors
        serial := serial
        eepromIndex := eepromIndex } := by
  cases useMsi <;> simp [outUnmap, h.fmcs]

/-- All three BARs are mapped when none fails. -/
theorem mapped_eq_three {env : PciProbeEnv} (h : ¬ ∃ i, env.ioremap i = false) :
    env.mapped = 3 := by
  have hall : ∀ i ∈ List.finRange 3, env.ioremap i = true := fun i _ => by
    simpa using not_exists.mp h i
  rw [PciProbeEnv.mapped, List.countP_eq_length.mpr hall]
  rfl

/-- All that `spec_probe` can do: it leaves the device enabled, it leaves no trace but in the
counters, or it binds the device. -/
theorem specProbe_cases (env : PciProbeEnv) (s : PciCard) :
    (0 ≤ env.enable ∧ env.kzalloc = false ∧
        (specProbe busyTime params useMsi device env s).2 = { s with enabled := s.enabled + 1 }) ∨
      ((env.enable < 0 ∨ env.kzalloc = true) ∧
        ((∃ vectors serial eepromIndex, (s.vectors = false → vectors = false) ∧
            (specProbe busyTime params useMsi device env s).2 =
              { s with vectors := vectors, serial := serial, eepromIndex := eepromIndex }) ∨
          ∃ vectors spec eepromIndex, spec.OneFmc ∧ spec.device = device ∧
            specGoldenNameGet params device ≠ none ∧
            (specProbe busyTime params useMsi device env s).2 =
              { s with
                enabled := s.enabled + 1
                vectors := vectors
                maps := s.maps + 3
                specs := s.specs + 1
                miscs := s.miscs + 1
                serial := s.serial + 1
                spec := some spec
                eepromIndex := eepromIndex })) := by
  rw [specProbe]
  by_cases henable : env.enable < 0
  · rw [if_pos henable]
    exact .inr ⟨.inl henable, .inl ⟨s.vectors, s.serial, s.eepromIndex, id, rfl⟩⟩
  rw [if_neg henable]
  cases hkzalloc : env.kzalloc with
  | false => exact .inl ⟨not_lt.mp henable, rfl, rfl⟩
  | true =>
    refine .inr ⟨.inr rfl, ?_⟩
    have hfresh : SpecDev.NoFmc ⟨0, device, none, 0, 0⟩ := ⟨by simp [SpecDev.Registered], rfl, rfl⟩
    have hvectors : s.vectors = false → (if useMsi then false else s.vectors) = false := by
      cases useMsi <;> simp
    rw [if_neg (by simp)]
    dsimp only
    by_cases hremap : ∃ i, env.ioremap i = false
    · rw [if_pos hremap]
      exact .inl ⟨_, _, _, hvectors, outUnmap_eq env hfresh s _ _⟩
    rw [if_neg hremap]
    have hconfigured := @specReconfigure_fmc params (eepromTarget busyTime) env.reconfigure
      s.eepromIndex _ (.inl hfresh)
    generalize specReconfigure (eepromTarget busyTime) params env.reconfigure s.eepromIndex
      ⟨0, device, none, 0, 0⟩ = r at hconfigured ⊢
    rcases hconfigured with ⟨hret, hno⟩ | ⟨hret, hone, hdevice, hname⟩
    · rw [if_pos hret]
      exact .inl ⟨_, _, _, hvectors, outUnmap_eq env hno s _ _⟩
    rw [if_neg (not_not.mpr hret)]
    by_cases hmisc : env.misc ≠ 0
    · rw [if_pos hmisc]
      have hno := SpecDev.noFmc_specFmcDestroy (.inr hone)
      exact .inl ⟨_, _, _, hvectors, outUnmap_eq env hno s _ _⟩
    · rw [if_neg hmisc, mapped_eq_three hremap]
      exact .inr ⟨_, r.spec, r.eepromIndex, hone, hdevice, hname, rfl⟩

end Probe

/-! ### What the driver holds -/

namespace PciCard

/-- 1 if the device is bound. -/
def bound (s : PciCard) : ℤ := if s.spec.isSome then 1 else 0

/-- No freed memory has been accessed; the driver holds what a bound device needs, or nothing; and
a bound card has at most the `fmc` that it knows of. The buffers of the EEPROMs are not counted. -/
structure Clean (s : PciCard) : Prop where
  crashed : s.crashed = false
  enabled : s.enabled = s.bound
  vectors : s.spec = none → s.vectors = false
  maps : s.maps = 3 * s.bound
  specs : s.specs = s.bound
  miscs : s.miscs = s.bound
  lostFmcs : s.lostFmcs = 0
  fmc : ∀ spec, s.spec = some spec → spec.NoFmc ∨ spec.OneFmc

/-- All is clean, and stays so whenever and however the writes under way go on. -/
def Sound (busyTime : ℕ → ℕ) (params : ModuleParams) (useMsi : Bool) (device : ℕ) (s : PciCard) :
    Prop :=
  ∀ es : List PciEvent, (∀ e ∈ es, e.IsAccess) →
    (run (step busyTime params useMsi device) s es).Clean

/-- `spec_probe` gets its memory; the device is not released while a write is under way; and a
write begins on a card that is bound since its file was opened, and with no other under way. -/
def Orderly (s : PciCard) : PciEvent → Prop
  | .probe env => s.spec = none → 0 ≤ env.enable → env.kzalloc = true
  | .remove => s.spec ≠ none → s.writes = []
  | .write file count vmalloc copy => ∀ serial, s.files[file]? = some serial → count ≠ 0 →
      vmalloc = true → copy = true → s.writes = [] ∧ s.spec ≠ none ∧ serial = s.serial
  | _ => True

/-- At most one write is under way, on the `struct spec_dev` of the bound card, which has no `fmc`
in the middle of the write. -/
structure Calm (params : ModuleParams) (device : ℕ) (s : PciCard) : Prop where
  clean : s.Clean
  alone : s.writes.length ≤ 1
  live : ∀ w ∈ s.writes, w.serial = s.serial ∧
    ∃ spec, s.spec = some spec ∧ (w.next ≠ .destroy → spec.NoFmc)
  ofDevice : ∀ spec, s.spec = some spec → spec.device = device
  named : s.spec ≠ none → specGoldenNameGet params device ≠ none

variable {busyTime : ℕ → ℕ} {params : ModuleParams} {useMsi : Bool} {device : ℕ} {s : PciCard}

theorem bound_of_some {spec : SpecDev} (h : s.spec = some spec) : s.bound = 1 := by
  simp [bound, h]

theorem Clean.withWrites (h : s.Clean) (writes : List RawWrite) (returned : List ℤ) :
    Clean { s with writes := writes, returned := returned } :=
  ⟨h.crashed, h.enabled, h.vectors, h.maps, h.specs, h.miscs, h.lostFmcs, h.fmc⟩

/-- A change of the `struct spec_dev` of a bound card. -/
theorem Clean.withSpec (h : s.Clean) {spec spec' : SpecDev} (hspec : s.spec = some spec)
    (hfmc : spec'.NoFmc ∨ spec'.OneFmc) (writes : List RawWrite) (returned : List ℤ)
    (eepromIndex : ℕ) :
    Clean { s with
      spec := some spec', writes := writes, returned := returned, eepromIndex := eepromIndex } := by
  have hbound := bound_of_some hspec
  refine ⟨h.crashed, h.enabled.trans hbound, fun hnone => absurd hnone (Option.some_ne_none _),
    h.maps.trans (congrArg _ hbound), h.specs.trans hbound, h.miscs.trans hbound, h.lostFmcs, ?_⟩
  rintro spec'' hspec''
  obtain rfl := Option.some.inj hspec''
  exact hfmc

namespace Calm

theorem start (params : ModuleParams) (device eepromIndex : ℕ) :
    Calm params device (.start eepromIndex) :=
  ⟨⟨rfl, rfl, fun _ => rfl, rfl, rfl, rfl, rfl, fun _ h => by simp [PciCard.start] at h⟩,
    Nat.zero_le _, fun _ h => absurd h List.not_mem_nil, fun _ h => by simp [PciCard.start] at h,
    fun h => absurd rfl h⟩

theorem writes_of_none (h : Calm params device s) (hnone : s.spec = none) : s.writes = [] := by
  refine List.eq_nil_iff_forall_not_mem.mpr fun w hw => ?_
  obtain ⟨-, spec, hspec, -⟩ := h.live w hw
  exact absurd (hnone.symm.trans hspec) (Option.some_ne_none _).symm

/-- The only write under way. -/
theorem writes_of_getElem (h : Calm params device s) {i : ℕ} {w : RawWrite}
    (hw : s.writes[i]? = some w) : i = 0 ∧ s.writes = [w] := by
  have hlength := h.alone
  obtain ⟨hlt, hget⟩ := List.getElem?_eq_some_iff.mp hw
  obtain rfl : i = 0 := by omega
  obtain ⟨w', hwrites⟩ := List.length_eq_one_iff.mp (by omega : s.writes.length = 1)
  refine ⟨rfl, ?_⟩
  simp only [hwrites, List.getElem_cons_zero] at hget
  rw [hwrites, hget]

theorem probe (h : Calm params device s) (hnone : s.spec = none) {env : PciProbeEnv}
    (henv : 0 ≤ env.enable → env.kzalloc = true) :
    Calm params device (specProbe busyTime params useMsi device env s).2 := by
  have hwrites := h.writes_of_none hnone
  obtain ⟨hle, hfalse, -⟩ | ⟨-, ⟨vectors, serial, eepromIndex, hvectors, hsame⟩ |
      ⟨vectors, spec, eepromIndex, hone, hdevice, hname, hnext⟩⟩ :=
    @specProbe_cases busyTime params useMsi device env s
  · exact absurd ((henv hle).symm.trans hfalse) (by simp)
  · rw [hsame]
    exact ⟨⟨h.clean.crashed, h.clean.enabled, fun hn => hvectors (h.clean.vectors hn),
      h.clean.maps, h.clean.specs, h.clean.miscs, h.clean.lostFmcs, h.clean.fmc⟩, h.alone,
      fun w hw => absurd hw (hwrites ▸ List.not_mem_nil), h.ofDevice, h.named⟩
  · rw [hnext]
    refine ⟨⟨h.clean.crashed, ?_, fun hn => absurd hn (Option.some_ne_none _), ?_, ?_, ?_,
      h.clean.lostFmcs, fun _ hspec => .inr (Option.some.inj hspec ▸ hone)⟩, h.alone,
      fun w hw => absurd hw (hwrites ▸ List.not_mem_nil),
      fun _ hspec => Option.some.inj hspec ▸ hdevice, fun _ => hname⟩
    all_goals simp [bound, h.clean.enabled, h.clean.maps, h.clean.specs, h.clean.miscs, hnone]

theorem remove (h : Calm params device s) {spec : SpecDev} (hspec : s.spec = some spec)
    (hwrites : s.writes = []) : Calm params device (specRemove spec s) := by
  have hno := SpecDev.noFmc_specFmcDestroy (h.clean.fmc spec hspec)
  refine ⟨⟨h.clean.crashed, ?_, fun _ => rfl, ?_, ?_, ?_, ?_,
    fun _ hn => by simp [specRemove] at hn⟩, h.alone,
    fun w hw => absurd hw (hwrites ▸ List.not_mem_nil), fun _ hn => by simp [specRemove] at hn,
    fun hn => absurd rfl hn⟩
  all_goals simp [specRemove, bound, h.clean.enabled, h.clean.maps, h.clean.specs, h.clean.miscs,
    h.clean.lostFmcs, hspec, hno.fmcs]

/-- The only write under way goes on. -/
theorem accessSpec (h : Calm params device s) {w : RawWrite} (hwrites : s.writes = [w])
    {spec : SpecDev} (hspec : s.spec = some spec) (env : ReconfigureEnv Eeprom) :
    Calm params device (s.accessSpec busyTime params 0 w env spec) := by
  obtain ⟨serial, count, next⟩ := w
  obtain ⟨hserial, spec', hspec', hno⟩ := h.live _ (hwrites ▸ List.mem_singleton_self _)
  obtain rfl := Option.some.inj (hspec.symm.trans hspec')
  have hdevice := h.ofDevice spec hspec
  have hnamed := h.named (hspec ▸ Option.some_ne_none _)
  have hfmc := h.clean.fmc spec hspec
  cases next with
  | destroy =>
    have hdestroyed := SpecDev.noFmc_specFmcDestroy hfmc
    simp only [PciCard.accessSpec, hwrites, List.set_cons_zero]
    refine ⟨h.clean.withSpec hspec (.inl hdestroyed) _ _ _, le_rfl, fun w hw => ?_, ?_,
      fun _ => hnamed⟩
    · obtain rfl := List.mem_singleton.mp hw
      exact ⟨hserial, _, rfl, fun _ => hdestroyed⟩
    · rintro _ hsome
      rw [← Option.some.inj hsome, specFmcDestroy_device, hdevice]
  | load =>
    have hempty : spec.NoFmc := hno (by simp)
    simp only [PciCard.accessSpec, hwrites, List.set_cons_zero, List.eraseIdx_cons_zero]
    split_ifs
    · exact ⟨h.clean.withWrites _ _, Nat.zero_le _,
        fun w hw => absurd hw List.not_mem_nil, h.ofDevice, h.named⟩
    · refine ⟨h.clean.withWrites _ _, le_rfl, fun w hw => ?_, h.ofDevice, h.named⟩
      obtain rfl := List.mem_singleton.mp hw
      exact ⟨hserial, spec, hspec, fun _ => hempty⟩
  | create =>
    have hempty : spec.NoFmc := hno (by simp)
    simp only [PciCard.accessSpec, hwrites, List.eraseIdx_cons_zero]
    refine ⟨h.clean.withSpec hspec ?_ _ _ _, Nat.zero_le _,
      fun w hw => absurd hw List.not_mem_nil, ?_, fun _ => hnamed⟩
    · exact (SpecDev.specFmcCreate_fmc env.create hempty).imp And.right And.right
    · rintro _ hsome
      rw [← Option.some.inj hsome, SpecDev.specFmcCreate_device, hdevice]

theorem access (h : Calm params device s) (i : ℕ) (env : ReconfigureEnv Eeprom) :
    Calm params device (s.access busyTime params i env) := by
  rw [PciCard.access]
  cases hw : s.writes[i]? with
  | none => exact h
  | some w =>
    obtain ⟨rfl, hwrites⟩ := h.writes_of_getElem hw
    obtain ⟨hserial, spec, hspec, -⟩ := h.live w (List.mem_of_getElem? hw)
    simp only [hspec, hserial, if_true]
    exact h.accessSpec hwrites hspec env

/-- A write that fails early, or begins on the bound card. -/
theorem beginWrite (h : Calm params device s) {serial count : ℕ} {vmalloc copy : Bool}
    (hbegins : count ≠ 0 → vmalloc = true → copy = true →
      s.writes = [] ∧ s.spec ≠ none ∧ serial = s.serial) :
    Calm params device (s.beginWrite serial count vmalloc copy) := by
  have hreturns (ret : ℤ) : Calm params device { s with returned := s.returned ++ [ret] } :=
    ⟨h.clean.withWrites _ _, h.alone, h.live, h.ofDevice, h.named⟩
  rw [PciCard.beginWrite]
  split_ifs with hcount hvmalloc hcopy
  · exact hreturns _
  · exact hreturns _
  · exact hreturns _
  · obtain ⟨hwrites, hbound, rfl⟩ := hbegins hcount (by simpa using hvmalloc) (by simpa using hcopy)
    obtain ⟨spec, hspec⟩ := Option.ne_none_iff_exists'.mp hbound
    rw [hwrites]
    refine ⟨h.clean.withWrites _ _, le_rfl, fun w hw => ?_, h.ofDevice, h.named⟩
    obtain rfl := List.mem_singleton.mp hw
    exact ⟨rfl, spec, hspec, fun hne => absurd rfl hne⟩

/-- An orderly event keeps all calm. -/
theorem step (h : Calm params device s) {e : PciEvent} (he : s.Orderly e) :
    Calm params device (s.step busyTime params useMsi device e) := by
  cases e with
  | probe env =>
    simp only [PciCard.step]
    split
    · rename_i hnone
      exact h.probe hnone (he hnone)
    · exact h
  | remove =>
    simp only [PciCard.step]
    split
    · exact h
    · rename_i spec hspec
      exact h.remove hspec (he (hspec ▸ Option.some_ne_none _))
  | openFile =>
    simp only [PciCard.step]
    split
    · exact h
    · exact ⟨⟨h.clean.crashed, h.clean.enabled, h.clean.vectors, h.clean.maps, h.clean.specs,
        h.clean.miscs, h.clean.lostFmcs, h.clean.fmc⟩, h.alone, h.live, h.ofDevice, h.named⟩
  | write file count vmalloc copy =>
    simp only [PciCard.step]
    split
    · exact h
    · rename_i serial hserial
      exact h.beginWrite (he serial hserial)
  | access i env => exact h.access i env

/-- The writes under way may go on. -/
theorem sound (h : Calm params device s) : s.Sound busyTime params useMsi device := by
  intro es hes
  induction es generalizing s with
  | nil => exact h.clean
  | cons e es ih =>
    obtain ⟨he, hrest⟩ := List.forall_mem_cons.mp hes
    refine ih (h.step ?_) hrest
    cases e with
    | access i env => trivial
    | _ => exact absurd he (by simp [PciEvent.IsAccess])

end Calm

/-! ### Harm -/

theorem access_of_live {i : ℕ} {w : RawWrite} {spec : SpecDev} (hw : s.writes[i]? = some w)
    (hserial : w.serial = s.serial) (hspec : s.spec = some spec) (env : ReconfigureEnv Eeprom) :
    s.access busyTime params i env = s.accessSpec busyTime params i w env spec := by
  simp only [access, hw, hspec, hserial, if_true]

/-- A write whose `struct spec_dev` has been freed accesses it. -/
theorem not_sound_of_dead {i : ℕ} {w : RawWrite} (hw : s.writes[i]? = some w)
    (hdead : s.spec = none ∨ w.serial ≠ s.serial) : ¬ s.Sound busyTime params useMsi device := by
  intro hsound
  have hcrashed : (s.access busyTime params i (goldenEnv 0)).crashed = true := by
    rw [access, hw]
    cases hspec : s.spec with
    | none => rfl
    | some spec =>
      have hne := hdead.resolve_left (hspec ▸ Option.some_ne_none spec)
      simp only [hne, if_false]
  have hclean := (hsound [.access i (goldenEnv 0)] (by simp [PciEvent.IsAccess])).crashed
  exact absurd (hclean.symm.trans hcrashed) Bool.false_ne_true

/-- A write under way can go on until it creates the `fmc`. -/
theorem exists_run_to_create {i : ℕ} {w : RawWrite} {spec : SpecDev} (hw : s.writes[i]? = some w)
    (hserial : w.serial = s.serial) (hspec : s.spec = some spec)
    (hfmc : spec.NoFmc ∨ spec.OneFmc) (hno : w.next ≠ .destroy → spec.NoFmc)
    (hnamed : specGoldenNameGet params spec.device ≠ none) :
    ∃ es : List PciEvent, (∀ e ∈ es, e.IsAccess) ∧ ∃ spec', spec'.NoFmc ∧
      spec'.device = spec.device ∧ run (step busyTime params useMsi device) s es =
        { s with spec := some spec', writes := s.writes.set i { w with next := .create } } := by
  obtain ⟨name, hname⟩ := Option.ne_none_iff_exists'.mp hnamed
  have hload : specLoadFpgaFile (goldenEnv 0) (specGoldenNameGet params spec.device) = 0 := by
    rw [hname]
    rfl
  have hlt : i < s.writes.length := (List.getElem?_eq_some_iff.mp hw).1
  obtain ⟨serial, count, next⟩ := w
  cases next with
  | create =>
    refine ⟨[], by simp, spec, hno (by simp), rfl, ?_⟩
    have hset : s.writes.set i ⟨serial, count, .create⟩ = s.writes := by
      rw [← (List.getElem?_eq_some_iff.mp hw).2, List.set_getElem_self]
    rw [hset, ← hspec]
    rfl
  | load =>
    refine ⟨[.access i (goldenEnv 0)], by simp [PciEvent.IsAccess], spec, hno (by simp), rfl, ?_⟩
    rw [run_cons, run_nil, step, access_of_live hw hserial hspec]
    simp only [accessSpec, hload, ne_eq, not_true_eq_false, if_false, hspec]
  | destroy =>
    refine ⟨[.access i (goldenEnv 0), .access i (goldenEnv 0)], by simp [PciEvent.IsAccess],
      specFmcDestroy spec, SpecDev.noFmc_specFmcDestroy hfmc, specFmcDestroy_device spec, ?_⟩
    rw [run_cons, run_cons, run_nil, step, step, access_of_live hw hserial hspec]
    have hnext := @access_of_live busyTime params
      { s with spec := some (specFmcDestroy spec), writes := s.writes.set i ⟨serial, count, .load⟩ }
      i ⟨serial, count, .load⟩ _ (List.getElem?_set_self hlt) hserial rfl (goldenEnv 0)
    refine hnext.trans ?_
    simp only [accessSpec, specFmcDestroy_device, hload, ne_eq, not_true_eq_false, if_false,
      List.set_set]

/-- A creation that succeeds adds an `fmc` in any case. -/
theorem liveFmcs_specFmcCreate_goldenEnv (images : List String) (eepromIndex : ℕ)
    (spec : SpecDev) :
    (specFmcCreate (eepromTarget busyTime) images (goldenEnv 0).create eepromIndex
      spec).spec.liveFmcs = spec.liveFmcs + 1 := by
  have hcaches : Caches (eepromTarget busyTime) images (goldenEnv 0).create.i2c eepromIndex
      (opened spec).flags goldenFmc.eepromAddr :=
    caches_iff.mpr ⟨(mi2cScan_iff ⟨rfl, rfl⟩).mpr ⟨by decide, rfl⟩, rfl⟩
  rw [specFmcCreate_eq rfl (by decide), specI2cInit_of_caches hcaches]
  rfl

/-- A write that is about to create an `fmc` can do so in any case. -/
theorem access_goldenEnv {i : ℕ} {w : RawWrite} {spec : SpecDev} (hw : s.writes[i]? = some w)
    (hserial : w.serial = s.serial) (hspec : s.spec = some spec) (hnext : w.next = .create) :
    ∃ spec', spec'.liveFmcs = spec.liveFmcs + 1 ∧
      (s.access busyTime params i (goldenEnv 0)).spec = some spec' ∧
      (s.access busyTime params i (goldenEnv 0)).writes = s.writes.eraseIdx i ∧
      (s.access busyTime params i (goldenEnv 0)).serial = s.serial := by
  rw [access_of_live hw hserial hspec, accessSpec, hnext]
  exact ⟨_, liveFmcs_specFmcCreate_goldenEnv params.eeprom s.eepromIndex spec, rfl, rfl, rfl⟩

/-- Two writes that are about to create an `fmc` create one each. -/
theorem not_sound_of_creates {a b : RawWrite} {spec : SpecDev} (hwrites : s.writes = [a, b])
    (ha : a.serial = s.serial) (hb : b.serial = s.serial) (hnext : a.next = .create)
    (hnext' : b.next = .create) (hspec : s.spec = some spec) (hno : spec.NoFmc) :
    ¬ s.Sound busyTime params useMsi device := by
  intro hsound
  have hclean := hsound [.access 0 (goldenEnv 0), .access 0 (goldenEnv 0)]
    (by simp [PciEvent.IsAccess])
  simp only [run_cons, run_nil, step] at hclean
  obtain ⟨spec₁, hlive₁, hspec₁, hwrites₁, hserial₁⟩ :=
    @access_goldenEnv busyTime params s 0 a spec (by rw [hwrites]; rfl) ha hspec hnext
  generalize s.access busyTime params 0 (goldenEnv 0) = t at hclean hspec₁ hwrites₁ hserial₁
  rw [hwrites, List.eraseIdx_cons_zero] at hwrites₁
  obtain ⟨spec₂, hlive₂, hspec₂, -, -⟩ := @access_goldenEnv busyTime params t 0 b spec₁
    (by rw [hwrites₁]; rfl) (hb.trans hserial₁.symm) hspec₁ hnext'
  have htwo : spec₂.liveFmcs = 2 := by rw [hlive₂, hlive₁, hno.fmcs]; rfl
  rcases hclean.fmc spec₂ hspec₂ with h | h
  · exact absurd (htwo.symm.trans h.fmcs) (by decide)
  · exact absurd (htwo.symm.trans h.fmcs) (by decide)

/-- What is not sound later is not sound now. -/
theorem Sound.run (h : s.Sound busyTime params useMsi device) {es : List PciEvent}
    (hes : ∀ e ∈ es, e.IsAccess) :
    (EventRun.run (step busyTime params useMsi device) s es).Sound busyTime params useMsi
      device := by
  intro es' hes'
  rw [← run_append]
  exact h (es ++ es') fun e he => (List.mem_append.mp he).elim (hes e) (hes' e)

/-- Two writes on the bound card do not go together. -/
theorem not_sound_of_two {a b : RawWrite} {spec : SpecDev} (hwrites : s.writes = [a, b])
    (ha : a.serial = s.serial) (hb : b.serial = s.serial) (hspec : s.spec = some spec)
    (hfmc : spec.NoFmc ∨ spec.OneFmc) (hno : a.next ≠ .destroy → spec.NoFmc)
    (hnamed : specGoldenNameGet params spec.device ≠ none) :
    ¬ s.Sound busyTime params useMsi device := by
  intro hsound
  -- the first write goes on until it creates, then the second one
  obtain ⟨es₁, hes₁, spec₁, hno₁, hdevice₁, hrun₁⟩ :=
    @exists_run_to_create busyTime params useMsi device s 0 a spec (by rw [hwrites]; rfl) ha hspec
      hfmc hno hnamed
  have hsound₁ := hsound.run hes₁
  rw [hrun₁, hwrites, List.set_cons_zero] at hsound₁
  obtain ⟨es₂, hes₂, spec₂, hno₂, -, hrun₂⟩ := @exists_run_to_create busyTime params useMsi device
    { s with spec := some spec₁, writes := [{ a with next := .create }, b] } 1 b spec₁ rfl hb rfl
    (.inl hno₁) (fun _ => hno₁) (hdevice₁ ▸ hnamed)
  have hsound₂ := hsound₁.run hes₂
  rw [hrun₂] at hsound₂
  exact absurd hsound₂ (@not_sound_of_creates busyTime params useMsi device _
    { a with next := .create } { b with next := .create } _ rfl ha hb rfl rfl rfl hno₂)

/-- A write on a card that is not bound any more, or beside another one. -/
theorem not_sound_of_write (h : Calm params device s) {serial count : ℕ}
    (hbad : ¬ (s.writes = [] ∧ s.spec ≠ none ∧ serial = s.serial)) :
    ¬ ({ s with writes := s.writes ++ [⟨serial, count, .destroy⟩] } : PciCard).Sound
      busyTime params useMsi device := by
  by_cases hlive : s.spec ≠ none ∧ serial = s.serial
  · obtain ⟨hbound, rfl⟩ := hlive
    obtain ⟨a, hwrites⟩ : ∃ a, s.writes = [a] := by
      have hne : s.writes ≠ [] := fun hnil => hbad ⟨hnil, hbound, rfl⟩
      have hpos := List.length_pos_of_ne_nil hne
      exact List.length_eq_one_iff.mp (by have := h.alone; omega)
    obtain ⟨ha, spec, hspec, hno⟩ := h.live a (hwrites ▸ List.mem_singleton_self a)
    rw [hwrites]
    refine not_sound_of_two (a := a) rfl ha rfl hspec (h.clean.fmc spec hspec) hno ?_
    rw [h.ofDevice spec hspec]
    exact h.named hbound
  · refine not_sound_of_dead (i := s.writes.length) (w := ⟨serial, count, .destroy⟩) (by simp) ?_
    by_cases hnone : s.spec = none
    · exact .inl hnone
    · exact .inr fun hserial => hlive ⟨hnone, hserial⟩

/-- An event that is not orderly does harm, or lets a write under way do it. -/
theorem not_sound_step (h : Calm params device s) {e : PciEvent} (he : ¬ s.Orderly e) :
    ¬ (s.step busyTime params useMsi device e).Sound busyTime params useMsi device := by
  cases e with
  | probe env =>
    simp only [Orderly, Classical.not_imp] at he
    obtain ⟨hnone, henable, hkzalloc⟩ := he
    obtain ⟨-, -, hleft⟩ | ⟨hother, -⟩ := @specProbe_cases busyTime params useMsi device env s
    · intro hsound
      simp only [step, hnone] at hsound
      have henabled := (hsound [] (by simp)).enabled
      simp only [run_nil, hleft, bound, hnone, h.clean.enabled] at henabled
      exact absurd henabled (by simp)
    · exact absurd (hother.resolve_left (not_lt.mpr henable)) hkzalloc
  | remove =>
    simp only [Orderly, Classical.not_imp] at he
    obtain ⟨hbound, hwrites⟩ := he
    obtain ⟨spec, hspec⟩ := Option.ne_none_iff_exists'.mp hbound
    obtain ⟨w, ws, hcons⟩ := List.exists_cons_of_ne_nil hwrites
    simp only [step, hspec]
    exact not_sound_of_dead (i := 0) (w := w) (by rw [specRemove, hcons]; rfl) (.inl rfl)
  | openFile => exact absurd trivial he
  | access i env => exact absurd trivial he
  | write file count vmalloc copy =>
    simp only [Orderly, not_forall] at he
    obtain ⟨serial, hserial, hcount, hvmalloc, hcopy, hbad⟩ := he
    simp only [step, hserial, beginWrite, hcount, hvmalloc, hcopy, Bool.not_true,
      Bool.false_eq_true, if_false]
    exact not_sound_of_write h hbad

/-- **Nothing orders the writes.** In a run of the PCI driver on a device, with any files and any
writes to them, in any order and with any outcomes: all is clean in every state that the run
reaches, and stays so however the writes under way go on, exactly when `spec_probe` always gets its
memory, no write begins beside another one or on a card that is not bound any more, and the device
is not released while a write is under way. The buffers of the EEPROMs are not counted here. -/
theorem sound_throughout_iff (busyTime : ℕ → ℕ) (params : ModuleParams) (useMsi : Bool)
    (device eepromIndex : ℕ) (es : List PciEvent) :
    Throughout (step busyTime params useMsi device) (Sound busyTime params useMsi device)
        (.start eepromIndex) es ↔
      Along (step busyTime params useMsi device) Orderly (.start eepromIndex) es :=
  throughout_iff_along (I := Calm params device) (.start params device eepromIndex)
    (fun _ h => h.sound) (fun _ _ h he => h.step he) (fun _ _ h he => not_sound_step h he) es

/-! ### A write alone -/

/-- With nothing else between them, the accesses of a write make up `spec_reconfigure`. -/
theorem lone_write {serial count file : ℕ} {spec : SpecDev} (hfile : s.files[file]? = some serial)
    (hserial : serial = s.serial) (hspec : s.spec = some spec) (hwrites : s.writes = [])
    (hcount : count ≠ 0) (env : ReconfigureEnv Eeprom) :
    let r := specReconfigure (eepromTarget busyTime) params env s.eepromIndex spec
    run (step busyTime params useMsi device) s
        [.write file count true true, .access 0 env, .access 0 env, .access 0 env] =
      { s with
        spec := some r.spec
        eepromIndex := r.eepromIndex
        returned := s.returned ++ [if r.ret ≠ 0 then r.ret else count] } := by
  intro r
  have hbegun : s.step busyTime params useMsi device (.write file count true true) =
      { s with writes := [⟨s.serial, count, .destroy⟩] } := by
    simp [step, hfile, beginWrite, hcount, hwrites, hserial]
  have hr : r = specReconfigure (eepromTarget busyTime) params env s.eepromIndex spec := rfl
  rw [specReconfigure_eq] at hr
  rw [run_cons, hbegun, run_cons, run_cons, run_cons, run_nil]
  by_cases hload : specLoadFpgaFile env (specGoldenNameGet params spec.device) = 0
  · rw [if_neg (not_not.mpr hload)] at hr
    simp [step, access, accessSpec, hspec, specFmcDestroy_device, hload, hr, hwrites]
  · rw [if_pos hload] at hr
    simp [step, access, accessSpec, hspec, specFmcDestroy_device, hload, hr, hwrites]

end PciCard

end SpecSw.Carrier
