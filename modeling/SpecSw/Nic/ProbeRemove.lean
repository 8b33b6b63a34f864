import SpecSw.Library.Run
import SpecSw.Nic.Probe

/-!
# Probe and removal match

An attempt to use a device is a probe and, when that returns a value that is not negative, the
removal. From an idle device a probe does one of three things. It fails with an error, and the
device is idle again; it is stuck loading WRC, and returns no error although it has not called
`wrn_eth_init`; or it completes, like `wrn_eth_init` from where that has all it asks for. In the
last case the base addresses are all set exactly when the cores and the platform driver are there;
the latter uses its network device before it tests whether there was memory for it.

Probe and removal match along a sequence of attempts exactly when every probe of it is sound: it is
not stuck, and if it completes, the base addresses can be had.

## Main definitions

* `Nic.WrcStuck`, `Nic.Fails`, `Nic.Completes`, `Nic.ProbeSound`: conditions on what a probe gets
  from outside.
* `Nic.NicFmc.Idle`: the device between two attempts.
* `Nic.Matched`.

## Main results

* `Nic.wrnFmcProbe_of_fails`, `Nic.wrnFmcProbe_of_stuck`, `Nic.wrnFmcProbe_of_completes`.
* `Nic.matched_along_iff`.
-/

namespace SpecSw.Nic

open EventRun Errno

/-! ### What a probe needs -/

section Outcomes

variable (p : ProbeParams) (env : ProbeEnv)

/-- The FPGA is programmed. -/
def Reprogrammed : Prop :=
  0 ≤ env.validate ∧ env.ddKzalloc = true ∧ 0 ≤ env.reprogram (gatewareName p)

/-- WRC is needed and it cannot be loaded: the SDB has no RAM or no system controller, or the LM32
is not reset in time. -/
def WrcStuck : Prop :=
  needWrc p env = true ∧ ((ramOf env).1 < 0 ∨ sysconOf env < 0 ∨ env.lm32TimedOut = true)

/-- If WRC is needed, there is a file for it that fits. -/
def WrcFits : Prop :=
  needWrc p env = true → (env.requestFirmware (wrcName p)).ret.val = 0 ∧
    (env.requestFirmware (wrcName p)).size ≤ (ramOf env).2

/-- The `gpio_chip` is registered, if the kernel has such. -/
def GpioReady : Prop := p.gpiolib = true → env.gcKzalloc = true ∧ 0 ≤ env.gpiochipAdd

/-- The SDB lists the core. -/
def ProbeEnv.Found (c : WrnCore) : Prop := 0 ≤ (env.sdb c.vendor c.device).1

/-- The interrupt is granted, there is memory, and the SDB lists the four cores that are needed. -/
def EthReady : Prop :=
  0 ≤ env.irqRequest ∧ (∀ a, env.kmalloc a = true) ∧ ∀ c ∈ wrnCores, env.Found c

/-- The address at which the registers of a core are mapped. -/
def corePtr (c : WrnCore) : ℕ :=
  env.ioremap (p.areaStart.val + (env.sdb c.vendor c.device).1.toNat)
    (env.sdb c.vendor c.device).2

/-- The SDB lists the VIC and the DIO, and `wrn_driver` is registered, maps the four cores and
allocates its network device. -/
def BasesReady : Prop :=
  env.Found vicCore ∧ env.Found wrdioCore ∧ env.wrnDriver = true ∧
    (∀ c ∈ wrnCores, corePtr p env c ≠ 0) ∧ env.allocEtherdev = true

/-- WRC is not stuck, and a probe that gets to the end has all the base addresses. -/
def ProbeSound : Prop :=
  Reprogrammed p env →
    ¬ WrcStuck p env ∧ (WrcFits p env → GpioReady p env → EthReady env → BasesReady p env)

/-- The probe ends with an error before or in `wrn_eth_init`. -/
def Fails : Prop :=
  Reprogrammed p env →
    ¬ WrcStuck p env ∧ ¬ (WrcFits p env ∧ GpioReady p env ∧ EthReady env)

/-- The probe registers the platform device. -/
def Completes : Prop :=
  Reprogrammed p env ∧ ¬ WrcStuck p env ∧ WrcFits p env ∧ GpioReady p env ∧ EthReady env

/-! ### The end of `wrn_eth_init` -/

variable {p env}

/-- The already remapped address of a core, null when the SDB does not list it. -/
def coreBase (p : ProbeParams) (env : ProbeEnv) (c : WrnCore) : ℕ :=
  if (env.sdb c.vendor c.device).1 < 0 then 0
  else p.fpgaBase.val + (env.sdb c.vendor c.device).1.toNat

theorem coreBase_ne_zero {c : WrnCore} : coreBase p env c ≠ 0 ↔ env.Found c := by
  have hbase := p.fpgaBase.property
  rw [coreBase, ProbeEnv.Found]
  split_ifs with h
  · exact iff_of_false (not_not.mpr rfl) (not_le.mpr h)
  · exact iff_of_true (by omega) (not_lt.mp h)

theorem drvBases_eq : drvBases p env =
    ⟨coreBase p env vicCore, coreBase p env gpioCore, coreBase p env wrdioCore,
      coreBase p env ppsgCore⟩ := by
  simp only [drvBases, wrnCores2, List.foldl_cons, List.foldl_nil, coreBase]
  split_ifs <;> rfl

theorem drvBases_vicBase_ne_zero : (drvBases p env).vicBase ≠ 0 ↔ env.Found vicCore := by
  rw [drvBases_eq]
  exact coreBase_ne_zero

theorem drvBases_wrdioBase_ne_zero : (drvBases p env).wrdioBase ≠ 0 ↔ env.Found wrdioCore := by
  rw [drvBases_eq]
  exact coreBase_ne_zero

/-- The resource of a core that the SDB lists. -/
def resourceOf (p : ProbeParams) (env : ProbeEnv) (c : WrnCore) : Resource :=
  let start := p.areaStart.val + (env.sdb c.vendor c.device).1.toNat
  ⟨c.name, start, start + (env.sdb c.vendor c.device).2 - 1⟩

theorem coreResource_of_found {c : WrnCore} (h : env.Found c) :
    coreResource p env c = some (resourceOf p env c) := by
  exact if_neg (not_lt.mpr h)

theorem coreResource_of_not_found {c : WrnCore} (h : ¬ env.Found c) :
    coreResource p env c = none := by
  exact if_pos (not_le.mp h)

theorem mapM_coreResource {cores : List WrnCore} (h : ∀ c ∈ cores, env.Found c) :
    cores.mapM (coreResource p env) = some (cores.map (resourceOf p env)) := by
  induction cores with
  | nil => rfl
  | cons c cores ih =>
    rw [List.forall_mem_cons] at h
    rw [List.mapM_cons, coreResource_of_found h.1, ih h.2]
    rfl

theorem mapM_coreResource_eq_none {cores : List WrnCore} (h : ¬ ∀ c ∈ cores, env.Found c) :
    cores.mapM (coreResource p env) = none := by
  induction cores with
  | nil => exact absurd (by simp) h
  | cons c cores ih =>
    rw [List.mapM_cons]
    by_cases hc : env.Found c
    · rw [ih fun hcores => h (List.forall_mem_cons.mpr ⟨hc, hcores⟩), coreResource_of_found hc]
      rfl
    · rw [coreResource_of_not_found hc]
      rfl

theorem wrnMapResources_cons (c : WrnCore) (rest : List Resource) :
    wrnMapResources env (resourceOf p env c :: rest) =
      if corePtr p env c = 0 then none
      else (wrnMapResources env rest).map (corePtr p env c :: ·) := by
  have hstart := p.areaStart.property
  have hne : (resourceOf p env c).start ≠ 0 := by
    simp only [resourceOf]
    omega
  have hsize : (resourceOf p env c).stop + 1 - (resourceOf p env c).start =
      (env.sdb c.vendor c.device).2 := by
    simp only [resourceOf]
    omega
  rw [wrnMapResources, if_neg hne, hsize]
  rfl

theorem wrnMapResources_map {cores : List WrnCore} (h : ∀ c ∈ cores, corePtr p env c ≠ 0) :
    wrnMapResources env (cores.map (resourceOf p env)) = some (cores.map (corePtr p env)) := by
  induction cores with
  | nil => rfl
  | cons c cores ih =>
    rw [List.forall_mem_cons] at h
    rw [List.map_cons, wrnMapResources_cons, if_neg h.1, ih h.2]
    rfl

theorem wrnMapResources_map_eq_none {cores : List WrnCore}
    (h : ¬ ∀ c ∈ cores, corePtr p env c ≠ 0) :
    wrnMapResources env (cores.map (resourceOf p env)) = none := by
  induction cores with
  | nil => exact absurd (by simp) h
  | cons c cores ih =>
    rw [List.map_cons, wrnMapResources_cons]
    by_cases hc : corePtr p env c = 0
    · rw [if_pos hc]
    · rw [if_neg hc, ih fun hcores => h (List.forall_mem_cons.mpr ⟨hc, hcores⟩)]
      rfl

/-- The device between two attempts. -/
structure NicFmc.Idle (f : NicFmc) : Prop where
  irq : f.irq = false
  heap : f.heap = []
  mezzanineData : f.mezzanineData = none

/-- All the base addresses that the code of the VIC and the interrupt handlers dereference. -/
structure Pdev.BasesSet (d : Pdev) : Prop where
  vic : d.drvdata.vicBase ≠ 0
  wrdio : d.drvdata.wrdioBase ≠ 0
  nic : d.wrn.regs ≠ 0
  txtsu : d.wrn.txtsuRegs ≠ 0
  ppsg : d.wrn.ppsgRegs ≠ 0

/-- `wrn_eth_init` has allocated all, and the device has the interrupt and the platform device. -/
structure NicFmc.Registered (p : ProbeParams) (f : NicFmc) (pdev : Pdev) : Prop where
  irq : f.irq = true
  heap : f.heap = ethAllocs.reverse
  gpioChip : f.gpioChip = p.gpiolib
  mezzanineData : f.mezzanineData = some pdev

/-- The platform device that `wrn_probe` has been given. -/
theorem platformDeviceRegister_of_mapped {pdev : Pdev}
    (hres : pdev.resource = wrnCores.map (resourceOf p env)) (hwrdio : pdev.drvdata.wrdioBase ≠ 0)
    (hdriver : env.wrnDriver = true) (hmapped : ∀ c ∈ wrnCores, corePtr p env c ≠ 0)
    (hetherdev : env.allocEtherdev = true) :
    ∃ pdev', platformDeviceRegister env pdev = some pdev' ∧ pdev'.drvdata = pdev.drvdata ∧
      pdev'.wrn.regs ≠ 0 ∧ pdev'.wrn.txtsuRegs ≠ 0 ∧ pdev'.wrn.ppsgRegs ≠ 0 := by
  have hnic : (wrnCores.map (corePtr p env)).getD 0 0 ≠ 0 :=
    hmapped ⟨"NIC", _, _⟩ (by simp [wrnCores])
  have hts : (wrnCores.map (corePtr p env)).getD 3 0 ≠ 0 :=
    hmapped ⟨"Tx-Stamp", _, _⟩ (by simp [wrnCores])
  have hppsg : (wrnCores.map (corePtr p env)).getD 2 0 ≠ 0 :=
    hmapped ⟨"PPS-Gen", _, _⟩ (by simp [wrnCores])
  rw [platformDeviceRegister, hdriver, hres, wrnMapResources_map hmapped, hetherdev]
  simp only [Bool.not_true, Bool.false_eq_true, if_false, if_neg hnic, hwrdio, decide_false,
    Bool.and_false]
  exact ⟨_, rfl, rfl, hnic, hts, hppsg⟩

theorem mapped_of_platformDeviceRegister {pdev pdev' : Pdev}
    (hres : pdev.resource = wrnCores.map (resourceOf p env)) (hregs : pdev.wrn.regs = 0)
    (h : platformDeviceRegister env pdev = some pdev') :
    pdev'.drvdata = pdev.drvdata ∧ (pdev'.wrn.regs ≠ 0 → env.wrnDriver = true ∧
      (∀ c ∈ wrnCores, corePtr p env c ≠ 0) ∧ env.allocEtherdev = true) := by
  cases hdriver : env.wrnDriver with
  | false =>
    rw [platformDeviceRegister, hdriver] at h
    obtain rfl : pdev = pdev' := Option.some.inj h
    exact ⟨rfl, fun hne => absurd hregs hne⟩
  | true =>
    by_cases hmapped : ∀ c ∈ wrnCores, corePtr p env c ≠ 0
    · rw [platformDeviceRegister, hdriver, hres, wrnMapResources_map hmapped] at h
      simp only [Bool.not_true, Bool.false_eq_true, if_false] at h
      cases hetherdev : env.allocEtherdev with
      | false =>
        rw [hetherdev] at h
        split_ifs at h with hnic hmemory hdio
        exact absurd rfl hmemory
      | true =>
        refine ⟨?_, fun _ => ⟨rfl, hmapped, rfl⟩⟩
        rw [hetherdev] at h
        split_ifs at h
        rw [← Option.some.inj h]
    · rw [platformDeviceRegister, hdriver, hres, wrnMapResources_map_eq_none hmapped] at h
      exact absurd h (by simp)

theorem wrnVicInit_of_vicBase {f : NicFmc} {pdev : Pdev} (hpdev : f.mezzanineData = some pdev)
    (hvic : pdev.drvdata.vicBase ≠ 0) : ∃ vic, wrnVicInit f = some { f with vic := vic } := by
  rw [wrnVicInit, hpdev]
  exact ⟨_, if_neg hvic⟩

theorem wrnVicExit_of_vicBase {f : NicFmc} {pdev : Pdev} (hpdev : f.mezzanineData = some pdev)
    (hvic : pdev.drvdata.vicBase ≠ 0) : ∃ vic, wrnVicExit f = some { f with vic := vic } := by
  rw [wrnVicExit, hpdev]
  exact ⟨_, if_neg hvic⟩

/-- With all base addresses, the end of `wrn_eth_init` returns 0 and sets them. -/
theorem ethRegister_of_ready (h : BasesReady p env) (f : NicFmc) :
    ∃ pdev f', ethRegister p env (wrnCores.map (resourceOf p env)) f = some (0, f') ∧
      pdev.BasesSet ∧ f'.mezzanineData = some pdev ∧ f'.irq = f.irq ∧ f'.heap = f.heap ∧
      f'.gpioChip = f.gpioChip := by
  obtain ⟨hvic, hwrdio, hdriver, hmapped, hetherdev⟩ := h
  have hvic := drvBases_vicBase_ne_zero (p := p).mpr hvic
  have hwrdio := drvBases_wrdioBase_ne_zero (p := p).mpr hwrdio
  obtain ⟨pdev, hpdev, hdrv, hregs, hts, hppsg⟩ :=
    @platformDeviceRegister_of_mapped p env
      ⟨f.nextId, wrnCores.map (resourceOf p env), drvBases p env, ⟨[], 0, 0, 0⟩, false⟩
      rfl hwrdio hdriver hmapped hetherdev
  rw [show drvBases p env = pdev.drvdata from hdrv.symm] at hvic hwrdio
  obtain ⟨vic, hinit⟩ := wrnVicInit_of_vicBase (f := { f with mezzanineData := some pdev }) rfl hvic
  rw [ethRegister, hpdev]
  simp only [hinit]
  exact ⟨pdev, _, rfl, ⟨hvic, hwrdio, hregs, hts, hppsg⟩, rfl, rfl, rfl, rfl⟩

/-- The end of `wrn_eth_init` sets the base addresses only where they can be had. -/
theorem ready_of_ethRegister {f f' : NicFmc} {ret : ℤ} {pdev : Pdev}
    (h : ethRegister p env (wrnCores.map (resourceOf p env)) f = some (ret, f'))
    (hpdev : f'.mezzanineData = some pdev) (hset : pdev.BasesSet) : BasesReady p env := by
  rw [ethRegister] at h
  split at h
  · exact absurd h (by simp)
  next pdev' hregister =>
  obtain ⟨hdrv, hready⟩ := mapped_of_platformDeviceRegister rfl rfl hregister
  split at h
  · exact absurd h (by simp)
  next f'' hvic =>
  have hmezz : f''.mezzanineData = some pdev' := by
    rw [wrnVicInit] at hvic
    dsimp only at hvic
    split_ifs at hvic
    rw [← Option.some.inj hvic]
  obtain ⟨-, rfl⟩ := Prod.mk.inj (Option.some.inj h)
  obtain rfl : pdev' = pdev := Option.some.inj (hmezz.symm.trans hpdev)
  have hvicBase := hset.vic
  have hwrdio := hset.wrdio
  rw [hdrv] at hvicBase hwrdio
  exact ⟨drvBases_vicBase_ne_zero.mp hvicBase, drvBases_wrdioBase_ne_zero.mp hwrdio,
    hready hset.nic⟩

/-! ### The outcomes of the parts -/

/-- What `out_mem` frees is what has been allocated. -/
theorem foldl_erase_foldl_cons (l : List EthAlloc) (heap : List EthAlloc) :
    l.reverse.foldl (fun heap a => if env.kmalloc a then heap.erase a else heap)
      (l.foldl (fun heap a => if env.kmalloc a then a :: heap else heap) heap) = heap := by
  induction l generalizing heap with
  | nil => rfl
  | cons a l ih =>
    rw [List.reverse_cons, List.foldl_append, List.foldl_cons (l := l), ih]
    cases h : env.kmalloc a <;> simp [h]

theorem outMem_ethKmalloc {f : NicFmc} (hf : f.irq = false) :
    outMem env (ethKmalloc env { f with irq := true }) = f := by
  rw [outMem, ethKmalloc]
  dsimp only
  rw [foldl_erase_foldl_cons, ← hf]

theorem wrnEthInit_of_not_ready {f : NicFmc} (hf : f.irq = false) (h : ¬ EthReady env) :
    ∃ ret < 0, wrnEthInit p env f = some (ret, f) := by
  rw [wrnEthInit]
  by_cases hirq : env.irqRequest < 0
  · exact ⟨_, hirq, if_pos hirq⟩
  refine ⟨-enomem, by decide, ?_⟩
  rw [if_neg hirq]
  dsimp only
  by_cases halloc : ethAllocs.all env.kmalloc = true
  · have hcores : ¬ ∀ c ∈ wrnCores, env.Found c := fun hcores =>
      h ⟨not_lt.mp hirq, fun a => List.all_eq_true.mp halloc a (by cases a <;> decide), hcores⟩
    rw [halloc, mapM_coreResource_eq_none hcores, outMem_ethKmalloc hf]
    rfl
  · rw [Bool.not_eq_true] at halloc
    rw [halloc, outMem_ethKmalloc hf]
    rfl

theorem wrnEthInit_of_ready (h : EthReady env) (f : NicFmc) :
    wrnEthInit p env f = ethRegister p env (wrnCores.map (resourceOf p env))
      { f with irq := true, heap := ethAllocs.reverse ++ f.heap } := by
  obtain ⟨hirq, halloc, hcores⟩ := h
  have hall : ethAllocs.all env.kmalloc = true := List.all_eq_true.mpr fun a _ => halloc a
  have hheap : ethKmalloc env { f with irq := true } =
      { f with irq := true, heap := ethAllocs.reverse ++ f.heap } := by
    simp [ethKmalloc, ethAllocs, halloc]
  rw [wrnEthInit, if_neg (not_lt.mpr hirq), hheap]
  simp only [hall, mapM_coreResource hcores, Bool.not_true, Bool.false_eq_true, if_false]

theorem wrnGpioInit_of_ready (h : GpioReady p env) {f : NicFmc} (hf : f.gpioChip = false) :
    wrnGpioInit p env f = (0, { f with gpioChip := p.gpiolib }) := by
  rw [wrnGpioInit]
  cases hlib : p.gpiolib with
  | false => simp [← hf]
  | true =>
    obtain ⟨hgc, hadd⟩ := h hlib
    simp [hgc, not_lt.mpr hadd]

theorem wrnGpioInit_of_not_ready (h : ¬ GpioReady p env) (f : NicFmc) :
    ∃ ret < 0, wrnGpioInit p env f = (ret, f) := by
  rw [GpioReady, Classical.not_imp] at h
  obtain ⟨hlib, h⟩ := h
  rw [wrnGpioInit, hlib]
  cases hgc : env.gcKzalloc with
  | false => exact ⟨-enomem, by decide, rfl⟩
  | true =>
    have hadd : env.gpiochipAdd < 0 := not_le.mp fun hadd => h ⟨hgc, hadd⟩
    exact ⟨_, hadd, by simp [hadd]⟩

theorem wrnGpioExit_of_gpioChip {f : NicFmc} (hf : f.gpioChip = p.gpiolib) :
    wrnGpioExit p f = some { f with gpioChip := false } := by
  obtain ⟨irq, gpioChip, heap, mezzanineData, nextId, vic, syscon, ram⟩ := f
  obtain rfl : gpioChip = p.gpiolib := hf
  rw [wrnGpioExit]
  cases p.gpiolib <;> rfl

theorem wrnWrc_of_stuck (h : WrcStuck p env) (ret : ℤ) (f : NicFmc) :
    ∃ syscon, wrnWrc p env ret f = (some ret, { f with syscon := syscon }) := by
  obtain ⟨hneed, h⟩ := h
  rw [wrnWrc, hneed]
  simp only [Bool.not_true, Bool.false_eq_true, if_false]
  by_cases hsdb : ((ramOf env).1 < 0 || sysconOf env < 0) = true
  · exact ⟨f.syscon, if_pos hsdb⟩
  · have htime : env.lm32TimedOut = true := by
      simp only [Bool.or_eq_true, decide_eq_true_eq, not_or] at hsdb
      exact (h.resolve_left hsdb.1).resolve_left hsdb.2
    rw [if_neg hsdb, if_pos htime]
    exact ⟨_, rfl⟩

theorem wrnLoadWrc_of_fits {name : String} {ramsize : ℕ}
    (h : (env.requestFirmware name).ret.val = 0 ∧ (env.requestFirmware name).size ≤ ramsize)
    (f : NicFmc) : ∃ ram, wrnLoadWrc env name ramsize f = (0, { f with ram := ram }) := by
  rw [wrnLoadWrc]
  rw [h.1, if_neg (lt_irrefl 0), if_neg (not_lt.mpr h.2)]
  exact ⟨_, rfl⟩

theorem wrnLoadWrc_of_not_fits {name : String} {ramsize : ℕ}
    (h : ¬ ((env.requestFirmware name).ret.val = 0 ∧ (env.requestFirmware name).size ≤ ramsize))
    (f : NicFmc) : ∃ ret < 0, wrnLoadWrc env name ramsize f = (ret, f) := by
  rw [wrnLoadWrc]
  rcases lt_or_eq_of_le (env.requestFirmware name).ret.property with hneg | hzero
  · exact ⟨_, hneg, if_pos hneg⟩
  · have hsize : ramsize < (env.requestFirmware name).size := not_le.mp fun hle => h ⟨hzero, hle⟩
    rw [hzero, if_neg (lt_irrefl 0), if_pos hsize]
    exact ⟨-enomem, by decide, rfl⟩

theorem wrnWrc_of_not_stuck (h : ¬ WrcStuck p env) (ret : ℤ) (f : NicFmc) :
    ∃ syscon ram, (WrcFits p env ∧
        wrnWrc p env ret f = (none, { f with syscon := syscon, ram := ram })) ∨
      (¬ WrcFits p env ∧ ∃ ret' < 0,
        wrnWrc p env ret f = (some ret', { f with syscon := syscon, ram := ram })) := by
  rw [wrnWrc]
  cases hneed : needWrc p env with
  | false =>
    exact ⟨f.syscon, f.ram, .inl ⟨fun hneed' => absurd (hneed'.symm.trans hneed) (by decide), rfl⟩⟩
  | true =>
    have hsdb : ((ramOf env).1 < 0 || sysconOf env < 0) = false := by
      simp only [Bool.or_eq_false_iff, decide_eq_false_iff_not]
      exact ⟨fun hram => h ⟨hneed, .inl hram⟩, fun hsys => h ⟨hneed, .inr (.inl hsys)⟩⟩
    have htime : env.lm32TimedOut = false :=
      Bool.eq_false_iff.mpr fun htime => h ⟨hneed, .inr (.inr htime)⟩
    simp only [hsdb, htime, Bool.not_true, Bool.false_eq_true, if_false]
    by_cases hfits : (env.requestFirmware (wrcName p)).ret.val = 0 ∧
        (env.requestFirmware (wrcName p)).size ≤ (ramOf env).2
    · obtain ⟨ram, hload⟩ := wrnLoadWrc_of_fits hfits { f with syscon := 0x1deadbee }
      rw [hload]
      exact ⟨_, _, .inl ⟨fun _ => hfits, rfl⟩⟩
    · obtain ⟨ret', hneg, hload⟩ := wrnLoadWrc_of_not_fits hfits { f with syscon := 0x1deadbee }
      rw [hload]
      exact ⟨_, f.ram, .inr ⟨fun h => hfits (h hneed), ret', hneg, if_pos hneg.ne⟩⟩

/-! ### The outcomes of a probe -/

theorem probeDevices_of_not_ready {f : NicFmc} (hf : f.Idle) (hgc : f.gpioChip = false)
    (h : ¬ (GpioReady p env ∧ EthReady env)) :
    ∃ ret < 0, probeDevices p env f = some (ret, f) := by
  rw [probeDevices]
  by_cases hgpio : GpioReady p env
  · obtain ⟨ret, hneg, heth⟩ := wrnEthInit_of_not_ready (p := p)
      (f := { f with gpioChip := p.gpiolib }) hf.irq fun heth => h ⟨hgpio, heth⟩
    refine ⟨ret, hneg, ?_⟩
    rw [wrnGpioInit_of_ready hgpio hgc]
    simp only [heth, lt_irrefl, if_false, if_pos hneg]
    rw [wrnGpioExit_of_gpioChip rfl, ← hgc]
    rfl
  · obtain ⟨ret, hneg, hinit⟩ := wrnGpioInit_of_not_ready hgpio f
    refine ⟨ret, hneg, ?_⟩
    rw [hinit]
    exact if_pos hneg

theorem ret_of_ethRegister {resource : List Resource} {f f' : NicFmc} {ret : ℤ}
    (h : ethRegister p env resource f = some (ret, f')) : ret = 0 := by
  rw [ethRegister] at h
  split at h
  · exact absurd h (by simp)
  split at h
  · exact absurd h (by simp)
  · exact (Prod.mk.inj (Option.some.inj h)).1.symm

theorem probeDevices_of_ready (hgpio : GpioReady p env) (heth : EthReady env) {f : NicFmc}
    (hgc : f.gpioChip = false) :
    probeDevices p env f = ethRegister p env (wrnCores.map (resourceOf p env))
      { f with
        gpioChip := p.gpiolib
        irq := true
        heap := ethAllocs.reverse ++ f.heap } := by
  rw [probeDevices, wrnGpioInit_of_ready hgpio hgc]
  simp only [lt_irrefl, if_false, wrnEthInit_of_ready heth]
  split
  · next h => rw [h]
  · next ret f' h => rw [h, ret_of_ethRegister h, if_neg (lt_irrefl 0)]

theorem wrnFmcProbe_of_out (h : Reprogrammed p env) {f f' : NicFmc} {ret : ℤ}
    (hwrc : wrnWrc p env (env.reprogram (gatewareName p)) { f with gpioChip := false } =
      (some ret, f')) : wrnFmcProbe p env f = some (ret, f') := by
  obtain ⟨hvalidate, hdd, hret⟩ := h
  rw [wrnFmcProbe, if_neg (not_lt.mpr hvalidate), hdd]
  simp only [Bool.not_true, Bool.false_eq_true, if_false, if_neg (not_lt.mpr hret), hwrc]

theorem wrnFmcProbe_of_wrc (h : Reprogrammed p env) {f f' : NicFmc}
    (hwrc : wrnWrc p env (env.reprogram (gatewareName p)) { f with gpioChip := false } =
      (none, f')) : wrnFmcProbe p env f = probeDevices p env f' := by
  obtain ⟨hvalidate, hdd, hret⟩ := h
  rw [wrnFmcProbe, if_neg (not_lt.mpr hvalidate), hdd]
  simp only [Bool.not_true, Bool.false_eq_true, if_false, if_neg (not_lt.mpr hret), hwrc]

/-- A probe that fails has an error and leaves nothing behind. -/
theorem wrnFmcProbe_of_fails {f : NicFmc} (hf : f.Idle) (h : Fails p env) :
    ∃ ret < 0, ∃ f', wrnFmcProbe p env f = some (ret, f') ∧ f'.Idle := by
  have hidle (syscon : BitVec 32) (ram : ℕ → BitVec 32) :
      ({ f with gpioChip := false, syscon := syscon, ram := ram } : NicFmc).Idle :=
    ⟨hf.irq, hf.heap, hf.mezzanineData⟩
  by_cases hrep : Reprogrammed p env
  · obtain ⟨hstuck, hfails⟩ := h hrep
    obtain ⟨syscon, ram, ⟨hfits, hwrc⟩ | ⟨-, ret, hneg, hwrc⟩⟩ := wrnWrc_of_not_stuck hstuck
      (env.reprogram (gatewareName p)) { f with gpioChip := false }
    · obtain ⟨ret, hneg, hdev⟩ := probeDevices_of_not_ready (hidle syscon ram) rfl
        fun hready => hfails ⟨hfits, hready⟩
      exact ⟨ret, hneg, _, (wrnFmcProbe_of_wrc hrep hwrc).trans hdev, hidle syscon ram⟩
    · exact ⟨ret, hneg, _, wrnFmcProbe_of_out hrep hwrc, hidle syscon ram⟩
  · rw [wrnFmcProbe]
    by_cases hvalidate : env.validate < 0
    · exact ⟨-enodev, by decide, f, if_pos hvalidate, hf⟩
    rw [if_neg hvalidate]
    cases hdd : env.ddKzalloc with
    | false => exact ⟨-enomem, by decide, f, rfl, hf⟩
    | true =>
      have hret : env.reprogram (gatewareName p) < 0 :=
        not_le.mp fun hret => hrep ⟨not_lt.mp hvalidate, hdd, hret⟩
      refine ⟨_, ?_, _, if_pos hret, hidle f.syscon f.ram⟩
      split_ifs
      · decide
      · exact hret

/-- A probe that is stuck loading WRC returns no error, and there is no platform device. -/
theorem wrnFmcProbe_of_stuck {f : NicFmc} (hf : f.Idle) (hrep : Reprogrammed p env)
    (hstuck : WrcStuck p env) :
    ∃ ret ≥ 0, ∃ f', wrnFmcProbe p env f = some (ret, f') ∧ f'.mezzanineData = none := by
  obtain ⟨syscon, hwrc⟩ := wrnWrc_of_stuck hstuck (env.reprogram (gatewareName p))
    { f with gpioChip := false }
  exact ⟨_, hrep.2.2, _, wrnFmcProbe_of_out hrep hwrc, hf.mezzanineData⟩

/-- Any other probe ends like `wrn_eth_init`, which has the interrupt and all allocations. -/
theorem wrnFmcProbe_of_completes {f : NicFmc} (hf : f.Idle) (h : Completes p env) :
    ∃ f', wrnFmcProbe p env f = ethRegister p env (wrnCores.map (resourceOf p env)) f' ∧
      f'.irq = true ∧ f'.heap = ethAllocs.reverse ∧ f'.gpioChip = p.gpiolib := by
  obtain ⟨hrep, hstuck, hfits, hgpio, heth⟩ := h
  obtain ⟨syscon, ram, ⟨-, hwrc⟩ | ⟨hnot, -⟩⟩ := wrnWrc_of_not_stuck hstuck
    (env.reprogram (gatewareName p)) { f with gpioChip := false }
  · rw [wrnFmcProbe_of_wrc hrep hwrc]
    refine ⟨_, probeDevices_of_ready hgpio heth rfl, rfl, ?_, rfl⟩
    rw [hf.heap, List.append_nil]
  · exact absurd hfits hnot

/-! ### The removal -/

theorem wrnFmcRemove_of_registered {f : NicFmc} {pdev : Pdev} (hf : f.Registered p pdev)
    (hset : pdev.BasesSet) : ∃ f', wrnFmcRemove p f = some f' ∧ f'.Idle := by
  obtain ⟨vic, hexit⟩ := wrnVicExit_of_vicBase hf.mezzanineData hset.vic
  have hunreg : platformDeviceUnregister pdev = some { pdev with bound := false } := by
    rw [platformDeviceUnregister]
    simp [hset.nic, hset.wrdio]
  have hheap : ethAllocs.reverse.foldl List.erase f.heap = [] := by
    rw [hf.heap]
    decide
  rw [wrnFmcRemove, wrnEthExit, hexit]
  simp only [hf.mezzanineData, hunreg]
  exact ⟨_, wrnGpioExit_of_gpioChip hf.gpioChip, rfl, hheap, rfl⟩

/-! ### Attempts -/

/-- The probe dereferences no null pointer. When it returns a value that is not negative, the
platform device is set with all base addresses, and the removal dereferences no null pointer and
leaves nothing behind; when it returns an error, the interrupt and all allocations of
`wrn_eth_init` have been released. -/
def Matched (p : ProbeParams) (env : ProbeEnv) (f : NicFmc) : Prop :=
  ∃ ret f', wrnFmcProbe p env f = some (ret, f') ∧
    (0 ≤ ret → (∃ pdev, f'.mezzanineData = some pdev ∧ pdev.BasesSet) ∧
      ∃ f'', wrnFmcRemove p f' = some f'' ∧ f''.Idle) ∧
    (ret < 0 → f'.irq = false ∧ f'.heap = [])

/-- A sound probe from an idle device matches its removal, and the attempt leaves the device
idle. -/
theorem matched_of_sound {f : NicFmc} (hf : f.Idle) (h : ProbeSound p env) :
    Matched p env f ∧ ∃ f', attempt p (some f) env = some f' ∧ f'.Idle := by
  by_cases hfails : Fails p env
  · obtain ⟨ret, hneg, f', hprobe, hidle⟩ := wrnFmcProbe_of_fails hf hfails
    refine ⟨⟨ret, f', hprobe, fun hle => absurd hle (not_le.mpr hneg), fun _ =>
      ⟨hidle.irq, hidle.heap⟩⟩, f', ?_, hidle⟩
    simp only [attempt, hprobe, if_neg (not_le.mpr hneg)]
  · rw [Fails, Classical.not_imp] at hfails
    obtain ⟨hrep, hfails⟩ := hfails
    obtain ⟨hstuck, hbases⟩ := h hrep
    obtain ⟨hfits, hgpio, heth⟩ := not_not.mp fun hready => hfails ⟨hstuck, hready⟩
    obtain ⟨f₁, hprobe, hirq, hheap, hgc⟩ :=
      wrnFmcProbe_of_completes hf ⟨hrep, hstuck, hfits, hgpio, heth⟩
    obtain ⟨pdev, f', hreg, hset, hmezz, hirq', hheap', hgc'⟩ :=
      ethRegister_of_ready (hbases hfits hgpio heth) f₁
    have hregistered : f'.Registered p pdev :=
      ⟨hirq'.trans hirq, hheap'.trans hheap, hgc'.trans hgc, hmezz⟩
    obtain ⟨f'', hremove, hidle⟩ := wrnFmcRemove_of_registered hregistered hset
    rw [hreg] at hprobe
    refine ⟨⟨0, f', hprobe, fun _ => ⟨⟨pdev, hmezz, hset⟩, f'', hremove, hidle⟩, fun hneg =>
      absurd hneg (lt_irrefl 0)⟩, f'', ?_, hidle⟩
    simp only [attempt, hprobe, le_refl, if_true, hremove]

theorem sound_of_matched {f : NicFmc} (hf : f.Idle) (h : Matched p env f) : ProbeSound p env := by
  obtain ⟨ret, f', hprobe, hpos, -⟩ := h
  intro hrep
  have hstuck : ¬ WrcStuck p env := by
    intro hstuck
    obtain ⟨ret', hge, f'', hprobe', hnone⟩ := wrnFmcProbe_of_stuck hf hrep hstuck
    obtain ⟨rfl, rfl⟩ := Prod.mk.inj (Option.some.inj (hprobe.symm.trans hprobe'))
    obtain ⟨⟨pdev, hmezz, -⟩, -⟩ := hpos hge
    exact absurd (hnone.symm.trans hmezz) (by simp)
  refine ⟨hstuck, fun hfits hgpio heth => ?_⟩
  obtain ⟨f₁, hcompletes, -⟩ := wrnFmcProbe_of_completes hf ⟨hrep, hstuck, hfits, hgpio, heth⟩
  rw [hcompletes] at hprobe
  obtain rfl := ret_of_ethRegister hprobe
  obtain ⟨⟨pdev, hmezz, hset⟩, -⟩ := hpos le_rfl
  exact ready_of_ethRegister hprobe hmezz hset

/-- The attempt finds a device and its probe matches the removal. -/
def MatchedStep (p : ProbeParams) (s : Option NicFmc) (env : ProbeEnv) : Prop :=
  ∃ f, s = some f ∧ Matched p env f

/-- **Probe and removal match.** Along the attempts from an idle device, they match at every one
exactly when every probe is sound. -/
theorem matched_along_iff (p : ProbeParams) {f : NicFmc} (hf : f.Idle) (envs : List ProbeEnv) :
    Along (attempt p) (MatchedStep p) (some f) envs ↔ ∀ env ∈ envs, ProbeSound p env := by
  rw [← along_const_iff (attempt p)]
  refine along_iff_along (I := fun s => ∃ f, s = some f ∧ f.Idle) ⟨f, rfl, hf⟩ ?_ ?_ envs
  · rintro _ env ⟨f, rfl, hf⟩ hsound
    exact (matched_of_sound hf hsound).2
  · rintro _ env ⟨f, rfl, hf⟩
    constructor
    · rintro ⟨_, heq, hmatched⟩
      obtain rfl := Option.some.inj heq
      exact sound_of_matched hf hmatched
    · exact fun hsound => ⟨f, rfl, (matched_of_sound hf hsound).1⟩

/-- A device before its first probe. -/
def newFmc : NicFmc := ⟨false, false, [], none, 0, ⟨fun _ => 0, 0, 0⟩, 0, fun _ => 0⟩

/-- The cores of the gateware, without or with the system controller. -/
def gatewareSdb (hasSyscon : Bool) : Sdb := fun vendor device =>
  if vendor = sdb7sol then (0x62300, 0x100)
  else if device = wrnSdbRam then (0, 0x20000)
  else if device = wrnSdbSyscon && !hasSyscon then (-enodev, 0)
  else (0x20400, 0x100)

/-- A probe in which everything that is asked for succeeds. -/
def goodProbe (hasSyscon : Bool) : ProbeEnv where
  validate := 0
  ddKzalloc := true
  reprogram := fun _ => 0
  sdb := gatewareSdb hasSyscon
  ramWord := 0x98000000
  lm32TimedOut := false
  requestFirmware := fun _ => ⟨⟨0, Int.le_refl 0⟩, 4, fun _ => 0⟩
  gcKzalloc := true
  gpiochipAdd := 0
  irqRequest := 0
  kmalloc := fun _ => true
  wrnDriver := true
  ioremap := fun start _ => start
  allocEtherdev := true
  wrnEndpoint := true
  dioKzalloc := true

/-- The parameters when the user has asked for a WRC file. -/
def userWrc : ProbeParams where
  gwN := 0
  wrnFilename := wrnGatewareDefaultName
  wrnWrcFilename := "wrc.bin"
  gpiolib := true
  fpgaBase := ⟨1, by decide⟩
  areaStart := ⟨1, by decide⟩

theorem matched_good_good :
    Along (attempt userWrc) (MatchedStep userWrc) (some newFmc)
      [goodProbe true, goodProbe true] := by
  refine (matched_along_iff userWrc (f := newFmc) ⟨rfl, rfl, rfl⟩ _).mpr ?_
  have hsound : ProbeSound userWrc (goodProbe true) := by
    refine fun _ => ⟨fun h => ?_, fun _ _ _ => ⟨?_, ?_, rfl, ?_, rfl⟩⟩
    · exact absurd h.2 (by decide)
    · show 0 ≤ ((gatewareSdb true) _ _).1
      decide
    · show 0 ≤ ((gatewareSdb true) _ _).1
      decide
    · decide
  simp [hsound]

/-- Without a system controller the file that the user has asked for is not loaded; the probe
returns the 0 of `fmc_reprogram`, and there is no platform device. -/
theorem not_forall_matched :
    ¬ ∀ (p : ProbeParams) (f : NicFmc), f.Idle → ∀ envs,
      Along (attempt p) (MatchedStep p) (some f) envs := by
  intro h
  obtain ⟨⟨f, heq, hmatched⟩, -⟩ := h userWrc newFmc ⟨rfl, rfl, rfl⟩ [goodProbe false]
  obtain rfl := Option.some.inj heq
  have hsound := sound_of_matched ⟨rfl, rfl, rfl⟩ hmatched
  exact (hsound ⟨by decide, rfl, by decide⟩).1 ⟨by decide, .inr (.inl (by decide))⟩

end Outcomes

end SpecSw.Nic
