import SpecSw.Kernel
import SpecSw.Library.Run

/-!
# Binding and unbinding `wrn_driver`

The platform device of the NIC can be bound to `wrn_driver` and unbound from it any number of
times. `wrn_probe` maps the four cores, allocates and registers the network device and calls
`wrn_mezzanine_init`; `wrn_remove`, which it also calls on some of its error paths, gives all of it
back. Meanwhile the two interrupt handlers look at the base addresses.

What a pointer points to has an id that is used once, so a pointer to what has been given back can
be told from a valid one; an access through such a pointer or through a null pointer is a fault, and
so is giving something back twice.

No error path of `wrn_probe` gives everything back. The pointers are not cleared on removal, so what
is valid after an unbound device has been bound again depends on what succeeds then, and no
interrupt may come in between.

## Main definitions

* `Nic.BindEnv`, `Nic.WrnPlatform`, with `wrnMap`, `wrnRemove`, `wrnPlatformProbe` and `step`.
* `Nic.WrnPlatform.Balanced`, `Nic.WrnPlatform.Fits`.

## Main results

* `Nic.WrnPlatform.balanced_throughout_iff`.
-/

namespace SpecSw.Nic

open EventRun Errno

/-! ### The platform driver -/

/-- `enum fpga_blocks`. -/
inductive FpgaBlock
  | nic
  | ep
  | ppsg
  | ts
  deriving DecidableEq

/-- The blocks in the order of the resources. -/
def fpgaBlocks : List FpgaBlock := [.nic, .ep, .ppsg, .ts]

/-- `WRN_EP_MAGIC`. -/
def wrnEpMagic : BitVec 32 := 0xcafebabe

/-- What `wrn_probe` gets from outside: which cores `ioremap` maps, whether `alloc_etherdev` and the
`kzalloc` of `wrn_mezzanine_init` find memory, the identification of the endpoint, and what
`register_netdev` returns. -/
structure BindEnv where
  ioremap : FpgaBlock → Bool
  allocEtherdev : Bool
  idcode : BitVec 32
  registerNetdev : ℤ
  kzalloc : Bool

/-- All that `wrn_probe` cannot do without succeeds. -/
structure BindEnv.Works (env : BindEnv) : Prop where
  ioremap : ∀ b, env.ioremap b = true
  allocEtherdev : env.allocEtherdev = true
  idcode : env.idcode = wrnEpMagic
  registerNetdev : env.registerNetdev = 0

/-- `struct wrn_dev` and `mezzanine_data` as far as they point to something, a null pointer being
`none`; then what is mapped and allocated, the next id, whether the device is bound, and whether
there has been a fault. -/
structure WrnPlatform where
  bases : FpgaBlock → Option ℕ
  regs : Option ℕ
  txtsuRegs : Option ℕ
  dev : Option ℕ
  mezzanineData : Option ℕ
  mapped : List ℕ
  netdevs : List ℕ
  dios : List ℕ
  fresh : ℕ
  bound : Bool
  faulted : Bool

/-- What can happen: the device is bound or unbound; `wrn_handler` calls `wrn_interrupt` or
`wrn_tstamp_interrupt`. -/
inductive PlatformEvent
  | bind (env : BindEnv)
  | unbind
  | nicInterrupt
  | tstampInterrupt

namespace WrnPlatform

/-- Once `wrn_eth_init` has allocated the structures, which are 0. -/
def start : WrnPlatform :=
  ⟨fun _ => none, none, none, none, none, [], [], [], 0, false, false⟩

/-- A register can be accessed. -/
def live (s : WrnPlatform) : Option ℕ → Bool
  | none => false
  | some m => s.mapped.contains m

/-- `__wrn_map_resources`: whether all has been mapped. -/
def wrnMap (env : BindEnv) : List FpgaBlock → WrnPlatform → Bool × WrnPlatform
  | [], s => (true, s)
  | b :: blocks, s =>
    if env.ioremap b then
      wrnMap env blocks { s with
        bases := Function.update s.bases b (some s.fresh)
        mapped := s.fresh :: s.mapped
        fresh := s.fresh + 1 }
    else (false, s)

/-- `iounmap` for the bases that are not null. -/
def wrnUnmap : List FpgaBlock → WrnPlatform → WrnPlatform
  | [], s => s
  | b :: blocks, s =>
    match s.bases b with
    | none => wrnUnmap blocks s
    | some m =>
      wrnUnmap blocks
        { s with mapped := s.mapped.erase m, faulted := s.faulted || !s.mapped.contains m }

/-- `wrn_mezzanine_exit`: `mezzanine_data` is not cleared. -/
def mezzanineExit (s : WrnPlatform) : WrnPlatform :=
  match s.mezzanineData with
  | none => s
  | some d => { s with dios := s.dios.erase d, faulted := s.faulted || !s.dios.contains d }

/-- `wrn_remove`. -/
def wrnRemove (s : WrnPlatform) : WrnPlatform :=
  let s := { s with faulted := s.faulted || !s.live s.regs } -- stop any transmission
  let s :=
    match s.dev with
    | none => s
    | some n =>
      let s := s.mezzanineExit
      -- `wrn_endpoint_remove` disables the endpoint
      { s with
        netdevs := s.netdevs.erase n
        dev := none
        faulted := s.faulted || !s.live (s.bases .ep) }
  wrnUnmap fpgaBlocks s

/-- `wrn_mezzanine_init`: without memory `mezzanine_data` stays as it is. -/
def mezzanineInit (env : BindEnv) (s : WrnPlatform) : WrnPlatform :=
  if env.kzalloc then
    { s with mezzanineData := some s.fresh, dios := s.fresh :: s.dios, fresh := s.fresh + 1 }
  else s

/-- `wrn_probe`, with `wrn_endpoint_probe` for the only endpoint. -/
def wrnPlatformProbe (env : BindEnv) (s : WrnPlatform) : ℤ × WrnPlatform :=
  match wrnMap env fpgaBlocks s with
  | (false, s) => (-enomem, s.wrnRemove)
  | (true, s) =>
    let s := { s with
      regs := s.bases .nic
      txtsuRegs := s.bases .ts
      dev := none }
    -- `netdev->dev.parent` is set before the pointer is checked
    if !env.allocEtherdev then (-enomem, { s with faulted := true })
    else
      let n := s.fresh
      let s := { s with netdevs := n :: s.netdevs, fresh := n + 1 }
      if env.idcode ≠ wrnEpMagic then (-enodev, s) -- no endpoints
      else if env.registerNetdev ≠ 0 then
        (if env.registerNetdev = -enodev then -eio else env.registerNetdev, s.wrnRemove)
      else (0, { s with dev := some n }.mezzanineInit env)

/-- Each event. The device is bound if `wrn_probe` returns 0. -/
def step (s : WrnPlatform) : PlatformEvent → WrnPlatform
  | .bind env =>
    if s.bound then s
    else
      let (ret, s) := s.wrnPlatformProbe env
      { s with bound := ret == 0 }
  | .unbind => if s.bound then { s.wrnRemove with bound := false } else s
  | .nicInterrupt => { s with faulted := s.faulted || !s.live s.regs }
  | .tstampInterrupt =>
    match s.txtsuRegs with
    | none => s -- early interrupt?
    | some _ => { s with faulted := s.faulted || !s.live s.txtsuRegs }

/-! ### What is to hold -/

/-- There has been no fault; an unbound device has nothing mapped or allocated; and
`mezzanine_data` of a bound one can be used, unless it is null. -/
structure Balanced (s : WrnPlatform) : Prop where
  faulted : s.faulted = false
  unbound : s.bound = false → s.mapped = [] ∧ s.netdevs = [] ∧ s.dios = []
  mezzanine : s.bound = true → ∀ d, s.mezzanineData = some d → d ∈ s.dios

/-- A device is bound only if all succeeds, the memory for `mezzanine_data` too if that is not null
from an earlier time; and there are interrupts only while it is bound, that of the time stamps also
before the first time. -/
def Fits (s : WrnPlatform) : PlatformEvent → Prop
  | .bind env => s.bound = false → env.Works ∧ (env.kzalloc = true ∨ s.mezzanineData = none)
  | .unbind => True
  | .nicInterrupt => s.bound = true
  | .tstampInterrupt => s.bound = true ∨ s.txtsuRegs = none

/-! ### Mapping and unmapping -/

variable {s : WrnPlatform} {env : BindEnv}

/-- The place of a block among the resources. -/
def place : FpgaBlock → ℕ
  | .nic => 0
  | .ep => 1
  | .ppsg => 2
  | .ts => 3

theorem wrnMap_works (h : ∀ b, env.ioremap b = true) (s : WrnPlatform) :
    wrnMap env fpgaBlocks s = (true, { s with
      bases := fun b => some (s.fresh + place b)
      mapped := [s.fresh + 3, s.fresh + 2, s.fresh + 1, s.fresh] ++ s.mapped
      fresh := s.fresh + 4 }) := by
  simp only [wrnMap, fpgaBlocks, h, if_true]
  congr 2
  funext b
  cases b <;> simp [place]

/-- What has been mapped since is new. -/
theorem wrnMap_frame (blocks : List FpgaBlock) (s : WrnPlatform) :
    (wrnMap env blocks s).2.regs = s.regs ∧ (wrnMap env blocks s).2.dev = s.dev ∧
      ∀ m ∈ (wrnMap env blocks s).2.mapped, m ∈ s.mapped ∨ s.fresh ≤ m := by
  induction blocks generalizing s with
  | nil => exact ⟨rfl, rfl, fun m hm => .inl hm⟩
  | cons b blocks ih =>
    rw [wrnMap]
    split_ifs
    · obtain ⟨hregs, hdev, hmapped⟩ := ih { s with
        bases := Function.update s.bases b (some s.fresh)
        mapped := s.fresh :: s.mapped
        fresh := s.fresh + 1 }
      refine ⟨hregs, hdev, fun m hm => ?_⟩
      rcases hmapped m hm with hold | hnew
      · rcases List.mem_cons.mp hold with rfl | hold
        · exact .inr le_rfl
        · exact .inl hold
      · exact .inr (Nat.le_of_succ_le hnew)
    · exact ⟨rfl, rfl, fun m hm => .inl hm⟩

theorem wrnMap_fails {b : FpgaBlock} (h : env.ioremap b = false) (s : WrnPlatform) :
    (wrnMap env fpgaBlocks s).1 = false := by
  cases b <;> simp only [wrnMap, fpgaBlocks] <;> split_ifs <;> simp_all

theorem wrnUnmap_frame (blocks : List FpgaBlock) (s : WrnPlatform) :
    (wrnUnmap blocks s).netdevs = s.netdevs ∧
      (s.faulted = true → (wrnUnmap blocks s).faulted = true) := by
  induction blocks generalizing s with
  | nil => exact ⟨rfl, id⟩
  | cons b blocks ih =>
    rw [wrnUnmap]
    split
    · exact ih s
    · rename_i m _
      obtain ⟨hnetdevs, hfaulted⟩ := ih
        { s with mapped := s.mapped.erase m, faulted := s.faulted || !s.mapped.contains m }
      exact ⟨hnetdevs, fun h => hfaulted (by simp [h])⟩

/-! ### The two states of a device -/

/-- Nothing is mapped or allocated; the registers may have been mapped before. -/
structure Unbound (s : WrnPlatform) : Prop where
  bound : s.bound = false
  mapped : s.mapped = []
  netdevs : s.netdevs = []
  dios : s.dios = []
  regs_lt : ∀ m, s.regs = some m → m < s.fresh

/-- All four cores are mapped, from the id `m` on, and the network device is `n`. -/
structure BoundTo (m n : ℕ) (s : WrnPlatform) : Prop where
  bound : s.bound = true
  bases : s.bases = fun b => some (m + place b)
  regs : s.regs = some m
  txtsuRegs : s.txtsuRegs = some (m + 3)
  dev : s.dev = some n
  mapped : s.mapped = [m + 3, m + 2, m + 1, m]
  netdevs : s.netdevs = [n]
  dios : s.dios = s.mezzanineData.toList
  regs_lt : m < s.fresh

/-- There has been no fault, and the device is in one of the two states. -/
structure Steady (s : WrnPlatform) : Prop where
  faulted : s.faulted = false
  state : s.Unbound ∨ ∃ m n, s.BoundTo m n

theorem steady_start : Steady start :=
  ⟨rfl, .inl ⟨rfl, rfl, rfl, rfl, fun _ h => absurd h (by simp [start])⟩⟩

theorem Steady.balanced (h : s.Steady) : s.Balanced := by
  rcases h.state with hoff | ⟨m, n, hon⟩
  · exact ⟨h.faulted, fun _ => ⟨hoff.mapped, hoff.netdevs, hoff.dios⟩,
      fun hbound => absurd (hoff.bound.symm.trans hbound) Bool.false_ne_true⟩
  · refine ⟨h.faulted, fun hbound => absurd (hon.bound.symm.trans hbound) (by decide),
      fun _ d hd => ?_⟩
    rw [hon.dios, hd]
    exact List.mem_singleton.mpr rfl

/-- The four cores are unmapped. -/
theorem wrnUnmap_of_mapped {m : ℕ} (hbases : s.bases = fun b => some (m + place b))
    (hmapped : s.mapped = [m + 3, m + 2, m + 1, m]) (hfaulted : s.faulted = false) :
    wrnUnmap fpgaBlocks s = { s with mapped := [] } := by
  simp [wrnUnmap, fpgaBlocks, hbases, hmapped, hfaulted, place]

/-- `mezzanine_data` is freed where it is not null. -/
theorem mezzanineExit_of_dios (hdios : s.dios = s.mezzanineData.toList)
    (hfaulted : s.faulted = false) : s.mezzanineExit = { s with dios := [] } := by
  rw [mezzanineExit]
  split
  · rename_i hnone
    rw [hnone] at hdios
    rw [← show s.dios = [] from hdios]
  · rename_i d hsome
    have hone : s.dios = [d] := by rw [hdios, hsome]; rfl
    simp [hone, hfaulted]

/-- A bound device is given back whole. -/
theorem BoundTo.remove {m n : ℕ} (h : BoundTo m n s) (hfaulted : s.faulted = false) :
    { s.wrnRemove with bound := false }.Steady := by
  have hregs : s.live s.regs = true := by simp [live, h.regs, h.mapped]
  have hep (t : WrnPlatform) (ht : t.mapped = s.mapped) : t.live (s.bases .ep) = true := by
    simp [live, ht, h.bases, h.mapped, place]
  have hremove : s.wrnRemove = { s with mapped := [], netdevs := [], dev := none, dios := [] } := by
    have hstop : { s with faulted := s.faulted || !s.live s.regs } = s := by
      rw [hregs, Bool.not_true, Bool.or_false]
    have hunmap := wrnUnmap_of_mapped (s := { s with dev := none, netdevs := [], dios := [] })
      h.bases h.mapped hfaulted
    rw [wrnRemove, hstop]
    simp only [h.dev, mezzanineExit_of_dios h.dios hfaulted]
    rw [hep { s with dev := some n, dios := [] } rfl, h.netdevs, List.erase_cons_head,
      Bool.not_true, Bool.or_false]
    exact hunmap
  rw [hremove]
  refine ⟨hfaulted, .inl ⟨rfl, rfl, rfl, rfl, fun k hk => ?_⟩⟩
  rw [h.regs] at hk
  exact Option.some.inj hk ▸ h.regs_lt

/-- A probe for which all succeeds. -/
theorem Unbound.probe_of_works (h : s.Unbound) (hworks : env.Works) :
    s.wrnPlatformProbe env = (0, { s with
      bases := fun b => some (s.fresh + place b)
      regs := some s.fresh
      txtsuRegs := some (s.fresh + 3)
      dev := some (s.fresh + 4)
      mapped := [s.fresh + 3, s.fresh + 2, s.fresh + 1, s.fresh]
      netdevs := [s.fresh + 4]
      fresh := s.fresh + 5 }.mezzanineInit env) := by
  rw [wrnPlatformProbe, wrnMap_works hworks.ioremap]
  simp [hworks.allocEtherdev, hworks.idcode, hworks.registerNetdev, h.mapped, h.netdevs, place]

/-- An unbound device is bound when all succeeds. -/
theorem Unbound.bind (h : s.Unbound) (hfaulted : s.faulted = false) (hworks : env.Works)
    (hmezz : env.kzalloc = true ∨ s.mezzanineData = none) : (s.step (.bind env)).Steady := by
  simp only [step, h.bound, Bool.false_eq_true, if_false, h.probe_of_works hworks,
    mezzanineInit]
  cases hkzalloc : env.kzalloc with
  | true =>
    refine ⟨hfaulted, .inr ⟨s.fresh, s.fresh + 4, rfl, rfl, rfl, rfl, rfl, rfl, rfl, ?_, ?_⟩⟩
    · simp [h.dios]
    · exact (by omega : s.fresh < s.fresh + 5 + 1)
  | false =>
    have hnone : s.mezzanineData = none := hmezz.resolve_left (by simp [hkzalloc])
    refine ⟨hfaulted, .inr ⟨s.fresh, s.fresh + 4, rfl, rfl, rfl, rfl, rfl, rfl, rfl, ?_, ?_⟩⟩
    · simp [h.dios, hnone]
    · exact (by omega : s.fresh < s.fresh + 5)

/-- The registers of an unbound device cannot be accessed. -/
theorem Unbound.not_live (h : s.Unbound) (m : Option ℕ) : s.live m = false := by
  cases m <;> simp [live, h.mapped]

/-- Every event that fits keeps a device steady. -/
theorem Steady.step (h : s.Steady) {e : PlatformEvent} (he : s.Fits e) : (s.step e).Steady := by
  have hf := h.faulted
  rcases h.state with hoff | ⟨m, n, hon⟩
  · cases e with
    | bind env => exact hoff.bind hf (he hoff.bound).1 (he hoff.bound).2
    | unbind => simpa [WrnPlatform.step, hoff.bound] using h
    | nicInterrupt => exact absurd (hoff.bound.symm.trans he) Bool.false_ne_true
    | tstampInterrupt =>
      have hnone : s.txtsuRegs = none :=
        he.resolve_left fun hbound => Bool.false_ne_true (hoff.bound.symm.trans hbound)
      simpa only [WrnPlatform.step, hnone] using h
  · have hregs : s.live s.regs = true := by simp [live, hon.regs, hon.mapped]
    have htxtsu : s.live s.txtsuRegs = true := by simp [live, hon.txtsuRegs, hon.mapped]
    cases e with
    | bind env => simpa [WrnPlatform.step, hon.bound] using h
    | unbind =>
      simpa only [WrnPlatform.step, hon.bound, if_true] using hon.remove hf
    | nicInterrupt =>
      have hsame : s.step .nicInterrupt = s := by
        rw [WrnPlatform.step, hregs, Bool.not_true, Bool.or_false]
      rwa [hsame]
    | tstampInterrupt =>
      have hsame : s.step .tstampInterrupt = s := by
        rw [WrnPlatform.step]
        split
        · rfl
        · rw [htxtsu, Bool.not_true, Bool.or_false]
      rwa [hsame]

/-! ### What goes wrong else -/

theorem mezzanineExit_frame (s : WrnPlatform) : s.mezzanineExit.netdevs = s.netdevs ∧
    (s.faulted = true → s.mezzanineExit.faulted = true) := by
  rw [mezzanineExit]
  split
  · exact ⟨rfl, id⟩
  · exact ⟨rfl, fun h => by simp [h]⟩

/-- `wrn_remove` faults where the registers cannot be accessed. -/
theorem wrnRemove_faulted (h : s.live s.regs = false) : s.wrnRemove.faulted = true := by
  rw [wrnRemove]
  refine (wrnUnmap_frame fpgaBlocks _).2 ?_
  split
  · simp [h]
  · rename_i n _
    have hfault : ({ s with faulted := s.faulted || !s.live s.regs }).faulted = true := by simp [h]
    simp [(mezzanineExit_frame _).2 hfault]

/-- The network device is given back only if it has been set. -/
theorem wrnRemove_netdevs (h : s.dev = none) : s.wrnRemove.netdevs = s.netdevs := by
  rw [wrnRemove]
  refine (wrnUnmap_frame fpgaBlocks _).1.trans ?_
  simp [h]

/-- A probe that fails leaves a fault, or a network device. -/
theorem Unbound.probe_of_not_works (h : s.Unbound) (hworks : ¬ env.Works) :
    (s.wrnPlatformProbe env).2.faulted = true ∨ (s.wrnPlatformProbe env).2.netdevs ≠ [] ∧
      (s.wrnPlatformProbe env).1 ≠ 0 := by
  by_cases hmap : ∀ b, env.ioremap b = true
  · rw [wrnPlatformProbe, wrnMap_works hmap]
    simp only []
    split_ifs with halloc hid hreg hnodev
    · exact .inl rfl
    · exact .inr ⟨List.cons_ne_nil _ _, (by decide : -enodev ≠ 0)⟩
    · refine .inr ⟨?_, (by decide : -eio ≠ 0)⟩
      rw [wrnRemove_netdevs rfl]
      exact List.cons_ne_nil _ _
    · refine .inr ⟨?_, hreg⟩
      rw [wrnRemove_netdevs rfl]
      exact List.cons_ne_nil _ _
    · exact absurd ⟨hmap, by simpa using halloc, not_not.mp hid, not_not.mp hreg⟩ hworks
  · obtain ⟨b, hb⟩ := not_forall.mp hmap
    have hfails := wrnMap_fails (Bool.eq_false_of_not_eq_true hb) s
    obtain ⟨hregs, -, hmapped⟩ := @wrnMap_frame env fpgaBlocks s
    have hdead : (wrnMap env fpgaBlocks s).2.live (wrnMap env fpgaBlocks s).2.regs = false := by
      rw [hregs]
      cases hs : s.regs with
      | none => rfl
      | some m =>
        have hlt := h.regs_lt m hs
        refine Bool.eq_false_of_not_eq_true fun hin => ?_
        rcases hmapped m (by simpa [live] using hin) with hold | hnew
        · simp [h.mapped] at hold
        · omega
    left
    rw [wrnPlatformProbe]
    split
    · rename_i t heq
      rw [heq] at hdead
      exact wrnRemove_faulted hdead
    · rename_i t heq
      rw [heq] at hfails
      exact absurd hfails (by simp)

/-- An event that does not fit upsets the balance. -/
theorem Steady.not_balanced (h : s.Steady) {e : PlatformEvent} (he : ¬ s.Fits e) :
    ¬ (s.step e).Balanced := by
  intro hbal
  rcases h.state with hoff | ⟨m, n, hon⟩
  · cases e with
    | bind env =>
      have hstep : s.step (.bind env) = { (s.wrnPlatformProbe env).2 with
          bound := (s.wrnPlatformProbe env).1 == 0 } := by
        simp [WrnPlatform.step, hoff.bound]
      by_cases hworks : env.Works
      · obtain ⟨hkzalloc, hmezz⟩ := not_or.mp fun hok => he fun _ => ⟨hworks, hok⟩
        obtain ⟨d, hd⟩ := Option.ne_none_iff_exists'.mp hmezz
        have hdangling := hbal.mezzanine
        rw [hstep, hoff.probe_of_works hworks, mezzanineInit, if_neg hkzalloc] at hdangling
        have hin := hdangling rfl d hd
        simp [hoff.dios] at hin
      · rw [hstep] at hbal
        rcases hoff.probe_of_not_works hworks with hfault | ⟨hnet, hret⟩
        · exact Bool.false_ne_true (hbal.faulted.symm.trans hfault)
        · exact hnet (hbal.unbound (by simpa using hret)).2.1
    | unbind => exact he trivial
    | nicInterrupt =>
      have hfault : (s.step .nicInterrupt).faulted = true := by
        simp [WrnPlatform.step, hoff.not_live]
      exact Bool.false_ne_true (hbal.faulted.symm.trans hfault)
    | tstampInterrupt =>
      have hfault : (s.step .tstampInterrupt).faulted = true := by
        rw [WrnPlatform.step]
        split
        · rename_i hnone
          exact absurd (.inr hnone) he
        · simp [hoff.not_live]
      exact Bool.false_ne_true (hbal.faulted.symm.trans hfault)
  · cases e with
    | bind env => exact he fun hbound => absurd (hon.bound.symm.trans hbound) (by decide)
    | unbind => exact he trivial
    | nicInterrupt => exact he hon.bound
    | tstampInterrupt => exact he (.inl hon.bound)

/-- **`wrn_probe` and `wrn_remove`.** Along every run in which the platform device is bound and
unbound and the interrupt handlers are called, in any order: there is never a fault, an unbound
device has nothing mapped or allocated and a bound one no dangling `mezzanine_data`, exactly if the
device is bound only where all that `wrn_probe` asks for succeeds (the memory for `mezzanine_data`
at least if it has been bound before), and no interrupt comes while it is unbound (that of the time
stamps may come before it has been bound). So no failing probe ever cleans up. -/
theorem balanced_throughout_iff (es : List PlatformEvent) :
    Throughout step Balanced start es ↔ Along step Fits start es :=
  throughout_iff_along steady_start (fun _ h => h.balanced) (fun _ _ h he => h.step he)
    (fun _ _ h he => h.not_balanced he) es

end WrnPlatform

end SpecSw.Nic
