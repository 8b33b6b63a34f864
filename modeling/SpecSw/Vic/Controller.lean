import Mathlib.Data.BitVec
import Mathlib.Data.List.FinRange
import Mathlib.Logic.Function.Basic
import SpecSw.Kernel
import SpecSw.Library.Run

/-!
# The vectored interrupt controller

The gateware has 32 interrupt lines and a RAM with one word per line. The RAM comes up with the ids
of the interrupt sources, which is how the driver finds the line of an id; when a handler is
installed its word is overwritten with the index of the line, which is what the controller reports
when the line is active. The driver keeps the ids it has read in its vector table, and writes them
back when handlers are removed.

The controller object exists while handlers are in use: the first request creates it and
the last free removes it. Handlers and the devices that own them are of any types `H` and `F`.

## Main definitions

* `Vic.Vector`, `Vic.VicIrqController`, `Vic.VicRegs`, `Vic.SpecDev`.
* `Vic.specVicInit`, `Vic.specVicIrqRequest`, `Vic.specVicIrqFree`, `Vic.specVicIrqDispatch`.

## Main results

* `Vic.line_claimVector_self`, `Vic.line_claimVector_of_ne`, `Vic.line_freeVectors`: what a request
  and a free do to each line.
* `Vic.specVicInit_cases`, `Vic.specVicIrqRequest_cases`, `Vic.specVicIrqFree_cases`: what the
  functions can do.
-/

namespace SpecSw.Vic

open EventRun

/-- `VIC_MAX_VECTORS`. -/
abbrev vicMaxVectors : ℕ := 32

/-- The number of an interrupt line, and of its vector. -/
abbrev LineNr := Fin vicMaxVectors

/-- The value of `CTL` that `spec_vic_init` writes: `VIC_CTL_ENABLE`, `VIC_CTL_POL`,
`VIC_CTL_EMU_EDGE` and `VIC_CTL_EMU_LEN_W(250)`. -/
def vicCtlOn : BitVec 32 := 1 ||| 2 ||| 4 ||| (250 <<< 3)

variable {H F : Type*}

/-! ### The state -/

/-- `struct vector`. -/
@[ext] structure Vector (H F : Type*) where
  savedId : BitVec 32
  handler : Option H
  requestor : Option F

/-- `struct vic_irq_controller`. -/
structure VicIrqController (H F : Type*) where
  vectors : LineNr → Vector H F

/-- The registers of the VIC. Writing `IER` sets bits of `IMR` and writing `IDR` clears them. -/
structure VicRegs where
  ivtRam : LineNr → BitVec 32
  imr : BitVec 32
  ctl : BitVec 32

/-- The part of `struct spec_dev` that concerns the VIC, with its registers. -/
structure SpecDev (H F : Type*) where
  vic : Option (VicIrqController H F)
  regs : VicRegs

/-- Writing `IER`. -/
def VicRegs.ier (r : VicRegs) (value : BitVec 32) : VicRegs := { r with imr := r.imr ||| value }

/-- Writing `IDR`. -/
def VicRegs.idr (r : VicRegs) (value : BitVec 32) : VicRegs := { r with imr := r.imr &&& ~~~value }

/-- Writing a word of `IVT_RAM`. -/
def VicRegs.writeIvt (r : VicRegs) (i : LineNr) (value : BitVec 32) : VicRegs :=
  { r with ivtRam := Function.update r.ivtRam i value }

/-- The bit of `IMR` of a line. -/
def VicRegs.enabled (r : VicRegs) (i : LineNr) : Bool := r.imr.getLsbD i.val

/-- Assign a vector. -/
def VicIrqController.setVector (vic : VicIrqController H F) (i : LineNr) (v : Vector H F) :
    VicIrqController H F :=
  { vic with vectors := Function.update vic.vectors i v }

/-- `1 << i`. -/
def lineBit (i : LineNr) : BitVec 32 := (1 : BitVec 32) <<< i.val

/-- `saved_id == id`: the `int` is converted to the `unsigned long` of the id. -/
def Vector.hasId (v : Vector H F) (id : BitVec 64) : Bool := v.savedId.signExtend 64 == id

/-! ### Initialization and removal -/

/-- The outcomes of the calls of `spec_vic_init`: the base that `fmc_find_sdb_device` returns, and
whether `kzalloc` succeeds. -/
structure InitCalls where
  vicBase : ℤ
  kzalloc : Bool

/-- `spec_vic_init`: the error, or the controller with the ids of the table and the registers. -/
def specVicInit (o : InitCalls) (regs : VicRegs) : Except ℤ (VicIrqController H F × VicRegs) :=
  if o.vicBase < 0 then .error (-Errno.enodev)
  else if !o.kzalloc then .error (-Errno.enomem)
  else
    .ok (⟨fun i => ⟨regs.ivtRam i, none, none⟩⟩, { regs.idr 0xffffffff with ctl := vicCtlOn })

/-- `spec_vic_exit`: disable all irq lines and the VIC in general. -/
def specVicExit (regs : VicRegs) : VicRegs := { regs.idr 0xffffffff with ctl := 0 }

@[simp] theorem ivtRam_specVicExit (regs : VicRegs) : (specVicExit regs).ivtRam = regs.ivtRam := rfl

/-! ### Requests -/

/-- The vector that the loop of `spec_vic_irq_request` finds. -/
def findVector (vic : VicIrqController H F) (id : BitVec 64) : Option LineNr :=
  (List.finRange vicMaxVectors).find? fun i => (vic.vectors i).hasId id

/-- The body of that loop: assign the handler, enable. -/
def claimVector (fmc : F) (handler : H) (i : LineNr) (vic : VicIrqController H F)
    (regs : VicRegs) : VicIrqController H F × VicRegs :=
  (vic.setVector i { vic.vectors i with requestor := some fmc, handler := some handler },
    (regs.writeIvt i (BitVec.ofNat 32 i)).ier (lineBit i))

/-- `spec_vic_irq_request` once there is a controller. -/
def requestVector (fmc : F) (id : BitVec 64) (handler : H) (vic : VicIrqController H F)
    (regs : VicRegs) : ℤ × SpecDev H F :=
  match findVector vic id with
  | some i =>
    let p := claimVector fmc handler i vic regs
    (0, ⟨some p.1, p.2⟩)
  | none => (-Errno.einval, ⟨some vic, regs⟩)

/-- `spec_vic_irq_request`. The first interrupt to be requested looks up and inits the VIC. -/
def specVicIrqRequest (o : InitCalls) (fmc : F) (id : BitVec 64) (handler : H)
    (spec : SpecDev H F) : ℤ × SpecDev H F :=
  match spec.vic with
  | some vic => requestVector fmc id handler vic spec.regs
  | none =>
    match specVicInit o spec.regs with
    | .error rv => (rv, spec)
    | .ok (vic, regs) => requestVector fmc id handler vic regs

/-! ### Frees -/

/-- The body of the loop of `spec_vic_irq_free`. -/
def freeVector (id : BitVec 64) (p : VicIrqController H F × VicRegs) (i : LineNr) :
    VicIrqController H F × VicRegs :=
  if (p.1.vectors i).hasId id then
    (p.1.setVector i { p.1.vectors i with handler := none },
      (p.2.idr (lineBit i)).writeIvt i (id.setWidth 32))
  else p

/-- The loop of `spec_vic_irq_free`. -/
def freeVectors (id : BitVec 64) (vic : VicIrqController H F) (regs : VicRegs) :
    VicIrqController H F × VicRegs :=
  (List.finRange vicMaxVectors).foldl (freeVector id) (vic, regs)

/-- `vic_handler_count`. -/
def vicHandlerCount (vic : VicIrqController H F) : ℕ :=
  (List.finRange vicMaxVectors).countP fun i => (vic.vectors i).handler.isSome

/-- `spec_vic_irq_free`, which cleans up the VIC if there are no more handlers; `none` when there
is no VIC to dereference. -/
def specVicIrqFree (id : BitVec 64) (spec : SpecDev H F) : Option (SpecDev H F) :=
  spec.vic.map fun vic =>
    let p := freeVectors id vic spec.regs
    if vicHandlerCount p.1 = 0 then ⟨none, specVicExit p.2⟩ else ⟨some p.1, p.2⟩

/-! ### Dispatch -/

/-- A call of a handler, with its two arguments. -/
structure Call (H F : Type*) where
  handler : H
  id : BitVec 32
  requestor : Option F

/-- `spec_vic_irq_dispatch`: the handler called for the value of `VAR`, if any. -/
def specVicIrqDispatch (var : BitVec 32) (spec : SpecDev H F) : Option (Call H F) :=
  spec.vic.bind fun vic =>
    let index := (var &&& 0xff).toNat
    if h : index < vicMaxVectors then
      (vic.vectors ⟨index, h⟩).handler.map fun handler =>
        ⟨handler, (vic.vectors ⟨index, h⟩).savedId, (vic.vectors ⟨index, h⟩).requestor⟩
    else none

/-! ### One line -/

/-- What concerns one line: its vector, its word in the RAM, and whether it is enabled. -/
@[ext] structure Line (H F : Type*) where
  vector : Vector H F
  ivt : BitVec 32
  enabled : Bool

/-- A line of the controller and its registers. -/
def line (i : LineNr) (p : VicIrqController H F × VicRegs) : Line H F :=
  ⟨p.1.vectors i, p.2.ivtRam i, p.2.enabled i⟩

@[simp] theorem line_vector (i : LineNr) (p : VicIrqController H F × VicRegs) :
    (line i p).vector = p.1.vectors i := rfl

@[simp] theorem line_ivt (i : LineNr) (p : VicIrqController H F × VicRegs) :
    (line i p).ivt = p.2.ivtRam i := rfl

/-- The line after `spec_vic_irq_free`. -/
def Line.free (id : BitVec 64) (l : Line H F) : Line H F :=
  if l.vector.hasId id then ⟨{ l.vector with handler := none }, id.setWidth 32, false⟩ else l

theorem getLsbD_lineBit (i j : LineNr) : (lineBit i).getLsbD j.val = decide (j = i) := by
  have hpow : lineBit i = BitVec.twoPow 32 i.val := rfl
  rw [hpow, BitVec.getLsbD_twoPow]
  simp [Fin.ext_iff, eq_comm]

@[simp] theorem enabled_ier (r : VicRegs) (i j : LineNr) :
    (r.ier (lineBit i)).enabled j = (r.enabled j || decide (j = i)) := by
  rw [VicRegs.enabled, VicRegs.ier, BitVec.getLsbD_or, getLsbD_lineBit, VicRegs.enabled]

@[simp] theorem enabled_idr (r : VicRegs) (i j : LineNr) :
    (r.idr (lineBit i)).enabled j = (r.enabled j && !decide (j = i)) := by
  rw [VicRegs.enabled, VicRegs.idr, BitVec.getLsbD_and, BitVec.getLsbD_not, getLsbD_lineBit,
    VicRegs.enabled]
  simp

@[simp] theorem enabled_writeIvt (r : VicRegs) (i j : LineNr) (value : BitVec 32) :
    (r.writeIvt i value).enabled j = r.enabled j := rfl

/-- Writing all ones to `IDR` disables every line. -/
@[simp] theorem enabled_idr_all (r : VicRegs) (j : LineNr) :
    (r.idr 0xffffffff).enabled j = false := by
  have hnot : ~~~(0xffffffff : BitVec 32) = 0#32 := by decide
  rw [VicRegs.enabled, VicRegs.idr, hnot, BitVec.and_zero]
  exact BitVec.getLsbD_zero

/-- A claimed line has the handler, its index in the RAM, and is enabled. -/
theorem line_claimVector_self (fmc : F) (handler : H) (i : LineNr) (vic : VicIrqController H F)
    (regs : VicRegs) : line i (claimVector fmc handler i vic regs) =
      ⟨⟨(vic.vectors i).savedId, some handler, some fmc⟩, BitVec.ofNat 32 i, true⟩ := by
  ext
  · simp [line, claimVector, VicIrqController.setVector]
  · simp [line, claimVector, VicIrqController.setVector]
  · simp [line, claimVector, VicIrqController.setVector]
  · simp [line, claimVector, VicRegs.writeIvt, VicRegs.ier]
  · simp [line, claimVector]

theorem line_claimVector_of_ne {i j : LineNr} (hj : j ≠ i) (fmc : F) (handler : H)
    (vic : VicIrqController H F) (regs : VicRegs) :
    line j (claimVector fmc handler i vic regs) = line j (vic, regs) := by
  ext
  · simp [line, claimVector, VicIrqController.setVector, hj]
  · simp [line, claimVector, VicIrqController.setVector, hj]
  · simp [line, claimVector, VicIrqController.setVector, hj]
  · simp [line, claimVector, VicRegs.writeIvt, VicRegs.ier, hj]
  · simp [line, claimVector, hj]

theorem line_freeVector_self (id : BitVec 64) (i : LineNr) (p : VicIrqController H F × VicRegs) :
    line i (freeVector id p i) = (line i p).free id := by
  by_cases hid : (p.1.vectors i).hasId id = true
  · have hline : (line i p).vector.hasId id = true := hid
    rw [freeVector, if_pos hid, Line.free, if_pos hline]
    ext
    · simp [line, VicIrqController.setVector]
    · simp [line, VicIrqController.setVector]
    · simp [line, VicIrqController.setVector]
    · simp [line, VicRegs.writeIvt]
    · simp [line]
  · have hline : ¬ (line i p).vector.hasId id = true := hid
    rw [freeVector, if_neg hid, Line.free, if_neg hline]

theorem line_freeVector_of_ne {i j : LineNr} (hj : j ≠ i) (id : BitVec 64)
    (p : VicIrqController H F × VicRegs) : line j (freeVector id p i) = line j p := by
  rw [freeVector]
  split_ifs
  · ext
    · simp [line, VicIrqController.setVector, hj]
    · simp [line, VicIrqController.setVector, hj]
    · simp [line, VicIrqController.setVector, hj]
    · simp [line, VicRegs.writeIvt, VicRegs.idr, hj]
    · simp [line, hj]
  · rfl

/-- A free does the same to every line, whichever matches it finds first. -/
theorem line_freeVectors (id : BitVec 64) (i : LineNr) (vic : VicIrqController H F)
    (regs : VicRegs) : line i (freeVectors id vic regs) = (line i (vic, regs)).free id :=
  run_proj_of_mem (I := fun _ => True) (List.nodup_finRange vicMaxVectors) (List.mem_finRange i)
    (fun _ _ _ _ => trivial) (fun p _ => line_freeVector_self id i p)
    (fun p _ _ _ hj => line_freeVector_of_ne hj.symm id p) trivial

/-! ### The functions -/

/-- Some vector of the controller has a handler. -/
def SpecDev.HasHandler (t : SpecDev H F) : Prop :=
  ∃ vic, t.vic = some vic ∧ ∃ i, (vic.vectors i).handler ≠ none

/-- The calls of `spec_vic_init` succeed. -/
def InitCalls.Succeeds (o : InitCalls) : Prop := 0 ≤ o.vicBase ∧ o.kzalloc = true

/-- `spec_vic_init` fails and changes nothing, or makes a controller whose lines have the words of
the RAM as their ids, have no handlers and are disabled. -/
theorem specVicInit_cases (o : InitCalls) (regs : VicRegs) :
    (o.Succeeds ∧ ∃ p : VicIrqController H F × VicRegs, specVicInit o regs = .ok p ∧
      ∀ i, line i p = ⟨⟨regs.ivtRam i, none, none⟩, regs.ivtRam i, false⟩) ∨
    (¬ o.Succeeds ∧ ∃ rv : ℤ, rv ≠ 0 ∧
      (specVicInit o regs : Except ℤ (VicIrqController H F × VicRegs)) = .error rv) := by
  by_cases hbase : o.vicBase < 0
  · refine .inr ⟨fun h => absurd h.1 (by omega), -Errno.enodev, by decide, ?_⟩
    rw [specVicInit, if_pos hbase]
  · cases halloc : o.kzalloc with
    | false =>
      refine .inr ⟨fun h => by simp [h.2] at halloc, -Errno.enomem, by decide, ?_⟩
      simp [specVicInit, hbase, halloc]
    | true =>
      refine .inl ⟨⟨by omega, halloc⟩, _, by simp [specVicInit, hbase, halloc]; rfl, fun i => ?_⟩
      ext
      · rfl
      · rfl
      · rfl
      · rfl
      · exact enabled_idr_all regs i

theorem findVector_eq_some_iff {vic : VicIrqController H F} {id : BitVec 64} {i : LineNr} :
    findVector vic id = some i ↔
      (vic.vectors i).hasId id = true ∧ ∀ j < i, (vic.vectors j).hasId id = false := by
  rw [findVector, ← Fin.find?_eq_find?_finRange, Fin.find?_eq_some_iff]

theorem findVector_eq_none_iff {vic : VicIrqController H F} {id : BitVec 64} :
    findVector vic id = none ↔ ∀ i, (vic.vectors i).hasId id = false := by
  rw [findVector, ← Fin.find?_eq_find?_finRange, Fin.find?_eq_none_iff]

theorem requestVector_of_some {vic : VicIrqController H F} {id : BitVec 64} {i : LineNr}
    (h : findVector vic id = some i) (fmc : F) (handler : H) (regs : VicRegs) :
    requestVector fmc id handler vic regs = (0, ⟨some (claimVector fmc handler i vic regs).1,
      (claimVector fmc handler i vic regs).2⟩) := by
  rw [requestVector, h]

theorem requestVector_of_none {vic : VicIrqController H F} {id : BitVec 64}
    (h : findVector vic id = none) (fmc : F) (handler : H) (regs : VicRegs) :
    requestVector fmc id handler vic regs = (-Errno.einval, ⟨some vic, regs⟩) := by
  rw [requestVector, h]

/-- A request on a controller fails and changes nothing when the id is in no vector, and leaves a
handler otherwise. -/
theorem requestVector_cases (fmc : F) (id : BitVec 64) (handler : H) (vic : VicIrqController H F)
    (regs : VicRegs) :
    ((∀ i, (vic.vectors i).hasId id = false) ∧
      (requestVector fmc id handler vic regs).1 ≠ 0 ∧
      (requestVector fmc id handler vic regs).2 = ⟨some vic, regs⟩) ∨
    ((∃ i, (vic.vectors i).hasId id = true) ∧
      (requestVector fmc id handler vic regs).1 = 0 ∧
      (requestVector fmc id handler vic regs).2.HasHandler) := by
  cases hfind : findVector vic id with
  | none =>
    rw [requestVector_of_none hfind]
    exact .inl ⟨findVector_eq_none_iff.mp hfind, by simp [Errno.einval], rfl⟩
  | some i =>
    rw [requestVector_of_some hfind]
    refine .inr ⟨⟨i, (findVector_eq_some_iff.mp hfind).1⟩, rfl, _, rfl, i, ?_⟩
    rw [← line_vector, line_claimVector_self]
    exact Option.some_ne_none handler

section Request

variable {o : InitCalls} {t : SpecDev H F}

theorem specVicIrqRequest_of_vic {vic : VicIrqController H F} (h : t.vic = some vic) (fmc : F)
    (id : BitVec 64) (handler : H) :
    specVicIrqRequest o fmc id handler t = requestVector fmc id handler vic t.regs := by
  rw [specVicIrqRequest, h]

theorem specVicIrqRequest_of_init {p : VicIrqController H F × VicRegs} (h : t.vic = none)
    (hp : specVicInit o t.regs = .ok p) (fmc : F) (id : BitVec 64) (handler : H) :
    specVicIrqRequest o fmc id handler t = requestVector fmc id handler p.1 p.2 := by
  rw [specVicIrqRequest, h]
  simp only [hp]

theorem specVicIrqRequest_of_error {rv : ℤ} (h : t.vic = none)
    (hrv : (specVicInit o t.regs : Except ℤ (VicIrqController H F × VicRegs)) = .error rv)
    (fmc : F) (id : BitVec 64) (handler : H) :
    specVicIrqRequest o fmc id handler t = (rv, t) := by
  rw [specVicIrqRequest, h]
  simp only [hrv]

end Request

/-- `spec_vic_irq_request` fails and changes nothing; or creates the controller and fails, because
the id is not in the RAM; or succeeds and leaves a handler. -/
theorem specVicIrqRequest_cases (o : InitCalls) (fmc : F) (id : BitVec 64) (handler : H)
    (t : SpecDev H F) :
    ((specVicIrqRequest o fmc id handler t).1 ≠ 0 ∧
      (specVicIrqRequest o fmc id handler t).2 = t ∧ (t.vic = none → ¬ o.Succeeds)) ∨
    ((specVicIrqRequest o fmc id handler t).1 ≠ 0 ∧ t.vic = none ∧ o.Succeeds ∧
      (∀ i, (t.regs.ivtRam i).signExtend 64 ≠ id) ∧
      ∃ vic, (specVicIrqRequest o fmc id handler t).2.vic = some vic ∧
        ∀ i, (vic.vectors i).handler = none) ∨
    ((specVicIrqRequest o fmc id handler t).1 = 0 ∧
      (specVicIrqRequest o fmc id handler t).2.HasHandler ∧
      (t.vic = none → o.Succeeds ∧ ∃ i, (t.regs.ivtRam i).signExtend 64 = id)) := by
  cases hvic : t.vic with
  | some vic =>
    rw [specVicIrqRequest_of_vic hvic]
    obtain ⟨-, hrv, hsame⟩ | ⟨-, hrv, hhandler⟩ := requestVector_cases fmc id handler vic t.regs
    · rw [← hvic] at hsame
      exact .inl ⟨hrv, hsame, by simp⟩
    · exact .inr (.inr ⟨hrv, hhandler, by simp⟩)
  | none =>
    obtain ⟨ho, p, hp, hlines⟩ | ⟨ho, rv, hrv, hp⟩ :=
      specVicInit_cases (H := H) (F := F) o t.regs
    · have hid : ∀ i, (p.1.vectors i).hasId id = ((t.regs.ivtRam i).signExtend 64 == id) :=
        fun i => by rw [← line_vector, hlines, Vector.hasId]
      rw [specVicIrqRequest_of_init hvic hp]
      obtain ⟨hno, hrv, hsame⟩ | ⟨⟨i, hi⟩, hrv, hhandler⟩ :=
        requestVector_cases fmc id handler p.1 p.2
      · refine .inr (.inl ⟨hrv, rfl, ho, fun i => ?_, p.1, by rw [hsame], fun i => ?_⟩)
        · have hne := hno i
          rwa [hid, beq_eq_false_iff_ne] at hne
        · rw [← line_vector, hlines]
      · rw [hid, beq_iff_eq] at hi
        exact .inr (.inr ⟨hrv, hhandler, fun _ => ⟨ho, i, hi⟩⟩)
    · rw [specVicIrqRequest_of_error hvic hp]
      exact .inl ⟨hrv, rfl, fun _ => ho⟩

theorem vicHandlerCount_eq_zero_iff {vic : VicIrqController H F} :
    vicHandlerCount vic = 0 ↔ ∀ i, (vic.vectors i).handler = none := by
  rw [vicHandlerCount, List.countP_eq_zero]
  simp

/-- Dispatch with the index of a line in `VAR` calls the handler of its vector. -/
theorem specVicIrqDispatch_ofNat {t : SpecDev H F} {vic : VicIrqController H F}
    (h : t.vic = some vic) (i : LineNr) :
    specVicIrqDispatch (BitVec.ofNat 32 i) t = (vic.vectors i).handler.map fun handler =>
      ⟨handler, (vic.vectors i).savedId, (vic.vectors i).requestor⟩ := by
  have hindex : (BitVec.ofNat 32 i &&& 0xff).toNat = i.val := by
    have hmask : (0xff : BitVec 32).toNat = 2 ^ 8 - 1 := rfl
    have hi : i.val < 32 := i.isLt
    rw [BitVec.toNat_and, hmask, Nat.and_two_pow_sub_one_eq_mod, BitVec.toNat_ofNat]
    omega
  simp only [specVicIrqDispatch, h, Option.bind_some, hindex, dif_pos i.isLt]

/-- `spec_vic_irq_free` keeps the controller when a handler is left and removes it otherwise. -/
theorem specVicIrqFree_cases {id : BitVec 64} {t t' : SpecDev H F}
    (h : specVicIrqFree id t = some t') : ∃ vic, t.vic = some vic ∧
      (((∃ i, ((freeVectors id vic t.regs).1.vectors i).handler ≠ none) ∧
        t' = ⟨some (freeVectors id vic t.regs).1, (freeVectors id vic t.regs).2⟩) ∨
      ((∀ i, ((freeVectors id vic t.regs).1.vectors i).handler = none) ∧
        t' = ⟨none, specVicExit (freeVectors id vic t.regs).2⟩)) := by
  obtain ⟨vic, hvic, rfl⟩ := Option.map_eq_some_iff.mp h
  refine ⟨vic, hvic, ?_⟩
  by_cases hcount : vicHandlerCount (freeVectors id vic t.regs).1 = 0
  · exact .inr ⟨vicHandlerCount_eq_zero_iff.mp hcount, if_pos hcount⟩
  · refine .inl ⟨?_, if_neg hcount⟩
    by_contra! hnone
    exact hcount (vicHandlerCount_eq_zero_iff.mpr hnone)

end SpecSw.Vic
