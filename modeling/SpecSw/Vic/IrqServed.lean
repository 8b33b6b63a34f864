import SpecSw.Vic.IrqChain

/-!
# Every interrupt that is ended has been served

While the PCI interrupt is not shared and the driver stays bound, the handler of `wr-nic-eth.c`
runs only for an edge of the VIC, and the VIC waits from that edge to the write to `EOIR`. So the
vector that the handler reads in between is that of the line it ends, and each interrupt ended has
had exactly one call, of the function for its own line. With other devices on the PCI interrupt
this fails: a handler that they have called can read `VAR` before the VIC sets it and write `EOIR`
after that.

## Main definitions

* `Vic.WrnIrq`, `Vic.wrnDispatch`, `Vic.lineFunction`.
* `Vic.Unshared`, `Vic.Served`.

## Main results

* `Vic.calls_eq_ended`.
-/

namespace SpecSw.Vic

open EventRun

/-! ### Dispatch -/

/-- What `wrn_handler` calls: `wrn_interrupt`, `wrn_tstamp_interrupt` or `wrn_dio_interrupt`. -/
inductive WrnIrq
  | nic
  | txtsu
  | dio
  deriving DecidableEq

/-- The dispatch of `wrn_handler`. -/
def wrnDispatch (vector : BitVec 32) : Option WrnIrq :=
  if vector = 1 then some .nic
  else if vector = 0 then some .txtsu
  else if vector = 2 then some .dio
  else none

/-- The function for the device on a line. -/
def lineFunction (i : LineNr) : Option WrnIrq := [.txtsu, .nic, .dio][i.val]?

/-- The vector that `wrn_vic_init` gives to a line. -/
def lineVector (i : LineNr) : BitVec 32 := BitVec.ofNat 32 i

/-- The driver uses the line. -/
def Used (i : LineNr) : Prop := i ∈ wrnVicIds

/-- The bits of a register are those of lines that the driver uses. -/
def Within (v : BitVec 32) : Prop := ∀ i : LineNr, v.getLsbD i.val = true → Used i

theorem within_zero : Within 0 := fun i h => absurd h (by simp)

theorem within_wrnAllMask : Within wrnAllMask := by
  unfold Within Used
  decide

theorem Within.or {v w : BitVec 32} (hv : Within v) (hw : Within w) : Within (v ||| w) := by
  intro i h
  rw [BitVec.getLsbD_or, Bool.or_eq_true] at h
  exact h.elim (hv i) (hw i)

theorem Within.and_left {v : BitVec 32} (hv : Within v) (w : BitVec 32) : Within (v &&& w) := by
  intro i h
  rw [BitVec.getLsbD_and, Bool.and_eq_true] at h
  exact hv i h.1

theorem Within.and_right {w : BitVec 32} (hw : Within w) (v : BitVec 32) : Within (v &&& w) := by
  rw [BitVec.and_comm]
  exact hw.and_left v

theorem wrnDispatch_lineVector {i : LineNr} (h : Used i) :
    wrnDispatch (lineVector i) = lineFunction i ∧ (lineFunction i).isSome = true := by
  revert i
  unfold Used
  decide

/-! ### The invariant -/

/-- An event of a run in which only the GN4124 interrupts the host, the driver is not released and
enables only its own lines. -/
def Unshared : IrqEvent → Prop
  | .enter foreign => foreign = false
  | .ier mask => Within mask
  | .down => False
  | _ => True

/-- Before the driver is bound nothing happens. -/
structure Silent (c : IrqChain) : Prop where
  phase : c.phase = .scan
  intStatus : c.intStatus = false
  todo : c.todo = []

/-- How far the handler is, and what the VIC is doing meanwhile. -/
inductive Served (c : IrqChain) : Prop
  | idle (htodo : c.todo = []) (hint : c.intStatus = true → ∃ i, c.phase = .wait i)
      (hcalls : c.calls = c.ended.map lineVector)
  | entered (i : LineNr) (htodo : c.todo = [.readVar, .dispatch, .readIntStatus, .writeEoir])
      (hphase : c.phase = .wait i) (hcalls : c.calls = c.ended.map lineVector)
  | read (i : LineNr) (htodo : c.todo = [.dispatch, .readIntStatus, .writeEoir])
      (hphase : c.phase = .wait i) (hvector : c.vector = lineVector i)
      (hcalls : c.calls = c.ended.map lineVector)
  | dispatched (i : LineNr) (htodo : c.todo = [.readIntStatus, .writeEoir])
      (hphase : c.phase = .wait i) (hcalls : c.calls = (c.ended ++ [i]).map lineVector)
  | acked (i : LineNr) (htodo : c.todo = [.writeEoir]) (hphase : c.phase = .wait i)
      (hint : c.intStatus = false) (hcalls : c.calls = (c.ended ++ [i]).map lineVector)

/-- The lines that the driver does not use stay disabled and unlatched, a line that the VIC waits
for has its vector in `VAR`, and the handler is in step with the VIC. -/
structure InStep (c : IrqChain) : Prop where
  imr : Within c.regs.imr
  isr : Within c.isr
  ended : ∀ i ∈ c.ended, Used i
  wait : ∀ i, c.phase = .wait i → Used i ∧ c.var = lineVector i
  ivt : c.bound = true → ∀ i, Used i → c.regs.ivtRam i = lineVector i
  silent : c.bound = false → Silent c
  served : Served c

namespace InStep

variable {dec : PriorityDecode} {c : IrqChain}

/-- The lines and the registers change, but not the words of the vector table. -/
theorem congr (h : InStep c) {risr : BitVec 32} {regs : VicRegs} (himr : Within regs.imr)
    (hivt : regs.ivtRam = c.regs.ivtRam) : InStep { c with risr := risr, regs := regs } := by
  refine ⟨himr, h.isr, h.ended, h.wait, fun hb i hi => ?_, fun hb => ?_, ?_⟩
  · exact (congrFun hivt i).trans (h.ivt hb i hi)
  · exact ⟨(h.silent hb).phase, (h.silent hb).intStatus, (h.silent hb).todo⟩
  · cases h.served with
    | idle htodo hint hcalls => exact .idle htodo hint hcalls
    | entered i htodo hphase hcalls => exact .entered i htodo hphase hcalls
    | read i htodo hphase hvector hcalls => exact .read i htodo hphase hvector hcalls
    | dispatched i htodo hphase hcalls => exact .dispatched i htodo hphase hcalls
    | acked i htodo hphase hint hcalls => exact .acked i htodo hphase hint hcalls

theorem setRegs (h : InStep c) (hon : c.regs.on = c.bound) {regs : VicRegs}
    (hsame : regs.on = c.regs.on) (himr : Within regs.imr)
    (hivt : regs.ivtRam = c.regs.ivtRam) : InStep (c.setRegs regs) := by
  have heq : c.setRegs regs = { c with risr := c.risr, regs := regs } := by
    cases hb : c.bound with
    | true =>
      rw [IrqChain.setRegs, if_pos (hsame.trans (hon.trans hb)), hb]
    | false =>
      rw [IrqChain.setRegs, if_neg (by rw [hsame, hon, hb]; decide), (h.silent hb).phase, hb]
  rw [heq]
  exact h.congr himr hivt

/-- While the VIC does not wait, no handler runs and the GN4124 has latched nothing. -/
theorem idle_of_not_wait (h : InStep c) (hphase : ∀ i, c.phase ≠ .wait i) :
    c.todo = [] ∧ c.intStatus = false ∧ c.calls = c.ended.map lineVector := by
  cases h.served with
  | idle htodo hint hcalls =>
    refine ⟨htodo, ?_, hcalls⟩
    by_contra hne
    obtain ⟨i, hi⟩ := hint (by simpa using hne)
    exact hphase i hi
  | entered i _ hi => exact absurd hi (hphase i)
  | read i _ hi => exact absurd hi (hphase i)
  | dispatched i _ hi => exact absurd hi (hphase i)
  | acked i _ hi => exact absurd hi (hphase i)

theorem scanLines (h : InStep c) (hb : c.bound = true) (hphase : c.phase = .scan) :
    InStep (c.scanLines dec) := by
  have hlatched : Within c.latched := h.isr.or (h.imr.and_right c.risr)
  obtain ⟨htodo, hint, hcalls⟩ := h.idle_of_not_wait (by simp [hphase])
  rw [IrqChain.scanLines]
  split_ifs with hzero
  · exact ⟨h.imr, hlatched, h.ended, h.wait, h.ivt,
      fun hoff => absurd (hb.symm.trans hoff) (by simp),
      .idle htodo (fun hi => absurd (hint.symm.trans hi) (by simp)) hcalls⟩
  · have hused : Used (dec.pick c.latched) := hlatched _ (dec.pending _ hzero)
    refine ⟨h.imr, hlatched, h.ended, fun i hi => ?_, h.ivt,
      fun hoff => absurd (hb.symm.trans hoff) (by simp), .idle htodo (fun _ => ⟨_, rfl⟩) hcalls⟩
    obtain rfl : dec.pick c.latched = i := by simpa using hi
    exact ⟨hused, h.ivt hb _ hused⟩

theorem advance (h : InStep c) (hon : c.regs.on = c.bound) : InStep (c.advance dec) := by
  rw [IrqChain.advance]
  split_ifs with hb
  · rw [hon] at hb
    cases hphase : c.phase with
    | scan => exact h.scanLines hb hphase
    | wait i => exact h
    | pulse =>
      obtain ⟨htodo, hint, hcalls⟩ := h.idle_of_not_wait (by simp [hphase])
      exact ⟨h.imr, h.isr, h.ended, fun i hi => absurd hi (by simp), h.ivt,
        fun hoff => absurd (hb.symm.trans hoff) (by simp),
        .idle htodo (fun hi => absurd (hint.symm.trans hi) (by simp)) hcalls⟩
  · exact h

/-- The next access of the handler, by how far it is. -/
theorem access (h : InStep c) (hbound : c.todo ≠ [] → c.bound = true) :
    InStep (c.step wrnIrqDriver dec .access) := by
  have hsilent : c.todo ≠ [] → ¬ c.bound = false := fun hne hoff =>
    absurd ((hbound hne).symm.trans hoff) (by decide)
  cases h.served with
  | idle htodo hint hcalls => rwa [step_access_nil htodo]
  | entered i htodo hphase hcalls =>
    rw [step_access htodo]
    exact ⟨h.imr, h.isr, h.ended, h.wait, h.ivt,
      fun hoff => absurd hoff (hsilent (by simp [htodo])),
      .read i rfl hphase (h.wait i hphase).2 hcalls⟩
  | read i htodo hphase hvector hcalls =>
    rw [step_access htodo]
    refine ⟨h.imr, h.isr, h.ended, h.wait, h.ivt,
      fun hoff => absurd hoff (hsilent (by simp [htodo])), .dispatched i rfl hphase ?_⟩
    simp [IrqChain.exec, hcalls, hvector]
  | dispatched i htodo hphase hcalls =>
    rw [step_access htodo]
    exact ⟨h.imr, h.isr, h.ended, h.wait, h.ivt,
      fun hoff => absurd hoff (hsilent (by simp [htodo])),
      .acked i rfl hphase rfl hcalls⟩
  | acked i htodo hphase hint hcalls =>
    have hexec : c.exec .writeEoir = { c with
        isr := c.isr &&& ~~~lineBit i
        phase := .pulse
        ended := c.ended ++ [i] } := by
      simp only [IrqChain.exec, IrqChain.endOfInterrupt, hphase]
    rw [step_access htodo, hexec]
    refine ⟨h.imr, h.isr.and_left _, fun j hj => ?_, fun j hj => absurd hj (by simp), h.ivt,
      fun hoff => absurd hoff (hsilent (by simp [htodo])),
      .idle rfl (fun hi => absurd (hint.symm.trans hi) (by simp)) hcalls⟩
    rcases List.mem_append.mp hj with hj | hj
    · exact h.ended j hj
    · obtain rfl := List.mem_singleton.mp hj
      exact (h.wait j hphase).1

theorem ivtRam_wrnVicUp (r : VicRegs) {i : LineNr} (hi : Used i) :
    (wrnVicUp r).ivtRam i = lineVector i := by
  have hwritten : ∀ i : LineNr, (wrnVicUp r).ivtRam i =
      if i ∈ wrnVicIds then BitVec.ofNat 32 i else r.ivtRam i := by
    intro i
    simp only [wrnVicUp, wrnVicIds, List.foldl_cons, List.foldl_nil, VicRegs.writeIvt, VicRegs.ier,
      Function.update_apply, List.mem_cons, List.not_mem_nil, or_false]
    split_ifs <;> simp_all
  exact (hwritten i).trans (if_pos hi)

theorem step (h : InStep c) (hon : c.regs.on = c.bound) {e : IrqEvent} (he : Unshared e) :
    InStep (c.step wrnIrqDriver dec e) := by
  cases e with
  | lines risr => exact h.congr h.imr rfl
  | ier mask => exact h.setRegs hon (on_ier c.regs mask) (h.imr.or he) rfl
  | idr mask => exact h.setRegs hon (on_idr c.regs mask) (h.imr.and_left _) rfl
  | vic => exact h.advance hon
  | enter foreign =>
    obtain rfl : foreign = false := he
    rw [IrqChain.step]
    split_ifs with henter
    · obtain ⟨htodo, hint⟩ := henter
      rw [Bool.or_false] at hint
      have hb : c.bound = true := by
        by_contra hoff
        have hsilent := (h.silent (by simpa using hoff)).intStatus
        exact absurd (hsilent.symm.trans hint) (by decide)
      have hhandler : wrnIrqDriver.handler c.bound =
          [.readVar, .dispatch, .readIntStatus, .writeEoir] := by rw [hb]; rfl
      cases h.served with
      | idle _ hwait hcalls =>
        obtain ⟨i, hi⟩ := hwait hint
        exact ⟨h.imr, h.isr, h.ended, h.wait, h.ivt,
          fun hoff => absurd (hb.symm.trans hoff) (by decide), .entered i hhandler hi hcalls⟩
      | entered i hne => exact absurd (htodo.symm.trans hne) (by simp)
      | read i hne => exact absurd (htodo.symm.trans hne) (by simp)
      | dispatched i hne => exact absurd (htodo.symm.trans hne) (by simp)
      | acked i hne => exact absurd (htodo.symm.trans hne) (by simp)
    · exact h
  | access =>
    refine h.access fun hne => ?_
    by_contra hoff
    exact hne (h.silent (by simpa using hoff)).todo
  | up =>
    rw [IrqChain.step]
    split_ifs with hb
    · exact h
    · have hsilent := h.silent (by simpa using hb)
      obtain ⟨htodo, hint, hcalls⟩ := h.idle_of_not_wait (by simp [hsilent.phase])
      have hscan : (c.setRegs (wrnVicUp c.regs)).phase = .scan :=
        (if_pos (wrnIrqDriver.on_up c.regs)).trans hsilent.phase
      have himr : Within (wrnVicUp c.regs).imr := h.imr.or within_wrnAllMask
      exact ⟨himr, h.isr, h.ended, fun i hi => absurd (hscan.symm.trans hi) (by simp),
        fun _ i hi => ivtRam_wrnVicUp c.regs hi, fun hoff => absurd hoff (by simp),
        .idle htodo (fun hi => absurd (hint.symm.trans hi) (by simp)) hcalls⟩
  | down => exact absurd he id

theorem start (ivtRam : LineNr → BitVec 32) : InStep (.start ivtRam) :=
  ⟨within_zero, within_zero, nofun, nofun, nofun, fun _ => ⟨rfl, rfl, rfl⟩, .idle rfl nofun rfl⟩

end InStep

/-- **Each interrupt that is ended has been served, once and by its own function.** In a run in
which only the GN4124 interrupts the host and the driver is not released, whenever no handler runs,
the functions called so far are those of the lines whose interrupts have been ended, in that
order. -/
theorem calls_eq_ended (dec : PriorityDecode) (ivtRam : LineNr → BitVec 32) {es : List IrqEvent}
    (hes : ∀ e ∈ es, Unshared e) :
    let c := run (IrqChain.step wrnIrqDriver dec) (.start ivtRam) es
    c.todo = [] → c.calls.map wrnDispatch = c.ended.map lineFunction ∧
      ∀ i ∈ c.ended, (lineFunction i).isSome = true := by
  intro c htodo
  have hinv : InStep c := by
    have hunshared : Along (IrqChain.step wrnIrqDriver dec) (fun _ e => Unshared e)
        (.start ivtRam) es := (along_const_iff (IrqChain.step wrnIrqDriver dec)).mpr hes
    have hthrough : Throughout (IrqChain.step wrnIrqDriver dec) InStep (.start ivtRam) es :=
      hunshared.throughout (I := fun c => InStep c ∧ c.regs.on = c.bound)
        ⟨.start ivtRam, on_start ivtRam⟩ (fun _ h => h.1)
        (fun _ e h he => ⟨h.1.step h.2 he, on_eq_bound_step h.2 e⟩)
    exact hthrough.last
  cases hinv.served with
  | idle _ _ hcalls =>
    refine ⟨?_, fun i hi => (wrnDispatch_lineVector (hinv.ended i hi)).2⟩
    rw [hcalls, List.map_map]
    exact List.map_congr_left fun i hi => (wrnDispatch_lineVector (hinv.ended i hi)).1
  | entered i hne => exact absurd (htodo.symm.trans hne) (by simp)
  | read i hne => exact absurd (htodo.symm.trans hne) (by simp)
  | dispatched i hne => exact absurd (htodo.symm.trans hne) (by simp)
  | acked i hne => exact absurd (htodo.symm.trans hne) (by simp)

/-- A time stamp while the interrupt of a frame is served. -/
theorem calls_eq_ended_two :
    let es : List IrqEvent := [.up, .lines 2, .vic, .enter false, .access, .access, .lines 1,
      .access, .access, .vic, .vic, .enter false, .access, .access, .access, .access]
    let c := run (IrqChain.step wrnIrqDriver lowestFirst) (.start fun _ => 0) es
    c.calls.map wrnDispatch = c.ended.map lineFunction ∧ c.ended = [1, 0] := by
  intro es c
  have hes : ∀ e ∈ es, Unshared e := by simp [es, Unshared]
  exact ⟨(calls_eq_ended lowestFirst (fun _ => 0) hes (by decide)).1, by decide⟩

end SpecSw.Vic
