import SpecSw.Library.Settle
import SpecSw.Nic.Interrupt

/-!
# Interrupts come to rest, unless the NIC reports a receive error

`wrn_interrupt` clears the bits of transmission errors, transmitted frames and received frames. All
interrupts are enabled, so any other bit, in particular that of a receive error, raises the
interrupt of the NIC too, and nothing ever clears it: the handler is called again and again, and
does nothing (`Handled`, `settles_iff`).

Without such a bit, what the driver does on its own comes to an end in whatever order the host runs
the handler and the tasklet. The measure counts the frames that wait, the accesses that are left
and the bits of `EIC_ISR` that no access is about to clear (`NicIrq.work`).

## Main definitions

* `Nic.DriverMove`, `Nic.Handled`, `Nic.NicIrq.work`.

## Main results

* `Nic.lowers_work`, `Nic.live_atRest`, `Nic.settles_iff`.
-/

namespace SpecSw.Nic

open EventRun

/-! ### Moves of the driver -/

/-- What the host does for the driver: it calls `wrn_interrupt` for the interrupt of the NIC, and
runs the handler and the tasklet while they have something to do. -/
def DriverMove (s : NicIrq) : NicIrqEvent → Prop
  | .enter _ => s.hard = [] ∧ s.line = true
  | .access => s.hard ≠ []
  | .tasklet _ _ => s.scheduled = true ∨ s.tasklet ≠ .idle
  | _ => False

/-- The bits of `EIC_ISR` that `wrn_interrupt` handles. -/
def handledBits : List ℕ := [0, 1, 3]

/-- No other bit is set. -/
def Handled (s : NicIrq) : Prop := ∀ k, regBit s.isr k = true → k ∈ handledBits

/-! ### The measure -/

/-- The frames that wait. -/
def NicSystem.backlog (s : NicSystem) : ℕ :=
  s.stored.length - (s.nic.received.length + s.nic.rxErrors)

/-- An access with what follows from it: scheduling the tasklet leads to its start and to two
accesses of it. -/
def NicAccess.work : NicAccess → ℕ
  | .schedule => 4
  | _ => 1

/-- What is left of a pass of the tasklet over an empty ring. -/
def RxStage.work : RxStage → ℕ
  | .idle => 0
  | .look => 2
  | .found => 1
  | .finished => 1

/-- The access clears a bit of `EIC_ISR`. -/
def NicAccess.clears (k : ℕ) : NicAccess → Bool
  | .ackIsr mask => regBit mask k
  | _ => false

/-- A bit of `EIC_ISR` that the handler has not come to. -/
def NicIrq.unseen (s : NicIrq) (k : ℕ) : Bool :=
  regBit s.isr k && !s.hard.any (NicAccess.clears k)

/-- What is left to do. -/
def NicIrq.work (s : NicIrq) : ℕ :=
  2 * s.sys.backlog + (s.hard.map NicAccess.work).sum + 3 * s.scheduled.toNat +
    s.tasklet.work + 10 * handledBits.countP s.unseen

/-! ### Frames -/

theorem NicSystem.NicInv.processed {s : NicSystem} (h : s.NicInv) :
    s.nic.received.length + s.nic.rxErrors ≤ s.stored.length ∧
      (s.drained = false → s.nic.received.length + s.nic.rxErrors < s.stored.length) := by
  obtain ⟨processed, pending, hstored, hacc⟩ := h.rx.accounted
  have hreceived : s.nic.received.length + s.nic.rxErrors = processed.length := by
    have hlen := congrArg List.length hacc.received
    rw [List.length_map, List.length_map] at hlen
    have hparts := List.length_eq_countP_add_countP RxFrame.errored (l := processed)
    rw [hlen, hacc.rxErrors, ← List.countP_eq_length_filter]
    simp only [Bool.not_eq_true, Bool.decide_eq_false] at hparts
    omega
  have hlength : s.stored.length = processed.length + pending.length := by
    rw [hstored, List.length_append]
  refine ⟨by omega, fun hfull => ?_⟩
  have hpending : pending ≠ [] := by
    rintro rfl
    have hhead := hacc.holds.head?_eq
    rw [rxSlot, if_neg (by rw [← NicSystem.drained, hfull]; decide)] at hhead
    exact absurd hhead (by simp)
  have hpos := List.length_pos_iff.mpr hpending
  omega

/-- A frame of port 0 is passed on or counted. -/
theorem wrnRxDescriptor_handles {nic : NicDev} {i : Desc} (hport : (nic.rxd i).port = 0)
    (r : PpsgReads) (fresh : ℤ → Byte) :
    (wrnRxDescriptor r fresh nic i).received.length + (wrnRxDescriptor r fresh nic i).rxErrors =
      nic.received.length + nic.rxErrors + 1 := by
  cases herrored : (nic.rxd i).errored with
  | true => simp [wrnRxDescriptor, herrored, NicDev.rearm, Nat.add_assoc]
  | false =>
    simp only [wrnRxDescriptor, herrored, hport, NicDev.rearm, Bool.false_eq_true, if_false, ne_eq,
      not_true_eq_false, List.length_append, List.length_singleton]
    omega

/-- A round of the tasklet at a full descriptor handles one frame. -/
theorem NicSystem.NicInv.backlog_rxRound {s : NicSystem} (h : s.NicInv) (hfull : s.drained = false)
    (r : PpsgReads) (fresh : ℤ → Byte) :
    (s.step (.rxRound r fresh)).backlog + 1 = s.backlog := by
  have hempty : ¬ (s.nic.rxd s.nic.nextRx).empty = true := by
    rw [← NicSystem.drained, hfull]
    decide
  have hport := h.rx.port s.nic.nextRx (by simpa using hempty)
  have hhandles := wrnRxDescriptor_handles hport r fresh
  have hlt := h.processed.2 hfull
  simp only [NicSystem.step, wrnRxRound, if_neg hempty, NicSystem.backlog, hhandles]
  omega

/-! ### Every move lowers the measure -/

section Measure

variable {s : NicIrq}

/-- `wrn_interrupt` clears the bits it handles if it has read them. -/
theorem any_clears_wrnInterrupt (r : Desc → PpsgReads) {irqs : BitVec 32} {k : ℕ}
    (hk : k ∈ handledBits) (h : regBit irqs k = true) :
    (wrnInterrupt r irqs).any (NicAccess.clears k) = true := by
  have hmem : k = 0 ∨ k = 1 ∨ k = 3 := by simpa [handledBits] using hk
  simp only [wrnInterrupt, List.any_append, Bool.or_eq_true]
  obtain rfl | rfl | rfl := hmem
  · have hread : irqs &&& nicEicRcomp ≠ 0 := (and_ne_zero_iff (by decide)).mpr h
    rw [if_pos hread]
    exact .inr (by simp [NicAccess.clears])
  · have hread : irqs &&& nicEicTcomp ≠ 0 := (and_ne_zero_iff (by decide)).mpr h
    rw [if_pos hread]
    exact .inl (.inr (by simp [NicAccess.clears]))
  · have hread : irqs &&& nicEicTxerr ≠ 0 := (and_ne_zero_iff (by decide)).mpr h
    rw [if_pos hread]
    exact .inl (.inl (by simp [NicAccess.clears]))

theorem work_wrnInterrupt_le (r : Desc → PpsgReads) (irqs : BitVec 32) :
    ((wrnInterrupt r irqs).map NicAccess.work).sum ≤ 9 := by
  simp only [wrnInterrupt]
  split_ifs <;> simp [NicAccess.work]

/-- A call of the handler for a bit that it has not seen. -/
theorem work_enter_lt (h : Handled s) (hhard : s.hard = []) (hline : s.line = true)
    (r : Desc → PpsgReads) : (s.step (.enter r)).work < s.work := by
  have hstep : s.step (.enter r) = { s with hard := wrnInterrupt r s.isr } := by
    simp only [NicIrq.step, hhard]
  have hafter : handledBits.countP (s.step (.enter r)).unseen = 0 := by
    refine List.countP_eq_zero.mpr fun k hk => ?_
    rw [hstep, NicIrq.unseen]
    cases hbit : regBit s.isr k with
    | false => simp
    | true => simp [any_clears_wrnInterrupt r hk hbit]
  have hbefore : 0 < handledBits.countP s.unseen := by
    have hne : s.isr &&& s.imr ≠ 0 := by simpa [NicIrq.line] using hline
    obtain ⟨k, hk⟩ := not_forall.mp (mt eq_zero_iff_regBit.mpr hne)
    rw [regBit_and, Bool.not_eq_false, Bool.and_eq_true] at hk
    refine List.countP_pos_iff.mpr ⟨k, h k hk.1, ?_⟩
    simp [NicIrq.unseen, hhard, hk.1]
  have hle := work_wrnInterrupt_le r s.isr
  rw [NicIrq.work, NicIrq.work, hafter, hhard]
  simp only [hstep, List.map_nil, List.sum_nil]
  omega

/-- The next access of the handler. -/
theorem work_access_lt {a : NicAccess} {rest : List NicAccess} (hhard : s.hard = a :: rest) :
    (s.step .access).work < s.work := by
  have hstep : s.step .access = { s.exec a with hard := rest } := by
    simp only [NicIrq.step, hhard]
  have hunseen : (s.step .access).unseen = s.unseen := by
    funext k
    rw [hstep, NicIrq.unseen, NicIrq.unseen, hhard, List.any_cons]
    cases a with
    | ackIsr mask => simp [NicIrq.exec, NicAccess.clears, Bool.and_assoc]
    | idr mask => simp [NicIrq.exec, NicAccess.clears]
    | txInterrupt r => simp [NicIrq.exec, NicAccess.clears]
    | schedule => simp [NicIrq.exec, NicAccess.clears]
  rw [NicIrq.work, NicIrq.work, hunseen, hstep, hhard, List.map_cons, List.sum_cons]
  cases a with
  | ackIsr mask => simp only [NicIrq.exec, NicAccess.work]; omega
  | idr mask => simp only [NicIrq.exec, NicAccess.work]; omega
  | txInterrupt r =>
    have hbacklog : (s.sys.step (.txInterrupt r)).backlog = s.sys.backlog := rfl
    simp only [NicIrq.exec, NicAccess.work, hbacklog]
    omega
  | schedule =>
    have hle := Bool.toNat_le s.scheduled
    simp only [NicIrq.exec, NicAccess.work, Bool.toNat_true]
    omega

/-- The next access of the tasklet. -/
theorem work_tasklet_lt (h : RxAwake s) (hmove : s.scheduled = true ∨ s.tasklet ≠ .idle)
    (r : PpsgReads) (fresh : ℤ → Byte) : (s.runTasklet r fresh).work < s.work := by
  cases hstage : s.tasklet with
  | idle =>
    have hsched : s.scheduled = true := hmove.resolve_right (by simp [hstage])
    have hunseen : NicIrq.unseen { s with scheduled := false, tasklet := .look } = s.unseen := rfl
    simp only [NicIrq.runTasklet, hstage, hsched, if_true, NicIrq.work, RxStage.work, hunseen,
      Bool.toNat_false, Bool.toNat_true]
    omega
  | look =>
    have hunseen : ∀ stage, NicIrq.unseen { s with tasklet := stage } = s.unseen := fun _ => rfl
    simp only [NicIrq.runTasklet, hstage, NicIrq.work, RxStage.work, hunseen]
    split_ifs <;> simp only <;> omega
  | found =>
    have hbacklog := h.nic.backlog_rxRound (h.found hstage) r fresh
    have hunseen : NicIrq.unseen { s with sys := s.sys.step (.rxRound r fresh), tasklet := .look } =
        s.unseen := rfl
    simp only [NicIrq.runTasklet, hstage, NicIrq.work, RxStage.work, hunseen]
    omega
  | finished =>
    have hunseen : NicIrq.unseen { s with imr := s.imr ||| nicEicRcomp, tasklet := .idle } =
        s.unseen := rfl
    simp only [NicIrq.runTasklet, hstage, NicIrq.work, RxStage.work, hunseen]
    omega

end Measure

/-! ### The two outcomes -/

/-- The driver sets no bit of `EIC_ISR`. -/
theorem regBit_isr_of_move {s : NicIrq} {e : NicIrqEvent} (he : DriverMove s e) {k : ℕ}
    (hk : regBit (s.step e).isr k = true) : regBit s.isr k = true := by
  cases e with
  | enter r =>
    simp only [NicIrq.step, he.1] at hk
    exact hk
  | access =>
    cases hhard : s.hard with
    | nil => exact absurd hhard he
    | cons a rest =>
      simp only [NicIrq.step, hhard] at hk
      cases a with
      | ackIsr mask =>
        simp only [NicIrq.exec, regBit_clear, Bool.and_eq_true] at hk
        exact hk.1
      | idr mask => exact hk
      | txInterrupt r => exact hk
      | schedule => exact hk
  | tasklet r fresh =>
    simp only [NicIrq.step, NicIrq.runTasklet] at hk
    split at hk
    · split_ifs at hk <;> exact hk
    · exact hk
    · exact hk
    · exact hk
  | startXmit skb => exact absurd he id
  | tstampInterrupt r r0 r1 r2 => exact absurd he id
  | transmit => exact absurd he id
  | receive frame => exact absurd he id
  | raise mask => exact absurd he id

/-- With only bits that the handler handles, every move lowers the measure. -/
theorem lowers_work :
    Lowers NicIrq.step (fun s => RxAwake s ∧ Handled s) DriverMove NicIrq.work := by
  rintro s e ⟨hawake, hhandled⟩ he
  refine ⟨⟨hawake.step e, fun k hk => hhandled k (regBit_isr_of_move he hk)⟩, ?_⟩
  cases e with
  | enter r => exact work_enter_lt hhandled he.1 he.2 r
  | access =>
    cases hhard : s.hard with
    | nil => exact absurd hhard he
    | cons a rest => exact work_access_lt hhard
  | tasklet r fresh => exact work_tasklet_lt hawake he r fresh
  | startXmit skb => exact absurd he id
  | tstampInterrupt r r0 r1 r2 => exact absurd he id
  | transmit => exact absurd he id
  | receive frame => exact absurd he id
  | raise mask => exact absurd he id

/-- There is a move until all is at rest. -/
theorem live_atRest (I : NicIrq → Prop) : Live I DriverMove NicIrq.AtRest := by
  intro s _
  by_cases hhard : s.hard = []
  · by_cases htasklet : s.scheduled = true ∨ s.tasklet ≠ .idle
    · exact .inr ⟨.tasklet ⟨0, 0, 0, 0⟩ (fun _ => 0), htasklet⟩
    · rw [not_or, Bool.not_eq_true, not_not] at htasklet
      cases hline : s.line with
      | true => exact .inr ⟨.enter fun _ => ⟨0, 0, 0, 0⟩, hhard, hline⟩
      | false => exact .inl ⟨hhard, htasklet.1, htasklet.2, hline⟩
  · exact .inr ⟨.access, hhard⟩

/-- The handler clears only bits that it handles, and only the interrupt of received frames is ever
disabled. -/
structure ClearsHandled (s : NicIrq) : Prop where
  acks : ∀ mask, .ackIsr mask ∈ s.hard → ∀ k, regBit mask k = true → k ∈ handledBits
  idrs : ∀ mask, .idr mask ∈ s.hard → ∀ k, regBit mask k = true → k = 0
  imr : ∀ k < 32, k ≠ 0 → regBit s.imr k = true

theorem clears_wrnInterrupt (r : Desc → PpsgReads) (irqs mask : BitVec 32) :
    (.ackIsr mask ∈ wrnInterrupt r irqs → ∀ k, regBit mask k = true → k ∈ handledBits) ∧
      (.idr mask ∈ wrnInterrupt r irqs → ∀ k, regBit mask k = true → k = 0) := by
  have hack : .ackIsr mask ∈ wrnInterrupt r irqs →
      mask = nicEicTxerr ∨ mask = nicEicTcomp ∨ mask = nicEicRcomp := by
    simp only [wrnInterrupt]
    split_ifs <;> simp <;> tauto
  have hidr : .idr mask ∈ wrnInterrupt r irqs → mask = nicEicRcomp := by
    simp only [wrnInterrupt]
    split_ifs <;> simp +contextual
  refine ⟨fun h k hk => ?_, fun h k hk => ?_⟩
  · obtain rfl | rfl | rfl := hack h <;> simp at hk <;> simp [hk, handledBits]
  · rw [hidr h] at hk
    simpa using hk

namespace ClearsHandled

variable {s : NicIrq}

theorem tail (h : ClearsHandled s) {a : NicAccess} {rest : List NicAccess}
    (hhard : s.hard = a :: rest) {imr : BitVec 32}
    (himr : ∀ k < 32, k ≠ 0 → regBit imr k = true) {isr : BitVec 32} {sys : NicSystem}
    {scheduled : Bool} :
    ClearsHandled { s with
      sys := sys, isr := isr, imr := imr, hard := rest, scheduled := scheduled } :=
  ⟨fun mask hmem => h.acks mask (hhard ▸ List.mem_cons_of_mem a hmem),
    fun mask hmem => h.idrs mask (hhard ▸ List.mem_cons_of_mem a hmem), himr⟩

theorem step (h : ClearsHandled s) (e : NicIrqEvent) : ClearsHandled (s.step e) := by
  cases e with
  | startXmit skb => exact ⟨h.acks, h.idrs, h.imr⟩
  | tstampInterrupt r r0 r1 r2 => exact ⟨h.acks, h.idrs, h.imr⟩
  | transmit => exact ⟨h.acks, h.idrs, h.imr⟩
  | receive frame => exact ⟨h.acks, h.idrs, h.imr⟩
  | raise mask => exact ⟨h.acks, h.idrs, h.imr⟩
  | enter r =>
    cases hhard : s.hard with
    | nil =>
      simp only [NicIrq.step, hhard]
      exact ⟨fun mask => (clears_wrnInterrupt r s.isr mask).1,
        fun mask => (clears_wrnInterrupt r s.isr mask).2, h.imr⟩
    | cons a rest =>
      simp only [NicIrq.step, hhard]
      exact h
  | access =>
    cases hhard : s.hard with
    | nil =>
      simp only [NicIrq.step, hhard]
      exact h
    | cons a rest =>
      simp only [NicIrq.step, hhard]
      cases a with
      | ackIsr mask => exact h.tail hhard h.imr
      | idr mask =>
        refine h.tail hhard fun k hlt hk => ?_
        have hmask : regBit mask k = false := by
          by_contra hbit
          exact hk (h.idrs mask (hhard ▸ List.mem_cons_self) k (by simpa using hbit))
        rw [NicIrq.exec, regBit_clear, h.imr k hlt hk, hmask]
        rfl
      | txInterrupt r => exact h.tail hhard h.imr
      | schedule => exact h.tail hhard h.imr
  | tasklet r fresh =>
    simp only [NicIrq.step, NicIrq.runTasklet]
    split
    · split_ifs <;> exact ⟨h.acks, h.idrs, h.imr⟩
    · exact ⟨h.acks, h.idrs, h.imr⟩
    · exact ⟨h.acks, h.idrs, h.imr⟩
    · refine ⟨h.acks, h.idrs, fun k hlt hk => ?_⟩
      simp [h.imr k hlt hk]

/-- A bit that the handler does not handle stays. -/
theorem regBit_isr_step (h : ClearsHandled s) {k : ℕ} (hk : k ∉ handledBits)
    (hbit : regBit s.isr k = true) {e : NicIrqEvent} (he : DriverMove s e) :
    regBit (s.step e).isr k = true := by
  cases e with
  | enter r => simpa only [NicIrq.step, he.1] using hbit
  | access =>
    cases hhard : s.hard with
    | nil => exact absurd hhard he
    | cons a rest =>
      simp only [NicIrq.step, hhard]
      cases a with
      | ackIsr mask =>
        have hmask : regBit mask k = false := by
          by_contra hset
          exact hk (h.acks mask (hhard ▸ List.mem_cons_self) k (by simpa using hset))
        simp [NicIrq.exec, hbit, hmask]
      | idr mask => exact hbit
      | txInterrupt r => exact hbit
      | schedule => exact hbit
  | tasklet r fresh =>
    simp only [NicIrq.step, NicIrq.runTasklet]
    split
    · split_ifs <;> exact hbit
    · exact hbit
    · exact hbit
    · exact hbit
  | startXmit skb => exact absurd he id
  | tstampInterrupt r r0 r1 r2 => exact absurd he id
  | transmit => exact absurd he id
  | receive frame => exact absurd he id
  | raise mask => exact absurd he id

/-- While it is set there is an interrupt. -/
theorem line_of_regBit (h : ClearsHandled s) {k : ℕ} (hk : k ∉ handledBits)
    (hbit : regBit s.isr k = true) : s.line = true := by
  have hlt : k < 32 := BitVec.lt_of_getLsbD hbit
  have hzero : k ≠ 0 := by
    rintro rfl
    exact hk List.mem_cons_self
  have hboth : regBit (s.isr &&& s.imr) k = true := by
    rw [regBit_and, hbit, h.imr k hlt hzero, Bool.and_self]
  rw [NicIrq.line, bne_iff_ne]
  intro hnone
  exact absurd (eq_zero_iff_regBit.mp hnone k) (by rw [hboth]; decide)

end ClearsHandled

theorem clearsHandled_run (hw : PowerOn) (rx2 : Desc → BitVec 32) (isr : BitVec 32)
    (es : List NicIrqEvent) : ClearsHandled (run NicIrq.step (.start hw rx2 isr) es) := by
  refine run_invariant (I := fun _ s => ClearsHandled s) ?_ (fun _ _ e h => h.step e) es
  exact ⟨nofun, nofun, fun k hlt _ => regBit_wrnIrqAll hlt⟩

/-- **Interrupts come to rest exactly without a bit that nobody handles.** From every state that a
run reaches: if only bits that `wrn_interrupt` handles are set in `EIC_ISR`, then as long as the
hardware is quiet the host can make no more than `work` moves for the driver, in any order, and
when it can make no more all is at rest. If another bit is set, as that of a receive error, there
is a move after any number of them. -/
theorem settles_iff (hw : PowerOn) (rx2 : Desc → BitVec 32) (isr : BitVec 32)
    (es : List NicIrqEvent) :
    let s := run NicIrq.step (.start hw rx2 isr) es
    (Handled s → ∀ es', Along NicIrq.step DriverMove s es' → es'.length ≤ s.work ∧
      ((∀ e, ¬ DriverMove (run NicIrq.step s es') e) → (run NicIrq.step s es').AtRest)) ∧
    (¬ Handled s → ∀ es', Along NicIrq.step DriverMove s es' →
      ∃ e, DriverMove (run NicIrq.step s es') e) := by
  intro s
  have hawake : RxAwake s := rxAwake_run hw rx2 isr es
  have hclears : ClearsHandled s := clearsHandled_run hw rx2 isr es
  refine ⟨fun hhandled es' hes' => ⟨?_, fun hmax => ?_⟩, fun hbad es' hes' => ?_⟩
  · have hle := length_add_measure_le lowers_work ⟨hawake, hhandled⟩ hes'
    omega
  · exact goal_of_maximal lowers_work (live_atRest _) ⟨hawake, hhandled⟩ hes' hmax
  · obtain ⟨k, hk⟩ := not_forall.mp hbad
    obtain ⟨hbit, hmem⟩ := Classical.not_imp.mp hk
    have hkept : Throughout NicIrq.step (fun t => t.line = true) s es' :=
      Along.throughout (I := fun t => ClearsHandled t ∧ regBit t.isr k = true) ⟨hclears, hbit⟩
        (fun _ h => h.1.line_of_regBit hmem h.2)
        (fun _ e h he => ⟨h.1.step e, h.1.regBit_isr_step hmem h.2 he⟩) hes'
    obtain hrest | hmove := live_atRest (fun _ => True) (run NicIrq.step s es') trivial
    · exact absurd (hkept.last.symm.trans hrest.line) (by decide)
    · exact hmove

end SpecSw.Nic
