import SpecSw.Nic.Delivery

/-!
# `wrn_interrupt` and the receive tasklet

The NIC sets a bit of `EIC_ISR` when a frame has been stored, when a frame has been sent and on
errors; the bits that are enabled in `EIC_IMR` raise its interrupt. `wrn_interrupt` reads
`EIC_ISR` and handles the bits it has read one after the other. For a received frame it clears the
bit, disables the interrupt and schedules `wrn_rx_interrupt`, which works through the receive
descriptors and enables the interrupt again at its end.

The hardware, the calls of `wrn_start_xmit`, the interrupt handler and the tasklet run
concurrently: each event is one access of one of them.

No wake-up is lost: whenever a stored frame waits, the bit of received frames is set or a look at
the descriptors is still to come, and whenever that bit is disabled, somebody is about to enable it
(`RxAwake`).

## Main definitions

* `Nic.wrnInterrupt`, `Nic.NicIrq`, `Nic.NicIrqEvent`, `Nic.NicIrq.step`.
* `Nic.RxAwake`, `Nic.NicIrq.AtRest`.

## Main results

* `Nic.RxAwake.step`, `Nic.received_of_atRest`.
-/

namespace SpecSw.Nic

open EventRun

/-! ### The interrupt registers -/

/-- `NIC_EIC_ISR_RCOMP`: a frame has been stored in memory. -/
def nicEicRcomp : BitVec 32 := 1 <<< 0

/-- `NIC_EIC_ISR_TCOMP`: a frame has been transmitted. -/
def nicEicTcomp : BitVec 32 := 1 <<< 1

/-- `NIC_EIC_ISR_TXERR`. -/
def nicEicTxerr : BitVec 32 := 1 <<< 3

/-- `WRN_IRQ_ALL`. -/
def wrnIrqAll : BitVec 32 := ~~~0

/-- A bit of a register. -/
def regBit (v : BitVec 32) (k : ℕ) : Bool := v.getLsbD k

@[simp] theorem regBit_or (v w : BitVec 32) (k : ℕ) :
    regBit (v ||| w) k = (regBit v k || regBit w k) := BitVec.getLsbD_or

theorem regBit_and (v w : BitVec 32) (k : ℕ) :
    regBit (v &&& w) k = (regBit v k && regBit w k) := BitVec.getLsbD_and

/-- Clearing the bits of a mask. -/
@[simp] theorem regBit_clear (v mask : BitVec 32) (k : ℕ) :
    regBit (v &&& ~~~mask) k = (regBit v k && !regBit mask k) := by
  rw [regBit, BitVec.getLsbD_and, BitVec.getLsbD_not]
  by_cases hk : k < 32
  · simp [regBit, hk]
  · have hzero : v.getLsbD k = false := BitVec.getLsbD_of_ge v k (by omega)
    simp [regBit, hzero]

theorem regBit_one_shiftLeft {j : ℕ} (hj : j < 32) (k : ℕ) :
    regBit (1 <<< j) k = decide (k = j) := by
  have hpow : (1 <<< j : BitVec 32) = BitVec.twoPow 32 j := rfl
  rw [regBit, hpow, BitVec.getLsbD_twoPow]
  simp [hj, eq_comm]

@[simp] theorem regBit_nicEicRcomp (k : ℕ) : regBit nicEicRcomp k = decide (k = 0) :=
  regBit_one_shiftLeft (by decide) k

@[simp] theorem regBit_nicEicTcomp (k : ℕ) : regBit nicEicTcomp k = decide (k = 1) :=
  regBit_one_shiftLeft (by decide) k

@[simp] theorem regBit_nicEicTxerr (k : ℕ) : regBit nicEicTxerr k = decide (k = 3) :=
  regBit_one_shiftLeft (by decide) k

theorem regBit_wrnIrqAll {k : ℕ} (hk : k < 32) : regBit wrnIrqAll k = true := by
  have hall : wrnIrqAll = BitVec.allOnes 32 := by decide
  rw [regBit, hall, BitVec.getLsbD_allOnes, decide_eq_true hk]

/-- A register is 0 when none of its bits is set. -/
theorem eq_zero_iff_regBit {v : BitVec 32} : v = 0 ↔ ∀ k, regBit v k = false := by
  refine ⟨fun h k => by rw [h]; exact BitVec.getLsbD_zero, fun h => ?_⟩
  exact BitVec.eq_of_getLsbD_eq fun k _ => (h k).trans BitVec.getLsbD_zero.symm

/-- A mask test of the source. -/
theorem and_ne_zero_iff {v : BitVec 32} {j : ℕ} (hj : j < 32) :
    v &&& 1 <<< j ≠ 0 ↔ regBit v j = true := by
  rw [ne_eq, eq_zero_iff_regBit, not_forall]
  constructor
  · rintro ⟨k, hk⟩
    rw [regBit_and, regBit_one_shiftLeft hj, Bool.not_eq_false, Bool.and_eq_true,
      decide_eq_true_eq] at hk
    exact hk.2 ▸ hk.1
  · intro h
    refine ⟨j, ?_⟩
    rw [regBit_and, regBit_one_shiftLeft hj, h]
    simp

/-! ### The driver -/

/-- What `wrn_interrupt` does for the bits it has read: `writel` to `EIC_ISR` and `EIC_IDR`,
`wrn_tx_interrupt` and `tasklet_schedule`. -/
inductive NicAccess
  | ackIsr (mask : BitVec 32)
  | idr (mask : BitVec 32)
  | txInterrupt (r : Desc → PpsgReads)
  | schedule

/-- `wrn_interrupt` from the read of `EIC_ISR` on. -/
def wrnInterrupt (r : Desc → PpsgReads) (irqs : BitVec 32) : List NicAccess :=
  (if irqs &&& nicEicTxerr ≠ 0 then [.ackIsr nicEicTxerr] else []) ++
  (if irqs &&& nicEicTcomp ≠ 0 then [.txInterrupt r, .ackIsr nicEicTcomp] else []) ++
  (if irqs &&& nicEicRcomp ≠ 0 then
    -- disable the interrupt first, then run the tasklet
    [.ackIsr nicEicRcomp, .idr nicEicRcomp, .schedule]
  else [])

/-- Where `wrn_rx_interrupt` is: not running; about to read a descriptor; it has found it full; it
has found it empty and is about to write `EIC_IER`. -/
inductive RxStage
  | idle
  | look
  | found
  | finished
  deriving DecidableEq

/-- The NIC with its interrupt registers, what is left to do of `wrn_interrupt`, whether the
tasklet is scheduled and where it is. -/
structure NicIrq where
  sys : NicSystem
  isr : BitVec 32
  imr : BitVec 32
  hard : List NicAccess
  scheduled : Bool
  tasklet : RxStage

/-- What can happen: a call of `wrn_start_xmit`; a time stamp interrupt; a transmission ends; a
frame arrives; the hardware sets bits of `EIC_ISR`; `wrn_interrupt` is called and reads `EIC_ISR`;
it makes its next access; the tasklet makes its next one. -/
inductive NicIrqEvent
  | startXmit (skb : SkBuff)
  | tstampInterrupt (r : PpsgReads) (r0 r1 r2 : BitVec 32)
  | transmit
  | receive (frame : RxFrame)
  | raise (mask : BitVec 32)
  | enter (r : Desc → PpsgReads)
  | access
  | tasklet (r : PpsgReads) (fresh : ℤ → Byte)

namespace NicIrq

/-- An access of `wrn_interrupt`. A tasklet that is scheduled already is not scheduled twice. -/
def exec (s : NicIrq) : NicAccess → NicIrq
  | .ackIsr mask => { s with isr := s.isr &&& ~~~mask }
  | .idr mask => { s with imr := s.imr &&& ~~~mask }
  | .txInterrupt r => { s with sys := s.sys.step (.txInterrupt r) }
  | .schedule => { s with scheduled := true }

/-- An access of `wrn_rx_interrupt`, which is started when it is scheduled. -/
def runTasklet (r : PpsgReads) (fresh : ℤ → Byte) (s : NicIrq) : NicIrq :=
  match s.tasklet with
  | .idle => if s.scheduled then { s with scheduled := false, tasklet := .look } else s
  | .look =>
    { s with tasklet := if (s.sys.nic.rxd s.sys.nic.nextRx).empty then .finished else .found }
  | .found => { s with sys := s.sys.step (.rxRound r fresh), tasklet := .look }
  | .finished => { s with imr := s.imr ||| nicEicRcomp, tasklet := .idle }

/-- Each event. `wrn_interrupt` is not called while it runs. -/
def step (s : NicIrq) : NicIrqEvent → NicIrq
  | .startXmit skb => { s with sys := s.sys.step (.startXmit skb) }
  | .tstampInterrupt r r0 r1 r2 => { s with sys := s.sys.step (.tstampInterrupt r r0 r1 r2) }
  | .transmit =>
    { s with
      sys := s.sys.step .transmit
      isr := if (s.sys.nic.txd s.sys.txPtr).ready then s.isr ||| nicEicTcomp else s.isr }
  | .receive frame =>
    { s with
      sys := s.sys.step (.receive frame)
      isr := if (s.sys.nic.rxd s.sys.rxPtr).empty then s.isr ||| nicEicRcomp else s.isr }
  | .raise mask => { s with isr := s.isr ||| mask }
  | .enter r =>
    match s.hard with
    | [] => { s with hard := wrnInterrupt r s.isr }
    | _ :: _ => s
  | .access =>
    match s.hard with
    | [] => s
    | a :: rest => { s.exec a with hard := rest }
  | .tasklet r fresh => s.runTasklet r fresh

/-- Once the driver is probed, with all interrupts enabled. -/
def start (hw : PowerOn) (rx2 : Desc → BitVec 32) (isr : BitVec 32) : NicIrq :=
  ⟨NicSystem.start hw rx2, isr, wrnIrqAll, [], false, .idle⟩

/-- The interrupt of the NIC. -/
def line (s : NicIrq) : Bool := s.isr &&& s.imr != 0

/-- Neither the handler nor the tasklet has anything to do, and there is no interrupt. -/
structure AtRest (s : NicIrq) : Prop where
  hard : s.hard = []
  scheduled : s.scheduled = false
  tasklet : s.tasklet = .idle
  line : s.line = false

end NicIrq

/-! ### The receive side under the other events -/

/-- The descriptor that the tasklet looks at next is empty. -/
def NicSystem.drained (s : NicSystem) : Bool := (s.nic.rxd s.nic.nextRx).empty

/-- An event that does not concern the receive side. -/
def NicEvent.Transmits : NicEvent → Prop
  | .receive _ => False
  | .rxRound _ _ => False
  | _ => True

theorem drained_step_of_transmits (s : NicSystem) {e : NicEvent} (he : e.Transmits) :
    (s.step e).drained = s.drained := by
  cases e with
  | startXmit skb => rfl
  | transmit =>
    simp only [NicSystem.step]
    split_ifs <;> rfl
  | txInterrupt r => rfl
  | tstampInterrupt r r0 r1 r2 => rfl
  | receive frame => exact absurd he id
  | rxRound r fresh => exact absurd he id

/-- A frame that arrives fills no descriptor that is full, and empties none. -/
theorem drained_step_receive {s : NicSystem} (h : s.drained = false) (frame : RxFrame) :
    (s.step (.receive frame)).drained = false := by
  simp only [NicSystem.step]
  split_ifs with hempty
  · by_cases hptr : s.nic.nextRx = s.rxPtr
    · rw [← hptr] at hempty
      exact absurd (h.symm.trans hempty) (by decide)
    · rw [NicSystem.drained] at h ⊢
      simpa [nicStore, Function.update_of_ne hptr] using h
  · exact h

/-! ### No wake-up is lost -/

/-- A look of the tasklet at the descriptor is still to come. -/
def NicIrq.Looks (s : NicIrq) : Prop :=
  .schedule ∈ s.hard ∨ s.scheduled = true ∨ s.tasklet = .look ∨ s.tasklet = .found

/-- The interrupt for received frames is still to be enabled. -/
def NicIrq.Enables (s : NicIrq) : Prop :=
  .schedule ∈ s.hard ∨ s.scheduled = true ∨ s.tasklet ≠ .idle

/-- The bit of received frames is cleared or disabled only before the tasklet is scheduled. -/
def SchedulesAfter : List NicAccess → Prop
  | [] => True
  | .ackIsr mask :: rest => (regBit mask 0 = true → .schedule ∈ rest) ∧ SchedulesAfter rest
  | .idr mask :: rest => (regBit mask 0 = true → .schedule ∈ rest) ∧ SchedulesAfter rest
  | .txInterrupt _ :: rest => SchedulesAfter rest
  | .schedule :: rest => SchedulesAfter rest

theorem schedulesAfter_wrnInterrupt (r : Desc → PpsgReads) (irqs : BitVec 32) :
    SchedulesAfter (wrnInterrupt r irqs) := by
  simp only [wrnInterrupt]
  split_ifs <;> simp [SchedulesAfter]

/-- The receive side is awake: a stored frame that waits has been signalled or will be seen, and the
interrupt is enabled or will be. -/
structure RxAwake (s : NicIrq) : Prop where
  nic : s.sys.NicInv
  hard : SchedulesAfter s.hard
  enabled : regBit s.imr 0 = true ∨ s.Enables
  waiting : s.sys.drained = false → regBit s.isr 0 = true ∨ s.Looks
  found : s.tasklet = .found → s.sys.drained = false

namespace RxAwake

variable {s : NicIrq}

theorem start (hw : PowerOn) (rx2 : Desc → BitVec 32) (isr : BitVec 32) :
    RxAwake (.start hw rx2 isr) := by
  refine ⟨NicSystem.nicInv_start hw rx2, trivial, .inl ?_, fun h => ?_, fun h => ?_⟩
  · exact regBit_wrnIrqAll (by decide)
  · exact absurd ((rearmed_fields 0 (rx2 0)).1.symm.trans h) (by decide)
  · exact absurd h (by simp [NicIrq.start])

/-- A step of the NIC that leaves the receive side alone, with more bits set in `EIC_ISR`. -/
theorem transmits (h : RxAwake s) {e : NicEvent} (he : e.Transmits) {isr : BitVec 32}
    (hisr : regBit s.isr 0 = true → regBit isr 0 = true) :
    RxAwake { s with sys := s.sys.step e, isr := isr } := by
  have hdrained := drained_step_of_transmits s.sys he
  refine ⟨h.nic.step e, h.hard, h.enabled, fun hfull => ?_, fun hstage => ?_⟩
  · exact (h.waiting (hdrained ▸ hfull)).imp hisr id
  · exact hdrained.trans (h.found hstage)

theorem receive (h : RxAwake s) (frame : RxFrame) : RxAwake (s.step (.receive frame)) := by
  refine ⟨h.nic.step (.receive frame), h.hard, h.enabled, fun hfull => ?_, fun hstage => ?_⟩
  · by_cases hempty : (s.sys.nic.rxd s.sys.rxPtr).empty = true
    · exact .inl (by simp [NicIrq.step, hempty])
    · have hsame : s.sys.step (.receive frame) = s.sys := if_neg hempty
      have hold : s.sys.drained = false := by rwa [← hsame]
      refine (h.waiting hold).imp (fun hisr => ?_) id
      simpa [NicIrq.step, hempty] using hisr
  · exact drained_step_receive (h.found hstage) frame

theorem raise (h : RxAwake s) (mask : BitVec 32) : RxAwake (s.step (.raise mask)) :=
  ⟨h.nic, h.hard, h.enabled, fun hfull => (h.waiting hfull).imp
    (fun hisr => by simp [NicIrq.step, hisr]) id, h.found⟩

theorem enter (h : RxAwake s) (r : Desc → PpsgReads) : RxAwake (s.step (.enter r)) := by
  cases hhard : s.hard with
  | nil =>
    have hnot : NicAccess.schedule ∉ s.hard := by rw [hhard]; exact List.not_mem_nil
    simp only [NicIrq.step, hhard]
    refine ⟨h.nic, schedulesAfter_wrnInterrupt r s.isr, ?_, fun hfull => ?_, h.found⟩
    · exact h.enabled.imp id fun hen => .inr (hen.resolve_left hnot)
    · exact (h.waiting hfull).imp id fun hlook => .inr (hlook.resolve_left hnot)
  | cons a rest =>
    simpa only [NicIrq.step, hhard] using h

/-- The next access of `wrn_interrupt`. -/
theorem access (h : RxAwake s) {a : NicAccess} {rest : List NicAccess}
    (hhard : s.hard = a :: rest) : RxAwake { s.exec a with hard := rest } := by
  have hafter := hhard ▸ h.hard
  have henabled := h.enabled
  have hwaiting := h.waiting
  simp only [NicIrq.Enables, NicIrq.Looks, hhard, List.mem_cons] at henabled hwaiting
  cases a with
  | ackIsr mask =>
    refine ⟨h.nic, hafter.2, by simpa [NicIrq.Enables, NicIrq.exec] using henabled,
      fun hfull => ?_, h.found⟩
    cases hbit : regBit mask 0 with
    | true => exact .inr (.inl (hafter.1 hbit))
    | false =>
      refine (hwaiting hfull).imp (fun hisr => ?_) fun hlook =>
        by simpa [NicIrq.Looks, NicIrq.exec] using hlook
      simp [NicIrq.exec, hisr, hbit]
  | idr mask =>
    refine ⟨h.nic, hafter.2, ?_, fun hfull =>
      by simpa [NicIrq.Looks, NicIrq.exec] using hwaiting hfull, h.found⟩
    cases hbit : regBit mask 0 with
    | true => exact .inr (.inl (hafter.1 hbit))
    | false =>
      refine henabled.imp (fun himr => ?_) fun hen =>
        by simpa [NicIrq.Enables, NicIrq.exec] using hen
      simp [NicIrq.exec, himr, hbit]
  | txInterrupt r =>
    have hdrained := drained_step_of_transmits s.sys (e := .txInterrupt r) trivial
    refine ⟨h.nic.step (.txInterrupt r), hafter,
      by simpa [NicIrq.Enables, NicIrq.exec] using henabled, fun hfull => ?_, fun hstage => ?_⟩
    · simpa [NicIrq.Looks, NicIrq.exec] using hwaiting (hdrained ▸ hfull)
    · exact hdrained.trans (h.found hstage)
  | schedule =>
    exact ⟨h.nic, hafter, .inr (.inr (.inl rfl)), fun _ => .inr (.inr (.inl rfl)), h.found⟩

/-- The next access of the tasklet. -/
theorem tasklet (h : RxAwake s) (r : PpsgReads) (fresh : ℤ → Byte) :
    RxAwake (s.runTasklet r fresh) := by
  cases hstage : s.tasklet with
  | idle =>
    simp only [NicIrq.runTasklet, hstage]
    split_ifs
    · exact ⟨h.nic, h.hard, .inr (.inr (.inr (by simp))), fun _ => .inr (.inr (.inr (.inl rfl))),
        by simp⟩
    · exact h
  | look =>
    simp only [NicIrq.runTasklet, hstage]
    split_ifs with hempty
    · refine ⟨h.nic, h.hard, .inr (.inr (.inr (by simp))), fun hfull => ?_, by simp⟩
      exact absurd (hempty.symm.trans hfull) (by decide)
    · exact ⟨h.nic, h.hard, .inr (.inr (.inr (by simp))),
        fun _ => .inr (.inr (.inr (.inr rfl))), fun _ =>
        (Bool.not_eq_true _).mp hempty⟩
  | found =>
    simp only [NicIrq.runTasklet, hstage]
    exact ⟨h.nic.step (.rxRound r fresh), h.hard, .inr (.inr (.inr (by simp))),
      fun _ => .inr (.inr (.inr (.inl rfl))), by simp⟩
  | finished =>
    simp only [NicIrq.runTasklet, hstage]
    refine ⟨h.nic, h.hard, .inl (by simp), fun hfull => ?_, by simp⟩
    refine (h.waiting hfull).imp id fun hlook => ?_
    rcases hlook with hmem | hsched | hlook | hlook
    · exact .inl hmem
    · exact .inr (.inl hsched)
    · exact absurd (hstage.symm.trans hlook) (by decide)
    · exact absurd (hstage.symm.trans hlook) (by decide)

/-- Every event keeps it. -/
theorem step (h : RxAwake s) (e : NicIrqEvent) : RxAwake (s.step e) := by
  cases e with
  | startXmit skb => exact h.transmits (e := .startXmit skb) trivial id
  | tstampInterrupt r r0 r1 r2 => exact h.transmits (e := .tstampInterrupt r r0 r1 r2) trivial id
  | transmit =>
    refine h.transmits (e := .transmit) trivial fun hisr => ?_
    split_ifs
    · simp [hisr]
    · exact hisr
  | receive frame => exact h.receive frame
  | raise mask => exact h.raise mask
  | enter r => exact h.enter r
  | access =>
    cases hhard : s.hard with
    | nil => simpa only [NicIrq.step, hhard] using h
    | cons a rest => simpa only [NicIrq.step, hhard] using h.access hhard
  | tasklet r fresh => exact h.tasklet r fresh

/-- At rest no stored frame waits. -/
theorem drained_of_atRest (h : RxAwake s) (hrest : s.AtRest) : s.sys.drained = true := by
  by_contra hfull
  rcases h.waiting (by simpa using hfull) with hisr | hlook
  · rcases h.enabled with himr | hen
    · have hzero : s.isr &&& s.imr = 0 := by simpa [NicIrq.line] using hrest.line
      have hbit := eq_zero_iff_regBit.mp hzero 0
      simp [regBit_and, hisr, himr] at hbit
    · simp [NicIrq.Enables, hrest.hard, hrest.scheduled, hrest.tasklet] at hen
  · simp [NicIrq.Looks, hrest.hard, hrest.scheduled, hrest.tasklet] at hlook

end RxAwake

theorem rxAwake_run (hw : PowerOn) (rx2 : Desc → BitVec 32) (isr : BitVec 32)
    (es : List NicIrqEvent) : RxAwake (run NicIrq.step (.start hw rx2 isr) es) :=
  run_invariant (I := fun _ s => RxAwake s) (.start hw rx2 isr) (fun _ _ e h => h.step e) es

/-- A drained ring has passed on or counted everything that was stored. -/
theorem NicSystem.NicInv.received_of_drained {s : NicSystem} (h : s.NicInv)
    (hdrained : s.drained = true) :
    s.nic.received.map RxSkb.bytes =
        (s.stored.filter fun x => !x.errored).map RxFrame.bytes ∧
      s.nic.rxErrors = s.stored.countP RxFrame.errored := by
  obtain ⟨processed, pending, hstored, hacc⟩ := h.rx.accounted
  rw [hacc.pending_eq_nil hdrained, List.append_nil] at hstored
  rw [hstored]
  exact ⟨hacc.received, hacc.rxErrors⟩

/-- **No received frame is forgotten.** In every run of the hardware, the calls of
`wrn_start_xmit`, `wrn_interrupt` and the receive tasklet, access by access and in any order,
whenever neither the handler nor the tasklet has anything to do and the NIC raises no interrupt,
all frames stored so far have been passed on, in order and with their bytes, or counted as
errors. -/
theorem received_of_atRest (hw : PowerOn) (rx2 : Desc → BitVec 32) (isr : BitVec 32)
    (es : List NicIrqEvent) :
    let s := run NicIrq.step (.start hw rx2 isr) es
    s.AtRest → s.sys.nic.received.map RxSkb.bytes =
        (s.sys.stored.filter fun x => !x.errored).map RxFrame.bytes ∧
      s.sys.nic.rxErrors = s.sys.stored.countP RxFrame.errored := by
  intro s hrest
  have h : RxAwake s := rxAwake_run hw rx2 isr es
  exact h.nic.received_of_drained (h.drained_of_atRest hrest)

/-- A frame of one byte. -/
def oneByteFrame : RxFrame := ⟨1, by decide, fun _ => 0x2a, false, true, false, 0⟩

/-- It is stored, and the tasklet runs until it finds nothing more. -/
theorem received_of_atRest_one :
    let es : List NicIrqEvent := [.receive oneByteFrame, .enter fun _ => ⟨0, 0, 0, 0⟩, .access,
      .access, .access] ++ List.replicate 5 (.tasklet ⟨0, 0, 0, 0⟩ fun _ => 0)
    let s := run NicIrq.step (.start ⟨fun _ => 0, fun _ => 0, fun _ => 0⟩ (fun _ => 0) 0) es
    s.sys.nic.received.map RxSkb.bytes = [[0x2a]] ∧ s.sys.nic.rxErrors = 0 := by
  intro es s
  have hrest : s.AtRest := ⟨by decide, by decide, by decide, by decide⟩
  exact received_of_atRest ⟨fun _ => 0, fun _ => 0, fun _ => 0⟩ (fun _ => 0) 0 es hrest

end SpecSw.Nic
