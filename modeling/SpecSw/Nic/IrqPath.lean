import SpecSw.Nic.Interrupt
import SpecSw.Vic.IrqServed

/-!
# From a stored frame to the host

The interrupt of the NIC is the line 1 of the VIC. `HostIrq` puts together the NIC with its driver
and the VIC with the GN4124 and `wrn_handler`: the line of the VIC follows that of the NIC, and the
dispatch of `wrn_handler` for the vector of the NIC calls `wrn_interrupt`, which makes its accesses
before `wrn_handler` goes on. All the rest happens in any order.

Each of the two parts makes a run of its own, so what has been proved of them holds of the whole:
the VIC and the GN4124 lose no interrupt, hence the NIC has none when all is at rest, and then no
frame waits.

## Main definitions

* `Nic.HostIrq`, `Nic.HostEvent`, `Nic.HostIrq.step`, `Nic.HostIrq.AtRest`.

## Main results

* `Nic.HostIrq.chain_run`, `Nic.HostIrq.nic_run`, `Nic.HostIrq.drained_of_atRest`,
  `Nic.HostIrq.received_at_rest`.
-/

namespace SpecSw.Nic

open EventRun Vic

/-- The interrupt controllers with `wrn_handler`, and the NIC with its driver. -/
structure HostIrq where
  chain : IrqChain
  nic : NicIrq

/-- What can happen: something in the NIC, `wrn_interrupt` once it is called, or the tasklet; the
other lines of the VIC change; something in the interrupt controllers, or the driver is bound or
released; `wrn_handler` makes its next access, `r` being what `wrn_interrupt` reads of the time if
it is called then. -/
inductive HostEvent
  | nic (e : NicIrqEvent)
  | others (risr : BitVec 32)
  | chain (e : IrqEvent)
  | access (r : Desc → PpsgReads)

namespace HostIrq

/-- The next access of `wrn_handler` calls `wrn_interrupt`. -/
def callsNic (s : HostIrq) : Bool :=
  s.chain.todo.head? == some .dispatch && wrnDispatch s.chain.vector == some .nic

/-- What an event is to the NIC: `wrn_interrupt` is called by `wrn_handler` only. -/
def nicEvents (s : HostIrq) : HostEvent → List NicIrqEvent
  | .nic (.enter _) => []
  | .nic e => [e]
  | .access r => if s.nic.hard = [] ∧ s.callsNic then [.enter r] else []
  | _ => []

/-- What an event is to the interrupt controllers, the lines apart: `wrn_handler` waits for
`wrn_interrupt` to return. -/
def chainEvents (s : HostIrq) : HostEvent → List IrqEvent
  | .chain (.lines _) => []
  | .chain .access => []
  | .chain e => [e]
  | .access _ => if s.nic.hard = [] then [.access] else []
  | _ => []

/-- The lines of the VIC, the interrupt of the NIC apart. -/
def otherLines (s : HostIrq) : HostEvent → BitVec 32
  | .others risr => risr
  | _ => s.chain.risr

/-- The bit of the NIC among the lines of the VIC, `WRN_VIC_MASK_NIC`. -/
def nicMask : BitVec 32 := 1 <<< 1

/-- The lines with that of the NIC. -/
def lines (other : BitVec 32) (line : Bool) : BitVec 32 :=
  if line then other ||| nicMask else other &&& ~~~nicMask

variable (dec : PriorityDecode)

/-- Each event: both parts make their steps, and the line of the VIC follows the NIC. -/
def step (s : HostIrq) (e : HostEvent) : HostIrq :=
  let nic := run NicIrq.step s.nic (s.nicEvents e)
  ⟨run (IrqChain.step wrnIrqDriver dec) s.chain
      (s.chainEvents e ++ [.lines (lines (s.otherLines e) nic.line)]), nic⟩

/-- Once the NIC is probed, with the VIC still off. -/
def start (ivtRam : LineNr → BitVec 32) (hw : PowerOn) (rx2 : Desc → BitVec 32)
    (isr : BitVec 32) : HostIrq :=
  ⟨.start ivtRam, .start hw rx2 isr⟩

/-- Nobody has anything to do: the host is not interrupted, the VIC, which is enabled, does not
move, and no handler and no tasklet runs. -/
structure AtRest (s : HostIrq) : Prop where
  chain : Vic.AtRest dec s.chain
  hard : s.nic.hard = []
  scheduled : s.nic.scheduled = false
  tasklet : s.nic.tasklet = .idle

/-- The driver is bound while no early call of `wrn_handler` is in progress. -/
def InPeace (s : HostIrq) : HostEvent → Prop
  | .chain .up => acksVicLast s.chain.todo = true
  | _ => True

variable {dec} {s : HostIrq}

/-! ### The two parts -/

/-- The interrupt controllers make a run. -/
theorem chain_run (s : HostIrq) (es : List HostEvent) :
    (run (step dec) s es).chain = run (IrqChain.step wrnIrqDriver dec) s.chain
      (collect (step dec) (fun s e => s.chainEvents e ++
        [.lines (lines (s.otherLines e) (run NicIrq.step s.nic (s.nicEvents e)).line)]) s es) :=
  run_collect (f := HostIrq.chain) (fun _ _ => rfl) s es

/-- The NIC makes a run. -/
theorem nic_run (s : HostIrq) (es : List HostEvent) :
    (run (step dec) s es).nic = run NicIrq.step s.nic (collect (step dec) nicEvents s es) :=
  run_collect (f := HostIrq.nic) (fun _ _ => rfl) s es

/-- The driver is bound in peace in the run of the interrupt controllers too. -/
theorem along_chainEvents {e : HostEvent} (h : s.InPeace e) (risr : BitVec 32) :
    Along (IrqChain.step wrnIrqDriver dec) BoundInPeace s.chain
      (s.chainEvents e ++ [.lines risr]) := by
  refine (along_append _).mpr ⟨?_, trivial, trivial⟩
  cases e with
  | nic e => exact trivial
  | others risr => exact trivial
  | chain e =>
    cases e with
    | up => exact ⟨h, trivial⟩
    | _ => trivial
  | access r =>
    simp only [chainEvents]
    split_ifs
    · exact ⟨trivial, trivial⟩
    · trivial

theorem regBit_lines (other : BitVec 32) (line : Bool) : regBit (lines other line) 1 = line := by
  have hmask : regBit nicMask 1 = true := by decide
  cases line <;> simp [lines, hmask]

/-- The line of the VIC is that of the NIC. -/
theorem line_step (s : HostIrq) (e : HostEvent) :
    regBit (s.step dec e).chain.risr 1 = (s.step dec e).nic.line := by
  simp only [step, run_append, run_cons, run_nil, IrqChain.step]
  exact regBit_lines _ _

/-- In a run of at least one event too. -/
theorem line_run (s : HostIrq) {es : List HostEvent} (hes : es ≠ []) :
    regBit (run (step dec) s es).chain.risr 1 = (run (step dec) s es).nic.line := by
  rw [← List.dropLast_append_getLast hes, run_append]
  exact line_step _ _

/-- The receive side is awake in every run. -/
theorem rxAwake_nic_run {ivtRam : LineNr → BitVec 32} (hw : PowerOn) (rx2 : Desc → BitVec 32)
    (isr : BitVec 32) (es : List HostEvent) :
    RxAwake (run (step dec) (.start ivtRam hw rx2 isr) es).nic := by
  rw [nic_run]
  exact rxAwake_run hw rx2 isr _

/-- When nobody has anything to do, no stored frame waits. -/
theorem drained_of_atRest {ivtRam : LineNr → BitVec 32} {hw : PowerOn} {rx2 : Desc → BitVec 32}
    {isr : BitVec 32} {es : List HostEvent}
    (hpeace : Along (step dec) InPeace (.start ivtRam hw rx2 isr) es)
    (hrest : (run (step dec) (.start ivtRam hw rx2 isr) es).AtRest dec)
    (himr : regBit (run (step dec) (.start ivtRam hw rx2 isr) es).chain.regs.imr 1 = true) :
    (run (step dec) (.start ivtRam hw rx2 isr) es).nic.sys.drained = true := by
  have hne : es ≠ [] := by
    rintro rfl
    have hoff : (IrqChain.start ivtRam).regs.on = false := by simp [IrqChain.start, VicRegs.on]
    exact absurd (hoff.symm.trans hrest.chain.on) Bool.false_ne_true
  -- the interrupt controllers have heard of everything
  have hchain : (run (step dec) (.start ivtRam hw rx2 isr) es).chain =
      run (IrqChain.step wrnIrqDriver dec) (.start ivtRam) _ :=
    chain_run (.start ivtRam hw rx2 isr) es
  have hbound := Along.collect (f := HostIrq.chain) (fun _ _ => rfl)
    (fun _ _ h => @along_chainEvents dec _ _ h _) hpeace
  have hheard : ¬ Unheard (run (step dec) (.start ivtRam hw rx2 isr) es).chain := by
    rw [hchain]
    exact not_unheard_of_along rfl hbound (hchain ▸ hrest.chain)
  have hline : (run (step dec) (.start ivtRam hw rx2 isr) es).nic.line = false := by
    rw [← line_run (.start ivtRam hw rx2 isr) hne]
    have hbit := eq_zero_iff_regBit.mp (not_not.mp hheard) 1
    rw [regBit_and, himr, Bool.and_true] at hbit
    exact hbit
  -- so the NIC is at rest
  exact (rxAwake_nic_run hw rx2 isr es).drained_of_atRest
    ⟨hrest.hard, hrest.scheduled, hrest.tasklet, hline⟩

/-- **No received frame is forgotten on the way to the host.** In every run of the NIC, the VIC, the
GN4124, `wrn_handler`, `wrn_interrupt`, the receive tasklet and everything else on the card, in any
order, in which the driver is bound while no early call of `wrn_handler` is in progress: whenever
nobody has anything to do and the VIC is on with the line of the NIC enabled, all frames stored so
far have been passed on, in order and with their bytes, or counted as errors. -/
theorem received_at_rest (dec : PriorityDecode) (ivtRam : LineNr → BitVec 32) (hw : PowerOn)
    (rx2 : Desc → BitVec 32) (isr : BitVec 32) (es : List HostEvent) :
    let s := run (step dec) (.start ivtRam hw rx2 isr) es
    Along (step dec) InPeace (.start ivtRam hw rx2 isr) es → s.AtRest dec →
      regBit s.chain.regs.imr 1 = true →
      s.nic.sys.nic.received.map RxSkb.bytes =
          (s.nic.sys.stored.filter fun x => !x.errored).map RxFrame.bytes ∧
        s.nic.sys.nic.rxErrors = s.nic.sys.stored.countP RxFrame.errored := by
  intro s hpeace hrest himr
  have hawake : RxAwake s.nic := rxAwake_nic_run hw rx2 isr es
  exact hawake.nic.received_of_drained (drained_of_atRest hpeace hrest himr)

/-- A VIC that sees no line does not move. -/
theorem advance_of_latched {c : IrqChain} (hphase : c.phase = .scan) (hisr : c.isr = 0)
    (hlatched : c.latched = 0) : c.advance dec = c := by
  have hsame : { c with isr := c.latched } = c := by rw [hlatched, ← hisr]
  rw [IrqChain.advance]
  split_ifs
  · rw [hphase]
    simp only [IrqChain.scanLines, if_pos hlatched, hsame]
  · rfl

/-- A frame comes, and its interrupt is served to the end. -/
def oneFrameRun : List HostEvent :=
  let r : Desc → PpsgReads := fun _ => ⟨0, 0, 0, 0⟩
  [.chain .up, .nic (.receive oneByteFrame), .chain .vic, .chain (.enter false), .access r,
    .access r, .nic .access, .nic .access, .nic .access, .access r, .access r, .chain .vic] ++
  List.replicate 5 (.nic (.tasklet ⟨0, 0, 0, 0⟩ fun _ => 0)) ++ [.chain .vic]

theorem received_at_rest_one :
    let s := run (step lowestFirst)
      (.start (fun _ => 0) ⟨fun _ => 0, fun _ => 0, fun _ => 0⟩ (fun _ => 0) 0) oneFrameRun
    s.nic.sys.nic.received.map RxSkb.bytes = [[0x2a]] ∧ s.nic.sys.nic.rxErrors = 0 := by
  intro s
  have hpeace : Along (step lowestFirst) InPeace
      (.start (fun _ => 0) ⟨fun _ => 0, fun _ => 0, fun _ => 0⟩ (fun _ => 0) 0) oneFrameRun := by
    refine ⟨rfl, ?_⟩
    simp [InPeace]
  have hchain : Vic.AtRest lowestFirst s.chain :=
    ⟨by decide +kernel, by decide +kernel, by decide +kernel,
      advance_of_latched (by decide +kernel) (by decide +kernel) (by decide +kernel)⟩
  have hrest : s.AtRest lowestFirst :=
    ⟨hchain, List.eq_nil_of_length_eq_zero (by decide +kernel), by decide +kernel,
      by decide +kernel⟩
  exact received_at_rest lowestFirst (fun _ => 0) ⟨fun _ => 0, fun _ => 0, fun _ => 0⟩
    (fun _ => 0) 0 oneFrameRun hpeace hrest (by decide +kernel)

end HostIrq

end SpecSw.Nic
