import SpecSw.Dio.StampFifo

/-!
# Reading stamps while samples arrive

Nothing keeps `wrn_dio_interrupt` from running in the middle of a pass of `wrn_dio_cmd_stamp`. The
pass takes a stamp in two steps: it copies the entry at the tail, and then moves the tail on. When
the interrupt fills the ring in between, it moves the tail on as well, to drop the entry that has
just been copied; then the second step removes the next entry, which nobody has seen.

As long as no interrupt overflows the ring between the two steps, the stamps returned and those
left in the ring are what some order of whole pushes and whole pops gives (`drained_throughout`).

## Main definitions

* `Dio.StampReader`, `Dio.DrainSystem`, `Dio.DrainEvent`: a pass in steps.
* `Dio.Drained`: the stamps of a channel are accounted for by whole operations.
* `Dio.DrainSystem.RoomLeft`.

## Main results

* `Dio.DrainSystem.run_reader`: an undisturbed pass is `stampLoop`.
* `Dio.DrainSystem.drained_throughout`, `Dio.DrainSystem.not_drained_of_overflow`,
  `Dio.DrainSystem.not_forall_drained`.
-/

namespace SpecSw.Dio

open EventRun RingFifo

/-! ### A pass in steps -/

/-- Where a pass is: at the tests of its loops, between the copy of a stamp and the step of the
tail, or behind its loops. -/
inductive ReaderPc
  | look
  | copied
  | done
  deriving DecidableEq, Repr

/-- The variables of a pass: the channels still to be looked at, the current one first, `nstamp`
and `t[]`. -/
structure StampReader where
  chs : List ℕ
  nstamp : ℕ
  t : ℕ → Timespec
  pc : ReaderPc

/-- The card, a pass, and the stamps that have arrived on each channel since it began. -/
structure DrainSystem where
  drvdata : WrnDrvdata
  reader : StampReader
  arrived : ℕ → List Timespec

/-- What can happen: the pass makes a step, or an interrupt runs. -/
inductive DrainEvent
  | reader
  | interrupt (irq : DioIrq)

/-- The stamps that an interrupt finds on a channel. -/
def DioIrq.arrivals (irq : DioIrq) (ch : ℕ) : List Timespec :=
  if irq.eeprom && (servedChannels irq.isr).contains ch then (irq.fifo ch).map FifoSample.stamp
  else []

namespace DrainSystem

/-- The tests of the loops: a stamp is copied, or the pass goes on to the next channel, or ends. -/
def look (s : DrainSystem) : DrainSystem :=
  match s.reader.chs with
  | [] => { s with reader := { s.reader with pc := .done } }
  | ch :: chs =>
    let c := s.drvdata.ch ch
    if s.reader.nstamp = wrDioNStamp ∨ c.bhead = c.btail then
      if s.reader.nstamp ≠ 0 then { s with reader := { s.reader with pc := .done } }
      else { s with reader := { s.reader with chs := chs } }
    else
      { s with reader := { s.reader with
        t := Function.update s.reader.t s.reader.nstamp (c.tsbuf c.btail)
        pc := .copied } }

/-- The tail of the current channel is read, moved on and stored, and the stamp counted. -/
def pop (s : DrainSystem) : DrainSystem :=
  match s.reader.chs with
  | [] => s
  | ch :: _ =>
    let c := s.drvdata.ch ch
    { s with
      drvdata := s.drvdata.setCh ch { c with btail := c.btail + 1 }
      reader := { s.reader with nstamp := s.reader.nstamp + 1, pc := .look } }

/-- Each event. -/
def step (s : DrainSystem) : DrainEvent → DrainSystem
  | .reader =>
    match s.reader.pc with
    | .look => s.look
    | .copied => s.pop
    | .done => s
  | .interrupt irq =>
    { s with
      drvdata := (wrnDioInterrupt irq s.drvdata).2
      arrived := fun ch => s.arrived ch ++ irq.arrivals ch }

/-- A pass over the channels of a command begins. -/
def start (d : WrnDrvdata) (cmd : WrDioCmd) : DrainSystem :=
  ⟨d, ⟨(chSelect cmd).channels, 0, cmd.t, .look⟩, fun _ => []⟩

/-- The stamps of a channel that the pass has counted. -/
def returned (s : DrainSystem) (ch : ℕ) : List Timespec :=
  if s.reader.chs.head? = some ch then (List.range s.reader.nstamp).map s.reader.t else []

end DrainSystem

/-- From the state `d`, the stamps of the channel that have been returned and those left in its
ring are what some order of whole pushes of the arrived samples and of whole pops gives; so none is
returned twice. -/
structure Drained (d : WrnDrvdata) (s : DrainSystem) (ch : ℕ) : Prop where
  order : Interleaves (wrnDioBufferLen - 1) (queues d ch) (s.arrived ch) (s.returned ch)
    (queues s.drvdata ch)
  once : (s.returned ch ++ queues s.drvdata ch).Sublist (queues d ch ++ s.arrived ch)

namespace DrainSystem

/-- An interrupt that comes between the copy of a stamp and the step of the tail finds room in the
ring of the current channel for all its samples. -/
def RoomLeft (s : DrainSystem) : DrainEvent → Prop
  | .reader => True
  | .interrupt irq => s.reader.pc = .copied → ∀ ch, s.reader.chs.head? = some ch →
    (queues s.drvdata ch).length + (irq.arrivals ch).length ≤ wrnDioBufferLen - 1

/-! ### A pass that is not disturbed -/

theorem setCh_self (d : WrnDrvdata) (ch : ℕ) : d.setCh ch (d.ch ch) = d := by
  rw [WrnDrvdata.setCh, Function.update_eq_self]

/-- The steps of the reader copy what the inner loop of the pass copies, and end at its tests. -/
theorem exists_run_drain (left : ℕ) (d : WrnDrvdata) (ch : ℕ) (chs : List ℕ) (n : ℕ)
    (t : ℕ → Timespec) (arrived : ℕ → List Timespec) (hleft : n + left = wrDioNStamp) :
    let s := stampDrain left ⟨d.ch ch, n, t⟩
    (s.nstamp = wrDioNStamp ∨ s.c.bhead = s.c.btail) ∧
      ∃ m, run step ⟨d, ⟨ch :: chs, n, t, .look⟩, arrived⟩ (List.replicate m .reader) =
        ⟨d.setCh ch s.c, ⟨ch :: chs, s.nstamp, s.t, .look⟩, arrived⟩ := by
  induction left generalizing d n t with
  | zero => exact ⟨Or.inl hleft, 0, by simp [stampDrain, setCh_self]⟩
  | succ left ih =>
    by_cases hempty : (d.ch ch).bhead = (d.ch ch).btail
    · simp only [stampDrain, if_pos hempty]
      exact ⟨Or.inr hempty, 0, by simp [setCh_self]⟩
    · have hn : n ≠ wrDioNStamp := by omega
      have htwo : run step ⟨d, ⟨ch :: chs, n, t, .look⟩, arrived⟩ [.reader, .reader] =
          ⟨d.setCh ch { d.ch ch with btail := (d.ch ch).btail + 1 },
            ⟨ch :: chs, n + 1, Function.update t n ((d.ch ch).tsbuf (d.ch ch).btail), .look⟩,
            arrived⟩ := by
        simp [step, look, pop, hn, hempty]
      obtain ⟨hstop, m, hm⟩ := ih (d.setCh ch { d.ch ch with btail := (d.ch ch).btail + 1 }) (n + 1)
        (Function.update t n ((d.ch ch).tsbuf (d.ch ch).btail)) (by omega)
      rw [WrnDrvdata.setCh_ch_self] at hstop hm
      simp only [stampDrain, if_neg hempty]
      refine ⟨hstop, 2 + m, ?_⟩
      rw [List.replicate_add, run_append]
      exact (congrArg (fun s => run step s (List.replicate m .reader)) htwo).trans
        (hm.trans (by simp [WrnDrvdata.setCh]))

/-- **One pass.** A pass that is not disturbed does what the loops of `wrn_dio_cmd_stamp` do. -/
theorem run_reader (chs : List ℕ) (d : WrnDrvdata) (cmd : WrDioCmd)
    (arrived : ℕ → List Timespec) :
    ∃ m, let s := run step ⟨d, ⟨chs, 0, cmd.t, .look⟩, arrived⟩ (List.replicate m .reader)
      s.reader.pc = .done ∧ s.drvdata = (stampLoop chs d cmd).drvdata ∧
        s.reader.nstamp = (stampLoop chs d cmd).nstamp ∧
        s.reader.t = (stampLoop chs d cmd).cmd.t := by
  induction chs generalizing d with
  | nil => exact ⟨1, rfl, rfl, rfl, rfl⟩
  | cons ch chs ih =>
    obtain ⟨hstop, m, hm⟩ := exists_run_drain wrDioNStamp d ch chs 0 cmd.t arrived (Nat.zero_add _)
    by_cases hzero : (stampDrain wrDioNStamp ⟨d.ch ch, 0, cmd.t⟩).nstamp = 0
    · have hempty : (d.ch ch).bhead = (d.ch ch).btail := by
        have hlen : (d.ch ch).ring.contents.length = 0 := by
          rw [stampDrain_nstamp, wrDioNStamp] at hzero
          omega
        exact (queues_eq_nil_iff d ch).mp (List.length_eq_zero_iff.mp hlen)
      have hfirst : step ⟨d, ⟨ch :: chs, 0, cmd.t, .look⟩, arrived⟩ .reader =
          ⟨d, ⟨chs, 0, cmd.t, .look⟩, arrived⟩ := by
        simp [step, look, hempty]
      obtain ⟨m, hm⟩ := ih d
      refine ⟨1 + m, ?_⟩
      rw [List.replicate_add, run_append]
      simp only [List.replicate, run_cons, run_nil, hfirst, stampLoop, hzero, ne_eq,
        not_true_eq_false, if_false]
      exact hm
    · refine ⟨m + 1, ?_⟩
      have hlast : step ⟨d.setCh ch (stampDrain wrDioNStamp ⟨d.ch ch, 0, cmd.t⟩).c,
          ⟨ch :: chs, (stampDrain wrDioNStamp ⟨d.ch ch, 0, cmd.t⟩).nstamp,
            (stampDrain wrDioNStamp ⟨d.ch ch, 0, cmd.t⟩).t, .look⟩, arrived⟩ .reader =
          ⟨d.setCh ch (stampDrain wrDioNStamp ⟨d.ch ch, 0, cmd.t⟩).c,
          ⟨ch :: chs, (stampDrain wrDioNStamp ⟨d.ch ch, 0, cmd.t⟩).nstamp,
            (stampDrain wrDioNStamp ⟨d.ch ch, 0, cmd.t⟩).t, .done⟩, arrived⟩ := by
        simp only [step, look, WrnDrvdata.setCh_ch_self, if_pos hstop, if_pos hzero]
      rw [List.replicate_add, run_append, hm]
      simp only [List.replicate, run_cons, run_nil, hlast, stampLoop, if_pos hzero]
      exact ⟨trivial, trivial, trivial, trivial⟩

end DrainSystem

/-! ### Copying and moving the tail on -/

/-- A ring that is not empty has the entry at its tail, and what is left when the tail moves on. -/
theorem queues_eq_cons {d : WrnDrvdata} {ch : ℕ} (hne : queues d ch ≠ []) :
    queues d ch = (d.ch ch).tsbuf (d.ch ch).btail ::
      queues (d.setCh ch { d.ch ch with btail := (d.ch ch).btail + 1 }) ch := by
  rw [queues_setCh_self]
  exact Ring.contents_eq_cons (mt (queues_eq_nil_iff d ch).mpr hne)

/-- An interrupt appends the samples that arrive. -/
theorem queues_interrupt (irq : DioIrq) (d : WrnDrvdata) (ch : ℕ) :
    queues (wrnDioInterrupt irq d).2 ch =
      (queues d ch ++ irq.arrivals ch).rtake (wrnDioBufferLen - 1) :=
  congrFun (queues_wrnDioInterrupt irq d) ch

theorem length_queues_le (d : WrnDrvdata) (ch : ℕ) :
    (queues d ch).length ≤ wrnDioBufferLen - 1 :=
  Nat.le_sub_one_of_lt (d.ch ch).ring.length_contents_lt

/-! ### The invariant -/

/-- The stamps of every channel are accounted for, and one that has been copied and not counted
yet is still the oldest of its ring. -/
structure DrainInv (d : WrnDrvdata) (s : DrainSystem) : Prop where
  order : ∀ ch, Interleaves (wrnDioBufferLen - 1) (queues d ch) (s.arrived ch) (s.returned ch)
    (queues s.drvdata ch)
  oldest : s.reader.pc = .copied → ∃ ch, s.reader.chs.head? = some ch ∧
    (queues s.drvdata ch).head? = some (s.reader.t s.reader.nstamp)

namespace DrainInv

variable {d : WrnDrvdata} {s : DrainSystem}

theorem start (d : WrnDrvdata) (cmd : WrDioCmd) : DrainInv d (.start d cmd) where
  order ch := by
    have hnone : (DrainSystem.start d cmd).returned ch = [] := by
      simp [DrainSystem.start, DrainSystem.returned]
    rw [hnone]
    exact Interleaves.refl _ _
  oldest h := absurd h (by simp [DrainSystem.start])

theorem drained (h : DrainInv d s) (ch : ℕ) : Drained d s ch := ⟨h.order ch, (h.order ch).sublist⟩

/-- The tests of the loops leave the stamps counted as they are. -/
theorem look (h : DrainInv d s) (hpc : s.reader.pc = .look) : DrainInv d s.look := by
  obtain ⟨drvdata, ⟨chs, nstamp, t, pc⟩, arrived⟩ := s
  obtain rfl : pc = .look := hpc
  cases chs with
  | nil => exact ⟨h.order, fun hc => ReaderPc.noConfusion hc⟩
  | cons ch chs =>
    simp only [DrainSystem.look]
    split_ifs with hstop hsome
    · exact ⟨h.order, fun hc => ReaderPc.noConfusion hc⟩
    · obtain rfl : nstamp = 0 := not_not.mp hsome
      refine ⟨fun i => ?_, fun hc => ReaderPc.noConfusion hc⟩
      have horder := h.order i
      simp only [DrainSystem.returned, List.range_zero, List.map_nil, ite_self] at horder ⊢
      exact horder
    · obtain ⟨-, hne⟩ := not_or.mp hstop
      have hqueue := queues_eq_cons (mt (queues_eq_nil_iff drvdata ch).mp hne)
      refine ⟨fun i => ?_, fun _ => ⟨ch, rfl, ?_⟩⟩
      · have hsame : (List.range nstamp).map (Function.update t nstamp
            ((drvdata.ch ch).tsbuf (drvdata.ch ch).btail)) = (List.range nstamp).map t :=
          List.map_congr_left fun k hk =>
            Function.update_of_ne (Nat.ne_of_lt (List.mem_range.mp hk)) _ t
        have horder := h.order i
        simp only [DrainSystem.returned] at horder ⊢
        rw [hsame]
        exact horder
      · rw [hqueue]
        simp

/-- The step of the tail removes the stamp that has been copied. -/
theorem pop (h : DrainInv d s) (hpc : s.reader.pc = .copied) : DrainInv d s.pop := by
  obtain ⟨ch, hch, hhead⟩ := h.oldest hpc
  obtain ⟨drvdata, ⟨chs, nstamp, t, pc⟩, arrived⟩ := s
  obtain ⟨chs, rfl⟩ := List.head?_eq_some_iff.mp hch
  have hqueue := queues_eq_cons fun hnil => by
    rw [hnil] at hhead
    exact absurd hhead (by simp)
  have hstamp : (drvdata.ch ch).tsbuf (drvdata.ch ch).btail = t nstamp := by
    rw [hqueue] at hhead
    exact Option.some.inj hhead
  refine ⟨fun i => ?_, fun hc => ReaderPc.noConfusion hc⟩
  have horder := h.order i
  simp only [DrainSystem.pop, DrainSystem.returned, List.head?_cons, Option.some.injEq] at horder ⊢
  by_cases hi : ch = i
  · subst hi
    rw [if_pos rfl, hqueue, hstamp] at horder
    rw [if_pos rfl, List.range_succ, List.map_append]
    exact horder.pop
  · rw [if_neg hi] at horder ⊢
    rwa [queues_setCh_of_ne (Ne.symm hi)]

/-- An interrupt with room for its samples leaves the oldest entry where it is. -/
theorem interrupt (h : DrainInv d s) {irq : DioIrq} (hok : s.RoomLeft (.interrupt irq)) :
    DrainInv d (s.step (.interrupt irq)) := by
  refine ⟨fun ch => ?_, fun hpc => ?_⟩
  · have hpushes := (h.order ch).pushes (length_queues_le s.drvdata ch) (irq.arrivals ch)
    rw [← queues_interrupt] at hpushes
    exact hpushes
  · obtain ⟨ch, hch, hhead⟩ := h.oldest hpc
    refine ⟨ch, hch, ?_⟩
    have hroom := hok hpc ch hch
    have hkept : queues (s.step (.interrupt irq)).drvdata ch =
        queues s.drvdata ch ++ irq.arrivals ch := by
      have hdrop : (queues s.drvdata ch ++ irq.arrivals ch).length - (wrnDioBufferLen - 1) = 0 := by
        rw [List.length_append]
        exact Nat.sub_eq_zero_of_le hroom
      rw [DrainSystem.step, queues_interrupt, List.rtake, hdrop, List.drop_zero]
    rw [hkept, List.head?_append, hhead]
    rfl

theorem step (h : DrainInv d s) {e : DrainEvent} (hok : s.RoomLeft e) : DrainInv d (s.step e) := by
  cases e with
  | interrupt irq => exact h.interrupt hok
  | reader =>
    cases hpc : s.reader.pc with
    | look =>
      simp only [DrainSystem.step, hpc]
      exact h.look hpc
    | copied =>
      simp only [DrainSystem.step, hpc]
      exact h.pop hpc
    | done =>
      simp only [DrainSystem.step, hpc]
      exact h

end DrainInv

/-! ### The main result -/

namespace DrainSystem

/-- **Reading while samples arrive.** In every state of a run in which no interrupt overflows the
ring of the current channel between the copy of a stamp and the step of the tail, the stamps of
every channel are accounted for by whole operations. -/
theorem drained_throughout (d : WrnDrvdata) (cmd : WrDioCmd) (es : List DrainEvent)
    (hes : Along step RoomLeft (start d cmd) es) :
    Throughout step (fun s => ∀ ch, Drained d s ch) (start d cmd) es :=
  hes.throughout (DrainInv.start d cmd) (fun _ h => h.drained) fun _ _ h hok => h.step hok

/-- A ring of 511 entries loses its second one when an interrupt brings a sample between the copy of
the first and the step of the tail. -/
theorem not_drained_of_overflow {d : WrnDrvdata} {cmd : WrDioCmd} {ch : ℕ} {chs : List ℕ}
    (hsel : (chSelect cmd).channels = ch :: chs) {x y z : Timespec} {q : List Timespec}
    (hq : queues d ch = x :: y :: q) (hfull : (queues d ch).length = wrnDioBufferLen - 1)
    (hxy : x ≠ y) {irq : DioIrq} (hirq : irq.arrivals ch = [z]) :
    ¬ Drained d (run step (start d cmd) [.reader, .interrupt irq, .reader]) ch := by
  have hne : queues d ch ≠ [] := by simp [hq]
  have hlook : step (start d cmd) .reader = ⟨d, ⟨ch :: chs, 0, Function.update cmd.t 0 x, .copied⟩,
      fun _ => []⟩ := by
    have hx : (d.ch ch).tsbuf (d.ch ch).btail = x :=
      (List.cons.inj ((queues_eq_cons hne).symm.trans hq)).1
    have hempty : (d.ch ch).bhead ≠ (d.ch ch).btail := mt (queues_eq_nil_iff d ch).mpr hne
    simp [step, start, look, hsel, hempty, hx, wrDioNStamp]
  have hpush : queues (wrnDioInterrupt irq d).2 ch = y :: (q ++ [z]) := by
    rw [queues_interrupt, hirq, List.rtake, List.length_append, hfull, List.length_singleton, hq]
    rfl
  have hleft : queues (wrnDioInterrupt irq d).2 ch ≠ [] := by simp [hpush]
  have hpop := queues_eq_cons hleft
  rw [hpush] at hpop
  intro hdrained
  have horder := hdrained.order
  simp only [run_cons, run_nil, hlook] at horder
  simp only [step, pop, returned, List.head?_cons, if_true, hirq, List.nil_append,
    ← (List.cons.inj hpop).2] at horder
  rcases horder.append_of_one_push hfull.le with heq | heq
  · have hlen := congrArg List.length heq
    simp [hq] at hlen
  · rw [hq] at heq
    simp at heq
    exact hxy heq

/-- One sample arrives before a pass over channel 0, and one between its two steps. -/
theorem drained_throughout_one : Throughout step
    (fun s => ∀ ch, Drained (wrnMezzanineInit .zero) s ch)
    (start (wrnMezzanineInit .zero) ⟨1, 0, 0, 0, 0, fun _ => ⟨0, 0⟩⟩)
    [.interrupt ⟨true, 0, 0, 1, fun _ => [⟨0, 0, 7⟩]⟩, .reader,
      .interrupt ⟨true, 0, 0, 1, fun _ => [⟨0, 0, 8⟩]⟩, .reader] := by
  refine drained_throughout _ _ _ ⟨fun h => absurd h (by decide), trivial, fun _ ch hch => ?_,
    trivial, trivial⟩
  obtain rfl : 0 = ch := Option.some.inj hch
  decide

/-- Samples that fill a ring. -/
def fullFifo : List FifoSample := ⟨0, 0, 0⟩ :: ⟨0, 0, 1⟩ :: List.replicate 509 ⟨0, 0, 2⟩

/-- A STAMP on channel 0 whose ring is full. -/
theorem not_forall_drained : ¬ ∀ (hw : PowerOn) (es₀ : List DioEvent) (cmd : WrDioCmd)
    (es : List DrainEvent),
    Throughout step (fun s => ∀ ch, Drained (run Dio.step (wrnMezzanineInit hw) es₀) s ch)
      (start (run Dio.step (wrnMezzanineInit hw) es₀) cmd) es := by
  intro hall
  have hlen : (fullFifo.map FifoSample.stamp).length = 511 := by
    rw [List.length_map, fullFifo, List.length_cons, List.length_cons, List.length_replicate]
  have harr : (⟨true, 0, 0, 1, fun _ => fullFifo⟩ : DioIrq).arrivals 0 =
      fullFifo.map FifoSample.stamp := if_pos (by decide)
  have hfull : queues (run Dio.step (wrnMezzanineInit .zero)
      [.interrupt ⟨true, 0, 0, 1, fun _ => fullFifo⟩]) 0 = fullFifo.map FifoSample.stamp := by
    rw [run_cons, run_nil, Dio.step, queues_interrupt, queues_init _ (by decide), harr,
      List.nil_append, List.rtake, hlen]
    exact List.drop_zero
  have hlast := (hall .zero [.interrupt ⟨true, 0, 0, 1, fun _ => fullFifo⟩]
    ⟨1, 0, 0, 0, 0, fun _ => ⟨0, 0⟩⟩
    [.reader, .interrupt ⟨true, 0, 0, 1, fun _ => [⟨0, 0, 3⟩]⟩, .reader]).last
  have hsel : (chSelect ⟨1, 0, 0, 0, 0, fun _ => ⟨0, 0⟩⟩).channels = [0] := by decide
  have hne : FifoSample.stamp ⟨0, 0, 0⟩ ≠ FifoSample.stamp ⟨0, 0, 1⟩ := by decide
  have hone : (⟨true, 0, 0, 1, fun _ => [⟨0, 0, 3⟩]⟩ : DioIrq).arrivals 0 =
      [FifoSample.stamp ⟨0, 0, 3⟩] := if_pos (by decide)
  exact not_drained_of_overflow hsel hfull (hfull ▸ hlen) hne hone (hlast 0)

end DrainSystem

end SpecSw.Dio
