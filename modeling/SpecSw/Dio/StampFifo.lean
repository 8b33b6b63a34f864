import SpecSw.Dio.System

/-!
# The stamp buffers are drop-oldest queues

The abstract card keeps, for each channel, the list of the stamps it holds, oldest first. Samples
that arrive are appended, and of a list that gets too long only the newest 511 stay. A fetch serves
the first of the selected channels that holds a stamp, and removes the oldest 16 of them.

The rings of the driver refine this card: every event is a step of it (`queues_step`), so
the contents of the rings after a run are the queues after the same steps (`stampFifo_refines`), and
a STAMP returns what the abstract fetch takes (`stampReply`).

## Main definitions

* `Dio.Queues`, `Dio.QueueOp`, `Dio.Queues.step`: the abstract card.
* `Dio.queues`, `Dio.DioEvent.op`: the contents of the rings, and the step that an event makes.
* `Dio.StampArg`, `Dio.StampReply`.

## Main results

* `Dio.queues_step`, `Dio.stampReply`, `Dio.stampFifo_refines`.
-/

namespace SpecSw.Dio

open EventRun RingFifo

/-! ### The abstract card -/

/-- The stamps held for each channel, oldest first. -/
abbrev Queues := ℕ → List Timespec

/-- What can happen to the abstract card: stamps arrive, or some are fetched from the first of the
selected channels that has any. -/
inductive QueueOp
  | arrive (xs : ℕ → List Timespec)
  | fetch (sel : List ℕ)

namespace Queues

variable (q : Queues)

/-- The first of the selected channels that holds a stamp. -/
def first (sel : List ℕ) : Option ℕ := sel.find? fun ch => !(q ch).isEmpty

/-- A step of the abstract card. -/
def step : QueueOp → Queues
  | .arrive xs => fun ch => (q ch ++ xs ch).rtake (wrnDioBufferLen - 1)
  | .fetch sel =>
    match q.first sel with
    | none => q
    | some ch => Function.update q ch ((q ch).drop wrDioNStamp)

theorem first_eq_none_iff (sel : List ℕ) : q.first sel = none ↔ ∀ ch ∈ sel, q ch = [] := by
  simp [first]

theorem step_fetch_of_none {q : Queues} {sel : List ℕ} (h : q.first sel = none) :
    q.step (.fetch sel) = q := by
  simp only [step, h]

theorem step_fetch_of_some {q : Queues} {sel : List ℕ} {ch : ℕ} (h : q.first sel = some ch) :
    q.step (.fetch sel) = Function.update q ch ((q ch).drop wrDioNStamp) := by
  simp only [step, h]

end Queues

/-- The contents of the rings. -/
def queues (d : WrnDrvdata) : Queues := fun ch => (d.ch ch).ring.contents

theorem queues_eq_nil_iff (d : WrnDrvdata) (ch : ℕ) :
    queues d ch = [] ↔ (d.ch ch).bhead = (d.ch ch).btail := Ring.contents_eq_nil_iff _

/-- The channels that a STAMP pass looks at: none when the command is rejected. -/
def stampSelection (cmd : WrDioCmd) : List ℕ :=
  if cmd.flags &&& logicalOr wrDioFMask wrDioFWait = logicalOr wrDioFMask wrDioFWait then []
  else (chSelect cmd).channels

/-- The step of the abstract card that an event makes. -/
def DioEvent.op : DioEvent → QueueOp
  | .interrupt irq => .arrive fun ch =>
    if irq.eeprom && (servedChannels irq.isr).contains ch then (irq.fifo ch).map FifoSample.stamp
    else []
  | .ioctl ioctlcmd u =>
    match u.runs ioctlcmd with
    | some (.stamp, cmd) => .fetch (stampSelection cmd)
    | _ => .fetch []
  | .resume signalPending _ cmd =>
    .fetch (if signalPending then [] else (chSelect cmd).channels)

/-! ### Arriving samples -/

theorem ring_pushSample (c : DioChannel) (x : FifoSample) :
    (pushSample c x).ring = c.ring.push x.stamp := rfl

theorem ring_foldl_pushSample (xs : List FifoSample) (c : DioChannel) :
    (xs.foldl pushSample c).ring = (xs.map FifoSample.stamp).foldl Ring.push c.ring := by
  induction xs generalizing c with
  | nil => rfl
  | cons x xs ih => rw [List.foldl_cons, ih, ring_pushSample, List.map_cons, List.foldl_cons]

theorem queues_setCh_of_ne {ch i : ℕ} (hi : ch ≠ i) (c : DioChannel) (d : WrnDrvdata) :
    queues (d.setCh i c) ch = queues d ch := by
  simp only [queues, WrnDrvdata.setCh_ch_of_ne d hi]

theorem queues_setCh_self (i : ℕ) (c : DioChannel) (d : WrnDrvdata) :
    queues (d.setCh i c) i = c.ring.contents := by
  simp only [queues, WrnDrvdata.setCh_ch_self]

/-- The fields of a pulse train are no part of the ring. -/
theorem queues_wrnTrigNextPulse (i : ℕ) (ts : Timespec) (d : WrnDrvdata) :
    queues (wrnTrigNextPulse i ts d) = queues d := by
  funext ch
  by_cases hch : ch = i
  · subst hch
    simp only [wrnTrigNextPulse, queues_setCh_self]
    split_ifs <;> rfl
  · simp only [wrnTrigNextPulse, queues_setCh_of_ne hch]
    simp only [queues, wrnNewPulse_ch, WrnDrvdata.setCh_ch_of_ne d hch]

theorem queues_serveChannel_of_ne {ch i : ℕ} (hi : ch ≠ i) (fifo : ℕ → List FifoSample)
    (d : WrnDrvdata) : queues (serveChannel fifo d i) ch = queues d ch := by
  unfold serveChannel
  dsimp only
  split
  · split_ifs
    · rw [queues_wrnTrigNextPulse, queues_setCh_of_ne hi]
    · exact queues_setCh_of_ne hi _ d
  · exact queues_setCh_of_ne hi _ d

/-- Serving a channel appends the samples of its FIFO. -/
theorem queues_serveChannel_self (ch : ℕ) (fifo : ℕ → List FifoSample) (d : WrnDrvdata) :
    queues (serveChannel fifo d ch) ch =
      (queues d ch ++ (fifo ch).map FifoSample.stamp).rtake (wrnDioBufferLen - 1) := by
  have hpush : queues (d.setCh ch ((fifo ch).foldl pushSample (d.ch ch))) ch =
      (queues d ch ++ (fifo ch).map FifoSample.stamp).rtake (wrnDioBufferLen - 1) := by
    rw [queues_setCh_self, ring_foldl_pushSample, Ring.contents_foldl_push (by decide)]
    rfl
  rw [← hpush]
  unfold serveChannel
  dsimp only
  split
  · split_ifs
    · rw [queues_wrnTrigNextPulse]
    · rfl
  · rfl

theorem rtake_queues (d : WrnDrvdata) (ch : ℕ) :
    (queues d ch).rtake (wrnDioBufferLen - 1) = queues d ch := by
  have hlt : (queues d ch).length < wrnDioBufferLen := (d.ch ch).ring.length_contents_lt
  rw [List.rtake, Nat.sub_eq_zero_of_le (by omega), List.drop_zero]

theorem queues_protect (now : ℤ) (d : WrnDrvdata) : queues (protect now d) = queues d := by
  unfold protect
  split_ifs
  · split <;> rfl
  · rfl

/-- An interrupt is an arrival of the samples that it finds. -/
theorem queues_wrnDioInterrupt (irq : DioIrq) (d : WrnDrvdata) :
    queues (wrnDioInterrupt irq d).2 = (queues d).step (DioEvent.interrupt irq).op := by
  funext ch
  simp only [DioEvent.op, Queues.step]
  cases heeprom : irq.eeprom with
  | false =>
    simp only [Bool.false_and, Bool.false_eq_true, if_false, List.append_nil, rtake_queues]
    simp only [wrnDioInterrupt, heeprom, Bool.false_eq_true, if_false]
    rfl
  | true =>
    have hrun : queues (wrnDioInterrupt irq d).2 ch =
        queues (run (serveChannel irq.fifo) (protect irq.now d) (servedChannels irq.isr)) ch := by
      simp only [wrnDioInterrupt, heeprom, if_true]
      rfl
    have hother : ∀ t, ∀ j ∈ servedChannels irq.isr, True → j ≠ ch →
        queues (serveChannel irq.fifo t j) ch = queues t ch :=
      fun t j _ _ hne => queues_serveChannel_of_ne hne.symm irq.fifo t
    rw [hrun]
    by_cases hmem : ch ∈ servedChannels irq.isr
    · rw [run_proj_of_mem (I := fun _ => True) (f := fun t => queues t ch)
        (g := fun l => (l ++ (irq.fifo ch).map FifoSample.stamp).rtake (wrnDioBufferLen - 1))
        (servedChannels_nodup irq.isr) hmem (fun _ _ _ _ => trivial)
        (fun t _ => queues_serveChannel_self ch irq.fifo t) hother trivial, queues_protect]
      simp [hmem]
    · rw [run_proj_eq (I := fun _ => True) (f := fun t => queues t ch) (fun _ _ _ _ => trivial)
        (fun t j hj _ => hother t j hj trivial ?_) trivial, queues_protect]
      · have hnot : (servedChannels irq.isr).contains ch = false := by
          simpa using hmem
        rw [hnot, Bool.and_false, if_neg Bool.false_ne_true, List.append_nil, rtake_queues]
      · rintro rfl
        exact hmem hj

/-! ### Fetched stamps -/

/-- The stamps that a pass has copied so far. -/
def DrainState.copied (s : DrainState) : List Timespec := (List.range s.nstamp).map s.t

theorem length_copied (s : DrainState) : s.copied.length = s.nstamp := by
  rw [DrainState.copied, List.length_map, List.length_range]

/-- Copying one more stamp appends it to those copied. -/
theorem copied_update (c : DioChannel) (n : ℕ) (t : ℕ → Timespec) (x : Timespec) :
    DrainState.copied ⟨c, n + 1, Function.update t n x⟩ = (List.range n).map t ++ [x] := by
  rw [DrainState.copied, List.range_succ, List.map_append]
  congr 1
  · refine List.map_congr_left fun i hi => Function.update_of_ne ?_ x t
    exact Nat.ne_of_lt (List.mem_range.mp hi)
  · simp

/-- The inner loop moves the oldest stamps, at most `left`, from the ring to `t[]`. -/
theorem stampDrain_spec (left : ℕ) (s : DrainState) :
    (stampDrain left s).c.ring = (s.c.ring.popN left).2 ∧
      (stampDrain left s).copied = s.copied ++ (s.c.ring.popN left).1 := by
  induction left generalizing s with
  | zero => simp [stampDrain, Ring.popN]
  | succ left ih =>
    by_cases hempty : s.c.bhead = s.c.btail
    · have hring : s.c.ring.head = s.c.ring.tail := hempty
      simp [stampDrain, Ring.popN, hempty, hring]
    · have hring : s.c.ring.head ≠ s.c.ring.tail := hempty
      obtain ⟨hrest, hcopied⟩ := ih ⟨{ s.c with btail := s.c.btail + 1 }, s.nstamp + 1,
        Function.update s.t s.nstamp (s.c.tsbuf s.c.btail)⟩
      rw [copied_update, List.append_assoc, List.singleton_append] at hcopied
      rw [stampDrain, if_neg hempty, Ring.popN, if_neg hring]
      exact ⟨hrest, hcopied⟩

/-- A pass over one channel takes its oldest 16 stamps, or all of them. -/
theorem stampDrain_start (c : DioChannel) (t : ℕ → Timespec) :
    (stampDrain wrDioNStamp ⟨c, 0, t⟩).c.ring.contents = c.ring.contents.drop wrDioNStamp ∧
      (stampDrain wrDioNStamp ⟨c, 0, t⟩).copied = c.ring.contents.take wrDioNStamp := by
  obtain ⟨hring, hcopied⟩ := stampDrain_spec wrDioNStamp ⟨c, 0, t⟩
  rw [hring, hcopied, Ring.popN_fst, Ring.contents_popN]
  exact ⟨rfl, rfl⟩

theorem stampDrain_nstamp (c : DioChannel) (t : ℕ → Timespec) :
    (stampDrain wrDioNStamp ⟨c, 0, t⟩).nstamp = min wrDioNStamp c.ring.contents.length := by
  rw [← length_copied, (stampDrain_start c t).2, List.length_take]

/-- The loop over channels without stamps changes nothing. -/
theorem stampLoop_of_none {chs : List ℕ} {d : WrnDrvdata} (h : (queues d).first chs = none)
    (cmd : WrDioCmd) : (stampLoop chs d cmd).drvdata = d ∧ (stampLoop chs d cmd).nstamp = 0 := by
  induction chs with
  | nil => exact ⟨rfl, rfl⟩
  | cons ch chs ih =>
    rw [Queues.first_eq_none_iff] at h
    have hnil : (d.ch ch).ring.contents = [] := h ch List.mem_cons_self
    have hzero : (stampDrain wrDioNStamp ⟨d.ch ch, 0, cmd.t⟩).nstamp = 0 := by
      rw [stampDrain_nstamp, hnil, List.length_nil, Nat.min_zero]
    simp only [stampLoop, hzero, ne_eq, not_true_eq_false, if_false]
    exact ih ((Queues.first_eq_none_iff _ _).mpr fun i hi => h i (List.mem_cons_of_mem ch hi))

/-- The loop ends at the first channel with stamps. -/
theorem stampLoop_of_some {chs : List ℕ} {d : WrnDrvdata} {ch : ℕ}
    (h : (queues d).first chs = some ch) (cmd : WrDioCmd) :
    let s := stampDrain wrDioNStamp ⟨d.ch ch, 0, cmd.t⟩
    (stampLoop chs d cmd).drvdata = d.setCh ch s.c ∧ (stampLoop chs d cmd).nstamp = s.nstamp ∧
      (stampLoop chs d cmd).cmd = { cmd with t := s.t, channel := BitVec.ofNat 16 ch } ∧
      s.nstamp ≠ 0 := by
  induction chs with
  | nil => exact absurd h (by simp [Queues.first])
  | cons i chs ih =>
    have hiff : (stampDrain wrDioNStamp ⟨d.ch i, 0, cmd.t⟩).nstamp ≠ 0 ↔ queues d i ≠ [] := by
      rw [stampDrain_nstamp, ← List.length_pos_iff]
      simp only [wrDioNStamp, queues]
      omega
    by_cases hi : queues d i = []
    · have hrest : (queues d).first chs = some ch := by
        simpa [Queues.first, hi] using h
      have hzero := mt hiff.mp (not_not.mpr hi)
      simp only [stampLoop, if_neg hzero]
      exact ih hrest
    · obtain rfl : i = ch := by
        simpa [Queues.first, hi] using h
      have hpos := hiff.mpr hi
      refine ⟨?_, ?_, ?_, hpos⟩ <;> simp only [stampLoop, if_pos hpos]

/-- A pass that finds no stamp changes nothing but the number of stamps: it sleeps on the last
channel if the command is to wait, and fails if not. -/
theorem stampAgain_of_none {d : WrnDrvdata} {cmd : WrDioCmd}
    (h : (queues d).first (chSelect cmd).channels = none) :
    (stampAgain d cmd).drvdata = d ∧ (stampAgain d cmd).cmd = { cmd with nstamp := 0 } ∧
      (stampAgain d cmd).outcome =
        if cmd.has wrDioFWait then .sleeps (chSelect cmd).last
        else .returns (-Errno.eagain) := by
  obtain ⟨hsame, hzero⟩ := stampLoop_of_none h cmd
  have hcmd := stampLoop_cmd _ _ _ hzero
  have hflags : ({ cmd with nstamp := BitVec.ofNat 32 0 } : WrDioCmd).has wrDioFWait =
      cmd.has wrDioFWait := rfl
  simp only [stampAgain, hzero, hcmd, hflags, if_true]
  split_ifs <;> exact ⟨hsame, rfl, rfl⟩

/-- A pass that finds stamps returns those it has copied. -/
theorem stampAgain_of_some {d : WrnDrvdata} {cmd : WrDioCmd} {ch : ℕ}
    (h : (queues d).first (chSelect cmd).channels = some ch) :
    let s := stampDrain wrDioNStamp ⟨d.ch ch, 0, cmd.t⟩
    (stampAgain d cmd).drvdata = d.setCh ch s.c ∧
      (stampAgain d cmd).cmd = { cmd with
        t := s.t
        channel := BitVec.ofNat 16 ch
        nstamp := BitVec.ofNat 32 s.nstamp } ∧
      (stampAgain d cmd).outcome = .returns 0 ∧ s.nstamp ≠ 0 := by
  obtain ⟨hset, hnstamp, hcmd, hpos⟩ := stampLoop_of_some h cmd
  have hne : (stampLoop (chSelect cmd).channels d cmd).nstamp ≠ 0 := hnstamp ▸ hpos
  refine ⟨?_, ?_, ?_, hpos⟩
  · simp only [stampAgain, if_neg hne, hset]
  · simp only [stampAgain, if_neg hne]
    rw [hcmd, hnstamp]
  · simp only [stampAgain, if_neg hne]

/-- The number of stamps of a pass fits its field. -/
theorem toNat_stampDrain_nstamp (c : DioChannel) (t : ℕ → Timespec) :
    (BitVec.ofNat 32 (stampDrain wrDioNStamp ⟨c, 0, t⟩).nstamp).toNat =
      (stampDrain wrDioNStamp ⟨c, 0, t⟩).nstamp := by
  rw [stampDrain_nstamp, BitVec.toNat_ofNat, Nat.mod_eq_of_lt]
  simp only [wrDioNStamp]
  omega

/-- A pass is a fetch from the selected channels. -/
theorem queues_stampAgain (d : WrnDrvdata) (cmd : WrDioCmd) :
    queues (stampAgain d cmd).drvdata = (queues d).step (.fetch (chSelect cmd).channels) := by
  cases hfirst : (queues d).first (chSelect cmd).channels with
  | none => rw [Queues.step_fetch_of_none hfirst, (stampAgain_of_none hfirst).1]
  | some ch =>
    rw [Queues.step_fetch_of_some hfirst, (stampAgain_of_some hfirst).1]
    funext i
    by_cases hi : i = ch
    · subst hi
      rw [queues_setCh_self, (stampDrain_start (d.ch i) cmd.t).1, Function.update_self]
      rfl
    · rw [queues_setCh_of_ne hi, Function.update_of_ne hi]

theorem queues_wrnDioCmdPulse (utc : UtcReads) (d : WrnDrvdata) (cmd : WrDioCmd) :
    queues (wrnDioCmdPulse utc d cmd).drvdata = queues d := by
  rcases wrnDioCmdPulse_cases utc d cmd with ⟨-, heq⟩ | ⟨-, -, hsame, -⟩ | ⟨-, -, hset, -⟩
  · rw [heq]
  · funext ch
    simp only [queues, hsame]
  · funext ch
    simp only [queues, hset, setupLoop]
    split_ifs
    · by_cases hch : ch = cmd.channel.toNat
      · subst hch
        rw [WrnDrvdata.setCh_ch_self]
        rfl
      · rw [WrnDrvdata.setCh_ch_of_ne d hch]
    · rfl

theorem step_fetch_nil (q : Queues) : q.step (.fetch []) = q := rfl

/-- **One event.** Every event is a step of the abstract card. -/
theorem queues_step (d : WrnDrvdata) (e : DioEvent) : queues (step d e) = (queues d).step e.op := by
  cases e with
  | interrupt irq => exact queues_wrnDioInterrupt irq d
  | ioctl ioctlcmd u =>
    simp only [step, DioEvent.op]
    cases hruns : u.runs ioctlcmd with
    | none =>
      obtain ⟨ret, cmd, -, heq⟩ := ioctl_of_not_runs hruns d
      rw [heq, step_fetch_nil]
    | some run =>
      obtain ⟨name, cmd⟩ := run
      rw [ioctl_of_runs hruns]
      cases name with
      | pulse =>
        rw [runCmd, finishCmd_drvdata, step_fetch_nil, queues_wrnDioCmdPulse]
      | stamp =>
        simp only [runCmd, finishCmd_drvdata, wrnDioCmdStamp, stampSelection]
        split_ifs
        · rfl
        · exact queues_stampAgain d cmd
      | inout =>
        obtain ⟨gpio, iomode, heq⟩ := inout_onlyOutputs d cmd
        simp only [runCmd, finishCmd_drvdata, heq]
        rfl
      | dac => rfl
  | resume signalPending copyToUser cmd =>
    simp only [step, DioEvent.op, mezzanineResume, finishCmd_drvdata, stampResume]
    cases signalPending with
    | true => rfl
    | false => exact queues_stampAgain d cmd

/-- The rings after a run are the queues after its steps. -/
theorem queues_run (d : WrnDrvdata) (es : List DioEvent) :
    queues (run step d es) = run Queues.step (queues d) (es.map DioEvent.op) := by
  induction es generalizing d with
  | nil => rfl
  | cons e es ih => rw [run_cons, ih, queues_step, List.map_cons, run_cons]

theorem queues_init (hw : PowerOn) {ch : ℕ} (hch : ch < 5) :
    queues (wrnMezzanineInit hw) ch = [] := by
  rw [queues_eq_nil_iff, wrnMezzanineInit_ch hw hch]
  rfl

/-! ### What a STAMP returns -/

/-- The channel argument of a STAMP that does not wait: one of the five channels with no flags, or
any mask with `F_MASK`. -/
inductive StampArg
  | one (ch : Fin 5)
  | mask (m : BitVec 16)

namespace StampArg

/-- The command with this argument, the other fields being any. -/
def fill (a : StampArg) (cmd : WrDioCmd) : WrDioCmd :=
  match a with
  | one ch => { cmd with flags := 0, channel := BitVec.ofNat 16 ch }
  | mask m => { cmd with flags := wrDioFMask, channel := m }

/-- The channels selected, the lowest-numbered first. -/
def channels : StampArg → List ℕ
  | one ch => [ch.val]
  | mask m => (List.range 5).filter m.getLsbD

end StampArg

/-- The stamps that a command structure returns to user space. -/
def WrDioCmd.stamps (cmd : WrDioCmd) : List Timespec := (List.range cmd.nstamp.toNat).map cmd.t

/-- What a STAMP on the channels `sel` does in the state `d`. If these channels hold no stamp, it
fails with `-EAGAIN` and changes nothing. Else it returns the oldest stamps, at most 16, of the
first channel that has any, with their number and the channel, removes just these, and leaves all
other channels as they are. -/
def StampReply (d : WrnDrvdata) (sel : List ℕ) (r : CmdResult) : Prop :=
  (r.outcome = .returns (-Errno.eagain) ↔ ∀ ch ∈ sel, queues d ch = []) ∧
    match (queues d).first sel with
    | none => r.outcome = .returns (-Errno.eagain) ∧ r.cmd.nstamp = 0 ∧ r.drvdata = d
    | some ch =>
      r.outcome = .returns 0 ∧ r.cmd.channel.toNat = ch ∧
        r.cmd.nstamp.toNat = min wrDioNStamp (queues d ch).length ∧
        r.cmd.stamps = (queues d ch).take wrDioNStamp ∧
        queues r.drvdata ch = (queues d ch).drop wrDioNStamp ∧
        ∀ i, i ≠ ch → r.drvdata.ch i = d.ch i

theorem StampArg.lt_of_mem_channels {a : StampArg} {ch : ℕ} (h : ch ∈ a.channels) : ch < 5 := by
  cases a with
  | one i =>
    rw [StampArg.channels, List.mem_singleton] at h
    exact h ▸ i.isLt
  | mask m => exact List.mem_range.mp (List.mem_of_mem_filter h)

theorem StampArg.nodup_channels (a : StampArg) : a.channels.Nodup := by
  cases a with
  | one ch => exact List.nodup_singleton _
  | mask m => exact List.nodup_range.filter _

/-- The code selects the channels of the argument. -/
theorem StampArg.channels_fill (a : StampArg) (cmd : WrDioCmd) :
    (chSelect (a.fill cmd)).channels = a.channels := by
  cases a with
  | one ch =>
    rw [channels_single (by simp [WrDioCmd.has, fill])]
    have hlt := ch.isLt
    simp only [fill, channels, BitVec.toNat_ofNat]
    rw [Nat.mod_eq_of_lt (by omega)]
  | mask m => exact channels_mask (by simp [WrDioCmd.has, fill, wrDioFMask])

/-- A command with such an argument is neither rejected nor made to wait. -/
theorem StampArg.fill_flags (a : StampArg) (cmd : WrDioCmd) (d : WrnDrvdata) :
    wrnDioCmdStamp d (a.fill cmd) = stampAgain d (a.fill cmd) ∧
      (a.fill cmd).has wrDioFWait = false := by
  cases a with
  | one ch => exact ⟨if_neg (by simp [fill, logicalOr, wrDioFMask]), by simp [WrDioCmd.has, fill]⟩
  | mask m => exact ⟨if_neg (by simp [fill, logicalOr, wrDioFMask]),
      by simp [WrDioCmd.has, fill, wrDioFMask, wrDioFWait]⟩

theorem stampReply (d : WrnDrvdata) (a : StampArg) (cmd : WrDioCmd) :
    StampReply d a.channels (wrnDioCmdStamp d (a.fill cmd)) := by
  obtain ⟨hagain, hwait⟩ := a.fill_flags cmd d
  have hchannels := a.channels_fill cmd
  rw [hagain, StampReply]
  cases hfirst : (queues d).first a.channels with
  | none =>
    obtain ⟨hdrv, hcmd, hout⟩ := stampAgain_of_none (hchannels.symm ▸ hfirst)
    rw [hwait, if_neg Bool.false_ne_true] at hout
    exact ⟨iff_of_true hout ((Queues.first_eq_none_iff _ _).mp hfirst), hout, by rw [hcmd], hdrv⟩
  | some ch =>
    have hlt := StampArg.lt_of_mem_channels (List.mem_of_find?_eq_some hfirst)
    have hne : queues d ch ≠ [] := by simpa using List.find?_some hfirst
    obtain ⟨hdrv, hcmd, hout, -⟩ := stampAgain_of_some (hchannels.symm ▸ hfirst)
    have hnat := toNat_stampDrain_nstamp (d.ch ch) (a.fill cmd).t
    refine ⟨iff_of_false ?_ fun h => hne (h ch (List.mem_of_find?_eq_some hfirst)), hout, ?_, ?_,
      ?_, ?_, ?_⟩
    · rw [hout]
      simp [Errno.eagain]
    · rw [hcmd, BitVec.toNat_ofNat, Nat.mod_eq_of_lt (by omega)]
    · rw [hcmd, hnat]
      exact stampDrain_nstamp (d.ch ch) _
    · rw [hcmd, WrDioCmd.stamps, hnat]
      exact (stampDrain_start (d.ch ch) _).2
    · rw [hdrv, queues_setCh_self, (stampDrain_start (d.ch ch) _).1]
      rfl
    · intro i hi
      rw [hdrv, WrnDrvdata.setCh_ch_of_ne d hi]

/-! ### The main result -/

/-- **The stamp buffers.** After any run, the rings of the five channels are the queues of the
abstract card after the same steps, from empty queues; and a STAMP that does not wait then does
what `StampReply` says. -/
theorem stampFifo_refines (hw : PowerOn) (es : List DioEvent) :
    (∀ ch < 5, queues (wrnMezzanineInit hw) ch = []) ∧
      queues (run step (wrnMezzanineInit hw) es) =
        run Queues.step (queues (wrnMezzanineInit hw)) (es.map DioEvent.op) ∧
      ∀ (a : StampArg) (cmd : WrDioCmd),
        StampReply (run step (wrnMezzanineInit hw) es) a.channels
          (wrnDioCmdStamp (run step (wrnMezzanineInit hw) es) (a.fill cmd)) :=
  ⟨fun _ hch => queues_init hw hch, queues_run _ es, fun a cmd => stampReply _ a cmd⟩

end SpecSw.Dio
