import SpecSw.Dio.Train
import SpecSw.Library.Yield

/-!
# PULSE commands beside the interrupt

Nothing keeps `wrn_dio_cmd_pulse` and `wrn_dio_interrupt` apart. Both write to the train of a
channel and to the registers of its next pulse, an access at a time, and the interrupt may come
between any two accesses of the command, or go on beside it on another processor. Here both are
processes that make these accesses, for one channel. The commands exclude one another, because the
ioctl lock is held, and so do the interrupts.

The interrupt looks at the count a second time before it takes one off. If a command writes a count
of 0 in between, the count becomes -1, and the train that was to end does not end any more. How
many pulses the channel can still get is known in every state (`TrainRace.left`), and so are the
states in which a command gets just the pulses it asks for (`TrainRace.asked_iff`).

If no interrupt comes to the channel while a command for it is in progress and the other way around,
the accesses do what the commands and the interrupts do one at a time (`TrainRace.apart_eq`).

## Main definitions

* `Dio.TrainCells`, `Dio.cells`, `Dio.TrainRace`, `Dio.RaceEvent`, `Dio.TrainRace.step`.
* `Dio.TrainRace.left`, `Dio.ServeAt.Spares`, `Dio.TrainRace.Apart`, `Dio.TrainRace.begun`.

## Main results

* `Dio.cells_step_of_other`: the rest of the card leaves the channel alone.
* `Dio.TrainRace.asked_iff`, `Dio.TrainRace.apart_eq`.
-/

namespace SpecSw.Dio

open EventRun

/-! ### The state of a channel -/

/-- The train of a channel, the registers of its next pulse, and the pulses programmed so far. -/
structure TrainCells where
  targetChannel : ℕ
  count : BitVec 32
  prevts : Timespec
  delay : Timespec
  cycle : BitVec 32
  trigH : BitVec 32
  trigL : BitVec 32
  triggers : List Trigger
  deriving DecidableEq, Repr

/-- These of a channel in a state of the driver. -/
def cells (ch : ℕ) (d : WrnDrvdata) : TrainCells where
  targetChannel := (d.ch ch).targetChannel
  count := (d.ch ch).count
  prevts := (d.ch ch).prevts
  delay := (d.ch ch).delay
  cycle := d.dio.cycle ch
  trigH := d.dio.trigH ch
  trigL := d.dio.trigL ch
  triggers := d.triggersOn ch

/-- What `__wrn_new_pulse` does next. -/
inductive NewPulseAt
  | cycle
  | trigH
  | trigL
  | latch
  deriving DecidableEq, Repr

/-- What it does after that. -/
def NewPulseAt.next : NewPulseAt → Option NewPulseAt
  | cycle => some trigH
  | trigH => some trigL
  | trigL => some latch
  | latch => none

/-- An access of `__wrn_new_pulse` for the channel; `ts` is what `wrn_ts_sub` has left. -/
def TrainCells.newPulse (ch : ℕ) (ts : Timespec) (c : TrainCells) : NewPulseAt → TrainCells
  | .cycle => { c with cycle := BitVec.ofInt 32 (ts.tvNsec.tdiv 8) }
  | .trigH => { c with trigH := BitVec.ofInt 32 (ts.tvSec / 2 ^ 32) }
  | .trigL => { c with trigL := BitVec.ofInt 32 ts.tvSec }
  | .latch => { c with triggers := c.triggers ++ [⟨ch, c.trigL, c.trigH, c.cycle⟩] }

/-- All its accesses. -/
def TrainCells.program (ch : ℕ) (ts : Timespec) (c : TrainCells) : TrainCells :=
  [NewPulseAt.cycle, .trigH, .trigL, .latch].foldl (TrainCells.newPulse ch ts) c

/-! ### The processes -/

/-- What the interrupt does next for the channel; `ts` is the last stamp that it has found. -/
inductive ServeAt
  | away
  /-- Looks whether the count is over. -/
  | check (ts : Timespec)
  /-- Reads the train, in `wrn_trig_next_pulse`. -/
  | read (ts : Timespec)
  /-- Writes the setpoint. -/
  | store (newts : Timespec)
  /-- Reads the setpoint back. -/
  | fetch
  | newPulse (target : ℕ) (ts : Timespec) (next : NewPulseAt)
  /-- Looks whether the count is to be decremented. -/
  | look
  | dec
  deriving DecidableEq, Repr

/-- What a PULSE on the channel does next. -/
inductive PulseAt
  | away
  | target (cmd : WrDioCmd)
  | count (cmd : WrDioCmd)
  | prevts (cmd : WrDioCmd)
  | delay (cmd : WrDioCmd)
  | newPulse (ts : Timespec) (next : NewPulseAt)

/-- The state of the channel, and what the interrupt and the command do next. -/
structure TrainRace where
  cells : TrainCells
  serve : ServeAt
  pulse : PulseAt

/-- What can happen: the interrupt has pulled the FIFO of the channel, in which `x` was the last
sample, or makes its next access; a PULSE on the channel is called, or makes its next access; or
something else happens on the card. -/
inductive RaceEvent
  | visit (x : FifoSample)
  | serve
  | call (utc : UtcReads) (cmd : WrDioCmd)
  | pulse
  | other (e : DioEvent)

namespace TrainRace

variable (ch : ℕ)

/-- The next access of the interrupt. -/
def serveStep (s : TrainRace) : TrainRace :=
  match s.serve with
  | .away => s
  | .check ts => { s with serve := if s.cells.count ≠ 0 then .read ts else .away }
  | .read ts =>
    if s.cells.targetChannel = ch then
      { s with serve := .store (timespecAdd s.cells.prevts s.cells.delay) }
    else
      { s with serve :=
          .newPulse s.cells.targetChannel (wrnTsSub (timespecAdd ts s.cells.delay) 8) .cycle }
  | .store newts => { s with cells := { s.cells with prevts := newts }, serve := .fetch }
  | .fetch =>
    { s with serve := .newPulse s.cells.targetChannel (wrnTsSub s.cells.prevts 8) .cycle }
  | .newPulse target ts next =>
    { s with
      -- the registers of another channel are not among the cells
      cells := if target = ch then s.cells.newPulse ch ts next else s.cells
      serve := (next.next.map (.newPulse target ts)).getD .look }
  | .look => { s with serve := if 0 < s.cells.count.toInt then .dec else .away }
  | .dec => { s with cells := { s.cells with count := s.cells.count - 1 }, serve := .away }

/-- The next access of the command. -/
def pulseStep (s : TrainRace) : TrainRace :=
  match s.pulse with
  | .away => s
  | .target cmd => { s with cells := { s.cells with targetChannel := ch }, pulse := .count cmd }
  | .count cmd => { s with cells := { s.cells with count := cmd.value }, pulse := .prevts cmd }
  | .prevts cmd => { s with cells := { s.cells with prevts := cmd.t 0 }, pulse := .delay cmd }
  | .delay cmd =>
    { s with
      cells := { s.cells with delay := cmd.t 2 }
      pulse := .newPulse (wrnTsSub (cmd.t 0) 8) .cycle }
  | .newPulse ts next =>
    { s with
      cells := s.cells.newPulse ch ts next
      pulse := (next.next.map (.newPulse ts)).getD .away }

/-- The command is a PULSE on the channel. -/
def IsPulse (cmd : WrDioCmd) : Prop :=
  wrDioCmdName cmd.command = some .pulse ∧ cmd.channel.toNat = ch

instance (cmd : WrDioCmd) : Decidable (IsPulse ch cmd) := inferInstanceAs (Decidable (_ ∧ _))

/-- The first access of a command to the cells, if it makes one; what it has read of the time is
`utc`. -/
def firstAccess (utc : UtcReads) (cmd : WrDioCmd) : PulseAt :=
  if cmd.has wrDioFNow then .away
  else
    let cmd := removeFirst (addNow utc cmd)
    if cmd.has wrDioFLoop then .target cmd else .newPulse (wrnTsSub (cmd.t 0) 8) .cycle

/-- Each event. Interrupts do not nest, and a command waits for the one before it. -/
def step (s : TrainRace) : RaceEvent → TrainRace
  | .visit x => if s.serve = .away then { s with serve := .check x.stamp } else s
  | .serve => s.serveStep ch
  | .call utc cmd =>
    match s.pulse with
    | .away => if IsPulse ch cmd then { s with pulse := firstAccess utc cmd } else s
    | _ => s
  | .pulse => s.pulseStep ch
  | .other _ => s

/-- Once the driver is loaded. -/
def start (hw : PowerOn) : TrainRace := ⟨Dio.cells ch (wrnMezzanineInit hw), .away, .away⟩

/-- The interrupt does not move the command. -/
theorem pulse_serveStep (s : TrainRace) : (s.serveStep ch).pulse = s.pulse := by
  obtain ⟨c, serve, pulse⟩ := s
  cases serve with
  | read ts =>
    simp only [serveStep]
    split_ifs <;> rfl
  | _ => rfl

/-- The command does not move the interrupt. -/
theorem serve_pulseStep (s : TrainRace) : (s.pulseStep ch).serve = s.serve := by
  obtain ⟨c, serve, pulse⟩ := s
  cases pulse <;> rfl

end TrainRace

/-! ### Whose train it is -/

/-- The interrupt has seen a count that is not over. -/
def ServeAt.Past : ServeAt → Prop
  | away => False
  | check _ => False
  | _ => True

/-- The command has set the target, and sets up the train. -/
def PulseAt.Past : PulseAt → Prop
  | count _ => True
  | prevts _ => True
  | delay _ => True
  | _ => False

/-- The train targets its own channel once it matters. -/
structure RaceInv (ch : ℕ) (s : TrainRace) : Prop where
  own : s.cells.count ≠ 0 ∨ s.serve.Past ∨ s.pulse.Past → s.cells.targetChannel = ch
  target : ∀ target ts next, s.serve = .newPulse target ts next → target = ch

@[simp] theorem TrainCells.newPulse_targetChannel (ch : ℕ) (ts : Timespec) (c : TrainCells)
    (next : NewPulseAt) : (c.newPulse ch ts next).targetChannel = c.targetChannel := by
  cases next <;> rfl

@[simp] theorem TrainCells.newPulse_count (ch : ℕ) (ts : Timespec) (c : TrainCells)
    (next : NewPulseAt) : (c.newPulse ch ts next).count = c.count := by
  cases next <;> rfl

theorem not_past_newPulse_next (ts : Timespec) (next : NewPulseAt) :
    ¬ ((next.next.map (PulseAt.newPulse ts)).getD .away).Past := by
  cases next <;> exact id

theorem not_past_firstAccess (utc : UtcReads) (cmd : WrDioCmd) :
    ¬ (TrainRace.firstAccess utc cmd).Past := by
  simp only [TrainRace.firstAccess]
  split_ifs <;> exact id

namespace RaceInv

variable {ch : ℕ} {s : TrainRace}

theorem serveStep (h : RaceInv ch s) : RaceInv ch (s.serveStep ch) := by
  obtain ⟨c, serve, pulse⟩ := s
  cases serve with
  | away => exact h
  | check ts =>
    simp only [TrainRace.serveStep]
    split_ifs with hcount
    · exact ⟨fun _ => h.own (.inl hcount), nofun⟩
    · exact ⟨fun hc => h.own (hc.imp id (.imp False.elim id)), nofun⟩
  | read ts =>
    have howned : c.targetChannel = ch := h.own (.inr (.inl trivial))
    simp only [TrainRace.serveStep, if_pos howned]
    exact ⟨fun _ => howned, nofun⟩
  | store newts => exact ⟨fun _ => h.own (.inr (.inl trivial)), nofun⟩
  | fetch =>
    have howned : c.targetChannel = ch := h.own (.inr (.inl trivial))
    refine ⟨fun _ => howned, fun target ts next hnext => ?_⟩
    obtain ⟨rfl, -⟩ := ServeAt.newPulse.inj hnext
    exact howned
  | newPulse target ts next =>
    obtain rfl : target = ch := h.target target ts next rfl
    have howned : c.targetChannel = target := h.own (.inr (.inl trivial))
    simp only [TrainRace.serveStep, if_true]
    refine ⟨fun _ => (c.newPulse_targetChannel _ _ _).trans howned, fun t ts' next' hnext => ?_⟩
    cases next <;> simp_all [NewPulseAt.next]
  | look =>
    have howned : c.targetChannel = ch := h.own (.inr (.inl trivial))
    simp only [TrainRace.serveStep]
    split_ifs <;> exact ⟨fun _ => howned, nofun⟩
  | dec => exact ⟨fun _ => h.own (.inr (.inl trivial)), nofun⟩

theorem pulseStep (h : RaceInv ch s) : RaceInv ch (s.pulseStep ch) := by
  obtain ⟨c, serve, pulse⟩ := s
  cases pulse with
  | away => exact h
  | target cmd => exact ⟨fun _ => rfl, h.target⟩
  | count cmd => exact ⟨fun _ => h.own (.inr (.inr trivial)), h.target⟩
  | prevts cmd => exact ⟨fun _ => h.own (.inr (.inr trivial)), h.target⟩
  | delay cmd => exact ⟨fun _ => h.own (.inr (.inr trivial)), h.target⟩
  | newPulse ts next =>
    refine ⟨fun hc => ?_, h.target⟩
    simp only [TrainRace.pulseStep, TrainCells.newPulse_targetChannel,
      TrainCells.newPulse_count] at hc ⊢
    exact h.own (hc.imp id (.imp id fun hpast => absurd hpast (not_past_newPulse_next ts next)))

theorem step (h : RaceInv ch s) (e : RaceEvent) : RaceInv ch (s.step ch e) := by
  cases e with
  | visit x =>
    rw [TrainRace.step]
    split_ifs
    · exact ⟨fun hc => h.own (hc.imp id (.imp False.elim id)), nofun⟩
    · exact h
  | serve => exact h.serveStep
  | call utc cmd =>
    rw [TrainRace.step]
    split
    · split_ifs
      · exact ⟨fun hc => h.own (hc.imp id (.imp id fun hpast =>
          absurd hpast (not_past_firstAccess utc cmd))), h.target⟩
      · exact h
    · exact h
  | pulse => exact h.pulseStep
  | other e => exact h

theorem start (hch : ch < 5) (hw : PowerOn) : RaceInv ch (.start ch hw) := by
  refine ⟨fun hc => ?_, nofun⟩
  rcases hc with hcount | hpast | hpast
  · exact absurd (by simp [TrainRace.start, cells, wrnMezzanineInit_ch hw hch, DioChannel.zero])
      hcount
  · exact hpast.elim
  · exact hpast.elim

theorem run (hch : ch < 5) (hw : PowerOn) (es : List RaceEvent) :
    RaceInv ch (run (TrainRace.step ch) (.start ch hw) es) :=
  run_invariant (I := fun _ s => RaceInv ch s) (start hch hw) (fun _ _ e h => h.step e) es

end RaceInv

/-! ### How many pulses are left -/

/-- The pulses that a count stands for: a negative one has no end. -/
def pulsesOf (count : BitVec 32) : ℕ∞ := if count.toInt < 0 then ⊤ else count.toNat

/-- The count after a pulse: one that is not infinite is decremented. -/
def countAfter (count : BitVec 32) : BitVec 32 := if 0 < count.toInt then count - 1 else count

theorem pulsesOf_of_neg {count : BitVec 32} (h : 2 ^ 31 ≤ count.toNat) : pulsesOf count = ⊤ := by
  have hneg : count.toInt < 0 := by
    rw [BitVec.toInt_eq_toNat_cond]
    split_ifs <;> omega
  exact if_pos hneg

theorem pulsesOf_of_nonneg {count : BitVec 32} (h : count.toNat < 2 ^ 31) :
    pulsesOf count = count.toNat := by
  have hnonneg : ¬ count.toInt < 0 := by
    rw [BitVec.toInt_eq_toNat_cond]
    split_ifs <;> omega
  exact if_neg hnonneg

theorem toNat_sub_one {count : BitVec 32} (h : count ≠ 0) :
    (count - 1).toNat = count.toNat - 1 := by
  have hne : count.toNat ≠ 0 := fun hzero => h (BitVec.eq_of_toNat_eq hzero)
  rw [BitVec.toNat_sub]
  change (2 ^ 32 - 1 + count.toNat) % 2 ^ 32 = _
  omega

/-- The three kinds of counts. -/
theorem count_cases (count : BitVec 32) :
    count = 0 ∨ (2 ^ 31 ≤ count.toNat ∧ count.toInt < 0 ∧ countAfter count = count) ∨
      (0 < count.toNat ∧ count.toNat < 2 ^ 31 ∧ 0 < count.toInt ∧
        countAfter count = count - 1) := by
  by_cases hzero : count = 0
  · exact .inl hzero
  · have hne : count.toNat ≠ 0 := fun h => hzero (BitVec.eq_of_toNat_eq h)
    have hint := BitVec.toInt_eq_toNat_cond count
    have hlt := count.isLt
    by_cases hhalf : count.toNat < 2 ^ 31
    · rw [if_pos (by omega)] at hint
      exact .inr (.inr ⟨by omega, hhalf, by omega, if_pos (by omega)⟩)
    · rw [if_neg (by omega)] at hint
      exact .inr (.inl ⟨by omega, by omega, if_neg (by omega)⟩)

/-- One pulse and those of the count after it are those of the count. -/
theorem one_add_pulsesOf {count : BitVec 32} (h : count ≠ 0) :
    1 + pulsesOf (countAfter count) = pulsesOf count := by
  rcases count_cases count with hzero | ⟨hneg, -, hafter⟩ | ⟨hpos, hlt, -, hafter⟩
  · exact absurd hzero h
  · rw [hafter, pulsesOf_of_neg hneg]
    rfl
  · have hpred := toNat_sub_one h
    rw [hafter, pulsesOf_of_nonneg hlt, pulsesOf_of_nonneg (by omega), hpred]
    exact_mod_cast (by omega : 1 + (count.toNat - 1) = count.toNat)

/-- The pulses that the interrupt can still program. -/
def ServeAt.left (count : BitVec 32) : ServeAt → ℕ∞
  | away => pulsesOf count
  | check _ => pulsesOf count
  | look => pulsesOf (countAfter count)
  | dec => pulsesOf (count - 1)
  | _ => 1 + pulsesOf (countAfter count)

/-- The pulse that a command still programs itself. -/
def PulseAt.left : PulseAt → ℕ∞
  | away => 0
  | _ => 1

/-- The command has written the count, if it does. -/
def PulseAt.Counted : PulseAt → Prop
  | target _ => False
  | count _ => False
  | _ => True

/-- No command is called. -/
def RaceEvent.NoCall : RaceEvent → Prop
  | call _ _ => False
  | _ => True

/-- How far the next pulse of the interrupt is away. -/
def ServeAt.work : ServeAt → ℕ
  | look => 11
  | dec => 10
  | away => 9
  | check _ => 8
  | read _ => 7
  | store _ => 6
  | fetch => 5
  | newPulse _ _ .cycle => 4
  | newPulse _ _ .trigH => 3
  | newPulse _ _ .trigL => 2
  | newPulse _ _ .latch => 1

/-- How far the pulse of the command is away, once the count is written. -/
def PulseAt.work : PulseAt → ℕ
  | prevts _ => 6
  | delay _ => 5
  | newPulse _ .cycle => 4
  | newPulse _ .trigH => 3
  | newPulse _ .trigL => 2
  | newPulse _ .latch => 1
  | _ => 0

namespace TrainRace

variable {ch : ℕ} {s : TrainRace}

/-- The number of pulses programmed. -/
def programmed (s : TrainRace) : ℕ := s.cells.triggers.length

/-- The pulses that can be programmed before another command is called. -/
def left (s : TrainRace) : ℕ∞ := s.pulse.left + s.serve.left s.cells.count

def work (s : TrainRace) : ℕ := s.pulse.work + s.serve.work

theorem serveStep_conserved (h : RaceInv ch s) :
    ((s.serveStep ch).programmed : ℕ∞) + (s.serveStep ch).left = s.programmed + s.left := by
  obtain ⟨c, serve, pulse⟩ := s
  cases serve with
  | away => rfl
  | check ts =>
    simp only [serveStep]
    split_ifs with hcount
    · simp only [programmed, left, ServeAt.left, one_add_pulsesOf hcount]
    · rfl
  | read ts => simp only [serveStep, if_pos (h.own (.inr (.inl trivial)))]; rfl
  | store newts => rfl
  | fetch => rfl
  | newPulse target ts next =>
    obtain rfl : target = ch := h.target target ts next rfl
    cases next with
    | cycle => simp only [serveStep, if_true]; rfl
    | trigH => simp only [serveStep, if_true]; rfl
    | trigL => simp only [serveStep, if_true]; rfl
    | latch =>
      simp only [serveStep, if_true, programmed, left, TrainCells.newPulse, List.length_append,
        List.length_singleton, NewPulseAt.next, Option.map_none, Option.getD_none, ServeAt.left]
      push_cast
      ring
  | look =>
    simp only [serveStep]
    split_ifs with hpos <;> simp only [programmed, left, ServeAt.left, countAfter, hpos, if_true,
      if_false]
  | dec => rfl

theorem pulseStep_conserved (h : s.pulse.Counted) :
    ((s.pulseStep ch).programmed : ℕ∞) + (s.pulseStep ch).left = s.programmed + s.left ∧
      (s.pulseStep ch).pulse.Counted := by
  obtain ⟨c, serve, pulse⟩ := s
  cases pulse with
  | away => exact ⟨rfl, trivial⟩
  | target cmd => exact h.elim
  | count cmd => exact h.elim
  | prevts cmd => exact ⟨rfl, trivial⟩
  | delay cmd => exact ⟨rfl, trivial⟩
  | newPulse ts next =>
    cases next with
    | cycle => exact ⟨rfl, trivial⟩
    | trigH => exact ⟨rfl, trivial⟩
    | trigL => exact ⟨rfl, trivial⟩
    | latch =>
      refine ⟨?_, trivial⟩
      simp only [pulseStep, programmed, left, TrainCells.newPulse, List.length_append,
        List.length_singleton, NewPulseAt.next, Option.map_none, Option.getD_none, PulseAt.left]
      push_cast
      ring

/-- While a command has a pulse to program, its next access comes nearer to it. -/
theorem pulseStep_moves (h : s.pulse.Counted) (hne : s.pulse ≠ .away) :
    s.programmed < (s.pulseStep ch).programmed ∨
      (s.pulseStep ch).programmed = s.programmed ∧ (s.pulseStep ch).work < s.work := by
  obtain ⟨c, serve, pulse⟩ := s
  cases pulse with
  | away => exact absurd rfl hne
  | target cmd => exact h.elim
  | count cmd => exact h.elim
  | prevts cmd => exact .inr ⟨rfl, by simp [pulseStep, work, PulseAt.work]⟩
  | delay cmd => exact .inr ⟨rfl, by simp [pulseStep, work, PulseAt.work]⟩
  | newPulse ts next =>
    cases next with
    | latch => exact .inl (by simp [pulseStep, programmed, TrainCells.newPulse])
    | _ => exact .inr ⟨rfl, by simp [pulseStep, work, PulseAt.work, NewPulseAt.next]⟩

/-- While the interrupt has a pulse to program, its next access comes nearer to it. -/
theorem serveStep_moves (h : RaceInv ch s) (hleft : s.serve.left s.cells.count ≠ 0)
    (hne : s.serve ≠ .away) :
    s.programmed < (s.serveStep ch).programmed ∨
      (s.serveStep ch).programmed = s.programmed ∧ (s.serveStep ch).work < s.work := by
  obtain ⟨c, serve, pulse⟩ := s
  cases serve with
  | away => exact absurd rfl hne
  | check ts =>
    have hcount : c.count ≠ 0 := by
      rintro hzero
      exact hleft (by simp [ServeAt.left, hzero, pulsesOf])
    simp only [serveStep, if_pos hcount]
    exact .inr ⟨rfl, by simp [work, ServeAt.work]⟩
  | read ts =>
    simp only [serveStep, if_pos (h.own (.inr (.inl trivial)))]
    exact .inr ⟨rfl, by simp [work, ServeAt.work]⟩
  | store newts => exact .inr ⟨rfl, by simp [serveStep, work, ServeAt.work]⟩
  | fetch => exact .inr ⟨rfl, by simp [serveStep, work, ServeAt.work]⟩
  | newPulse target ts next =>
    obtain rfl : target = ch := h.target target ts next rfl
    simp only [serveStep, if_true]
    cases next with
    | latch => exact .inl (by simp [programmed, TrainCells.newPulse])
    | _ => exact .inr ⟨rfl, by simp [work, ServeAt.work, NewPulseAt.next]⟩
  | look =>
    refine .inr ⟨rfl, ?_⟩
    simp only [serveStep]
    split_ifs <;> simp [work, ServeAt.work]
  | dec => exact .inr ⟨rfl, by simp [serveStep, work, ServeAt.work]⟩

/-- What is left is turned into pulses. -/
theorem yields (ch : ℕ) : Yields (step ch) RaceEvent.NoCall
    (fun s => RaceInv ch s ∧ s.pulse.Counted) programmed left work where
  inv s e h he := by
    refine ⟨h.1.step e, ?_⟩
    cases e with
    | visit x =>
      rw [step]
      split_ifs <;> exact h.2
    | serve =>
      have hcounted : s.pulse.Counted := h.2
      rwa [← pulse_serveStep ch s] at hcounted
    | call utc cmd => exact absurd he id
    | pulse => exact (pulseStep_conserved h.2).2
    | other e => exact h.2
  conserved s e h he := by
    cases e with
    | visit x =>
      rw [step]
      split_ifs with haway
      · simp only [programmed, left, haway, ServeAt.left]
      · rfl
    | serve => exact serveStep_conserved h.1
    | call utc cmd => exact absurd he id
    | pulse => exact (pulseStep_conserved h.2).1
    | other e => rfl
  moves s h hleft := by
    by_cases hpulse : s.pulse = .away
    · have hserve : s.serve.left s.cells.count ≠ 0 := by
        simpa only [left, hpulse, PulseAt.left, zero_add] using hleft
      by_cases haway : s.serve = .away
      · refine ⟨.visit ⟨0, 0, 0⟩, trivial, .inr ?_⟩
        simp only [step, if_pos haway]
        exact ⟨rfl, by simp [work, haway, ServeAt.work]⟩
      · exact ⟨.serve, trivial, serveStep_moves h.1 hserve haway⟩
    · exact ⟨.pulse, trivial, pulseStep_moves h.2 hpulse⟩

end TrainRace

/-! ### When a command gets the pulses it asks for -/

/-- A count written now is not disturbed by the interrupt. If it has looked at the count before and
its pulse is still to come, that one takes the place of one of the new pulses, if there is any; if
its pulse has been programmed, it must not decrement the count any more. -/
def ServeAt.Spares (count : BitVec 32) : ServeAt → Prop
  | away => True
  | check _ => True
  | look => ¬ 0 < count.toInt
  | dec => count.toInt < 0 ∧ count ≠ BitVec.intMin 32
  | _ => count ≠ 0

/-- The interrupt still programs the pulses of a count written now, no more and no less, exactly if
it does not disturb it. -/
theorem ServeAt.left_eq_iff (serve : ServeAt) (count : BitVec 32) :
    serve.left count = pulsesOf count ↔ serve.Spares count := by
  have hpast : 1 + pulsesOf (countAfter count) = pulsesOf count ↔ count ≠ 0 := by
    refine ⟨?_, one_add_pulsesOf⟩
    rintro h rfl
    exact absurd h (by decide)
  cases serve with
  | away => exact iff_of_true rfl trivial
  | check ts => exact iff_of_true rfl trivial
  | look =>
    simp only [ServeAt.left, ServeAt.Spares]
    rcases count_cases count with rfl | ⟨-, hneg, hafter⟩ | ⟨hpos, hlt, hint, hafter⟩
    · decide
    · rw [hafter]
      exact iff_of_true rfl (not_lt_of_gt hneg)
    · have hpred : (count - 1).toNat = count.toNat - 1 :=
        toNat_sub_one (by rintro rfl; exact absurd hpos (by decide))
      rw [hafter, pulsesOf_of_nonneg hlt, pulsesOf_of_nonneg (by omega), hpred]
      exact iff_of_false (by norm_cast; omega) (not_not.mpr hint)
  | dec =>
    simp only [ServeAt.left, ServeAt.Spares]
    have hmin : count = BitVec.intMin 32 ↔ count.toNat = 2 ^ 31 := by
      rw [← BitVec.toNat_inj]
      rfl
    rcases count_cases count with rfl | ⟨hneg, hint, -⟩ | ⟨hpos, hlt, hint, -⟩
    · decide
    · have hpred : (count - 1).toNat = count.toNat - 1 :=
        toNat_sub_one (by rintro rfl; exact absurd hint (by decide))
      rw [pulsesOf_of_neg hneg, Ne, hmin]
      by_cases heq : count.toNat = 2 ^ 31
      · rw [pulsesOf_of_nonneg (by omega)]
        exact iff_of_false (ENat.natCast_ne_top _) (fun h => h.2 heq)
      · rw [pulsesOf_of_neg (by omega)]
        exact iff_of_true rfl ⟨hint, heq⟩
    · have hpred : (count - 1).toNat = count.toNat - 1 :=
        toNat_sub_one (by rintro rfl; exact absurd hpos (by decide))
      rw [pulsesOf_of_nonneg hlt, pulsesOf_of_nonneg (by omega), hpred]
      exact iff_of_false (by norm_cast; omega) (fun h => absurd h.1 (not_lt_of_gt hint))
  | read ts => exact hpast
  | store newts => exact hpast
  | fetch => exact hpast
  | newPulse target ts next => exact hpast

namespace TrainRace

variable {ch : ℕ} {s : TrainRace} {cmd : WrDioCmd}

/-- A command that writes the count has a pulse of its own to program. -/
theorem left_count (h : s.pulse = .count cmd) :
    (s.pulseStep ch).left = 1 + s.serve.left cmd.value := by
  rw [pulseStep, h]
  rfl

/-- **A command gets the pulses it asks for** and the train ends after them, whatever the interrupt
does and before another command is called, exactly if the interrupt does not disturb the count when
it is written. They are its own one, which is programmed whatever the count is, and as many as the
count that is written. In particular a count of 0 puts an end to the pulses of the channel exactly
if it is not written after the interrupt has looked at the count and before it takes one off. -/
theorem asked_iff (hch : ch < 5) (hw : PowerOn) (es : List RaceEvent) :
    let s := run (step ch) (.start ch hw) es
    s.pulse = .count cmd →
      let t := s.pulseStep ch
      ((∀ n : ℕ, (∃ es', (∀ e ∈ es', RaceEvent.NoCall e) ∧
            t.programmed + n ≤ (run (step ch) t es').programmed) ↔
          (n : ℕ∞) ≤ 1 + pulsesOf cmd.value) ↔ s.serve.Spares cmd.value) ∧
        (cmd.value = 0 → ((∃ n, ∀ es', (∀ e ∈ es', RaceEvent.NoCall e) →
          (run (step ch) t es').programmed ≤ t.programmed + n) ↔ s.serve ≠ .dec)) := by
  intro s hcount t
  have hinv : RaceInv ch t := (RaceInv.run hch hw es).pulseStep
  have hcounted : t.pulse.Counted := by
    change (s.pulseStep ch).pulse.Counted
    rw [pulseStep, hcount]
    trivial
  have hleft : t.left = 1 + s.serve.left cmd.value := left_count hcount
  refine ⟨?_, fun hzero => ?_⟩
  · rw [(yields ch).forall_reach_iff ⟨hinv, hcounted⟩, hleft, ← ServeAt.left_eq_iff]
    exact (ENat.add_right_injective_of_ne_top (ENat.natCast_ne_top 1)).eq_iff
  · rw [(yields ch).bounded_iff ⟨hinv, hcounted⟩, hleft, hzero]
    cases s.serve <;> simp [ServeAt.left] <;> decide

/-- A train of two pulses, a stamp of the first one, and a command that is to stop the train. -/
def stopTooLate : List RaceEvent :=
  let cmd (value : BitVec 32) : WrDioCmd := ⟨0, 0, value, wrDioFLoop, 0, fun _ => ⟨1, 0⟩⟩
  [.call ⟨0, 0, 0, 0⟩ (cmd 2)] ++ List.replicate 8 .pulse ++ [.visit ⟨0, 1, 0⟩] ++
    List.replicate 9 .serve ++ [.call ⟨0, 0, 0, 0⟩ (cmd 0), .pulse]

theorem asked_iff_tooLate :
    let t := (run (step 0) (.start 0 .zero) stopTooLate).pulseStep 0
    ¬ ∃ n, ∀ es', (∀ e ∈ es', RaceEvent.NoCall e) →
      (run (step 0) t es').programmed ≤ t.programmed + n := by
  let cmd : WrDioCmd := ⟨0, 0, 0, wrDioFLoop, 0, fun _ => ⟨1, 0⟩⟩
  have hcount : (run (step 0) (.start 0 .zero) stopTooLate).pulse = .count cmd := rfl
  exact fun h => ((asked_iff (by decide) .zero stopTooLate hcount).2 rfl).mp h (by decide +kernel)

end TrainRace

/-! ### The rest of the card -/

/-- The registers of the next pulse of a channel. -/
def pulseRegs (ch : ℕ) (d : WrnDrvdata) : BitVec 32 × BitVec 32 × BitVec 32 :=
  (d.dio.cycle ch, d.dio.trigH ch, d.dio.trigL ch)

theorem cells_eq_of {ch : ℕ} {d d' : WrnDrvdata} (htrain : train ch d' = train ch d)
    (hregs : pulseRegs ch d' = pulseRegs ch d) : cells ch d' = cells ch d := by
  obtain ⟨htarget, hcount, hprevts, hdelay, htriggers⟩ := Train.mk.inj htrain
  obtain ⟨hcycle, hrest⟩ := Prod.mk.inj hregs
  obtain ⟨htrigH, htrigL⟩ := Prod.mk.inj hrest
  simp only [cells, htarget, hcount, hprevts, hdelay, htriggers, hcycle, htrigH, htrigL]

theorem pulseRegs_wrnNewPulse {ch i : ℕ} (hi : i ≠ ch) (ts : Timespec) (d : WrnDrvdata) :
    pulseRegs ch (wrnNewPulse i ts d).2 = pulseRegs ch d := by
  simp [pulseRegs, wrnNewPulse, DioWb.rLatch, Function.update_of_ne hi.symm]

theorem pulseRegs_serveChannel {ch i : ℕ} {d : WrnDrvdata} {fifo : ℕ → List FifoSample}
    (h : i ≠ ch ∨ fifo i = []) (hown : (d.ch i).count ≠ 0 → (d.ch i).targetChannel = i) :
    pulseRegs ch (serveChannel fifo d i) = pulseRegs ch d := by
  obtain ⟨tsbuf, bhead, btail, hc⟩ := foldl_pushSample (fifo i) (d.ch i)
  simp only [serveChannel, hc]
  split
  · rename_i x hlast
    split_ifs with hcount
    · have hi : i ≠ ch := h.resolve_right fun hnil => by simp [hnil] at hlast
      have htarget := hown hcount
      simp only [wrnTrigNextPulse, WrnDrvdata.setCh_ch_self, htarget, if_true]
      exact pulseRegs_wrnNewPulse hi _ _
    · rfl
  · rfl

/-- A PULSE on another channel leaves the registers alone. -/
theorem pulseRegs_wrnDioCmdPulse {ch : ℕ} {cmd : WrDioCmd} (hch : cmd.channel.toNat ≠ ch)
    (utc : UtcReads) (d : WrnDrvdata) :
    pulseRegs ch (wrnDioCmdPulse utc d cmd).drvdata = pulseRegs ch d := by
  simp only [wrnDioCmdPulse]
  split_ifs
  · rfl
  · rfl
  · rw [pulseRegs_wrnNewPulse hch, pulseRegs, setupLoop_dio]
    rfl

/-- **The rest of the card leaves the cells alone.** What is neither a PULSE on the channel nor an
interrupt that finds a sample of it does not change them. -/
theorem cells_step_of_other {d : WrnDrvdata} (hown : OwnTarget d) {ch : ℕ} (hch : ch < 5)
    {e : DioEvent} (hpulse : ¬ e.pulseOn ch) (hstamp : e.stampsOn ch = false) :
    cells ch (step d e) = cells ch d := by
  refine cells_eq_of (by rw [train_step hown hch hpulse, hstamp]; rfl) ?_
  cases e with
  | interrupt irq =>
    rw [step, wrnDioInterrupt]
    split_ifs with heeprom
    · have hserve : ∀ t, ∀ j ∈ servedChannels irq.isr, OwnTarget t →
          OwnTarget (serveChannel irq.fifo t j) :=
        fun t j hj ht => ht.serveChannel irq.fifo (lt_of_mem_servedChannels hj)
      have hother : ∀ t, ∀ j ∈ servedChannels irq.isr, OwnTarget t →
          pulseRegs ch (serveChannel irq.fifo t j) = pulseRegs ch t := by
        intro t j hj ht
        refine pulseRegs_serveChannel ?_ (ht j (lt_of_mem_servedChannels hj))
        by_cases hjch : j = ch
        · subst hjch
          simpa [DioEvent.stampsOn, DioIrq.stampsOn, heeprom, hj] using hstamp
        · exact .inl hjch
      have hrun := run_proj_eq (f := pulseRegs ch) hserve hother
        (hown.of_train fun i _ => train_protect i irq.now d)
      refine hrun.trans ?_
      unfold protect
      split_ifs
      · split <;> rfl
      · rfl
    · rfl
  | ioctl ioctlcmd u =>
    refine ioctl_proj_eq (fun cmd hruns => ?_) (fun d' htails => ?_) fun gpio iomode => rfl
    · exact pulseRegs_wrnDioCmdPulse (fun heq => hpulse ⟨cmd, hruns, heq⟩) u.utc d
    · obtain ⟨b, rfl⟩ := htails
      rfl
  | resume signalPending copyToUser cmd =>
    obtain ⟨b, hb⟩ := resume_onlyTails signalPending copyToUser d cmd
    rw [step, hb]
    rfl

/-! ### One at a time -/

/-- The accesses that the interrupt still makes to the channel, at most. -/
def ServeAt.rest : ServeAt → ℕ
  | away => 0
  | dec => 1
  | look => 2
  | newPulse _ _ .latch => 3
  | newPulse _ _ .trigL => 4
  | newPulse _ _ .trigH => 5
  | newPulse _ _ .cycle => 6
  | fetch => 7
  | store _ => 8
  | read _ => 9
  | check _ => 10

/-- The accesses that the command still makes to the cells. -/
def PulseAt.rest : PulseAt → ℕ
  | away => 0
  | newPulse _ .latch => 1
  | newPulse _ .trigL => 2
  | newPulse _ .trigH => 3
  | newPulse _ .cycle => 4
  | delay _ => 5
  | prevts _ => 6
  | count _ => 7
  | target _ => 8

/-- The cells after a visit of the interrupt. -/
def TrainCells.visited (ch : ℕ) (c : TrainCells) : TrainCells :=
  if c.count ≠ 0 then
    let newts := timespecAdd c.prevts c.delay
    { TrainCells.program ch (wrnTsSub newts 8) { c with prevts := newts } with
      count := countAfter c.count }
  else c

/-- The interrupt that finds the sample `x` on the channel, and nothing else. -/
def visitIrq (ch : ℕ) (x : FifoSample) : DioIrq := ⟨true, 0, 0, 1 <<< ch, fun _ => [x]⟩

/-- The ioctl that passes the command on. -/
def pulseCall (utc : UtcReads) (cmd : WrDioCmd) : UserCall := ⟨true, some cmd, true, utc⟩

namespace TrainRace

variable {ch : ℕ} {s : TrainRace}

/-- An interrupt comes to the channel only while no command for it is in progress, and the other
way around; the other events are others. -/
def Apart (ch : ℕ) (s : TrainRace) : RaceEvent → Prop
  | .visit _ => s.pulse = .away
  | .call _ _ => s.serve = .away
  | .other e => ¬ e.pulseOn ch ∧ e.stampsOn ch = false
  | _ => True

/-- What begins at an event, as a whole. -/
def begun (ch : ℕ) (s : TrainRace) : RaceEvent → List DioEvent
  | .visit x => if s.serve = .away then [.interrupt (visitIrq ch x)] else []
  | .call utc cmd =>
    match s.pulse with
    | .away => if IsPulse ch cmd then [.ioctl privMezzanineCmd (pulseCall utc cmd)] else []
    | _ => []
  | .other e => [e]
  | _ => []

/-- The cells once what is in progress has come to its end. -/
def finished (ch : ℕ) (s : TrainRace) : TrainCells :=
  ((pulseStep ch)^[8] ((serveStep ch)^[10] s)).cells

theorem rest_serveStep (ch : ℕ) (s : TrainRace) :
    (s.serveStep ch).serve.rest ≤ s.serve.rest - 1 := by
  obtain ⟨c, serve, pulse⟩ := s
  cases serve with
  | away => exact le_rfl
  | check ts => simp only [serveStep]; split_ifs <;> simp [ServeAt.rest]
  | read ts => simp only [serveStep]; split_ifs <;> simp [ServeAt.rest]
  | store newts => exact le_rfl
  | fetch => exact le_rfl
  | newPulse target ts next => cases next <;> simp [serveStep, ServeAt.rest, NewPulseAt.next]
  | look => simp only [serveStep]; split_ifs <;> simp [ServeAt.rest]
  | dec => exact le_rfl

theorem rest_pulseStep (ch : ℕ) (s : TrainRace) :
    (s.pulseStep ch).pulse.rest ≤ s.pulse.rest - 1 := by
  obtain ⟨c, serve, pulse⟩ := s
  cases pulse with
  | newPulse ts next => cases next <;> simp [pulseStep, PulseAt.rest, NewPulseAt.next]
  | _ => exact le_rfl

theorem serve_of_rest {serve : ServeAt} (h : serve.rest = 0) : serve = .away := by
  cases serve with
  | away => rfl
  | newPulse target ts next => cases next <;> simp [ServeAt.rest] at h
  | _ => simp [ServeAt.rest] at h

theorem pulse_of_rest {pulse : PulseAt} (h : pulse.rest = 0) : pulse = .away := by
  cases pulse with
  | away => rfl
  | newPulse ts next => cases next <;> simp [PulseAt.rest] at h
  | _ => simp [PulseAt.rest] at h

theorem serveStep_of_away (h : s.serve = .away) : s.serveStep ch = s := by
  rw [serveStep, h]

theorem pulseStep_of_away (h : s.pulse = .away) : s.pulseStep ch = s := by
  rw [pulseStep, h]

theorem iterate_serveStep_away {n : ℕ} (h : s.serve.rest ≤ n) :
    ((serveStep ch)^[n] s).serve = .away := by
  induction n generalizing s with
  | zero => exact serve_of_rest (Nat.le_zero.mp h)
  | succ n ih =>
    have hrest := rest_serveStep ch s
    exact ih (by omega)

theorem iterate_pulseStep_away {n : ℕ} (h : s.pulse.rest ≤ n) :
    ((pulseStep ch)^[n] s).pulse = .away := by
  induction n generalizing s with
  | zero => exact pulse_of_rest (Nat.le_zero.mp h)
  | succ n ih =>
    have hrest := rest_pulseStep ch s
    exact ih (by omega)

theorem serve_rest_le (serve : ServeAt) : serve.rest ≤ 10 := by
  cases serve with
  | newPulse target ts next => cases next <;> simp [ServeAt.rest]
  | _ => simp [ServeAt.rest]

theorem pulse_rest_le (pulse : PulseAt) : pulse.rest ≤ 8 := by
  cases pulse with
  | newPulse ts next => cases next <;> simp [PulseAt.rest]
  | _ => simp [PulseAt.rest]

theorem finished_of_serve_away (h : s.serve = .away) :
    finished ch s = ((pulseStep ch)^[8] s).cells := by
  rw [finished, Function.iterate_fixed (serveStep_of_away h)]

theorem finished_of_away (hserve : s.serve = .away) (hpulse : s.pulse = .away) :
    finished ch s = s.cells := by
  rw [finished_of_serve_away hserve, Function.iterate_fixed (pulseStep_of_away hpulse)]

/-- The accesses of the interrupt lead to the same end. -/
theorem finished_iterate_serveStep (ch n : ℕ) (s : TrainRace) :
    finished ch ((serveStep ch)^[n] s) = finished ch s := by
  induction n generalizing s with
  | zero => rfl
  | succ n ih =>
    have haway : ((serveStep ch)^[10] s).serve = .away :=
      iterate_serveStep_away (serve_rest_le s.serve)
    have hend : (serveStep ch)^[10] (s.serveStep ch) = (serveStep ch)^[10] s := by
      rw [← Function.iterate_succ_apply, Function.iterate_succ_apply', serveStep_of_away haway]
    rw [Function.iterate_succ_apply, ih, finished, hend, finished]

/-- So do those of the command when the interrupt is away. -/
theorem finished_iterate_pulseStep (n : ℕ) {s : TrainRace} (h : s.serve = .away) :
    finished ch ((pulseStep ch)^[n] s) = finished ch s := by
  induction n generalizing s with
  | zero => rfl
  | succ n ih =>
    have hserve : (s.pulseStep ch).serve = .away := (serve_pulseStep ch s).trans h
    have haway : ((pulseStep ch)^[8] s).pulse = .away :=
      iterate_pulseStep_away (pulse_rest_le s.pulse)
    have hend : (pulseStep ch)^[8] (s.pulseStep ch) = (pulseStep ch)^[8] s := by
      rw [← Function.iterate_succ_apply, Function.iterate_succ_apply', pulseStep_of_away haway]
    rw [Function.iterate_succ_apply, ih hserve, finished_of_serve_away hserve, hend,
      finished_of_serve_away h]

/-- The interrupt programs a pulse. -/
theorem iterate_serveStep_newPulse (c : TrainCells) (ts : Timespec) (pulse : PulseAt) :
    (serveStep ch)^[4] ⟨c, .newPulse ch ts .cycle, pulse⟩ = ⟨c.program ch ts, .look, pulse⟩ := by
  simp [serveStep, NewPulseAt.next, TrainCells.program]

/-- The command programs a pulse. -/
theorem iterate_pulseStep_newPulse (c : TrainCells) (ts : Timespec) (serve : ServeAt) :
    (pulseStep ch)^[4] ⟨c, serve, .newPulse ts .cycle⟩ = ⟨c.program ch ts, serve, .away⟩ := rfl

/-- The command sets up the train. -/
theorem iterate_pulseStep_setup (c : TrainCells) (cmd : WrDioCmd) (serve : ServeAt) :
    (pulseStep ch)^[4] ⟨c, serve, .target cmd⟩ =
      ⟨{ c with
          targetChannel := ch
          count := cmd.value
          prevts := cmd.t 0
          delay := cmd.t 2 },
        serve, .newPulse (wrnTsSub (cmd.t 0) 8) .cycle⟩ := rfl

/-- A visit of the interrupt with nothing beside it. -/
theorem finished_check {c : TrainCells} (hown : c.count ≠ 0 → c.targetChannel = ch)
    (ts : Timespec) : finished ch ⟨c, .check ts, .away⟩ = c.visited ch := by
  rw [TrainCells.visited]
  split_ifs with hcount
  · have hcheck : serveStep ch ⟨c, .check ts, .away⟩ = ⟨c, .read ts, .away⟩ := by
      simp only [serveStep, if_pos hcount]
    have hread : serveStep ch ⟨c, .read ts, .away⟩ =
        ⟨c, .store (timespecAdd c.prevts c.delay), .away⟩ := by
      simp only [serveStep, if_pos (hown hcount)]
    have hstored : (serveStep ch)^[4] ⟨c, .check ts, .away⟩ =
        ⟨{ c with prevts := timespecAdd c.prevts c.delay },
          .newPulse ch (wrnTsSub (timespecAdd c.prevts c.delay) 8) .cycle, .away⟩ := by
      rw [Function.iterate_succ_apply, hcheck, Function.iterate_succ_apply, hread]
      simp [serveStep, hown hcount]
    rw [← finished_iterate_serveStep ch 4, hstored, ← finished_iterate_serveStep ch 4,
      iterate_serveStep_newPulse, ← finished_iterate_serveStep ch 2, countAfter]
    by_cases hpos : 0 < c.count.toInt
    · simp [serveStep, TrainCells.program, TrainCells.newPulse, hpos, finished_of_away]
    · simp [serveStep, TrainCells.program, TrainCells.newPulse, hpos, finished_of_away]
  · have hstep : serveStep ch ⟨c, .check ts, .away⟩ = ⟨c, .away, .away⟩ := by
      simp only [serveStep, if_neg hcount]
    rw [← finished_iterate_serveStep ch 1, Function.iterate_one, hstep, finished_of_away rfl rfl]

end TrainRace

/-! ### The accesses make up the functions -/

section Whole

variable {ch : ℕ} {d : WrnDrvdata}

theorem cells_wrnNewPulse (ch : ℕ) (ts : Timespec) (d : WrnDrvdata) :
    cells ch (wrnNewPulse ch ts d).2 = (cells ch d).program ch (wrnTsSub ts 8) := by
  simp [cells, wrnNewPulse, DioWb.rLatch, TrainCells.program, TrainCells.newPulse,
    WrnDrvdata.triggersOn]

theorem cells_setCh_self (c : DioChannel) : cells ch (d.setCh ch c) =
    { cells ch d with
      targetChannel := c.targetChannel
      count := c.count
      prevts := c.prevts
      delay := c.delay } := by
  rw [cells, WrnDrvdata.setCh_ch_self]
  rfl

theorem cells_wrnTrigNextPulse (htarget : (d.ch ch).targetChannel = ch)
    (hcount : (d.ch ch).count ≠ 0) (ts : Timespec) :
    cells ch (wrnTrigNextPulse ch ts d) = (cells ch d).visited ch := by
  have hvisited : (cells ch d).count ≠ 0 := hcount
  rw [TrainCells.visited, if_pos hvisited]
  simp only [wrnTrigNextPulse, htarget, if_true, cells_setCh_self, cells_wrnNewPulse]
  simp [cells, TrainCells.program, TrainCells.newPulse, htarget, countAfter]

theorem cells_pushSample (x : FifoSample) :
    cells ch (d.setCh ch (pushSample (d.ch ch) x)) = cells ch d := by
  rw [cells_setCh_self]
  rfl

theorem cells_protect (now : ℤ) : cells ch (protect now d) = cells ch d := by
  unfold protect
  split_ifs
  · split <;> rfl
  · rfl

/-- A channel with a sample is visited. -/
theorem cells_serveChannel (hown : (d.ch ch).count ≠ 0 → (d.ch ch).targetChannel = ch)
    (x : FifoSample) : cells ch (serveChannel (fun _ => [x]) d ch) = (cells ch d).visited ch := by
  have hserve : serveChannel (fun _ => [x]) d ch =
      if (d.ch ch).count ≠ 0 then
        wrnTrigNextPulse ch x.stamp (d.setCh ch (pushSample (d.ch ch) x))
      else d.setCh ch (pushSample (d.ch ch) x) := rfl
  rw [hserve]
  split_ifs with hcount
  · rw [cells_wrnTrigNextPulse _ _, cells_pushSample]
    · rw [WrnDrvdata.setCh_ch_self]
      exact hown hcount
    · rw [WrnDrvdata.setCh_ch_self]
      exact hcount
  · have hvisited : ¬ (cells ch d).count ≠ 0 := hcount
    rw [cells_pushSample, TrainCells.visited, if_neg hvisited]

/-- The visit is what the interrupt does to the channel. -/
theorem cells_visitIrq (hown : OwnTarget d) (hch : ch < 5) (x : FifoSample) :
    cells ch (step d (.interrupt (visitIrq ch x))) = (cells ch d).visited ch := by
  have hserved : servedChannels (1 <<< ch) = [ch] :=
    (by decide : ∀ i < 5, servedChannels (1 <<< i) = [i]) ch hch
  have hprotect : OwnTarget (protect 0 d) := hown.of_train fun i _ => train_protect i 0 d
  simp only [step, wrnDioInterrupt, visitIrq, if_true, hserved, List.foldl_cons, List.foldl_nil]
  exact (cells_serveChannel (hprotect ch hch) x).trans (by rw [cells_protect])

/-- What a PULSE that is not immediate does to the channel it names. -/
theorem cells_wrnDioCmdPulse {cmd : WrDioCmd} (hchannel : cmd.channel.toNat = ch) (hch : ch < 5)
    (hnow : cmd.has wrDioFNow = false) (utc : UtcReads) :
    let cmd' := removeFirst (addNow utc cmd)
    cells ch (wrnDioCmdPulse utc d cmd).drvdata =
      TrainCells.program ch (wrnTsSub (cmd'.t 0) 8) (if cmd'.has wrDioFLoop then
        { cells ch d with
          targetChannel := ch
          count := cmd'.value
          prevts := cmd'.t 0
          delay := cmd'.t 2 }
      else cells ch d) := by
  intro cmd'
  have hle : ¬ 4 < ch := by omega
  simp only [wrnDioCmdPulse, hchannel, if_neg hle, hnow, Bool.false_eq_true, if_false]
  rw [cells_wrnNewPulse, setupLoop]
  split_ifs
  · rw [cells_setCh_self]
    rfl
  · rfl

/-- The accesses of a command with nothing beside it are what the ioctl does to the channel. -/
theorem finished_firstAccess (hch : ch < 5) {cmd : WrDioCmd} (hcmd : TrainRace.IsPulse ch cmd)
    (utc : UtcReads) :
    TrainRace.finished ch ⟨cells ch d, .away, TrainRace.firstAccess utc cmd⟩ =
      cells ch (step d (.ioctl privMezzanineCmd (pulseCall utc cmd))) := by
  have hprogram (c : TrainCells) (ts : Timespec) :
      TrainRace.finished ch ⟨c, .away, .newPulse ts .cycle⟩ = c.program ch ts := by
    rw [← TrainRace.finished_iterate_pulseStep 4 rfl, TrainRace.iterate_pulseStep_newPulse]
    exact TrainRace.finished_of_away rfl rfl
  have hruns : (pulseCall utc cmd).runs privMezzanineCmd = some (.pulse, cmd) := by
    simp [UserCall.runs, pulseCall, hcmd.1]
  rw [step_of_runs_pulse hruns, TrainRace.firstAccess]
  cases hnow : cmd.has wrDioFNow with
  | true =>
    have hle : ¬ 4 < ch := by omega
    simp only [wrnDioCmdPulse, hcmd.2, if_neg hle, hnow, if_true]
    exact TrainRace.finished_of_away rfl rfl
  | false =>
    refine Eq.trans ?_ (cells_wrnDioCmdPulse hcmd.2 hch hnow utc).symm
    rw [if_neg Bool.false_ne_true]
    generalize removeFirst (addNow utc cmd) = cmd'
    by_cases hloop : cmd'.has wrDioFLoop = true
    · simp only [if_pos hloop]
      rw [← TrainRace.finished_iterate_pulseStep 4 rfl, TrainRace.iterate_pulseStep_setup]
      exact hprogram _ _
    · simp only [if_neg hloop]
      exact hprogram _ _

end Whole

namespace TrainRace

variable {ch : ℕ} {s : TrainRace} {d : WrnDrvdata}

/-- The interrupt or the command is away, and once the other one has come to its end, the cells are
those of the card. -/
structure Follows (ch : ℕ) (d : WrnDrvdata) (s : TrainRace) : Prop where
  cells : finished ch s = Dio.cells ch d
  away : s.serve = .away ∨ s.pulse = .away

theorem Follows.cells_eq (h : Follows ch d s) (hserve : s.serve = .away)
    (hpulse : s.pulse = .away) : s.cells = Dio.cells ch d :=
  (finished_of_away hserve hpulse).symm.trans h.cells

/-- What begins at an event is done to the card at once. -/
theorem Follows.step (h : Follows ch d s) (hown : OwnTarget d) (hch : ch < 5) {e : RaceEvent}
    (he : Apart ch s e) : Follows ch (run Dio.step d (begun ch s e)) (s.step ch e) := by
  cases e with
  | visit x =>
    rw [begun, TrainRace.step]
    split_ifs with haway
    · have hstart : ({ s with serve := .check x.stamp } : TrainRace) =
          ⟨Dio.cells ch d, .check x.stamp, .away⟩ := by
        rw [← h.cells_eq haway he, ← show s.pulse = .away from he]
      refine ⟨?_, .inr he⟩
      rw [hstart, finished_check (hown ch hch), run_cons, run_nil, cells_visitIrq hown hch]
    · exact h
  | serve =>
    refine ⟨(finished_iterate_serveStep ch 1 s).trans h.cells, ?_⟩
    rcases h.away with haway | haway
    · exact .inl (by rw [TrainRace.step, serveStep_of_away haway, haway])
    · exact .inr ((pulse_serveStep ch s).trans haway)
  | call utc cmd =>
    rw [begun, TrainRace.step]
    split
    · rename_i haway
      split_ifs with hcmd
      · have hstart : ({ s with pulse := firstAccess utc cmd } : TrainRace) =
            ⟨Dio.cells ch d, .away, firstAccess utc cmd⟩ := by
          rw [← h.cells_eq he haway, ← show s.serve = .away from he]
        refine ⟨?_, .inl he⟩
        rw [hstart, finished_firstAccess hch hcmd, run_cons, run_nil]
      · exact h
    · exact h
  | pulse =>
    rcases h.away with haway | haway
    · exact ⟨(finished_iterate_pulseStep 1 haway).trans h.cells,
        .inl ((serve_pulseStep ch s).trans haway)⟩
    · rw [TrainRace.step, pulseStep_of_away haway]
      exact h
  | other e =>
    refine ⟨h.cells.trans ?_, h.away⟩
    rw [begun, run_cons, run_nil, cells_step_of_other hown hch he.1 he.2]

/-- **One at a time.** When no interrupt comes to the channel while a PULSE on it is in progress and
no PULSE is called while the interrupt is at the channel, the accesses, in any order, have done to
the channel what the commands, the interrupts and all else on the card do one at a time, in the
order in which they begin. -/
theorem apart_eq (hch : ch < 5) (hw : PowerOn) (es : List RaceEvent) :
    let s := run (step ch) (.start ch hw) es
    Along (step ch) (Apart ch) (.start ch hw) es → s.serve = .away → s.pulse = .away →
      s.cells = Dio.cells ch
        (run Dio.step (wrnMezzanineInit hw) (collect (step ch) (begun ch) (.start ch hw) es)) := by
  intro s hapart hserve hpulse
  have hstart : Follows ch (run Dio.step (wrnMezzanineInit hw) []) (.start ch hw) :=
    ⟨finished_of_away rfl rfl, .inl rfl⟩
  have hfollows := hapart.collect_invariant
    (I := fun out s => Follows ch (run Dio.step (wrnMezzanineInit hw) out) s) hstart
    fun out t e h he => by
      rw [run_append]
      exact h.step (ownTarget_run hw out) hch he
  exact hfollows.cells_eq hserve hpulse

/-- A command that starts a train, and a stamp of its first pulse. -/
def firstStamp : List RaceEvent :=
  [.call ⟨0, 0, 0, 0⟩ ⟨0, 0, 2, wrDioFLoop, 0, fun _ => ⟨1, 0⟩⟩] ++ List.replicate 8 .pulse ++
    [.visit ⟨0, 1, 0⟩] ++ List.replicate 10 .serve

theorem apart_eq_firstStamp :
    (run (step 0) (.start 0 .zero) firstStamp).cells = Dio.cells 0
      (run Dio.step (wrnMezzanineInit .zero)
        (collect (step 0) (begun 0) (.start 0 .zero) firstStamp)) := by
  have hapart : Along (step 0) (Apart 0) (.start 0 .zero) firstStamp := by
    refine (along_append _).mpr ⟨(along_append _).mpr ⟨?_, rfl, trivial⟩, ?_⟩
    · exact ⟨rfl, by simp [Apart]⟩
    · simp [Apart]
  exact apart_eq (by decide) .zero firstStamp hapart rfl rfl

end TrainRace

end SpecSw.Dio
