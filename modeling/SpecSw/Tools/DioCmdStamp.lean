import SpecSw.Dio.StampFifo
import SpecSw.Tools.DioIoctl

/-!
# The `stamp` and `stampm` commands of `wr-dio-cmd`

`scan_stamp` repeats the STAMP ioctl and prints what each reply holds until the driver answers
`-EAGAIN`. The driver cuts a reply at 16 stamps, serves one channel a call, and rewrites the
channel and the number of stamps in the structure that the tool passes again.

In terms of the queues of `Dio.Queues`, a reply takes the head of the lines still to be printed
(`pending_eq_append`), so the loop prints these lines from the first to the last
(`stampPoll_spec`).

## Main definitions

* `Tools.scanStamp`, `Tools.mainStamp`.
* `Tools.StampRequest`: the arguments of a request that does not wait.

## Main results

* `Tools.mainStamp_prints`: every pending stamp of the selected channels is printed once.
-/

namespace SpecSw.Tools

open Dio

/-! ### The tool -/

/-- `s` preceded by copies of `c`, to a width of `n`. -/
def padLeft (c : Char) (n : ℕ) (s : String) : String :=
  String.ofList (List.replicate (n - s.length) c) ++ s

/-- `%9li`. -/
def formatWide (x : ℤ) : String := padLeft ' ' 9 (toString x)

/-- `%09li`: the zeros stand behind the sign. -/
def formatZeros (x : ℤ) : String :=
  if x < 0 then "-" ++ padLeft '0' 8 (toString x.natAbs) else padLeft '0' 9 (toString x)

/-- A line of output, `"ch %i, %9li.%09li\n"`. -/
def stampLine (ch : ℕ) (ts : Timespec) : String :=
  "ch " ++ toString ch ++ ", " ++ formatWide ts.tvSec ++ "." ++ formatZeros ts.tvNsec ++ "\n"

example : stampLine 2 ⟨5, 7⟩ = "ch 2,         5.000000007\n" := by decide +kernel

/-- What a run of the tool does: how it ends, the lines on `stdout`, and the driver after it. -/
structure StampRun where
  fin : ToolEnd
  printed : List String
  drvdata : WrnDrvdata

/-- The lines printed for a reply. -/
def replyLines (cmd : WrDioCmd) : List String := cmd.stamps.map (stampLine cmd.channel.toNat)

/-- The `while (1)` loop of `scan_stamp`. It is `none` when it does not end within `fuel`
turns. -/
def stampPoll (utc : UtcReads) (ch : ℤ) : ℕ → WrnDrvdata → WrDioCmd → Option StampRun
  | 0, _, _ => none
  | fuel + 1, d, cmd =>
    match mezzanineCmd utc d { cmd with channel := BitVec.ofInt 16 ch } with
    | none => some ⟨.sleeps, [], d⟩
    | some r =>
      if r.ret < 0 then
        if r.ret = -Errno.eagain then some ⟨.ret 0, [], r.drvdata⟩
        else some ⟨.ret (-1), [], r.drvdata⟩
      else
        (stampPoll utc ch fuel r.drvdata r.cmd).map fun s =>
          { s with printed := replyLines r.cmd ++ s.printed }

/-- `scan_stamp` from its loop on: with a mask the flags are set once more. -/
def scanChannel (utc : UtcReads) (fuel : ℕ) (ismask : Bool) (ch : ℤ) (d : WrnDrvdata)
    (cmd : WrDioCmd) : Option StampRun :=
  stampPoll utc ch fuel d (if ismask then { cmd with flags := wrDioFMask } else cmd)

/-- `scan_stamp` on the words behind the name of the command. -/
def scanStamp (utc : UtcReads) (fuel : ℕ) (args : List Word) (ismask : Bool) (d : WrnDrvdata)
    (cmd : WrDioCmd) : Option StampRun :=
  let waits : Bool := match args with
    | [_, w] => w.text == "wait".toList
    | _ => false
  let cmd := { cmd with flags := if waits then wrDioFWait else 0 }
  match if waits then args.take 1 else args with
  | [] => scanChannel utc fuel true 0x1f d cmd
  | [w] =>
    match w.integer with
    | none => some ⟨.exit 1, [], d⟩ -- not a channel
    | some ch =>
      if ch < 0 ∨ 31 < ch ∨ (!ismask ∧ 4 < ch) then some ⟨.exit 1, [], d⟩
      else scanChannel utc fuel ismask ch d cmd
  | _ => some ⟨.ret (-1), [], d⟩ -- wrong number of arguments

/-- `main` on `stamp` and, with `ismask`, `stampm`. -/
def mainStamp (utc : UtcReads) (fuel : ℕ) (ismask : Bool) (args : List Word)
    (d : WrnDrvdata) : Option StampRun :=
  (scanStamp utc fuel args ismask d (staticCmd .stamp)).map fun s => { s with fin := s.fin.ofMain }

/-! ### The lines still to be printed -/

section Pending

variable {α : Type*} (line : ℕ → Timespec → α) (q : Queues)

/-- The lines for the stamps held, in the order of the channels and for each the oldest first. -/
def pending (sel : List ℕ) : List α := sel.flatMap fun ch => (q ch).map (line ch)

theorem pending_cons (ch : ℕ) (sel : List ℕ) :
    pending line q (ch :: sel) = (q ch).map (line ch) ++ pending line q sel := List.flatMap_cons

theorem pending_congr {q q' : Queues} {sel : List ℕ} (h : ∀ ch ∈ sel, q ch = q' ch) :
    pending line q sel = pending line q' sel :=
  List.flatMap_congr fun ch hch => by rw [h ch hch]

theorem pending_eq_nil {sel : List ℕ} (h : q.first sel = none) : pending line q sel = [] := by
  rw [Queues.first_eq_none_iff] at h
  rw [pending, List.flatMap_eq_nil_iff]
  intro ch hch
  rw [h ch hch, List.map_nil]

variable {q}

/-- A fetch takes the first lines. -/
theorem pending_eq_append {sel : List ℕ} {ch : ℕ} (hsel : sel.Nodup) (h : q.first sel = some ch) :
    pending line q sel =
      ((q ch).take wrDioNStamp).map (line ch) ++ pending line (q.step (.fetch sel)) sel := by
  rw [Queues.step_fetch_of_some h]
  induction sel with
  | nil => exact absurd h (by simp [Queues.first])
  | cons i sel ih =>
    rw [List.nodup_cons] at hsel
    by_cases hi : q i = []
    · have hrest : q.first sel = some ch := by
        simpa [Queues.first, hi] using h
      have hne : i ≠ ch := by
        rintro rfl
        exact hsel.1 (List.mem_of_find?_eq_some hrest)
      rw [pending_cons, pending_cons, Function.update_of_ne hne, hi, ih hsel.2 hrest]
      rfl
    · obtain rfl : i = ch := by
        simpa [Queues.first, hi] using h
      have hothers : ∀ j ∈ sel, q j = Function.update q i ((q i).drop wrDioNStamp) j := by
        intro j hj
        rw [Function.update_of_ne (ne_of_mem_of_not_mem hj hsel.1)]
      rw [pending_cons, pending_cons, Function.update_self, ← List.append_assoc, ← List.map_append,
        List.take_append_drop, pending_congr line hothers]

end Pending

/-! ### The loop -/

section Loop

variable (utc : UtcReads) {d : WrnDrvdata} {a : StampArg} {cmd : WrDioCmd}

/-- With no stamps in the selected channels the driver changes nothing, and the loop ends. -/
theorem mezzanineCmd_of_none (hcmd : cmd.command = commandNumber .stamp)
    (h : (queues d).first a.channels = none) :
    ∃ cmd', mezzanineCmd utc d (a.fill cmd) = some ⟨-Errno.eagain, cmd', d⟩ := by
  obtain ⟨hagain, hwait⟩ := a.fill_flags cmd d
  obtain ⟨hdrv, -, hout⟩ := stampAgain_of_none ((a.channels_fill cmd).symm ▸ h)
  rw [hwait, if_neg Bool.false_ne_true, ← hagain] at hout
  rw [← hagain] at hdrv
  have hname : (a.fill cmd).command = commandNumber .stamp := by
    cases a <;> exact hcmd
  exact ⟨_, by rw [mezzanineCmd_stamp utc hname hout, hdrv]⟩

/-- Else the driver takes stamps from the first channel that has any, and the tool prints them. -/
theorem mezzanineCmd_of_some {ch : ℕ} (hcmd : cmd.command = commandNumber .stamp)
    (h : (queues d).first a.channels = some ch) :
    ∃ cmd' c, mezzanineCmd utc d (a.fill cmd) = some ⟨0, cmd', d.setCh ch c⟩ ∧
      cmd'.command = commandNumber .stamp ∧ cmd'.flags = (a.fill cmd).flags ∧
      replyLines cmd' = ((queues d ch).take wrDioNStamp).map (stampLine ch) ∧
      queues (d.setCh ch c) = (queues d).step (.fetch a.channels) := by
  obtain ⟨hagain, -⟩ := a.fill_flags cmd d
  obtain ⟨hdrv, hcmd', hout, -⟩ := stampAgain_of_some ((a.channels_fill cmd).symm ▸ h)
  have hreply := stampReply d a cmd
  rw [StampReply, h] at hreply
  obtain ⟨-, -, hch, -, hstamps, -⟩ := hreply
  have hqueues := queues_stampAgain d (a.fill cmd)
  rw [hdrv, a.channels_fill] at hqueues
  rw [← hagain] at hdrv hcmd' hout
  have hname : (a.fill cmd).command = commandNumber .stamp := by
    cases a <;> exact hcmd
  refine ⟨_, _, by rw [mezzanineCmd_stamp utc hname hout, hdrv], ?_, ?_, ?_, hqueues⟩
  · rw [hcmd']
    exact hname
  · rw [hcmd']
  · rw [replyLines, hstamps, hch]

/-- What the tool has done to the driver when all selected stamps have been fetched. -/
structure Emptied (sel : List ℕ) (d d' : WrnDrvdata) : Prop where
  selected : ∀ ch ∈ sel, queues d' ch = []
  others : ∀ ch ∉ sel, d'.ch ch = d.ch ch
  frame : { d' with ch := d.ch } = d

/-- A channel fetched from is one of those to be emptied. -/
theorem Emptied.of_setCh {sel : List ℕ} {d d' : WrnDrvdata} {ch : ℕ} {c : DioChannel}
    (hch : ch ∈ sel) (h : Emptied sel (d.setCh ch c) d') : Emptied sel d d' where
  selected := h.selected
  others i hi := by
    rw [h.others i hi, WrnDrvdata.setCh_ch_of_ne d (ne_of_mem_of_not_mem hch hi).symm]
  frame := by
    have hframe := congrArg (fun e : WrnDrvdata => { e with ch := d.ch }) h.frame
    exact hframe

/-- The loop prints all pending stamps. Each turn that finds some takes at least one, so as many
turns as there are stamps, and one more, are enough. -/
theorem stampPoll_spec (a : StampArg) {ch : ℤ} {flags : BitVec 32}
    (hfill : ∀ cmd : WrDioCmd, cmd.flags = flags →
      { cmd with channel := BitVec.ofInt 16 ch } = a.fill cmd)
    (hflags : ∀ cmd : WrDioCmd, (a.fill cmd).flags = flags) (fuel : ℕ) (d : WrnDrvdata)
    (cmd : WrDioCmd) (hcmd : cmd.command = commandNumber .stamp) (hf : cmd.flags = flags)
    (hfuel : (pending stampLine (queues d) a.channels).length < fuel) :
    ∃ s, stampPoll utc ch fuel d cmd = some s ∧ s.fin = .ret 0 ∧
      s.printed = pending stampLine (queues d) a.channels ∧ Emptied a.channels d s.drvdata := by
  induction fuel generalizing d cmd with
  | zero => exact absurd hfuel (Nat.not_lt_zero _)
  | succ fuel ih =>
    rw [stampPoll, hfill cmd hf]
    cases hfirst : (queues d).first a.channels with
    | none =>
      obtain ⟨cmd', hcall⟩ := mezzanineCmd_of_none utc hcmd hfirst
      refine ⟨⟨.ret 0, [], d⟩, ?_, rfl, (pending_eq_nil stampLine _ hfirst).symm, ?_⟩
      · simp [hcall, Errno.eagain]
      · exact ⟨(Queues.first_eq_none_iff _ _).mp hfirst, fun _ _ => rfl, rfl⟩
    | some i =>
      obtain ⟨cmd', c, hcall, hcmd', hf', hlines, hqueues⟩ :=
        mezzanineCmd_of_some utc hcmd hfirst
      have hmem : i ∈ a.channels := List.mem_of_find?_eq_some hfirst
      have hpending := pending_eq_append stampLine a.nodup_channels hfirst
      rw [← hqueues, ← hlines] at hpending
      have hpos : 0 < (replyLines cmd').length := by
        have hne : queues d i ≠ [] := by simpa using List.find?_some hfirst
        rw [hlines, List.length_map, List.length_take]
        exact Nat.lt_min.mpr ⟨Nat.succ_pos 15, List.length_pos_iff.mpr hne⟩
      have hless : (pending stampLine (queues (d.setCh i c)) a.channels).length < fuel := by
        rw [hpending, List.length_append] at hfuel
        omega
      obtain ⟨s, hs, hfin, hprinted, hemptied⟩ :=
        ih (d.setCh i c) cmd' hcmd' (hf'.trans (hflags cmd)) hless
      refine ⟨{ s with printed := replyLines cmd' ++ s.printed }, ?_, hfin, ?_, ?_⟩
      · simp [hcall, hs]
      · rw [hpending, hprinted]
      · exact hemptied.of_setCh hmem

end Loop

/-! ### The main result -/

/-- A request that does not wait: `stamp` for one channel, `stampm` for a mask, in either case with
the characters that name it, or one of the two with no argument. -/
inductive StampRequest
  | one (ch : Fin 5) (text : List Char)
  | mask (m : Fin 32) (text : List Char)
  | all (ismask : Bool)

namespace StampRequest

/-- Which of the two commands it is. -/
def ismask : StampRequest → Bool
  | one _ _ => false
  | mask _ _ => true
  | all ismask => ismask

/-- The words on the command line. -/
def args : StampRequest → List Word
  | one ch text => [⟨text, some ch.val⟩]
  | mask m text => [⟨text, some m.val⟩]
  | all _ => []

/-- The selected channels, in ascending order. -/
def channels : StampRequest → List ℕ
  | one ch _ => [ch.val]
  | mask m _ => (List.range 5).filter m.val.testBit
  | all _ => List.range 5

/-- What the driver is asked for. -/
def arg : StampRequest → StampArg
  | one ch _ => .one ch
  | mask m _ => .mask (BitVec.ofNat 16 m)
  | all _ => .mask 0x1f

theorem channels_arg (r : StampRequest) : r.arg.channels = r.channels := by
  cases r with
  | one ch text => rfl
  | mask m text =>
    refine List.filter_congr fun ch hch => ?_
    have hlt : ch < 16 := by
      have := List.mem_range.mp hch
      omega
    rw [BitVec.getLsbD_ofNat]
    simp [hlt]
  | all _ => exact (by decide : (StampArg.mask 0x1f).channels = List.range 5)

/-- The number that the tool puts into the structure at each turn. -/
def number : StampRequest → ℤ
  | one ch _ => ch.val
  | mask m _ => m.val
  | all _ => 0x1f

/-- The flags of the request. -/
def flags : StampRequest → BitVec 32
  | one _ _ => 0
  | _ => wrDioFMask

theorem flags_fill (r : StampRequest) (cmd : WrDioCmd) : (r.arg.fill cmd).flags = r.flags := by
  cases r <;> rfl

/-- The tool arms the structure as the argument says. -/
theorem fill_arg (r : StampRequest) (cmd : WrDioCmd) (h : cmd.flags = r.flags) :
    { cmd with channel := BitVec.ofInt 16 r.number } = r.arg.fill cmd := by
  cases r <;> simp [arg, number, StampArg.fill] <;> exact h

/-- The arguments of a request lead to the loop. -/
theorem scanStamp_args (utc : UtcReads) (fuel : ℕ) (r : StampRequest) (d : WrnDrvdata)
    (cmd : WrDioCmd) :
    scanStamp utc fuel r.args r.ismask d cmd =
      stampPoll utc r.number fuel d { cmd with flags := r.flags } := by
  cases r with
  | one ch text =>
    have hlo : ¬ (ch.val : ℤ) < 0 := by omega
    have hhi : ¬ 4 < (ch.val : ℤ) := by omega
    have hhi' : ¬ 31 < (ch.val : ℤ) := by omega
    simp [scanStamp, args, ismask, hlo, hhi, hhi', scanChannel, number, flags]
  | mask m text =>
    have hlo : ¬ (m.val : ℤ) < 0 := by omega
    have hhi : ¬ 31 < (m.val : ℤ) := by omega
    simp [scanStamp, args, ismask, hlo, hhi, scanChannel, number, flags]
  | all _ => rfl

end StampRequest

/-- **`stamp` prints everything once.** On any contents of the rings, with nothing arriving, a
request that does not wait ends with status 0. It has printed, for the selected channels in
ascending order, the stamps of each, the oldest first, labelled with the channel; the rings of these
channels are empty then, and nothing else of the driver has changed. -/
theorem mainStamp_prints (utc : UtcReads) (d : WrnDrvdata) (r : StampRequest) :
    ∃ n, ∀ fuel ≥ n, ∃ s, mainStamp utc fuel r.ismask r.args d = some s ∧ s.fin = .exit 0 ∧
      s.printed = r.channels.flatMap (fun ch => (queues d ch).map (stampLine ch)) ∧
      Emptied r.channels d s.drvdata := by
  refine ⟨(pending stampLine (queues d) r.arg.channels).length + 1, fun fuel hfuel => ?_⟩
  obtain ⟨s, hs, hfin, hprinted, hemptied⟩ := stampPoll_spec utc r.arg r.fill_arg r.flags_fill fuel
    d { staticCmd .stamp with flags := r.flags } rfl rfl hfuel
  rw [r.channels_arg] at hprinted hemptied
  refine ⟨{ s with fin := .exit 0 }, ?_, rfl, hprinted, hemptied⟩
  simp [mainStamp, r.scanStamp_args, hs, hfin, ToolEnd.ofMain]

end SpecSw.Tools
