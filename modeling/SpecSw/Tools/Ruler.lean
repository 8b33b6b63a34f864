import SpecSw.Dio.StampFifo
import SpecSw.Tools.DioIoctl

/-!
# `wr-dio-ruler`

The ruler waits for a stamp of its input channel and then runs its list of actions: each is a pulse
on a channel of the local card, by the PULSE ioctl, or of the remote one, by a frame that the
agent there passes to the same ioctl.

A STAMP that waits returns up to 16 stamps, all that the driver has when it looks. The ruler uses
the first and never looks at `nstamp`, so stamps that arrive while the actions for another one are
run, or before the ruler is woken up, can be lost.

A run is a list of turns. A turn carries what happens on the card until the pass of the STAMP, that
is, how the input events are batched, and which of the actions fail.

## Main definitions

* `Tools.rulerWaitEvent`, `Tools.rulerRunActions`, `Tools.rulerTurn`.
* `Tools.Replicates`: every stamp handed over is followed by all actions.
* `Tools.OneStamp`: the condition on a turn.

## Main results

* `Tools.ruler_along_iff`, `Tools.not_forall_ruler`.
-/

namespace SpecSw.Tools

open Dio EventRun

/-! ### The tool -/

/-- `struct ruler_action`. -/
structure RulerAction where
  isremote : Bool
  channel : Fin 5
  delay : Timespec

/-- A command that has been issued: to the local driver, or in a frame to the remote agent. -/
structure Issue where
  isremote : Bool
  cmd : WrDioCmd

/-- The request of `ruler_wait_event`. -/
def waitCmd (inch : Fin 5) (rulerCmd : WrDioCmd) : WrDioCmd :=
  { rulerCmd with
    command := commandNumber .stamp
    flags := wrDioFWait
    channel := BitVec.ofNat 16 inch }

/-- `ruler_wait_event`, up to the return of its ioctl. -/
def rulerWaitEvent (utc : UtcReads) (inch : Fin 5) (d : WrnDrvdata) (rulerCmd : WrDioCmd) :
    Option IoctlReturn := mezzanineCmd utc d (waitCmd inch rulerCmd)

/-- The requested delay added to the stamp. -/
def addDelay (ts delay : Timespec) : Timespec :=
  let t : Timespec := ⟨ts.tvSec + delay.tvSec, ts.tvNsec + delay.tvNsec⟩
  if 1000 * 1000 * 1000 < t.tvNsec then ⟨t.tvSec + 1, t.tvNsec - 1000 * 1000 * 1000⟩ else t

/-- The part of `f.cmd` that an action sets. -/
def aim (ts : Timespec) (a : RulerAction) (f : WrDioCmd) : WrDioCmd :=
  { f with channel := BitVec.ofNat 16 a.channel }.setT 0 (addDelay ts a.delay)

/-- What the loop of `ruler_run_actions` leaves: the driver, `f.cmd`, the commands issued, and its
return value. -/
structure ActionRun where
  drvdata : WrnDrvdata
  f : WrDioCmd
  issued : List Issue
  ret : ℤ

/-- The loop of `ruler_run_actions` from the action `i` on; `ok` tells whose `send` or ioctl does
not fail. -/
def actionLoop (utc : UtcReads) (ok : ℕ → Bool) (ts : Timespec) :
    ℕ → List RulerAction → WrnDrvdata → WrDioCmd → ActionRun
  | _, [], d, f => ⟨d, f, [], 0⟩
  | i, a :: actions, d, f =>
    let f := aim ts a f
    if !ok i then ⟨d, f, [], -1⟩
    else if a.isremote then
      let r := actionLoop utc ok ts (i + 1) actions d f
      { r with issued := ⟨true, f⟩ :: r.issued }
    else
      match mezzanineCmd utc d f with
      | none => ⟨d, f, [], -1⟩ -- a PULSE does not sleep
      | some p =>
        if p.ret < 0 then ⟨p.drvdata, p.cmd, [], -1⟩
        else
          let r := actionLoop utc ok ts (i + 1) actions p.drvdata p.cmd
          { r with issued := ⟨false, f⟩ :: r.issued }

/-- `ruler_run_actions`: the pulses are 1ms long. -/
def rulerRunActions (utc : UtcReads) (ok : ℕ → Bool) (ts : Timespec) (actions : List RulerAction)
    (d : WrnDrvdata) (f : WrDioCmd) : ActionRun :=
  actionLoop utc ok ts 0 actions d
    { f.setT 1 { f.t 1 with tvNsec := 1000 * 1000 } with command := commandNumber .pulse }

/-- The tool and the card: the static structures of the tool, all commands issued, and whether the
main loop has been left by `exit(1)`. -/
structure Ruler where
  drvdata : WrnDrvdata
  rulerCmd : WrDioCmd
  f : WrDioCmd
  issued : List Issue
  exited : Bool

/-- A turn of the main loop: what happens on the card until the driver looks for stamps, what a
PULSE reads then, and which actions do not fail. -/
structure RulerTurn where
  events : List DioEvent
  utc : UtcReads
  ok : ℕ → Bool

/-- The tool before its main loop. -/
def Ruler.start (d : WrnDrvdata) : Ruler := ⟨d, staticCmd .pulse, staticCmd .pulse, [], false⟩

/-- The card when the driver looks for stamps. -/
def Ruler.card (s : Ruler) (e : RulerTurn) : WrnDrvdata := run step s.drvdata e.events

/-- A turn of the main loop. If the driver finds no stamp the tool is still asleep after it. -/
def rulerTurn (inch : Fin 5) (actions : List RulerAction) (s : Ruler) (e : RulerTurn) : Ruler :=
  if s.exited then { s with drvdata := s.card e }
  else
    match rulerWaitEvent e.utc inch (s.card e) s.rulerCmd with
    | none => { s with drvdata := s.card e }
    | some p =>
      if p.ret < 0 then { s with drvdata := p.drvdata, rulerCmd := p.cmd, exited := true }
      else
        -- assume it's only one stamp
        let r := rulerRunActions e.utc e.ok (p.cmd.t 0) actions p.drvdata s.f
        ⟨r.drvdata, p.cmd, r.f, s.issued ++ r.issued, r.ret < 0⟩

/-! ### The contract -/

/-- The stamps that the driver hands over in a turn. -/
def handedOver (inch : Fin 5) (s : Ruler) (e : RulerTurn) : List Timespec :=
  if s.exited then []
  else
    match rulerWaitEvent e.utc inch (s.card e) s.rulerCmd with
    | none => []
    | some p => if p.ret < 0 then [] else p.cmd.stamps

/-- A command executes an action for a stamp: a pulse on the channel of the action, at the time of
the stamp plus the delay. -/
structure Executes (x : Issue) (p : RulerAction × Timespec) : Prop where
  isremote : x.isremote = p.1.isremote
  command : x.cmd.command = commandNumber .pulse
  flags : x.cmd.flags = 0
  channel : x.cmd.channel.toNat = p.1.channel
  trigger : (x.cmd.t 0).ns = p.2.ns + p.1.delay.ns

/-- In the turn every action is executed once for every stamp handed over, in order. -/
def Replicates (inch : Fin 5) (actions : List RulerAction) (s : Ruler) (e : RulerTurn) : Prop :=
  ∃ new, (rulerTurn inch actions s e).issued = s.issued ++ new ∧
    List.Forall₂ Executes new
      ((handedOver inch s e).flatMap fun ts => actions.map fun a => (a, ts))

/-- The driver finds at most one stamp, and if it finds one no action fails; or there is nothing to
do. -/
def OneStamp (inch : Fin 5) (actions : List RulerAction) (s : Ruler) (e : RulerTurn) : Prop :=
  s.exited = true ∨ actions = [] ∨ queues (s.card e) inch = [] ∨
    (queues (s.card e) inch).length = 1 ∧ ∀ i < actions.length, e.ok i = true

/-! ### The actions -/

/-- The carry does not change the time. -/
theorem ns_addDelay (ts delay : Timespec) : (addDelay ts delay).ns = ts.ns + delay.ns := by
  unfold addDelay
  dsimp only
  split_ifs <;> simp only [Timespec.ns, nsecPerSec] <;> ring

/-- The fields of the sum, before and after the carry, are of type `long`. -/
theorem addDelay_long {ts delay : Timespec} (hts : ts.Normalized) (hdelay : delay.Normalized)
    (hsec : 0 ≤ ts.tvSec) (hsec' : 0 ≤ delay.tvSec) (hsum : ts.tvSec + delay.tvSec + 1 < 2 ^ 63) :
    (ts.tvNsec + delay.tvNsec < 2 ^ 63 ∧ 0 ≤ ts.tvNsec + delay.tvNsec) ∧
      0 ≤ (addDelay ts delay).tvSec ∧ (addDelay ts delay).tvSec < 2 ^ 63 ∧
      0 ≤ (addDelay ts delay).tvNsec ∧ (addDelay ts delay).tvNsec ≤ nsecPerSec := by
  simp only [Timespec.Normalized, nsecPerSec] at hts hdelay
  rw [addDelay, nsecPerSec]
  split_ifs with hcarry
  · dsimp only at hcarry ⊢
    omega
  · dsimp only at hcarry ⊢
    omega

/-- `f.cmd` is a PULSE without flags. -/
def PlainPulse (f : WrDioCmd) : Prop := f.command = commandNumber .pulse ∧ f.flags = 0

theorem executes_aim (ts : Timespec) (a : RulerAction) {f : WrDioCmd} (hf : PlainPulse f) :
    Executes ⟨a.isremote, aim ts a f⟩ (a, ts) where
  isremote := rfl
  command := hf.1
  flags := hf.2
  channel := by
    have hlt := a.channel.isLt
    exact Nat.mod_eq_of_lt (by omega)
  trigger := by
    simp only [aim, WrDioCmd.setT, Function.update_self, ns_addDelay]

/-- The PULSE of an action succeeds, and what it copies back is as plain. -/
theorem mezzanineCmd_aim (utc : UtcReads) (d : WrnDrvdata) (ts : Timespec) (a : RulerAction)
    {f : WrDioCmd} (hf : PlainPulse f) :
    ∃ p, mezzanineCmd utc d (aim ts a f) = some p ∧ p.ret = 0 ∧ PlainPulse p.cmd := by
  have hchannel : ¬ 4 < (aim ts a f).channel.toNat := by
    rw [(executes_aim ts a hf).channel]
    have hlt := a.channel.isLt
    omega
  have hcommand : (aim ts a f).command = commandNumber .pulse := hf.1
  have hflags : (aim ts a f).flags = 0 := hf.2
  generalize aim ts a f = cmd at hchannel hcommand hflags
  have hpulse : (wrnDioCmdPulse utc d cmd).outcome = .returns 0 ∧
      PlainPulse (wrnDioCmdPulse utc d cmd).cmd := by
    have hno : ∀ flag, cmd.has flag = false := fun flag => by simp [WrDioCmd.has, hflags]
    simp only [wrnDioCmdPulse, hchannel, if_false, hno, addNow, removeFirst, Bool.false_eq_true]
    exact ⟨trivial, hcommand, hflags⟩
  refine ⟨⟨0, (wrnDioCmdPulse utc d cmd).cmd, (wrnDioCmdPulse utc d cmd).drvdata⟩, ?_, rfl,
    hpulse.2⟩
  simp [mezzanineCmd, mezzanineCmd_eq utc d hcommand, runCmd, finishCmd, hpulse.1]

/-- What the loop does from the action `i` on: it executes the actions for the stamp, all of them
exactly if none fails. -/
structure LoopSpec (ok : ℕ → Bool) (ts : Timespec) (i : ℕ) (actions : List RulerAction)
    (r : ActionRun) : Prop where
  plain : PlainPulse r.f
  all : (∀ j < actions.length, ok (i + j) = true) →
    List.Forall₂ Executes r.issued (actions.map fun a => (a, ts))
  only : r.issued.length = actions.length → ∀ j < actions.length, ok (i + j) = true
  le : r.issued.length ≤ actions.length

theorem forall_ok_cons {ok : ℕ → Bool} {i : ℕ} {a : RulerAction} {actions : List RulerAction} :
    (∀ j < (a :: actions).length, ok (i + j) = true) ↔
      ok i = true ∧ ∀ j < actions.length, ok (i + 1 + j) = true := by
  rw [List.length_cons, Nat.forall_lt_succ_left']
  simp [Nat.add_assoc, Nat.add_comm 1]

/-- An action that does not fail, and the loop behind it. -/
theorem LoopSpec.cons {ok : ℕ → Bool} {ts : Timespec} {i : ℕ} {a : RulerAction}
    {actions : List RulerAction} {x : Issue} {r : ActionRun} (hok : ok i = true)
    (hx : Executes x (a, ts)) (hr : LoopSpec ok ts (i + 1) actions r) :
    LoopSpec ok ts i (a :: actions) { r with issued := x :: r.issued } where
  plain := hr.plain
  all h := .cons hx (hr.all (forall_ok_cons.mp h).2)
  only h := forall_ok_cons.mpr ⟨hok, hr.only (Nat.succ.inj h)⟩
  le := Nat.succ_le_succ hr.le

theorem actionLoop_spec (utc : UtcReads) (ok : ℕ → Bool) (ts : Timespec) (i : ℕ)
    (actions : List RulerAction) (d : WrnDrvdata) {f : WrDioCmd} (hf : PlainPulse f) :
    LoopSpec ok ts i actions (actionLoop utc ok ts i actions d f) := by
  induction actions generalizing i d f with
  | nil => exact ⟨hf, fun _ => .nil, fun _ j hj => absurd hj (Nat.not_lt_zero j), Nat.le_refl 0⟩
  | cons a actions ih =>
    have haim : PlainPulse (aim ts a f) := hf
    have hexec := executes_aim ts a hf
    rw [actionLoop]
    cases hok : ok i with
    | false =>
      refine ⟨haim, fun h => ?_, fun h => absurd h (by simp), Nat.zero_le _⟩
      exact absurd (hok.symm.trans (forall_ok_cons.mp h).1) Bool.false_ne_true
    | true =>
      simp only [Bool.not_true, Bool.false_eq_true, if_false]
      cases hremote : a.isremote with
      | true =>
        rw [hremote] at hexec
        exact LoopSpec.cons hok hexec (ih (i + 1) d haim)
      | false =>
        rw [hremote] at hexec
        obtain ⟨p, hcall, hret, hplain⟩ := mezzanineCmd_aim utc d ts a hf
        simp only [hcall, hret, lt_irrefl, if_false]
        exact LoopSpec.cons hok hexec (ih (i + 1) p.drvdata hplain)

/-! ### The reply -/

/-- The request is for one channel, and it waits. -/
theorem waitCmd_spec (inch : Fin 5) (d : WrnDrvdata) (rulerCmd : WrDioCmd) :
    wrnDioCmdStamp d (waitCmd inch rulerCmd) = stampAgain d (waitCmd inch rulerCmd) ∧
      (chSelect (waitCmd inch rulerCmd)).channels = [inch.val] ∧
      (waitCmd inch rulerCmd).has wrDioFWait = true := by
  have hlt := inch.isLt
  have hchannel : (waitCmd inch rulerCmd).channel.toNat = inch := Nat.mod_eq_of_lt (by omega)
  refine ⟨if_neg (by simp [waitCmd, logicalOr, wrDioFMask, wrDioFWait]), ?_, ?_⟩
  · rw [channels_single (by simp [WrDioCmd.has, waitCmd, wrDioFWait, wrDioFMask]), hchannel]
  · simp [WrDioCmd.has, waitCmd, wrDioFWait]

/-- A STAMP that waits sleeps if its channel has no stamp. -/
theorem rulerWaitEvent_of_nil {d : WrnDrvdata} {inch : Fin 5} (h : queues d inch = [])
    (utc : UtcReads) (rulerCmd : WrDioCmd) : rulerWaitEvent utc inch d rulerCmd = none := by
  obtain ⟨hagain, hchannels, hwait⟩ := waitCmd_spec inch d rulerCmd
  have hfirst : (queues d).first (chSelect (waitCmd inch rulerCmd)).channels = none := by
    simp [hchannels, Queues.first, h]
  have hout := (stampAgain_of_none hfirst).2.2
  rw [if_pos hwait, ← hagain] at hout
  exact mezzanineCmd_stamp_sleeps utc rfl hout

/-- Else it returns the oldest stamps of the channel, at most 16. -/
theorem rulerWaitEvent_of_ne_nil {d : WrnDrvdata} {inch : Fin 5} (h : queues d inch ≠ [])
    (utc : UtcReads) (rulerCmd : WrDioCmd) :
    ∃ p, rulerWaitEvent utc inch d rulerCmd = some p ∧ p.ret = 0 ∧
      p.cmd.stamps = (queues d inch).take wrDioNStamp := by
  obtain ⟨hagain, hchannels, -⟩ := waitCmd_spec inch d rulerCmd
  have hfirst : (queues d).first (chSelect (waitCmd inch rulerCmd)).channels = some inch.val := by
    simp [hchannels, Queues.first, h]
  obtain ⟨-, hcmd, hout, -⟩ := stampAgain_of_some hfirst
  rw [← hagain] at hcmd hout
  refine ⟨_, mezzanineCmd_stamp utc rfl hout, rfl, ?_⟩
  rw [hcmd, WrDioCmd.stamps, toNat_stampDrain_nstamp]
  exact (stampDrain_start (d.ch inch) _).2

/-- The first of the stamps is `t[0]`. -/
theorem t_zero_of_stamps {cmd : WrDioCmd} {x : Timespec} {xs : List Timespec}
    (h : cmd.stamps = x :: xs) : cmd.t 0 = x := by
  unfold WrDioCmd.stamps at h
  cases hn : cmd.nstamp.toNat with
  | zero => rw [hn] at h; exact absurd h (by simp)
  | succ n =>
    rw [hn, List.range_succ_eq_map, List.map_cons] at h
    exact (List.cons.inj h).1

/-! ### The main result -/

/-- The frame is never given flags. -/
def FrameInv (s : Ruler) : Prop := s.f.flags = 0

section Turn

variable {inch : Fin 5} (actions : List RulerAction) {s : Ruler} {e : RulerTurn}

/-- A turn in which the driver finds stamps runs the actions for the first of them. -/
theorem rulerTurn_of_ne_nil (hs : FrameInv s) (hexited : s.exited = false)
    (hne : queues (s.card e) inch ≠ []) :
    ∃ x xs r, handedOver inch s e = x :: xs ∧
      (queues (s.card e) inch).take wrDioNStamp = x :: xs ∧
      (rulerTurn inch actions s e).issued = s.issued ++ r.issued ∧
      (rulerTurn inch actions s e).f = r.f ∧ LoopSpec e.ok x 0 actions r := by
  obtain ⟨p, hcall, hret, hstamps⟩ := rulerWaitEvent_of_ne_nil hne e.utc s.rulerCmd
  have htake : (queues (s.card e) inch).take wrDioNStamp ≠ [] := by
    simpa [wrDioNStamp] using hne
  obtain ⟨x, xs, hcons⟩ := List.exists_cons_of_ne_nil htake
  have hx : p.cmd.t 0 = x := t_zero_of_stamps (hstamps.trans hcons)
  refine ⟨x, xs, rulerRunActions e.utc e.ok x actions p.drvdata s.f, ?_, hcons, ?_, ?_, ?_⟩
  · simp [handedOver, hexited, hcall, hret, hstamps, hcons]
  · simp [rulerTurn, hexited, hcall, hret, hx]
  · simp [rulerTurn, hexited, hcall, hret, hx]
  · exact actionLoop_spec e.utc e.ok x 0 actions p.drvdata ⟨rfl, hs⟩

/-- A turn of a tool that has exited, or in which the driver finds no stamp, issues nothing. -/
theorem rulerTurn_of_idle (h : s.exited = true ∨ queues (s.card e) inch = []) :
    handedOver inch s e = [] ∧ rulerTurn inch actions s e = { s with drvdata := s.card e } := by
  cases hexited : s.exited with
  | true => simp [handedOver, rulerTurn, hexited]
  | false =>
    have hnil := h.resolve_left (by simp [hexited])
    simp [handedOver, rulerTurn, hexited, rulerWaitEvent_of_nil hnil]

theorem frameInv_rulerTurn (hs : FrameInv s) : FrameInv (rulerTurn inch actions s e) := by
  by_cases hidle : s.exited = true ∨ queues (s.card e) inch = []
  · rw [(rulerTurn_of_idle actions hidle).2]
    exact hs
  · obtain ⟨hexited, hne⟩ := not_or.mp hidle
    obtain ⟨x, xs, r, -, -, -, hf, hloop⟩ :=
      rulerTurn_of_ne_nil actions hs (Bool.eq_false_iff.mpr hexited) hne
    rw [FrameInv, hf]
    exact hloop.plain.2

/-- Each pair of an action and a stamp takes a command of its own. -/
theorem length_pairs (stamps : List Timespec) (actions : List RulerAction) :
    (stamps.flatMap fun ts => actions.map fun a => (a, ts)).length =
      stamps.length * actions.length := by
  simp [List.length_flatMap]

/-- **One turn.** Every stamp handed over in a turn is replicated exactly when there is at most
one, and no action fails for it. -/
theorem replicates_iff (hs : FrameInv s) :
    Replicates inch actions s e ↔ OneStamp inch actions s e := by
  by_cases hidle : s.exited = true ∨ queues (s.card e) inch = []
  · obtain ⟨hnone, hturn⟩ := rulerTurn_of_idle actions hidle
    refine iff_of_true ⟨[], ?_, ?_⟩ ?_
    · rw [hturn, List.append_nil]
    · rw [hnone]
      exact .nil
    · exact hidle.imp_right fun h => Or.inr (Or.inl h)
  · obtain ⟨hexited, hne⟩ := not_or.mp hidle
    obtain ⟨x, xs, r, hover, htake, hissued, -, hloop⟩ :=
      rulerTurn_of_ne_nil actions hs (Bool.eq_false_iff.mpr hexited) hne
    have hlen := congrArg List.length htake
    rw [List.length_take, List.length_cons, wrDioNStamp] at hlen
    simp only [Replicates, OneStamp, hexited, hne, false_or, hover, hissued,
      List.append_cancel_left_eq, exists_eq_left', Bool.false_eq_true]
    constructor
    · intro hall
      refine or_iff_not_imp_left.mpr fun hactions => ?_
      have hpos := List.length_pos_iff.mpr hactions
      have hcount := hall.length_eq
      rw [length_pairs, List.length_cons, Nat.succ_mul] at hcount
      have hle := hloop.le
      have hxs : xs.length = 0 := by
        rcases Nat.eq_zero_or_pos xs.length with h | h
        · exact h
        · have hmul := Nat.mul_le_mul_right actions.length h
          omega
      refine ⟨by omega, fun i hi => ?_⟩
      rw [hxs, Nat.zero_mul, Nat.zero_add] at hcount
      simpa using hloop.only hcount i hi
    · rintro (rfl | ⟨hone, hok⟩)
      · have hnil : r.issued = [] := List.eq_nil_of_length_eq_zero (Nat.le_zero.mp hloop.le)
        rw [hnil]
        simp
      · obtain rfl : xs = [] := List.eq_nil_of_length_eq_zero (by omega)
        simpa using hloop.all fun j hj => by simpa using hok j hj

end Turn

/-- **The ruler.** In every run of the main loop, each turn executes every action exactly once for
each stamp handed over by the driver, in order and with the trigger time moved by the delay, exactly
when in no turn the driver has more than one stamp of the input channel, and no action fails. -/
theorem ruler_along_iff (inch : Fin 5) (actions : List RulerAction) (d : WrnDrvdata)
    (es : List RulerTurn) :
    Along (rulerTurn inch actions) (Replicates inch actions) (.start d) es ↔
      Along (rulerTurn inch actions) (OneStamp inch actions) (.start d) es := by
  have hstart : FrameInv (.start d) := rfl
  exact along_iff_along hstart (fun _ _ hs _ => frameInv_rulerTurn actions hs)
    (fun _ _ hs => replicates_iff actions hs) es

/-- Two samples of channel 0 in one interrupt. -/
def twoSamples : DioIrq := ⟨true, 0, 0, 1, fun _ => [⟨0, 1, 0⟩, ⟨0, 2, 0⟩]⟩

/-- Two stamps in one reply to `wr-dio-ruler wr1 IN0 L3+0.001`. -/
theorem not_forall_ruler : ¬ ∀ (inch : Fin 5) (actions : List RulerAction) (hw : PowerOn)
    (es : List RulerTurn), Along (rulerTurn inch actions) (Replicates inch actions)
      (.start (wrnMezzanineInit hw)) es := by
  intro hall
  obtain ⟨⟨new, hissued, hnew⟩, -⟩ := hall 0 [⟨false, 3, ⟨0, 1000000⟩⟩] .zero
    [⟨[.interrupt twoSamples], ⟨0, 0, 0, 0⟩, fun _ => true⟩]
  have hlen := hnew.length_eq
  have hissued := congrArg List.length hissued
  rw [List.length_append, hlen] at hissued
  revert hissued
  decide

end SpecSw.Tools
