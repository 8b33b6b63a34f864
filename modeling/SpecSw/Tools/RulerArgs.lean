import Mathlib.Tactic.FinCases
import SpecSw.Tools.DioCmdPulse
import SpecSw.Tools.Ruler

/-!
# The command line of `wr-dio-ruler`

The words behind the name of the interface are the input channel and the actions. `%i` takes a
number in the base that its prefix tells, with a sign in front. An action is `L` or `R`, its
channel, a plus sign and the delay, and the delay is looked for behind the first plus sign of the
word.

A `RulerLine` is what a command line asks for, and its words are accepted. But `%i` takes a plus
sign in front of the channel, too: then the delay that is used is the channel.

## Main definitions

* `Tools.scanInt`, `Tools.rulerConfigIn`, `Tools.rulerBuildActions`, `Tools.mainRuler`.
* `Tools.ActionWord`, `Tools.RulerLine`.

## Main results

* `Tools.mainRuler_words`.
-/

namespace SpecSw.Tools

open Decimal Scanf

/-! ### The tool -/

/-- The value of a digit of base 16. -/
def hexValue (c : Char) : ℕ :=
  if c.isDigit then c.toNat - 48 else if c.isLower then c.toNat - 87 else c.toNat - 55

/-- `isxdigit`. -/
def isHexDigit (c : Char) : Bool := c.isDigit || ('a' ≤ c && c ≤ 'f') || ('A' ≤ c && c ≤ 'F')

/-- `strchr("01234567", c)`. -/
def isOctDigit (c : Char) : Bool := '0' ≤ c && c ≤ '7'

/-- The digits of a number of a base, at least one, its value as an `int`, and the rest. -/
def scanDigits (base : ℕ) (isDigit : Char → Bool) (neg : Bool) (t : List Char) : Outcome :=
  let ds := t.takeWhile isDigit
  if ds = [] then .matchingFailure
  else
    let n := ds.foldl (fun n c => base * n + hexValue c) 0
    .matched [.long (int32 (strtol (signed neg n)))] (t.dropWhile isDigit)

/-- `%i`. -/
def scanInt (s : List Char) : Outcome :=
  if s.dropWhile isSpace = [] then .inputFailure
  else
    match scanSign (s.dropWhile isSpace) with
    | (neg, '0' :: 'x' :: t) => scanDigits 16 isHexDigit neg t
    | (neg, '0' :: 'X' :: t) => scanDigits 16 isHexDigit neg t
    | (neg, '0' :: t) => scanDigits 8 isOctDigit neg ('0' :: t)
    | (neg, t) => scanDigits 10 Char.isDigit neg t

/-- A channel, if it is in range. -/
def rulerChannel (ch : ℤ) : Option (Fin 5) :=
  if h : 0 ≤ ch ∧ ch < 5 then some ⟨ch.toNat, by omega⟩ else none

/-- `ruler_config_in`: `sscanf(chname, "IN%i%c", &ch, &c)` makes one conversion. -/
def rulerConfigIn (chname : List Char) : Option (Fin 5) :=
  match chname with
  | 'I' :: 'N' :: s =>
    match scanInt s with
    | .matched [.long ch] [] => rulerChannel ch
    | _ => none
  | _ => none

/-- `sscanf(string, "%c%i+%c\n", &lr, &ch, &c)` makes three conversions. -/
def scanAction (s : List Char) : Option (Char × ℤ) :=
  match s with
  | [] => none
  | lr :: s =>
    match scanInt s with
    | .matched [.long ch] ('+' :: _ :: _) => some (lr, ch)
    | _ => none

/-- What follows the first plus sign. -/
def afterPlus (s : List Char) : List Char := (s.dropWhile (· ≠ '+')).tail

/-- A turn of the loop of `ruler_build_actions`. -/
def buildAction (s : List Char) : Except ScanStop RulerAction :=
  match scanAction s with
  | none => .error .wrong
  | some (lr, ch) =>
    if lr ≠ 'L' ∧ lr ≠ 'R' then .error .wrong
    else
      match rulerChannel ch with
      | none => .error .wrong -- out of range
      | some ch =>
        match parseTs (afterPlus s) with
        | .derefs => .error .derefs
        | .returns ret delay =>
          if ret < 0 then .error .wrong else .ok ⟨lr = 'R', ch, delay⟩

/-- `ruler_build_actions`, where there is memory. -/
def rulerBuildActions (strings : List (List Char)) : Except ScanStop (List RulerAction) :=
  strings.mapM buildAction

/-- How `main` gets on: it ends before its loop, or it enters the loop with an input channel and
actions. -/
inductive RulerMain
  | exit (status : ℤ)
  | derefs
  | loop (inch : Fin 5) (actions : List RulerAction)

/-- `main` up to its loop, on `argv` from `argv[1]` on, where the interface can be used. -/
def mainRuler (argv : List (List Char)) : RulerMain :=
  if argv = ["-V".toList] then .exit 0
  else
    match argv with
    | _ :: chname :: string :: strings =>
      match rulerConfigIn chname with
      | none => .exit 1
      | some inch =>
        match rulerBuildActions (string :: strings) with
        | .error .wrong => .exit 1
        | .error .derefs => .derefs
        | .ok actions => .loop inch actions
    | _ => .exit 1

/-! ### What a command line asks for -/

/-- The word of an action, with or without a plus sign in front of its channel. -/
structure ActionWord where
  isremote : Bool
  plus : Bool
  channel : Fin 5
  delay : PlainTime

/-- The channel as it is printed. -/
def channelText (plus : Bool) (ch : Fin 5) : List Char :=
  (if plus then ['+'] else []) ++ [Nat.digitChar ch]

def ActionWord.text (a : ActionWord) : List Char :=
  (if a.isremote then 'R' else 'L') :: (channelText a.plus a.channel ++ '+' :: a.delay.text)

/-- What the word asks for. -/
def ActionWord.action (a : ActionWord) : RulerAction := ⟨a.isremote, a.channel, a.delay.ts⟩

/-- What a command line asks for: an input channel, and one action at least. -/
structure RulerLine where
  inch : Fin 5
  first : ActionWord
  others : List ActionWord

namespace RulerLine

/-- The words of the actions. -/
def actionWords (l : RulerLine) : List ActionWord := l.first :: l.others

/-- The command line behind the interface. -/
def words (l : RulerLine) : List (List Char) :=
  ('I' :: 'N' :: channelText false l.inch) :: l.actionWords.map ActionWord.text

end RulerLine

/-! ### What is parsed -/

/-- A number of one digit. -/
theorem scanDigits_single (base : ℕ) {isDigit : Char → Bool} {c : Char} {rest : List Char}
    (hc : isDigit c = true) (hrest : rest = [] ∨ ∃ t, rest = '+' :: t) (hplus : isDigit '+' = false)
    (hlt : hexValue c < 10) :
    scanDigits base isDigit false (c :: rest) = .matched [.long (hexValue c)] rest := by
  have htake : rest.takeWhile isDigit = [] ∧ rest.dropWhile isDigit = rest := by
    rcases hrest with rfl | ⟨t, rfl⟩ <;> simp [hplus]
  have hvalue : int32 (strtol (signed false (hexValue c))) = hexValue c := by
    have hsigned : signed false (hexValue c) = (hexValue c : ℤ) := rfl
    rw [hsigned, strtol_of_range (by omega) (by omega), int32_of_range (by omega) (by omega)]
  rw [scanDigits]
  simp [hc, htake, hvalue]

/-- A channel is taken for what it is, also with a plus sign. -/
theorem scanInt_channelText (plus : Bool) (ch : Fin 5) {rest : List Char}
    (hrest : rest = [] ∨ ∃ t, rest = '+' :: t) :
    scanInt (channelText plus ch ++ rest) = .matched [.long (ch : ℕ)] rest := by
  by_cases hch : ch = 0
  · subst hch
    have hscan : scanInt (channelText plus 0 ++ rest) =
        scanDigits 8 isOctDigit false ('0' :: rest) := by
      rcases hrest with rfl | ⟨t, rfl⟩ <;> cases plus <;> rfl
    rw [hscan, scanDigits_single 8 (by decide) hrest (by decide) (by decide)]
    rfl
  · have hscan : scanInt (channelText plus ch ++ rest) =
        scanDigits 10 Char.isDigit false (Nat.digitChar ch :: rest) := by
      fin_cases ch
      · exact absurd rfl hch
      all_goals cases plus <;> rfl
    have hvalue : hexValue (Nat.digitChar ch) = ch := by fin_cases ch <;> rfl
    have hdigit : (Nat.digitChar ch).isDigit = true := by fin_cases ch <;> rfl
    rw [hscan, scanDigits_single 10 hdigit hrest (by decide) (by have := ch.isLt; omega), hvalue]

theorem rulerChannel_natCast (ch : Fin 5) : rulerChannel (ch : ℕ) = some ch := by
  rw [rulerChannel, dif_pos ⟨by omega, by have := ch.isLt; omega⟩]
  rfl

theorem rulerConfigIn_text (ch : Fin 5) :
    rulerConfigIn ('I' :: 'N' :: channelText false ch) = some ch := by
  have hscan := scanInt_channelText false ch (.inl rfl)
  rw [List.append_nil] at hscan
  rw [rulerConfigIn]
  simp only [hscan]
  exact rulerChannel_natCast ch

/-- The delay that is used: the channel where there is a plus sign in front of it. -/
def ActionWord.delayUsed (a : ActionWord) : Timespec :=
  if a.plus then ⟨(a.channel : ℕ), 0⟩ else a.delay.ts

theorem number_digitChar (ch : Fin 5) : Number [Nat.digitChar ch] (ch : ℕ) := by
  have hdigits : Digits [Nat.digitChar ch] := by
    intro c hc
    rw [List.mem_singleton.mp hc]
    fin_cases ch <;> rfl
  have hvalue : digitsValue [Nat.digitChar ch] = ch := by fin_cases ch <;> rfl
  have hnumber := Number.of_digits hdigits (List.cons_ne_nil _ _)
  rwa [hvalue] at hnumber

theorem parseTs_afterPlus (a : ActionWord) :
    parseTs (afterPlus a.text) = .returns 0 a.delayUsed := by
  cases hplus : a.plus with
  | true =>
    have hafter : afterPlus a.text = [Nat.digitChar a.channel] ++ '+' :: a.delay.text := by
      rw [ActionWord.text, hplus]
      cases a.isremote <;> rfl
    have hno : NoDigit ('+' :: a.delay.text) := by simp [NoDigit]
    have hnot : ¬ ∃ g y r, Number g y ∧ '+' :: a.delay.text = '.' :: (g ++ r) := by
      rintro ⟨g, y, r, -, heq⟩
      exact absurd (List.cons.inj heq).1 (by decide)
    rw [hafter, parseTs_seconds (number_digitChar a.channel) hno hnot, ActionWord.delayUsed, hplus,
      if_pos rfl, strtol_of_range (by omega) (by have := a.channel.isLt; omega)]
  | false =>
    have hafter : afterPlus a.text = a.delay.text := by
      rw [ActionWord.text, hplus, channelText]
      generalize a.channel = ch
      cases a.isremote <;> fin_cases ch <;> rfl
    rw [hafter, parseTs_text, ActionWord.delayUsed, hplus]
    rfl

/-- The word of an action is accepted. -/
theorem buildAction_text (a : ActionWord) :
    buildAction a.text = .ok ⟨a.isremote, a.channel, a.delayUsed⟩ := by
  obtain ⟨c, cs, hcons, -⟩ := text_eq_cons a.delay
  have hscan : scanAction a.text =
      some (if a.isremote then 'R' else 'L', ((a.channel : ℕ) : ℤ)) := by
    have hint := scanInt_channelText a.plus a.channel (.inr ⟨a.delay.text, rfl⟩)
    rw [hcons] at hint
    rw [ActionWord.text, scanAction, hcons]
    simp only [hint]
  rw [buildAction, hscan]
  simp only [rulerChannel_natCast, parseTs_afterPlus]
  cases a.isremote <;> simp

theorem rulerBuildActions_words (l : List ActionWord) :
    rulerBuildActions (l.map ActionWord.text) =
      .ok (l.map fun a => ⟨a.isremote, a.channel, a.delayUsed⟩) := by
  induction l with
  | nil => rfl
  | cons a l ih =>
    rw [rulerBuildActions] at ih ⊢
    rw [List.map_cons, List.mapM_cons, buildAction_text, ih]
    rfl

/-- **The command line of the ruler.** Every printed command line is accepted, and the loop is
entered with its input channel and with as many actions, for the cards and channels it names. They
are the actions it asks for exactly if no channel has a plus sign in front of it, except where the
delay is as many seconds as the number of the channel. -/
theorem mainRuler_words (ifname : List Char) (l : RulerLine) :
    mainRuler (ifname :: l.words) =
        .loop l.inch (l.actionWords.map fun a => ⟨a.isremote, a.channel, a.delayUsed⟩) ∧
      (mainRuler (ifname :: l.words) = .loop l.inch (l.actionWords.map ActionWord.action) ↔
        ∀ a ∈ l.actionWords, a.plus = false ∨ a.delay.ts = ⟨(a.channel : ℕ), 0⟩) := by
  have hmain : mainRuler (ifname :: l.words) =
      .loop l.inch (l.actionWords.map fun a => ⟨a.isremote, a.channel, a.delayUsed⟩) := by
    have hactions := rulerBuildActions_words l.actionWords
    rw [RulerLine.actionWords, List.map_cons] at hactions
    have hwords : l.words =
        ('I' :: 'N' :: channelText false l.inch) :: l.first.text :: l.others.map ActionWord.text :=
      rfl
    rw [hwords, mainRuler, if_neg (by simp)]
    simp only [rulerConfigIn_text, hactions]
    rfl
  refine ⟨hmain, ?_⟩
  rw [hmain, RulerMain.loop.injEq, and_iff_right rfl, List.map_inj_left]
  refine forall₂_congr fun a _ => ?_
  rw [ActionWord.action, RulerAction.mk.injEq, and_iff_right rfl, and_iff_right rfl,
    ActionWord.delayUsed]
  cases a.plus <;> simp [eq_comm]

end SpecSw.Tools
