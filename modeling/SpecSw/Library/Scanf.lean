import Mathlib.Data.List.TakeWhile
import SpecSw.Library.Decimal

/-!
# Formatted input

`sscanf` for formats of `%ld`, `%c` and ordinary characters. A directive consumes a part of the
input and assigns at most one argument, or it fails, in one of two ways: at the end of the input,
or at a character that does not match. `sscanf` returns the number of arguments assigned until a
directive fails, or `EOF` if the end of the input comes before any conversion.

`%ld` takes blanks, a sign and digits (`Number`), as many digits as there are, and converts
them as `strtol` does.

## Main definitions

* `Scanf.Directive`, `Scanf.Arg`, `Scanf.sscanf`.
* `Scanf.Number`: the strings that `%ld` converts.

## Main results

* `Scanf.scanLong_number`, `Scanf.scanLong_matched`, `Scanf.scanLong_inputFailure_iff`: what `%ld`
  does to each input.
-/

namespace Scanf

open Decimal

/-! ### Directives -/

/-- `isspace`, in the C locale. -/
def isSpace (c : Char) : Bool := c = ' ' || (9 ≤ c.toNat && c.toNat ≤ 13)

/-- An argument assigned. -/
inductive Arg
  | long (x : ℤ)
  | char (c : Char)
  deriving DecidableEq, Repr

/-- A directive of a format. -/
inductive Directive
  | long
  | char
  | ordinary (c : Char)
  deriving DecidableEq, Repr

/-- How a directive ends: at the end of the input, at a character that does not match, or with the
arguments it assigns and the rest of the input. -/
inductive Outcome
  | inputFailure
  | matchingFailure
  | matched (args : List Arg) (rest : List Char)
  deriving DecidableEq, Repr

/-- The value of a `long` for a number: `strtol` returns the nearest there is. -/
def strtol (x : ℤ) : ℤ := max (-2 ^ 63) (min x (2 ^ 63 - 1))

theorem strtol_of_range {x : ℤ} (hlo : -2 ^ 63 ≤ x) (hhi : x < 2 ^ 63) : strtol x = x := by
  rw [strtol, min_eq_left (by omega), max_eq_right hlo]

/-- A number with its sign. -/
def signed (neg : Bool) (n : ℕ) : ℤ := if neg then -(n : ℤ) else n

/-- The sign in front of digits: whether it is a minus sign, and the rest of the input. -/
def scanSign : List Char → Bool × List Char
  | '-' :: s => (true, s)
  | '+' :: s => (false, s)
  | s => (false, s)

/-- `%ld` behind the blanks. -/
def scanInteger (s : List Char) : Outcome :=
  let (neg, t) := scanSign s
  let ds := t.takeWhile Char.isDigit
  if ds = [] then .matchingFailure
  else
    .matched [.long (strtol (signed neg (digitsValue ds)))] (t.dropWhile Char.isDigit)

/-- `%ld`. -/
def scanLong (s : List Char) : Outcome :=
  if s.dropWhile isSpace = [] then .inputFailure else scanInteger (s.dropWhile isSpace)

/-- Each directive. -/
def Directive.scan : Directive → List Char → Outcome
  | long, s => scanLong s
  | char, [] => .inputFailure
  | char, c :: s => .matched [.char c] s
  | ordinary _, [] => .inputFailure
  | ordinary c, d :: s => if d = c then .matched [] s else .matchingFailure

/-- What `sscanf` returns, and the arguments it has assigned. -/
structure Result where
  ret : ℤ
  args : List Arg
  deriving DecidableEq, Repr

/-- The directives still to be executed, after those that have assigned `args`. -/
def scanFrom : List Directive → List Char → List Arg → Result
  | [], _, args => ⟨args.length, args⟩
  | d :: ds, s, args =>
    match d.scan s with
    | .inputFailure => ⟨if args = [] then -1 else args.length, args⟩ -- `EOF`
    | .matchingFailure => ⟨args.length, args⟩
    | .matched new rest => scanFrom ds rest (args ++ new)

/-- `sscanf`. -/
def sscanf (s : List Char) (format : List Directive) : Result := scanFrom format s []

/-- The `long` assigned to the argument `i`, which holds `init` before. -/
def Result.long (r : Result) (i : ℕ) (init : ℤ) : ℤ :=
  match r.args[i]? with
  | some (.long x) => x
  | _ => init

section Steps

variable {d : Directive} {s rest : List Char} (ds : List Directive) {new : List Arg}
  (args : List Arg)

theorem scanFrom_inputFailure (h : d.scan s = .inputFailure) :
    scanFrom (d :: ds) s args = ⟨if args = [] then -1 else args.length, args⟩ := by
  rw [scanFrom, h]

theorem scanFrom_matchingFailure (h : d.scan s = .matchingFailure) :
    scanFrom (d :: ds) s args = ⟨args.length, args⟩ := by
  rw [scanFrom, h]

theorem scanFrom_matched (h : d.scan s = .matched new rest) :
    scanFrom (d :: ds) s args = scanFrom ds rest (args ++ new) := by
  rw [scanFrom, h]

theorem scan_ordinary (c : Char) (s : List Char) :
    (Directive.ordinary c).scan (c :: s) = .matched [] s := if_pos rfl

theorem scan_ordinary_of_ne {c c' : Char} (h : c' ≠ c) (s : List Char) :
    (Directive.ordinary c).scan (c' :: s) = .matchingFailure := if_neg h

end Steps

/-! ### What `%ld` converts -/

/-- All characters are blanks. -/
def Blanks (s : List Char) : Prop := ∀ c ∈ s, isSpace c = true

/-- A sign, that may be missing: whether it is a minus sign. -/
inductive Sign : List Char → Bool → Prop
  | none : Sign [] false
  | plus : Sign ['+'] false
  | minus : Sign ['-'] true

/-- Blanks, a sign and digits, with the number they denote. -/
inductive Number : List Char → ℤ → Prop
  | mk {blanks sign ds : List Char} {neg : Bool} (hblanks : Blanks blanks) (hsign : Sign sign neg)
      (hds : Digits ds) (hne : ds ≠ []) :
      Number (blanks ++ (sign ++ ds)) (signed neg (digitsValue ds))

/-- The input does not go on with a digit. -/
def NoDigit (rest : List Char) : Prop := ∀ c ∈ rest.head?, c.isDigit = false

theorem Number.of_digits {ds : List Char} (hds : Digits ds) (hne : ds ≠ []) :
    Number ds (digitsValue ds) :=
  @Number.mk [] [] ds false (by simp [Blanks]) .none hds hne

theorem Number.ne_nil {f : List Char} {x : ℤ} (h : Number f x) : f ≠ [] := by
  obtain @⟨blanks, sign, ds, neg, hblanks, hsign, hds, hne⟩ := h
  simp [hne]

theorem not_isSpace_of_isDigit {c : Char} (h : c.isDigit = true) : isSpace c = false := by
  simp only [Char.isDigit, Bool.and_eq_true, decide_eq_true_eq] at h
  have hlo : 48 ≤ c.toNat := h.1
  have hblank : c ≠ ' ' := by
    rintro rfl
    exact absurd hlo (by decide)
  simp only [isSpace, hblank, decide_false, Bool.false_or, Bool.and_eq_false_iff,
    decide_eq_false_iff_not]
  omega

theorem span_blanks {blanks t : List Char} (h : Blanks blanks)
    (ht : ∀ c ∈ t.head?, isSpace c = false) : (blanks ++ t).dropWhile isSpace = t := by
  rw [List.dropWhile_append_of_pos h]
  cases t with
  | nil => rfl
  | cons c t => simp [ht c rfl]

theorem scanSign_of_sign {sign t : List Char} {neg : Bool} (h : Sign sign neg)
    (ht : ∃ c ∈ t.head?, c.isDigit = true) : scanSign (sign ++ t) = (neg, t) := by
  cases h with
  | none =>
    obtain ⟨c, hc, hdigit⟩ := ht
    obtain ⟨t, rfl⟩ := List.head?_eq_some_iff.mp hc
    rw [List.nil_append, scanSign]
    · rintro s hs
      rw [(List.cons.inj hs).1] at hdigit
      exact absurd hdigit (by decide)
    · rintro s hs
      rw [(List.cons.inj hs).1] at hdigit
      exact absurd hdigit (by decide)
  | plus => rfl
  | minus => rfl

/-- The input splits into its sign and the rest. -/
theorem scanSign_spec (t : List Char) :
    ∃ sign, Sign sign (scanSign t).1 ∧ t = sign ++ (scanSign t).2 := by
  unfold scanSign
  split
  · exact ⟨_, .minus, rfl⟩
  · exact ⟨_, .plus, rfl⟩
  · exact ⟨_, .none, rfl⟩

theorem noDigit_dropWhile (t : List Char) : NoDigit (t.dropWhile Char.isDigit) := by
  intro c hc
  have hnot := List.head?_dropWhile_not Char.isDigit t
  rw [Option.mem_def.mp hc] at hnot
  exact hnot

/-- `%ld` takes a number that is followed by no digit. -/
theorem scanLong_number {f rest : List Char} {x : ℤ} (h : Number f x) (hrest : NoDigit rest) :
    scanLong (f ++ rest) = .matched [.long (strtol x)] rest := by
  obtain @⟨blanks, sign, ds, neg, hblanks, hsign, hds, hne⟩ := h
  obtain ⟨htake, hdrop⟩ := span_digits hds hrest
  obtain ⟨d, ds', rfl⟩ := List.exists_cons_of_ne_nil hne
  have hd := hds d List.mem_cons_self
  have hhead : ∀ c ∈ (sign ++ (d :: ds' ++ rest)).head?, isSpace c = false := by
    cases hsign with
    | none => simpa using not_isSpace_of_isDigit hd
    | plus => simp [isSpace]
    | minus => simp [isSpace]
  have hdropBlanks := span_blanks hblanks hhead
  have hcons : sign ++ (d :: ds' ++ rest) ≠ [] := by simp
  rw [List.append_assoc, List.append_assoc, scanLong, hdropBlanks, if_neg hcons, scanInteger,
    scanSign_of_sign hsign ⟨d, rfl, hd⟩]
  dsimp only
  rw [htake, hdrop, if_neg hne]

theorem scanInteger_ne_inputFailure (s : List Char) : scanInteger s ≠ .inputFailure := by
  rw [scanInteger]
  dsimp only
  split_ifs
  · exact Outcome.noConfusion
  · exact Outcome.noConfusion

/-- `%ld` gets to the end of the input when there are only blanks. -/
theorem scanLong_inputFailure_iff (s : List Char) : scanLong s = .inputFailure ↔ Blanks s := by
  rw [scanLong, Blanks, ← List.dropWhile_eq_nil_iff]
  split_ifs with hnil
  · exact iff_of_true rfl hnil
  · exact iff_of_false (scanInteger_ne_inputFailure _) hnil

/-- When `%ld` matches, it has taken a number that is followed by no digit. -/
theorem scanLong_matched {s rest : List Char} {args : List Arg}
    (h : scanLong s = .matched args rest) :
    ∃ f x, Number f x ∧ NoDigit rest ∧ s = f ++ rest ∧ args = [.long (strtol x)] := by
  rw [scanLong, scanInteger] at h
  dsimp only at h
  split_ifs at h with hnil hds
  obtain ⟨rfl, rfl⟩ := Outcome.matched.inj h
  have hblanks : Blanks (s.takeWhile isSpace) := fun c hc => List.mem_takeWhile_imp hc
  obtain ⟨sign, hsign, ht⟩ := scanSign_spec (s.dropWhile isSpace)
  generalize (scanSign (s.dropWhile isSpace)).1 = neg at hsign ⊢
  generalize (scanSign (s.dropWhile isSpace)).2 = body at ht hds ⊢
  have hdigits : Digits (body.takeWhile Char.isDigit) := fun c hc => List.mem_takeWhile_imp hc
  refine ⟨_, _, .mk hblanks hsign hdigits hds, noDigit_dropWhile body, ?_, rfl⟩
  calc s = s.takeWhile isSpace ++ s.dropWhile isSpace := List.takeWhile_append_dropWhile.symm
    _ = s.takeWhile isSpace ++ (sign ++ body) := by rw [← ht]
    _ = s.takeWhile isSpace ++
        (sign ++ (body.takeWhile Char.isDigit ++ body.dropWhile Char.isDigit)) := by
      rw [List.takeWhile_append_dropWhile]
    _ = s.takeWhile isSpace ++ (sign ++ body.takeWhile Char.isDigit) ++
        body.dropWhile Char.isDigit := by
      simp only [List.append_assoc]

/-- A number goes on as long as there are digits. -/
theorem Number.extend {f : List Char} {x : ℤ} (h : Number f x) (rest : List Char) :
    ∃ f' x' rest', Number f' x' ∧ NoDigit rest' ∧ f ++ rest = f' ++ rest' := by
  obtain @⟨blanks, sign, ds, neg, hblanks, hsign, hds, hne⟩ := h
  have hmore : Digits (rest.takeWhile Char.isDigit) := fun c hc => List.mem_takeWhile_imp hc
  refine ⟨_, _, _, .mk hblanks hsign (digits_append.mpr ⟨hds, hmore⟩) ?_,
    noDigit_dropWhile rest, ?_⟩
  · exact fun hnil => hne (List.append_eq_nil_iff.mp hnil).1
  · simp only [List.append_assoc, List.takeWhile_append_dropWhile]

end Scanf
