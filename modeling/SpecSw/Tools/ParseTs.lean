import SpecSw.Library.Scanf
import SpecSw.Tools.ReportTimes

/-!
# The times on the command lines of `wr-dio-cmd` and `wr-dio-ruler`

Both tools have the same `parse_ts`. It reads seconds and nanoseconds as two integers with `sscanf`,
and scales the second by counting the characters behind the point, so that zeros in front of and
behind the decimals come out right. Only the number of conversions tells it what the string was.

A number that `%ld` converts may have blanks and a sign in front, before and behind the point, and
one conversion means a number followed by anything but a point and a number. In a string of blanks
nothing is converted, and there is no point either.

## Main definitions

* `Tools.parseTs`.
* `Tools.InGrammar`: the strings that are times.
* `Tools.Passes`: the strings that `parse_ts` does not reject.

## Main results

* `Tools.parsesGrammar_iff`, `Tools.not_forall_parsesGrammar`: what is rejected.
* `Tools.parseTs_printed`: what is accepted, and `Tools.parseTs_formatTime` for what a tool prints.
-/

namespace SpecSw.Tools

open Decimal Scanf

/-! ### The tool -/

/-- How `parse_ts` ends: it returns a value and leaves a time in `*ts`, or it uses the result of a
`strchr` that has found no point. -/
inductive ParseEnd
  | returns (ret : ℤ) (ts : Timespec)
  | derefs
  deriving DecidableEq, Repr

/-- `while (n < 9) { nano *= 10; n++; }`, by the number of turns. -/
def scaleNano : ℕ → BitVec 64 → BitVec 64
  | 0, nano => nano
  | turns + 1, nano => scaleNano turns (nano * 10)

/-- What follows the first point of a string. -/
def afterPoint (s : List Char) : Option (List Char) :=
  match s.dropWhile (· ≠ '.') with
  | [] => none
  | _ :: t => some t

/-- `parse_ts` from the `strlen` of the decimals on. -/
def decimals (t : List Char) (sec : ℤ) (nano : BitVec 64) : ParseEnd :=
  let n := int32 t.length
  if 9 < n then .returns (-1) ⟨sec, 0⟩ -- too many decimals
  else .returns 0 ⟨sec, (scaleNano (9 - n).toNat nano).toInt⟩

/-- `parse_ts` from the `strchr` on. -/
def parseDecimals (s : List Char) (sec : ℤ) (nano : BitVec 64) : ParseEnd :=
  match afterPoint s with
  | none => .derefs
  | some t => decimals t sec nano

/-- `"%ld.%ld%c"`. -/
def timeFormat : List Directive := [.long, .ordinary '.', .long, .char]

/-- `".%ld%c"`. -/
def fractionFormat : List Directive := [.ordinary '.', .long, .char]

/-- `parse_ts`. -/
def parseTs (s : List Char) : ParseEnd :=
  let r := sscanf s timeFormat
  let sec := r.long 0 0
  if r.ret = 1 then .returns 0 ⟨sec, 0⟩ -- seconds only
  else if r.ret = 3 then .returns (-1) ⟨sec, 0⟩ -- trailing crap
  else if r.ret = 0 then
    let r := sscanf s fractionFormat
    if r.ret ≠ 1 then .returns (-1) ⟨sec, 0⟩ -- leading or trailing crap
    else parseDecimals s sec (BitVec.ofInt 64 (r.long 0 0))
  else parseDecimals s sec (BitVec.ofInt 64 (r.long 1 0))

/-! ### Strings by what `%ld` converts -/

section Cases

variable {s f g rest : List Char} {x y : ℤ}

theorem point_notMem (hf : Number f x) : ∀ c ∈ f, c ≠ '.' := by
  obtain @⟨blanks, sign, ds, neg, hblanks, hsign, hds, hne⟩ := hf
  rintro c hc rfl
  rw [List.mem_append, List.mem_append] at hc
  rcases hc with hc | hc | hc
  · exact absurd (hblanks _ hc) (by decide)
  · cases hsign with
    | none => cases hc
    | plus => exact absurd (List.mem_singleton.mp hc) (by decide)
    | minus => exact absurd (List.mem_singleton.mp hc) (by decide)
  · exact absurd (hds _ hc) (by decide)

theorem afterPoint_append (hf : ∀ c ∈ f, c ≠ '.') (t : List Char) :
    afterPoint (f ++ '.' :: t) = some t := by
  rw [afterPoint, List.dropWhile_append_of_pos fun c hc => decide_eq_true (hf c hc)]
  rfl

theorem noDigit_nil : NoDigit [] := by simp [NoDigit]

theorem noDigit_point (t : List Char) : NoDigit ('.' :: t) := by simp [NoDigit]

/-- In a string of blanks `strchr` finds no point. -/
theorem parseTs_blanks (h : Blanks s) : parseTs s = .derefs := by
  have hscan := (scanLong_inputFailure_iff s).mpr h
  have hpoint : afterPoint s = none := by
    have hnil : s.dropWhile (· ≠ '.') = [] := by
      rw [List.dropWhile_eq_nil_iff]
      rintro c hc
      refine decide_eq_true ?_
      rintro rfl
      exact absurd (h _ hc) (by decide)
    rw [afterPoint, hnil]
  have hret : sscanf s timeFormat = ⟨-1, []⟩ := scanFrom_inputFailure (d := .long) _ [] hscan
  have hlate : parseTs s = parseDecimals s 0 0 := by
    rw [parseTs, hret]
    rfl
  rw [hlate, parseDecimals, hpoint]

/-- One conversion: a number is not followed by a point and a number. -/
theorem sscanf_seconds (hf : Number f x) (hrest : NoDigit rest)
    (hnot : ¬ ∃ g y r, Number g y ∧ rest = '.' :: (g ++ r)) :
    sscanf (f ++ rest) timeFormat = ⟨1, [.long (strtol x)]⟩ := by
  rw [sscanf, timeFormat, scanFrom_matched (d := .long) _ [] (scanLong_number hf hrest)]
  cases rest with
  | nil => rfl
  | cons c t =>
    by_cases hc : c = '.'
    · subst hc
      rw [scanFrom_matched _ _ (scan_ordinary '.' t)]
      cases ht : scanLong t with
      | inputFailure => exact scanFrom_inputFailure (d := .long) _ _ ht
      | matchingFailure => exact scanFrom_matchingFailure (d := .long) _ _ ht
      | matched args r =>
        obtain ⟨g, y, hg, -, rfl, -⟩ := scanLong_matched ht
        exact absurd ⟨g, y, r, hg, rfl⟩ hnot
    · exact scanFrom_matchingFailure _ _ (scan_ordinary_of_ne hc t)

/-- A number, a point, a number, and what follows it. -/
theorem sscanf_both (hf : Number f x) (hg : Number g y) (hrest : NoDigit rest) :
    sscanf (f ++ '.' :: (g ++ rest)) timeFormat =
      ⟨if rest = [] then 2 else 3,
        .long (strtol x) :: .long (strtol y) :: rest.head?.toList.map Arg.char⟩ := by
  rw [sscanf, timeFormat, scanFrom_matched (d := .long) _ [] (scanLong_number hf (noDigit_point _)),
    scanFrom_matched _ _ (scan_ordinary '.' _),
    scanFrom_matched (d := .long) _ _ (scanLong_number hg hrest)]
  cases rest with
  | nil => rfl
  | cons c t => rfl

/-- A point, a number, and what follows it. -/
theorem sscanf_fraction (hg : Number g y) (hrest : NoDigit rest) :
    sscanf ('.' :: (g ++ rest)) fractionFormat =
      ⟨if rest = [] then 1 else 2, .long (strtol y) :: rest.head?.toList.map Arg.char⟩ := by
  rw [sscanf, fractionFormat, scanFrom_matched _ [] (scan_ordinary '.' _),
    scanFrom_matched (d := .long) _ _ (scanLong_number hg hrest)]
  cases rest with
  | nil => rfl
  | cons c t => rfl

/-- A number that is not followed by a point and a number is taken for seconds. -/
theorem parseTs_seconds (hf : Number f x) (hrest : NoDigit rest)
    (hnot : ¬ ∃ g y r, Number g y ∧ rest = '.' :: (g ++ r)) :
    parseTs (f ++ rest) = .returns 0 ⟨strtol x, 0⟩ := by
  rw [parseTs, sscanf_seconds hf hrest hnot]
  rfl

/-- Two numbers with a point between them. -/
theorem parseTs_both (hf : Number f x) (hg : Number g y) :
    parseTs (f ++ '.' :: g) = decimals g (strtol x) (BitVec.ofInt 64 (strtol y)) := by
  have hret := sscanf_both hf hg noDigit_nil
  rw [List.append_nil] at hret
  have hlate : parseTs (f ++ '.' :: g) =
      parseDecimals (f ++ '.' :: g) (strtol x) (BitVec.ofInt 64 (strtol y)) := by
    rw [parseTs, hret]
    rfl
  rw [hlate, parseDecimals, afterPoint_append (point_notMem hf)]

/-- A point and a number. -/
theorem parseTs_fraction (hg : Number g y) :
    parseTs ('.' :: g) = decimals g 0 (BitVec.ofInt 64 (strtol y)) := by
  have hnone : sscanf ('.' :: g) timeFormat = ⟨0, []⟩ := rfl
  have hret := sscanf_fraction hg noDigit_nil
  rw [List.append_nil, if_pos rfl] at hret
  have hlate : parseTs ('.' :: g) =
      parseDecimals ('.' :: g) 0 (BitVec.ofInt 64 (strtol y)) := by
    rw [parseTs, hnone, if_neg (by decide), if_neg (by decide), if_pos rfl, hret]
    exact if_neg (not_not.mpr rfl)
  rw [hlate, parseDecimals, ← List.nil_append ('.' :: g), afterPoint_append (by simp)]

theorem decimals_eq_of_lt (hlen : 9 < int32 s.length) (sec : ℤ) (nano : BitVec 64) :
    decimals s sec nano = .returns (-1) ⟨sec, 0⟩ := by
  rw [decimals, if_pos hlen]

theorem decimals_eq_of_le (hlen : int32 s.length ≤ 9) (sec : ℤ) (nano : BitVec 64) :
    decimals s sec nano =
      .returns 0 ⟨sec, (scaleNano (9 - int32 s.length).toNat nano).toInt⟩ := by
  rw [decimals, if_neg (not_lt.mpr hlen)]

end Cases

/-! ### Decimals -/

section DecimalDigits

variable {ds : List Char}

theorem scaleNano_ofNat (turns n : ℕ) :
    scaleNano turns (BitVec.ofNat 64 n) = BitVec.ofNat 64 (n * 10 ^ turns) := by
  induction turns generalizing n with
  | zero => rw [scaleNano, pow_zero, Nat.mul_one]
  | succ turns ih =>
    have hten : BitVec.ofNat 64 n * 10 = BitVec.ofNat 64 (n * 10) :=
      (BitVec.ofNat_mul n 10).symm
    rw [scaleNano, hten, ih, Nat.mul_assoc, pow_succ']

/-- The digits behind the point, as nanoseconds. -/
def nanoseconds (ds : List Char) : ℕ := digitsValue ds * 10 ^ (9 - ds.length)

theorem nanoseconds_lt (hds : Digits ds) (hlen : ds.length ≤ 9) :
    nanoseconds ds < 10 ^ 9 := by
  have hlt := digitsValue_lt hds
  calc nanoseconds ds < 10 ^ ds.length * 10 ^ (9 - ds.length) :=
        Nat.mul_lt_mul_of_pos_right hlt (by positivity)
    _ = 10 ^ 9 := by rw [← pow_add, Nat.add_sub_cancel' hlen]

/-- The decimals come out right. -/
theorem decimals_digits (hds : Digits ds) (hlen : ds.length ≤ 9) (sec : ℤ) :
    decimals ds sec (BitVec.ofInt 64 (strtol (digitsValue ds))) =
      .returns 0 ⟨sec, nanoseconds ds⟩ := by
  have hlt := digitsValue_lt hds
  have hpow : 10 ^ ds.length ≤ 10 ^ 9 := Nat.pow_le_pow_right (by decide) hlen
  have hint : int32 ds.length = ds.length := int32_of_range (by omega) (by omega)
  have hnano := nanoseconds_lt hds hlen
  rw [decimals_eq_of_le (by omega), strtol_of_range (by omega) (by omega), BitVec.ofInt_natCast,
    hint, scaleNano_ofNat, show (9 - (ds.length : ℤ)).toNat = 9 - ds.length by omega,
    ← nanoseconds, BitVec.toInt_eq_toNat_of_lt, BitVec.toNat_ofNat, Nat.mod_eq_of_lt (by omega)]
  rw [BitVec.toNat_ofNat, Nat.mod_eq_of_lt (by omega)]
  omega

/-- Digits, with a point and digits behind it. -/
theorem parseTs_digits {is : List Char} (his : Digits is) (hne : is ≠ []) (hds : Digits ds)
    (hdne : ds ≠ []) (hlen : ds.length ≤ 9) :
    parseTs (is ++ '.' :: ds) = .returns 0 ⟨strtol (digitsValue is), nanoseconds ds⟩ := by
  rw [parseTs_both (.of_digits his hne) (.of_digits hds hdne), decimals_digits hds hlen]

end DecimalDigits

/-! ### What is rejected -/

/-- A decimal integer, with `signs` one that may have a sign. -/
inductive Integer (signs : Bool) : List Char → Prop
  | mk {sign ds : List Char} {neg : Bool} (hsign : Sign sign neg)
      (hsigns : signs = false → sign = []) (hds : Digits ds) (hne : ds ≠ []) :
      Integer signs (sign ++ ds)

/-- The strings that are times: a decimal integer, with or without a point and up to nine digits
behind it, or a point and one to nine digits. -/
inductive InGrammar (signs : Bool) : List Char → Prop
  | integer {i : List Char} (hi : Integer signs i) : InGrammar signs i
  | point {i ds : List Char} (hi : Integer signs i) (hds : Digits ds) (hlen : ds.length ≤ 9) :
      InGrammar signs (i ++ '.' :: ds)
  | fraction {ds : List Char} (hds : Digits ds) (hne : ds ≠ []) (hlen : ds.length ≤ 9) :
      InGrammar signs ('.' :: ds)

/-- The strings that `parse_ts` does not reject: blanks; a number that is not followed by a point
and a number; and a point and a number, with or without a number in front, when there are at most
nine characters behind the point. -/
inductive Passes : List Char → Prop
  | blanks {s : List Char} (h : Blanks s) : Passes s
  | seconds {f rest : List Char} {x : ℤ} (hf : Number f x) (hrest : NoDigit rest)
      (hnot : ¬ ∃ g y r, Number g y ∧ rest = '.' :: (g ++ r)) : Passes (f ++ rest)
  | both {f g : List Char} {x y : ℤ} (hf : Number f x) (hg : Number g y)
      (hlen : int32 g.length ≤ 9) : Passes (f ++ '.' :: g)
  | fraction {g : List Char} {y : ℤ} (hg : Number g y) (hlen : int32 g.length ≤ 9) :
      Passes ('.' :: g)

/-- On the string `s` the function does what its grammar says: it returns 0 only for a time, with
nanoseconds in range, it returns -1 for all other strings, and it uses no pointer that is not
there. -/
structure ParsesGrammar (signs : Bool) (s : List Char) : Prop where
  accepts : ∀ ts, parseTs s = .returns 0 ts → InGrammar signs s ∧ ts.Normalized
  rejects : ¬ InGrammar signs s → ∃ ts, parseTs s = .returns (-1) ts
  derefs : parseTs s ≠ .derefs

section Grammar

variable {signs : Bool} {s f g rest : List Char} {x y : ℤ}

theorem Integer.number {i : List Char} (h : Integer signs i) : ∃ x, Number i x := by
  obtain @⟨sign, ds, neg, hsign, -, hds, hne⟩ := h
  exact ⟨_, @Number.mk [] sign ds neg (by simp [Blanks]) hsign hds hne⟩

/-- A number with nothing, or only a point, behind it. -/
theorem parseTs_integer (hf : Number f x) (hrest : rest = [] ∨ rest = ['.']) :
    parseTs (f ++ rest) = .returns 0 ⟨strtol x, 0⟩ := by
  refine parseTs_seconds hf ?_ ?_
  · rcases hrest with rfl | rfl
    · exact noDigit_nil
    · exact noDigit_point []
  · rintro ⟨g, y, r, hg, hcons⟩
    rcases hrest with rfl | rfl
    · cases hcons
    · obtain ⟨hnil, -⟩ := List.append_eq_nil_iff.mp (List.cons.inj hcons).2.symm
      exact hg.ne_nil hnil

/-- Times are accepted, with nanoseconds in range. -/
theorem InGrammar.accepted (h : InGrammar signs s) :
    ∃ ts : Timespec, parseTs s = .returns 0 ts ∧ ts.Normalized := by
  have hzero : ∀ sec, Timespec.Normalized ⟨sec, 0⟩ := fun sec => by
    simp [Timespec.Normalized, nsecPerSec]
  have hnano : ∀ {ds : List Char} (sec : ℤ), Digits ds → ds.length ≤ 9 →
      Timespec.Normalized ⟨sec, nanoseconds ds⟩ := by
    intro ds sec hds hlen
    have hlt := nanoseconds_lt hds hlen
    simp only [Timespec.Normalized, nsecPerSec]
    omega
  cases h with
  | integer hi =>
    obtain ⟨x, hx⟩ := hi.number
    have hparse := parseTs_integer hx (Or.inl rfl)
    rw [List.append_nil] at hparse
    exact ⟨_, hparse, hzero _⟩
  | @point i ds hi hds hlen =>
    obtain ⟨x, hx⟩ := hi.number
    by_cases hne : ds = []
    · subst hne
      exact ⟨_, parseTs_integer hx (Or.inr rfl), hzero _⟩
    · refine ⟨_, ?_, hnano (strtol x) hds hlen⟩
      rw [parseTs_both hx (.of_digits hds hne), decimals_digits hds hlen]
  | @fraction ds hds hne hlen =>
    refine ⟨_, ?_, hnano 0 hds hlen⟩
    rw [parseTs_fraction (.of_digits hds hne), decimals_digits hds hlen]

theorem Passes.not_rejected (h : Passes s) (ts : Timespec) : parseTs s ≠ .returns (-1) ts := by
  cases h with
  | blanks h =>
    rw [parseTs_blanks h]
    exact ParseEnd.noConfusion
  | seconds hf hrest hnot =>
    rw [parseTs_seconds hf hrest hnot]
    simp
  | both hf hg hlen =>
    rw [parseTs_both hf hg, decimals_eq_of_le hlen]
    simp
  | fraction hg hlen =>
    rw [parseTs_fraction hg, decimals_eq_of_le hlen]
    simp

theorem parseTs_trailing (hf : Number f x) (hg : Number g y) (hrest : NoDigit rest)
    (hne : rest ≠ []) :
    parseTs (f ++ '.' :: (g ++ rest)) = .returns (-1) ⟨strtol x, 0⟩ := by
  have hret := sscanf_both hf hg hrest
  rw [if_neg hne] at hret
  rw [parseTs, hret]
  rfl

/-- Without a number in front, only a point and a number pass. -/
theorem parseTs_leading (hscan : scanLong s = .matchingFailure)
    (hret : (sscanf s fractionFormat).ret ≠ 1) : parseTs s = .returns (-1) ⟨0, 0⟩ := by
  have hnone : sscanf s timeFormat = ⟨0, []⟩ := scanFrom_matchingFailure (d := .long) _ [] hscan
  rw [parseTs, hnone, if_neg (by decide), if_neg (by decide), if_pos rfl, if_pos hret]
  rfl

theorem passes_or_rejected_decimals {t : List Char} {sec : ℤ} {nano : BitVec 64}
    (hparse : parseTs s = decimals t sec nano) (hpasses : int32 t.length ≤ 9 → Passes s) :
    Passes s ∨ ∃ ts, parseTs s = .returns (-1) ts := by
  by_cases hlen : int32 t.length ≤ 9
  · exact Or.inl (hpasses hlen)
  · exact Or.inr ⟨_, hparse.trans (decimals_eq_of_lt (not_le.mp hlen) sec nano)⟩

theorem passes_or_rejected_fraction (hscan : scanLong s = .matchingFailure) :
    Passes s ∨ ∃ ts, parseTs s = .returns (-1) ts := by
  by_cases hret : (sscanf s fractionFormat).ret = 1
  · cases s with
    | nil => exact absurd hscan (by decide)
    | cons c t =>
      by_cases hc : c = '.'
      · subst hc
        rw [sscanf, fractionFormat, scanFrom_matched _ [] (scan_ordinary '.' t)] at hret
        cases ht : scanLong t with
        | inputFailure =>
          rw [scanFrom_inputFailure (d := .long) _ _ ht] at hret
          exact absurd hret (by decide)
        | matchingFailure =>
          rw [scanFrom_matchingFailure (d := .long) _ _ ht] at hret
          exact absurd hret (by decide)
        | matched args r =>
          obtain ⟨g, y, hg, hr, rfl, rfl⟩ := scanLong_matched ht
          rw [scanFrom_matched (d := .long) _ _ ht] at hret
          cases r with
          | nil =>
            rw [List.append_nil]
            exact passes_or_rejected_decimals (parseTs_fraction hg) (.fraction hg)
          | cons c r => exact absurd hret (by simp [scanFrom, Directive.scan])
      · rw [sscanf, fractionFormat, scanFrom_matchingFailure _ _ (scan_ordinary_of_ne hc t)] at hret
        exact absurd hret (by decide)
  · exact Or.inr ⟨_, parseTs_leading hscan hret⟩

/-- The strings that pass are all that are not rejected. -/
theorem passes_or_rejected (s : List Char) : Passes s ∨ ∃ ts, parseTs s = .returns (-1) ts := by
  cases hscan : scanLong s with
  | inputFailure => exact Or.inl (.blanks ((scanLong_inputFailure_iff s).mp hscan))
  | matchingFailure => exact passes_or_rejected_fraction hscan
  | matched args rest =>
    obtain ⟨f, x, hf, hrest, rfl, -⟩ := scanLong_matched hscan
    by_cases hfraction : ∃ g y r, Number g y ∧ rest = '.' :: (g ++ r)
    · obtain ⟨g, y, r, hg, rfl⟩ := hfraction
      obtain ⟨g, y, r, hg, hr, heq⟩ := hg.extend r
      rw [heq]
      by_cases hne : r = []
      · rw [hne, List.append_nil]
        exact passes_or_rejected_decimals (parseTs_both hf hg) (.both hf hg)
      · exact Or.inr ⟨_, parseTs_trailing hf hg hr hne⟩
    · exact Or.inl (.seconds hf hrest hfraction)

end Grammar

/-- **What `parse_ts` rejects.** Whether or not an integer may have a sign: on a string it does
what its grammar says exactly when the string is a time or is not one of those that pass. -/
theorem parsesGrammar_iff (signs : Bool) (s : List Char) :
    ParsesGrammar signs s ↔ InGrammar signs s ∨ ¬ Passes s := by
  constructor
  · intro h
    by_cases hin : InGrammar signs s
    · exact Or.inl hin
    · obtain ⟨ts, hts⟩ := h.rejects hin
      exact Or.inr fun hpasses => hpasses.not_rejected ts hts
  · rintro (hin | hnot)
    · obtain ⟨ts, hparse, hts⟩ := hin.accepted
      refine ⟨fun ts' hts' => ⟨hin, ?_⟩, fun hnot => absurd hin hnot, ?_⟩
      · rw [hparse] at hts'
        rwa [← (ParseEnd.returns.inj hts').2]
      · rw [hparse]
        exact ParseEnd.noConfusion
    · obtain ⟨ts, hparse⟩ := (passes_or_rejected s).resolve_left hnot
      refine ⟨fun ts' hts' => ?_, fun _ => ⟨ts, hparse⟩, ?_⟩
      · rw [hparse] at hts'
        exact absurd (ParseEnd.returns.inj hts').1 (by decide)
      · rw [hparse]
        exact ParseEnd.noConfusion

/-- In the empty string there is no point. -/
theorem not_forall_parsesGrammar :
    (¬ ∀ s, ParsesGrammar false s) ∧ ¬ ∀ s, ParsesGrammar true s :=
  ⟨fun hall => (hall []).derefs rfl, fun hall => (hall []).derefs rfl⟩

/-! ### What is accepted -/

section Printed

variable {t : Timespec}

theorem toNat_tvNsec_lt (ht : t.Normalized) : t.tvNsec.toNat < 10 ^ 9 := by
  obtain ⟨hlo, hhi⟩ := ht
  rw [nsecPerSec] at hhi
  omega

theorem length_take_zeroPad (ht : t.Normalized) {k : ℕ} (hk : k ≤ 9) :
    ((zeroPad 9 t.tvNsec.toNat).take k).length = k := by
  rw [List.length_take, length_zeroPad (by decide) (toNat_tvNsec_lt ht), min_eq_left hk]

/-- The first digits of the nanoseconds denote them cut off. -/
theorem nanoseconds_take (ht : t.Normalized) {k : ℕ} (hk : k ≤ 9) :
    (nanoseconds ((zeroPad 9 t.tvNsec.toNat).take k) : ℤ) =
      t.tvNsec / 10 ^ (9 - k) * 10 ^ (9 - k) := by
  rw [nanoseconds, length_take_zeroPad ht hk, digitsValue_take (digits_zeroPad 9 _),
    digitsValue_zeroPad, length_zeroPad (by decide) (toNat_tvNsec_lt ht)]
  push_cast
  rw [Int.toNat_of_nonneg ht.1]

theorem strtol_toNat (hsec : 0 ≤ t.tvSec) (hmax : t.tvSec < 2 ^ 63) :
    strtol (digitsValue (Nat.toDigits 10 t.tvSec.toNat)) = t.tvSec := by
  rw [digitsValue_toDigits, Int.toNat_of_nonneg hsec, strtol_of_range (by omega) hmax]

end Printed

/-- Printed nanoseconds that are cut off, behind the seconds and without them. -/
theorem parseTs_take {t : Timespec} (hsec : 0 ≤ t.tvSec) (hmax : t.tvSec < 2 ^ 63)
    (ht : t.Normalized) {k : ℕ} (hk : 1 ≤ k) (hk9 : k ≤ 9) :
    parseTs (Nat.toDigits 10 t.tvSec.toNat ++ '.' :: (zeroPad 9 t.tvNsec.toNat).take k) =
      .returns 0 ⟨t.tvSec, t.tvNsec / 10 ^ (9 - k) * 10 ^ (9 - k)⟩ ∧
    parseTs ('.' :: (zeroPad 9 t.tvNsec.toNat).take k) =
      .returns 0 ⟨0, t.tvNsec / 10 ^ (9 - k) * 10 ^ (9 - k)⟩ := by
  have hsecs := digits_toDigits t.tvSec.toNat
  have hlength := length_take_zeroPad ht hk9
  have hds := (digits_zeroPad 9 t.tvNsec.toNat).take k
  have hne : (zeroPad 9 t.tvNsec.toNat).take k ≠ [] := by
    intro hnil
    rw [hnil, List.length_nil] at hlength
    omega
  constructor
  · rw [parseTs_digits hsecs Nat.toDigits_ne_nil hds hne (hlength.trans_le hk9),
      nanoseconds_take ht hk9, strtol_toNat hsec hmax]
  · rw [parseTs_fraction (.of_digits hds hne), decimals_digits hds (hlength.trans_le hk9),
      nanoseconds_take ht hk9]

/-- **Parsing undoes printing.** The seconds, a point and the first `k` digits of the nanoseconds
give the time cut off after these digits, and all nine the time itself; without the seconds they
give the same nanoseconds, and the seconds alone no nanoseconds. -/
theorem parseTs_printed (t : Timespec) (hsec : 0 ≤ t.tvSec) (hmax : t.tvSec < 2 ^ 63)
    (ht : t.Normalized) :
    (∀ k, 1 ≤ k → k ≤ 9 →
      parseTs (Nat.toDigits 10 t.tvSec.toNat ++ '.' :: (zeroPad 9 t.tvNsec.toNat).take k) =
        .returns 0 ⟨t.tvSec, t.tvNsec / 10 ^ (9 - k) * 10 ^ (9 - k)⟩ ∧
      parseTs ('.' :: (zeroPad 9 t.tvNsec.toNat).take k) =
        .returns 0 ⟨0, t.tvNsec / 10 ^ (9 - k) * 10 ^ (9 - k)⟩) ∧
    parseTs (Nat.toDigits 10 t.tvSec.toNat ++ '.' :: zeroPad 9 t.tvNsec.toNat) = .returns 0 t ∧
    parseTs (Nat.toDigits 10 t.tvSec.toNat) = .returns 0 ⟨t.tvSec, 0⟩ := by
  have hsecs := digits_toDigits t.tvSec.toNat
  refine ⟨fun k hk hk9 => parseTs_take hsec hmax ht hk hk9, ?_, ?_⟩
  · have hall := (parseTs_take hsec hmax ht (k := 9) (by decide) le_rfl).1
    rw [List.take_of_length_le (length_zeroPad (by decide) (toNat_tvNsec_lt ht)).le] at hall
    rw [hall]
    simp
  · have hparse := parseTs_integer (.of_digits hsecs Nat.toDigits_ne_nil) (Or.inl rfl)
    rwa [List.append_nil, strtol_toNat hsec hmax] at hparse

/-- Zeros in front of and behind the decimals. -/
theorem parseTs_printed_zeros :
    parseTs (Nat.toDigits 10 12 ++ '.' :: (zeroPad 9 9999000).take 6) = .returns 0 ⟨12, 9999000⟩ :=
  ((parseTs_printed ⟨12, 9999000⟩ (by decide) (by decide) (by decide)).1 6
    (by decide) (by decide)).1

/-- The times that `wr-dio-cmd` prints, with blanks in front, can be given to it again. -/
theorem parseTs_formatTime {t : Timespec} (hsec : 0 ≤ t.tvSec) (hmax : t.tvSec < 2 ^ 63)
    (ht : t.Normalized) : parseTs (formatTime t).toList = .returns 0 t := by
  obtain ⟨k, hk⟩ := toList_formatTime ht
  have hblanks : Blanks (List.replicate k ' ') := by
    intro c hc
    rw [(List.mem_replicate.mp hc).2]
    rfl
  have hnumber := Number.mk hblanks .none (digits_toDigits t.tvSec.toNat) Nat.toDigits_ne_nil
  have hds := digits_zeroPad 9 t.tvNsec.toNat
  have hlength := length_zeroPad (by decide) (toNat_tvNsec_lt ht)
  have hne : zeroPad 9 t.tvNsec.toNat ≠ [] := by
    intro hnil
    rw [hnil] at hlength
    cases hlength
  have habs : t.tvSec.natAbs = t.tvSec.toNat := by omega
  rw [hk, if_neg (not_lt.mpr hsec), habs, parseTs_both hnumber (.of_digits hds hne),
    decimals_digits hds hlength.le, signed, if_neg Bool.false_ne_true, strtol_toNat hsec hmax,
    nanoseconds, hlength, digitsValue_zeroPad, Nat.sub_self, pow_zero, Nat.mul_one,
    Int.toNat_of_nonneg ht.1]

end SpecSw.Tools
