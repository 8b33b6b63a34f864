import Mathlib.Algebra.Order.Field.Rat
import Mathlib.Tactic.FieldSimp
import Mathlib.Tactic.Linarith
import Mathlib.Tactic.Positivity
import Mathlib.Tactic.Ring

/-!
# Decimal notation

The numbers that strings of decimal digits denote, alone and with a sign and a decimal point. The
digits of a number, padded with zeros to a width, denote that number whatever the width, and the
first of them its quotient by a power of ten.

## Main definitions

* `Decimal.Digits`, `Decimal.digitsValue`, `Decimal.zeroPad`.
* `Decimal.value`: the number denoted by blanks, a sign and digits with a decimal point.

## Main results

* `Decimal.digitsValue_zeroPad`, `Decimal.digitsValue_take`.
* `Decimal.value_blanks`, `Decimal.value_neg`, `Decimal.value_unsigned`.
-/

namespace Decimal

/-! ### Digits -/

/-- All characters are decimal digits. -/
def Digits (ds : List Char) : Prop := ∀ c ∈ ds, c.isDigit = true

instance (ds : List Char) : Decidable (Digits ds) :=
  inferInstanceAs (Decidable (∀ c ∈ ds, c.isDigit = true))

/-- The number that digits denote. -/
def digitsValue (ds : List Char) : ℕ := Nat.ofDigitChars 10 ds 0

theorem digits_append {ds es : List Char} : Digits (ds ++ es) ↔ Digits ds ∧ Digits es := by
  simp only [Digits, List.mem_append, or_imp, forall_and]

theorem Digits.take {ds : List Char} (h : Digits ds) (k : ℕ) : Digits (ds.take k) :=
  fun c hc => h c (List.mem_of_mem_take hc)

theorem digits_toDigits (x : ℕ) : Digits (Nat.toDigits 10 x) :=
  fun _ hc => Nat.isDigit_of_mem_toDigits (by decide) (by decide) hc

theorem digits_replicate_zero (k : ℕ) : Digits (List.replicate k '0') := by
  intro c hc
  rw [(List.mem_replicate.mp hc).2]
  rfl

theorem digitsValue_append (ds es : List Char) :
    digitsValue (ds ++ es) = 10 ^ es.length * digitsValue ds + digitsValue es := by
  rw [digitsValue, Nat.ofDigitChars_append, Nat.ofDigitChars_eq_ofDigitChars_zero]
  rfl

@[simp] theorem digitsValue_toDigits (x : ℕ) : digitsValue (Nat.toDigits 10 x) = x :=
  Nat.ofDigitChars_ten_toDigits

theorem digit_lt_ten {c : Char} (h : c.isDigit = true) : c.toNat - '0'.toNat < 10 := by
  simp only [Char.isDigit, Bool.and_eq_true, decide_eq_true_eq] at h
  have hle : c.toNat ≤ 57 := h.2
  change c.toNat - 48 < 10
  omega

theorem digitsValue_lt {ds : List Char} (h : Digits ds) : digitsValue ds < 10 ^ ds.length := by
  induction ds using List.reverseRecOn with
  | nil => decide
  | append_singleton ds c ih =>
    obtain ⟨hds, hc⟩ := digits_append.mp h
    have hlt := ih hds
    have hdigit : digitsValue [c] < 10 := by
      rw [digitsValue, Nat.ofDigitChars_cons, Nat.ofDigitChars_nil]
      simpa using digit_lt_ten (hc c List.mem_cons_self)
    rw [digitsValue_append, List.length_append, List.length_singleton, pow_one, pow_succ]
    omega

/-- The first digits denote the quotient by a power of ten. -/
theorem digitsValue_take {ds : List Char} (h : Digits ds) (k : ℕ) :
    digitsValue (ds.take k) = digitsValue ds / 10 ^ (ds.length - k) := by
  have hrest : Digits (ds.drop k) := fun c hc => h c (List.mem_of_mem_drop hc)
  have hlt := digitsValue_lt hrest
  have hsplit := digitsValue_append (ds.take k) (ds.drop k)
  rw [List.take_append_drop] at hsplit
  rw [List.length_drop] at hlt hsplit
  rw [hsplit, Nat.mul_add_div (by positivity), Nat.div_eq_of_lt hlt, Nat.add_zero]

/-- The digits of `x`, with zeros in front up to the width `n`. -/
def zeroPad (n x : ℕ) : List Char :=
  List.replicate (n - (Nat.toDigits 10 x).length) '0' ++ Nat.toDigits 10 x

theorem digits_zeroPad (n x : ℕ) : Digits (zeroPad n x) :=
  digits_append.mpr ⟨digits_replicate_zero _, digits_toDigits x⟩

@[simp] theorem digitsValue_zeroPad (n x : ℕ) : digitsValue (zeroPad n x) = x := by
  rw [zeroPad, digitsValue_append, digitsValue_toDigits, digitsValue,
    Nat.ofDigitChars_replicate_zero, Nat.mul_zero, Nat.mul_zero, Nat.zero_add]

theorem length_zeroPad {n x : ℕ} (hn : 0 < n) (hx : x < 10 ^ n) : (zeroPad n x).length = n := by
  have hle := (Nat.length_toDigits_le_iff (by decide) hn).mpr hx
  rw [zeroPad, List.length_append, List.length_replicate]
  omega

/-! ### Sign and decimal point -/

/-- The number denoted by digits with a decimal point that has digits on both sides. -/
def unsignedValue (s : List Char) : Option ℚ :=
  match s.dropWhile Char.isDigit with
  | '.' :: fraction =>
    if s.takeWhile Char.isDigit ≠ [] ∧ fraction ≠ [] ∧ Digits fraction then
      some ((digitsValue (s.takeWhile Char.isDigit) : ℚ) +
        digitsValue fraction / 10 ^ fraction.length)
    else none
  | _ => none

/-- The number denoted by blanks, possibly a minus sign, and digits with a decimal point. -/
def value (s : List Char) : Option ℚ :=
  match s.dropWhile (· = ' ') with
  | '-' :: t => (unsignedValue t).map fun x => -x
  | t => unsignedValue t

theorem span_digits {ds rest : List Char} (h : Digits ds)
    (hrest : ∀ c ∈ rest.head?, c.isDigit = false) :
    (ds ++ rest).takeWhile Char.isDigit = ds ∧ (ds ++ rest).dropWhile Char.isDigit = rest := by
  rw [List.takeWhile_append_of_pos h, List.dropWhile_append_of_pos h]
  cases rest with
  | nil => simp
  | cons c rest =>
    have hc := hrest c rfl
    simp [hc]

theorem unsignedValue_point {ip fp : List Char} (hip : Digits ip) (hne : ip ≠ []) (hfp : Digits fp)
    (hfne : fp ≠ []) :
    unsignedValue (ip ++ '.' :: fp) =
      some ((digitsValue ip : ℚ) + digitsValue fp / 10 ^ fp.length) := by
  obtain ⟨htake, hdrop⟩ := @span_digits ip ('.' :: fp) hip (by simp)
  rw [unsignedValue, htake, hdrop]
  exact if_pos (⟨hne, hfne, hfp⟩ : ip ≠ [] ∧ fp ≠ [] ∧ Digits fp)

theorem value_blanks (k : ℕ) (s : List Char) : value (List.replicate k ' ' ++ s) = value s := by
  have hblanks : (List.replicate k ' ' ++ s).dropWhile (· = ' ') = s.dropWhile (· = ' ') :=
    List.dropWhile_append_of_pos fun c hc => by simp [(List.mem_replicate.mp hc).2]
  rw [value, hblanks, value]

theorem value_neg (s : List Char) : value ('-' :: s) = (unsignedValue s).map fun x => -x := rfl

theorem value_unsigned {ds rest : List Char} (h : Digits ds) (hne : ds ≠ []) :
    value (ds ++ rest) = unsignedValue (ds ++ rest) := by
  obtain ⟨c, ds, rfl⟩ := List.exists_cons_of_ne_nil hne
  have hc := h c List.mem_cons_self
  have hblank : c ≠ ' ' := by
    rintro rfl
    exact absurd hc (by decide)
  have hsign : c ≠ '-' := by
    rintro rfl
    exact absurd hc (by decide)
  simp only [value, List.cons_append, List.dropWhile_cons, hblank, decide_false]
  split
  · next hcons => exact absurd (List.cons.inj hcons).1 hsign
  · rfl

end Decimal
