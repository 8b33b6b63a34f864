import SpecSw.Library.Decimal
import SpecSw.Tools.DioCmdStamp

/-!
# The times that `stamp-frame` reports

`report_times` computes from four time stamps the round trip time, the forward and the backward
time, by subtractions on `struct timespec`, and prints each as the seconds, a point and nine digits
for the nanoseconds.

The subtraction borrows one second where the nanoseconds are negative, so a difference of normalized
stamps is normalized. Its seconds are a `long`, and an overflow is taken to wrap around, so what is
kept of the final difference does not depend on overflows before it (`tsSub_eq`); it is exact if a
timespec can hold the difference (`Fits`), as it can for the stamps of any clock
(`timesFit_of_bounded`).

A negative time that is not a whole number of seconds has the next lower second and positive
nanoseconds: what is printed for it, minus sign, seconds and fraction, is another number.

## Main definitions

* `Tools.tsSub`, `Tools.reportedTimes`, `Tools.reportTimes`.
* `Tools.Fits`: a timespec can hold a total.
* `Tools.Report.Exact`: the printed numbers are the differences of the stamps.

## Main results

* `Tools.reportedTimes_exact`, `Tools.not_forall_reportedTimes_fw`: what is computed.
* `Tools.reportTimes_exact_iff`, `Tools.not_forall_reportTimes_exact`: what is printed.
-/

namespace SpecSw.Tools

open Decimal

/-! ### The tool -/

/-- `ts_sub`. -/
def tsSub (t1 t2 : Timespec) : Timespec :=
  let sec := int64 (t1.tvSec - t2.tvSec)
  let nsec := int64 (t1.tvNsec - t2.tvNsec)
  if nsec < 0 then ⟨int64 (sec - 1), int64 (nsec + 1000 * 1000 * 1000)⟩ else ⟨sec, nsec⟩

/-- The variables `rtt`, `fw` and `bw` of `report_times`. -/
@[ext] structure Times where
  rtt : Timespec
  fw : Timespec
  bw : Timespec
  deriving DecidableEq, Repr

/-- There are four stamps. -/
local instance neZero_four : NeZero 4 := ⟨by decide⟩

/-- Calculate round trip time, forward, backward. -/
def reportedTimes (ts : Fin 4 → Timespec) : Times where
  rtt := tsSub (tsSub (ts 3) (ts 0)) (tsSub (ts 2) (ts 1))
  fw := tsSub (ts 1) (ts 0)
  bw := tsSub (ts 3) (ts 2)

/-- `"%9li.%09li"`. -/
def formatTime (t : Timespec) : String := formatWide t.tvSec ++ "." ++ formatZeros t.tvNsec

/-- The numbers that `report_times` prints. -/
structure Report where
  stamps : Fin 4 → String
  rtt : String
  fw : String
  bw : String

/-- The lines of output, with a number in each. -/
def Report.lines (r : Report) : List String :=
  (List.finRange 4).map
      (fun i => "timestamp    T" ++ toString (i.val + 1) ++ ": " ++ r.stamps i ++ "\n") ++
    ["round trip time: " ++ r.rtt ++ "\n", "forward    time: " ++ r.fw ++ "\n",
      "backward   time: " ++ r.bw ++ "\n"]

/-- `report_times`. -/
def reportTimes (ts : Fin 4 → Timespec) : Report where
  stamps i := formatTime (ts i)
  rtt := formatTime (reportedTimes ts).rtt
  fw := formatTime (reportedTimes ts).fw
  bw := formatTime (reportedTimes ts).bw

/-! ### What is computed -/

/-- A timespec can hold the total: the whole seconds are in the range of a `long`. -/
def Fits (ns : ℤ) : Prop := -2 ^ 63 ≤ ns / nsecPerSec ∧ ns / nsecPerSec < 2 ^ 63

instance : DecidablePred Fits := fun ns =>
  inferInstanceAs (Decidable (-2 ^ 63 ≤ ns / nsecPerSec ∧ ns / nsecPerSec < 2 ^ 63))

/-- A timespec can hold each of the three times. -/
structure TimesFit (ts : Fin 4 → Timespec) : Prop where
  rtt : Fits (((ts 3).ns - (ts 0).ns) - ((ts 2).ns - (ts 1).ns))
  fw : Fits ((ts 1).ns - (ts 0).ns)
  bw : Fits ((ts 3).ns - (ts 2).ns)

section Computed

/-- What a timespec keeps of a total: the whole seconds as a `long`, and the nanoseconds. -/
def longTimespec (ns : ℤ) : Timespec := ⟨int64 (ns / nsecPerSec), ns % nsecPerSec⟩

theorem longTimespec_normalized (ns : ℤ) : (longTimespec ns).Normalized := by
  simp only [Timespec.Normalized, longTimespec, nsecPerSec]
  omega

/-- A timespec stands for a total if a `long` keeps the same of the seconds. -/
def StandsFor (t : Timespec) (ns : ℤ) : Prop :=
  int64 t.tvSec = int64 (ns / nsecPerSec) ∧ t.tvNsec = ns % nsecPerSec

variable {t1 t2 : Timespec} {x y : ℤ}

theorem standsFor_ns (h : t1.Normalized) : StandsFor t1 t1.ns := by
  simp only [Timespec.Normalized, nsecPerSec] at h
  simp only [StandsFor, Timespec.ns, nsecPerSec, int64]
  omega

theorem standsFor_longTimespec (x : ℤ) : StandsFor (longTimespec x) x := by
  refine ⟨?_, rfl⟩
  simp only [longTimespec, int64, nsecPerSec]
  omega

/-- Whatever overflows on the way, what is kept of the difference is right. -/
theorem tsSub_eq (h1 : StandsFor t1 x) (h2 : StandsFor t2 y) :
    tsSub t1 t2 = longTimespec (x - y) := by
  obtain ⟨hsec1, hnsec1⟩ := h1
  obtain ⟨hsec2, hnsec2⟩ := h2
  simp only [int64, nsecPerSec] at hsec1 hsec2 hnsec1 hnsec2
  have hnsec : int64 (t1.tvNsec - t2.tvNsec) = x % 1000000000 - y % 1000000000 := by
    rw [hnsec1, hnsec2, int64_eq_self_iff]
    omega
  rw [tsSub, hnsec]
  split_ifs with hborrow
  · ext
    · simp only [longTimespec, int64, nsecPerSec]
      omega
    · simp only [longTimespec, int64, nsecPerSec]
      omega
  · ext
    · simp only [longTimespec, int64, nsecPerSec]
      omega
    · simp only [longTimespec, nsecPerSec]
      omega

/-- Normalized timespecs of the same total are equal. -/
theorem Timespec.ext_ns (h1 : t1.Normalized) (h2 : t2.Normalized) (h : t1.ns = t2.ns) :
    t1 = t2 := by
  simp only [Timespec.Normalized, Timespec.ns, nsecPerSec] at h1 h2 h
  ext
  · omega
  · omega

variable {ts : Fin 4 → Timespec}

theorem reportedTimes_eq (h : ∀ i, (ts i).Normalized) :
    reportedTimes ts =
      { rtt := longTimespec (((ts 3).ns - (ts 0).ns) - ((ts 2).ns - (ts 1).ns))
        fw := longTimespec ((ts 1).ns - (ts 0).ns)
        bw := longTimespec ((ts 3).ns - (ts 2).ns) } := by
  have hsub (i j : Fin 4) : tsSub (ts i) (ts j) = longTimespec ((ts i).ns - (ts j).ns) :=
    tsSub_eq (standsFor_ns (h i)) (standsFor_ns (h j))
  rw [reportedTimes, hsub, hsub, hsub, hsub,
    tsSub_eq (standsFor_longTimespec _) (standsFor_longTimespec _)]

/-- When the seconds of the stamps are within `2 ^ 60`, as those of all clocks are, all times fit,
and so do the differences from which the round trip time is computed. -/
theorem timesFit_of_bounded (hnormal : ∀ i, (ts i).Normalized)
    (h : ∀ i, -2 ^ 60 ≤ (ts i).tvSec ∧ (ts i).tvSec ≤ 2 ^ 60) :
    TimesFit ts ∧ Fits ((ts 3).ns - (ts 0).ns) ∧ Fits ((ts 2).ns - (ts 1).ns) := by
  have hns (i : Fin 4) : -2 ^ 60 * 1000000000 ≤ (ts i).ns ∧
      (ts i).ns < (2 ^ 60 + 1) * 1000000000 := by
    have hnsec := hnormal i
    have hsec := h i
    simp only [Timespec.Normalized, nsecPerSec] at hnsec
    simp only [Timespec.ns, nsecPerSec]
    omega
  have h0 := hns 0
  have h1 := hns 1
  have h2 := hns 2
  have h3 := hns 3
  refine ⟨⟨?_, ?_, ?_⟩, ?_, ?_⟩ <;> simp only [Fits, nsecPerSec] <;> omega

end Computed

/-- Stamps of two hosts whose clocks are a few seconds apart. -/
def unsynchronized : Fin 4 → Timespec
  | 0 => ⟨13, 225249168⟩
  | 1 => ⟨9, 130237600⟩
  | 2 => ⟨9, 140438816⟩
  | 3 => ⟨13, 235559016⟩

section Printed

theorem toList_padLeft (c : Char) (n : ℕ) (s : String) :
    (padLeft c n s).toList = List.replicate (n - s.length) c ++ s.toList := by
  rw [padLeft, String.toList_append, String.toList_ofList]

theorem toList_toString_ofNat (x : ℕ) : (toString (x : ℤ)).toList = Nat.toDigits 10 x := by
  change (toString x).toList = _
  rw [Nat.toString_eq_repr, Nat.toList_repr]

theorem toList_toString_neg {x : ℤ} (h : x < 0) :
    (toString x).toList = '-' :: Nat.toDigits 10 x.natAbs := by
  rw [Int.toString_eq_repr, Int.repr_eq_if, if_neg (by omega), String.toList_append,
    Nat.toList_repr, show (-x).toNat = x.natAbs by omega]
  rfl

/-- A normalized timespec prints as blanks, the seconds with their sign, a point and the nine digits
of the nanoseconds. -/
theorem toList_formatTime {t : Timespec} (h : t.Normalized) : ∃ k,
    (formatTime t).toList =
      List.replicate k ' ' ++ ((if t.tvSec < 0 then ['-'] else []) ++
        Nat.toDigits 10 t.tvSec.natAbs) ++ '.' :: zeroPad 9 t.tvNsec.toNat := by
  obtain ⟨hlo, -⟩ := h
  have hfraction : (formatZeros t.tvNsec).toList = zeroPad 9 t.tvNsec.toNat := by
    obtain ⟨n, hn⟩ := Int.eq_ofNat_of_zero_le hlo
    rw [hn, formatZeros, if_neg (by omega), toList_padLeft, toList_toString_ofNat, zeroPad,
      ← String.length_toList, toList_toString_ofNat, Int.toNat_natCast]
  refine ⟨9 - (toString t.tvSec).length, ?_⟩
  rw [formatTime, String.toList_append, String.toList_append, hfraction, formatWide, toList_padLeft]
  have hsec : (toString t.tvSec).toList =
      (if t.tvSec < 0 then ['-'] else []) ++ Nat.toDigits 10 t.tvSec.natAbs := by
    by_cases hneg : t.tvSec < 0
    · rw [toList_toString_neg hneg, if_pos hneg]
      rfl
    · obtain ⟨n, hn⟩ := Int.eq_ofNat_of_zero_le (not_lt.mp hneg)
      rw [if_neg hneg, hn, toList_toString_ofNat, Int.natAbs_natCast]
      rfl
  rw [hsec, List.append_assoc]
  rfl

/-- The number printed for a normalized timespec: the sign is that of the seconds alone, and stands
in front of the fraction as well. -/
theorem value_formatTime {t : Timespec} (h : t.Normalized) :
    value (formatTime t).toList =
      some (if t.tvSec < 0 then (t.tvSec : ℚ) - t.tvNsec / nsecPerSec
        else (t.tvSec : ℚ) + t.tvNsec / nsecPerSec) := by
  obtain ⟨k, hk⟩ := toList_formatTime h
  have hint := digits_toDigits t.tvSec.natAbs
  have hpoint := unsignedValue_point hint Nat.toDigits_ne_nil
    (digits_zeroPad 9 t.tvNsec.toNat) (by simp [zeroPad])
  have hnsec : t.tvNsec.toNat < 10 ^ 9 := by
    obtain ⟨hlo, hhi⟩ := h
    rw [nsecPerSec] at hhi
    omega
  rw [digitsValue_toDigits, digitsValue_zeroPad, length_zeroPad (by decide) hnsec] at hpoint
  have habs : (t.tvNsec.toNat : ℚ) = t.tvNsec := by
    exact_mod_cast Int.toNat_of_nonneg h.1
  rw [hk, List.append_assoc, value_blanks]
  split_ifs with hneg
  · have hsec : (t.tvSec.natAbs : ℚ) = -t.tvSec := by
      rw [Nat.cast_natAbs, abs_of_neg hneg, Int.cast_neg]
    rw [List.append_assoc, List.singleton_append, value_neg, hpoint, hsec, habs, nsecPerSec]
    norm_num
    ring
  · have hsec : (t.tvSec.natAbs : ℚ) = t.tvSec := by
      rw [Nat.cast_natAbs, abs_of_nonneg (not_lt.mp hneg)]
    rw [List.nil_append, value_unsigned hint Nat.toDigits_ne_nil, hpoint, hsec, habs, nsecPerSec]
    norm_num

/-- A total of nanoseconds, in seconds. -/
def seconds (ns : ℤ) : ℚ := ns / nsecPerSec

theorem seconds_eq (ns : ℤ) :
    seconds ns = (ns / nsecPerSec : ℤ) + ((ns % nsecPerSec : ℤ) : ℚ) / nsecPerSec := by
  have hpos : (nsecPerSec : ℚ) ≠ 0 := by norm_num [nsecPerSec]
  have hsplit : ((nsecPerSec * (ns / nsecPerSec) + ns % nsecPerSec : ℤ) : ℚ) = ns := by
    rw [Int.mul_ediv_add_emod]
  push_cast at hsplit
  rw [seconds, ← hsplit]
  field_simp

theorem seconds_add (x y : ℤ) : seconds (x + y) = seconds x + seconds y := by
  simp only [seconds, Int.cast_add, add_div]

/-- The number printed for what a timespec keeps of a total. -/
theorem value_longTimespec (ns : ℤ) : value (formatTime (longTimespec ns)).toList =
    some (if int64 (ns / nsecPerSec) < 0
      then (int64 (ns / nsecPerSec) : ℚ) - (ns % nsecPerSec : ℤ) / nsecPerSec
      else (int64 (ns / nsecPerSec) : ℚ) + (ns % nsecPerSec : ℤ) / nsecPerSec) :=
  value_formatTime (longTimespec_normalized ns)

/-- A time that `report_times` can print: a timespec can hold it, and it is not negative or a whole
number of seconds. -/
def Printable (ns : ℤ) : Prop := Fits ns ∧ (0 ≤ ns ∨ nsecPerSec ∣ ns)

instance : DecidablePred Printable := fun ns =>
  inferInstanceAs (Decidable (Fits ns ∧ (0 ≤ ns ∨ nsecPerSec ∣ ns)))

/-- The sign in front of the fraction does not make up for an overflow of the seconds. -/
theorem fits_of_value {ns : ℤ} (h : value (formatTime (longTimespec ns)).toList =
    some (seconds ns)) : Fits ns := by
  rw [Fits, ← int64_eq_self_iff]
  have hfraction : 0 ≤ ((ns % nsecPerSec : ℤ) : ℚ) / nsecPerSec ∧
      ((ns % nsecPerSec : ℤ) : ℚ) / nsecPerSec < 1 := by
    have hpos : (0 : ℚ) < nsecPerSec := by norm_num [nsecPerSec]
    obtain ⟨hlo, hhi⟩ := longTimespec_normalized ns
    exact ⟨div_nonneg (by exact_mod_cast hlo) hpos.le,
      (div_lt_one hpos).mpr (by exact_mod_cast hhi)⟩
  rw [value_longTimespec, seconds_eq, Option.some_inj] at h
  generalize ((ns % nsecPerSec : ℤ) : ℚ) / nsecPerSec = f at h hfraction
  by_cases hneg : int64 (ns / nsecPerSec) < 0
  · rw [if_pos hneg] at h
    have hlo : ((ns / nsecPerSec : ℤ) : ℚ) ≤ int64 (ns / nsecPerSec) := by linarith
    have hhi : ((int64 (ns / nsecPerSec) : ℤ) : ℚ) < (ns / nsecPerSec : ℤ) + 2 := by linarith
    have hlo' : ns / nsecPerSec ≤ int64 (ns / nsecPerSec) := by exact_mod_cast hlo
    have hhi' : int64 (ns / nsecPerSec) < ns / nsecPerSec + 2 := by exact_mod_cast hhi
    simp only [int64] at hlo' hhi' ⊢
    omega
  · rw [if_neg hneg] at h
    exact_mod_cast add_right_cancel h

/-- What is printed for a total is that total exactly when it is printable. -/
theorem value_formatTime_iff {ns : ℤ} :
    value (formatTime (longTimespec ns)).toList = some (seconds ns) ↔ Printable ns := by
  by_cases hfit : Fits ns
  · have hkept : int64 (ns / nsecPerSec) = ns / nsecPerSec := int64_eq_self_iff.mpr hfit
    have hprintable : 0 ≤ ns ∨ nsecPerSec ∣ ns ↔ 0 ≤ ns / nsecPerSec ∨ ns % nsecPerSec = 0 := by
      simp only [nsecPerSec]
      omega
    rw [Printable, and_iff_right hfit, hprintable, value_longTimespec, seconds_eq,
      Option.some_inj, hkept]
    split_ifs with hneg
    · have hpos : (nsecPerSec : ℚ) ≠ 0 := by norm_num [nsecPerSec]
      have hzero : ((ns % nsecPerSec : ℤ) : ℚ) / nsecPerSec = 0 ↔ ns % nsecPerSec = 0 := by
        rw [div_eq_zero_iff, or_iff_left hpos, Int.cast_eq_zero]
      rw [or_iff_right (not_le.mpr hneg), ← hzero]
      constructor
      · intro heq
        linarith
      · intro heq
        rw [heq]
        ring
    · exact iff_of_true rfl (Or.inl (not_lt.mp hneg))
  · exact iff_of_false (mt fits_of_value hfit) (fun h => hfit h.1)

end Printed

/-- The printed numbers are the round trip, forward and backward time of the stamps in seconds, and
the second and the third add up to the first. -/
structure Report.Exact (r : Report) (ts : Fin 4 → Timespec) : Prop where
  rtt : value r.rtt.toList = some (seconds (((ts 3).ns - (ts 0).ns) - ((ts 2).ns - (ts 1).ns)))
  fw : value r.fw.toList = some (seconds ((ts 1).ns - (ts 0).ns))
  bw : value r.bw.toList = some (seconds ((ts 3).ns - (ts 2).ns))
  sum : ∃ x y, value r.fw.toList = some x ∧ value r.bw.toList = some y ∧
    value r.rtt.toList = some (x + y)

/-- **The printed times.** For normalized stamps the printed numbers are the differences of the
stamps, and add up, exactly when each difference is printable. -/
theorem reportTimes_exact_iff (ts : Fin 4 → Timespec) (h : ∀ i, (ts i).Normalized) :
    (reportTimes ts).Exact ts ↔
      Printable (((ts 3).ns - (ts 0).ns) - ((ts 2).ns - (ts 1).ns)) ∧
      Printable ((ts 1).ns - (ts 0).ns) ∧ Printable ((ts 3).ns - (ts 2).ns) := by
  have hprinted : reportTimes ts =
      { stamps := fun i => formatTime (ts i)
        rtt := formatTime (longTimespec (((ts 3).ns - (ts 0).ns) - ((ts 2).ns - (ts 1).ns)))
        fw := formatTime (longTimespec ((ts 1).ns - (ts 0).ns))
        bw := formatTime (longTimespec ((ts 3).ns - (ts 2).ns)) } := by
    rw [reportTimes, reportedTimes_eq h]
  rw [hprinted, ← value_formatTime_iff, ← value_formatTime_iff, ← value_formatTime_iff]
  constructor
  · rintro ⟨h1, h2, h3, -⟩
    exact ⟨h1, h2, h3⟩
  · rintro ⟨h1, h2, h3⟩
    refine ⟨h1, h2, h3, _, _, h2, h3, h1.trans (congrArg some ?_)⟩
    rw [← seconds_add]
    exact congrArg seconds (by ring)

/-- Stamps of two hosts whose clocks agree. -/
def synchronized : Fin 4 → Timespec
  | 0 => ⟨13, 999999990⟩
  | 1 => ⟨14, 54316⟩
  | 2 => ⟨14, 10255532⟩
  | 3 => ⟨14, 10309848⟩

theorem reportTimes_exact_synchronized : (reportTimes synchronized).Exact synchronized :=
  (reportTimes_exact_iff synchronized (by decide)).mpr (by decide)

/-- The forward time of the stamps of two hosts whose clocks are a few seconds apart is printed as
-5.904988432 seconds, and is -4.095011568 seconds. -/
theorem not_forall_reportTimes_exact : ¬ ∀ ts : Fin 4 → Timespec,
    (∀ i, (ts i).Normalized) → (reportTimes ts).Exact ts := by
  intro hall
  have hfw := (hall unsynchronized (by decide)).fw
  rw [reportTimes, reportedTimes_eq (by decide)] at hfw
  have hprintable := value_formatTime_iff.mp hfw
  revert hprintable
  decide

end SpecSw.Tools
