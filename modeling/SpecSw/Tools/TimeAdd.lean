import SpecSw.Tools.ReportTimes
import SpecSw.Tools.Ruler

/-!
# Adding times in user space

`ts_add` of `stamp-frame` and the loop of `ruler_run_actions` add the fields of two timespecs and
carry one second when the nanoseconds are more than that. When they are exactly one second there is
no carry: the total is right, but `tv_nsec` is `NSEC_PER_SEC`, which no normalized timespec has and
`timespec_add` of the kernel never gives.

## Main definitions

* `Tools.tsAdd`.
* `Tools.ExactSum`, `Tools.UserAdditions`: the additions agree with the kernel's.

## Main results

* `Tools.userAdditions_iff`, `Tools.not_forall_userAdditions`.
-/

namespace SpecSw.Tools

/-- `ts_add`. -/
def tsAdd (t1 t2 : Timespec) : Timespec :=
  let sec := t1.tvSec + t2.tvSec
  let nsec := t1.tvNsec + t2.tvNsec
  if 1000 * 1000 * 1000 < nsec then ⟨sec + 1, nsec - 1000 * 1000 * 1000⟩ else ⟨sec, nsec⟩

/-- The two tools carry by the same rule. -/
theorem tsAdd_eq_addDelay (t1 t2 : Timespec) : tsAdd t1 t2 = addDelay t1 t2 := rfl

@[simp] theorem ns_tsAdd (t1 t2 : Timespec) : (tsAdd t1 t2).ns = t1.ns + t2.ns := by
  rw [tsAdd_eq_addDelay, ns_addDelay]

/-- A result is the normalized timespec of the sum, which is what the kernel computes. -/
structure ExactSum (t1 t2 sum : Timespec) : Prop where
  normalized : sum.Normalized
  total : sum.ns = t1.ns + t2.ns
  kernel : sum = timespecAdd t1 t2

/-- Both additions are exact, and `ts_sub` undoes `ts_add`. -/
structure UserAdditions (t1 t2 : Timespec) : Prop where
  stampFrame : ExactSum t1 t2 (tsAdd t1 t2)
  ruler : ExactSum t1 t2 (addDelay t1 t2)
  undone : tsSub (tsAdd t1 t2) t2 = t1

section Carry

variable {t1 t2 : Timespec}

/-- The sum is normalized unless the nanoseconds are exactly one second. -/
theorem tsAdd_normalized_iff (h1 : t1.Normalized) (h2 : t2.Normalized) :
    (tsAdd t1 t2).Normalized ↔ t1.tvNsec + t2.tvNsec ≠ nsecPerSec := by
  simp only [Timespec.Normalized, nsecPerSec] at h1 h2
  rw [tsAdd]
  split_ifs with hcarry
  · simp only [Timespec.Normalized, nsecPerSec]
    omega
  · simp only [Timespec.Normalized, nsecPerSec]
    omega

/-- A normalized sum is the one of the kernel. -/
theorem exactSum_tsAdd (h : (tsAdd t1 t2).Normalized) : ExactSum t1 t2 (tsAdd t1 t2) where
  normalized := h
  total := ns_tsAdd t1 t2
  kernel := Timespec.ext_ns h (setNormalizedTimespec_normalized _ _) (by simp)

/-- The borrow of `ts_sub` undoes the carry of `ts_add`, also when there should have been one. -/
theorem tsSub_tsAdd (h1 : t1.Normalized) (h2 : t2.Normalized)
    (hlong : -2 ^ 63 ≤ t1.tvSec ∧ t1.tvSec < 2 ^ 63) : tsSub (tsAdd t1 t2) t2 = t1 := by
  have hsec : int64 t1.tvSec = t1.tvSec := int64_eq_self_iff.mpr hlong
  simp only [Timespec.Normalized, nsecPerSec] at h1 h2
  rw [tsAdd]
  split_ifs with hcarry
  · have hnsec : int64 (t1.tvNsec + t2.tvNsec - 1000 * 1000 * 1000 - t2.tvNsec) =
        t1.tvNsec - 1000 * 1000 * 1000 := by
      rw [int64_eq_self_iff.mpr (by omega)]
      omega
    have hback : int64 (t1.tvNsec - 1000 * 1000 * 1000 + 1000 * 1000 * 1000) = t1.tvNsec := by
      rw [int64_eq_self_iff.mpr (by omega)]
      omega
    have hborrow : int64 (int64 (t1.tvSec + t2.tvSec + 1 - t2.tvSec) - 1) = t1.tvSec := by
      simp only [int64] at hsec ⊢
      omega
    simp only [tsSub, hnsec]
    rw [if_pos (by omega), hback, hborrow]
  · have hnsec : int64 t1.tvNsec = t1.tvNsec := int64_eq_self_iff.mpr (by omega)
    simp only [tsSub, add_sub_cancel_right, hsec, hnsec]
    rw [if_neg (by omega)]

/-- The fields of a sum, before and after the carry, are of type `long`. -/
theorem tsAdd_long (h1 : t1.Normalized) (h2 : t2.Normalized) (hsec1 : 0 ≤ t1.tvSec)
    (hsec2 : 0 ≤ t2.tvSec) (hsum : t1.tvSec + t2.tvSec + 1 < 2 ^ 63) :
    (t1.tvNsec + t2.tvNsec < 2 ^ 63 ∧ 0 ≤ t1.tvNsec + t2.tvNsec) ∧
      0 ≤ (tsAdd t1 t2).tvSec ∧ (tsAdd t1 t2).tvSec < 2 ^ 63 ∧
      0 ≤ (tsAdd t1 t2).tvNsec ∧ (tsAdd t1 t2).tvNsec ≤ nsecPerSec := by
  rw [tsAdd_eq_addDelay]
  exact addDelay_long h1 h2 hsec1 hsec2 hsum

/-- **The additions agree with the kernel's** unless the nanoseconds are exactly one second. That
the seconds of `t1` are a `long` is for `ts_sub`, which gives them back. -/
theorem userAdditions_iff (h1 : t1.Normalized) (h2 : t2.Normalized)
    (hlong : -2 ^ 63 ≤ t1.tvSec ∧ t1.tvSec < 2 ^ 63) :
    UserAdditions t1 t2 ↔ t1.tvNsec + t2.tvNsec ≠ nsecPerSec := by
  rw [← tsAdd_normalized_iff h1 h2]
  refine ⟨fun h => h.stampFrame.normalized, fun h => ?_⟩
  have hexact := exactSum_tsAdd h
  exact ⟨hexact, tsAdd_eq_addDelay t1 t2 ▸ hexact, tsSub_tsAdd h1 h2 hlong⟩

end Carry

theorem userAdditions_iff_carry :
    UserAdditions ⟨1, 600000000⟩ ⟨2, 500000000⟩ ↔ (600000000 : ℤ) + 500000000 ≠ nsecPerSec :=
  userAdditions_iff (by decide) (by decide) (by decide)

/-- **Two half seconds** do not add up to a normalized second. -/
theorem not_forall_userAdditions :
    ¬∀ t1 t2 : Timespec, t1.Normalized → t2.Normalized → 0 ≤ t1.tvSec → 0 ≤ t2.tvSec →
      t1.tvSec + t2.tvSec + 1 < 2 ^ 63 → UserAdditions t1 t2 := by
  intro h
  have hhalf := h ⟨0, 500000000⟩ ⟨0, 500000000⟩ (by decide) (by decide) (by decide) (by decide)
    (by decide)
  exact absurd hhalf.stampFrame.normalized (by decide)

end SpecSw.Tools
