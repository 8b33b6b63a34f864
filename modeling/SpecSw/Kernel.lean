import Mathlib.Data.Int.Basic
import Mathlib.Tactic.Ring

/-!
# What the drivers use of the kernel

Error numbers, the `int` and the `long` of a 64-bit host, and `struct timespec` with the two
operations the DIO code calls. `set_normalized_timespec` returns the timespec of the same total with
`0 ≤ tv_nsec < NSEC_PER_SEC`, and `timespec_add` normalizes the sum of the fields.

A timespec matters only through its total number of nanoseconds once it is normalized
(`setNormalizedTimespec_eq`), so chains of additions are sums of `Timespec.ns`.
-/

namespace SpecSw

/-! ### Error numbers -/

namespace Errno

def enoent : ℤ := 2

def esrch : ℤ := 3

def eio : ℤ := 5

def eagain : ℤ := 11

def enomem : ℤ := 12

def efault : ℤ := 14

def enodev : ℤ := 19

def einval : ℤ := 22

def emsgsize : ℤ := 90

def etimedout : ℤ := 110

def erestartsys : ℤ := 512

def enoioctlcmd : ℤ := 515

def enotsupp : ℤ := 524

end Errno

/-! ### Machine integers -/

/-- The value an `int` keeps of `x`: 32 bits, two's complement. -/
def int32 (x : ℤ) : ℤ := (x + 2 ^ 31) % 2 ^ 32 - 2 ^ 31

theorem int32_of_range {x : ℤ} (hlo : -2 ^ 31 ≤ x) (hhi : x < 2 ^ 31) : int32 x = x := by
  simp only [int32]
  omega

/-- The value a `long` keeps of `x`: 64 bits, two's complement. -/
def int64 (x : ℤ) : ℤ := (x + 2 ^ 63) % 2 ^ 64 - 2 ^ 63

theorem int64_eq_self_iff {x : ℤ} : int64 x = x ↔ -2 ^ 63 ≤ x ∧ x < 2 ^ 63 := by
  simp only [int64]
  omega

/-! ### `struct timespec` -/

/-- `NSEC_PER_SEC`. -/
def nsecPerSec : ℤ := 1000000000

/-- `struct timespec`: seconds and nanoseconds, both `long`. -/
@[ext] structure Timespec where
  tvSec : ℤ
  tvNsec : ℤ
  deriving DecidableEq, Repr

namespace Timespec

/-- The total number of nanoseconds. -/
def ns (t : Timespec) : ℤ := t.tvSec * nsecPerSec + t.tvNsec

/-- `0 ≤ tv_nsec < NSEC_PER_SEC`. -/
def Normalized (t : Timespec) : Prop := 0 ≤ t.tvNsec ∧ t.tvNsec < nsecPerSec

instance (t : Timespec) : Decidable t.Normalized := inferInstanceAs (Decidable (_ ∧ _))

end Timespec

/-- `set_normalized_timespec`: the normalized timespec of `sec` seconds and `nsec` nanoseconds. -/
def setNormalizedTimespec (sec nsec : ℤ) : Timespec where
  tvSec := sec + nsec / nsecPerSec
  tvNsec := nsec % nsecPerSec

/-- `timespec_add`. -/
def timespecAdd (lhs rhs : Timespec) : Timespec :=
  setNormalizedTimespec (lhs.tvSec + rhs.tvSec) (lhs.tvNsec + rhs.tvNsec)

theorem setNormalizedTimespec_normalized (sec nsec : ℤ) :
    (setNormalizedTimespec sec nsec).Normalized := by
  simp only [Timespec.Normalized, setNormalizedTimespec, nsecPerSec]
  omega

@[simp] theorem ns_setNormalizedTimespec (sec nsec : ℤ) :
    (setNormalizedTimespec sec nsec).ns = sec * nsecPerSec + nsec := by
  simp only [Timespec.ns, setNormalizedTimespec, nsecPerSec]
  omega

/-- A normalized timespec is determined by its total. -/
theorem setNormalizedTimespec_eq (sec nsec : ℤ) :
    setNormalizedTimespec sec nsec = setNormalizedTimespec 0 (sec * nsecPerSec + nsec) := by
  ext
  · simp only [setNormalizedTimespec, nsecPerSec]
    omega
  · simp only [setNormalizedTimespec, nsecPerSec]
    omega

@[simp] theorem ns_timespecAdd (lhs rhs : Timespec) :
    (timespecAdd lhs rhs).ns = lhs.ns + rhs.ns := by
  rw [timespecAdd, ns_setNormalizedTimespec, Timespec.ns, Timespec.ns]
  ring

end SpecSw
