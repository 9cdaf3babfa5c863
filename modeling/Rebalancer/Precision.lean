import Mathlib

namespace Rebalancer

/-- Doubles are modelled as exact rationals. -/
structure PrecisionTolerances where
  absolute : ℚ
  relative : ℚ

def defaultTolerances : PrecisionTolerances := ⟨1 / 10 ^ 10, 1 / 10 ^ 10⟩

section
variable (t : PrecisionTolerances)

/-- `lt`, `eq` and `gt` are `-1`, `0` and `1`; the relative test of two zeros fails. -/
def PrecisionTolerances.compare (v w : ℚ) : Ordering :=
  if |v - w| < t.absolute then .eq
  else if |v| + |w| ≠ 0 ∧ |v - w| * 2 / (|v| + |w|) < t.relative then .eq
  else if 0 < v - w then .gt
  else .lt

def PrecisionTolerances.isStrictlyGtZero (v : ℚ) : Bool := t.compare v 0 == .gt

def PrecisionTolerances.isStrictlyGreater (v w : ℚ) : Bool := t.compare v w == .gt

end

namespace PrecisionTolerances
variable {t : PrecisionTolerances} {v w : ℚ}

theorem compare_gt (h : t.compare v w = .gt) : w < v := by
  rw [compare] at h
  split at h
  · cases h
  · split at h
    · cases h
    · split at h
      · linarith
      · cases h

theorem compare_lt (h : t.compare v w = .lt) : v ≤ w := by
  rw [compare] at h
  split at h
  · cases h
  · split at h
    · cases h
    · split at h
      · cases h
      · linarith

theorem compare_self (ht : 0 < t.absolute) (v : ℚ) : t.compare v v = .eq := by
  simp [compare, ht]

theorem compare_zero (ht : t.absolute ≤ 0) : t.compare 0 0 = .lt := by
  simp [compare, not_lt.mpr ht]

theorem compare_lt_strict (ht : 0 < t.absolute) (h : t.compare v w = .lt) : v < w := by
  rcases lt_or_eq_of_le (compare_lt h) with hlt | rfl
  · exact hlt
  · rw [compare_self ht] at h
    cases h

theorem compare_eq_or_of_gt (h : w < v) : t.compare v w = .eq ∨ t.compare v w = .gt := by
  cases hc : t.compare v w with
  | lt => exact absurd (compare_lt hc) (not_le_of_gt h)
  | eq => exact .inl rfl
  | gt => exact .inr rfl

end PrecisionTolerances

end Rebalancer
