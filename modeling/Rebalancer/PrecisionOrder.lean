import Rebalancer.Precision

namespace Rebalancer
open Int

/-- The `round` of C++: to the closest integer, halfway cases away from zero. -/
def roundAwayFromZero (v : ℚ) : ℤ :=
  if 0 ≤ v then ⌊v + 1 / 2⌋ else ⌈v - 1 / 2⌉

theorem roundAwayFromZero_intCast (k : ℤ) : roundAwayFromZero k = k := by
  rw [roundAwayFromZero]
  split
  · rw [floor_eq_iff]
    constructor <;> linarith
  · rw [ceil_eq_iff]
    constructor <;> linarith

theorem roundAwayFromZero_mono (h : v ≤ w) : roundAwayFromZero v ≤ roundAwayFromZero w := by
  rw [roundAwayFromZero, roundAwayFromZero]
  split
  · rename_i hv
    rw [if_pos (hv.trans h)]
    exact floor_le_floor (by linarith)
  · split
    · have hn : ⌈v - 1 / 2⌉ ≤ 0 := ceil_le.mpr (by push_cast; linarith)
      have hp : 0 ≤ ⌊w + 1 / 2⌋ := floor_nonneg.mpr (by linarith)
      exact hn.trans hp
    · exact ceil_le_ceil (by linarith)

theorem roundAwayFromZero_le_ceil (v : ℚ) : roundAwayFromZero v ≤ ⌈v⌉ := by
  have h := roundAwayFromZero_mono (le_ceil v)
  rwa [roundAwayFromZero_intCast] at h

theorem le_roundAwayFromZero {k : ℤ} (h : (k : ℚ) ≤ v) : k ≤ roundAwayFromZero v := by
  have hm := roundAwayFromZero_mono h
  rwa [roundAwayFromZero_intCast] at hm

namespace PrecisionTolerances
variable {t : PrecisionTolerances} {v w k : ℚ}

def snapToZero (t : PrecisionTolerances) (v : ℚ) : ℚ := if |v| < t.absolute then 0 else v

theorem snapToZero_mono (t : PrecisionTolerances) (h : v ≤ w) :
    t.snapToZero v ≤ t.snapToZero w := by
  rw [snapToZero, snapToZero]
  split
  · rename_i hv
    split
    · exact le_refl 0
    · rename_i hw
      by_contra hneg
      rw [abs_lt] at hv
      rw [abs_lt, not_and_or] at hw
      rcases hw with hw | hw
      · exact hw (hv.1.trans_le h)
      · linarith [abs_nonneg w]
  · rename_i hv
    split
    · rename_i hw
      by_contra hneg
      rw [abs_lt] at hw
      rw [abs_lt, not_and_or] at hv
      rcases hv with hv | hv
      · linarith
      · exact hv (h.trans_lt hw.2)
    · exact h

theorem sub_mul_le (hv : k < v) (h : v ≤ w) : (v - k) * (|w| + |k|) ≤ (w - k) * (|v| + |k|) := by
  rcases le_or_gt 0 k with hk | hk
  · rw [abs_of_nonneg hk, abs_of_nonneg (hk.trans hv.le), abs_of_nonneg (hk.trans (hv.le.trans h))]
    nlinarith [mul_nonneg hk (sub_nonneg.mpr h)]
  · rw [abs_of_neg hk]
    rcases le_or_gt 0 v with hv0 | hv0
    · rw [abs_of_nonneg hv0, abs_of_nonneg (hv0.trans h)]
      linarith
    · rw [abs_of_neg hv0]
      rcases le_or_gt 0 w with hw | hw
      · rw [abs_of_nonneg hw]
        nlinarith
      · rw [abs_of_neg hw]
        nlinarith

theorem relative_le (hv : k < v) (h : v ≤ w) :
    |v - k| * 2 / (|v| + |k|) ≤ |w - k| * 2 / (|w| + |k|) := by
  have hp : ∀ x, k < x → 0 < |x| + |k| := by
    intro x hx
    have hsub := abs_sub x k
    have hd : 0 < |x - k| := abs_pos.mpr (sub_ne_zero.mpr hx.ne')
    linarith
  rw [abs_of_pos (sub_pos.mpr hv), abs_of_pos (sub_pos.mpr (hv.trans_le h)),
    div_le_div_iff₀ (hp v hv) (hp w (hv.trans_le h))]
  linarith [sub_mul_le hv h]

theorem compare_eq_iff : t.compare v w = .eq ↔
    |v - w| < t.absolute ∨ (|v| + |w| ≠ 0 ∧ |v - w| * 2 / (|v| + |w|) < t.relative) := by
  rw [compare]
  split
  · rename_i ha
    exact ⟨fun _ => .inl ha, fun _ => rfl⟩
  · rename_i ha
    split
    · rename_i hr
      exact ⟨fun _ => .inr hr, fun _ => rfl⟩
    · rename_i hr
      split
      · exact ⟨by rintro ⟨⟩, fun h => (h.elim ha hr).elim⟩
      · exact ⟨by rintro ⟨⟩, fun h => (h.elim ha hr).elim⟩

theorem compare_eq_of_between (hv : k < v) (h : v ≤ w) (hw : t.compare w k = .eq) :
    t.compare v k = .eq := by
  rw [compare_eq_iff] at hw ⊢
  rcases hw with ha | hr
  · refine .inl (lt_of_le_of_lt ?_ ha)
    rw [abs_of_pos (sub_pos.mpr hv), abs_of_pos (sub_pos.mpr (hv.trans_le h))]
    exact sub_le_sub_right h k
  · refine .inr ⟨?_, (relative_le hv h).trans_lt hr.2⟩
    intro hzero
    have hv0 : v = 0 := abs_eq_zero.mp (by linarith [abs_nonneg v, abs_nonneg k])
    have hk0 : k = 0 := abs_eq_zero.mp (by linarith [abs_nonneg v, abs_nonneg k])
    exact absurd hv (by rw [hv0, hk0]; exact lt_irrefl 0)

theorem compare_eq_neg : t.compare (-v) (-w) = .eq ↔ t.compare v w = .eq := by
  have hsub : -v - -w = -(v - w) := by ring
  rw [compare_eq_iff, compare_eq_iff, hsub, abs_neg, abs_neg, abs_neg]

theorem compare_lt_of_le (ht : 0 < t.absolute) (h : v ≤ w) (hw : t.compare w k = .lt) :
    t.compare v k = .lt := by
  have hlt : w < k := compare_lt_strict ht hw
  cases hv : t.compare v k with
  | lt => rfl
  | gt => exact absurd (compare_gt hv) (not_lt.mpr (h.trans hlt.le))
  | eq =>
    have hb := compare_eq_of_between (neg_lt_neg hlt) (neg_le_neg h) (compare_eq_neg.mpr hv)
    rw [compare_eq_neg.mp hb] at hw
    cases hw

theorem isStrictlyGtZero_zero : t.isStrictlyGtZero 0 = false := by
  apply Bool.eq_false_iff.mpr
  intro h
  exact lt_irrefl 0 (compare_gt (eq_of_beq h))

theorem isStrictlyGtZero_mono (h : v ≤ w) (hv : t.isStrictlyGtZero v = true) :
    t.isStrictlyGtZero w = true := by
  rw [isStrictlyGtZero, beq_iff_eq] at hv ⊢
  have hp := compare_gt hv
  rcases compare_eq_or_of_gt (hp.trans_le h) with heq | hgt
  · rw [compare_eq_of_between hp h heq] at hv
    cases hv
  · exact hgt

section
variable (t : PrecisionTolerances)

def ceil (v : ℚ) : ℚ :=
  let closestInteger : ℚ := roundAwayFromZero v
  if t.compare v closestInteger = .eq then closestInteger else ⌈v⌉

theorem ceil_cases (v : ℚ) : t.ceil v = ⌈v⌉ ∨
    (t.ceil v = ⌈v⌉ - 1 ∧ roundAwayFromZero v = ⌈v⌉ - 1 ∧ t.compare v (⌈v⌉ - 1) = .eq) := by
  rw [ceil]
  split_ifs with hc
  · have hle := roundAwayFromZero_le_ceil v
    have hlt : (((⌈v⌉ - 1 : ℤ)) : ℚ) ≤ v := by
      push_cast
      linarith [ceil_lt_add_one v]
    have hge := le_roundAwayFromZero hlt
    rcases (by omega : roundAwayFromZero v = ⌈v⌉ ∨ roundAwayFromZero v = ⌈v⌉ - 1) with hr | hr
    · exact .inl (by rw [hr])
    · refine .inr ⟨?_, hr, ?_⟩
      · rw [hr]
        push_cast
        rfl
      · rw [hr] at hc
        push_cast at hc
        exact hc
  · exact .inl rfl

theorem ceil_le (v : ℚ) : t.ceil v ≤ ⌈v⌉ := by
  rcases ceil_cases t v with h | ⟨h, -, -⟩
  · exact h.le
  · linarith

theorem le_ceil (v : ℚ) : (⌈v⌉ : ℚ) - 1 ≤ t.ceil v := by
  rcases ceil_cases t v with h | ⟨h, -, -⟩
  · linarith
  · exact h.ge

theorem ceil_mono (h : v ≤ w) : t.ceil v ≤ t.ceil w := by
  rcases lt_or_eq_of_le (ceil_le_ceil h) with hlt | heq
  · have hg : (⌈v⌉ : ℚ) ≤ ⌈w⌉ - 1 := by exact_mod_cast le_sub_one_of_lt hlt
    exact (ceil_le t v).trans (hg.trans (le_ceil t w))
  · rcases ceil_cases t w with hw | ⟨hw, hr, hc⟩
    · rw [hw, ← heq]
      exact ceil_le t v
    · have hl : ((⌈w⌉ - 1 : ℤ) : ℚ) < v := by
        rw [← heq]
        push_cast
        linarith [ceil_lt_add_one v]
      have hv := le_antisymm (hr ▸ roundAwayFromZero_mono h) (le_roundAwayFromZero hl.le)
      push_cast at hl
      have he := compare_eq_of_between hl h hc
      rw [ceil, hv]
      push_cast
      rw [if_pos he, hw]

end

end PrecisionTolerances

end Rebalancer
