import Rebalancer.BoundsSound

namespace Rebalancer
open List

/-- What the encodings ask of a child; `isInteger` may miss a child that is one. -/
structure ChildInfo extends Bounds where
  isInteger : Bool

namespace ChildInfo
variable (c : ChildInfo)

def isBinary : Bool :=
  c.isInteger && decide (0 ≤ c.lowerBound ∧ c.lowerBound ≤ 1 ∧ 0 ≤ c.upperBound ∧ c.upperBound ≤ 1)

structure Takes (v : ℚ) : Prop where
  contains : c.toBounds.Contains v
  integer : c.isInteger = true → ∃ n : ℤ, v = n

variable {c}

theorem Takes.binary (h : Takes c v) (hb : c.isBinary = true) : v = 0 ∨ v = 1 := by
  simp only [isBinary, Bool.and_eq_true, decide_eq_true_eq] at hb
  obtain ⟨n, rfl⟩ := h.integer hb.1
  have hl := hb.2.1.trans h.contains.1
  have hu := h.contains.2.trans hb.2.2.2.2
  norm_cast at hl hu ⊢
  omega

end ChildInfo

structure LpChildren where
  info : ExprId → ChildInfo
  value : ExprId → ℚ
  takes : ∀ c, (info c).Takes (value c)

namespace LpChildren
variable (e : LpChildren)

def productRows (lhs rhs : ExprId) : Set ℚ :=
  let x := e.value lhs
  let y := e.value rhs
  if (e.info rhs).isBinary then {z | (z = 0 ∨ z = 1) ∧ z ≤ x ∧ z ≤ y ∧ 0 ≤ z ∧ x + y - 1 ≤ z}
  else
    let lb := (e.info rhs).lowerBound
    let ub := (e.info rhs).upperBound
    let c := max (ub - lb) (max ub (-lb))
    {z | -c * x ≤ z ∧ y - c * (1 - x) ≤ z ∧ z ≤ c * x ∧ z ≤ y + c * (1 - x)}

/-- The values that the expression of `ProductOperation::lp` can have. -/
def productLp (child1st child2nd : ExprId) : Except String (Set ℚ) :=
  if child1st = child2nd then .error "Binary operation must have exactly 2 children"
  else if (e.info child1st).isBinary then .ok (e.productRows child1st child2nd)
  else if (e.info child2nd).isBinary then .ok (e.productRows child2nd child1st)
  else .error "At least one of the operands must be a binary variable"

variable {e}

theorem productRows_eq (h : (e.info lhs).isBinary = true) :
    e.productRows lhs rhs = {e.value lhs * e.value rhs} := by
  obtain ⟨hl, hu⟩ := (e.takes rhs).contains
  rw [productRows]
  ext z
  rw [Set.mem_singleton_iff]
  split_ifs with hb
  · rcases (e.takes lhs).binary h with hx | hx <;> rcases (e.takes rhs).binary hb with hy | hy <;>
      rw [hx, hy] <;> constructor
    all_goals first
      | rintro ⟨-, h₁, h₂, h₃, h₄⟩
        linarith
      | rintro rfl
        norm_num
  · have hc := le_max_right ((e.info rhs).upperBound - (e.info rhs).lowerBound)
      (max (e.info rhs).upperBound (-(e.info rhs).lowerBound))
    have h₁ := (le_max_left _ _).trans hc
    have h₂ := (le_max_right _ _).trans hc
    simp only [Set.mem_ofPred_eq]
    generalize max ((e.info rhs).upperBound - _) _ = c at h₁ h₂
    rcases (e.takes lhs).binary h with hx | hx <;> rw [hx] <;> constructor
    · rintro ⟨h, -, h', -⟩
      linarith
    · rintro rfl
      refine ⟨?_, ?_, ?_, ?_⟩ <;> linarith
    · rintro ⟨-, h, -, h'⟩
      linarith
    · rintro rfl
      refine ⟨?_, ?_, ?_, ?_⟩ <;> linarith

/-- The rows of a product, where it has any, allow its value only. -/
theorem productLp_eq (h : e.productLp child1st child2nd = .ok values) :
    values = {e.value child1st * e.value child2nd} := by
  rw [productLp] at h
  split_ifs at h with hc h₁ h₂
  · cases h
    exact productRows_eq h₁
  · cases h
    rw [productRows_eq h₂, mul_comm]

def binaryFirst : LpChildren where
  info c := if c = 0 then ⟨⟨0, 1⟩, true⟩ else ⟨⟨-5, -3⟩, false⟩
  value c := if c = 0 then 1 else -4
  takes c := by
    by_cases hc : c = 0
    · simp only [hc, if_true]
      exact ⟨⟨zero_le_one, le_refl 1⟩, fun _ => ⟨1, rfl⟩⟩
    · simp only [hc, if_false]
      exact ⟨⟨by norm_num, by norm_num⟩, nofun⟩

theorem binaryFirst_product : ∃ values, binaryFirst.productLp 0 1 = .ok values ∧
    values = {binaryFirst.value 0 * binaryFirst.value 1} :=
  ⟨_, rfl, productLp_eq (rfl : binaryFirst.productLp 0 1 = _)⟩

end LpChildren

namespace SumOverThreshold
variable (s : SumOverThreshold) (e : LpChildren) (minimizing : Bool)

def row (child : ExprId) : Set ℚ :=
  let x := e.value child
  let threshold := e.value s.threshold
  let ub := max 0 ((e.info child).upperBound - (e.info s.threshold).lowerBound)
  let lb := min 0 ((e.info child).lowerBound - (e.info s.threshold).upperBound)
  {y | 0 ≤ y ∧ x - threshold ≤ y ∧ (minimizing = false → ∃ z : ℚ, (z = 0 ∨ z = 1) ∧
    y ≤ z * ub ∧ y ≤ x - threshold + (1 - z) * -lb)}

def lp : Except String (Set ℚ) :=
  if s.squares then .error "SumOverThreshold with squares is not supported yet when using lp()"
  else .ok {v | ∃ y : ExprId → ℚ, (∀ c ∈ s.summands, y c ∈ s.row e minimizing c) ∧
    v = (s.summands.map y).sum}

variable {s e}

theorem row_exact : s.row e false c = {max 0 (e.value c - e.value s.threshold)} := by
  obtain ⟨hl, hu⟩ := (e.takes c).contains
  obtain ⟨hl', hu'⟩ := (e.takes s.threshold).contains
  have hub := sub_le_sub hu hl'
  have hlb := sub_le_sub hl hu'
  ext y
  rw [Set.mem_singleton_iff]
  constructor
  · rintro ⟨h0, h, hz⟩
    apply le_antisymm _ (max_le h0 h)
    obtain ⟨z, rfl | rfl, h₁, h₂⟩ := hz rfl
    · exact le_max_of_le_left (by linarith)
    · exact le_max_of_le_right (by linarith)
  · rintro rfl
    refine ⟨le_max_left _ _, le_max_right _ _, fun _ => ?_⟩
    rcases le_total (e.value c - e.value s.threshold) 0 with hn | hp
    · rw [max_eq_left hn]
      refine ⟨0, .inl rfl, by rw [zero_mul], ?_⟩
      linarith [min_le_right 0 ((e.info c).lowerBound - (e.info s.threshold).upperBound)]
    · rw [max_eq_right hp]
      refine ⟨1, .inr rfl, ?_, by linarith⟩
      rw [one_mul]
      exact hub.trans (le_max_right _ _)

theorem row_least : IsLeast (s.row e true c) (max 0 (e.value c - e.value s.threshold)) :=
  ⟨⟨le_max_left _ _, le_max_right _ _, nofun⟩, fun _ hy => max_le hy.1 hy.2.1⟩

/-- The rows allow the sum over the threshold only; minimizing, it is the least allowed one. -/
theorem lp_eq_sum (s : SumOverThreshold) (e : LpChildren) (hs : s.squares = false) :
    let sum := (s.summands.map fun c => max 0 (e.value c - e.value s.threshold)).sum
    s.lp e false = .ok {sum} ∧ ∃ values, s.lp e true = .ok values ∧ IsLeast values sum := by
  simp only [lp, hs, Bool.false_eq_true, if_false, Except.ok.injEq, exists_eq_left']
  constructor
  · ext v
    simp only [row_exact, Set.mem_singleton_iff]
    constructor
    · rintro ⟨y, hy, rfl⟩
      rw [map_congr_left hy]
    · rintro rfl
      exact ⟨_, fun _ _ => rfl, rfl⟩
  · refine ⟨⟨_, fun _ _ => row_least.1, rfl⟩, ?_⟩
    rintro v ⟨y, hy, rfl⟩
    exact sum_le_sum fun c hc => row_least.2 (hy c hc)

theorem lp_eq_sum_binaryFirst :
    (SumOverThreshold.mk 1 ⟨[0, 2], by decide⟩ false).lp .binaryFirst false = .ok {5} := by
  rw [(lp_eq_sum ⟨1, ⟨[0, 2], by decide⟩, false⟩ .binaryFirst rfl).1]
  congr 2
  decide +kernel

end SumOverThreshold

section
variable (t : PrecisionTolerances) (integerTolerance : ℚ) (supportsIndicatorConstraints : Bool)
  (info : ChildInfo)

def scaledBound (v : ℚ) : ℚ := (if 0 ≤ v then v * 2 else v / 2) + t.absolute

def ChildInfo.smallestPositiveValue (tolerance : ℚ) : ℚ := if info.isInteger then 1 else tolerance

/-- The values that the expression of `Step::encodeLp` can have. -/
def stepLp (child : ℚ) (minimizing : Bool) : Set ℚ :=
  let ub := scaledBound t info.upperBound
  if t.compare ub t.absolute ≠ .gt then {v | child ≤ t.absolute ∧ v = 0}
  else if t.isStrictlyGtZero info.lowerBound then {v | -t.absolute ≤ child ∧ v = 1}
  else if supportsIndicatorConstraints then
    {v | v = 1 ∧ info.smallestPositiveValue t.absolute ≤ child ∨ v = 0 ∧ child ≤ 0}
  else {v | (v = 0 ∨ v = 1) ∧ child ≤ ub * v ∧ (minimizing = false →
    (info.lowerBound - 1) * (1 - v) + info.smallestPositiveValue (2 * integerTolerance) ≤ child)}

variable {t info integerTolerance supportsIndicatorConstraints} {n : ℤ}

theorem ChildInfo.smallestPositiveValue_spec (h : 0 < w) (h' : w ≤ 1) :
    0 < info.smallestPositiveValue w ∧ info.smallestPositiveValue w ≤ 1 := by
  rw [smallestPositiveValue]
  split_ifs
  · exact ⟨one_pos, le_rfl⟩
  · exact ⟨h, h'⟩

theorem pos_of_isStrictlyGtZero (h : t.isStrictlyGtZero w = true) : 0 < w := by
  rw [PrecisionTolerances.isStrictlyGtZero, beq_iff_eq] at h
  exact PrecisionTolerances.compare_gt h

theorem nonpos_of_scaledBound (ha : 0 < t.absolute) (ha' : t.absolute ≤ 1) (hr : t.relative ≤ 1)
    (hn : n ≤ info.upperBound) (h : t.compare (scaledBound t info.upperBound) t.absolute ≠ .gt) :
    n ≤ 0 := by
  by_contra hp
  have h1 : (1 : ℚ) ≤ n := by exact_mod_cast not_le.mp hp
  have h0 : 0 < info.upperBound * 2 := by linarith
  apply h
  rw [scaledBound, if_pos (by linarith), PrecisionTolerances.compare, add_sub_cancel_right,
    abs_of_pos h0, if_neg (by linarith), if_neg, if_pos h0]
  rintro ⟨-, hlt⟩
  rw [abs_of_pos ha, abs_of_pos (by linarith), div_lt_iff₀ (by linarith)] at hlt
  nlinarith

structure SeparatesIntegers (t : PrecisionTolerances) (integerTolerance : ℚ) : Prop where
  absolute_pos : 0 < t.absolute
  absolute_le : t.absolute ≤ 1
  relative_le : t.relative ≤ 1
  integer_pos : 0 < 2 * integerTolerance
  integer_le : 2 * integerTolerance ≤ 1

namespace SeparatesIntegers
variable (h : SeparatesIntegers t integerTolerance) (hc : info.toBounds.Contains n)
include h hc

theorem mem_stepLp (b : Bool) :
    (if 0 < n then 1 else 0) ∈ stepLp t integerTolerance supportsIndicatorConstraints info n b := by
  have hs := (info.smallestPositiveValue_spec h.integer_pos h.integer_le).2
  rw [stepLp]
  rcases lt_or_ge 0 n with hn | hn
  · have h1 : (1 : ℚ) ≤ n := by exact_mod_cast hn
    rw [if_pos hn, if_neg fun hz => not_le.mpr hn (nonpos_of_scaledBound h.1 h.2 h.3 hc.2 hz)]
    split_ifs
    · exact ⟨by linarith [h.1], rfl⟩
    · exact .inl ⟨rfl, (info.smallestPositiveValue_spec h.1 h.2).2.trans h1⟩
    · refine ⟨.inr rfl, ?_, fun _ => by linarith⟩
      rw [scaledBound, if_pos (by linarith [hc.2])]
      linarith [hc.2, h.1]
  · have h0 : (n : ℚ) ≤ 0 := by exact_mod_cast hn
    rw [if_neg (not_lt.mpr hn)]
    split_ifs with hz hl
    · exact ⟨h0.trans h.1.le, rfl⟩
    · linarith [pos_of_isStrictlyGtZero hl, hc.1]
    · exact .inr ⟨rfl, h0⟩
    · exact ⟨.inl rfl, by linarith, fun _ => by linarith [hc.1]⟩

theorem of_mem_stepLp (hv : v ∈ stepLp t integerTolerance supportsIndicatorConstraints info n b) :
    0 < n ∧ v = 1 ∨ n ≤ 0 ∧ v = 0 ∨ n ≤ 0 ∧ v = 1 ∧ b = true := by
  have hs := (info.smallestPositiveValue_spec h.integer_pos h.integer_le).1
  rw [stepLp] at hv
  split_ifs at hv with hz hl hi
  · exact .inr (.inl ⟨nonpos_of_scaledBound h.1 h.2 h.3 hc.2 hz, hv.2⟩)
  · have := (pos_of_isStrictlyGtZero hl).trans_le hc.1
    exact .inl ⟨by exact_mod_cast this, hv.2⟩
  · rcases hv with ⟨rfl, hn⟩ | ⟨rfl, hn⟩
    · have := (info.smallestPositiveValue_spec h.1 h.2).1.trans_le hn
      exact .inl ⟨by exact_mod_cast this, rfl⟩
    · exact .inr (.inl ⟨by exact_mod_cast hn, rfl⟩)
  · obtain ⟨rfl | rfl, hn, hb⟩ := hv
    · rw [mul_zero] at hn
      exact .inr (.inl ⟨by exact_mod_cast hn, rfl⟩)
    · rcases lt_or_ge 0 n with hn | hn
      · exact .inl ⟨hn, rfl⟩
      · cases b
        · have h0 : (n : ℚ) ≤ 0 := by exact_mod_cast hn
          linarith [hb rfl]
        · exact .inr (.inr ⟨hn, rfl, rfl⟩)

end SeparatesIntegers

/-- The rows of a step allow its value only; minimizing, it is the least allowed one. -/
theorem stepLp_eq (n : ℤ) (hc : info.toBounds.Contains n)
    (h : SeparatesIntegers t integerTolerance) :
    let step : ℚ := if 0 < n then 1 else 0
    let lp := stepLp t integerTolerance supportsIndicatorConstraints info n
    lp false = {step} ∧ IsLeast (lp true) step := by
  refine ⟨Set.eq_singleton_iff_unique_mem.mpr ⟨h.mem_stepLp hc _, fun v hv => ?_⟩,
    h.mem_stepLp hc _, fun v hv => ?_⟩
  · rcases h.of_mem_stepLp hc hv with ⟨hn, hv⟩ | ⟨hn, hv⟩ | ⟨_, _, hb⟩
    · rw [if_pos hn, hv]
    · rw [if_neg (not_lt.mpr hn), hv]
    · cases hb
  · rcases h.of_mem_stepLp hc hv with ⟨hn, hv⟩ | ⟨hn, hv⟩ | ⟨hn, hv, _⟩
    · rw [if_pos hn, hv]
    · rw [if_neg (not_lt.mpr hn), hv]
    · rw [if_neg (not_lt.mpr hn), hv]
      exact zero_le_one

theorem stepLp_eq_three :
    stepLp defaultTolerances (1 / 10 ^ 5) false ⟨⟨-2, 7⟩, false⟩ (3 : ℤ) false = {1} :=
  (stepLp_eq 3 ⟨by norm_num, by norm_num⟩ ⟨by decide +kernel, by decide +kernel, by decide +kernel,
    by norm_num, by norm_num⟩).1

theorem stepLp_large_tolerance :
    stepLp ⟨3, 1⟩ (1 / 10 ^ 5) false ⟨⟨0, 1⟩, true⟩ (1 : ℤ) false = {0} := by
  rw [stepLp, if_pos (by decide +kernel)]
  norm_num

end

end Rebalancer
