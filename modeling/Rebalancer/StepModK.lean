import Rebalancer.ExpressionNodes

namespace Rebalancer
open PrecisionTolerances Int

section
variable (t : PrecisionTolerances)

def stepModK (k : Nat) (expr : ℚ) : Except String ℚ :=
  if k = 0 then .error "step_mod_k with k=0 is not supported"
  else if k = 1 then .ok expr
  else
    let quotient := expr / k
    let nextInt := Transform.ceil.performTransform t quotient
    .ok (Transform.step.performTransform t (nextInt - quotient))

/-- The remainder of a division rounded towards zero, of values that are not negative. -/
def fmod (v k : ℚ) : ℚ := v - k * ⌊v / k⌋

/-- The step-modulo transform of `GroupScopeItemTransformUtil`. -/
def stepOfRemainder (k : Nat) (v : ℚ) : ℚ :=
  if t.isStrictlyGtZero (fmod v k) then 1 else 0

/-- The quotient is neither taken for the integer below it nor for the one above. -/
def Distinguishes (k v : Nat) : Prop :=
  let fraction : ℚ := (v % k : Nat) / k
  t.isStrictlyGtZero (1 - fraction) = true ∧
    ¬ (fraction < 1 / 2 ∧ t.compare (v / k) (v / k : Nat) = .eq)

end

namespace PrecisionTolerances
variable {t : PrecisionTolerances}

theorem ceil_add_fraction (w : Nat) (hf : 0 < f) (hf1 : f < 1) : t.ceil (w + f) =
    if f < 1 / 2 ∧ t.compare (w + f) w = .eq then (w : ℚ) else w + 1 := by
  have hc : ⌈(w : ℚ) + f⌉ = w + 1 := by
    rw [ceil_eq_iff]
    push_cast
    constructor <;> linarith
  have hr : roundAwayFromZero (w + f) = if f < 1 / 2 then (w : ℤ) else w + 1 := by
    rw [roundAwayFromZero, if_pos (add_nonneg w.cast_nonneg hf.le), floor_eq_iff]
    split <;> push_cast <;> constructor <;> linarith
  rw [ceil, hr, hc]
  by_cases hlt : f < 1 / 2
  · simp only [hlt, if_true, true_and, cast_natCast, cast_add, cast_one]
  · simp only [hlt, if_false, false_and, ite_self, cast_natCast, cast_add, cast_one]

theorem isStrictlyGtZero_of_nonpos (h : v ≤ 0) : t.isStrictlyGtZero v = false := by
  apply Bool.eq_false_iff.mpr
  intro hv
  exact h.not_gt (compare_gt (eq_of_beq hv))

end PrecisionTolerances

theorem fmod_natCast (v k : Nat) : fmod v k = (v % k : Nat) := by
  rw [fmod, Rat.floor_natCast_div_natCast, ← natCast_div, cast_natCast, sub_eq_iff_eq_add]
  exact_mod_cast (Nat.mod_add_div v k).symm

section
variable {t : PrecisionTolerances} {k v : Nat} (hk : 1 ≤ k)
include hk

theorem div_eq_add_mod : (v : ℚ) / k = (v / k : Nat) + (v % k : Nat) / k := by
  have hk' : (k : ℚ) ≠ 0 := Nat.cast_ne_zero.mpr (by omega)
  rw [div_eq_iff hk', add_mul, div_mul_cancel₀ _ hk']
  exact_mod_cast (Nat.div_add_mod' v k).symm

theorem stepModK_eq_iff (v : Nat) : stepModK t k v = .ok (if v % k = 0 then 0 else 1) ↔
    (k = 1 → v = 0) ∧ (v % k ≠ 0 → Distinguishes t k v) := by
  rcases (by omega : k = 1 ∨ 2 ≤ k) with rfl | hk2
  · simp [stepModK, Nat.mod_one]
  · have h1 : k ≠ 1 := by omega
    have hk' : (0 : ℚ) < k := by exact_mod_cast hk
    have hq := div_eq_add_mod (v := v) hk
    simp only [stepModK, if_neg (by omega : k ≠ 0), h1, if_false, false_imp_iff, true_and,
      Except.ok.injEq, Transform.performTransform]
    by_cases hd : v % k = 0
    · have hle := ceil_le t ((v / k : Nat) : ℚ)
      rw [ceil_natCast, cast_natCast] at hle
      rw [hd, Nat.cast_zero, zero_div, add_zero] at hq
      have hn : t.ceil ((v / k : Nat) : ℚ) - (v / k : Nat) ≤ 0 := by linarith
      simp [hq, isStrictlyGtZero_of_nonpos hn, hd]
    · have hp : (0 : ℚ) < (v % k : Nat) / k := div_pos (by exact_mod_cast Nat.pos_of_ne_zero hd) hk'
      have hr : ((v % k : Nat) : ℚ) / k < 1 := by
        rw [div_lt_one hk']
        exact_mod_cast Nat.mod_lt v hk
      simp only [Distinguishes, hq, ceil_add_fraction _ hp hr, ne_eq, hd, not_false_eq_true,
        true_imp_iff]
      split
      · rename_i ha
        rw [isStrictlyGtZero_of_nonpos (by linarith)]
        exact iff_of_false (by simp) (fun h => h.2 ha)
      · rename_i ha
        rw [and_iff_left ha]
        simp

end

structure BundleUtil where
  precision : PrecisionTolerances
  scopeItemIds : List ScopeItemId
  containerIds : ScopeItemId → List ContainerId
  contributionGroupIds : List GroupId
  objectIds : GroupId → Finset ObjectId
  bundleSize : ScopeItemId → Nat
  positive : ∀ s, 1 ≤ bundleSize s
  initialAssignment : Assignment

namespace BundleUtil
variable (c : BundleUtil) (multiplier : ScopeItemId → GroupId → ℚ) (a : Assignment)

def afterCount (g : GroupId) (s : ScopeItemId) : Nat :=
  {o ∈ c.objectIds g | a o ∈ c.containerIds s}.card

def duringCount (g : GroupId) (s : ScopeItemId) : Nat :=
  {o ∈ c.objectIds g | c.initialAssignment o ∈ c.containerIds s ∨ a o ∈ c.containerIds s}.card

def pairs : List (GroupId × ScopeItemId) := c.contributionGroupIds.product c.scopeItemIds

def getAfterUtilForMainGroup : ℚ := (c.pairs.map fun p => multiplier p.2 p.1 *
    stepOfRemainder c.precision (c.bundleSize p.2) (c.afterCount a p.1 p.2)).sum

def getDuringUtilForMainGroup : Except String ℚ := do
  let utils ← c.pairs.mapM fun p => do
    let util ← stepModK c.precision (c.bundleSize p.2) (c.duringCount a p.1 p.2)
    .ok (util * multiplier p.2 p.1)
  .ok utils.sum

/-- Every expression is the step of the remainder, so that without moves both utilisations agree. -/
def Agrees : Prop :=
  (∀ p ∈ c.pairs, stepModK c.precision (c.bundleSize p.2) (c.duringCount a p.1 p.2) =
    .ok (if c.duringCount a p.1 p.2 % c.bundleSize p.2 = 0 then 0 else 1)) ∧
  (a = c.initialAssignment → ∀ multiplier,
    c.getDuringUtilForMainGroup multiplier a = .ok (c.getAfterUtilForMainGroup multiplier a))

variable {c a}

theorem stepOfRemainder_eq (h : v % k ≠ 0 → Distinguishes t k v) :
    stepOfRemainder t k v = if v % k = 0 then 0 else 1 := by
  rw [stepOfRemainder, fmod_natCast]
  by_cases hd : v % k = 0
  · rw [hd, Nat.cast_zero, isStrictlyGtZero_zero]
    rfl
  · rw [if_neg hd, if_pos]
    apply isStrictlyGtZero_mono _ (h hd).1
    have h1 : (1 : ℚ) ≤ (v % k : Nat) := by exact_mod_cast Nat.one_le_iff_ne_zero.mpr hd
    exact (sub_le_self _ (by positivity)).trans h1

/-- Agreement fails for bundles of one object, and where the tolerance hides a remainder. -/
theorem agrees_iff : c.Agrees a ↔ ∀ p ∈ c.pairs,
    (c.bundleSize p.2 = 1 → c.duringCount a p.1 p.2 = 0) ∧
    (c.duringCount a p.1 p.2 % c.bundleSize p.2 ≠ 0 →
      Distinguishes c.precision (c.bundleSize p.2) (c.duringCount a p.1 p.2)) := by
  simp only [Agrees, stepModK_eq_iff (c.positive _)]
  apply and_iff_left_of_imp
  rintro h rfl multiplier
  have hc : c.duringCount c.initialAssignment = c.afterCount c.initialAssignment := by
    funext g s
    rw [duringCount, afterCount]
    simp only [or_self]
  rw [getDuringUtilForMainGroup, mapM_ok (k := fun p => multiplier p.2 p.1 *
    stepOfRemainder c.precision (c.bundleSize p.2) (c.afterCount c.initialAssignment p.1 p.2))]
  · rfl
  · intro p hp
    rw [(stepModK_eq_iff (c.positive p.2) _).mpr (h p hp), ← hc,
      stepOfRemainder_eq (h p hp).2, mul_comm]
    rfl

def single : BundleUtil :=
  ⟨defaultTolerances, [0], fun _ => [0], [0], fun _ => {0}, fun _ => 1, fun _ => le_rfl, fun _ => 0⟩

theorem single_differs :
    single.getDuringUtilForMainGroup (fun _ _ => 1) single.initialAssignment = .ok 1 ∧
    single.getAfterUtilForMainGroup (fun _ _ => 1) single.initialAssignment = 0 := by
  decide +kernel

end BundleUtil

end Rebalancer
