import Rebalancer.BoundsSound
import Rebalancer.LookupValue

namespace Rebalancer
open List ObjectPartition
open Finset hiding map_map mem_map mem_range mem_singleton sum_eq_zero

theorem sum_le_of_kept {w b : ι → ℚ} (hD : D ⊆ C) (hC : C ⊆ R) (hb : ∀ i, 0 ≤ b i)
    (hw : ∀ i ∈ C, w i ≤ b i) : ∑ i ∈ C, w i ≤ ∑ i ∈ R, b i + ∑ i ∈ D, min 0 (w i) := by
  classical
  have hr : ∑ i ∈ C, b i ≤ ∑ i ∈ R, b i := sum_le_sum_of_subset_of_nonneg hC fun i _ _ => hb i
  have hother : ∑ i ∈ C \ D, w i ≤ ∑ i ∈ C \ D, b i :=
    sum_le_sum fun i hi => hw i (mem_sdiff.mp hi).1
  have hk : ∑ i ∈ D, w i ≤ ∑ i ∈ D, b i + ∑ i ∈ D, min 0 (w i) := by
    rw [← sum_add_distrib]
    apply Finset.sum_le_sum
    intro i hi
    rcases le_total 0 (w i) with h | h
    · rw [min_eq_left h, add_zero]
      exact hw i (hD hi)
    · rw [min_eq_right h]
      exact le_add_of_nonneg_left (hb i)
  rw [← sum_sdiff hD] at hr ⊢
  linarith

namespace ObjectPartition
variable {u : Universe partitions}

section
variable (p : ObjectPartition u)

def scannedWeights (o : ObjectId) : List ℚ :=
  match p.scopeItemIds with
  | some ⟨s :: ids, _⟩ =>
    (s :: ids).map fun s => (u.dimension p.dimensionId).getValue o (some s)
  | _ => [(u.dimension p.dimensionId).getValue o none]

def groupsWithObjects : Finset GroupId :=
  ((List.range u.numObjects).flatMap p.getObjectGroups).toFinset

def totalPositiveWeight (g : GroupId) : ℚ := ∑ o ∈ range u.numObjects,
    max 0 (maxOf (p.scannedWeights o)) * (p.getObjectGroups o).count g

def totalNegativeWeight (g : GroupId) : ℚ := ∑ o ∈ range u.numObjects,
    min 0 (minOf (p.scannedWeights o)) * (p.getObjectGroups o).count g

end

theorem mem_groupsWithObjects {p : ObjectPartition u} :
    g ∈ p.groupsWithObjects ↔ ∃ o, g ∈ p.getObjectGroups o := by
  rw [groupsWithObjects, mem_toFinset, mem_flatMap]
  apply exists_congr
  intro o
  rw [mem_range]
  exact and_iff_right_of_imp lt_of_mem_getObjectGroups

end ObjectPartition

namespace ObjectPartitionLookup
variable {u : Universe partitions}

section
variable (l : ObjectPartitionLookup u)

def duringWeight (o : ObjectId) : ℚ :=
  (u.dimension l.objectPartition.dimensionId).getValue o (some l.scopeItemId)

section
variable (g : GroupId)

def duringPositiveWeight : ℚ := ∑ o ∈ l.initialDuringObjects.elems.toFinset,
    max 0 (l.duringWeight o) * (l.objectPartition.getObjectGroups o).count g

def duringNegativeWeight : ℚ := ∑ o ∈ l.initialDuringObjects.elems.toFinset,
    min 0 (l.duringWeight o) * (l.objectPartition.getObjectGroups o).count g

def greatestWeight : ℚ := l.objectPartition.totalPositiveWeight g + l.duringNegativeWeight g

def leastWeight : ℚ := l.objectPartition.totalNegativeWeight g + l.duringPositiveWeight g

def getMaxAndMinNormalizedDeviationsFromLimit : ℚ × ℚ :=
  ((l.greatestWeight g - l.limitOf g) * l.objectPartition.coefficientOf g,
    (l.leastWeight g - l.limitOf g) * l.objectPartition.coefficientOf g)

def scopeMatchesDimensionScope : Bool :=
  match u.dimension l.objectPartition.dimensionId with
  | .static _ => true
  | .dynamic dimensionScopeId _ _ => decide (dimensionScopeId = l.scopeId)

/-- The deviations that the partition stores are recomputed for groups with during objects or with
a limit of the lookup's own. -/
def maxAndMinDeviations : ℚ × ℚ :=
  let p := l.objectPartition
  if (∃ o ∈ l.initialDuringObjects.elems, g ∈ p.getObjectGroups o) ∨
      (l.groupLimitOverrides.get? g).isSome ∨ l.defaultGroupLimitOverride.isSome then
    l.getMaxAndMinNormalizedDeviationsFromLimit g
  else
    let limit := (p.groupLimits.get? g).getD p.defaultGroupLimit
    ((p.totalPositiveWeight g - limit) * p.coefficientOf g,
      (p.totalNegativeWeight g - limit) * p.coefficientOf g)

def groupBounds : Bounds :=
  let (maxDeviation, minDeviation) := l.maxAndMinDeviations g
  match l.bound with
  | .max => ⟨l.computePenalty minDeviation, l.computePenalty maxDeviation⟩
  | .min => ⟨l.computePenalty maxDeviation, l.computePenalty minDeviation⟩

end

def getBounds : Except String Bounds := do
  let groups := l.objectPartition.groupsWithObjects
  let penalties ← (l.groupLimitOverrides.entries.filter fun e => e.1 ∉ groups).mapM fun e =>
    l.getGroupPenalty 0 e.1
  .ok ⟨∑ g ∈ groups, (l.groupBounds g).lowerBound + penalties.sum,
    ∑ g ∈ groups, (l.groupBounds g).upperBound + penalties.sum⟩

def bestWeight (g : GroupId) : ℚ :=
  match l.bound with
  | .max => l.leastWeight g
  | .min => l.greatestWeight g

def worstWeight (g : GroupId) : ℚ :=
  match l.bound with
  | .max => l.greatestWeight g
  | .min => l.leastWeight g

def boundedGroups : Finset GroupId :=
  l.objectPartition.groupsWithObjects ∪ (l.groupLimitOverrides.entries.map Prod.fst).toFinset

def Permanent (g : GroupId) : Prop :=
  g ∈ l.initialGroups ∨ ∃ o ∈ l.initialDuringObjects, g ∈ l.objectPartition.getObjectGroups o

def Scanned : Prop := ∀ c ∈ l.lookupContainers, l.getDimensionScopeItemId c = none → ∀ o,
    let default := (u.dimension l.objectPartition.dimensionId).getValue o none
    minOf (l.objectPartition.scannedWeights o) ≤ default ∧
      default ≤ maxOf (l.objectPartition.scannedWeights o)

/-- A group that cannot meet its limit always has an entry, and no group is allowed. -/
def LowerSound : Prop :=
  ∀ g ∈ l.boundedGroups, 0 < l.penaltyOf (l.bestWeight g) g → l.groupsAllowed = 0 ∧ l.Permanent g

/-- A group that has a limit of the partition only, and no objects, has no penalty. -/
def UpperSound : Prop := ∀ g ∈ l.initialGroups, g ∉ l.boundedGroups → l.penaltyOf 0 g = 0

end

variable {l : ObjectPartitionLookup u} {g : GroupId}

theorem maxAndMinDeviations_eq :
    l.maxAndMinDeviations g = l.getMaxAndMinNormalizedDeviationsFromLimit g := by
  rw [maxAndMinDeviations]
  split_ifs with h
  · rfl
  · obtain ⟨hduring, h⟩ := not_or.mp h
    obtain ⟨hover, hd⟩ := not_or.mp h
    have hc : ∀ o ∈ l.initialDuringObjects.elems.toFinset,
        (l.objectPartition.getObjectGroups o).count g = 0 := by
      intro o ho
      apply count_eq_zero_of_not_mem
      intro hg
      exact hduring ⟨o, mem_toFinset.mp ho, hg⟩
    have hzero : ∀ w : ObjectId → ℚ, ∑ o ∈ l.initialDuringObjects.elems.toFinset,
        w o * (l.objectPartition.getObjectGroups o).count g = 0 := by
      intro w
      apply Finset.sum_eq_zero
      intro o ho
      rw [hc o ho, Nat.cast_zero, mul_zero]
    rw [Option.not_isSome_iff_eq_none] at hover hd
    simp [getMaxAndMinNormalizedDeviationsFromLimit, greatestWeight, leastWeight,
      duringPositiveWeight, duringNegativeWeight, hzero, limitOf, hover, hd]

theorem groupBounds_eq (hg : l.objectPartition.partitionInfo.isRelevant g = true) :
    l.groupBounds g = ⟨l.penaltyOf (l.bestWeight g) g, l.penaltyOf (l.worstWeight g) g⟩ := by
  rw [groupBounds, maxAndMinDeviations_eq, penaltyOf_of_relevant hg, penaltyOf_of_relevant hg,
    bestWeight, worstWeight]
  cases l.bound with
  | max => rfl
  | min => rfl

theorem groupsWithObjects_relevant (h : g ∈ l.objectPartition.groupsWithObjects) :
    l.objectPartition.partitionInfo.isRelevant g = true := by
  obtain ⟨o, ho⟩ := mem_groupsWithObjects.mp h
  exact getObjectGroups_relevant ho

section
variable (h : g ∉ l.objectPartition.groupsWithObjects)
include h

theorem count_eq_zero (o : ObjectId) : (l.objectPartition.getObjectGroups o).count g = 0 := by
  apply count_eq_zero_of_not_mem
  intro hg
  exact h (mem_groupsWithObjects.mpr ⟨o, hg⟩)

theorem extremeWeights_of_empty : l.bestWeight g = 0 ∧ l.worstWeight g = 0 := by
  have hl : l.leastWeight g = 0 := by
    simp [leastWeight, totalNegativeWeight, duringPositiveWeight, count_eq_zero h]
  have hg : l.greatestWeight g = 0 := by
    simp [greatestWeight, totalPositiveWeight, duringNegativeWeight, count_eq_zero h]
  rw [bestWeight, worstWeight]
  cases l.bound with
  | max => exact ⟨hl, hg⟩
  | min => exact ⟨hg, hl⟩

theorem groupWeight_of_empty (a : Assignment) : l.groupWeight a g = 0 := by
  apply sum_eq_zero
  intro x hx
  obtain ⟨o, -, rfl⟩ := mem_map.mp hx
  rw [count_eq_zero h o, Nat.cast_zero, mul_zero]

theorem initial_of_entered (hg : g ∈ l.entered a) : g ∈ l.initialGroups := by
  refine (mem_entered.mp hg).resolve_right ?_
  rintro ⟨o, -, ho⟩
  exact h (mem_groupsWithObjects.mpr ⟨o, ho⟩)

end

theorem sum_boundedGroups {p : GroupId → ℚ} :
    ∑ g ∈ l.boundedGroups, p g = ∑ g ∈ l.objectPartition.groupsWithObjects, p g +
      ((l.groupLimitOverrides.entries.filter fun e =>
        e.1 ∉ l.objectPartition.groupsWithObjects).map fun e => p e.1).sum := by
  have hnodup := (filter_sublist (p := fun e => decide
    (e.1 ∉ l.objectPartition.groupsWithObjects)).map Prod.fst).nodup l.groupLimitOverrides.nodup
  have hl := sum_toFinset p hnodup
  rw [map_map] at hl
  apply Eq.trans _ (congrArg _ hl)
  rw [boundedGroups, ← Finset.union_sdiff_self_eq_union, Finset.sum_union Finset.disjoint_sdiff]
  congr 2
  ext g
  simp only [Finset.mem_sdiff, mem_toFinset, mem_map, mem_filter, decide_eq_true_eq]
  constructor
  · rintro ⟨⟨e, he, rfl⟩, hn⟩
    exact ⟨e, ⟨he, hn⟩, rfl⟩
  · rintro ⟨e, ⟨he, hn⟩, rfl⟩
    exact ⟨⟨e, he, rfl⟩, hn⟩

theorem getBounds_eq (h : l.getBounds = .ok b) :
    b = ⟨∑ g ∈ l.boundedGroups, l.penaltyOf (l.bestWeight g) g,
      ∑ g ∈ l.boundedGroups, l.penaltyOf (l.worstWeight g) g⟩ := by
  obtain ⟨penalties, hp, hb⟩ := except_bind_ok h
  obtain ⟨k, rfl, hk⟩ := exists_map_of_mapM_ok hp
  cases hb
  have hempty : ∀ e ∈ l.groupLimitOverrides.entries.filter
      (fun e => e.1 ∉ l.objectPartition.groupsWithObjects),
      l.penaltyOf (l.bestWeight e.1) e.1 = k e ∧ l.penaltyOf (l.worstWeight e.1) e.1 = k e := by
    intro e he
    obtain ⟨hbest, hw⟩ := extremeWeights_of_empty (of_decide_eq_true (mem_filter.mp he).2)
    rw [hbest, hw, penaltyOf, hk e he]
    exact ⟨rfl, rfl⟩
  rw [sum_boundedGroups, sum_boundedGroups, map_congr_left fun e he => (hempty e he).1,
    map_congr_left fun e he => (hempty e he).2]
  congr 2
  · exact sum_congr rfl fun g hg => by rw [groupBounds_eq (groupsWithObjects_relevant hg)]
  · exact sum_congr rfl fun g hg => by rw [groupBounds_eq (groupsWithObjects_relevant hg)]

theorem scopeMatches_during (h : l.scopeMatchesDimensionScope = true) (c : ContainerId) :
    l.getDimensionScopeItemId c = some l.scopeItemId := by
  rw [scopeMatchesDimensionScope] at h
  rw [getDimensionScopeItemId]
  cases hd : u.dimension l.objectPartition.dimensionId with
  | static s => rfl
  | dynamic i v d =>
    rw [hd] at h
    exact if_pos (of_decide_eq_true h)

theorem matches_of_during (ho : o ∈ l.initialDuringObjects) :
    l.scopeMatchesDimensionScope = true := by
  rw [scopeMatchesDimensionScope]
  cases hd : u.dimension l.objectPartition.dimensionId with
  | static scalars => rfl
  | dynamic s v d =>
    apply decide_eq_true
    by_contra hne
    have hn := l.duringScope s v d hd hne
    exact absurd (hn ▸ ho : o ∈ []) not_mem_nil

theorem getDimensionScopeItemId_during (ho : o ∈ l.initialDuringObjects) (c : ContainerId) :
    l.getDimensionScopeItemId c = some l.scopeItemId :=
  scopeMatches_during (matches_of_during ho) c

theorem lt_of_mem_contributingObjectIds (ho : o ∈ l.contributingObjectIds a) :
    o < u.numObjects := by
  rcases mem_contributingObjectIds.mp ho with h | h
  · exact l.duringInRange o h
  · exact h.1

theorem weightOf_scanned (hsc : l.Scanned) (ho : o ∈ l.contributingObjectIds a)
    (ha : l.accepts a o = true) : minOf (l.objectPartition.scannedWeights o) ≤ l.weightOf a o ∧
      l.weightOf a o ≤ maxOf (l.objectPartition.scannedWeights o) := by
  have hmem : l.weightOf a o ∈ l.objectPartition.scannedWeights o →
      minOf (l.objectPartition.scannedWeights o) ≤ l.weightOf a o ∧
        l.weightOf a o ≤ maxOf (l.objectPartition.scannedWeights o) := by
    intro h
    exact ⟨minOf_le h, le_maxOf h⟩
  rw [accepts] at ha
  cases hids : l.objectPartition.scopeItemIds with
  | none =>
    apply hmem
    have hdynamic := l.objectPartition.checked_spec.1
    rw [hids] at hdynamic
    rw [scannedWeights, hids, weightOf]
    cases hd : u.dimension l.objectPartition.dimensionId with
    | static scalars => cases scalars <;> exact mem_singleton.mpr rfl
    | dynamic i v d =>
      rw [hd] at hdynamic
      cases hdynamic
  | some ids =>
    cases hi : l.getDimensionScopeItemId (a o) with
    | none =>
      rcases mem_contributingObjectIds.mp ho with hduring | ⟨-, hc⟩
      · rw [getDimensionScopeItemId_during hduring] at hi
        cases hi
      · rw [weightOf, hi]
        exact hsc _ hc hi o
    | some s =>
      apply hmem
      rw [hi, acceptable, hids] at ha
      have hs : s ∈ ids.elems := of_decide_eq_true ha
      rw [scannedWeights, hids, weightOf, hi]
      obtain ⟨e, hnodup⟩ := ids
      cases e with
      | nil => cases hs
      | cons s' e => exact mem_map_of_mem hs

theorem groupWeight_eq (l : ObjectPartitionLookup u) (a : Assignment) (g : GroupId) :
    l.groupWeight a g = ∑ o ∈ (l.contributingObjectIds a).toFinset,
      l.weightOf a o * (l.objectPartition.getObjectGroups o).count g :=
  (sum_toFinset _ (l.nodup_contributingObjectIds a)).symm

section
variable (hs : l.Scanned) (ha : l.acceptsAll a = true) (g : GroupId)
include hs ha

theorem groupWeight_between :
    l.leastWeight g ≤ l.groupWeight a g ∧ l.groupWeight a g ≤ l.greatestWeight g := by
  have hC : (l.contributingObjectIds a).toFinset ⊆ range u.numObjects := by
    intro o ho
    exact Finset.mem_range.mpr (lt_of_mem_contributingObjectIds (mem_toFinset.mp ho))
  have hD : l.initialDuringObjects.elems.toFinset ⊆ (l.contributingObjectIds a).toFinset := by
    intro o ho
    exact mem_toFinset.mpr (mem_contributingObjectIds.mpr (.inl (mem_toFinset.mp ho)))
  have hd : ∀ o ∈ l.initialDuringObjects.elems.toFinset, l.duringWeight o = l.weightOf a o := by
    intro o ho
    rw [weightOf, getDimensionScopeItemId_during (mem_toFinset.mp ho), duringWeight]
  have hc : ∀ o, (0 : ℚ) ≤ (l.objectPartition.getObjectGroups o).count g := fun o =>
    Nat.cast_nonneg _
  have hb : ∀ o ∈ (l.contributingObjectIds a).toFinset, _ := fun o ho =>
    weightOf_scanned hs (mem_toFinset.mp ho) (all_eq_true.mp ha o (mem_toFinset.mp ho))
  rw [groupWeight_eq]
  constructor
  · have h := sum_le_of_kept (w := fun o => -(l.weightOf a o *
        (l.objectPartition.getObjectGroups o).count g)) (b := fun o =>
        -(min 0 (minOf (l.objectPartition.scannedWeights o)) *
          (l.objectPartition.getObjectGroups o).count g)) hD hC
      (fun o => neg_nonneg.mpr (mul_nonpos_of_nonpos_of_nonneg (min_le_left _ _) (hc o)))
      (fun o ho => neg_le_neg (mul_le_mul_of_nonneg_right
        ((min_le_right _ _).trans (hb o ho).1) (hc o)))
    have hk : ∑ o ∈ l.initialDuringObjects.elems.toFinset, min 0 (-(l.weightOf a o *
        (l.objectPartition.getObjectGroups o).count g)) = -l.duringPositiveWeight g := by
      rw [duringPositiveWeight, ← sum_neg_distrib]
      apply sum_congr rfl
      intro o ho
      rw [hd o ho, max_mul_of_nonneg _ _ (hc o), zero_mul, ← min_neg_neg, neg_zero]
    rw [sum_neg_distrib, sum_neg_distrib] at h
    rw [leastWeight, totalNegativeWeight]
    linarith
  · have h := sum_le_of_kept (w := fun o => l.weightOf a o *
        (l.objectPartition.getObjectGroups o).count g) (b := fun o =>
        max 0 (maxOf (l.objectPartition.scannedWeights o)) *
          (l.objectPartition.getObjectGroups o).count g) hD hC
      (fun o => mul_nonneg (le_max_left _ _) (hc o))
      (fun o ho => mul_le_mul_of_nonneg_right ((hb o ho).2.trans (le_max_right _ _)) (hc o))
    apply h.trans_eq
    congr 1
    apply sum_congr rfl
    intro o ho
    rw [hd o ho, min_mul_of_nonneg _ _ (hc o), zero_mul]

theorem penaltyAt_between : l.penaltyOf (l.bestWeight g) g ≤ l.penaltyAt a g ∧
      l.penaltyAt a g ≤ l.penaltyOf (l.worstWeight g) g := by
  obtain ⟨hl, hg⟩ := groupWeight_between hs ha g
  have hb : l.bound.le (l.bestWeight g) (l.groupWeight a g) := by
    rw [bestWeight]
    cases l.bound with
    | max => exact hl
    | min => exact hg
  have hw : l.bound.le (l.groupWeight a g) (l.worstWeight g) := by
    rw [worstWeight]
    cases l.bound with
    | max => exact hg
    | min => exact hl
  exact ⟨l.penaltyOf_mono hb g, l.penaltyOf_mono hw g⟩

end

theorem Permanent.entered (h : l.Permanent g) (a : Assignment) : g ∈ l.entered a := by
  rcases h with hinit | ⟨o, ho, hg⟩
  · exact mem_entered.mpr (.inl hinit)
  · exact mem_entered.mpr (.inr ⟨o, mem_contributingObjectIds.mpr (.inl ho), hg⟩)

theorem lowerBound_le (hs : l.Scanned) (hl : l.LowerSound) (ha : l.acceptsAll a = true) :
    ∑ g ∈ l.boundedGroups, l.penaltyOf (l.bestWeight g) g ≤ l.valueAt a := by
  by_cases hzero : ∀ g ∈ l.boundedGroups, ¬ 0 < l.penaltyOf (l.bestWeight g) g
  · apply (sum_nonpos fun g hg => not_lt.mp (hzero g hg)).trans
    exact leastSum_nonneg fun g _ => l.penaltyAt_nonneg a g
  · push Not at hzero
    obtain ⟨g₀, hg₀, hp⟩ := hzero
    rw [valueAt, (hl g₀ hg₀ hp).1, leastSum_zero]
    calc ∑ g ∈ l.boundedGroups, l.penaltyOf (l.bestWeight g) g
        = ∑ g ∈ l.boundedGroups ∩ l.entered a, l.penaltyOf (l.bestWeight g) g := by
          symm
          apply sum_subset inter_subset_left
          intro g hg hn
          apply le_antisymm _ (l.penaltyOf_nonneg _ g)
          apply not_lt.mp
          intro hp
          exact hn (mem_inter.mpr ⟨hg, (hl g hg hp).2.entered a⟩)
      _ ≤ ∑ g ∈ l.boundedGroups ∩ l.entered a, l.penaltyAt a g :=
          Finset.sum_le_sum fun g _ => (penaltyAt_between hs ha g).1
      _ ≤ ∑ g ∈ l.entered a, l.penaltyAt a g := sum_le_sum_of_subset_of_nonneg inter_subset_right
            fun g _ _ => l.penaltyAt_nonneg a g

theorem le_upperBound (hs : l.Scanned) (hu : l.UpperSound) (ha : l.acceptsAll a = true) :
    l.valueAt a ≤ ∑ g ∈ l.boundedGroups, l.penaltyOf (l.worstWeight g) g := by
  apply leastSum_le_sum.trans
  calc ∑ g ∈ l.entered a, l.penaltyAt a g
      = ∑ g ∈ l.entered a ∩ l.boundedGroups, l.penaltyAt a g := by
        symm
        apply sum_subset inter_subset_left
        intro g hg hn
        have hb : g ∉ l.boundedGroups := fun h => hn (mem_inter.mpr ⟨hg, h⟩)
        have he : g ∉ l.objectPartition.groupsWithObjects := fun h =>
          hb (mem_union_left _ h)
        rw [penaltyAt, groupWeight_of_empty he]
        exact hu g (initial_of_entered he hg) hb
    _ ≤ ∑ g ∈ l.entered a ∩ l.boundedGroups, l.penaltyOf (l.worstWeight g) g :=
        Finset.sum_le_sum fun g _ => (penaltyAt_between hs ha g).2
    _ ≤ ∑ g ∈ l.boundedGroups, l.penaltyOf (l.worstWeight g) g :=
        sum_le_sum_of_subset_of_nonneg inter_subset_right fun g _ _ => l.penaltyOf_nonneg _ g

theorem acceptsAll_of_ok (h : l.computeFromAssignment a = .ok v) :
    l.acceptsAll a = true ∧ v = l.valueAt a := by
  rw [computeFromAssignment_eq] at h
  split at h
  · rename_i ha
    exact ⟨ha, (Except.ok.inj h).symm⟩
  · cases h

/-- The bounds contain the value on every assignment. -/
theorem getBounds_contain (l : ObjectPartitionLookup u) {b : Bounds} (h : l.getBounds = .ok b)
    (hscan : l.Scanned) (hlower : l.LowerSound) (hupper : l.UpperSound) (a : Assignment)
    (ha : l.computeFromAssignment a = .ok v) : b.Contains v := by
  obtain ⟨hall, rfl⟩ := acceptsAll_of_ok ha
  rw [getBounds_eq h]
  exact ⟨lowerBound_le hscan hlower hall, le_upperBound hscan hupper hall⟩

theorem scanned_of_static (hd : u.dimension l.objectPartition.dimensionId = .static ss) :
    l.Scanned := by
  intro c _ hi
  rw [getDimensionScopeItemId, hd] at hi
  cases hi

end ObjectPartitionLookup

deriving instance DecidableEq for Bounds

theorem oneGroup_lt : ∀ group ∈ [(0, [0])], ∀ o ∈ group.2, o < [(1 : ℚ)].length := by decide

def oneGroupLookup (limit : ℚ) (groupsAllowed : Nat) (bound : LookupBound) :
    ObjectPartitionLookup (weightedUniverse [1] ⟨[(0, [0])], oneGroup_nodup⟩ oneGroup_lt) :=
  plainLookup ⟨[(0, limit)], nodup_zero⟩ 1 unit_nonneg groupsAllowed bound

/-- The only group may miss its limit, so the value is always `0`, but the lower bound counts its
least penalty. -/
theorem getBounds_above_value : (oneGroupLookup 5 1 .min).getBounds = .ok ⟨4, 5⟩ ∧
    (oneGroupLookup 5 1 .min).computeFromAssignment (fun _ => 0) = .ok 0 := by
  decide +kernel

theorem getBounds_contain_over_limit :
    (oneGroupLookup 0 0 .max).getBounds = .ok ⟨0, 1⟩ ∧ (⟨0, 1⟩ : Bounds).Contains 1 := by
  have hb : (oneGroupLookup 0 0 .max).getBounds = .ok ⟨0, 1⟩ := by decide +kernel
  refine ⟨hb, (oneGroupLookup 0 0 .max).getBounds_contain hb
    (ObjectPartitionLookup.scanned_of_static rfl) ?_ ?_ (fun _ => 0) (by decide +kernel)⟩
  · intro g hg hp
    have hzero : ∀ g ∈ (oneGroupLookup 0 0 .max).boundedGroups,
        ¬ 0 < (oneGroupLookup 0 0 .max).penaltyOf ((oneGroupLookup 0 0 .max).bestWeight g) g := by
      decide +kernel
    exact absurd hp (hzero g hg)
  · intro g hg
    exact absurd hg not_mem_nil

end Rebalancer
