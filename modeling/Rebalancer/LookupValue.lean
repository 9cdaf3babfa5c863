import Rebalancer.ObjectPartitionSymmetry
import Rebalancer.PrecisionOrder

namespace Rebalancer
open List ObjectPartitionArgs ObjectPartition

namespace ObjectPartition
variable {u : Universe partitions}

def coefficientOf (p : ObjectPartition u) (g : GroupId) : ℚ :=
  (p.groupCoefficients.get? g).getD p.defaultGroupCoefficient

theorem getGroupCoefficient_of_relevant {p : ObjectPartition u}
    (h : p.partitionInfo.isRelevant g = true) :
    p.getGroupCoefficient g = .ok (p.coefficientOf g) := by
  rw [getGroupCoefficient, if_pos h, coefficientOf]

theorem coefficientOf_nonneg (p : ObjectPartition u) (g : GroupId) : 0 ≤ p.coefficientOf g := by
  have h := p.checked
  obtain ⟨u₁, -, h⟩ := except_bind_ok h
  obtain ⟨u₂, -, h⟩ := except_bind_ok h
  obtain ⟨u₃, -, h⟩ := except_bind_ok h
  obtain ⟨u₄, -, h⟩ := except_bind_ok h
  obtain ⟨u₅, hd, ha⟩ := except_bind_ok h
  have hd := not_lt.mp (of_throwIf hd)
  have ha := of_throwIf ha
  rw [coefficientOf, IdMap.get?]
  cases hg : p.groupCoefficients.entries.lookup g with
  | none => exact hd
  | some c =>
    apply not_lt.mp
    intro hn
    exact ha (any_eq_true.mpr ⟨(g, c), mem_of_lookup hg, decide_eq_true hn⟩)

theorem lt_of_mem_getObjectGroups {p : ObjectPartition u} (h : g ∈ p.getObjectGroups o) :
    o < u.numObjects :=
  u.lt_of_mem (Partition.mem_objectIdToGroupIds.mp (mem_filter.mp h).1)

end ObjectPartition

def LookupBound.le : LookupBound → ℚ → ℚ → Prop
  | max, v, w => v ≤ w
  | min, v, w => w ≤ v

variable {b : LookupBound}

theorem LookupBound.le_of_initializes (h : ¬ b.initializes w = true) : b.le 0 w := by
  cases b with
  | max => exact not_lt.mp fun hw => h (decide_eq_true hw)
  | min => exact not_lt.mp fun hw => h (decide_eq_true hw)

theorem LookupBound.le_mul (hc : 0 ≤ c) (h : b.le v w) : b.le (v * c) (w * c) := by
  cases b with
  | max => exact mul_le_mul_of_nonneg_right h hc
  | min => exact mul_le_mul_of_nonneg_right h hc

theorem LookupBound.le_sub (h : b.le v w) (x : ℚ) : b.le (v - x) (w - x) := by
  cases b with
  | max => exact sub_le_sub_right h x
  | min => exact sub_le_sub_right h x

namespace ObjectPartitionLookup
variable {u : Universe partitions}

section
variable (l : ObjectPartitionLookup u)

theorem computePenalty_nonneg (d : ℚ) : 0 ≤ l.computePenalty d := by
  rw [computePenalty]
  cases l.penaltyTransform with
  | identity => exact le_max_left _ _
  | square => exact mul_self_nonneg _
  | step => exact ite_nonneg zero_le_one le_rfl

theorem computePenalty_mono (h : l.bound.le d d') : l.computePenalty d ≤ l.computePenalty d' := by
  have hle : max 0 (if l.bound = .max then d else -d) ≤
      max 0 (if l.bound = .max then d' else -d') := by
    apply max_le_max le_rfl
    cases hb : l.bound with
    | max =>
      rw [hb] at h
      exact h
    | min =>
      rw [hb] at h
      exact neg_le_neg h
  simp only [computePenalty]
  cases l.penaltyTransform with
  | identity => exact hle
  | square => exact mul_self_le_mul_self (le_max_left _ _) hle
  | step =>
    by_cases hgt : u.precision.isStrictlyGtZero (max 0 (if l.bound = .max then d else -d)) = true
    · exact (if_pos hgt).le.trans (if_pos (PrecisionTolerances.isStrictlyGtZero_mono hle hgt)).ge
    · exact (if_neg hgt).le.trans (ite_nonneg zero_le_one le_rfl)

theorem computePenalty_zero : l.computePenalty 0 = 0 := by
  rw [computePenalty, neg_zero, ite_self]
  cases l.penaltyTransform with
  | identity => rfl
  | square => exact mul_zero 0
  | step => simp [PrecisionTolerances.isStrictlyGtZero_zero]

theorem computePenalty_of_le (h : l.bound.le d 0) : l.computePenalty d = 0 :=
  le_antisymm ((l.computePenalty_mono h).trans_eq l.computePenalty_zero) (l.computePenalty_nonneg d)

theorem penaltyOf_nonneg (w : ℚ) (g : GroupId) : 0 ≤ l.penaltyOf w g := by
  cases h : l.getGroupPenalty w g with
  | error e => rw [penaltyOf, h]
  | ok p =>
    rw [penaltyOf, h]
    obtain ⟨limit, -, h⟩ := except_bind_ok h
    obtain ⟨c, -, h⟩ := except_bind_ok h
    cases h
    exact l.computePenalty_nonneg _

def limitOf (g : GroupId) : ℚ :=
  match l.groupLimitOverrides.get? g with
  | some limit => limit
  | none =>
    match l.defaultGroupLimitOverride with
    | some limit => limit
    | none => (l.objectPartition.groupLimits.get? g).getD l.objectPartition.defaultGroupLimit

end

variable {l : ObjectPartitionLookup u}

section
variable (h : l.objectPartition.partitionInfo.isRelevant g = true)
include h

theorem getGroupLimit_of_relevant : l.getGroupLimit g = .ok (l.limitOf g) := by
  rw [getGroupLimit, limitOf]
  cases l.groupLimitOverrides.get? g with
  | some limit => rfl
  | none =>
    cases l.defaultGroupLimitOverride with
    | some limit => rfl
    | none =>
      simp [ObjectPartition.getGroupLimit, h]

theorem penaltyOf_of_relevant (w : ℚ) : l.penaltyOf w g =
      l.computePenalty ((w - l.limitOf g) * l.objectPartition.coefficientOf g) := by
  rw [penaltyOf, getGroupPenalty, getGroupLimit_of_relevant h, except_ok_bind,
    getGroupCoefficient_of_relevant h, except_ok_bind]

end

theorem penaltyOf_of_not_relevant
    (h : ¬ l.objectPartition.partitionInfo.isRelevant g = true) : l.penaltyOf w g = 0 := by
  have hc : l.objectPartition.getGroupCoefficient g = .error
      s!"Cannot get coefficient for group {g} which is not in filteredGroupIds" := by
    rw [getGroupCoefficient, if_neg h]
  rw [penaltyOf, getGroupPenalty]
  cases l.getGroupLimit g with
  | error e => rfl
  | ok limit =>
    rw [hc]
    rfl

section
variable (l : ObjectPartitionLookup u)

theorem penaltyOf_mono (h : l.bound.le w w') (g : GroupId) :
    l.penaltyOf w g ≤ l.penaltyOf w' g := by
  by_cases hg : l.objectPartition.partitionInfo.isRelevant g = true
  · rw [penaltyOf_of_relevant hg, penaltyOf_of_relevant hg]
    apply l.computePenalty_mono
    exact LookupBound.le_mul (l.objectPartition.coefficientOf_nonneg g) (LookupBound.le_sub h _)
  · rw [penaltyOf_of_not_relevant hg, penaltyOf_of_not_relevant hg]

theorem total_eq_leastSum {gs : List GroupId} (hn : gs.Nodup)
    (hp : ∀ g ∈ gs, 0 ≤ p g) : l.total (gs.map p) = leastSum l.groupsAllowed gs.toFinset p := by
  rw [total]
  split_ifs with hzero
  · exact sum_sub_topSum hn hp
  · rw [Nat.eq_zero_of_not_pos hzero, leastSum_zero, sum_toFinset p hn]

def entered (a : Assignment) : Finset GroupId :=
  (l.initialGroups ++
    (l.contributingObjectIds a).flatMap l.objectPartition.getObjectGroups).toFinset

end

theorem mem_entered : g ∈ l.entered a ↔ g ∈ l.initialGroups ∨
    ∃ o ∈ l.contributingObjectIds a, g ∈ l.objectPartition.getObjectGroups o := by
  rw [entered, mem_toFinset, mem_append, mem_flatMap]

def known (l : ObjectPartitionLookup u) : Finset GroupId :=
  (l.initialGroups ++
    (range u.numObjects).flatMap l.objectPartition.getObjectGroups).toFinset

theorem mem_known : g ∈ l.known ↔ g ∈ l.initialGroups ∨
    ∃ o, g ∈ l.objectPartition.getObjectGroups o := by
  rw [known, mem_toFinset, mem_append, mem_flatMap]
  apply or_congr_right
  apply exists_congr
  intro o
  rw [mem_range]
  exact and_iff_right_of_imp lt_of_mem_getObjectGroups

theorem entered_subset_known (l : ObjectPartitionLookup u) (a : Assignment) :
    l.entered a ⊆ l.known := by
  intro g hg
  apply mem_known.mpr
  rcases mem_entered.mp hg with hinit | ⟨o, -, ho⟩
  · exact .inl hinit
  · exact .inr ⟨o, ho⟩

theorem known_relevant (h : g ∈ l.known) : l.objectPartition.partitionInfo.isRelevant g = true := by
  rcases mem_known.mp h with hinit | ⟨o, ho⟩
  · exact l.initialGroups_relevant hinit
  · exact getObjectGroups_relevant ho

section
variable (l : ObjectPartitionLookup u)

variable (a : Assignment)

def penaltyAt (g : GroupId) : ℚ :=
  l.penaltyOf (l.groupWeight a g) g

theorem penaltyAt_nonneg (g : GroupId) : 0 ≤ l.penaltyAt a g := l.penaltyOf_nonneg _ g

def valueAt : ℚ :=
  leastSum l.groupsAllowed (l.entered a) (l.penaltyAt a)

def acceptsAll : Bool :=
  (l.contributingObjectIds a).all (l.accepts a)

theorem computeFromAssignment_eq :
    l.computeFromAssignment a = if l.acceptsAll a then .ok (l.valueAt a)
      else .error "The provided scope item is not in the list of acceptable scope items" := by
  have hspec := l.computeFromAssignment_spec a
  by_cases ha : l.acceptsAll a = true
  · rw [acceptsAll] at ha
    rw [if_pos ha] at hspec
    rw [acceptsAll, if_pos ha]
    obtain ⟨gs, hnodup, hmem, heq⟩ := hspec
    have he : gs.toFinset = l.entered a := by
      ext g
      rw [mem_toFinset, hmem, mem_entered]
    rw [heq, valueAt, ← he]
    congr 1
    exact l.total_eq_leastSum hnodup fun g _ => l.penaltyAt_nonneg a g
  · rw [acceptsAll] at ha
    rw [if_neg ha] at hspec
    rw [acceptsAll, if_neg ha]
    exact hspec

end

theorem groupWeight_of_not_entered (h : g ∉ l.entered a) : l.groupWeight a g = 0 := by
  apply sum_eq_zero
  intro x hx
  obtain ⟨o, ho, rfl⟩ := mem_map.mp hx
  have hn : g ∉ l.objectPartition.getObjectGroups o := by
    intro hg
    exact h (mem_entered.mpr (.inr ⟨o, ho, hg⟩))
  rw [count_eq_zero_of_not_mem hn, Nat.cast_zero, mul_zero]

end ObjectPartitionLookup

def weightedUniverse (weights : List ℚ) (p : Partition)
    (h : ∀ group ∈ p.groups, ∀ o ∈ group.2, o < weights.length) : Universe [p] where
  precision := defaultTolerances
  numObjects := weights.length
  dimension _ := .static [⟨⟨weights.zipIdx.map Prod.swap, by
    rw [map_map, show Prod.fst ∘ Prod.swap = (Prod.snd : ℚ × Nat → Nat) from rfl,
      zipIdx_map_snd]
    exact nodup_range'⟩, 0, by
    intro e he
    obtain ⟨⟨w, o⟩, ho, rfl⟩ := mem_map.mp he
    exact snd_lt_of_mem_zipIdx ho⟩]
  scope _ := ⟨[], fun _ => none⟩
  inRange q hq := by
    cases mem_singleton.mp hq
    exact h

theorem unit_nonneg : (0 : ℚ) ≤ 1 := zero_le_one

def plainLookup {p : Partition} {h : ∀ group ∈ p.groups, ∀ o ∈ group.2, o < weights.length}
    (limits : IdMap) (coefficient : ℚ) (hc : 0 ≤ coefficient) (groupsAllowed : Nat)
    (bound : LookupBound) : ObjectPartitionLookup (weightedUniverse weights p h) where
  objectPartition :=
    { partitionInfo := ⟨0, none⟩
      dimensionId := 0
      groupLimits := limits
      scopeItemIds := none
      groupCoefficients := .empty
      defaultGroupLimit := 0
      defaultGroupCoefficient := coefficient
      checked := by
        have hc := not_lt.mpr hc
        simp [check, throwIf,
          checkGroupsRelevant, weightedUniverse, ObjectDimension.size,
          ObjectDimension.isDynamic, PartitionInfo.isRelevant, IdMap.empty, hc] }
  lookupContainers := ⟨[0], nodup_zero⟩
  scopeId := 0
  scopeItemId := 0
  groupLimitOverrides := .empty
  initialDuringObjects := ⟨[], nodup_nil⟩
  defaultGroupLimitOverride := none
  penaltyTransform := .identity
  groupsAllowed := groupsAllowed
  bound := bound
  overridesRelevant _ he := absurd he not_mem_nil
  duringScope _ _ _ _ _ := rfl
  duringInRange _ ho := absurd ho not_mem_nil

end Rebalancer
