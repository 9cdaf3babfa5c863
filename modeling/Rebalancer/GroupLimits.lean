import Rebalancer.LookupCopy

namespace Rebalancer
open Finset ObjectPartitionLookup
open Option hiding max_eq_right

/-- The parsed values of a limit; an unbounded default makes the global one infinite. -/
structure LimitWrapper where
  globalLimit : WithTop ℚ
  scopeItemLimits : Table ScopeItemId ℚ
  groupItemLimits : Table GroupId ℚ
  scopeItemToGroupItemLimits : Table ScopeItemId (Table GroupId ℚ)
  groupIds : Finset GroupId

namespace LimitWrapper
variable (w : LimitWrapper) (s : ScopeItemId) (g : GroupId)

def getScopeItemLimit : WithTop ℚ := (w.scopeItemLimits s).elim w.globalLimit (↑·)

def getGroupLimit : WithTop ℚ := (w.groupItemLimits g).elim w.globalLimit (↑·)

def getLimit : WithTop ℚ :=
  match (w.scopeItemToGroupItemLimits s).bind fun limits => limits g with
  | some limit => limit
  | none =>
    match w.scopeItemLimits s with
    | some limit => limit
    | none => w.getGroupLimit g

def getGroupsOverride : Table GroupId (WithTop ℚ) :=
  if (w.scopeItemToGroupItemLimits s).isNone ∧ (w.scopeItemLimits s).isNone ∧
      ∀ g ∈ w.groupIds, (w.groupItemLimits g).isNone then .new
  else fun g =>
    if g ∈ w.groupIds ∧ w.getLimit s g ≠ w.globalLimit then some (w.getLimit s g) else none

def getAllGroupLimitsIndptOfScopeItem : Table GroupId (WithTop ℚ) := fun g =>
  if g ∈ w.groupIds then some (w.getGroupLimit g) else none

variable {w s g}

theorem getGroupsOverride_eq (hg : g ∈ w.groupIds) : w.getGroupsOverride s g =
    if w.getLimit s g ≠ w.globalLimit then some (w.getLimit s g) else none := by
  rw [getGroupsOverride]
  split
  case isTrue h =>
    obtain ⟨hb, hi, hn⟩ := h
    have heq : w.getLimit s g = w.globalLimit := by
      simp only [getLimit, isNone_iff_eq_none.mp hb, bind_none,
        isNone_iff_eq_none.mp hi, getGroupLimit,
        isNone_iff_eq_none.mp (hn g hg), elim_none]
    rw [if_neg (not_not.mpr heq)]
    rfl
  case isFalse => simp only [hg, true_and]

section
variable (h : w.globalLimit ≠ ⊤)
include h

theorem getGroupLimit_ne_top : w.getGroupLimit g ≠ ⊤ := by
  rw [getGroupLimit]
  cases w.groupItemLimits g with
  | none => exact h
  | some limit => exact WithTop.coe_ne_top

theorem getScopeItemLimit_ne_top : w.getScopeItemLimit s ≠ ⊤ := by
  rw [getScopeItemLimit]
  cases w.scopeItemLimits s with
  | none => exact h
  | some limit => exact WithTop.coe_ne_top

theorem getLimit_ne_top : w.getLimit s g ≠ ⊤ := by
  rw [getLimit]
  split
  · exact WithTop.coe_ne_top
  · split
    · exact WithTop.coe_ne_top
    · exact getGroupLimit_ne_top h

end

theorem eq_global_of_getLimit_eq_top (h : w.getLimit s g = ⊤) :
    w.getGroupLimit g = w.globalLimit ∧ w.getScopeItemLimit s = w.globalLimit := by
  rw [getLimit] at h
  split at h
  · exact absurd h WithTop.coe_ne_top
  · split at h
    · exact absurd h WithTop.coe_ne_top
    · rename_i hs
      rw [getGroupLimit] at h
      cases hn : w.groupItemLimits g with
      | none => exact ⟨by rw [getGroupLimit, hn, elim_none],
          by rw [getScopeItemLimit, hs, elim_none]⟩
      | some limit =>
        rw [hn] at h
        exact absurd h WithTop.coe_ne_top

end LimitWrapper

namespace LookupBound

def violation : LookupBound → ℚ → ℚ → ℚ
  | max, util, limit => Max.max 0 (util - limit)
  | min, util, limit => Max.max 0 (limit - util)

def excess : LookupBound → ℚ → WithTop ℚ → WithTop ℚ
  | bound, util, (limit : ℚ) => bound.violation util limit
  | max, _, ⊤ => 0
  | min, _, ⊤ => ⊤

theorem sum_excess (b : LookupBound) {x : GroupId → ℚ} {l : GroupId → WithTop ℚ}
    (h : ∀ g ∈ gs, l g = x g) (util : GroupId → ℚ) : ∑ g ∈ gs, b.excess (util g) (l g) =
      ((∑ g ∈ gs, b.violation (util g) (x g) : ℚ) : WithTop ℚ) := by
  rw [WithTop.coe_sum]
  apply sum_congr rfl
  intro g hg
  rw [h g hg]
  cases b with
  | max => rfl
  | min => rfl

theorem eq_of_sum_violation (b : LookupBound) {x y : GroupId → ℚ}
    (h : ∀ util : GroupId → ℚ, ∑ g ∈ gs, b.violation (util g) (x g) =
      ∑ g ∈ gs, b.violation (util g) (y g)) (hg : g ∈ gs) : x g = y g := by
  cases b with
  | max =>
    have hs := h fun g' => if g' = g then Max.max (x g) (y g) else Min.min (x g') (y g')
    rw [sum_eq_single_of_mem g hg, sum_eq_single_of_mem g hg] at hs
    · simp only [violation, if_true] at hs
      rw [max_eq_right (sub_nonneg.mpr (le_max_left _ _)),
        max_eq_right (sub_nonneg.mpr (le_max_right _ _))] at hs
      exact sub_right_injective hs
    · intro g' _ hn
      simp [violation, hn]
    · intro g' _ hn
      simp [violation, hn]
  | min =>
    have hs := h fun g' => if g' = g then Min.min (x g) (y g) else Max.max (x g') (y g')
    rw [sum_eq_single_of_mem g hg, sum_eq_single_of_mem g hg] at hs
    · simp only [violation, if_true] at hs
      rw [max_eq_right (sub_nonneg.mpr (min_le_left _ _)),
        max_eq_right (sub_nonneg.mpr (min_le_right _ _))] at hs
      exact sub_left_injective hs
    · intro g' _ hn
      simp [violation, hn]
    · intro g' _ hn
      simp [violation, hn]

end LookupBound

namespace LimitWrapper
variable (w : LimitWrapper) (s : ScopeItemId) (bound : LookupBound)

def lookupLimit (g : GroupId) : WithTop ℚ :=
  (w.getGroupsOverride s g).getD ((w.getAllGroupLimitsIndptOfScopeItem g).getD 0)

def lookupValue (util : GroupId → ℚ) : WithTop ℚ :=
  ∑ g ∈ w.groupIds, bound.excess (util g) (w.lookupLimit s g)

def totalViolation (util : GroupId → ℚ) : WithTop ℚ :=
  ∑ g ∈ w.groupIds, bound.excess (util g) (w.getLimit s g)

/-- A group whose limit at the item is the global value has no other value of its own. -/
def Unshadowed : Prop :=
  ∀ g ∈ w.groupIds, w.getLimit s g = w.globalLimit → w.getGroupLimit g = w.globalLimit

variable {w s bound}

theorem lookupLimit_eq (hg : g ∈ w.groupIds) : w.lookupLimit s g =
    if w.getLimit s g = w.globalLimit then w.getGroupLimit g else w.getLimit s g := by
  rw [lookupLimit, getGroupsOverride_eq hg, getAllGroupLimitsIndptOfScopeItem, if_pos hg]
  by_cases h : w.getLimit s g = w.globalLimit
  · simp [h]
  · simp [h]

theorem unshadowed_iff : w.Unshadowed s ↔ ∀ g ∈ w.groupIds, w.lookupLimit s g = w.getLimit s g := by
  apply forall₂_congr
  intro g hg
  rw [lookupLimit_eq hg]
  split
  case isTrue h => simp [h]
  case isFalse h => simp [h]

/-- The lookup has the total violation of the requirements exactly when no value of a group is
shadowed. -/
theorem lookupValue_eq_totalViolation_iff (w : LimitWrapper) (s : ScopeItemId)
    (bound : LookupBound) :
    (∀ util, w.lookupValue s bound util = w.totalViolation s bound util) ↔ w.Unshadowed s := by
  apply Iff.intro
  · intro h g hg heq
    by_cases ht : w.globalLimit = ⊤
    · exact (eq_global_of_getLimit_eq_top (heq.trans ht)).1
    · have hx : ∀ g, ∃ x : ℚ, w.getLimit s g = x := fun g =>
        (WithTop.ne_top_iff_exists.mp (getLimit_ne_top ht)).imp fun _ => Eq.symm
      have hy : ∀ g, ∃ y : ℚ, w.getGroupLimit g = y := fun g =>
        (WithTop.ne_top_iff_exists.mp (getGroupLimit_ne_top ht)).imp fun _ => Eq.symm
      choose x hx using hx
      choose y hy using hy
      have hl : ∀ g ∈ w.groupIds, w.lookupLimit s g =
          ((if w.getLimit s g = w.globalLimit then y g else x g : ℚ) : WithTop ℚ) := by
        intro g hg
        rw [lookupLimit_eq hg, hx, hy]
        split
        · rfl
        · rfl
      have hs : (if w.getLimit s g = w.globalLimit then y g else x g) = x g := by
        apply bound.eq_of_sum_violation _ hg
        intro util
        have hu := h util
        rw [lookupValue, totalViolation, bound.sum_excess hl,
          bound.sum_excess fun g _ => hx g] at hu
        exact WithTop.coe_injective hu
      rw [if_pos heq] at hs
      rw [hy, hs, ← hx, heq]
  · intro h util
    apply sum_congr rfl
    intro g hg
    rw [unshadowed_iff.mp h g hg]

def itemKeepsGlobal : LimitWrapper :=
  ⟨(2 : ℚ), fun s => if s = 0 then some 2 else none, fun g => if g = 0 then some 1 else none, .new,
    {0}⟩

theorem itemKeepsGlobal_group_limit_used : itemKeepsGlobal.getLimit 0 0 = (2 : ℚ) ∧
    itemKeepsGlobal.lookupValue 0 .max (fun _ => 2) = (1 : ℚ) ∧
    itemKeepsGlobal.totalViolation 0 .max (fun _ => 2) = (0 : ℚ) := by
  decide +kernel

end LimitWrapper

/-- What `buildOptimizedGroupCountExprsForStaticDimensions` builds, for absolute limits without
squares. -/
structure LimitWrapper.Builds {u : Universe partitions}
    (w : LimitWrapper) (s : ScopeItemId) (l : ObjectPartitionLookup u) : Prop where
  limits g : w.getAllGroupLimitsIndptOfScopeItem g =
    (l.objectPartition.groupLimits.get? g).map (↑·)
  overrides g : w.getGroupsOverride s g = (l.groupLimitOverrides.get? g).map (↑·)
  noDefault : l.defaultGroupLimitOverride = none
  unfiltered : l.objectPartition.partitionInfo.filteredGroupIds = none
  coefficient g : l.objectPartition.coefficientOf g = 1
  noSquares : l.penaltyTransform = .identity
  noneWaived : l.groupsAllowed = 0
  grouped o : ∀ g ∈ l.objectPartition.getObjectGroups o, g ∈ w.groupIds

namespace LimitWrapper.Builds
variable {u : Universe partitions} {l : ObjectPartitionLookup u}
variable {w : LimitWrapper} {s : ScopeItemId}

section
variable (h : w.Builds s l)
include h

theorem lookupLimit_eq (hg : g ∈ w.groupIds) : w.lookupLimit s g = l.limitOf g := by
  have hl := h.limits g
  rw [getAllGroupLimitsIndptOfScopeItem, if_pos hg] at hl
  rw [lookupLimit, getAllGroupLimitsIndptOfScopeItem, if_pos hg, getD_some, h.overrides,
    limitOf, h.noDefault]
  cases l.groupLimitOverrides.get? g with
  | some limit => rfl
  | none =>
    cases hm : l.objectPartition.groupLimits.get? g with
    | none =>
      rw [hm] at hl
      cases hl
    | some limit =>
      rw [hm] at hl
      exact some.inj hl

theorem penaltyOf_eq (g : GroupId) (w' : ℚ) :
    l.penaltyOf w' g = l.bound.violation w' (l.limitOf g) := by
  have hr : l.objectPartition.partitionInfo.isRelevant g = true := by
    rw [PartitionInfo.isRelevant, h.unfiltered]
  rw [penaltyOf_of_relevant hr, h.coefficient, mul_one]
  rw [computePenalty, h.noSquares]
  cases l.bound with
  | max => rfl
  | min => simp [LookupBound.violation]

theorem mem_of_entered (hg : g ∈ l.entered a) : g ∈ w.groupIds := by
  rcases mem_entered.mp hg with hi | ⟨o, -, ho⟩
  · rcases mem_initialGroups.mp hi with ⟨v, hv, -⟩ | ⟨v, hv, -⟩
    · have hl := h.limits g
      rw [hv] at hl
      exact (ite_none_right_eq_some.mp hl).1
    · have hl := h.overrides g
      rw [hv, getGroupsOverride] at hl
      split at hl
      · cases hl
      · exact (ite_none_right_eq_some.mp hl).1.1
  · exact h.grouped o g ho

theorem violation_of_not_entered (hg : g ∈ w.groupIds)
    (hn : g ∉ l.entered a) : l.bound.violation 0 (l.limitOf g) = 0 := by
  have hi := (not_or.mp (mt mem_entered.mpr hn)).1
  rw [mem_initialGroups, not_or] at hi
  have hl : l.bound.le 0 (l.limitOf g) := by
    apply LookupBound.le_of_initializes
    intro ht
    rw [limitOf, h.noDefault] at ht
    cases ho : l.groupLimitOverrides.get? g with
    | some limit =>
      rw [ho] at ht
      exact hi.2 ⟨limit, ho, ht⟩
    | none =>
      rw [ho] at ht
      cases hm : l.objectPartition.groupLimits.get? g with
      | some limit =>
        rw [hm] at ht
        exact hi.1 ⟨limit, hm, ht⟩
      | none =>
        have hl := h.limits g
        rw [hm, getAllGroupLimitsIndptOfScopeItem, if_pos hg] at hl
        cases hl
  cases hb : l.bound with
  | max =>
    rw [hb] at hl
    exact max_eq_left (sub_nonpos.mpr hl)
  | min =>
    rw [hb] at hl
    exact max_eq_left (sub_nonpos.mpr hl)

end

/-- The lookup has entries for some of the groups, but its value is the excess of all of them. -/
theorem computeFromAssignment_eq_lookupValue (h : w.Builds s l) (ha : l.acceptsAll a = true) :
    (l.computeFromAssignment a).map WithTop.some = .ok
    (w.lookupValue s l.bound (l.groupWeight a)) := by
  rw [l.computeFromAssignment_eq, if_pos ha, valueAt, h.noneWaived, leastSum_zero, lookupValue]
  have hs : ∑ g ∈ l.entered a, l.penaltyAt a g =
      ∑ g ∈ w.groupIds, l.bound.violation (l.groupWeight a g) (l.limitOf g) := by
    simp only [penaltyAt, h.penaltyOf_eq]
    apply sum_subset fun g => h.mem_of_entered
    intro g hg hn
    rw [groupWeight_of_not_entered hn]
    exact h.violation_of_not_entered hg hn
  rw [hs, l.bound.sum_excess fun g => h.lookupLimit_eq]
  rfl

end LimitWrapper.Builds

open LimitWrapper

def pairAtItem : ObjectPartitionLookup (weightedUniverse [3, 2] ⟨[(0, [1, 0])], by decide⟩
    (by decide)) :=
  plainLookup ⟨[(0, 1)], nodup_zero⟩ 1 unit_nonneg 0 .max

theorem itemKeepsGlobal_builds : itemKeepsGlobal.Builds 0 pairAtItem where
  limits g := by
    cases g with
    | zero => rfl
    | succ n => rfl
  overrides g := by
    rw [getGroupsOverride, if_neg (by simp [itemKeepsGlobal])]
    exact if_neg fun h => h.2 rfl
  noDefault := rfl
  unfiltered := rfl
  coefficient _ := rfl
  noSquares := rfl
  noneWaived := rfl
  grouped o g hg := by
    obtain ⟨group, hin, hr⟩ := List.mem_flatMap.mp (List.mem_of_mem_filter hg)
    cases List.mem_singleton.mp hin
    exact mem_singleton.mpr (List.eq_of_mem_replicate hr)

theorem pairAtItem_eq_lookupValue : (pairAtItem.computeFromAssignment fun _ => 0).map WithTop.some =
    .ok (itemKeepsGlobal.lookupValue 0 .max (pairAtItem.groupWeight fun _ => 0)) :=
  itemKeepsGlobal_builds.computeFromAssignment_eq_lookupValue (by decide +kernel)

end Rebalancer
