import Rebalancer.LookupConstrained
import Rebalancer.PenaltyEncoding

namespace Rebalancer
open Finset Nat

namespace ObjectPartitionLookup
variable {u : Universe partitions}

def value (l : ObjectPartitionLookup u) (o : ObjectId) (s : Option ScopeItemId) : ℚ :=
  (u.dimension l.objectPartition.dimensionId).getValue o s

/-- Equivalence sets as the merging of the lookup and its partition leaves them, with the object
that `begin` of each set gives. -/
structure EquivalentObjects (l : ObjectPartitionLookup u) where
  setAt : ObjectId → EquivalenceSetId
  first : EquivalenceSetId → ObjectId
  first_spec : ∀ o < u.numObjects,
    first (setAt o) < u.numObjects ∧ setAt (first (setAt o)) = setAt o
  agree : ∀ o < u.numObjects, ∀ o' < u.numObjects, setAt o = setAt o' →
    (∀ g, (l.objectPartition.getObjectGroups o).count g =
      (l.objectPartition.getObjectGroups o').count g) ∧
    (o ∈ l.initialDuringObjects ↔ o' ∈ l.initialDuringObjects) ∧
    ∀ s, l.objectPartition.acceptable s = true → l.value o s = l.value o' s

namespace EquivalentObjects
variable {l : ObjectPartitionLookup u}

variable (e : l.EquivalentObjects)

def getSet (equivSet : EquivalenceSetId) : Finset ObjectId :=
  (range u.numObjects).filter fun o => e.setAt o = equivSet

def counts (a : Assignment) (equivSet : EquivalenceSetId) (c : ContainerId) : Nat :=
  ((e.getSet equivSet).filter fun o => a o = c).card

def equivSets (g : GroupId) : Finset EquivalenceSetId :=
  ((range u.numObjects).filter fun o => g ∈ l.objectPartition.getObjectGroups o).image e.setAt

def objectCopyCountInGroup (g : GroupId) (equivSet : EquivalenceSetId) : Nat :=
  (l.objectPartition.getObjectGroups (e.first equivSet)).count g

end EquivalentObjects

section
variable (l : ObjectPartitionLookup u)

section
variable (e : l.EquivalentObjects) (x : EquivalenceSetId → ContainerId → Nat)

def setSum (equivSet : EquivalenceSetId) : ℚ :=
  let objectId := e.first equivSet
  if l.scopeMatchesDimensionScope = true ∧ objectId ∈ l.initialDuringObjects then
    (e.getSet equivSet).card * l.value objectId (some l.scopeItemId)
  else ∑ c ∈ l.lookupContainers.elems.toFinset,
    l.value objectId (l.getDimensionScopeItemId c) * x equivSet c

def maxObjectWeight (objectId : ObjectId) : ℚ :=
  if l.scopeMatchesDimensionScope then l.value objectId (some l.scopeItemId)
  else maxOf (0 :: l.lookupContainers.elems.map fun c =>
    l.value objectId (l.getDimensionScopeItemId c))

def excess (weight : ℚ) (g : GroupId) : ℚ :=
  match l.bound with
  | .max => weight - l.limitOf g
  | .min => l.limitOf g - weight

def lpSum (g : GroupId) : ℚ :=
  l.excess (∑ s ∈ e.equivSets g, e.objectCopyCountInGroup g s * l.setSum e x s) g

end

/-- The weight of the group if all its objects are there, each where it weighs most. -/
def largestWeight (e : l.EquivalentObjects) (g : GroupId) : ℚ := ∑ s ∈ e.equivSets g,
    (e.getSet s).card * e.objectCopyCountInGroup g s * l.maxObjectWeight (e.first s)

def sumUb (e : l.EquivalentObjects) (g : GroupId) : ℚ := 1 + l.largestWeight e g +
    match l.bound with
    | .max => max 0 (-l.limitOf g)
    | .min => max 0 (l.limitOf g)

def lpGroups : Finset GroupId :=
  ((l.groupLimitOverrides.entries.filter fun e => e.2 < 0).map Prod.fst).toFinset ∪
    l.objectPartition.groupsWithObjects

/-- `getObjectWeight` does not throw for the scope items of the lookup. -/
def WeightsKnown : Prop := l.objectPartition.groupsWithObjects = ∅ ∨
  ∀ c ∈ l.lookupContainers.elems, l.objectPartition.acceptable (l.getDimensionScopeItemId c) = true

instance : Decidable l.WeightsKnown := inferInstanceAs (Decidable (_ ∨ _))

/-- The values that the expression of `lp` can take for the counts, with the transform `IDENTITY`.
-/
def lp (e : l.EquivalentObjects) (minimizing : Bool)
    (dynamicContainers : IdSet) (value : ℚ) (x : EquivalenceSetId → ContainerId → Nat) :
    Except String (Set ℚ) :=
  if 0 < l.groupsAllowed ∧ minimizing = false then
    .error "ObjectPartitionLookup: groupsAllowed_ > 0 when minimizing=false is not supported in LP"
  else if l.lookupContainers.elems.any (· ∈ dynamicContainers) then
    if l.WeightsKnown then
      .ok (encodedValues minimizing l.groupsAllowed l.lpGroups (l.lpSum e x) (l.sumUb e))
    else .error "The provided scope item is not in the list of acceptable scope items"
  else .ok {value}

end

variable {l : ObjectPartitionLookup u} {e : l.EquivalentObjects} {a : Assignment}

theorem EquivalentObjects.mem_getSet : o ∈ e.getSet s ↔ o < u.numObjects ∧ e.setAt o = s := by
  rw [getSet, mem_filter, mem_range]

theorem sum_getSet (hall : l.acceptsAll a = true) (hs : s = e.setAt o) (ho : o < u.numObjects)
    (g : GroupId) : ∑ o ∈ (e.getSet s).filter (· ∈ l.contributingObjectIds a),
      l.weightOf a o * (l.objectPartition.getObjectGroups o).count g =
    e.objectCopyCountInGroup g s * l.setSum e (e.counts a) s := by
  obtain ⟨hfirst, hset⟩ := e.first_spec o ho
  have ha : ∀ o' ∈ e.getSet s, _ := fun o' ho' =>
    have h := EquivalentObjects.mem_getSet.mp ho'
    e.agree o' h.1 (e.first s) (hs ▸ hfirst) (h.2.trans (hs ▸ hset.symm))
  rw [sum_congr rfl fun o' ho' => by
    rw [(ha o' (mem_filter.mp ho').1).1 g], ← sum_mul, mul_comm,
    EquivalentObjects.objectCopyCountInGroup, setSum]
  congr 1
  split
  · rename_i hd
    have hfull : (e.getSet s).filter (· ∈ l.contributingObjectIds a) = e.getSet s := by
      apply filter_true_of_mem
      intro o' ho'
      exact mem_contributingObjectIds.mpr (.inl ((ha o' ho').2.1.mpr hd.2))
    rw [hfull]
    apply sum_eq_card_nsmul
    intro o' ho'
    have hcontrib := (mem_filter.mp (hfull.symm ▸ ho')).2
    have haccept := List.all_eq_true.mp hall o' hcontrib
    rw [accepts, scopeMatches_during hd.1] at haccept
    rw [weightOf, scopeMatches_during hd.1]
    exact (ha o' ho').2.2 _ haccept
  · rename_i hn
    have hd : e.first s ∉ l.initialDuringObjects := fun h => hn ⟨matches_of_during h, h⟩
    have hmem : ∀ o' ∈ e.getSet s, (o' ∈ l.contributingObjectIds a ↔
        a o' ∈ l.lookupContainers) := by
      intro o' ho'
      rw [mem_contributingObjectIds, or_iff_right fun h => hd ((ha o' ho').2.1.mp h),
        and_iff_right (EquivalentObjects.mem_getSet.mp ho').1]
    rw [← sum_fiberwise_of_maps_to (t := l.lookupContainers.elems.toFinset) (g := a)]
    · apply sum_congr rfl
      intro c hc
      rw [mul_comm, filter_filter]
      have hf : (e.getSet s).filter (fun o => o ∈ l.contributingObjectIds a ∧ a o = c) =
          (e.getSet s).filter fun o => a o = c := by
        apply filter_congr
        intro o' ho'
        refine and_iff_right_of_imp fun h => (hmem o' ho').mpr ?_
        exact h ▸ List.mem_toFinset.mp hc
      rw [hf]
      apply sum_eq_card_nsmul
      intro o' ho'
      obtain ⟨hin, rfl⟩ := mem_filter.mp ho'
      apply (ha o' hin).2.2
      exact List.all_eq_true.mp hall o' ((hmem o' hin).mpr (List.mem_toFinset.mp hc))
    · intro o' ho'
      obtain ⟨ho', hcontrib⟩ := mem_filter.mp ho'
      exact List.mem_toFinset.mpr ((hmem o' ho').mp hcontrib)

theorem sum_equivSets (ha : l.acceptsAll a = true) (g : GroupId) :
    ∑ s ∈ e.equivSets g, e.objectCopyCountInGroup g s * l.setSum e (e.counts a) s =
      l.groupWeight a g := by
  have hsets : ∀ s ∈ e.equivSets g, ∃ o < u.numObjects, s = e.setAt o := by
    intro s hs
    obtain ⟨o, ho, rfl⟩ := mem_image.mp hs
    exact ⟨o, mem_range.mp (mem_filter.mp ho).1, rfl⟩
  rw [groupWeight_eq]
  symm
  rw [← sum_filter_of_ne (p := fun o =>
    g ∈ l.objectPartition.getObjectGroups o), ← sum_fiberwise_of_maps_to
      (t := e.equivSets g) (g := e.setAt)]
  · apply sum_congr rfl
    intro s hs
    obtain ⟨o, ho, hso⟩ := hsets s hs
    rw [← sum_getSet ha hso ho g]
    apply sum_subset_zero_on_sdiff
    · intro o' ho'
      simp only [mem_filter, List.mem_toFinset, EquivalentObjects.mem_getSet] at ho' ⊢
      exact ⟨⟨lt_of_mem_contributingObjectIds ho'.1.1, ho'.2⟩, ho'.1.1⟩
    · intro o' ho'
      simp only [mem_sdiff, mem_filter, List.mem_toFinset, EquivalentObjects.mem_getSet] at ho'
      obtain ⟨⟨⟨-, hset⟩, hc⟩, hn⟩ := ho'
      rw [List.count_eq_zero_of_not_mem fun hg => hn ⟨⟨hc, hg⟩, hset⟩, cast_zero, mul_zero]
    · intro o' _
      rfl
  · intro o ho
    obtain ⟨hc, hg⟩ := mem_filter.mp ho
    apply mem_image_of_mem
    exact mem_filter.mpr ⟨mem_range.mpr
      (lt_of_mem_contributingObjectIds (List.mem_toFinset.mp hc)), hg⟩
  · intro o _ hne
    by_contra hg
    rw [List.count_eq_zero_of_not_mem hg, cast_zero, mul_zero] at hne
    exact hne rfl

theorem lpSum_eq (ha : l.acceptsAll a = true) (g : GroupId) :
    l.lpSum e (e.counts a) g = l.excess (l.groupWeight a g) g := by
  rw [lpSum, sum_equivSets ha]

theorem sum_counts_le (s : EquivalenceSetId) (T : Finset ContainerId) :
    ∑ c ∈ T, e.counts a s c ≤ (e.getSet s).card := by
  have hcard := card_eq_sum_card_fiberwise (f := a) (t := T)
    (s := (e.getSet s).filter fun o => a o ∈ T) fun o ho => (mem_filter.mp ho).2
  refine le_trans ?_ (card_filter_le (e.getSet s) fun o => a o ∈ T)
  rw [hcard]
  apply sum_le_sum
  intro c hc
  apply card_le_card
  intro o ho
  obtain ⟨hin, rfl⟩ := mem_filter.mp ho
  exact mem_filter.mpr ⟨mem_filter.mpr ⟨hin, hc⟩, rfl⟩

theorem le_maxObjectWeight (hc : c ∈ l.lookupContainers) (o : ObjectId) :
    l.value o (l.getDimensionScopeItemId c) ≤ l.maxObjectWeight o := by
  rw [maxObjectWeight]
  split_ifs with hm
  · rw [scopeMatches_during hm]
  · exact le_maxOf (List.mem_cons_of_mem _ (List.mem_map_of_mem hc))

section
variable (hp : ∀ o s, 0 ≤ l.value o s)
include hp

theorem maxObjectWeight_nonneg (o : ObjectId) : 0 ≤ l.maxObjectWeight o := by
  rw [maxObjectWeight]
  split
  · exact hp o _
  · exact le_maxOf List.mem_cons_self

theorem setSum_between (s : EquivalenceSetId) : 0 ≤ l.setSum e (e.counts a) s ∧
      l.setSum e (e.counts a) s ≤ (e.getSet s).card * l.maxObjectWeight (e.first s) := by
  rw [setSum]
  split_ifs with hd
  · rw [maxObjectWeight, if_pos hd.1]
    exact ⟨mul_nonneg (cast_nonneg _) (hp _ _), le_rfl⟩
  · constructor
    · exact sum_nonneg fun c _ => mul_nonneg (hp _ _) (cast_nonneg _)
    · calc ∑ c ∈ l.lookupContainers.elems.toFinset,
            l.value (e.first s) (l.getDimensionScopeItemId c) * (e.counts a s c : ℚ)
          ≤ ∑ c ∈ l.lookupContainers.elems.toFinset,
              l.maxObjectWeight (e.first s) * (e.counts a s c : ℚ) := by
            apply sum_le_sum
            intro c hc
            exact mul_le_mul_of_nonneg_right (le_maxObjectWeight (List.mem_toFinset.mp hc) _)
              (cast_nonneg _)
        _ ≤ (e.getSet s).card * l.maxObjectWeight (e.first s) := by
            rw [← mul_sum, mul_comm, ← cast_sum]
            exact mul_le_mul_of_nonneg_right (cast_le.mpr (sum_counts_le s _))
              (maxObjectWeight_nonneg hp _)

theorem sum_between (g : GroupId) :
    0 ≤ ∑ s ∈ e.equivSets g, (e.objectCopyCountInGroup g s : ℚ) * l.setSum e (e.counts a) s ∧
    ∑ s ∈ e.equivSets g, (e.objectCopyCountInGroup g s : ℚ) * l.setSum e (e.counts a) s ≤
      l.largestWeight e g := by
  constructor
  · exact sum_nonneg fun s _ => mul_nonneg (cast_nonneg _) (setSum_between hp s).1
  · apply sum_le_sum
    intro s _
    rw [mul_right_comm, mul_comm]
    exact mul_le_mul_of_nonneg_right (setSum_between hp s).2 (cast_nonneg _)

theorem lpSum_le_sumUb (g : GroupId) :
    l.lpSum e (e.counts a) g ≤ l.sumUb e g ∧ 0 ≤ l.sumUb e g := by
  obtain ⟨hn, hle⟩ := sum_between (e := e) (a := a) hp g
  rw [lpSum, sumUb, excess]
  cases l.bound with
  | max =>
    have h₁ := le_max_left 0 (-l.limitOf g)
    have h₂ := le_max_right 0 (-l.limitOf g)
    exact ⟨by dsimp only; linarith, by dsimp only; linarith⟩
  | min =>
    have h₁ := le_max_left 0 (l.limitOf g)
    have h₂ := le_max_right 0 (l.limitOf g)
    exact ⟨by dsimp only; linarith, by dsimp only; linarith⟩

/-- The big-M of the encoding covers the group's distance below its limit. -/
def Covers (l : ObjectPartitionLookup u) (e : l.EquivalentObjects) (a : Assignment) (g : GroupId) :
    Prop :=
  match l.bound with
  | .max => l.limitOf g ≤ 1 + l.largestWeight e g + l.groupWeight a g
  | .min => l.groupWeight a g ≤ 1 + l.largestWeight e g + l.limitOf g

theorem covers_iff (hall : l.acceptsAll a = true) (g : GroupId) :
    -l.sumUb e g ≤ l.excess (l.groupWeight a g) g ↔ l.Covers e a g := by
  obtain ⟨hn, hle⟩ := sum_between (e := e) (a := a) hp g
  rw [sum_equivSets hall] at hn hle
  rw [sumUb, excess, Covers]
  cases l.bound with
  | max =>
    dsimp only
    rcases le_total 0 (l.limitOf g) with h | h
    · rw [max_eq_left (neg_nonpos.mpr h)]
      exact ⟨fun h => by linarith, fun h => by linarith⟩
    · rw [max_eq_right (neg_nonneg.mpr h)]
      exact iff_of_true (by linarith) (by linarith)
  | min =>
    dsimp only
    rcases le_total 0 (l.limitOf g) with h | h
    · rw [max_eq_right h]
      exact iff_of_true (by linarith) (by linarith)
    · rw [max_eq_left h]
      exact ⟨fun h => by linarith, fun h => by linarith⟩

end

/-- The exact encoding has the value of the assignment, and no other, exactly when the weights are
known and no group is further below its limit (above it for `min`) than the big-M covers. -/
theorem lp_exact_iff (l : ObjectPartitionLookup u) (e : l.EquivalentObjects)
    (hk : l.groupsAllowed = 0) {dynamicContainers : IdSet}
    (hdynamic : l.lookupContainers.elems.any (· ∈ dynamicContainers) = true) (value : ℚ)
    (hpos : ∀ o s, 0 ≤ l.value o s) (a : Assignment) (hall : l.acceptsAll a = true) :
    l.lp e false dynamicContainers value (e.counts a) =
        .ok {∑ g ∈ l.lpGroups, max 0 (l.excess (l.groupWeight a g) g)} ↔
      l.WeightsKnown ∧ ∀ g ∈ l.lpGroups, l.Covers e a g := by
  have hi := encodedValues_exact_iff (s := l.lpGroups)
    (fun g _ => (lpSum_le_sumUb (e := e) (a := a) hpos g).1)
    (fun g _ => (lpSum_le_sumUb (e := e) (a := a) hpos g).2)
  simp only [lpSum_eq hall, covers_iff hpos hall] at hi
  rw [← hi, lp, hk, if_neg fun h => absurd h.1 (lt_irrefl 0), if_pos hdynamic]
  by_cases hw : l.WeightsKnown
  · rw [if_pos hw, Except.ok.injEq, funext (lpSum_eq hall), and_iff_right hw]
  · rw [if_neg hw]
    exact iff_of_false (fun h => by cases h) fun h => hw h.1

theorem penaltyAt_lpGroups (hi : l.penaltyTransform = .identity) (hg : g ∈ l.lpGroups)
    (hu : l.objectPartition.coefficientOf g = 1) :
    l.penaltyAt a g = max 0 (l.excess (l.groupWeight a g) g) := by
  by_cases hr : l.objectPartition.partitionInfo.isRelevant g = true
  · rw [penaltyAt, penaltyOf_of_relevant hr, hu, mul_one, computePenalty, hi, excess]
    cases hb : l.bound with
    | max => rfl
    | min =>
      rw [neg_sub]
      rfl
  · have hempty : g ∉ l.objectPartition.groupsWithObjects := fun h =>
      hr (groupsWithObjects_relevant h)
    obtain ⟨⟨g', v⟩, he, rfl⟩ := List.mem_map.mp
      (List.mem_toFinset.mp ((mem_union.mp hg).resolve_right hempty))
    obtain ⟨hmem, hn⟩ := List.mem_filter.mp he
    have hn : v < 0 := of_decide_eq_true hn
    rw [penaltyAt, penaltyOf_of_not_relevant hr, groupWeight_of_empty hempty, excess]
    cases hb : l.bound with
    | max =>
      refine absurd (l.overridesRelevant _ hmem ?_) hr
      rw [hb]
      exact decide_eq_true hn
    | min =>
      have hlimit : l.limitOf g' = v := by
        rw [limitOf, IdMap.get?, lookup_of_mem l.groupLimitOverrides.nodup hmem]
      rw [hlimit, sub_zero]
      exact (max_eq_left hn.le).symm

/-- Known weights, unit coefficients, and an entry for every encoded group, and no other, that is
penalised empty. -/
structure Encodable (l : ObjectPartitionLookup u) : Prop where
  weights : l.WeightsKnown
  unit : ∀ g ∈ l.lpGroups, l.objectPartition.coefficientOf g = 1
  permanent : ∀ g ∈ l.lpGroups, l.penaltyOf 0 g ≠ 0 → l.Permanent g
  listed : ∀ g ∈ l.initialGroups, g ∉ l.lpGroups → l.penaltyOf 0 g = 0

theorem Encodable.leastSum_eq (h : l.Encodable) (a : Assignment) :
    leastSum l.groupsAllowed l.lpGroups (l.penaltyAt a) = l.valueAt a := by
  rw [valueAt, leastSum_eq_of_subset (t := l.lpGroups ∪ l.entered a) subset_union_left,
    leastSum_eq_of_subset (s := l.entered a) subset_union_right]
  · intro g hg
    obtain ⟨hmem, hn⟩ := mem_sdiff.mp hg
    rw [penaltyAt, groupWeight_of_not_entered hn]
    by_contra hne
    exact hn ((h.permanent g ((mem_union.mp hmem).resolve_right hn) hne).entered a)
  · intro g hg
    obtain ⟨hmem, hn⟩ := mem_sdiff.mp hg
    have he : g ∉ l.objectPartition.groupsWithObjects := fun h =>
      hn (mem_union_right _ h)
    rw [penaltyAt, groupWeight_of_empty he]
    exact h.listed g (initial_of_entered he ((mem_union.mp hmem).resolve_left hn)) hn

/-- The least value of the minimizing encoding is the value of the assignment. -/
theorem lp_minimizing_least (l : ObjectPartitionLookup u) (e : l.EquivalentObjects)
    (hidentity : l.penaltyTransform = .identity) {dynamicContainers : IdSet}
    (hdynamic : l.lookupContainers.elems.any (· ∈ dynamicContainers) = true) (value : ℚ)
    (hpos : ∀ o s, 0 ≤ l.value o s) (h : l.Encodable) (a : Assignment)
    (ha : l.computeFromAssignment a = .ok v) :
    ∃ S, l.lp e true dynamicContainers value (e.counts a) = .ok S ∧ IsLeast S v := by
  obtain ⟨hall, rfl⟩ := acceptsAll_of_ok ha
  refine ⟨encodedValues true l.groupsAllowed l.lpGroups (l.lpSum e (e.counts a))
    (l.sumUb e), ?_, ?_⟩
  · rw [lp, if_neg fun h => Bool.noConfusion h.2, if_pos hdynamic, if_pos h.weights]
  · rw [← h.leastSum_eq a, leastSum_congr fun g hg => by
      rw [penaltyAt_lpGroups hidentity hg (h.unit g hg), ← lpSum_eq (e := e) hall]]
    exact encodedValues_least fun g _ => (lpSum_le_sumUb hpos g).1

def ownSets (l : ObjectPartitionLookup u) : l.EquivalentObjects where
  setAt := id
  first := id
  first_spec _ ho := ⟨ho, rfl⟩
  agree o _ o' _ h := by
    cases (h : o = o')
    exact ⟨fun _ => rfl, Iff.rfl, fun _ _ => rfl⟩

end ObjectPartitionLookup

open ObjectPartitionLookup

theorem oneGroupLookup_value_nonneg (o : ObjectId) (s : Option ScopeItemId) :
    0 ≤ (oneGroupLookup l k b).value o s := by
  match o with
  | 0 => exact (by decide +kernel : (0 : ℚ) ≤ 1)
  | _ + 1 => exact le_refl (0 : ℚ)

/-- A limit of `10` on a group of total weight `1` leaves the exact encoding without solution. -/
theorem lp_exact_infeasible : (oneGroupLookup 10 0 .max).lp (ownSets _) false
    ⟨[0], List.nodup_singleton 0⟩ 0 ((ownSets (oneGroupLookup 10 0 .max)).counts fun _ => 0) =
      .ok ∅ := by
  have hs : (oneGroupLookup 10 0 .max).lpSum (ownSets _)
      ((ownSets (oneGroupLookup 10 0 .max)).counts fun _ => 0) 0 = -9 := by decide +kernel
  have hub : (oneGroupLookup 10 0 .max).sumUb (ownSets _) 0 = 2 := by decide +kernel
  have hmem : 0 ∈ (oneGroupLookup 10 0 .max).lpGroups := by decide +kernel
  rw [ObjectPartitionLookup.lp, if_neg (by decide +kernel), if_pos (by decide +kernel),
    if_pos (by decide +kernel)]
  congr 1
  apply Set.eq_empty_of_forall_notMem
  rintro v ⟨x, hx, -⟩
  have hn := hx.nonneg 0 hmem
  have hb := (hx.below rfl 0 hmem).2
  split at hb <;> linarith

theorem lp_exact_iff_small_limit : (oneGroupLookup 2 0 .max).lp (ownSets _) false
    ⟨[0], List.nodup_singleton 0⟩ 0 ((ownSets (oneGroupLookup 2 0 .max)).counts fun _ => 0) =
      .ok {∑ g ∈ (oneGroupLookup 2 0 .max).lpGroups, max 0
        ((oneGroupLookup 2 0 .max).excess
          ((oneGroupLookup 2 0 .max).groupWeight (fun _ => 0) g) g)} :=
  ((oneGroupLookup 2 0 .max).lp_exact_iff (ownSets _) rfl (by decide +kernel) 0
    oneGroupLookup_value_nonneg (fun _ => 0) (by decide +kernel)).mpr ⟨by decide +kernel, by
      change ∀ g ∈ (oneGroupLookup 2 0 .max).lpGroups, (oneGroupLookup 2 0 .max).limitOf g ≤ _
      decide +kernel⟩

def doubledLookup :
    ObjectPartitionLookup (weightedUniverse [1] ⟨[(0, [0])], oneGroup_nodup⟩ oneGroup_lt) :=
  plainLookup .empty 2 zero_le_two 0 .max

/-- The group counts twice in the value, but the encoding ignores coefficients. -/
theorem lp_minimizing_below : doubledLookup.computeFromAssignment (fun _ => 0) = .ok 2 ∧
    ∃ S, doubledLookup.lp (ownSets _) true ⟨[0], List.nodup_singleton 0⟩ 2
      ((ownSets doubledLookup).counts fun _ => 0) = .ok S ∧ 1 ∈ S := by
  refine ⟨by decide +kernel, encodedValues true 0 doubledLookup.lpGroups
    (doubledLookup.lpSum (ownSets _) ((ownSets doubledLookup).counts fun _ => 0))
    (doubledLookup.sumUb (ownSets _)), ?_, ⟨fun _ => 1, fun _ => false, fun _ => false⟩,
    ⟨fun _ _ => zero_le_one, by decide +kernel, fun h => absurd h (by decide),
      nofun⟩, by decide +kernel⟩
  rfl

theorem lp_minimizing_least_over_limit : ∃ S, (oneGroupLookup 0 0 .max).lp (ownSets _) true
    ⟨[0], List.nodup_singleton 0⟩ 0 ((ownSets (oneGroupLookup 0 0 .max)).counts fun _ => 0) =
      .ok S ∧ IsLeast S 1 := by
  refine (oneGroupLookup 0 0 .max).lp_minimizing_least (ownSets _) rfl (by decide +kernel) 0
    oneGroupLookup_value_nonneg ⟨by decide +kernel, by decide +kernel, ?_, ?_⟩ (fun _ => 0)
      (by decide +kernel)
  · intro g hg hne
    have hzero : ∀ g ∈ (oneGroupLookup 0 0 .max).lpGroups,
        (oneGroupLookup 0 0 .max).penaltyOf 0 g = 0 := by
      decide +kernel
    exact absurd (hzero g hg) hne
  · intro g hg
    exact absurd hg List.not_mem_nil

end Rebalancer
