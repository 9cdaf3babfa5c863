import Rebalancer.EquivalenceSoundness

namespace Rebalancer
open List EquivalenceSets Nat ObjectPartitionLookup Orchestrator ExpressionDag

namespace EquivalenceSets

theorem foldl_splitSet_none (ids : List Nat) : ∀ eq : EquivalenceSets, ids.Nodup →
    (∀ i ∈ ids, (eq.combineInputBySetId.getD i []).length = (eq.getSet i).card) →
    ∃ buffer, ids.foldl splitSet eq = { eq with combineInputBySetId := buffer } := by
  induction ids with
  | nil =>
    intro eq _ _
    exact ⟨eq.combineInputBySetId, rfl⟩
  | cons i ids ih =>
    intro eq hn h
    rw [nodup_cons] at hn
    have hs : eq.splitSet i =
        { eq with combineInputBySetId := eq.combineInputBySetId.set i [] } := by
      rw [splitSet_eq, if_neg (not_not.mpr (h i mem_cons_self))]
    obtain ⟨buffer, hr⟩ := ih (eq.splitSet i) hn.2 (by
      intro j hj
      have hne : i ≠ j := fun he => hn.1 (he ▸ hj)
      rw [hs]
      rw [getD_set_ne hne]
      exact h j (mem_cons_of_mem _ hj))
    refine ⟨buffer, ?_⟩
    rw [foldl_cons, hr, hs]

theorem addUnseen_size_le (eq : EquivalenceSets) (u : List ObjectId) :
    (eq.addUnseen u).size ≤ eq.size + 1 := by
  cases u with
  | nil => exact le_succ _
  | cons item u => exact le_of_eq length_append

theorem combine_of_lengths {eq : EquivalenceSets} (i' : List ObjectId) (h : eq.Valid)
    (hs : ∀ i, eq.combineInputBySetId.getD i [] = [])
    (hl : ∀ i, (∃ o ∈ i', eq.objectIdToSetId o = some i) →
      (i'.filter fun o => eq.objectIdToSetId o = some i).length = (eq.getSet i).card) :
    (eq.combine i').Valid ∧ (eq.combine i').size ≤ eq.size + 1 ∧
      ∀ o, (eq.combine i').objectIdToSetId o =
        if o ∈ i' ∧ eq.objectIdToSetId o = none then some eq.sets.length
        else eq.objectIdToSetId o := by
  have hc := collected hs h.mem_iff i'
  rw [combine]
  generalize i'.foldl (CombineInput.push eq.objectIdToSetId) ⟨eq.resizedBuffer, [], []⟩ = parts
    at hc
  let start : EquivalenceSets :=
    { eq with combineInputBySetId := parts.bySetId, combined := i' :: eq.combined }
  obtain ⟨b, hr⟩ := foldl_splitSet_none parts.setIdsInInput start hc.nodup_ids (by
    intro i hi
    exact (congrArg length (hc.bySetId i)).trans (hl i ((hc.mem_ids i).mp hi)))
  change Valid ((parts.setIdsInInput.foldl splitSet start).addUnseen parts.unseenObjects) ∧
    ((parts.setIdsInInput.foldl splitSet start).addUnseen parts.unseenObjects).size ≤ _ ∧
    ∀ o, ((parts.setIdsInInput.foldl splitSet start).addUnseen
      parts.unseenObjects).objectIdToSetId o = _
  rw [hr]
  have hv : Valid { start with combineInputBySetId := b } := ⟨h.mem_iff, h.nonempty⟩
  refine ⟨hv.addUnseen ?_, addUnseen_size_le _ _, ?_⟩
  · intro o ho
    rw [hc.unseen, mem_filter] at ho
    exact of_decide_eq_true ho.2
  · intro o
    rw [addUnseen_table, hc.unseen]
    simp only [mem_filter, decide_eq_true_eq]
    rfl

theorem mem_getSet_finalize {eq : EquivalenceSets} (h : x ∈ eq.getSet i) (n : Nat) :
    x ∈ (eq.finalize n).getSet i := by
  rw [finalize]
  split
  · exact h
  · refine (mem_getSet_addToNewSet _ _ i x).mpr (.inl ⟨?_, h⟩)
    by_contra hlen
    rw [getSet, getD_eq_default _ _ (Nat.le_of_not_lt hlen)] at h
    exact Finset.notMem_empty x h

end EquivalenceSets

def NoRepeats (partitions : List Partition) : Prop :=
  ∀ p ∈ partitions, ∀ group ∈ p.groups, group.2.Nodup

theorem NoRepeats.nodup (h : NoRepeats ps) (p : PartitionId)
    (g : GroupId) : ((getPartition ps p).getObjectIds g).Nodup := by
  by_cases hp : p < ps.length
  · rw [getPartition, getD_eq_getElem _ _ hp, Partition.getObjectIds]
    cases hl : (ps[p].groups).lookup g with
    | none => exact .nil
    | some os => exact h _ (getElem_mem hp) (g, os) (mem_of_lookup hl)
  · rw [getPartition, getD_eq_default _ _ (Nat.le_of_not_lt hp)]
    exact .nil

def twoLookupGraph : ExpressionGraph ExprId where
  children n := if n = 1 then [0] else if n = 3 then [2] else []
  children_nodup n := by
    split
    · exact nodup_singleton 0
    · split
      · exact nodup_singleton 2
      · exact .nil
  depth n := if n = 1 ∨ n = 3 then 1 else 0
  depth_lt n c hc := by
    split at hc
    · rename_i hn
      rw [mem_singleton.mp hc, hn]
      decide
    · split at hc
      · rename_i hn
        rw [mem_singleton.mp hc, hn]
        decide
      · cases hc
  isAffectedByChange _ _ := none
  directlyAffectedContainers _ := none

theorem twoLookupGraph_init (data : AffectedByChangeDecisionData) :
    ∃ o, init twoLookupGraph [1, 3] data ⟨[], .nil⟩ = .ok o ∧ o.postOrder = [0, 1, 2, 3] :=
  ⟨_, rfl, rfl⟩

section
variable {partitions : List Partition}

def unitUniverse (partitions : List Partition) (n : Nat)
    (h : ∀ p ∈ partitions, ∀ group ∈ p.groups, ∀ o ∈ group.2, o < n) : Universe partitions where
  precision := defaultTolerances
  numObjects := n
  dimension _ := .static [⟨.empty, 1, fun _ he => absurd he not_mem_nil⟩]
  scope _ := ⟨[], fun _ => none⟩
  inRange := h

variable {n : Nat} {h : ∀ p ∈ partitions, ∀ group ∈ p.groups, ∀ o ∈ group.2, o < n}

section
variable (objects : List ObjectId) (hnodup : objects.Nodup) (hlt : ∀ o ∈ objects, o < n)

def indicator : ObjectValues n partitions := .objectBacked ⟨⟨objects.map fun o => (o, 1), by
      rw [map_map]
      simpa only [Function.comp_def, map_id'] using hnodup⟩, 0, by
    intro e he
    obtain ⟨o, ho, rfl⟩ := mem_map.mp he
    exact hlt o ho⟩

variable (pid : PartitionId) (g : GroupId)

def groupCount : ObjectPartition (unitUniverse partitions n h) where
  partitionInfo := ⟨pid, some ⟨[g], nodup_singleton g⟩⟩
  dimensionId := 0
  groupLimits := .empty
  scopeItemIds := none
  groupCoefficients := .empty
  defaultGroupLimit := 0
  defaultGroupCoefficient := 1
  checked := rfl

def groupCountLookup : ObjectPartitionLookup (unitUniverse partitions n h) where
  objectPartition := groupCount pid g
  lookupContainers := ⟨[0], nodup_zero⟩
  scopeId := 0
  scopeItemId := 0
  groupLimitOverrides := .empty
  initialDuringObjects := ⟨[], nodup_nil⟩
  defaultGroupLimitOverride := none
  penaltyTransform := .identity
  groupsAllowed := 0
  bound := .max
  overridesRelevant _ he := absurd he not_mem_nil
  duringScope _ _ _ _ _ := rfl
  duringInRange _ ho := absurd ho not_mem_nil

def twoLookupNode : ExprId → ExprNode (unitUniverse partitions n h)
  | 0 => .objectVector (indicator objects hnodup hlt)
  | 1 => .objectLookup ⟨0, indicator objects hnodup hlt, ⟨[0], nodup_singleton 0⟩⟩
  | 2 => .objectPartition (groupCount pid g)
  | 3 => .objectPartitionLookup (groupCountLookup pid g)
  | _ => .max

end

def twoLookupDag (h : ∀ p ∈ partitions, ∀ group ∈ p.groups, ∀ o ∈ group.2, o < n)
    (objects : List ObjectId) (hnodup : objects.Nodup) (hlt : ∀ o ∈ objects, o < n)
    (pid : PartitionId) (g : GroupId) : ExpressionDag (unitUniverse partitions n h) where
  graph := twoLookupGraph
  node := twoLookupNode objects hnodup hlt pid g
  partitionChild m l hm := by
    match m, hm with
    | 3, hm =>
      cases hm
      exact ⟨2, mem_singleton.mpr rfl, rfl⟩
  vectorChild m l hm := by
    match m, hm with
    | 0, hm => cases hm
    | 1, hm =>
      cases hm
      exact ⟨mem_singleton.mpr rfl, rfl⟩
    | 2, hm => cases hm
    | 3, hm => cases hm
    | _ + 4, hm => cases hm

theorem eqSetsOf_constant [DecidableEq β] (v : β) (hne : os ≠ []) :
    eqSetsOf (os.map fun o => (o, v)) = [os] := by
  have hr : ∀ (os acc : List ObjectId), (os.map fun o => (o, v)).foldl
      (fun e entry => addEntry entry e) [(v, acc)] = [(v, acc ++ os)] := by
    intro os
    induction os with
    | nil =>
      intro acc
      rw [append_nil]
      rfl
    | cons o os ih =>
      intro acc
      rw [map_cons, foldl_cons, addEntry, if_pos rfl, ih, append_assoc]
      rfl
  cases os with
  | nil => exact absurd rfl hne
  | cons o os =>
    rw [eqSetsOf, map_cons, foldl_cons, addEntry, hr]
    rfl

def vectorMerged (objects : List ObjectId) : EquivalenceSets :=
  combine { new with seenExprIds := [0] } objects

theorem vectorMerged_spec (hn : os.Nodup) : (vectorMerged os).Valid ∧ (vectorMerged os).size ≤ 1 ∧
      (∀ i, (vectorMerged os).combineInputBySetId.getD i [] = []) ∧
      (∀ o, (vectorMerged os).objectIdToSetId o = if o ∈ os then some 0 else none) ∧
      (vectorMerged os).seenPartitionGroups = [] ∧ (vectorMerged os).seenDimensions = [] := by
  let start : EquivalenceSets := { new with seenExprIds := [0] }
  have hs : start.Inv 0 := (Inv.new 0).withSeen _ _ _ _
  have hfirst := combine_combined hs.toValid hs.scratch hn
  obtain ⟨hv, hsize, ht⟩ := combine_of_lengths os hs.toValid hs.scratch (by
      intro i hi
      obtain ⟨o, -, ho⟩ := hi
      cases ho)
  obtain ⟨sets, t, seen, b, hf⟩ := combine_frame start os
  refine ⟨hv, hsize, hfirst.scratch, ?_, ?_, ?_⟩
  · intro o
    refine (ht o).trans ?_
    change (if o ∈ os ∧ (none : Option Nat) = none then some 0 else none) = _
    simp
  · exact congrArg seenPartitionGroups hf
  · exact congrArg seenDimensions hf

def groupMerged (objects : List ObjectId) (pid : PartitionId) (g : GroupId)
    (group : List ObjectId) :
    EquivalenceSets :=
  combine { vectorMerged objects with seenPartitionGroups := [(pid, g)] } group

theorem groupMerged_getSet (hn : os.Nodup)
    (hl : (group.filter fun o => o ∈ os).length = os.length) (hx : x ∈ os) :
    x ∈ (groupMerged os pid g group).getSet 0 := by
  obtain ⟨hvalid, -, hs, htable, -, -⟩ := vectorMerged_spec hn
  have hset : (vectorMerged os).getSet 0 = os.toFinset := by
    ext o
    rw [hvalid.mem_iff, htable, mem_toFinset]
    split
    · rename_i ho
      exact iff_of_true rfl ho
    · rename_i ho
      exact iff_of_false (Option.some_ne_none 0 ∘ Eq.symm) ho
  have hv' : Valid { vectorMerged os with seenPartitionGroups := [(pid, g)] } :=
    ⟨hvalid.mem_iff, hvalid.nonempty⟩
  obtain ⟨hv, -, ht⟩ := combine_of_lengths group hv' hs (by
    rintro i ⟨o, -, ho⟩
    have hi : i = 0 := by
      rw [htable] at ho
      split at ho
      · exact (Option.some.inj ho).symm
      · cases ho
    subst hi
    change (group.filter fun o => (vectorMerged os).objectIdToSetId o = some 0).length =
      ((vectorMerged os).getSet 0).card
    rw [hset, toFinset_card_of_nodup hn, ← hl]
    congr 2
    funext o
    rw [htable]
    by_cases ho : o ∈ os
    · simp [ho]
    · simp only [ho, ↓reduceIte, reduceCtorEq])
  have hold : (vectorMerged os).objectIdToSetId x = some 0 := by
    rw [htable, if_pos hx]
  refine (hv.mem_iff 0 x).mpr ((ht x).trans ?_)
  change (if x ∈ group ∧ (vectorMerged os).objectIdToSetId x = none then _ else
    (vectorMerged os).objectIdToSetId x) = some 0
  rw [hold]
  simp

theorem twoLookup_class {objects : List ObjectId} (hne : objects ≠ []) (hno : objects.Nodup)
    (hlt : ∀ o ∈ objects, o < n) (hn : 2 ≤ n) (pid : PartitionId) (g : GroupId)
    (hle : (((getPartition partitions pid).getObjectIds g).filter fun o => o ∈ objects).length =
      objects.length) (ho : o.postOrder = [0, 1, 2, 3]) (hx : x ∈ objects) :
    x ∈ ((twoLookupDag h objects hno hlt pid g).equivalenceSets o).getSet 0 := by
  obtain ⟨-, hsize, -, -, hg, hd⟩ := vectorMerged_spec hno
  let update : ExprId → EquivalenceSets → EquivalenceSets := fun m eq =>
    (twoLookupNode objects hno hlt pid g m :
      ExprNode (unitUniverse partitions n h)).updateEquivalenceSets eq
  have hv : update 1 .new = vectorMerged objects := by
    change mappingMerge { new with seenExprIds := [0] } (objects.map fun o => (o, (1 : ℚ))) = _
    rw [mappingMerge, eqSetsOf_constant _ hne, if_neg]
    · rfl
    · rw [List.isEmpty_iff, List.map_eq_nil_iff]
      exact hne
  have hgroup : update 2 (vectorMerged objects) =
      { groupMerged objects pid g ((getPartition partitions pid).getObjectIds g) with
        seenDimensions := [0] } := by
    change mappingMergeDimension (unitUniverse partitions n h)
      ((vectorMerged objects).mappingMergeGroup partitions pid g) 0 = _
    rw [mappingMergeGroup, hg]
    change mappingMergeDimension (unitUniverse partitions n h) (groupMerged objects pid g _) 0 = _
    obtain ⟨sets, t, seen, b, hf⟩ := combine_frame
      { vectorMerged objects with seenPartitionGroups := [(pid, g)] }
      ((getPartition partitions pid).getObjectIds g)
    have hnew : (groupMerged objects pid g
        ((getPartition partitions pid).getObjectIds g)).seenDimensions = [] :=
      (congrArg seenDimensions hf).trans hd
    rw [mappingMergeDimension, hnew]
    rfl
  change x ∈ ((updateLoop update n o.postOrder .new).finalize n).getSet 0
  apply mem_getSet_finalize
  have hnew : ¬ new.size = n := by
    change ¬ 0 = n
    omega
  have hl : updateLoop update n o.postOrder .new = update 2 (vectorMerged objects) := by
    rw [ho, updateLoop, if_neg hnew]
    change updateLoop update n [1, 2, 3] .new = _
    rw [updateLoop, if_neg hnew, hv, updateLoop, if_neg (by omega), updateLoop]
    split
    · rfl
    · rfl
  rw [hl, hgroup]
  exact groupMerged_getSet hno hle hx

theorem groupCount_getObjectGroups (pid : PartitionId) (g g' : GroupId) (x : ObjectId) :
    ((groupCount pid g :
      ObjectPartition (unitUniverse partitions n h)).getObjectGroups x).count g' =
      if g' = g then ((getPartition partitions pid).getObjectIds g).count x else 0 := by
  change (((getPartition partitions pid).objectIdToGroupIds x).filter fun g' =>
    decide (g' ∈ (⟨[g], nodup_singleton g⟩ : IdSet))).count g' = _
  by_cases hg : g' = g
  · subst hg
    rw [if_pos rfl, count_filter, Partition.count_objectIdToGroupIds]
    exact decide_eq_true (mem_singleton.mpr rfl)
  · rw [if_neg hg, count_eq_zero]
    intro hm
    exact hg (mem_singleton.mp (of_decide_eq_true (mem_filter.mp hm).2))

theorem groupCountLookup_penaltyOf (pid : PartitionId) (g : GroupId) (hw : 0 ≤ weight) :
    (groupCountLookup pid g :
      ObjectPartitionLookup (unitUniverse partitions n h)).penaltyOf weight g = weight := by
  let p : ObjectPartition (unitUniverse partitions n h) := groupCount pid g
  have hr : p.partitionInfo.isRelevant g = true := decide_eq_true (mem_singleton.mpr rfl)
  have hlimit : p.getGroupLimit g = .ok 0 := by
    rw [ObjectPartition.getGroupLimit, if_pos hr]
    rfl
  have hc : p.getGroupCoefficient g = .ok 1 := by
    rw [ObjectPartition.getGroupCoefficient, if_pos hr]
    rfl
  have hp : (groupCountLookup pid g :
      ObjectPartitionLookup (unitUniverse partitions n h)).getGroupPenalty weight g =
        .ok (max 0 ((weight - 0) * 1)) := by
    change (p.getGroupLimit g >>= fun l => p.getGroupCoefficient g >>= fun c =>
      .ok (max 0 ((weight - l) * c))) = _
    rw [hlimit, except_ok_bind, hc, except_ok_bind]
  rw [penaltyOf, hp]
  rw [sub_zero, mul_one]
  exact max_eq_right hw

theorem groupCountLookup_value (hx : x < n) (ha : ∀ o, a o = 0 ↔ o = x) (pid : PartitionId)
    (g : GroupId) :
    (groupCountLookup pid g :
      ObjectPartitionLookup (unitUniverse partitions n h)).computeFromAssignment a =
      .ok (((getPartition partitions pid).getObjectIds g).count x : ℚ) := by
  let l : ObjectPartitionLookup (unitUniverse partitions n h) := groupCountLookup pid g
  have hgroups : ∀ g', (l.objectPartition.getObjectGroups x).count g' =
      if g' = g then ((getPartition partitions pid).getObjectIds g).count x else 0 :=
    fun g' => groupCount_getObjectGroups pid g g' x
  have hcontributing : l.contributingObjectIds a = [x] := by
    rw [← perm_singleton, perm_ext_iff_of_nodup (l.nodup_contributingObjectIds a)
      (nodup_singleton x)]
    intro o
    rw [mem_contributingObjectIds, mem_singleton, ← ha]
    constructor
    · intro ho
      rcases ho with ho | ho
      · cases ho
      · exact mem_singleton.mp ho.2
    · intro ho
      refine .inr ⟨?_, mem_singleton.mpr ho⟩
      rw [(ha o).mp ho]
      exact hx
  have hspec := l.computeFromAssignment_spec a
  rw [hcontributing] at hspec
  obtain ⟨i, hnodup, hmem, hvalue⟩ := hspec
  have hm' : ∀ g', g' ∈ i ↔ g' = g ∧ x ∈ (getPartition partitions pid).getObjectIds g := by
    intro g'
    have hi : g' ∈ i ↔ g' ∈ l.objectPartition.getObjectGroups x := by
      rw [hmem]
      constructor
      · rintro (hg | ⟨o, ho, hg⟩)
        · cases hg
        · rwa [mem_singleton.mp ho] at hg
      · intro hg
        exact .inr ⟨x, mem_singleton.mpr rfl, hg⟩
    rw [hi, ← count_pos_iff, hgroups, ← count_pos_iff]
    split_ifs with hg
    · rw [and_iff_right hg]
    · exact iff_of_false (lt_irrefl 0) fun hc => hg hc.1
  have hp : l.penaltyOf (l.groupWeight a g) g =
      ((getPartition partitions pid).getObjectIds g).count x := by
    have hw : l.groupWeight a g = ((getPartition partitions pid).getObjectIds g).count x := by
      rw [groupWeight, hcontributing]
      change 1 * ((l.objectPartition.getObjectGroups x).count g : ℚ) + 0 = _
      rw [hgroups, if_pos rfl, one_mul, add_zero]
    rw [hw]
    exact groupCountLookup_penaltyOf pid g (cast_nonneg _)
  refine hvalue.trans ?_
  by_cases hin : x ∈ (getPartition partitions pid).getObjectIds g
  · have hone : i = [g] := by
      rw [← perm_singleton, perm_ext_iff_of_nodup hnodup (nodup_singleton g)]
      intro g'
      rw [hm', mem_singleton, and_iff_left hin]
    rw [hone]
    change Except.ok (l.penaltyOf (l.groupWeight a g) g + 0) = _
    rw [hp, add_zero]
  · have hnone : i = [] := by
      rw [eq_nil_iff_forall_not_mem]
      intro g' hg
      exact hin ((hm' g').mp hg).2
    rw [hnone, count_eq_zero_of_not_mem hin]
    rfl

def onlyObject (x : ObjectId) : Assignment := fun o => if o = x then 0 else 1

theorem onlyObject_eq_zero : onlyObject x o = 0 ↔ o = x := by
  rw [onlyObject]
  split
  · rename_i ho
    exact iff_of_true rfl ho
  · rename_i ho
    exact iff_of_false one_ne_zero ho

theorem onlyObject_exchange_eq_zero : (onlyObject x).exchange x y o = 0 ↔ o = y := by
  rw [Assignment.exchange, Function.comp_apply, onlyObject_eq_zero, Equiv.swap_apply_eq_iff,
    Equiv.swap_apply_left]

theorem twoLookupDag_not_sound (hno : os.Nodup)
    (hlt : ∀ o ∈ os, o < n) (pid : PartitionId) (g : GroupId) (hx : x ∈ os) (hy : y ∈ os)
    (hl : (((getPartition partitions pid).getObjectIds g).filter fun o => o ∈ os).length =
      os.length) (hco : ((getPartition partitions pid).getObjectIds g).count y ≠
      ((getPartition partitions pid).getObjectIds g).count x) (ho : o.postOrder = [0, 1, 2, 3]) :
    ¬ (twoLookupDag h os hno hlt pid g).Sound [1, 3]
      ((twoLookupDag h os hno hlt pid g).equivalenceSets o) := by
  intro hs
  have hne : x ≠ y := by
    rintro rfl
    exact hco rfl
  have hn : 2 ≤ n := by
    rcases lt_or_gt_of_ne hne with hxy | hyx
    · exact le_trans (succ_le_succ (succ_le_of_lt (zero_lt_of_lt hxy))) (hlt y hy)
    · exact le_trans (succ_le_succ (succ_le_of_lt (zero_lt_of_lt hyx))) (hlt x hx)
  have hc : ∀ z ∈ os, z ∈ ((twoLookupDag h os hno hlt pid g).equivalenceSets o).getSet 0 :=
    fun z hz => twoLookup_class (ne_nil_of_mem hx) hno hlt hn pid g hl ho hz
  have hvalue : ∀ a, (twoLookupDag h os hno hlt pid g).value a 3 =
      (groupCountLookup pid g : ObjectPartitionLookup (unitUniverse partitions n h)
        ).computeFromAssignment a := by
    intro a
    rfl
  have he := hs.exchange x y 0 (hc x hx) (hc y hy) (onlyObject x) 3
    (mem_cons_of_mem _ mem_cons_self)
  rw [hvalue, hvalue, groupCountLookup_value (hlt y hy) fun _ => onlyObject_exchange_eq_zero,
    groupCountLookup_value (hlt x hx) fun _ => onlyObject_eq_zero] at he
  exact hco (cast_injective (Except.ok.inj he))

end

variable (partitions : List Partition)

theorem exists_bound : ∃ n, ∀ p ∈ partitions, ∀ group ∈ p.groups, ∀ o ∈ group.2, o < n := by
  obtain ⟨n, hn⟩ := Finset.exists_nat_subset_range
    (partitions.flatMap fun p => p.groups.flatMap Prod.snd).toFinset
  refine ⟨n, ?_⟩
  intro p hp group hg o ho
  apply Finset.mem_range.mp
  apply hn
  rw [mem_toFinset]
  exact mem_flatMap.mpr ⟨p, hp, mem_flatMap.mpr ⟨group, hg, ho⟩⟩

def paddedObjects (x n extra : Nat) : List Nat := x :: (range extra).map (n + ·)

theorem paddedObjects_nodup (hx : x < n) : (paddedObjects x n e).Nodup := by
  apply nodup_cons.mpr
  constructor
  · intro hm
    obtain ⟨i, -, hi⟩ := mem_map.mp hm
    omega
  · exact nodup_range.map (add_right_injective n)

theorem paddedObjects_lt (hx : x < n) : ∀ o ∈ paddedObjects x n extra, o < n + extra := by
  intro o ho
  rcases mem_cons.mp ho with rfl | hm
  · omega
  · obtain ⟨i, hi, rfl⟩ := mem_map.mp hm
    have := mem_range.mp hi
    omega

theorem filter_paddedObjects {g : List Nat} (hg : ∀ o ∈ g, o < n) :
    (g.filter fun o => o ∈ paddedObjects x n e).length = g.count x := by
  rw [List.count, countP_eq_length_filter]
  congr 1
  apply filter_congr
  intro o ho
  rw [Bool.eq_iff_iff, decide_eq_true_iff, beq_iff_eq]
  constructor
  · intro hm
    rcases mem_cons.mp hm with he | hm
    · exact he
    · obtain ⟨i, -, hi⟩ := mem_map.mp hm
      have := hg o ho
      omega
  · intro he
    rw [he]
    exact mem_cons_self

/-- The classes are sound for all dimensions and DAGs exactly when no group lists an object twice.
-/
theorem ExpressionDag.sound_iff_noRepeats :
    (∀ (u : Universe partitions) (dag : ExpressionDag u) (roots : List ExprId)
      (data : AffectedByChangeDecisionData) (fixedContainers : IdSet) (o : Orchestrator ExprId),
      init dag.graph roots data fixedContainers = .ok o →
        dag.Sound roots (dag.equivalenceSets o)) ↔ NoRepeats partitions := by
  constructor
  · intro hs p hp group hg
    rw [nodup_iff_count_le_one]
    intro x
    by_contra hcount
    obtain ⟨n, hn⟩ := exists_bound partitions
    obtain ⟨pid, hpid, hget⟩ := getElem_of_mem hp
    have hobjects : (getPartition partitions pid).getObjectIds group.1 = group.2 := by
      rw [getPartition, getD_eq_getElem _ _ hpid, hget, Partition.getObjectIds_of_mem hg]
    have hx : x < n := hn p hp group hg x (count_pos_iff.mp (by omega))
    let extra := group.2.count x - 1
    have hy : n ∉ group.2 := fun hm => lt_irrefl n (hn p hp group hg n hm)
    have hr : ∀ p ∈ partitions, ∀ group ∈ p.groups, ∀ o ∈ group.2, o < n + extra :=
      fun p hp group hg o ho => Nat.lt_add_right extra (hn p hp group hg o ho)
    obtain ⟨o, hinit, hpost⟩ := twoLookupGraph_init ⟨n + extra, 2⟩
    refine twoLookupDag_not_sound (h := hr) (y := n) (paddedObjects_nodup hx)
      (paddedObjects_lt hx) pid group.1 mem_cons_self ?_ ?_ ?_ hpost
      (hs _ _ _ _ _ _ hinit)
    · exact mem_cons_of_mem _ (mem_map.mpr ⟨0, mem_range.mpr (by omega), rfl⟩)
    · rw [hobjects, filter_paddedObjects (hn p hp group hg), paddedObjects, length_cons,
        length_map, length_range]
      omega
    · rw [hobjects, count_eq_zero_of_not_mem hy]
      omega
  · intro h u dag roots data fixedContainers o hinit
    exact dag.sound_of_nodup hinit h.nodup

def repeatedGroup : List Partition := [⟨[(0, [0, 0, 1])], nodup_singleton 0⟩]

def repeatedGroupDag : ExpressionDag (unitUniverse repeatedGroup 3 (by decide)) :=
  twoLookupDag _ [] nodup_nil (by decide) 0 0

/-- The group counts as three seen objects, so the third object gets no class. -/
theorem repeatedGroupDag_not_sound : ∃ o : Orchestrator ExprId,
    init repeatedGroupDag.graph [1, 3] ⟨3, 2⟩ ⟨[], .nil⟩ = .ok o ∧
      (repeatedGroupDag.equivalenceSets o).sets = [{0, 1}] ∧
      repeatedGroupDag.value (onlyObject 0) 3 = .ok 2 ∧
      repeatedGroupDag.value ((onlyObject 0).exchange 0 1) 3 = .ok 1 ∧
      ¬ repeatedGroupDag.Sound [1, 3] (repeatedGroupDag.equivalenceSets o) := by
  obtain ⟨o, hinit, hp⟩ := twoLookupGraph_init ⟨3, 2⟩
  have hs : (repeatedGroupDag.equivalenceSets o).sets = [{0, 1}] := by
    rw [equivalenceSets, updateEquivalenceSets, hp]
    decide
  have hvalue : ∀ a, repeatedGroupDag.value a 3 = (groupCountLookup 0 0 : ObjectPartitionLookup
      (unitUniverse repeatedGroup 3 (by decide))).computeFromAssignment a := by
    intro a
    rfl
  have hb : repeatedGroupDag.value (onlyObject 0) 3 = .ok 2 :=
    (hvalue _).trans (groupCountLookup_value (by decide) (fun _ => onlyObject_eq_zero) 0 0)
  have ha : repeatedGroupDag.value ((onlyObject 0).exchange 0 1) 3 = .ok 1 := (hvalue _).trans
      (groupCountLookup_value (by decide) (fun _ => onlyObject_exchange_eq_zero) 0 0)
  refine ⟨o, hinit, hs, hb, ha, ?_⟩
  intro hsound
  have hc : ∀ x ∈ ({0, 1} : Finset Nat), x ∈ (repeatedGroupDag.equivalenceSets o).getSet 0 := by
    intro x hx
    rw [getSet, hs]
    exact hx
  have he := hsound.exchange 0 1 0 (hc 0 (by decide)) (hc 1 (by decide))
    (onlyObject 0) 3 (by decide)
  rw [hb, ha] at he
  exact absurd (Except.ok.inj he) (by decide)

end Rebalancer
