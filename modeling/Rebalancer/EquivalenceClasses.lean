import Rebalancer.EquivalenceCombine

namespace Rebalancer
open List

def ObjectValues.inputs : ObjectValues n partitions → List (List ObjectId)
  | .objectBacked m => eqSetsOf m.map.entries
  | .groupBacked groupValues partitionId _ _ =>
    groupValues.entries.map fun entry => (getPartition partitions partitionId).getObjectIds entry.1

variable {partitions : List Partition}

section
variable (u : Universe partitions) (dimensionId : DimensionId)

def dimensionInputs : List (List ObjectId) :=
  match u.dimension dimensionId with
  | .static scalars => scalars.flatMap fun scalar =>
    ObjectValues.inputs (.objectBacked scalar : ObjectValues u.numObjects partitions)
  | .dynamic scopeId values _ =>
    (u.scope scopeId).scopeItemIds.flatMap fun item => (values item).inputs

def scopeItemInputs (scopeItemId : ScopeItemId) : List (List ObjectId) :=
  match u.dimension dimensionId with
  | .static scalars => scalars.flatMap fun scalar =>
    ObjectValues.inputs (.objectBacked scalar : ObjectValues u.numObjects partitions)
  | .dynamic _ values _ => (values scopeItemId).inputs

end

namespace EquivalenceSets

def GroupsRecorded (partitions : List Partition) (eq : EquivalenceSets) : Prop :=
  ∀ p g, (p, g) ∈ eq.seenPartitionGroups → (getPartition partitions p).getObjectIds g ∈ eq.combined

/-- `eq'` arises from `eq` by combining the inputs that have not been combined before. -/
structure Merged (partitions : List Partition) (eq eq' : EquivalenceSets)
    (inputs : List (List ObjectId)) : Prop where
  grows : ∀ s ∈ eq.combined, s ∈ eq'.combined
  covers : ∀ s ∈ inputs, s ∈ eq'.combined
  only : ∀ s ∈ eq'.combined, s ∈ eq.combined ∨ s ∈ inputs
  inv : ∀ n, (∀ s ∈ inputs, s.Nodup ∧ ∀ o ∈ s, o < n) → eq.Inv n → eq'.Inv n
  recorded : GroupsRecorded partitions eq'
  seenExprIds : eq'.seenExprIds = eq.seenExprIds
  seenDimensions : eq'.seenDimensions = eq.seenDimensions
  seenDimensionScopeItems : eq'.seenDimensionScopeItems = eq.seenDimensionScopeItems

theorem Merged.refl (h : GroupsRecorded partitions eq) (hin : ∀ s ∈ inputs, s ∈ eq.combined) :
    Merged partitions eq eq inputs :=
  ⟨fun _ hs => hs, hin, fun _ hs => .inl hs, fun _ _ hinv => hinv, h, rfl, rfl, rfl⟩

theorem Merged.trans (h : Merged partitions eq eq' inputs)
    (h' : Merged partitions eq' eq'' is') : Merged partitions eq eq'' (inputs ++ is') where
  grows s hs := h'.grows s (h.grows s hs)
  covers s hs := by
    rcases mem_append.mp hs with hs | hs
    · exact h'.grows s (h.covers s hs)
    · exact h'.covers s hs
  only s hs := by
    rcases h'.only s hs with hs | hs
    · rcases h.only s hs with hs | hs
      · exact .inl hs
      · exact .inr (mem_append_left _ hs)
    · exact .inr (mem_append_right _ hs)
  inv n hin hinv := by
    rw [forall_mem_append] at hin
    exact h'.inv n hin.2 (h.inv n hin.1 hinv)
  recorded := h'.recorded
  seenExprIds := h'.seenExprIds.trans h.seenExprIds
  seenDimensions := h'.seenDimensions.trans h.seenDimensions
  seenDimensionScopeItems := h'.seenDimensionScopeItems.trans h.seenDimensionScopeItems

theorem Merged.foldl (inputs : ι → List (List ObjectId))
    (hf : ∀ eq x, GroupsRecorded partitions eq → Merged partitions eq (f eq x) (inputs x))
    (xs : List ι) : ∀ eq, GroupsRecorded partitions eq →
      Merged partitions eq (xs.foldl f eq) (xs.flatMap inputs) := by
  induction xs with
  | nil =>
    intro eq h
    refine .refl h ?_
    intro s hs
    cases hs
  | cons x xs ih =>
    intro eq h
    have hstep := hf eq x h
    exact hstep.trans (ih _ hstep.recorded)

theorem combine_frame (eq : EquivalenceSets) (i : List ObjectId) :
    ∃ sets table seen buffer, eq.combine i = { eq with
        sets := sets, objectIdToSetId := table, seenObjects := seen,
        combineInputBySetId := buffer, combined := i :: eq.combined } := by
  rw [combine]
  generalize i.foldl (CombineInput.push eq.objectIdToSetId) ⟨eq.resizedBuffer, [], []⟩ = parts
  obtain ⟨sets, table, buffer, hf, -⟩ := foldl_splitSet_frame parts.setIdsInInput
    { eq with combineInputBySetId := parts.bySetId, combined := i :: eq.combined }
  rw [hf]
  split
  · exact ⟨_, _, _, _, rfl⟩
  · exact ⟨_, _, _, _, rfl⟩

theorem Inv.withSeen {eq : EquivalenceSets} (h : eq.Inv n) (es : List ExprId)
    (gs : List (PartitionId × GroupId)) (ds : List DimensionId)
    (is : List (DimensionId × ScopeItemId)) :
    Inv n { eq with
      seenExprIds := es, seenPartitionGroups := gs, seenDimensions := ds,
      seenDimensionScopeItems := is } :=
  ⟨⟨h.mem_iff, h.nonempty⟩, h.scratch, h.inRange, h.seen, h.unassigned, h.together⟩

theorem combine_merged_of (eq : EquivalenceSets) (i : List ObjectId)
    (h : ∀ p g, (p, g) ∈ eq.seenPartitionGroups →
      (getPartition partitions p).getObjectIds g ∈ i :: eq.combined) :
    Merged partitions eq (eq.combine i) [i] := by
  have hinv : ∀ n, (∀ s ∈ [i], s.Nodup ∧ ∀ o ∈ s, o < n) → eq.Inv n → (eq.combine i).Inv n := by
    intro n hin hinv
    obtain ⟨hnodup, hlt⟩ := hin i mem_cons_self
    exact hinv.combine hnodup hlt
  obtain ⟨sets, t, seen, b, hf⟩ := combine_frame eq i
  rw [hf] at hinv ⊢
  refine ⟨?_, ?_, ?_, hinv, h, rfl, rfl, rfl⟩
  · intro s hs
    exact mem_cons_of_mem _ hs
  · intro s hs
    rw [mem_singleton.mp hs]
    exact mem_cons_self
  · intro s hs
    rcases mem_cons.mp hs with rfl | hs
    · exact .inr mem_cons_self
    · exact .inl hs

theorem combine_merged (h : GroupsRecorded partitions eq) (i : List ObjectId) :
    Merged partitions eq (eq.combine i) [i] :=
  combine_merged_of eq i fun p g hg => mem_cons_of_mem _ (h p g hg)

theorem mappingMerge_merged [DecidableEq β] (h : GroupsRecorded partitions eq)
    (m : List (ObjectId × β)) : Merged partitions eq (eq.mappingMerge m) (eqSetsOf m) := by
  have hrun := Merged.foldl (fun s => [s]) (fun _ s hg => combine_merged hg s) (eqSetsOf m) eq h
  rw [flatMap_singleton'] at hrun
  cases m with
  | nil => exact hrun
  | cons e m => exact hrun

variable (h : GroupsRecorded partitions eq)
include h

theorem mappingMergeGroup_merged (p : PartitionId) (g : GroupId) :
    Merged partitions eq (mappingMergeGroup partitions eq p g)
      [(getPartition partitions p).getObjectIds g] := by
  rw [mappingMergeGroup]
  split_ifs with hseen
  · refine .refl h ?_
    intro s hs
    rw [mem_singleton.mp hs]
    exact h p g hseen
  · have hrecorded : ∀ p' g', (p', g') ∈ (p, g) :: eq.seenPartitionGroups →
        (getPartition partitions p').getObjectIds g' ∈
          (getPartition partitions p).getObjectIds g :: eq.combined := by
      intro p' g' hg
      rcases mem_cons.mp hg with he | hg
      · cases he
        exact mem_cons_self
      · exact mem_cons_of_mem _ (h p' g' hg)
    have hm := combine_merged_of
      { eq with seenPartitionGroups := (p, g) :: eq.seenPartitionGroups } _ hrecorded
    exact { hm with inv := fun n hin hinv => hm.inv n hin (hinv.withSeen _ _ _ _) }

theorem mappingMergeValues_merged (vs : ObjectValues n partitions) :
    Merged partitions eq (eq.mappingMergeValues vs) vs.inputs := by
  cases vs with
  | objectBacked m => exact mappingMerge_merged h _
  | groupBacked g p d disjoint =>
    have hrun := Merged.foldl (fun e : Nat × ℚ => [(getPartition partitions p).getObjectIds e.1])
      (fun _ e hg => mappingMergeGroup_merged hg p e.1) g.entries eq h
    rw [← map_eq_flatMap] at hrun
    exact hrun

theorem foldl_values_merged (vs : ι → ObjectValues n partitions) (xs : List ι) :
    Merged partitions eq (xs.foldl (fun eq x => eq.mappingMergeValues (vs x)) eq)
      (xs.flatMap fun x => (vs x).inputs) :=
  Merged.foldl _ (fun _ x hg => mappingMergeValues_merged hg (vs x)) xs eq h

end EquivalenceSets

inductive MergeCall (u : Universe partitions) : Type 1 where
  | combine (input : List ObjectId)
  | mapping {β : Type} [DecidableEq β] (mapping : List (ObjectId × β))
  | exprMapping {β : Type} [DecidableEq β] (exprId : ExprId) (mapping : List (ObjectId × β))
  | values (values : ObjectValues u.numObjects partitions)
  | exprValues (exprId : ExprId) (values : ObjectValues u.numObjects partitions)
  | partition (partitionId : PartitionId)
  | group (partitionId : PartitionId) (groupId : GroupId)
  | dimension (dimensionId : DimensionId)
  | scopeItem (dimensionId : DimensionId) (scopeItemId : ScopeItemId)

namespace MergeCall
variable {u : Universe partitions}

def run (eq : EquivalenceSets) : MergeCall u → EquivalenceSets
  | combine input => eq.combine input
  | mapping m => eq.mappingMerge m
  | exprMapping exprId m => eq.mappingMergeExpr exprId m
  | values v => eq.mappingMergeValues v
  | exprValues exprId v => eq.mappingMergeExprValues exprId v
  | partition p => eq.mappingMergePartition partitions p
  | group p g => eq.mappingMergeGroup partitions p g
  | dimension d => eq.mappingMergeDimension u d
  | scopeItem d s => eq.mappingMergeScopeItem u d s

def inputs : MergeCall u → List (List ObjectId)
  | combine input => [input]
  | mapping m => eqSetsOf m
  | exprMapping _ m => eqSetsOf m
  | values v => v.inputs
  | exprValues _ v => v.inputs
  | partition p => (getPartition partitions p).getGroupIds.map
    (getPartition partitions p).getObjectIds
  | group p g => [(getPartition partitions p).getObjectIds g]
  | dimension d => dimensionInputs u d
  | scopeItem d s => scopeItemInputs u d s

def exprId? : MergeCall u → Option ExprId
  | exprMapping exprId _ => some exprId
  | exprValues exprId _ => some exprId
  | _ => none

def Distinct (call : MergeCall u) : Prop := ∀ s ∈ call.inputs, s.Nodup ∧ ∀ o ∈ s, o < u.numObjects

end MergeCall

namespace EquivalenceSets
variable {u : Universe partitions}

/-- Whatever will be skipped has been combined; `exprInputs` gives the inputs of each
expression. -/
structure Recorded (u : Universe partitions) (exprInputs : ExprId → List (List ObjectId))
    (eq : EquivalenceSets) : Prop where
  groups : GroupsRecorded partitions eq
  exprs : ∀ id ∈ eq.seenExprIds, ∀ s ∈ exprInputs id, s ∈ eq.combined
  dimensions : ∀ d ∈ eq.seenDimensions, ∀ s ∈ dimensionInputs u d, s ∈ eq.combined
  scopeItems : ∀ d i, (d, i) ∈ eq.seenDimensionScopeItems →
    ∀ s ∈ scopeItemInputs u d i, s ∈ eq.combined

/-- `Merged`, except that the call may be marked as seen; `complete` says that nothing new is
skipped. -/
structure Called (u : Universe partitions) (exprInputs : ExprId → List (List ObjectId))
    (complete : Prop) (eq eq' : EquivalenceSets) (inputs : List (List ObjectId)) : Prop where
  recorded : Recorded u exprInputs eq'
  grows : ∀ s ∈ eq.combined, s ∈ eq'.combined
  only : ∀ s ∈ eq'.combined, s ∈ eq.combined ∨ s ∈ inputs
  covers : complete → ∀ s ∈ inputs, s ∈ eq'.combined
  inv : ∀ n, (∀ s ∈ inputs, s.Nodup ∧ ∀ o ∈ s, o < n) → eq.Inv n → eq'.Inv n

section
variable (hr : Recorded u exprInputs eq)
include hr

theorem Merged.called (h : Merged partitions { eq with
      seenExprIds := es, seenDimensions := ds, seenDimensionScopeItems := is }
      eq' inputs)
    (he : ∀ id ∈ es, id ∈ eq.seenExprIds ∨ ∀ s ∈ exprInputs id, s ∈ inputs)
    (hdi : ∀ d ∈ ds, d ∈ eq.seenDimensions ∨ dimensionInputs u d = inputs)
    (hit : ∀ d i, (d, i) ∈ is →
      (d, i) ∈ eq.seenDimensionScopeItems ∨ scopeItemInputs u d i = inputs) :
    Called u exprInputs c eq eq' inputs where
  recorded := by
    refine ⟨h.recorded, ?_, ?_, ?_⟩
    · intro id hid s hs
      rw [h.seenExprIds] at hid
      rcases he id hid with hold | hn
      · exact h.grows s (hr.exprs id hold s hs)
      · exact h.covers s (hn s hs)
    · intro d hd s hs
      rw [h.seenDimensions] at hd
      rcases hdi d hd with hold | heq
      · exact h.grows s (hr.dimensions d hold s hs)
      · exact h.covers s (heq ▸ hs)
    · intro d i hi s hs
      rw [h.seenDimensionScopeItems] at hi
      rcases hit d i hi with hold | heq
      · exact h.grows s (hr.scopeItems d i hold s hs)
      · exact h.covers s (heq ▸ hs)
  grows := h.grows
  only := h.only
  covers _ := h.covers
  inv n hin hinv := h.inv n hin (hinv.withSeen _ _ _ _)

theorem Called.of_merged (h : Merged partitions eq eq' inputs) :
    Called u exprInputs c eq eq' inputs :=
  h.called hr (fun _ hid => .inl hid) (fun _ hd => .inl hd) (fun _ _ hi => .inl hi)

theorem Called.skip (h : c → ∀ s ∈ inputs, s ∈ eq.combined) : Called u exprInputs c eq eq inputs :=
  ⟨hr, fun _ hs => hs, fun _ hs => .inl hs, h, fun _ _ hinv => hinv⟩

end

section
variable (h : GroupsRecorded partitions eq) (d : DimensionId)
include h

theorem mergeDimension_merged :
    Merged partitions eq (mergeDimension u eq d) (dimensionInputs u d) := by
  rw [mergeDimension, dimensionInputs]
  cases u.dimension d with
  | static s => exact foldl_values_merged h _ s
  | dynamic i values v => exact foldl_values_merged h values _

theorem mergeScopeItem_merged
    (i : ScopeItemId) : Merged partitions eq (mergeScopeItem u eq d i) (scopeItemInputs u d i) := by
  rw [mergeScopeItem, scopeItemInputs]
  cases u.dimension d with
  | static s => exact foldl_values_merged h _ s
  | dynamic scopeId values v => exact mappingMergeValues_merged h (values i)

end

section
variable (hr : Recorded u exprInputs eq)
include hr

theorem dimension_called (d : DimensionId) :
    Called u exprInputs c eq (eq.mappingMergeDimension u d) (dimensionInputs u d) := by
  rw [mappingMergeDimension]
  split_ifs with hs
  · exact .skip hr fun _ => hr.dimensions d hs
  · have hg : GroupsRecorded partitions { eq with seenDimensions := d :: eq.seenDimensions } :=
      hr.groups
    refine (mergeDimension_merged hg d).called hr (fun _ hid => .inl hid) ?_ (fun _ _ hi => .inl hi)
    intro d' hd
    rcases mem_cons.mp hd with rfl | hd
    · exact .inr rfl
    · exact .inl hd

theorem scopeItem_called (d : DimensionId) (i : ScopeItemId) :
    Called u exprInputs c eq (eq.mappingMergeScopeItem u d i) (scopeItemInputs u d i) := by
  rw [mappingMergeScopeItem]
  split_ifs with hs
  · exact .skip hr fun _ => hr.scopeItems d i hs
  · have hg : GroupsRecorded partitions
        { eq with seenDimensionScopeItems := (d, i) :: eq.seenDimensionScopeItems } := hr.groups
    refine (mergeScopeItem_merged hg d i).called hr (fun _ hid => .inl hid) (fun _ hd => .inl hd) ?_
    intro d' i' hi
    rcases mem_cons.mp hi with he | hi
    · cases he
      exact .inr rfl
    · exact .inl hi

theorem expr_called {f : EquivalenceSets → EquivalenceSets}
    {id : ExprId} (hf : ∀ eq, GroupsRecorded partitions eq → Merged partitions eq (f eq) inputs)
    (hid : ∀ s ∈ exprInputs id, s ∈ inputs) (hco : c → ∀ s ∈ inputs, s ∈ exprInputs id) :
    Called u exprInputs c eq (if id ∈ eq.seenExprIds then eq
      else f { eq with seenExprIds := id :: eq.seenExprIds }) inputs := by
  split_ifs with hseen
  · exact .skip hr fun hc s hs => hr.exprs id hseen s (hco hc s hs)
  · refine (hf { eq with seenExprIds := id :: eq.seenExprIds } hr.groups).called hr ?_
      (fun _ hd => .inl hd) (fun _ _ hi => .inl hi)
    intro id' hm
    rcases mem_cons.mp hm with rfl | hm
    · exact .inr hid
    · exact .inl hm

theorem call_called (call : MergeCall u)
    (hid : ∀ id, call.exprId? = some id → ∀ s ∈ exprInputs id, s ∈ call.inputs) :
    Called u exprInputs (∀ id, call.exprId? = some id → ∀ s ∈ call.inputs, s ∈ exprInputs id)
      eq (call.run eq) call.inputs := by
  cases call with
  | combine input => exact .of_merged hr (combine_merged hr.groups input)
  | mapping m => exact .of_merged hr (mappingMerge_merged hr.groups m)
  | exprMapping id m =>
    exact expr_called hr (fun _ hg => mappingMerge_merged hg m) (hid id rfl) fun hc => hc id rfl
  | values v => exact .of_merged hr (mappingMergeValues_merged hr.groups v)
  | exprValues id v =>
    exact expr_called hr (fun _ hg => mappingMergeValues_merged hg v) (hid id rfl)
      fun hc => hc id rfl
  | partition p =>
    have hrun := Merged.foldl (fun g => [(getPartition partitions p).getObjectIds g])
      (fun _ g hg => mappingMergeGroup_merged hg p g) (getPartition partitions p).getGroupIds eq
      hr.groups
    rw [← map_eq_flatMap] at hrun
    exact .of_merged hr hrun
  | group p g => exact .of_merged hr (mappingMergeGroup_merged hr.groups p g)
  | dimension d => exact dimension_called hr d
  | scopeItem d i => exact scopeItem_called hr d i

end

theorem Recorded.new : Recorded u is .new := by
  refine ⟨?_, ?_, ?_, ?_⟩
  · intro p g hg
    cases hg
  · intro id hid
    cases hid
  · intro d hd
    cases hd
  · intro d i hi
    cases hi

theorem calls_called (is : ExprId → List (List ObjectId)) (cs : List (MergeCall u)) :
    ∀ eq, Recorded u is eq →
    (∀ call ∈ cs, ∀ id, call.exprId? = some id → ∀ s ∈ is id, s ∈ call.inputs) → Called u is
      (∀ call ∈ cs, ∀ id, call.exprId? = some id → ∀ s ∈ call.inputs, s ∈ is id)
      eq (cs.foldl MergeCall.run eq) (cs.flatMap MergeCall.inputs) := by
  induction cs with
  | nil =>
    intro eq hr _
    refine .skip hr ?_
    intro _ s hs
    cases hs
  | cons call cs ih =>
    intro eq hr hi
    have hstep := call_called hr call (hi call mem_cons_self)
    have hrun := ih _ hstep.recorded fun c hc => hi c (mem_cons_of_mem _ hc)
    refine ⟨hrun.recorded, fun s hs => hrun.grows s (hstep.grows s hs), ?_, ?_, ?_⟩
    · intro s hs
      rw [flatMap_cons, mem_append]
      rcases hrun.only s hs with hs | hs
      · exact (hstep.only s hs).imp_right .inl
      · exact .inr (.inr hs)
    · intro hc s hs
      rcases mem_append.mp hs with hs | hs
      · exact hrun.grows s (hstep.covers (hc call mem_cons_self) s hs)
      · exact hrun.covers (fun c hm => hc c (mem_cons_of_mem _ hm)) s hs
    · intro n hin hinv
      rw [flatMap_cons, forall_mem_append] at hin
      exact hrun.inv n hin.2 (hstep.inv n hin.1 hinv)

end EquivalenceSets

end Rebalancer
