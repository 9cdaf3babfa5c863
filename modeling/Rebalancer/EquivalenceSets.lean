import Rebalancer.ObjectValues
import Rebalancer.Refinement
import Rebalancer.Table

namespace Rebalancer

abbrev ExprId := Nat

/-- The classes so far; the history `combined` of the inputs of `combine` is never read. -/
structure EquivalenceSets where
  sets : List (Finset ObjectId)
  objectIdToSetId : Table ObjectId Nat
  seenObjects : Nat
  seenExprIds : List ExprId
  seenPartitionGroups : List (PartitionId × GroupId)
  seenDimensions : List DimensionId
  seenDimensionScopeItems : List (DimensionId × ScopeItemId)
  combineInputBySetId : List (List ObjectId)
  combined : List (List ObjectId)

structure CombineInput where
  bySetId : List (List ObjectId)
  setIdsInInput : List Nat
  unseenObjects : List ObjectId

def CombineInput.push (objectIdToSetId : Table ObjectId Nat) (acc : CombineInput)
    (item : ObjectId) : CombineInput :=
  match objectIdToSetId item with
  | none => { acc with unseenObjects := acc.unseenObjects ++ [item] }
  | some setId =>
    let subset := acc.bySetId.getD setId []
    { acc with
      setIdsInInput := if subset.isEmpty then acc.setIdsInInput ++ [setId] else acc.setIdsInInput
      bySetId := acc.bySetId.set setId (subset ++ [item]) }

/-- The objects of a mapping, one list for each value in the order of first appearance. -/
def addEntry [DecidableEq β] (entry : ObjectId × β) :
    List (β × List ObjectId) → List (β × List ObjectId)
  | [] => [(entry.2, [entry.1])]
  | (value, objects) :: eqSets =>
    if entry.2 = value then (value, objects ++ [entry.1]) :: eqSets
    else (value, objects) :: addEntry entry eqSets

def eqSetsOf [DecidableEq β] (mapping : List (ObjectId × β)) : List (List ObjectId) :=
  (mapping.foldl (fun eqSets entry => addEntry entry eqSets) []).map Prod.snd

namespace EquivalenceSets

def new : EquivalenceSets := ⟨[], .new, 0, [], [], [], [], [], []⟩

section
variable (eq : EquivalenceSets)

def size : Nat := eq.sets.length

def getSet (idx : Nat) : Finset ObjectId := eq.sets.getD idx ∅

def setAt (element : ObjectId) : Except String Nat :=
  match eq.objectIdToSetId element with
  | some setId => .ok setId
  | none => .error (s!"object {element} has not been assigned to any equivalence set; " ++
      "was finalize() called?")

def addToNewSet (items : List ObjectId) : EquivalenceSets := { eq with
    sets := eq.sets ++ [items.foldl (fun newSet item => insert item newSet) ∅]
    objectIdToSetId := items.foldl
      (fun table item o => if o = item then some eq.sets.length else table o) eq.objectIdToSetId }

def splitSet (setId : Nat) : EquivalenceSets :=
  let subset := eq.combineInputBySetId.getD setId []
  let split :=
    if subset.length ≠ (eq.getSet setId).card then
      addToNewSet
        { eq with sets := eq.sets.set setId (subset.foldl Finset.erase (eq.getSet setId)) } subset
    else eq
  { split with combineInputBySetId := split.combineInputBySetId.set setId [] }

def resizedBuffer : List (List ObjectId) :=
  eq.combineInputBySetId ++ List.replicate (eq.sets.length - eq.combineInputBySetId.length) []

def combine (input : List ObjectId) : EquivalenceSets :=
  let parts := input.foldl (CombineInput.push eq.objectIdToSetId) ⟨eq.resizedBuffer, [], []⟩
  let split := parts.setIdsInInput.foldl splitSet
    { eq with combineInputBySetId := parts.bySetId, combined := input :: eq.combined }
  if parts.unseenObjects.isEmpty then split
  else
    addToNewSet { split with seenObjects := split.seenObjects + parts.unseenObjects.length }
      parts.unseenObjects

/-- The number of unseen objects is a `size_t` and zero only when the two counts agree; other than
that it only reserves memory. -/
def finalize (numObjects : Nat) : EquivalenceSets :=
  if numObjects = eq.seenObjects then eq
  else
    { eq.addToNewSet ((List.range numObjects).filter fun o => (eq.objectIdToSetId o).isNone) with
      seenObjects := numObjects }

end

def mappingMerge [DecidableEq β] (eq : EquivalenceSets) (mapping : List (ObjectId × β)) :
    EquivalenceSets :=
  if mapping.isEmpty then eq else (eqSetsOf mapping).foldl combine eq

variable {partitions : List Partition}

def mappingMergeExpr [DecidableEq β] (eq : EquivalenceSets) (exprId : ExprId)
    (mapping : List (ObjectId × β)) : EquivalenceSets :=
  if exprId ∈ eq.seenExprIds then eq
  else mappingMerge { eq with seenExprIds := exprId :: eq.seenExprIds } mapping

def mappingMergeGroup (partitions : List Partition) (eq : EquivalenceSets)
    (partitionId : PartitionId) (groupId : GroupId) : EquivalenceSets :=
  if (partitionId, groupId) ∈ eq.seenPartitionGroups then eq
  else
    combine { eq with seenPartitionGroups := (partitionId, groupId) :: eq.seenPartitionGroups }
      ((getPartition partitions partitionId).getObjectIds groupId)

def mappingMergeValues (eq : EquivalenceSets) : ObjectValues n partitions → EquivalenceSets
  | .objectBacked m => eq.mappingMerge m.map.entries
  | .groupBacked groupValues partitionId _ _ =>
    groupValues.entries.foldl
      (fun eq entry => mappingMergeGroup partitions eq partitionId entry.1) eq

def mappingMergeExprValues (eq : EquivalenceSets) (exprId : ExprId)
    (values : ObjectValues n partitions) : EquivalenceSets :=
  if exprId ∈ eq.seenExprIds then eq
  else mappingMergeValues { eq with seenExprIds := exprId :: eq.seenExprIds } values

def mappingMergePartition (partitions : List Partition) (eq : EquivalenceSets)
    (partitionId : PartitionId) : EquivalenceSets :=
  (getPartition partitions partitionId).getGroupIds.foldl
    (fun eq groupId => mappingMergeGroup partitions eq partitionId groupId) eq

variable (u : Universe partitions) (eq : EquivalenceSets) (dimensionId : DimensionId)

def mergeDimension : EquivalenceSets :=
  match u.dimension dimensionId with
  | .static scalars => scalars.foldl (fun eq scalar => eq.mappingMergeValues
      (.objectBacked scalar : ObjectValues u.numObjects partitions)) eq
  | .dynamic scopeId values _ =>
    (u.scope scopeId).scopeItemIds.foldl (fun eq item => eq.mappingMergeValues (values item)) eq

def mappingMergeDimension : EquivalenceSets :=
  if dimensionId ∈ eq.seenDimensions then eq
  else mergeDimension u { eq with seenDimensions := dimensionId :: eq.seenDimensions } dimensionId

def mergeScopeItem (scopeItemId : ScopeItemId) : EquivalenceSets :=
  match u.dimension dimensionId with
  | .static scalars => scalars.foldl (fun eq scalar => eq.mappingMergeValues
      (.objectBacked scalar : ObjectValues u.numObjects partitions)) eq
  | .dynamic _ values _ => eq.mappingMergeValues (values scopeItemId)

def mappingMergeScopeItem (scopeItemId : ScopeItemId) : EquivalenceSets :=
  if (dimensionId, scopeItemId) ∈ eq.seenDimensionScopeItems then eq
  else
    mergeScopeItem u { eq with
      seenDimensionScopeItems := (dimensionId, scopeItemId) :: eq.seenDimensionScopeItems }
      dimensionId scopeItemId

end EquivalenceSets

end Rebalancer
