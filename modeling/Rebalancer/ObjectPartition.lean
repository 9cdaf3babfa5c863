import Rebalancer.GroupRoutingRing
import Rebalancer.ObjectValues

namespace Rebalancer

structure PartitionInfo where
  partitionId : PartitionId
  filteredGroupIds : Option IdSet

namespace PartitionInfo

def isRelevant (info : PartitionInfo) (groupId : GroupId) : Bool :=
  match info.filteredGroupIds with
  | none => true
  | some filtered => decide (groupId ∈ filtered)

section
variable (partitions : List Partition) (info : PartitionInfo)

def relevantGroups : List GroupId :=
  match info.filteredGroupIds with
  | none => (getPartition partitions info.partitionId).getGroupIds
  | some filtered => filtered.elems

def objectIdToGroupIds (object : ObjectId) : List GroupId :=
  ((getPartition partitions info.partitionId).objectIdToGroupIds object).filter info.isRelevant

end

end PartitionInfo

namespace ObjectDimension
variable {n : Nat} {partitions : List Partition}

def size : ObjectDimension n partitions → Nat
  | static scalars => scalars.length
  | dynamic _ _ _ => 1

def isDynamic : ObjectDimension n partitions → Bool
  | static _ => false
  | dynamic _ _ _ => true

def getValue : ObjectDimension n partitions → ObjectId → Option ScopeItemId → ℚ
  | static [], _, _ => 0
  | static (scalar :: _), o, _ =>
    ObjectValues.getObjectValue (.objectBacked scalar : ObjectValues n partitions) o
  | dynamic _ _ defaultValue, _, none => defaultValue
  | dynamic _ values _, o, some scopeItemId => (values scopeItemId).getObjectValue o

end ObjectDimension

structure ObjectPartitionArgs where
  partitionInfo : PartitionInfo
  dimensionId : DimensionId
  groupLimits : IdMap
  scopeItemIds : Option IdSet
  groupCoefficients : IdMap
  defaultGroupLimit : ℚ
  defaultGroupCoefficient : ℚ

namespace ObjectPartitionArgs
variable {partitions : List Partition}

def throwIf (c : Prop) [Decidable c] (message : String) : Except String Unit :=
  if c then .error message else .ok ()

def checkGroupsRelevant (info : PartitionInfo) (groupToValue : IdMap) (name : String) :
    Except String Unit :=
  throwIf (¬ groupToValue.entries.all fun e => info.isRelevant e.1)
    s!"{name} contains group that is not in filteredGroupIds"

def check (u : Universe partitions) (args : ObjectPartitionArgs) : Except String Unit := do
  let dimension := u.dimension args.dimensionId
  throwIf (dimension.size ≠ 1)
    ("non-scalar dimensions or ObjectPartitionRoutingDimensions are not currently " ++
      "supported with objectPartition")
  throwIf (dimension.isDynamic ≠ args.scopeItemIds.isSome)
    "Dynamic dimension must have scopeItemIds set and vice versa"
  checkGroupsRelevant args.partitionInfo args.groupLimits "groupLimits"
  checkGroupsRelevant args.partitionInfo args.groupCoefficients "groupCoefficients"
  throwIf (args.defaultGroupCoefficient < 0) "Coefficient of each group must be non-negative."
  throwIf (args.groupCoefficients.entries.any fun e => e.2 < 0)
    "Coefficient of each group must be non-negative."

theorem of_throwIf [Decidable c] (h : throwIf c m = .ok ()) : ¬ c := by
  intro hc
  rw [throwIf, if_pos hc] at h
  cases h

end ObjectPartitionArgs

structure ObjectPartition (u : Universe partitions) extends ObjectPartitionArgs where
  checked : toObjectPartitionArgs.check u = .ok ()

namespace ObjectPartition
variable {u : Universe partitions}

section
variable (p : ObjectPartition u)

def getGroupLimit (groupId : GroupId) : Except String ℚ :=
  if p.partitionInfo.isRelevant groupId then
    .ok ((p.groupLimits.get? groupId).getD p.defaultGroupLimit)
  else .error s!"Cannot get limit for group {groupId} which is not in filteredGroupIds"

def getGroupCoefficient (groupId : GroupId) : Except String ℚ :=
  if p.partitionInfo.isRelevant groupId then
    .ok ((p.groupCoefficients.get? groupId).getD p.defaultGroupCoefficient)
  else .error s!"Cannot get coefficient for group {groupId} which is not in filteredGroupIds"

def acceptable : Option ScopeItemId → Bool
  | none => true
  | some scopeItemId =>
    match p.scopeItemIds with
    | none => true
    | some ids => decide (scopeItemId ∈ ids)

def getObjectWeight (objectId : ObjectId) (scopeItemId : Option ScopeItemId) : Except String ℚ :=
  if p.acceptable scopeItemId then .ok ((u.dimension p.dimensionId).getValue objectId scopeItemId)
  else .error "The provided scope item is not in the list of acceptable scope items"

def getObjectGroups (objectId : ObjectId) : List GroupId :=
  p.partitionInfo.objectIdToGroupIds partitions objectId

end

end ObjectPartition

inductive PenaltyTransform where
  | identity
  | square
  | step
deriving DecidableEq

inductive LookupBound where
  | max
  | min
deriving DecidableEq

/-- Groups with such a limit have a penalty even when they are empty. -/
def LookupBound.initializes : LookupBound → ℚ → Bool
  | max, limit => decide (limit < 0)
  | min, limit => decide (0 < limit)

def Assignment.getObjects (a : Assignment) (n : Nat) (container : ContainerId) : List ObjectId :=
  (List.range n).filter fun o => a o = container

structure GroupWeights where
  groupIds : List GroupId
  groupObjectCounts : GroupId → ObjectId → Nat
  groupObjectWeights : GroupId → ObjectId → ℚ

namespace GroupWeights

def touch (w : GroupWeights) (groupId : GroupId) : GroupWeights :=
  if groupId ∈ w.groupIds then w else { w with groupIds := w.groupIds ++ [groupId] }

/-- One more occurrence of the object in the group; the weight of all its occurrences is
overwritten. -/
def add (objectWeight : ℚ) (objectId : ObjectId) (w : GroupWeights) (groupId : GroupId) :
    GroupWeights :=
  let w := w.touch groupId
  let objectCount := w.groupObjectCounts groupId objectId + 1
  { w with
    groupObjectCounts := fun g o =>
      if g = groupId ∧ o = objectId then objectCount else w.groupObjectCounts g o
    groupObjectWeights := fun g o =>
      if g = groupId ∧ o = objectId then objectWeight * objectCount
      else w.groupObjectWeights g o }

def query (w : GroupWeights) (objects : List ObjectId) (groupId : GroupId) : ℚ :=
  (objects.map (w.groupObjectWeights groupId)).sum

end GroupWeights

/-- The constructor throws for an override of an irrelevant group, or for during objects of another
scope. -/
structure ObjectPartitionLookup (u : Universe partitions) where
  objectPartition : ObjectPartition u
  lookupContainers : IdSet
  scopeId : ScopeId
  scopeItemId : ScopeItemId
  groupLimitOverrides : IdMap
  initialDuringObjects : IdSet
  defaultGroupLimitOverride : Option ℚ
  penaltyTransform : PenaltyTransform
  groupsAllowed : Nat
  bound : LookupBound
  overridesRelevant : ∀ e ∈ groupLimitOverrides.entries, bound.initializes e.2 = true →
    objectPartition.partitionInfo.isRelevant e.1 = true
  duringScope : ∀ dimensionScopeId values d,
    u.dimension objectPartition.dimensionId = .dynamic dimensionScopeId values d →
    dimensionScopeId ≠ scopeId → initialDuringObjects.elems = []
  duringInRange : ∀ o ∈ initialDuringObjects, o < u.numObjects

namespace ObjectPartitionLookup
variable {u : Universe partitions}

def getGroupLimit (l : ObjectPartitionLookup u) (groupId : GroupId) : Except String ℚ :=
  match l.groupLimitOverrides.get? groupId with
  | some limit => .ok limit
  | none =>
    match l.defaultGroupLimitOverride with
    | some limit => .ok limit
    | none => l.objectPartition.getGroupLimit groupId

section
variable (l : ObjectPartitionLookup u)

def computePenalty (deviationFromLimit : ℚ) : ℚ :=
  let penalty := max 0 (if l.bound = .max then deviationFromLimit else -deviationFromLimit)
  match l.penaltyTransform with
  | .identity => penalty
  | .square => penalty * penalty
  | .step => if u.precision.isStrictlyGtZero penalty then 1 else 0

def getGroupPenalty (weight : ℚ) (groupId : GroupId) : Except String ℚ := do
  let limit ← l.getGroupLimit groupId
  let coefficient ← l.objectPartition.getGroupCoefficient groupId
  .ok (l.computePenalty ((weight - limit) * coefficient))

def getDimensionScopeItemId (container : ContainerId) : Option ScopeItemId :=
  match u.dimension l.objectPartition.dimensionId with
  | .static _ => some l.scopeItemId
  | .dynamic dimensionScopeId _ _ =>
    if dimensionScopeId = l.scopeId then some l.scopeItemId
    else (u.scope dimensionScopeId).getScopeItemId container

variable (a : Assignment)

def contributingObjectIds : List ObjectId := (l.initialDuringObjects.elems ++
    l.lookupContainers.elems.flatMap (a.getObjects u.numObjects)).dedup

def initialGroups : List GroupId :=
  (l.objectPartition.groupLimits.entries ++ l.groupLimitOverrides.entries).filterMap fun e =>
    if l.bound.initializes e.2 then some e.1 else none

def initialWeights : GroupWeights :=
  l.initialGroups.foldl GroupWeights.touch ⟨[], fun _ _ => 0, fun _ _ => 0⟩

def addObject (w : GroupWeights) (objectId : ObjectId) : Except String GroupWeights := do
  let objectWeight ← l.objectPartition.getObjectWeight objectId
    (l.getDimensionScopeItemId (a objectId))
  .ok ((l.objectPartition.getObjectGroups objectId).foldl (GroupWeights.add objectWeight
    objectId) w)

def sumTop (n : Nat) (penalties : List ℚ) : ℚ := ((penalties.insertionSort (· ≥ ·)).take n).sum

def total (penalties : List ℚ) : ℚ :=
  if 0 < l.groupsAllowed then penalties.sum - sumTop l.groupsAllowed penalties else penalties.sum

def computeFromAssignment : Except String ℚ := do
  let objects := l.contributingObjectIds a
  let w ← objects.foldlM (l.addObject a) l.initialWeights
  let penalties ← w.groupIds.mapM fun g => l.getGroupPenalty (w.query objects g) g
  .ok (l.total penalties)

end

end ObjectPartitionLookup

end Rebalancer
