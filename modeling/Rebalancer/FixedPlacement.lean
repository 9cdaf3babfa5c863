import Rebalancer.ConstraintSplit
import Rebalancer.InitialAssignmentUpdates
import Rebalancer.ObjectValues

namespace Rebalancer

structure GroupLimits where
  globalLimit : ℚ
  groupLimits : AssocMap GroupId ℚ
  isDefaultLimitUnbounded : Bool

/-- `LimitWrapper::getAllGroupLimits`. -/
def GroupLimits.getLimit (limit : GroupLimits) (groupId : GroupId) : WithTop ℚ :=
  match limit.groupLimits.lookup groupId with
  | some groupLimit => groupLimit
  | none => if limit.isDefaultLimitUnbounded then ⊤ else limit.globalLimit

/-- A dynamic dimension has values that depend on the container. -/
inductive ScalarDimension where
  | static (value : ObjectId → ℚ)
  | dynamic (value : ObjectId → ContainerId → ℚ)

namespace ScalarDimension

variable (dimension : ScalarDimension)

def getValue (objectId : ObjectId) (containerId : ContainerId) : ℚ :=
  match dimension with
  | static value => value objectId
  | dynamic value => value objectId containerId

def hasNegativeValues (objects : List ObjectId) (containers : List ContainerId) : Bool :=
  objects.any fun o => containers.any fun c => decide (dimension.getValue o c < 0)

end ScalarDimension

/-- Moves from or to the listed containers do not count for the limits. -/
structure GroupMoveLimitSpec where
  partition : Partition
  limit : GroupLimits
  dimension : ScalarDimension
  furtherDimensions : List ScalarDimension
  sourceContainerIdsNotAffectingLimit : IdSet
  destinationContainerIdsNotAffectingLimit : IdSet

/-- A scope item of a `nonAccepting` spec is given by its containers. -/
inductive ConstraintSpec where
  | avoidMoving (objects : List ObjectId)
  | groupMoveLimit (spec : GroupMoveLimitSpec)
  | nonAccepting (items : List IdSet)
  | movesInProgress (moves : List MoveInProgress)

structure SpecConstraint extends ConstraintHandling where
  spec : ConstraintSpec

namespace GroupMoveLimitSpec

section
variable (spec : GroupMoveLimitSpec)

def check (objects : List ObjectId) (containers : List ContainerId) : Except String Unit :=
  if (spec.dimension :: spec.furtherDimensions).any (·.hasNegativeValues objects containers) then
    .error ("GroupMoveLimitSpec is not supported when the object dimension has negative values")
  else if spec.furtherDimensions.length + 1 > 1 then
    .error "GroupMoveLimitSpec is not supported when size of given dimension > 1"
  else .ok ()

section
variable (originalAssignment : Assignment) (objectId : ObjectId) (destination : ContainerId)

def doesMoveAffectLimit : Bool := decide (originalAssignment objectId ≠ destination) &&
    decide (originalAssignment objectId ∉ spec.sourceContainerIdsNotAffectingLimit) &&
    decide (destination ∉ spec.destinationContainerIdsNotAffectingLimit)

def getObjectMoveCost : ℚ :=
  if spec.doesMoveAffectLimit originalAssignment objectId destination then
    match spec.dimension with
    | .static value => value objectId
    | .dynamic value => max (value objectId (originalAssignment objectId))
      (value objectId destination)
  else 0

end

variable (objects : List ObjectId)

section
variable (originalAssignment a : Assignment) (groupId : GroupId)

def relevantMoves : List ObjectId :=
  objects.filter fun o => groupId ∈ spec.partition.objectIdToGroupIds o ∧
    spec.doesMoveAffectLimit originalAssignment o (a o) = true

def groupDeviation : ℚ := ((spec.relevantMoves objects originalAssignment a groupId).map fun o =>
    spec.getObjectMoveCost originalAssignment o (a o)).sum

end

def moveCost (groupId : GroupId) (groupDeviation : ℚ) : ℚ :=
  match spec.limit.getLimit groupId with
  | ⊤ => 0
  | (limit : ℚ) => max 0 (groupDeviation - limit)

/-- `ObjectPartitionMoveLimit::innerFullApply`: the largest cost of a group with relevant moves. -/
def moveLimitValue (originalAssignment a : Assignment) : ℚ :=
  ((spec.partition.getGroupIds.filter fun groupId =>
    spec.relevantMoves objects originalAssignment a groupId ≠ []).map fun groupId =>
      spec.moveCost groupId (spec.groupDeviation objects originalAssignment a groupId)).foldr max 0

def fixedObjects (precision : PrecisionTolerances) : List ObjectId :=
  if 0 < spec.sourceContainerIdsNotAffectingLimit.size ∨
      0 < spec.destinationContainerIdsNotAffectingLimit.size then []
  else
    spec.partition.getGroupIds.flatMap fun groupId =>
      match spec.limit.getLimit groupId with
      | ⊤ => []
      | (moveLimit : ℚ) =>
        if precision.compare moveLimit 0 = .eq then spec.partition.getObjectIds groupId else []

end

end GroupMoveLimitSpec

def ConstraintSpec.Accepted (objects : List ObjectId) (containers : List ContainerId) :
    ConstraintSpec → Prop
  | avoidMoving listed => ∀ o ∈ listed, o ∈ objects
  | groupMoveLimit spec => (∀ g, ∀ o ∈ spec.partition.getObjectIds g, o ∈ objects) ∧
      spec.check objects containers = .ok ()
  | nonAccepting items => ∀ item ∈ items, ∀ c ∈ item, c ∈ containers
  | movesInProgress moves => ∀ move ∈ moves, move.objName ∈ objects ∧ move.toContainer ∈ containers

structure ConstraintUniverse where
  precision : PrecisionTolerances
  names : EntityNames
  objects : List ObjectId
  containers : List ContainerId
  initialContainer : Assignment
  constraints : List SpecConstraint
  objects_nodup : objects.Nodup
  containers_nodup : containers.Nodup
  initial_mem : ∀ o ∈ objects, initialContainer o ∈ containers
  accepted : ∀ c ∈ constraints, c.spec.Accepted objects containers

structure MaterializedProblem where
  updatedInitialAssignment : Assignment
  hardComponents : List (Assignment → ℚ)
  fixedObjects : List ObjectId
  nonAcceptingContainers : List ContainerId
  fixedContainers : List ContainerId

namespace ConstraintUniverse

def getInitialObjectIds (u : ConstraintUniverse) (c : ContainerId) : List ObjectId :=
  u.objects.filter fun o => u.initialContainer o = c

def movesInProgress (u : ConstraintUniverse) : List MoveInProgress := u.constraints.flatMap fun c =>
    match c.spec with
    | .movesInProgress moves => moves
    | _ => []

def isAssigned (a : Assignment) (c : ContainerId) (o : ObjectId) : ℚ := if a o = c then 1 else 0

section
variable (u : ConstraintUniverse)

def getStayedObjectCountExpr (c : ContainerId) (objectIds : List ObjectId) (a : Assignment) : ℚ :=
  if objectIds.length ≤ 2 then (objectIds.map (isAssigned a c)).sum
  else ((u.objects.filter fun o => a o = c ∧ o ∈ objectIds).map fun _ => (1 : ℚ)).sum

section
variable (objects : List ObjectId)

def relevantObjects : List ObjectId := objects.filter fun o => o ∉ u.movesInProgress.map (·.objName)

def stayedCount (a : Assignment) : ℚ := (u.containers.map fun c => u.getStayedObjectCountExpr c
    ((u.relevantObjects objects).filter fun o => u.initialContainer o = c) a).sum

def avoidMovingExpr (a : Assignment) : ℚ :=
  (u.relevantObjects objects).length - u.stayedCount objects a

end

def movesInProgressExpr (moves : List MoveInProgress) (a : Assignment) : ℚ :=
  moves.length - (moves.map fun move => isAssigned a move.toContainer move.objName).sum

def newUtilExpr (item : IdSet) (a : Assignment) : ℚ :=
  ((u.objects.filter fun o => a o ∈ item).length : ℚ) -
    (u.objects.filter fun o => a o ∈ item ∧ u.initialContainer o ∈ item).length

/-- The expressions of a spec. That of a move limit is created with the initial value zero. -/
def constraintInfos (updated : Assignment) : ConstraintSpec → List ConstraintInfo
  | .avoidMoving objects =>
    [⟨u.avoidMovingExpr objects, u.avoidMovingExpr objects updated, none⟩]
  | .groupMoveLimit spec => [⟨spec.moveLimitValue u.objects updated, 0, none⟩]
  | .nonAccepting items =>
    items.map fun item => ⟨u.newUtilExpr item, u.newUtilExpr item updated, none⟩
  | .movesInProgress moves =>
    [⟨movesInProgressExpr moves, movesInProgressExpr moves updated, none⟩]

def fixedObjectsOf : ConstraintSpec → List ObjectId
  | .avoidMoving objects => objects
  | .groupMoveLimit spec => spec.fixedObjects u.precision
  | .nonAccepting _ => []
  | .movesInProgress moves => moves.map (·.objName)

def nonAcceptingContainersOf : ConstraintSpec → List ContainerId
  | .nonAccepting items => items.flatMap fun item => if 1 < item.size then [] else item.elems
  | _ => []

def updatesOf : ConstraintSpec → Updates
  | .movesInProgress moves => movesInProgressUpdates moves
  | _ => ∅

/-- `materializeConstraintCoro`, the hard components only. -/
def hardComponentsOf (updated : Assignment) (c : SpecConstraint) : List (Assignment → ℚ) :=
  (u.constraintInfos updated c.spec).filterMap fun info =>
    (info.splitConstraintComponent u.precision c.toConstraintHandling).hardComponent

def collectFixedContainers (fixedObjects : List ObjectId)
    (nonAcceptingContainers : List ContainerId) : List ContainerId :=
  nonAcceptingContainers.filter fun c =>
    (u.getInitialObjectIds c).all fun o => decide (o ∈ fixedObjects)

def materialize : Except String MaterializedProblem := do
  let updates ← Materializer.getUpdatesInInitialAssignment u.names
    (u.constraints.map fun c => updatesOf c.spec)
  let updated := Materializer.updatedInitialContainer updates u.initialContainer
  let fixedObjects := u.constraints.flatMap fun c => u.fixedObjectsOf c.spec
  let nonAcceptingContainers := u.constraints.flatMap fun c => nonAcceptingContainersOf c.spec
  .ok ⟨updated, u.constraints.flatMap (u.hardComponentsOf updated), fixedObjects,
    nonAcceptingContainers, u.collectFixedContainers fixedObjects nonAcceptingContainers⟩

end

end ConstraintUniverse

end Rebalancer
