import Rebalancer.ObjectToContainer

namespace Rebalancer
open ObjectToContainerAssignmentUtils

def assignObjects (toContainer : ContainerId) :
    Nat → List ObjectId → AssocMap ObjectId ContainerId →
      Nat × List ObjectId × AssocMap ObjectId ContainerId
  | 0, initialObjects, objectToContainer => (0, initialObjects, objectToContainer)
  | objectCount + 1, initialObjects, objectToContainer =>
    match initialObjects.getLast? with
    | none => (objectCount + 1, initialObjects, objectToContainer)
    | some object => assignObjects toContainer objectCount initialObjects.dropLast
        (objectToContainer.insert object toContainer)

structure SetState where
  objectToContainer : AssocMap ObjectId ContainerId
  containerToObjectCount : AssocMap ContainerId Nat
  containerToInitialObjects : ContainerToObjects

namespace SetState

section
variable (s : SetState)

def objectCount (container : ContainerId) : Nat :=
  AssocMap.getD s.containerToObjectCount container 0

def initialObjects (container : ContainerId) : List ObjectId :=
  AssocMap.getD s.containerToInitialObjects container []

def assign (container fromContainer : ContainerId) : SetState :=
  let result := assignObjects container (s.objectCount container) (s.initialObjects fromContainer)
    s.objectToContainer
  { objectToContainer := result.2.2
    containerToObjectCount := s.containerToObjectCount.insert container result.1
    containerToInitialObjects := s.containerToInitialObjects.insert fromContainer result.2.1 }

def eraseCount (container : ContainerId) : SetState :=
  { s with containerToObjectCount := s.containerToObjectCount.erase container }

def keepInPlace (container : ContainerId) : SetState :=
  let s := if container ∈ s.containerToInitialObjects ∧ container ∈ s.containerToObjectCount then
    s.assign container container else s
  if s.objectCount container = 0 then s.eraseCount container else s

end

def assignFrom (container : ContainerId) : List ContainerId → SetState → SetState
  | [], s => s
  | fromContainer :: fromContainers, s =>
    let s := s.assign container fromContainer
    if s.objectCount container = 0 then s else assignFrom container fromContainers s

def assignRest (rt : Runtime) (equivSet : EquivalenceSetId) (s : SetState)
    (container : ContainerId) : SetState :=
  if s.objectCount container = 0 then s
  else assignFrom container
    (rt.order (.restObjects equivSet container) s.containerToInitialObjects.keys) s

end SetState

structure GreedyState extends SetState where
  emptyContainers : IdSet
  containerToPreferredCount : AssocMap ContainerId Int

section
variable (containerToPreferredCount : AssocMap ContainerId Int)

/-- One iteration of `pickContainerToPlaceObjects`; the first container wins a tie. -/
def leastChoice
    (least : Option (ContainerId × Int)) (container : ContainerId) : Option (ContainerId × Int) :=
  match containerToPreferredCount.lookup container with
  | none => least
  | some preferredContainerCount =>
    match least with
    | none => some (container, preferredContainerCount)
    | some (_, leastChoiceCount) =>
      if preferredContainerCount < leastChoiceCount then some (container, preferredContainerCount)
      else least

def pickContainerToPlaceObjects
    (containersInSmallestGroup : List ContainerId) : Option ContainerId :=
  (containersInSmallestGroup.foldl (leastChoice containerToPreferredCount) none).map Prod.fst

end

def dropChoice (counts : AssocMap ContainerId Int) (container : ContainerId) :
    AssocMap ContainerId Int :=
  match counts.lookup container with
  | none => counts
  | some count =>
    if count - 1 = 0 then counts.erase container else counts.insert container (count - 1)

def updatePreferredCount (rt : Runtime) (equivSet : EquivalenceSetId) (round : Nat)
    (preferredContainerToContainers : AssocMap ContainerId IdSet) (emptyContainers : IdSet)
    (containerToPreferredCount : AssocMap ContainerId Int) : AssocMap ContainerId Int :=
  (rt.order (.emptyContainers equivSet round) emptyContainers.elems).foldl (fun counts preferred =>
      match preferredContainerToContainers.lookup preferred with
      | none => counts
      | some containers =>
        (rt.order (.preferring equivSet round preferred) containers.elems).foldl dropChoice counts)
    containerToPreferredCount

def findContainer (rt : Runtime) (equivSet : EquivalenceSetId) (round : Nat)
    (containerToPreferredCount : AssocMap ContainerId Int) :
    Nat → List IdSet → Option (ContainerId × List IdSet)
  | _, [] => none
  | skipped, group :: groups =>
    match pickContainerToPlaceObjects containerToPreferredCount
        (rt.order (.sourceGroup equivSet round skipped) group.elems) with
    | some container => some (container, group :: groups)
    | none => findContainer rt equivSet round containerToPreferredCount (skipped + 1) groups

namespace GreedyState

def finish (s : GreedyState) (container : ContainerId) : GreedyState := { s with
    toSetState := s.eraseCount container
    containerToPreferredCount := s.containerToPreferredCount.erase container }

def noteEmpty (preferred : ContainerId) (s : GreedyState) (toBeClearedContainers : IdSet) :
    GreedyState × IdSet :=
  if s.initialObjects preferred = [] ∧ preferred ∉ s.emptyContainers then
    ({ s with emptyContainers := s.emptyContainers.insert preferred },
      toBeClearedContainers.insert preferred)
  else (s, toBeClearedContainers)

def assignPreferred (container : ContainerId) :
    List ContainerId → GreedyState → IdSet → GreedyState × IdSet
  | [], s, toBeCleared => (s, toBeCleared)
  | preferred :: preferredContainers, s, toBeCleared =>
    let noted :=
      noteEmpty preferred { s with toSetState := s.assign container preferred } toBeCleared
    if noted.1.objectCount container = 0 then (noted.1.finish container, noted.2)
    else assignPreferred container preferredContainers noted.1 noted.2

def run (rt : Runtime) (equivSet : EquivalenceSetId) (p : Preferences) :
    Nat → List IdSet → GreedyState → Except Fault SetState
  | 0, _, _ => .error .unfinished
  | round + 1, sourceContainerGroup, s =>
    if s.containerToPreferredCount.size = 0 ∨ s.containerToObjectCount.size = 0 then
      .ok s.toSetState
    else
      match findContainer rt equivSet round s.containerToPreferredCount 0 sourceContainerGroup with
      | none => .error .pastSourceContainerOrder
      | some (container, sourceContainerGroup) =>
        if s.objectCount container = 0 then
          run rt equivSet p round sourceContainerGroup (s.finish container)
        else
          match p.containerToPreferredContainers.lookup container with
          | none => .error .missingKey
          | some preferredContainers =>
            let cleared := assignPreferred container preferredContainers s .empty
            run rt equivSet p round sourceContainerGroup { cleared.1 with
              containerToPreferredCount := updatePreferredCount rt equivSet round
                p.preferredContainerToContainers cleared.2 cleared.1.containerToPreferredCount }

end GreedyState

section
variable (rt : Runtime) (equivSet : EquivalenceSetId)

def initiallyEmpty (objects : ContainerToObjects) : IdSet :=
  (rt.order (.initialObjects equivSet) objects.entries).foldl (fun emptyContainers entry =>
      if entry.2 = [] then emptyContainers.insert entry.1 else emptyContainers) .empty

def initialPreferredCount (containerToPreferredContainers : AssocMap ContainerId (List ContainerId))
    (containerToObjectCount : AssocMap ContainerId Nat) : AssocMap ContainerId Int :=
  (rt.order (.preferredContainers equivSet) containerToPreferredContainers.entries).foldl
    (fun counts entry =>
      if entry.1 ∈ containerToObjectCount then counts.insert entry.1 (entry.2.length : Int)
      else counts) ∅

def GreedyState.start (p : Preferences) (s : SetState) : GreedyState :=
  let emptyContainers := initiallyEmpty rt equivSet s.containerToInitialObjects
  let counts := initialPreferredCount rt equivSet p.containerToPreferredContainers
    s.containerToObjectCount
  { s with
    emptyContainers
    containerToPreferredCount := updatePreferredCount rt equivSet (counts.size + 1)
      p.preferredContainerToContainers emptyContainers counts }

def assignObjectToContainerForOneSet (p : Preferences) (sourceContainerOrder : List IdSet)
    (s : SetState) : Except Fault (AssocMap ObjectId ContainerId) := do
  let s := (rt.order (.objectCounts equivSet) s.containerToObjectCount.keys).foldl
    SetState.keepInPlace s
  let start := GreedyState.start rt equivSet p s
  let s ← GreedyState.run rt equivSet p (start.containerToPreferredCount.size + 1)
    sourceContainerOrder start
  .ok ((rt.order (.restCounts equivSet) s.containerToObjectCount.keys).foldl
    (SetState.assignRest rt equivSet) s).objectToContainer

end

structure AssignmentRequest where
  rt : Runtime
  equivalenceSets : EquivalenceSets
  equivSetToContainerToObjectCount : AssocMap EquivalenceSetId (AssocMap ContainerId Nat)
  initialAssignment : ContainerAssignment
  shuffleSeed : Option String

namespace AssignmentRequest
open ObjectToContainerAssignmentUtils

variable (r : AssignmentRequest)

def checked : Except String (AssocMap EquivalenceSetId ContainerToObjects) := do
  let initial ← getEquivSetToContainerToObjects r.rt r.equivalenceSets r.initialAssignment
    r.shuffleSeed
  sanityCheckOnEquivSetToContainerToObjectCount r.rt initial r.equivSetToContainerToObjectCount
  .ok initial

def assignSet (initial : AssocMap EquivalenceSetId ContainerToObjects)
    (p : Preferences) (sourceContainerOrder : List IdSet)
    (objectToContainer : AssocMap ObjectId ContainerId)
    (entry : Sigma fun _ : EquivalenceSetId => AssocMap ContainerId Nat) :
    Except Fault (AssocMap ObjectId ContainerId) :=
  match initial.lookup entry.1 with
  | none => .error .missingKey
  | some objects => assignObjectToContainerForOneSet r.rt entry.1 p sourceContainerOrder
      ⟨objectToContainer, entry.2, objects⟩

def getObjectToContainer (utils : ObjectToContainerAssignmentUtils) :
    Except Fault (AssocMap ObjectId ContainerId) × ObjectToContainerAssignmentUtils :=
  match r.checked with
  | .error message => (.error (.thrown message), utils)
  | .ok initial =>
    let preferred := utils.getContainerToPreferredContainers r.rt r.initialAssignment.getContainers
    let order := preferred.2.getSourceContainerOrder
    (r.equivSetToContainerToObjectCount.entries.foldlM
      (r.assignSet initial preferred.1 order.1) ∅, order.2)

end AssignmentRequest

end Rebalancer
