import Rebalancer.AssocMap
import Rebalancer.EquivalenceSets

namespace Rebalancer
open AssocMap

abbrev EquivalenceSetId := Nat

namespace IdSet

def empty : IdSet := ⟨[], List.nodup_nil⟩

theorem notMem_empty : x ∉ empty := List.not_mem_nil

def insert (s : IdSet) (x : Nat) : IdSet := ⟨s.elems.insert x, s.nodup.insert⟩

def erase (s : IdSet) (x : Nat) : IdSet := ⟨s.elems.erase x, s.nodup.erase x⟩

theorem mem_insert {s : IdSet} : y ∈ s.insert x ↔ y = x ∨ y ∈ s := List.mem_insert_iff

theorem mem_erase_of_ne {s : IdSet} (h : y ≠ x) : y ∈ s.erase x ↔ y ∈ s := List.mem_erase_of_ne h

end IdSet

/-- The loops over hash tables that the code builds, with what tells their executions apart. -/
inductive Site where
  | appearanceCount (container : ContainerId)
  | initialSets
  | objectCounts (equivSet : EquivalenceSetId)
  | initialObjects (equivSet : EquivalenceSetId)
  | preferredContainers (equivSet : EquivalenceSetId)
  | emptyContainers (equivSet : EquivalenceSetId) (round : Nat)
  | preferring (equivSet : EquivalenceSetId) (round : Nat) (preferred : ContainerId)
  | sourceGroup (equivSet : EquivalenceSetId) (round skipped : Nat)
  | restCounts (equivSet : EquivalenceSetId)
  | restObjects (equivSet : EquivalenceSetId) (container : ContainerId)

/-- What the code leaves to its environment: the iteration order of hash tables and the random
shuffle. -/
structure Runtime where
  order : {α : Type} → Site → List α → List α
  order_perm : ∀ {α : Type} (site : Site) (l : List α), (order site l).Perm l
  shuffle : String → EquivalenceSetId → ContainerId → List ObjectId → List ObjectId
  shuffle_perm : ∀ seed equivSet container objects,
    (shuffle seed equivSet container objects).Perm objects

/-- An assignment by its containers, in their iteration order. Every object is on one container. -/
structure ContainerAssignment where
  containerToObjects : AssocMap ContainerId (List ObjectId)
  nodup : containerToObjects.values.flatten.Nodup

namespace ContainerAssignment

def getContainers (a : ContainerAssignment) : List ContainerId := a.containerToObjects.keys

def getObjects (a : ContainerAssignment) : List ObjectId := a.containerToObjects.values.flatten

end ContainerAssignment

/-- The loops of the code either throw, read outside a container, or would not stop. -/
inductive Fault where
  | thrown (message : String)
  | missingKey
  | pastSourceContainerOrder
  | unfinished
deriving DecidableEq

structure ObjectToContainerAssignmentUtils where
  stableContainerGroups : List IdSet
  containerToPreferredContainers : Option (AssocMap ContainerId (List ContainerId))
  preferredContainerToContainers : AssocMap ContainerId IdSet
  sourceContainerOrder : Option (List IdSet)

abbrev ContainerToObjects := AssocMap ContainerId (List ObjectId)

namespace ObjectToContainerAssignmentUtils

def new : ObjectToContainerAssignmentUtils := ⟨[], none, ∅, none⟩

def addStableContainerGroup (utils : ObjectToContainerAssignmentUtils) (containers : IdSet) :
    ObjectToContainerAssignmentUtils :=
  { utils with stableContainerGroups := utils.stableContainerGroups ++ [containers] }

def appearanceCount (groups : List IdSet) (container : ContainerId) : AssocMap ContainerId Nat :=
  (groups.filter fun group => container ∈ group).foldl (fun counts group => group.elems.foldl
      (fun counts groupMember =>
        counts.insert groupMember (getD counts groupMember 0 + 1)) counts) ∅

def appearsBefore (lhs rhs : Sigma fun _ : ContainerId => Nat) : Bool :=
  if lhs.2 = rhs.2 then decide (lhs.1 < rhs.1) else decide (rhs.2 < lhs.2)

variable (rt : Runtime)

def getPreferredContainers (groups : List IdSet) (container : ContainerId) : List ContainerId :=
  ((rt.order (.appearanceCount container) (appearanceCount groups container).entries).insertionSort
    fun lhs rhs => appearsBefore lhs rhs = true).map Sigma.fst

def pushObject (sets : AssocMap EquivalenceSetId ContainerToObjects) (equivSet : EquivalenceSetId)
    (container : ContainerId) (object : ObjectId) : AssocMap EquivalenceSetId ContainerToObjects :=
  let objects := getD sets equivSet ∅
  sets.insert equivSet (objects.insert container (getD objects container [] ++ [object]))

def pushContainer (equivalenceSets : EquivalenceSets)
    (sets : AssocMap EquivalenceSetId ContainerToObjects)
    (entry : Sigma fun _ : ContainerId => List ObjectId) :
    Except String (AssocMap EquivalenceSetId ContainerToObjects) :=
  entry.2.foldlM (fun sets object => do
    let equivSet ← equivalenceSets.setAt object
    .ok (pushObject sets equivSet entry.1 object)) sets

def getEquivSetToContainerToObjects (equivalenceSets : EquivalenceSets)
    (assignment : ContainerAssignment) (shuffleSeed : Option String) :
    Except String (AssocMap EquivalenceSetId ContainerToObjects) := do
  let sets ← assignment.containerToObjects.entries.foldlM (pushContainer equivalenceSets) ∅
  match shuffleSeed with
  | none => .ok sets
  | some seed => .ok (sets.mapValues fun equivSet objects =>
      objects.mapValues fun container => rt.shuffle seed equivSet container)

def initialSize (objects : ContainerToObjects) : Nat := (objects.values.map List.length).sum

def checkInitialSet (newEquivSetSize : AssocMap EquivalenceSetId Nat)
    (entry : Sigma fun _ : EquivalenceSetId => ContainerToObjects) : Except String Unit :=
  let equivSet := entry.1
  let oldSize := initialSize entry.2
  match newEquivSetSize.lookup equivSet with
  | none => .error s!"Missing equivSet: {equivSet} from final assignment"
  | some newSize =>
    if oldSize ≠ newSize then
      .error (s!"Inconsistent membership of equivSet: {equivSet}, " ++
        s!"initial count: {oldSize}, final count: {newSize}")
    else .ok ()

def sanityCheckOnEquivSetToContainerToObjectCount
    (initial : AssocMap EquivalenceSetId ContainerToObjects)
    (target : AssocMap EquivalenceSetId (AssocMap ContainerId Nat)) : Except String Unit := do
  let newEquivSetSize := target.mapValues fun _ counts => (values counts).sum
  let _ ← (rt.order .initialSets initial.entries).mapM (checkInitialSet newEquivSetSize)
  let oldCount := initial.size
  let newCount := newEquivSetSize.size
  if oldCount ≠ newCount then
    .error (s!"Mismatch in number of equiv sets in initial: {oldCount} " ++
      s!"and final assignment: {newCount}")
  else .ok ()

structure SourceOrder where
  stableGroupSizeToContainers : AssocMap Nat IdSet
  containerToGroupSize : AssocMap ContainerId Nat
  groupSizes : List Nat

def SourceOrder.save (order : SourceOrder) (groupSize : Nat) (container : ContainerId) :
    SourceOrder :=
  { order with
    containerToGroupSize := order.containerToGroupSize.insert container groupSize
    stableGroupSizeToContainers := order.stableGroupSizeToContainers.insert groupSize
      ((getD order.stableGroupSizeToContainers groupSize .empty).insert container) }

def SourceOrder.visit (groupSize : Nat) (order : SourceOrder) (container : ContainerId) :
    SourceOrder :=
  let order := { order with
    groupSizes := if groupSize ∈ order.groupSizes then order.groupSizes
      else order.groupSizes.orderedInsert (· ≤ ·) groupSize }
  match order.containerToGroupSize.lookup container with
  | none => order.save groupSize container
  | some size =>
    if size > groupSize then
      SourceOrder.save { order with
        stableGroupSizeToContainers := order.stableGroupSizeToContainers.insert size
          ((getD order.stableGroupSizeToContainers size .empty).erase container) }
        groupSize container
    else if size < groupSize then order
    else order.save groupSize container

def sourceOrderOf (groups : List IdSet) : SourceOrder :=
  groups.foldl (fun order group => group.elems.foldl (SourceOrder.visit group.size)
    order) ⟨∅, ∅, []⟩

def SourceOrder.groups (order : SourceOrder) : List IdSet := (order.groupSizes.map fun groupSize =>
    getD order.stableGroupSizeToContainers groupSize .empty).filter fun containers =>
      containers.size ≠ 0

def getSourceContainerOrder (utils : ObjectToContainerAssignmentUtils) :
    List IdSet × ObjectToContainerAssignmentUtils :=
  match utils.sourceContainerOrder with
  | some order => (order, utils)
  | none =>
    let order := (sourceOrderOf utils.stableContainerGroups).groups
    (order, { utils with sourceContainerOrder := some order })

structure Preferences where
  containerToPreferredContainers : AssocMap ContainerId (List ContainerId)
  preferredContainerToContainers : AssocMap ContainerId IdSet

def Preferences.visit (groups : List IdSet) (p : Preferences)
    (container : ContainerId) : Preferences :=
  let preferredContainers := getPreferredContainers rt groups container
  if preferredContainers.length = 0 then p
  else
    { containerToPreferredContainers :=
        p.containerToPreferredContainers.insert container preferredContainers
      preferredContainerToContainers := preferredContainers.foldl
        (fun reverse preferred => reverse.insert preferred
          ((getD reverse preferred .empty).insert container))
        p.preferredContainerToContainers }

def getContainerToPreferredContainers (utils : ObjectToContainerAssignmentUtils)
    (containers : List ContainerId) : Preferences × ObjectToContainerAssignmentUtils :=
  match utils.containerToPreferredContainers with
  | some preferred => (⟨preferred, utils.preferredContainerToContainers⟩, utils)
  | none =>
    let p := containers.foldl (Preferences.visit rt utils.stableContainerGroups)
      ⟨∅, utils.preferredContainerToContainers⟩
    (p, { utils with
      containerToPreferredContainers := some p.containerToPreferredContainers
      preferredContainerToContainers := p.preferredContainerToContainers })

end ObjectToContainerAssignmentUtils

end Rebalancer
