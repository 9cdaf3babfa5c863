import Rebalancer.ObjectIndex

namespace Rebalancer

/-- A node of the linked lists of groups; moving a node between lists keeps its reference. -/
abbrev GroupRef := Nat

structure PriorityGroup (T : Type) where
  items : List T
  updatedItemsGroupIt : Option GroupRef

structure ItemLocation where
  groupIt : GroupRef
  itemIndex : Nat
deriving DecidableEq

/-- The queue with the nodes its lists link; `allocated` is the next node to be allocated. -/
structure IncrementalPriorityQueueV2 (T : Type) where
  nodes : GroupRef → PriorityGroup T
  allocated : GroupRef
  priorityGroups : List GroupRef
  recycledPriorityGroups : List GroupRef
  itemToLocation : AssocMap T (Option ItemLocation)
  size : Nat
  sortedTopGroupItems : Option (List T)

def insertBefore (next : Option GroupRef) (group : GroupRef) : List GroupRef → List GroupRef
  | [] => [group]
  | g :: groups => if some g = next then group :: g :: groups
    else g :: insertBefore next group groups

namespace IncrementalPriorityQueueV2

def undefinedBehavior : String := "undefined behavior"

section
variable {T : Type}

def new : IncrementalPriorityQueueV2 T := ⟨fun _ => ⟨[], none⟩, 0, [], [], ∅, 0, none⟩

def items (q : IncrementalPriorityQueueV2 T) (group : GroupRef) : List T := (q.nodes group).items

section
variable (group : GroupRef)

def setNode (node : PriorityGroup T) (q : IncrementalPriorityQueueV2 T) :
    IncrementalPriorityQueueV2 T :=
  { q with nodes := Function.update q.nodes group node }

def setItems (items : List T) (q : IncrementalPriorityQueueV2 T) : IncrementalPriorityQueueV2 T :=
  q.setNode group { q.nodes group with items }

def setUpdatedItemsGroupIt (updatedItemsGroupIt : Option GroupRef)
    (q : IncrementalPriorityQueueV2 T) : IncrementalPriorityQueueV2 T :=
  q.setNode group { q.nodes group with updatedItemsGroupIt }

end

section
variable (q : IncrementalPriorityQueueV2 T)

def empty : Bool := decide (q.size = 0)

def throwIfEmpty : Except String Unit :=
  if q.empty then .error "IncrementalPriorityQueueV2 is expected to be non-empty" else .ok ()

def front : Except String GroupRef :=
  match q.priorityGroups with
  | [] => .error undefinedBehavior
  | group :: _ => .ok group

def isTopStrict : Except String Bool := do
  q.throwIfEmpty
  let group ← q.front
  .ok (decide ((q.items group).length = 1))

end

def insertGroupBefore (next : Option GroupRef) (q : IncrementalPriorityQueueV2 T) :
    GroupRef × IncrementalPriorityQueueV2 T :=
  match q.recycledPriorityGroups with
  | [] =>
    (q.allocated, { q with
        nodes := Function.update q.nodes q.allocated ⟨[], none⟩
        allocated := q.allocated + 1
        priorityGroups := insertBefore next q.allocated q.priorityGroups })
  | group :: recycled =>
    (group, { q with
        recycledPriorityGroups := recycled
        priorityGroups := insertBefore next group q.priorityGroups })

variable (group : GroupRef)

def appendItemToGroup (item : T) (q : IncrementalPriorityQueueV2 T) :
    ItemLocation × IncrementalPriorityQueueV2 T :=
  (⟨group, (q.items group).length⟩, q.setItems group (q.items group ++ [item]))

section
variable (q : IncrementalPriorityQueueV2 T)

def invalidateSortedTopGroupItemsIfNeeded : IncrementalPriorityQueueV2 T :=
  if q.sortedTopGroupItems.isSome ∧ q.priorityGroups.head? = some group then
    { q with sortedTopGroupItems := none }
  else q

def eraseGroup : IncrementalPriorityQueueV2 T :=
  let q := q.invalidateSortedTopGroupItemsIfNeeded group
  { q with
    recycledPriorityGroups := q.recycledPriorityGroups ++ [group]
    priorityGroups := q.priorityGroups.erase group }

def eraseGroupIfEmpty : IncrementalPriorityQueueV2 T :=
  if (q.items group).isEmpty then q.eraseGroup group else q

end

def finishGroupSplits (splitSourceGroups : List GroupRef) (q : IncrementalPriorityQueueV2 T) :
    IncrementalPriorityQueueV2 T :=
  splitSourceGroups.foldl (fun q sourceGroup =>
    (q.setUpdatedItemsGroupIt sourceGroup none).eraseGroupIfEmpty sourceGroup) q

end

section
variable {T : Type} [LinearOrder T]

def bestItemInTopGroup (q : IncrementalPriorityQueueV2 T) :
    Except String (T × IncrementalPriorityQueueV2 T) := do
  let group ← q.front
  match q.items group with
  | [item] => .ok (item, q)
  | items =>
    let sorted := q.sortedTopGroupItems.getD (items.mergeSort fun a b => decide (b ≤ a))
    match sorted.getLast? with
    | some item => .ok (item, { q with sortedTopGroupItems := some sorted })
    | none => .error undefinedBehavior

def top (q : IncrementalPriorityQueueV2 T) : Except String (T × IncrementalPriorityQueueV2 T) := do
  q.throwIfEmpty
  q.bestItemInTopGroup

def markRemoved (item : T) (q : IncrementalPriorityQueueV2 T) :
    Option ItemLocation × IncrementalPriorityQueueV2 T :=
  match q.itemToLocation.lookup item with
  | some none => (none, q)
  | location =>
    (location.getD none, { q with itemToLocation := q.itemToLocation.insert item none })

def removeItemFromGroup (location : ItemLocation) (q : IncrementalPriorityQueueV2 T) :
    Except String (IncrementalPriorityQueueV2 T) :=
  let items := q.items location.groupIt
  match items.getLast? with
  | none => .error undefinedBehavior
  | some last =>
    if location.itemIndex ≠ items.length - 1 then
      match q.itemToLocation.lookup last with
      | none => .error outOfRange
      | some none => .error undefinedBehavior
      | some (some movedItemLocation) =>
        .ok { q.setItems location.groupIt (items.set location.itemIndex last).dropLast with
          itemToLocation := q.itemToLocation.insert last
            (some { movedItemLocation with itemIndex := location.itemIndex }) }
    else .ok (q.setItems location.groupIt items.dropLast)

def updateSortedTopGroupItemsAfterRemoval (group : GroupRef) (item : T)
    (q : IncrementalPriorityQueueV2 T) : IncrementalPriorityQueueV2 T :=
  match q.sortedTopGroupItems with
  | none => q
  | some sorted =>
    if q.priorityGroups.head? ≠ some group then q
    else if sorted.getLast? = some item then { q with sortedTopGroupItems := some sorted.dropLast }
    else { q with sortedTopGroupItems := none }

def remove (item : T) (q : IncrementalPriorityQueueV2 T) :
    Except String (IncrementalPriorityQueueV2 T) :=
  match q.markRemoved item with
  | (none, q) => .ok q
  | (some removedLocation, q) => do
    let q := q.updateSortedTopGroupItemsAfterRemoval removedLocation.groupIt item
    let q ← q.removeItemFromGroup removedLocation
    let q := q.eraseGroupIfEmpty removedLocation.groupIt
    .ok { q with size := q.size - 1 }

structure UpdateState (T : Type) where
  queue : IncrementalPriorityQueueV2 T
  newItemsGroupIt : Option GroupRef
  splitSourceGroups : List GroupRef

omit [LinearOrder T] in
def getOrCreateNewGroupBefore (sourceGroup : GroupRef) (s : UpdateState T) :
    GroupRef × UpdateState T :=
  match (s.queue.nodes sourceGroup).updatedItemsGroupIt with
  | some group => (group, s)
  | none =>
    let (group, q) := s.queue.insertGroupBefore (some sourceGroup)
    (group, { s with
        queue := q.setUpdatedItemsGroupIt sourceGroup (some group)
        splitSourceGroups := s.splitSourceGroups ++ [sourceGroup] })

def placeItem (group : GroupRef) (item : T) (q : IncrementalPriorityQueueV2 T) :
    IncrementalPriorityQueueV2 T :=
  let (location, q) := q.appendItemToGroup group item
  { q with itemToLocation := q.itemToLocation.insert item (some location) }

def addNewItem (item : T) (s : UpdateState T) : UpdateState T :=
  let (group, q) := match s.newItemsGroupIt with
    | some group => (group, s.queue)
    | none => s.queue.insertGroupBefore none
  { s with
    queue := { q.placeItem group item with size := q.size + 1 }
    newItemsGroupIt := some group }

def moveToNewGroupBeforeCurrentGroup (item : T) (itemLocation : ItemLocation)
    (s : UpdateState T) : Except String (UpdateState T) := do
  let q := s.queue.invalidateSortedTopGroupItemsIfNeeded itemLocation.groupIt
  let q ← q.removeItemFromGroup itemLocation
  let (group, s) := getOrCreateNewGroupBefore itemLocation.groupIt { s with queue := q }
  .ok { s with queue := s.queue.placeItem group item }

def updateItem (s : UpdateState T) (item : T) : Except String (UpdateState T) :=
  match s.queue.itemToLocation.lookup item with
  | none => .ok (addNewItem item s)
  | some none => .ok s
  | some (some itemLocation) => moveToNewGroupBeforeCurrentGroup item itemLocation s

def update (items : List T) (q : IncrementalPriorityQueueV2 T) :
    Except String (IncrementalPriorityQueueV2 T) := do
  let s ← items.foldlM updateItem ⟨q, none, []⟩
  .ok (s.queue.finishGroupSplits s.splitSourceGroups)

variable (q : IncrementalPriorityQueueV2 T)

def rebuildGroup (group : GroupRef) : Except String (IncrementalPriorityQueueV2 T) :=
  let q := q.setUpdatedItemsGroupIt group none
  (q.items group).zipIdx.foldlM (fun q entry => do
    let _ ← q.itemToLocation.fetch entry.1
    .ok { q with itemToLocation := q.itemToLocation.insert entry.1 (some ⟨group, entry.2⟩) }) q

def rebuildItemLocations : Except String (IncrementalPriorityQueueV2 T) :=
  q.priorityGroups.foldlM rebuildGroup q

/-- The copy has nodes of its own, one for each group, and recycles none. -/
def copy (other : IncrementalPriorityQueueV2 T) : Except String (IncrementalPriorityQueueV2 T) :=
  rebuildItemLocations ⟨fun i => (other.priorityGroups[i]?.map other.nodes).getD ⟨[], none⟩,
      other.priorityGroups.length, List.range other.priorityGroups.length, [],
      other.itemToLocation, other.size, other.sortedTopGroupItems⟩

end

end IncrementalPriorityQueueV2

end Rebalancer
