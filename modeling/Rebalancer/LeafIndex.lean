import Rebalancer.PostOrder
import Rebalancer.BucketedPriorityQueue

namespace Rebalancer

abbrev LeafId := Nat

abbrev ChangeFilterFn := Option (Change → Bool)

/-- The parallel arrays `leaves_` and `filters_`, indexed by `LeafId`. -/
structure LeafStore (ν : Type) where
  entries : List (ν × ChangeFilterFn)

namespace LeafStore
variable {ν : Type}

def new : LeafStore ν := ⟨[]⟩

variable (store : LeafStore ν)

def add (node : ν) (filter : ChangeFilterFn) : LeafStore ν × LeafId :=
  (⟨store.entries ++ [(node, filter)]⟩, store.entries.length)

def leafAt (id : LeafId) : Except String ν :=
  match store.entries[id]? with
  | some entry => .ok entry.1
  | none => .error "leaf id out of range"

def filter (id : LeafId) : ChangeFilterFn :=
  match store.entries[id]? with
  | some entry => entry.2
  | none => none

def leaves : List ν := store.entries.map Prod.fst

end LeafStore

/-- `toCheckLeaves_`, `containerToLeaves_`, `objectToLeaves_` and `containerObjectToLeaves_`. -/
structure LeafTables where
  toCheckLeaves : List LeafId
  containerToLeaves : ContainerId → List LeafId
  objectToLeaves : ObjectId → List LeafId
  containerObjectToLeaves : ContainerId → ObjectId → List LeafId

namespace LeafTables

def new : LeafTables := ⟨[], fun _ => [], fun _ => [], fun _ _ => []⟩

variable (leafId : LeafId)

def pushLeaf (table : Nat → List LeafId) (key : Nat) : Nat → List LeafId :=
  fun k => if k = key then table k ++ [leafId] else table k

def pushLeaves (keys : List Nat) (table : Nat → List LeafId) : Nat → List LeafId :=
  keys.foldl (pushLeaf leafId) table

def pushPairs (containers objects : List Nat)
    (table : ContainerId → ObjectId → List LeafId) : ContainerId → ObjectId → List LeafId :=
  containers.foldl
    (fun t c => fun k => if k = c then pushLeaves leafId objects (t k) else t k) table

end LeafTables

section
variable {ν : Type}

variable (g : ExpressionGraph ν) (data : AffectedByChangeDecisionData)

def initChangeInfo
    (acc : LeafStore ν × LeafTables) (node : ν) : Except String (LeafStore ν × LeafTables) :=
  match g.isAffectedByChange data node with
  | none => .ok acc
  | some info => do
    let changeType ← info.getType
    let (store, leafId) := acc.1.add node info.filter
    match changeType with
    | .containersOnly =>
      let containers ← info.getContainers
      .ok (store, { acc.2 with
        containerToLeaves :=
          LeafTables.pushLeaves leafId containers.elems acc.2.containerToLeaves })
    | .objectsOnly =>
      let objects ← info.getObjects
      .ok (store, { acc.2 with
        objectToLeaves := LeafTables.pushLeaves leafId objects.elems acc.2.objectToLeaves })
    | .allGivenContainerObjectPairs =>
      let containers ← info.getContainers
      let objects ← info.getObjects
      .ok (store, { acc.2 with
        containerObjectToLeaves := LeafTables.pushPairs leafId containers.elems objects.elems
          acc.2.containerObjectToLeaves })
    | .allChanges =>
      .ok (store, { acc.2 with toCheckLeaves := acc.2.toCheckLeaves ++ [leafId] })

variable (postOrder : List ν) (nodeRangeByRoots : List Nat)

def initRootIndex (acc : LeafStore ν × List LeafTables)
    (i : Nat) : Except String (LeafStore ν × List LeafTables) := do
  let (store, tables) ←
    (rootSegment postOrder nodeRangeByRoots i).foldlM (initChangeInfo g data) (acc.1, .new)
  .ok (store, acc.2 ++ [tables])

def initIndex (numRoots : Nat) : Except String (LeafStore ν × List LeafTables) :=
  (List.range numRoots).foldlM (initRootIndex g data postOrder nodeRangeByRoots) (.new, [])

def passesFilter (filter : ChangeFilterFn) (changes : List Change) : Bool :=
  match filter with
  | none => true
  | some f => changes.any f

def leafCalls (store : LeafStore ν) (tables : LeafTables) : Option ChangeSet → List LeafId
  | none => tables.toCheckLeaves
  | some cs =>
    tables.toCheckLeaves ++
    cs.containers.flatMap (fun c => (cs.getChangesByContainer c).flatMap (fun change =>
      tables.containerObjectToLeaves c change.object)) ++
    cs.containers.flatMap (fun c => (tables.containerToLeaves c).filter (fun id =>
      passesFilter (store.filter id) (cs.getChangesByContainer c))) ++
    cs.objects.flatMap (fun o => (tables.objectToLeaves o).filter (fun id =>
      passesFilter (store.filter id) (cs.getChangesByObject o)))

/-- A single move needs no removal of repeated leaves; that is the source's own reasoning. -/
def shouldDedupeLeaves : Option ChangeSet → Bool
  | none => false
  | some cs => !cs.empty && !cs.representsSingleMove

variable (nodeToPriority : Table ν PriorityInfo) (store : LeafStore ν)

def processLeaf (dedupe : Bool)
    (acc : List LeafId × BucketedPriorityQueue PriorityInfo ν) (leafId : LeafId) :
    Except String (List LeafId × BucketedPriorityQueue PriorityInfo ν) :=
  if dedupe && decide (leafId ∈ acc.1) then .ok acc
  else do
    let leaf ← store.leafAt leafId
    match nodeToPriority leaf with
    | some p => .ok (if dedupe then leafId :: acc.1 else acc.1, acc.2.emplace p leaf)
    | none => .error "node without a priority"

def computeChangedLeavesByRoot (leaves : List LeafTables) (changes : Option ChangeSet) (root : Nat)
    (readyNodes : BucketedPriorityQueue PriorityInfo ν) :
    Except String (BucketedPriorityQueue PriorityInfo ν) :=
  match leaves[root]? with
  | none => .error "root index out of range"
  | some tables => do
    let (_, readyNodes) ← (leafCalls store tables changes).foldlM
      (processLeaf nodeToPriority store (shouldDedupeLeaves changes)) ([], readyNodes)
    .ok readyNodes

end

end Rebalancer
