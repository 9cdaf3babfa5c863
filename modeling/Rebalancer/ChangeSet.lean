import Rebalancer.ExceptLoops

namespace Rebalancer
open List

abbrev ObjectId := Nat
abbrev ContainerId := Nat

/-- One object entering (`1`) or leaving (`-1`) a container; no other value can be built. -/
structure Change where
  object : ObjectId
  container : ContainerId
  value : Int
  valid : value = 1 ∨ value = -1
deriving DecidableEq

variable (object : ObjectId) (container : ContainerId)

def Change.inverse (change : Change) : Change := ⟨change.object, change.container, -change.value, by
    rcases change.valid with h | h <;> rw [h] <;> decide⟩

def Change.removal : Change := ⟨object, container, -1, .inr rfl⟩

def Change.addition : Change := ⟨object, container, 1, .inl rfl⟩

/-- The two hash maps of the changes are their key sequences, which may be in any order. -/
structure ChangeSet where
  changes : List Change
  containers : List ContainerId
  objects : List ObjectId
  containers_nodup : containers.Nodup
  objects_nodup : objects.Nodup
  mem_containers : ∀ c, c ∈ containers ↔ ∃ ch ∈ changes, ch.container = c
  mem_objects : ∀ o, o ∈ objects ↔ ∃ ch ∈ changes, ch.object = o

theorem flatMap_filter_perm [DecidableEq κ] (f : α → κ) (xs : List α) {keys : List κ}
    (hk : keys.Nodup) : (keys.flatMap fun k => xs.filter fun x => decide (f x = k)).Perm
      (xs.filter fun x => decide (f x ∈ keys)) := by
  induction keys with
  | nil => simp
  | cons k keys ih =>
    obtain ⟨hn, hk⟩ := nodup_cons.mp hk
    have hs := filter_append_perm (fun x => decide (f x = k))
      (xs.filter fun x => decide (f x ∈ k :: keys))
    rw [filter_filter, filter_filter] at hs
    apply ((ih hk).append_left _).trans
    convert hs using 3
    · funext x
      by_cases h : f x = k <;> simp [h]
    · funext x
      by_cases h : f x = k <;> simp [h, hn]

namespace ChangeSet

def new : ChangeSet := ⟨[], [], [], nodup_nil, nodup_nil, by simp, by simp⟩

def insert (change : Change) (cs : ChangeSet) : ChangeSet where
  changes := cs.changes ++ [change]
  containers := cs.containers.insert change.container
  objects := cs.objects.insert change.object
  containers_nodup := cs.containers_nodup.insert
  objects_nodup := cs.objects_nodup.insert
  mem_containers c := by
    rw [mem_insert_iff, cs.mem_containers]
    simp only [mem_append, mem_singleton, or_and_right, exists_or, exists_eq_left]
    rw [or_comm, eq_comm]
  mem_objects o := by
    rw [mem_insert_iff, cs.mem_objects]
    simp only [mem_append, mem_singleton, or_and_right, exists_or, exists_eq_left]
    rw [or_comm, eq_comm]

def ofList (changes : List Change) : ChangeSet :=
  changes.foldl (fun cs change => cs.insert change) new

theorem ofList_changes (changes : List Change) : (ofList changes).changes = changes :=
  foldl_rule (P := fun done (cs : ChangeSet) => cs.changes = done)
    (fun c _ _ _ h => congrArg (· ++ [c]) h) [] new rfl

section
variable (cs : ChangeSet)

def getInverse : ChangeSet := ofList (cs.changes.reverse.map Change.inverse)

def size : Nat := cs.changes.length

def empty : Bool := cs.changes.isEmpty

def getChangesByContainer (c : ContainerId) : List Change :=
  cs.changes.filter (fun ch => decide (ch.container = c))

def getChangesByObject (o : ObjectId) : List Change :=
  cs.changes.filter (fun ch => decide (ch.object = o))

def representsSingleMove : Bool :=
  decide (cs.changes.length = 2) && decide (cs.objects.length = 1) &&
    decide (cs.containers.length = 2) &&
    decide ((cs.changes.map Change.value).sum = 0)

end

theorem mem_getChangesByContainer {cs : ChangeSet} :
    ch ∈ cs.getChangesByContainer c ↔ ch ∈ cs.changes ∧ ch.container = c := by
  simp [getChangesByContainer]

end ChangeSet

/-- A set of identifiers in the order in which its hash table iterates. -/
structure IdSet where
  elems : List Nat
  nodup : elems.Nodup
deriving DecidableEq

instance : Membership Nat IdSet := ⟨fun s x => x ∈ s.elems⟩

instance (x : Nat) (s : IdSet) : Decidable (x ∈ s) := inferInstanceAs (Decidable (x ∈ s.elems))

def IdSet.size (s : IdSet) : Nat := s.elems.length

theorem nodup_zero : [0].Nodup := by decide

theorem nodup_one : [1].Nodup := by decide

theorem nodup_zero_one : [0, 1].Nodup := by decide

theorem nodup_one_two : [1, 2].Nodup := by decide

inductive AffectedByChangeType where
  | allChanges
  | containersOnly
  | objectsOnly
  | allGivenContainerObjectPairs
deriving DecidableEq

structure AffectedByChangeDecisionData where
  numTotalObjects : Nat
  numTotalContainers : Nat

structure AffectedByChange where
  containersPtr : Option IdSet
  objectsPtr : Option IdSet
  filter : Option (Change → Bool)
  affectedByAllChanges : Bool

namespace AffectedByChange

def ofAllChanges (affectedByAllChanges : Bool) : AffectedByChange :=
  ⟨none, none, none, affectedByAllChanges⟩

def ofContainers (containers : IdSet) (changeFilter : Option (Change → Bool)) : AffectedByChange :=
  ⟨some containers, none, changeFilter, false⟩

def ofObjects (objects : IdSet) (changeFilter : Option (Change → Bool)) : AffectedByChange :=
  ⟨none, some objects, changeFilter, false⟩

def ofPairs (containers objects : IdSet) : AffectedByChange :=
  ⟨some containers, some objects, none, false⟩

def ofDecision (containers objects : IdSet) (data : AffectedByChangeDecisionData) :
    AffectedByChange :=
  let allContainersAffected := decide (containers.size = data.numTotalContainers)
  let allObjectsAffected := decide (objects.size = data.numTotalObjects)
  if allContainersAffected && allObjectsAffected then ⟨none, none, none, true⟩
  else if allContainersAffected then ⟨none, some objects, none, false⟩
  else if allObjectsAffected then ⟨some containers, none, none, false⟩
  else ⟨some containers, some objects, none, false⟩

section
variable (info : AffectedByChange)

def getType : Except String AffectedByChangeType :=
  if info.affectedByAllChanges then .ok .allChanges
  else
    match info.containersPtr, info.objectsPtr with
    | some _, some _ => .ok .allGivenContainerObjectPairs
    | some _, none => .ok .containersOnly
    | none, some _ => .ok .objectsOnly
    | none, none =>
      .error ("Unknown affectedByChange type. " ++
        "Has AffectedByChange been properly initialized?")

def getContainers : Except String IdSet :=
  match info.containersPtr with
  | some containers => .ok containers
  | none => .error "unexpected call to getContainers() when containerPtr_ is null"

def getObjects : Except String IdSet :=
  match info.objectsPtr with
  | some objects => .ok objects
  | none => .error "unexpected call to getObjects() when objectPtr_ is null"

end

end AffectedByChange

end Rebalancer
