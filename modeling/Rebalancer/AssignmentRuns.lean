import Rebalancer.AssignmentState

namespace Rebalancer
open AssocMap Function IndexedAssignment
open Option hiding getD or_assoc
open List hiding getD keys
variable {a : AssignmentState}

theorem IndexedAssignment.new_ok [DecidableEq ι] {i : IndexedAssignment ι κ σ}
    (h : IndexedAssignment.new K cs f = .ok i) (c : ContainerId) :
    ∀ o ∈ AssocMap.getD cs c .empty, ∃ k, f o = .ok k := by
  intro o ho
  obtain ⟨objects, hc, ho⟩ := (mem_getD IdSet.notMem_empty).mp ho
  refine foldlM_ok_forall (P := fun e => ∀ o ∈ e.2, ∃ k, f o = .ok k) ?_ _ _ h
    ⟨c, objects⟩ (AList.mem_lookup_iff.mp hc) o ho
  intro s e s' he
  refine foldlM_ok_forall (P := fun o => ∃ k, f o = .ok k) ?_ _ _ he
  intro s x s' hx
  obtain ⟨k, hk, -⟩ := except_bind_ok hx
  exact ⟨k, hk⟩

namespace AssignmentState

section construction

theorem foldl_placeObject (fixedObjects : IdSet) (c : ContainerId) (objects : List ObjectId) :
    ∀ s : AssocMap ObjectId ContainerId × IdSet × IdSet,
      (∀ o, (objects.foldl (placeObject fixedObjects c) s).1.lookup o =
        (s.1.lookup o).or (if o ∈ objects then some c else none)) ∧
      (∀ o, o ∈ (objects.foldl (placeObject fixedObjects c) s).2.1 ↔ o ∈ s.2.1 ∨ o ∈ objects) ∧
      ∀ o, o ∈ (objects.foldl (placeObject fixedObjects c) s).2.2 ↔
        o ∈ s.2.2 ∨ o ∈ objects ∧ o ∉ fixedObjects := by
  induction objects with
  | nil =>
    intro s
    refine ⟨fun o => ?_, fun o => ?_, fun o => ?_⟩
    · rw [if_neg not_mem_nil, or_none]
      rfl
    · exact (or_iff_left not_mem_nil).symm
    · exact (or_iff_left fun h => not_mem_nil h.1).symm
  | cons x objects ih =>
    intro s
    obtain ⟨hl, hs, hdynamic⟩ := ih (placeObject fixedObjects c s x)
    refine ⟨fun o => ?_, fun o => ?_, fun o => ?_⟩
    · rw [foldl_cons, hl]
      change ((if x ∈ s.1 then s.1 else s.1.insert x c).lookup o).or _ = _
      by_cases ho : o = x
      · subst ho
        rw [if_pos mem_cons_self]
        split
        · rename_i hmem
          obtain ⟨d, hd⟩ := mem_iff_lookup.mp hmem
          rw [hd, some_or, some_or]
        · rename_i hmem
          rw [AList.lookup_insert, AList.lookup_eq_none.mpr hmem, some_or, none_or]
      · have hmem : o ∈ x :: objects ↔ o ∈ objects := mem_cons.trans (or_iff_right ho)
        simp only [hmem]
        split
        · rfl
        · rw [AList.lookup_insert_ne ho]
    · rw [foldl_cons, hs, mem_cons]
      change o ∈ s.2.1.insert x ∨ _ ↔ _
      rw [IdSet.mem_insert, or_comm (a := o = x), or_assoc]
    · rw [foldl_cons, hdynamic, mem_cons]
      change o ∈ (if x ∈ fixedObjects then s.2.2 else s.2.2.insert x) ∨ _ ↔ _
      by_cases ho : o = x
      · subst ho
        split_ifs with hf
        · simp [hf]
        · simp [IdSet.mem_insert, hf]
      · rw [or_iff_right ho]
        apply or_congr_left
        split
        · exact Iff.rfl
        · rw [IdSet.mem_insert, or_iff_right ho]

def Listed (entries : List (Sigma fun _ : ContainerId => List ObjectId)) (o : ObjectId)
    (c : ContainerId) : Prop :=
  ∃ objects, ⟨c, objects⟩ ∈ entries ∧ o ∈ objects

structure Placed (fixedObjects : IdSet)
    (entries : List (Sigma fun _ : ContainerId => List ObjectId)) (a : AssignmentState) :
    Prop where
  fixed : a.fixedObjects = fixedObjects
  lookup : ∀ o c, a.objectToContainer.lookup o = some c ↔ Listed entries o c
  objects : ∀ o c, o ∈ a.getObjects c ↔ Listed entries o c
  dynamic : ∀ o c, o ∈ a.getDynamicObjects c ↔ Listed entries o c ∧ o ∉ fixedObjects
  indices : ∀ name, a.index name = none

def Apart (e e' : Sigma fun _ : ContainerId => List ObjectId) : Prop :=
  e.1 ≠ e'.1 ∧ e.2.Disjoint e'.2

theorem listed_append : Listed (es ++ [⟨c, objects⟩]) o d ↔
    Listed es o d ∨ d = c ∧ o ∈ objects := by
  simp only [Listed, mem_append, mem_singleton, or_and_right, exists_or]
  apply or_congr_right
  constructor
  · intro h
    obtain ⟨_, heq, ho⟩ := h
    cases heq
    exact ⟨rfl, ho⟩
  · intro h
    exact ⟨objects, by rw [h.1], h.2⟩

theorem Placed.placeContainer {fs : IdSet} {os : List ObjectId}
    (h : Placed fs es a) (ha : ∀ e ∈ es, Apart e ⟨c, os⟩) :
    Placed fs (es ++ [⟨c, os⟩]) (a.placeContainer ⟨c, os⟩) := by
  obtain ⟨hlookup, hs, hdynamic⟩ := foldl_placeObject a.fixedObjects c os
    (a.objectToContainer, .empty, .empty)
  have hc : ∀ o, ¬ Listed es o c := by
    intro o hl
    obtain ⟨o', hmem, -⟩ := hl
    exact (ha _ hmem).1 rfl
  have ho : ∀ o ∈ os, ∀ d, ¬ Listed es o d := by
    intro o ho d hl
    obtain ⟨o', hmem, ho'⟩ := hl
    exact (ha _ hmem).2 ho' ho
  refine ⟨h.fixed, ?_, ?_, ?_, ?_⟩
  · intro o d
    rw [listed_append]
    refine (Eq.congr_left (hlookup o)).trans ?_
    rw [or_eq_some_iff, h.lookup, AList.lookup_eq_none]
    apply or_congr_right
    constructor
    · intro hn
      split_ifs at hn with hmem
      · exact ⟨(some.inj hn.2).symm, hmem⟩
      · cases hn.2
    · intro hn
      rw [if_pos hn.2, hn.1]
      refine ⟨?_, rfl⟩
      intro hmem
      obtain ⟨e, he⟩ := mem_iff_lookup.mp hmem
      exact ho o hn.2 e ((h.lookup o e).mp he)
  · intro o d
    rw [listed_append]
    change o ∈ getD (a.containerToObjects.insert c _) d .empty ↔ _
    by_cases hd : d = c
    · subst hd
      rw [getD_insert_self, hs, and_iff_right rfl]
      exact or_congr_left (iff_of_false not_mem_nil (hc o))
    · rw [getD_insert_ne _ hd, or_iff_left fun hn => hd hn.1]
      exact h.objects o d
  · intro o d
    rw [listed_append]
    change o ∈ getD (a.containerToObjectsDynamic.insert c _) d .empty ↔ _
    by_cases hd : d = c
    · subst hd
      rw [getD_insert_self, hdynamic, and_iff_right rfl, or_iff_right (hc o), h.fixed]
      exact or_iff_right not_mem_nil
    · rw [getD_insert_ne _ hd, or_iff_left fun hn => hd hn.1]
      exact h.dynamic o d
  · intro name
    cases name with
    | equivSets => exact h.indices .equivSets
    | groups p => exact h.indices (.groups p)
    | equivSetAndGroups p => exact h.indices (.equivSetAndGroups p)

theorem Placed.foldl {os : IdSet} (es : List (Sigma fun _ : ContainerId => List ObjectId)) :
    ∀ done a, Placed os done a → (done ++ es).Pairwise Apart →
      Placed os (done ++ es) (es.foldl AssignmentState.placeContainer a) := by
  induction es with
  | nil =>
    intro done a h _
    rwa [append_nil]
  | cons e es ih =>
    intro done a h hp
    have hn := h.placeContainer fun e' he' =>
      (pairwise_append.mp hp).2.2 e' he' e mem_cons_self
    rw [append_cons] at hp ⊢
    exact ih _ _ hn hp

variable (a' : ContainerAssignment) (os : IdSet)

theorem new_placed : Placed os a'.containerToObjects.entries (new a' os) := by
  have hnone : ∀ o c, ¬ Listed [] o c := fun o c hl => not_mem_nil hl.choose_spec.1
  have hs : Placed os [] ⟨os, ∅, ∅, ∅, none, ∅, ∅⟩ := by
    refine ⟨rfl, ?_, ?_, ?_, ?_⟩
    · intro o c
      exact iff_of_false nofun (hnone o c)
    · intro o c
      exact iff_of_false not_mem_nil (hnone o c)
    · intro o c
      exact iff_of_false not_mem_nil fun h => hnone o c h.1
    · intro name
      cases name <;> rfl
  apply Placed.foldl _ [] _ hs
  rw [nil_append]
  have hk := nodupKeys_iff_pairwise.mp a'.containerToObjects.nodupKeys
  have hobjects := (nodup_flatten.mp a'.nodup).2
  rw [values, pairwise_map] at hobjects
  exact hk.imp₂ (fun _ _ => And.intro) hobjects

theorem new_lookup : (new a' os).objectToContainer.lookup o = some c ↔
      ∃ objects, a'.containerToObjects.lookup c = some objects ∧ o ∈ objects := by
  rw [(new_placed a' os).lookup]
  simp [Listed, ← AList.mem_lookup_iff]

theorem new_consistent : (new a' os).Consistent fun _ => none := by
  have h := new_placed a' os
  refine ⟨?_, ?_, ?_, ?_⟩
  · intro o c hc
    exact mem_iff_lookup.mpr ⟨_, hc⟩
  · intro o c
    rw [and_iff_right trivial, h.lookup]
    exact h.objects o c
  · intro o c
    refine (h.dynamic o c).trans ?_
    rw [isDynamic, h.fixed, h.lookup, and_assoc, and_comm (a := o ∉ os)]
    refine (and_iff_right_of_imp ?_).symm
    intro hl
    exact mem_iff_lookup.mpr ⟨_, (h.lookup o c).mpr hl.1⟩
  · intro name
    rw [h.indices name]
    exact .none

end construction

theorem setIndex_index (a : AssignmentState) (name : IndexName) (index : Option name.Index) :
    (a.setIndex name index).index name = index := by
  cases name with
  | equivSets => rfl
  | groups p =>
    cases index with
    | none => exact AList.lookup_erase _ _
    | some index => exact AList.lookup_insert _
  | equivSetAndGroups p =>
    cases index with
    | none => exact AList.lookup_erase _ _
    | some index => exact AList.lookup_insert _

theorem setIndex_index_ne (a : AssignmentState) (h : name' ≠ name)
    (i : Option name.Index) : (a.setIndex name i).index name' = a.index name' := by
  cases name with
  | equivSets =>
    cases name' with
    | equivSets => exact absurd rfl h
    | groups => rfl
    | equivSetAndGroups => rfl
  | groups partitionId =>
    cases name' with
    | equivSets => cases i <;> rfl
    | groups p' =>
      have hne : p' ≠ partitionId := fun he => h (congrArg IndexName.groups he)
      cases i with
      | none => exact AList.lookup_erase_ne hne
      | some i => exact AList.lookup_insert_ne hne
    | equivSetAndGroups => cases i <;> rfl
  | equivSetAndGroups partitionId =>
    cases name' with
    | equivSets => cases i <;> rfl
    | groups => cases i <;> rfl
    | equivSetAndGroups p' =>
      have hne : p' ≠ partitionId := fun he => h (congrArg IndexName.equivSetAndGroups he)
      cases i with
      | none => exact AList.lookup_erase_ne hne
      | some i => exact AList.lookup_insert_ne hne

structure SameObjects (a a' : AssignmentState) : Prop where
  fixedObjects : a'.fixedObjects = a.fixedObjects
  objectToContainer : a'.objectToContainer = a.objectToContainer
  containerToObjects : a'.containerToObjects = a.containerToObjects
  containerToObjectsDynamic : a'.containerToObjectsDynamic = a.containerToObjectsDynamic

theorem SameObjects.refl (a : AssignmentState) : a.SameObjects a := ⟨rfl, rfl, rfl, rfl⟩

theorem SameObjects.trans (h₁ : SameObjects a₁ a₂) (h₂ : SameObjects a₂ a₃) : SameObjects a₁ a₃ :=
  ⟨h₂.fixedObjects.trans h₁.fixedObjects, h₂.objectToContainer.trans h₁.objectToContainer,
    h₂.containerToObjects.trans h₁.containerToObjects,
    h₂.containerToObjectsDynamic.trans h₁.containerToObjectsDynamic⟩

theorem setIndex_sameObjects (a : AssignmentState) (name : IndexName) (i : Option name.Index) :
    a.SameObjects (a.setIndex name i) := by
  cases name <;> cases i <;> exact ⟨rfl, rfl, rfl, rfl⟩

theorem SameObjects.isDynamic (h : SameObjects a a') : a'.isDynamic = a.isDynamic := by
  funext o
  rw [AssignmentState.isDynamic, h.objectToContainer, h.fixedObjects]
  rfl

theorem Consistent.setIndex {i : Option name.Index}
    {key : Option (ObjectId → Except String name.Key)} (h : a.Consistent keys)
    (hi : Option.Rel (fun key i => i.Lists name.spec key a.isDynamic
      fun o => a.objectToContainer.lookup o) key i) :
    (a.setIndex name i).Consistent (Function.update keys name key) := by
  have hs := setIndex_sameObjects a name i
  rw [Consistent, hs.objectToContainer]
  refine ⟨?_, ?_, ?_, ?_⟩
  · rw [hs.objectToContainer]
    exact h.known
  · rw [hs.containerToObjects]
    exact h.objects
  · rw [hs.containerToObjectsDynamic, hs.isDynamic]
    exact h.dynamic
  · intro n'
    rw [hs.isDynamic]
    by_cases hn : n' = name
    · subst hn
      rw [setIndex_index, update_self]
      exact hi
    · rw [setIndex_index_ne a hn, update_of_ne hn]
      exact h.indices n'

def builtFrom (result : Except String Unit) (key : κ) : Option κ :=
  match result with
  | .ok _ => some key
  | .error _ => none

def Keyed (a : AssignmentState) (key : ObjectId → Except String κ) : Prop :=
  ∀ o, a.isDynamic o → ∃ k, key o = .ok k

theorem Consistent.buildIndex (h : a.Consistent keys)
    (hno : keys name = none) (key : ObjectId → Except String name.Key) :
    (AssignmentState.buildIndex name key a).2.Consistent
        (Function.update keys name (builtFrom (AssignmentState.buildIndex name key a).1 key)) ∧
      a.SameObjects (AssignmentState.buildIndex name key a).2 ∧
      (a.Keyed key → (AssignmentState.buildIndex name key a).1 = .ok ()) := by
  have hmem := h.dynamic
  rw [AssignmentState.buildIndex]
  cases hn : IndexedAssignment.new name.kind a.containerToObjectsDynamic key with
  | error m =>
    refine ⟨?_, .refl a, ?_⟩
    · change a.Consistent (Function.update keys name none)
      rw [← hno, update_eq_self]
      exact h
    · intro hk
      obtain ⟨i, hi, -⟩ := new_spec name.spec (K := name.kind)
        fun c o ho => hk o ((hmem o c).mp ho).1
      rw [hi] at hn
      cases hn
  | ok i =>
    refine ⟨h.setIndex (.some ?_), setIndex_sameObjects _ _ _, fun _ => rfl⟩
    obtain ⟨i', hi', hp, hnoted, hh⟩ := new_spec name.spec (new_ok hn)
    rw [hn] at hi'
    cases hi'
    refine ⟨hp, ?_, ?_⟩
    · intro o ho
      obtain ⟨c, hc⟩ := mem_iff_lookup.mp ho.1
      exact hnoted c o ((hmem o c).mpr ⟨ho, hc⟩)
    · intro c k o
      rw [hh, hmem]

theorem Consistent.rebuildIndex (h : a.Consistent keys) (name : IndexName)
    (key : ObjectId → Except String name.Key) :
    ((a.setIndex name none).buildIndex name key).2.Consistent
        (Function.update keys name (builtFrom ((a.setIndex name none).buildIndex name key).1 key)) ∧
      a.SameObjects ((a.setIndex name none).buildIndex name key).2 ∧
      (a.Keyed key → ((a.setIndex name none).buildIndex name key).1 = .ok ()) := by
  have hs := setIndex_sameObjects a name none
  obtain ⟨hc, hs', hok⟩ := Consistent.buildIndex (h.setIndex .none) (update_self _ _ _) key
  rw [update_idem] at hc
  refine ⟨hc, hs.trans hs', ?_⟩
  intro hk
  apply hok
  rw [Keyed, hs.isDynamic]
  exact hk

end AssignmentState

inductive Operation where
  | moveTo (objectId : ObjectId) (containerId : ContainerId)
  | buildIndexByEquivalentSets (equivalenceSets : EquivalenceSets)
  | buildIndexByPartition (partitions : AssocMap PartitionId Partition) (partitionId : PartitionId)
  | buildIndexByEquivalentSetsAndPartition (partitions : AssocMap PartitionId Partition)
      (equivalenceSets : EquivalenceSets) (partitionId : PartitionId)

namespace Operation
open AssignmentState

section
variable (a : AssignmentState)

/-- The result of a call and the state it leaves. A move of an unknown object throws, and so does a
build over a dynamic object without a key. -/
def run : Operation → Except String Unit × AssignmentState
  | moveTo objectId containerId =>
    match a.moveTo objectId containerId with
    | .ok a => (.ok (), a)
    | .error message => (.error message, a)
  | buildIndexByEquivalentSets equivalenceSets => a.buildIndexByEquivalentSets equivalenceSets
  | buildIndexByPartition partitions partitionId => a.buildIndexByPartition partitions partitionId
  | buildIndexByEquivalentSetsAndPartition partitions equivalenceSets partitionId =>
    a.buildIndexByEquivalentSetsAndPartition partitions equivalenceSets partitionId

/-- The keys of the indices after a call: an index has those of the build that made it. -/
def keysAfter (keys : IndexKeys) : Operation → IndexKeys
  | moveTo _ _ => keys
  | buildIndexByEquivalentSets equivalenceSets =>
    Function.update keys .equivSets
      (builtFrom (run a (.buildIndexByEquivalentSets equivalenceSets)).1 equivalenceSets.setAt)
  | buildIndexByPartition partitions partitionId =>
    match keys (.groups partitionId), partitions.lookup partitionId with
    | none, some partition =>
      Function.update keys (.groups partitionId)
        (builtFrom (run a (.buildIndexByPartition partitions partitionId)).1
          (getGroupIdx partition))
    | _, _ => keys
  | buildIndexByEquivalentSetsAndPartition partitions equivalenceSets partitionId =>
    match partitions.lookup partitionId with
    | none => Function.update keys (.equivSetAndGroups partitionId) none
    | some partition =>
      Function.update keys (.equivSetAndGroups partitionId) (builtFrom (run a
            (.buildIndexByEquivalentSetsAndPartition partitions equivalenceSets partitionId)).1
          (getEquivSetAndGroupIdx equivalenceSets partition))

/-- The objects that the call has to do with are known to the sets and in one group of the
partition. -/
def Known : Operation → Prop
  | moveTo objectId _ => objectId ∈ a.objectToContainer
  | buildIndexByEquivalentSets equivalenceSets => a.Keyed equivalenceSets.setAt
  | buildIndexByPartition partitions partitionId =>
    ∃ partition, partitions.lookup partitionId = some partition ∧ a.Keyed (getGroupIdx partition)
  | buildIndexByEquivalentSetsAndPartition partitions equivalenceSets partitionId =>
    ∃ partition, partitions.lookup partitionId = some partition ∧
      a.Keyed (getEquivSetAndGroupIdx equivalenceSets partition)

end

structure Keeps (a : AssignmentState) (keys : IndexKeys) (op : Operation) : Prop where
  consistent : (op.run a).2.Consistent (op.keysAfter a keys)
  fixedObjects : (op.run a).2.fixedObjects = a.fixedObjects
  objects : ∀ o, o ∈ (op.run a).2.objectToContainer ↔ o ∈ a.objectToContainer
  returns : op.Known a → (op.run a).1 = .ok ()

theorem keeps_of_build (hr : op.run a = r) (h : r.2.Consistent (op.keysAfter a keys))
    (hs : a.SameObjects r.2) (hok : op.Known a → r.1 = .ok ()) : Keeps a keys op := by
  subst hr
  refine ⟨h, hs.fixedObjects, ?_, hok⟩
  rw [hs.objectToContainer]
  exact fun _ => Iff.rfl

section
variable (h : a.Consistent keys)
include h

theorem keeps_moveTo (o : ObjectId) (c : ContainerId) : Keeps a keys (.moveTo o c) := by
  by_cases ho : o ∈ a.objectToContainer
  · obtain ⟨a', ha', hc, hl, hf⟩ := Consistent.moveTo h ho c
    have hr : run a (.moveTo o c) = (.ok (), a') := by
      rw [run, ha']
    refine ⟨?_, ?_, ?_, ?_⟩
    · rw [hr]
      exact hc
    · rw [hr]
      exact hf.fixedObjects
    · intro x
      rw [hr, ← AList.lookup_isSome, ← AList.lookup_isSome, hl]
      by_cases hx : x = o
      · rw [hx, update_self, AList.lookup_isSome.mpr ho]
        rfl
      · rw [update_of_ne hx]
    · intro _
      rw [hr]
  · have hr : run a (.moveTo o c) = (.error outOfRange, a) := by
      rw [run, AssignmentState.moveTo, fetch, AList.lookup_eq_none.mpr ho]
      rfl
    exact keeps_of_build hr h (.refl a) fun hk => absurd hk ho

section
variable (ps : AssocMap PartitionId Partition)

theorem keeps_buildIndexByPartition (i' : PartitionId) :
    Keeps a keys (.buildIndexByPartition ps i') := by
  cases hi : a.index (.groups i') with
  | some i =>
    obtain ⟨key, hkey⟩ := Tracks.key_of_index h hi
    have hr : run a (.buildIndexByPartition ps i') = (.ok (), a) := by
      rw [run, AssignmentState.buildIndexByPartition, hi]
    refine keeps_of_build hr ?_ (.refl a) fun _ => rfl
    rw [keysAfter, hkey]
    exact h
  | none =>
    have hkey : keys (.groups i') = none := by
      have hrel := h.indices (.groups i')
      rw [hi] at hrel
      cases hk : keys (.groups i') with
      | none => rfl
      | some key =>
        rw [hk] at hrel
        cases hrel
    cases hp : ps.lookup i' with
    | none =>
      have hr : run a (.buildIndexByPartition ps i') = (.error outOfRange, a) := by
        rw [run, AssignmentState.buildIndexByPartition, hi, fetch, hp]
      refine keeps_of_build hr ?_ (.refl a) ?_
      · rw [keysAfter, hkey, hp]
        exact h
      · intro hknown
        obtain ⟨p, hs, -⟩ := hknown
        rw [hp] at hs
        cases hs
    | some p =>
      have hr : run a (.buildIndexByPartition ps i') =
          a.buildIndex (.groups i') (getGroupIdx p) := by
        rw [run, AssignmentState.buildIndexByPartition, hi, fetch_ok hp]
      obtain ⟨hc, hsame, hok⟩ := h.buildIndex hkey (getGroupIdx p)
      refine keeps_of_build hr ?_ hsame ?_
      · rw [keysAfter, hkey, hp]
        rw [hr]
        exact hc
      · intro hknown
        obtain ⟨p', hs, hkeyed⟩ := hknown
        rw [hp] at hs
        cases hs
        exact hok hkeyed

theorem keeps_buildIndexByEquivalentSetsAndPartition (ss : EquivalenceSets) (i : PartitionId) :
    Keeps a keys (.buildIndexByEquivalentSetsAndPartition ps ss i) := by
  cases hp : ps.lookup i with
  | none =>
    have hr : run a (.buildIndexByEquivalentSetsAndPartition ps ss
        i) = (.error outOfRange, a.setIndex (.equivSetAndGroups i) none) := by
      rw [run, AssignmentState.buildIndexByEquivalentSetsAndPartition, fetch, hp]
    have hset : (a.setIndex (.equivSetAndGroups i) none).Consistent
        (update keys (.equivSetAndGroups i) none) := h.setIndex .none
    refine keeps_of_build hr ?_ (setIndex_sameObjects a (.equivSetAndGroups i) none) ?_
    · rw [keysAfter, hp]
      exact hset
    · intro hk
      obtain ⟨p, hs, -⟩ := hk
      rw [hp] at hs
      cases hs
  | some p =>
    have hr : run a (.buildIndexByEquivalentSetsAndPartition ps ss
        i) = (a.setIndex (.equivSetAndGroups i) none).buildIndex
          (.equivSetAndGroups i) (getEquivSetAndGroupIdx ss p) := by
      rw [run, AssignmentState.buildIndexByEquivalentSetsAndPartition, fetch_ok hp]
    obtain ⟨hc, hsame, hok⟩ := h.rebuildIndex (.equivSetAndGroups i) (getEquivSetAndGroupIdx ss p)
    refine keeps_of_build hr ?_ hsame ?_
    · rw [keysAfter, hp]
      rw [hr]
      exact hc
    · intro hk
      obtain ⟨p', hs, hkeyed⟩ := hk
      rw [hp] at hs
      cases hs
      exact hok hkeyed

end

theorem keeps (op : Operation) : Keeps a keys op := by
  cases op with
  | moveTo o c => exact keeps_moveTo h o c
  | buildIndexByEquivalentSets e =>
    obtain ⟨hc, hs, hok⟩ := h.rebuildIndex .equivSets e.setAt
    exact keeps_of_build rfl hc hs hok
  | buildIndexByPartition partitions p =>
    exact keeps_buildIndexByPartition h partitions p
  | buildIndexByEquivalentSetsAndPartition partitions e p =>
    exact keeps_buildIndexByEquivalentSetsAndPartition h partitions e p

end

def runAll (ops : List Operation) (s : AssignmentState × IndexKeys) : AssignmentState × IndexKeys :=
  ops.foldl (fun s op => ((op.run s.1).2, op.keysAfter s.1 s.2)) s

theorem runAll_keeps (ops : List Operation) : ∀ s : AssignmentState × IndexKeys,
    s.1.Consistent s.2 → (runAll ops s).1.Consistent (runAll ops s).2 ∧
      (runAll ops s).1.fixedObjects = s.1.fixedObjects ∧
      ∀ o, o ∈ (runAll ops s).1.objectToContainer ↔ o ∈ s.1.objectToContainer := by
  induction ops with
  | nil =>
    intro s h
    exact ⟨h, rfl, fun _ => Iff.rfl⟩
  | cons op ops ih =>
    intro s h
    have hop := keeps h op
    obtain ⟨hc, hf, hobjects⟩ := ih ((op.run s.1).2, op.keysAfter s.1 s.2) hop.consistent
    exact ⟨hc, hf.trans hop.fixedObjects, fun o => (hobjects o).trans (hop.objects o)⟩

/-- The index lists every object that is not fixed once, on its container and under its key, and no
other. -/
structure Agrees (a : AssignmentState) (name : IndexName)
    (key : ObjectId → Except String name.Key) (index : name.Index) : Prop where
  listed : ∀ o, a.isDynamic o → ∃! place : ContainerId × name.Key,
    index.Holds name.spec place.1 place.2 o
  only : ∀ c k o, index.Holds name.spec c k o →
    a.isDynamic o ∧ a.objectToContainer.lookup o = some c ∧ key o = .ok k
  pruned : index.Pruned name.spec

theorem agrees_of_lists {index : name.Index}
    (h : index.Lists name.spec key a.isDynamic fun o => a.objectToContainer.lookup o) :
    Agrees a name key index := by
  refine ⟨?_, ?_, h.pruned⟩
  · intro o ho
    obtain ⟨c, hc⟩ := mem_iff_lookup.mp ho.1
    obtain ⟨k, hk, -⟩ := h.noted o ho
    refine ⟨(c, k), (h.holds c k o).mpr ⟨⟨ho, hc⟩, hk⟩, ?_⟩
    intro p hp
    obtain ⟨⟨-, hc'⟩, hk'⟩ := (h.holds _ _ _).mp hp
    rw [hc] at hc'
    rw [hk] at hk'
    exact Prod.ext (some.inj hc').symm (Except.ok.inj hk').symm
  · intro c k o hh
    obtain ⟨⟨ho, hc⟩, hk⟩ := (h.holds c k o).mp hh
    exact ⟨ho, hc, hk⟩

/-- After any calls the maps and the indices agree, and no further call throws for known objects. -/
theorem runAll_consistent (assignment : ContainerAssignment) (fixedObjects : IdSet)
    (ops : List Operation) :
    let (a, keys) := runAll ops (.new assignment fixedObjects, fun _ => none)
    (∀ o c, o ∈ a.getObjects c ↔ a.objectToContainer.lookup o = some c) ∧
    (∀ o c, o ∈ a.getDynamicObjects c ↔ a.objectToContainer.lookup o = some c ∧ o ∉ fixedObjects) ∧
    (∀ o, o ∈ a.objectToContainer ↔ o ∈ assignment.getObjects) ∧
    (∀ name, Option.Rel (Agrees a name) (keys name) (a.index name)) ∧
    ∀ op : Operation, op.Known a → (op.run a).1 = .ok () := by
  obtain ⟨hconsistent, hf, hobjects⟩ := runAll_keeps ops
    (.new assignment fixedObjects, fun _ => none) (new_consistent assignment fixedObjects)
  rw [(new_placed assignment fixedObjects).fixed] at hf
  refine ⟨?_, ?_, ?_, ?_, ?_⟩
  · intro o c
    exact (hconsistent.objects o c).trans (and_iff_right trivial)
  · intro o c
    refine (hconsistent.dynamic o c).trans ?_
    rw [isDynamic, hf, and_comm, ← and_assoc]
    apply and_congr_left
    intro _
    refine and_iff_left_of_imp ?_
    intro hc
    exact mem_iff_lookup.mpr ⟨_, hc⟩
  · intro o
    refine (hobjects o).trans ?_
    rw [mem_iff_lookup, ContainerAssignment.getObjects, mem_flatten_values]
    simp only [new_lookup, mem_getD not_mem_nil]
  · intro name
    exact optionRel_imp (hconsistent.indices name) fun _ _ => agrees_of_lists
  · intro op
    exact (keeps hconsistent op).returns

end Operation

end Rebalancer
