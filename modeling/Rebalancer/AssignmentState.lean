import Rebalancer.ObjectIndex

namespace Rebalancer
open AssocMap IndexedAssignment

inductive IndexName where
  | equivSets
  | groups (partitionId : PartitionId)
  | equivSetAndGroups (partitionId : PartitionId)
deriving DecidableEq

namespace IndexName

@[reducible] def Key : IndexName → Type
  | equivSets => EquivalenceSetId
  | groups _ => GroupId
  | equivSetAndGroups _ => EquivalenceSetId × GroupId

@[reducible] def Entry : IndexName → Type
  | equivSets => IdSet
  | groups _ => IdSet
  | equivSetAndGroups _ => AssocMap GroupId IdSet

def kind : (name : IndexName) → IndexKind Nat name.Key name.Entry
  | equivSets => .single EquivalenceSetId
  | groups _ => .single GroupId
  | equivSetAndGroups _ => .double EquivalenceSetId GroupId

def spec : (name : IndexName) → name.kind.Spec
  | equivSets => IndexKind.singleSpec EquivalenceSetId
  | groups _ => IndexKind.singleSpec GroupId
  | equivSetAndGroups _ => IndexKind.doubleSpec EquivalenceSetId GroupId

abbrev Index (name : IndexName) := IndexedAssignment Nat name.Key name.Entry

end IndexName

abbrev IndexKeys := (name : IndexName) → Option (ObjectId → Except String name.Key)

/-- Where every object is, the objects of every container, and the indices built so far over the
objects that are not fixed. -/
structure AssignmentState where
  fixedObjects : IdSet
  objectToContainer : AssocMap ObjectId ContainerId
  containerToObjects : AssocMap ContainerId IdSet
  containerToObjectsDynamic : AssocMap ContainerId IdSet
  containerToEquivSetsToObjects : Option (IndexName.Index .equivSets)
  partitionToPerContainerObjectIndexByGroups :
    AssocMap PartitionId (IndexedAssignment Nat GroupId IdSet)
  partitionToPerContainerIndexByEquivSetAndGroups :
    AssocMap PartitionId (IndexedAssignment Nat (EquivalenceSetId × GroupId)
      (AssocMap GroupId IdSet))

namespace AssignmentState

def placeObject (fixedObjects : IdSet) (containerId : ContainerId)
    (s : AssocMap ObjectId ContainerId × IdSet × IdSet) (objectId : ObjectId) :
    AssocMap ObjectId ContainerId × IdSet × IdSet :=
  (if objectId ∈ s.1 then s.1 else s.1.insert objectId containerId, s.2.1.insert objectId,
    if objectId ∈ fixedObjects then s.2.2 else s.2.2.insert objectId)

section
variable (a : AssignmentState)

def placeContainer (entry : Sigma fun _ : ContainerId => List ObjectId) : AssignmentState :=
  let placed := entry.2.foldl (placeObject a.fixedObjects entry.1)
    (a.objectToContainer, .empty, .empty)
  { a with
    objectToContainer := placed.1
    containerToObjects := a.containerToObjects.insert entry.1 placed.2.1
    containerToObjectsDynamic := a.containerToObjectsDynamic.insert entry.1 placed.2.2 }

def new (containerToObjects : ContainerAssignment) (fixedObjects : IdSet) : AssignmentState :=
  containerToObjects.containerToObjects.entries.foldl placeContainer
    ⟨fixedObjects, ∅, ∅, ∅, none, ∅, ∅⟩

def getObjects (containerId : ContainerId) : IdSet := getD a.containerToObjects containerId .empty

def getDynamicObjects (containerId : ContainerId) : IdSet :=
  getD a.containerToObjectsDynamic containerId .empty

def isDynamic (objectId : ObjectId) : Prop :=
  objectId ∈ a.objectToContainer ∧ objectId ∉ a.fixedObjects

end

section
variable (a : AssignmentState) (objectId : ObjectId)

instance : Decidable (a.isDynamic objectId) := inferInstanceAs (Decidable (_ ∧ _))

def getContainer : Except String ContainerId := a.objectToContainer.fetch objectId

end

def index (a : AssignmentState) : (name : IndexName) → Option name.Index
  | .equivSets => a.containerToEquivSetsToObjects
  | .groups partitionId => a.partitionToPerContainerObjectIndexByGroups.lookup partitionId
  | .equivSetAndGroups partitionId =>
    a.partitionToPerContainerIndexByEquivSetAndGroups.lookup partitionId

def updateIndices (f : (name : IndexName) → name.Index → Except String name.Index)
    (a : AssignmentState) : Except String AssignmentState := do
  let byEquivSets ← match a.containerToEquivSetsToObjects with
    | none => .ok none
    | some index => do
      let index ← f .equivSets index
      .ok (some index)
  let byGroups ← a.partitionToPerContainerObjectIndexByGroups.updateAll
    fun partitionId => f (.groups partitionId)
  let byBoth ← a.partitionToPerContainerIndexByEquivSetAndGroups.updateAll
    fun partitionId => f (.equivSetAndGroups partitionId)
  .ok { a with
    containerToEquivSetsToObjects := byEquivSets
    partitionToPerContainerObjectIndexByGroups := byGroups
    partitionToPerContainerIndexByEquivSetAndGroups := byBoth }

def updateObjects (containerToObjects : AssocMap ContainerId IdSet) (containerId : ContainerId)
    (f : IdSet → IdSet) : AssocMap ContainerId IdSet :=
  containerToObjects.insert containerId (f (getD containerToObjects containerId .empty))

variable (objectId : ObjectId) (containerId : ContainerId)

def update (onObjects : IdSet → IdSet)
    (onIndex : (name : IndexName) → name.Index → Except String name.Index) (a : AssignmentState) :
    Except String AssignmentState :=
  let a := { a with containerToObjects := updateObjects a.containerToObjects containerId onObjects }
  if objectId ∈ a.fixedObjects then .ok a
  else
    updateIndices onIndex { a with
      containerToObjectsDynamic := updateObjects a.containerToObjectsDynamic containerId onObjects }

def add : AssignmentState → Except String AssignmentState :=
  update objectId containerId (fun objects => objects.insert objectId)
    fun name => setOn name.kind objectId containerId

def remove : AssignmentState → Except String AssignmentState :=
  update objectId containerId (fun objects => objects.erase objectId)
    fun name => removeFrom name.kind objectId containerId

def moveTo (a : AssignmentState) : Except String AssignmentState := do
  let currContainerId ← a.objectToContainer.fetch objectId
  let a ← a.remove objectId currContainerId
  let a ← a.add objectId containerId
  .ok { a with objectToContainer := a.objectToContainer.insert objectId containerId }

def setIndex (a : AssignmentState) : (name : IndexName) → Option name.Index → AssignmentState
  | .equivSets, index => { a with containerToEquivSetsToObjects := index }
  | .groups partitionId, some index =>
    { a with
      partitionToPerContainerObjectIndexByGroups :=
        a.partitionToPerContainerObjectIndexByGroups.insert partitionId index }
  | .groups partitionId, none =>
    { a with
      partitionToPerContainerObjectIndexByGroups :=
        a.partitionToPerContainerObjectIndexByGroups.erase partitionId }
  | .equivSetAndGroups partitionId, some index =>
    { a with
      partitionToPerContainerIndexByEquivSetAndGroups :=
        a.partitionToPerContainerIndexByEquivSetAndGroups.insert partitionId index }
  | .equivSetAndGroups partitionId, none =>
    { a with
      partitionToPerContainerIndexByEquivSetAndGroups :=
        a.partitionToPerContainerIndexByEquivSetAndGroups.erase partitionId }

def buildIndex (name : IndexName) (getObjectIdxFunc : ObjectId → Except String name.Key)
    (a : AssignmentState) : Except String Unit × AssignmentState :=
  match IndexedAssignment.new name.kind a.containerToObjectsDynamic getObjectIdxFunc with
  | .ok index => (.ok (), a.setIndex name (some index))
  | .error message => (.error message, a)

def buildIndexByEquivalentSets (equivalenceSets : EquivalenceSets) (a : AssignmentState) :
    Except String Unit × AssignmentState :=
  (a.setIndex .equivSets none).buildIndex .equivSets equivalenceSets.setAt

def getOnlyGroup (multipleGroups : String) (partition : Partition) (object : ObjectId) :
    Except String GroupId :=
  match partition.objectIdToGroupIds object with
  | [] => .error outOfRange
  | [group] => .ok group
  | _ => .error multipleGroups

def getGroupIdx : Partition → ObjectId → Except String GroupId :=
  getOnlyGroup "Building assignment index by partition failed: object belongs to multiple groups"

def getEquivSetAndGroupIdx (equivalenceSets : EquivalenceSets) (partition : Partition)
    (object : ObjectId) : Except String (EquivalenceSetId × GroupId) := do
  let group ← getOnlyGroup ("Building assignment index by partition + equivSets failed: " ++
    "object belongs to multiple groups") partition object
  let equivSet ← equivalenceSets.setAt object
  .ok (equivSet, group)

variable (partitions : AssocMap PartitionId Partition)

def buildIndexByPartition (partitionId : PartitionId)
    (a : AssignmentState) : Except String Unit × AssignmentState :=
  match a.index (.groups partitionId), partitions.fetch partitionId with
  | some _, _ => (.ok (), a)
  | none, .error message => (.error message, a)
  | none, .ok partition => a.buildIndex (.groups partitionId) (getGroupIdx partition)

def buildIndexByEquivalentSetsAndPartition
    (equivalenceSets : EquivalenceSets) (partitionId : PartitionId) (a : AssignmentState) :
    Except String Unit × AssignmentState :=
  let a := a.setIndex (.equivSetAndGroups partitionId) none
  match partitions.fetch partitionId with
  | .error message => (.error message, a)
  | .ok partition =>
    a.buildIndex (.equivSetAndGroups partitionId) (getEquivSetAndGroupIdx equivalenceSets partition)

end AssignmentState

namespace IndexedAssignment
variable {ι κ σ : Type} {K : IndexKind ι κ σ}

structure Extends (index index' : IndexedAssignment ι κ σ) : Prop where
  keys : index'.objectToIndex = index.objectToIndex
  containers : ∀ d, d ∈ index.containerToIndexedObjects → d ∈ index'.containerToIndexedObjects

theorem Extends.refl (index : IndexedAssignment ι κ σ) : index.Extends index := ⟨rfl, fun _ h => h⟩

theorem Extends.trans {i₁ i₂ i₃ : IndexedAssignment ι κ σ} (h₁ : i₁.Extends i₂)
    (h₂ : i₂.Extends i₃) : i₁.Extends i₃ :=
  ⟨h₂.keys.trans h₁.keys, fun d hd => h₂.containers d (h₁.containers d hd)⟩

variable [DecidableEq ι]

/-- The index lists the objects that are `dyn`, each on the container it is `on` and under its
key. -/
structure Lists (S : K.Spec) (key : ObjectId → Except String κ) (dyn : ObjectId → Prop)
    (on : ObjectId → Option ContainerId) (index : IndexedAssignment ι κ σ) : Prop where
  pruned : index.Pruned S
  noted : ∀ o, dyn o → ∃ k, key o = .ok k ∧ index.objectToIndex.lookup o = some k
  holds : ∀ c k o, index.Holds S c k o ↔ (dyn o ∧ on o = some c) ∧ key o = .ok k

theorem Lists.congr {index : IndexedAssignment ι κ σ} (h : index.Lists S key dyn on)
    (hd : ∀ o, dyn' o ↔ dyn o) (hon : ∀ o, dyn o → on' o = on o) : index.Lists S key dyn' on' := by
  refine ⟨h.pruned, fun o ho => h.noted o ((hd o).mp ho), ?_⟩
  intro c k o
  rw [h.holds, hd]
  apply and_congr_left
  intro _
  apply and_congr_right
  intro ho
  rw [hon o ho]

theorem Lists.removeFrom [ToString ι] {S : K.Spec}
    (h : index.Lists S key dyn on) (ho : dyn o) (hc : on o = some c) :
    ∃ index', removeFrom K o c index = .ok index' ∧
      index'.Lists S key dyn (Function.update on o none) ∧ index.Extends index' := by
  obtain ⟨k, hkey, hk⟩ := h.noted o ho
  obtain ⟨index', hi', hp, hkeys, hcontainers, hh⟩ := removeFrom_spec h.pruned hk
    ((h.holds c k o).mpr ⟨⟨ho, hc⟩, hkey⟩)
  refine ⟨index', hi', ⟨hp, ?_, ?_⟩, hkeys, fun e => (hcontainers e).mpr⟩
  · rw [hkeys]
    exact h.noted
  · intro c' k' o'
    rw [hh, h.holds]
    by_cases he : o' = o
    · subst he
      rw [Function.update_self]
      refine iff_of_false ?_ fun hn => nomatch hn.1.2
      intro hold
      obtain ⟨⟨⟨-, hc'⟩, hk'⟩, hne⟩ := hold
      rw [hc] at hc'
      rw [hkey] at hk'
      cases hc'
      cases hk'
      exact hne ⟨rfl, rfl, rfl⟩
    · rw [Function.update_of_ne he, and_iff_left fun hn => he hn.2.2]

theorem Lists.setOn {S : K.Spec} (h : index.Lists S key dyn on)
    (ho : dyn o) (hno : on o = none) (c : ContainerId) : ∃ index', setOn K o c index = .ok index' ∧
      index'.Lists S key dyn (Function.update on o (some c)) ∧ index.Extends index' := by
  obtain ⟨k, hkey, hk⟩ := h.noted o ho
  obtain ⟨index', hi', hp, hkeys, hcontainers, hh⟩ := setOn_spec h.pruned hk c
  refine ⟨index', hi', ⟨hp, ?_, ?_⟩, hkeys, fun e he => (hcontainers e).mpr (.inr he)⟩
  · rw [hkeys]
    exact h.noted
  · intro c' k' o'
    rw [hh, h.holds]
    by_cases he : o' = o
    · subst he
      rw [Function.update_self, hno, hkey]
      simp only [reduceCtorEq, and_false, false_and, and_true, false_or, Option.some.injEq,
        Except.ok.injEq, ho, true_and]
      rw [eq_comm, eq_comm (a := k)]
    · rw [Function.update_of_ne he, or_iff_left fun hn => he hn.2.2]

end IndexedAssignment

namespace AssignmentState
variable {a : AssignmentState}

theorem updateIndices_rel {R : (name : IndexName) → name.Index → name.Index → Prop}
    (h : ∀ name index, a.index name = some index →
      ∃ index', f name index = .ok index' ∧ R name index index') :
    ∃ byEquivSets byGroups byBoth, ∃ a' : AssignmentState, a' = { a with
        containerToEquivSetsToObjects := byEquivSets
        partitionToPerContainerObjectIndexByGroups := byGroups
        partitionToPerContainerIndexByEquivSetAndGroups := byBoth } ∧
      updateIndices f a = .ok a' ∧
      ∀ name, Option.Rel (R name) (a.index name) (a'.index name) := by
  obtain ⟨byGroups, hb, hg⟩ := updateAll_rel (m := a.partitionToPerContainerObjectIndexByGroups)
    (f := fun p => f (.groups p))
    (R := fun p => R (.groups p)) (by
      intro p
      exact h (.groups p))
  obtain ⟨byBoth, hbyBoth, hboth⟩ := updateAll_rel
    (m := a.partitionToPerContainerIndexByEquivSetAndGroups)
    (f := fun p => f (.equivSetAndGroups p))
    (R := fun p => R (.equivSetAndGroups p))
    (by
      intro p
      exact h (.equivSetAndGroups p))
  obtain ⟨byEquivSets, he, hr⟩ : ∃ byEquivSets, updateIndices f a = .ok { a with
        containerToEquivSetsToObjects := byEquivSets
        partitionToPerContainerObjectIndexByGroups := byGroups
        partitionToPerContainerIndexByEquivSetAndGroups := byBoth } ∧
      Option.Rel (R .equivSets) a.containerToEquivSetsToObjects byEquivSets := by
    rw [updateIndices]
    cases hi : a.containerToEquivSetsToObjects with
    | none => exact ⟨none, by simp [except_ok_bind, hb, hbyBoth], .none⟩
    | some index =>
      obtain ⟨index', hi', hr⟩ := h .equivSets index hi
      exact ⟨some index', by simp [hi', except_ok_bind, hb, hbyBoth], .some hr⟩
  refine ⟨byEquivSets, byGroups, byBoth, _, rfl, he, ?_⟩
  intro name
  cases name with
  | equivSets => exact hr
  | groups p => exact hg p
  | equivSetAndGroups p => exact hboth p

/-- The sets hold the objects that satisfy `P`, each on the container it is `on`. -/
def Stores (m : AssocMap ContainerId IdSet) (P : ObjectId → Prop)
    (on : ObjectId → Option ContainerId) : Prop :=
  ∀ o c, o ∈ getD m c .empty ↔ P o ∧ on o = some c

theorem mem_updateObjects (m : AssocMap ContainerId IdSet) (c : ContainerId) (f : IdSet → IdSet)
    (d : ContainerId) : getD (updateObjects m c f) d .empty =
      if d = c then f (getD m d .empty) else getD m d .empty := by
  rw [updateObjects]
  split_ifs with hd
  · rw [hd, getD_insert_self]
  · exact getD_insert_ne _ hd _ _

theorem Stores.erase (h : Stores m P on) (hc : on o = some c) :
    Stores (updateObjects m c fun objects => objects.erase o) P (Function.update on o none) := by
  intro o' c'
  rw [mem_updateObjects]
  by_cases ho : o' = o
  · subst ho
    rw [Function.update_self]
    refine iff_of_false ?_ fun hn => nomatch hn.2
    split_ifs with hne
    · intro hmem
      exact (IdSet.mem_erase.mp hmem).2 rfl
    · intro hmem
      rw [h, hc] at hmem
      exact hne (Option.some.inj hmem.2).symm
  · rw [Function.update_of_ne ho, ← h]
    split
    · exact IdSet.mem_erase_of_ne ho
    · exact Iff.rfl

theorem Stores.insert (h : Stores m P on) (ho : P o) (hn : on o = none) (c : ContainerId) :
    Stores (updateObjects m c fun objects => objects.insert o) P
      (Function.update on o (some c)) := by
  intro o' c'
  rw [mem_updateObjects]
  by_cases he : o' = o
  · subst he
    rw [Function.update_self, and_iff_right ho]
    split_ifs with hc
    · exact iff_of_true (IdSet.mem_insert.mpr (.inl rfl)) (congrArg some hc.symm)
    · refine iff_of_false ?_ fun heq => hc (Option.some.inj heq).symm
      rw [h, hn]
      intro hmem
      cases hmem.2
  · rw [Function.update_of_ne he, ← h]
    split
    · rw [IdSet.mem_insert, or_iff_right he]
    · exact Iff.rfl

/-- The containers and the indices list every object where it is `on`, the indices under the
keys they were built from. -/
structure Tracks (a : AssignmentState) (on : ObjectId → Option ContainerId) (keys : IndexKeys) :
    Prop where
  known : ∀ o c, on o = some c → o ∈ a.objectToContainer
  objects : Stores a.containerToObjects (fun _ => True) on
  dynamic : Stores a.containerToObjectsDynamic a.isDynamic on
  indices : ∀ name, Option.Rel (fun key index => index.Lists name.spec key a.isDynamic on)
    (keys name) (a.index name)

theorem Tracks.key_of_index {index : name.Index}
    (h : a.Tracks on keys) (hi : a.index name = some index) : ∃ key, keys name = some key := by
  have hr := h.indices name
  rw [hi] at hr
  generalize keys name = key at hr
  cases hr with
  | some => exact ⟨_, rfl⟩

theorem Tracks.lists {index : name.Index} (h : a.Tracks on keys) (hk : keys name = some key)
    (hi : a.index name = some index) : index.Lists name.spec key a.isDynamic on := by
  have hr := h.indices name
  rw [hi, hk] at hr
  cases hr with
  | some hl => exact hl

theorem Tracks.container_mem (h : a.Tracks on keys) (hc : on o = some c) :
    c ∈ a.containerToObjects := by
  have ho := (h.objects o c).mpr ⟨trivial, hc⟩
  by_contra hnot
  rw [getD, AList.lookup_eq_none.mpr hnot] at ho
  cases ho

structure Frame (C : ContainerId → Prop) (a a' : AssignmentState) : Prop where
  fixedObjects : a'.fixedObjects = a.fixedObjects
  containers : ∀ d, d ∈ a.containerToObjects → d ∈ a'.containerToObjects
  added : ∀ d, d ∈ a'.containerToObjects → C d ∨ d ∈ a.containerToObjects
  indices : ∀ name, Option.Rel (fun index index' => index.Extends index')
    (a.index name) (a'.index name)

theorem Frame.refl (C : ContainerId → Prop) (a : AssignmentState) : Frame C a a :=
  ⟨rfl, fun _ h => h, fun _ h => .inr h, fun name => optionRel_refl .refl (a.index name)⟩

theorem Frame.mono (h : Frame C a a') (hC : ∀ d, C d → C' d) : Frame C' a a' :=
  ⟨h.fixedObjects, h.containers, fun d hd => (h.added d hd).imp_left (hC d), h.indices⟩

theorem Frame.trans (h₁ : Frame C a₁ a₂) (h₂ : Frame C a₂ a₃) : Frame C a₁ a₃ := by
  refine ⟨h₂.fixedObjects.trans h₁.fixedObjects, fun d hd => h₂.containers d (h₁.containers d hd),
    ?_, fun name => optionRel_comp (h₁.indices name) (h₂.indices name) fun _ _ _ _ => .trans⟩
  intro d hd
  rcases h₂.added d hd with hd | hd
  · exact .inl hd
  · exact h₁.added d hd

theorem Tracks.update (h : a.Tracks on keys) (ho : o ∈ a.objectToContainer)
    (h' : ∀ x, x ≠ o → on' x = on x)
    (hob : ∀ m P, P o → Stores m P on → Stores (updateObjects m c onObjects) P on')
    (hi : ∀ (name : IndexName) key index, a.isDynamic o → index.Lists name.spec key a.isDynamic on →
      ∃ index', i name index = .ok index' ∧ index'.Lists name.spec key a.isDynamic on' ∧
        index.Extends index') (had : C c ∨ c ∈ a.containerToObjects) :
    ∃ a', AssignmentState.update o c onObjects i a = .ok a' ∧ a'.Tracks on' keys ∧
      a'.objectToContainer = a.objectToContainer ∧ Frame C a a' := by
  have hk : ∀ x c, on' x = some c → x ∈ a.objectToContainer := by
    intro x c hx
    by_cases he : x = o
    · exact he ▸ ho
    · exact h.known x c (h' x he ▸ hx)
  have ha : ∀ e, e ∈ updateObjects a.containerToObjects c onObjects →
      C e ∨ e ∈ a.containerToObjects := by
    intro e he
    rcases (AList.mem_insert _).mp he with rfl | he
    · exact had
    · exact .inr he
  have hkeep : ∀ e, e ∈ a.containerToObjects →
      e ∈ updateObjects a.containerToObjects c onObjects := fun e he =>
    (AList.mem_insert _).mpr (.inr he)
  by_cases hf : o ∈ a.fixedObjects
  · have hs : ∀ x, a.isDynamic x → on' x = on x := by
      intro x hx
      apply h'
      intro he
      exact hx.2 (he ▸ hf)
    refine ⟨{ a with containerToObjects := updateObjects a.containerToObjects c onObjects }, ?_,
      ⟨hk, hob _ _ trivial h.objects, ?_, ?_⟩, rfl, rfl, hkeep, ha, ?_⟩
    · exact if_pos hf
    · intro x e
      refine (h.dynamic x e).trans ?_
      apply and_congr_right
      intro hx
      rw [hs x hx]
    · intro name
      exact optionRel_imp (h.indices name) fun key index hl => hl.congr (fun _ => Iff.rfl) hs
    · intro name
      exact optionRel_refl .refl (a.index name)
  · have hd : a.isDynamic o := ⟨ho, hf⟩
    let b : AssignmentState := { a with
      containerToObjects := updateObjects a.containerToObjects c onObjects
      containerToObjectsDynamic := updateObjects a.containerToObjectsDynamic c onObjects }
    obtain ⟨s, g, byBoth, a', ha', hu, hr⟩ := updateIndices_rel
      (f := i) (a := b) (R := fun name index index' => index.Extends index' ∧
        ∀ key, keys name = some key → index'.Lists name.spec key a.isDynamic on') (by
        intro name index hn
        obtain ⟨key, hkey⟩ := h.key_of_index hn
        obtain ⟨index', hi', hlists, hext⟩ := hi name key index hd (h.lists hkey hn)
        refine ⟨index', hi', hext, ?_⟩
        intro key' hk'
        rw [hkey] at hk'
        cases hk'
        exact hlists)
    subst ha'
    refine ⟨{ b with
      containerToEquivSetsToObjects := s
      partitionToPerContainerObjectIndexByGroups := g
      partitionToPerContainerIndexByEquivSetAndGroups := byBoth }, ?_,
      ⟨hk, hob _ _ trivial h.objects, hob _ _ hd h.dynamic, ?_⟩, rfl, rfl, hkeep,
      ha, fun name => optionRel_imp (hr name) fun _ _ hext => hext.1⟩
    · exact (if_neg hf).trans hu
    · intro name
      exact optionRel_comp (h.indices name) (hr name) fun key _ _ hkey _ hext => hext.2 key hkey

theorem Tracks.remove (h : a.Tracks on keys) (hc : on o = some c) (C : ContainerId → Prop) :
    ∃ a', AssignmentState.remove o c a = .ok a' ∧ a'.Tracks (Function.update on o none) keys ∧
      a'.objectToContainer = a.objectToContainer ∧ Frame C a a' := by
  apply h.update (h.known o c hc) fun x hx => Function.update_of_ne hx _ _
  · intro m P _ hm
    exact hm.erase hc
  · intro name key i ho hl
    exact hl.removeFrom ho hc
  · exact .inr (h.container_mem hc)

theorem Tracks.add (h : a.Tracks on keys) (ho : o ∈ a.objectToContainer)
    (hn : on o = none) (c : ContainerId) :
    ∃ a', AssignmentState.add o c a = .ok a' ∧ a'.Tracks (Function.update on o (some c)) keys ∧
      a'.objectToContainer = a.objectToContainer ∧ Frame (· = c) a a' := by
  apply h.update ho fun x hx => Function.update_of_ne hx _ _
  · intro m P hP hm
    exact hm.insert hP hn c
  · intro name key i hd hl
    exact hl.setOn hd hn c
  · exact .inl rfl

def Consistent (a : AssignmentState) (keys : IndexKeys) : Prop :=
  a.Tracks (fun o => a.objectToContainer.lookup o) keys

theorem Consistent.moveTo (h : a.Consistent keys) (ho : o ∈ a.objectToContainer) (c : ContainerId) :
    ∃ a', AssignmentState.moveTo o c a = .ok a' ∧ a'.Consistent keys ∧
      (∀ x, a'.objectToContainer.lookup x =
        Function.update (fun x => a.objectToContainer.lookup x) o (some c) x) ∧
      Frame (· = c) a a' := by
  obtain ⟨curr, hc⟩ := mem_iff_lookup.mp ho
  obtain ⟨a₁, ha₁, ht₁, hs₁, hf₁⟩ := Tracks.remove h hc (· = c)
  obtain ⟨a₂, ha₂, ht₂, hs₂, hf₂⟩ := ht₁.add (hs₁ ▸ ho) (Function.update_self _ _ _) c
  rw [Function.update_idem] at ht₂
  have hs : a₂.objectToContainer = a.objectToContainer := hs₂.trans hs₁
  have hon : (fun x => (a₂.objectToContainer.insert o c).lookup x) =
      Function.update (fun x => a.objectToContainer.lookup x) o (some c) := by
    rw [lookup_insert_eq, hs]
  have hd : ∀ x, AssignmentState.isDynamic
      { a₂ with objectToContainer := a₂.objectToContainer.insert o c } x ↔ a₂.isDynamic x := by
    intro x
    apply and_congr_left
    intro _
    refine (AList.mem_insert _).trans (or_iff_right_of_imp ?_)
    intro hx
    rw [hx, hs]
    exact ho
  have hf := hf₁.trans hf₂
  refine ⟨{ a₂ with objectToContainer := a₂.objectToContainer.insert o c }, ?_, ?_, congrFun hon,
    hf.fixedObjects, hf.containers, hf.added, hf.indices⟩
  · rw [AssignmentState.moveTo, fetch_ok hc]
    simp [except_ok_bind, ha₁, ha₂]
  · change Tracks _ (fun x => (a₂.objectToContainer.insert o c).lookup x) keys
    rw [hon]
    refine ⟨?_, ht₂.objects, ?_, ?_⟩
    · intro x d hx
      exact (AList.mem_insert _).mpr (.inr (ht₂.known x d hx))
    · intro x d
      rw [hd]
      exact ht₂.dynamic x d
    · intro name
      exact optionRel_imp (ht₂.indices name) fun key i hl =>
        hl.congr hd fun _ _ => rfl

end AssignmentState

end Rebalancer
