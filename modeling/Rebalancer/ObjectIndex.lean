import Rebalancer.LeafIndexSpec
import Rebalancer.ObjectToContainer

namespace Rebalancer
open List Option AList AssocMap

def outOfRange : String := "at() did not find key"

def AssocMap.fetch {κ β : Type} [DecidableEq κ] (m : AssocMap κ β) (k : κ) : Except String β :=
  match AList.lookup k m with
  | some v => .ok v
  | none => .error outOfRange

section
variable [DecidableEq κ] {m : AssocMap κ β}

theorem AssocMap.fetch_ok (h : AList.lookup k m = some v) : m.fetch k = .ok v := by
  simp [fetch, h]

theorem AssocMap.of_fetch_ok (h : m.fetch k = .ok v) : AList.lookup k m = some v := by
  rw [fetch] at h
  split at h
  · cases h
    assumption
  · cases h

end

structure IndexKind (ι κ σ : Type) where
  getPrimaryIndex : κ → ι
  emptyEntry : σ
  add : σ → ObjectId → κ → σ
  remove : σ → ObjectId → κ → Except String σ
  empty : σ → Bool

namespace IndexKind

def single (ι : Type) : IndexKind ι ι IdSet where
  getPrimaryIndex objectIdx := objectIdx
  emptyEntry := .empty
  add objects object _ := objects.insert object
  remove objects object _ := .ok (objects.erase object)
  empty objects := decide (objects.size = 0)

def double (ι ι' : Type) [DecidableEq ι'] [ToString ι'] :
    IndexKind ι (ι × ι') (AssocMap ι' IdSet) where
  getPrimaryIndex := Prod.fst
  emptyEntry := ∅
  add objectStore object objectIdx :=
    objectStore.insert objectIdx.2 ((objectStore.getD objectIdx.2 .empty).insert object)
  remove objectStore object objectIdx :=
    let secondaryIdx := objectIdx.2
    match objectStore.lookup secondaryIdx with
    | some objects =>
      if (objects.erase object).size = 0 then .ok (objectStore.erase secondaryIdx)
      else .ok (objectStore.insert secondaryIdx (objects.erase object))
    | none =>
      .error s!"Cannot remove a non-existent object {object} from secondary index {secondaryIdx}"
  empty objectStore := decide (objectStore.size = 0)

end IndexKind

structure IndexedAssignment (ι κ σ : Type) where
  containerToIndexedObjects : AssocMap ContainerId (AssocMap ι σ)
  objectToIndex : AssocMap ObjectId κ

namespace IndexedAssignment
variable {ι κ σ : Type} [DecidableEq ι] (K : IndexKind ι κ σ)

def insertObject (index : IndexedAssignment ι κ σ) (object : ObjectId) (container : ContainerId)
    (objectIdx : κ) : IndexedAssignment ι κ σ :=
  let containerObjects := AssocMap.getD index.containerToIndexedObjects container ∅
  let primaryIdx := K.getPrimaryIndex objectIdx
  { index with
    containerToIndexedObjects := index.containerToIndexedObjects.insert container
      (containerObjects.insert primaryIdx
        (K.add (containerObjects.getD primaryIdx K.emptyEntry) object objectIdx)) }

section
variable (getObjectIndexFunc : ObjectId → Except String κ)

def indexObject (container : ContainerId) (index : IndexedAssignment ι κ σ) (object : ObjectId) :
    Except String (IndexedAssignment ι κ σ) := do
  let objectIdx ← getObjectIndexFunc object
  let objectToIndex :=
    if object ∈ index.objectToIndex then index.objectToIndex
    else index.objectToIndex.insert object objectIdx
  .ok (insertObject K { index with objectToIndex } object container objectIdx)

def indexContainer (index : IndexedAssignment ι κ σ) (entry : Sigma fun _ : ContainerId => IdSet) :
    Except String (IndexedAssignment ι κ σ) :=
  entry.2.elems.foldlM (indexObject K getObjectIndexFunc entry.1) { index with
      containerToIndexedObjects := index.containerToIndexedObjects.insert entry.1
        (AssocMap.getD index.containerToIndexedObjects entry.1 ∅) }

end

def new (containerToObjectsDynamic : AssocMap ContainerId IdSet)
    (getObjectIndexFunc : ObjectId → Except String κ) : Except String (IndexedAssignment ι κ σ) :=
  containerToObjectsDynamic.entries.foldlM (indexContainer K getObjectIndexFunc) ⟨∅, ∅⟩

def setOn (object : ObjectId) (container : ContainerId) (index : IndexedAssignment ι κ σ) :
    Except String (IndexedAssignment ι κ σ) := do
  let objIdx ← index.objectToIndex.fetch object
  .ok (insertObject K index object container objIdx)

def removeFrom [ToString ι] (object : ObjectId) (container : ContainerId)
    (index : IndexedAssignment ι κ σ) : Except String (IndexedAssignment ι κ σ) := do
  let objIdx ← index.objectToIndex.fetch object
  let primaryIdx := K.getPrimaryIndex objIdx
  let containerObjects ← index.containerToIndexedObjects.fetch container
  match containerObjects.lookup primaryIdx with
  | none =>
    .error (s!"Cannot remove a non-existent object {object} (index {primaryIdx}) " ++
      s!"from container {container}")
  | some indexedObjects => do
    let indexedObjects ← K.remove indexedObjects object objIdx
    let containerObjects :=
      if K.empty indexedObjects then containerObjects.erase primaryIdx
      else containerObjects.insert primaryIdx indexedObjects
    .ok { index with
      containerToIndexedObjects := index.containerToIndexedObjects.insert container
        containerObjects }

end IndexedAssignment

structure IndexKind.Spec (K : IndexKind ι κ σ) where
  Mem : σ → κ → ObjectId → Prop
  Wf : σ → Prop
  wf_empty : Wf K.emptyEntry
  not_mem_empty : ∀ k o, ¬ Mem K.emptyEntry k o
  wf_add : ∀ s o k, Wf s → Wf (K.add s o k)
  mem_add : ∀ s o k k' o', K.getPrimaryIndex k' = K.getPrimaryIndex k →
    (Mem (K.add s o k) k' o' ↔ Mem s k' o' ∨ k' = k ∧ o' = o)
  remove : ∀ s o k, Wf s → Mem s k o → ∃ s', K.remove s o k = .ok s' ∧ Wf s' ∧
    ∀ k' o', K.getPrimaryIndex k' = K.getPrimaryIndex k →
      (Mem s' k' o' ↔ Mem s k' o' ∧ ¬ (k' = k ∧ o' = o))
  empty_iff : ∀ s k, Wf s →
    (K.empty s = true ↔ ∀ k' o, K.getPrimaryIndex k' = K.getPrimaryIndex k → ¬ Mem s k' o)

namespace IdSet

theorem mem_erase {s : IdSet} : y ∈ s.erase x ↔ y ∈ s ∧ y ≠ x :=
  s.nodup.mem_erase_iff.trans and_comm

theorem size_eq_zero {s : IdSet} : s.size = 0 ↔ ∀ x, x ∉ s := by
  rw [size, length_eq_zero_iff]
  exact eq_nil_iff_forall_not_mem

end IdSet

namespace IndexKind

def singleSpec (ι : Type) : (single ι).Spec where
  Mem s _ o := o ∈ s
  Wf _ := True
  wf_empty := trivial
  not_mem_empty _ _ := List.not_mem_nil
  wf_add _ _ _ _ := trivial
  mem_add s o k k' o' hk := by
    change k' = k at hk
    change o' ∈ s.insert o ↔ _
    rw [IdSet.mem_insert, or_comm, and_iff_right hk]
  remove s o k _ _ := by
    refine ⟨s.erase o, rfl, trivial, ?_⟩
    intro k' o' hk
    change k' = k at hk
    rw [IdSet.mem_erase, and_iff_right hk]
  empty_iff s k _ := by
    change decide (s.size = 0) = true ↔ _
    rw [decide_eq_true_iff, IdSet.size_eq_zero]
    constructor
    · intro h _ o _
      exact h o
    · intro h o
      exact h k o rfl

section
variable {ι ι' : Type} [DecidableEq ι'] [ToString ι']

theorem double_remove (h : s.lookup k.2 = some os) (o : ObjectId) :
    ∃ s' : AssocMap ι' IdSet, (double ι ι').remove s o k = .ok s' ∧
      s'.lookup k.2 = (if (os.erase o).size = 0 then none else some (os.erase o)) ∧
      ∀ j, j ≠ k.2 → s'.lookup j = s.lookup j := by
  by_cases hsize : (os.erase o).size = 0
  · refine ⟨s.erase k.2, ?_, ?_, fun j hj => lookup_erase_ne hj⟩
    · simp [double, h, hsize]
    · rw [if_pos hsize, lookup_erase]
  · refine ⟨s.insert k.2 (os.erase o), ?_, ?_, fun j hj => lookup_insert_ne hj⟩
    · simp [double, h, hsize]
    · rw [if_neg hsize, lookup_insert]

def doubleSpec (ι ι' : Type) [DecidableEq ι'] [ToString ι'] : (double ι ι').Spec where
  Mem s k o := ∃ objects : IdSet, AList.lookup k.2 s = some objects ∧ o ∈ objects
  Wf s := ∀ j objects, AList.lookup j s = some objects → objects.size ≠ 0
  wf_empty _ _ h := nomatch h
  not_mem_empty k o h := by
    obtain ⟨_, h, -⟩ := h
    cases h
  wf_add s o k h := by
    intro j objects hj
    change (s.insert k.2 _).lookup j = some objects at hj
    by_cases hk : j = k.2
    · subst hk
      rw [lookup_insert] at hj
      cases hj
      intro hzero
      exact IdSet.size_eq_zero.mp hzero o (IdSet.mem_insert.mpr (.inl rfl))
    · rw [lookup_insert_ne hk] at hj
      exact h j objects hj
  mem_add s o k k' o' hk := by
    change (∃ objects, (s.insert k.2 _).lookup k'.2 = some objects ∧ o' ∈ objects) ↔ _
    by_cases hk₂ : k'.2 = k.2
    · rw [hk₂, lookup_insert, and_iff_right (Prod.ext hk hk₂), AssocMap.getD]
      simp only [Option.some.injEq, exists_eq_left', IdSet.mem_insert]
      rw [or_comm]
      apply or_congr_left
      cases AList.lookup k.2 s with
      | none => exact iff_of_false List.not_mem_nil fun h => nomatch h.choose_spec.1
      | some objects => simp
    · rw [lookup_insert_ne hk₂, or_iff_left fun h => hk₂ (congrArg Prod.snd h.1)]
  remove s o k h hmem := by
    obtain ⟨objects, hobjects, ho⟩ := hmem
    obtain ⟨s', hs', hself, hother⟩ := double_remove hobjects o
    refine ⟨s', hs', ?_, ?_⟩
    · intro j objects' hj
      by_cases hk : j = k.2
      · rw [hk, hself] at hj
        split at hj
        · cases hj
        · rename_i hsize
          cases hj
          exact hsize
      · rw [hother j hk] at hj
        exact h j objects' hj
    · intro k' o' hk
      by_cases hk₂ : k'.2 = k.2
      · rw [hk₂, hself, hobjects, and_iff_right (Prod.ext hk hk₂)]
        simp only [Option.some.injEq, exists_eq_left']
        rw [← IdSet.mem_erase]
        split_ifs with hsize
        · exact iff_of_false (fun h => nomatch h.choose_spec.1) (IdSet.size_eq_zero.mp hsize o')
        · simp
      · rw [hother _ hk₂, and_iff_left fun h => hk₂ (congrArg Prod.snd h.1)]
  empty_iff s k h := by
    change decide (s.size = 0) = true ↔ _
    rw [decide_eq_true_iff]
    constructor
    · intro hsize k' o _ hmem
      obtain ⟨objects, hobjects, -⟩ := hmem
      exact not_mem_of_size hsize (mem_iff_lookup.mpr ⟨_, hobjects⟩)
    · intro hnone
      by_contra hsize
      obtain ⟨j, hj⟩ := exists_mem hsize
      obtain ⟨objects, hobjects⟩ := mem_iff_lookup.mp hj
      apply h j objects hobjects
      apply IdSet.size_eq_zero.mpr
      intro o ho
      exact hnone (k.1, j) o rfl ⟨objects, hobjects, ho⟩

end

end IndexKind

namespace IndexedAssignment
variable {ι κ σ : Type} [DecidableEq ι] {K : IndexKind ι κ σ}

def entryAt (K : IndexKind ι κ σ) (index : IndexedAssignment ι κ σ) (c : ContainerId) (i : ι) : σ :=
  AssocMap.getD (AssocMap.getD index.containerToIndexedObjects c ∅) i K.emptyEntry

section
variable (S : K.Spec) (index : IndexedAssignment ι κ σ)

def Holds (c : ContainerId) (k : κ) (o : ObjectId) : Prop :=
  S.Mem (index.entryAt K c (K.getPrimaryIndex k)) k o

def Pruned : Prop :=
  ∀ c containerObjects, index.containerToIndexedObjects.lookup c = some containerObjects →
    ∀ i entry, AList.lookup i containerObjects = some entry → S.Wf entry ∧ K.empty entry = false
end

variable {index : IndexedAssignment ι κ σ}

variable {S : K.Spec}

theorem Pruned.getD (h : index.Pruned S)
    (hi : AList.lookup i (AssocMap.getD index.containerToIndexedObjects c ∅) = some e) :
    S.Wf e ∧ K.empty e = false := by
  rw [AssocMap.getD] at hi
  cases hc : index.containerToIndexedObjects.lookup c with
  | none =>
    rw [hc] at hi
    cases hi
  | some o =>
    rw [hc] at hi
    exact h c o hc i e hi

theorem Pruned.wf_entryAt (h : index.Pruned S)
    (c : ContainerId) (i : ι) : S.Wf (index.entryAt K c i) := by
  rw [entryAt, AssocMap.getD]
  cases hi : lookup i (AssocMap.getD index.containerToIndexedObjects c ∅) with
  | none => exact S.wf_empty
  | some e => exact (h.getD hi).1

theorem Pruned.insert (h : index.Pruned S) (hn : ∀ i entry, AList.lookup i os = some entry →
      S.Wf entry ∧ K.empty entry = false) : Pruned S { index with
      containerToIndexedObjects := index.containerToIndexedObjects.insert c os } := by
  exact forall_lookup_insert hn h

theorem insertObject_entryAt (index : IndexedAssignment ι κ σ) (o : ObjectId) (c : ContainerId)
    (k : κ) (d : ContainerId) (i : ι) : (insertObject K index o c k).entryAt K d i =
      if d = c ∧ i = K.getPrimaryIndex k then K.add (index.entryAt K c (K.getPrimaryIndex k)) o k
      else index.entryAt K d i := by
  change getD (getD (index.containerToIndexedObjects.insert c _) d ∅) i _ = _
  by_cases hd : d = c
  · subst hd
    rw [getD_insert_self]
    by_cases hi : i = K.getPrimaryIndex k
    · subst hi
      rw [getD_insert_self, if_pos ⟨rfl, rfl⟩]
      rfl
    · rw [getD_insert_ne _ hi, if_neg fun h => hi h.2]
      rfl
  · rw [getD_insert_ne _ hd, if_neg fun h => hd h.1]
    rfl

theorem insertObject_holds (S : K.Spec) (index : IndexedAssignment ι κ σ) (o : ObjectId)
    (c : ContainerId) (k : κ) : (insertObject K index o c k).Holds S c' k' o' ↔
      index.Holds S c' k' o' ∨ c' = c ∧ k' = k ∧ o' = o := by
  rw [Holds, insertObject_entryAt]
  split_ifs with h
  · obtain ⟨rfl, hk⟩ := h
    rw [S.mem_add _ _ _ _ _ hk, ← hk, Holds, and_iff_right rfl]
  · refine (or_iff_left ?_).symm
    intro hn
    exact h ⟨hn.1, congrArg K.getPrimaryIndex hn.2.1⟩

theorem insertObject_pruned (h : index.Pruned S)
    (o : ObjectId) (c : ContainerId) (k : κ) : (insertObject K index o c k).Pruned S := by
  have hwf : S.Wf (index.entryAt K c (K.getPrimaryIndex k)) := h.wf_entryAt c _
  have hn := S.wf_add _ o k hwf
  refine h.insert (forall_lookup_insert ⟨hn, Bool.eq_false_iff.mpr ?_⟩ fun _ _ => h.getD)
  intro he
  exact (S.empty_iff _ k hn).mp he k o rfl ((S.mem_add _ o k k o rfl).mpr (.inr ⟨rfl, rfl⟩))

theorem Holds.lookup (h : index.Holds S c k o) :
    ∃ containerObjects, index.containerToIndexedObjects.lookup c = some containerObjects ∧
      AList.lookup (K.getPrimaryIndex k) containerObjects =
        some (index.entryAt K c (K.getPrimaryIndex k)) := by
  rw [Holds, entryAt, AssocMap.getD, AssocMap.getD] at h
  rw [entryAt, AssocMap.getD, AssocMap.getD]
  cases hc : index.containerToIndexedObjects.lookup c with
  | none =>
    rw [hc] at h
    exact absurd h (S.not_mem_empty k o)
  | some containerObjects =>
    rw [hc, getD_some] at h
    rw [getD_some]
    refine ⟨containerObjects, rfl, ?_⟩
    cases hi : AList.lookup (K.getPrimaryIndex k) containerObjects with
    | none =>
      rw [hi] at h
      exact absurd h (S.not_mem_empty k o)
    | some e => rfl

theorem pruned_entry (K : IndexKind ι κ σ) (e : σ) (k : κ) (os : AssocMap ι σ)
    (i : ι) : AssocMap.getD (if K.empty e then os.erase (K.getPrimaryIndex k)
        else os.insert (K.getPrimaryIndex k) e) i K.emptyEntry =
      if i = K.getPrimaryIndex k then (if K.empty e then K.emptyEntry else e)
      else AssocMap.getD os i K.emptyEntry := by
  by_cases hi : i = K.getPrimaryIndex k
  · subst hi
    rw [if_pos rfl]
    split
    · rw [AssocMap.getD, lookup_erase, getD_none]
    · exact getD_insert_self _ _ _ _
  · split
    · rw [AssocMap.getD, lookup_erase_ne hi]
      rfl
    · exact getD_insert_ne _ hi _ _

theorem removeFrom_spec [ToString ι]
    (h : index.Pruned S) (hk : index.objectToIndex.lookup o = some k) (ho : index.Holds S c k o) :
    ∃ index', removeFrom K o c index = .ok index' ∧ index'.Pruned S ∧
      index'.objectToIndex = index.objectToIndex ∧
      (∀ d, d ∈ index'.containerToIndexedObjects ↔ d ∈ index.containerToIndexedObjects) ∧
      ∀ c' k' o', index'.Holds S c' k' o' ↔
        index.Holds S c' k' o' ∧ ¬ (c' = c ∧ k' = k ∧ o' = o) := by
  obtain ⟨containerObjects, hc, hentry⟩ := ho.lookup
  have hwf := h.wf_entryAt c (K.getPrimaryIndex k)
  obtain ⟨e, hr, hwf', hmem⟩ := S.remove _ o k hwf ho
  refine ⟨{ index with
    containerToIndexedObjects := index.containerToIndexedObjects.insert c
      (if K.empty e then containerObjects.erase (K.getPrimaryIndex k)
        else containerObjects.insert (K.getPrimaryIndex k) e) }, ?_, ?_, rfl, ?_, ?_⟩
  · rw [removeFrom, fetch_ok hk, except_ok_bind]
    simp [fetch_ok hc, except_ok_bind, hentry, hr]
  · apply h.insert
    split_ifs with hempty
    · intro i e' hi
      by_cases he : i = K.getPrimaryIndex k
      · rw [he, lookup_erase] at hi
        cases hi
      · rw [lookup_erase_ne he] at hi
        exact h c containerObjects hc i e' hi
    · exact forall_lookup_insert ⟨hwf', Bool.eq_false_iff.mpr hempty⟩ (h c containerObjects hc)
  · intro d
    rw [mem_insert]
    refine or_iff_right_of_imp ?_
    intro hd
    rw [hd]
    exact mem_iff_lookup.mpr ⟨_, hc⟩
  · intro c' k' o'
    have hold : index.entryAt K c (K.getPrimaryIndex k') =
        getD containerObjects (K.getPrimaryIndex k') K.emptyEntry := by
      rw [entryAt, AssocMap.getD, AssocMap.getD, hc]
      rfl
    change S.Mem (getD (getD (index.containerToIndexedObjects.insert c _) c' ∅)
      (K.getPrimaryIndex k') K.emptyEntry) k' o' ↔ _
    by_cases hc' : c' = c
    · subst hc'
      rw [getD_insert_self, pruned_entry, Holds, and_iff_right rfl]
      by_cases hp : K.getPrimaryIndex k' = K.getPrimaryIndex k
      · rw [if_pos hp, hp, ← hmem k' o' hp]
        split
        · rename_i hempty
          exact iff_of_false (S.not_mem_empty k' o') ((S.empty_iff e k hwf').mp hempty k' o' hp)
        · exact Iff.rfl
      · rw [if_neg hp, hold, and_iff_left fun hk => hp (congrArg K.getPrimaryIndex hk.1)]
    · rw [getD_insert_ne _ hc', and_iff_left fun h => hc' h.1]
      rfl

theorem setOn_spec (h : index.Pruned S)
    (hk : index.objectToIndex.lookup o = some k) (c : ContainerId) :
    ∃ index', setOn K o c index = .ok index' ∧ index'.Pruned S ∧
      index'.objectToIndex = index.objectToIndex ∧
      (∀ d, d ∈ index'.containerToIndexedObjects ↔ d = c ∨ d ∈ index.containerToIndexedObjects) ∧
      ∀ c' k' o', index'.Holds S c' k' o' ↔ index.Holds S c' k' o' ∨ c' = c ∧ k' = k ∧ o' = o := by
  refine ⟨insertObject K index o c k, ?_, insertObject_pruned h o c k, rfl, ?_, ?_⟩
  · rw [setOn, fetch_ok hk, except_ok_bind]
  · intro d
    exact mem_insert _
  · intro c' k' o'
    exact insertObject_holds S index o c k

structure Built (S : K.Spec) (getObjectIndexFunc : ObjectId → Except String κ)
    (done : List (ContainerId × ObjectId)) (index : IndexedAssignment ι κ σ) : Prop where
  pruned : index.Pruned S
  keys : ∀ o k, index.objectToIndex.lookup o = some k → getObjectIndexFunc o = .ok k
  noted : ∀ e ∈ done, ∃ k, index.objectToIndex.lookup e.2 = some k
  holds : ∀ c k o, index.Holds S c k o ↔ (c, o) ∈ done ∧ getObjectIndexFunc o = .ok k
variable {f : ObjectId → Except String κ}

section
variable (h : index.Built S f done)
include h

theorem Built.indexObject (ho : f o = .ok k) (c : ContainerId) :
    ∃ index', IndexedAssignment.indexObject K f c index o = .ok index' ∧
      index'.Built S f (done ++ [(c, o)]) := by
  let objectToIndex := if o ∈ index.objectToIndex then index.objectToIndex
    else index.objectToIndex.insert o k
  have hl : ∀ x, objectToIndex.lookup x =
      if x = o then some k else index.objectToIndex.lookup x := by
    intro x
    change (ite _ _ _ : AssocMap ObjectId κ).lookup x = _
    split
    · rename_i hmem
      split
      · rename_i hx
        obtain ⟨k', hk'⟩ := mem_iff_lookup.mp hmem
        have heq := h.keys o k' hk'
        rw [ho] at heq
        cases heq
        rw [hx, hk']
      · rfl
    · split
      · rename_i hx
        rw [hx, lookup_insert]
      · rename_i hx
        exact lookup_insert_ne hx
  have hp := h.pruned
  refine ⟨insertObject K { index with objectToIndex } o c k, ?_, insertObject_pruned hp o c k,
    ?_, ?_, ?_⟩
  · rw [IndexedAssignment.indexObject, ho, except_ok_bind]
  · intro x k' hx
    change objectToIndex.lookup x = some k' at hx
    rw [hl] at hx
    split_ifs at hx with he
    · cases hx
      rw [he, ho]
    · exact h.keys x k' hx
  · intro e he
    change ∃ k', objectToIndex.lookup e.2 = some k'
    rw [hl]
    split_ifs with hne
    · exact ⟨k, rfl⟩
    · rcases mem_append.mp he with he | he
      · exact h.noted e he
      · rw [mem_singleton.mp he] at hne
        exact absurd rfl hne
  · intro c' k' o'
    refine (insertObject_holds S _ o c k).trans ?_
    change index.Holds S c' k' o' ∨ _ ↔ _
    rw [h.holds, mem_append, mem_singleton, Prod.mk.injEq, or_and_right]
    apply or_congr_right
    constructor
    · intro hn
      obtain ⟨rfl, rfl, rfl⟩ := hn
      exact ⟨⟨rfl, rfl⟩, ho⟩
    · intro hn
      obtain ⟨⟨rfl, rfl⟩, hk⟩ := hn
      rw [ho] at hk
      cases hk
      exact ⟨rfl, rfl, rfl⟩

theorem Built.touch (c : ContainerId) : Built S f done { index with
      containerToIndexedObjects := index.containerToIndexedObjects.insert c
        (AssocMap.getD index.containerToIndexedObjects c ∅) } := by
  refine ⟨h.pruned.insert fun i e hi => h.pruned.getD hi, h.keys, h.noted, ?_⟩
  intro c' k o
  rw [← h.holds]
  change S.Mem (getD (getD (index.containerToIndexedObjects.insert c _) c' ∅)
    (K.getPrimaryIndex k) K.emptyEntry) k o ↔ _
  by_cases hc : c' = c
  · rw [hc, getD_insert_self]
    rfl
  · rw [getD_insert_ne _ hc]
    rfl

theorem Built.indexContainers
    (es : List (Sigma fun _ : ContainerId => IdSet)) (ho : ∀ e ∈ es, ∀ o ∈ e.2, ∃ k, f o = .ok k) :
    ∃ index', es.foldlM (indexContainer K f) index = .ok index' ∧
      index'.Built S f (done ++ es.flatMap fun e => e.2.elems.map fun o => (e.1, o)) := by
  refine exists_foldlM_ok ?_ done index h
  intro e he done index h
  rw [map_eq_flatMap]
  refine exists_foldlM_ok ?_ done _ (h.touch e.1)
  intro o hoe done index h
  obtain ⟨k, hk⟩ := ho e he o hoe
  exact h.indexObject hk e.1

end

theorem new_spec (S : K.Spec) (hob : ∀ c, ∀ o ∈ AssocMap.getD cs c .empty, ∃ k, f o = .ok k) :
    ∃ index, IndexedAssignment.new K cs f = .ok index ∧ index.Pruned S ∧
      (∀ c, ∀ o ∈ AssocMap.getD cs c .empty,
        ∃ k, f o = .ok k ∧ index.objectToIndex.lookup o = some k) ∧
      ∀ c k o, index.Holds S c k o ↔ o ∈ AssocMap.getD cs c .empty ∧ f o = .ok k := by
  have hentry : ∀ e ∈ cs.entries, getD cs e.1 .empty = e.2 := by
    intro e he
    rw [AssocMap.getD, mem_lookup_iff.mpr he, getD_some]
  have hmem : ∀ c o, (c, o) ∈ (cs.entries.flatMap fun e => e.2.elems.map fun o => (e.1, o)) ↔
      o ∈ getD cs c .empty := by
    intro c o
    rw [mem_pairs cs IdSet.elems, mem_getD IdSet.notMem_empty]
    rfl
  have hs : Built S f [] (⟨∅, ∅⟩ : IndexedAssignment ι κ σ) := by
    refine ⟨nofun, nofun, nofun, ?_⟩
    intro c k o
    exact iff_of_false (S.not_mem_empty k o) fun h => not_mem_nil h.1
  obtain ⟨index, hi, hb⟩ := hs.indexContainers cs.entries (by
    intro e he o ho
    apply hob e.1 o
    rw [hentry e he]
    exact ho)
  rw [nil_append] at hb
  refine ⟨index, hi, hb.pruned, ?_, ?_⟩
  · intro c o ho
    obtain ⟨k, hk⟩ := hb.noted (c, o) ((hmem c o).mpr ho)
    exact ⟨k, hb.keys o k hk, hk⟩
  · intro c k o
    rw [hb.holds, hmem]

end IndexedAssignment

end Rebalancer
