import Rebalancer.ExceptLoops
import Rebalancer.LeafIndex

namespace Rebalancer
open List
variable {t : LeafTables}

theorem sum_map_indicator (p : α → Bool) (l : List α) :
    (l.map (fun x => if p x = true then 1 else 0)).sum = l.countP p := by
  induction l with
  | nil => rfl
  | cons x l ih =>
    rw [map_cons, sum_cons, ih, countP_cons, Nat.add_comm]

theorem ChangeSet.flatMap_getChangesByContainer_perm (cs : ChangeSet) :
    (cs.containers.flatMap cs.getChangesByContainer).Perm cs.changes := by
  have h := flatMap_filter_perm Change.container cs.changes cs.containers_nodup
  rwa [filter_eq_self.mpr fun ch hch => decide_eq_true ((cs.mem_containers _).mpr ⟨ch, hch, rfl⟩)]
    at h

namespace AffectedByChange

section
variable (info : AffectedByChange)

def containerElems : List ContainerId :=
  match info.containersPtr with
  | some containers => containers.elems
  | none => []

def objectElems : List ObjectId :=
  match info.objectsPtr with
  | some objects => objects.elems
  | none => []

theorem containerElems_nodup : info.containerElems.Nodup := by
  rw [containerElems]
  split
  · exact IdSet.nodup _
  · exact nodup_nil

theorem objectElems_nodup : info.objectElems.Nodup := by
  rw [objectElems]
  split
  · exact IdSet.nodup _
  · exact nodup_nil

/-- How often a node indexed by `info` is handed to `processLeaf` for the changes `cs`. -/
def calls (changeType : AffectedByChangeType) (cs : ChangeSet) : Nat :=
  match changeType with
  | .allChanges => 1
  | .containersOnly => cs.containers.countP (fun c =>
      decide (c ∈ info.containerElems) && passesFilter info.filter (cs.getChangesByContainer c))
  | .objectsOnly => cs.objects.countP (fun o =>
      decide (o ∈ info.objectElems) && passesFilter info.filter (cs.getChangesByObject o))
  | .allGivenContainerObjectPairs => cs.changes.countP (fun ch =>
      decide (ch.container ∈ info.containerElems) && decide (ch.object ∈ info.objectElems))

def pushes (cs : ChangeSet) : Nat :=
  match info.getType with
  | .error _ => 0
  | .ok changeType =>
    if shouldDedupeLeaves (some cs) then min 1 (info.calls changeType cs)
    else info.calls changeType cs

end

end AffectedByChange

namespace LeafTables
variable {ℓ ℓ' : LeafId}

theorem count_pushLeaves (ℓ ℓ' : LeafId) (keys : List Nat) (h : keys.Nodup) (k : Nat) :
    ∀ t' : Nat → List LeafId, ((pushLeaves ℓ' keys t') k).count ℓ =
      (t' k).count ℓ + if ℓ' = ℓ ∧ k ∈ keys then 1 else 0 := by
  induction keys with
  | nil =>
    intro t'
    simp [pushLeaves]
  | cons key keys ih =>
    intro t'
    obtain ⟨hkey, hkeys⟩ := nodup_cons.mp h
    have hs := ih hkeys (pushLeaf ℓ' t' key)
    simp only [pushLeaves, foldl_cons, mem_cons] at hs ⊢
    rw [hs]
    by_cases hk : k = key
    · subst hk
      simp [pushLeaf, hkey, count_singleton]
    · simp [pushLeaf, hk]

theorem count_pushPairs (ℓ ℓ' : LeafId) (cs os : List Nat)
    (hc : cs.Nodup) (ho : os.Nodup) (c o : Nat) : ∀ t' : ContainerId → ObjectId → List LeafId,
      ((pushPairs ℓ' cs os t') c o).count ℓ =
        (t' c o).count ℓ + if ℓ' = ℓ ∧ c ∈ cs ∧ o ∈ os then 1 else 0 := by
  induction cs with
  | nil =>
    intro t'
    simp [pushPairs]
  | cons key cs ih =>
    intro t'
    obtain ⟨hkey, hkeys⟩ := nodup_cons.mp hc
    have hs := ih hkeys (fun k => if k = key then pushLeaves ℓ' os (t' k) else t' k)
    simp only [pushPairs, foldl_cons, mem_cons] at hs ⊢
    rw [hs]
    by_cases hk : c = key
    · subst hk
      simp [hkey, count_pushLeaves ℓ ℓ' os ho]
    · simp [hk]

structure FiledAs (t : LeafTables) (ℓ : LeafId) (info : AffectedByChange)
    (changeType : AffectedByChangeType) : Prop where
  toCheck : t.toCheckLeaves.count ℓ = if changeType = .allChanges then 1 else 0
  container : ∀ c, (t.containerToLeaves c).count ℓ =
    if changeType = .containersOnly ∧ c ∈ info.containerElems then 1 else 0
  object : ∀ o, (t.objectToLeaves o).count ℓ =
    if changeType = .objectsOnly ∧ o ∈ info.objectElems then 1 else 0
  pair : ∀ c o, (t.containerObjectToLeaves c o).count ℓ =
    if changeType = .allGivenContainerObjectPairs ∧ c ∈ info.containerElems ∧
      o ∈ info.objectElems then 1 else 0

structure Absent (t : LeafTables) (ℓ : LeafId) : Prop where
  toCheck : t.toCheckLeaves.count ℓ = 0
  container : ∀ c, (t.containerToLeaves c).count ℓ = 0
  object : ∀ o, (t.objectToLeaves o).count ℓ = 0
  pair : ∀ c o, (t.containerObjectToLeaves c o).count ℓ = 0

theorem Absent.new (ℓ : LeafId) : new.Absent ℓ := ⟨rfl, fun _ => rfl, fun _ => rfl, fun _ _ => rfl⟩

def file (t : LeafTables) (ℓ : LeafId) (info : AffectedByChange) : AffectedByChangeType → LeafTables
  | .allChanges => { t with toCheckLeaves := t.toCheckLeaves ++ [ℓ] }
  | .containersOnly =>
    { t with containerToLeaves := pushLeaves ℓ info.containerElems t.containerToLeaves }
  | .objectsOnly => { t with objectToLeaves := pushLeaves ℓ info.objectElems t.objectToLeaves }
  | .allGivenContainerObjectPairs =>
    { t with containerObjectToLeaves :=
        pushPairs ℓ info.containerElems info.objectElems t.containerObjectToLeaves }

theorem file_counts (ℓ ℓ' : LeafId) (info : AffectedByChange) (t' : AffectedByChangeType) :
    (t.file ℓ' info t').toCheckLeaves.count ℓ =
      t.toCheckLeaves.count ℓ + (if ℓ' = ℓ ∧ t' = .allChanges then 1 else 0) ∧
    (∀ c, ((t.file ℓ' info t').containerToLeaves c).count ℓ = (t.containerToLeaves c).count ℓ +
      if ℓ' = ℓ ∧ t' = .containersOnly ∧ c ∈ info.containerElems then 1 else 0) ∧
    (∀ o, ((t.file ℓ' info t').objectToLeaves o).count ℓ = (t.objectToLeaves o).count ℓ +
      if ℓ' = ℓ ∧ t' = .objectsOnly ∧ o ∈ info.objectElems then 1 else 0) ∧
    ∀ c o, ((t.file ℓ' info t').containerObjectToLeaves c o).count ℓ =
      (t.containerObjectToLeaves c o).count ℓ + if ℓ' = ℓ ∧ t' = .allGivenContainerObjectPairs ∧
        c ∈ info.containerElems ∧ o ∈ info.objectElems then 1 else 0 := by
  cases t' with
  | allChanges => simp [file, count_singleton]
  | containersOnly => simp [file, count_pushLeaves ℓ ℓ' _ info.containerElems_nodup]
  | objectsOnly => simp [file, count_pushLeaves ℓ ℓ' _ info.objectElems_nodup]
  | allGivenContainerObjectPairs =>
    simp [file, count_pushPairs ℓ ℓ' _ _ info.containerElems_nodup info.objectElems_nodup]

theorem Absent.filedAs (h : t.Absent ℓ) (info : AffectedByChange)
    (changeType : AffectedByChangeType) : (t.file ℓ info changeType).FiledAs ℓ info changeType := by
  obtain ⟨hcheck, hc, ho, hp⟩ := file_counts (t := t) ℓ ℓ info changeType
  simp only [h.toCheck, h.container, h.object, h.pair, true_and, Nat.zero_add] at hcheck hc ho hp
  exact ⟨hcheck, hc, ho, hp⟩

theorem FiledAs.file (h : t.FiledAs ℓ info changeType) (hne : ℓ ≠ ℓ')
    (i' : AffectedByChange) (t' : AffectedByChangeType) :
    (t.file ℓ' i' t').FiledAs ℓ info changeType := by
  obtain ⟨hcheck, hc, ho, hp⟩ := file_counts (t := t) ℓ ℓ' i' t'
  simp only [hne.symm, false_and, if_false, Nat.add_zero] at hcheck hc ho hp
  exact ⟨hcheck.trans h.toCheck, fun c => (hc c).trans (h.container c),
    fun o => (ho o).trans (h.object o), fun c o => (hp c o).trans (h.pair c o)⟩

theorem Absent.file (h : t.Absent ℓ) (hne : ℓ ≠ ℓ') (i' : AffectedByChange)
    (t' : AffectedByChangeType) : (t.file ℓ' i' t').Absent ℓ := by
  obtain ⟨hcheck, hc, ho, hp⟩ := file_counts (t := t) ℓ ℓ' i' t'
  simp only [hne.symm, false_and, if_false, Nat.add_zero] at hcheck hc ho hp
  exact ⟨hcheck.trans h.toCheck, fun c => (hc c).trans (h.container c),
    fun o => (ho o).trans (h.object o), fun c o => (hp c o).trans (h.pair c o)⟩

end LeafTables

end Rebalancer
