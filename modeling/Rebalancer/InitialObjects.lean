import Rebalancer.EquivalencePartition
import Rebalancer.LeafIndexSpec
import Rebalancer.ObjectToContainer

namespace Rebalancer
open List AssocMap

namespace ObjectToContainerAssignmentUtils

section
variable (sets : AssocMap EquivalenceSetId ContainerToObjects)

def setObjects (equivSet : EquivalenceSetId) : List ObjectId :=
  (AssocMap.getD sets equivSet ∅).values.flatten

theorem setObjects_pushObject_self (i : EquivalenceSetId) (c : ContainerId) (o : ObjectId) :
    (setObjects (pushObject sets i c o) i).Perm (o :: setObjects sets i) := by
  rw [setObjects, pushObject, getD_insert_self]
  exact flatten_push_perm _ c o

theorem setObjects_pushObject_ne (h : j ≠ i) (c : ContainerId) (o : ObjectId) :
    setObjects (pushObject sets i c o) j = setObjects sets j := by
  rw [setObjects, pushObject, getD_insert_ne _ h, setObjects]

end

structure Distributed (equivalenceSets : EquivalenceSets) (objects : List ObjectId)
    (sets : AssocMap EquivalenceSetId ContainerToObjects) : Prop where
  known : ∀ o ∈ objects, ∃ i, equivalenceSets.setAt o = .ok i
  perm : ∀ i, (setObjects sets i).Perm (objects.filter fun o => equivalenceSets.setAt o = .ok i)

theorem Distributed.push (h : Distributed eq os sets) (ho : eq.setAt o = .ok i)
    (c : ContainerId) : Distributed eq (os ++ [o]) (pushObject sets i c o) := by
  constructor
  · intro x hx
    rcases mem_append.mp hx with hx | hx
    · exact h.known x hx
    · rw [mem_singleton.mp hx]
      exact ⟨i, ho⟩
  · intro j
    rw [filter_append]
    by_cases hj : j = i
    · subst hj
      have hone : [o].filter (fun o => eq.setAt o = .ok j) = [o] :=
        filter_eq_self.mpr fun x hx => decide_eq_true (mem_singleton.mp hx ▸ ho)
      rw [hone]
      refine (setObjects_pushObject_self sets j c o).trans ?_
      exact ((h.perm j).cons o).trans (perm_append_singleton o _).symm
    · have hnone : [o].filter (fun o => eq.setAt o = .ok j) = [] := by
        apply filter_eq_nil_iff.mpr
        intro x hx he
        rw [mem_singleton.mp hx, decide_eq_true_iff, ho] at he
        exact hj (Except.ok.inj he).symm
      rw [hnone, append_nil, setObjects_pushObject_ne sets hj]
      exact h.perm j

theorem Distributed.shuffle (h : Distributed eq os sets)
    {f : EquivalenceSetId → ContainerId → List ObjectId → List ObjectId}
    (hf : ∀ i c l, (f i c l).Perm l) :
    Distributed eq os (sets.mapValues fun i inner => inner.mapValues (f i)) := by
  refine ⟨h.known, fun i => .trans ?_ (h.perm i)⟩
  rw [setObjects, AssocMap.getD, AssocMap.lookup_mapValues, setObjects, AssocMap.getD]
  cases sets.lookup i with
  | none => exact .refl _
  | some inner => exact flatten_mapValues_perm (hf i) inner

theorem sanityCheck_of_sizes (rt : Runtime) (hk : ∀ i, i ∈ i' ↔ i ∈ target)
    (hs : ∀ i objects counts, i'.lookup i = some objects → target.lookup i = some counts →
      initialSize objects = (values counts).sum) :
    sanityCheckOnEquivSetToContainerToObjectCount rt i' target = .ok () := by
  obtain ⟨r, hr⟩ := exists_mapM_ok (l := rt.order .initialSets i'.entries)
    (f := checkInitialSet (target.mapValues fun _ counts => (values counts).sum)) (by
      intro e he
      have hinitial := AList.mem_lookup_iff.mpr ((rt.order_perm _ _).mem_iff.mp he)
      have hmem : e.1 ∈ target := (hk e.1).mp (mem_iff_lookup.mpr ⟨_, hinitial⟩)
      obtain ⟨counts, hc⟩ := mem_iff_lookup.mp hmem
      refine ⟨(), ?_⟩
      rw [checkInitialSet, lookup_mapValues, hc]
      exact if_neg (not_not.mpr (hs e.1 e.2 counts hinitial hc)))
  have hcount : i'.size = target.size := by
    have hp : i'.keys.Perm target.keys := by
      apply (perm_ext_iff_of_nodup i'.keys_nodup target.keys_nodup).mpr
      exact hk
    exact hp.length_eq
  rw [sanityCheckOnEquivSetToContainerToObjectCount, hr, size_mapValues]
  exact if_neg (not_not.mpr hcount)

theorem getEquivSetToContainerToObjects_rule
    {P : List ObjectId → AssocMap EquivalenceSetId ContainerToObjects → Prop} (hstart : P [] ∅)
    (hpush : ∀ c, ∀ o ∈ AssocMap.getD a.containerToObjects c [], ∀ i os sets, P os sets →
      eq.setAt o = .ok i → P (os ++ [o]) (pushObject sets i c o))
    (hshuffle : ∀ os sets (f : EquivalenceSetId → ContainerId → List ObjectId → List ObjectId),
      (∀ i c l, (f i c l).Perm l) → P os sets →
      P os (sets.mapValues fun i inner => inner.mapValues (f i)))
    (h : getEquivSetToContainerToObjects rt eq a s = .ok initial) : P a.getObjects initial := by
  obtain ⟨sets, hsets, h⟩ := except_bind_ok h
  have hs : P ([] ++ a.containerToObjects.entries.flatMap Sigma.snd) sets := by
    refine foldlM_ok_rule ?_ [] ∅ hstart hsets
    intro e he os sets sets' hp hr
    rw [← flatMap_singleton' e.2]
    refine foldlM_ok_rule ?_ os sets hp hr
    intro o ho os sets sets' hp hr
    obtain ⟨i, hi, hr⟩ := except_bind_ok hr
    cases hr
    apply hpush e.1 o _ i os sets hp hi
    rw [AssocMap.getD, AList.mem_lookup_iff.mpr he]
    exact ho
  cases s with
  | none =>
    cases h
    exact hs
  | some seed =>
    cases h
    exact hshuffle _ _ _ (rt.shuffle_perm seed) hs

theorem getEquivSetToContainerToObjects_distributed
    (h : getEquivSetToContainerToObjects rt eq a s = .ok initial) :
    Distributed eq a.getObjects initial := by
  apply getEquivSetToContainerToObjects_rule _ _ _ h
  · exact ⟨nofun, fun i => .refl _⟩
  · intro c o _ i os sets hd hi
    exact hd.push hi c
  · intro os sets f hf hd
    exact hd.shuffle hf

theorem checkInitialSet_ok {t : AssocMap EquivalenceSetId (AssocMap ContainerId Nat)}
    (h : checkInitialSet (t.mapValues fun _ counts => (values counts).sum) e = .ok u) :
    ∃ counts, t.lookup e.1 = some counts ∧ initialSize e.2 = (values counts).sum := by
  rw [checkInitialSet, lookup_mapValues] at h
  cases ht : t.lookup e.1 with
  | none =>
    rw [ht] at h
    cases h
  | some counts =>
    rw [ht] at h
    simp only [Option.map_some] at h
    split at h
    · cases h
    · rename_i hsize
      exact ⟨counts, rfl, not_not.mp hsize⟩

theorem sanityCheck_ok (h : sanityCheckOnEquivSetToContainerToObjectCount rt initial t = .ok u) :
    (∀ i objects, initial.lookup i = some objects → ∃ counts, t.lookup i = some counts ∧
      initialSize objects = (values counts).sum) ∧ ∀ i ∈ t, i ∈ initial := by
  obtain ⟨r, hr, h⟩ := except_bind_ok h
  rw [and_iff_left_of_imp]
  · intro i objects hi
    obtain ⟨y, hy⟩ := mem_of_mapM_ok hr ⟨i, objects⟩
      ((rt.order_perm _ _).mem_iff.mpr (AList.mem_lookup_iff.mp hi))
    exact checkInitialSet_ok hy
  intro hs
  have hsize : initial.size = t.size := by
    by_contra hne
    change (if initial.size ≠ (t.mapValues fun _ counts => (values counts).sum).size
      then _ else _) = _ at h
    rw [size_mapValues, if_pos hne] at h
    cases h
  intro i hi
  refine mem_of_size_eq ?_ hsize hi
  intro j hj
  obtain ⟨objects, hobjects⟩ := mem_iff_lookup.mp hj
  obtain ⟨counts, hc, -⟩ := hs j objects hobjects
  exact mem_iff_lookup.mpr ⟨_, hc⟩

end ObjectToContainerAssignmentUtils

end Rebalancer
