import Rebalancer.ObjectPartition

namespace Rebalancer
open List

structure ObjectLookup (u : Universe partitions) where
  objectVectorId : Nat
  objectVector : ObjectValues u.numObjects partitions
  containers : IdSet

namespace ObjectLookup
variable {u : Universe partitions}

section
variable (l : ObjectLookup u)

section
variable (a : Assignment)

def getObjectValuesFromObjectVector : List (ObjectId × ℚ) :=
  l.objectVector.nonDefaultEntries.filter fun e => a e.1 ∈ l.containers

def getObjectValuesFromAssignment : List (ObjectId × ℚ) :=
  (l.containers.elems.flatMap (a.getObjects u.numObjects)).filterMap fun o =>
    if l.objectVector.getObjectValue o = 0 then none else some (o, l.objectVector.getObjectValue o)

def getCurrObjectsInContainersSize : Nat :=
  (l.containers.elems.map fun c => (a.getObjects u.numObjects c).length).sum

/-- With a zero default the listed objects suffice, and are used when there are few of them. -/
def applyAssignment : ℚ :=
  let items :=
    if l.objectVector.defaultValue = 0 ∧ (l.objectVector.nonDefaultCount ≤ l.containers.size ∨
        l.objectVector.nonDefaultCount ≤ l.getCurrObjectsInContainersSize a) then
      l.getObjectValuesFromObjectVector a
    else l.getObjectValuesFromAssignment a
  (items.map Prod.snd).sum

def lookedUp : List ObjectId := (List.range u.numObjects).filter fun o => a o ∈ l.containers

theorem nodup_lookedUp : (l.lookedUp a).Nodup := nodup_range.filter _

theorem flatMap_getObjects_perm :
    (l.containers.elems.flatMap (a.getObjects u.numObjects)).Perm (l.lookedUp a) :=
  flatMap_filter_perm a _ l.containers.nodup

theorem sum_filterMap_nonzero (f : ObjectId → ℚ) (os : List ObjectId) :
    ((os.filterMap fun o => if f o = 0 then none else some (o, f o)).map Prod.snd).sum =
      (os.map f).sum := by
  induction os with
  | nil => rfl
  | cons o os ih =>
    rw [filterMap_cons, map_cons, sum_cons]
    by_cases ho : f o = 0
    · simp [ho, ih]
    · simp [ho, ih]

theorem sum_keys (f : ObjectId → ℚ) (keys os : List ObjectId) (hk : keys.Nodup) (hos : os.Nodup)
    (hz : ∀ o ∈ os, o ∉ keys → f o = 0) (hs : ∀ o ∈ keys, o ∈ os) :
    (keys.map f).sum = (os.map f).sum := by
  have hp : keys.Perm (os.filter fun o => o ∈ keys) := by
    rw [perm_ext_iff_of_nodup hk (hos.filter _)]
    intro o
    rw [mem_filter, decide_eq_true_eq]
    exact ⟨fun ho => ⟨hs o ho, ho⟩, And.right⟩
  rw [(hp.map f).sum_eq]
  clear hp hk hos hs
  induction os with
  | nil => rfl
  | cons o os ih =>
    have ih' := ih fun o' ho' => hz o' (mem_cons_of_mem _ ho')
    rw [filter_cons]
    by_cases ho : o ∈ keys
    · simp [ho, ih']
    · simp [ho, hz o mem_cons_self ho, ih']

theorem sum_fromObjectVector (hz : l.objectVector.defaultValue = 0) :
    ((l.getObjectValuesFromObjectVector a).map Prod.snd).sum =
      ((l.lookedUp a).map l.objectVector.getObjectValue).sum := by
  have hv : (l.getObjectValuesFromObjectVector a).map Prod.snd =
      ((l.getObjectValuesFromObjectVector a).map Prod.fst).map l.objectVector.getObjectValue := by
    rw [map_map]
    apply map_congr_left
    intro e he
    exact (l.objectVector.getObjectValue_of_mem (mem_of_mem_filter he)).symm
  rw [hv]
  apply sum_keys
  · exact l.objectVector.nodup_nonDefaultEntries.sublist (filter_sublist.map Prod.fst)
  · exact l.nodup_lookedUp a
  · intro o ho hk
    rw [l.objectVector.getObjectValue_of_not_mem, hz]
    intro hmem
    obtain ⟨e, he, rfl⟩ := mem_map.mp hmem
    exact hk (mem_map_of_mem (mem_filter.mpr ⟨he, (mem_filter.mp ho).2⟩))
  · intro o ho
    obtain ⟨e, he, rfl⟩ := mem_map.mp ho
    rw [getObjectValuesFromObjectVector, mem_filter] at he
    rw [lookedUp, mem_filter, mem_range]
    exact ⟨l.objectVector.lt_of_mem u (mem_map_of_mem he.1), he.2⟩

theorem applyAssignment_eq :
    l.applyAssignment a = ((l.lookedUp a).map l.objectVector.getObjectValue).sum := by
  rw [applyAssignment]
  split_ifs with h
  · exact l.sum_fromObjectVector a h.1
  · rw [getObjectValuesFromAssignment, sum_filterMap_nonzero]
    exact ((l.flatMap_getObjects_perm a).map _).sum_eq

end

theorem applyAssignment_symm {σ : Equiv.Perm ObjectId}
    (hr : ∀ o, σ o < u.numObjects ↔ o < u.numObjects)
    (hv : ∀ o, l.objectVector.getObjectValue (σ o) = l.objectVector.getObjectValue o)
    (a : Assignment) : l.applyAssignment (a ∘ σ) = l.applyAssignment a := by
  have hp : ((l.lookedUp (a ∘ σ)).map σ).Perm (l.lookedUp a) := by
    rw [perm_ext_iff_of_nodup ((l.nodup_lookedUp _).map σ.injective) (l.nodup_lookedUp a)]
    intro o
    simp only [lookedUp, mem_map, mem_filter, mem_range, decide_eq_true_eq, Function.comp_apply]
    constructor
    · rintro ⟨o', ⟨ho, hc⟩, rfl⟩
      exact ⟨(hr o').mpr ho, hc⟩
    · rintro ⟨ho, hc⟩
      refine ⟨σ.symm o, ⟨?_, ?_⟩, σ.apply_symm_apply o⟩
      · rw [← hr, σ.apply_symm_apply]
        exact ho
      · rw [σ.apply_symm_apply]
        exact hc
  rw [applyAssignment_eq, applyAssignment_eq, ← (hp.map _).sum_eq, map_map]
  congr 1
  apply map_congr_left
  intro o _
  exact (hv o).symm

end

end ObjectLookup

end Rebalancer
