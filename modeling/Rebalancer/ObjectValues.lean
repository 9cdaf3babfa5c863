import Rebalancer.ChangeSet
import Rebalancer.TrafficTable

namespace Rebalancer
open List
variable {l : List (Nat × β)}

abbrev GroupId := Nat
abbrev PartitionId := Nat
abbrev DimensionId := Nat
abbrev ScopeId := Nat

theorem lookup_of_mem (hl : (l.map Prod.fst).Nodup) (h : (k, v) ∈ l) : l.lookup k = some v := by
  obtain ⟨l₁, l₂, rfl⟩ := append_of_mem h
  refine lookup_eq_some_iff.mpr ⟨l₁, l₂, rfl, ?_⟩
  intro p hp
  rw [map_append, map_cons] at hl
  exact bne_iff_ne.mpr ((nodup_append.mp hl).2.2 _ (mem_map_of_mem hp) k mem_cons_self).symm

theorem mem_of_lookup (h : l.lookup k = some v) : (k, v) ∈ l := by
  obtain ⟨l₁, l₂, rfl, -⟩ := lookup_eq_some_iff.mp h
  exact mem_append_right l₁ mem_cons_self

theorem lookup_eq_none (h : k ∉ l.map Prod.fst) : l.lookup k = none := by
  cases hk : l.lookup k with
  | none => rfl
  | some v => exact absurd (mem_map.mpr ⟨_, mem_of_lookup hk, rfl⟩) h

structure IdMap where
  entries : List (Nat × ℚ)
  nodup : (entries.map Prod.fst).Nodup

def IdMap.get? (m : IdMap) (k : Nat) : Option ℚ := m.entries.lookup k

def IdMap.empty : IdMap := ⟨[], List.nodup_nil⟩

theorem oneGroup_nodup : ([(0, [0])].map Prod.fst).Nodup := by decide

/-- The objects of each group. An object may be listed several times in one group. -/
structure Partition where
  groups : List (GroupId × List ObjectId)
  nodup : (groups.map Prod.fst).Nodup

namespace Partition

def empty : Partition := ⟨[], List.nodup_nil⟩

section
variable (p : Partition)

def getGroupIds : List GroupId := p.groups.map Prod.fst

/-- A group that is not listed has no objects; the source throws for it. -/
def getObjectIds (groupId : GroupId) : List ObjectId := (p.groups.lookup groupId).getD []

/-- The constructor adds the group once for every occurrence of the object. -/
def objectIdToGroupIds (object : ObjectId) : List GroupId :=
  p.groups.flatMap fun group => List.replicate (group.2.count object) group.1

def isDisjoint : Bool :=
  p.groups.all fun group => group.2.all fun o => decide ((p.objectIdToGroupIds o).length ≤ 1)

end

variable {p : Partition}

theorem getObjectIds_of_mem (h : g ∈ p.groups) : p.getObjectIds g.1 = g.2 := by
  rw [getObjectIds, lookup_of_mem p.nodup h, Option.getD_some]

theorem mem_of_mem_getObjectIds (h : o ∈ p.getObjectIds g) : (g, p.getObjectIds g) ∈ p.groups := by
  rw [getObjectIds] at h ⊢
  cases hl : p.groups.lookup g with
  | none =>
    rw [hl] at h
    cases h
  | some os => exact mem_of_lookup hl

theorem count_flatMap_groups (o : ObjectId) : ∀ gs : List (GroupId × List ObjectId),
    (gs.map Prod.fst).Nodup →
    (gs.flatMap fun group => List.replicate (group.2.count o) group.1).count g =
      ((gs.lookup g).getD []).count o := by
  intro gs
  induction gs with
  | nil =>
    intro _
    rfl
  | cons group gs ih =>
    intro hnodup
    obtain ⟨g', os⟩ := group
    rw [map_cons, nodup_cons] at hnodup
    rw [flatMap_cons, count_append, ih hnodup.2, count_replicate]
    by_cases hg : g = g'
    · subst hg
      simp [lookup_eq_none hnodup.1]
    · simp only [beq_false_of_ne hg, beq_false_of_ne (Ne.symm hg), Bool.false_eq_true, ↓reduceIte,
        lookup_cons, Nat.zero_add]

theorem count_objectIdToGroupIds (p : Partition) (o : ObjectId) (g : GroupId) :
    (p.objectIdToGroupIds o).count g = (p.getObjectIds g).count o :=
  count_flatMap_groups o p.groups p.nodup

theorem mem_objectIdToGroupIds : g ∈ p.objectIdToGroupIds o ↔ o ∈ p.getObjectIds g := by
  rw [← count_pos_iff, count_objectIdToGroupIds, count_pos_iff]

theorem objectIdToGroupIds_of_disjoint (h : p.isDisjoint = true)
    (ho : o ∈ p.getObjectIds g) : p.objectIdToGroupIds o = [g] := by
  have hlen : (p.objectIdToGroupIds o).length ≤ 1 := by
    have hg := all_eq_true.mp h _ (mem_of_mem_getObjectIds ho)
    exact of_decide_eq_true (all_eq_true.mp hg o ho)
  have hmem := mem_objectIdToGroupIds.mpr ho
  match hl : p.objectIdToGroupIds o with
  | [] =>
    rw [hl] at hmem
    cases hmem
  | [g'] =>
    rw [hl, mem_singleton] at hmem
    rw [hmem]
  | _ :: _ :: _ =>
    rw [hl, length_cons, length_cons] at hlen
    omega

theorem nodup_getObjectIds_of_disjoint (h : p.isDisjoint = true) (g : GroupId) :
    (p.getObjectIds g).Nodup := by
  rw [nodup_iff_count_le_one]
  intro o
  by_cases ho : o ∈ p.getObjectIds g
  · rw [← count_objectIdToGroupIds, objectIdToGroupIds_of_disjoint h ho, count_singleton_self]
  · rw [count_eq_zero_of_not_mem ho]
    exact Nat.zero_le 1

end Partition

def getPartition (partitions : List Partition) (partitionId : PartitionId) : Partition :=
  partitions.getD partitionId .empty

structure ObjectIdToDoubleMap (n : Nat) where
  map : IdMap
  defaultValue : ℚ
  inRange : ∀ e ∈ map.entries, e.1 < n

/-- Values object by object, or group by group over a partition that has to be disjoint. -/
inductive ObjectValues (n : Nat) (partitions : List Partition) where
  | objectBacked (map : ObjectIdToDoubleMap n)
  | groupBacked (groupValues : IdMap) (partitionId : PartitionId) (defaultValue : ℚ)
    (disjoint : (getPartition partitions partitionId).isDisjoint = true)

namespace ObjectValues
variable {n : Nat} {partitions : List Partition}

def defaultValue : ObjectValues n partitions → ℚ
  | objectBacked map => map.defaultValue
  | groupBacked _ _ d _ => d

def getObjectValue : ObjectValues n partitions → ObjectId → ℚ
  | objectBacked m, o => (m.map.get? o).getD m.defaultValue
  | groupBacked groupValues partitionId d _, o =>
    match (getPartition partitions partitionId).objectIdToGroupIds o with
    | [] => d
    | groupId :: _ => (groupValues.get? groupId).getD d

def nonDefaultEntries : ObjectValues n partitions → List (ObjectId × ℚ)
  | objectBacked m => m.map.entries
  | groupBacked groupValues partitionId _ _ =>
    groupValues.entries.flatMap fun entry =>
      ((getPartition partitions partitionId).getObjectIds entry.1).map fun o => (o, entry.2)

def nonDefaultCount : ObjectValues n partitions → Nat
  | objectBacked m => m.map.entries.length
  | groupBacked groupValues partitionId _ _ =>
    (groupValues.entries.map fun entry =>
      ((getPartition partitions partitionId).getObjectIds entry.1).length).sum

theorem getObjectValue_groupBacked (ho : o ∈ (getPartition partitions p).getObjectIds g) :
    (groupBacked vs p d d' : ObjectValues n partitions).getObjectValue o = (vs.get? g).getD d := by
  simp [getObjectValue, Partition.objectIdToGroupIds_of_disjoint d' ho]

variable (vs : ObjectValues n partitions)

theorem getObjectValue_of_mem (h : (o, v) ∈ vs.nonDefaultEntries) : vs.getObjectValue o = v := by
  cases vs with
  | objectBacked m =>
    rw [getObjectValue, IdMap.get?, lookup_of_mem m.map.nodup h, Option.getD_some]
  | groupBacked g p d disjoint =>
    obtain ⟨e, he, hm⟩ := mem_flatMap.mp h
    obtain ⟨o', ho, heq⟩ := mem_map.mp hm
    cases heq
    rw [getObjectValue_groupBacked ho, IdMap.get?, lookup_of_mem g.nodup he, Option.getD_some]

theorem getObjectValue_of_not_mem (h : o ∉ vs.nonDefaultEntries.map Prod.fst) :
    vs.getObjectValue o = vs.defaultValue := by
  cases vs with
  | objectBacked m =>
    rw [nonDefaultEntries] at h
    rw [getObjectValue, IdMap.get?, lookup_eq_none h, Option.getD_none, defaultValue]
  | groupBacked groupValues p d disjoint =>
    rw [getObjectValue]
    split
    · rfl
    · rename_i g rest hg
      have ho : o ∈ (getPartition partitions p).getObjectIds g := by
        rw [← Partition.mem_objectIdToGroupIds, hg]
        exact mem_cons_self
      rw [IdMap.get?]
      cases hl : groupValues.entries.lookup g with
      | none => rfl
      | some v =>
        refine absurd ?_ h
        exact mem_map.mpr ⟨(o, v), mem_flatMap.mpr ⟨(g, v), mem_of_lookup hl,
          mem_map.mpr ⟨o, ho, rfl⟩⟩, rfl⟩

theorem nodup_nonDefaultEntries : (vs.nonDefaultEntries.map Prod.fst).Nodup := by
  cases vs with
  | objectBacked m => exact m.map.nodup
  | groupBacked g p d disjoint =>
    rw [nonDefaultEntries, map_flatMap]
    refine nodup_flatMap.mpr ⟨?_, ?_⟩
    · intro entry _
      rw [map_map]
      simpa only [Function.comp_def, map_id'] using
        Partition.nodup_getObjectIds_of_disjoint disjoint entry.1
    · have hk : g.entries.Pairwise (fun e e' => e.1 ≠ e'.1) := pairwise_map.mp g.nodup
      refine hk.imp ?_
      intro e e' hne o ho ho'
      simp only [map_map, Function.comp_def, map_id'] at ho ho'
      have h := Partition.objectIdToGroupIds_of_disjoint disjoint ho
      rw [Partition.objectIdToGroupIds_of_disjoint disjoint ho', singleton_inj] at h
      exact hne h.symm

end ObjectValues

/-- Static scalars, or one scalar whose values depend on the scope item. -/
inductive ObjectDimension (n : Nat) (partitions : List Partition) where
  | static (scalars : List (ObjectIdToDoubleMap n))
  | dynamic (scopeId : ScopeId) (values : ScopeItemId → ObjectValues n partitions)
    (defaultValue : ℚ)

structure Scope where
  scopeItemIds : List ScopeItemId
  getScopeItemId : ContainerId → Option ScopeItemId

structure Universe (partitions : List Partition) where
  precision : PrecisionTolerances
  numObjects : Nat
  dimension : DimensionId → ObjectDimension numObjects partitions
  scope : ScopeId → Scope
  inRange : ∀ p ∈ partitions, ∀ group ∈ p.groups, ∀ o ∈ group.2, o < numObjects

theorem Universe.lt_of_mem (u : Universe ps)
    (h : o ∈ (getPartition ps p).getObjectIds g) : o < u.numObjects := by
  have hmem := Partition.mem_of_mem_getObjectIds h
  rw [getPartition] at h hmem
  by_cases hp : p < ps.length
  · rw [getD_eq_getElem _ _ hp] at h hmem
    exact u.inRange _ (getElem_mem hp) _ hmem o h
  · rw [getD_eq_default _ _ (Nat.le_of_not_lt hp)] at hmem
    cases hmem

theorem ObjectValues.lt_of_mem (u : Universe ps) (vs : ObjectValues u.numObjects ps)
    (h : o ∈ vs.nonDefaultEntries.map Prod.fst) : o < u.numObjects := by
  obtain ⟨e, he, rfl⟩ := mem_map.mp h
  cases vs with
  | objectBacked m => exact m.inRange e he
  | groupBacked g p d disjoint =>
    obtain ⟨entry, -, hm⟩ := mem_flatMap.mp he
    obtain ⟨o', ho, rfl⟩ := mem_map.mp hm
    exact u.lt_of_mem ho

end Rebalancer
