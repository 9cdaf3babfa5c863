import Rebalancer.EquivalencePartition
import Rebalancer.ObjectPartition

namespace Rebalancer
open List ObjectValues

section
variable {β : Type} [DecidableEq β]

def objectsWith (mapping : List (ObjectId × β)) (value : β) : List ObjectId :=
  (mapping.filter fun e => e.2 = value).map Prod.fst

section
variable (os : β → List ObjectId) (o : ObjectId)

theorem addEntry_of_mem : ∀ keys : List β, keys.Nodup → v ∈ keys →
      addEntry (o, v) (keys.map fun w => (w, os w)) =
        keys.map fun w => (w, if w = v then os w ++ [o] else os w) := by
  intro keys
  induction keys with
  | nil =>
    intro _ hv
    cases hv
  | cons w keys ih =>
    intro hn hv
    rw [nodup_cons] at hn
    rw [map_cons, map_cons, addEntry]
    by_cases hw : v = w
    · subst hw
      simp only [↓reduceIte, cons.injEq, true_and]
      apply map_congr_left
      intro w hw
      have hne : w ≠ v := fun he => hn.1 (he ▸ hw)
      simp [hne]
    · simp only [hw, Ne.symm hw, ↓reduceIte, cons.injEq, true_and]
      exact ih hn.2 ((mem_cons.mp hv).resolve_left hw)

theorem addEntry_of_not_mem :
    ∀ keys : List β, v ∉ keys → addEntry (o, v) (keys.map fun w => (w, os w)) =
      (keys.map fun w => (w, os w)) ++ [(v, [o])] := by
  intro keys
  induction keys with
  | nil =>
    intro _
    rfl
  | cons w keys ih =>
    intro hv
    rw [mem_cons, not_or] at hv
    simp [addEntry, hv.1, ih hv.2]

end

def Grouped (mapping : List (ObjectId × β)) (eqSets : List (β × List ObjectId)) : Prop :=
  ∃ keys : List β, keys.Nodup ∧ (∀ v, v ∈ keys ↔ ∃ o, (o, v) ∈ mapping) ∧
    eqSets = keys.map fun v => (v, objectsWith mapping v)

theorem Grouped.addEntry (h : Grouped m ss)
    (e' : ObjectId × β) : Grouped (m ++ [e']) (addEntry e' ss) := by
  obtain ⟨keys, hn, hm, rfl⟩ := h
  obtain ⟨o, v⟩ := e'
  have hself : objectsWith (m ++ [(o, v)]) v = objectsWith m v ++ [o] := by
    simp [objectsWith]
  have hother : ∀ w, w ≠ v → objectsWith (m ++ [(o, v)]) w = objectsWith m w := by
    intro w hw
    simp [objectsWith, Ne.symm hw]
  by_cases hv : v ∈ keys
  · refine ⟨keys, hn, ?_, ?_⟩
    · intro w
      simp only [hm w, mem_append, mem_singleton, Prod.mk.injEq, exists_or]
      refine ⟨.inl, fun hw => hw.elim (fun h => h) ?_⟩
      rintro ⟨_, -, rfl⟩
      exact (hm w).mp hv
    · rw [addEntry_of_mem _ o keys hn hv]
      apply map_congr_left
      intro w _
      by_cases hw : w = v
      · subst hw
        simp [hself]
      · simp [hw, hother w hw]
  · refine ⟨keys ++ [v], ?_, ?_, ?_⟩
    · exact nodup_append'.mpr ⟨hn, nodup_singleton v, disjoint_singleton.mpr hv⟩
    · intro w
      simp [exists_or, hm w]
    · have hempty : objectsWith m v = [] := by
        rw [objectsWith, map_eq_nil_iff, filter_eq_nil_iff]
        intro e he hev
        refine hv ((hm v).mpr ⟨e.1, ?_⟩)
        rw [← of_decide_eq_true hev]
        exact he
      rw [addEntry_of_not_mem _ o keys hv, map_append, map_singleton, hself, hempty]
      congr 1
      apply map_congr_left
      intro w hw
      rw [hother w fun he => hv (he ▸ hw)]

variable {mapping : List (ObjectId × β)}

theorem mem_eqSetsOf :
    s ∈ eqSetsOf mapping ↔ ∃ o v, (o, v) ∈ mapping ∧ s = objectsWith mapping v := by
  have h := foldl_rule (l := mapping) (P := Grouped) (fun e _ _ _ h => h.addEntry e) [] []
    ⟨[], .nil, by simp only [not_mem_nil, exists_false, implies_true], rfl⟩
  obtain ⟨keys, -, hm, heq⟩ := h
  rw [eqSetsOf, heq, map_map, mem_map]
  constructor
  · rintro ⟨v, hv, rfl⟩
    obtain ⟨o, ho⟩ := (hm v).mp hv
    exact ⟨o, v, ho, rfl⟩
  · rintro ⟨o, v, ho, rfl⟩
    exact ⟨v, (hm v).mpr ⟨o, ho⟩, rfl⟩

theorem mem_objectsWith : o ∈ objectsWith mapping v ↔ (o, v) ∈ mapping := by
  simp only [objectsWith, mem_map, mem_filter, decide_eq_true_eq]
  constructor
  · rintro ⟨⟨o', v'⟩, ⟨he, rfl⟩, rfl⟩
    exact he
  · intro h
    exact ⟨(o, v), ⟨h, rfl⟩, rfl⟩

theorem entries_of_together (h : Together (eqSetsOf mapping) a b)
    (v : β) : (a, v) ∈ mapping → (b, v) ∈ mapping := by
  intro ha
  have hs := h (objectsWith mapping v) (mem_eqSetsOf.mpr ⟨a, v, ha, rfl⟩)
  rw [mem_objectsWith, mem_objectsWith] at hs
  exact hs.mp ha

theorem eqSetsOf_distinct (hn : (mapping.map Prod.fst).Nodup)
    (hlt : ∀ o ∈ mapping.map Prod.fst, o < n) :
    ∀ s ∈ eqSetsOf mapping, s.Nodup ∧ ∀ o ∈ s, o < n := by
  intro s hs
  obtain ⟨o, v, -, rfl⟩ := mem_eqSetsOf.mp hs
  refine ⟨hn.sublist (filter_sublist.map Prod.fst), ?_⟩
  intro o' ho'
  exact hlt o' (mem_map.mpr ⟨_, mem_objectsWith.mp ho', rfl⟩)

end

section
variable {u : Universe partitions}

theorem ObjectValues.getObjectValue_of_together (vs : ObjectValues n partitions)
    (h : Together vs.inputs a b) : vs.getObjectValue a = vs.getObjectValue b := by
  have key : ∀ a b, Together vs.inputs a b → ∀ v, (a, v) ∈ vs.nonDefaultEntries →
      (b, v) ∈ vs.nonDefaultEntries := by
    intro a b h v ha
    cases vs with
    | objectBacked m => exact entries_of_together h v ha
    | groupBacked g p d disjoint =>
      obtain ⟨e, he, hm⟩ := mem_flatMap.mp ha
      obtain ⟨o, ho, heq⟩ := mem_map.mp hm
      cases heq
      have hb := (h _ (mem_map_of_mem he)).mp ho
      exact mem_flatMap.mpr ⟨e, he, mem_map_of_mem hb⟩
  by_cases ha : a ∈ vs.nonDefaultEntries.map Prod.fst
  · obtain ⟨⟨_, v⟩, he, rfl⟩ := mem_map.mp ha
    rw [vs.getObjectValue_of_mem he, vs.getObjectValue_of_mem (key _ b h v he)]
  · have hb : b ∉ vs.nonDefaultEntries.map Prod.fst := by
      intro hb
      obtain ⟨⟨_, v⟩, he, rfl⟩ := mem_map.mp hb
      exact ha (mem_map.mpr ⟨_, key _ a h.symm v he, rfl⟩)
    rw [vs.getObjectValue_of_not_mem ha, vs.getObjectValue_of_not_mem hb]

theorem ObjectValues.inputs_distinct (vs : ObjectValues u.numObjects partitions) :
    ∀ s ∈ vs.inputs, s.Nodup ∧ ∀ o ∈ s, o < u.numObjects := by
  cases vs with
  | objectBacked m =>
    refine eqSetsOf_distinct m.map.nodup ?_
    intro o ho
    obtain ⟨e, he, rfl⟩ := mem_map.mp ho
    exact m.inRange e he
  | groupBacked g p d disjoint =>
    intro s hs
    obtain ⟨entry, -, rfl⟩ := mem_map.mp hs
    exact ⟨Partition.nodup_getObjectIds_of_disjoint disjoint entry.1, fun o ho => u.lt_of_mem ho⟩

theorem dimensionInputs_distinct (d : DimensionId) :
    ∀ s ∈ dimensionInputs u d, s.Nodup ∧ ∀ o ∈ s, o < u.numObjects := by
  intro s hs
  rw [dimensionInputs] at hs
  cases hd : u.dimension d with
  | static scalars =>
    rw [hd] at hs
    obtain ⟨scalar, -, hs⟩ := mem_flatMap.mp hs
    exact inputs_distinct _ s hs
  | dynamic i values v =>
    rw [hd] at hs
    obtain ⟨item, -, hs⟩ := mem_flatMap.mp hs
    exact inputs_distinct _ s hs

theorem scopeItemInputs_distinct (d : DimensionId) (i : ScopeItemId) :
    ∀ s ∈ scopeItemInputs u d i, s.Nodup ∧ ∀ o ∈ s, o < u.numObjects := by
  intro s hs
  rw [scopeItemInputs] at hs
  cases hd : u.dimension d with
  | static scalars =>
    rw [hd] at hs
    obtain ⟨scalar, -, hs⟩ := mem_flatMap.mp hs
    exact inputs_distinct _ s hs
  | dynamic scopeId values v =>
    rw [hd] at hs
    exact inputs_distinct _ s hs

theorem getValue_of_together_static (hd : (u.dimension d).isDynamic = false)
    (h : Together (dimensionInputs u d) a b) (s : Option ScopeItemId) :
    (u.dimension d).getValue a s = (u.dimension d).getValue b s := by
  rw [dimensionInputs] at h
  cases hdim : u.dimension d with
  | static scalars =>
    rw [hdim] at h
    cases scalars with
    | nil => rfl
    | cons scalar scalars =>
      rw [ObjectDimension.getValue]
      apply getObjectValue_of_together
      exact h.mono fun s hs => mem_flatMap.mpr ⟨scalar, mem_cons_self, hs⟩
  | dynamic i values v =>
    rw [hdim] at hd
    cases hd

theorem getValue_of_together_dynamic (hd : (u.dimension d).isDynamic = true)
    (h : Together (scopeItemInputs u d i) a b) :
    (u.dimension d).getValue a (some i) = (u.dimension d).getValue b (some i) := by
  rw [scopeItemInputs] at h
  cases hdim : u.dimension d with
  | static s =>
    rw [hdim] at hd
    cases hd
  | dynamic scopeId values v =>
    rw [hdim] at h
    exact getObjectValue_of_together _ h

end

end Rebalancer
