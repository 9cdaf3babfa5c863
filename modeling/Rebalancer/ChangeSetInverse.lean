import Rebalancer.MovesEvaluator

namespace Rebalancer
open List MoveSet

namespace MoveSet

def sideOf (value : Int) (changes : List Change) : List (ObjectId × ContainerId) :=
  (changes.filter fun change => decide (change.value = value)).map
    fun change => (change.object, change.container)

theorem sideOf_cons_self (h : c.value = v) (changes : List Change) : sideOf v (c :: changes) =
      (c.object, c.container) :: sideOf v changes := by
  rw [sideOf, filter_cons, if_pos (decide_eq_true h)]
  rfl

theorem sideOf_cons_ne (h : c.value ≠ v) (changes : List Change) :
    sideOf v (c :: changes) = sideOf v changes := by
  rw [sideOf, filter_cons, if_neg (by rwa [decide_eq_true_iff])]
  rfl

theorem mem_sideOf : (o, c) ∈ sideOf v cs ↔
    ∃ change ∈ cs, change.value = v ∧ change.object = o ∧ change.container = c := by
  simp [sideOf, and_assoc]

theorem sideOf_inverse (v : Int) (cs : List Change) :
    sideOf v (cs.reverse.map Change.inverse) = (sideOf (-v) cs).reverse := by
  rw [sideOf, sideOf, filter_map, map_map, ← map_reverse, ← filter_reverse]
  congr 1
  apply filter_congr
  intro change _
  change decide (-change.value = v) = decide (change.value = -v)
  rw [decide_eq_decide, neg_eq_iff_eq_neg]

def Once (side : List (ObjectId × ContainerId)) : Prop := (side.map Prod.fst).Nodup

theorem Once.reverse (h : Once side) : Once side.reverse := by
  rw [Once, map_reverse]
  exact nodup_reverse.mpr h

theorem any_object_iff {side : List (ObjectId × ContainerId)} :
    (side.any fun entry => entry.1 == o) = true ↔ o ∈ side.map Prod.fst := by
  simp

theorem once_append_cons (h : e.1 ∈ side.map Prod.fst) : ¬ Once (s' ++ e :: side) := by
  intro hnodup
  rw [Once, map_append] at hnodup
  exact (nodup_cons.mp (nodup_append.mp hnodup).2.1).1 h

theorem foldlM_recordChange (cs : List Change) : ∀ r a, Once r → Once a →
      (cs.foldlM recordChange (r, a) = .ok ss ↔
        ss = ((sideOf (-1) cs).reverse ++ r, (sideOf 1 cs).reverse ++ a) ∧
        Once ((sideOf (-1) cs).reverse ++ r) ∧ Once ((sideOf 1 cs).reverse ++ a)) := by
  induction cs with
  | nil =>
    intro r a hr ha
    change Except.ok (r, a) = .ok ss ↔ ss = (r, a) ∧ _ ∧ _
    rw [and_iff_left ⟨hr, ha⟩, Except.ok.injEq]
    exact eq_comm
  | cons change cs ih =>
    intro r a hr ha
    rw [foldlM_cons]
    rcases change.valid with hvalue | hvalue
    · have hne : change.value ≠ -1 := by
        rw [hvalue]
        decide
      rw [sideOf_cons_self hvalue, sideOf_cons_ne hne, reverse_cons, append_assoc,
        singleton_append, recordChange, if_neg hne]
      by_cases hmem : change.object ∈ a.map Prod.fst
      · rw [if_pos (any_object_iff.mpr hmem)]
        refine iff_of_false nofun ?_
        intro h
        exact once_append_cons hmem h.2.2
      · rw [if_neg fun h => hmem (any_object_iff.mp h), except_ok_bind]
        exact ih _ _ hr (nodup_cons.mpr ⟨hmem, ha⟩)
    · have hne : change.value ≠ 1 := by
        rw [hvalue]
        decide
      rw [sideOf_cons_self hvalue, sideOf_cons_ne hne, reverse_cons, append_assoc,
        singleton_append, recordChange, if_pos hvalue]
      by_cases hmem : change.object ∈ r.map Prod.fst
      · rw [if_pos (any_object_iff.mpr hmem)]
        refine iff_of_false nofun ?_
        intro h
        exact once_append_cons hmem h.2.1
      · rw [if_neg fun h => hmem (any_object_iff.mp h), except_ok_bind]
        exact ih _ _ (nodup_cons.mpr ⟨hmem, hr⟩) ha

structure Balanced (changes : List Change) : Prop where
  removed : Once (sideOf (-1) changes)
  added : Once (sideOf 1 changes)
  perm : ((sideOf (-1) changes).map Prod.fst).Perm ((sideOf 1 changes).map Prod.fst)

theorem fromChangeSet_ok_iff (cs : ChangeSet) :
    (∃ moves, fromChangeSet cs = .ok moves) ↔ Balanced cs.changes := by
  constructor
  · intro h
    obtain ⟨moves, h⟩ := h
    obtain ⟨s, hs, h⟩ := except_bind_ok h
    obtain ⟨rfl, hr, ha⟩ := (foldlM_recordChange cs.changes [] [] .nil .nil).mp hs
    rw [append_nil] at hr ha
    simp only [append_nil] at h
    split at h
    · cases h
    · rename_i hl
      have hr' : Once (sideOf (-1) cs.changes) := by
        rw [← reverse_reverse (sideOf (-1) cs.changes)]
        exact hr.reverse
      have ha' : Once (sideOf 1 cs.changes) := by
        rw [← reverse_reverse (sideOf 1 cs.changes)]
        exact ha.reverse
      refine ⟨hr', ha', ?_⟩
      apply (hr'.subperm ?_).perm_of_length_le
      · rw [length_map, length_map]
        rw [not_not, length_reverse, length_reverse] at hl
        exact Nat.le_of_eq hl.symm
      · intro o ho
        obtain ⟨entry, hentry, rfl⟩ := mem_map.mp ho
        obtain ⟨y, hy⟩ := mem_of_mapM_ok h entry (mem_reverse.mpr hentry)
        cases hf : (sideOf 1 cs.changes).reverse.find? fun e => e.1 == entry.1 with
        | none =>
          rw [hf] at hy
          cases hy
        | some e =>
          have heq := find?_some hf
          rw [← beq_iff_eq.mp heq]
          exact mem_map_of_mem (mem_reverse.mp (mem_of_find?_eq_some hf))
  · intro h
    have hr := h.removed.reverse
    have ha := h.added.reverse
    have hs := (foldlM_recordChange cs.changes [] [] .nil .nil).mpr
      ⟨rfl, by rwa [append_nil], by rwa [append_nil]⟩
    simp only [append_nil] at hs
    have hl : (sideOf (-1) cs.changes).length = (sideOf 1 cs.changes).length := by
      have hp := h.perm.length_eq
      rwa [length_map, length_map] at hp
    rw [fromChangeSet, hs, except_ok_bind]
    simp only [length_reverse, hl, ne_eq, not_true_eq_false, ↓reduceIte]
    apply exists_mapM_ok
    intro entry hentry
    cases hf : (sideOf 1 cs.changes).reverse.find? fun e => e.1 == entry.1 with
    | some e => exact ⟨_, rfl⟩
    | none =>
      have hmem := h.perm.subset (mem_map_of_mem (mem_reverse.mp hentry))
      obtain ⟨e, he, heq⟩ := mem_map.mp hmem
      exact absurd (beq_iff_eq.mpr heq) (find?_eq_none.mp hf e (mem_reverse.mpr he))

theorem fromChangeSet_single (o : ObjectId) (c c' : ContainerId) :
    fromChangeSet (getChangeSet [⟨o, c, c'⟩]) = .ok [⟨o, c, c'⟩] := by
  simp [getChangeSet, fromChangeSet, recordChange, ChangeSet.ofList_changes, Change.removal,
    Change.addition]

theorem Balanced.inverse (h : Balanced cs) : Balanced (cs.reverse.map Change.inverse) := by
  have hr := sideOf_inverse (-1) cs
  have ha := sideOf_inverse 1 cs
  refine ⟨hr ▸ h.added.reverse, ha ▸ h.removed.reverse, ?_⟩
  rw [hr, ha, map_reverse, map_reverse]
  exact ((reverse_perm _).trans h.perm.symm).trans (reverse_perm _).symm

variable (moves : MoveSet)

theorem removed_getChangeSet : sideOf (-1) moves.getChangeSet.changes =
    moves.map (fun move => (move.object, move.srcContainer)) := by
  rw [getChangeSet, ChangeSet.ofList_changes]
  induction moves with
  | nil => rfl
  | cons move moves ih =>
    rw [flatMap_cons, map_cons, ← ih]
    rfl

theorem added_getChangeSet : sideOf 1 moves.getChangeSet.changes =
    moves.map (fun move => (move.object, move.dstContainer)) := by
  rw [getChangeSet, ChangeSet.ofList_changes]
  induction moves with
  | nil => rfl
  | cons move moves ih =>
    rw [flatMap_cons, map_cons, ← ih]
    rfl

/-- A set of moves comes back from its changes if no object moves twice, and is rejected else. -/
theorem fromChangeSet_getChangeSet :
    ((∃ moves', fromChangeSet moves.getChangeSet = .ok moves') ↔
      (moves.map Move.object).Nodup) ∧
    ∀ moves', fromChangeSet moves.getChangeSet = .ok moves' → moves'.Perm moves := by
  have hb : Balanced moves.getChangeSet.changes ↔ (moves.map Move.object).Nodup := by
    refine ⟨fun h => ?_, fun h => ⟨?_, ?_, ?_⟩⟩
    · simpa [Once, removed_getChangeSet, Function.comp_def] using h.removed
    · simpa [Once, removed_getChangeSet, Function.comp_def] using h
    · simpa [Once, added_getChangeSet, Function.comp_def] using h
    · simp [removed_getChangeSet, added_getChangeSet, Function.comp_def]
  refine ⟨(fromChangeSet_ok_iff _).trans hb, ?_⟩
  intro moves' h
  have hn := hb.mp ((fromChangeSet_ok_iff _).mp ⟨_, h⟩)
  obtain ⟨s, hs, h⟩ := except_bind_ok h
  obtain ⟨rfl, -, -⟩ := (foldlM_recordChange _ [] [] .nil .nil).mp hs
  simp only [append_nil, removed_getChangeSet, added_getChangeSet, ← map_reverse] at h
  split at h
  · cases h
  · rw [mapM_map, mapM_ok (k := id)] at h
    · cases h
      rw [map_id]
      exact reverse_perm moves
    · intro move hm
      simp only [Function.comp, find?_map]
      cases hf : moves.reverse.find? fun m => m.object == move.object with
      | none => exact absurd (beq_self_eq_true _) (find?_eq_none.mp hf move hm)
      | some m =>
        have hin := mem_reverse.mp (mem_of_find?_eq_some hf)
        have ho : m.object = move.object := by simpa using find?_some hf
        rw [inj_on_of_nodup_map hn hin (mem_reverse.mp hm) ho]
        rfl

end MoveSet

def moveAll (on : Table ObjectId ContainerId) (changes : List Change) :
    Table ObjectId ContainerId :=
  changes.foldl (fun on change =>
    if change.value = 1 then Function.update on change.object (some change.container) else on) on

theorem moveAll_of_not_added (cs : List Change) :
    ∀ on : Table ObjectId ContainerId, o ∉ (sideOf 1 cs).map Prod.fst → moveAll on cs o = on o := by
  induction cs with
  | nil =>
    intro on _
    rfl
  | cons c cs ih =>
    intro on ho
    rw [moveAll, foldl_cons]
    by_cases hvalue : c.value = 1
    · rw [sideOf_cons_self hvalue, map_cons, mem_cons, not_or] at ho
      rw [if_pos hvalue]
      refine (ih _ ho.2).trans ?_
      exact Function.update_of_ne ho.1 _ _
    · rw [sideOf_cons_ne hvalue] at ho
      rw [if_neg hvalue]
      exact ih on ho

theorem moveAll_of_added (cs : List Change) :
    ∀ on : Table ObjectId ContainerId, Once (sideOf 1 cs) →
      (o, c) ∈ sideOf 1 cs → moveAll on cs o = some c := by
  induction cs with
  | nil =>
    intro on _ hmem
    cases hmem
  | cons change cs ih =>
    intro on ho hmem
    rw [moveAll, foldl_cons]
    by_cases hvalue : change.value = 1
    · rw [sideOf_cons_self hvalue] at ho hmem
      obtain ⟨hn, ho⟩ := nodup_cons.mp ho
      rw [if_pos hvalue]
      rcases mem_cons.mp hmem with heq | hmem
      · cases heq
        refine (moveAll_of_not_added cs _ hn).trans ?_
        exact Function.update_self _ _ _
      · exact ih _ ho hmem
    · rw [sideOf_cons_ne hvalue] at ho hmem
      rw [if_neg hvalue]
      exact ih on ho hmem

/-- The changes are moves of objects from where they are, and lead from `on` to `on'`. -/
structure Leads (on : Table ObjectId ContainerId) (cs : ChangeSet)
    (on' : Table ObjectId ContainerId) : Prop where
  balanced : Balanced cs.changes
  current : ∀ change ∈ cs.changes, change.value = -1 → on change.object = some change.container
  after : on' = moveAll on cs.changes

theorem Leads.placed (h : Leads on cs on') (hc : change ∈ cs.changes)
    (hv : change.value = 1) : ∃ c, on change.object = some c := by
  have hmem : change.object ∈ (sideOf 1 cs.changes).map Prod.fst :=
    mem_map.mpr ⟨_, mem_sideOf.mpr ⟨change, hc, hv, rfl, rfl⟩, rfl⟩
  obtain ⟨⟨o, c⟩, he, ho⟩ := mem_map.mp (h.balanced.perm.mem_iff.mpr hmem)
  obtain ⟨c', hc', hv', hobject, -⟩ := mem_sideOf.mp he
  have hcurrent := h.current c' hc' hv'
  rw [hobject] at hcurrent
  rw [← ho]
  exact ⟨_, hcurrent⟩

theorem Leads.inverse (h : Leads on cs on') : Leads on' cs.getInverse on := by
  have hchanges : cs.getInverse.changes = cs.changes.reverse.map Change.inverse :=
    ChangeSet.ofList_changes _
  have hr := sideOf_inverse (-1) cs.changes
  have ha := sideOf_inverse 1 cs.changes
  rw [neg_neg] at hr
  have hb := h.balanced.inverse
  refine ⟨?_, ?_, ?_⟩
  · rw [hchanges]
    exact hb
  · intro change hc hvalue
    rw [hchanges] at hc
    have hmem : (change.object, change.container) ∈ sideOf 1 cs.changes := by
      apply mem_reverse.mp
      rw [← hr]
      exact mem_sideOf.mpr ⟨change, hc, hvalue, rfl, rfl⟩
    rw [h.after]
    exact moveAll_of_added cs.changes on h.balanced.added hmem
  · funext o
    rw [hchanges, h.after]
    by_cases ho : o ∈ (sideOf (-1) cs.changes).map Prod.fst
    · obtain ⟨⟨x, c⟩, hmem, rfl⟩ := mem_map.mp ho
      obtain ⟨change, hc, hvalue, rfl, rfl⟩ := mem_sideOf.mp hmem
      rw [h.current change hc hvalue]
      refine (moveAll_of_added _ _ hb.added ?_).symm
      rw [ha]
      exact mem_reverse.mpr hmem
    · have hn : o ∉ (sideOf 1 cs.changes).map Prod.fst := fun hmem =>
        ho (h.balanced.perm.mem_iff.mpr hmem)
      rw [moveAll_of_not_added (cs.changes.reverse.map Change.inverse),
        moveAll_of_not_added cs.changes on hn]
      rw [ha, map_reverse, mem_reverse]
      exact ho

end Rebalancer
