import Rebalancer.TryApply

namespace Rebalancer
open AssocMap MoveSet
open List hiding getD keys

structure Relocation where
  object : ObjectId
  fromContainer : ContainerId
  toContainer : ContainerId
deriving Inhabited

namespace Relocation

def insert (changes : ChangeSet) (r : Relocation) : ChangeSet :=
  if r.fromContainer ≠ r.toContainer then
    (changes.insert (.removal r.object r.fromContainer)).insert (.addition r.object r.toContainer)
  else changes

def changes (r : Relocation) : List Change :=
  if r.fromContainer ≠ r.toContainer then
    [.removal r.object r.fromContainer, .addition r.object r.toContainer]
  else []

theorem of_mem_changes {r : Relocation} (h : c ∈ r.changes) :
    c.object = r.object ∧ r.fromContainer ≠ r.toContainer := by
  rw [changes] at h
  split_ifs at h with hne
  · refine ⟨?_, hne⟩
    rcases mem_cons.mp h with rfl | h
    · rfl
    · rw [mem_singleton.mp h]
      rfl
  · cases h

theorem insert_changes (changes : ChangeSet) (r : Relocation) :
    (insert changes r).changes = changes.changes ++ r.changes := by
  rw [insert, Relocation.changes]
  split
  · exact append_assoc ..
  · exact (append_nil _).symm

section
variable (rs : List Relocation)

theorem foldl_insert : ∀ changes : ChangeSet,
    (rs.foldl insert changes).changes = changes.changes ++ rs.flatMap Relocation.changes := by
  induction rs with
  | nil =>
    intro changes
    exact (append_nil _).symm
  | cons r rs ih =>
    intro changes
    rw [foldl_cons, ih, insert_changes, flatMap_cons, append_assoc]

def moved : List Relocation := rs.filter fun r => decide (r.fromContainer ≠ r.toContainer)

theorem sideOf_changes : sideOf (-1) (rs.flatMap changes) =
        (moved rs).map (fun r => (r.object, r.fromContainer)) ∧ sideOf 1 (rs.flatMap changes) =
        (moved rs).map (fun r => (r.object, r.toContainer)) := by
  induction rs with
  | nil => exact ⟨rfl, rfl⟩
  | cons r rs ih =>
    rw [flatMap_cons, moved, filter_cons, changes]
    split
    · rename_i hne
      have hr : (Change.removal r.object r.fromContainer).value = -1 := rfl
      have ha : (Change.addition r.object r.toContainer).value = 1 := rfl
      rw [if_pos (decide_eq_true hne), cons_append, singleton_append]
      refine ⟨?_, ?_⟩
      · rw [sideOf_cons_self hr, sideOf_cons_ne (by rw [ha]; decide), ih.1]
        rfl
      · rw [sideOf_cons_ne (by rw [hr]; decide), sideOf_cons_self ha, ih.2]
        rfl
    · rw [if_neg (by rwa [decide_eq_true_iff])]
      exact ih

end

theorem leads {rs : List Relocation} (on : Table ObjectId ContainerId)
    (hn : (rs.map Relocation.object).Nodup)
    (hcu : ∀ r ∈ rs, on r.object = some r.fromContainer) (cs : ChangeSet)
    (hcs : cs.changes = rs.flatMap changes) :
    ∃ on', Leads on cs on' ∧ (∀ r ∈ rs, on' r.object = some r.toContainer) ∧
      ∀ o, o ∉ rs.map Relocation.object → on' o = on o := by
  obtain ⟨hremoved, ha⟩ := sideOf_changes rs
  rw [← hcs] at hremoved ha
  have honce : ((moved rs).map Relocation.object).Nodup := hn.sublist (filter_sublist.map _)
  have hadd : Once (sideOf 1 cs.changes) := by
    rw [ha, Once, map_map]
    exact honce
  refine ⟨moveAll on cs.changes, ⟨⟨?_, hadd, ?_⟩, ?_, rfl⟩, ?_, ?_⟩
  · rw [hremoved, Once, map_map]
    exact honce
  · rw [hremoved, ha, map_map, map_map]
    exact .refl _
  · intro c hchange hvalue
    have hmem := mem_sideOf.mpr ⟨c, hchange, hvalue, rfl, rfl⟩
    rw [hremoved] at hmem
    obtain ⟨r, hr, heq⟩ := mem_map.mp hmem
    obtain ⟨hobject, hc⟩ := Prod.mk.inj heq
    rw [← hobject, ← hc]
    exact hcu r (mem_filter.mp hr).1
  · intro r hr
    by_cases hne : r.fromContainer ≠ r.toContainer
    · apply moveAll_of_added _ _ hadd
      rw [ha]
      exact mem_map.mpr ⟨r, mem_filter.mpr ⟨hr, decide_eq_true hne⟩, rfl⟩
    · rw [← not_not.mp hne, ← hcu r hr]
      apply moveAll_of_not_added
      rw [ha, map_map]
      intro hmem
      obtain ⟨r', hr', hobject⟩ := mem_map.mp hmem
      obtain ⟨hr', hm⟩ := mem_filter.mp hr'
      have heq := inj_on_of_nodup_map hn hr' hr hobject
      subst heq
      exact hne (decide_eq_true_iff.mp hm)
  · intro o ho
    apply moveAll_of_not_added
    rw [ha, map_map]
    intro hmem
    obtain ⟨r, hr, hobject⟩ := mem_map.mp hmem
    exact ho (mem_map.mpr ⟨r, (mem_filter.mp hr).1, hobject⟩)

end Relocation

namespace AssignmentState

section
variable (a : AssignmentState)

def placements : List ObjectId := a.containerToObjects.entries.flatMap fun e => e.2.elems

variable (newAssignment : AssocMap ObjectId ContainerId)

def relocation (obj : ObjectId) : Except String Relocation := do
  let fromContainer ← a.getContainer obj
  let toContainer ← newAssignment.fetch obj
  .ok ⟨obj, fromContainer, toContainer⟩

def changesTo : Except String ChangeSet := do
  let rs ← a.placements.mapM (a.relocation newAssignment)
  .ok (rs.foldl Relocation.insert .new)
end

variable {a : AssignmentState}

theorem mem_placements (h : a.Consistent keys) : o ∈ a.placements ↔ ∃ c, a.table o = some c := by
  rw [placements, mem_flatMap]
  constructor
  · intro ⟨⟨c, objects⟩, he, ho⟩
    have hs := (h.objects o c).mp ((mem_getD IdSet.notMem_empty).mpr
      ⟨objects, AList.mem_lookup_iff.mpr he, ho⟩)
    exact ⟨c, hs.2⟩
  · intro ⟨c, hc⟩
    obtain ⟨objects, hl, hmem⟩ := (mem_getD IdSet.notMem_empty).mp
      ((h.objects o c).mpr ⟨trivial, hc⟩)
    exact ⟨_, AList.mem_lookup_iff.mp hl, hmem⟩

theorem nodup_placements (h : a.Consistent keys) : a.placements.Nodup := by
  rw [placements, nodup_flatMap]
  refine ⟨fun e _ => e.2.nodup, ?_⟩
  have hk := nodupKeys_iff_pairwise.mp a.containerToObjects.nodupKeys
  refine hk.imp_of_mem ?_
  intro e e' he he' hne o ho ho'
  have hc := (h.objects o e.1).mp (by rwa [getD, AList.mem_lookup_iff.mpr he])
  have hc' := (h.objects o e'.1).mp (by rwa [getD, AList.mem_lookup_iff.mpr he'])
  rw [hc.2] at hc'
  exact hne (Option.some.inj hc'.2)
variable {newAssignment : AssocMap ObjectId ContainerId}

theorem relocation_ok (h : a.relocation newAssignment o = .ok r) : r.object = o ∧
      a.table o = some r.fromContainer ∧ newAssignment.lookup o = some r.toContainer := by
  obtain ⟨c, hc, h⟩ := except_bind_ok h
  obtain ⟨d, hd, h⟩ := except_bind_ok h
  cases h
  exact ⟨rfl, of_fetch_ok hc, of_fetch_ok hd⟩

theorem changesTo_ok (h : a.Consistent keys) (hp : ∀ o c, a.table o = some c → o ∈ newAssignment) :
    ∃ cs, a.changesTo newAssignment = .ok cs := by
  obtain ⟨rs, hrs⟩ := exists_mapM_ok (f := a.relocation newAssignment) (l := a.placements) (by
    intro o ho
    obtain ⟨c, hc⟩ := (mem_placements h).mp ho
    obtain ⟨d, hd⟩ := mem_iff_lookup.mp (hp o c hc)
    refine ⟨⟨o, c, d⟩, ?_⟩
    rw [relocation, getContainer, fetch_ok hc, fetch_ok hd]
    rfl)
  refine ⟨rs.foldl Relocation.insert .new, ?_⟩
  rw [changesTo, hrs]
  rfl

theorem changesTo_relocations (hc : a.changesTo newAssignment = .ok cs) :
    ∃ rs : List Relocation, cs.changes = rs.flatMap Relocation.changes ∧
      rs.map Relocation.object = a.placements ∧ ∀ r ∈ rs, a.table r.object = some r.fromContainer ∧
        newAssignment.lookup r.object = some r.toContainer := by
  obtain ⟨rs, hrs, hcs⟩ := except_bind_ok hc
  cases hcs
  obtain ⟨k, rfl, hk⟩ := exists_map_of_mapM_ok hrs
  refine ⟨_, Relocation.foldl_insert _ _, ?_, ?_⟩
  · rw [map_map]
    refine (map_congr_left ?_).trans (map_id _)
    intro o ho
    exact (relocation_ok (hk o ho)).1
  · intro r hr
    obtain ⟨o, ho, rfl⟩ := mem_map.mp hr
    obtain ⟨hobject, hf, hto⟩ := relocation_ok (hk o ho)
    rw [hobject]
    exact ⟨hf, hto⟩

variable (h : a.Consistent keys)
include h

theorem placed_of_changesTo (hch : a.changesTo newAssignment = .ok cs)
    (hc : a.table o = some c) : o ∈ newAssignment := by
  obtain ⟨rs, -, hobjects, hrs⟩ := changesTo_relocations hch
  have ho := (mem_placements h).mpr ⟨c, hc⟩
  rw [← hobjects] at ho
  obtain ⟨r, hr, rfl⟩ := mem_map.mp ho
  rw [← AList.lookup_isSome, (hrs r hr).2]
  rfl

theorem changesTo_leads (hc : a.changesTo newAssignment = .ok cs) :
    Leads a.table cs fun o => (a.table o).bind fun _ => newAssignment.lookup o := by
  obtain ⟨rs, hcs, hobjects, hrs⟩ := changesTo_relocations hc
  have hnodup : (rs.map Relocation.object).Nodup := by
    rw [hobjects]
    exact nodup_placements h
  obtain ⟨on', hl, hgo, hs⟩ := Relocation.leads a.table hnodup (fun r hr => (hrs r hr).1) cs hcs
  have hon' : on' = fun o => (a.table o).bind fun _ => newAssignment.lookup o := by
    funext o
    by_cases ho : o ∈ a.placements
    · rw [← hobjects] at ho
      obtain ⟨r, hr, rfl⟩ := mem_map.mp ho
      rw [hgo r hr, (hrs r hr).1, (hrs r hr).2]
      rfl
    · rw [hs o (by rwa [hobjects])]
      cases ht : a.table o with
      | none => rfl
      | some c => exact absurd ((mem_placements h).mpr ⟨c, ht⟩) ho
  rwa [← hon']

theorem changesTo_objects (hch : a.changesTo newAssignment = .ok cs) (o : ObjectId) :
    (∃ change ∈ cs.changes, change.object = o) ↔
      ((a.table o).bind fun _ => newAssignment.lookup o) ≠ a.table o := by
  obtain ⟨rs, hcs, hobjects, hrs⟩ := changesTo_relocations hch
  rw [hcs]
  constructor
  · intro hex
    obtain ⟨change, hc, rfl⟩ := hex
    obtain ⟨r, hr, hc⟩ := mem_flatMap.mp hc
    obtain ⟨hf, hto⟩ := hrs r hr
    obtain ⟨hobject, hne⟩ := Relocation.of_mem_changes hc
    rw [hobject, hf, hto]
    exact fun heq => hne (Option.some.inj heq).symm
  · intro hne
    have hk : ∃ c, a.table o = some c := by
      cases ht : a.table o with
      | none =>
        rw [ht] at hne
        exact absurd rfl hne
      | some c => exact ⟨c, rfl⟩
    have ho := (mem_placements h).mpr hk
    rw [← hobjects] at ho
    obtain ⟨r, hr, rfl⟩ := mem_map.mp ho
    obtain ⟨hf, hto⟩ := hrs r hr
    rw [hf, hto] at hne
    refine ⟨.removal r.object r.fromContainer, mem_flatMap.mpr ⟨r, hr, ?_⟩, rfl⟩
    rw [Relocation.changes, if_pos fun heq => hne (congrArg some heq.symm)]
    exact mem_cons_self

end AssignmentState

end Rebalancer
