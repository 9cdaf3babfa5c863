import Rebalancer.SolutionCounts

namespace Rebalancer
open AssocMap ObjectCounts AssignmentState Finset ContainerAssignment EquivalenceSets
open List hiding getD keys mem_filter mem_map

namespace ObjectCounts

theorem count_write (cs : ObjectCounts) (i j : EquivalenceSetId) (c d : ContainerId) (n : Nat) :
    (cs.write i c n).count j d = if j = i ∧ d = c then n else cs.count j d := by
  rw [count, write, getD_insert_if]
  by_cases hj : j = i
  · rw [if_pos hj, getD_insert_if]
    by_cases hd : d = c
    · rw [if_pos hd, if_pos ⟨hj, hd⟩]
    · rw [if_neg hd, if_neg fun h => hd h.2, count, hj]
  · rw [if_neg hj, if_neg fun h => hj h.1, count]

theorem mem_write {counts : ObjectCounts} : j ∈ counts.write i c n ↔ j = i ∨ j ∈ counts :=
  AList.mem_insert _

def Within (containers : List ContainerId) (counts : ObjectCounts) : Prop :=
  ∀ i c, c ∈ getD counts i ∅ → c ∈ containers

theorem Within.write (h : Within cs counts) (hc : c ∈ cs)
    (i : EquivalenceSetId) (n : Nat) : Within cs (counts.write i c n) := by
  intro j d hd
  rw [ObjectCounts.write, getD_insert_if] at hd
  split at hd
  · rcases (AList.mem_insert _).mp hd with rfl | hd
    · exact hc
    · exact h i d hd
  · exact h j d hd

theorem Within.values_sum (h : Within containers cs) (hi : cs.lookup i = some sizes) :
    (values sizes).sum = ∑ c ∈ containers.toFinset, cs.count i c := by
  have hinner : getD cs i ∅ = sizes := by rw [getD, hi, Option.getD_some]
  rw [← sum_getD]
  simp only [count, hinner]
  apply sum_subset
  · intro c hc
    rw [mem_toFinset] at hc ⊢
    apply h i c
    rw [hinner]
    exact hc
  · intro c _ hc
    rw [mem_toFinset] at hc
    rw [getD_of_notMem hc]

end ObjectCounts

namespace AssignmentProblem
variable {p : AssignmentProblem} {context : LpContext} {solution : Solution}

def setOf (p : AssignmentProblem) (o : ObjectId) : EquivalenceSetId :=
  (p.equivalenceSets.objectIdToSetId o).getD 0

theorem setAt_eq (ho : o < p.numObjects) : p.equivalenceSets.setAt o = .ok (p.setOf o) := by
  obtain ⟨i, hi⟩ := p.partition.assigned o ho
  rw [hi, setOf, setAt_eq_ok.mp hi, Option.getD_some]

theorem setOf_eq (ho : o < p.numObjects) : p.setOf o = i ↔ p.equivalenceSets.setAt o = .ok i := by
  rw [setAt_eq ho, Except.ok.injEq]

theorem mem_getSet (ho : o < p.numObjects) : o ∈ p.equivalenceSets.getSet i ↔ p.setOf o = i := by
  rw [p.partition.mem_iff, setOf_eq ho]

theorem lt_of_mem_getSet (h : o ∈ p.equivalenceSets.getSet i) : o < p.numObjects := by
  have hi : i < p.equivalenceSets.sets.length := by
    by_contra hlen
    rw [getSet, getD_eq_default _ _ (Nat.le_of_not_lt hlen)] at h
    exact notMem_empty o h
  exact p.partition.inRange _ (mem_sets_iff.mpr ⟨i, hi, rfl⟩) o h

end AssignmentProblem

theorem ContainerAssignment.mem_located {a : ContainerAssignment} :
    (∃ c, (c, o) ∈ a.located) ↔ o ∈ a.getObjects := by
  rw [getObjects, mem_flatten]
  constructor
  · rintro ⟨c, h⟩
    obtain ⟨e, he, h⟩ := mem_flatMap.mp h
    obtain ⟨o', ho', heq⟩ := List.mem_map.mp h
    cases heq
    exact ⟨e.2, mem_map_of_mem he, ho'⟩
  · rintro ⟨l, hl, ho⟩
    obtain ⟨e, he, rfl⟩ := List.mem_map.mp hl
    exact ⟨e.1, mem_flatMap.mpr ⟨e, he, mem_map_of_mem ho⟩⟩

theorem ContainerAssignment.container_mem {a : ContainerAssignment} (h : (c, o) ∈ a.located) :
    c ∈ a.getContainers := by
  obtain ⟨e, he, h⟩ := mem_flatMap.mp h
  obtain ⟨o', -, heq⟩ := List.mem_map.mp h
  cases heq
  exact mem_map_of_mem he

namespace AssignmentState
variable {a : AssignmentState}

theorem located_objects (a : AssignmentState) : a.located.map Prod.snd = a.placements := by
  rw [located, List.map_flatMap]
  congr 1
  funext e
  rw [List.map_map]
  exact List.map_id _

theorem mem_getObjects (h : a.Consistent keys) : o ∈ a.getObjects c ↔ a.table o = some c :=
  (h.objects o c).trans (and_iff_right trivial)

theorem mem_located (h : a.Consistent keys) : (c, o) ∈ a.located ↔ a.table o = some c := by
  rw [← mem_getObjects h, getObjects, mem_getD IdSet.notMem_empty]
  exact mem_pairs a.containerToObjects IdSet.elems

end AssignmentState

namespace AssignmentProblem
variable {p : AssignmentProblem} {context : LpContext} {s' : Solution}

theorem countOn_eq_card {a : AssignmentState} {keys : IndexKeys} (h : a.Consistent keys)
    (i : EquivalenceSetId) (c : ContainerId) : a.countOn p.equivalenceSets i c =
      ((p.equivalenceSets.getSet i).filter fun o => a.table o = some c).card := by
  rw [countOn, ← toFinset_card_of_nodup ((a.getObjects c).nodup.filter _)]
  congr 1
  ext o
  rw [mem_toFinset, List.mem_filter, decide_eq_true_eq, mem_filter, p.partition.mem_iff, and_comm]
  exact and_congr_right fun _ => mem_getObjects h

theorem length_located (i : EquivalenceSetId) (c : ContainerId) :
    (p.assignment.located.filter fun x => x.1 = c ∧ p.setOf x.2 = i).length =
      p.assignment.countOn p.equivalenceSets i c := by
  have hnodup : ((p.assignment.located.filter fun x => x.1 = c ∧ p.setOf x.2 = i).map
      Prod.snd).Nodup := by
    apply List.Nodup.sublist (filter_sublist.map _)
    rw [located_objects]
    exact nodup_placements p.consistent
  rw [countOn_eq_card p.consistent, ← length_map Prod.snd, ← toFinset_card_of_nodup hnodup]
  congr 1
  ext o
  rw [mem_toFinset, List.mem_map, mem_filter]
  constructor
  · intro ⟨x, hx, hxo⟩
    obtain ⟨hmem, hf⟩ := List.mem_filter.mp hx
    rw [decide_eq_true_eq] at hf
    obtain ⟨hc, hi⟩ := hf
    have ht := (mem_located p.consistent (c := x.1) (o := x.2)).mp hmem
    rw [hc, hxo] at ht
    rw [hxo] at hi
    exact ⟨(mem_getSet (p.known o c ht).1).mpr hi, ht⟩
  · intro ⟨hi, ht⟩
    have ho := (p.known o c ht).1
    refine ⟨(c, o), List.mem_filter.mpr ⟨?_, ?_⟩, rfl⟩
    · exact (mem_located p.consistent).mpr ht
    · exact decide_eq_true ⟨rfl, (mem_getSet ho).mp hi⟩

section
variable (p : AssignmentProblem)

theorem sum_countOn (i : EquivalenceSetId) :
    ∑ c ∈ p.containers.toFinset, p.assignment.countOn p.equivalenceSets i c =
      (p.equivalenceSets.getSet i).card := by
  simp only [countOn_eq_card p.consistent]
  have hm : ∀ o ∈ p.equivalenceSets.getSet i,
      p.assignment.table o ∈ p.containers.toFinset.map .some := by
    intro o ho
    obtain ⟨c, hc⟩ := p.placed o (lt_of_mem_getSet ho)
    rw [mem_map]
    exact ⟨c, mem_toFinset.mpr (p.known o c hc).2, hc.symm⟩
  rw [card_eq_sum_card_fiberwise hm, sum_map]
  rfl

theorem fixedEquivSetVals_ok (c : ContainerId) : ∃ vals, p.fixedEquivSetVals c = .ok vals ∧
      ∀ i, getD vals i 0 = p.assignment.countOn p.equivalenceSets i c := by
  have hlt : ∀ o ∈ (p.assignment.getObjects c).elems, o < p.numObjects := by
    intro o ho
    exact (p.known o c ((mem_getObjects p.consistent).mp ho)).1
  have hc : ∀ (l : List ObjectId) (vals : AssocMap EquivalenceSetId Nat) (i : EquivalenceSetId),
      getD (l.foldl (fun vals o =>
        vals.insert (p.setOf o) (getD vals (p.setOf o) 0 + 1)) vals) i 0 =
      getD vals i 0 + (l.filter fun o => p.setOf o = i).length := by
    intro l
    induction l with
    | nil =>
      intro vals i
      rfl
    | cons o l ih =>
      intro vals i
      rw [List.foldl_cons, ih, getD_insert_if, List.filter_cons]
      by_cases hi : p.setOf o = i
      · rw [if_pos hi.symm, if_pos (decide_eq_true hi), length_cons, hi]
        omega
      · rw [if_neg (Ne.symm hi), if_neg (by rwa [decide_eq_true_eq])]
  refine ⟨_, foldlM_eq_foldl (g := fun vals o =>
    vals.insert (p.setOf o) (getD vals (p.setOf o) 0 + 1)) ?_ _, ?_⟩
  · intro o ho vals
    rw [setAt_eq (hlt o ho), except_ok_bind]
  · intro i
    rw [hc]
    have hf : ((p.assignment.getObjects c).elems.filter fun o => p.setOf o = i) =
        (p.assignment.getObjects c).elems.filter fun o => p.equivalenceSets.setAt o = .ok i := by
      apply List.filter_congr
      intro o ho
      rw [decide_eq_decide]
      exact setOf_eq (hlt o ho)
    rw [hf]
    exact Nat.zero_add _

variable (c' : LpContext)

theorem getMaybeFixedAssignmentValue_ok
    (i : EquivalenceSetId) (c : ContainerId) : p.getMaybeFixedAssignmentValue c' i c =
      .ok (if c'.HasVariable i c then none
        else some (p.assignment.countOn p.equivalenceSets i c)) := by
  rw [getMaybeFixedAssignmentValue]
  split
  · rfl
  · obtain ⟨vals, hv, hc⟩ := p.fixedEquivSetVals_ok c
    rw [hv, except_ok_bind, hc]

theorem lpAssignmentValue_ok (s' : Solution)
    (i : EquivalenceSetId) (c : ContainerId) : p.lpAssignmentValue c' s' i c =
      .ok (if c'.HasVariable i c then s' i c
        else (p.assignment.countOn p.equivalenceSets i c : ℚ)) := by
  rw [lpAssignmentValue, getMaybeFixedAssignmentValue_ok]
  by_cases hv : c'.HasVariable i c
  · simp [if_pos hv]
  · simp [if_neg hv]

theorem foldlM_addTerm (i : EquivalenceSetId) (l : List ContainerId) : ∀ ts s,
    l.foldlM (p.addTerm c') ⟨i, ts, s⟩ = .ok ⟨i, ts ++ l.filter fun c => c'.HasVariable i c,
      s - ((l.filter fun c => ¬ c'.HasVariable i c).map fun c =>
        (p.assignment.countOn p.equivalenceSets i c : Int)).sum⟩ := by
  induction l with
  | nil =>
    intro ts s
    rw [filter_nil, filter_nil, append_nil, map_nil, sum_nil, sub_zero]
    rfl
  | cons c l ih =>
    intro ts s
    rw [foldlM_cons, addTerm, getMaybeFixedAssignmentValue_ok]
    rw [List.filter_cons, List.filter_cons]
    by_cases hv : c'.HasVariable i c
    · rw [if_pos hv, if_pos (decide_eq_true hv), if_neg (by rwa [decide_eq_true_eq, not_not])]
      change foldlM (p.addTerm c') ⟨i, ts ++ [c], s⟩ l = _
      rw [ih, append_assoc, singleton_append]
    · rw [if_neg hv, if_neg (by rwa [decide_eq_true_eq]), if_pos (decide_eq_true hv), List.map_cons,
        List.sum_cons, ← sub_sub]
      exact ih ts _

end

structure Tabulates (p : AssignmentProblem) (counts : ObjectCounts) : Prop where
  within : Within p.containers counts
  sets : ∀ i ∈ counts, ∃ o < p.numObjects, p.setOf o = i

theorem Tabulates.write {cs : ObjectCounts} (h : p.Tabulates cs) (hc : c ∈ p.containers)
    (hi : ∃ o < p.numObjects, p.setOf o = i) (n : Nat) : p.Tabulates (cs.write i c n) := by
  constructor
  · exact h.within.write hc i n
  · intro j hj
    rcases mem_write.mp hj with rfl | hj
    · exact hi
    · exact h.sets j hj

theorem foldl_writeZero (l : List (ContainerId × ObjectId))
    (hl : ∀ x ∈ l, x.1 ∈ p.containers ∧ x.2 < p.numObjects) : ∀ counts : ObjectCounts,
    p.Tabulates counts → (∀ i c, counts.count i c = 0) →
    p.Tabulates (l.foldl (fun m x => m.write (p.setOf x.2) x.1 0) counts) ∧ (∀ i c, count
        (l.foldl (fun m x => m.write (p.setOf x.2) x.1 0) counts) i c = 0) ∧
      ∀ i, (i ∈ counts ∨ ∃ x ∈ l, p.setOf x.2 = i) →
        i ∈ l.foldl (fun m x => m.write (p.setOf x.2) x.1 0) counts := by
  induction l with
  | nil =>
    intro counts h hzero
    refine ⟨h, hzero, ?_⟩
    intro i hi
    rcases hi with hi | ⟨x, hx, -⟩
    · exact hi
    · cases hx
  | cons x l ih =>
    intro counts h hzero
    obtain ⟨hc, ho⟩ := hl x mem_cons_self
    have hn : ∀ i c, (counts.write (p.setOf x.2) x.1 0).count i c = 0 := by
      intro i c
      rw [count_write]
      split
      · rfl
      · exact hzero i c
    obtain ⟨ht, hcount, hmem⟩ := ih (fun y hy => hl y (mem_cons_of_mem _ hy)) _
      (h.write hc ⟨x.2, ho, rfl⟩ 0) hn
    refine ⟨ht, hcount, ?_⟩
    intro i hi
    apply hmem
    rcases hi with hi | ⟨y, hy, hyi⟩
    · exact .inl (mem_write.mpr (.inr hi))
    · rcases mem_cons.mp hy with rfl | hy
      · exact .inl (mem_write.mpr (.inl hyi.symm))
      · exact .inr ⟨y, hy, hyi⟩

def countOne (p : AssignmentProblem) (context : LpContext) (counts : ObjectCounts)
    (x : ContainerId × ObjectId) : ObjectCounts :=
  if x.1 ∉ context.dynamicContainers ∨ p.setOf x.2 ∉ context.dynamicEquivSets then
    counts.write (p.setOf x.2) x.1 (counts.count (p.setOf x.2) x.1 + 1) else counts

theorem count_countOne (cs : ObjectCounts) (x : ContainerId × ObjectId) (i : EquivalenceSetId)
    (c : ContainerId) : (p.countOne context cs x).count i c = cs.count i c +
      if x.1 = c ∧ p.setOf x.2 = i ∧ ¬ context.HasVariable i c then 1 else 0 := by
  rw [countOne]
  split
  · rename_i hf
    rw [count_write]
    by_cases hx : x.1 = c ∧ p.setOf x.2 = i
    · obtain ⟨rfl, rfl⟩ := hx
      rw [if_pos ⟨rfl, rfl⟩, if_pos ⟨rfl, rfl, fun hv => hf.elim (· hv.1) (· hv.2)⟩]
    · rw [if_neg fun h => hx ⟨h.2.symm, h.1.symm⟩, if_neg fun h => hx ⟨h.1, h.2.1⟩, Nat.add_zero]
  · rename_i hvariable
    rw [not_or, not_not, not_not] at hvariable
    rw [if_neg, Nat.add_zero]
    rintro ⟨rfl, rfl, hn⟩
    exact hn hvariable

theorem foldl_countOne (context : LpContext) (l : List (ContainerId × ObjectId))
    (hl : ∀ x ∈ l, x.1 ∈ p.containers ∧ x.2 < p.numObjects) : ∀ counts : ObjectCounts,
    p.Tabulates counts → p.Tabulates (l.foldl (p.countOne context) counts) ∧
      (∀ i c, (l.foldl (p.countOne context) counts).count i c = counts.count i c +
        if context.HasVariable i c then 0
        else (l.filter fun x => x.1 = c ∧ p.setOf x.2 = i).length) ∧
      ∀ i ∈ counts, i ∈ l.foldl (p.countOne context) counts := by
  induction l with
  | nil =>
    intro counts h
    refine ⟨h, ?_, fun i hi => hi⟩
    intro i c
    rw [filter_nil, length_nil, ite_self]
    rfl
  | cons x l ih =>
    intro counts h
    obtain ⟨hc, ho⟩ := hl x mem_cons_self
    have hn : p.Tabulates (p.countOne context counts x) := by
      rw [countOne]
      split
      · exact h.write hc ⟨x.2, ho, rfl⟩ _
      · exact h
    obtain ⟨ht, hcount, hmem⟩ := ih (fun y hy => hl y (mem_cons_of_mem _ hy)) _ hn
    refine ⟨ht, ?_, ?_⟩
    · intro i c
      rw [List.foldl_cons, hcount, count_countOne, List.filter_cons]
      by_cases hv : context.HasVariable i c
      · rw [if_pos hv, if_pos hv, if_neg fun hx => hx.2.2 hv]
      · rw [if_neg hv, if_neg hv]
        by_cases hx : x.1 = c ∧ p.setOf x.2 = i
        · rw [if_pos ⟨hx.1, hx.2, hv⟩, if_pos (decide_eq_true hx), length_cons]
          omega
        · rw [if_neg fun h => hx ⟨h.1, h.2.1⟩, if_neg (by rwa [decide_eq_true_eq]), Nat.add_zero]
    · intro i hi
      apply hmem
      rw [countOne]
      split
      · exact mem_write.mpr (.inr hi)
      · exact hi

theorem foldl_writeVariable (s' : Solution) (l : List (EquivalenceSetId × ContainerId))
    (hl : ∀ x ∈ l, x.2 ∈ p.containers ∧ ∃ o < p.numObjects, p.setOf o = x.1) :
    ∀ counts : ObjectCounts, p.Tabulates counts → p.Tabulates (l.foldl (writeVariable s') counts) ∧
      (∀ i c, (l.foldl (writeVariable s') counts).count i c =
        if (i, c) ∈ l then (round (s' i c)).toNat else counts.count i c) ∧
      ∀ i ∈ counts, i ∈ l.foldl (writeVariable s') counts := by
  induction l with
  | nil =>
    intro counts h
    refine ⟨h, ?_, fun i hi => hi⟩
    intro i c
    rfl
  | cons x l ih =>
    intro counts h
    obtain ⟨hc, hs⟩ := hl x mem_cons_self
    obtain ⟨ht, hcount, hmem⟩ := ih (fun y hy => hl y (mem_cons_of_mem _ hy)) _
      (h.write hc hs (round (s' x.1 x.2)).toNat)
    refine ⟨ht, ?_, ?_⟩
    · intro i c
      rw [foldl_cons, writeVariable, hcount, count_write]
      by_cases hin : (i, c) ∈ l
      · rw [if_pos hin, if_pos (mem_cons_of_mem _ hin)]
      · rw [if_neg hin]
        by_cases hx : i = x.1 ∧ c = x.2
        · rw [if_pos hx, if_pos (List.mem_cons.mpr (.inl (Prod.ext hx.1 hx.2))), hx.1, hx.2]
        · rw [if_neg hx, if_neg]
          intro h
          rcases mem_cons.mp h with heq | h
          · exact hx (Prod.mk.inj (heq.trans (Prod.eta x).symm))
          · exact hin h
    · intro i hi
      exact hmem i (mem_write.mpr (.inr hi))

end AssignmentProblem

theorem LpContext.mem_lpVars {c' : LpContext} : (i, c) ∈ c'.lpVars ↔ c'.HasVariable i c := by
  rw [lpVars, mem_flatMap]
  constructor
  · intro ⟨j, hj, h⟩
    obtain ⟨d, hd, heq⟩ := List.mem_map.mp h
    cases heq
    exact ⟨hd, hj⟩
  · intro h
    exact ⟨i, h.2, mem_map_of_mem h.1⟩

namespace AssignmentProblem
variable {p : AssignmentProblem} {context : LpContext} {s : Solution}

structure Fitting (p : AssignmentProblem) (context : LpContext) : Prop where
  containers : ∀ c ∈ context.dynamicContainers, c ∈ p.containers
  sets : ∀ i ∈ context.dynamicEquivSets, ∃ o < p.numObjects, p.setOf o = i

theorem lpContext_ok (p : AssignmentProblem) (cs : IdSet) (hc : ∀ c ∈ cs, c ∈ p.containers) :
    ∃ context, p.lpContext cs = .ok context ∧
      context.dynamicContainers = cs ∧ p.Fitting context := by
  have hlt : ∀ o ∈ cs.elems.flatMap fun c =>
      (p.assignment.getDynamicObjects c).elems, o < p.numObjects := by
    intro o ho
    obtain ⟨c, -, ho⟩ := mem_flatMap.mp ho
    exact (p.known o c ((p.consistent.dynamic o c).mp ho).2).1
  have hr : p.getDynamicEquivalentSets cs = .ok _ :=
    foldlM_eq_foldl (g := fun sets o => sets.insert (p.setOf o)) (by
      intro o ho acc
      rw [setAt_eq (hlt o ho), except_ok_bind]) _
  rw [lpContext, hr]
  refine ⟨_, rfl, rfl, hc, ?_⟩
  refine foldlRecOn (motive := fun acc : IdSet => ∀ i ∈ acc, ∃ o < p.numObjects, p.setOf o = i)
    _ _ ?_ ?_
  · exact nofun
  · intro acc ha o ho i hi
    rcases IdSet.mem_insert.mp hi with rfl | hi
    · exact ⟨o, hlt o ho, rfl⟩
    · exact ha i hi

theorem newEquivSetToContMap_ok (hf : p.Fitting context) (s : Solution) :
    ∃ counts, p.newEquivSetToContMap context s = .ok counts ∧ Within p.containers counts ∧
      (∀ i, i ∈ counts ↔ ∃ o < p.numObjects, p.setOf o = i) ∧
      ∀ i c, counts.count i c = if context.HasVariable i c then (round (s i c)).toNat
        else p.assignment.countOn p.equivalenceSets i c := by
  have hinitial : ∀ x ∈ p.initialAssignment.located, x.1 ∈ p.containers ∧ x.2 < p.numObjects := by
    intro x hx
    exact ⟨container_mem hx, (p.initial_objects x.2).mp (mem_located.mp ⟨x.1, hx⟩)⟩
  have hcurrent : ∀ x ∈ p.assignment.located, x.1 ∈ p.containers ∧ x.2 < p.numObjects := by
    intro x hx
    exact (p.known x.2 x.1 ((mem_located p.consistent).mp hx)).symm
  have hvars : ∀ x ∈ context.lpVars, x.2 ∈ p.containers ∧ ∃ o < p.numObjects, p.setOf o = x.1 := by
    intro x hx
    obtain ⟨hc, hi⟩ := LpContext.mem_lpVars.mp hx
    exact ⟨hf.containers x.2 hc, hf.sets x.1 hi⟩
  have he : p.Tabulates ∅ := ⟨nofun, nofun⟩
  obtain ⟨ht₁, hc₁, hm₁⟩ := foldl_writeZero p.initialAssignment.located hinitial ∅ he fun _ _ => rfl
  obtain ⟨ht₂, hc₂, hm₂⟩ := foldl_countOne context p.assignment.located hcurrent _ ht₁
  obtain ⟨ht₃, hc₃, hm₃⟩ := foldl_writeVariable s context.lpVars hvars _ ht₂
  refine ⟨_, ?_, ht₃.within, ?_, ?_⟩
  · rw [newEquivSetToContMap, foldlM_eq_foldl (g := fun m x => m.write (p.setOf x.2) x.1 0),
      except_ok_bind, foldlM_eq_foldl (g := p.countOne context), except_ok_bind]
    · intro x hx counts
      rw [countFixed, setAt_eq (hcurrent x hx).2, except_ok_bind, countOne]
    · intro x hx counts
      rw [writeZero, setAt_eq (hinitial x hx).2, except_ok_bind]
  · intro i
    constructor
    · exact ht₃.sets i
    · intro ⟨o, ho, hi⟩
      obtain ⟨c, hc⟩ := mem_located.mpr ((p.initial_objects o).mpr ho)
      exact hm₃ i (hm₂ i (hm₁ i (.inr ⟨(c, o), hc, hi⟩)))
  · intro i c
    rw [hc₃, hc₂, hc₁, Nat.zero_add]
    by_cases hv : context.HasVariable i c
    · rw [if_pos (LpContext.mem_lpVars.mpr hv), if_pos hv]
    · rw [if_neg fun h => hv (LpContext.mem_lpVars.mp h), if_neg hv, if_neg hv, length_located]

end AssignmentProblem

end Rebalancer
