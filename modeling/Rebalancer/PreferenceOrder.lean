import Rebalancer.AssignmentCaches

namespace Rebalancer
open List Nat AList
variable {l : List α}

/-- A strict order need not be total: it is enough that it compares the entries of the list. -/
theorem pairwise_insertionSort_of_comparable {r : α → α → Prop} [DecidableRel r]
    (ht : ∀ a b c, r a b → r b c → r a c) (hl : l.Pairwise fun a b => r a b ∨ r b a) :
    (l.insertionSort r).Pairwise r := by
  induction l with
  | nil => exact .nil
  | cons a l ih =>
    obtain ⟨ha, hl⟩ := pairwise_cons.mp hl
    apply pairwise_orderedInsert ht (ih hl)
    intro b hb
    exact ha b ((mem_insertionSort r).mp hb)

namespace ObjectToContainerAssignmentUtils

def appearances (groups : List IdSet) (c q : ContainerId) : Nat :=
  (groups.filter fun group => c ∈ group).countP fun group => q ∈ group

def bump (counts : AssocMap ContainerId Nat) (groupMember : ContainerId) :
    AssocMap ContainerId Nat :=
  counts.insert groupMember (AssocMap.getD counts groupMember 0 + 1)

theorem foldl_bump (ms : List ContainerId) (q : ContainerId) : ∀ cs : AssocMap ContainerId Nat,
      AssocMap.getD (ms.foldl bump cs) q 0 = AssocMap.getD cs q 0 + ms.count q ∧
        (q ∈ ms.foldl bump cs ↔ q ∈ cs ∨ q ∈ ms) := by
  induction ms with
  | nil =>
    intro cs
    exact ⟨rfl, (or_iff_left not_mem_nil).symm⟩
  | cons m ms ih =>
    intro cs
    obtain ⟨hc, hmem⟩ := ih (bump cs m)
    rw [foldl_cons, hc, hmem, bump, mem_insert, mem_cons, count_cons]
    by_cases hq : q = m
    · subst hq
      rw [AssocMap.getD_insert_self, if_pos BEq.rfl]
      refine ⟨by omega, ?_⟩
      simp
    · rw [AssocMap.getD_insert_ne _ hq, if_neg (by simpa only [beq_iff_eq] using Ne.symm hq)]
      refine ⟨by omega, ?_⟩
      simp [hq]

theorem foldl_groups (gs : List IdSet) (q : ContainerId) : ∀ cs : AssocMap ContainerId Nat,
    AssocMap.getD (gs.foldl (fun cs group => group.elems.foldl bump cs) cs) q 0 =
        AssocMap.getD cs q 0 + gs.countP (fun group => q ∈ group) ∧
      (q ∈ gs.foldl (fun cs group => group.elems.foldl bump cs) cs ↔
        q ∈ cs ∨ ∃ group ∈ gs, q ∈ group) := by
  induction gs with
  | nil =>
    intro cs
    refine ⟨rfl, (or_iff_left ?_).symm⟩
    intro hex
    obtain ⟨group, hg, -⟩ := hex
    cases hg
  | cons group gs ih =>
    intro cs
    obtain ⟨hc, hmem⟩ := ih (group.elems.foldl bump cs)
    obtain ⟨hc', hm'⟩ := foldl_bump group.elems q cs
    rw [foldl_cons, hc, hmem, hc', hm', group.nodup.count, countP_cons]
    constructor
    · simp only [decide_eq_true_eq]
      change _ + (if q ∈ group then 1 else 0) + _ = _ + (_ + if q ∈ group then 1 else 0)
      omega
    · simp only [mem_cons, exists_eq_or_imp, or_assoc]
      rfl

theorem appearanceCount_entry (he : e ∈ (appearanceCount gs c).entries) :
    e.2 = appearances gs c e.1 := by
  have hc := (foldl_groups (gs.filter fun g => c ∈ g) e.1 ∅).1
  have hl := mem_lookup_iff.mpr he
  have hg : AssocMap.getD (appearanceCount gs c) e.1 0 = e.2 := by
    rw [AssocMap.getD, hl, Option.getD_some]
  rw [← hg]
  exact hc.trans (zero_add _)

theorem mem_getPreferredContainers : q ∈ getPreferredContainers rt gs c ↔
    ∃ group ∈ gs, c ∈ group ∧ q ∈ group := by
  rw [(getPreferredContainers_perm rt gs c).mem_iff]
  refine ((foldl_groups (gs.filter fun group => c ∈ group) q ∅).2.trans
    (or_iff_right (notMem_empty q))).trans ?_
  constructor
  · intro hex
    obtain ⟨group, hg, hq⟩ := hex
    obtain ⟨hg, hc⟩ := mem_filter.mp hg
    exact ⟨group, hg, of_decide_eq_true hc, hq⟩
  · intro hex
    obtain ⟨group, hg, hc, hq⟩ := hex
    exact ⟨group, mem_filter.mpr ⟨hg, decide_eq_true hc⟩, hq⟩

theorem appearsBefore_iff : appearsBefore lhs rhs = true ↔
    rhs.2 < lhs.2 ∨ lhs.2 = rhs.2 ∧ lhs.1 < rhs.1 := by
  rw [appearsBefore]
  split_ifs with h
  · rw [decide_eq_true_iff, h]
    constructor
    · intro hlt
      exact .inr ⟨rfl, hlt⟩
    · intro hor
      exact (hor.resolve_left (lt_irrefl _)).2
  · rw [decide_eq_true_iff]
    exact ⟨.inl, fun hor => hor.resolve_right fun hand => h hand.1⟩

theorem getPreferredContainers_sorted (rt : Runtime) (gs : List IdSet) (c : ContainerId) :
    (getPreferredContainers rt gs c).Pairwise fun q q' =>
      appearances gs c q' ≤ appearances gs c q := by
  rw [getPreferredContainers, pairwise_map]
  have hp := rt.order_perm (.appearanceCount c) (appearanceCount gs c).entries
  have hnodup : (rt.order (.appearanceCount c) (appearanceCount gs c).entries).Pairwise
      fun a b => appearsBefore a b = true ∨ appearsBefore b a = true := by
    have hk := (hp.map Sigma.fst).nodup_iff.mpr (appearanceCount gs c).keys_nodup
    rw [List.Nodup, pairwise_map] at hk
    refine hk.imp ?_
    intro a b hne
    rw [appearsBefore_iff, appearsBefore_iff]
    rcases lt_trichotomy a.2 b.2 with h | h | h
    · exact .inr (.inl h)
    · rcases lt_or_gt_of_ne hne with hlt | hgt
      · exact .inl (.inr ⟨h, hlt⟩)
      · exact .inr (.inr ⟨h.symm, hgt⟩)
    · exact .inl (.inl h)
  have hs := pairwise_insertionSort_of_comparable (r := fun a b => appearsBefore a b = true) (by
    intro x y z hxy hyz
    rw [appearsBefore_iff] at hxy hyz ⊢
    rcases hxy with hxy | hxy
    · rcases hyz with hyz | hyz
      · exact .inl (lt_trans hyz hxy)
      · exact .inl (hyz.1 ▸ hxy)
    · rcases hyz with hyz | hyz
      · exact .inl (hxy.1 ▸ hyz)
      · exact .inr ⟨hxy.1.trans hyz.1, lt_trans hxy.2 hyz.2⟩) hnodup
  refine hs.imp_of_mem ?_
  intro a b ha hb hab
  have hmem : ∀ e, e ∈ insertionSort (fun a b => appearsBefore a b = true)
      (rt.order (.appearanceCount c) (appearanceCount gs c).entries) →
      e.2 = appearances gs c e.1 :=
    fun e he => appearanceCount_entry (hp.mem_iff.mp ((mem_insertionSort _).mp he))
  rw [← hmem a ha, ← hmem b hb]
  rcases appearsBefore_iff.mp hab with h | h
  · exact le_of_lt h
  · exact le_of_eq h.1.symm

def Laminar (groups : List IdSet) : Prop := ∀ g ∈ groups, ∀ h ∈ groups,
    (∀ c ∈ g, c ∈ h) ∨ (∀ c ∈ h, c ∈ g) ∨ ∀ c ∈ g, c ∉ h

section
variable (h : Laminar groups) (hg : group ∈ groups) (hc : c ∈ group) (hq : q ∈ group)
  (hp : p ∉ group)
include h hg hc hq hp

theorem Laminar.appearances_lt : appearances groups c p < appearances groups c q := by
  have hsub : appearances groups c p =
      ((groups.filter fun o => c ∈ o).filter fun o => q ∈ o).countP fun o => p ∈ o := by
    rw [countP_filter (l := groups.filter fun o => c ∈ o), appearances]
    apply countP_congr
    intro o ho
    obtain ⟨ho, hco⟩ := mem_filter.mp ho
    rw [decide_eq_true_iff] at hco
    rw [Bool.and_eq_true, decide_eq_true_iff, decide_eq_true_iff, iff_self_and]
    intro hpo
    rcases h group hg o ho with hsub | hsub | hd
    · exact hsub q hq
    · exact absurd (hsub p hpo) hp
    · exact absurd hco (hd c hc)
  rw [hsub, appearances, countP_eq_length_filter (l := groups.filter fun o => c ∈ o)]
  refine countP_lt_length_iff.mpr ⟨group, ?_, by simpa using hp⟩
  exact mem_filter.mpr ⟨mem_filter.mpr ⟨hg, decide_eq_true hc⟩, decide_eq_true hq⟩

theorem Laminar.mem_before
    (hsp : getPreferredContainers rt groups c = visited ++ p :: rest) : q ∈ visited := by
  have hlt := h.appearances_lt hg hc hq hp
  have hmem : q ∈ getPreferredContainers rt groups c :=
    mem_getPreferredContainers.mpr ⟨group, hg, hc, hq⟩
  have hs := getPreferredContainers_sorted rt groups c
  rw [hsp, pairwise_append] at hs
  rw [hsp] at hmem
  rcases mem_append.mp hmem with hm | hm
  · exact hm
  · rcases mem_cons.mp hm with rfl | hm
    · exact absurd hq hp
    · have hle := (pairwise_cons.mp hs.2.1).1 q hm
      exact absurd hlt (Nat.not_lt_of_le hle)

end

structure Ranked (rank : ContainerId → Nat) (order : List IdSet) : Prop where
  same : ∀ group ∈ order, ∀ c ∈ group, ∀ d ∈ group, rank c = rank d
  sorted : order.Pairwise fun group group' => ∀ c ∈ group, ∀ d ∈ group', rank c < rank d

theorem Ranked.suffix (h : Ranked rank o) (hs : order' <:+ o) : Ranked rank order' :=
  ⟨fun g hg => h.same g (hs.mem hg), h.sorted.sublist hs.sublist⟩

theorem Ranked.head_le (h : Ranked rank (g :: o)) (hc : c ∈ g)
    (hg : g' ∈ g :: o) (hd : d ∈ g') : rank c ≤ rank d := by
  rcases mem_cons.mp hg with rfl | hg
  · exact le_of_eq (h.same g' mem_cons_self c hc d hd)
  · exact le_of_lt ((pairwise_cons.mp h.sorted).1 g' hg c hc d hd)

theorem Ranked.unique (h : Ranked rank o) (hg : g ∈ o) (hg' : group' ∈ o)
    (hc : c ∈ g) (hd : d ∈ group') (he : rank c = rank d) : g = group' := by
  induction o with
  | nil => cases hg
  | cons head o ih =>
    obtain ⟨hh, ht⟩ := pairwise_cons.mp h.sorted
    rcases mem_cons.mp hg with rfl | hmem
    · rcases mem_cons.mp hg' with rfl | hm'
      · rfl
      · exact absurd he (Nat.ne_of_lt (hh group' hm' c hc d hd))
    · rcases mem_cons.mp hg' with rfl | hm'
      · exact absurd he (ne_of_gt (hh g hmem d hd c hc))
      · exact ih (h.suffix (suffix_cons _ _)) hmem hm'

def smallestGroupSize (groups : List IdSet) (c : ContainerId) : Nat :=
  AssocMap.getD (sourceOrderOf groups).containerToGroupSize c 0

theorem smallestGroupSize_le (hg : g ∈ gs) (hc : c ∈ g) : smallestGroupSize gs c ≤ g.size := by
  obtain ⟨size, hl, hle⟩ := (sourceOrderOf_filed gs).least c g.size
    (mem_visitsOf.mpr ⟨g, hg, hc, rfl⟩)
  rw [smallestGroupSize, AssocMap.getD, hl, Option.getD_some]
  exact hle

theorem exists_smallestGroup (hg : g ∈ gs) (hc : c ∈ g) :
    ∃ smallest ∈ gs, c ∈ smallest ∧ smallest.size = smallestGroupSize gs c := by
  obtain ⟨size, hl, -⟩ := (sourceOrderOf_filed gs).least c g.size
    (mem_visitsOf.mpr ⟨g, hg, hc, rfl⟩)
  have hv := (sourceOrderOf_filed gs).attained c size hl
  rw [smallestGroupSize, AssocMap.getD, hl, Option.getD_some]
  exact mem_visitsOf.mp hv

theorem sourceOrderOf_ranked (gs : List IdSet) :
    Ranked (smallestGroupSize gs) (sourceOrderOf gs).groups := by
  have hf := sourceOrderOf_filed gs
  have hr : ∀ size c, c ∈ AssocMap.getD (sourceOrderOf gs).stableGroupSizeToContainers size
      .empty → smallestGroupSize gs c = size := by
    intro size c hc
    rw [smallestGroupSize, AssocMap.getD, (hf.bucket c size).mp hc, Option.getD_some]
  constructor
  · intro g hg c hc d hd
    obtain ⟨size, -, rfl⟩ := mem_map.mp (mem_filter.mp hg).1
    rw [hr size c hc, hr size d hd]
  · rw [SourceOrder.groups]
    apply List.Pairwise.filter
    rw [pairwise_map]
    refine hf.sorted.imp ?_
    intro size s' hlt c hc d hd
    rw [hr size c hc, hr s' d hd]
    exact hlt

end ObjectToContainerAssignmentUtils

end Rebalancer
