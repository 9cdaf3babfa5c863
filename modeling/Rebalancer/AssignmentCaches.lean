import Rebalancer.PreferredCounts

namespace Rebalancer
open List AList AssocMap
variable {order : SourceOrder}
variable {utils : ObjectToContainerAssignmentUtils}

theorem pairwise_orderedInsert {l : List α} {r : α → α → Prop} [DecidableRel r]
    (ht : ∀ a b c, r a b → r b c → r a c) (hl : l.Pairwise r)
    (ha : ∀ b ∈ l, r a b ∨ r b a) : (l.orderedInsert r a).Pairwise r := by
  induction l with
  | nil => exact pairwise_singleton r a
  | cons b l ih =>
    obtain ⟨hb, hl'⟩ := pairwise_cons.mp hl
    rw [orderedInsert_cons]
    split_ifs with hab
    · refine pairwise_cons.mpr ⟨?_, hl⟩
      intro x hx
      rcases mem_cons.mp hx with rfl | hx
      · exact hab
      · exact ht a b x hab (hb x hx)
    · refine pairwise_cons.mpr ⟨?_, ih hl' fun x hx => ha x (mem_cons_of_mem _ hx)⟩
      intro x hx
      rcases (mem_orderedInsert _).mp hx with rfl | hx
      · exact (ha b mem_cons_self).resolve_left hab
      · exact hb x hx

namespace ObjectToContainerAssignmentUtils

namespace SourceOrder

def Saved (order : SourceOrder) (c : ContainerId) : Prop :=
  ∃ size, order.containerToGroupSize.lookup c = some size ∧
    c ∈ AssocMap.getD order.stableGroupSizeToContainers size .empty ∧ size ∈ order.groupSizes

def Valid (order : SourceOrder) : Prop := ∀ c ∈ order.containerToGroupSize, order.Saved c

/-- After the visits, every container is in the bucket of the least size it was visited with. -/
structure Filed (visits : List (Nat × ContainerId)) (order : SourceOrder) : Prop where
  bucket : ∀ c size, c ∈ getD order.stableGroupSizeToContainers size .empty ↔
    order.containerToGroupSize.lookup c = some size
  attained : ∀ c size, order.containerToGroupSize.lookup c = some size → (size, c) ∈ visits
  least : ∀ c size, (size, c) ∈ visits →
    ∃ size', order.containerToGroupSize.lookup c = some size' ∧ size' ≤ size
  sizes : ∀ c size, order.containerToGroupSize.lookup c = some size → size ∈ order.groupSizes
  sorted : order.groupSizes.Pairwise (· < ·)

theorem mem_save_bucket (o : SourceOrder) (s : Nat) (c d : ContainerId) (size : Nat) :
    d ∈ getD (o.save s c).stableGroupSizeToContainers size .empty ↔
      d ∈ getD o.stableGroupSizeToContainers size .empty ∨ size = s ∧ d = c := by
  change d ∈ getD (o.stableGroupSizeToContainers.insert s _) size .empty ↔ _
  by_cases hs : size = s
  · subst hs
    rw [getD_insert_self, IdSet.mem_insert, or_comm, and_iff_right rfl]
  · rw [getD_insert_ne _ hs, or_iff_left fun h => hs h.1]

theorem Filed.save {o o' : SourceOrder} (h : o.Filed vs)
    (ho : o'.containerToGroupSize = o.containerToGroupSize)
    (hb : ∀ d size, d ≠ c → (d ∈ getD o'.stableGroupSizeToContainers size .empty ↔
      d ∈ getD o.stableGroupSizeToContainers size .empty))
    (hse : ∀ size, c ∈ getD o'.stableGroupSizeToContainers size .empty → size = groupSize)
    (hm : ∀ size, (size, c) ∈ vs → groupSize ≤ size)
    (hsi : ∀ size ∈ o.groupSizes, size ∈ o'.groupSizes)
    (hsize : groupSize ∈ o'.groupSizes) (hs : o'.groupSizes.Pairwise (· < ·)) :
    (o'.save groupSize c).Filed (vs ++ [(groupSize, c)]) := by
  have hl : ∀ d, d ≠ c → (o'.save groupSize c).containerToGroupSize.lookup d =
      o.containerToGroupSize.lookup d := fun d hd => ho ▸ lookup_insert_ne hd
  have hn : (o'.save groupSize c).containerToGroupSize.lookup c = some groupSize := lookup_insert _
  refine ⟨?_, ?_, ?_, ?_, hs⟩
  · intro d size
    rw [mem_save_bucket]
    by_cases hd : d = c
    · subst hd
      rw [hn, Option.some.injEq, and_iff_left rfl]
      constructor
      · intro h
        rcases h with h | h
        · exact (hse size h).symm
        · exact h.symm
      · intro h
        exact .inr h.symm
    · rw [hl d hd, hb d size hd, h.bucket, or_iff_left fun h => hd h.2]
  · intro d size hv
    by_cases hd : d = c
    · subst hd
      rw [hn] at hv
      cases hv
      exact mem_append_right _ mem_cons_self
    · rw [hl d hd] at hv
      exact mem_append_left _ (h.attained d size hv)
  · intro d size hv
    by_cases hd : d = c
    · subst hd
      refine ⟨groupSize, hn, ?_⟩
      rcases mem_append.mp hv with hv | hv
      · exact hm size hv
      · rw [mem_singleton] at hv
        cases hv
        exact le_refl _
    · rw [hl d hd]
      rcases mem_append.mp hv with hv | hv
      · exact h.least d size hv
      · rw [mem_singleton] at hv
        cases hv
        exact absurd rfl hd
  · intro d size hv
    by_cases hd : d = c
    · subst hd
      rw [hn] at hv
      cases hv
      exact hsize
    · rw [hl d hd] at hv
      exact hsi size (h.sizes d size hv)

theorem sorted_insert {ss : List Nat} (h : ss.Pairwise (· < ·)) (hn : n ∉ ss) :
    (ss.orderedInsert (· ≤ ·) n).Pairwise (· < ·) := by
  have hle := pairwise_orderedInsert (r := (· ≤ ·)) (fun _ _ _ hab hbc => le_trans hab hbc)
      (h.imp fun hab => le_of_lt hab) fun b _ => le_total n b
  have hne : (ss.orderedInsert (· ≤ ·) n).Nodup := (perm_orderedInsert _ n ss).nodup_iff.mpr
      (nodup_cons.mpr ⟨hn, h.imp Nat.ne_of_lt⟩)
  exact (hle.and hne).imp fun hab => lt_of_le_of_ne hab.1 hab.2

theorem Filed.visit {o : SourceOrder} (h : o.Filed vs) (groupSize : Nat)
    (c : ContainerId) : (o.visit groupSize c).Filed (vs ++ [(groupSize, c)]) := by
  let sized : SourceOrder := { o with
    groupSizes := if groupSize ∈ o.groupSizes then o.groupSizes
      else o.groupSizes.orderedInsert (· ≤ ·) groupSize }
  have hsizes : (∀ size ∈ o.groupSizes, size ∈ sized.groupSizes) ∧
      groupSize ∈ sized.groupSizes ∧ sized.groupSizes.Pairwise (· < ·) := by
    change (∀ size ∈ o.groupSizes, size ∈ ite _ _ _) ∧ groupSize ∈ ite _ _ _ ∧
      List.Pairwise (· < ·) (ite _ _ _)
    split_ifs with hmem
    · exact ⟨fun size hs => hs, hmem, h.sorted⟩
    · exact ⟨fun size hs => (mem_orderedInsert _).mpr (.inr hs),
        (mem_orderedInsert _).mpr (.inl rfl), sorted_insert h.sorted hmem⟩
  rw [SourceOrder.visit]
  cases hc : o.containerToGroupSize.lookup c with
  | none =>
    refine h.save rfl (fun _ _ _ => Iff.rfl) ?_ ?_ hsizes.1 hsizes.2.1 hsizes.2.2
    · intro size hs
      have hl := (h.bucket c size).mp hs
      rw [hc] at hl
      cases hl
    · intro size hs
      obtain ⟨s', hl, -⟩ := h.least c size hs
      rw [hc] at hl
      cases hl
  | some old =>
    have hmin : ∀ size, (size, c) ∈ vs → old ≤ size := by
      intro size hs
      obtain ⟨s', hl, hle⟩ := h.least c size hs
      rw [hc] at hl
      cases hl
      exact hle
    have hself : ∀ size, c ∈ getD o.stableGroupSizeToContainers size .empty → size = old := by
      intro size hs
      have hl := (h.bucket c size).mp hs
      rw [hc] at hl
      exact (Option.some.inj hl).symm
    simp only
    split
    · rename_i hgt
      have herase : ∀ d size, d ∈ getD (sized.stableGroupSizeToContainers.insert old
          ((getD sized.stableGroupSizeToContainers old .empty).erase c)) size .empty ↔
          d ∈ getD o.stableGroupSizeToContainers size .empty ∧ d ≠ c := by
        intro d size
        by_cases hs : size = old
        · subst hs
          rw [getD_insert_self]
          exact (List.Nodup.mem_erase_iff (IdSet.nodup _)).trans and_comm
        · rw [getD_insert_ne _ hs]
          refine (and_iff_left_of_imp ?_).symm
          intro hd he
          rw [he] at hd
          exact hs (hself size hd)
      refine h.save rfl ?_ ?_ (fun size hs => (le_of_lt hgt).trans (hmin size hs))
        hsizes.1 hsizes.2.1 hsizes.2.2
      · intro d size hd
        rw [herase, and_iff_left hd]
      · intro size hs
        exact absurd rfl ((herase c size).mp hs).2
    · split
      · rename_i hlt
        refine ⟨h.bucket, fun d size hd => mem_append_left _ (h.attained d size hd), ?_,
          fun d size hd => hsizes.1 size (h.sizes d size hd), hsizes.2.2⟩
        intro d size hd
        rcases mem_append.mp hd with hd | hd
        · exact h.least d size hd
        · rw [mem_singleton] at hd
          cases hd
          exact ⟨old, hc, le_of_lt hlt⟩
      · have heq : old = groupSize := by omega
        subst heq
        exact h.save rfl (fun _ _ _ => Iff.rfl) hself hmin hsizes.1 hsizes.2.1 hsizes.2.2

theorem Filed.valid (h : order.Filed vs) : order.Valid := by
  intro c hc
  obtain ⟨size, hs⟩ := mem_iff_lookup.mp hc
  exact ⟨size, hs, (h.bucket c size).mpr hs, h.sizes c size hs⟩

end SourceOrder

def visitsOf (groups : List IdSet) : List (Nat × ContainerId) :=
  groups.flatMap fun group => group.elems.map fun c => (group.size, c)

theorem mem_visitsOf {size : Nat} :
    (size, c) ∈ visitsOf gs ↔ ∃ group ∈ gs, c ∈ group ∧ group.size = size := by
  rw [visitsOf, mem_flatMap]
  constructor
  · intro h
    obtain ⟨group, hg, hm⟩ := h
    obtain ⟨d, hd, he⟩ := mem_map.mp hm
    cases he
    exact ⟨group, hg, hd, rfl⟩
  · intro h
    obtain ⟨group, hg, hc, hs⟩ := h
    exact ⟨group, hg, mem_map.mpr ⟨c, hc, by rw [hs]⟩⟩

theorem sourceOrderOf_filed (gs : List IdSet) : (sourceOrderOf gs).Filed (visitsOf gs) := by
  have hf : sourceOrderOf gs = (visitsOf gs).foldl (fun o v => o.visit v.1 v.2) ⟨∅, ∅, []⟩ := by
    rw [visitsOf, foldl_flatMap, sourceOrderOf]
    congr 1
    funext o group
    rw [foldl_map]
  rw [hf]
  refine foldl_rule (P := SourceOrder.Filed) (fun v _ _ _ h => h.visit v.1 v.2) [] _
    ⟨?_, ?_, ?_, ?_, .nil⟩
  · intro c size
    exact iff_of_false not_mem_nil nofun
  · intro c size h
    cases h
  · intro c size h
    cases h
  · intro c size h
    cases h

theorem mem_sourceOrder (hg : g ∈ gs) (hc : c ∈ g) :
    ∃ containers ∈ (sourceOrderOf gs).groups, c ∈ containers := by
  have hf := sourceOrderOf_filed gs
  obtain ⟨_, hl, -⟩ := hf.least c g.size (mem_visitsOf.mpr ⟨g, hg, hc, rfl⟩)
  obtain ⟨size, -, hb, hsize⟩ := hf.valid c (mem_iff_lookup.mpr ⟨_, hl⟩)
  refine ⟨_, mem_filter.mpr ⟨mem_map.mpr ⟨size, hsize, rfl⟩, ?_⟩, hb⟩
  exact decide_eq_true (Nat.ne_of_gt (length_pos_of_mem hb))

section
variable (rt : Runtime) (gs : List IdSet) (c : ContainerId)

theorem getPreferredContainers_perm :
    (getPreferredContainers rt gs c).Perm (appearanceCount gs c).keys :=
  ((perm_insertionSort _ _).trans (rt.order_perm _ _)).map Sigma.fst

theorem getPreferredContainers_nodup : (getPreferredContainers rt gs c).Nodup :=
  (getPreferredContainers_perm rt gs c).nodup_iff.mpr (appearanceCount gs c).keys_nodup

end

theorem mem_group_of_preferred (h : getPreferredContainers rt gs c ≠ []) :
    ∃ group ∈ gs, c ∈ group := by
  by_contra hnone
  apply h
  have hf : gs.filter (fun group => c ∈ group) = [] := by
    apply filter_eq_nil_iff.mpr
    intro group hg hc
    exact hnone ⟨group, hg, of_decide_eq_true hc⟩
  have hp := getPreferredContainers_perm rt gs c
  rw [appearanceCount, hf] at hp
  exact perm_nil.mp hp

def Preferences.PreferredBy (p : Preferences) (c q : ContainerId) : Prop :=
  ∃ containers, p.preferredContainerToContainers.lookup q = some containers ∧ c ∈ containers

theorem foldl_reverse (c : ContainerId) (l : List ContainerId) : ∀ r : AssocMap ContainerId IdSet,
    (∃ containers, (l.foldl (fun r preferred => r.insert preferred
        ((AssocMap.getD r preferred .empty).insert c)) r).lookup q = some containers ∧
      d ∈ containers) ↔
    (∃ containers, r.lookup q = some containers ∧ d ∈ containers) ∨ d = c ∧ q ∈ l := by
  induction l with
  | nil =>
    intro r
    exact (or_iff_left fun h => not_mem_nil h.2).symm
  | cons x l ih =>
    intro r
    rw [foldl_cons, ih]
    by_cases hq : q = x
    · subst hq
      simp only [lookup_insert, Option.some.injEq, exists_eq_left', IdSet.mem_insert,
        mem_cons, true_or, and_true]
      rw [mem_getD IdSet.notMem_empty]
      constructor
      · rintro ((h | h) | h)
        · exact .inr h
        · exact .inl h
        · exact .inr h.1
      · rintro (h | h)
        · exact .inl (.inr h)
        · exact .inl (.inl h)
    · rw [lookup_insert_ne hq, mem_cons, or_iff_right hq]

structure Preferences.Built (rt : Runtime) (groups : List IdSet) (p : Preferences) : Prop where
  preferred : ∀ c preferred, p.containerToPreferredContainers.lookup c = some preferred →
    preferred = getPreferredContainers rt groups c ∧ preferred ≠ []
  reverse : ∀ c q, p.PreferredBy c q ↔
    ∃ preferred, p.containerToPreferredContainers.lookup c = some preferred ∧ q ∈ preferred

theorem Preferences.Built.new (rt : Runtime) (gs : List IdSet) :
    Preferences.Built rt gs ⟨∅, ∅⟩ := by
  refine ⟨nofun, fun c q => iff_of_false ?_ ?_⟩
  · intro hc
    obtain ⟨_, hc, -⟩ := hc
    cases hc
  · intro hc
    obtain ⟨_, hc, -⟩ := hc
    cases hc

theorem Preferences.Built.visit {p : Preferences} (h : p.Built rt groups) (c : ContainerId) :
    (p.visit rt groups c).Built rt groups := by
  rw [Preferences.visit]
  split_ifs with hl
  · exact h
  · constructor
    · exact forall_lookup_insert ⟨rfl, fun hn => hl (length_eq_zero_iff.mpr hn)⟩ h.preferred
    · intro d q
      refine (foldl_reverse c (getPreferredContainers rt groups c)
        p.preferredContainerToContainers).trans ?_
      change p.PreferredBy d q ∨ _ ↔ _
      rw [h.reverse d q]
      by_cases he : d = c
      · subst he
        simp only [lookup_insert, Option.some.injEq, exists_eq_left', true_and]
        refine or_iff_right_of_imp ?_
        intro hold
        obtain ⟨preferred, hp, hq⟩ := hold
        rwa [← (h.preferred d preferred hp).1]
      · rw [lookup_insert_ne he, or_iff_left fun hc => he hc.1]

theorem Preferences.Built.foldl (cs : List ContainerId) : ∀ p : Preferences,
    p.Built rt groups → (cs.foldl (Preferences.visit rt groups) p).Built rt groups :=
  fun _ h => foldlRecOn _ _ h fun _ h c _ => h.visit c

theorem Preferences.Built.consistent {p : Preferences} (h : p.Built rt gs) :
    p.Consistent (sourceOrderOf gs).groups where
  nodup c preferred hc := by
    rw [(h.preferred c preferred hc).1]
    exact getPreferredContainers_nodup rt gs c
  nonempty c preferred hc := (h.preferred c preferred hc).2
  reverse c preferred hc q := by
    refine Iff.trans ?_ (h.reverse c q).symm
    simp [hc]
  source c hc := by
    obtain ⟨preferred, hp⟩ := mem_iff_lookup.mp hc
    obtain ⟨hpreferred, hne⟩ := h.preferred c preferred hp
    rw [hpreferred] at hne
    obtain ⟨g, hg, hm⟩ := mem_group_of_preferred hne
    exact mem_sourceOrder hg hm

structure Valid (utils : ObjectToContainerAssignmentUtils) : Prop where
  fresh : utils.containerToPreferredContainers = none →
    utils.preferredContainerToContainers = ∅ ∧ utils.sourceContainerOrder = none
  cached : ∀ preferred, utils.containerToPreferredContainers = some preferred →
    ∃ order, utils.sourceContainerOrder = some order ∧
      Preferences.Consistent ⟨preferred, utils.preferredContainerToContainers⟩ order

theorem Valid.new : Valid .new := ⟨fun _ => ⟨rfl, rfl⟩, nofun⟩

theorem Valid.addStableContainerGroup (h : utils.Valid)
    (cs : IdSet) : (utils.addStableContainerGroup cs).Valid :=
  ⟨h.fresh, h.cached⟩

theorem Valid.prepared (h : utils.Valid) (rt : Runtime) (cs : List ContainerId) :
    (utils.getContainerToPreferredContainers rt cs).1.Consistent
        (utils.getContainerToPreferredContainers rt cs).2.getSourceContainerOrder.1 ∧
      (utils.getContainerToPreferredContainers rt cs).2.getSourceContainerOrder.2.Valid := by
  cases hc : utils.containerToPreferredContainers with
  | some p =>
    obtain ⟨order, ho, hconsistent⟩ := h.cached p hc
    rw [getContainerToPreferredContainers, hc, getSourceContainerOrder, ho]
    exact ⟨hconsistent, h⟩
  | none =>
    obtain ⟨hr, ho⟩ := h.fresh hc
    rw [getContainerToPreferredContainers, hc, ho]
    have hb : (cs.foldl (Preferences.visit rt utils.stableContainerGroups)
        ⟨∅, utils.preferredContainerToContainers⟩).Built rt utils.stableContainerGroups := by
      apply Preferences.Built.foldl
      rw [hr]
      exact .new rt utils.stableContainerGroups
    refine ⟨hb.consistent, nofun, ?_⟩
    intro p hp
    cases hp
    exact ⟨_, rfl, hb.consistent⟩

end ObjectToContainerAssignmentUtils

end Rebalancer
