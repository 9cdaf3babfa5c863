import Rebalancer.StableGroups

namespace Rebalancer
open List hiding getD
open Option hiding getD

open ObjectToContainerAssignmentUtils AssocMap GreedyState AList AssignmentRequest SetState
    EquivalenceSets Nat

/-- A container outside the group is in a larger one and comes no later in the source order. -/
structure Crowd (groups : List IdSet) (g b : IdSet) (a c q : ContainerId) : Prop where
  inner : g ∈ groups
  outer : b ∈ groups
  nested : ∀ x ∈ g, x ∈ b
  filler : c ∈ g
  holder : q ∈ g
  distinct : c ≠ q
  outside : a ∉ g
  taker : a ∈ b
  rank : smallestGroupSize groups a ≤ smallestGroupSize groups c

theorem exists_ne_mem {g : IdSet} (h : 2 ≤ g.size) (c : ContainerId) : ∃ q ∈ g, c ≠ q := by
  by_contra hnone
  have hsub : ∀ x ∈ g.elems, x ∈ [c] := by
    intro x hx
    by_contra hne
    exact hnone ⟨x, hx, fun he => hne (mem_singleton.mpr he.symm)⟩
  exact not_succ_le_self 1 (le_trans h (g.nodup.subperm hsub).length_le)

theorem exists_crowd (h : ¬ Uncrowded gs) : ∃ g b a c q, Crowd gs g b a c q := by
  simp only [Uncrowded, not_forall, not_or, exists_prop] at h
  obtain ⟨b, hb, g, hg, e, he, hgb, heb, hd, hsize, hother⟩ := h
  have ht : 2 ≤ g.size := Nat.lt_of_not_le hsize
  obtain ⟨x, hx⟩ := exists_mem_of_length_pos (Nat.lt_of_lt_of_le Nat.zero_lt_two ht)
  obtain ⟨y, hy⟩ := exists_mem_of_length_pos (pos_of_ne_zero hother)
  rcases le_total (smallestGroupSize gs y) (smallestGroupSize gs x) with hle | hle
  · obtain ⟨q, hq, hne⟩ := exists_ne_mem ht x
    exact ⟨g, b, y, x, q, hg, hb, hgb, hx, hq, hne, fun hyg => hd y hyg hy, heb y hy, hle⟩
  · rcases lt_or_ge e.size 2 with ho | ht'
    · obtain ⟨q, hq, hne⟩ := exists_ne_mem ht x
      refine ⟨g, b, y, x, q, hg, hb, hgb, hx, hq, hne, fun hyg => hd y hyg hy, heb y hy, ?_⟩
      obtain ⟨smallest, -, hmem, hr⟩ := exists_smallestGroup hg hx
      rw [← hr]
      exact le_trans (smallestGroupSize_le he hy)
        (le_trans (le_of_lt_succ ho) (length_pos_of_mem hmem))
    · obtain ⟨q, hq, hne⟩ := exists_ne_mem ht' y
      exact ⟨e, b, x, y, q, he, hb, heb, hy, hq, hne, hd x hx, hgb x hx, hle⟩

theorem foldl_leastChoice_first (hl : ∀ d m, cs.lookup d = some m → n ≤ m)
    (l : List ContainerId) : l.foldl (leastChoice cs) (some (a, n)) = some (a, n) := by
  refine foldlRecOn (motive := fun best => best = some (a, n)) l _ rfl ?_
  rintro _ rfl d _
  rw [leastChoice]
  cases hd : cs.lookup d with
  | none => rfl
  | some m => exact if_neg (Int.not_lt.mpr (hl d m hd))

theorem pick_first (ha : cs.lookup a = some n)
    (hl : ∀ d m, cs.lookup d = some m → n ≤ m) (l : List ContainerId) :
    pickContainerToPlaceObjects cs (a :: l) = some a := by
  have hf : leastChoice cs none a = some (a, n) := by
    simp [leastChoice, ha]
  rw [pickContainerToPlaceObjects, foldl_cons, hf, foldl_leastChoice_first hl,
    map_some]

theorem GreedyState.assignPreferred_takes (hq : q ∈ p') : ∀ (s : GreedyState) (c : IdSet),
    s.objectCount a = 1 → s.initialObjects q = [o] → (∀ p ∈ p', p ≠ q → s.initialObjects p = []) →
    (assignPreferred a p' s c).1.objectToContainer.lookup o = some a := by
  induction p' with
  | nil => cases hq
  | cons p p' ih =>
    intro s c hc ho hothers
    let moved : GreedyState := { s with toSetState := s.assign a p }
    obtain ⟨hs, -, -⟩ := noteEmpty_frame p moved c
    by_cases hp : p = q
    · subst hp
      have ha : assignObjects a (s.objectCount a) (s.initialObjects p) s.objectToContainer =
          (0, [], s.objectToContainer.insert o a) := by
        rw [hc, ho]
        rfl
      have hzero : (noteEmpty p moved c).1.objectCount a = 0 := by
        rw [hs]
        change getD (s.containerToObjectCount.insert a _) a 0 = 0
        rw [getD_insert_self, ha]
      rw [assignPreferred, if_pos hzero]
      change (noteEmpty p moved c).1.objectToContainer.lookup o = some a
      rw [hs]
      change lookup o (assignObjects a (s.objectCount a) (s.initialObjects p)
        s.objectToContainer).2.2 = some a
      rw [ha]
      exact lookup_insert _
    · have ha : assignObjects a (s.objectCount a) (s.initialObjects p) s.objectToContainer =
          (1, [], s.objectToContainer) := by
        rw [hc, hothers p mem_cons_self hp]
        rfl
      have hone : (noteEmpty p moved c).1.objectCount a = 1 := by
        rw [hs]
        change getD (s.containerToObjectCount.insert a _) a 0 = 1
        rw [getD_insert_self, ha]
      rw [assignPreferred, if_neg (by rw [hone]; exact one_ne_zero)]
      refine ih ((mem_cons.mp hq).resolve_left (Ne.symm hp)) _ _ hone ?_ ?_
      · rw [initialObjects, hs]
        change getD (s.containerToInitialObjects.insert p _) q [] = [o]
        rw [getD_insert_ne _ (Ne.symm hp)]
        exact ho
      · intro x hx hne
        rw [hs]
        change getD (s.containerToInitialObjects.insert p _) x [] = []
        by_cases he : x = p
        · rw [he, getD_insert_self, ha]
        · rw [getD_insert_ne _ he]
          exact hothers x (mem_cons_of_mem _ hx) hne

structure Contested (groups : List IdSet) (a c q : ContainerId) (o : ObjectId) (s : SetState) :
    Prop where
  keys : ∀ x, x ∈ s.containerToObjectCount ↔ x = a ∨ x = c
  count : ∀ x ∈ s.containerToObjectCount, s.objectCount x = 1
  object : s.initialObjects q = [o]
  others : ∀ group ∈ groups, ∀ x ∈ group, x ≠ q → s.initialObjects x = []
  filled : ∀ x ∈ s.containerToInitialObjects, s.initialObjects x ≠ []

section
variable {rt : Runtime} {gs : List IdSet} {g b : IdSet} {a c q : ContainerId} {o : ObjectId}
  {s : SetState} {p : Preferences}

section
variable (h : Crowd gs g b a c q) (hs : Contested gs a c q o s)
include h hs

theorem Crowd.not_empty (hx : x ∈ s.containerToObjectCount) : x ∉ s.containerToInitialObjects := by
  intro hmem
  apply hs.filled x hmem
  rcases (hs.keys x).mp hx with rfl | rfl
  · exact hs.others b h.outer x h.taker fun he => h.outside (he ▸ h.holder)
  · exact hs.others b h.outer x (h.nested x h.filler) h.distinct

theorem Crowd.keepInPlace (l : List ContainerId) (hl : ∀ x ∈ l, x ∈ s.containerToObjectCount) :
    l.foldl SetState.keepInPlace s = s := by
  refine foldlRecOn (motive := fun t => t = s) l _ rfl ?_
  intro t ht x hx
  have hn : ¬ (x ∈ s.containerToInitialObjects ∧ x ∈ s.containerToObjectCount) :=
    fun hmem => h.not_empty hs (hl x hx) hmem.1
  have hc : ¬ s.objectCount x = 0 := by
    rw [hs.count x (hl x hx)]
    exact one_ne_zero
  simp [ht, SetState.keepInPlace, if_neg hn, if_neg hc]

end

theorem Contested.initiallyEmpty_eq (hs : Contested gs a c q o s) (rt : Runtime)
    (s' : EquivalenceSetId) : initiallyEmpty rt s' s.containerToInitialObjects = .empty := by
  refine foldlRecOn (motive := fun acc => acc = IdSet.empty) _ _ rfl ?_
  rintro _ rfl e he
  have hl := mem_lookup_iff.mpr ((rt.order_perm _ _).mem_iff.mp he)
  refine if_neg fun hn => hs.filled e.1 (mem_iff_lookup.mpr ⟨_, hl⟩) ?_
  rw [initialObjects, getD, hl, getD_some, hn]

theorem Contested.mem_start_counts (hs : Contested gs a c q o s) (rt : Runtime)
    (p : Preferences) (e : EquivalenceSetId) : d ∈ (start rt e p s).containerToPreferredCount ↔
      d ∈ p.containerToPreferredContainers ∧ (d = a ∨ d = c) := by
  have hnone : ∀ site, rt.order site IdSet.empty.elems = [] :=
    fun site => perm_nil.mp (rt.order_perm site [])
  have hstart : (start rt e p s).containerToPreferredCount =
      initialPreferredCount rt e p.containerToPreferredContainers s.containerToObjectCount := by
    change updatePreferredCount rt e _ _
      (initiallyEmpty rt e s.containerToInitialObjects) _ = _
    rw [hs.initiallyEmpty_eq, updatePreferredCount, hnone]
    rfl
  rw [hstart, mem_initialPreferredCount, hs.keys]

theorem choicesLeft_le (hl : Laminar gs) (hb : b ∈ gs) (ha : a ∈ b) (hc : c ∈ b)
    (rt : Runtime) (emptyContainers : IdSet) :
    choicesLeft (getPreferredContainers rt gs a) emptyContainers ≤
      choicesLeft (getPreferredContainers rt gs c) emptyContainers := by
  apply (((getPreferredContainers_nodup rt gs a).filter _).subperm ?_).length_le
  intro x hx
  obtain ⟨hx, he⟩ := mem_filter.mp hx
  obtain ⟨group, hg, hag, hxg⟩ := mem_getPreferredContainers.mp hx
  refine mem_filter.mpr ⟨mem_getPreferredContainers.mpr ?_, he⟩
  rcases hl group hg b hb with hsub | hsub | hd
  · exact ⟨b, hb, hc, hsub x hxg⟩
  · exact ⟨group, hg, hsub c hc, hxg⟩
  · exact absurd ha (hd a hag)

section
variable (h : Crowd gs g b a c q) (hl : Laminar gs) (hs : Contested gs a c q o s)
  (hp : Prepared rt gs p order)
include h hl hs hp

theorem Crowd.start_counts (e : EquivalenceSetId) :
    ∃ n, (start rt e p s).containerToPreferredCount.lookup a = some n ∧
      ∀ d m, (start rt e p s).containerToPreferredCount.lookup d = some m → n ≤ m := by
  have hc := start_counted rt e hp.consistent s
  have ha := (hs.mem_start_counts rt p e).mpr ⟨hp.listed b h.outer a h.taker, .inl rfl⟩
  obtain ⟨n, hn⟩ := mem_iff_lookup.mp ha
  refine ⟨n, hn, ?_⟩
  intro d m hm
  have hd := (hs.mem_start_counts rt p e).mp (mem_iff_lookup.mpr ⟨_, hm⟩)
  rcases hd.2 with rfl | rfl
  · rw [hn] at hm
    exact Int.le_of_eq (some.inj hm)
  · obtain ⟨-, preferred, hpreferred, rfl⟩ := hc a n hn
    obtain ⟨-, p', hp', rfl⟩ := hc d m hm
    rw [hp.preferred a preferred hpreferred, hp.preferred d p' hp']
    exact Int.ofNat_le.mpr (choicesLeft_le hl h.outer h.taker (h.nested d h.filler) rt _)

theorem Crowd.picked (hf : ∀ group ∈ order, a ∈ group → ∀ skipped, ∃ rest,
      rt.order (.sourceGroup e r skipped) group.elems = a :: rest)
    (hpi : Picked rt e p r order (start rt e p s) d o') : d = a := by
  obtain ⟨n, hn, hleast⟩ := h.start_counts hl hs hp e
  obtain ⟨hsuffix, group, rest, skipped, rfl, hpick⟩ := findContainer_head hpi.found
  rcases ((hs.mem_start_counts rt p e).mp hpi.mem).2 with hd | hd
  · exact hd
  · subst hd
    have hmem : d ∈ group := (rt.order_perm _ _).mem_iff.mp (mem_of_pick hpick).1
    obtain ⟨g', hg', ha⟩ := hpi.source a (mem_iff_lookup.mpr ⟨_, hn⟩)
    have hr := hp.ranked.suffix hsuffix
    have heq := le_antisymm h.rank (hr.head_le hmem hg' ha)
    have hsame := hr.unique hg' mem_cons_self ha hmem heq
    subst hsame
    obtain ⟨r', ho⟩ := hf g' (hsuffix.mem mem_cons_self) ha skipped
    rw [ho, pick_first hn hleast] at hpick
    exact (some.inj hpick).symm

end

section
variable (h : Crowd gs g b a c q) (hl : Laminar gs) (hs : Contested gs a c q o s)
include h hl hs

theorem Crowd.round (hp : Prepared rt gs p o')
    {r : Nat} (hf : ∀ group ∈ o', a ∈ group → ∀ skipped, ∃ rest,
      rt.order (.sourceGroup e r skipped) group.elems = a :: rest)
    (hr : Round rt e p r o' (start rt e p s) o'' s') : s'.objectToContainer.lookup o = some a := by
  have hc := hs.count a ((hs.keys a).mpr (.inl rfl))
  cases hr with
  | finish hpicked hzero =>
    rw [h.picked hl hs hp hf hpicked] at hzero
    exact absurd (hc.symm.trans hzero) one_ne_zero
  | visit hpicked hne hpreferred =>
    rw [h.picked hl hs hp hf hpicked] at hpreferred ⊢
    rw [hp.preferred a _ hpreferred]
    refine assignPreferred_takes
      (mem_getPreferredContainers.mpr ⟨b, h.outer, h.taker, h.nested q h.holder⟩) _ _ hc
      hs.object ?_
    intro x hx hxq
    obtain ⟨group, hg, -, hxg⟩ := mem_getPreferredContainers.mp hx
    exact hs.others group hg x hxg hxq

theorem Crowd.taken (hp : Prepared rt gs p order) (hi : s.view.Inv is t' b')
    (hf : ∀ group ∈ order, a ∈ group → ∀ round skipped, ∃ rest,
      rt.order (.sourceGroup e round skipped) group.elems = a :: rest) :
    ∃ m, assignObjectToContainerForOneSet rt e p order s = .ok m ∧ m.lookup o = some a := by
  have hk := h.keepInPlace hs (rt.order (.objectCounts e) s.containerToObjectCount.keys)
    fun x hx => (rt.order_perm _ _).mem_iff.mp hx
  have hc := start_counted rt e hp.consistent s
  have hsource := start_source rt e hp.consistent s
  have ha := (hs.mem_start_counts rt p e).mpr ⟨hp.listed b h.outer a h.taker, .inl rfl⟩
  have hm : ¬ ((start rt e p s).containerToPreferredCount.size = 0 ∨
      (start rt e p s).containerToObjectCount.size = 0) := by
    intro hstop
    rcases hstop with hstop | hstop
    · exact not_mem_of_size hstop ha
    · exact not_mem_of_size hstop ((hs.keys a).mpr (.inl rfl))
  obtain ⟨o', s', hr, hrun⟩ := exists_round rt e p
    (start rt e p s).containerToPreferredCount.size hc hsource hm
  obtain ⟨hc', hs', hlt⟩ := hr.progress hp.consistent
  obtain ⟨t, ht, hsteps⟩ := run_ok rt e hp.consistent _ o' s' hc' hs' hlt
  have htaken := h.round hl hs hp (fun group hg ha => hf group hg ha _) hr
  have hu : ∀ x, o ∉ s'.view.pool x := by
    intro x hx
    have hnone := (((hi.steps hr.steps).pooled o).mp ⟨x, hx⟩).2
    exact absurd (htaken.symm.trans hnone) (some_ne_none a)
  have hrest := foldl_steps (assignRest_steps rt e)
    (rt.order (.restCounts e) t.containerToObjectCount.keys) t
  refine ⟨_, ?_, (Placement.Steps.unpooled (hsteps.trans hrest) hu).2.trans htaken⟩
  rw [assignObjectToContainerForOneSet, hk]
  rw [hrun, ht]
  rfl

end

end

/-- Hash tables are iterated in insertion order, but for the groups of the source container order,
which start in the middle. -/
def rotatedGroups (k : Nat) : Runtime where
  order site l := match site with
    | .sourceGroup _ _ _ => l.rotate k
    | _ => l
  order_perm site l := by
    cases site with
    | sourceGroup => exact rotate_perm l k
    | _ => exact .refl l
  shuffle _ _ _ l := l
  shuffle_perm _ _ _ _ := .refl _

def groupMembers (groups : List IdSet) : List ContainerId := (groups.flatMap IdSet.elems).dedup

theorem mem_groupMembers : c ∈ groupMembers gs ↔ ∃ group ∈ gs, c ∈ group := by
  rw [groupMembers, mem_dedup, mem_flatMap]
  rfl

def freshContainer (groups : List IdSet) : ContainerId := (groupMembers groups).sum + 1

theorem freshContainer_not_mem (groups : List IdSet) :
    freshContainer groups ∉ groupMembers groups :=
  fun hmem => not_succ_le_self _ (le_sum_of_mem hmem)

theorem ne_freshContainer (h : c ∈ groupMembers groups) : c ≠ freshContainer groups := by
  intro he
  rw [he] at h
  exact freshContainer_not_mem groups h

section
variable (containers : List ContainerId)

def emptyEntries : List (Sigma fun _ : ContainerId => List ObjectId) :=
  containers.map fun c => ⟨c, []⟩

theorem keys_emptyEntries : (emptyEntries containers).keys = containers := by
  rw [emptyEntries, List.keys, List.map_map]
  exact List.map_id _

theorem flatten_emptyEntries : ((emptyEntries containers).map Sigma.snd).flatten = [] := by
  induction containers with
  | nil => rfl
  | cons c containers ih => exact ih

end

theorem foldlM_emptyEntries (eq : EquivalenceSets)
    (sets : AssocMap EquivalenceSetId ContainerToObjects) (cs : List ContainerId) :
    (emptyEntries cs).foldlM (pushContainer eq) sets = .ok sets := by
  induction cs with
  | nil => rfl
  | cons c cs ih => exact ih

def contestedAssignment (groups : List IdSet) (q : ContainerId) (hq : q ∈ groupMembers groups) :
    ContainerAssignment where
  containerToObjects :=
    { entries := ⟨freshContainer groups, [1]⟩ :: ⟨q, [0]⟩ ::
        emptyEntries ((groupMembers groups).erase q)
      nodupKeys := by
        rw [List.NodupKeys, keys_cons, keys_cons, keys_emptyEntries,
          ((perm_cons_erase hq).symm.cons _).nodup_iff]
        exact nodup_cons.mpr ⟨freshContainer_not_mem groups, nodup_dedup _⟩ }
  nodup := by
    change ([1] ++ ([0] ++ ((emptyEntries _).map Sigma.snd).flatten)).Nodup
    rw [flatten_emptyEntries]
    decide

theorem contestedAssignment_getObjects (hq : q ∈ groupMembers gs) :
    (contestedAssignment gs q hq).getObjects = [1, 0] := by
  change [1] ++ ([0] ++ ((emptyEntries _).map Sigma.snd).flatten) = [1, 0]
  rw [flatten_emptyEntries]
  rfl

theorem contestedAssignment_getContainers (hq : q ∈ groupMembers gs)
    (hc : c ∈ groupMembers gs) : c ∈ (contestedAssignment gs q hq).getContainers := by
  change c ∈ freshContainer gs :: q :: (emptyEntries ((groupMembers gs).erase q)).keys
  rw [keys_emptyEntries, ((perm_cons_erase hq).symm.cons _).mem_iff]
  exact mem_cons_of_mem _ hc

def contestedCounts (a c : ContainerId) : AssocMap ContainerId Nat :=
  ((∅ : AssocMap ContainerId Nat).insert c 1).insert a 1

def contestedObjects (groups : List IdSet) (q : ContainerId) : ContainerToObjects :=
  ((∅ : ContainerToObjects).insert (freshContainer groups) [1]).insert q [0]

theorem contestedCounts_values (h : a ≠ c) : values (contestedCounts a c) = [1, 1] := by
  have hn : a ∉ (∅ : AssocMap ContainerId Nat).insert c 1 := by
    intro hmem
    rcases (mem_insert _).mp hmem with he | hmem
    · exact h he
    · exact notMem_empty a hmem
  rw [values, contestedCounts, entries_insert_of_notMem hn]
  rfl

theorem contestedObjects_values (hq : q ∈ groupMembers gs) :
    values (contestedObjects gs q) = [[0], [1]] := by
  have hn : q ∉ (∅ : ContainerToObjects).insert (freshContainer gs) [1] := by
    intro hmem
    rcases (mem_insert _).mp hmem with he | hmem
    · exact ne_freshContainer hq he
    · exact notMem_empty q hmem
  rw [values, contestedObjects, entries_insert_of_notMem hn]
  rfl

def contestedRequest (groups : List IdSet) (a c q : ContainerId) (hq : q ∈ groupMembers groups)
    (k : Nat) : AssignmentRequest where
  rt := rotatedGroups k
  equivalenceSets := new.finalize 2
  equivSetToContainerToObjectCount := .singleton 0 (contestedCounts a c)
  initialAssignment := contestedAssignment groups q hq
  shuffleSeed := none

section
variable (hq : q ∈ groupMembers groups)
include hq

theorem contestedRequest_initial (rt : Runtime) :
    getEquivSetToContainerToObjects rt (new.finalize 2)
      (contestedAssignment groups q hq) none = .ok (.singleton 0 (contestedObjects groups q)) := by
  have hnone : getD ((∅ : ContainerToObjects).insert (freshContainer groups) [1]) q [] = [] :=
    getD_insert_ne _ (ne_freshContainer hq) _ _
  have hp : pushObject (pushObject ∅ 0 (freshContainer groups) 1) 0 q 0 =
      singleton 0 (contestedObjects groups q) := by
    have hi : (∅ : ContainerToObjects).insert (freshContainer groups) [1] =
        getD (pushObject ∅ 0 (freshContainer groups) 1) 0 ∅ := rfl
    rw [pushObject, ← hi, hnone]
    rfl
  change (((emptyEntries ((groupMembers groups).erase q)).foldlM (pushContainer _)
    (pushObject (pushObject ∅ 0 (freshContainer groups) 1) 0 q 0)) >>= _) = _
  rw [foldlM_emptyEntries, hp]
  rfl

theorem contestedRequest_sanityCheck (hne : a ≠ c) (k : Nat) :
    sanityCheckOnEquivSetToContainerToObjectCount (rotatedGroups k)
      (.singleton 0 (contestedObjects groups q)) (.singleton 0 (contestedCounts a c)) = .ok () := by
  apply sanityCheck_of_sizes
  · exact fun _ => Iff.rfl
  · intro i objects counts ho hc
    cases mem_singleton.mp (mem_lookup_iff.mp ho)
    cases mem_singleton.mp (mem_lookup_iff.mp hc)
    rw [initialSize, contestedObjects_values hq, contestedCounts_values hne]
    rfl

theorem contestedRequest_checked (hne : a ≠ c) (k : Nat) :
    (contestedRequest groups a c q hq k).checked =
      .ok (.singleton 0 (contestedObjects groups q)) := by
  change (getEquivSetToContainerToObjects (rotatedGroups k) (new.finalize 2)
    (contestedAssignment groups q hq) none >>= fun i =>
      sanityCheckOnEquivSetToContainerToObjectCount (rotatedGroups k) i
        (.singleton 0 (contestedCounts a c)) >>= fun _ => .ok i) = _
  rw [contestedRequest_initial, except_ok_bind, contestedRequest_sanityCheck hq hne, except_ok_bind]

end

theorem contested (groups : List IdSet) (a c q : ContainerId) :
    Contested groups a c q 0 ⟨∅, contestedCounts a c, contestedObjects groups q⟩ := by
  have hmem : ∀ x, x ∈ contestedCounts a c ↔ x = a ∨ x = c := by
    intro x
    rw [contestedCounts, mem_insert, mem_insert, or_iff_left (notMem_empty x)]
  refine ⟨hmem, ?_, getD_insert_self _ _ _ _, ?_, ?_⟩
  · intro x hx
    change getD (contestedCounts a c) x 0 = 1
    rw [contestedCounts]
    by_cases ha : x = a
    · rw [ha, getD_insert_self]
    · rw [getD_insert_ne _ ha, ((hmem x).mp hx).resolve_left ha, getD_insert_self]
  · intro group hg x hx hne
    have hf := ne_freshContainer (mem_groupMembers.mpr ⟨group, hg, hx⟩)
    change getD (contestedObjects groups q) x [] = []
    rw [contestedObjects, getD_insert_ne _ hne, getD_insert_ne _ hf]
    rfl
  · intro x hx
    change getD (contestedObjects groups q) x [] ≠ []
    rw [contestedObjects]
    by_cases hxq : x = q
    · rw [hxq, getD_insert_self]
      exact cons_ne_nil _ _
    · have hf : x = freshContainer groups := by
        rcases (mem_insert _).mp hx with he | hx
        · exact absurd he hxq
        · exact ((mem_insert _).mp hx).resolve_right (notMem_empty x)
      rw [getD_insert_ne _ hxq, hf, getD_insert_self]
      exact cons_ne_nil _ _

theorem exists_rotation (hg : g ∈ gs) (ha : a ∈ g) : ∃ k,
    ∀ bucket ∈ (sourceOrderOf gs).groups, a ∈ bucket → ∀ equivSet round skipped, ∃ rest,
      (rotatedGroups k).order (.sourceGroup equivSet round skipped) bucket.elems = a :: rest := by
  obtain ⟨bucket, hb, hmem⟩ := mem_sourceOrder hg ha
  obtain ⟨f, back, he⟩ := append_of_mem hmem
  refine ⟨f.length, ?_⟩
  intro b' hb' hm' equivSet round skipped
  have hs := (sourceOrderOf_ranked gs).unique hb hb' hmem hm' rfl
  subst hs
  refine ⟨back ++ f, ?_⟩
  change bucket.elems.rotate f.length = _
  rw [he, rotate_append_length_eq]
  rfl

theorem contestedAssignment_getContainer (hq : q ∈ groupMembers gs)
    (he : (⟨x, [o]⟩ : Sigma fun _ : ContainerId => List ObjectId) ∈
      (contestedAssignment gs q hq).containerToObjects.entries) :
    (contestedAssignment gs q hq).getContainer o = some x := by
  apply ContainerAssignment.getContainer_of_mem
  rw [getD, mem_lookup_iff.mpr he]
  exact mem_singleton_self o

theorem Crowd.not_keepsAll (h : Crowd gs g b a c q) (hq : q ∈ groupMembers gs)
    (a' : ObjectId → Option ContainerId) (hz : a' 0 = some a) (ho : a' 1 = some c) :
    ¬ KeepsAll [1, 0] (contestedAssignment gs q hq).getContainer a' g := by
  have hf : freshContainer gs ∉ g := fun hmem =>
    freshContainer_not_mem gs (mem_groupMembers.mpr ⟨g, h.inner, hmem⟩)
  have hb₁ := contestedAssignment_getContainer hq (x := freshContainer gs) (o := 1)
    mem_cons_self
  have hb₀ := contestedAssignment_getContainer hq (x := q) (o := 0)
    (mem_cons_of_mem _ mem_cons_self)
  rw [KeepsAll]
  simp only [filter_cons, filter_nil, hb₁, hb₀, hz, ho, inGroup,
    any_some, hf, h.holder, h.filler, h.outside, decide_true, decide_false]
  decide

theorem Crowd.exists_request (h : Crowd groups g b a c q) (hl : Laminar groups) :
    ∃ r initial, checked r = .ok initial ∧
      (∀ group ∈ groups, ∀ c ∈ group, c ∈ r.initialAssignment.getContainers) ∧
      ¬ r.KeepsGroups groups := by
  have hq := mem_groupMembers.mpr ⟨g, h.inner, h.holder⟩
  have hne : a ≠ c := fun he => h.outside (he ▸ h.filler)
  obtain ⟨k, hf⟩ := exists_rotation h.outer h.taker
  have hc := contestedRequest_checked hq hne k
  have hlisted : ∀ group ∈ groups, ∀ c ∈ group,
      c ∈ (contestedAssignment groups q hq).getContainers :=
    fun group hg x hx => contestedAssignment_getContainers hq (mem_groupMembers.mpr ⟨group, hg, hx⟩)
  refine ⟨contestedRequest groups a c q hq k, _, hc, hlisted, ?_⟩
  intro hkeeps
  obtain ⟨m, hm, hk⟩ := hkeeps
  have hprepared := withGroups_prepared (rotatedGroups k) hlisted
  have hflat : (values (contestedObjects groups q)).flatten.Nodup := by
    rw [contestedObjects_values hq]
    decide
  obtain ⟨m', hm', ht⟩ := h.taken hl (contested groups a c q) hprepared
    (view_inv hflat ∅ (contestedCounts a c) fun _ _ => rfl) (by
      rw [withGroups_eq]
      exact fun bucket hb ha => hf bucket hb ha 0)
  obtain ⟨m'', hm'', hassigned⟩ :=
    (contestedRequest groups a c q hq k).getObjectToContainer_assigned
    (withGroups_valid groups) hc
  rw [hm''] at hm
  cases hm
  have hrun : ((contestedRequest groups a c q hq k).getObjectToContainer (withGroups groups)).1 =
      .ok m' := by
    rw [getObjectToContainer, hc]
    exact congrArg (fun result : Except Fault (AssocMap ObjectId ContainerId) =>
      result >>= fun m => .ok m) hm'
  rw [hm''] at hrun
  cases hrun
  have ho : m.lookup 1 = some c := by
    have hp := length_placed hc hassigned 0 c
    have hobjects : setObjects (.singleton 0 (contestedObjects groups q)) 0 = [0, 1] := by
      change (values (contestedObjects groups q)).flatten = [0, 1]
      rw [contestedObjects_values hq]
      rfl
    have hr : (contestedRequest groups a c q hq k).requested 0 c = 1 :=
      (contested groups a c q).count c (((contested groups a c q).keys c).mpr (.inr rfl))
    have hzero : ¬ m.lookup 0 = some c := by
      rw [ht]
      exact fun he => hne (some.inj he)
    by_contra hother
    rw [hobjects, hr, filter_cons_of_neg (by rwa [decide_eq_true_iff]),
      filter_cons_of_neg (by rwa [decide_eq_true_iff])] at hp
    exact absurd hp zero_ne_one
  refine h.not_keepsAll hq (fun o => m.lookup o) ht ho ?_
  have hobjects : (contestedAssignment groups q hq).getObjects.filter
      (fun o => (new.finalize 2).setAt o = .ok 0) = [1, 0] := by
    rw [contestedAssignment_getObjects hq]
    rfl
  rw [← hobjects]
  exact hk 0 g h.inner

/-- Exactly the uncrowded laminar families keep as many objects in every group as possible. -/
theorem keepsGroups_iff_uncrowded (hl : Laminar groups) : (∀ r initial, checked r = .ok initial →
      (∀ group ∈ groups, ∀ c ∈ group, c ∈ r.initialAssignment.getContainers) →
      r.KeepsGroups groups) ↔ Uncrowded groups := by
  constructor
  · intro hkeeps
    by_contra hn
    obtain ⟨g, b, a, c, q, hcrowd⟩ := exists_crowd hn
    obtain ⟨r, initial, hc, hlisted, hf⟩ := hcrowd.exists_request hl
    exact hf (hkeeps r initial hc hlisted)
  · intro hu r initial hc hlisted
    exact keepsGroups_of_uncrowded hl hu hc hlisted

def separateGroups : List IdSet := [⟨[1, 2], nodup_one_two⟩, ⟨[3, 4], by decide⟩]

theorem separateGroups_kept : (∀ r initial, checked r = .ok initial →
    (∀ group ∈ separateGroups, ∀ c ∈ group, c ∈ r.initialAssignment.getContainers) →
    r.KeepsGroups separateGroups) ↔ Uncrowded separateGroups :=
  keepsGroups_iff_uncrowded (by unfold Laminar; decide)

def crowdedGroups : List IdSet :=
  [⟨[1], nodup_one⟩, ⟨[2, 3], by decide⟩, ⟨[1, 2, 3], by decide⟩]

theorem crowdedGroups_laminar : Laminar crowdedGroups := by
  unfold Laminar
  decide

def crowdedRequest : AssignmentRequest where
  rt := insertionOrder
  equivalenceSets := new.finalize 2
  equivSetToContainerToObjectCount := .singleton 0 [⟨1, 1⟩, ⟨2, 1⟩].toAList
  initialAssignment := ⟨[⟨1, []⟩, ⟨2, []⟩, ⟨3, [0]⟩, ⟨4, [1]⟩].toAList, by decide⟩
  shuffleSeed := none

/-- The smaller rack takes object 0 and leaves object 1 to the larger rack. -/
theorem crowdedRequest_not_kept : Laminar crowdedGroups ∧
    (∃ initial, crowdedRequest.checked = .ok initial) ∧
    (∀ group ∈ crowdedGroups, ∀ c ∈ group, c ∈ crowdedRequest.initialAssignment.getContainers) ∧
    ¬ crowdedRequest.KeepsGroups crowdedGroups := by
  refine ⟨crowdedGroups_laminar, ⟨_, rfl⟩, by decide, ?_⟩
  intro hkeeps
  obtain ⟨m, hm, hk⟩ := hkeeps
  have hp : (crowdedRequest.getObjectToContainer (withGroups crowdedGroups)).1.toOption.map
      (fun m => (m.lookup 0, m.lookup 1)) = some (some 1, some 2) := rfl
  rw [hm] at hp
  have ha := Prod.mk.inj (some.inj hp)
  have hall : KeepsAll [0, 1] crowdedRequest.initialAssignment.getContainer (fun o => m.lookup o)
      ⟨[2, 3], by decide⟩ := hk 0 _ (by decide)
  have hc : KeepsAll [0, 1] crowdedRequest.initialAssignment.getContainer
      (fun o => if o = 0 then some 1 else some 2) ⟨[2, 3], by decide⟩ := by
    apply hall.congr
    intro o ho
    rcases mem_cons.mp ho with rfl | ho
    · exact ha.1.symm
    · rw [mem_singleton.mp ho]
      exact ha.2.symm
  revert hc
  unfold KeepsAll
  decide

end Rebalancer
