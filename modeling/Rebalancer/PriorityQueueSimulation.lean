import Rebalancer.PriorityUpdates

namespace Rebalancer
open List AList Function IncrementalPriorityQueueV2 Option

namespace IncrementalPriorityQueue
variable {T : Type} [LinearOrder T]

/-- What the queue knows of an item: the updates it was in, none of them if it was removed. -/
def known (q : IncrementalPriorityQueue T) (x : T) : Option (Option Sequence) :=
  if x ∈ q.removed then some none else (q.sequenceOf x).map some

def Clean (q : IncrementalPriorityQueue T) : Prop := ∀ x ∈ q.removed, q.sequenceOf x = none

variable {q : IncrementalPriorityQueue T}

theorem Clean.known_iff (h : q.Clean) : q.known x = some (some s) ↔ q.sequenceOf x = some s := by
  rw [known]
  split_ifs with hx
  · rw [h x hx]
    exact iff_of_false nofun nofun
  · cases q.sequenceOf x with
    | none => exact iff_of_false nofun nofun
    | some t =>
      rw [map_some, some.injEq]

theorem updateItem_known (h : q.Clean) (i : Nat) (x : T) : (updateItem i q x).known =
        Function.update q.known x (advance i (q.known x)) ∧ (updateItem i q x).Clean ∧
      (updateItem i q x).size = q.size + (if q.known x = none then 1 else 0) ∧
      (updateItem i q x).updateCount = q.updateCount := by
  rw [updateItem]
  by_cases hr : x ∈ q.removed
  · have hx : q.known x = some none := if_pos hr
    rw [if_pos hr, hx]
    exact ⟨(update_eq_self_iff.mpr hx.symm).symm, h, rfl, rfl⟩
  · have ha : ∀ sequence : Sequence, some (some sequence) = advance i (q.known x) →
        known { q with map := q.map.assign x sequence } =
          Function.update q.known x (advance i (q.known x)) ∧
        Clean { q with map := q.map.assign x sequence } := by
      intro sequence hs
      rw [← hs]
      constructor
      · funext y
        by_cases hy : y = x
        · subst hy
          rw [update_self, known, if_neg hr]
          have hself : sequenceOf { q with map := q.map.assign y sequence } y = some sequence :=
            lookup_insert _
          rw [hself]
          rfl
        · rw [update_of_ne hy, known, known]
          have hsame : sequenceOf { q with map := q.map.assign x sequence } y = q.sequenceOf y :=
            lookup_insert_ne hy
          rw [hsame]
      · intro y hy
        have hne : y ≠ x := fun he => hr (he ▸ hy)
        exact (lookup_insert_ne hne).trans (h y hy)
    have hx : q.known x = (q.sequenceOf x).map some := if_neg hr
    rw [if_neg hr]
    cases hs : q.map.map.lookup x with
    | some sequence =>
      rw [sequenceOf, hs] at hx
      obtain ⟨hk, hc⟩ := ha (sequence ++ [i]) (by rw [hx]; rfl)
      refine ⟨hk, hc, ?_, rfl⟩
      refine (AssocMap.size_insert q.map.map x (sequence ++ [i])).trans ?_
      rw [hs, hx]
      rfl
    | none =>
      rw [sequenceOf, hs] at hx
      obtain ⟨hk, hc⟩ := ha [i] (by rw [hx]; rfl)
      refine ⟨hk, hc, ?_, rfl⟩
      refine (AssocMap.size_insert q.map.map x [i]).trans ?_
      rw [hs, hx]
      rfl

theorem remove_known (h : q.Clean) (x : T) :
    (q.remove x).known = Function.update q.known x (some none) ∧ (q.remove x).Clean ∧
      (q.remove x).size = (if (q.known x).getD none = none then q.size else q.size - 1) := by
  refine ⟨?_, ?_, ?_⟩
  · funext y
    by_cases hy : y = x
    · subst hy
      rw [update_self]
      exact if_pos (Finset.mem_insert_self y _)
    · have hs : (q.remove x).sequenceOf y = q.sequenceOf y := lookup_erase_ne hy
      have hr : y ∈ (q.remove x).removed ↔ y ∈ q.removed := by
        rw [remove, Finset.mem_insert]
        exact or_iff_right hy
      rw [update_of_ne hy, known, known, hs]
      simp [hr]
  · intro y hy
    by_cases hyx : y = x
    · subst hyx
      exact lookup_erase _ _
    · exact (lookup_erase_ne hyx).trans (h y ((Finset.mem_insert.mp hy).resolve_left hyx))
  · refine (AssocMap.size_erase q.map.map x).trans ?_
    have hi : q.map.map.lookup x = none ↔ (q.known x).getD none = none := by
      rw [known]
      split_ifs with hx
      · exact iff_of_true (h x hx) rfl
      · change q.sequenceOf x = none ↔ _
        cases q.sequenceOf x with
        | none => exact iff_of_true rfl rfl
        | some t => exact iff_of_false nofun nofun
    simp only [hi]
    rfl

end IncrementalPriorityQueue

namespace IncrementalPriorityQueueV2
variable {T : Type} [LinearOrder T]

theorem Cached.afterRemoval {q q' : IncrementalPriorityQueueV2 T} (h : q.Cached fun _ => True)
    (ht : Taken x g (q.updateSortedTopGroupItemsAfterRemoval g x) q')
    (hg : q'.priorityGroups = q.priorityGroups)
    (hi : (q.updateSortedTopGroupItemsAfterRemoval g x).items = q.items) :
    q'.Cached fun _ => True := by
  intro l hl
  rw [ht.cache, updateSortedTopGroupItemsAfterRemoval] at hl
  split at hl
  · rename_i hnone
    rw [hnone] at hl
    cases hl
  · rename_i s hs
    obtain ⟨g', hg', -, hperm, hp⟩ := h s hs
    rw [hg]
    split at hl
    · rename_i hh
      have hne : g' ≠ g := by
        intro he
        rw [he] at hg'
        exact hh hg'
      rw [hs] at hl
      cases hl
      refine ⟨g', hg', trivial, ?_, hp⟩
      rw [ht.items_other g' hne, hi]
      exact hperm
    · rename_i hh
      rw [not_not, hg'] at hh
      cases hh
      split at hl
      · rename_i hlast
        cases hl
        refine ⟨g, hg', trivial, ?_, hp.sublist (dropLast_sublist _)⟩
        have hself := ht.items_self
        rw [hi] at hself
        exact ((dropLast_perm hlast).trans (hperm.trans hself.symm)).cons_inv
      · cases hl

theorem updateSorted_eq (g : GroupRef) (x : T) (q : IncrementalPriorityQueueV2 T) :
    ∃ cache, q.updateSortedTopGroupItemsAfterRemoval g x =
      { q with sortedTopGroupItems := cache } := by
  rw [updateSortedTopGroupItemsAfterRemoval]
  split
  · exact ⟨q.sortedTopGroupItems, rfl⟩
  · split
    · exact ⟨q.sortedTopGroupItems, rfl⟩
    · split
      · exact ⟨_, rfl⟩
      · exact ⟨none, rfl⟩
variable {q : IncrementalPriorityQueueV2 T}

theorem Matches.mark (h : q.Matches l' known) (x : T) (c : Option (List T)) :
    Matches l' (Function.update known x (some none))
      { q with itemToLocation := q.itemToLocation.insert x none, sortedTopGroupItems := c } := by
  have hm : (q.itemToLocation.insert x none).lookup x = some none := lookup_insert _
  constructor
  · intro y
    by_cases hy : y = x
    · subst hy
      rw [hm, update_self]
      rfl
    · simp only [lookup_insert_ne hy, update_of_ne hy]
      exact h.status y
  · intro y l hy
    have hne : y ≠ x := by
      intro he
      rw [he] at hy
      exact nomatch hm.symm.trans hy
    exact h.listed y l ((lookup_insert_ne hne).symm.trans hy)

theorem Settled.mark (h : q.Settled n known l []) (hx : known x = none) :
    Settled n (Function.update known x (some none)) l []
      { q with itemToLocation := q.itemToLocation.insert x none } := by
  have hl := h.matched.absent.mpr hx
  have hs : ∀ y, y ≠ x → (q.itemToLocation.insert x none).lookup y =
      q.itemToLocation.lookup y := fun y hy => lookup_insert_ne hy
  have hm : (q.itemToLocation.insert x none).lookup x = some none := lookup_insert _
  refine { h with
    heap := { h.heap with }
    located := ⟨?_, ?_⟩
    matched := h.matched.mark x _
    cached := ?_ }
  · intro g hg k y hy hp
    have hplace := h.located.place g hg k y hy hp
    have hne : y ≠ x := by
      intro he
      rw [he, hl] at hplace
      cases hplace
    exact (hs y hne).trans hplace
  · intro y g k hp hy
    have hne : y ≠ x := by
      intro he
      rw [he] at hy
      exact nomatch hm.symm.trans hy
    exact h.located.item y g k hp ((hs y hne).symm.trans hy)
  · exact h.cached.frame rfl fun g hg _ => ⟨hg, trivial, rfl⟩

theorem Settled.resize (h : q.Settled n known l rest)
    (size : Nat) : Settled n known l rest { q with size } := by
  refine { h with
    heap := { h.heap with }
    located := { h.located with }
    matched := { h.matched with }
    cached := ?_ }
  exact h.cached.frame rfl fun g hg _ => ⟨hg, trivial, rfl⟩

theorem Settled.takeMarked (h : q.Settled n known l' [])
    (hx : q.itemToLocation.lookup x = some (some ⟨g, k⟩)) :
    ∃ q', (updateSortedTopGroupItemsAfterRemoval g x
          { q with itemToLocation := q.itemToLocation.insert x none }).removeItemFromGroup ⟨g, k⟩ =
        .ok q' ∧
      q'.Settled n (Function.update known x (some none)) l' [g] ∧ g ∈ q'.priorityGroups ∧
      q'.link g = none ∧ q'.size = q.size := by
  obtain ⟨hg, hk⟩ := h.located.item x g k trivial hx
  have hs : ∀ y, y ≠ x → (q.itemToLocation.insert x none).lookup y =
      q.itemToLocation.lookup y := fun y hy => lookup_insert_ne hy
  have hm : (q.itemToLocation.insert x none).lookup x = some none := lookup_insert _
  have hcached : Cached (fun _ => True)
      { q with itemToLocation := q.itemToLocation.insert x none } :=
    h.cached.frame rfl fun g hg _ => ⟨hg, trivial, rfl⟩
  obtain ⟨c, hc⟩ := updateSorted_eq g x { q with itemToLocation := q.itemToLocation.insert x none }
  rw [hc]
  obtain ⟨q', hr, ht⟩ := removeItemFromGroup_taken
    (q := { q with itemToLocation := q.itemToLocation.insert x none, sortedTopGroupItems := c })
    ⟨fun g' hg' k' y hy hne => (hs y hne).trans (h.located.place g' hg' k' y hy trivial),
      fun y g' k' hne hy => h.located.item y g' k' trivial ((hs y hne).symm.trans hy)⟩ hg hk
    (fun g' hg' k' hk' => h.located.unique trivial hg hk hg' hk')
  have hgroups := ht.groups
  have hlink : q'.link = q.link := ht.link
  have hnone : q'.itemToLocation.lookup x = some none := by
    have hclass := ht.classes x
    rw [hm] at hclass
    obtain ⟨l, hl, hnone⟩ := map_eq_some_iff.mp hclass
    rw [hl, map_eq_none_iff.mp hnone]
  refine ⟨q', hr, ⟨?_, ⟨?_, ?_⟩, ?_, ?_, ?_, ?_, ?_, ?_, ?_⟩, ?_, ?_, ht.size⟩
  · exact ht.heap { h.heap with }
  · intro g' hg' k' y hy _
    have hne : y ≠ x := by
      intro he
      rw [he] at hy
      exact ht.off g' hg' (mem_of_getElem? hy)
    exact ht.located.place g' hg' k' y hy hne
  · intro y g' k' _ hy
    have hne : y ≠ x := by
      intro he
      rw [he, hnone] at hy
      cases hy
    exact ht.located.item y g' k' hne hy
  · refine (h.matched.mark x c).frame ?_ ht.classes
    intro g' hg'
    rw [hgroups]
    exact hg'
  · rw [hgroups]
    exact h.sorted
  · rw [hgroups]
    exact h.ne_nil
  · rw [hgroups]
    exact h.bound
  · intro g' hg'
    rw [hgroups] at hg'
    rw [hlink]
    exact (h.link g' hg').imp_right fun hmem => absurd hmem not_mem_nil
  · intro g' hg'
    rw [hgroups] at hg'
    by_cases hgg : g' = g
    · exact .inr (hgg ▸ mem_cons_self)
    · rw [ht.items_other g' hgg]
      exact (h.filled g' hg').imp_right fun hmem => absurd hmem not_mem_nil
  · rw [← hc] at ht
    refine hcached.afterRemoval ht hgroups ?_
    rw [hc]
    rfl
  · rw [hgroups]
    exact hg
  · rw [hlink]
    exact (h.link g hg).resolve_right not_mem_nil

theorem Settled.remove (h : q.Settled n known l []) (x : T) :
    ∃ q', q.remove x = .ok q' ∧ q'.Settled n (Function.update known x (some none)) l [] ∧
      q'.size = if (known x).getD none = none then q.size else q.size - 1 := by
  rw [IncrementalPriorityQueueV2.remove, markRemoved]
  cases hx : known x with
  | none =>
    rw [h.matched.absent.mpr hx]
    exact ⟨_, rfl, h.mark hx, rfl⟩
  | some s =>
    cases s with
    | none =>
      rw [h.matched.removed.mpr hx]
      have hsame : Function.update known x (some none) = known :=
        Function.update_eq_self_iff.mpr hx.symm
      rw [hsame]
      exact ⟨q, rfl, h, rfl⟩
    | some t =>
      obtain ⟨g, k, hl, hg, hlabel⟩ := h.matched.present hx
      rw [hl]
      obtain ⟨q', hr, hs, hg', hlink, hsize⟩ := h.takeMarked hl
      obtain ⟨he, -, hs'⟩ := hs.eraseGroupIfEmpty hg' hlink
      refine ⟨_, ?_, he.resize ((q'.eraseGroupIfEmpty g).size - 1), ?_⟩
      · simp [hr, except_ok_bind]
      · exact congrArg (· - 1) (hs'.trans hsize)

theorem Settled.copy (h : q.Settled n known l' []) :
    ∃ q' label', q.copy = .ok q' ∧ q'.Settled n known label' [] ∧ q'.size = q.size := by
  obtain ⟨locations, hc, hlocated, hw⟩ := copy_spec h.heap.nodup h.located (by
    intro g hg
    exact (h.link g hg).resolve_right not_mem_nil)
  have hr : ∀ i ∈ range q.priorityGroups.length, ∃ g ∈ q.priorityGroups,
      q.priorityGroups[i]? = some g ∧ q.copyNodes i = q.nodes g := by
    intro i hi
    have hget := getElem?_eq_getElem (mem_range.mp hi)
    refine ⟨_, mem_of_getElem? hget, hget, ?_⟩
    rw [copyNodes, hget]
    rfl
  have hlabel : ∀ i g : GroupRef, q.priorityGroups[i]? = some g →
      (q.priorityGroups[i]?.map l').getD [] = l' g := by
    intro i g hg
    rw [hg]
    rfl
  refine ⟨_, fun i => (q.priorityGroups[i]?.map l').getD [], hc,
    ⟨⟨nodup_range, ?_, .nil, ?_, ?_⟩, hlocated, ⟨?_, ?_⟩, ?_, ?_, ?_, ?_, ?_, ?_⟩, rfl⟩
  · intro i _
    exact not_mem_nil
  · intro i hi
    exact mem_range.mp hi
  · intro i hi
    cases hi
  · intro y
    rw [← h.matched.status y]
    rcases hw y with ⟨i, g, k, hg, hold, hnew⟩ | ⟨hnot, hsame⟩
    · simp only [hold, hnew, map_some, hlabel i g hg]
    · simp only [hsame]
      cases hy : q.itemToLocation.lookup y with
      | none => rfl
      | some s =>
        cases s with
        | none => rfl
        | some location => exact absurd hy (hnot location)
  · intro y location hy
    exact (hlocated.item y location.groupIt location.itemIndex trivial hy).1
  · apply pairwise_iff_getElem.mpr
    intro i j hi hj hij
    rw [length_range] at hi hj
    simp only [getElem_range, hlabel i _ (getElem?_eq_getElem hi),
      hlabel j _ (getElem?_eq_getElem hj)]
    exact pairwise_iff_getElem.mp h.sorted i j hi hj hij
  · intro i hi
    obtain ⟨g, hg, hget, -⟩ := hr i hi
    rw [hlabel i g hget]
    exact h.ne_nil g hg
  · intro i hi
    obtain ⟨g, hg, hget, -⟩ := hr i hi
    rw [hlabel i g hget]
    exact h.bound g hg
  · intro i hi
    obtain ⟨g, hg, hget, hn⟩ := hr i hi
    refine .inl ?_
    simp only [IncrementalPriorityQueueV2.link, hn]
    exact (h.link g hg).resolve_right not_mem_nil
  · intro i hi
    obtain ⟨g, hg, hget, hn⟩ := hr i hi
    refine .inl ?_
    simp only [items, hn]
    exact (h.filled g hg).resolve_right not_mem_nil
  · intro l hl
    obtain ⟨g, hg, -, hp, hs⟩ := h.cached l hl
    have hget : q.priorityGroups[0]? = some g := by
      rw [← head?_eq_getElem?]
      exact hg
    refine ⟨0, ?_, trivial, ?_, hs⟩
    · have hlength := Nat.pos_iff_ne_zero.mp (List.getElem?_eq_some_iff.mp hget).1
      simp only [head?_range, hlength, if_false]
    · simp only [items, copyNodes, hget]
      exact hp

theorem Settled.sorted_items (h : q.Settled n known l' []) (hg : q.priorityGroups = g :: rest) :
    (q.sortedTopGroupItems.getD ((q.items g).mergeSort fun a b => decide (b ≤ a))).Perm
        (q.items g) ∧
      (q.sortedTopGroupItems.getD ((q.items g).mergeSort fun a b => decide (b ≤ a))).Pairwise
        (· ≥ ·) := by
  cases hc : q.sortedTopGroupItems with
  | some l =>
    obtain ⟨g', hg', -, hp, hs⟩ := h.cached l hc
    rw [hg] at hg'
    cases hg'
    exact ⟨hp, hs⟩
  | none =>
    refine ⟨mergeSort_perm _ _, ?_⟩
    have hs : ((q.items g).mergeSort fun a b => decide (b ≤ a)).Pairwise
        fun a b => decide (b ≤ a) = true := by
      apply pairwise_mergeSort
      · intro a b c hab hbc
        exact decide_eq_true (le_trans (of_decide_eq_true hbc) (of_decide_eq_true hab))
      · intro a b
        rw [Bool.or_eq_true, decide_eq_true_iff, decide_eq_true_iff]
        exact le_total b a
    exact hs.imp fun hab => of_decide_eq_true hab

theorem Settled.bestItemInTopGroup
    (h : q.Settled n known label []) (hg : q.priorityGroups = g :: rest) :
    ∃ x q', q.bestItemInTopGroup = .ok (x, q') ∧ x ∈ q.items g ∧ (∀ y ∈ q.items g, x ≤ y) ∧
      q'.Settled n known label [] ∧ q'.size = q.size := by
  have hmem := hg ▸ mem_cons_self
  have hne := (h.filled g hmem).resolve_right not_mem_nil
  obtain ⟨hp, hs⟩ := h.sorted_items hg
  have hf : q.front = .ok g := by
    rw [front, hg]
  rw [IncrementalPriorityQueueV2.bestItemInTopGroup, hf, except_ok_bind]
  split
  · rename_i x hx
    rw [hx]
    refine ⟨x, q, rfl, mem_singleton_self x, ?_, h, rfl⟩
    intro y hy
    exact le_of_eq (mem_singleton.mp hy).symm
  · revert hp hs
    generalize q.sortedTopGroupItems.getD ((q.items g).mergeSort fun a b => decide (b ≤ a)) = l
    intro hp hs
    cases l using reverseRecOn with
    | nil => exact absurd (nil_perm.mp hp) hne
    | append_singleton l x =>
      refine ⟨x, { q with sortedTopGroupItems := some (l ++ [x]) }, ?_, ?_, ?_, ?_, rfl⟩
      · simp
      · exact hp.subset (mem_append_right _ mem_cons_self)
      · intro y hy
        rcases mem_append.mp (hp.symm.subset hy) with hy | hy
        · exact (pairwise_append.mp hs).2.2 y hy x mem_cons_self
        · exact le_of_eq (mem_singleton.mp hy).symm
      · refine { h with
          heap := { h.heap with }
          located := { h.located with }
          matched := { h.matched with }
          cached := ?_ }
        intro l' hl'
        cases hl'
        exact ⟨g, by rw [hg]; rfl, trivial, hp, hs⟩

end IncrementalPriorityQueueV2

section
variable {T : Type} [LinearOrder T]

structure Simulates (p : IncrementalPriorityQueue T) (q : IncrementalPriorityQueueV2 T) : Prop where
  clean : p.Clean
  size : q.size = p.size
  settled : ∃ label, q.Settled p.updateCount p.known label []

theorem simulates_new : Simulates (.new : IncrementalPriorityQueue T) .new := by
  have hnone : ∀ {P : GroupRef → Prop}, ∀ g ∈ ([] : List GroupRef), P g := by
    intro P g hg
    cases hg
  refine ⟨?_, rfl, fun _ => [], ⟨.nil, hnone, .nil, hnone, hnone⟩, ⟨hnone, ?_⟩, ⟨?_, ?_⟩, .nil,
    hnone, hnone, hnone, hnone, .of_none rfl⟩
  · intro x hx
    exact absurd hx (Finset.notMem_empty x)
  · intro x g k _ hx
    cases hx
  · intro x
    rfl
  · intro x l hx
    cases hx

theorem Simulates.updateItems (is : List T) :
    ∀ {p : IncrementalPriorityQueue T} {s : UpdateState T} {l}, p.Clean → s.queue.size = p.size →
    Updating i p.known (fun _ => True) (fun _ => False) l s →
    ∃ s' label', is.foldlM updateItem s = .ok s' ∧
      (is.foldl (IncrementalPriorityQueue.updateItem i) p).Clean ∧
      s'.queue.size = (is.foldl (IncrementalPriorityQueue.updateItem i) p).size ∧
      (is.foldl (IncrementalPriorityQueue.updateItem i) p).updateCount = p.updateCount ∧ Updating i
        (is.foldl (IncrementalPriorityQueue.updateItem i) p).known (fun _ => True)
        (fun _ => False) label' s' := by
  induction is with
  | nil =>
    intro p s l hc hsize h
    exact ⟨s, l, rfl, hc, hsize, rfl, h⟩
  | cons x is ih =>
    intro p s l hc hsize h
    obtain ⟨s₁, l₁, hs, hu, hs₁⟩ := h.updateItem x
    obtain ⟨hk, hc', hs', hcount⟩ := IncrementalPriorityQueue.updateItem_known hc i x
    rw [← hk] at hu
    have hsame : s₁.queue.size = (IncrementalPriorityQueue.updateItem i p x).size := by
      rw [hs₁, hs', hsize]
    obtain ⟨s', label', hf, hc'', hs'', hcount', hu'⟩ := ih hc' hsame hu
    refine ⟨s', label', ?_, hc'', hs'', hcount'.trans hcount, hu'⟩
    rw [foldlM_cons, hs]
    exact hf

theorem Simulates.update (h : Simulates p q) (is : List T) :
    ∃ q', q.update is = .ok q' ∧ Simulates (p.update is) q' := by
  obtain ⟨l, hs⟩ := h.settled
  obtain ⟨s, l', hfold, hc, hsize, hcount, hu⟩ :=
    Simulates.updateItems is (p := { p with updateCount := p.updateCount + 1 })
      (s := ⟨q, none, []⟩) h.clean h.size hs.updating
  obtain ⟨hf, hs'⟩ := hu.settled.finishGroupSplits hu.split_nodup
    (fun g hg => ((hu.split g).mp hg).1)
  refine ⟨s.queue.finishGroupSplits s.splitSourceGroups, ?_, hc, hs'.trans hsize, l', ?_⟩
  · rw [IncrementalPriorityQueueV2.update, hfold]
    rfl
  · have hc' : (p.update is).updateCount = p.updateCount + 1 := hcount
    rw [hc']
    exact hf

variable {p : IncrementalPriorityQueue T}

theorem Simulates.remove (h : Simulates p q) (x : T) :
    ∃ q', q.remove x = .ok q' ∧ Simulates (p.remove x) q' := by
  obtain ⟨l, hs⟩ := h.settled
  obtain ⟨q', hr, hs', hsize⟩ := hs.remove x
  obtain ⟨hk, hc, hsize'⟩ := IncrementalPriorityQueue.remove_known h.clean x
  rw [← hk] at hs'
  refine ⟨q', hr, hc, ?_, l, hs'⟩
  rw [hsize, hsize', h.size]

theorem Simulates.copy (h : Simulates p q) : ∃ q', q.copy = .ok q' ∧ Simulates p q' := by
  obtain ⟨l, hs⟩ := h.settled
  obtain ⟨q', l', hc, hs', hsize⟩ := hs.copy
  exact ⟨q', hc, h.clean, hsize.trans h.size, l', hs'⟩

end

end Rebalancer
