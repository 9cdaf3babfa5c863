import Rebalancer.PriorityGroupLabels

namespace Rebalancer
open Option Function List ItemLocation

namespace IncrementalPriorityQueueV2

section
variable {T : Type} [DecidableEq T]

/-- `known` has the updates of the items in the queue, and no updates for those that were removed.
-/
structure Matches (label : GroupRef → Sequence) (known : T → Option (Option Sequence))
    (q : IncrementalPriorityQueueV2 T) : Prop where
  status : ∀ y, (q.itemToLocation.lookup y).map
    (Option.map fun location => label location.groupIt) = known y
  listed : ∀ y location, q.itemToLocation.lookup y = some (some location) →
    location.groupIt ∈ q.priorityGroups

variable {q : IncrementalPriorityQueueV2 T}

theorem Matches.absent (h : q.Matches l k) : q.itemToLocation.lookup y = none ↔ k y = none := by
  rw [← h.status y, map_eq_none_iff]

theorem Matches.removed (h : q.Matches l' k) :
    q.itemToLocation.lookup y = some none ↔ k y = some none := by
  rw [← h.status y, map_eq_some_iff]
  constructor
  · intro hy
    exact ⟨none, hy, rfl⟩
  · intro hy
    obtain ⟨l, hy, hnone⟩ := hy
    rw [map_eq_none_iff.mp hnone] at hy
    exact hy

theorem Matches.present (h : q.Matches l' k') (hy : k' y = some (some s)) :
    ∃ g k, q.itemToLocation.lookup y = some (some ⟨g, k⟩) ∧ g ∈ q.priorityGroups ∧ l' g = s := by
  rw [← h.status y, map_eq_some_iff] at hy
  obtain ⟨l, hy, hs⟩ := hy
  obtain ⟨l, rfl, hl⟩ := map_eq_some_iff.mp hs
  exact ⟨l.groupIt, l.itemIndex, hy, h.listed y l hy, hl⟩

theorem Matches.known_of_lookup (h : q.Matches l' k)
    (hy : q.itemToLocation.lookup y = some (some l)) : k y = some (some (l' l.groupIt)) := by
  rw [← h.status y, hy]
  rfl
variable {q q' : IncrementalPriorityQueueV2 T}

theorem Matches.frame (h : q.Matches label known)
    (hgr : ∀ g ∈ q.priorityGroups, g ∈ q'.priorityGroups)
    (hl : ∀ y, (q'.itemToLocation.lookup y).map (Option.map groupIt) =
      (q.itemToLocation.lookup y).map (Option.map groupIt)) : q'.Matches label known := by
  have hs : ∀ (x : Option (Option ItemLocation)), x.map (Option.map fun l => label l.groupIt) =
        (x.map (Option.map groupIt)).map (Option.map label) := by
    intro x
    rw [Option.map_map, Option.map_comp_map]
    rfl
  constructor
  · intro y
    rw [hs, hl, ← hs]
    exact h.status y
  · intro y l hy
    have heq := hl y
    rw [hy] at heq
    obtain ⟨x, hx, hm⟩ := map_eq_some_iff.mp heq.symm
    obtain ⟨l', rfl, hg⟩ := map_eq_some_iff.mp hm
    rw [← hg]
    exact hgr _ (h.listed y l' hx)

section
variable (hgr : Grown next' group q q')
include hgr

theorem Grown.located (h : q.Located P) : q'.Located P := by
  constructor
  · intro g hg k x hx hp
    rw [hgr.locations]
    rcases hgr.mem.mp hg with rfl | hg
    · rw [items, hgr.node_self] at hx
      cases hx
    · rw [items, hgr.node_other g hg] at hx
      exact h.place g hg k x hx hp
  · intro x g k hp hx
    rw [hgr.locations] at hx
    obtain ⟨hg, hk⟩ := h.item x g k hp hx
    rw [items, hgr.node_other g hg]
    exact ⟨hgr.mem.mpr (.inr hg), hk⟩

omit [DecidableEq T] in
theorem Grown.off (h : q.Off x) : q'.Off x := by
  intro g hg hx
  rcases hgr.mem.mp hg with rfl | hg
  · rw [items, hgr.node_self] at hx
    cases hx
  · rw [items, hgr.node_other g hg] at hx
    exact h g hg hx

theorem Grown.matches (h : q.Matches l' known) (s : Sequence) :
    q'.Matches (Function.update l' group s) known := by
  constructor
  · intro y
    rw [hgr.locations, ← h.status y]
    cases hy : q.itemToLocation.lookup y with
    | none => rfl
    | some l =>
      cases l with
      | none => rfl
      | some l =>
        have hne := ne_of_mem_of_not_mem (h.listed y l hy) hgr.fresh
        simp [update_of_ne hne]
  · intro y l hy
    rw [hgr.locations] at hy
    exact hgr.mem.mpr (.inr (h.listed y l hy))

omit [DecidableEq T] in
theorem Grown.link_self : q'.link group = none := by
  rw [link, hgr.node_self]

omit [DecidableEq T] in
theorem Grown.link_other (hg : g ∈ q.priorityGroups) : q'.link g = q.link g := by
  rw [link, hgr.node_other g hg]
  rfl

end

end

section
variable {T : Type} [LinearOrder T]

/-- The items of `P` are in their places, and the groups of `E` may be left without items. -/
structure Updating (i : Nat) (known : T → Option (Option Sequence)) (P : T → Prop)
    (E : GroupRef → Prop) (label : GroupRef → Sequence) (s : UpdateState T) : Prop where
  heap : s.queue.Heap
  located : s.queue.Located P
  matched : s.queue.Matches label known
  labelled : LabelledGroups i label s.queue.priorityGroups s.queue.link s.newItemsGroupIt
  split_nodup : s.splitSourceGroups.Nodup
  split : ∀ g, g ∈ s.splitSourceGroups ↔ g ∈ s.queue.priorityGroups ∧ s.queue.link g ≠ none
  filled : ∀ g ∈ s.queue.priorityGroups, s.queue.items g = [] → s.queue.link g ≠ none ∨ E g
  cached : s.queue.Cached fun g => (label g).getLast? ≠ some i ∧ ¬ E g
variable {s : UpdateState T}

theorem Updating.take (h : Updating i known (fun _ => True) (fun _ => False) l s)
    (hx : s.queue.itemToLocation.lookup x = some (some ⟨g, k⟩)) :
    ∃ q, (s.queue.invalidateSortedTopGroupItemsIfNeeded g).removeItemFromGroup ⟨g, k⟩ = .ok q ∧
      Updating i known (· ≠ x) (· = g) l { s with queue := q } ∧ q.Off x ∧
      q.priorityGroups = s.queue.priorityGroups ∧ q.size = s.queue.size := by
  have hc := h.cached.invalidate g
  obtain ⟨c, hcache⟩ := invalidate_eq g s.queue
  rw [hcache] at hc ⊢
  obtain ⟨hg, hk⟩ := h.located.item x g k trivial hx
  obtain ⟨q, hr, ht⟩ := removeItemFromGroup_taken (q := { s.queue with sortedTopGroupItems := c })
      { h.located.weaken (· ≠ x) with } hg hk
      (fun g' hg' k' hk' => h.located.unique trivial hg hk hg' hk')
  have hgroups := ht.groups
  have hl := ht.link
  refine ⟨q, hr, ⟨?_, ht.located, ?_, ?_, h.split_nodup, ?_, ?_, ?_⟩, ht.off, hgroups, ht.size⟩
  · exact ht.heap { h.heap with }
  · refine h.matched.frame ?_ ht.classes
    intro g' hg'
    rw [hgroups]
    exact hg'
  · simp only [hgroups, hl]
    exact h.labelled
  · intro g'
    rw [hgroups, hl]
    exact h.split g'
  · intro g' hg' he
    by_cases hgg : g' = g
    · exact .inr hgg
    · simp only [ht.items_other g' hgg] at he
      rw [hgroups] at hg'
      rw [hl]
      exact .inl ((h.filled g' hg' he).resolve_right id)
  · apply Cached.frame hc ht.cache
    intro g' hg' hF
    refine ⟨?_, ⟨hF.1.1, hF.2⟩, ht.items_other g' hF.2⟩
    rw [hgroups]
    exact hg'

theorem Updating.getOrCreate (h : Updating i k P (· = g) l s)
    (hg : g ∈ s.queue.priorityGroups) (ho : s.queue.Off x) :
    ∃ label', Updating i k P (· = (getOrCreateNewGroupBefore g s).1) label'
        (getOrCreateNewGroupBefore g s).2 ∧
      (getOrCreateNewGroupBefore g s).1 ∈ (getOrCreateNewGroupBefore g s).2.queue.priorityGroups ∧
      label' (getOrCreateNewGroupBefore g s).1 = l g ++ [i] ∧
      (getOrCreateNewGroupBefore g s).2.queue.Off x ∧
      (getOrCreateNewGroupBefore g s).2.queue.size = s.queue.size := by
  rw [getOrCreateNewGroupBefore]
  split
  · rename_i group hlink
    obtain ⟨hgroup, hlabel⟩ := h.labelled.linked g hg group hlink
    refine ⟨l, { h with filled := ?_, cached := ?_ }, hgroup, hlabel, ho, rfl⟩
    · intro g' hg' hempty
      rcases h.filled g' hg' hempty with hl | rfl
      · exact .inl hl
      · refine .inl ?_
        rw [link, hlink]
        exact some_ne_none group
    · apply h.cached.frame rfl
      intro g' hg' hF
      refine ⟨hg', ⟨hF.1, ?_⟩, rfl⟩
      intro he
      apply hF.1
      rw [he, hlabel, getLast?_concat]
  · rename_i hlink
    have hgrown := insertGroupBefore_grown h.heap (some g)
    revert hgrown
    generalize s.queue.insertGroupBefore (some g) = inserted
    obtain ⟨group, q⟩ := inserted
    intro hgrown
    obtain ⟨l₁, l₂, hgroups, hgroups', hn, -⟩ :=
      insertBefore_eq (some g) group s.queue.priorityGroups
    obtain ⟨l₂, rfl⟩ := hn g rfl hg
    have hq := hgrown.mem.mpr (.inr hg)
    have hself : Function.update l group (l g ++ [i]) group = l g ++ [i] := update_self _ _ _
    have hi := items_setLink g (some group) q
    have hlinks := link_setLink g (some group) q
    have hl : ∀ g', q.link g' ≠ none → Function.update q.link g (some group) g' ≠ none := by
      intro g' hg'
      by_cases hgg : g' = g
      · subst hgg
        rw [update_self]
        exact some_ne_none group
      · rw [update_of_ne hgg]
        exact hg'
    refine ⟨Function.update l group (l g ++ [i]), ⟨hgrown.heap.setNode hq _, ?_, ?_, ?_, ?_,
      ?_, ?_, ?_⟩, hgrown.mem.mpr (.inl rfl), hself, ?_, hgrown.size⟩
    · exact (hgrown.located h.located).frame rfl hi rfl
    · exact { hgrown.matches h.matched (l g ++ [i]) with }
    · have hlabelled := h.labelled.congr_link (fun g' hg' => hgrown.link_other hg')
      rw [hgroups] at hlabelled
      have hs := hlabelled.split (by rw [← hgroups]; exact hgrown.fresh)
        ((hgrown.link_other hg).trans hlink) hgrown.link_self
      rw [← hgroups', ← hgrown.groups, ← hlinks] at hs
      exact hs
    · apply nodup_append.mpr
      refine ⟨h.split_nodup, nodup_singleton g, ?_⟩
      intro a ha b hb hab
      rw [mem_singleton.mp hb] at hab
      rw [hab] at ha
      exact ((h.split g).mp ha).2 hlink
    · intro g'
      rw [hlinks]
      rw [mem_append, mem_singleton, h.split g']
      constructor
      · intro hg'
        rcases hg' with ⟨hg', hl'⟩ | rfl
        · rw [← hgrown.link_other hg'] at hl'
          exact ⟨hgrown.mem.mpr (.inr hg'), hl g' hl'⟩
        · rw [update_self]
          exact ⟨hq, some_ne_none group⟩
      · intro hg'
        by_cases hgg : g' = g
        · exact .inr hgg
        · rw [update_of_ne hgg] at hg'
          rcases hgrown.mem.mp hg'.1 with rfl | hm'
          · exact absurd hgrown.link_self hg'.2
          · rw [hgrown.link_other hm'] at hg'
            exact .inl ⟨hm', hg'.2⟩
    · intro g' hg' hempty
      rw [hlinks]
      rw [hi] at hempty
      rcases hgrown.mem.mp hg' with rfl | hm'
      · exact .inr rfl
      · rw [items, hgrown.node_other g' hm'] at hempty
        rcases h.filled g' hm' hempty with hl' | rfl
        · rw [← hgrown.link_other hm'] at hl'
          exact .inl (hl g' hl')
        · rw [update_self]
          exact .inl (some_ne_none group)
    · refine h.cached.frame hgrown.cache ?_
      intro g' hg' hF
      have hm' := mem_of_head? hg'
      have hgg : g' ≠ group := ne_of_mem_of_not_mem hm' hgrown.fresh
      refine ⟨?_, ⟨?_, hgg⟩, ?_⟩
      · change q.priorityGroups.head? = some g'
        rw [hgrown.groups, hgroups']
        rw [hgroups] at hg'
        cases l₁ with
        | nil => exact absurd (some.inj hg').symm hF.2
        | cons a l₁ => exact hg'
      · rw [update_of_ne hgg]
        exact hF.1
      · simp only [hi]
        rw [items, hgrown.node_other g' hm']
        rfl
    · intro g' hg' hm'
      rw [hi] at hm'
      exact hgrown.off ho g' hg' hm'

theorem Updating.place (h : Updating i k (· ≠ x) (· = g') l' s) (hgr : g' ∈ s.queue.priorityGroups)
    (ho : s.queue.Off x) (hla : (l' g').getLast? = some i) :
    Updating i (Function.update k x (some (some (l' g')))) (fun _ => True)
      (fun _ => False) l' { s with queue := s.queue.placeItem g' x } := by
  have hself : (s.queue.placeItem g' x).items g' = s.queue.items g' ++ [x] :=
    setItems_self g' _ s.queue
  have hother : ∀ g, g ≠ g' → (s.queue.placeItem g' x).items g = s.queue.items g :=
    fun g hg => setItems_ne hg _ s.queue
  have hl : (s.queue.placeItem g' x).link = s.queue.link := link_setItems g' _ s.queue
  have hp : (s.queue.placeItem g' x).itemToLocation.lookup x =
      some (some ⟨g', (s.queue.items g').length⟩) := AList.lookup_insert _
  have hs : ∀ y, y ≠ x → (s.queue.placeItem g' x).itemToLocation.lookup y =
      s.queue.itemToLocation.lookup y := fun y hy => AList.lookup_insert_ne hy
  refine ⟨{ h.heap.setNode hgr { s.queue.nodes g' with items := s.queue.items g' ++ [x] } with },
    h.located.placeItem ho hgr, ⟨?_, ?_⟩, ?_, h.split_nodup, ?_, ?_, ?_⟩
  · intro y
    by_cases hy : y = x
    · subst hy
      rw [hp, update_self]
      rfl
    · simp only [hs y hy, update_of_ne hy]
      exact h.matched.status y
  · intro y l hy
    by_cases hyx : y = x
    · subst hyx
      have heq := hp.symm.trans hy
      cases heq
      exact hgr
    · exact h.matched.listed y l ((hs y hyx).symm.trans hy)
  · simp only [hl]
    exact h.labelled
  · intro g
    rw [hl]
    exact h.split g
  · intro g hg he
    rw [hl]
    by_cases hgg : g = g'
    · subst hgg
      rw [hself] at he
      exact absurd he (append_ne_nil_of_right_ne_nil _ (cons_ne_nil _ _))
    · simp only [hother g hgg] at he
      exact .inl ((h.filled g hg he).resolve_right hgg)
  · refine h.cached.frame rfl ?_
    intro g hg hF
    exact ⟨hg, ⟨hF.1, id⟩, hother g hF.2⟩

theorem Updating.newGroup (h : Updating i k P (fun _ => False) l s)
    (hn : s.newItemsGroupIt = none) (hgr : Grown none group s.queue q) :
    Updating i k P (· = group) (Function.update l group [i])
      { s with queue := q, newItemsGroupIt := some group } := by
  obtain ⟨l₁, l₂, hgroups, hg', -, hend⟩ := insertBefore_eq none group s.queue.priorityGroups
  rw [hend rfl, append_nil] at hgroups
  rw [hend rfl, ← hgroups, ← hgr.groups] at hg'
  refine ⟨hgr.heap, hgr.located h.located, hgr.matches h.matched [i], ?_, h.split_nodup, ?_, ?_, ?_⟩
  · have hl := h.labelled.congr_link (fun g hg => hgr.link_other hg)
    rw [hn] at hl
    rw [hg']
    exact hl.append hgr.fresh hgr.link_self
  · intro g
    rw [h.split g]
    constructor
    · intro hg
      rw [← hgr.link_other hg.1] at hg
      exact ⟨hgr.mem.mpr (.inr hg.1), hg.2⟩
    · intro hg
      rcases hgr.mem.mp hg.1 with rfl | hm'
      · exact absurd hgr.link_self hg.2
      · rw [← hgr.link_other hm']
        exact ⟨hm', hg.2⟩
  · intro g hg he
    rcases hgr.mem.mp hg with rfl | hm'
    · exact .inr rfl
    · simp only [items, hgr.node_other g hm'] at he
      rw [hgr.link_other hm']
      exact .inl ((h.filled g hm' he).resolve_right id)
  · refine h.cached.frame hgr.cache ?_
    intro g hg hF
    have hm' := mem_of_head? hg
    have hne : g ≠ group := ne_of_mem_of_not_mem hm' hgr.fresh
    refine ⟨?_, ⟨?_, hne⟩, ?_⟩
    · simp only [hg', head?_append, hg]
      rfl
    · rw [update_of_ne hne]
      exact hF.1
    · simp [items, hgr.node_other g hm']

theorem Updating.resize (h : Updating i k P E l s) (n : Nat) :
    Updating i k P E l { s with queue := { s.queue with size := n } } := by
  refine { h with
    heap := { h.heap with }
    located := { h.located with }
    matched := { h.matched with }
    cached := ?_ }
  exact h.cached.frame rfl fun g hg hF => ⟨hg, hF, rfl⟩

def advance (i : Nat) : Option (Option Sequence) → Option (Option Sequence)
  | none => some (some [i])
  | some none => some none
  | some (some s) => some (some (s ++ [i]))

theorem Updating.addNewItem
    (h : Updating i k' (fun _ => True) (fun _ => False) l s) (hx : k' x = none) :
    ∃ label', Updating i (Function.update k' x (some (some [i]))) (fun _ => True)
        (fun _ => False) label' (addNewItem x s) ∧
      (IncrementalPriorityQueueV2.addNewItem x s).queue.size = s.queue.size + 1 := by
  have hlookup := h.matched.absent.mpr hx
  have ho : s.queue.Off x := by
    intro g hg hmem
    obtain ⟨k, hk⟩ := h.located.lookup_of_mem trivial hg hmem
    rw [hlookup] at hk
    cases hk
  have hb : Updating i k' (· ≠ x) (fun _ => False) l s := { h with located := h.located.weaken _ }
  rw [IncrementalPriorityQueueV2.addNewItem]
  cases hn : s.newItemsGroupIt with
  | some group =>
    obtain ⟨hgroup, hl⟩ := h.labelled.newest group hn
    have hlast : (l group).getLast? = some i := by
      rw [hl]
      rfl
    have hg' : Updating i k' (· ≠ x) (· = group) l s := by
      refine { hb with filled := ?_, cached := ?_ }
      · intro g hg hempty
        exact (h.filled g hg hempty).imp_right fun hE => absurd hE id
      · refine h.cached.frame rfl fun g hg hF => ⟨hg, ⟨hF.1, ?_⟩, rfl⟩
        intro he
        rw [he] at hF
        exact hF.1 hlast
    have hp := (hg'.place hgroup ho hlast).resize (s.queue.size + 1)
    rw [hl] at hp
    refine ⟨l, ?_, rfl⟩
    simp only [← hn]
    exact hp
  | none =>
    have hgrown := insertGroupBefore_grown h.heap none
    revert hgrown
    generalize s.queue.insertGroupBefore none = inserted
    obtain ⟨group, q⟩ := inserted
    intro hgrown
    have hgroup := hb.newGroup hn hgrown
    have hmem : group ∈ q.priorityGroups := hgrown.mem.mpr (.inl rfl)
    have hl : Function.update l group [i] group = [i] := Function.update_self _ _ _
    have hlast : (Function.update l group [i] group).getLast? = some i := by
      rw [hl]
      rfl
    have hp := (hgroup.place hmem (hgrown.off ho) hlast).resize (q.size + 1)
    rw [hl] at hp
    refine ⟨Function.update l group [i], hp, ?_⟩
    exact congrArg (· + 1) hgrown.size

theorem Updating.updateItem (h : Updating i known (fun _ => True) (fun _ => False) l s) (x : T) :
    ∃ s' label', IncrementalPriorityQueueV2.updateItem s x = .ok s' ∧
      Updating i (Function.update known x (advance i (known x))) (fun _ => True) (fun _ => False)
        label' s' ∧ s'.queue.size = s.queue.size + if known x = none then 1 else 0 := by
  rw [IncrementalPriorityQueueV2.updateItem]
  cases hx : known x with
  | none =>
    obtain ⟨label', ha, hsize⟩ := h.addNewItem hx
    rw [h.matched.absent.mpr hx]
    exact ⟨_, label', rfl, ha, hsize⟩
  | some status =>
    cases status with
    | none =>
      rw [h.matched.removed.mpr hx]
      refine ⟨s, l, rfl, ?_, rfl⟩
      have hs : Function.update known x (advance i (some none)) = known :=
        Function.update_eq_self_iff.mpr hx.symm
      rw [hs]
      exact h
    | some t =>
      obtain ⟨g, k, hl, hg, hlabel⟩ := h.matched.present hx
      rw [hl]
      obtain ⟨q, hr, ht, ho, hgroups, hsize⟩ := h.take hl
      obtain ⟨label', hc, hgroup, hl', ho', hs'⟩ := ht.getOrCreate (hgroups ▸ hg) ho
      have hlast : (label' (getOrCreateNewGroupBefore g { s with queue := q }).1).getLast? =
          some i := by
        rw [hl', getLast?_concat]
      have hp := hc.place hgroup ho' hlast
      rw [hl', hlabel] at hp
      refine ⟨_, label', ?_, hp, hs'.trans hsize⟩
      simp [moveToNewGroupBeforeCurrentGroup, hr, except_ok_bind]

/-- The queue after `n` updates, but for the groups of `rest`: they may still be empty, or have a
link from the last update. -/
structure Settled (n : Nat) (known : T → Option (Option Sequence)) (label : GroupRef → Sequence)
    (rest : List GroupRef) (q : IncrementalPriorityQueueV2 T) : Prop where
  heap : q.Heap
  located : q.Located fun _ => True
  matched : q.Matches label known
  sorted : q.priorityGroups.Pairwise fun g h => Sequence.Precedes (label g) (label h)
  ne_nil : ∀ g ∈ q.priorityGroups, label g ≠ []
  bound : ∀ g ∈ q.priorityGroups, ∀ a ∈ label g, a < n
  link : ∀ g ∈ q.priorityGroups, q.link g = none ∨ g ∈ rest
  filled : ∀ g ∈ q.priorityGroups, q.items g ≠ [] ∨ g ∈ rest
  cached : q.Cached fun _ => True

variable {q : IncrementalPriorityQueueV2 T}

theorem Settled.updating (h : q.Settled n k l []) :
    Updating n k (fun _ => True) (fun _ => False) l ⟨q, none, []⟩ := by
  have hl : ∀ g ∈ q.priorityGroups, q.link g = none := by
    intro g hg
    exact (h.link g hg).resolve_right not_mem_nil
  have hnot : ∀ g ∈ q.priorityGroups, n ∉ l g := fun g hg hn =>
    Nat.lt_irrefl n (h.bound g hg n hn)
  refine ⟨h.heap, h.located, h.matched, ⟨⟨h.sorted, h.ne_nil, ?_, ?_⟩, ?_, ?_, ?_⟩, .nil, ?_, ?_,
    ?_⟩
  · intro g hg a ha
    exact Nat.le_of_lt (h.bound g hg a ha)
  · intro g hg s hs
    exact absurd (hs.subset (mem_append_right _ mem_cons_self)) (hnot g hg)
  · intro g hg s hs
    refine absurd ?_ (hnot g hg)
    rw [hs]
    exact mem_append_right _ mem_cons_self
  · intro g hg g' hl'
    rw [hl g hg] at hl'
    cases hl'
  · intro g hnew
    cases hnew
  · intro g
    constructor
    · intro hg
      cases hg
    · intro hg
      exact absurd (hl g hg.1) hg.2
  · intro g hg he
    exact absurd he ((h.filled g hg).resolve_right not_mem_nil)
  · refine h.cached.frame rfl fun g hg _ => ⟨hg, ⟨?_, id⟩, rfl⟩
    intro hlast
    exact hnot g (mem_of_head? hg) (mem_of_getLast? hlast)

theorem Updating.settled (h : Updating i k (fun _ => True) (fun _ => False) l s) :
    s.queue.Settled (i + 1) k l s.splitSourceGroups := by
  refine ⟨h.heap, h.located, h.matched, h.labelled.sorted, h.labelled.ne_nil, ?_, ?_, ?_, ?_⟩
  · intro g hg a ha
    exact Nat.lt_succ_of_le (h.labelled.bound g hg a ha)
  · intro g hg
    by_cases hl : s.queue.link g = none
    · exact .inl hl
    · exact .inr ((h.split g).mpr ⟨hg, hl⟩)
  · intro g hg
    by_cases he : s.queue.items g = []
    · exact .inr ((h.split g).mpr ⟨hg, (h.filled g hg he).resolve_right id⟩)
    · exact .inl he
  · exact h.cached.frame rfl fun g hg _ => ⟨hg, trivial, rfl⟩

theorem Settled.setLink (h : q.Settled n k l rest)
    (hg : g ∈ q.priorityGroups) : (q.setUpdatedItemsGroupIt g none).Settled n k l rest := by
  have hi := items_setLink g none q
  refine { h with
    heap := h.heap.setNode hg _
    located := h.located.frame rfl hi rfl
    matched := { h.matched with }
    link := ?_
    filled := ?_
    cached := ?_ }
  · intro g' hg'
    rw [link_setLink]
    by_cases hgg : g' = g
    · subst hgg
      exact .inl (update_self _ _ _)
    · rw [update_of_ne hgg]
      exact h.link g' hg'
  · intro g' hg'
    rw [hi]
    exact h.filled g' hg'
  · exact h.cached.frame rfl fun g' hg' _ => ⟨hg', trivial, congrFun hi g'⟩

omit [LinearOrder T] in
theorem head?_erase {gs : List GroupRef} (h : gs.head? = some g') (hne : g' ≠ g) :
    (gs.erase g).head? = some g' := by
  cases gs with
  | nil => cases h
  | cons a gs =>
    cases h
    have hb : (g' == g) = false := beq_false_of_ne hne
    rw [erase_cons_tail (by rw [hb]; exact Bool.false_ne_true)]
    rfl

theorem Settled.eraseGroupIfEmpty (h : q.Settled n k' l' (g :: rest))
    (hg : g ∈ q.priorityGroups) (hl : q.link g = none) :
    (q.eraseGroupIfEmpty g).Settled n k' l' rest ∧
      (∀ g', g' ≠ g → g' ∈ q.priorityGroups → g' ∈ (q.eraseGroupIfEmpty g).priorityGroups) ∧
      (q.eraseGroupIfEmpty g).size = q.size := by
  rw [IncrementalPriorityQueueV2.eraseGroupIfEmpty]
  by_cases hempty : q.items g = []
  · rw [if_pos (by rw [hempty]; rfl), eraseGroup]
    have hc := h.cached.invalidate g
    obtain ⟨c, hcache⟩ := invalidate_eq g q
    rw [hcache] at hc ⊢
    have hn : q.nodes g = ⟨[], none⟩ := by
      rw [← hempty, ← hl]
      rfl
    have herase : ∀ g', g' ∈ q.priorityGroups.erase g ↔ g' ≠ g ∧ g' ∈ q.priorityGroups := by
      intro g'
      exact h.heap.nodup.mem_erase_iff
    refine ⟨⟨h.heap.erase hg hn c, ⟨?_, ?_⟩, ⟨h.matched.status, ?_⟩,
      h.sorted.sublist erase_sublist, ?_, ?_, ?_, ?_, ?_⟩, ?_, rfl⟩
    · intro g' hg' k x hx hp
      exact h.located.place g' (mem_of_mem_erase hg') k x hx hp
    · intro x g' k hp hx
      obtain ⟨hg', hk⟩ := h.located.item x g' k hp hx
      refine ⟨(herase g').mpr ⟨?_, hg'⟩, hk⟩
      intro he
      rw [he, hempty] at hk
      cases hk
    · intro y l hy
      obtain ⟨hg', hk⟩ := h.located.item y l.groupIt l.itemIndex trivial hy
      refine (herase _).mpr ⟨?_, hg'⟩
      intro he
      rw [he, hempty] at hk
      cases hk
    · intro g' hg'
      exact h.ne_nil g' (mem_of_mem_erase hg')
    · intro g' hg'
      exact h.bound g' (mem_of_mem_erase hg')
    · intro g' hg'
      obtain ⟨hne, hg'⟩ := (herase g').mp hg'
      exact (h.link g' hg').imp_right fun hmem => (mem_cons.mp hmem).resolve_left hne
    · intro g' hg'
      obtain ⟨hne, hg'⟩ := (herase g').mp hg'
      exact (h.filled g' hg').imp_right fun hmem => (mem_cons.mp hmem).resolve_left hne
    · exact hc.frame rfl fun g' hg' hF => ⟨head?_erase hg' hF.2, trivial, rfl⟩
    · intro g' hne hg'
      exact (herase g').mpr ⟨hne, hg'⟩
  · rw [if_neg (by rw [List.isEmpty_iff]; exact hempty)]
    refine ⟨{ h with link := ?_, filled := ?_ }, fun _ _ hg' => hg', rfl⟩
    · intro g' hg'
      rcases h.link g' hg' with hnone | hmem
      · exact .inl hnone
      · rcases mem_cons.mp hmem with rfl | hmem
        · exact .inl hl
        · exact .inr hmem
    · intro g' hg'
      rcases h.filled g' hg' with hi | hmem
      · exact .inl hi
      · rcases mem_cons.mp hmem with rfl | hmem
        · exact .inl hempty
        · exact .inr hmem

theorem Settled.finishGroupSplits : ∀ {rest : List GroupRef} {q : IncrementalPriorityQueueV2 T},
    q.Settled n k l rest → rest.Nodup → (∀ g ∈ rest, g ∈ q.priorityGroups) →
    (q.finishGroupSplits rest).Settled n k l [] ∧ (q.finishGroupSplits rest).size = q.size := by
  intro rest
  induction rest with
  | nil =>
    intro q h _ _
    exact ⟨h, rfl⟩
  | cons g rest ih =>
    intro q h hnodup hmem
    obtain ⟨hn, hnodup⟩ := nodup_cons.mp hnodup
    have hg := hmem g mem_cons_self
    have hl : (q.setUpdatedItemsGroupIt g none).link g = none := by
      rw [link_setLink, update_self]
    obtain ⟨he, hk, hsize⟩ := (h.setLink hg).eraseGroupIfEmpty hg hl
    obtain ⟨hf, hs'⟩ := ih he hnodup (by
      intro g' hg'
      exact hk g' (ne_of_mem_of_not_mem hg' hn) (hmem g' (mem_cons_of_mem _ hg')))
    exact ⟨hf, hs'.trans hsize⟩

end

end IncrementalPriorityQueueV2

end Rebalancer
