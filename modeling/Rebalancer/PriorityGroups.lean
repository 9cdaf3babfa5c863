import Rebalancer.IncrementalPriorityQueueV2

namespace Rebalancer
open List Option AList Function Nat ItemLocation

theorem dropLast_perm (hl : l.getLast? = some last) : (last :: l.dropLast).Perm l := by
  obtain ⟨l', rfl⟩ := getLast?_eq_some_iff.mp hl
  rw [dropLast_concat]
  exact (perm_append_singleton last l').symm

theorem set_dropLast_perm (h : l[k]? = some x) (hl : l.getLast? = some last) :
    (x :: (l.set k last).dropLast).Perm l := by
  obtain ⟨hlt, hx⟩ := List.getElem?_eq_some_iff.mp h
  obtain ⟨l₁, l₂, rfl, rfl⟩ : ∃ l₁ l₂, l = l₁ ++ x :: l₂ ∧ k = l₁.length := by
    refine ⟨l.take k, l.drop (k + 1), ?_, (length_take_of_le (le_of_lt hlt)).symm⟩
    rw [← hx, getElem_cons_drop, take_append_drop]
  rw [set_append_right _ _ (Nat.le_refl _), Nat.sub_self, set_cons_zero]
  cases l₂ using reverseRecOn with
  | nil =>
    rw [dropLast_concat]
    exact (perm_append_singleton x l₁).symm
  | append_singleton l₂ y =>
    have hy : last = y := by
      rw [← cons_append, ← append_assoc, getLast?_concat] at hl
      exact (some.inj hl).symm
    subst hy
    rw [← cons_append, ← append_assoc, dropLast_concat]
    have hl := (perm_append_singleton last l₂).symm.append_left l₁
    exact (hl.cons x).trans perm_middle.symm

theorem getElem?_set_dropLast {l : List α} (hk : k < l.length) (k' : Nat) :
    (l.set k last).dropLast[k']? = some y ↔
      k' ≠ l.length - 1 ∧ (k' = k ∧ y = last ∨ k' ≠ k ∧ l[k']? = some y) := by
  rw [getElem?_dropLast, length_set, getElem?_set]
  by_cases hkk : k = k'
  · subst hkk
    have hi : k < l.length - 1 ↔ k ≠ l.length - 1 := by omega
    simp [hk, hi, eq_comm]
  · have hlt : l[k']? = some y → (k' < l.length - 1 ↔ k' ≠ l.length - 1) := by
      intro h
      have hlt := (List.getElem?_eq_some_iff.mp h).1
      omega
    have hkk' : k' ≠ k := fun h => hkk h.symm
    rw [if_neg hkk]
    split_ifs with h
    · simp [hkk', Nat.ne_of_lt h]
    · simp only [hkk', false_and, ne_eq, not_false_eq_true, true_and, false_or, false_iff,
        not_and]
      intro hne hy
      exact h ((hlt hy).mpr hne)

theorem insertBefore_eq (next : Option GroupRef) (h : GroupRef) (gs : List GroupRef) :
    ∃ l₁ l₂, gs = l₁ ++ l₂ ∧ insertBefore next h gs = l₁ ++ h :: l₂ ∧
      (∀ g, next = some g → g ∈ gs → ∃ l₃, l₂ = g :: l₃) ∧ (next = none → l₂ = []) := by
  induction gs with
  | nil => exact ⟨[], [], rfl, rfl, fun g _ hg => absurd hg not_mem_nil, fun _ => rfl⟩
  | cons g gs ih =>
    rw [insertBefore]
    split_ifs with hg
    · refine ⟨[], g :: gs, rfl, rfl, ?_, ?_⟩
      · intro g' hg' _
        rw [← hg] at hg'
        cases hg'
        exact ⟨gs, rfl⟩
      · intro hnone
        rw [hnone] at hg
        cases hg
    · obtain ⟨l₁, l₂, heq, hi, hn, hend⟩ := ih
      refine ⟨g :: l₁, l₂, by rw [heq]; rfl, by rw [hi]; rfl, ?_, hend⟩
      intro g' hg' hmem
      rcases mem_cons.mp hmem with rfl | hmem
      · exact absurd hg'.symm hg
      · exact hn g' hg' hmem

namespace IncrementalPriorityQueueV2

section
variable {T : Type}

def link (q : IncrementalPriorityQueueV2 T) (g : GroupRef) : Option GroupRef :=
  (q.nodes g).updatedItemsGroupIt

/-- The lists share no node, link allocated nodes only, and recycle clean ones. -/
structure Heap (q : IncrementalPriorityQueueV2 T) : Prop where
  nodup : q.priorityGroups.Nodup
  disjoint : ∀ g ∈ q.priorityGroups, g ∉ q.recycledPriorityGroups
  recycled_nodup : q.recycledPriorityGroups.Nodup
  listed : ∀ g ∈ q.priorityGroups, g < q.allocated
  recycled : ∀ g ∈ q.recycledPriorityGroups, g < q.allocated ∧ q.nodes g = ⟨[], none⟩

@[simp] theorem setItems_self (g : GroupRef) (l : List T) (q : IncrementalPriorityQueueV2 T) :
    (q.setItems g l).items g = l := by
  simp [items, setItems, setNode]

theorem setItems_ne (h : g' ≠ g) (l : List T) (q : IncrementalPriorityQueueV2 T) :
    (q.setItems g l).items g' = q.items g' := by
  simp [items, setItems, setNode, update_of_ne h]

@[simp] theorem link_setItems (g : GroupRef) (l : List T) (q : IncrementalPriorityQueueV2 T) :
    (q.setItems g l).link = q.link := by
  funext g'
  by_cases h : g' = g
  · subst h
    simp [link, setItems, setNode]
  · simp [link, setItems, setNode, update_of_ne h]

section
variable (g : GroupRef) (h : Option GroupRef) (q : IncrementalPriorityQueueV2 T)

@[simp] theorem items_setLink : (q.setUpdatedItemsGroupIt g h).items = q.items := by
  funext g'
  by_cases hg : g' = g
  · subst hg
    simp [items, setUpdatedItemsGroupIt, setNode]
  · simp [items, setUpdatedItemsGroupIt, setNode, update_of_ne hg]

theorem link_setLink : (q.setUpdatedItemsGroupIt g h).link = Function.update q.link g h := by
  funext g'
  by_cases hg : g' = g
  · subst hg
    simp [link, setUpdatedItemsGroupIt, setNode]
  · simp [link, setUpdatedItemsGroupIt, setNode, update_of_ne hg]

end

variable {q : IncrementalPriorityQueueV2 T}

theorem Heap.setNode (h : q.Heap) (hg : g ∈ q.priorityGroups)
    (node : PriorityGroup T) : (q.setNode g node).Heap := by
  refine ⟨h.nodup, h.disjoint, h.recycled_nodup, h.listed, ?_⟩
  intro g' hg'
  refine ⟨(h.recycled g' hg').1, ?_⟩
  have hne : g' ≠ g := by
    intro he
    subst he
    exact h.disjoint g' hg hg'
  exact (update_of_ne hne _ _).trans (h.recycled g' hg').2

theorem mem_insertBefore (next : Option GroupRef) (g' : GroupRef) (groups : List GroupRef) :
    g ∈ insertBefore next g' groups ↔ g = g' ∨ g ∈ groups := by
  obtain ⟨l₁, l₂, heq, hi, -, -⟩ := insertBefore_eq next g' groups
  rw [hi, heq, mem_append, mem_cons, mem_append]
  exact or_left_comm

structure Grown (next : Option GroupRef) (group : GroupRef) (q q' : IncrementalPriorityQueueV2 T) :
    Prop where
  heap : q'.Heap
  groups : q'.priorityGroups = insertBefore next group q.priorityGroups
  fresh : group ∉ q.priorityGroups
  node_self : q'.nodes group = ⟨[], none⟩
  node_other : ∀ g ∈ q.priorityGroups, q'.nodes g = q.nodes g
  locations : q'.itemToLocation = q.itemToLocation
  size : q'.size = q.size
  cache : q'.sortedTopGroupItems = q.sortedTopGroupItems

theorem Grown.mem (h : Grown next' group q q') :
    g ∈ q'.priorityGroups ↔ g = group ∨ g ∈ q.priorityGroups := by
  rw [h.groups]
  exact mem_insertBefore _ _ _

theorem insertGroupBefore_grown (h : q.Heap) (next : Option GroupRef) :
    Grown next (q.insertGroupBefore next).1 q (q.insertGroupBefore next).2 := by
  have hnodup : ∀ group, group ∉ q.priorityGroups →
      (insertBefore next group q.priorityGroups).Nodup := by
    intro group hgroup
    obtain ⟨l₁, l₂, heq, hi, -, -⟩ := insertBefore_eq next group q.priorityGroups
    rw [hi, nodup_middle, nodup_cons, ← heq]
    exact ⟨hgroup, h.nodup⟩
  rw [insertGroupBefore]
  split
  · rename_i hr
    have hn : q.allocated ∉ q.priorityGroups := fun hg => lt_irrefl _ (h.listed _ hg)
    refine ⟨⟨hnodup _ hn, ?_, h.recycled_nodup, ?_, ?_⟩, rfl, hn, update_self _ _ _,
      ?_, rfl, rfl, rfl⟩
    · intro g _
      simp [hr]
    · intro g hg
      rcases (mem_insertBefore _ _ _).mp hg with rfl | hg
      · exact lt_succ_self _
      · exact lt_succ_of_lt (h.listed g hg)
    · intro g hg
      simp only [hr, not_mem_nil] at hg
    · intro g hg
      exact update_of_ne (ne_of_mem_of_not_mem hg hn) _ _
  · rename_i group r hr
    have hin : ∀ g ∈ r, g ∈ q.recycledPriorityGroups := by
      intro g hg
      rw [hr]
      exact mem_cons_of_mem _ hg
    have hgroup : group ∈ q.recycledPriorityGroups := by
      rw [hr]
      exact mem_cons_self
    have hn : group ∉ q.priorityGroups := fun hg => h.disjoint group hg hgroup
    have hrest := hr ▸ h.recycled_nodup
    refine ⟨⟨hnodup _ hn, ?_, (nodup_cons.mp hrest).2, ?_,
      fun g hg => h.recycled g (hin g hg)⟩, rfl, hn, (h.recycled group hgroup).2,
      fun _ _ => rfl, rfl, rfl, rfl⟩
    · intro g hg
      rcases (mem_insertBefore _ _ _).mp hg with rfl | hg
      · exact (nodup_cons.mp hrest).1
      · exact fun hg' => h.disjoint g hg (hin g hg')
    · intro g hg
      rcases (mem_insertBefore _ _ _).mp hg with rfl | hg
      · exact (h.recycled g hgroup).1
      · exact h.listed g hg

theorem Heap.erase (h : q.Heap) (hg : g ∈ q.priorityGroups)
    (hn : q.nodes g = ⟨[], none⟩) (c : Option (List T)) :
    Heap { q with
        sortedTopGroupItems := c
        recycledPriorityGroups := q.recycledPriorityGroups ++ [g]
        priorityGroups := q.priorityGroups.erase g } := by
  refine ⟨h.nodup.erase g, ?_, ?_, ?_, ?_⟩
  · intro g' hg' hmem
    obtain ⟨hne, hg'⟩ := h.nodup.mem_erase_iff.mp hg'
    rcases mem_append.mp hmem with hmem | hmem
    · exact h.disjoint g' hg' hmem
    · exact hne (mem_singleton.mp hmem)
  · apply nodup_append.mpr
    refine ⟨h.recycled_nodup, nodup_singleton g, ?_⟩
    intro a ha b hb hab
    rw [hab, mem_singleton.mp hb] at ha
    exact h.disjoint g hg ha
  · intro g' hg'
    exact h.listed g' (mem_of_mem_erase hg')
  · intro g' hg'
    rcases mem_append.mp hg' with hg' | hg'
    · exact h.recycled g' hg'
    · rw [mem_singleton.mp hg']
      exact ⟨h.listed g hg, hn⟩

end

section
variable {T : Type} [DecidableEq T]

/-- The locations of the items that satisfy `P` are where those items are. -/
structure Located (P : T → Prop) (q : IncrementalPriorityQueueV2 T) : Prop where
  place : ∀ g ∈ q.priorityGroups, ∀ k x, (q.items g)[k]? = some x → P x →
    q.itemToLocation.lookup x = some (some ⟨g, k⟩)
  item : ∀ x g k, P x → q.itemToLocation.lookup x = some (some ⟨g, k⟩) →
    g ∈ q.priorityGroups ∧ (q.items g)[k]? = some x

def Off (x : T) (q : IncrementalPriorityQueueV2 T) : Prop := ∀ g ∈ q.priorityGroups, x ∉ q.items g

theorem Located.frame {q q' : IncrementalPriorityQueueV2 T} (h : q.Located P)
    (hgr : q'.priorityGroups = q.priorityGroups) (hi : q'.items = q.items)
    (hl : q'.itemToLocation = q.itemToLocation) : q'.Located P := by
  constructor
  · intro g hg k x hx hp
    rw [hl]
    rw [hgr] at hg
    rw [hi] at hx
    exact h.place g hg k x hx hp
  · intro x g k hp hx
    rw [hl] at hx
    rw [hgr, hi]
    exact h.item x g k hp hx

variable {q : IncrementalPriorityQueueV2 T}

theorem Located.weaken (h : q.Located fun _ => True) (P : T → Prop) : q.Located P :=
  ⟨fun g hg k y hy _ => h.place g hg k y hy trivial, fun y g k _ hy => h.item y g k trivial hy⟩

theorem Located.unique (h : q.Located P) (hp : P x)
    (hg : g ∈ q.priorityGroups) (hk : (q.items g)[k]? = some x) {k' : Nat}
    (hg' : g' ∈ q.priorityGroups) (hk' : (q.items g')[k']? = some x) : g' = g ∧ k' = k := by
  have heq := (h.place g' hg' k' x hk' hp).symm.trans (h.place g hg k x hk hp)
  cases heq
  exact ⟨rfl, rfl⟩

theorem Located.lookup_of_mem (h : q.Located P) (hp : P x) (hg : g ∈ q.priorityGroups)
    (hx : x ∈ q.items g) : ∃ k, q.itemToLocation.lookup x = some (some ⟨g, k⟩) := by
  obtain ⟨k, hk⟩ := mem_iff_getElem?.mp hx
  exact ⟨k, h.place g hg k x hk hp⟩

theorem Located.items_nodup (h : q.Located fun _ => True)
    (hg : g ∈ q.priorityGroups) : (q.items g).Nodup := by
  apply nodup_iff_getElem?_ne_getElem?.mpr
  intro i j hij hj heq
  obtain ⟨x, hx⟩ : ∃ x, (q.items g)[j]? = some x := ⟨_, getElem?_eq_getElem hj⟩
  have hji := (h.unique trivial hg hx hg (heq.trans hx)).2
  exact Nat.ne_of_lt hij hji

end

section
variable {T : Type} [LinearOrder T]
variable {q : IncrementalPriorityQueueV2 T}

omit [LinearOrder T] in
theorem getElem?_replace (hk : k < (q.items g).length) (g' : GroupRef) (k' : Nat) (y : T) :
    ((q.setItems g ((q.items g).set k last).dropLast).items g')[k']? = some y ↔
      g' = g ∧ k' ≠ (q.items g).length - 1 ∧
        (k' = k ∧ y = last ∨ k' ≠ k ∧ (q.items g)[k']? = some y) ∨
      g' ≠ g ∧ (q.items g')[k']? = some y := by
  by_cases hg : g' = g
  · subst hg
    rw [setItems_self, getElem?_set_dropLast hk]
    simp
  · rw [setItems_ne hg]
    simp [hg]

theorem Located.replace (h : q.Located (· ≠ x)) (hg : g ∈ q.priorityGroups)
    (hk : (q.items g)[k]? = some x) (hl : (q.items g)[(q.items g).length - 1]? = some last)
    (hend : last = x ↔ k = (q.items g).length - 1)
    (hs : ∀ y, y ≠ x → y ≠ last → ls.lookup y = q.itemToLocation.lookup y)
    (hm : last ≠ x → ls.lookup last = some (some ⟨g, k⟩)) : Located (· ≠ x)
      { q.setItems g ((q.items g).set k last).dropLast with itemToLocation := ls } := by
  have hlt := (List.getElem?_eq_some_iff.mp hk).1
  constructor
  · intro g' hg' k' y hy hyx
    rcases (getElem?_replace hlt g' k' y).mp hy with ⟨rfl, hne, ⟨rfl, rfl⟩ | ⟨-, hk'⟩⟩ | ⟨hgg, hk'⟩
    · exact hm hyx
    · refine (hs y hyx ?_).trans (h.place _ hg _ y hk' hyx)
      intro he
      rw [← he] at hl
      exact hne (h.unique hyx hg hl hg hk').2
    · refine (hs y hyx ?_).trans (h.place _ hg' _ y hk' hyx)
      intro he
      rw [← he] at hl
      exact hgg (h.unique hyx hg hl hg' hk').1
  · intro y g' k' hyx hy
    by_cases hyl : y = last
    · subst hyl
      rw [hm hyx] at hy
      cases hy
      have hne : k ≠ (q.items g).length - 1 := fun he => hyx (hend.mpr he)
      exact ⟨hg, (getElem?_replace hlt _ _ _).mpr (.inl ⟨rfl, hne, .inl ⟨rfl, rfl⟩⟩)⟩
    · obtain ⟨hg', hk'⟩ := h.item y g' k' hyx ((hs y hyx hyl).symm.trans hy)
      refine ⟨hg', (getElem?_replace hlt _ _ _).mpr ?_⟩
      by_cases hgg : g' = g
      · subst hgg
        refine .inl ⟨rfl, ?_, .inr ⟨?_, hk'⟩⟩
        · intro he
          rw [he, hl] at hk'
          exact hyl (some.inj hk').symm
        · intro he
          rw [he, hk] at hk'
          exact hyx (some.inj hk').symm
      · exact .inr ⟨hgg, hk'⟩

structure Taken (x : T) (g : GroupRef) (q q' : IncrementalPriorityQueueV2 T) : Prop where
  heap : q.Heap → q'.Heap
  groups : q'.priorityGroups = q.priorityGroups
  link : q'.link = q.link
  items_self : (x :: q'.items g).Perm (q.items g)
  items_other : ∀ g', g' ≠ g → q'.items g' = q.items g'
  located : q'.Located (· ≠ x)
  off : q'.Off x
  classes : ∀ y, (q'.itemToLocation.lookup y).map (Option.map groupIt) =
    (q.itemToLocation.lookup y).map (Option.map groupIt)
  size : q'.size = q.size
  cache : q'.sortedTopGroupItems = q.sortedTopGroupItems

theorem removeItemFromGroup_taken (h : q.Located (· ≠ x))
    (hg : g ∈ q.priorityGroups) (hk : (q.items g)[k]? = some x)
    (ho : ∀ g' ∈ q.priorityGroups, ∀ k' : Nat, (q.items g')[k']? = some x → g' = g ∧ k' = k) :
    ∃ q', q.removeItemFromGroup ⟨g, k⟩ = .ok q' ∧ Taken x g q q' := by
  obtain ⟨hlt, hx⟩ := List.getElem?_eq_some_iff.mp hk
  have hne : q.items g ≠ [] := ne_nil_of_length_pos (lt_of_le_of_lt (zero_le k) hlt)
  obtain ⟨last, hlast⟩ : ∃ last, (q.items g).getLast? = some last :=
    ⟨_, getLast?_eq_some_getLast hne⟩
  have hl : (q.items g)[(q.items g).length - 1]? = some last := by
    rw [← getLast?_eq_getElem?]
    exact hlast
  have hend : last = x ↔ k = (q.items g).length - 1 := by
    constructor
    · intro he
      rw [he] at hl
      exact (ho g hg _ hl).2.symm
    · intro he
      rw [← he, hk] at hl
      exact (some.inj hl).symm
  have ht : ∀ l : AssocMap T (Option ItemLocation),
      (∀ y, y ≠ x → y ≠ last → l.lookup y = q.itemToLocation.lookup y) →
      (last ≠ x → l.lookup last = some (some ⟨g, k⟩)) →
      (∀ y, (l.lookup y).map (Option.map groupIt) =
        (q.itemToLocation.lookup y).map (Option.map groupIt)) →
      Taken x g q { q.setItems g ((q.items g).set k last).dropLast with itemToLocation := l } := by
    intro l hs hm hc
    refine ⟨?_, rfl, link_setItems g _ q, ?_, fun g' hg' => setItems_ne hg' _ q,
      h.replace hg hk hl hend hs hm, ?_, hc, rfl, rfl⟩
    · intro hh
      exact { hh.setNode hg { q.nodes g with items := ((q.items g).set k last).dropLast } with }
    · have hi := setItems_self g ((q.items g).set k last).dropLast q
      refine (Perm.of_eq ?_).trans (set_dropLast_perm hk hlast)
      exact congrArg (x :: ·) hi
    · intro g' hg' hmem
      obtain ⟨k', hk'⟩ := mem_iff_getElem?.mp hmem
      rcases (getElem?_replace hlt g' k' x).mp hk' with
        ⟨rfl, hne, ⟨rfl, he⟩ | ⟨hkk, hx'⟩⟩ | ⟨hgg, hx'⟩
      · exact hne (hend.mp he.symm)
      · exact hkk (ho _ hg _ hx').2
      · exact hgg (ho g' hg' k' hx').1
  by_cases hk' : k = (q.items g).length - 1
  · have hset : (q.items g).set k last = q.items g := by
      rw [hend.mpr hk', ← hx]
      exact set_getElem_self hlt
    refine ⟨_, ?_, ht q.itemToLocation (fun _ _ _ => rfl)
      (fun hne => absurd (hend.mpr hk') hne) (fun _ => rfl)⟩
    rw [hset]
    simp only [removeItemFromGroup, hlast, hk', ne_eq, not_true_eq_false, if_false]
    rfl
  · have hxne : last ≠ x := fun he => hk' (hend.mp he)
    have hloc := h.place g hg _ last hl hxne
    refine ⟨_, ?_, ht (q.itemToLocation.insert last (some ⟨g, k⟩))
      (fun y _ hy => lookup_insert_ne hy) (fun _ => lookup_insert _) ?_⟩
    · simp [removeItemFromGroup, hlast, hk', hloc]
    · intro y
      by_cases hy : y = last
      · subst hy
        rw [lookup_insert, hloc]
        rfl
      · rw [lookup_insert_ne hy]

theorem Located.placeItem (h : q.Located (· ≠ x)) (ho : q.Off x) (hg : g ∈ q.priorityGroups) :
    (q.placeItem g x).Located fun _ => True := by
  have hi : ∀ g' k' y, ((q.placeItem g x).items g')[k']? = some y ↔
      (q.items g')[k']? = some y ∨ g' = g ∧ k' = (q.items g).length ∧ y = x := by
    intro g' k' y
    by_cases hgg : g' = g
    · subst hgg
      have hs : (q.placeItem g' x).items g' = q.items g' ++ [x] := setItems_self g' _ q
      rw [hs, getElem?_append]
      split
      · rename_i hlt
        simp [Nat.ne_of_lt hlt]
      · rename_i hge
        have hnone : (q.items g')[k']? = none := getElem?_eq_none (not_lt.mp hge)
        rw [hnone, getElem?_singleton]
        split
        · have hk : k' = (q.items g').length := by omega
          simp [hk, eq_comm]
        · have hk : k' ≠ (q.items g').length := by omega
          simp [hk]
    · have hs : (q.placeItem g x).items g' = q.items g' := setItems_ne hgg _ q
      rw [hs]
      simp [hgg]
  have hl : ∀ y, y ≠ x → (q.placeItem g x).itemToLocation.lookup y =
      q.itemToLocation.lookup y := fun y hy => lookup_insert_ne hy
  have hself : (q.placeItem g x).itemToLocation.lookup x =
      some (some ⟨g, (q.items g).length⟩) := lookup_insert _
  constructor
  · intro g' hg' k' y hy _
    rcases (hi g' k' y).mp hy with hk' | ⟨rfl, rfl, rfl⟩
    · have hyx : y ≠ x := by
        intro he
        subst he
        exact ho g' hg' (mem_of_getElem? hk')
      exact (hl y hyx).trans (h.place g' hg' k' y hk' hyx)
    · exact hself
  · intro y g' k' _ hy
    by_cases hyx : y = x
    · subst hyx
      rw [hself] at hy
      cases hy
      exact ⟨hg, (hi _ _ _).mpr (.inr ⟨rfl, rfl, rfl⟩)⟩
    · obtain ⟨hg', hy⟩ := h.item y g' k' hyx ((hl y hyx).symm.trans hy)
      exact ⟨hg', (hi _ _ _).mpr (.inl hy)⟩

/-- The sorted items, if there are any, are those of the first group, which satisfies `F`. -/
def Cached (F : GroupRef → Prop) (q : IncrementalPriorityQueueV2 T) : Prop :=
  ∀ l, q.sortedTopGroupItems = some l →
    ∃ g, q.priorityGroups.head? = some g ∧ F g ∧ l.Perm (q.items g) ∧ l.Pairwise (· ≥ ·)

theorem Cached.of_none (h : q.sortedTopGroupItems = none) : q.Cached F := by
  intro l hl
  rw [h] at hl
  cases hl

theorem Cached.frame {q q' : IncrementalPriorityQueueV2 T}
    (h : q.Cached F) (hc : q'.sortedTopGroupItems = q.sortedTopGroupItems)
    (hf : ∀ g, q.priorityGroups.head? = some g → F g →
      q'.priorityGroups.head? = some g ∧ F' g ∧ q'.items g = q.items g) : q'.Cached F' := by
  intro l hl
  obtain ⟨g, hg, hF, hp, hs⟩ := h l (hc.symm.trans hl)
  obtain ⟨hg', hF', hi⟩ := hf g hg hF
  exact ⟨g, hg', hF', hi ▸ hp, hs⟩

theorem Cached.invalidate (h : q.Cached F) (g : GroupRef) :
    (q.invalidateSortedTopGroupItemsIfNeeded g).Cached fun g' => F g' ∧ g' ≠ g := by
  rw [invalidateSortedTopGroupItemsIfNeeded]
  split_ifs with hn
  · exact .of_none rfl
  · intro l hl
    obtain ⟨g', hg', hF, hl'⟩ := h l hl
    refine ⟨g', hg', ⟨hF, ?_⟩, hl'⟩
    intro he
    rw [he] at hg'
    exact hn ⟨by rw [hl]; rfl, hg'⟩

omit [LinearOrder T] in
theorem invalidate_eq (g : GroupRef) (q : IncrementalPriorityQueueV2 T) :
    ∃ cache, q.invalidateSortedTopGroupItemsIfNeeded g =
      { q with sortedTopGroupItems := cache } := by
  rw [invalidateSortedTopGroupItemsIfNeeded]
  split
  · exact ⟨none, rfl⟩
  · exact ⟨q.sortedTopGroupItems, rfl⟩

theorem rebuildItems_spec (g : GroupRef) (es : List (T × Nat)) :
    ∀ {q : IncrementalPriorityQueueV2 T}, (∀ e ∈ es, e.1 ∈ q.itemToLocation) →
    ∃ locations, es.foldlM (fun q entry => do
        let _ ← q.itemToLocation.fetch entry.1
        .ok { q with itemToLocation := q.itemToLocation.insert entry.1 (some ⟨g, entry.2⟩) }) q =
        (.ok { q with itemToLocation := locations } : Except String _) ∧
      ∀ y, (∃ k, (y, k) ∈ es ∧ locations.lookup y = some (some ⟨g, k⟩)) ∨
        (∀ k, (y, k) ∉ es) ∧ locations.lookup y = q.itemToLocation.lookup y := by
  induction es with
  | nil =>
    intro q _
    exact ⟨q.itemToLocation, rfl, fun y => .inr ⟨fun _ => not_mem_nil, rfl⟩⟩
  | cons e es ih =>
    intro q hknown
    obtain ⟨l, hlocation⟩ := mem_iff_lookup.mp (hknown e mem_cons_self)
    obtain ⟨locations, hf, hl⟩ := ih
      (q := { q with itemToLocation := q.itemToLocation.insert e.1 (some ⟨g, e.2⟩) }) (by
        intro e' he'
        exact (mem_insert _).mpr (.inr (hknown e' (mem_cons_of_mem _ he'))))
    refine ⟨locations, ?_, ?_⟩
    · rw [foldlM_cons, AssocMap.fetch, hlocation]
      exact hf
    · intro y
      rcases hl y with ⟨k, hk, hy⟩ | ⟨hn, hy⟩
      · exact .inl ⟨k, mem_cons_of_mem _ hk, hy⟩
      · by_cases hye : y = e.1
        · subst hye
          exact .inl ⟨e.2, mem_cons_self, hy.trans (lookup_insert _)⟩
        · refine .inr ⟨?_, hy.trans (lookup_insert_ne hye)⟩
          intro k hk
          rcases mem_cons.mp hk with rfl | hk
          · exact hye rfl
          · exact hn k hk

omit [LinearOrder T] in
theorem setLink_of_link_none (h : q.link g = none) : q.setUpdatedItemsGroupIt g none = q := by
  have hn : ({ q.nodes g with updatedItemsGroupIt := none } : PriorityGroup T) = q.nodes g := by
    rw [← h]
    rfl
  rw [setUpdatedItemsGroupIt, setNode, hn, update_eq_self]

theorem rebuildGroups_spec (gs : List GroupRef) :
    ∀ {q : IncrementalPriorityQueueV2 T}, (∀ g ∈ gs, q.link g = none) →
    (∀ g ∈ gs, ∀ x ∈ q.items g, x ∈ q.itemToLocation) →
    ∃ locations, gs.foldlM rebuildGroup q = .ok { q with itemToLocation := locations } ∧
      ∀ y, (∃ g ∈ gs, ∃ k, (q.items g)[k]? = some y ∧ locations.lookup y = some (some ⟨g, k⟩)) ∨
        (∀ g ∈ gs, y ∉ q.items g) ∧ locations.lookup y = q.itemToLocation.lookup y := by
  induction gs with
  | nil =>
    intro q _ _
    exact ⟨q.itemToLocation, rfl, fun y => .inr ⟨fun _ hg => absurd hg not_mem_nil, rfl⟩⟩
  | cons g gs ih =>
    intro q hlink hknown
    obtain ⟨locations, hgroup, hl⟩ := rebuildItems_spec g (q.items g).zipIdx (q := q) (by
      intro e he
      have hmem := mem_of_getElem? (mk_mem_zipIdx_iff_getElem?.mp he)
      exact hknown g mem_cons_self e.1 hmem)
    have hmem : ∀ y ∈ q.itemToLocation, y ∈ locations := by
      intro y hy
      apply lookup_isSome.mp
      rcases hl y with ⟨k, -, hk⟩ | ⟨-, hk⟩
      · rw [hk]
        rfl
      · rw [hk]
        exact lookup_isSome.mpr hy
    obtain ⟨l', hf, hl'⟩ := ih (q := { q with itemToLocation := locations })
      (fun g' hg' => hlink g' (mem_cons_of_mem _ hg'))
      (fun g' hg' x hx => hmem x (hknown g' (mem_cons_of_mem _ hg') x hx))
    refine ⟨l', ?_, ?_⟩
    · rw [foldlM_cons, rebuildGroup, setLink_of_link_none (hlink g mem_cons_self), hgroup]
      exact hf
    · intro y
      rcases hl' y with ⟨g', hg', k, hk, hy⟩ | ⟨hn, hy⟩
      · exact .inl ⟨g', mem_cons_of_mem _ hg', k, hk, hy⟩
      · rcases hl y with ⟨k, hk, hy'⟩ | ⟨hn', hy'⟩
        · exact .inl ⟨g, mem_cons_self, k, mk_mem_zipIdx_iff_getElem?.mp hk, hy.trans hy'⟩
        · refine .inr ⟨?_, hy.trans hy'⟩
          intro g' hg' hm'
          rcases mem_cons.mp hg' with rfl | hg'
          · obtain ⟨k, hk⟩ := mem_iff_getElem?.mp hm'
            exact hn' k (mk_mem_zipIdx_iff_getElem?.mpr hk)
          · exact hn g' hg' hm'

def copyNodes (q : IncrementalPriorityQueueV2 T) (i : GroupRef) : PriorityGroup T :=
  (q.priorityGroups[i]?.map q.nodes).getD ⟨[], none⟩

theorem copy_spec (hno : q.priorityGroups.Nodup)
    (h : q.Located fun _ => True) (hli : ∀ g ∈ q.priorityGroups, q.link g = none) :
    ∃ locations, q.copy = .ok ⟨q.copyNodes, q.priorityGroups.length,
        range q.priorityGroups.length, [], locations, q.size, q.sortedTopGroupItems⟩ ∧
      Located (fun _ => True) ⟨q.copyNodes, q.priorityGroups.length,
        range q.priorityGroups.length, [], locations, q.size, q.sortedTopGroupItems⟩ ∧
      ∀ y, (∃ i g k, q.priorityGroups[i]? = some g ∧
          q.itemToLocation.lookup y = some (some ⟨g, k⟩) ∧
          locations.lookup y = some (some ⟨i, k⟩)) ∨
        (∀ location, q.itemToLocation.lookup y ≠ some (some location)) ∧
          locations.lookup y = q.itemToLocation.lookup y := by
  have hn : ∀ i g, q.priorityGroups[i]? = some g → q.copyNodes i = q.nodes g := by
    intro i g hg
    rw [copyNodes, hg]
    rfl
  have hr : ∀ i, i ∈ range q.priorityGroups.length ↔ ∃ g, q.priorityGroups[i]? = some g := by
    intro i
    rw [mem_range, ← isSome_iff_exists, isSome_iff_ne_none, ne_eq, getElem?_eq_none_iff, not_le]
  obtain ⟨locations, hc, hl⟩ := rebuildGroups_spec
    (range q.priorityGroups.length) (q := ⟨q.copyNodes, q.priorityGroups.length,
      range q.priorityGroups.length, [], q.itemToLocation, q.size, q.sortedTopGroupItems⟩)
    (by
      intro i hi
      obtain ⟨g, hg⟩ := (hr i).mp hi
      exact (congrArg PriorityGroup.updatedItemsGroupIt (hn i g hg)).trans
        (hli g (mem_of_getElem? hg)))
    (by
      intro i hi x hx
      obtain ⟨g, hg⟩ := (hr i).mp hi
      have hx' : x ∈ q.items g := by
        rw [items, ← hn i g hg]
        exact hx
      obtain ⟨k, hk⟩ := h.lookup_of_mem trivial (mem_of_getElem? hg) hx'
      apply lookup_isSome.mp
      rw [hk]
      rfl)
  have hat : ∀ (i g : GroupRef) (k : Nat) (y : T), q.priorityGroups[i]? = some g →
      ((q.copyNodes i).items[k]? = some y ↔ (q.items g)[k]? = some y) := by
    intro i g k y hg
    rw [hn i g hg]
    rfl
  refine ⟨locations, hc, ?_⟩
  rw [and_iff_right_of_imp]
  · intro y
    rcases hl y with ⟨i, hi, k, hk, hy⟩ | ⟨hnot, hy⟩
    · obtain ⟨g, hg⟩ := (hr i).mp hi
      exact .inl ⟨i, g, k, hg,
        h.place g (mem_of_getElem? hg) k y ((hat i g k y hg).mp hk) trivial, hy⟩
    · refine .inr ⟨?_, hy⟩
      intro location hlocation
      obtain ⟨hg, hk⟩ := h.item y location.groupIt location.itemIndex trivial hlocation
      obtain ⟨i, hi⟩ := mem_iff_getElem?.mp hg
      exact hnot i ((hr i).mpr ⟨_, hi⟩) (mem_of_getElem? ((hat i _ _ y hi).mpr hk))
  intro hw
  refine ⟨?_, ?_⟩
  · intro i hi k y hy _
    obtain ⟨g, hg⟩ := (hr i).mp hi
    have hp := h.place g (mem_of_getElem? hg) k y ((hat i g k y hg).mp hy) trivial
    rcases hw y with ⟨i', g', k', hg', hold, hnew⟩ | ⟨hnot, -⟩
    · rw [hp] at hold
      cases hold
      have hii : i' = i := by
        obtain ⟨hlt, -⟩ := List.getElem?_eq_some_iff.mp hg
        exact ((getElem?_inj hlt hno).mp (hg.trans hg'.symm)).symm
      rw [← hii]
      exact hnew
    · exact absurd hp (hnot _)
  · intro y i k _ hy
    rcases hw y with ⟨i', g', k', hg', hold, hnew⟩ | ⟨hnot, hs⟩
    · have heq := hnew.symm.trans hy
      cases heq
      exact ⟨(hr _).mpr ⟨g', hg'⟩, (hat _ g' _ y hg').mpr (h.item y g' _ trivial hold).2⟩
    · exact absurd (hs.symm.trans hy) (hnot _)

end

end IncrementalPriorityQueueV2

end Rebalancer
