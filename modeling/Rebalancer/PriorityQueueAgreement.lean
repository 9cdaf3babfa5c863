import Rebalancer.PriorityQueueSimulation

namespace Rebalancer
open List IncrementalPriorityQueueV2

section
variable {T : Type} [LinearOrder T] {p : IncrementalPriorityQueue T}
  {q : IncrementalPriorityQueueV2 T} {l : GroupRef → Sequence}

section
variable (h : q.Settled n p.known l []) (hc : p.Clean)
include h hc

theorem IncrementalPriorityQueueV2.Settled.mem_set_iff :
    (x, s) ∈ p.map.set ↔ ∃ g ∈ q.priorityGroups, x ∈ q.items g ∧ l g = s := by
  rw [p.map.mem_set]
  refine hc.known_iff.symm.trans ?_
  constructor
  · intro hx
    obtain ⟨g, k, hl, hg, hlabel⟩ := h.matched.present hx
    exact ⟨g, hg, mem_of_getElem? (h.located.item x g k trivial hl).2, hlabel⟩
  · intro hx
    obtain ⟨g, hg, hx, rfl⟩ := hx
    obtain ⟨k, hk⟩ := h.located.lookup_of_mem trivial hg hx
    exact h.matched.known_of_lookup hk

theorem IncrementalPriorityQueueV2.Settled.head?_set (hg : q.priorityGroups = g :: rest)
    (hx : x ∈ q.items g)
    (hl : ∀ y ∈ q.items g, x ≤ y) : p.map.set.head? = some (x, l g) := by
  have hmem := hg ▸ mem_cons_self
  apply SortedSet.head?_eq p.map.sorted ((h.mem_set_iff hc).mpr ⟨g, hmem, hx, rfl⟩)
  intro e he
  obtain ⟨y, t⟩ := e
  obtain ⟨g', hg', hy, rfl⟩ := (h.mem_set_iff hc).mp he
  rw [hg] at hg'
  rcases mem_cons.mp hg' with rfl | hg'
  · rcases lt_or_eq_of_le (hl y hy) with hlt | rfl
    · exact .inr ((IncrementalPriorityQueue.compare_iff _ _ _ _).mpr (.inr ⟨rfl, hlt⟩))
    · exact .inl rfl
  · have hs := h.sorted
    rw [hg] at hs
    have hp := (pairwise_cons.mp hs).1 g' hg'
    exact .inr ((IncrementalPriorityQueue.compare_iff _ _ _ _).mpr (.inl hp))

theorem IncrementalPriorityQueueV2.Settled.second_entry (hg : q.priorityGroups = g :: rest)
    (hset : p.map.set = (x, l g) :: (y, t) :: es) : l g ≠ t ↔ ∀ z ∈ q.items g, z = x := by
  have hmem := hg ▸ mem_cons_self
  have hs := p.map.sorted
  rw [hset] at hs
  obtain ⟨hf, hrest⟩ := pairwise_cons.mp hs
  have hxy := hf (y, t) mem_cons_self
  constructor
  · intro hne z hz
    by_contra hzx
    have hzmem := hset ▸ (h.mem_set_iff hc).mpr ⟨g, hmem, hz, rfl⟩
    rcases mem_cons.mp hzmem with he | hzmem
    · exact hzx (congrArg Prod.fst he)
    · rcases mem_cons.mp hzmem with he | hzmem
      · exact hne (congrArg Prod.snd he)
      · have hyz := (pairwise_cons.mp hrest).1 (z, l g) hzmem
        rcases (IncrementalPriorityQueue.compare_iff _ _ _ _).mp hxy with hlt | ⟨he, -⟩
        · rcases (IncrementalPriorityQueue.compare_iff _ _ _ _).mp hyz with hgt | ⟨he, -⟩
          · exact Sequence.Precedes.irrefl _ (hlt.trans hgt)
          · exact hne he.symm
        · exact hne he
  · intro ha heq
    have hymem := hset ▸ mem_cons_of_mem _ mem_cons_self
    obtain ⟨g', hg', hy, hl⟩ := (h.mem_set_iff hc).mp hymem
    rw [label_inj h.sorted hg' hmem (hl.trans heq.symm)] at hy
    rw [ha y hy, ← heq] at hxy
    exact irrefl_of IncrementalPriorityQueue.Before _ hxy

end

structure Agree (p : IncrementalPriorityQueue T) (q : IncrementalPriorityQueueV2 T) : Prop where
  size : q.size = p.size
  empty : q.empty = p.empty
  top : q.top.toOption.map Prod.fst = p.top.toOption
  isTopStrict : q.isTopStrict.toOption = p.isTopStrict.toOption
  located : q.Located fun _ => True
  cached : q.Cached fun _ => True

theorem Simulates.first (h : Simulates p q) (hsi : p.map.size ≠ 0) :
    ∃ l g rest x q', q.Settled p.updateCount p.known l [] ∧
      q.priorityGroups = g :: rest ∧ q.top = .ok (x, q') ∧ Simulates p q' ∧ x ∈ q.items g ∧
      p.map.set.head? = some (x, l g) := by
  obtain ⟨l, hs⟩ := h.settled
  have hempty : q.empty = false := by
    rw [empty, h.size]
    exact decide_eq_false hsi
  cases hg : q.priorityGroups with
  | nil =>
    have hset : p.map.set ≠ [] := by
      intro hn
      apply hsi
      rw [← p.map.set_length, hn]
      rfl
    obtain ⟨e, he⟩ := exists_mem_of_ne_nil _ hset
    obtain ⟨g, hg', -⟩ := (hs.mem_set_iff h.clean).mp (he : (e.1, e.2) ∈ _)
    rw [hg] at hg'
    cases hg'
  | cons g rest =>
    obtain ⟨x, q', hb, hx, hl, hs', hsize'⟩ := hs.bestItemInTopGroup hg
    refine ⟨l, g, rest, x, q', hs, rfl, ?_, ⟨h.clean, hsize'.trans h.size, l, hs'⟩, hx,
      hs.head?_set h.clean hg hx hl⟩
    rw [top, throwIfEmpty, hempty]
    exact hb

theorem Simulates.agree (h : Simulates p q) : Agree p q := by
  obtain ⟨l, hs⟩ := h.settled
  have he : q.empty = p.empty := by
    rw [empty, IncrementalPriorityQueue.empty, h.size]
  by_cases hsize : p.map.size = 0
  · have ht : q.throwIfEmpty = .error "IncrementalPriorityQueueV2 is expected to be non-empty" := by
      rw [throwIfEmpty, empty, h.size]
      exact if_pos (decide_eq_true hsize)
    refine ⟨h.size, he, ?_, ?_, hs.located, hs.cached⟩
    · rw [top, ht, IncrementalPriorityQueue.top, if_pos hsize]
      rfl
    · rw [isTopStrict, ht, IncrementalPriorityQueue.isTopStrict, if_pos hsize]
      rfl
  · obtain ⟨l, g, rest, x, q', hs, hg, htop, -, hx, hh⟩ := h.first hsize
    obtain ⟨entries, hset⟩ := head?_eq_some_iff.mp hh
    have ht : q.throwIfEmpty = .ok () := by
      rw [throwIfEmpty, empty, h.size]
      exact if_neg (by rw [decide_eq_true_iff]; exact hsize)
    have hstrict : q.isTopStrict = .ok (decide ((q.items g).length = 1)) := by
      rw [isTopStrict, ht, front, hg]
      rfl
    have ho : (q.items g).length = 1 ↔ ∀ y ∈ q.items g, y = x := by
      constructor
      · intro hl y hy
        obtain ⟨z, hz⟩ := length_eq_one_iff.mp hl
        rw [hz, mem_singleton] at hx hy
        rw [hx, hy]
      · intro ha
        have hn := hs.located.items_nodup (hg ▸ mem_cons_self)
        rw [eq_replicate_of_mem ha, nodup_replicate] at hn
        exact le_antisymm hn (length_pos_of_mem hx)
    refine ⟨h.size, he, ?_, ?_, hs.located, hs.cached⟩
    · rw [htop, IncrementalPriorityQueue.top, if_neg hsize, hset]
      rfl
    · rw [hstrict, IncrementalPriorityQueue.isTopStrict, if_neg hsize]
      have hl : p.map.size = entries.length + 1 := by
        rw [← p.map.set_length, hset]
        rfl
      cases entries with
      | nil =>
        rw [if_pos (by rw [hl]; exact Nat.lt_succ_self 1)]
        refine congrArg some (decide_eq_true (ho.mpr ?_))
        intro y hy
        have hmem := (hs.mem_set_iff h.clean).mpr ⟨g, hg ▸ mem_cons_self, hy, rfl⟩
        rw [hset] at hmem
        exact congrArg Prod.fst (mem_singleton.mp hmem)
      | cons e entries =>
        rw [if_neg (by rw [hl, length_cons]; omega), hset]
        have hi := ho.trans (hs.second_entry h.clean hg hset).symm
        exact congrArg some (decide_eq_decide.mpr hi)

end

/-- The operations on a queue; asking for the best item may sort the first group. -/
inductive QueueOperation (T : Type) where
  | update (items : List T)
  | remove (item : T)
  | copy
  | top

namespace QueueOperation
variable {T : Type} [LinearOrder T]

def run (p : IncrementalPriorityQueue T) : QueueOperation T → IncrementalPriorityQueue T
  | update items => p.update items
  | remove item => p.remove item
  | copy => p
  | top => p

def runV2 (q : IncrementalPriorityQueueV2 T) :
    QueueOperation T → Except String (IncrementalPriorityQueueV2 T)
  | update items => q.update items
  | remove item => q.remove item
  | copy => q.copy
  | top => if q.empty then .ok q else q.top.map Prod.snd

theorem simulates (h : Simulates p q) (op : QueueOperation T) :
    ∃ q', op.runV2 q = .ok q' ∧ Simulates (op.run p) q' := by
  cases op with
  | update i => exact h.update i
  | remove item => exact h.remove item
  | copy => exact h.copy
  | top =>
    rw [runV2]
    split_ifs with he
    · exact ⟨q, rfl, h⟩
    · have hsize : p.map.size ≠ 0 := by
        intro hzero
        apply he
        rw [empty, h.size]
        exact decide_eq_true hzero
      obtain ⟨-, -, -, x, q', -, -, ht, h', -, -⟩ := h.first hsize
      exact ⟨q', by rw [ht]; rfl, h'⟩

variable (ops : List (QueueOperation T))

theorem runAll_simulates :
    ∀ {p : IncrementalPriorityQueue T} {q : IncrementalPriorityQueueV2 T}, Simulates p q →
    ∃ q', ops.foldlM runV2 q = .ok q' ∧ Simulates (ops.foldl run p) q' := by
  induction ops with
  | nil =>
    intro p q h
    exact ⟨q, rfl, h⟩
  | cons op ops ih =>
    intro p q h
    obtain ⟨q₁, hs, h₁⟩ := op.simulates h
    obtain ⟨q', hr, h'⟩ := ih h₁
    refine ⟨q', ?_, h'⟩
    rw [foldlM_cons, hs]
    exact hr

/-- After every sequence of operations the queues agree, and no cache is stale. -/
theorem runAll_agree : ∃ q, ops.foldlM runV2 .new = .ok q ∧ Agree (ops.foldl run .new) q := by
  obtain ⟨q, hr, h⟩ := runAll_simulates ops simulates_new
  exact ⟨q, hr, h.agree⟩

end QueueOperation

end Rebalancer
