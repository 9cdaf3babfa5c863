import Rebalancer.Orchestrator
import Rebalancer.ChangedLeaves

namespace Rebalancer
open List BucketedPriorityQueue

namespace Orchestrator
variable {ν V T : Type} [DecidableEq ν]

def prio (o : Orchestrator ν) (n : ν) : PriorityInfo := (o.nodeToPriority n).getD ⟨0, 1⟩

structure Sound (g : ExpressionGraph ν) (data : AffectedByChangeDecisionData)
    (o : Orchestrator ν) : Prop where
  nodup : o.postOrder.Nodup
  prio_eq : ∀ n ∈ o.postOrder, o.nodeToPriority n = some (o.prio n)
  child : ∀ n ∈ o.postOrder, ∀ c ∈ g.children n, c ∈ o.postOrder ∧
    (o.prio c).rootIdx ≤ (o.prio n).rootIdx ∧ (o.prio c).height < (o.prio n).height
  parents : ∀ c m, m ∈ o.nodeToParents c ↔ m ∈ o.postOrder ∧ c ∈ g.children m
  parents_nodup : ∀ c, (o.nodeToParents c).Nodup
  root : ∀ (i : Nat) root, o.roots[i]? = some root →
    root ∈ o.postOrder ∧ (o.prio root).rootIdx ≤ i
  below : ∀ n ∈ o.postOrder, ∃ root, o.roots[(o.prio n).rootIdx]? = some root ∧ g.Below root n
  leaves : ∀ i < o.roots.length, ∀ cs q,
    ∃ (q' : BucketedPriorityQueue PriorityInfo ν) (pushed : List ν),
      computeChangedLeavesByRoot o.nodeToPriority o.leafStore o.leaves (some cs) i q = .ok q' ∧
      q'.entries.Perm (pushed.map (fun n => (o.prio n, n)) ++ q.entries) ∧
      ∀ n, pushed.count n =
        if n ∈ o.postOrder ∧ (o.prio n).rootIdx = i then nodePushes g data cs n else 0
variable {g : ExpressionGraph ν}
variable {roots : List ν}

theorem init_eq (h : init g roots data cs = .ok o) : ∃ leafStore leaves,
      initIndex g data (initOrder g cs roots).1.postOrder
        (initOrder g cs roots).2 roots.length = .ok (leafStore, leaves) ∧
      o = ⟨roots, (initOrder g cs roots).1.postOrder, (initOrder g cs roots).1.nodeToPriority,
        initParents g (initOrder g cs roots).1.postOrder, leafStore, leaves,
        (initOrder g cs roots).1.nFixedNodes⟩ := by
  obtain ⟨⟨leafStore, leaves⟩, hi, h⟩ := except_bind_ok h
  cases h
  exact ⟨leafStore, leaves, hi, rfl⟩

theorem init_roots (h : init g roots data cs = .ok o) : o.roots = roots := by
  obtain ⟨l, leaves, -, rfl⟩ := init_eq h
  rfl

theorem init_sound (h : init g roots data fs = .ok o) : o.Sound g data := by
  obtain ⟨s, l, hidx, rfl⟩ := init_eq h
  have ho := initOrder_spec g fs roots
  obtain ⟨hl, hf, -⟩ := initIndex_run ho roots.length (le_refl _) s l hidx
  generalize hst : (initOrder g fs roots).1 = st at *
  generalize hr : (initOrder g fs roots).2 = ranges at *
  have hprio : ∀ n ∈ st.postOrder,
      st.nodeToPriority n = some ((st.nodeToPriority n).getD ⟨0, 1⟩) := by
    intro n hn
    obtain ⟨p, hp⟩ := (ho.valid.finished n).mp hn
    rw [hp, Option.getD_some]
  refine ⟨ho.valid.nodup, hprio, ?_, ?_, ?_, ?_, ?_, ?_⟩
  · intro n hn c hc
    obtain ⟨q, hq, hidx, hh⟩ := ho.valid.edge n _ (hprio n hn) c hc
    refine ⟨(ho.valid.finished c).mpr ⟨q, hq⟩, ?_⟩
    simp only [prio, hq, Option.getD_some]
    exact ⟨hidx, hh⟩
  · intro c m
    exact mem_initParents
  · intro c
    exact initParents_nodup ho.valid.nodup c
  · intro i root hi
    obtain ⟨p, hp, hle⟩ := ho.root_mem i root hi
    refine ⟨(ho.valid.finished root).mpr ⟨p, hp⟩, ?_⟩
    simp only [prio, hp, Option.getD_some]
    exact hle
  · intro n hn
    exact ho.below n _ (hprio n hn)
  · intro i hi cs q
    have hlt : i < l.length := by rw [hl]; exact hi
    have hget : l[i]? = some l[i] := getElem?_eq_getElem hlt
    have hmem : ∀ n, n ∈ rootSegment st.postOrder ranges i ↔
        n ∈ st.postOrder ∧ ((st.nodeToPriority n).getD ⟨0, 1⟩).rootIdx = i := by
      intro n
      rw [ho.segment i hi n, ho.valid.finished n]
      constructor
      · rintro ⟨p, hp, hpi⟩
        exact ⟨⟨p, hp⟩, by rw [hp]; exact hpi⟩
      · rintro ⟨⟨p, hp⟩, hpi⟩
        rw [hp] at hpi
        exact ⟨p, hp, hpi⟩
    obtain ⟨q', pushed, hrun, hperm, hcount⟩ := computeChangedLeavesByRoot_spec
      st.nodeToPriority (fun n => (st.nodeToPriority n).getD ⟨0, 1⟩) cs (hf i _ hget) hget
      (fun n hn => hprio n ((hmem n).mp hn).1) q
    refine ⟨q', pushed, hrun, hperm, ?_⟩
    intro n
    rw [hcount n]
    by_cases hn : n ∈ rootSegment st.postOrder ranges i
    · rw [if_pos hn]
      exact (if_pos ((hmem n).mp hn)).symm
    · rw [if_neg hn]
      exact (if_neg (fun h => hn ((hmem n).mpr h))).symm

namespace Sound
variable {o : Orchestrator ν}

theorem priority (h : o.Sound g data) (hn : n ∈ o.postOrder) : o.priority n = .ok (o.prio n) := by
  rw [Orchestrator.priority, h.prio_eq n hn]

variable (h : o.Sound g data)
include h

theorem below_mem (hn : n ∈ o.postOrder) (hd : g.Below n d) :
    d ∈ o.postOrder ∧ (o.prio d).rootIdx ≤ (o.prio n).rootIdx ∧
      (o.prio d).height ≤ (o.prio n).height := by
  induction hd with
  | refl => exact ⟨hn, le_refl _, le_refl _⟩
  | tail _ hc ih =>
    obtain ⟨hm, hidx, hh⟩ := ih
    obtain ⟨hm', hi', hh'⟩ := h.child _ hm _ hc
    exact ⟨hm', hi'.trans hidx, hh'.le.trans hh⟩

theorem prio_below (hn : n ∈ o.postOrder) (hd : g.Below n d) : o.prio n ≤ o.prio d := by
  obtain ⟨-, hidx, hh⟩ := h.below_mem hn hd
  rw [PriorityInfo.le_iff]
  omega

theorem prio_strictly (hn : n ∈ o.postOrder) (hd : g.StrictlyBelow n d) : o.prio n < o.prio d := by
  obtain ⟨c, hc, hd⟩ := hd
  obtain ⟨hm, hidx, hh⟩ := h.child n hn c hc
  obtain ⟨-, hi', hh'⟩ := h.below_mem hm hd
  rw [PriorityInfo.lt_iff]
  omega

theorem mem_of_root (hr : r ∈ o.roots) (hn : g.Below r n) : n ∈ o.postOrder := by
  obtain ⟨i, hi⟩ := mem_iff_getElem?.mp hr
  exact (h.below_mem (h.root i r hi).1 hn).1

theorem own_root (hn : n ∈ o.postOrder) :
    ∃ root, o.roots[(o.prio n).rootIdx]? = some root ∧ root ∈ o.postOrder ∧
      (o.prio root).rootIdx = (o.prio n).rootIdx ∧ o.prio root ≤ o.prio n := by
  obtain ⟨root, hr, hb⟩ := h.below n hn
  obtain ⟨hm, hle⟩ := h.root _ root hr
  obtain ⟨-, hidx, -⟩ := h.below_mem hm hb
  exact ⟨root, hr, hm, Nat.le_antisymm hle hidx, h.prio_below hm hb⟩

end Sound

def potential (o : Orchestrator ν) (ctx : Context ν V T) : Nat :=
  ctx.readyNodes.entries.length + o.postOrder.countP (fun n => (ctx.changedChildren n).isEmpty)

structure Notified (o : Orchestrator ν) (c : ν) (ps : List ν) (ctx ctx' : Context ν V T) :
    Prop where
  val : ctx'.val = ctx.val
  apply : ctx'.apply = ctx.apply
  changes : ctx'.changes = ctx.changes
  tables : ctx'.groupToTempTrafficTable = ctx.groupToTempTrafficTable
  evaluatedRoots : ctx'.evaluatedRoots = ctx.evaluatedRoots
  changedChildren : ∀ m, ctx'.changedChildren m =
    if m ∈ ps then (ctx.changedChildren m).insert c else ctx.changedChildren m
  queue : ctx'.readyNodes.entries.Perm
    ((ps.filter (fun p => (ctx.changedChildren p).isEmpty)).map (fun p => (o.prio p, p)) ++
      ctx.readyNodes.entries)
  potential : o.potential ctx' = o.potential ctx

theorem Notified.mem_changedChildren {o : Orchestrator ν} (h : o.Notified c ps ctx ctx') :
    d ∈ ctx'.changedChildren m ↔ d ∈ ctx.changedChildren m ∨ d = c ∧ m ∈ ps := by
  rw [h.changedChildren]
  split_ifs with hm
  · rw [mem_insert_iff, or_comm, and_iff_left hm]
  · rw [or_iff_left fun hd => hm hd.2]

theorem Notified.mem_queue {o : Orchestrator ν} (h : o.Notified c ps ctx ctx') :
    x ∈ ctx'.readyNodes.entries ↔ x ∈ ctx.readyNodes.entries ∨
      ∃ p ∈ ps, ctx.changedChildren p = [] ∧ x = (o.prio p, p) := by
  rw [h.queue.mem_iff, mem_append, mem_map, or_comm]
  simp only [mem_filter, List.isEmpty_iff, and_assoc, eq_comm (a := x)]

omit [DecidableEq ν] in
theorem countP_erase_one (p p' : ν → Bool) (a : ν) (l : List ν) (hl : l.Nodup) (ha : a ∈ l)
    (hpa : p a = true) (hpa' : p' a = false) (ho : ∀ m, m ≠ a → p' m = p m) :
    l.countP p = l.countP p' + 1 := by
  induction l with
  | nil => exact absurd ha not_mem_nil
  | cons b l ih =>
    obtain ⟨hb, hl⟩ := nodup_cons.mp hl
    rcases mem_cons.mp ha with rfl | ha
    · have ht : l.countP p = l.countP p' := by
        apply countP_congr
        intro m hm
        rw [ho m (fun h => hb (h ▸ hm))]
      rw [countP_cons_of_pos hpa, countP_cons_of_neg (by rw [hpa']; exact Bool.false_ne_true), ht]
    · have hne : b ≠ a := fun h => hb (h ▸ ha)
      rw [countP_cons, countP_cons, ih hl ha, ho b hne]
      omega

variable {o : Orchestrator ν}

theorem notifyParent_spec (h : o.Sound g data)
    (hp : p ∈ o.postOrder) (c : ν) (ctx : Context ν V T) :
    ∃ ctx', o.notifyParent c ctx p = .ok ctx' ∧ o.Notified c [p] ctx ctx' := by
  have hne : ∀ l : List ν, (l.insert c).isEmpty = false := by
    intro l
    rw [isEmpty_eq_false_iff_exists_mem]
    exact ⟨c, mem_insert_self⟩
  by_cases he : (ctx.changedChildren p).isEmpty = true
  · refine ⟨{ ctx with
      readyNodes := ctx.readyNodes.emplace (o.prio p) p
      changedChildren := fun m =>
        if m = p then (ctx.changedChildren m).insert c else ctx.changedChildren m }, ?_, ?_⟩
    · simp only [notifyParent, he, ↓reduceIte, h.priority hp]
      rfl
    · refine ⟨rfl, rfl, rfl, rfl, rfl, ?_, ?_, ?_⟩
      · intro m
        simp
      · simp only [filter_cons, he, ↓reduceIte, filter_nil, map_cons, map_nil, singleton_append]
        exact entries_emplace _ _ _
      · have hc := countP_erase_one (fun n => (ctx.changedChildren n).isEmpty)
          (fun m => ((if m = p then (ctx.changedChildren m).insert c
            else ctx.changedChildren m)).isEmpty) p o.postOrder h.nodup hp he
          (by simp only [↓reduceIte, hne]) (by intro m hm; simp only [hm, ↓reduceIte])
        have hl := (entries_emplace (o.prio p) p ctx.readyNodes).length_eq
        rw [length_cons] at hl
        simp only [potential]
        omega
  · refine ⟨{ ctx with
      changedChildren := fun m =>
        if m = p then (ctx.changedChildren m).insert c else ctx.changedChildren m }, ?_, ?_⟩
    · simp only [notifyParent, he, Bool.false_eq_true, ↓reduceIte]
      rfl
    · refine ⟨rfl, rfl, rfl, rfl, rfl, ?_, ?_, ?_⟩
      · intro m
        simp
      · simp only [filter_cons, he, Bool.false_eq_true, ↓reduceIte, filter_nil, map_nil, nil_append]
        exact List.Perm.refl _
      · simp only [potential]
        congr 1
        apply countP_congr
        intro m _
        by_cases hm : m = p
        · subst hm
          rw [if_pos rfl, hne, Bool.not_eq_true] at *
          rw [he]
        · rw [if_neg hm]

theorem Notified.cons (h : o.Notified c [p] ctx ctx₁) (h' : o.Notified c ps ctx₁ ctx₂)
    (hp : p ∉ ps) :
    o.Notified c (p :: ps) ctx ctx₂ where
  val := h'.val.trans h.val
  apply := h'.apply.trans h.apply
  changes := h'.changes.trans h.changes
  tables := h'.tables.trans h.tables
  evaluatedRoots := h'.evaluatedRoots.trans h.evaluatedRoots
  changedChildren m := by
    rw [h'.changedChildren, h.changedChildren]
    by_cases hm : m = p
    · subst hm
      simp [hp]
    · simp [hm]
  queue := by
    refine h'.queue.trans ?_
    have hf : ps.filter (fun p => (ctx₁.changedChildren p).isEmpty) =
        ps.filter (fun p => (ctx.changedChildren p).isEmpty) := by
      apply filter_congr
      intro m hm
      rw [h.changedChildren, if_neg]
      rw [mem_singleton]
      rintro rfl
      exact hp hm
    rw [hf, ← singleton_append, filter_append, map_append]
    refine (h.queue.append_left _).trans ?_
    rw [← append_assoc]
    exact perm_append_comm.append_right _
  potential := h'.potential.trans h.potential

theorem notifyParents_run (h : o.Sound g data)
    (c : ν) (ps : List ν) : ∀ ctx : Context ν V T, (∀ p ∈ ps, p ∈ o.postOrder) → ps.Nodup →
    ∃ ctx', ps.foldlM (o.notifyParent c) ctx = .ok ctx' ∧ o.Notified c ps ctx ctx' := by
  induction ps with
  | nil =>
    intro ctx _ _
    refine ⟨ctx, rfl, rfl, rfl, rfl, rfl, rfl, ?_, List.Perm.refl _, rfl⟩
    intro m
    rw [if_neg not_mem_nil]
  | cons p ps ih =>
    intro ctx hps hnd
    obtain ⟨hp, hnd⟩ := nodup_cons.mp hnd
    obtain ⟨ctx₁, h₁, hn₁⟩ := notifyParent_spec h (hps p mem_cons_self) c ctx
    obtain ⟨ctx₂, h₂, hn₂⟩ := ih ctx₁ (fun m hm => hps m (mem_cons_of_mem p hm)) hnd
    refine ⟨ctx₂, ?_, hn₁.cons hn₂ hp⟩
    rw [foldlM_cons, h₁]
    exact h₂

theorem notifyChange_spec (h : o.Sound g data) (c : ν) (ctx : Context ν V T) :
    ∃ ctx', o.notifyChange ctx c = .ok ctx' ∧ o.Notified c (o.nodeToParents c) ctx ctx' :=
  notifyParents_run h c _ ctx (fun p hp => ((h.parents c p).mp hp).1) (h.parents_nodup c)

end Orchestrator

end Rebalancer
