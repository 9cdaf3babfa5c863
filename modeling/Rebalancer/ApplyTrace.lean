import Rebalancer.Apply
import Rebalancer.EvaluateSequence

namespace Rebalancer
open List Context

def ExpressionGraph.Triggered (g : ExpressionGraph ν) (data : AffectedByChangeDecisionData)
    (cs : ChangeSet) (n : ν) : Prop :=
  ∃ d, g.Below n d ∧ 0 < nodePushes g data cs d

namespace Orchestrator
variable {ν V T σ A : Type} [DecidableEq ν] {g : ExpressionGraph ν}
  {data : AffectedByChangeDecisionData} {cs : ChangeSet} {o : Orchestrator ν} {nested : ν → List ν}

def waits (ctx : Context ν V T) (n : ν) : Nat := (ctx.readyNodes.entries.map Prod.snd).count n

/-- The nodes taken and those run account for the recorded runs and for every entry of the queue. -/
structure Trace (g : ExpressionGraph ν) (data : AffectedByChangeDecisionData) (cs : ChangeSet)
    (nested : ν → List ν) (o : Orchestrator ν) (popped ran : List ν) (st : ApplyState ν V T σ) :
    Prop where
  changes : st.ctx.changes = some cs
  queue : ∀ x ∈ st.ctx.readyNodes.entries, x.2 ∈ o.postOrder
  popped_mem : ∀ n ∈ popped, n ∈ o.postOrder
  count : ∀ n ∈ o.postOrder, popped.count n + waits st.ctx n =
    nodePushes g data cs n + if st.ctx.changedChildren n = [] then 0 else 1
  child : ∀ m c, c ∈ st.ctx.changedChildren m → c ∈ g.children m ∧ c ∈ popped
  runs : st.runs = ran.flatMap (fun n => n :: nested n)
  sublist : ran.Sublist popped

theorem Trace.start {pushed : List ν}
    (hco : ∀ n, pushed.count n = if n ∈ o.postOrder then nodePushes g data cs n else 0)
    (hp : q.entries.Perm (pushed.map (fun n => (o.prio n, n)))) (s : ν → σ) :
    Trace g data cs nested o [] []
      (⟨(.new cs : Context ν V T).setReady q, s, []⟩ : ApplyState ν V T σ) where
  changes := rfl
  queue x hx := by
    obtain ⟨n, hn, rfl⟩ := mem_map.mp (hp.mem_iff.mp hx)
    by_contra hno
    have hzero := hco n
    rw [if_neg hno] at hzero
    exact count_eq_zero.mp hzero hn
  popped_mem n hn := absurd hn not_mem_nil
  count n hn := by
    have hm : (pushed.map (fun n => (o.prio n, n))).map Prod.snd = pushed := by
      rw [map_map]
      exact map_id pushed
    have hnil : (new cs : Context ν V T).changedChildren n = [] := rfl
    simp [waits, setReady_readyNodes, setReady_changedChildren, hnil, (hp.map Prod.snd).count_eq,
      hm, hco, hn]
  child m c hc := absurd hc not_mem_nil
  runs := rfl
  sublist := List.Sublist.refl []

theorem Notified.waits_eq (h : o.Sound g data)
    (hn : o.Notified c (o.nodeToParents c) ctx ctx') (m : ν) : waits ctx' m = waits ctx m +
      if m ∈ o.nodeToParents c ∧ ctx.changedChildren m = [] then 1 else 0 := by
  have hm : ∀ l : List ν, (l.map (fun p => (o.prio p, p))).map Prod.snd = l := by
    intro l
    rw [map_map]
    exact map_id l
  rw [waits, (hn.queue.map Prod.snd).count_eq, map_append, count_append, hm,
    Nat.add_comm, count_filter_ite, (h.parents_nodup c).count]
  simp only [waits, List.isEmpty_iff]
  by_cases he : ctx.changedChildren m = [] <;> by_cases hp : m ∈ o.nodeToParents c <;> simp [he, hp]

theorem Trace.step (h : o.Sound g data) (ht : Trace g data cs nested o p' ran st)
    (ran₁ : List ν) (hq : st.ctx.readyNodes.entries = x :: q.entries)
    (ha : o.Applied es x.2 q st r t st')
    (hr : t = ran₁.flatMap (fun n => n :: nested n)) (hsub : ran₁.Sublist [x.2]) :
    Trace g data cs nested o (p' ++ [x.2]) (ran ++ ran₁) st' := by
  have hmem := ht.queue x (by rw [hq]; exact mem_cons_self)
  have hq' : ∀ y ∈ q.entries, y.2 ∈ o.postOrder := by
    intro y hy
    exact ht.queue y (by rw [hq]; exact mem_cons_of_mem x hy)
  have hw : ∀ n, waits st.ctx n = waits (st.ctx.setReady q) n + if x.2 = n then 1 else 0 := by
    intro n
    simp only [waits, hq, setReady_readyNodes, map_cons, count_cons, beq_iff_eq]
  have hpop : ∀ n, (p' ++ [x.2]).count n = p'.count n + if x.2 = n then 1 else 0 := by
    intro n
    simp only [count_append, count_singleton, beq_iff_eq]
  have hctx : st'.ctx.changes = some cs ∧ (∀ y ∈ st'.ctx.readyNodes.entries, y.2 ∈ o.postOrder) ∧
      (∀ n ∈ o.postOrder, (p' ++ [x.2]).count n + waits st'.ctx n =
        nodePushes g data cs n + if st'.ctx.changedChildren n = [] then 0 else 1) ∧
      ∀ m c, c ∈ st'.ctx.changedChildren m → c ∈ g.children m ∧ c ∈ p' ++ [x.2] := by
    have hchild : ∀ m c, c ∈ st.ctx.changedChildren m → c ∈ g.children m ∧ c ∈ p' ++ [x.2] := by
      intro m c hc
      exact ⟨(ht.child m c hc).1, mem_append_left _ (ht.child m c hc).2⟩
    by_cases hs : es.value (st.store x.2) = r.1
    · rw [ha.same hs]
      refine ⟨ht.changes, hq', ?_, hchild⟩
      intro n hn
      have hc := ht.count n hn
      rw [hw n] at hc
      rw [hpop]
      change _ = _ + if st.ctx.changedChildren n = [] then 0 else 1
      omega
    · have hnot := ha.notify hs
      refine ⟨hnot.changes.trans ht.changes, ?_, ?_, ?_⟩
      · intro y hy
        rcases hnot.mem_queue.mp hy with hy | ⟨p, hp, -, rfl⟩
        · exact hq' y hy
        · exact ((h.parents x.2 p).mp hp).1
      · intro n hn
        have hc := ht.count n hn
        have hi : (st.ctx.changedChildren n).insert x.2 ≠ [] := ne_nil_of_mem mem_insert_self
        have hsave : waits ((st.ctx.setReady q).saveApply x.2 r.1) n =
          waits (st.ctx.setReady q) n := rfl
        rw [hpop, hnot.waits_eq h, hnot.changedChildren, hsave]
        rw [hw n] at hc
        simp only [saveApply_changedChildren, setReady_changedChildren]
        by_cases hp : n ∈ o.nodeToParents x.2
        · by_cases he : st.ctx.changedChildren n = []
          · simp only [hp, he, and_self, ↓reduceIte] at hc ⊢
            rw [he] at hi
            rw [if_neg hi]
            omega
          · simp only [hp, he, hi, and_false, ↓reduceIte] at hc ⊢
            omega
        · simp only [hp, false_and, ↓reduceIte]
          omega
      · intro m c hc
        rcases hnot.mem_changedChildren.mp hc with hc | ⟨rfl, hp⟩
        · exact hchild m c hc
        · exact ⟨((h.parents _ m).mp hp).2, mem_append_right _ mem_cons_self⟩
  obtain ⟨hchanges, hqueue, hcount, hchild⟩ := hctx
  refine ⟨hchanges, hqueue, ?_, hcount, hchild, ?_, ht.sublist.append hsub⟩
  · intro n hn
    rcases mem_append.mp hn with hn | hn
    · exact ht.popped_mem n hn
    · rw [mem_singleton.mp hn]
      exact hmem
  · rw [ha.runs, ht.runs, hr, flatMap_append]

theorem Trace.popped_count (ht : Trace g data cs nested o p ran st)
    (hnil : st.ctx.readyNodes.entries = []) (hn : n ∈ o.postOrder) :
    p.count n = nodePushes g data cs n + if st.ctx.changedChildren n = [] then 0 else 1 := by
  have hc := ht.count n hn
  rwa [waits, hnil, map_nil, count_nil, Nat.add_zero] at hc

theorem Trace.triggered (ht : Trace g data cs nested o p ran st) :
    ∀ d n, g.depth n < d → n ∈ p → g.Triggered data cs n := by
  intro d
  induction d with
  | zero =>
    intro n hd
    exact absurd hd (Nat.not_lt_zero _)
  | succ d ih =>
    intro n hd hn
    have hcount := ht.count n (ht.popped_mem n hn)
    have hpos := count_pos_iff.mpr hn
    by_cases hp : 0 < nodePushes g data cs n
    · exact ⟨n, .refl, hp⟩
    · have hne : st.ctx.changedChildren n ≠ [] := by
        intro he
        rw [if_pos he] at hcount
        omega
      obtain ⟨c, hc⟩ := exists_mem_of_ne_nil _ hne
      obtain ⟨hch, hcp⟩ := ht.child n c hc
      have hdepth := g.depth_lt n c hch
      obtain ⟨m, hm, hpm⟩ := ih c (by omega) hcp
      exact ⟨m, .head hch hm, hpm⟩

/-- One call of `apply` runs no `partialApply` twice, whatever the nodes compute and store. -/
def RunsOnce (o : Orchestrator ν) (cs : ChangeSet) (nested : ν → List ν) : Prop :=
  ∀ (V T σ A : Type) [DecidableEq V] (exprs : ApplyExpressions ν V T σ A),
    exprs.nested = nested → ∀ (a : A) (store : ν → σ),
      ∃ st, o.apply exprs a (.new cs : Context ν V T) store = .ok st ∧ st.runs.Nodup

/-- No node is pushed twice, and triggered nodes run neither below a pushed one nor inside two
others. -/
structure RunsApart (g : ExpressionGraph ν) (data : AffectedByChangeDecisionData) (cs : ChangeSet)
    (roots : List ν) (nested : ν → List ν) : Prop where
  pushes_le_one : ∀ n, g.Reached roots n → nodePushes g data cs n ≤ 1
  pushed_lowest : ∀ n, g.Reached roots n → 0 < nodePushes g data cs n →
    ∀ c ∈ g.children n, ¬ g.Triggered data cs c
  nested_nodup : ∀ n, g.Reached roots n → g.Triggered data cs n → (n :: nested n).Nodup
  nested_disjoint : ∀ n m, g.Reached roots n → g.Triggered data cs n → g.Reached roots m →
    g.Triggered data cs m → n ≠ m → (n :: nested n).Disjoint (m :: nested m)

theorem Trace.runs_nodup {rs : List ν} (ht : Trace g data cs nested o p ran st)
    (hre : ∀ n, n ∈ o.postOrder ↔ g.Reached rs n) (hs : RunsApart g data cs rs nested) :
    st.runs.Nodup := by
  have htrig : ∀ n ∈ p, g.Triggered data cs n := fun n hn =>
    ht.triggered _ n (Nat.lt_succ_self _) hn
  have hpopped : p.Nodup := by
    rw [nodup_iff_count_le_one]
    intro n
    by_cases hn : n ∈ p
    · have hmem := ht.popped_mem n hn
      have hr := (hre n).mp hmem
      have hcount := ht.count n hmem
      have hle := hs.pushes_le_one n hr
      by_cases hp : 0 < nodePushes g data cs n
      · have hnil : st.ctx.changedChildren n = [] := by
          by_contra hne
          obtain ⟨c, hc⟩ := exists_mem_of_ne_nil _ hne
          obtain ⟨hch, hcp⟩ := ht.child n c hc
          exact hs.pushed_lowest n hr hp c hch (htrig c hcp)
        rw [if_pos hnil] at hcount
        omega
      · split at hcount <;> omega
    · rw [count_eq_zero.mpr hn]
      exact Nat.zero_le 1
  have hran : ran.Nodup := hpopped.sublist ht.sublist
  have hmem : ∀ n ∈ ran, g.Reached rs n ∧ g.Triggered data cs n := by
    intro n hn
    have hp := ht.sublist.subset hn
    exact ⟨(hre n).mp (ht.popped_mem n hp), htrig n hp⟩
  rw [ht.runs, nodup_flatMap]
  refine ⟨fun n hn => hs.nested_nodup n (hmem n hn).1 (hmem n hn).2, ?_⟩
  apply hran.imp_of_mem
  intro n m hn hm hne
  exact hs.nested_disjoint n m (hmem n hn).1 (hmem n hn).2 (hmem m hm).1 (hmem m hm).2 hne

theorem apply_runs_nodup {rs : List ν} [DecidableEq V] (h : o.Sound g data)
    (hre : ∀ n, n ∈ o.postOrder ↔ g.Reached rs n) (es : ApplyExpressions ν V T σ A)
    (hs : RunsApart g data cs rs es.nested) (a : A) (s : ν → σ) :
    ∃ st, o.apply es a (.new cs : Context ν V T) s = .ok st ∧ st.runs.Nodup := by
  obtain ⟨q, pushed, hl, hp, hcount⟩ := computeAllChangedLeaves_spec (V := V) (T := T) h cs
  obtain ⟨st, hloop, ⟨p, ran, ht⟩, -⟩ := applyLoop_rule o es a
    (fun st => ∃ p ran, Trace g data cs es.nested o p ran st) (by
      rintro st x q ⟨p, ran, ht⟩ hq -
      cases hc : st.ctx.apply x.2 with
      | some v =>
        obtain ⟨st', hr, ha⟩ := applyReady_cached h es a hc q
        exact ⟨st', hr, ⟨_, _, ht.step h [] hq ha rfl (nil_sublist _)⟩, ha.potential hq⟩
      | none =>
        obtain ⟨st', hr, ha⟩ := applyReady_run h es a hc ht.changes q
        refine ⟨st', hr, ⟨_, _, ht.step h [x.2] hq ha ?_ (List.Sublist.refl _)⟩, ha.potential hq⟩
        rw [flatMap_cons, flatMap_nil, append_nil])
    _ _ ⟨[], [], Trace.start hcount hp s⟩ (potential_lt_loopFuel o _)
  refine ⟨st, ?_, ht.runs_nodup hre hs⟩
  rw [apply, hl]
  exact hloop

end Orchestrator

end Rebalancer
