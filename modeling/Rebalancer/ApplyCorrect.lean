import Rebalancer.Apply
import Rebalancer.EvaluateSequence

namespace Rebalancer
open List Context

namespace Orchestrator

/-- One application of changes: `Old` and `New` say which states of a node correspond to the
assignment before and after it. -/
structure ApplySetting (ν V T σ A : Type) where
  graph : ExpressionGraph ν
  data : AffectedByChangeDecisionData
  exprs : ApplyExpressions ν V T σ A
  assignment : A
  changes : ChangeSet
  oldValue : ν → V
  newValue : ν → V
  Old : ν → σ → Prop
  New : ν → σ → Prop

namespace ApplySetting
variable {ν V T σ A : Type}

section
variable (S : ApplySetting ν V T σ A) (n : ν)

def Changed : Prop := S.newValue n ≠ S.oldValue n

def Pushed : Prop := 0 < nodePushes S.graph S.data S.changes n

def Queueable : Prop := S.Pushed n ∨ ∃ c ∈ S.graph.children n, S.Changed c

end

/-- Everything below the node holds its new state, and the sets of changed children are exact. -/
structure Available (S : ApplySetting ν V T σ A) (n : ν) (view : EvaluatorView ν V T)
    (store : ν → σ) : Prop where
  state : ∀ d, S.graph.StrictlyBelow n d → S.New d (store d)
  value : ∀ d, S.graph.StrictlyBelow n d → view.value d = S.newValue d
  changedChildren : ∀ m, S.graph.Below n m → ∀ c,
    c ∈ view.changedChildren m ↔ c ∈ S.graph.children m ∧ S.Changed c

section
variable (S : ApplySetting ν V T σ A)

def AppliesRight (n : ν) : Prop := ∀ view store, S.Available n view store → S.Old n (store n) →
    (S.exprs.partialApply n view S.assignment S.changes store).1 = S.newValue n ∧
    S.New n ((S.exprs.partialApply n view S.assignment S.changes store).2 n) ∧
    ∀ m, m ≠ n → (S.exprs.partialApply n view S.assignment S.changes store).2 m = store m

/-- Running the node's `partialApply` again with the same changes alters nothing. Only a node
that kept its value is ever run again. -/
def AppliesAgain (n : ν) : Prop :=
  ¬ S.Changed n → ∀ view store, S.Available n view store → S.New n (store n) →
    S.exprs.partialApply n view S.assignment S.changes store = (S.newValue n, store)

def Handled (st : ApplyState ν V T σ) (n : ν) : Prop :=
  S.New n (st.store n) ∧ (S.Changed n → st.ctx.apply n = some (S.newValue n))

end

structure Assumed (S : ApplySetting ν V T σ A) (o : Orchestrator ν) : Prop where
  old_value : ∀ n ∈ o.postOrder, ∀ s, S.Old n s → S.exprs.value s = S.oldValue n
  new_value : ∀ n ∈ o.postOrder, ∀ s, S.New n s → S.exprs.value s = S.newValue n
  keeps : ∀ n ∈ o.postOrder, ¬ S.Queueable n → ∀ s, S.Old n s → S.New n s
  right : ∀ n ∈ o.postOrder, S.AppliesRight n
  again : ∀ n ∈ o.postOrder, S.AppliesAgain n

structure Inv [DecidableEq ν] (S : ApplySetting ν V T σ A) (o : Orchestrator ν) (store : ν → σ)
    (st : ApplyState ν V T σ) : Prop where
  changes : st.ctx.changes = some S.changes
  queue : ∀ x ∈ st.ctx.readyNodes.entries, x.2 ∈ o.postOrder ∧ x.1 = o.prio x.2 ∧ S.Queueable x.2
  cached : ∀ n v, st.ctx.apply n = some v → v = S.newValue n ∧ S.Changed n
  state : ∀ n ∈ o.postOrder, S.Handled st n ∨ S.Old n (st.store n) ∧ st.ctx.apply n = none
  child : ∀ m c, c ∈ st.ctx.changedChildren m →
    c ∈ S.graph.children m ∧ ∃ v, st.ctx.apply c = some v
  notified : ∀ c v, st.ctx.apply c = some v → ∀ m ∈ o.postOrder, c ∈ S.graph.children m →
    c ∈ st.ctx.changedChildren m
  pushed : ∀ n ∈ o.postOrder, S.Pushed n →
    (o.prio n, n) ∈ st.ctx.readyNodes.entries ∨ S.Handled st n
  waiting : ∀ n ∈ o.postOrder, st.ctx.changedChildren n ≠ [] →
    (o.prio n, n) ∈ st.ctx.readyNodes.entries ∨ S.Handled st n
  untouched : ∀ n, ¬ S.Queueable n → st.store n = store n

end ApplySetting

section
variable {ν V T σ A : Type} [DecidableEq ν] {S : ApplySetting ν V T σ A} {o : Orchestrator ν}
  {store : ν → σ}

omit [DecidableEq ν] in
theorem ApplySetting.Assumed.cause (ha : S.Assumed o) (hs : ∀ n ∈ o.postOrder, S.Old n (store n))
    (hn : n ∈ o.postOrder) (hch : S.Changed n) : S.Queueable n := by
  by_contra hno
  have hnew := ha.new_value n hn _ (ha.keeps n hn hno _ (hs n hn))
  rw [ha.old_value n hn _ (hs n hn)] at hnew
  exact hch hnew.symm

def ApplySetting.Inv.propagation (h : o.Sound S.graph S.data)
    (hcause : ∀ n ∈ o.postOrder, S.Changed n → S.Queueable n) (hinv : S.Inv o store st) :
    Propagation S.graph where
  Fed n := n ∈ o.postOrder
  Pushed := S.Pushed
  Changed := S.Changed
  Saved n := st.ctx.apply n = some (S.newValue n)
  Handled := S.Handled st
  InQueue n := (o.prio n, n) ∈ st.ctx.readyNodes.entries
  fed_child n c hn hc := (h.child n hn c hc).1
  cause := hcause
  pushed := hinv.pushed
  notified n c hn hc hs := hinv.waiting n hn (ne_nil_of_mem (hinv.notified c _ hs n hn hc))
  handled _ _ hh := hh.2

theorem ApplySetting.Inv.new_of_quiet (h : o.Sound S.graph S.data) (ha : S.Assumed o)
    (hc : ∀ n ∈ o.postOrder, S.Changed n → S.Queueable n) (hi : S.Inv o store st)
    (hn : n ∈ o.postOrder)
    (hqu : ∀ m, S.graph.Below n m → (o.prio m, m) ∉ st.ctx.readyNodes.entries) :
    S.Handled st n := by
  by_cases hq : S.Queueable n
  · rcases (hi.propagation h hc).handled_or_pending _ n (Nat.lt_succ_self _) hn hq
      with hh | ⟨m, hm, hin⟩
    · exact hh
    · exact absurd hin (hqu m hm)
  · rcases hi.state n hn with hh | ⟨hold, -⟩
    · exact hh
    · exact ⟨ha.keeps n hn hq _ hold, fun hch => absurd (hc n hn hch) hq⟩

theorem ApplySetting.Inv.available (h : o.Sound S.graph S.data) (ha : S.Assumed o)
    (hca : ∀ n ∈ o.postOrder, S.Changed n → S.Queueable n) (hi : S.Inv o store st)
    (hn : n ∈ o.postOrder) (ht : ∀ x ∈ st.ctx.readyNodes.entries, x.1 ≤ o.prio n) :
    S.Available n (st.view S.exprs) st.store := by
  have hh : ∀ d, S.graph.StrictlyBelow n d → S.Handled st d := by
    intro d hd
    refine hi.new_of_quiet h ha hca (h.below_mem hn (.of_strictly hd)).1 ?_
    intro m hm hq
    obtain ⟨c, hc, hcd⟩ := hd
    exact absurd (h.prio_strictly hn ⟨c, hc, hcd.trans hm⟩) (not_lt_of_ge (ht _ hq))
  refine ⟨fun d hd => (hh d hd).1, ?_, ?_⟩
  · intro d hd
    simp only [ApplyState.view, applyView]
    cases hv : st.ctx.apply d with
    | some v => exact (hi.cached d v hv).1
    | none => exact ha.new_value d (h.below_mem hn (.of_strictly hd)).1 _ (hh d hd).1
  · intro m hm c
    constructor
    · intro hc
      obtain ⟨hch, v, hv⟩ := hi.child m c hc
      exact ⟨hch, (hi.cached c v hv).2⟩
    · rintro ⟨hc, hch⟩
      exact hi.notified c _ ((hh c (hm.strictly hc)).2 hch) m (h.below_mem hn hm).1 hc

structure ApplySetting.Step (S : ApplySetting ν V T σ A) (o : Orchestrator ν) (expr : ν)
    (q : BucketedPriorityQueue PriorityInfo ν) (st st' : ApplyState ν V T σ) : Prop where
  changes : st'.ctx.changes = st.ctx.changes
  apply : ∀ m v, st'.ctx.apply m = some v ↔
    st.ctx.apply m = some v ∨ m = expr ∧ S.Changed expr ∧ v = S.newValue expr
  state : S.New expr (st'.store expr)
  store : ∀ m, m ≠ expr → st'.store m = st.store m
  changedChildren : ∀ m c, c ∈ st'.ctx.changedChildren m ↔
    c ∈ st.ctx.changedChildren m ∨ S.Changed expr ∧ c = expr ∧ m ∈ o.nodeToParents expr
  queue : ∀ x, x ∈ st'.ctx.readyNodes.entries ↔ x ∈ q.entries ∨ S.Changed expr ∧
    ∃ p ∈ o.nodeToParents expr, st.ctx.changedChildren p = [] ∧ x = (o.prio p, p)

theorem ApplySetting.Step.idle (h : o.Sound S.graph S.data) (hi : S.Inv o store st)
    (hh : S.Handled st expr) (hctx : st'.ctx = st.ctx.setReady q)
    (hst : st'.store = st.store) : S.Step o expr q st st' := by
  have hs : S.Changed expr → ∀ m ∈ o.nodeToParents expr, expr ∈ st.ctx.changedChildren m := by
    intro hch m hm
    obtain ⟨hmem, hc⟩ := (h.parents expr m).mp hm
    exact hi.notified expr _ (hh.2 hch) m hmem hc
  refine ⟨?_, ?_, ?_, ?_, ?_, ?_⟩
  · rw [hctx, setReady_changes]
  · intro m v
    rw [hctx]
    refine (or_iff_left_of_imp ?_).symm
    rintro ⟨rfl, hch, rfl⟩
    exact hh.2 hch
  · rw [hst]
    exact hh.1
  · intro m _
    rw [hst]
  · intro m c
    rw [hctx]
    refine (or_iff_left_of_imp ?_).symm
    rintro ⟨hch, rfl, hm⟩
    exact hs hch m hm
  · intro x
    rw [hctx]
    refine (or_iff_left ?_).symm
    rintro ⟨hch, p, hp, hn, -⟩
    exact ne_nil_of_mem (hs hch p hp) hn

theorem ApplySetting.Step.first (ha : o.Applied S.exprs expr q st r ran st')
    (hno : st.ctx.apply expr = none) (hold : S.exprs.value (st.store expr) = S.oldValue expr)
    (hv : r.1 = S.newValue expr) (hnew : S.New expr (r.2 expr))
    (ho : ∀ m, m ≠ expr → r.2 m = st.store m) : S.Step o expr q st st' := by
  by_cases hch : S.Changed expr
  · have hn := ha.notify (by rw [hold, hv]; exact hch.symm)
    refine ⟨hn.changes, ?_, ?_, ?_, ?_, ?_⟩
    · intro m v
      rw [hn.apply, saveApply_apply, setReady_apply,
        Table.emplace_eq_some fun w hw => (Option.some_ne_none w (hw.symm.trans hno)).elim, hv,
        and_iff_right hch]
    · rw [ha.store]
      exact hnew
    · intro m hm
      rw [ha.store]
      exact ho m hm
    · intro m c
      rw [hn.mem_changedChildren, and_iff_right hch]
      rfl
    · intro y
      rw [hn.mem_queue, and_iff_right hch]
      rfl
  · have hc := ha.same (by
      rw [hold, hv]
      by_contra hne
      exact hch (fun heq => hne heq.symm))
    refine ⟨?_, ?_, ?_, ?_, ?_, ?_⟩
    · rw [hc, setReady_changes]
    · intro m v
      simp [hc, setReady_apply, hch]
    · rw [ha.store]
      exact hnew
    · intro m hm
      rw [ha.store]
      exact ho m hm
    · intro m c
      simp [hc, setReady_changedChildren, hch]
    · intro y
      simp [hc, setReady_readyNodes, hch]

theorem ApplySetting.Step.handled (hs : S.Step o expr q st st') (hh : S.Handled st n) :
    S.Handled st' n := by
  refine ⟨?_, fun hch => (hs.apply n _).mpr (.inl (hh.2 hch))⟩
  by_cases hn : n = expr
  · subst hn
    exact hs.state
  · rw [hs.store n hn]
    exact hh.1

theorem ApplySetting.Inv.step (h : o.Sound S.graph S.data) (hi : S.Inv o store st)
    (hs : S.Step o expr q st st')
    (hq : st.ctx.readyNodes.entries = (o.prio expr, expr) :: q.entries) : S.Inv o store st' := by
  have he : S.Handled st' expr :=
    ⟨hs.state, fun hch => (hs.apply expr _).mpr (.inr ⟨rfl, hch, rfl⟩)⟩
  obtain ⟨-, -, hqueueable⟩ := hi.queue (o.prio expr, expr) (by
    rw [hq]
    exact mem_cons_self)
  have hk : ∀ n, (o.prio n, n) ∈ st.ctx.readyNodes.entries ∨ S.Handled st n →
      (o.prio n, n) ∈ st'.ctx.readyNodes.entries ∨ S.Handled st' n := by
    rintro n (hin | hh)
    · rw [hq] at hin
      rcases mem_cons.mp hin with heq | hin
      · have hn : n = expr := (Prod.mk.inj heq).2
        rw [hn]
        exact .inr he
      · exact .inl ((hs.queue _).mpr (.inl hin))
    · exact .inr (hs.handled hh)
  refine ⟨hs.changes.trans hi.changes, ?_, ?_, ?_, ?_, ?_, ?_, ?_, ?_⟩
  · intro x hx
    rcases (hs.queue x).mp hx with hx | ⟨hch, p, hp, -, rfl⟩
    · apply hi.queue x
      rw [hq]
      exact mem_cons_of_mem _ hx
    · obtain ⟨hmem, hc⟩ := (h.parents expr p).mp hp
      exact ⟨hmem, rfl, .inr ⟨expr, hc, hch⟩⟩
  · intro n v hv
    rcases (hs.apply n v).mp hv with hv | ⟨rfl, hch, rfl⟩
    · exact hi.cached n v hv
    · exact ⟨rfl, hch⟩
  · intro n hn
    by_cases hne : n = expr
    · rw [hne]
      exact .inl he
    · rcases hi.state n hn with hh | ⟨hold, hnone⟩
      · exact .inl (hs.handled hh)
      · refine .inr ⟨by rw [hs.store n hne]; exact hold, ?_⟩
        cases hv : st'.ctx.apply n with
        | none => rfl
        | some v =>
          rcases (hs.apply n v).mp hv with hv | ⟨heq, -⟩
          · rw [hnone] at hv
            cases hv
          · exact absurd heq hne
  · intro m c hc
    rcases (hs.changedChildren m c).mp hc with hc | ⟨hch, rfl, hp⟩
    · obtain ⟨hch, v, hv⟩ := hi.child m c hc
      exact ⟨hch, v, (hs.apply c v).mpr (.inl hv)⟩
    · exact ⟨((h.parents c m).mp hp).2, _, (hs.apply c _).mpr (.inr ⟨rfl, hch, rfl⟩)⟩
  · intro c v hv m hm hc
    apply (hs.changedChildren m c).mpr
    rcases (hs.apply c v).mp hv with hv | ⟨rfl, hch, -⟩
    · exact .inl (hi.notified c v hv m hm hc)
    · exact .inr ⟨hch, rfl, (h.parents c m).mpr ⟨hm, hc⟩⟩
  · intro n hn hp
    exact hk n (hi.pushed n hn hp)
  · intro n hn hne
    by_cases hold : st.ctx.changedChildren n = []
    · obtain ⟨c, hc⟩ := exists_mem_of_ne_nil _ hne
      rcases (hs.changedChildren n c).mp hc with hc | ⟨hch, rfl, hp⟩
      · rw [hold] at hc
        exact absurd hc not_mem_nil
      · exact .inl ((hs.queue _).mpr (.inr ⟨hch, n, hp, hold, rfl⟩))
    · exact hk n (hi.waiting n hn hold)
  · intro n hn
    rw [hs.store n (fun heq => hn (heq ▸ hqueueable))]
    exact hi.untouched n hn

theorem ApplySetting.Inv.start {pushed : List ν}
    (hs : ∀ n ∈ o.postOrder, S.Old n (store n)) (hco : ∀ n, pushed.count n =
      if n ∈ o.postOrder then nodePushes S.graph S.data S.changes n else 0)
    (hpe : q.entries.Perm (pushed.map (fun n => (o.prio n, n)))) :
    S.Inv o store ⟨(.new S.changes : Context ν V T).setReady q, store, []⟩ where
  changes := rfl
  queue x hx := by
    obtain ⟨n, hn, rfl⟩ := mem_map.mp (hpe.mem_iff.mp hx)
    have hpos := count_pos_iff.mpr hn
    rw [hco n] at hpos
    split_ifs at hpos with hmem
    · exact ⟨hmem, rfl, .inl hpos⟩
    · exact absurd hpos (Nat.lt_irrefl 0)
  cached n v hv := by cases hv
  state n hn := .inr ⟨hs n hn, rfl⟩
  child m c hc := absurd hc not_mem_nil
  notified c v hv := by cases hv
  pushed n hn hp := by
    have hmem : n ∈ pushed := by
      rw [← count_pos_iff, hco n, if_pos hn]
      exact hp
    exact .inl (hpe.mem_iff.mpr (mem_map.mpr ⟨n, hmem, rfl⟩))
  waiting n _ hne := absurd rfl hne
  untouched n _ := rfl

variable [DecidableEq V]

theorem ApplySetting.Inv.iterate (h : o.Sound S.graph S.data) (ha : S.Assumed o)
    (hca : ∀ n ∈ o.postOrder, S.Changed n → S.Queueable n) (hi : S.Inv o store st)
    (hq : st.ctx.readyNodes.entries = x :: q.entries)
    (hm : ∀ y ∈ st.ctx.readyNodes.entries, y.1 ≤ x.1) :
    ∃ st', o.applyReady S.exprs S.assignment (st.setReady q) x.2 = .ok st' ∧
      S.Inv o store st' ∧ o.potential st'.ctx + 1 = o.potential st.ctx := by
  obtain ⟨p, expr⟩ := x
  obtain ⟨hmem, hp, -⟩ := hi.queue (p, expr) (by rw [hq]; exact mem_cons_self)
  change p = o.prio expr at hp
  subst hp
  have hav := hi.available h ha hca hmem hm
  cases hc : st.ctx.apply expr with
  | some v =>
    obtain ⟨hv, hch⟩ := hi.cached expr v hc
    have hh : S.Handled st expr := by
      rcases hi.state expr hmem with hh | ⟨-, hnone⟩
      · exact hh
      · rw [hc] at hnone
        cases hnone
    obtain ⟨st', hr, happ⟩ := applyReady_cached h S.exprs S.assignment hc q
    have hctx := happ.same ((ha.new_value expr hmem _ hh.1).trans hv.symm)
    exact ⟨st', hr, hi.step h (.idle h hi hh hctx happ.store) hq, happ.potential hq⟩
  | none =>
    obtain ⟨st', hr, happ⟩ := applyReady_run h S.exprs S.assignment hc hi.changes q
    rcases hi.state expr hmem with hh | ⟨hold, -⟩
    · have hch : ¬ S.Changed expr := by
        intro hch
        rw [hh.2 hch] at hc
        cases hc
      rw [ha.again expr hmem hch _ _ hav hh.1] at happ
      have hctx := happ.same (ha.new_value expr hmem _ hh.1)
      exact ⟨st', hr, hi.step h (.idle h hi hh hctx happ.store) hq, happ.potential hq⟩
    · obtain ⟨hvalue, hn, hother⟩ := ha.right expr hmem _ _ hav hold
      exact ⟨st', hr, hi.step h (.first happ hc (ha.old_value expr hmem _ hold) hvalue
        hn hother) hq, happ.potential hq⟩

/-- One call of `apply` brings every node up to date and leaves alone the nodes that the changes
do not touch. -/
theorem ApplySetting.apply_spec (S : ApplySetting ν V T σ A) (store : ν → σ)
    (h : o.Sound S.graph S.data) (ha : S.Assumed o) (hs : ∀ n ∈ o.postOrder, S.Old n (store n)) :
    ∃ st, o.apply S.exprs S.assignment (.new S.changes : Context ν V T) store = .ok st ∧
      (∀ n ∈ o.postOrder, S.New n (st.store n)) ∧ ∀ n, ¬ S.Queueable n → st.store n = store n := by
  have hcause : ∀ n ∈ o.postOrder, S.Changed n → S.Queueable n :=
    fun n hn hch => ha.cause hs hn hch
  obtain ⟨q, p, hl, hp, hc⟩ := computeAllChangedLeaves_spec (V := V) (T := T) h S.changes
  obtain ⟨st, hloop, hinv, hnil⟩ := applyLoop_rule o S.exprs S.assignment (S.Inv o store)
    (fun st x q hinv hq hm => hinv.iterate h ha hcause hq hm) _ _
    (.start hs hc hp) (potential_lt_loopFuel o _)
  refine ⟨st, ?_, ?_, hinv.untouched⟩
  · simp only [apply, hl, except_ok_bind]
    exact hloop
  · intro n hn
    refine (hinv.new_of_quiet h ha hcause hn ?_).1
    intro m _
    rw [hnil]
    exact not_mem_nil

end

end Orchestrator

end Rebalancer
