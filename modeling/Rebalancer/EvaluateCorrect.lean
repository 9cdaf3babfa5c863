import Rebalancer.OrchestratorSpec
import Rebalancer.Propagation

namespace Rebalancer
open List PriorityInfo Nat BucketedPriorityQueue

namespace Orchestrator
variable {ν V T : Type} [DecidableEq ν]

/-- The values and tables that the changed assignment really has, with what an evaluation is given.
-/
structure Setting (ν V T : Type) where
  graph : ExpressionGraph ν
  data : AffectedByChangeDecisionData
  exprs : Expressions ν V T
  changes : ChangeSet
  newValue : ν → V
  tables : ν → Option T

namespace Setting

section
variable (S : Setting ν V T) (n : ν)

def Changed : Prop := S.newValue n ≠ S.exprs.value n

def Pushed : Prop := 0 < nodePushes S.graph S.data S.changes n

def Queueable : Prop := S.Pushed n ∨ ∃ c ∈ S.graph.children n, S.Changed c

end

/-- Everything below the node is available: new values, changed children and temporary tables. -/
structure Available (S : Setting ν V T) (n : ν) (view : EvaluatorView ν V T) : Prop where
  value : ∀ d, S.graph.StrictlyBelow n d → view.value d = S.newValue d
  changedChildren : ∀ m, S.graph.Below n m → ∀ c,
    c ∈ view.changedChildren m ↔ c ∈ S.graph.children m ∧ S.Changed c
  table : ∀ d, S.graph.StrictlyBelow n d → S.Queueable d → view.tempTrafficTable d = S.tables d
  tables_right : ∀ d t, view.tempTrafficTable d = some t → S.tables d = some t

def EvaluatesRight (S : Setting ν V T) (n : ν) : Prop := ∀ view, S.Available n view →
    (S.exprs.evaluate n view S.changes).1 = S.newValue n ∧
    (∀ save ∈ (S.exprs.evaluate n view S.changes).2, S.tables save.1 = some save.2) ∧
    ∀ t, S.tables n = some t → (n, t) ∈ (S.exprs.evaluate n view S.changes).2

def Handled (S : Setting ν V T) (ctx : Context ν V T) (n : ν) : Prop :=
  (S.Changed n → ctx.val n = some (S.newValue n)) ∧ ctx.groupToTempTrafficTable n = S.tables n

/-- The context between two steps of an evaluation, when the leaves of the first `e` roots have
been pushed. -/
structure Inv (S : Setting ν V T) (o : Orchestrator ν) (e : Nat) (ctx : Context ν V T) : Prop where
  changes : ctx.changes = some S.changes
  queue : ∀ x ∈ ctx.readyNodes.entries, x.2 ∈ o.postOrder ∧ x.1 = o.prio x.2
  val : ∀ n v, ctx.val n = some v → v = S.newValue n ∧ S.Changed n
  table : ∀ n t, ctx.groupToTempTrafficTable n = some t → S.tables n = some t
  child : ∀ m c, c ∈ ctx.changedChildren m → c ∈ S.graph.children m ∧ ∃ v, ctx.val c = some v
  notified : ∀ c v, ctx.val c = some v → ∀ m ∈ o.postOrder, c ∈ S.graph.children m →
    c ∈ ctx.changedChildren m
  pushed : ∀ n ∈ o.postOrder, (o.prio n).rootIdx < e → S.Pushed n →
    (o.prio n, n) ∈ ctx.readyNodes.entries ∨ S.Handled ctx n
  waiting : ∀ n ∈ o.postOrder, ctx.changedChildren n ≠ [] →
    (o.prio n, n) ∈ ctx.readyNodes.entries ∨ S.Handled ctx n

end Setting

open Setting

omit [DecidableEq ν] in
theorem Setting.Inv.new (S : Setting ν V T) (o : Orchestrator ν) : S.Inv o 0 (.new S.changes) where
  changes := rfl
  queue x hx := absurd hx not_mem_nil
  val n v h := by cases h
  table n t h := by cases h
  child m c h := absurd h not_mem_nil
  notified c v h := by cases h
  pushed n _ h := absurd h (not_lt_zero _)
  waiting n _ h := absurd rfl h

section
variable {S : Setting ν V T} {o : Orchestrator ν}

theorem Setting.Inv.feed (h : o.Sound S.graph S.data) (hinv : S.Inv o e ctx)
    (he : e < o.roots.length) :
    ∃ ctx', o.computeChangedLeavesAt ctx e = .ok ctx' ∧ S.Inv o (e + 1) ctx' ∧
      ctx'.evaluatedRoots = ctx.evaluatedRoots := by
  obtain ⟨q', pushed, hr, hperm, hcount⟩ := h.leaves e he S.changes ctx.readyNodes
  have hmem : ∀ x, x ∈ q'.entries ↔
      x ∈ pushed.map (fun n => (o.prio n, n)) ∨ x ∈ ctx.readyNodes.entries := by
    intro x
    rw [hperm.mem_iff, mem_append]
  refine ⟨{ ctx with readyNodes := q' }, ?_, ?_, rfl⟩
  · simp only [computeChangedLeavesAt, hinv.changes, hr]
    rfl
  · refine ⟨hinv.changes, ?_, hinv.val, hinv.table, hinv.child, hinv.notified, ?_, ?_⟩
    · intro x hx
      rcases (hmem x).mp hx with hx | hx
      · obtain ⟨n, hn, rfl⟩ := mem_map.mp hx
        refine ⟨?_, rfl⟩
        by_contra hno
        have hzero := hcount n
        rw [if_neg (fun hc => hno hc.1)] at hzero
        exact count_eq_zero.mp hzero hn
      · exact hinv.queue x hx
    · intro n hn hidx hp
      rcases Nat.lt_succ_iff_lt_or_eq.mp hidx with hlt | heq
      · rcases hinv.pushed n hn hlt hp with hq | hh
        · exact .inl ((hmem _).mpr (.inr hq))
        · exact .inr hh
      · have hpos := hcount n
        rw [if_pos ⟨hn, heq⟩] at hpos
        have hin : n ∈ pushed := count_pos_iff.mp (hpos ▸ hp)
        exact .inl ((hmem _).mpr (.inl (mem_map.mpr ⟨n, hin, rfl⟩)))
    · intro n hn hne
      rcases hinv.waiting n hn hne with hq | hh
      · exact .inl ((hmem _).mpr (.inr hq))
      · exact .inr hh

def Setting.Inv.propagation (h : o.Sound S.graph S.data)
    (hcause : ∀ n ∈ o.postOrder, S.Changed n → S.Queueable n) (hinv : S.Inv o e ctx) :
    Propagation S.graph where
  Fed n := n ∈ o.postOrder ∧ (o.prio n).rootIdx < e
  Pushed := S.Pushed
  Changed := S.Changed
  Saved n := ctx.val n = some (S.newValue n)
  Handled := S.Handled ctx
  InQueue n := (o.prio n, n) ∈ ctx.readyNodes.entries
  fed_child n c hn hc := by
    obtain ⟨hm, hidx, -⟩ := h.child n hn.1 c hc
    exact ⟨hm, hidx.trans_lt hn.2⟩
  cause n hn := hcause n hn.1
  pushed n hn := hinv.pushed n hn.1 hn.2
  notified n c hn hc hs := hinv.waiting n hn.1 (ne_nil_of_mem (hinv.notified c _ hs n hn.1 hc))
  handled n _ hh := hh.1

omit [DecidableEq ν] in
theorem Setting.Inv.view_value (hinv : S.Inv o e ctx)
    (hs : S.Changed d → ctx.val d = some (S.newValue d)) :
    (ctx.evaluateView S.exprs.value).value d = S.newValue d := by
  simp only [Context.evaluateView]
  cases hv : ctx.val d with
  | some v => exact (hinv.val d v hv).1
  | none =>
    by_contra hne
    rw [hs fun heq => hne heq.symm] at hv
    cases hv

theorem Setting.Inv.available (h : o.Sound S.graph S.data)
    (hca : ∀ n ∈ o.postOrder, S.Changed n → S.Queueable n) (hinv : S.Inv o e ctx)
    (hn : n ∈ o.postOrder) (hidx : (o.prio n).rootIdx < e)
    (htop : ∀ x ∈ ctx.readyNodes.entries, x.1 ≤ o.prio n) :
    S.Available n (ctx.evaluateView S.exprs.value) := by
  have hf : (hinv.propagation h hca).Fed n := ⟨hn, hidx⟩
  have hquiet : ∀ d, S.graph.StrictlyBelow n d → ∀ m, S.graph.Below d m →
      ¬ (hinv.propagation h hca).InQueue m := by
    intro d hd m hm hq
    obtain ⟨c, hc, hcd⟩ := hd
    exact absurd (h.prio_strictly hn ⟨c, hc, hcd.trans hm⟩) (not_lt_of_ge (htop _ hq))
  have hs : ∀ d, S.graph.StrictlyBelow n d → S.Changed d → ctx.val d = some (S.newValue d) := by
    intro d hd hch
    exact (hinv.propagation h hca).saved_of_quiet
      ((hinv.propagation h hca).fed_below hf (.of_strictly hd)) (hquiet d hd) hch
  refine ⟨?_, ?_, ?_, hinv.table⟩
  · intro d hd
    exact hinv.view_value (hs d hd)
  · intro m hm c
    constructor
    · intro hc
      obtain ⟨hch, v, hv⟩ := hinv.child m c hc
      exact ⟨hch, (hinv.val c v hv).2⟩
    · rintro ⟨hc, hch⟩
      exact hinv.notified c _ (hs c (hm.strictly hc) hch) m (h.below_mem hn hm).1 hc
  · intro d hd hq
    have hf' := (hinv.propagation h hca).fed_below hf (.of_strictly hd)
    rcases (hinv.propagation h hca).handled_or_pending _ d (lt_succ_self _) hf' hq
      with hh | ⟨m, hm, hin⟩
    · exact hh.2
    · exact absurd hin (hquiet d hd m hm)

theorem saveTables_spec (ts : ν → Option T) (saves : List (ν × T)) (t' : Table ν T)
    (ht : ∀ n t, t' n = some t → ts n = some t) (hs : ∀ save ∈ saves, ts save.1 = some save.2) :
    ∀ n t, saveTables t' saves n = some t ↔ t' n = some t ∨ (n, t) ∈ saves := by
  refine (foldl_rule (P := fun done (s : Table ν T) => (∀ n t, s n = some t → ts n = some t) ∧
    ∀ n t, s n = some t ↔ t' n = some t ∨ (n, t) ∈ done) ?_ [] t' ⟨ht, by simp⟩).2
  rintro save hm done s ⟨hk, he⟩
  have hstep : ∀ n t, s.emplace save.1 save.2 n = some t ↔
      s n = some t ∨ n = save.1 ∧ t = save.2 := by
    intro n t
    apply Table.emplace_eq_some
    intro w hw
    exact Option.some.inj ((hk save.1 w hw).symm.trans (hs save hm))
  constructor
  · intro n t hn
    rcases (hstep n t).mp hn with hn | ⟨rfl, rfl⟩
    · exact hk n t hn
    · exact hs save hm
  · intro n t
    rw [hstep, he, mem_append, mem_singleton, Prod.ext_iff, or_assoc]

/-- The effect of evaluating `expr` after it has been taken from the queue, which keeps the
entries of `q`. -/
structure Setting.Step (S : Setting ν V T) (o : Orchestrator ν) (expr : ν) (saves : List (ν × T))
    (q : BucketedPriorityQueue PriorityInfo ν) (ctx ctx' : Context ν V T) : Prop where
  changes : ctx'.changes = ctx.changes
  evaluatedRoots : ctx'.evaluatedRoots = ctx.evaluatedRoots
  val : ∀ m v, ctx'.val m = some v ↔
    ctx.val m = some v ∨ m = expr ∧ S.Changed expr ∧ v = S.newValue expr
  table : ∀ m t, ctx'.groupToTempTrafficTable m = some t ↔
    ctx.groupToTempTrafficTable m = some t ∨ (m, t) ∈ saves
  changedChildren : ∀ m c, c ∈ ctx'.changedChildren m ↔
    c ∈ ctx.changedChildren m ∨ S.Changed expr ∧ c = expr ∧ m ∈ o.nodeToParents expr
  queue : ∀ x, x ∈ ctx'.readyNodes.entries ↔ x ∈ q.entries ∨ S.Changed expr ∧
    ∃ p ∈ o.nodeToParents expr, ctx.changedChildren p = [] ∧ x = (o.prio p, p)
  potential : o.potential ctx' + 1 = o.potential ctx

theorem evaluateReady_spec [DecidableEq V] (h : o.Sound S.graph S.data) (hinv : S.Inv o e ctx)
    (hq : ctx.readyNodes.entries = x :: q.entries)
    (hev : S.exprs.evaluate expr (ctx.evaluateView S.exprs.value) S.changes = (S.newValue expr, ss))
    (hs : ∀ save ∈ ss, S.tables save.1 = some save.2) :
    ∃ ctx', o.evaluateReady S.exprs S.changes { ctx with readyNodes := q } expr =
      .ok (S.newValue expr, ctx') ∧ S.Step o expr ss q ctx ctx' := by
  have he' : S.exprs.evaluate expr
      (({ ctx with readyNodes := q } : Context ν V T).evaluateView S.exprs.value) S.changes =
      (S.newValue expr, ss) := hev
  have ht := saveTables_spec S.tables ss ctx.groupToTempTrafficTable hinv.table hs
  have hl : o.potential { ctx with readyNodes := q } + 1 = o.potential ctx := by
    simp only [potential, hq, length_cons]
    omega
  by_cases hch : S.exprs.value expr ≠ S.newValue expr
  · have hch' : S.Changed expr := hch.symm
    obtain ⟨ctx', hr, hn⟩ := notifyChange_spec h expr ({ ctx with
        readyNodes := q
        groupToTempTrafficTable := saveTables ctx.groupToTempTrafficTable ss
        val := ctx.val.emplace expr (S.newValue expr) } : Context ν V T)
    refine ⟨ctx', ?_, ?_⟩
    · simp only [evaluateReady, he', ne_eq, hch, not_false_eq_true, ↓reduceIte, hr]
      rfl
    · refine ⟨hn.changes, hn.evaluatedRoots, ?_, ?_, ?_, ?_, ?_⟩
      · intro m v
        rw [hn.val]
        rw [and_iff_right hch']
        exact Table.emplace_eq_some fun w hw => (hinv.val expr w hw).1
      · intro m t
        rw [hn.tables]
        exact ht m t
      · intro m c
        rw [hn.mem_changedChildren, and_iff_right hch']
      · intro y
        rw [hn.mem_queue, and_iff_right hch']
      · rw [hn.potential]
        exact hl
  · have hch' : ¬ S.Changed expr := fun hc => hch hc.symm
    refine ⟨{ ctx with
      readyNodes := q
      groupToTempTrafficTable := saveTables ctx.groupToTempTrafficTable ss }, ?_, ?_⟩
    · simp [evaluateReady, he', hch]
    · refine ⟨rfl, rfl, ?_, ht, ?_, ?_, hl⟩
      · intro m v
        simp [hch']
      · intro m c
        simp [hch']
      · intro y
        simp [hch']

omit [DecidableEq ν] in
theorem Setting.Step.table_eq (hst : S.Step o expr ss q ctx ctx')
    (hs : ∀ save ∈ ss, S.tables save.1 = some save.2)
    (ho : ∀ t, ctx.groupToTempTrafficTable n = some t → S.tables n = some t)
    (hn : ∀ t, S.tables n = some t → ctx.groupToTempTrafficTable n = some t ∨ (n, t) ∈ ss) :
    ctx'.groupToTempTrafficTable n = S.tables n := by
  apply Option.ext
  intro t
  rw [hst.table n t]
  apply Iff.intro
  · rintro (h | h)
    · exact ho t h
    · exact hs (n, t) h
  · exact hn t

omit [DecidableEq ν] in
theorem Setting.Handled.step (hs : S.Step o expr ss q ctx ctx')
    (hsa : ∀ save ∈ ss, S.tables save.1 = some save.2) (hh : S.Handled ctx n) :
    S.Handled ctx' n := by
  refine ⟨fun hch => (hs.val n _).mpr (.inl (hh.1 hch)), ?_⟩
  apply hs.table_eq hsa fun t ht => hh.2.symm.trans ht
  intro t ht
  exact .inl (hh.2.trans ht)

omit [DecidableEq ν] in
theorem Setting.Step.handled (hs : S.Step o expr ss q ctx ctx')
    (hta : ∀ n t, ctx.groupToTempTrafficTable n = some t → S.tables n = some t)
    (hsa : ∀ save ∈ ss, S.tables save.1 = some save.2)
    (hown : ∀ t, S.tables expr = some t → (expr, t) ∈ ss) : S.Handled ctx' expr := by
  refine ⟨fun hch => (hs.val expr _).mpr (.inr ⟨rfl, hch, rfl⟩), ?_⟩
  exact hs.table_eq hsa (hta expr) fun t ht => .inr (hown t ht)

theorem Setting.Inv.step (h : o.Sound S.graph S.data) (hinv : S.Inv o e ctx)
    (hs : S.Step o expr ss q ctx ctx')
    (hq : ctx.readyNodes.entries = (o.prio expr, expr) :: q.entries)
    (hsa : ∀ save ∈ ss, S.tables save.1 = some save.2)
    (hown : ∀ t, S.tables expr = some t → (expr, t) ∈ ss) : S.Inv o e ctx' := by
  have he := hs.handled hinv.table hsa hown
  have hk : ∀ n, (o.prio n, n) ∈ ctx.readyNodes.entries ∨ S.Handled ctx n →
      (o.prio n, n) ∈ ctx'.readyNodes.entries ∨ S.Handled ctx' n := by
    rintro n (hin | hh)
    · rw [hq] at hin
      rcases mem_cons.mp hin with heq | hin
      · have hn : n = expr := (Prod.mk.inj heq).2
        rw [hn]
        exact .inr he
      · exact .inl ((hs.queue _).mpr (.inl hin))
    · exact .inr (hh.step hs hsa)
  refine ⟨hs.changes.trans hinv.changes, ?_, ?_, ?_, ?_, ?_, ?_, ?_⟩
  · intro x hx
    rcases (hs.queue x).mp hx with hx | ⟨-, p, hp, -, rfl⟩
    · apply hinv.queue x
      rw [hq]
      exact mem_cons_of_mem _ hx
    · exact ⟨((h.parents expr p).mp hp).1, rfl⟩
  · intro n v hv
    rcases (hs.val n v).mp hv with hv | ⟨rfl, hch, rfl⟩
    · exact hinv.val n v hv
    · exact ⟨rfl, hch⟩
  · intro n t ht
    rcases (hs.table n t).mp ht with ht | ht
    · exact hinv.table n t ht
    · exact hsa (n, t) ht
  · intro m c hc
    rcases (hs.changedChildren m c).mp hc with hc | ⟨hch, rfl, hp⟩
    · obtain ⟨hch, v, hv⟩ := hinv.child m c hc
      exact ⟨hch, v, (hs.val c v).mpr (.inl hv)⟩
    · exact ⟨((h.parents c m).mp hp).2, _, (hs.val c _).mpr (.inr ⟨rfl, hch, rfl⟩)⟩
  · intro c v hv m hm hc
    apply (hs.changedChildren m c).mpr
    rcases (hs.val c v).mp hv with hv | ⟨rfl, hch, -⟩
    · exact .inl (hinv.notified c v hv m hm hc)
    · exact .inr ⟨hch, rfl, (h.parents c m).mpr ⟨hm, hc⟩⟩
  · intro n hn hidx hp
    exact hk n (hinv.pushed n hn hidx hp)
  · intro n hn hne
    by_cases hold : ctx.changedChildren n = []
    · obtain ⟨c, hc⟩ := exists_mem_of_ne_nil _ hne
      rcases (hs.changedChildren n c).mp hc with hc | ⟨hch, rfl, hp⟩
      · rw [hold] at hc
        exact absurd hc not_mem_nil
      · exact .inl ((hs.queue _).mpr (.inr ⟨hch, n, hp, hold, rfl⟩))
    · exact hk n (hinv.waiting n hn hold)

theorem evaluateLoop_spec [DecidableEq V] (h : o.Sound S.graph S.data)
    (hc : ∀ n ∈ o.postOrder, S.Changed n → S.Queueable n)
    (hev : ∀ n ∈ o.postOrder, S.EvaluatesRight n) (hn : node ∈ o.postOrder)
    (hidx : (o.prio node).rootIdx < e) : ∀ fuel ctx, S.Inv o e ctx → o.potential ctx < fuel →
    ∃ ctx', o.evaluateLoop S.exprs S.changes node (o.prio node) fuel ctx =
      .ok (S.newValue node, ctx') ∧ S.Inv o e ctx' ∧ ctx'.evaluatedRoots = ctx.evaluatedRoots := by
  intro fuel
  induction fuel with
  | zero =>
    intro ctx _ hf
    exact absurd hf (not_lt_zero _)
  | succ fuel ih =>
    intro ctx hinv hf
    have hd : (∀ x ∈ ctx.readyNodes.entries, x.1 < o.prio node) →
        (ctx.evaluateView S.exprs.value).value node = S.newValue node := by
      intro hl
      have hsaved := (hinv.propagation h hc).saved_of_quiet ⟨hn, hidx⟩ (by
          intro m hm hq
          exact absurd (hl _ hq) (not_lt_of_ge (h.prio_below hn hm)))
      exact hinv.view_value hsaved
    rw [evaluateLoop]
    cases hempty : ctx.readyNodes.empty with
    | true =>
      rw [hd]
      · exact ⟨ctx, rfl, hinv, rfl⟩
      · rw [entries_eq_nil _ hempty]
        intro x hx
        exact absurd hx not_mem_nil
    | false =>
      obtain ⟨p, expr, q, ht, hpop, he, hmax⟩ := top_pop ctx.readyNodes hempty
      obtain ⟨hmem, hp⟩ := hinv.queue (p, expr) (by rw [he]; exact mem_cons_self)
      change p = o.prio expr at hp
      subst hp
      simp only [ht, hpop, h.priority hmem, except_ok_bind, Bool.false_eq_true, ↓reduceIte]
      by_cases hl : o.prio expr < o.prio node
      · rw [if_pos hl, hd (fun x hx => (hmax x hx).trans_lt hl)]
        exact ⟨ctx, rfl, hinv, rfl⟩
      · have hle : (o.prio expr).rootIdx ≤ (o.prio node).rootIdx := by
          rcases le_iff.mp (le_of_not_gt hl) with hlt | ⟨heq, -⟩
          · exact hlt.le
          · exact heq.le
        obtain ⟨hnew, hsaves, ho⟩ := hev expr hmem _
          (hinv.available h hc hmem (hle.trans_lt hidx) hmax)
        obtain ⟨ctx₁, hrun, hs⟩ := evaluateReady_spec h hinv he (Prod.ext hnew rfl) hsaves
        have hi₁ := hinv.step h hs he hsaves ho
        rw [if_neg hl, hrun, except_ok_bind]
        by_cases heq : expr = node
        · subst heq
          rw [if_pos rfl]
          exact ⟨ctx₁, rfl, hi₁, hs.evaluatedRoots⟩
        · rw [if_neg heq]
          have hpot := hs.potential
          obtain ⟨ctx', hloop, hi', hr⟩ := ih ctx₁ hi₁ (by omega)
          exact ⟨ctx', hloop, hi', hr.trans hs.evaluatedRoots⟩

omit [DecidableEq ν] in
theorem potential_lt_loopFuel (o : Orchestrator ν) (ctx : Context ν V T) :
    o.potential ctx < o.loopFuel ctx := by
  have hle := countP_le_length (p := fun n => (ctx.changedChildren n).isEmpty) (l := o.postOrder)
  simp only [potential, loopFuel]
  omega

theorem computeChangedLeaves_spec (ctx : Context ν V T) (h : o.Sound S.graph S.data)
    (hinv : S.Inv o (nextRoot ctx.evaluatedRoots) ctx)
    (he : nextRoot ctx.evaluatedRoots < o.roots.length) :
    ∃ ctx', o.computeChangedLeaves ctx = .ok ctx' ∧ S.Inv o (nextRoot ctx.evaluatedRoots + 1) ctx' ∧
      ctx'.evaluatedRoots = some (nextRoot ctx.evaluatedRoots) := by
  have hi' : S.Inv o (nextRoot ctx.evaluatedRoots)
      { ctx with evaluatedRoots := some (nextRoot ctx.evaluatedRoots) } :=
    { hinv with }
  exact hi'.feed h he

theorem feedRoots_spec (h : o.Sound S.graph S.data) (hn : node ∈ o.postOrder) :
    ∀ fuel (i : Nat) ctx, ctx.evaluatedRoots = some i → i ≤ (o.prio node).rootIdx →
    (o.prio node).rootIdx < i + fuel → S.Inv o (i + 1) ctx →
    ∃ ctx', o.feedRoots (o.prio node) fuel ctx = .ok ctx' ∧
      ctx'.evaluatedRoots = some (o.prio node).rootIdx ∧
      S.Inv o ((o.prio node).rootIdx + 1) ctx' := by
  obtain ⟨own, hown, ho, -, hownle⟩ := h.own_root hn
  have hlen := (List.getElem?_eq_some_iff.mp hown).1
  intro fuel
  induction fuel with
  | zero =>
    intro i ctx _ hle hlt
    omega
  | succ fuel ih =>
    intro i ctx hi hle hlt hinv
    rcases lt_or_eq_of_le hle with hl | rfl
    · have hget : o.roots[i]? = some o.roots[i] := getElem?_eq_getElem (by omega)
      obtain ⟨hmem, hidx⟩ := h.root i _ hget
      have hp := lt_iff.mpr (.inl (hidx.trans_lt hl))
      obtain ⟨ctx₁, hrun, hi₁, hr⟩ := computeChangedLeaves_spec ctx h
        (by rw [hi]; exact hinv) (by rw [hi]; simp only [nextRoot]; omega)
      rw [hi] at hi₁ hr
      obtain ⟨ctx', hf, hr', hi'⟩ := ih (i + 1) ctx₁ hr (by omega) (by omega) hi₁
      refine ⟨ctx', ?_, hr', hi'⟩
      simp only [feedRoots, hi, hget, h.priority hmem, except_ok_bind, hp, ↓reduceIte, hrun]
      exact hf
    · refine ⟨ctx, ?_, hi, hinv⟩
      simp [feedRoots, hi, hown, h.priority ho, except_ok_bind, not_lt_of_ge hownle]

/-- The context between two calls: the last root fed has a lower priority than the nodes before it.
-/
def Setting.Between (S : Setting ν V T) (o : Orchestrator ν) (ctx : Context ν V T) : Prop :=
  match ctx.evaluatedRoots with
  | none => S.Inv o 0 ctx
  | some i => S.Inv o (i + 1) ctx ∧
      ∃ root, o.roots[i]? = some root ∧ root ∈ o.postOrder ∧ (o.prio root).rootIdx = i

theorem Setting.Between.feedFirst (h : o.Sound S.graph S.data) (hb : S.Between o ctx)
    (hn : node ∈ o.postOrder) :
    ∃ ctx' i, o.feedFirstRoot ctx = .ok ctx' ∧ ctx'.evaluatedRoots = some i ∧ S.Inv o (i + 1) ctx' ∧
      ∃ root, o.roots[i]? = some root ∧ root ∈ o.postOrder ∧ (o.prio root).rootIdx = i := by
  obtain ⟨own, ho, -⟩ := h.own_root hn
  have hl := (List.getElem?_eq_some_iff.mp ho).1
  rw [Setting.Between] at hb
  rw [feedFirstRoot]
  cases hr : ctx.evaluatedRoots with
  | none =>
    rw [hr] at hb
    obtain ⟨ctx', hrun, hinv, hroots⟩ := computeChangedLeaves_spec ctx h
      (by rw [hr]; exact hb) (by rw [hr]; simp only [nextRoot]; omega)
    rw [hr] at hinv hroots
    have hget : o.roots[0]? = some o.roots[0] := List.getElem?_eq_getElem (by omega)
    obtain ⟨hmem, hidx⟩ := h.root 0 _ hget
    exact ⟨ctx', 0, hrun, hroots, hinv, _, hget, hmem, le_zero.mp hidx⟩
  | some i =>
    rw [hr] at hb
    exact ⟨ctx, i, rfl, hr, hb.1, hb.2⟩

theorem evaluate_spec [DecidableEq V] (h : o.Sound S.graph S.data)
    (hca : ∀ n ∈ o.postOrder, S.Changed n → S.Queueable n)
    (he : ∀ n ∈ o.postOrder, S.EvaluatesRight n) (hn : node ∈ o.postOrder) (hb : S.Between o ctx) :
    ∃ ctx', o.evaluate S.exprs node ctx = .ok (S.newValue node, ctx') ∧ S.Between o ctx' := by
  have hc : ctx.changes = some S.changes := by
    rw [Setting.Between] at hb
    split at hb
    · exact hb.changes
    · exact hb.1.changes
  obtain ⟨ctx₁, i, hs, hr₁, hi₁, root, hr, hmem, hf⟩ := hb.feedFirst h hn
  obtain ⟨own, hown, ho, hownidx, hownle⟩ := h.own_root hn
  have hlen := (List.getElem?_eq_some_iff.mp hown).1
  have hfeed : ∃ ctx₂ j, o.feedRoots (o.prio node) (o.roots.length + 1) ctx₁ = .ok ctx₂ ∧
      ctx₂.evaluatedRoots = some j ∧ (o.prio node).rootIdx ≤ j ∧ S.Inv o (j + 1) ctx₂ ∧
      ∃ root, o.roots[j]? = some root ∧ root ∈ o.postOrder ∧ (o.prio root).rootIdx = j := by
    by_cases hle : i ≤ (o.prio node).rootIdx
    · obtain ⟨ctx₂, hrun, hr₂, hi₂⟩ := feedRoots_spec h hn (o.roots.length + 1) i ctx₁
        hr₁ hle (by omega) hi₁
      exact ⟨ctx₂, _, hrun, hr₂, le_refl _, hi₂, own, hown, ho, hownidx⟩
    · have hlt : o.prio root < o.prio node := by
        rw [lt_iff]
        omega
      refine ⟨ctx₁, i, ?_, hr₁, by omega, hi₁, root, hr, hmem, hf⟩
      simp [feedRoots, hr₁, hr, h.priority hmem, except_ok_bind, not_lt_of_gt hlt]
  obtain ⟨ctx₂, j, hrun₂, hr₂, hj, hi₂, hf₂⟩ := hfeed
  obtain ⟨ctx', hl, hi', hr'⟩ := evaluateLoop_spec h hca he hn
    (lt_succ_of_le hj) (o.loopFuel ctx₂) ctx₂ hi₂ (potential_lt_loopFuel o ctx₂)
  refine ⟨ctx', ?_, ?_⟩
  · simp only [evaluate, hc, hs, except_ok_bind, h.priority hn, hrun₂]
    exact hl
  · rw [Setting.Between, hr', hr₂]
    exact ⟨hi', hf₂⟩

theorem evaluateAll_spec [DecidableEq V] (h : o.Sound S.graph S.data)
    (hc : ∀ n ∈ o.postOrder, S.Changed n → S.Queueable n)
    (he : ∀ n ∈ o.postOrder, S.EvaluatesRight n) (ns : List ν) :
    ∀ ctx, (∀ n ∈ ns, n ∈ o.postOrder) → S.Between o ctx →
    ∃ ctx', o.evaluateAll S.exprs ns ctx = .ok (ns.map S.newValue, ctx') := by
  induction ns with
  | nil =>
    intro ctx _ _
    exact ⟨ctx, rfl⟩
  | cons node ns ih =>
    intro ctx hn hb
    obtain ⟨ctx₁, hr, hb₁⟩ := evaluate_spec h hc he (hn node mem_cons_self) hb
    obtain ⟨ctx', hr'⟩ := ih ctx₁ (fun n hm => hn n (mem_cons_of_mem node hm)) hb₁
    refine ⟨ctx', ?_⟩
    simp [evaluateAll, hr, except_ok_bind, hr']

end

end Orchestrator

end Rebalancer
