import Rebalancer.OrchestratorSpec

namespace Rebalancer
open List Context BucketedPriorityQueue

namespace Context
variable {ν V T : Type}

section
variable (ctx : Context ν V T)

def setReady (readyNodes : BucketedPriorityQueue PriorityInfo ν) : Context ν V T :=
  { ctx with readyNodes }

section
variable (q : BucketedPriorityQueue PriorityInfo ν)

@[simp] theorem setReady_readyNodes : (ctx.setReady q).readyNodes = q := rfl

@[simp] theorem setReady_apply : (ctx.setReady q).apply = ctx.apply := rfl

@[simp] theorem setReady_changes : (ctx.setReady q).changes = ctx.changes := rfl

@[simp] theorem setReady_changedChildren :
    (ctx.setReady q).changedChildren = ctx.changedChildren := rfl

end

end

section
variable [DecidableEq ν] (ctx : Context ν V T) (n : ν) (v : V)

def saveApply : Context ν V T := { ctx with apply := ctx.apply.emplace n v }

@[simp] theorem saveApply_apply : (ctx.saveApply n v).apply = ctx.apply.emplace n v := rfl

@[simp] theorem saveApply_changedChildren :
    (ctx.saveApply n v).changedChildren = ctx.changedChildren := rfl

end

end Context

namespace Orchestrator

/-- A node's `partialApply` rewrites the stored states; `nested` lists the nodes it runs on the way.
-/
structure ApplyExpressions (ν V T σ A : Type) where
  value : σ → V
  partialApply : ν → EvaluatorView ν V T → A → ChangeSet → (ν → σ) → V × (ν → σ)
  nested : ν → List ν

/-- The state of one call of `apply`; `runs` lists the `partialApply` runs so far. -/
structure ApplyState (ν V T σ : Type) where
  ctx : Context ν V T
  store : ν → σ
  runs : List ν

section
variable {ν V T σ A : Type} [DecidableEq ν] [DecidableEq V]

def ApplyState.view (exprs : ApplyExpressions ν V T σ A) (st : ApplyState ν V T σ) :
    EvaluatorView ν V T :=
  st.ctx.applyView (fun n => exprs.value (st.store n))

def ApplyState.setReady (st : ApplyState ν V T σ)
    (readyNodes : BucketedPriorityQueue PriorityInfo ν) : ApplyState ν V T σ :=
  { st with ctx := st.ctx.setReady readyNodes }

section
variable (st : ApplyState ν V T σ) (q : BucketedPriorityQueue PriorityInfo ν)

omit [DecidableEq ν] [DecidableEq V] in
@[simp] theorem ApplyState.setReady_ctx : (st.setReady q).ctx = st.ctx.setReady q := rfl

omit [DecidableEq ν] [DecidableEq V] in
@[simp] theorem ApplyState.setReady_store : (st.setReady q).store = st.store := rfl

end

def applyValue (exprs : ApplyExpressions ν V T σ A) (assignment : A) (st : ApplyState ν V T σ)
    (expr : ν) : Except String (V × ApplyState ν V T σ) :=
  match st.ctx.apply expr with
  | some cached => .ok (cached, st)
  | none =>
    match st.ctx.changes with
    | none => .error "context without changes"
    | some changes =>
      let result := exprs.partialApply expr (st.view exprs) assignment changes st.store
      .ok (result.1, ⟨st.ctx, result.2, st.runs ++ expr :: exprs.nested expr⟩)

def applyReady (o : Orchestrator ν) (exprs : ApplyExpressions ν V T σ A) (assignment : A)
    (st : ApplyState ν V T σ) (expr : ν) : Except String (ApplyState ν V T σ) := do
  let oldValue := exprs.value (st.store expr)
  let (newValue, st) ← applyValue exprs assignment st expr
  if oldValue ≠ newValue then do
    let ctx ← o.notifyChange (st.ctx.saveApply expr newValue) expr
    .ok { st with ctx }
  else .ok st

def applyLoop (o : Orchestrator ν) (exprs : ApplyExpressions ν V T σ A) (assignment : A) :
    Nat → ApplyState ν V T σ → Except String (ApplyState ν V T σ)
  | 0, _ => .error "out of fuel"
  | fuel + 1, st =>
    if st.ctx.readyNodes.empty then .ok st
    else do
      let expr ← st.ctx.readyNodes.top
      let readyNodes ← st.ctx.readyNodes.pop
      let st ← o.applyReady exprs assignment (st.setReady readyNodes) expr
      applyLoop o exprs assignment fuel st

def apply (o : Orchestrator ν) (exprs : ApplyExpressions ν V T σ A) (assignment : A)
    (ctx : Context ν V T) (store : ν → σ) : Except String (ApplyState ν V T σ) := do
  let ctx ← o.computeAllChangedLeaves ctx
  o.applyLoop exprs assignment (o.loopFuel ctx) ⟨ctx, store, []⟩

end

section
variable {ν V T σ A : Type} [DecidableEq ν] {o : Orchestrator ν}

theorem computeAllChangedLeaves_run (h : o.Sound g data)
    (ctx : Context ν V T) (hc : ctx.changes = some cs) : ∀ k, k ≤ o.roots.length →
    ∃ (q : BucketedPriorityQueue PriorityInfo ν) (pushed : List ν),
      (List.range k).foldlM o.computeChangedLeavesAt ctx = .ok (ctx.setReady q) ∧
      q.entries.Perm (pushed.map (fun n => (o.prio n, n)) ++ ctx.readyNodes.entries) ∧
      ∀ n, pushed.count n =
        if n ∈ o.postOrder ∧ (o.prio n).rootIdx < k then nodePushes g data cs n else 0 := by
  intro k
  induction k with
  | zero =>
    intro _
    refine ⟨ctx.readyNodes, [], rfl, List.Perm.refl _, ?_⟩
    intro n
    rw [if_neg (fun hn => absurd hn.2 (Nat.not_lt_zero _)), count_nil]
  | succ k ih =>
    intro hk
    obtain ⟨q₁, p₁, hr₁, hp₁, hc₁⟩ := ih (by omega)
    obtain ⟨q, pushed, hr, hp, hcount⟩ := h.leaves k hk cs q₁
    refine ⟨q, pushed ++ p₁, ?_, ?_, ?_⟩
    · have hs : o.computeChangedLeavesAt (ctx.setReady q₁) k = .ok (ctx.setReady q) := by
        rw [← hc] at hr
        exact congrArg (· >>= fun q => .ok (ctx.setReady q)) hr
      rw [range_succ, foldlM_append, hr₁]
      simp only [except_ok_bind, foldlM_cons, foldlM_nil, hs]
      rfl
    · rw [map_append, append_assoc]
      exact hp.trans (hp₁.append_left _)
    · intro n
      rw [count_append, hcount, hc₁]
      by_cases hn : n ∈ o.postOrder
      · simp only [hn, true_and]
        split_ifs <;> omega
      · simp [hn]

theorem computeAllChangedLeaves_spec (h : o.Sound g data) (cs : ChangeSet) :
    ∃ (q : BucketedPriorityQueue PriorityInfo ν) (pushed : List ν),
      o.computeAllChangedLeaves (.new cs : Context ν V T) =
        .ok ((.new cs : Context ν V T).setReady q) ∧
      q.entries.Perm (pushed.map (fun n => (o.prio n, n))) ∧
      ∀ n, pushed.count n = if n ∈ o.postOrder then nodePushes g data cs n else 0 := by
  obtain ⟨q, pushed, hrun, hp, hcount⟩ :=
    computeAllChangedLeaves_run h (.new cs : Context ν V T) rfl o.roots.length (le_refl _)
  refine ⟨q, pushed, hrun, ?_, ?_⟩
  · have hnil : (new cs : Context ν V T).readyNodes.entries = [] := rfl
    rwa [hnil, append_nil] at hp
  · intro n
    rw [hcount]
    by_cases hn : n ∈ o.postOrder
    · obtain ⟨root, hr, -⟩ := h.below n hn
      rw [if_pos hn, if_pos ⟨hn, (List.getElem?_eq_some_iff.mp hr).1⟩]
    · rw [if_neg hn, if_neg (fun hc => hn hc.1)]

/-- What one iteration of the loop does: `result` is the value found and the states after it,
`ran` the `partialApply` runs it took. -/
structure Applied (o : Orchestrator ν) (exprs : ApplyExpressions ν V T σ A) (expr : ν)
    (q : BucketedPriorityQueue PriorityInfo ν) (st : ApplyState ν V T σ) (result : V × (ν → σ))
    (ran : List ν) (st' : ApplyState ν V T σ) : Prop where
  store : st'.store = result.2
  runs : st'.runs = st.runs ++ ran
  same : exprs.value (st.store expr) = result.1 → st'.ctx = st.ctx.setReady q
  notify : exprs.value (st.store expr) ≠ result.1 → o.Notified expr (o.nodeToParents expr)
    ((st.ctx.setReady q).saveApply expr result.1) st'.ctx

variable [DecidableEq V]

theorem applyReady_of_value (h : o.Sound g data) {st : ApplyState ν V T σ}
    (hv : applyValue es a (st.setReady q) expr =
      .ok (r.1, ⟨st.ctx.setReady q, r.2, st.runs ++ ran⟩)) :
    ∃ st', o.applyReady es a (st.setReady q) expr = .ok st' ∧ o.Applied es expr q st r ran st' := by
  by_cases hne : es.value (st.store expr) = r.1
  · refine ⟨⟨st.ctx.setReady q, r.2, st.runs ++ ran⟩, ?_, rfl, rfl,
      fun _ => rfl, fun hc => absurd hne hc⟩
    simp [applyReady, hv, except_ok_bind, ApplyState.setReady_store, hne]
  · obtain ⟨ctx', hr, hn⟩ := notifyChange_spec h expr ((st.ctx.setReady q).saveApply expr r.1)
    refine ⟨⟨ctx', r.2, st.runs ++ ran⟩, ?_, rfl, rfl, fun hc => absurd hc hne, fun _ => hn⟩
    simp [applyReady, hv, except_ok_bind, ApplyState.setReady_store, hne, hr]

theorem applyReady_cached (h : o.Sound g data) (es : ApplyExpressions ν V T σ A) (a : A)
    (hc : st.ctx.apply expr = some v) (q : BucketedPriorityQueue PriorityInfo ν) :
    ∃ st', o.applyReady es a (st.setReady q) expr =
      .ok st' ∧ o.Applied es expr q st (v, st.store) [] st' := by
  apply applyReady_of_value h
  rw [append_nil]
  rw [applyValue, ApplyState.setReady_ctx, setReady_apply, hc]
  rfl

theorem applyReady_run (h : o.Sound g data) (es : ApplyExpressions ν V T σ A) (a : A)
    (hca : st.ctx.apply expr = none) (hc : st.ctx.changes = some cs)
    (q : BucketedPriorityQueue PriorityInfo ν) : ∃ st', o.applyReady es a (st.setReady q) expr =
      .ok st' ∧ o.Applied es expr q st (es.partialApply expr (st.view es) a cs st.store)
        (expr :: es.nested expr) st' := by
  apply applyReady_of_value h
  simp only [applyValue, ApplyState.setReady_ctx, setReady_apply, setReady_changes, hca, hc]
  rfl

omit [DecidableEq V] in
theorem Applied.potential
    (h : o.Applied es expr q st r ran st') (hq : st.ctx.readyNodes.entries = x :: q.entries) :
    o.potential st'.ctx + 1 = o.potential st.ctx := by
  have hl : o.potential (st.ctx.setReady q) + 1 = o.potential st.ctx := by
    simp only [Orchestrator.potential, hq, length_cons, setReady_readyNodes,
      setReady_changedChildren]
    omega
  by_cases hne : es.value (st.store expr) = r.1
  · rw [h.same hne]
    exact hl
  · rw [(h.notify hne).potential]
    exact hl

theorem applyLoop_rule (o : Orchestrator ν) (es : ApplyExpressions ν V T σ A) (a : A)
    (P : ApplyState ν V T σ → Prop)
    (hs : ∀ st x q, P st → st.ctx.readyNodes.entries = x :: q.entries →
      (∀ y ∈ st.ctx.readyNodes.entries, y.1 ≤ x.1) → ∃ st', o.applyReady es a (st.setReady q) x.2 =
        .ok st' ∧ P st' ∧ o.potential st'.ctx + 1 = o.potential st.ctx) :
    ∀ fuel st, P st → o.potential st.ctx < fuel →
    ∃ st', o.applyLoop es a fuel st = .ok st' ∧ P st' ∧ st'.ctx.readyNodes.entries = [] := by
  intro fuel
  induction fuel with
  | zero =>
    intro st _ hf
    exact absurd hf (Nat.not_lt_zero _)
  | succ fuel ih =>
    intro st hP hf
    rw [applyLoop]
    cases he : st.ctx.readyNodes.empty with
    | true =>
      exact ⟨st, rfl, hP, entries_eq_nil _ he⟩
    | false =>
      obtain ⟨p, expr, q, ht, hp, hentries, hm⟩ := top_pop st.ctx.readyNodes he
      obtain ⟨st₁, hr, hP₁, hpot⟩ := hs st (p, expr) q hP hentries hm
      obtain ⟨st', hl, hP', hn⟩ := ih st₁ hP₁ (by omega)
      refine ⟨st', ?_, hP', hn⟩
      simp [ht, hp, except_ok_bind, hr, hl]

end

end Orchestrator

end Rebalancer
