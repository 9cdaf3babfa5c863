import Rebalancer.ApplyTrace

namespace Rebalancer
open List Orchestrator Context

namespace Orchestrator
variable {ν : Type} [DecidableEq ν] {g : ExpressionGraph ν}
  {data : AffectedByChangeDecisionData} {cs : ChangeSet} {o : Orchestrator ν} {nested : ν → List ν}

def flipExpressions (flips : ν → Bool) (nested : ν → List ν) :
    ApplyExpressions ν Bool Unit Bool Unit where
  value b := b
  partialApply n _ _ _ store := (flips n, fun m => if m = n then flips n else store m)
  nested := nested

/-- The flipped nodes are cached and known to their parents; the others are run whenever taken. -/
structure FlipTrace (g : ExpressionGraph ν) (data : AffectedByChangeDecisionData) (cs : ChangeSet)
    (flips : ν → Bool) (nested : ν → List ν) (o : Orchestrator ν) (popped ran : List ν)
    (st : ApplyState ν Bool Unit Bool) : Prop where
  trace : Trace g data cs nested o popped ran st
  store : ∀ n, st.store n = (flips n && decide (n ∈ popped))
  cached : ∀ n, st.ctx.apply n = if flips n = true ∧ n ∈ popped then some true else none
  notified : ∀ c ∈ popped, flips c = true → ∀ m ∈ o.postOrder, c ∈ g.children m →
    c ∈ st.ctx.changedChildren m
  ran_mem : ∀ n ∈ popped, n ∈ ran
  ran_count : ∀ n, flips n = false → ran.count n = popped.count n

section
variable (h : o.Sound g data)
include h

theorem FlipTrace.step_cached (ht : FlipTrace g data cs fs nested o popped ran st)
    (hq : st.ctx.readyNodes.entries = x :: q.entries) (hx : fs x.2 = true ∧ x.2 ∈ popped) :
    ∃ st', o.applyReady (flipExpressions fs nested) () (st.setReady q) x.2 = .ok st' ∧
      FlipTrace g data cs fs nested o (popped ++ [x.2]) ran st' ∧
      o.potential st'.ctx + 1 = o.potential st.ctx := by
  have hcached : st.ctx.apply x.2 = some true := by
    rw [ht.cached, if_pos hx]
  obtain ⟨st', hr, ha⟩ := applyReady_cached h (flipExpressions fs nested) () hcached q
  have hvalue : (flipExpressions fs nested).value (st.store x.2) = (true, st.store).1 := by
    rw [ht.store, hx.1, decide_eq_true hx.2]
    rfl
  have hctx := ha.same hvalue
  have hmem : ∀ n, n ∈ popped ++ [x.2] ↔ n ∈ popped := by
    intro n
    rw [mem_append, mem_singleton]
    exact or_iff_left_of_imp fun hn => hn ▸ hx.2
  have htrace := ht.trace.step h [] hq ha rfl (nil_sublist _)
  rw [append_nil] at htrace
  refine ⟨st', hr, ⟨htrace, ?_, ?_, ?_, ?_, ?_⟩, ha.potential hq⟩
  · intro n
    rw [ha.store]
    simp [ht.store, hmem]
  · intro n
    rw [hctx]
    simp [setReady_apply, ht.cached, hmem]
  · intro c hc
    rw [hctx]
    exact ht.notified c ((hmem c).mp hc)
  · intro n hn
    exact ht.ran_mem n ((hmem n).mp hn)
  · intro n hn
    have hne : x.2 ≠ n := by
      rintro rfl
      rw [hx.1] at hn
      cases hn
    rw [ht.ran_count n hn]
    simp [hne]

theorem FlipTrace.step_run (ht : FlipTrace g data cs fs nested o p ran st)
    (hq : st.ctx.readyNodes.entries = x :: q.entries) (hx : ¬ (fs x.2 = true ∧ x.2 ∈ p)) :
    ∃ st', o.applyReady (flipExpressions fs nested) () (st.setReady q) x.2 = .ok st' ∧
      FlipTrace g data cs fs nested o (p ++ [x.2]) (ran ++ [x.2]) st' ∧
      o.potential st'.ctx + 1 = o.potential st.ctx := by
  have hcached : st.ctx.apply x.2 = none := by
    rw [ht.cached, if_neg hx]
  obtain ⟨st', hrun, ha⟩ :=
    applyReady_run h (flipExpressions fs nested) () hcached ht.trace.changes q
  have hold : (flipExpressions fs nested).value (st.store x.2) = false := by
    change st.store x.2 = false
    rw [ht.store, Bool.and_eq_false_iff, decide_eq_false_iff_not]
    cases hf : fs x.2 with
    | false => exact .inl rfl
    | true => exact .inr (fun hm => hx ⟨hf, hm⟩)
  have hresult : ((flipExpressions fs nested).partialApply x.2
      (st.view (flipExpressions fs nested)) () cs st.store).1 = fs x.2 := rfl
  have htrace := ht.trace.step h [x.2] hq ha
    (by rw [flatMap_cons, flatMap_nil, append_nil]; rfl) (Sublist.refl _)
  have hs : ∀ n, st'.store n = (fs n && decide (n ∈ p ++ [x.2])) := by
    intro n
    rw [ha.store]
    change (if n = x.2 then fs x.2 else st.store n) = _
    by_cases hn : n = x.2
    · subst hn
      simp
    · simp [hn, ht.store]
  have hran : ∀ n ∈ p ++ [x.2], n ∈ ran ++ [x.2] := by
    intro n hn
    rcases mem_append.mp hn with hn | hn
    · exact mem_append_left _ (ht.ran_mem n hn)
    · exact mem_append_right _ hn
  have hr : ∀ n, fs n = false → (ran ++ [x.2]).count n = (p ++ [x.2]).count n := by
    intro n hn
    rw [count_append, count_append, ht.ran_count n hn]
  cases hf : fs x.2 with
  | false =>
    have hctx := ha.same (by rw [hold, hresult, hf])
    refine ⟨st', hrun, ⟨htrace, hs, ?_, ?_, hran, hr⟩, ha.potential hq⟩
    · intro n
      rw [hctx]
      simp only [setReady_apply, ht.cached, mem_append, mem_singleton]
      by_cases hn : n = x.2
      · subst hn
        simp [hf]
      · simp [hn]
    · intro c hc hfc m hm hcm
      rw [hctx]
      rcases mem_append.mp hc with hc | hc
      · exact ht.notified c hc hfc m hm hcm
      · rw [mem_singleton.mp hc, hf] at hfc
        cases hfc
  | true =>
    have hnot := ha.notify (by rw [hold, hresult, hf]; exact Bool.false_ne_true)
    refine ⟨st', hrun, ⟨htrace, hs, ?_, ?_, hran, hr⟩, ha.potential hq⟩
    · intro n
      rw [hnot.apply]
      simp only [saveApply_apply, setReady_apply, mem_append, mem_singleton]
      by_cases hn : n = x.2
      · subst hn
        rw [Table.emplace_fresh hcached, hresult, hf]
        simp
      · rw [Table.emplace_of_ne hn, ht.cached]
        simp [hn]
    · intro c hc hfc m hm hcm
      apply hnot.mem_changedChildren.mpr
      rcases mem_append.mp hc with hc | hc
      · exact .inl (ht.notified c hc hfc m hm hcm)
      · rw [mem_singleton.mp hc] at hcm ⊢
        exact .inr ⟨rfl, (h.parents x.2 m).mpr ⟨hm, hcm⟩⟩

theorem flip_apply (cs : ChangeSet) (fs : ν → Bool) (nested : ν → List ν) :
    ∃ st popped ran, o.apply (flipExpressions fs nested) () (.new cs : Context ν Bool Unit)
        (fun _ => false) = .ok st ∧
      FlipTrace g data cs fs nested o popped ran st ∧ st.ctx.readyNodes.entries = [] := by
  obtain ⟨q, p, hl, hperm, hcount⟩ := computeAllChangedLeaves_spec (V := Bool) (T := Unit) h cs
  have hs : FlipTrace g data cs fs nested o [] []
      ⟨(.new cs : Context ν Bool Unit).setReady q, fun _ => false, []⟩ := by
    refine ⟨.start hcount hperm _, ?_, ?_, ?_, ?_, ?_⟩
    · intro n
      simp
    · intro n
      rw [if_neg (fun hc => not_mem_nil hc.2)]
      rfl
    · intro c hc
      exact absurd hc not_mem_nil
    · intro n hn
      exact absurd hn not_mem_nil
    · intro n _
      rfl
  obtain ⟨st, hloop, ⟨popped, ran, ht⟩, hnil⟩ := applyLoop_rule o (flipExpressions fs nested) ()
    (fun st => ∃ popped ran, FlipTrace g data cs fs nested o popped ran st) (by
      rintro st x q ⟨popped, ran, ht⟩ hq -
      by_cases hx : fs x.2 = true ∧ x.2 ∈ popped
      · obtain ⟨st', hr, ht', hp⟩ := ht.step_cached h hq hx
        exact ⟨st', hr, ⟨_, _, ht'⟩, hp⟩
      · obtain ⟨st', hr, ht', hp⟩ := ht.step_run h hq hx
        exact ⟨st', hr, ⟨_, _, ht'⟩, hp⟩)
    _ _ ⟨[], [], hs⟩ (potential_lt_loopFuel o _)
  refine ⟨st, popped, ran, ?_, ht, hnil⟩
  rw [apply, hl]
  exact hloop

theorem FlipTrace.mem_popped
    (ht : FlipTrace g data cs fs nested o popped ran st) (hnil : st.ctx.readyNodes.entries = []) :
    ∀ d n, g.depth n < d → n ∈ o.postOrder → g.Triggered data cs n →
      (∀ m, g.StrictlyBelow n m → fs m = true) → n ∈ popped := by
  intro d
  induction d with
  | zero =>
    intro n hd
    exact absurd hd (Nat.not_lt_zero _)
  | succ d ih =>
    intro n hd hn htrig hf
    rw [← count_pos_iff, ht.trace.popped_count hnil hn]
    obtain ⟨m, hm, hp⟩ := htrig
    rcases Relation.ReflTransGen.cases_head hm with rfl | ⟨c, hc, hcm⟩
    · omega
    · have hdepth := g.depth_lt n c hc
      have hpop := ih c (by omega) (h.child n hn c hc).1 ⟨m, hcm, hp⟩ (by
        intro k hk
        obtain ⟨c', hc', hk⟩ := hk
        exact hf k ⟨c, hc, .head hc' hk⟩)
      have hne := ne_nil_of_mem (ht.notified c hpop (hf c ⟨c, hc, .refl⟩) n hn hc)
      rw [if_neg hne]
      omega

end

omit [DecidableEq ν] in
theorem ran_sublist (ran : List ν) (nested : ν → List ν) :
    ran.Sublist (ran.flatMap (fun n => n :: nested n)) := by
  induction ran with
  | nil => exact Sublist.refl _
  | cons n ran ih =>
    rw [flatMap_cons, cons_append]
    exact (ih.trans (sublist_append_right _ _)).cons_cons n

theorem RunsOnce.popped_le_one (h : o.Sound g data) (ho : RunsOnce o cs nested)
    (hn : n ∈ o.postOrder) : nodePushes g data cs n ≤ 1 ∧
      (0 < nodePushes g data cs n → ∀ c ∈ g.children n, ¬ g.Triggered data cs c) := by
  let flips : ν → Bool := fun m => decide (m ≠ n)
  obtain ⟨st, p, ran, hr, ht, hnil⟩ := flip_apply h cs flips nested
  obtain ⟨st', hr', hnodup⟩ := ho Bool Unit Bool Unit (flipExpressions flips nested) rfl ()
    (fun _ => false)
  rw [hr, Except.ok.injEq] at hr'
  subst hr'
  have hle : p.count n ≤ 1 := by
    rw [← ht.ran_count n (decide_eq_false (fun hc => hc rfl))]
    rw [ht.trace.runs] at hnodup
    exact nodup_iff_count_le_one.mp (hnodup.sublist (ran_sublist ran nested)) n
  rw [ht.trace.popped_count hnil hn] at hle
  refine ⟨by omega, ?_⟩
  intro hp c hc htrig
  have hb : ∀ m, g.Below c m → flips m = true := by
    intro m hm
    apply decide_eq_true
    rintro rfl
    exact absurd (h.prio_strictly hn ⟨c, hc, hm⟩) (lt_irrefl _)
  have hpop := ht.mem_popped h hnil _ c (Nat.lt_succ_self _) (h.child n hn c hc).1 htrig
    (fun m hm => hb m (.of_strictly hm))
  have hne := ne_nil_of_mem (ht.notified c hpop (hb c .refl) n hn hc)
  rw [if_neg hne] at hle
  omega

theorem RunsOnce.nested_apart (h : o.Sound g data) (ho : RunsOnce o cs nested) :
    (∀ n ∈ o.postOrder, g.Triggered data cs n → (n :: nested n).Nodup) ∧
    ∀ n ∈ o.postOrder, ∀ m ∈ o.postOrder, g.Triggered data cs n → g.Triggered data cs m →
      n ≠ m → (n :: nested n).Disjoint (m :: nested m) := by
  obtain ⟨st, p, ran, hrun, ht, hnil⟩ := flip_apply h cs (fun _ => true) nested
  obtain ⟨st', hr', hnodup⟩ := ho Bool Unit Bool Unit (flipExpressions (fun _ => true) nested)
    rfl () (fun _ => false)
  rw [hrun, Except.ok.injEq] at hr'
  subst hr'
  rw [ht.trace.runs, nodup_flatMap] at hnodup
  have hr : ∀ n ∈ o.postOrder, g.Triggered data cs n → n ∈ ran := by
    intro n hn htrig
    exact ht.ran_mem n (ht.mem_popped h hnil _ n (Nat.lt_succ_self _) hn htrig (fun _ _ => rfl))
  refine ⟨fun n hn htrig => hnodup.1 n (hr n hn htrig), ?_⟩
  intro n hn m hm htn htm hne
  have hs : Std.Symm (Function.onFun Disjoint (fun n => n :: nested n)) :=
    ⟨fun a b hab => List.Disjoint.symm hab⟩
  exact Pairwise.forall hnodup.2 (hr n hn htn) (hr m hm htm) hne

/-- `apply` runs each `partialApply` at most once, whatever the nodes compute, exactly when they run
apart. -/
theorem apply_runs_once_iff (g : ExpressionGraph ν) (roots : List ν)
    (data : AffectedByChangeDecisionData) (fixedContainers : IdSet) (o : Orchestrator ν)
    (hinit : init g roots data fixedContainers = .ok o) (cs : ChangeSet) (nested : ν → List ν) :
    RunsOnce o cs nested ↔ RunsApart g data cs roots nested := by
  have h := init_sound hinit
  have hr : ∀ n, n ∈ o.postOrder ↔ g.Reached roots n := fun n => mem_postOrder_iff hinit
  constructor
  · intro ho
    refine ⟨?_, ?_, ?_, ?_⟩
    · intro n hn
      exact (ho.popped_le_one h ((hr n).mpr hn)).1
    · intro n hn
      exact (ho.popped_le_one h ((hr n).mpr hn)).2
    · intro n hn
      exact (ho.nested_apart h).1 n ((hr n).mpr hn)
    · intro n m hn htn hm htm
      exact (ho.nested_apart h).2 n ((hr n).mpr hn) m ((hr m).mpr hm) htn htm
  · rintro hs V T σ A _ e rfl a s
    exact apply_runs_nodup h hr e hs a s

end Orchestrator

theorem sharedLeaf_runs_once : ∃ o, init sharedLeafGraph [1, 2] ⟨9, 3⟩ ⟨[], .nil⟩ = .ok o ∧
      RunsOnce o moveFive (fun _ => []) := by
  refine ⟨_, rfl, ?_⟩
  rw [apply_runs_once_iff sharedLeafGraph [1, 2] ⟨9, 3⟩ ⟨[], .nil⟩ _ rfl moveFive (fun _ => [])]
  refine ⟨?_, ?_, ?_, ?_⟩
  · rintro n -
    revert n
    decide
  · intro n _ hp c hc
    have hzero : ∀ n, 0 < nodePushes sharedLeafGraph ⟨9, 3⟩ moveFive n → n = 0 := by decide
    rw [hzero n hp] at hc
    exact absurd hc not_mem_nil
  · intro n _ _
    exact nodup_singleton n
  · intro n m _ _ _ _ hne
    exact disjoint_singleton.mpr (fun h => hne (mem_singleton.mp h).symm)

def twoContainerGraph : ExpressionGraph (Fin 1) where
  children _ := []
  children_nodup := single_children_nodup
  depth _ := 0
  depth_lt := single_depth_lt
  isAffectedByChange _ _ := some (.ofContainers ⟨[0, 1], nodup_zero_one⟩ none)
  directlyAffectedContainers _ := none

def dummyExpressions : ApplyExpressions (Fin 1) Int Unit Nat Unit where
  value _ := 0
  partialApply n _ _ _ store := (0, fun m => if m = n then store m + 1 else store m)
  nested _ := []

/-- Object 5 moves from container 0 to container 1; the leaf is run once for each of them. -/
theorem single_move_runs_leaf_twice : moveFive.representsSingleMove = true ∧
    ∃ o st, init twoContainerGraph [0] ⟨9, 3⟩ ⟨[], .nil⟩ = .ok o ∧
      o.apply dummyExpressions () (.new moveFive : Context (Fin 1) Int Unit) (fun _ => 0) =
        .ok st ∧ st.runs = [0, 0] := by
  exact ⟨by decide, _, _, rfl, rfl, rfl⟩

end Rebalancer
