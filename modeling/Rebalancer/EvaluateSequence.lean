import Rebalancer.EvaluateCorrect

namespace Rebalancer
open List Orchestrator

def ExpressionGraph.Reached (g : ExpressionGraph ν) (roots : List ν) (n : ν) : Prop :=
  ∃ root ∈ roots, g.Below root n

namespace Orchestrator
variable {ν V T A : Type} [DecidableEq ν]

theorem mem_postOrder_iff {rs : List ν} (h : init g rs data cs = .ok o) :
    n ∈ o.postOrder ↔ g.Reached rs n := by
  have hs := init_sound h
  have hr := init_roots h
  constructor
  · intro hn
    obtain ⟨root, hroot, hb⟩ := hs.below n hn
    rw [hr] at hroot
    exact ⟨root, mem_of_getElem? hroot, hb⟩
  · rintro ⟨root, hroot, hb⟩
    exact hs.mem_of_root (by rw [hr]; exact hroot) hb

omit [DecidableEq ν] in
theorem queueable_of_changed {S : Setting ν V T} (hn : S.newValue = fromScratch S.graph i a')
    (hv : S.exprs.value n = fromScratch S.graph i a n) (hchildren : ∀ c ∈ S.graph.children n,
      S.exprs.value c = fromScratch S.graph i a c) (hl : nodePushes S.graph S.data S.changes n = 0 →
      i n a' ((S.graph.children n).map S.exprs.value) =
        i n a ((S.graph.children n).map S.exprs.value)) (hch : S.Changed n) : S.Queueable n := by
  by_contra hno
  have hpush : nodePushes S.graph S.data S.changes n = 0 := by
    by_contra hp
    exact hno (.inl (Nat.pos_of_ne_zero hp))
  have hs : (S.graph.children n).map (fromScratch S.graph i a') =
      (S.graph.children n).map S.exprs.value := by
    apply map_congr_left
    intro c hc
    rw [← hn]
    by_contra hne
    exact hno (.inr ⟨c, hc, hne⟩)
  have hold : (S.graph.children n).map S.exprs.value =
      (S.graph.children n).map (fromScratch S.graph i a) := by
    apply map_congr_left
    exact hchildren
  apply hch
  calc S.newValue n = i n a' ((S.graph.children n).map (fromScratch S.graph i a')) := by
        rw [hn, fromScratch_eq]
    _ = i n a ((S.graph.children n).map S.exprs.value) := by rw [hs, hl hpush]
    _ = S.exprs.value n := by
        rw [hold, hv, fromScratch_eq S.graph i a n]

/-- Calls of `evaluate` on one context return the values of a from-scratch evaluation; none fails.
-/
theorem evaluateAll_eq_fromScratch [DecidableEq V] (g : ExpressionGraph ν) (roots : List ν)
    (data : AffectedByChangeDecisionData) (fixedContainers : IdSet) (o : Orchestrator ν)
    (hinit : init g roots data fixedContainers = .ok o)
    (exprs : Expressions ν V T) (changes : ChangeSet) (innerFullApply : ν → A → List V → V)
    (a a' : A) (tables : ν → Option T)
    (hvalue : ∀ n, g.Reached roots n → exprs.value n = fromScratch g innerFullApply a n)
    (hleaf : ∀ n, g.Reached roots n → nodePushes g data changes n = 0 →
      innerFullApply n a' ((g.children n).map exprs.value) =
        innerFullApply n a ((g.children n).map exprs.value))
    (heval : ∀ n, g.Reached roots n → Setting.EvaluatesRight
      ⟨g, data, exprs, changes, fromScratch g innerFullApply a', tables⟩ n)
    (nodes : List ν) (hnodes : ∀ n ∈ nodes, g.Reached roots n) :
    ∃ ctx, o.evaluateAll exprs nodes (.new changes) =
      .ok (nodes.map (fromScratch g innerFullApply a'), ctx) := by
  have hs := init_sound hinit
  refine evaluateAll_spec
    (S := ⟨g, data, exprs, changes, fromScratch g innerFullApply a', tables⟩) hs ?_ ?_ nodes
    (.new changes) ?_ (Setting.Inv.new _ o)
  · intro n hn hch
    have hr := (mem_postOrder_iff hinit).mp hn
    refine queueable_of_changed rfl (hvalue n hr) ?_ (hleaf n hr) hch
    intro c hc
    exact hvalue c ((mem_postOrder_iff hinit).mp (hs.child n hn c hc).1)
  · intro n hn
    exact heval n ((mem_postOrder_iff hinit).mp hn)
  · intro n hn
    exact (mem_postOrder_iff hinit).mpr (hnodes n hn)

end Orchestrator

instance oneNeZero : NeZero 1 := ⟨by decide⟩
instance twoNeZero : NeZero 2 := ⟨by decide⟩
instance threeNeZero : NeZero 3 := ⟨by decide⟩

theorem single_children_nodup : ∀ _ : Fin 1, ([] : List (Fin 1)).Nodup := fun _ => nodup_nil

theorem single_depth_lt : ∀ _ c : Fin 1, c ∈ ([] : List (Fin 1)) → 0 < 0 :=
  fun _ _ hc => absurd hc not_mem_nil

def sharedLeafGraph : ExpressionGraph (Fin 3) where
  children n := if n = 0 then [] else [0]
  children_nodup n := by
    split
    · exact nodup_nil
    · exact nodup_singleton 0
  depth n := if n = 0 then 0 else 1
  depth_lt n c hc := by
    split_ifs at hc with hn
    · exact absurd hc not_mem_nil
    · rw [mem_singleton] at hc
      simp [hc, hn]
  isAffectedByChange _ n :=
    if n = 0 then some (.ofObjects ⟨[5], nodup_singleton 5⟩ none) else none
  directlyAffectedContainers _ := none

def sharedLeafFullApply (n : Fin 3) (onContainerOne : Bool) (children : List Int) : Int :=
  if n = 0 then (if onContainerOne then 1 else 0)
  else if n = 1 then children.sum + 1
  else 2 * children.sum

def sharedLeafExpressions : Expressions (Fin 3) Int Unit where
  value n := if n = 1 then 1 else 0
  evaluate n view _ :=
    if n = 0 then (1, [])
    else if n = 1 then (view.value 0 + 1, [])
    else (2 * view.value 0, [])

def moveFive : ChangeSet := .ofList [.removal 5 0, .addition 5 1]

theorem sharedLeaf_evaluateAll : ∃ o, init sharedLeafGraph [1, 2] ⟨9, 3⟩ ⟨[], .nil⟩ =
    .ok o ∧ ∃ ctx, o.evaluateAll sharedLeafExpressions [2, 1, 0, 2] (.new moveFive) =
      .ok ([2, 2, 1, 2], ctx) := by
  refine ⟨_, rfl, ?_⟩
  refine evaluateAll_eq_fromScratch sharedLeafGraph [1, 2] ⟨9, 3⟩ ⟨[], .nil⟩ _ rfl
    sharedLeafExpressions moveFive sharedLeafFullApply false true (fun _ => none) ?_ ?_ ?_
    [2, 1, 0, 2] ?_
  · rintro n -
    revert n
    decide
  · rintro n -
    revert n
    decide
  · intro n _ view hv
    have hzero : n ≠ 0 → view.value 0 = 1 := by
      intro hn
      have hmem : (0 : Fin 3) ∈ sharedLeafGraph.children n := by
        simp [sharedLeafGraph, hn]
      exact hv.value 0 ⟨0, hmem, .refl⟩
    refine ⟨?_, ?_, fun t ht => by cases ht⟩
    · match n with
      | 0 => rfl
      | 1 => exact congrArg (· + 1) (hzero (by decide))
      | 2 => exact congrArg (2 * ·) (hzero (by decide))
    · intro save hs
      match n with
      | 0 => exact absurd hs not_mem_nil
      | 1 => exact absurd hs not_mem_nil
      | 2 => exact absurd hs not_mem_nil
  · have ho : sharedLeafGraph.Reached [1, 2] 1 := ⟨1, by decide, .refl⟩
    have htwo : sharedLeafGraph.Reached [1, 2] 2 := ⟨2, by decide, .refl⟩
    have hzero : sharedLeafGraph.Reached [1, 2] 0 := ⟨1, by decide, .single (by decide)⟩
    intro n _
    match n with
    | 0 => exact hzero
    | 1 => exact ho
    | 2 => exact htwo

end Rebalancer
