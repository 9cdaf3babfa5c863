import Rebalancer.ApplyCorrect

namespace Rebalancer
open Orchestrator

namespace Orchestrator
variable {ν V T σ A : Type} [DecidableEq ν] [DecidableEq V]

/-- Apply change sets one after another, each with a fresh context, as `Problem::partialApply` does.
-/
def applyAll (o : Orchestrator ν) (exprs : ApplyExpressions ν V T σ A) :
    List (A × ChangeSet) → (ν → σ) → Except String (ν → σ)
  | [], store => .ok store
  | (assignment, changes) :: steps, store => do
    let st ← o.apply exprs assignment (.new changes) store
    applyAll o exprs steps st.store

def finalAssignment : A → List (A × ChangeSet) → A
  | a, [] => a
  | _, (a, _) :: steps => finalAssignment a steps

def EveryStep (P : A → A → ChangeSet → Prop) : A → List (A × ChangeSet) → Prop
  | _, [] => True
  | a, (a', cs) :: steps => P a a' cs ∧ EveryStep P a' steps

theorem EveryStep.append (ss : List (A × ChangeSet)) : ∀ a, EveryStep P a (ss ++ [(a', cs)]) →
      EveryStep P a ss ∧ P (finalAssignment a ss) a' cs := by
  induction ss with
  | nil =>
    intro a h
    exact ⟨trivial, h.1⟩
  | cons step ss ih =>
    intro a h
    obtain ⟨h₁, h₂⟩ := ih step.1 h.2
    exact ⟨⟨h.1, h₁⟩, h₂⟩

def ApplySetting.ofStep (g : ExpressionGraph ν) (data : AffectedByChangeDecisionData)
    (exprs : ApplyExpressions ν V T σ A) (innerFullApply : ν → A → List V → V)
    (Corresponds : A → ν → σ → Prop) (a a' : A) (cs : ChangeSet) : ApplySetting ν V T σ A where
  graph := g
  data := data
  exprs := exprs
  assignment := a'
  changes := cs
  oldValue := fromScratch g innerFullApply a
  newValue := fromScratch g innerFullApply a'
  Old := Corresponds a
  New := Corresponds a'

/-- Each node's `partialApply` is right, is harmless when run again, and is not needed when the
changes do not touch the node. -/
structure ApplySetting.NodesRight (S : ApplySetting ν V T σ A) (roots : List ν) : Prop where
  keeps : ∀ n, S.graph.Reached roots n → ¬ S.Queueable n → ∀ s, S.Old n s → S.New n s
  right : ∀ n, S.graph.Reached roots n → S.AppliesRight n
  again : ∀ n, S.graph.Reached roots n → S.AppliesAgain n

section
variable {g : ExpressionGraph ν} {roots : List ν} {data : AffectedByChangeDecisionData}
  {fixedContainers : IdSet} {o : Orchestrator ν} {exprs : ApplyExpressions ν V T σ A}
  {innerFullApply : ν → A → List V → V} {Corresponds : A → ν → σ → Prop}

section
variable (hi : init g roots data fixedContainers = .ok o)
  (hv : ∀ a n, g.Reached roots n → ∀ s, Corresponds a n s → exprs.value s =
    fromScratch g innerFullApply a n)
include hi hv

theorem apply_step
    (hri : (ApplySetting.ofStep g data exprs innerFullApply Corresponds a a' cs).NodesRight roots)
    (hs : ∀ n, g.Reached roots n → Corresponds a n (s' n)) :
    ∃ st, o.apply exprs a' (.new cs : Context ν V T) s' = .ok st ∧
      (∀ n, g.Reached roots n → Corresponds a' n (st.store n)) ∧
      ∀ n, ¬ (ApplySetting.ofStep g data exprs innerFullApply Corresponds a a' cs).Queueable n →
        st.store n = s' n := by
  have hmem : ∀ n, n ∈ o.postOrder ↔ g.Reached roots n := fun n => mem_postOrder_iff hi
  obtain ⟨st, hr, hnew, hk⟩ := ApplySetting.apply_spec
    (.ofStep g data exprs innerFullApply Corresponds a a' cs) s' (init_sound hi)
    ⟨fun n hn => hv a n ((hmem n).mp hn), fun n hn => hv a' n ((hmem n).mp hn),
      fun n hn => hri.keeps n ((hmem n).mp hn), fun n hn => hri.right n ((hmem n).mp hn),
      fun n hn => hri.again n ((hmem n).mp hn)⟩
    (fun n hn => hs n ((hmem n).mp hn))
  exact ⟨st, hr, fun n hn => hnew n ((hmem n).mpr hn), hk⟩

theorem applyAll_spec (ss : List (A × ChangeSet)) :
    ∀ a s', EveryStep (fun a a' cs => (ApplySetting.ofStep g data exprs innerFullApply
      Corresponds a a' cs).NodesRight roots) a ss →
    (∀ n, g.Reached roots n → Corresponds a n (s' n)) →
    ∃ store', o.applyAll exprs ss s' = .ok store' ∧
      ∀ n, g.Reached roots n → Corresponds (finalAssignment a ss) n (store' n) := by
  induction ss with
  | nil =>
    intro a s' _ hs
    exact ⟨s', rfl, hs⟩
  | cons step ss ih =>
    intro a s' hsteps hs
    obtain ⟨st, hr, hn, -⟩ := apply_step hi hv hsteps.1 hs
    obtain ⟨store', hrest, hf⟩ := ih step.1 st.store hsteps.2 hn
    refine ⟨store', ?_, hf⟩
    rw [applyAll, hr]
    exact hrest

end

/-- After each application every node stores what a `fullApply` gives; untouched nodes keep their
state. -/
theorem apply_eq_fullApply (g : ExpressionGraph ν) (roots : List ν)
    (data : AffectedByChangeDecisionData) (fixedContainers : IdSet) (o : Orchestrator ν)
    (hinit : init g roots data fixedContainers = .ok o) (exprs : ApplyExpressions ν V T σ A)
    (innerFullApply : ν → A → List V → V) (Corresponds : A → ν → σ → Prop)
    (hvalue : ∀ a n, g.Reached roots n → ∀ s, Corresponds a n s →
      exprs.value s = fromScratch g innerFullApply a n)
    (a₀ : A) (store₀ : ν → σ) (hstore₀ : ∀ n, g.Reached roots n → Corresponds a₀ n (store₀ n))
    (steps : List (A × ChangeSet)) (a : A) (cs : ChangeSet)
    (hsteps : EveryStep (fun a a' cs => (ApplySetting.ofStep g data exprs innerFullApply
      Corresponds a a' cs).NodesRight roots) a₀ (steps ++ [(a, cs)])) :
    ∃ store st, o.applyAll exprs steps store₀ = .ok store ∧
      o.apply exprs a (.new cs : Context ν V T) store = .ok st ∧ (∀ n, g.Reached roots n →
        exprs.value (st.store n) = fromScratch g innerFullApply a n) ∧
      ∀ n, ¬ (ApplySetting.ofStep g data exprs innerFullApply Corresponds
        (finalAssignment a₀ steps) a cs).Queueable n → st.store n = store n := by
  obtain ⟨hinitial, hl⟩ := EveryStep.append steps a₀ hsteps
  obtain ⟨store, ha, hc⟩ := applyAll_spec hinit hvalue steps a₀ store₀ hinitial hstore₀
  obtain ⟨st, hr, hnew, hk⟩ := apply_step hinit hvalue hl hc
  exact ⟨store, st, ha, hr, fun n hn => hvalue a n hn _ (hnew n hn), hk⟩

end

end Orchestrator

def sharedLeafApply : ApplyExpressions (Fin 3) Int Unit Int Bool where
  value s := s
  partialApply n view onContainerOne _ store :=
    let v : Int :=
      if n = 0 then (if onContainerOne then 1 else 0)
      else if n = 1 then view.value 0 + 1
      else 2 * view.value 0
    (v, fun m => if m = n then v else store m)
  nested _ := []

def moveFiveBack : ChangeSet := .ofList [.removal 5 1, .addition 5 0]

theorem sharedLeaf_nodesRight (hp : 0 < nodePushes sharedLeafGraph ⟨9, 3⟩ cs 0) :
    (ApplySetting.ofStep sharedLeafGraph ⟨9, 3⟩ sharedLeafApply sharedLeafFullApply
      (fun a n s => s = fromScratch sharedLeafGraph sharedLeafFullApply a n) a (!a) cs).NodesRight
      [1, 2] := by
  have hchanged : ∀ (a : Bool) (n : Fin 3), fromScratch sharedLeafGraph sharedLeafFullApply (!a) n ≠
        fromScratch sharedLeafGraph sharedLeafFullApply a n := by decide
  refine ⟨?_, ?_, ?_⟩
  · intro n _ hno
    by_cases hn : n = 0
    · subst hn
      exact absurd (.inl hp) hno
    · have hc : (0 : Fin 3) ∈ sharedLeafGraph.children n := by
        simp [sharedLeafGraph, hn]
      exact absurd (.inr ⟨0, hc, hchanged a 0⟩) hno
  · intro n _ view store hav _
    have hzero : n ≠ 0 → view.value 0 = fromScratch sharedLeafGraph sharedLeafFullApply (!a) 0 := by
      intro hn
      have hc : (0 : Fin 3) ∈ sharedLeafGraph.children n := by
        simp [sharedLeafGraph, hn]
      exact hav.value 0 ⟨0, hc, .refl⟩
    have hvalue : (sharedLeafApply.partialApply n view (!a) cs store).1 =
        fromScratch sharedLeafGraph sharedLeafFullApply (!a) n := by
      fin_cases n
      · cases a <;> rfl
      · refine (congrArg (· + 1) (hzero (by decide))).trans ?_
        cases a <;> rfl
      · refine (congrArg (2 * ·) (hzero (by decide))).trans ?_
        cases a <;> rfl
    refine ⟨hvalue, ?_, ?_⟩
    · exact (if_pos rfl).trans hvalue
    · intro m hm
      exact if_neg hm
  · intro n _ hch
    exact absurd (hchanged a n) hch

theorem sharedLeaf_apply_twice :
    ∃ o store st, init sharedLeafGraph [1, 2] ⟨9, 3⟩ ⟨[], .nil⟩ = .ok o ∧
      o.applyAll sharedLeafApply [(true, moveFive)] sharedLeafExpressions.value = .ok store ∧
      o.apply sharedLeafApply false (.new moveFiveBack) store = .ok st ∧
      ∀ n, sharedLeafGraph.Reached [1, 2] n → sharedLeafApply.value (st.store n) =
          fromScratch sharedLeafGraph sharedLeafFullApply false n := by
  obtain ⟨store, st, ha, hr, hvalue, -⟩ := apply_eq_fullApply sharedLeafGraph
    [1, 2] ⟨9, 3⟩ ⟨[], .nil⟩ _ rfl sharedLeafApply sharedLeafFullApply
    (fun a n s => s = fromScratch sharedLeafGraph sharedLeafFullApply a n)
    (fun _ _ _ _ h => h) false sharedLeafExpressions.value (by rintro n -; revert n; decide)
    [(true, moveFive)] false moveFiveBack
    ⟨sharedLeaf_nodesRight (a := false) (by decide),
      sharedLeaf_nodesRight (a := true) (by decide), trivial⟩
  exact ⟨_, store, st, rfl, ha, hr, hvalue⟩

end Rebalancer
