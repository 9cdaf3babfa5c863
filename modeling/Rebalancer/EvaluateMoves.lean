import Rebalancer.MovesEvaluator

namespace Rebalancer
open LocalSearchObjectiveValue DoNotWorsenGoalConfig
open List hiding all

variable {ν S C : Type}

theorem DoNotWorsenGoalConfig.firstWorse_spec (c : DoNotWorsenGoalConfig ν)
    (p : PrecisionTolerances) (v' : ν → ℚ)
    (nodes : List ν) : ∀ (pos : Nat) (ctx : C), Answers e Good nodes v → Good ctx →
    ∃ worse ctx', c.firstWorse p e v' nodes pos ctx = .ok (worse, ctx') ∧ Good ctx' ∧
      worse.isSome = c.worsensFrom p pos (nodes.map v') (nodes.map v) := by
  induction nodes with
  | nil =>
    intro pos ctx _ hg
    exact ⟨none, ctx, rfl, hg, rfl⟩
  | cons node nodes ih =>
    intro pos ctx ha hg
    obtain ⟨ctx₁, hr, hg₁⟩ := ha node mem_cons_self ctx hg
    simp only [firstWorse, hr, except_ok_bind, map_cons, worsensFrom]
    cases hx : c.exceedsAllowedWorsening p pos (v' node) (v node) with
    | true => exact ⟨some pos, ctx₁, rfl, hg₁, rfl⟩
    | false =>
      obtain ⟨worse, ctx', hl, hg', hw⟩ :=
        ih (pos + 1) ctx₁ (ha.mono (subset_cons_self node nodes)) hg₁
      exact ⟨worse, ctx', hl, hg', hw⟩

namespace MovesEvaluator

theorem isPositive_spec (p : PrecisionTolerances) {e : Evaluate ν C}
    (nodes : List ν) : ∀ ctx : C, Answers e Good nodes v → Good ctx →
    ∃ ctx', isPositive p e nodes ctx =
      .ok (nodes.any (fun c => p.isStrictlyGtZero (v c)), ctx') ∧ Good ctx' := by
  induction nodes with
  | nil =>
    intro ctx _ hg
    exact ⟨ctx, rfl, hg⟩
  | cons node nodes ih =>
    intro ctx ha hg
    obtain ⟨ctx₁, hr, hg₁⟩ := ha node mem_cons_self ctx hg
    simp only [isPositive, hr, except_ok_bind, any_cons]
    cases hx : p.isStrictlyGtZero (v node) with
    | true => exact ⟨ctx₁, rfl, hg₁⟩
    | false => exact ih ctx₁ (ha.mono (subset_cons_self node nodes)) hg₁

section
variable (evaluator : MovesEvaluator ν)

variable (problem : Problem ν S C)

def nodes : List ν := problem.constraints ++ evaluator.doNotWorsenGoalConfig.goal.objectives ++
    evaluator.minimizingGoal.combinedObjective.objectives ++
    (evaluator.arbiterGoal.elim [] GlobalObjective.objectives)

def stageTuple (v : ν → ℚ) : List ℚ := evaluator.minimizingGoal.combinedObjective.objectives.map v

/-- Neither a constraint nor a higher-priority objective forbids the change of the values from
`value` to `v`. -/
def permits (value v : ν → ℚ) : Bool :=
  !(problem.constraints.any (fun c => problem.precision.isStrictlyGtZero (v c))) &&
    !(evaluator.doNotWorsenGoalConfig.hasWorsened problem.precision
      (evaluator.doNotWorsenGoalConfig.goal.objectives.map value)
      (evaluator.doNotWorsenGoalConfig.goal.objectives.map v))

def newValueOf (all : Bool) (value : ν → ℚ) (xs : List ℚ) : LocalSearchObjectiveValue :=
  ⟨⟨GlobalObjective.evaluatedValues all xs (evaluator.stageTuple value),
    some evaluator.minimizingGoal.combinedObjective.size⟩, evaluator.minimizingGoal.hasPenalty⟩

def arbiterOf (v : ν → ℚ) : Option GlobalObjectiveValue :=
  evaluator.arbiterGoal.map (fun goal => ⟨goal.objectives.map v, some goal.size⟩)

def outcome (all : Bool) (value v : ν → ℚ) (moves : MoveSet) : MoveResult :=
  if evaluator.permits problem value v then
    .makeValid moves (evaluator.minimizingGoal.getValue value)
      (evaluator.newValueOf all value (evaluator.stageTuple v))
      (if compareValues (evaluator.newValueOf all value
        (evaluator.stageTuple v)).combinedValue.values
          (evaluator.stageTuple value) = .lt then evaluator.arbiterOf v else none)
  else .makeInvalid moves

theorem stageTuple_length (v : ν → ℚ) :
    (evaluator.stageTuple v).length = evaluator.minimizingGoal.combinedObjective.size := by
  rw [stageTuple, length_map, GlobalObjective.size]

theorem newValueOf_size (all : Bool) (v : ν → ℚ)
    (hl : xs.length = evaluator.minimizingGoal.combinedObjective.size) :
    (evaluator.newValueOf all v xs).combinedValue.size = 0 ↔
      evaluator.minimizingGoal.combinedObjective.size = 0 := by
  have hs := hl.trans (evaluator.stageTuple_length v).symm
  simp only [newValueOf, GlobalObjectiveValue.size, length_eq_zero_iff, ← hl]
  constructor
  · intro hn
    by_contra hne
    cases all with
    | true => exact hne hn
    | false => exact GlobalObjective.shortCircuit_ne_nil hne hs hn
  · intro hn
    cases all with
    | true => exact hn
    | false =>
      rw [hn]
      rfl

theorem newValueOf_full (h : (evaluator.newValueOf all v xs).combinedValue.isPartial = false) :
    (evaluator.newValueOf all v xs).combinedValue.size =
      evaluator.minimizingGoal.combinedObjective.size := by
  rw [GlobalObjectiveValue.isPartial, newValueOf, bne_eq_false_iff_eq] at h
  exact h.symm

theorem validateCompatible_newValueOf (all : Bool) (v : ν → ℚ) (xs : List ℚ) :
    validateCompatible (evaluator.newValueOf all v xs)
      (evaluator.minimizingGoal.getValue v) = .ok () := by
  simp [validateCompatible, newValueOf, LocalSearchObjective.getValue]

theorem unsafeCompare_newValueOf (all : Bool) (v : ν → ℚ)
    (hl : xs.length = evaluator.minimizingGoal.combinedObjective.size) :
    (evaluator.newValueOf all v xs).unsafeCompare (evaluator.minimizingGoal.getValue v) =
      .ok (compareValues (evaluator.newValueOf all v xs).combinedValue.values
        (evaluator.stageTuple v)) := by
  have hc := evaluator.validateCompatible_newValueOf all v xs
  have hold : (evaluator.minimizingGoal.getValue v).combinedValue.size =
      evaluator.minimizingGoal.combinedObjective.size := evaluator.stageTuple_length v
  have hn := evaluator.newValueOf_size all v hl
  simp only [unsafeCompare, hc, except_ok_bind, GlobalObjectiveValue.unsafeCompare, hn, hold]
  split
  · rename_i hzero
    have hnil := length_eq_zero_iff.mp (hn.mpr hzero)
    rw [hnil]
    rfl
  · have hs : ((evaluator.newValueOf all v xs).combinedValue.isPartial ||
        (evaluator.minimizingGoal.getValue v).combinedValue.isPartial ||
        (evaluator.newValueOf all v xs).combinedValue.size ==
          evaluator.minimizingGoal.combinedObjective.size) = true := by
      cases hpart : (evaluator.newValueOf all v xs).combinedValue.isPartial with
      | true => rw [Bool.true_or, Bool.true_or]
      | false => rw [evaluator.newValueOf_full hpart, beq_self_eq_true, Bool.or_true]
    simp only [hs, Bool.not_true, Bool.false_eq_true, ↓reduceIte]
    rfl

theorem evaluateWith_spec (all : Bool) {s : S} (hch : checkMoves (problem.assignment s) ms = .ok ())
    (ha : Answers (problem.evaluate s) Good (evaluator.nodes problem) v)
    (hgo : Good (problem.newContext ms.getChangeSet)) : evaluator.evaluateWith problem all s ms =
      .ok (evaluator.outcome problem all (problem.value s) v ms) := by
  have hconstraints : Answers (problem.evaluate s) Good problem.constraints v :=
    ha.mono (fun n hn => by simp [nodes, hn])
  have hworsen : Answers (problem.evaluate s) Good
      evaluator.doNotWorsenGoalConfig.goal.objectives v :=
    ha.mono (fun n hn => by simp [nodes, hn])
  have hgoal : Answers (problem.evaluate s) Good
      evaluator.minimizingGoal.combinedObjective.objectives v :=
    ha.mono (fun n hn => by simp [nodes, hn])
  obtain ⟨ctx₁, hp, hg₁⟩ := isPositive_spec problem.precision problem.constraints
    (problem.newContext ms.getChangeSet) hconstraints hgo
  obtain ⟨w, ctx₂, hf, hg₂, hworse⟩ :=
    evaluator.doNotWorsenGoalConfig.firstWorse_spec problem.precision (problem.value s) _ 0 ctx₁
      hworsen hg₁
  obtain ⟨ctx₃, hnew, hg₃⟩ := evaluator.minimizingGoal.combinedObjective.evaluate_spec
    (problem.value s) hgoal hg₂ all
  have harbiter : evaluator.arbiterValue (problem.evaluate s) (problem.value s) ctx₃ =
      .ok (evaluator.arbiterOf v) := by
    cases hg : evaluator.arbiterGoal with
    | none => simp [arbiterValue, arbiterOf, hg]
    | some goal =>
      have hsub : Answers (problem.evaluate s) Good goal.objectives v :=
        ha.mono (fun n hn => by simp [nodes, hg, hn])
      obtain ⟨ctx₄, hr, -⟩ := goal.evaluate_spec (problem.value s) hsub hg₃ true
      simp only [arbiterValue, arbiterOf, hg, Option.map_some, hr, except_ok_bind]
      rfl
  have hnewValue : evaluator.minimizingGoal.evaluate (problem.evaluate s) (problem.value s) all
      ctx₂ = .ok (evaluator.newValueOf all (problem.value s) (evaluator.stageTuple v), ctx₃) := by
    rw [LocalSearchObjective.evaluate, hnew]
    rfl
  simp only [evaluateWith, hch, hp, except_ok_bind, outcome, permits,
    getFirstWorseTuplePos, hf, hworse, hnewValue,
    evaluator.unsafeCompare_newValueOf all (problem.value s) (evaluator.stageTuple_length v),
    harbiter, hasWorsened]
  by_cases hc : problem.constraints.any (fun c => problem.precision.isStrictlyGtZero (v c)) = true
  · simp [hc]
  · by_cases hw : evaluator.doNotWorsenGoalConfig.worsensFrom problem.precision 0
        (evaluator.doNotWorsenGoalConfig.goal.objectives.map (problem.value s))
        (evaluator.doNotWorsenGoalConfig.goal.objectives.map v) = true
    · simp [hc, hw]
    · simp only [hc, hw, Bool.not_false, Bool.and_self, Bool.false_eq_true, ↓reduceIte]
      split <;> rfl

end

end MovesEvaluator

end Rebalancer
