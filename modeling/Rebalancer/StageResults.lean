import Rebalancer.EvaluateMoves

namespace Rebalancer
open GlobalObjective

variable {ν S C : Type}
variable {e' : Evaluate ν C}

namespace GlobalObjective

theorem evaluateLoop_inv (v : ν → ℚ) (all : Bool) (ns : List ν) :
    ∀ (i' : Bool) (r : GlobalObjectiveValue) (ctx : C) (out : GlobalObjectiveValue × C),
    evaluateLoop e' v all ns i' r ctx = .ok out →
    ∃ xs : List ℚ, xs.length = ns.length ∧ out.1.tupleSize = r.tupleSize ∧
      out.1.values = r.values ++ if all then xs else shortCircuit i' xs (ns.map v) := by
  induction ns with
  | nil =>
    intro i' r ctx out h
    cases h
    refine ⟨[], rfl, rfl, ?_⟩
    cases all <;> exact (List.append_nil _).symm
  | cons node ns ih =>
    intro i' r ctx out h
    obtain ⟨⟨val, ctx₁⟩, -, h⟩ := except_bind_ok h
    obtain ⟨r₁, ha, h⟩ := except_bind_ok h
    have hr : r₁.tupleSize = r.tupleSize ∧ r₁.values = r.values ++ [val] := by
      simp only [GlobalObjectiveValue.append] at ha
      split at ha
      · rename_i hsize
        cases ha
        exact ⟨hsize.symm, rfl⟩
      · rename_i n hsize
        split at ha
        · cases ha
        · cases ha
          exact ⟨hsize.symm, rfl⟩
    have hn := fun i => ih i r₁ ctx₁ out
    simp only [hr.1, hr.2, List.append_assoc, List.singleton_append] at hn
    cases all with
    | true =>
      obtain ⟨xs, hl, hsize, hv⟩ := hn i' h
      exact ⟨val :: xs, congrArg Nat.succ hl, hsize, hv⟩
    | false =>
      simp only [Bool.false_eq_true, ↓reduceIte, List.map_cons] at h hn ⊢
      split at h
      · rename_i hlt
        obtain ⟨xs, hl, hsize, hv⟩ := hn true h
        refine ⟨val :: xs, congrArg Nat.succ hl, hsize, ?_⟩
        rw [hv, shortCircuit, if_pos hlt]
      · rename_i hlt
        split at h
        · rename_i hs
          cases h
          refine ⟨val :: ns.map v, congrArg Nat.succ (List.length_map _), hr.1, ?_⟩
          rw [hr.2, shortCircuit, if_neg hlt, if_pos hs]
        · rename_i hs
          obtain ⟨xs, hl, hsize, hv⟩ := hn i' h
          refine ⟨val :: xs, congrArg Nat.succ hl, hsize, ?_⟩
          rw [hv, shortCircuit, if_neg hlt, if_neg hs]

theorem evaluate_inv {goal : GlobalObjective ν} (h : goal.evaluate e' v all ctx = .ok out) :
    ∃ xs : List ℚ, xs.length = goal.size ∧
      out.1 = ⟨evaluatedValues all xs (goal.objectives.map v), some goal.size⟩ := by
  obtain ⟨xs, hl, hsize, hv⟩ := evaluateLoop_inv v all _ _ _ _ out h
  refine ⟨xs, hl, ?_⟩
  have he : out.1 = ⟨out.1.values, out.1.tupleSize⟩ := rfl
  rw [he, hsize, hv]
  rfl

theorem build_size (zero : ν) (os : List ν) : (build zero os).size ≠ 0 := by
  simp only [build]
  split_ifs with hne
  · exact Nat.one_ne_zero
  · intro hzero
    exact hne (List.isEmpty_iff.mpr (List.length_eq_zero_iff.mp hzero))

end GlobalObjective

variable {evaluator : MovesEvaluator ν}

namespace MovesEvaluator

structure Proper (evaluator : MovesEvaluator ν) : Prop where
  goal : evaluator.minimizingGoal.combinedObjective.size ≠ 0
  arbiter : ∀ goal ∈ evaluator.arbiterGoal, goal.size ≠ 0

theorem new_proper (h : MovesEvaluator.new p s stop a = .ok evaluator) : evaluator.Proper := by
  obtain ⟨goal, hgoal, h⟩ := except_bind_ok h
  obtain ⟨c, hc, hgoal⟩ := except_bind_ok hgoal
  cases hgoal
  have hsize : c.size ≠ 0 := by
    simp only [LocalSearchObjective.buildCombinedObjective] at hc
    split at hc
    · cases hc
      exact build_size _ _
    · split at hc
      · cases hc
      · cases hc
        exact build_size _ _
  split at h
  · cases h
  · cases h
    refine ⟨hsize, ?_⟩
    intro goal hg
    simp only at hg
    split at hg
    · cases hg
      exact build_size _ _
    · cases hg

inductive StageResult (evaluator : MovesEvaluator ν) (all : Bool) (value : ν → ℚ) :
    MoveResult → Prop where
  | invalid (empty : Bool) (evals : Nat) (moves : MoveSet) :
      StageResult evaluator all value ⟨empty, false, .new, .new, none, evals, moves⟩
  | valid (evals : Nat) (moves : MoveSet) (xs zs : List ℚ)
      (hxs : xs.length = evaluator.minimizingGoal.combinedObjective.size)
      (hzs : ∀ goal ∈ evaluator.arbiterGoal, zs.length = goal.size) :
      StageResult evaluator all value ⟨false, true, evaluator.minimizingGoal.getValue value,
        evaluator.newValueOf all value xs,
        if compareValues (evaluator.newValueOf all value xs).combinedValue.values
          (evaluator.stageTuple value) = .lt
        then evaluator.arbiterGoal.map (fun goal => ⟨zs, some goal.size⟩) else none, evals, moves⟩

theorem StageResult.addEvals (h : StageResult evaluator all v r) (n : Nat) :
    StageResult evaluator all v (r.addEvals n) := by
  cases h with
  | invalid empty e m => exact .invalid empty (n + e) m
  | valid e m xs zs hxs hzs => exact .valid (n + e) m xs zs hxs hzs

theorem arbiterValue_inv (h : evaluator.arbiterValue e' v' ctx = .ok a) :
    ∃ zs : List ℚ, (∀ goal ∈ evaluator.arbiterGoal, zs.length = goal.size) ∧
      a = evaluator.arbiterGoal.map (fun goal => ⟨zs, some goal.size⟩) := by
  rw [arbiterValue] at h
  split at h
  · rename_i hnone
    cases h
    rw [hnone]
    exact ⟨[], fun goal hg => (by cases hg), rfl⟩
  · rename_i goal hs
    obtain ⟨⟨v, ctx'⟩, hv, h⟩ := except_bind_ok h
    cases h
    obtain ⟨zs, hzs, heq⟩ := evaluate_inv hv
    subst heq
    rw [hs]
    refine ⟨zs, ?_, rfl⟩
    intro g' hg
    cases hg
    exact hzs

theorem exists_arbiter_values (evaluator : MovesEvaluator ν) :
    ∃ zs : List ℚ, ∀ goal ∈ evaluator.arbiterGoal, zs.length = goal.size := by
  cases evaluator.arbiterGoal with
  | none => exact ⟨[], fun goal hg => (by cases hg)⟩
  | some goal =>
    refine ⟨List.replicate goal.size 0, ?_⟩
    intro g' hg
    cases hg
    exact List.length_replicate

theorem evaluateWith_stageResult {p' : Problem ν S C}
    (h : evaluator.evaluateWith p' all s moves = .ok r) :
    StageResult evaluator all (p'.value s) r ∧ r.moveSet = moves := by
  obtain ⟨-, -, h⟩ := except_bind_ok h
  obtain ⟨⟨p, ctx⟩, -, h⟩ := except_bind_ok h
  cases p with
  | true =>
    cases h
    exact ⟨.invalid false 1 moves, rfl⟩
  | false =>
    obtain ⟨⟨w, ctx⟩, -, h⟩ := except_bind_ok h
    cases w with
    | some pos =>
      cases h
      exact ⟨.invalid false 1 moves, rfl⟩
    | none =>
      obtain ⟨⟨n, ctx⟩, hn, h⟩ := except_bind_ok h
      obtain ⟨⟨c, ctx'⟩, hc, hn⟩ := except_bind_ok hn
      obtain ⟨xs, hxs, heq⟩ := evaluate_inv hc
      obtain ⟨compare, hcompare, h⟩ := except_bind_ok h
      cases hn
      subst heq
      have hs := Except.ok.inj
        ((evaluator.unsafeCompare_newValueOf all (p'.value s) hxs).symm.trans hcompare)
      subst hs
      split_ifs at h with hlt
      · obtain ⟨a, ha, h⟩ := except_bind_ok h
        obtain ⟨zs, hzs, rfl⟩ := arbiterValue_inv ha
        cases h
        have hv : StageResult evaluator all (p'.value s) _ := .valid 1 moves xs zs hxs hzs
        rw [if_pos hlt] at hv
        exact ⟨hv, rfl⟩
      · cases h
        obtain ⟨zs, hzs⟩ := evaluator.exists_arbiter_values
        have hv : StageResult evaluator all (p'.value s) _ := .valid 1 moves xs zs hxs hzs
        rw [if_neg hlt] at hv
        exact ⟨hv, rfl⟩

end MovesEvaluator

end Rebalancer
