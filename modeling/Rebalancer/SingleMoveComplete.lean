import Rebalancer.ChangeSetInverse
import Rebalancer.ExhaustiveSearch
import Rebalancer.ExpressionDag
import Rebalancer.MoveOnce

namespace Rebalancer
open List MovesEvaluator SearchSpace Assignment SingleMoveType Exploration GlobalObjectiveValue
variable {space : SearchSpace}

namespace SearchSpace

section
variable (space : SearchSpace) (v : SearchView) (hotContainer : ContainerId)

variable (equivalenceSetId : EquivalenceSetId)

def representative : Option ObjectId :=
  (space.getDynamicObjects v hotContainer).find? fun o => space.equivalenceSet o = equivalenceSetId

def Unfiltered (c : ContainerId) : Prop :=
  ∀ o ∈ space.getDynamicObjects v hotContainer, space.equivalenceSet o = equivalenceSetId →
    space.isMoveInvalid o c = false

/-- No class with an object that may still be moved is represented by one that is fixed. -/
def RepresentativesUnfixed : Prop :=
  ∀ o ∈ space.getDynamicObjects v hotContainer, o ∉ v.fixedObjects →
    ∀ c ∈ space.acceptingContainers hotContainer none,
      space.Unfiltered v hotContainer (space.equivalenceSet o) c →
      ∀ r, space.representative v hotContainer (space.equivalenceSet o) = some r →
        r ∉ v.fixedObjects

end

theorem mem_getDynamicObjects :
    o ∈ space.getDynamicObjects v c ↔ o ∈ space.objects ∧ v.assignment o = c ∧
    o ∉ v.notDynamic := by
  rw [getDynamicObjects, mem_filter, decide_eq_true_eq]

theorem exists_representative (h : o ∈ space.getDynamicObjects v hot) :
    ∃ r, space.representative v hot (space.equivalenceSet o) = some r ∧
      r ∈ space.getDynamicObjects v hot ∧ space.equivalenceSet r = space.equivalenceSet o := by
  rw [representative]
  cases hr : (space.getDynamicObjects v hot).find?
      fun x => space.equivalenceSet x = space.equivalenceSet o with
  | none => exact absurd (decide_eq_true rfl) (find?_eq_none.mp hr o h)
  | some r =>
    have hs := find?_some hr
    exact ⟨r, rfl, mem_of_find?_eq_some hr, of_decide_eq_true hs⟩

end SearchSpace

namespace SingleMoveType

theorem explore_spec (space : SearchSpace) (v : SearchView) (hot : ContainerId) :
    ∃ e, explore space v hot = .ok e ∧ e.Exhaustive ∧ ∀ moves, e.Proposes moves ↔
      ∃ o c, space.representative v hot (space.equivalenceSet o) = some o ∧ o ∉ v.fixedObjects ∧
        c ∈ space.acceptingContainers hot none ∧ space.isMoveInvalid o c = false ∧
        moves = [⟨o, hot, c⟩] := by
  refine ⟨_, by rw [explore, exploreHotObjects, mapM_ok (fun _ _ => rfl)]; rfl, ?_, ?_⟩
  · apply Exhaustive.several
    intro part hpart
    obtain ⟨⟨o, c⟩, -, rfl⟩ := mem_map.mp hpart
    rw [exploreFromAllSingleMoves]
    split
    · exact .several (by simp)
    · exact .evaluate _
  · intro moves
    rw [proposes_several]
    constructor
    · rintro ⟨part, hpart, hm⟩
      obtain ⟨⟨o, c⟩, hp, rfl⟩ := mem_map.mp hpart
      obtain ⟨ho, hc⟩ := mem_product.mp hp
      obtain ⟨ho, ha⟩ := mem_filter.mp ho
      rw [exploreFromAllSingleMoves] at hm
      split_ifs at hm with hv
      · exact absurd hm proposes_nothing
      · exact ⟨o, c, ((mem_dedupBy _).mp ho).2, SearchView.not_mem_fixed ha, hc,
          Bool.eq_false_iff.mpr hv, proposes_evaluate.mp hm⟩
    · rintro ⟨o, c, ho, hf, hc, hv, rfl⟩
      have hd := (mem_dedupBy _).mpr ⟨not_mem_nil, ho⟩
      refine ⟨_, mem_map_of_mem (mem_product.mpr ⟨mem_filter.mpr ⟨hd, decide_eq_true hf⟩, hc⟩), ?_⟩
      rw [exploreFromAllSingleMoves, hv, if_neg Bool.false_ne_true]
      exact .evaluate _

end SingleMoveType

namespace MoveSet

theorem checkMoves_single (h : a o = hot) : checkMoves a [⟨o, hot, c⟩] = .ok () := by
  rw [checkMoves, if_neg (not_not.mpr h), checkMoves]

theorem applyChanges_single (a : Assignment) (o : ObjectId) (hot c : ContainerId) :
    a.applyChanges (getChangeSet [⟨o, hot, c⟩]) = a.moveTo o c := by
  rfl

end MoveSet

theorem Assignment.exchange_moveTo {a : Assignment} (h : a o = a r) :
    (a.moveTo o c).exchange o r = a.moveTo r c := by
  funext x
  simp only [exchange, Function.comp_apply, moveTo]
  by_cases hr : x = r
  · rw [hr, Equiv.swap_apply_right, if_pos rfl, if_pos rfl]
  · by_cases ho : x = o
    · rw [ho, Equiv.swap_apply_left]
      rw [ho] at hr
      rw [if_neg (Ne.symm hr), if_neg hr, h]
    · rw [Equiv.swap_apply_of_ne_of_ne ho hr, if_neg ho, if_neg hr]

def MovesEvaluator.Improves {ν S C : Type} (evaluator : MovesEvaluator ν) (problem : Problem ν S C)
    (s : S) (v : ν → ℚ) : Prop :=
  evaluator.permits problem (problem.value s) v = true ∧
    betterValues problem.precision (evaluator.stageTuple v)
      (evaluator.stageTuple (problem.value s)) = true

/-- Evaluation is exact, and exchanging equivalent objects changes no value. -/
structure SearchStage {ν S C : Type} (space : SearchSpace) (view : SearchView)
    (problem : Problem ν S C) (evaluator : MovesEvaluator ν) (exact : Assignment → ν → ℚ) (s : S) :
    Prop where
  tolerance : 0 < problem.precision.absolute
  created : ∃ objTupleBegin objTupleEnd allowedWorsenUntilValue,
    new problem objTupleBegin objTupleEnd allowedWorsenUntilValue = .ok evaluator
  exactness : ∃ Reach, problem.Exact (evaluator.nodes problem) exact Reach ∧ Reach s
  assignment : problem.assignment s = view.assignment
  exchangeable : ∀ a, ∀ o ∈ space.objects, ∀ o' ∈ space.objects,
    space.equivalenceSet o = space.equivalenceSet o' → ∀ n ∈ evaluator.nodes problem,
      exact (a.exchange o o') n = exact a n

/-- The filter marks only moves that break a constraint, and before the last position of the
stage's tuple a value within tolerance of the present one is equal to it. -/
structure Discerning {ν S C : Type} (space : SearchSpace) (view : SearchView)
    (hotContainer : ContainerId) (problem : Problem ν S C) (evaluator : MovesEvaluator ν)
    (exact : Assignment → ν → ℚ) (s : S) : Prop where
  filter : ∀ o ∈ space.getDynamicObjects view hotContainer,
    ∀ c ∈ space.acceptingContainers hotContainer none, space.isMoveInvalid o c = true →
      ∃ constraint ∈ problem.constraints,
        problem.precision.isStrictlyGtZero (exact (view.assignment.moveTo o c) constraint) = true
  tellsApart : ∀ o ∈ space.getDynamicObjects view hotContainer,
    ∀ c ∈ space.acceptingContainers hotContainer none,
      evaluator.permits problem (problem.value s) (exact (view.assignment.moveTo o c)) = true →
      problem.precision.TellsApart (evaluator.stageTuple (exact (view.assignment.moveTo o c)))
        (evaluator.stageTuple (problem.value s))

namespace SingleMoveType
variable {ν S C : Type} {space : SearchSpace} {view : SearchView} {hot : ContainerId}
  {problem : Problem ν S C} {evaluator : MovesEvaluator ν} {exact : Assignment → ν → ℚ} {s : S}

/-- If the result is not better, no single move from the hot container to an accepting one is. -/
def Complete (space : SearchSpace) (view : SearchView) (hotContainer : ContainerId)
    (problem : Problem ν S C) (evaluator : MovesEvaluator ν) (exact : Assignment → ν → ℚ)
    (hash : Move → Nat) (s : S) : Prop :=
  ∃ e r better, explore space view hotContainer = .ok e ∧
    e.findBest evaluator problem hash s = .ok r ∧ r.isBetter problem.precision = .ok better ∧
    (better = false → ∀ o ∈ space.getDynamicObjects view hotContainer, o ∉ view.fixedObjects →
      ∀ c ∈ space.acceptingContainers hotContainer none,
        ¬ evaluator.Improves problem s (exact (view.assignment.moveTo o c)))

section
variable (h : SearchStage space view problem evaluator exact s)
include h

variable (ho : o ∈ space.getDynamicObjects view hot)
include ho

theorem evaluate_single (c : ContainerId) : evaluator.evaluate problem s [⟨o, hot, c⟩] =
      .ok (evaluator.outcome problem false (problem.value s) (exact (view.assignment.moveTo o c))
        [⟨o, hot, c⟩]) := by
  obtain ⟨Reach, he, hr⟩ := h.exactness
  have hc : checkMoves (problem.assignment s) [⟨o, hot, c⟩] = .ok () := by
    rw [h.assignment]
    exact MoveSet.checkMoves_single (mem_getDynamicObjects.mp ho).2.1
  obtain ⟨Good, hg, ha⟩ := he.evaluates s hr _ hc ⟨_, MoveSet.fromChangeSet_single o hot c⟩
  rw [h.assignment] at ha
  exact evaluator.evaluateWith_spec problem false hc ha hg

theorem exact_alike (ho' : o' ∈ space.getDynamicObjects view hot)
    (hc : space.equivalenceSet o = space.equivalenceSet o') (c : ContainerId) :
    ∀ n ∈ evaluator.nodes problem,
      exact (view.assignment.moveTo o' c) n = exact (view.assignment.moveTo o c) n := by
  intro n hn
  rw [mem_getDynamicObjects] at ho ho'
  have he := h.exchangeable (view.assignment.moveTo o c) o ho.1 o' ho'.1 hc n hn
  rw [exchange_moveTo (ho.2.1.trans ho'.2.1.symm)] at he
  exact he

theorem unfiltered_of_permits
    (hd : Discerning space view hot problem evaluator exact s)
    (hc : c ∈ space.acceptingContainers hot none)
    (hpe : evaluator.permits problem (problem.value s)
      (exact (view.assignment.moveTo o c)) = true) :
    space.Unfiltered view hot (space.equivalenceSet o) c := by
  intro o' ho' hclass
  by_contra hi
  rw [Bool.not_eq_false] at hi
  obtain ⟨constraint, hconstraint, hp⟩ := hd.filter o' ho' c hc hi
  rw [← permits_congr (exact_alike h ho ho' hclass.symm c),
    permits, Bool.and_eq_true, Bool.not_eq_true', any_eq_false] at hpe
  exact hpe.1 constraint hconstraint hp

end

theorem dynamic_of_representative
    (h : space.representative view hot (space.equivalenceSet o) = some o) :
    o ∈ space.getDynamicObjects view hot := mem_of_find?_eq_some h

theorem findBest_spec (h : SearchStage space view problem evaluator exact s) (hot : ContainerId)
    (ha : Move → Nat) : ∃ e r better, explore space view hot = .ok e ∧
      e.findBest evaluator problem ha s = .ok r ∧ r.isBetter problem.precision = .ok better ∧
      evaluator.BestResult problem s (fun moves => ∃ o c,
        space.representative view hot (space.equivalenceSet o) = some o ∧ o ∉ view.fixedObjects ∧
        c ∈ space.acceptingContainers hot none ∧ space.isMoveInvalid o c = false ∧
        moves = [⟨o, hot, c⟩]) r := by
  obtain ⟨start, stop, allowed, hn⟩ := h.created
  have hp := new_proper hn
  obtain ⟨e, he, hexhaustive, hproposes⟩ := explore_spec space view hot
  have heval : ∀ moves, e.Proposes moves → ∃ r, evaluator.evaluate problem s moves = .ok r := by
    intro moves hm
    obtain ⟨o, c, ho, -, -, -, rfl⟩ := (hproposes moves).mp hm
    exact ⟨_, evaluate_single h (dynamic_of_representative ho) c⟩
  obtain ⟨r, hr, hbest⟩ := findBest_best hp ha e hexhaustive heval
  obtain ⟨better, hb⟩ := hbest.stage.isBetter_ok hp problem.precision
  exact ⟨e, r, better, he, hr, hb, hbest.mono hproposes⟩

end SingleMoveType

def crowding (a : Assignment) : ℚ :=
  if a 2 = 0 then
    if a 0 = 0 ∧ a 1 = 0 then 1
    else if (a 0 = 0 ∧ a 1 = 2) ∨ (a 0 = 2 ∧ a 1 = 0) then 0 else 3
  else if a 2 = 1 ∧ a 0 = 0 ∧ a 1 = 0 then 2 else 3

def crowdingProblem : LocalSearchProblem (Fin 1) Assignment ChangeSet where
  toProblem := .ofValues defaultTolerances [] ⟨[0]⟩ 0 fun a _ => crowding a
  fixedObjects := .empty
  moveObjectsOnce := true

def pairAndThird : SearchSpace :=
  ⟨[0, 1, 2], [0, 1, 2], .empty, fun o => if o = 2 then 1 else 0, fun _ _ => false⟩

def crowdingRound (hotContainer : ContainerId) : SearchIteration (Fin 1) :=
  ⟨pairAndThird, ⟨⟨⟨[]⟩, fun _ => none⟩, ⟨⟨[0]⟩, false⟩, none⟩, [.single], hotContainer⟩

/-- What `findBestMove` finds on container 0 after two rounds, and whether moving object 1 from
there to container 2 improves. -/
def crowdingOutcome (progress : SearchProgress Assignment) : Except String (Bool × Bool) := do
  let e ← explore pairAndThird (crowdingProblem.view progress.state) 0
  let r ← e.findBest (crowdingRound 0).evaluator crowdingProblem.toProblem pairHash
    progress.state.state
  let better ← r.isBetter defaultTolerances
  .ok (better, decide (1 ∈ pairAndThird.getDynamicObjects (crowdingProblem.view progress.state) 0 ∧
    1 ∉ progress.state.fixedObjects) &&
    (crowdingRound 0).evaluator.permits crowdingProblem.toProblem
      (fun _ => crowding progress.state.state)
      (fun _ => crowding (progress.state.state.moveTo 1 2)) &&
    betterValues defaultTolerances
      [crowding (progress.state.state.moveTo 1 2)] [crowding progress.state.state])

theorem crowding_run : (crowdingProblem.search pairHash [crowdingRound 1, crowdingRound 1]
    (crowdingProblem.start fun o => if o = 1 then 0 else 1)).bind crowdingOutcome =
      .ok (false, true) := by
  decide +kernel

theorem crowding_exchange (a : Assignment) : crowding (a.exchange 0 1) = crowding a := by
  have h0 : a.exchange 0 1 0 = a 1 := congrArg a (Equiv.swap_apply_left 0 1)
  have h1 : a.exchange 0 1 1 = a 0 := congrArg a (Equiv.swap_apply_right 0 1)
  have h2 : a.exchange 0 1 2 = a 2 :=
    congrArg a (Equiv.swap_apply_of_ne_of_ne (by decide) (by decide))
  have hp : (a 1 = 0 ∧ a 0 = 2) ∨ (a 1 = 2 ∧ a 0 = 0) ↔
      (a 0 = 0 ∧ a 1 = 2) ∨ (a 0 = 2 ∧ a 1 = 0) := by
    rw [or_comm, and_comm, and_comm (a := a 1 = 0)]
  simp [crowding, h0, h1, h2, hp, and_comm (a := a 1 = 0) (b := a 0 = 0)]

theorem crowding_stage (s : LocalSearchState Assignment) :
    SearchStage pairAndThird (crowdingProblem.view s) crowdingProblem.toProblem
      (crowdingRound 0).evaluator (fun a _ => crowding a) s.state where
  tolerance := (by decide +kernel : 0 < defaultTolerances.absolute)
  created := ⟨0, 1, fun _ => none, rfl⟩
  exactness := ⟨fun _ => True, Problem.ofValues_exact _ _ _ _ _ _, trivial⟩
  assignment := rfl
  exchangeable a o ho o' ho' hclass n _ := by
    have hself : ∀ x, a.exchange x x = a := by
      intro x
      rw [exchange, Equiv.swap_self]
      rfl
    have hs : a.exchange 1 0 = a.exchange 0 1 := by
      rw [exchange, exchange, Equiv.swap_comm]
    simp only [pairAndThird, mem_cons, not_mem_nil, or_false] at ho ho'
    rcases ho with rfl | rfl | rfl <;> rcases ho' with rfl | rfl | rfl
    · rw [hself]
    · exact crowding_exchange a
    · cases hclass
    · exact crowding_exchange a
    · rw [hself]
    · cases hclass
    · cases hclass
    · cases hclass
    · rw [hself]

theorem crowding_discerning (s : LocalSearchState Assignment) :
    Discerning pairAndThird (crowdingProblem.view s) 0 crowdingProblem.toProblem
      (crowdingRound 0).evaluator (fun a _ => crowding a) s.state where
  filter _ _ _ _ hinvalid := absurd hinvalid Bool.false_ne_true
  tellsApart _ _ _ _ _ := trivial

end Rebalancer
