import Rebalancer.GroupRoutingRing
import Rebalancer.MoveResult

namespace Rebalancer

namespace MoveSet

def recordChange (sides : List (ObjectId × ContainerId) × List (ObjectId × ContainerId))
    (change : Change) :
    Except String (List (ObjectId × ContainerId) × List (ObjectId × ContainerId)) :=
  if change.value = -1 then
    if sides.1.any (fun entry => entry.1 == change.object) then
      .error s!"object {change.object} removed twice"
    else .ok ((change.object, change.container) :: sides.1, sides.2)
  else if sides.2.any (fun entry => entry.1 == change.object) then
    .error s!"object {change.object} added twice"
  else .ok (sides.1, (change.object, change.container) :: sides.2)

def fromChangeSet (changes : ChangeSet) : Except String MoveSet := do
  let (removed, added) ← changes.changes.foldlM recordChange ([], [])
  if removed.length ≠ added.length then
    .error "mismatch between number of objects added and removed"
  else
    removed.mapM (fun entry =>
      match added.find? (fun e => e.1 == entry.1) with
      | none => .error s!"object {entry.1} removed but not added"
      | some e => .ok ⟨entry.1, entry.2, e.2⟩)

end MoveSet

def Assignment.applyChanges (a : Assignment) (changes : ChangeSet) : Assignment :=
  changes.changes.foldl (fun (a : Assignment) change =>
    if change.value = 1 then a.moveTo change.object change.container else a) a

/-- The expressions are kept in a state `S`, and changes are evaluated with a context `C`. -/
structure Problem (ν S C : Type) where
  precision : PrecisionTolerances
  constraints : List ν
  objective : GlobalObjective ν
  penaltyObjective : GlobalObjective ν
  zero : ν
  validateAppliedMoves : Bool
  assignment : S → Assignment
  value : S → ν → ℚ
  newContext : ChangeSet → C
  evaluate : S → Evaluate ν C
  partialApply : S → Assignment → ChangeSet → Except String S

inductive ApplyStatus where
  | applied
  | violatesConstraint
  | worsensHigherPriorityObjective
  | doesNotImproveObjective
deriving DecidableEq

namespace Problem
variable {ν S C : Type}

def applyChanges (problem : Problem ν S C) (s : S) (changes : ChangeSet) : Except String S := do
  let _ ← MoveSet.fromChangeSet changes
  problem.partialApply s ((problem.assignment s).applyChanges changes) changes

def tryApply (problem : Problem ν S C) (s : S) (changes : ChangeSet)
    (validate : S → Except String ApplyStatus) : Except String (ApplyStatus × S) := do
  let s' ← problem.applyChanges s changes
  let status ← validate s'
  if status ≠ .applied then do
    let s ← problem.applyChanges s' changes.getInverse
    .ok (status, s)
  else .ok (status, s')

end Problem

/-- The higher-priority objectives of a stage, with the values up to which each may worsen. -/
structure DoNotWorsenGoalConfig (ν : Type) where
  goal : GlobalObjective ν
  tuplePosToAllowedWorsenUntilValue : Nat → Option ℚ

namespace DoNotWorsenGoalConfig
variable {ν C : Type}

def new (zero : ν) (objective : GlobalObjective ν) (objTupleEnd : Int)
    (allowedWorsenUntilValue : Nat → Option ℚ) : DoNotWorsenGoalConfig ν :=
  if objTupleEnd = 0 then ⟨⟨[]⟩, fun _ => none⟩
  else ⟨objective.getRange zero 0 objTupleEnd, allowedWorsenUntilValue⟩

def exceedsAllowedWorsening (config : DoNotWorsenGoalConfig ν) (precision : PrecisionTolerances)
    (pos : Nat) (oldValue newValue : ℚ) : Bool :=
  precision.isStrictlyGreater newValue oldValue &&
    match config.tuplePosToAllowedWorsenUntilValue pos with
    | none => true
    | some limit => precision.isStrictlyGreater newValue limit

def firstWorse (config : DoNotWorsenGoalConfig ν) (precision : PrecisionTolerances)
    (evaluate : Evaluate ν C) (value : ν → ℚ) :
    List ν → Nat → C → Except String (Option Nat × C)
  | [], _, ctx => .ok (none, ctx)
  | objective :: rest, pos, ctx => do
    let (newValue, ctx) ← evaluate objective ctx
    if config.exceedsAllowedWorsening precision pos (value objective) newValue then
      .ok (some pos, ctx)
    else firstWorse config precision evaluate value rest (pos + 1) ctx

def getFirstWorseTuplePos (config : DoNotWorsenGoalConfig ν) (precision : PrecisionTolerances)
    (evaluate : Evaluate ν C) (value : ν → ℚ) (ctx : C) : Except String (Option Nat × C) :=
  config.firstWorse precision evaluate value config.goal.objectives 0 ctx

def worsensFrom (config : DoNotWorsenGoalConfig ν) (precision : PrecisionTolerances) :
    Nat → List ℚ → List ℚ → Bool
  | pos, old :: olds, new :: news =>
    config.exceedsAllowedWorsening precision pos old new ||
      worsensFrom config precision (pos + 1) olds news
  | _, _, _ => false

def hasWorsened (config : DoNotWorsenGoalConfig ν) (precision : PrecisionTolerances)
    (oldValue newValue : List ℚ) : Bool :=
  config.worsensFrom precision 0 oldValue newValue

end DoNotWorsenGoalConfig

structure MovesEvaluator (ν : Type) where
  doNotWorsenGoalConfig : DoNotWorsenGoalConfig ν
  minimizingGoal : LocalSearchObjective ν
  arbiterGoal : Option (GlobalObjective ν)

namespace MovesEvaluator
variable {ν S C : Type}

def new (problem : Problem ν S C) (objTupleBegin objTupleEnd : Int)
    (allowedWorsenUntilValue : Nat → Option ℚ) : Except String (MovesEvaluator ν) := do
  let minimizingGoal ← LocalSearchObjective.new problem.zero problem.objective
    problem.penaltyObjective objTupleBegin objTupleEnd
  if objTupleBegin < 0 ∨ objTupleEnd > problem.objective.size then
    .error ("Expected 0 <= objTupleBegin and objTupleEnd <= size of goal " ++
      s!"({problem.objective.size}), but got objTupleBegin = {objTupleBegin}, " ++
      s!"objTupleEnd = {objTupleEnd}")
  else
    .ok ⟨.new problem.zero problem.objective objTupleBegin allowedWorsenUntilValue, minimizingGoal,
      if objTupleEnd < problem.objective.size then
        some (problem.objective.getRange problem.zero objTupleEnd problem.objective.size)
      else none⟩

def checkMoves (assignment : Assignment) : MoveSet → Except String Unit
  | [] => .ok ()
  | move :: moves =>
    if assignment move.object ≠ move.srcContainer then
      .error (s!"Attempting to move object {move.object} out of {move.srcContainer} but its " ++
        s!"currently in {assignment move.object}")
    else checkMoves assignment moves

def isPositive (precision : PrecisionTolerances) (evaluate : Evaluate ν C) :
    List ν → C → Except String (Bool × C)
  | [], ctx => .ok (false, ctx)
  | constraint :: rest, ctx => do
    let (v, ctx) ← evaluate constraint ctx
    if precision.isStrictlyGtZero v then .ok (true, ctx)
    else isPositive precision evaluate rest ctx

def violatesConstraints (problem : Problem ν S C) (s : S) : Bool :=
  problem.constraints.any (fun c => problem.precision.isStrictlyGtZero (problem.value s c))

section
variable (evaluator : MovesEvaluator ν)

def arbiterValue (evaluate : Evaluate ν C) (value : ν → ℚ)
    (ctx : C) : Except String (Option GlobalObjectiveValue) :=
  match evaluator.arbiterGoal with
  | none => .ok none
  | some goal => do
    let (v, _) ← goal.evaluate evaluate value true ctx
    .ok (some v)

variable (problem : Problem ν S C)

/-- `evaluate`, with the choice of `evaluateAllTuples` for the minimizing goal left open. -/
def evaluateWith
    (evaluateAllTuples : Bool) (s : S) (moves : MoveSet) : Except String MoveResult := do
  checkMoves (problem.assignment s) moves
  let (positive, ctx) ← isPositive problem.precision (problem.evaluate s) problem.constraints
    (problem.newContext moves.getChangeSet)
  if positive then .ok (.makeInvalid moves)
  else do
    let (worse, ctx) ← evaluator.doNotWorsenGoalConfig.getFirstWorseTuplePos problem.precision
      (problem.evaluate s) (problem.value s) ctx
    if worse.isSome then .ok (.makeInvalid moves)
    else do
      let currentValue := evaluator.minimizingGoal.getValue (problem.value s)
      let (newValue, ctx) ← evaluator.minimizingGoal.evaluate (problem.evaluate s)
        (problem.value s) evaluateAllTuples ctx
      let compare ← newValue.unsafeCompare currentValue
      if compare = .lt then do
        let arbiterValue ← evaluator.arbiterValue (problem.evaluate s) (problem.value s) ctx
        .ok (.makeValid moves currentValue newValue arbiterValue)
      else .ok (.makeValid moves currentValue newValue none)

def evaluate (s : S) (moves : MoveSet) : Except String MoveResult :=
  evaluator.evaluateWith problem false s moves

def validate (s : S) (result : MoveResult) (s' : S) : Except String ApplyStatus :=
  if violatesConstraints problem s' then .ok .violatesConstraint
  else if evaluator.doNotWorsenGoalConfig.hasWorsened problem.precision
      (evaluator.doNotWorsenGoalConfig.goal.objectives.map (problem.value s))
      (evaluator.doNotWorsenGoalConfig.goal.objectives.map (problem.value s')) then
    .ok .worsensHigherPriorityObjective
  else do
    let better ← (evaluator.minimizingGoal.getValue (problem.value s')).isStrictlyBetter
      result.oldValue problem.precision
    .ok (if better then .applied else .doesNotImproveObjective)

end

def tryApply (evaluator : MovesEvaluator ν) (problem : Problem ν S C) (s : S)
    (result : MoveResult) : Except String (ApplyStatus × S) :=
  if !problem.validateAppliedMoves then do
    let s' ← problem.applyChanges s result.moveSet.getChangeSet
    .ok (.applied, s')
  else problem.tryApply s result.moveSet.getChangeSet (evaluator.validate problem s result)

end MovesEvaluator

end Rebalancer
