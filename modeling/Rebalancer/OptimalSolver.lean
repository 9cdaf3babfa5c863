import Rebalancer.TryApply

namespace Rebalancer

inductive Intent where
  | max

structure AllowedWorsening where
  percent : ℚ
  absolute : ℚ
  intent : Intent

def getAllowedWorsenUntilValue (currValue : ℚ) (allowedWorsen : AllowedWorsening) : ℚ :=
  let allowWorsenUntilRelValue := currValue * (1 + allowedWorsen.percent / 100)
  let allowWorsenUntilAbsValue := currValue + allowedWorsen.absolute
  match allowedWorsen.intent with
  | .max => max allowWorsenUntilRelValue allowWorsenUntilAbsValue

structure HigherPriorityObjectivesConfig where
  tuplePosToAllowedWorsening : AssocMap Nat AllowedWorsening

/-- What is left when the moves, the update of the expressions or that of the attributes throws. -/
structure Interrupted (ν V σ : Type) where
  moving : ProblemState ν V σ → ProblemState ν V σ
  updating : ProblemState ν V σ → ProblemState ν V σ
  attributes : EntityAttributesStore V → EntityAttributesStore V

namespace ProblemSetup
variable {ν V T σ : Type} [DecidableEq ν] [DecidableEq V]

def apply (p : ProblemSetup ν V T σ) (left : Interrupted ν V σ) (changes : ChangeSet) :
    EStateM String (ProblemState ν V σ) Unit := fun s =>
  match MoveSet.fromChangeSet changes with
  | .error e => .error e s
  | .ok _ =>
    match moveObjects changes.changes s.assignment with
    | .error e => .error e (left.moving s)
    | .ok assignment =>
      match p.orchestrator.apply p.exprs assignment.table (.new changes) s.store with
      | .error e => .error e (left.updating { s with assignment })
      | .ok applied =>
        let s := { s with assignment, store := applied.store }
        match s.entityAttributesStore.updateOnApply (p.world assignment applied.store) changes with
        | .error e =>
          .error e { s with entityAttributesStore := left.attributes s.entityAttributesStore }
        | .ok entityAttributesStore =>
          .ok () (p.maybeFixMovedObjects changes { s with entityAttributesStore })

section
variable (p : ProblemSetup ν V T σ) (cs : ChangeSet) (s : ProblemState ν V σ)

omit [DecidableEq ν] [DecidableEq V] in
@[simp] theorem maybeFixMovedObjects_assignment : (p.maybeFixMovedObjects cs s).assignment =
    s.assignment := by
  rw [maybeFixMovedObjects]
  split
  · rfl
  · rfl

omit [DecidableEq ν] [DecidableEq V] in
@[simp] theorem maybeFixMovedObjects_store : (p.maybeFixMovedObjects cs s).store = s.store := by
  rw [maybeFixMovedObjects]
  split
  · rfl
  · rfl

end

end ProblemSetup

/-- `constraints` are those reached through `any_positive` expressions and none themselves. -/
structure OptimalSolver (ν : Type) where
  precision : PrecisionTolerances
  feasibilityTolerance : ℚ
  objective : GlobalObjective ν
  constraint : ν
  constraints : List ν
  higherPriorityObjConfig : Option HigherPriorityObjectivesConfig

def kMaxPossibleFeasibilityTolerance : ℚ := 1 / 100

def reverseChanges (changes : ChangeSet) : ChangeSet :=
  .ofList (changes.changes.reverse.map Change.inverse)

namespace OptimalSolver
variable {ν T σ : Type} [DecidableEq ν]

section
variable (solver : OptimalSolver ν)

omit [DecidableEq ν] in
def objectiveValue (p : ProblemSetup ν ℚ T σ) (s : ProblemState ν ℚ σ) : GlobalObjectiveValue :=
  solver.objective.getValue fun n => p.exprs.value (s.store n)

omit [DecidableEq ν] in
def exceedsMaxTolerance (value : ℚ) : Bool :=
  solver.precision.isStrictlyGreater value solver.feasibilityTolerance &&
    solver.precision.isStrictlyGreater value kMaxPossibleFeasibilityTolerance

omit [DecidableEq ν] in
def violationExceedsMaxTolerance (p : ProblemSetup ν ℚ T σ) (s : ProblemState ν ℚ σ) : Bool :=
  solver.constraints.any fun n => solver.exceedsMaxTolerance (p.exprs.value (s.store n))

end

/-- The values that an allowance is checked against: `cond1` without one and `cond2` with one. -/
def exceedsAllowance (precision : PrecisionTolerances) (config : HigherPriorityObjectivesConfig)
    (i : Nat) (oldI newI : ℚ) : Bool :=
  match config.tuplePosToAllowedWorsening.lookup i with
  | none => precision.isStrictlyGreater newI oldI
  | some allowedWorsen =>
    precision.isStrictlyGreater newI (getAllowedWorsenUntilValue oldI allowedWorsen)

omit [DecidableEq ν] in
def isWorse (solver : OptimalSolver ν) (oldValue newValue : GlobalObjectiveValue) :
    Bool := Id.run do
  let mut isWorse := true
  if let some config := solver.higherPriorityObjConfig then
    if newValue.size = oldValue.size then
      for (i, oldI, newI) in (List.range oldValue.size).zip (oldValue.values.zip newValue.values) do
        if exceedsAllowance solver.precision config i oldI newI then
          break
      isWorse := false
  return isWorse

omit [DecidableEq ν] in
def reverts (solver : OptimalSolver ν) (oldValue newValue : GlobalObjectiveValue) :
    Except String Bool := do
  let improved ← newValue.isStrictlyBetter oldValue solver.precision
  let worsened ← oldValue.isStrictlyBetter newValue solver.precision
  if !improved && !worsened then .ok true
  else if worsened then .ok (solver.isWorse oldValue newValue)
  else .ok false

def applyChanges (solver : OptimalSolver ν) (p : ProblemSetup ν ℚ T σ) (left : Interrupted ν ℚ σ)
    (changes : ChangeSet) : EStateM String (ProblemState ν ℚ σ) Unit := fun s =>
  let initiallyValid :=
    decide (p.exprs.value (s.store solver.constraint) ≤ solver.feasibilityTolerance)
  match p.apply left changes s with
  | .error e s => .error e s
  | .ok () applied =>
    if solver.violationExceedsMaxTolerance p applied then
      .error ("Optimal solver found an invalid solution that violated max feasibility tolerance " ++
        "of 0.01") applied
    else if initiallyValid && !changes.empty then
      match solver.reverts (solver.objectiveValue p s) (solver.objectiveValue p applied) with
      | .error e => .error e applied
      | .ok true => p.apply left (reverseChanges changes) applied
      | .ok false => .ok () applied
    else .ok () applied

omit [DecidableEq ν] in
theorem isWorse_eq (s : OptimalSolver ν) (o v : GlobalObjectiveValue) (hs : v.size = o.size) :
    s.isWorse o v = s.higherPriorityObjConfig.isNone := by
  rw [isWorse]
  cases hc : s.higherPriorityObjConfig with
  | none => rfl
  | some c =>
    simp only [if_pos hs]
    rfl

end OptimalSolver

end Rebalancer
