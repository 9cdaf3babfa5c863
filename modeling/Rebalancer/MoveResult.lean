import Rebalancer.GlobalObjective

namespace Rebalancer

structure Move where
  object : ObjectId
  srcContainer : ContainerId
  dstContainer : ContainerId
deriving DecidableEq

abbrev MoveSet := List Move

/-- `Move::compare`; `hash` stands for the hash value that the constructor computes. -/
def Move.compare (hash : Move → Nat) (lhs rhs : Move) : Ordering :=
  if lhs = rhs then .eq
  else if hash lhs < hash rhs then .gt
  else .lt

namespace MoveSet

def getChangeSet (moves : MoveSet) : ChangeSet := .ofList (moves.flatMap (fun move =>
    [.removal move.object move.srcContainer, .addition move.object move.dstContainer]))

def compareMoves (hash : Move → Nat) : MoveSet → MoveSet → Ordering
  | lhs :: ls, rhs :: rs =>
    match Move.compare hash lhs rhs with
    | .eq => compareMoves hash ls rs
    | c => c
  | _, _ => .eq

def compare (hash : Move → Nat) (lhs rhs : MoveSet) : Ordering :=
  if lhs.length < rhs.length then .gt
  else if rhs.length < lhs.length then .lt
  else compareMoves hash lhs rhs

end MoveSet

structure MoveResult where
  empty : Bool
  valid : Bool
  oldValue : LocalSearchObjectiveValue
  newValue : LocalSearchObjectiveValue
  arbiterValue : Option GlobalObjectiveValue
  evalsCount : Nat
  moveSet : MoveSet
deriving DecidableEq

namespace MoveResult

def makeEmpty : MoveResult := ⟨true, false, .new, .new, none, 0, []⟩

def makeValid (moveSet : MoveSet) (oldValue newValue : LocalSearchObjectiveValue)
    (arbiterValue : Option GlobalObjectiveValue) : MoveResult :=
  ⟨false, true, oldValue, newValue, arbiterValue, 1, moveSet⟩

def makeInvalid (moveSet : MoveSet) : MoveResult := ⟨false, false, .new, .new, none, 1, moveSet⟩

def isBetter (result : MoveResult) (precision : PrecisionTolerances) : Except String Bool :=
  if result.valid then result.newValue.isStrictlyBetter result.oldValue precision else .ok false

def compareArbiters (mine other : MoveResult) : Except String (Option Ordering) :=
  match mine.arbiterValue, other.arbiterValue with
  | some arbiter, some otherArbiter => do
    let c ← otherArbiter.unsafeCompare arbiter
    .ok (some c)
  | _, _ => .ok none

def prefersOther (hash : Move → Nat) (compare : Ordering) (arbiterCompare : Option Ordering)
    (mine other : MoveSet) : Bool :=
  compare == .lt || (compare == .eq && arbiterCompare == some .lt) ||
    (compare == .eq && (arbiterCompare == none || arbiterCompare == some .eq) &&
      MoveSet.compare hash mine other == .lt)

def addEvals (result : MoveResult) (evalsCount : Nat) : MoveResult :=
  { result with evalsCount := evalsCount + result.evalsCount }

def aggregate (hash : Move → Nat) (result other : MoveResult) : Except String MoveResult := do
  let compare ← other.newValue.unsafeCompare result.newValue
  let arbiterCompare ← result.compareArbiters other
  if prefersOther hash compare arbiterCompare result.moveSet other.moveSet then
    .ok (other.addEvals result.evalsCount)
  else .ok (result.addEvals other.evalsCount)

end MoveResult

structure LocalSearchObjective (ν : Type) where
  combinedObjective : GlobalObjective ν
  hasPenalty : Bool

namespace LocalSearchObjective
variable {ν C : Type}

section
variable (zero : ν) (globalObjective penaltyObjective : GlobalObjective ν) (start stop : Int)

/-- The positions from `start` up to `stop`, each objective followed by its penalty. -/
def buildCombinedObjective : Except String (GlobalObjective ν) :=
  if penaltyObjective.size = 0 then .ok (globalObjective.getRange zero start stop)
  else if globalObjective.size ≠ penaltyObjective.size then
    .error ("Global and Penalty objectives have different sizes: " ++
      s!"{globalObjective.size} != {penaltyObjective.size}")
  else
    .ok (.build zero (((globalObjective.positions start stop).zip
      (penaltyObjective.positions start stop)).flatMap (fun pair => [pair.1, pair.2])))

def new : Except String (LocalSearchObjective ν) := do
  let combinedObjective ← buildCombinedObjective zero globalObjective penaltyObjective start stop
  .ok ⟨combinedObjective, penaltyObjective.size != 0⟩

end

def getValue (goal : LocalSearchObjective ν) (value : ν → ℚ) : LocalSearchObjectiveValue :=
  ⟨goal.combinedObjective.getValue value, goal.hasPenalty⟩

def evaluate (goal : LocalSearchObjective ν) (evaluate : Evaluate ν C) (value : ν → ℚ)
    (evaluateAllTuples : Bool) (ctx : C) : Except String (LocalSearchObjectiveValue × C) := do
  let (combinedValue, ctx) ← goal.combinedObjective.evaluate evaluate value evaluateAllTuples ctx
  .ok (⟨combinedValue, goal.hasPenalty⟩, ctx)

end LocalSearchObjective

end Rebalancer
