import Rebalancer.GroupRoutingRing

namespace Rebalancer

inductive ConstraintPolicy where
  | default
  | hard
  | soft
deriving DecidableEq

/-- An expression that should not be positive, with its value on the updated initial assignment. -/
structure ConstraintInfo where
  constraintExpr : Assignment → ℚ
  initialValue : ℚ
  doNotMakeWorseCopy : Option (Assignment → ℚ)

structure SplitConstraint where
  hardComponent : Option (Assignment → ℚ)
  softComponent : Option (Assignment → ℚ)

structure ConstraintHandling where
  policy : ConstraintPolicy
  invalidCost : ℚ
  invalidState : ℚ

namespace ConstraintInfo

section
variable (info : ConstraintInfo)

variable (precision : PrecisionTolerances)

def getSoftenedConstraint (handling : ConstraintHandling) (a : Assignment) : ℚ :=
  let weightedPenalty := handling.invalidCost * max 0 (info.constraintExpr a)
  if handling.invalidState = 0 then weightedPenalty
  else handling.invalidState *
    (if precision.isStrictlyGtZero (info.constraintExpr a) then 1 else 0) + weightedPenalty

def getViolationBeyondInitial : Assignment → ℚ :=
  match info.doNotMakeWorseCopy with
  | some copy => copy
  | none => fun a => info.constraintExpr a - info.initialValue

def initiallyBroken : Bool := precision.compare info.initialValue 0 == .gt

end

/-- `splitConstraintComponent`, for expressions without an additional penalty. -/
def splitConstraintComponent (info : ConstraintInfo) (precision : PrecisionTolerances)
    (handling : ConstraintHandling) : SplitConstraint :=
  match handling.policy with
  | .default =>
    if info.initiallyBroken precision then
      ⟨some info.getViolationBeyondInitial, some (info.getSoftenedConstraint precision handling)⟩
    else ⟨some info.constraintExpr, none⟩
  | .hard => ⟨some info.constraintExpr, none⟩
  | .soft => ⟨none, some (info.getSoftenedConstraint precision handling)⟩

theorem hardComponent_cases {info : ConstraintInfo} (p : PrecisionTolerances)
    (hpo : ha.policy ≠ .soft) :
    (info.splitConstraintComponent p ha).hardComponent = some info.constraintExpr ∨
      ((info.splitConstraintComponent p ha).hardComponent = some info.getViolationBeyondInitial ∧
        info.initiallyBroken p = true ∧ ha.policy = .default) := by
  rw [splitConstraintComponent]
  cases hp : ha.policy with
  | default =>
    cases hb : info.initiallyBroken p with
    | true => exact .inr ⟨rfl, rfl, rfl⟩
    | false => exact .inl rfl
  | hard => exact .inl rfl
  | soft => exact absurd hp hpo

theorem hardComponent_pos {expr : Assignment → ℚ} (p : PrecisionTolerances)
    (hp : ha.policy ≠ .soft) (hv : 0 ≤ v) (hr : v < expr a) :
    ∃ h, (splitConstraintComponent ⟨expr, v, none⟩ p ha).hardComponent = some h ∧ 0 < h a := by
  rcases hardComponent_cases p hp with h | ⟨h, -⟩
  · exact ⟨_, h, hv.trans_lt hr⟩
  · exact ⟨_, h, sub_pos.mpr hr⟩

theorem hardComponent_soft {info : ConstraintInfo} (p : PrecisionTolerances)
    (hp : ha.policy = .soft) : (info.splitConstraintComponent p ha).hardComponent = none := by
  rw [splitConstraintComponent, hp]

end ConstraintInfo

end Rebalancer
