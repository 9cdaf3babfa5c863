import Rebalancer.BoundedUtil
import Rebalancer.ConstraintSplit
import Rebalancer.Piecewise

namespace Rebalancer
open Finset ConstraintInfo

inductive CapacitySpecBound where
  | max
  | min
deriving DecidableEq

/-- The capacity constraint of one scope item for the utilisation during the moves. -/
structure DuringCapacity where
  precision : PrecisionTolerances
  handling : ConstraintHandling
  bound : CapacitySpecBound
  zeroAllowed : Bool
  utilizationBound : Option GroupUtilizationBound
  threshold : ℚ
  normCoef : ℚ
  upperBound : ℚ
  isRoutingConfigBased : Bool
  hasZeroValuedObjects : Bool
  containerIds : List ContainerId
  aggregationItems : List (List ContainerId)
  objects : Finset ObjectId
  value : ObjectId → ℚ
  group : ObjectId → Option GroupId
  initialAssignment : Assignment
  zero_valued : ∀ o ∈ objects, value o = 0 → hasZeroValuedObjects = true

namespace DuringCapacity
variable (c : DuringCapacity) (a : Assignment)

def duringObjects (containerIds : List ContainerId) : Finset ObjectId :=
  {o ∈ c.objects | c.initialAssignment o ∈ containerIds ∨ a o ∈ containerIds}

def getMaybeBoundedUtil : ℚ :=
  match c.utilizationBound with
  | some b => (b.getBoundedAbsoluteUtil ⟨⟨c.duringObjects a c.containerIds, c.value, c.group⟩,
    c.aggregationItems.map fun ids => ⟨c.duringObjects a ids, c.value, c.group⟩⟩).untopD 0
  | none => ∑ o ∈ c.duringObjects a c.containerIds, c.value o

def getExpression : Except String (Option ℚ) :=
  let util := c.normCoef * c.getMaybeBoundedUtil a
  let threshold := c.threshold * c.normCoef
  match c.bound with
  | .max => .ok (some (util - threshold))
  | .min =>
    if threshold = 0 then .ok none
    else if c.zeroAllowed then do
      let points := [(0, 0), (0, threshold), (threshold, 0)]
      let p ← Piecewise.new (if c.upperBound > threshold then points ++ [(c.upperBound, 0)]
        else points) false
      some <$> p.performPiecewise util
    else .ok (some (threshold - util))

def exprValue : Option ℚ := (c.getExpression a).toOption.join

def isAtOrAboveDuringLimit : Bool :=
  (c.exprValue c.initialAssignment).any fun v => c.precision.compare v 0 != .lt

def nonAcceptingContainers : List ContainerId :=
  if !c.isAtOrAboveDuringLimit || c.isRoutingConfigBased || c.hasZeroValuedObjects ||
      decide (c.containerIds.length > 1) then []
  else c.containerIds

def hardComponent : Option (Assignment → ℚ) :=
  (c.exprValue c.initialAssignment).bind fun initialValue =>
    (splitConstraintComponent ⟨fun a => (c.exprValue a).getD 0, initialValue, none⟩
      c.precision c.handling).hardComponent

variable {c a}

theorem of_mem_nonAcceptingContainers (h : c' ∈ c.nonAcceptingContainers) :
    c' ∈ c.containerIds ∧ ∀ o ∈ c.objects, c.value o ≠ 0 := by
  rw [nonAcceptingContainers] at h
  split_ifs at h with hn
  · cases h
  · simp only [Bool.or_eq_true, not_or] at hn
    exact ⟨h, fun o ho h0 => hn.1.2 (c.zero_valued o ho h0)⟩

theorem exprValue_max (hb : c.bound = .max) (hu : c.utilizationBound = none) : c.exprValue a =
    some (c.normCoef * ∑ o ∈ c.duringObjects a c.containerIds, c.value o -
      c.threshold * c.normCoef) := by
  rw [exprValue, getExpression, getMaybeBoundedUtil, hb, hu]
  rfl

theorem hardComponent_of_hard (hp : c.handling.policy = .hard)
    (h : c.exprValue c.initialAssignment = some v) :
    c.hardComponent = some fun a => (c.exprValue a).getD 0 := by
  rw [hardComponent, h, Option.bind_some, splitConstraintComponent, hp]

theorem duringObjects_moveTo (hm : c' ∈ ids) (ho : o ∈ c.objects) :
    insert o (c.duringObjects c.initialAssignment ids) ⊆ c.duringObjects (a.moveTo o c') ids := by
  apply insert_subset
  · exact mem_filter.mpr ⟨ho, .inr (by rwa [Assignment.moveTo, if_pos rfl])⟩
  · intro p hp
    obtain ⟨hp, hin⟩ := mem_filter.mp hp
    exact mem_filter.mpr ⟨hp, .inl (or_self_iff.mp hin)⟩

def atLimit (bound : CapacitySpecBound) (others : ℚ) (h : others ≠ 0) : DuringCapacity :=
  ⟨defaultTolerances, ⟨.hard, 0, 0⟩, bound, false, none, 1, 1, 2, false, false, [0], [], {0, 1},
    fun o => if o = 0 then 1 else others, fun _ => none, fun o => o, by simp [h]⟩

end DuringCapacity

end Rebalancer
