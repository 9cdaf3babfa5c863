import Rebalancer.LocalRecursion
import Rebalancer.ObjectLookup
import Rebalancer.ObjectToContainer
import Rebalancer.Piecewise
import Rebalancer.PrecisionOrder

namespace Rebalancer

/-- The source starts its loops from the ends of the range of numbers. -/
def minOf (values : List ℚ) : ℚ := values.min?.getD 0

def maxOf (values : List ℚ) : ℚ := values.max?.getD 0

structure LinearTerms where
  constant : ℚ
  children : IdSet
  coefficients : AssocMap ExprId ℚ
  allCoeffsOne : Bool

namespace LinearTerms

def getChildCoefficient (s : LinearTerms) (child : ExprId) : ℚ :=
  if s.allCoeffsOne then 1 else (s.coefficients.lookup child).getD 0

def innerFullApply (t : PrecisionTolerances) (s : LinearTerms)
    (value : ExprId → Except String ℚ) : Except String ℚ := do
  let terms ← s.children.elems.mapM fun child => do
    let v ← value child
    .ok (v * s.getChildCoefficient child)
  .ok (t.snapToZero (s.constant + terms.sum))

def addBounds (s : LinearTerms) (bounds : ExprId → Bounds) (sum : Bounds) (child : ExprId) :
    Bounds :=
  let coef := s.getChildCoefficient child
  if coef = 0 then sum
  else if 0 < coef then
    ⟨sum.lowerBound + (bounds child).lowerBound * coef,
      sum.upperBound + (bounds child).upperBound * coef⟩
  else
    ⟨sum.lowerBound + (bounds child).upperBound * coef,
      sum.upperBound + (bounds child).lowerBound * coef⟩

def innerLowerAndUpperBounds (t : PrecisionTolerances) (s : LinearTerms)
    (bounds : ExprId → Bounds) : Bounds :=
  let sum := s.children.elems.foldl (s.addBounds bounds) ⟨s.constant, s.constant⟩
  ⟨t.snapToZero sum.lowerBound, t.snapToZero sum.upperBound⟩

end LinearTerms

/-- A threshold and what counts above it. The threshold is skipped if it is among the values. -/
structure SumOverThreshold where
  threshold : ExprId
  values : IdSet
  squares : Bool

namespace SumOverThreshold

section
variable (s : SumOverThreshold)

def children : List ExprId := (s.values.insert s.threshold).elems

def summands : List ExprId := s.children.filter (· ≠ s.threshold)

def evaluateSingle (value threshold : ℚ) : ℚ :=
  let result := max 0 (value - threshold)
  if s.squares then result * result else result

def evaluateCollection (values : List ℚ) (threshold : ℚ) : ℚ :=
  let lower := values.filter (· < threshold)
  let sum := values.sum - lower.sum
  let sumSquares := (values.map fun v => v * v).sum - (lower.map fun v => v * v).sum
  let count : ℚ := values.length - lower.length
  if s.squares then sumSquares + threshold * threshold * count - 2 * threshold * sum
  else sum - threshold * count

end

def innerFullApply (t : PrecisionTolerances) (s : SumOverThreshold)
    (value : ExprId → Except String ℚ) : Except String ℚ := do
  let threshold ← value s.threshold
  let values ← s.summands.mapM value
  .ok (t.snapToZero (s.evaluateCollection values threshold))

def addBounds (s : SumOverThreshold) (bounds : ExprId → Bounds) (sum : Bounds) (child : ExprId) :
    Bounds :=
  ⟨sum.lowerBound + s.evaluateSingle (bounds child).lowerBound (bounds s.threshold).upperBound,
    sum.upperBound + s.evaluateSingle (bounds child).upperBound (bounds s.threshold).lowerBound⟩

def innerLowerAndUpperBounds (t : PrecisionTolerances) (s : SumOverThreshold)
    (bounds : ExprId → Bounds) : Bounds :=
  let sum := s.summands.foldl (s.addBounds bounds) ⟨0, 0⟩
  ⟨t.snapToZero sum.lowerBound, t.snapToZero sum.upperBound⟩

end SumOverThreshold

/-- The loop of `computeNthLargest` over distinct values from the largest on, with the smallest
value so far. -/
def nthLargestLoop (n : Int) (unique : Bool) (frequency : ℚ → Nat) :
    List ℚ → Int → Option ℚ → Option ℚ
  | [], _, smallestValue => smallestValue
  | value :: values, index, _ =>
    let index := index + if unique then 1 else (frequency value : Int)
    if n < index then some value else nthLargestLoop n unique frequency values index (some value)

/-- `none` is the infinity that is left when there are no values. -/
def computeNthLargest (n : Int) (unique : Bool) (values : List ℚ) : Option ℚ :=
  nthLargestLoop n unique (fun value => values.count value)
    (values.dedup.mergeSort fun v w => decide (w ≤ v)) 0 none

inductive Transform where
  | square
  | step
  | ceil
  | rectangle (lowerBound upperBound : ℚ)

namespace Transform

def performTransform (t : PrecisionTolerances) : Transform → ℚ → ℚ
  | square, v => v * v
  | step, v => if t.isStrictlyGtZero v then 1 else 0
  | ceil, v => t.ceil v
  | rectangle lowerBound upperBound, v => if lowerBound ≤ v ∧ v ≤ upperBound then 1 else 0

/-- `Transform::innerLowerAndUpperBounds`. -/
def imageBounds (performTransform : ℚ → ℚ) (expr : Bounds) : Bounds :=
  let fromLb := performTransform expr.lowerBound
  let fromUb := performTransform expr.upperBound
  { lowerBound :=
      if expr.lowerBound < 0 ∧ 0 < expr.upperBound then
        min (min fromUb fromLb) (performTransform 0)
      else min fromUb fromLb
    upperBound := max fromUb fromLb }

def innerLowerAndUpperBounds (t : PrecisionTolerances) (transform : Transform) (expr : Bounds) :
    Bounds :=
  match transform with
  | rectangle _ _ => ⟨0, 1⟩
  | transform => imageBounds (transform.performTransform t) expr

end Transform

namespace ObjectLookup
variable {u : Universe partitions}

def addValue (b : Bounds) (entry : ObjectId × ℚ) : Bounds :=
  if entry.2 < 0 then { b with lowerBound := b.lowerBound + entry.2 }
  else if 0 < entry.2 then { b with upperBound := b.upperBound + entry.2 }
  else b

def innerLowerAndUpperBounds (l : ObjectLookup u) : Bounds :=
  let values := l.objectVector
  let b := values.nonDefaultEntries.foldl addValue ⟨0, 0⟩
  if values.defaultValue < 0 then
    { b with
      lowerBound :=
        b.lowerBound + (u.numObjects - values.nonDefaultCount : Nat) * values.defaultValue }
  else if 0 < values.defaultValue then
    { b with
      upperBound :=
        b.upperBound + (u.numObjects - values.nonDefaultCount : Nat) * values.defaultValue }
  else b

end ObjectLookup

inductive ArithmeticNode (u : Universe partitions) where
  | var (object : ObjectId) (container : ContainerId)
  | objectLookup (l : ObjectLookup u)
  | linearSum (s : LinearTerms)
  | max (children : IdSet) (nonempty : children.elems ≠ [])
  | nthLargest (children : IdSet) (n : Int) (unique : Bool) (nonempty : children.elems ≠ [])
  | sumOverThreshold (s : SumOverThreshold)
  | anyPositive (children : IdSet)
  | product (child1st child2nd : ExprId)
  | transform (t : Transform) (child : ExprId)
  | piecewise (p : Piecewise) (child : ExprId)

namespace ArithmeticNode
variable {u : Universe partitions}

def children : ArithmeticNode u → List ExprId
  | .var _ _ => []
  | .objectLookup _ => []
  | .linearSum s => s.children.elems
  | .max children _ => children.elems
  | .nthLargest children _ _ _ => children.elems
  | .sumOverThreshold s => s.children
  | .anyPositive children => children.elems
  | .product child1st child2nd => [child1st].insert child2nd
  | .transform _ child => [child]
  | .piecewise _ child => [child]

/-- Variables and lookups set it, and no other expression does. -/
def directlyAffectedContainers : ArithmeticNode u → Option IdSet
  | .var _ container => some ⟨[container], List.nodup_singleton container⟩
  | .objectLookup l => some l.containers
  | _ => none

def innerFullApply (a : Assignment) (value : ExprId → Except String ℚ) :
    ArithmeticNode u → Except String ℚ
  | .var object container => .ok (if a object = container then 1 else 0)
  | .objectLookup l => .ok (l.applyAssignment a)
  | .linearSum s => s.innerFullApply u.precision value
  | .max children _ => do
    let values ← children.elems.mapM value
    .ok (maxOf values)
  | .nthLargest children n unique _ => do
    let values ← children.elems.mapM value
    .ok ((computeNthLargest n unique values).getD 0)
  | .sumOverThreshold s => s.innerFullApply u.precision value
  | .anyPositive children => do
    let values ← children.elems.mapM value
    .ok (if values.any u.precision.isStrictlyGtZero then 1 else 0)
  | .product child1st child2nd => do
    let v ← value child1st
    let w ← value child2nd
    .ok (v * w)
  | .transform t child => do
    let v ← value child
    .ok (t.performTransform u.precision v)
  | .piecewise p child => do
    let v ← value child
    p.performPiecewise v

def innerLowerAndUpperBounds (bounds : ExprId → Bounds) : ArithmeticNode u → Bounds
  | .var _ _ => ⟨0, 1⟩
  | .objectLookup l => l.innerLowerAndUpperBounds
  | .linearSum s => s.innerLowerAndUpperBounds u.precision bounds
  | .max children _ =>
    ⟨maxOf (children.elems.map fun child => (bounds child).lowerBound),
      maxOf (children.elems.map fun child => (bounds child).upperBound)⟩
  | .nthLargest children _ _ _ =>
    ⟨minOf (children.elems.map fun child => (bounds child).lowerBound),
      maxOf (children.elems.map fun child => (bounds child).upperBound)⟩
  | .sumOverThreshold s => s.innerLowerAndUpperBounds u.precision bounds
  | .anyPositive children => ⟨0, if children.elems.isEmpty then 0 else 1⟩
  | .product child1st child2nd =>
    let candidates := [(bounds child1st).lowerBound * (bounds child2nd).lowerBound,
        (bounds child1st).lowerBound * (bounds child2nd).upperBound,
        (bounds child1st).upperBound * (bounds child2nd).lowerBound,
        (bounds child1st).upperBound * (bounds child2nd).upperBound]
    ⟨minOf candidates, maxOf candidates⟩
  | .transform t child => t.innerLowerAndUpperBounds u.precision (bounds child)
  | .piecewise p _ => p.innerLowerAndUpperBounds

end ArithmeticNode

structure ArithmeticDag (u : Universe partitions) where
  graph : ExpressionGraph ExprId
  node : ExprId → ArithmeticNode u
  children_eq : ∀ n, graph.children n = (node n).children
  direct_eq : ∀ n, graph.directlyAffectedContainers n = (node n).directlyAffectedContainers

namespace ArithmeticDag
variable {u : Universe partitions}

def value (dag : ArithmeticDag u) (a : Assignment) : ExprId → Except String ℚ :=
  solveRule dag.graph.depth (fun value n => (dag.node n).innerFullApply a value) fun _ => .ok 0

def lowerAndUpperBounds (dag : ArithmeticDag u) : ExprId → Bounds :=
  solveRule dag.graph.depth (fun bounds n => (dag.node n).innerLowerAndUpperBounds bounds)
    fun _ => ⟨0, 0⟩

end ArithmeticDag

end Rebalancer
