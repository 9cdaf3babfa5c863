import Rebalancer.BoundsSound
import Rebalancer.IncrementalPriorityQueue

namespace Rebalancer

def Assignment.SameObjectsOn (containers : IdSet) (a a' : Assignment) : Prop :=
  ∀ c ∈ containers, ∀ o, a o = c ↔ a' o = c

/-- The expressions of an objective: values, bounds, coefficients and the containers they affect. -/
structure ObjectiveDag where
  graph : ExpressionGraph ExprId
  value : Assignment → ExprId → ℚ
  bounds : ExprId → Bounds
  getChildCoefficient : ExprId → ExprId → ℚ
  value_congr : ∀ n a a', (∀ c ∈ graph.children n, value a c = value a' c) →
    (∀ containers, graph.directlyAffectedContainers n = some containers →
      a.SameObjectsOn containers a') → value a n = value a' n
  direct_covers : ∀ n containers, graph.directlyAffectedContainers n = some containers →
    ∀ m covered, graph.Below n m → graph.directlyAffectedContainers m = some covered →
      ∀ c ∈ covered, c ∈ containers

/-- `hash` is `getHashValue`, and `priority` the priority of a container from the random seed. -/
structure HotTraversal where
  dag : ObjectiveDag
  objectives : List ExprId
  assignment : Assignment
  fixedContainers : IdSet
  precision : PrecisionTolerances
  hash : IdSet → Int
  priority : ContainerId → Nat
  pruneOptimalSubgraphs : Bool

namespace HotTraversal

def value (t : HotTraversal) (n : ExprId) : ℚ := t.dag.value t.assignment n

section
variable (t : HotTraversal)

/-- An expression is marked as fixed when its children are and it affects fixed containers only. -/
def fixedRule (isFixed : ExprId → Bool) (n : ExprId) : Bool :=
  (t.dag.graph.children n).all isFixed && match t.dag.graph.directlyAffectedContainers n with
    | some containers => containers.elems.all fun c => decide (c ∈ t.fixedContainers)
    | none => true

def isFixed : ExprId → Bool := solveRule t.dag.graph.depth t.fixedRule fun _ => false

/-- `getDistinctHashValuesCountAndCandidateSetIfUnique`. -/
def candidateSet (unique direct : Option IdSet) : Nat × Option IdSet :=
  match unique.filter (0 < ·.size), direct.filter (0 < ·.size) with
  | none, none => (0, none)
  | some u, none => (1, some u)
  | none, some d => (1, some d)
  | some u, some d => if t.hash u = t.hash d then (1, some d) else (2, none)

end

def uniqueLoop (t : HotTraversal) (unique : ExprId → Option IdSet) :
    List ExprId → Option IdSet → Option IdSet
  | [], candidate => some (candidate.getD .empty)
  | child :: children, candidate =>
    match unique child with
    | none => none
    | some set =>
      match t.candidateSet (some set) (t.dag.graph.directlyAffectedContainers child) with
      | (0, _) => t.uniqueLoop unique children candidate
      | (_, none) => none
      | (_, some setFromChild) =>
        match candidate with
        | none => t.uniqueLoop unique children (some setFromChild)
        | some known =>
          if t.hash known = t.hash setFromChild then t.uniqueLoop unique children candidate
          else none

section
variable (t : HotTraversal)

def uniqueRule (unique : ExprId → Option IdSet) (n : ExprId) : Option IdSet :=
  match t.dag.graph.directlyAffectedContainers n with
  | some containers => some containers
  | none => t.uniqueLoop unique (t.dag.graph.children n) none

/-- `getUniqueAffectedContainersInSubgraphIfExists`. -/
def uniqueAffected : ExprId → Option IdSet := solveRule t.dag.graph.depth t.uniqueRule fun _ => none

def shouldExpand (n : ExprId) : Bool := !t.isFixed n && (t.uniqueAffected n).isNone

def getPotential (expr : ExprId) (coeff : ℚ) : ℚ :=
  coeff * (t.value expr - if 0 < coeff then (t.dag.bounds expr).lowerBound
    else (t.dag.bounds expr).upperBound)

/-- `getTotalContainersInUniqueAndDirectlyAffectedSets`, infinite if there are no such sets. -/
def affectedSize (n : ExprId) : WithTop Nat :=
  match t.uniqueAffected n, t.dag.graph.directlyAffectedContainers n with
  | none, none => ⊤
  | unique, direct => (((unique.map IdSet.size).getD 0 + (direct.map IdSet.size).getD 0 : Nat) :
      WithTop Nat)

def higherPotentialFirst (x y : ExprId × ℚ) : Bool :=
  if x.2 ≠ y.2 then decide (y.2 < x.2)
  else if t.affectedSize x.1 ≠ t.affectedSize y.1 then
    decide (t.affectedSize x.1 < t.affectedSize y.1)
  else decide (y.1 < x.1)

/-- The children with their potentials; entries that were kept from an earlier call have not
changed. -/
def getDescendingChildPotentials (n : ExprId) : List (ExprId × ℚ) :=
  ((t.dag.graph.children n).map fun c =>
    (c, t.getPotential c (t.dag.getChildCoefficient n c))).insertionSort
      fun x y => ¬ t.higherPotentialFirst y x = true

structure PreOrder where
  stack : List (ExprId × ℚ)
  seen : List ExprId

def exprAlreadyOptimal (pair : ExprId × ℚ) : Bool :=
  decide (|pair.2| < defaultTolerances.absolute) || t.isFixed pair.1

def uniquePushToStack (it : PreOrder) (pair : ExprId × ℚ) : PreOrder :=
  if (t.pruneOptimalSubgraphs = false ∨ t.exprAlreadyOptimal pair = false) ∧ pair.1 ∉ it.seen then
    ⟨pair :: it.stack, pair.1 :: it.seen⟩
  else it

def rootPotential (root : ExprId) : ℚ :=
  if t.pruneOptimalSubgraphs then t.value root - (t.dag.bounds root).lowerBound else 1

def preOrderBegin (root : ExprId) : PreOrder :=
  t.uniquePushToStack ⟨[], []⟩ (root, t.rootPotential root)

/-- `operator++`: the children are pushed in the opposite of the descending order. -/
def preOrderNext (it : PreOrder) : PreOrder :=
  match it.stack with
  | [] => it
  | (expr, _) :: stack =>
    if t.shouldExpand expr then
      (t.getDescendingChildPotentials expr).reverse.foldl t.uniquePushToStack { it with stack }
    else { it with stack }

def containersOf (expr : ExprId) : Option (List ContainerId) :=
  match t.uniqueAffected expr, t.dag.graph.directlyAffectedContainers expr with
  | some unique, none => some unique.elems
  | some unique, some direct => some (unique.elems ∪ direct.elems)
  | none, some direct => some direct.elems
  | none, none => none

abbrev ContainerWithPriority := Nat ×ₗ ContainerId

/-- An `ExpressionContainersIterator`, without the ranges that are exhausted. -/
structure ContainersIterator where
  ranges : List PreOrder
  queue : IncrementalPriorityQueue ContainerWithPriority

def addContainers (containers : List ContainerId)
    (queue : IncrementalPriorityQueue ContainerWithPriority) :
    IncrementalPriorityQueue ContainerWithPriority :=
  queue.update (containers.map fun c => toLex (t.priority c, c))

def feedExpression (pair : ExprId × ℚ) (queue : IncrementalPriorityQueue ContainerWithPriority) :
    IncrementalPriorityQueue ContainerWithPriority :=
  if t.isFixed pair.1 = true ∨ t.precision.compare pair.2 0 = .eq then queue
  else
    match t.containersOf pair.1 with
    | none => queue
    | some containers => t.addContainers containers queue

end

def yieldsUniqueContainer (queue : IncrementalPriorityQueue ContainerWithPriority) : Bool :=
  !queue.empty && match queue.isTopStrict with
    | .ok strict => strict
    | .error _ => false

def feedQueue (t : HotTraversal) : Nat → ContainersIterator → Option ContainersIterator
  | 0, _ => none
  | fuel + 1, it =>
    match it.ranges with
    | [] => some it
    | range :: ranges =>
      if yieldsUniqueContainer it.queue then some it
      else
        match range.stack with
        | [] => t.feedQueue fuel { it with ranges }
        | pair :: _ =>
          t.feedQueue fuel ⟨t.preOrderNext range :: ranges, t.feedExpression pair it.queue⟩

def YieldsNothing (t : HotTraversal) : Prop :=
  ∃ fuel it, t.feedQueue fuel ⟨t.objectives.map t.preOrderBegin, .new⟩ = some it ∧
    it.queue.empty = true

end HotTraversal

end Rebalancer
