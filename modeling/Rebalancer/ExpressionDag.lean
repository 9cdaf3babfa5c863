import Rebalancer.EquivalenceInputs
import Rebalancer.ObjectLookup
import Rebalancer.ObjectPartitionSymmetry

namespace Rebalancer

/-- The expressions considered here. None is a variable, so sums and maxima have nothing to merge
themselves. -/
inductive ExprNode (u : Universe partitions) where
  | objectPartition (p : ObjectPartition u)
  | objectPartitionLookup (l : ObjectPartitionLookup u)
  | objectVector (values : ObjectValues u.numObjects partitions)
  | objectLookup (l : ObjectLookup u)
  | linearSum (constant : ℚ) (coefficient : ExprId → ℚ)
  | max

namespace ExprNode
variable {u : Universe partitions}

def updateEquivalenceSets (eq : EquivalenceSets) : ExprNode u → EquivalenceSets
  | objectPartition p =>
    let eq := (p.partitionInfo.relevantGroups partitions).foldl
      (fun eq g => eq.mappingMergeGroup partitions p.partitionInfo.partitionId g) eq
    if (u.dimension p.dimensionId).isDynamic then
      ((p.scopeItemIds.map IdSet.elems).getD []).foldl
        (fun eq item => eq.mappingMergeScopeItem u p.dimensionId item) eq
    else eq.mappingMergeDimension u p.dimensionId
  | objectPartitionLookup l =>
    eq.mappingMerge (l.initialDuringObjects.elems.map fun o => (o, (1 : Int)))
  | objectVector _ => eq
  | objectLookup l => eq.mappingMergeExprValues l.objectVectorId l.objectVector
  | linearSum _ _ => eq
  | max => eq

def calls : ExprNode u → List (MergeCall u)
  | objectPartition p =>
    (p.partitionInfo.relevantGroups partitions).map (.group p.partitionInfo.partitionId) ++
      if (u.dimension p.dimensionId).isDynamic then
        ((p.scopeItemIds.map IdSet.elems).getD []).map (.scopeItem p.dimensionId)
      else [.dimension p.dimensionId]
  | objectPartitionLookup l => [.mapping (l.initialDuringObjects.elems.map fun o => (o, (1 : Int)))]
  | objectLookup l => [.exprValues l.objectVectorId l.objectVector]
  | _ => []

theorem updateEquivalenceSets_eq (node : ExprNode u) (eq : EquivalenceSets) :
    node.updateEquivalenceSets eq = node.calls.foldl MergeCall.run eq := by
  cases node with
  | objectPartition p =>
    rw [updateEquivalenceSets, calls, List.foldl_append, List.foldl_map]
    split
    · rw [List.foldl_map]
      rfl
    · rfl
  | objectPartitionLookup l => rfl
  | objectVector v => rfl
  | objectLookup l => rfl
  | linearSum constant c => rfl
  | max => rfl

def sumOf (u : Universe partitions) (constant : ℚ) (terms : List ℚ) : ℚ :=
  if |constant + terms.sum| < u.precision.absolute then 0 else constant + terms.sum

/-- `innerFullApply`, from the values of the children with their ids. Object vectors and object
partitions have no value. -/
def innerFullApply (a : Assignment) (children : List (ExprId × Except String ℚ)) :
    ExprNode u → Except String ℚ
  | objectPartition _ => .ok 0
  | objectPartitionLookup l => l.computeFromAssignment a
  | objectVector _ => .ok 0
  | objectLookup l => .ok (l.applyAssignment a)
  | linearSum constant coefficient => do
    let terms ← children.mapM fun c => do
      let value ← c.2
      .ok (value * coefficient c.1)
    .ok (sumOf u constant terms)
  | max => do
    let values ← children.mapM Prod.snd
    .ok (values.max?.getD 0)

end ExprNode

/-- A DAG of expressions; a lookup has its vector or partition as a child. -/
structure ExpressionDag (u : Universe partitions) where
  graph : ExpressionGraph ExprId
  node : ExprId → ExprNode u
  partitionChild : ∀ n l, node n = .objectPartitionLookup l →
    ∃ c ∈ graph.children n, node c = .objectPartition l.objectPartition
  vectorChild : ∀ n l, node n = .objectLookup l →
    l.objectVectorId ∈ graph.children n ∧ node l.objectVectorId = .objectVector l.objectVector

namespace ExpressionDag
variable {u : Universe partitions}

def innerFullApply (dag : ExpressionDag u) (n : ExprId) (a : Assignment)
    (values : List (Except String ℚ)) : Except String ℚ :=
  (dag.node n).innerFullApply a ((dag.graph.children n).zip values)

def value (dag : ExpressionDag u) (a : Assignment) (n : ExprId) : Except String ℚ :=
  fromScratch dag.graph dag.innerFullApply a n

end ExpressionDag

/-- The loop of `updateEquivalenceSets`; it stops once there are as many sets as objects. -/
def updateLoop (update : ν → EquivalenceSets → EquivalenceSets) (numObjects : Nat) :
    List ν → EquivalenceSets → EquivalenceSets
  | [], eq => eq
  | node :: postOrder, eq =>
    if eq.size = numObjects then eq else updateLoop update numObjects postOrder (update node eq)

def Orchestrator.updateEquivalenceSets (o : Orchestrator ν)
    (update : ν → EquivalenceSets → EquivalenceSets) (numObjects : Nat) (eq : EquivalenceSets) :
    EquivalenceSets :=
  (updateLoop update numObjects o.postOrder eq).finalize numObjects

def ExpressionDag.equivalenceSets {u : Universe partitions} (dag : ExpressionDag u)
    (o : Orchestrator ExprId) : EquivalenceSets :=
  o.updateEquivalenceSets (fun n eq => (dag.node n).updateEquivalenceSets eq) u.numObjects .new

def Assignment.exchange (a : Assignment) (x y : ObjectId) : Assignment := a ∘ Equiv.swap x y

end Rebalancer
