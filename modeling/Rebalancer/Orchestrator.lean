import Rebalancer.LeafIndex

namespace Rebalancer

structure Orchestrator (ν : Type) where
  roots : List ν
  postOrder : List ν
  nodeToPriority : Table ν PriorityInfo
  nodeToParents : ν → List ν
  leafStore : LeafStore ν
  leaves : List LeafTables
  nFixedNodes : Nat

section
variable {ν : Type} [DecidableEq ν]

def Orchestrator.init (g : ExpressionGraph ν) (roots : List ν)
    (data : AffectedByChangeDecisionData) (fixedContainers : IdSet) :
    Except String (Orchestrator ν) := do
  let (st, nodeRangeByRoots) := initOrder g fixedContainers roots
  let parents := initParents g st.postOrder
  let (leafStore, leaves) ← initIndex g data st.postOrder nodeRangeByRoots roots.length
  .ok ⟨roots, st.postOrder, st.nodeToPriority, parents, leafStore, leaves, st.nFixedNodes⟩

end

/-- What a node's `evaluate` and `partialApply` can read of the context and of other nodes. -/
structure EvaluatorView (ν V T : Type) where
  value : ν → V
  changedChildren : ν → List ν
  tempTrafficTable : Table ν T

/-- The caches of one evaluation or of one application of changes. `evaluatedRoots` is `none`
where the source has `-1`. -/
structure Context (ν V T : Type) where
  val : Table ν V
  apply : Table ν V
  changedChildren : ν → List ν
  changes : Option ChangeSet
  readyNodes : BucketedPriorityQueue PriorityInfo ν
  groupToTempTrafficTable : Table ν T
  evaluatedRoots : Option Nat

namespace Context
variable {ν V T : Type}

def new (changes : ChangeSet) : Context ν V T :=
  ⟨.new, .new, fun _ => [], some changes, .new, .new, none⟩

variable (value : ν → V) (ctx : Context ν V T)

def evaluateView : EvaluatorView ν V T :=
  ⟨fun n => (ctx.val n).getD (value n), ctx.changedChildren, ctx.groupToTempTrafficTable⟩

def applyView : EvaluatorView ν V T :=
  ⟨fun n => (ctx.apply n).getD (value n), ctx.changedChildren, ctx.groupToTempTrafficTable⟩

end Context

namespace Orchestrator
variable {ν V T : Type} [DecidableEq ν]

def priority (o : Orchestrator ν) (n : ν) : Except String PriorityInfo :=
  match o.nodeToPriority n with
  | some p => .ok p
  | none => .error "node without a priority"

section
variable (o : Orchestrator ν)

def notifyParent (changedNode : ν) (ctx : Context ν V T) (parent : ν) :
    Except String (Context ν V T) := do
  let readyNodes ← if (ctx.changedChildren parent).isEmpty then do
      let p ← o.priority parent
      pure (ctx.readyNodes.emplace p parent)
    else pure ctx.readyNodes
  .ok { ctx with
    readyNodes
    changedChildren := fun m =>
      if m = parent then (ctx.changedChildren m).insert changedNode else ctx.changedChildren m }

section
variable (ctx : Context ν V T)

def notifyChange (changedNode : ν) : Except String (Context ν V T) :=
  (o.nodeToParents changedNode).foldlM (o.notifyParent changedNode) ctx

def computeChangedLeavesAt (root : Nat) : Except String (Context ν V T) := do
  let readyNodes ← computeChangedLeavesByRoot o.nodeToPriority o.leafStore o.leaves ctx.changes
    root ctx.readyNodes
  .ok { ctx with readyNodes }

def computeAllChangedLeaves : Except String (Context ν V T) :=
  (List.range o.roots.length).foldlM o.computeChangedLeavesAt ctx

def nextRoot : Option Nat → Nat
  | none => 0
  | some i => i + 1

def computeChangedLeaves : Except String (Context ν V T) :=
  let root := nextRoot ctx.evaluatedRoots
  o.computeChangedLeavesAt { ctx with evaluatedRoots := some root } root

def feedFirstRoot : Except String (Context ν V T) :=
  if ctx.evaluatedRoots.isNone then o.computeChangedLeaves ctx else .ok ctx

end

end

def feedRoots (o : Orchestrator ν) (nodePriority : PriorityInfo) :
    Nat → Context ν V T → Except String (Context ν V T)
  | 0, _ => .error "out of fuel"
  | fuel + 1, ctx =>
    match ctx.evaluatedRoots with
    | none => .error "root index out of range"
    | some i =>
      match o.roots[i]? with
      | none => .error "root index out of range"
      | some root => do
        let p ← o.priority root
        if nodePriority < p then do
          let ctx ← o.computeChangedLeaves ctx
          feedRoots o nodePriority fuel ctx
        else .ok ctx

/-- Stored values, and an evaluation that reads the context and may save temporary tables in it. -/
structure Expressions (ν V T : Type) where
  value : ν → V
  evaluate : ν → EvaluatorView ν V T → ChangeSet → V × List (ν × T)

def saveTables (table : Table ν T) (saves : List (ν × T)) : Table ν T :=
  saves.foldl (fun t save => t.emplace save.1 save.2) table

variable [DecidableEq V]

def evaluateReady (o : Orchestrator ν) (exprs : Expressions ν V T) (changes : ChangeSet)
    (ctx : Context ν V T) (expr : ν) : Except String (V × Context ν V T) := do
  let (newValue, saves) := exprs.evaluate expr (ctx.evaluateView exprs.value) changes
  let ctx := { ctx with
    groupToTempTrafficTable := saveTables ctx.groupToTempTrafficTable saves }
  if exprs.value expr ≠ newValue then do
    let ctx ← o.notifyChange { ctx with val := ctx.val.emplace expr newValue } expr
    .ok (newValue, ctx)
  else .ok (newValue, ctx)

def evaluateLoop (o : Orchestrator ν) (exprs : Expressions ν V T) (changes : ChangeSet)
    (node : ν) (nodePriority : PriorityInfo) :
    Nat → Context ν V T → Except String (V × Context ν V T)
  | 0, _ => .error "out of fuel"
  | fuel + 1, ctx =>
    if ctx.readyNodes.empty then .ok ((ctx.evaluateView exprs.value).value node, ctx)
    else do
      let expr ← ctx.readyNodes.top
      let p ← o.priority expr
      if p < nodePriority then .ok ((ctx.evaluateView exprs.value).value node, ctx)
      else do
        let readyNodes ← ctx.readyNodes.pop
        let (newValue, ctx) ← o.evaluateReady exprs changes { ctx with readyNodes } expr
        if expr = node then .ok (newValue, ctx)
        else evaluateLoop o exprs changes node nodePriority fuel ctx

/-- Every node is queued by its parents' notifications at most once, which bounds the loop. -/
def loopFuel (o : Orchestrator ν) (ctx : Context ν V T) : Nat :=
  ctx.readyNodes.entries.length + o.postOrder.length + 1

def evaluate (o : Orchestrator ν) (exprs : Expressions ν V T) (node : ν) (ctx : Context ν V T) :
    Except String (V × Context ν V T) :=
  match ctx.changes with
  | none => .error "context without changes"
  | some changes => do
    let ctx ← o.feedFirstRoot ctx
    let nodePriority ← o.priority node
    let ctx ← o.feedRoots nodePriority (o.roots.length + 1) ctx
    o.evaluateLoop exprs changes node nodePriority (o.loopFuel ctx) ctx

def evaluateAll (o : Orchestrator ν) (exprs : Expressions ν V T) :
    List ν → Context ν V T → Except String (List V × Context ν V T)
  | [], ctx => .ok ([], ctx)
  | node :: nodes, ctx => do
    let (v, ctx) ← o.evaluate exprs node ctx
    let (vs, ctx) ← evaluateAll o exprs nodes ctx
    .ok (v :: vs, ctx)

end Orchestrator

end Rebalancer
