import Rebalancer.ChangeSet
import Rebalancer.Table

namespace Rebalancer
variable {p q : PriorityInfo}

structure PriorityInfo where
  rootIdx : Nat
  height : Nat
deriving DecidableEq

namespace PriorityInfo

def gt (p q : PriorityInfo) : Bool :=
  if p.rootIdx = q.rootIdx then decide (p.height < q.height) else decide (p.rootIdx < q.rootIdx)

theorem gt_iff : p.gt q = true ↔
    p.rootIdx < q.rootIdx ∨ p.rootIdx = q.rootIdx ∧ p.height < q.height := by
  rw [gt]
  split <;> simp only [decide_eq_true_eq] <;> omega

instance : LT PriorityInfo := ⟨fun p q => q.gt p = true⟩
instance : LE PriorityInfo := ⟨fun p q => ¬ p.gt q = true⟩

theorem lt_iff : p < q ↔
    q.rootIdx < p.rootIdx ∨ q.rootIdx = p.rootIdx ∧ q.height < p.height := gt_iff

theorem le_iff : p ≤ q ↔ q.rootIdx < p.rootIdx ∨ q.rootIdx = p.rootIdx ∧ q.height ≤ p.height := by
  change ¬ p.gt q = true ↔ _
  rw [gt_iff]
  omega

instance : LinearOrder PriorityInfo where
  le_refl p := by rw [le_iff]; omega
  le_trans p q r hpq hqr := by rw [le_iff] at *; omega
  le_antisymm p q hpq hqp := by
    obtain ⟨i, j⟩ := p
    obtain ⟨k, l⟩ := q
    simp only [le_iff] at hpq hqp
    simp only [PriorityInfo.mk.injEq]
    omega
  le_total p q := by simp only [le_iff]; omega
  lt_iff_le_not_ge p q := by simp only [lt_iff, le_iff]; omega
  toDecidableLE p q := inferInstanceAs (Decidable (¬ p.gt q = true))
  toDecidableLT p q := inferInstanceAs (Decidable (q.gt p = true))
  toDecidableEq := inferInstance

end PriorityInfo

/-- Expression nodes with their children. The depth certifies that there is no cycle. -/
structure ExpressionGraph (ν : Type) where
  children : ν → List ν
  children_nodup : ∀ n, (children n).Nodup
  depth : ν → Nat
  depth_lt : ∀ n c, c ∈ children n → depth c < depth n
  isAffectedByChange : AffectedByChangeDecisionData → ν → Option AffectedByChange
  directlyAffectedContainers : ν → Option IdSet

namespace ExpressionGraph
variable {ν : Type}

def Below (g : ExpressionGraph ν) (n d : ν) : Prop :=
  Relation.ReflTransGen (fun p c => c ∈ g.children p) n d

def StrictlyBelow (g : ExpressionGraph ν) (n d : ν) : Prop := ∃ c ∈ g.children n, g.Below c d

section
variable {g : ExpressionGraph ν}

theorem Below.of_strictly (h : g.StrictlyBelow n d) : g.Below n d := by
  obtain ⟨c, hc, hd⟩ := h
  exact .head hc hd

theorem Below.eq_or_strictly (h : g.Below n d) : d = n ∨ g.StrictlyBelow n d := by
  rcases Relation.ReflTransGen.cases_head h with he | ⟨c, hc, hd⟩
  · exact .inl he.symm
  · exact .inr ⟨c, hc, hd⟩

theorem Below.strictly (h : g.Below n m) (hc : c ∈ g.children m) : g.StrictlyBelow n c := by
  rcases Relation.ReflTransGen.cases_head h with rfl | ⟨m', hm', hb⟩
  · exact ⟨c, hc, .refl⟩
  · exact ⟨m', hm', hb.tail hc⟩

end

end ExpressionGraph

structure OrderState (ν : Type) where
  visited : List ν
  postOrder : List ν
  nodeToPriority : Table ν PriorityInfo
  isFixed : ν → Bool
  nFixedNodes : Nat

namespace OrderState
variable {ν : Type}

def new : OrderState ν := ⟨[], [], .new, fun _ => false, 0⟩

def height (st : OrderState ν) (n : ν) : Nat :=
  match st.nodeToPriority n with
  | some p => p.height
  | none => 0

variable [DecidableEq ν]

def markFixed (st : OrderState ν) (node : ν) : OrderState ν := { st with
    isFixed := fun m => if m = node then true else st.isFixed m
    nFixedNodes := st.nFixedNodes + 1 }

end OrderState

section
variable {ν : Type} [DecidableEq ν]

def visitChild (traverse : ν → OrderState ν → OrderState ν)
    (acc : OrderState ν × Bool × Nat) (child : ν) : OrderState ν × Bool × Nat :=
  let st := traverse child acc.1
  (st, acc.2.1 && st.isFixed child, max acc.2.2 (st.height child))

def finishNode (g : ExpressionGraph ν) (fixedContainers : IdSet) (currRootIdx : Nat) (node : ν)
    (acc : OrderState ν × Bool × Nat) : OrderState ν :=
  let st : OrderState ν := { acc.1 with
      postOrder := acc.1.postOrder ++ [node]
      nodeToPriority := acc.1.nodeToPriority.emplace node ⟨currRootIdx, acc.2.2 + 1⟩ }
  if acc.2.1 then
    match g.directlyAffectedContainers node with
    | some containers =>
      if containers.elems.all (fun c => decide (c ∈ fixedContainers)) then st.markFixed node else st
    | none => st.markFixed node
  else st

/-- The fuel bounds the recursion depth; one more than the depth of the node is enough. -/
def traversePostOrder (g : ExpressionGraph ν) (fixedContainers : IdSet) (currRootIdx : Nat) :
    Nat → ν → OrderState ν → OrderState ν
  | 0, _, st => st
  | fuel + 1, node, st =>
    if node ∈ st.visited then st
    else
      finishNode g fixedContainers currRootIdx node ((g.children node).foldl
          (visitChild (fun c s => traversePostOrder g fixedContainers currRootIdx fuel c s))
          ({ st with visited := node :: st.visited }, true, 0))

variable (g : ExpressionGraph ν)

def orderRoot (fixedContainers : IdSet)
    (acc : OrderState ν × List Nat) (root : ν × Nat) : OrderState ν × List Nat :=
  let st := traversePostOrder g fixedContainers root.2 (g.depth root.1 + 1) root.1 acc.1
  (st, acc.2 ++ [st.postOrder.length])

def initOrder (fixedContainers : IdSet) (roots : List ν) : OrderState ν × List Nat :=
  roots.zipIdx.foldl (orderRoot g fixedContainers) (.new, [0])

def addParents (parents : ν → List ν) (node : ν) : ν → List ν :=
  fun c => if c ∈ g.children node then parents c ++ [node] else parents c

/-- `nodeToParents_`, with the empty list for a node without an entry. -/
def initParents (postOrder : List ν) : ν → List ν := postOrder.foldl (addParents g) (fun _ => [])

end

end Rebalancer
