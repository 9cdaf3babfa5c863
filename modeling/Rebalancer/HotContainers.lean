import Rebalancer.ContainerTraversalRun

namespace Rebalancer
open List

variable {g : ExpressionGraph ExprId}

namespace HotTraversal
variable {t : HotTraversal}

section
variable (t : HotTraversal)

def Expands (root n : ExprId) : Prop :=
  t.dag.graph.Below root n ∧ t.shouldExpand n = true

def Negligible (p : ℚ) : Prop :=
  t.precision.compare p 0 = .eq ∨ |p| < defaultTolerances.absolute

def KeepsFixed (a' : Assignment) : Prop :=
  t.assignment.SameObjectsOn t.fixedContainers a'

/-- The change of a child does not lower a parent that grows with it as its coefficient says. -/
def Settled (a' : Assignment) (n c : ExprId) : Prop :=
  (0 < t.dag.getChildCoefficient n c → t.value c ≤ t.dag.value a' c) ∧
    (t.dag.getChildCoefficient n c < 0 → t.dag.value a' c ≤ t.value c)

end

/-- The potentials below a root say where its value can be lowered. -/
structure Guided (t : HotTraversal) (root : ExprId) : Prop where
  bounds_contain : ∀ a', t.KeepsFixed a' → ∀ n, t.dag.graph.Below root n →
    (t.dag.bounds n).Contains (t.dag.value a' n)
  root_exact : t.Negligible (t.rootPotential root) →
    t.value root = (t.dag.bounds root).lowerBound
  child_exact : ∀ n, t.Expands root n → ∀ c ∈ t.dag.graph.children n,
    t.Negligible (t.childPotential n c) → t.childPotential n c = 0
  monotone : ∀ n, t.Expands root n → ∀ a', t.KeepsFixed a' →
    (∀ c ∈ t.dag.graph.children n, t.Settled a' n c) → t.value n ≤ t.dag.value a' n
  aligned : ∀ m n, t.Expands root m → t.Expands root n →
    ∀ c, c ∈ t.dag.graph.children m → c ∈ t.dag.graph.children n →
      SignType.sign (t.dag.getChildCoefficient m c) = SignType.sign (t.dag.getChildCoefficient n c)
  descending : ∀ n, t.Expands root n → ∀ c ∈ t.dag.graph.children n,
    t.dag.getChildCoefficient n c < 0 → t.childPotential n c ≠ 0 → t.shouldExpand c = false

theorem Settled.of_eq (h : t.value c = t.dag.value a' c) : t.Settled a' n c :=
  ⟨fun _ => h.le, fun _ => h.ge⟩

theorem Settled.of_potential_zero (hb : (t.dag.bounds c).Contains (t.dag.value a' c))
    (hz : t.childPotential n c = 0) : t.Settled a' n c := by
  rw [childPotential, getPotential, mul_eq_zero] at hz
  refine ⟨?_, ?_⟩
  · intro hp
    rw [if_pos hp] at hz
    have hd := hz.resolve_left hp.ne'
    rw [sub_eq_zero.mp hd]
    exact hb.1
  · intro hn
    rw [if_neg (not_lt.mpr hn.le)] at hz
    have hd := hz.resolve_left hn.ne
    rw [sub_eq_zero.mp hd]
    exact hb.2

theorem Settled.of_sign (hs : SignType.sign (t.dag.getChildCoefficient m c) =
      SignType.sign (t.dag.getChildCoefficient n c)) (h : t.Settled a' m c) : t.Settled a' n c := by
  refine ⟨?_, ?_⟩
  · intro hp
    apply h.1
    rw [← sign_eq_one_iff, hs, sign_eq_one_iff]
    exact hp
  · intro hn
    apply h.2
    rw [← sign_eq_neg_one_iff, hs, sign_eq_neg_one_iff]
    exact hn

theorem negligible_or_fixed (h : t.exprAlreadyOptimal (n, p) = true) :
    t.Negligible p ∨ t.isFixed n = true := by
  rw [exprAlreadyOptimal, Bool.or_eq_true, decide_eq_true_eq] at h
  exact h.imp_left .inr

theorem depth_le_of_below (h : g.Below root n) : g.depth n ≤ g.depth root := by
  induction h with
  | refl => exact Nat.le_refl _
  | tail _ hc ih => exact Nat.le_trans (Nat.le_of_lt (g.depth_lt _ _ hc)) ih

theorem not_mem_children_of_below (h : g.Below root n) : root ∉ g.children n := by
  intro hmem
  exact absurd (g.depth_lt n root hmem) (Nat.not_lt.mpr (depth_le_of_below h))

section
variable {seen : List ExprId} (hg : t.Guided root) (hk : t.KeepsFixed a')
  (hend : Explored t root ⟨[], seen⟩ done)
include hg hk hend

theorem settled_of_visited (hn : t.Expands root n) (hc : c ∈ t.dag.graph.children n)
    (hd : (c, q) ∈ done)
    (ih : t.shouldExpand c = true → t.value c ≤ t.dag.value a' c) : t.Settled a' n c := by
  have hb := hend.below c q (.inr hd)
  rcases hend.quiet c q hd with hf | hzero | hnone
  · exact .of_eq (value_of_isFixed c hf hk)
  · rcases hend.origin c q (.inr hd) with ⟨rfl, _⟩ | ⟨m, p, hm, he, hchild, rfl⟩
    · exact absurd hc (not_mem_children_of_below hn.1)
    · have hm' : t.Expands root m := ⟨hend.below m p (.inr hm), he⟩
      have hp := hg.child_exact m hm' c hchild (.inl hzero)
      have hbounds := hg.bounds_contain a' hk c hb
      exact .of_sign (hg.aligned m n hm' hn c hchild hc) (.of_potential_zero hbounds hp)
  · by_cases hf : t.isFixed c = true
    · exact .of_eq (value_of_isFixed c hf hk)
    · have he := shouldExpand_of_quiet (Bool.eq_false_iff.mpr hf) hnone
      refine ⟨fun _ => ih he, ?_⟩
      intro hneg
      by_cases hp : t.childPotential n c = 0
      · exact (Settled.of_potential_zero (hg.bounds_contain a' hk c hb) hp).2 hneg
      · have hnot := hg.descending n hn c hc hneg hp
        rw [he] at hnot
        cases hnot

theorem expanded_minimal (n : ExprId) : ∀ p, (n, p) ∈ done → t.shouldExpand n = true →
    t.value n ≤ t.dag.value a' n := by
  apply t.fixed_localRule.induction (p := fun n => ∀ p, (n, p) ∈ done → t.shouldExpand n = true →
    t.value n ≤ t.dag.value a' n)
  intro n ih p hd he
  have hn : t.Expands root n := ⟨hend.below n p (.inr hd), he⟩
  apply hg.monotone n hn a' hk
  intro c hc
  rcases hend.closed n p hd he c hc with hseen | ho
  · obtain ⟨q, hs | hd'⟩ := hend.seen c hseen
    · cases hs
    · exact settled_of_visited hg hk hend hn hc hd' (ih c hc q hd')
  · rcases negligible_or_fixed ho with hsmall | hf
    · exact .of_potential_zero (hg.bounds_contain a' hk c (hn.1.tail hc))
        (hg.child_exact n hn c hc hsmall)
    · exact .of_eq (value_of_isFixed c hf hk)

end

/-- If the traversal ends without a container, an objective whose potentials say where it can be
lowered is minimal. -/
theorem YieldsNothing.minimal (h : t.YieldsNothing) (hroot : root ∈ t.objectives)
    (hguided : t.Guided root) (hkeeps : t.KeepsFixed a') : t.value root ≤ t.dag.value a' root := by
  obtain ⟨seen, done, hend⟩ := h.explored root hroot
  have hs : t.Negligible (t.rootPotential root) → t.value root ≤ t.dag.value a' root := by
    intro hs
    rw [hguided.root_exact hs]
    exact (hguided.bounds_contain a' hkeeps root .refl).1
  have hf : t.isFixed root = true → t.value root ≤ t.dag.value a' root :=
    fun hf => (value_of_isFixed root hf hkeeps).le
  rcases hend.started with hseen | ho
  · obtain ⟨p, hstack | hd⟩ := hend.seen root hseen
    · cases hstack
    · rcases hend.quiet root p hd with hi | hzero | hnone
      · exact hf hi
      · rcases hend.origin root p (.inr hd) with ⟨_, rfl⟩ | ⟨m, q, hm, _, hc, _⟩
        · exact hs (.inl hzero)
        · exact absurd hc (not_mem_children_of_below (hend.below m q (.inr hm)))
      · by_cases hi : t.isFixed root = true
        · exact hf hi
        · have he := shouldExpand_of_quiet (Bool.eq_false_iff.mpr hi) hnone
          exact expanded_minimal hguided hkeeps hend root p hd he
  · exact (negligible_or_fixed ho).elim hs hf

end HotTraversal

theorem Assignment.SameObjectsOn.mem_iff {a a' : Assignment}
    (h : a.SameObjectsOn containers a') (o : ObjectId) : a o ∈ containers ↔ a' o ∈ containers := by
  refine ⟨?_, ?_⟩
  · intro ho
    rw [(h (a o) ho o).mp rfl]
    exact ho
  · intro ho
    rw [(h (a' o) ho o).mpr rfl]
    exact ho

theorem Assignment.SameObjectsOn.getObjects_eq {a a' : Assignment}
    (h : a.SameObjectsOn cs a') (hc : c ∈ cs) (n : Nat) : a.getObjects n c = a'.getObjects n c := by
  apply filter_congr
  intro o _
  exact decide_eq_decide.mpr (h c hc o)

namespace ObjectLookup
variable {u : Universe partitions}

theorem applyAssignment_congr (l : ObjectLookup u) (h : a.SameObjectsOn l.containers a') :
    l.applyAssignment a = l.applyAssignment a' := by
  have hv : l.getObjectValuesFromObjectVector a = l.getObjectValuesFromObjectVector a' := by
    apply filter_congr
    intro e _
    exact decide_eq_decide.mpr (h.mem_iff e.1)
  have hobjects : l.containers.elems.flatMap (a.getObjects u.numObjects) =
      l.containers.elems.flatMap (a'.getObjects u.numObjects) := by
    apply flatMap_congr
    intro c hc
    exact h.getObjects_eq hc u.numObjects
  have hsize : l.getCurrObjectsInContainersSize a = l.getCurrObjectsInContainersSize a' := by
    rw [getCurrObjectsInContainersSize]
    congr 1
    apply map_congr_left
    intro c hc
    rw [h.getObjects_eq hc u.numObjects]
  have ha : l.getObjectValuesFromAssignment a = l.getObjectValuesFromAssignment a' := by
    rw [getObjectValuesFromAssignment, getObjectValuesFromAssignment, hobjects]
  rw [applyAssignment, applyAssignment, hv, hsize, ha]

end ObjectLookup

namespace ArithmeticNode
variable {u : Universe partitions}

/-- `getChildCoefficient`, which is 1 unless an expression says otherwise. -/
def getChildCoefficient : ArithmeticNode u → ExprId → ℚ
  | .linearSum s, child => s.getChildCoefficient child
  | .sumOverThreshold s, child => if child = s.threshold then -1 else 1
  | _, _ => 1

theorem innerFullApply_sameObjects (node : ArithmeticNode u) (value : ExprId → Except String ℚ)
    (h : ∀ containers, node.directlyAffectedContainers = some containers →
      a.SameObjectsOn containers a') :
    node.innerFullApply a value = node.innerFullApply a' value := by
  cases node with
  | var o container =>
    have hs := h _ rfl container (mem_singleton.mpr rfl) o
    simp [innerFullApply, hs]
  | objectLookup l => simp [innerFullApply, l.applyAssignment_congr (h _ rfl)]
  | linearSum s => rfl
  | max c nonempty => rfl
  | nthLargest c n unique nonempty => rfl
  | sumOverThreshold s => rfl
  | anyPositive c => rfl
  | product child1st child2nd => rfl
  | transform t child => rfl
  | piecewise p child => rfl

theorem children_of_direct {node : ArithmeticNode u}
    (h : node.directlyAffectedContainers = some cs) : node.children = [] := by
  cases node with
  | var o container => rfl
  | objectLookup l => rfl
  | linearSum s => cases h
  | max children nonempty => cases h
  | nthLargest children n unique nonempty => cases h
  | sumOverThreshold s => cases h
  | anyPositive children => cases h
  | product child1st child2nd => cases h
  | transform t c => cases h
  | piecewise p c => cases h

end ArithmeticNode

def ObjectiveDag.ofArithmetic {u : Universe partitions} (dag : ArithmeticDag u)
    (value : Assignment → ExprId → ℚ) (hvalue : ∀ a n, dag.value a n = .ok (value a n)) :
    ObjectiveDag where
  graph := dag.graph
  value := value
  bounds := dag.lowerAndUpperBounds
  getChildCoefficient n := (dag.node n).getChildCoefficient
  value_congr n a a' hchildren hdirect := by
    have heq : dag.value a n = dag.value a' n := by
      rw [dag.value_eq, dag.value_eq]
      rw [dag.direct_eq] at hdirect
      rw [(dag.node n).innerFullApply_sameObjects (dag.value a) hdirect]
      apply (dag.node n).innerFullApply_congr
      rw [← dag.children_eq]
      intro c hc
      rw [hvalue, hvalue, hchildren c hc]
    rw [hvalue, hvalue] at heq
    exact Except.ok.inj heq
  direct_covers n containers hn m covered hm hcovered := by
    rcases hm.eq_or_strictly with rfl | ⟨c, hc, _⟩
    · rw [hn] at hcovered
      cases hcovered
      exact fun c hc => hc
    · rw [dag.direct_eq] at hn
      rw [dag.children_eq, ArithmeticNode.children_of_direct hn] at hc
      cases hc

def gapNode : ExprId → ArithmeticNode oneObject
  | 0 => .var 0 0
  | 1 => .var 0 1
  | 2 => .linearSum ⟨-2, ⟨[0, 1], nodup_zero_one⟩, ∅, true⟩
  | _ => .transform .square 2

def gapDag : ArithmeticDag oneObject where
  graph :=
    { children := fun n => (gapNode n).children
      children_nodup := by
        intro n
        match n with
        | 0 => exact .nil
        | 1 => exact .nil
        | 2 => decide
        | n + 3 => exact List.nodup_singleton 2
      depth := fun n => min (n - 1) 2
      depth_lt := by
        intro n c hc
        match n with
        | 0 => cases hc
        | 1 => cases hc
        | 2 =>
          rcases List.mem_cons.mp hc with rfl | hc
          · decide
          · rw [List.mem_singleton.mp hc]
            decide
        | n + 3 =>
          rw [List.mem_singleton.mp hc]
          omega
      isAffectedByChange := fun _ _ => none
      directlyAffectedContainers := fun n => (gapNode n).directlyAffectedContainers }
  node := gapNode
  children_eq _ := rfl
  direct_eq _ := rfl

variable (a : Assignment)

def gapValue : ExprId → ℚ
  | 0 => if a 0 = 0 then 1 else 0
  | 1 => if a 0 = 1 then 1 else 0
  | 2 => if a 0 = 0 ∨ a 0 = 1 then -1 else -2
  | _ => if a 0 = 0 ∨ a 0 = 1 then 1 else 4

theorem gapDag_sum : gapDag.value a 2 = .ok (gapValue a 2) := by
  have hf : gapDag.value a 0 = .ok (gapValue a 0) := rfl
  have hs : gapDag.value a 1 = .ok (gapValue a 1) := rfl
  have hsum : gapDag.value a 2 = .ok (defaultTolerances.snapToZero
      (-2 + [gapValue a 0 * 1, gapValue a 1 * 1].sum)) := by
    change LinearTerms.innerFullApply defaultTolerances ⟨-2, ⟨[0, 1], _⟩, ∅, true⟩
      (gapDag.value a) =
      _
    rfl
  rw [hsum]
  by_cases h0 : a 0 = 0
  · simp only [gapValue, h0]
    decide +kernel
  · by_cases h1 : a 0 = 1
    · simp only [gapValue, h1]
      decide +kernel
    · simp only [gapValue, if_neg h0, if_neg h1, if_neg (not_or.mpr ⟨h0, h1⟩)]
      decide +kernel

theorem gapDag_value (n : ExprId) : gapDag.value a n = .ok (gapValue a n) := by
  match n with
  | 0 => rfl
  | 1 => rfl
  | 2 => exact gapDag_sum a
  | n + 3 =>
    rw [gapDag.value_eq]
    change (do
      let v ← gapDag.value a 2
      .ok (v * v)) = _
    rw [gapDag_sum, except_ok_bind]
    simp only [gapValue]
    split
    · decide +kernel
    · decide +kernel

def gapTraversal (objective : ExprId) (pruneOptimalSubgraphs : Bool) : HotTraversal where
  dag := .ofArithmetic gapDag gapValue gapDag_value
  objectives := [objective]
  assignment := fun _ => 2
  fixedContainers := .empty
  precision := defaultTolerances
  hash := fun containers => containers.elems.sum
  priority := fun _ => 0
  pruneOptimalSubgraphs := pruneOptimalSubgraphs

theorem yieldsNothing_of_run {t : HotTraversal} (fuel : Nat)
    (h : (t.feedQueue fuel ⟨t.objectives.map t.preOrderBegin, .new⟩).map (·.queue.empty) =
      some true) : t.YieldsNothing := by
  obtain ⟨it, hr, he⟩ := Option.map_eq_some_iff.mp h
  exact ⟨fuel, it, hr, he⟩

/-- The sum is at its lower bound, which is where its square is greatest. -/
theorem squared_gap_missed :
    (gapTraversal 3 false).YieldsNothing ∧ (gapTraversal 3 true).YieldsNothing ∧
      (gapTraversal 3 false).KeepsFixed (fun _ => 0) ∧
      (gapTraversal 3 true).KeepsFixed (fun _ => 0) ∧
      (gapTraversal 3 false).dag.value (fun _ => 0) 3 < (gapTraversal 3 false).value 3 ∧
      (gapTraversal 3 true).dag.value (fun _ => 0) 3 < (gapTraversal 3 true).value 3 := by
  have hkeeps : ∀ p, (gapTraversal 3 p).KeepsFixed (fun _ => 0) := by
    intro p c hc
    cases hc
  refine ⟨yieldsNothing_of_run 10 ?_, yieldsNothing_of_run 10 ?_, hkeeps _, hkeeps _, ?_, ?_⟩
  · decide +kernel
  · decide +kernel
  · decide +kernel
  · decide +kernel

theorem expands_gap_sum (h : (gapTraversal 2 false).Expands 2 n) : n = 2 := by
  have hl : ∀ c n, gapDag.graph.children c = [] → gapDag.graph.Below c n → n = c := by
    intro c n hc hb
    rcases hb.eq_or_strictly with rfl | ⟨d, hd, _⟩
    · rfl
    · rw [hc] at hd
      cases hd
  obtain ⟨hb, he⟩ := h
  rcases hb.eq_or_strictly with rfl | ⟨c, hc, hb⟩
  · rfl
  · rcases mem_cons.mp hc with rfl | hc
    · cases hl 0 n rfl hb
      revert he
      decide +kernel
    · cases mem_singleton.mp hc
      cases hl 1 n rfl hb
      revert he
      decide +kernel

theorem gap_sum_guided : (gapTraversal 2 false).Guided 2 where
  bounds_contain a' _ n _ := gapDag.bounds_contain a' n _ (gapDag_value a' n)
  root_exact _ := by decide +kernel
  child_exact n hn c hc _ := by
    cases expands_gap_sum hn
    rcases mem_cons.mp hc with rfl | hc
    · decide +kernel
    · cases mem_singleton.mp hc
      decide +kernel
  monotone n hn a' hkeeps _ := by
    cases expands_gap_sum hn
    have hl : (gapDag.lowerAndUpperBounds 2).lowerBound = -2 := by decide +kernel
    have hb := (gapDag.bounds_contain a' 2 _ (gapDag_value a' 2)).1
    rw [hl] at hb
    exact hb
  aligned m n hm hn c _ _ := by
    rw [expands_gap_sum hm, expands_gap_sum hn]
  descending n hn c hc hneg _ := by
    cases expands_gap_sum hn
    cases hneg

theorem gap_sum_minimal : (gapTraversal 2 false).YieldsNothing ∧
    (gapTraversal 2 false).value 2 ≤ (gapTraversal 2 false).dag.value (fun _ => 0) 2 := by
  have hr : (gapTraversal 2 false).YieldsNothing := by
    apply yieldsNothing_of_run 10
    decide +kernel
  have hkeeps : (gapTraversal 2 false).KeepsFixed (fun _ => 0) := by
    intro c hc
    cases hc
  exact ⟨hr, hr.minimal mem_cons_self gap_sum_guided hkeeps⟩

end Rebalancer
