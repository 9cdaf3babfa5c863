import Rebalancer.ExpressionDag

namespace Rebalancer
open List ExprNode ExpressionDag EquivalenceSets Orchestrator

section
variable {u : Universe partitions}

def ExprNode.Symmetric (σ : Equiv.Perm ObjectId) : ExprNode u → Prop
  | objectPartitionLookup l => l.Symmetric σ
  | objectLookup l => (∀ o, σ o < u.numObjects ↔ o < u.numObjects) ∧
      ∀ o, l.objectVector.getObjectValue (σ o) = l.objectVector.getObjectValue o
  | _ => True

theorem ExprNode.Symmetric.innerFullApply {node : ExprNode u} (h : node.Symmetric σ)
    (a : Assignment) (children : List (ExprId × Except String ℚ)) :
    node.innerFullApply (a ∘ σ) children = node.innerFullApply a children := by
  cases node with
  | objectPartition p => rfl
  | objectPartitionLookup l => exact ObjectPartitionLookup.Symmetric.computeFromAssignment h a
  | objectVector v => rfl
  | objectLookup l =>
    simp only [ExprNode.innerFullApply]
    rw [l.applyAssignment_symm h.1 h.2 a]
  | linearSum constant c => rfl
  | max => rfl

theorem ExpressionDag.value_symm (dag : ExpressionDag u) {S : ExprId → Prop}
    (hcl : ∀ n, S n → ∀ c ∈ dag.graph.children n, S c)
    (hs : ∀ n, S n → (dag.node n).Symmetric σ) (a : Assignment) :
    ∀ d n, dag.graph.depth n < d → S n → dag.value (a ∘ σ) n = dag.value a n := by
  intro d
  induction d with
  | zero =>
    intro n hd
    exact absurd hd (Nat.not_lt_zero _)
  | succ d ih =>
    intro n hd hn
    rw [value, value, fromScratch_eq, fromScratch_eq]
    have hchildren : (dag.graph.children n).map (fromScratch dag.graph dag.innerFullApply (a ∘ σ)) =
        (dag.graph.children n).map (fromScratch dag.graph dag.innerFullApply a) := by
      apply map_congr_left
      intro c hc
      have hdepth := dag.graph.depth_lt n c hc
      exact ih c (by omega) (hcl n hn c hc)
    rw [hchildren]
    exact (hs n hn).innerFullApply a _

theorem apply_swap {f : ObjectId → γ} (h : f x = f y) (o : ObjectId) :
    f (Equiv.swap x y o) = f o := by
  rw [Equiv.swap_apply_def]
  split
  · rename_i ho
    rw [ho, h]
  · split
    · rename_i ho
      rw [ho, h]
    · rfl

def ExprNode.inputs (node : ExprNode u) : List (List ObjectId) :=
  node.calls.flatMap MergeCall.inputs

theorem ExprNode.mem_inputs_objectPartition {p : ObjectPartition u} :
    s ∈ (ExprNode.objectPartition p).inputs ↔ (∃ g ∈ p.partitionInfo.relevantGroups partitions,
        s = (getPartition partitions p.partitionInfo.partitionId).getObjectIds g) ∨
      (if (u.dimension p.dimensionId).isDynamic then
        ∃ item ∈ (p.scopeItemIds.map IdSet.elems).getD [], s ∈ scopeItemInputs u p.dimensionId item
      else s ∈ dimensionInputs u p.dimensionId) := by
  rw [inputs, calls, flatMap_append, mem_append]
  refine or_congr ?_ ?_
  · simp only [mem_flatMap, mem_map]
    constructor
    · rintro ⟨c, ⟨g, hg, rfl⟩, hs⟩
      exact ⟨g, hg, mem_singleton.mp hs⟩
    · rintro ⟨g, hg, rfl⟩
      exact ⟨_, ⟨g, hg, rfl⟩, mem_singleton.mpr rfl⟩
  · split
    · simp only [mem_flatMap, mem_map]
      constructor
      · rintro ⟨c, ⟨item, hi, rfl⟩, hs⟩
        exact ⟨item, hi, hs⟩
      · rintro ⟨item, hi, hs⟩
        exact ⟨_, ⟨item, hi, rfl⟩, hs⟩
    · simp only [flatMap_cons, flatMap_nil, append_nil]
      rfl

section
variable (p : ObjectPartition u)

theorem ObjectPartition.count_getObjectGroups (o : ObjectId) (g : GroupId) :
    (p.getObjectGroups o).count g = if p.partitionInfo.isRelevant g then
      ((getPartition partitions p.partitionInfo.partitionId).getObjectIds g).count o else 0 := by
  rw [getObjectGroups, PartitionInfo.objectIdToGroupIds]
  split_ifs with h
  · rw [count_filter h, Partition.count_objectIdToGroupIds]
  · apply count_eq_zero_of_not_mem
    intro hm
    exact h (mem_filter.mp hm).2

theorem PartitionInfo.mem_relevantGroups {info : PartitionInfo} (h : info.isRelevant g = true)
    (ho : o ∈ (getPartition partitions info.partitionId).getObjectIds g) :
    g ∈ info.relevantGroups partitions := by
  rw [relevantGroups]
  rw [isRelevant] at h
  cases hf : info.filteredGroupIds with
  | none => exact mem_map.mpr ⟨_, Partition.mem_of_mem_getObjectIds ho, rfl⟩
  | some f =>
    rw [hf] at h
    exact of_decide_eq_true h

variable (h : Together (ExprNode.objectPartition p).inputs x y)
include h

theorem ObjectPartition.count_of_together
    (hn : ∀ g, ((getPartition partitions p.partitionInfo.partitionId).getObjectIds g).Nodup)
    (g : GroupId) : (p.getObjectGroups x).count g = (p.getObjectGroups y).count g := by
  rw [p.count_getObjectGroups x g, p.count_getObjectGroups y g]
  split_ifs with hr
  · have hmem : ∀ o ∈ (getPartition partitions p.partitionInfo.partitionId).getObjectIds g,
        (x ∈ (getPartition partitions p.partitionInfo.partitionId).getObjectIds g ↔
          y ∈ (getPartition partitions p.partitionInfo.partitionId).getObjectIds g) := by
      intro o ho
      apply h
      exact mem_inputs_objectPartition.mpr (.inl ⟨g, PartitionInfo.mem_relevantGroups hr ho, rfl⟩)
    rw [(hn g).count, (hn g).count]
    by_cases hx : x ∈ (getPartition partitions p.partitionInfo.partitionId).getObjectIds g
    · simp [hx, (hmem x hx).mp hx]
    · have hy : y ∉ (getPartition partitions p.partitionInfo.partitionId).getObjectIds g :=
        fun hy => hx ((hmem y hy).mpr hy)
      simp [hx, hy]
  · rfl

theorem ObjectPartition.getValue_of_together (hs : p.acceptable s = true) :
    (u.dimension p.dimensionId).getValue x s = (u.dimension p.dimensionId).getValue y s := by
  have hdyn := p.checked_spec.1
  cases hd : (u.dimension p.dimensionId).isDynamic with
  | false =>
    apply getValue_of_together_static hd
    refine h.mono ?_
    intro s hs
    refine mem_inputs_objectPartition.mpr (.inr ?_)
    rw [hd]
    exact hs
  | true =>
    cases s with
    | none =>
      cases hdim : u.dimension p.dimensionId with
      | static scalars =>
        rw [hdim] at hd
        cases hd
      | dynamic i values v => rfl
    | some item =>
      apply getValue_of_together_dynamic hd
      refine h.mono ?_
      intro s hsi
      refine mem_inputs_objectPartition.mpr (.inr ?_)
      rw [hd] at hdyn ⊢
      obtain ⟨ids, hi⟩ := Option.isSome_iff_exists.mp hdyn.symm
      rw [acceptable, hi] at hs
      rw [hi]
      exact ⟨item, of_decide_eq_true hs, hsi⟩

end

theorem swap_lt_iff (hx : x < n) (hy : y < n) (o : ObjectId) : Equiv.swap x y o < n ↔ o < n := by
  have h := apply_swap (f := fun o => o < n) (by simp only [hx, hy] : (x < n) = (y < n)) o
  exact iff_of_eq h

theorem ObjectPartitionLookup.symmetric_swap (l : ObjectPartitionLookup u) (hx : x < u.numObjects)
    (hy : y < u.numObjects) (hl : Together (ExprNode.objectPartitionLookup l).inputs x y)
    (hp : Together (ExprNode.objectPartition l.objectPartition).inputs x y)
    (hn : ∀ g, ((getPartition partitions
      l.objectPartition.partitionInfo.partitionId).getObjectIds g).Nodup) :
    l.Symmetric (Equiv.swap x y) where
  inRange := swap_lt_iff hx hy
  during o := by
    have hmem : ∀ x y, Together (objectPartitionLookup l).inputs x y →
        x ∈ l.initialDuringObjects → y ∈ l.initialDuringObjects := by
      intro x y h hx
      have hentry := entries_of_together (h.mono fun s hs => by
        rw [inputs, calls, flatMap_singleton]
        exact hs) (1 : Int) (mem_map.mpr ⟨x, hx, rfl⟩)
      obtain ⟨o, ho, he⟩ := mem_map.mp hentry
      cases he
      exact ho
    exact iff_of_eq (apply_swap (f := fun o => o ∈ l.initialDuringObjects)
      (propext ⟨hmem x y hl, hmem y x hl.symm⟩) o)
  groups o g := apply_swap (f := fun o => (l.objectPartition.getObjectGroups o).count g)
    (l.objectPartition.count_of_together hp hn g) o
  values o s hs := apply_swap
    (f := fun o => (u.dimension l.objectPartition.dimensionId).getValue o s)
    (l.objectPartition.getValue_of_together hp hs) o

theorem ExpressionDag.value_exchange (dag : ExpressionDag u) {S : ExprId → Prop}
    (hcl : ∀ n, S n → ∀ c ∈ dag.graph.children n, S c)
    (hno : ∀ p g, ((getPartition partitions p).getObjectIds g).Nodup) (hx : x < u.numObjects)
    (hy : y < u.numObjects) (h : ∀ n, S n → Together (dag.node n).inputs x y) (a : Assignment)
    (hn : S n) : dag.value (a.exchange x y) n = dag.value a n := by
  refine dag.value_symm hcl ?_ a (dag.graph.depth n + 1) n (Nat.lt_succ_self _) hn
  intro n hn
  have ht := h n hn
  cases hnode : dag.node n with
  | objectPartition p => trivial
  | objectPartitionLookup l =>
    obtain ⟨c, hc, hp⟩ := dag.partitionChild n l hnode
    have hchild := h c (hcl n hn c hc)
    rw [hp] at hchild
    rw [hnode] at ht
    exact l.symmetric_swap hx hy ht hchild (hno _)
  | objectVector v => trivial
  | objectLookup l =>
    rw [hnode, inputs, calls, flatMap_singleton] at ht
    exact ⟨swap_lt_iff hx hy, fun o => apply_swap (l.objectVector.getObjectValue_of_together ht) o⟩
  | linearSum constant coefficient => trivial
  | max => trivial

theorem ExprNode.calls_distinct (node : ExprNode u)
    (hn : ∀ p g, ((getPartition partitions p).getObjectIds g).Nodup) :
    ∀ call ∈ node.calls, call.Distinct := by
  intro call hc
  cases node with
  | objectPartition p =>
    rw [calls, mem_append] at hc
    rcases hc with hc | hc
    · obtain ⟨g, -, rfl⟩ := mem_map.mp hc
      intro s hs
      rw [mem_singleton.mp hs]
      exact ⟨hn _ g, fun o ho => u.lt_of_mem ho⟩
    · split at hc
      · obtain ⟨item, -, rfl⟩ := mem_map.mp hc
        exact scopeItemInputs_distinct p.dimensionId item
      · rw [mem_singleton.mp hc]
        exact dimensionInputs_distinct p.dimensionId
  | objectPartitionLookup l =>
    rw [mem_singleton.mp hc]
    have hk : (l.initialDuringObjects.elems.map fun o => (o, (1 : Int))).map Prod.fst =
        l.initialDuringObjects.elems := by
      rw [map_map]
      exact map_id _
    refine eqSetsOf_distinct ?_ ?_
    · rw [hk]
      exact l.initialDuringObjects.nodup
    · rw [hk]
      exact l.duringInRange
  | objectVector v => cases hc
  | objectLookup l =>
    rw [mem_singleton.mp hc]
    exact l.objectVector.inputs_distinct
  | linearSum constant c => cases hc
  | max => cases hc

end

theorem updateLoop_spec (u : ν → EquivalenceSets → EquivalenceSets) (n : Nat)
    (o : List ν) : ∀ eq, ∃ done rest, o = done ++ rest ∧
      updateLoop u n o eq = done.foldl (fun eq node => u node eq) eq ∧
      (rest = [] ∨ (updateLoop u n o eq).size = n) := by
  induction o with
  | nil =>
    intro eq
    exact ⟨[], [], rfl, rfl, .inl rfl⟩
  | cons node o ih =>
    intro eq
    rw [updateLoop]
    split_ifs with hsize
    · exact ⟨[], node :: o, rfl, rfl, .inr hsize⟩
    · obtain ⟨done, rest, hp, hl, hend⟩ := ih (u node eq)
      exact ⟨node :: done, rest, by rw [hp, cons_append], hl, hend⟩

theorem EquivalenceSets.Inv.eq_of_table {eq : EquivalenceSets} (h : eq.Inv n) (hsi : eq.size = n)
    (hx : x < n) (hy : y < n) (hxy : eq.objectIdToSetId x = eq.objectIdToSetId y) : x = y := by
  have hm : ∀ i : Fin n, ∃ o : Fin n, eq.objectIdToSetId o = some i.val := by
    intro i
    have hi : i.val < eq.sets.length := by
      rw [← size, hsi]
      exact i.isLt
    obtain ⟨o, ho⟩ := h.nonempty _ (mem_sets_iff.mpr ⟨i.val, hi, rfl⟩)
    rw [h.mem_iff] at ho
    have hlt : o < n := h.inRange o (by rw [ho]; exact Option.some_ne_none _)
    exact ⟨⟨o, hlt⟩, ho⟩
  choose member hm using hm
  have hinj : Function.Injective member := by
    intro i j hij
    have hi := hm i
    rw [hij, hm j, Option.some.injEq] at hi
    exact Fin.ext hi.symm
  have hs := Finite.surjective_of_injective hinj
  obtain ⟨i, hi⟩ := hs ⟨x, hx⟩
  obtain ⟨j, hj⟩ := hs ⟨y, hy⟩
  have htx := hm i
  have hty := hm j
  rw [hi] at htx
  rw [hj] at hty
  have hij : i = j := by
    rw [hxy, hty, Option.some.injEq] at htx
    exact Fin.ext htx.symm
  have hxyFin : (⟨x, hx⟩ : Fin n) = ⟨y, hy⟩ := by
    rw [← hi, ← hj, hij]
  exact congrArg Fin.val hxyFin

section
variable {u : Universe partitions}

section
variable (dag : ExpressionDag u)

def ExpressionDag.exprInputs (id : ExprId) : List (List ObjectId) :=
  match dag.node id with
  | .objectVector values => values.inputs
  | _ => []

theorem ExpressionDag.exprInputs_of_call {id : ExprId} (hc : call ∈ (dag.node n).calls)
    (hid : call.exprId? = some id) : dag.exprInputs id = call.inputs := by
  cases hn : dag.node n with
  | objectPartition p =>
    rw [hn, calls, mem_append] at hc
    rcases hc with hc | hc
    · obtain ⟨g, -, rfl⟩ := mem_map.mp hc
      cases hid
    · split at hc
      · obtain ⟨item, -, rfl⟩ := mem_map.mp hc
        cases hid
      · rw [mem_singleton.mp hc] at hid
        cases hid
  | objectPartitionLookup l =>
    rw [hn] at hc
    rw [mem_singleton.mp hc] at hid
    cases hid
  | objectVector v =>
    rw [hn] at hc
    cases hc
  | objectLookup l =>
    rw [hn] at hc
    rw [mem_singleton.mp hc] at hid ⊢
    cases hid
    rw [exprInputs, (dag.vectorChild n l hn).2]
    rfl
  | linearSum constant c =>
    rw [hn] at hc
    cases hc
  | max =>
    rw [hn] at hc
    cases hc

variable (nodes : List ExprId)

def ExpressionDag.callsOf : List (MergeCall u) := nodes.flatMap fun n => (dag.node n).calls

theorem ExpressionDag.foldl_update :
    ∀ eq, nodes.foldl (fun eq n => (dag.node n).updateEquivalenceSets eq) eq =
      (dag.callsOf nodes).foldl MergeCall.run eq := by
  induction nodes with
  | nil =>
    intro eq
    rfl
  | cons n nodes ih =>
    intro eq
    rw [foldl_cons, ih, updateEquivalenceSets_eq, callsOf, callsOf, flatMap_cons, foldl_append]

theorem ExpressionDag.together_of_combined
    (h : Together ((dag.callsOf nodes).foldl MergeCall.run .new).combined x y) (hn : n ∈ nodes) :
    Together (dag.node n).inputs x y := by
  have hr := calls_called dag.exprInputs (dag.callsOf nodes) .new .new (by
    intro call hc id hid s hs
    obtain ⟨m, -, hc⟩ := mem_flatMap.mp hc
    rwa [dag.exprInputs_of_call hc hid] at hs)
  refine h.mono ?_
  intro s hs
  obtain ⟨call, hc, hs⟩ := mem_flatMap.mp hs
  refine hr.covers ?_ s (mem_flatMap.mpr ⟨call, mem_flatMap.mpr ⟨n, hn, hc⟩, hs⟩)
  intro call hc id hid s hs
  obtain ⟨m, -, hc⟩ := mem_flatMap.mp hc
  rwa [dag.exprInputs_of_call hc hid]

end

/-- Every object is in one class, and objects of one class can be exchanged without changing a root.
-/
structure ExpressionDag.Sound (dag : ExpressionDag u) (roots : List ExprId)
    (eq : EquivalenceSets) : Prop where
  one_class : ∀ x, x < u.numObjects → ∃! i, x ∈ eq.getSet i
  exchange : ∀ x y i, x ∈ eq.getSet i → y ∈ eq.getSet i → ∀ a, ∀ root ∈ roots,
    dag.value (a.exchange x y) root = dag.value a root

theorem ExpressionDag.sound_of_nodup (dag : ExpressionDag u) {rs : List ExprId}
    (hin : init dag.graph rs data cs = .ok o)
    (hno : ∀ p g, ((getPartition partitions p).getObjectIds g).Nodup) :
    dag.Sound rs (dag.equivalenceSets o) := by
  obtain ⟨done, rest, hpost, hl, hend⟩ := updateLoop_spec
    (fun n eq => (dag.node n).updateEquivalenceSets eq) u.numObjects o.postOrder .new
  rw [equivalenceSets, Orchestrator.updateEquivalenceSets]
  rw [dag.foldl_update] at hl
  rw [hl] at hend ⊢
  have hinv : ((dag.callsOf done).foldl MergeCall.run .new).Inv u.numObjects := by
    apply (foldl_run_spec _).2
    intro call hc
    obtain ⟨n, -, hc⟩ := mem_flatMap.mp hc
    exact (dag.node n).calls_distinct hno call hc
  obtain ⟨hp, hclass⟩ := hinv.finalize
  refine ⟨?_, ?_⟩
  · intro x hx
    obtain ⟨i, hi⟩ := hp.assigned x hx
    refine ⟨i, (hp.mem_iff i x).mpr hi, ?_⟩
    intro j hj
    rw [hp.mem_iff, hi] at hj
    exact (Except.ok.inj hj).symm
  · intro x y i hx hy a root hr
    rw [hp.mem_iff] at hx hy
    have hlt : ∀ x, ((foldl MergeCall.run .new (dag.callsOf done)).finalize
        u.numObjects).setAt x = .ok i → x < u.numObjects := by
      intro x hx
      have hset := (hp.mem_iff i x).mpr hx
      refine hp.inRange _ (mem_sets_iff.mpr ⟨i, ?_, rfl⟩) x hset
      by_contra hlen
      rw [getSet, getD_eq_default _ _ (Nat.le_of_not_lt hlen)] at hset
      exact Finset.notMem_empty x hset
    have ht := (hclass x y (hlt x hx) (hlt y hy)).mp (hx.trans hy.symm)
    rcases hend with hrest | hsize
    · rw [hrest, append_nil] at hpost
      have hs := init_sound hin
      refine dag.value_exchange (S := fun n => n ∈ o.postOrder)
        (fun n hn c hc => (hs.child n hn c hc).1) hno (hlt x hx) (hlt y hy) ?_ a ?_
      · intro n hn
        rw [hpost] at hn
        exact dag.together_of_combined done ht hn
      · exact (mem_postOrder_iff hin).mpr ⟨root, hr, .refl⟩
    · have hxy := hinv.eq_of_table hsize (hlt x hx) (hlt y hy) ((hinv.together x y).mpr ht)
      subst hxy
      rw [Assignment.exchange, Equiv.swap_self]
      rfl

end

end Rebalancer
