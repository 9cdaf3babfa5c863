import Rebalancer.ContainerTraversal

namespace Rebalancer
open List IncrementalPriorityQueue

namespace IncrementalPriorityQueue
variable {T : Type} [LinearOrder T]
variable {q : IncrementalPriorityQueue T}

theorem empty_eq_false_iff : q.empty = false ↔ ∃ x, x ∈ q.map.map := by
  rw [empty, decide_eq_false_iff_not, size, ValueSortedMap.size, AssocMap.size, length_eq_zero_iff]
  exact ⟨exists_mem_of_ne_nil _, fun ⟨_, hx⟩ => ne_nil_of_mem hx⟩

section
variable (q : IncrementalPriorityQueue T)

theorem mem_updateItem (x : T) (h : y ∈ q.map.map) : y ∈ (q.updateItem i x).map.map := by
  rw [updateItem]
  split
  · exact h
  · split
    · exact (AList.mem_insert _).mpr (.inr h)
    · exact (AList.mem_insert _).mpr (.inr h)

theorem updateItem_removed (x : T) : (q.updateItem i x).removed = q.removed := by
  rw [updateItem]
  split
  · rfl
  · split
    · rfl
    · rfl

theorem mem_updateItem_self (h : x ∉ q.removed) : x ∈ (q.updateItem i x).map.map := by
  rw [updateItem, if_neg h]
  split
  · exact (AList.mem_insert _).mpr (.inl rfl)
  · exact (AList.mem_insert _).mpr (.inl rfl)

end

theorem foldl_updateItem (is : List T) : ∀ q : IncrementalPriorityQueue T,
    (is.foldl (updateItem i) q).removed = q.removed ∧
    ∀ y, (y ∈ q.map.map ∨ y ∈ is ∧ y ∉ q.removed) → y ∈ (is.foldl (updateItem i) q).map.map := by
  induction is with
  | nil =>
    intro q
    exact ⟨rfl, fun y hy => hy.elim id fun h => (nomatch h.1)⟩
  | cons x is ih =>
    intro q
    obtain ⟨hr, hmem⟩ := ih (q.updateItem i x)
    rw [updateItem_removed] at hr hmem
    refine ⟨hr, ?_⟩
    intro y hy
    apply hmem
    rcases hy with hy | ⟨hy, hn⟩
    · exact .inl (q.mem_updateItem x hy)
    · rcases mem_cons.mp hy with rfl | hy
      · exact .inl (q.mem_updateItem_self hn)
      · exact .inr ⟨hy, hn⟩

theorem update_nonempty (q : IncrementalPriorityQueue T) (is : List T) (h : q.empty = false) :
    (q.update is).empty = false := by
  obtain ⟨x, hx⟩ := empty_eq_false_iff.mp h
  exact empty_eq_false_iff.mpr ⟨x, (foldl_updateItem is _).2 x (.inl hx)⟩

theorem eq_nil_of_update_empty (hr : q.removed = ∅) (h : (q.update is).empty = true) : is = [] := by
  cases is with
  | nil => rfl
  | cons x is =>
    have hn : x ∉ q.removed := by
      rw [hr]
      exact Finset.notMem_empty x
    have hx : x ∈ (q.update (x :: is)).map.map :=
      (foldl_updateItem (x :: is) _).2 x (.inr ⟨mem_cons_self, hn⟩)
    have hne := empty_eq_false_iff.mpr ⟨x, hx⟩
    rw [hne] at h
    cases h

end IncrementalPriorityQueue

namespace HotTraversal
variable {t : HotTraversal}

theorem fixed_localRule (t : HotTraversal) :
    LocalRule t.dag.graph.children t.dag.graph.depth t.fixedRule where
  depth_lt := t.dag.graph.depth_lt
  congr f g n h := by
    have ha : (t.dag.graph.children n).all f = (t.dag.graph.children n).all g := by
      apply Bool.eq_iff_iff.mpr
      rw [all_eq_true, all_eq_true]
      apply forall₂_congr
      intro c hc
      rw [h c hc]
    rw [fixedRule, fixedRule, ha]

theorem isFixed_eq (t : HotTraversal) (n : ExprId) : t.isFixed n = t.fixedRule t.isFixed n :=
  t.fixed_localRule.solve_eq _ n

theorem uniqueLoop_congr (h : ∀ c ∈ children, f c = g c) :
    ∀ candidate, t.uniqueLoop f children candidate = t.uniqueLoop g children candidate := by
  induction children with
  | nil =>
    intro candidate
    rfl
  | cons c children ih =>
    intro candidate
    have ih := ih fun c' hc' => h c' (mem_cons_of_mem _ hc')
    simp [uniqueLoop, h c mem_cons_self, ih]

theorem unique_localRule (t : HotTraversal) :
    LocalRule t.dag.graph.children t.dag.graph.depth t.uniqueRule where
  depth_lt := t.dag.graph.depth_lt
  congr f g n h := by
    rw [uniqueRule, uniqueRule]
    split
    · rfl
    · exact uniqueLoop_congr h none

theorem uniqueAffected_eq (t : HotTraversal) (n : ExprId) :
    t.uniqueAffected n = t.uniqueRule t.uniqueAffected n :=
  t.unique_localRule.solve_eq _ n

theorem value_of_isFixed (n : ExprId) : t.isFixed n = true →
    t.assignment.SameObjectsOn t.fixedContainers a' → t.value n = t.dag.value a' n := by
  induction n using t.fixed_localRule.induction with
  | _ n ih
  intro hf hs
  rw [isFixed_eq, fixedRule, Bool.and_eq_true, all_eq_true] at hf
  apply t.dag.value_congr
  · intro c hc
    exact ih c hc (hf.1 c hc) hs
  · intro containers hdirect c hc
    have ha := hf.2
    rw [hdirect] at ha
    exact hs c (of_decide_eq_true (all_eq_true.mp ha c hc))

theorem isFixed_of_no_containers (n : ExprId) : (∀ m containers, t.dag.graph.Below n m →
      t.dag.graph.directlyAffectedContainers m = some containers → containers.elems = []) →
    t.isFixed n = true := by
  induction n using t.fixed_localRule.induction with
  | _ n ih
  intro he
  rw [isFixed_eq, fixedRule, Bool.and_eq_true, all_eq_true]
  refine ⟨?_, ?_⟩
  · intro c hc
    apply ih c hc
    intro m containers hm
    exact he m containers (.head hc hm)
  · split
    · rename_i containers hdirect
      rw [he n containers .refl hdirect]
      rfl
    · rfl

theorem candidateSet_zero (h : (t.candidateSet (some s) d).1 = 0) : s.elems = [] := by
  have hsize : ¬ 0 < s.size := by
    intro hp
    have hf : (some s).filter (0 < ·.size) = some s := by
      rw [Option.filter_some, decide_eq_true hp, if_pos rfl]
    rw [candidateSet, hf] at h
    split at h
    · rename_i hnone _
      cases hnone
    · cases h
    · cases h
    · split at h
      · cases h
      · cases h
  exact length_eq_zero_iff.mp (Nat.eq_zero_of_not_pos hsize)

theorem candidateSet_nonempty (h : (t.candidateSet u d).2 = some s) : s.elems ≠ [] := by
  have hp : ∀ set : Option IdSet, set.filter (0 < ·.size) = some s → s.elems ≠ [] := by
    intro set hs hn
    have hsize := (Option.filter_eq_some_iff.mp hs).2
    rw [decide_eq_true_eq, IdSet.size, hn] at hsize
    exact Nat.lt_irrefl 0 hsize
  rw [candidateSet] at h
  split at h
  · cases h
  · rename_i hu _
    cases h
    exact hp _ hu
  · rename_i hd
    cases h
    exact hp _ hd
  · rename_i hu hd
    split at h
    · cases h
      exact hp _ hd
    · cases h

theorem uniqueLoop_empty :
    ∀ {candidate : Option IdSet}, (∀ known, candidate = some known → known.elems ≠ []) →
      t.uniqueLoop u children candidate = some a → a.elems = [] →
      candidate = none ∧ ∀ c ∈ children, ∃ s, u c = some s ∧ s.elems = [] := by
  induction children with
  | nil =>
    intro candidate hknown h he
    cases candidate with
    | none => exact ⟨rfl, nofun⟩
    | some known =>
      cases h
      exact absurd he (hknown known rfl)
  | cons c children ih =>
    intro candidate hknown h he
    rw [uniqueLoop] at h
    split at h
    · cases h
    · rename_i s hs
      split at h
      · rename_i hzero
        obtain ⟨hnone, ha⟩ := ih hknown h he
        refine ⟨hnone, ?_⟩
        intro c' hc'
        rcases mem_cons.mp hc' with rfl | hc'
        · exact ⟨s, hs, candidateSet_zero (congrArg Prod.fst hzero)⟩
        · exact ha c' hc'
      · cases h
      · rename_i f _ hf
        have hf := candidateSet_nonempty (congrArg Prod.snd hf)
        split at h
        · have hsome : ∀ known, some f = some known → known.elems ≠ [] := by
            intro known hk
            rw [← Option.some.inj hk]
            exact hf
          exact absurd (ih hsome h he).1 (Option.some_ne_none _)
        · split at h
          · exact absurd (ih hknown h he).1 (Option.some_ne_none _)
          · cases h

theorem isFixed_of_unique_empty (n : ExprId) : ∀ set, t.uniqueAffected n = some set →
    set.elems = [] → t.isFixed n = true := by
  apply t.unique_localRule.induction (p := fun n => ∀ set, t.uniqueAffected n = some set →
    set.elems = [] → t.isFixed n = true)
  intro n ih set hset he
  rw [uniqueAffected_eq, uniqueRule] at hset
  split at hset
  · rename_i containers hdirect
    cases hset
    apply isFixed_of_no_containers
    intro m covered hm hcovered
    apply eq_nil_iff_forall_not_mem.mpr
    intro c hc
    have hmem := t.dag.direct_covers n set hdirect m covered hm hcovered c hc
    change c ∈ set.elems at hmem
    rw [he] at hmem
    cases hmem
  · rename_i hdirect
    have hnone : ∀ k, (none : Option IdSet) = some k → k.elems ≠ [] := nofun
    obtain ⟨-, ha⟩ := uniqueLoop_empty hnone hset he
    rw [isFixed_eq, fixedRule, Bool.and_eq_true, all_eq_true, hdirect]
    refine ⟨?_, rfl⟩
    intro c hc
    obtain ⟨s, hs, hs'⟩ := ha c hc
    exact ih c hc s hs hs'

theorem shouldExpand_of_quiet (hf : t.isFixed n = false)
    (h : ∀ containers, t.containersOf n = some containers → containers = []) :
    t.shouldExpand n = true := by
  rw [shouldExpand, hf]
  cases hu : t.uniqueAffected n with
  | none => rfl
  | some u =>
    refine absurd (isFixed_of_unique_empty n u hu ?_) (by rw [hf]; decide)
    cases hdirect : t.dag.graph.directlyAffectedContainers n with
    | none => exact h _ (by simp only [containersOf, hu, hdirect])
    | some d =>
      have hunion := h _ (by simp only [containersOf, hu, hdirect]; rfl)
      apply eq_nil_iff_forall_not_mem.mpr
      intro c hc
      have hmem : c ∈ u.elems ∪ d.elems := mem_union_iff.mpr (.inl hc)
      rw [hunion] at hmem
      cases hmem

def childPotential (t : HotTraversal) (n c : ExprId) : ℚ :=
  t.getPotential c (t.dag.getChildCoefficient n c)

def Quiet (t : HotTraversal) (n : ExprId) (p : ℚ) : Prop :=
  t.isFixed n = true ∨ t.precision.compare p 0 = .eq ∨
    ∀ containers, t.containersOf n = some containers → containers = []

/-- What an iterator over the expressions below a root has left behind, while the children of the
last expression are being pushed. -/
structure Visited (t : HotTraversal) (root : ExprId) (it : PreOrder)
    (done : List (ExprId × ℚ)) : Prop where
  seen : ∀ n ∈ it.seen, ∃ p, (n, p) ∈ it.stack ∨ (n, p) ∈ done
  origin : ∀ n p, (n, p) ∈ it.stack ∨ (n, p) ∈ done →
    (n = root ∧ p = t.rootPotential root) ∨
      ∃ m q, (m, q) ∈ done ∧ t.shouldExpand m = true ∧ n ∈ t.dag.graph.children m ∧
        p = t.childPotential m n
  below : ∀ n p, (n, p) ∈ it.stack ∨ (n, p) ∈ done → t.dag.graph.Below root n
  quiet : ∀ n p, (n, p) ∈ done → t.Quiet n p
  started : root ∈ it.seen ∨ t.exprAlreadyOptimal (root, t.rootPotential root) = true

structure Explored (t : HotTraversal) (root : ExprId) (it : PreOrder)
    (done : List (ExprId × ℚ)) : Prop extends Visited t root it done where
  closed : ∀ n p, (n, p) ∈ done → t.shouldExpand n = true → ∀ c ∈ t.dag.graph.children n,
    c ∈ it.seen ∨ t.exprAlreadyOptimal (c, t.childPotential n c) = true

theorem mem_push_seen (it : PreOrder) (h : n ∈ it.seen) :
    n ∈ (t.uniquePushToStack it pair).seen := by
  rw [uniquePushToStack]
  split
  · exact mem_cons_of_mem _ h
  · exact h

theorem push_seen (it : PreOrder) (pair : ExprId × ℚ) :
    pair.1 ∈ (t.uniquePushToStack it pair).seen ∨ t.exprAlreadyOptimal pair = true := by
  rw [uniquePushToStack]
  split_ifs with hn
  · exact .inl mem_cons_self
  · by_cases hs : pair.1 ∈ it.seen
    · exact .inl hs
    · refine .inr ?_
      by_contra ho
      exact hn ⟨.inr (Bool.eq_false_iff.mpr ho), hs⟩

theorem explored_begin (t : HotTraversal) (root : ExprId) :
    Explored t root (t.preOrderBegin root) [] := by
  have hs := push_seen (t := t) ⟨[], []⟩ (root, t.rootPotential root)
  have hc : t.uniquePushToStack ⟨[], []⟩ (root, t.rootPotential root) =
      ⟨[(root, t.rootPotential root)], [root]⟩ ∨
      t.uniquePushToStack ⟨[], []⟩ (root, t.rootPotential root) = ⟨[], []⟩ := by
    rw [uniquePushToStack]
    split
    · exact .inl rfl
    · exact .inr rfl
  rw [preOrderBegin]
  rcases hc with hp | hp
  · rw [hp] at hs ⊢
    have ho : ∀ n p, (n, p) ∈ [(root, t.rootPotential root)] ∨ (n, p) ∈ ([] : List (ExprId × ℚ)) →
        n = root ∧ p = t.rootPotential root := by
      intro n p hn
      rcases hn with hn | hn
      · cases mem_singleton.mp hn
        exact ⟨rfl, rfl⟩
      · cases hn
    refine ⟨⟨?_, fun n p hn => .inl (ho n p hn), ?_, nofun, hs⟩, nofun⟩
    · intro n hn
      cases mem_singleton.mp hn
      exact ⟨_, .inl (mem_singleton.mpr rfl)⟩
    · intro n p hn
      rw [(ho n p hn).1]
      exact .refl
  · rw [hp] at hs ⊢
    have hnone : ∀ n p, ¬ ((n, p) ∈ ([] : List (ExprId × ℚ)) ∨
        (n, p) ∈ ([] : List (ExprId × ℚ))) := fun n p hn => hn.elim nofun nofun
    exact ⟨⟨nofun, fun n p hn => absurd hn (hnone n p),
      fun n p hn => absurd hn (hnone n p), nofun, hs⟩,
      nofun⟩

theorem Visited.push (h : Visited t root it done) (hm : (m, q) ∈ done)
    (he : t.shouldExpand m = true) (hn : n ∈ t.dag.graph.children m) :
    Visited t root (t.uniquePushToStack it (n, t.childPotential m n)) done := by
  rw [uniquePushToStack]
  split
  · refine ⟨?_, ?_, ?_, h.quiet, h.started.imp_left (mem_cons_of_mem _)⟩
    · intro n' hn'
      rcases mem_cons.mp hn' with rfl | hn'
      · exact ⟨_, .inl mem_cons_self⟩
      · obtain ⟨p, hp⟩ := h.seen n' hn'
        exact ⟨p, hp.imp_left (mem_cons_of_mem _)⟩
    · intro n' p hp
      rcases hp with hp | hp
      · rcases mem_cons.mp hp with heq | hp
        · cases heq
          exact .inr ⟨m, q, hm, he, hn, rfl⟩
        · exact h.origin n' p (.inl hp)
      · exact h.origin n' p (.inr hp)
    · intro n' p hp
      rcases hp with hp | hp
      · rcases mem_cons.mp hp with heq | hp
        · cases heq
          exact (h.below m q (.inr hm)).tail hn
        · exact h.below n' p (.inl hp)
      · exact h.below n' p (.inr hp)
  · exact h

theorem Visited.pushAll (hm : (m, q) ∈ done) (he : t.shouldExpand m = true)
    {ps : List (ExprId × ℚ)} {it : PreOrder} (h : Visited t root it done)
    (hps : ∀ pair ∈ ps, pair.1 ∈ t.dag.graph.children m ∧ pair.2 = t.childPotential m pair.1) :
    Visited t root (ps.foldl t.uniquePushToStack it) done := by
  refine foldlRecOn (motive := fun it => Visited t root it done) _ _ h ?_
  intro it h pair hpair
  obtain ⟨hc, hp⟩ := hps pair hpair
  have hpush := h.push hm he hc
  rwa [← hp] at hpush

theorem pushAll_seen (t : HotTraversal) (ps : List (ExprId × ℚ)) : ∀ it : PreOrder,
    (∀ n ∈ it.seen, n ∈ (ps.foldl t.uniquePushToStack it).seen) ∧
    ∀ pair ∈ ps, pair.1 ∈ (ps.foldl t.uniquePushToStack it).seen ∨
      t.exprAlreadyOptimal pair = true := by
  induction ps with
  | nil =>
    intro it
    exact ⟨fun n h => h, nofun⟩
  | cons pair ps ih =>
    intro it
    obtain ⟨hk, ha⟩ := ih (t.uniquePushToStack it pair)
    refine ⟨fun n hn => hk n (mem_push_seen it hn), ?_⟩
    intro p' hp'
    rcases mem_cons.mp hp' with rfl | hp'
    · exact (push_seen it p').imp_left (hk _)
    · exact ha p' hp'

theorem mem_descending : pair ∈ (t.getDescendingChildPotentials n).reverse ↔
      pair.1 ∈ t.dag.graph.children n ∧ pair.2 = t.childPotential n pair.1 := by
  rw [mem_reverse, getDescendingChildPotentials, mem_insertionSort, mem_map]
  refine ⟨?_, ?_⟩
  · intro h
    obtain ⟨c, hc, rfl⟩ := h
    exact ⟨hc, rfl⟩
  · intro h
    exact ⟨pair.1, h.1, Prod.ext rfl h.2.symm⟩

theorem Visited.pop {seen : List ExprId} (h : Visited t root ⟨(n, p) :: s, seen⟩ done)
    (hq : t.Quiet n p) : Visited t root ⟨s, seen⟩ ((n, p) :: done) := by
  have hmove : ∀ n' p', (n', p') ∈ (n, p) :: s ∨ (n', p') ∈ done ↔
      (n', p') ∈ s ∨ (n', p') ∈ (n, p) :: done := by
    intro n' p'
    rw [mem_cons, mem_cons, or_assoc, or_left_comm]
  refine ⟨?_, ?_, fun n' p' hp' => h.below n' p' ((hmove n' p').mpr hp'), ?_, h.started⟩
  · intro n' hn'
    obtain ⟨p', hp'⟩ := h.seen n' hn'
    exact ⟨p', (hmove n' p').mp hp'⟩
  · intro n' p' hp'
    rcases h.origin n' p' ((hmove n' p').mpr hp') with hr | ⟨m, q, hm, he, hc, hp⟩
    · exact .inl hr
    · exact .inr ⟨m, q, mem_cons_of_mem _ hm, he, hc, hp⟩
  · intro n' p' hp'
    rcases mem_cons.mp hp' with heq | hp'
    · cases heq
      exact hq
    · exact h.quiet n' p' hp'

theorem Explored.next {seen : List ExprId}
    (h : Explored t root ⟨(n, p) :: s, seen⟩ done) (hq : t.Quiet n p) :
    Explored t root (t.preOrderNext ⟨(n, p) :: s, seen⟩) ((n, p) :: done) := by
  have hp := h.toVisited.pop hq
  simp only [preOrderNext]
  split_ifs with he
  · obtain ⟨hk, ho⟩ := pushAll_seen t (t.getDescendingChildPotentials n).reverse ⟨s, seen⟩
    refine ⟨hp.pushAll mem_cons_self he fun pair => mem_descending.mp, ?_⟩
    intro n' p' hp' he' c hc
    rcases mem_cons.mp hp' with heq | hp'
    · cases heq
      exact ho (c, t.childPotential n c) (mem_descending.mpr ⟨hc, rfl⟩)
    · exact (h.closed n' p' hp' he' c hc).imp_left (hk c)
  · refine ⟨hp, ?_⟩
    intro n' p' hp' he' c hc
    rcases mem_cons.mp hp' with heq | hp'
    · cases heq
      exact absurd he' he
    · exact h.closed n' p' hp' he' c hc

section
variable (t : HotTraversal) (pair : ExprId × ℚ)
  (queue : IncrementalPriorityQueue ContainerWithPriority)

theorem feedExpression_cases : (t.feedExpression pair queue = queue ∧ t.Quiet pair.1 pair.2) ∨
      ∃ containers, t.containersOf pair.1 = some containers ∧
        t.feedExpression pair queue = t.addContainers containers queue := by
  rw [feedExpression]
  split_ifs with hskip
  · exact .inl ⟨rfl, hskip.imp_right .inl⟩
  · split
    · rename_i hnone
      refine .inl ⟨rfl, .inr (.inr ?_)⟩
      intro containers hs
      rw [hnone] at hs
      cases hs
    · rename_i containers hs
      exact .inr ⟨containers, hs, rfl⟩

theorem feedExpression_removed : (t.feedExpression pair queue).removed = queue.removed := by
  rcases t.feedExpression_cases pair queue with ⟨heq, _⟩ | ⟨c, _, heq⟩
  · rw [heq]
  · rw [heq]
    exact (foldl_updateItem _ _).1

end

theorem feedExpression_nonempty (t : HotTraversal) (pair : ExprId × ℚ) (h : q.empty = false) :
    (t.feedExpression pair q).empty = false := by
  rcases t.feedExpression_cases pair q with ⟨heq, _⟩ | ⟨c, _, heq⟩
  · rw [heq]
    exact h
  · rw [heq]
    exact q.update_nonempty _ h

theorem quiet_of_feedExpression_empty {q : IncrementalPriorityQueue ContainerWithPriority}
    (hr : q.removed = ∅) (h : (t.feedExpression pair q).empty = true) : t.Quiet pair.1 pair.2 := by
  rcases t.feedExpression_cases pair q with ⟨_, hq⟩ | ⟨c, hs, heq⟩
  · exact hq
  · rw [heq] at h
    have hn := map_eq_nil_iff.mp (eq_nil_of_update_empty hr h)
    refine .inr (.inr ?_)
    intro c' hs'
    rw [hs] at hs'
    cases hs'
    exact hn

theorem feedQueue_nonempty (fuel : Nat) : ∀ {it it' : ContainersIterator},
    t.feedQueue fuel it = some it' → it.queue.empty = false → it'.queue.empty = false := by
  induction fuel with
  | zero =>
    intro it it' h
    cases h
  | succ fuel ih =>
    intro it it' h hne
    rw [feedQueue] at h
    split at h
    · cases h
      exact hne
    · split at h
      · cases h
        exact hne
      · split at h
        · exact ih h hne
        · exact ih h (t.feedExpression_nonempty _ hne)

theorem feedQueue_explored (fuel : Nat) : ∀ {it it' : ContainersIterator} {rs : List ExprId},
    t.feedQueue fuel it = some it' → it'.queue.empty = true → it.queue.removed = ∅ →
    List.Forall₂ (fun root range => ∃ done, Explored t root range done) rs it.ranges →
    ∀ root ∈ rs, ∃ seen done, Explored t root ⟨[], seen⟩ done := by
  induction fuel with
  | zero =>
    intro it it' rs h
    cases h
  | succ fuel ih =>
    intro it it' rs h he hr hranges
    obtain ⟨ranges, queue⟩ := it
    cases hranges with
    | nil =>
      intro root hroot
      cases hroot
    | @cons root range rs ranges hrange hranges =>
      simp only [feedQueue] at h
      split_ifs at h with hy
      · cases h
        rw [yieldsUniqueContainer, Bool.and_eq_true, he] at hy
        cases hy.1
      · split at h
        · rename_i hs
          intro r' hr'
          rcases mem_cons.mp hr' with rfl | hr'
          · obtain ⟨s, seen⟩ := range
            cases hs
            obtain ⟨done, hd⟩ := hrange
            exact ⟨seen, done, hd⟩
          · exact ih h he hr hranges r' hr'
        · rename_i pair s hs
          obtain ⟨s', seen⟩ := range
          cases hs
          obtain ⟨done, hd⟩ := hrange
          have hstill : (t.feedExpression pair queue).empty = true := by
            by_contra hne
            have hf := feedQueue_nonempty fuel h (Bool.eq_false_iff.mpr hne)
            rw [he] at hf
            cases hf
          have hq := quiet_of_feedExpression_empty hr hstill
          rw [← t.feedExpression_removed pair queue] at hr
          exact ih h he hr (.cons ⟨_, hd.next hq⟩ hranges)

theorem YieldsNothing.explored (h : t.YieldsNothing) :
    ∀ root ∈ t.objectives, ∃ seen done, Explored t root ⟨[], seen⟩ done := by
  obtain ⟨fuel, it, hr, he⟩ := h
  apply feedQueue_explored fuel hr he rfl
  rw [forall₂_map_right_iff, forall₂_same]
  intro root _
  exact ⟨[], t.explored_begin root⟩

end HotTraversal

end Rebalancer
