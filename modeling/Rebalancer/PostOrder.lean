import Rebalancer.ExceptLoops
import Rebalancer.ExpressionGraph

namespace Rebalancer
open List Nat Option

section
variable {ν : Type}

/-- Finished nodes are listed once and carry a priority; an edge leads to a smaller height and
never to a later root. -/
structure OrderState.Valid (g : ExpressionGraph ν) (st : OrderState ν) : Prop where
  nodup : st.postOrder.Nodup
  visited : ∀ n ∈ st.postOrder, n ∈ st.visited
  finished : ∀ n, n ∈ st.postOrder ↔ ∃ p, st.nodeToPriority n = some p
  edge : ∀ n p, st.nodeToPriority n = some p → ∀ c ∈ g.children n,
    ∃ q, st.nodeToPriority c = some q ∧ q.rootIdx ≤ p.rootIdx ∧ q.height < p.height

/-- Traversing below `top` appends nodes below it with root index `r` and leaves none unfinished. -/
structure OrderState.Extends (g : ExpressionGraph ν) (r : Nat) (top : ν)
    (st st' : OrderState ν) : Prop where
  added : ∃ new, st'.postOrder = st.postOrder ++ new ∧
    ∀ n ∈ new, g.Below top n ∧ ∃ p, st'.nodeToPriority n = some p ∧ p.rootIdx = r
  kept : ∀ n ∈ st.postOrder, st'.nodeToPriority n = st.nodeToPriority n
  pending : ∀ n, (n ∈ st'.visited ∧ n ∉ st'.postOrder) ↔ (n ∈ st.visited ∧ n ∉ st.postOrder)

/-- Unfinished nodes lie at depth `d` or deeper, so none is met again below depth `d`. -/
structure OrderState.Ready (g : ExpressionGraph ν) (r d : Nat) (st : OrderState ν) : Prop where
  valid : st.Valid g
  roots : ∀ n p, st.nodeToPriority n = some p → p.rootIdx ≤ r
  deep : ∀ n ∈ st.visited, n ∉ st.postOrder → d ≤ g.depth n
variable {g : ExpressionGraph ν}

theorem OrderState.Ready.mono {st : OrderState ν}
    (h : st.Ready g r d) (hd : e ≤ d) : st.Ready g r e :=
  ⟨h.valid, h.roots, fun n hn hp => hd.trans (h.deep n hn hp)⟩

theorem OrderState.Extends.refl (st : OrderState ν) : st.Extends g r top st where
  added := ⟨[], by simp only [append_nil], by simp only [not_mem_nil, false_implies, implies_true]⟩
  kept _ _ := rfl
  pending _ := Iff.rfl

variable {st st' : OrderState ν}

theorem OrderState.Extends.mem (h : st.Extends g r top st') (hn : n ∈ st.postOrder) :
    n ∈ st'.postOrder := by
  obtain ⟨new, hp, -⟩ := h.added
  rw [hp]
  exact mem_append_left new hn

theorem OrderState.Extends.trans {st st₁ st₂ : OrderState ν}
    (h : st.Extends g r top st₁) (h' : st₁.Extends g r top st₂) : st.Extends g r top st₂ where
  added := by
    obtain ⟨new, hp, hn⟩ := h.added
    obtain ⟨new', hp', hn'⟩ := h'.added
    refine ⟨new ++ new', by rw [hp', hp, append_assoc], ?_⟩
    intro n hmem
    rcases mem_append.mp hmem with hm | hm
    · have hpost : n ∈ st₁.postOrder := by
        rw [hp]
        exact mem_append_right _ hm
      rw [h'.kept n hpost]
      exact hn n hm
    · exact hn' n hm
  kept n hn := by rw [h'.kept n (h.mem hn), h.kept n hn]
  pending n := (h'.pending n).trans (h.pending n)

theorem OrderState.Extends.of_below (h : st.Extends g r c st') (hc : g.Below top c) :
    st.Extends g r top st' where
  added := by
    obtain ⟨new, hp, hn⟩ := h.added
    exact ⟨new, hp, fun n hm => ⟨hc.trans (hn n hm).1, (hn n hm).2⟩⟩
  kept := h.kept
  pending := h.pending

theorem OrderState.Extends.known (h : st.Extends g r top st') (hv : st'.Valid g) :
    ∃ new, st'.postOrder = st.postOrder ++ new ∧
      (∀ n ∈ new, ∃ p, st'.nodeToPriority n = some p ∧ p.rootIdx = r) ∧
      ∀ n p, st'.nodeToPriority n = some p →
        st.nodeToPriority n = some p ∨ n ∈ new ∧ g.Below top n ∧ p.rootIdx = r := by
  obtain ⟨new, hpost, hnew⟩ := h.added
  refine ⟨new, hpost, fun n hm => (hnew n hm).2, ?_⟩
  intro n p hp
  have hn := (hv.finished n).mpr ⟨p, hp⟩
  rw [hpost] at hn
  rcases mem_append.mp hn with ho | hm
  · exact .inl ((h.kept n ho).symm.trans hp)
  · obtain ⟨hb, q, hq, hr⟩ := hnew n hm
    cases hq.symm.trans hp
    exact .inr ⟨hm, hb, hr⟩

theorem OrderState.Ready.step (h : st.Ready g r d) (hv : st'.Valid g)
    (he : st.Extends g r top st') : st'.Ready g r d where
  valid := hv
  roots n p hp := by
    obtain ⟨new, -, -, hk⟩ := he.known hv
    rcases hk n p hp with hp | ⟨-, -, hr⟩
    · exact h.roots n p hp
    · exact hr.le
  deep n hn hp := by
    obtain ⟨hs, hs'⟩ := (he.pending n).mp ⟨hn, hp⟩
    exact h.deep n hs hs'

theorem OrderState.height_eq {st : OrderState ν} (h : st.nodeToPriority n = some p) :
    st.height n = p.height := by
  simp [OrderState.height, h]

end

section
variable {ν : Type} [DecidableEq ν] {fs : IdSet}

section
variable (acc : OrderState ν × Bool × Nat)

@[simp] theorem finishNode_visited : (finishNode g fs r node acc).visited = acc.1.visited := by
  rw [finishNode]
  split
  · split
    · split <;> rfl
    · rfl
  · rfl

@[simp] theorem finishNode_postOrder :
    (finishNode g fs r node acc).postOrder = acc.1.postOrder ++ [node] := by
  rw [finishNode]
  split
  · split
    · split <;> rfl
    · rfl
  · rfl

@[simp] theorem finishNode_nodeToPriority : (finishNode g fs r node acc).nodeToPriority =
      acc.1.nodeToPriority.emplace node ⟨r, acc.2.2 + 1⟩ := by
  rw [finishNode]
  split
  · split
    · split <;> rfl
    · rfl
  · rfl

end

def Traversed (g : ExpressionGraph ν) (r : Nat) (node : ν) (st st' : OrderState ν) : Prop :=
  st'.Valid g ∧ st.Extends g r node st' ∧ node ∈ st'.postOrder

omit [DecidableEq ν] in
theorem visitChildren_spec (t : ν → OrderState ν → OrderState ν)
    (ht : ∀ c st, c ∈ g.children node → st.Ready g r (g.depth node) →
      Traversed g r c st (t c st)) (acc : OrderState ν × Bool × Nat)
    (hr : acc.1.Ready g r (g.depth node)) :
    let acc' := (g.children node).foldl (visitChild t) acc
    acc'.1.Ready g r (g.depth node) ∧ acc.1.Extends g r node acc'.1 ∧
      ∀ c ∈ g.children node, ∃ q, acc'.1.nodeToPriority c = some q ∧ q.height ≤ acc'.2.2 := by
  refine foldl_rule (P := fun done acc' => acc'.1.Ready g r (g.depth node) ∧
    acc.1.Extends g r node acc'.1 ∧ ∀ c ∈ done, ∃ q, acc'.1.nodeToPriority c = some q ∧
      q.height ≤ acc'.2.2) ?_ [] acc ⟨hr, .refl _, fun c hc => absurd hc not_mem_nil⟩
  rintro c hc done acc' ⟨hr, he, hd⟩
  obtain ⟨hv, hext, hmem⟩ := ht c acc'.1 hc hr
  have hext' := hext.of_below (.single hc)
  refine ⟨hr.step hv hext', he.trans hext', ?_⟩
  intro x hx
  rcases mem_append.mp hx with hx | hx
  · obtain ⟨q, hq, hle⟩ := hd x hx
    exact ⟨q, (hext.kept x ((hr.valid.finished x).mpr ⟨q, hq⟩)).trans hq,
      hle.trans (le_max_left _ _)⟩
  · rw [mem_singleton.mp hx]
    obtain ⟨q, hq⟩ := (hv.finished c).mp hmem
    exact ⟨q, hq, (OrderState.height_eq hq).symm.le.trans (le_max_right _ _)⟩

theorem finishNode_known {acc : OrderState ν × Bool × Nat} (hr : acc.1.Ready g r d)
    (hpo : node ∉ acc.1.postOrder) : (finishNode g fs r node acc).nodeToPriority n = some p ↔
      acc.1.nodeToPriority n = some p ∨ n = node ∧ p = ⟨r, acc.2.2 + 1⟩ := by
  rw [finishNode_nodeToPriority]
  exact Table.emplace_eq_some fun q h => absurd ((hr.valid.finished node).mpr ⟨q, h⟩) hpo

theorem finishNode_valid {acc : OrderState ν × Bool × Nat} (hr : acc.1.Ready g r d)
    (hv : node ∈ acc.1.visited) (hpo : node ∉ acc.1.postOrder)
    (hch : ∀ c ∈ g.children node, ∃ q, acc.1.nodeToPriority c = some q ∧ q.height ≤ acc.2.2) :
    (finishNode g fs r node acc).Valid g := by
  constructor
  · rw [finishNode_postOrder]
    exact hr.valid.nodup.append (nodup_singleton node) (disjoint_singleton.mpr hpo)
  · intro n hn
    rw [finishNode_postOrder, mem_append, mem_singleton] at hn
    rw [finishNode_visited]
    rcases hn with hn | rfl
    · exact hr.valid.visited n hn
    · exact hv
  · intro n
    simp only [finishNode_postOrder, finishNode_known hr hpo, mem_append, mem_singleton,
      hr.valid.finished, exists_or, exists_and_left, exists_eq, and_true]
  · intro n p hp c hc
    rcases (finishNode_known hr hpo).mp hp with hp | ⟨rfl, rfl⟩
    · obtain ⟨q, hq, hlt⟩ := hr.valid.edge n p hp c hc
      exact ⟨q, (finishNode_known hr hpo).mpr (.inl hq), hlt⟩
    · obtain ⟨q, hq, hle⟩ := hch c hc
      exact ⟨q, (finishNode_known hr hpo).mpr (.inl hq), hr.roots c q hq, lt_succ_of_le hle⟩

theorem finishNode_extends {st : OrderState ν} (hr : acc.1.Ready g r d) (hnew : node ∉ st.visited)
    (he : ({ st with visited := node :: st.visited } : OrderState ν).Extends g r node acc.1)
    (hpo : node ∉ acc.1.postOrder) :
    st.Extends g r node (finishNode g fs r node acc) where
  added := by
    obtain ⟨new, hp, hn⟩ := he.added
    refine ⟨new ++ [node], by rw [finishNode_postOrder, hp, append_assoc], ?_⟩
    intro n hm
    rcases mem_append.mp hm with hm | hm
    · obtain ⟨hb, p, hp, hidx⟩ := hn n hm
      exact ⟨hb, p, (finishNode_known hr hpo).mpr (.inl hp), hidx⟩
    · rw [mem_singleton.mp hm]
      exact ⟨.refl, _, (finishNode_known hr hpo).mpr (.inr ⟨rfl, rfl⟩), rfl⟩
  kept n hn := by
    rw [finishNode_nodeToPriority, Table.emplace_of_ne]
    · exact he.kept n hn
    · rintro rfl
      exact hpo (he.mem hn)
  pending n := by
    have hp := he.pending n
    rw [mem_cons] at hp
    rw [finishNode_visited, finishNode_postOrder, mem_append, mem_singleton]
    constructor
    · rintro ⟨hv, hn⟩
      obtain ⟨hs, hs'⟩ := hp.mp ⟨hv, fun h => hn (.inl h)⟩
      exact ⟨hs.resolve_left (fun h => hn (.inr h)), hs'⟩
    · rintro ⟨hv, hn⟩
      obtain ⟨hs, hs'⟩ := hp.mpr ⟨.inr hv, hn⟩
      refine ⟨hs, ?_⟩
      rintro (h | rfl)
      · exact hs' h
      · exact hnew hv

theorem traversePostOrder_spec (fuel : Nat) : ∀ (node : ν) (st : OrderState ν),
    g.depth node < fuel → st.Ready g r (g.depth node + 1) →
    Traversed g r node st (traversePostOrder g fs r fuel node st) := by
  induction fuel with
  | zero =>
    intro node st hf
    exact absurd hf (not_lt_zero _)
  | succ fuel ih =>
    intro node st hf hr
    rw [traversePostOrder]
    split_ifs with hv
    · refine ⟨hr.valid, .refl st, ?_⟩
      by_contra hpost
      exact absurd (hr.deep node hv hpost) (not_succ_le_self _)
    · have hpost : node ∉ st.postOrder := fun h => hv (hr.valid.visited node h)
      have hstart : ({ st with visited := node :: st.visited } : OrderState ν).Ready g r
          (g.depth node) := by
        refine ⟨⟨hr.valid.nodup, fun n hn => mem_cons_of_mem _ (hr.valid.visited n hn),
          hr.valid.finished, hr.valid.edge⟩, hr.roots, ?_⟩
        intro n hn hp
        rcases mem_cons.mp hn with rfl | hn
        · exact le_refl _
        · exact (le_succ _).trans (hr.deep n hn hp)
      obtain ⟨hr', he, hch⟩ := visitChildren_spec (fun c s => traversePostOrder g fs r fuel c s)
        (fun c s hc hs => ih c s ((g.depth_lt node c hc).trans_le (le_of_lt_succ hf))
          (hs.mono (g.depth_lt node c hc)))
        ({ st with visited := node :: st.visited }, true, 0) hstart
      obtain ⟨hv', hp'⟩ := (he.pending node).mpr ⟨mem_cons_self, hpost⟩
      refine ⟨finishNode_valid hr' hv' hp' hch, finishNode_extends hr' hv he hp', ?_⟩
      rw [finishNode_postOrder]
      exact mem_append_right _ (mem_singleton.mpr rfl)

end

section
variable {ν : Type}

def rootSegment (postOrder : List ν) (nodeRangeByRoots : List Nat) (i : Nat) : List ν :=
  (postOrder.drop (nodeRangeByRoots.getD i 0)).take
    (nodeRangeByRoots.getD (i + 1) 0 - nodeRangeByRoots.getD i 0)

structure Ordered (g : ExpressionGraph ν) (roots : List ν) (st : OrderState ν)
    (ranges : List Nat) : Prop where
  valid : st.Valid g
  settled : ∀ n ∈ st.visited, n ∈ st.postOrder
  root_mem : ∀ i root, roots[i]? = some root →
    ∃ p, st.nodeToPriority root = some p ∧ p.rootIdx ≤ i
  below : ∀ n p, st.nodeToPriority n = some p →
    ∃ root, roots[p.rootIdx]? = some root ∧ g.Below root n
  ranges_length : ranges.length = roots.length + 1
  ranges_le : ∀ i, ranges.getD i 0 ≤ st.postOrder.length
  ranges_last : ranges.getD roots.length 0 = st.postOrder.length
  segment : ∀ i < roots.length, ∀ n, n ∈ rootSegment st.postOrder ranges i ↔
    ∃ p, st.nodeToPriority n = some p ∧ p.rootIdx = i

theorem Ordered.nil (g : ExpressionGraph ν) : Ordered g [] .new [0] where
  valid := by
    refine ⟨nodup_nil, fun n hn => absurd hn not_mem_nil, ?_, ?_⟩
    · intro n
      simp [OrderState.new, Table.new]
    · intro n p hp
      cases hp
  settled n hn := hn
  root_mem i root h := by simp only [List.getElem?_nil, reduceCtorEq] at h
  below n p hp := by cases hp
  ranges_length := rfl
  ranges_le i := by
    cases i <;> exact Nat.le_refl 0
  ranges_last := rfl
  segment i hi := absurd hi (not_lt_zero i)

theorem Ordered.ready (h : Ordered g roots st ends) : st.Ready g roots.length d where
  valid := h.valid
  roots n p hp := by
    obtain ⟨root, hr, -⟩ := h.below n p hp
    exact (List.getElem?_eq_some_iff.mp hr).1.le
  deep n hn hp := absurd (h.settled n hn) hp

theorem rootSegment_append (hi : i + 1 < rs.length) (hle : rs.getD (i + 1) 0 ≤ o.length) :
    rootSegment (o ++ new) (rs ++ [k]) i = rootSegment o rs i := by
  have hlt : i < rs.length := (lt_succ_self i).trans hi
  simp only [rootSegment, getD_append _ _ _ _ hi, getD_append _ _ _ _ hlt]
  by_cases h : rs.getD i 0 ≤ o.length
  · rw [drop_append_of_le_length h, take_append_of_le_length]
    rw [length_drop]
    exact Nat.sub_le_sub_right hle _
  · have hz : rs.getD (i + 1) 0 - rs.getD i 0 = 0 := by omega
    rw [hz, take_zero, take_zero]

theorem rootSegment_last (hlen : rs.length = i + 1) (hl : rs.getD i 0 = o.length) :
    rootSegment (o ++ new) (rs ++ [(o ++ new).length]) i = new := by
  have hi : i < rs.length := by omega
  have hget : (rs ++ [(o ++ new).length]).getD (i + 1) 0 = (o ++ new).length := by
    rw [← hlen, getD_append_right _ _ _ _ (le_refl _), Nat.sub_self, getD_cons_zero]
  rw [rootSegment, hget, getD_append _ _ _ _ hi, hl, drop_left, length_append,
    Nat.add_sub_cancel_left, take_length]

theorem Ordered.snoc (h : Ordered g rs st ends) (root : ν)
    (ht : Traversed g rs.length root st st') :
    Ordered g (rs ++ [root]) st' (ends ++ [st'.postOrder.length]) := by
  obtain ⟨hv, he, hmem⟩ := ht
  obtain ⟨new, hpost, hnew, hk⟩ := he.known hv
  have hr := (h.ready (d := 0)).step hv he
  have hl : (rs ++ [root])[rs.length]? = some root := List.getElem?_concat_length
  have hget : ∀ (i : Nat) (r : ν), rs[i]? = some r → (rs ++ [root])[i]? = some r := by
    intro i r hi
    rw [List.getElem?_append_left (List.getElem?_eq_some_iff.mp hi).1]
    exact hi
  refine ⟨hv, ?_, ?_, ?_, ?_, ?_, ?_, ?_⟩
  · intro n hn
    by_contra hp
    obtain ⟨hs, hs'⟩ := (he.pending n).mp ⟨hn, hp⟩
    exact hs' (h.settled n hs)
  · intro i r hi
    obtain ⟨hlt, hr'⟩ := List.getElem?_eq_some_iff.mp hi
    rw [length_append, length_singleton] at hlt
    rcases Nat.lt_succ_iff_lt_or_eq.mp hlt with hlt | rfl
    · rw [List.getElem?_append_left hlt] at hi
      obtain ⟨p, hp, hle⟩ := h.root_mem i r hi
      exact ⟨p, (he.kept r ((h.valid.finished r).mpr ⟨p, hp⟩)).trans hp, hle⟩
    · rw [hl, some.injEq] at hi
      subst hi
      obtain ⟨p, hp⟩ := (hv.finished root).mp hmem
      exact ⟨p, hp, hr.roots root p hp⟩
  · intro n p hp
    rcases hk n p hp with hp | ⟨-, hb, hidx⟩
    · obtain ⟨r, hr', hb⟩ := h.below n p hp
      exact ⟨r, hget _ r hr', hb⟩
    · exact ⟨root, by rw [hidx, hl], hb⟩
  · rw [length_append, length_append, h.ranges_length]
    rfl
  · intro i
    have hlen : st.postOrder.length ≤ st'.postOrder.length := by
      rw [hpost, length_append]
      exact le_add_right _ _
    by_cases hi : i < ends.length
    · rw [getD_append _ _ _ _ hi]
      exact (h.ranges_le i).trans hlen
    · rw [getD_append_right _ _ _ _ (Nat.le_of_not_lt hi)]
      cases i - ends.length with
      | zero => exact le_refl _
      | succ j => exact zero_le _
  · rw [length_append, length_singleton,
      getD_append_right _ _ _ _ (le_of_eq h.ranges_length), h.ranges_length, Nat.sub_self,
      getD_cons_zero]
  · intro i hi n
    rw [length_append, length_singleton] at hi
    rw [hpost]
    rcases Nat.lt_succ_iff_lt_or_eq.mp hi with hlt | rfl
    · rw [rootSegment_append (by rw [h.ranges_length]; omega) (h.ranges_le (i + 1)),
        h.segment i hlt n]
      constructor
      · rintro ⟨p, hp, hidx⟩
        exact ⟨p, (he.kept n ((h.valid.finished n).mpr ⟨p, hp⟩)).trans hp, hidx⟩
      · rintro ⟨p, hp, hidx⟩
        rcases hk n p hp with hp | ⟨-, -, hlast⟩
        · exact ⟨p, hp, hidx⟩
        · omega
    · rw [rootSegment_last h.ranges_length h.ranges_last]
      constructor
      · exact hnew n
      · rintro ⟨p, hp, hidx⟩
        rcases hk n p hp with hp | ⟨hm, -⟩
        · obtain ⟨r, hr', -⟩ := h.below n p hp
          have hlt := (List.getElem?_eq_some_iff.mp hr').1
          omega
        · exact hm

end

section
variable {ν : Type} [DecidableEq ν] {cs : IdSet}

theorem initOrder_snoc (rs : List ν) (root : ν) : initOrder g cs (rs ++ [root]) =
      orderRoot g cs (initOrder g cs rs) (root, rs.length) := by
  rw [initOrder, zipIdx_append, foldl_append, Nat.zero_add]
  rfl

theorem initOrder_spec (g : ExpressionGraph ν) (cs : IdSet) (rs : List ν) :
    Ordered g rs (initOrder g cs rs).1 (initOrder g cs rs).2 := by
  induction rs using reverseRecOn with
  | nil => exact .nil g
  | append_singleton rs root ih =>
    rw [initOrder_snoc]
    exact ih.snoc root (traversePostOrder_spec _ root _ (lt_succ_self _) ih.ready)

theorem initParents_eq (g : ExpressionGraph ν) (o : List ν) (c : ν) :
    initParents g o c = o.filter (fun n => decide (c ∈ g.children n)) := by
  have hf : ∀ (ns : List ν) (p : ν → List ν), ns.foldl (addParents g) p c =
        p c ++ ns.filter (fun n => decide (c ∈ g.children n)) := by
    intro ns
    induction ns with
    | nil => intro p; simp
    | cons n ns ih =>
      intro p
      rw [foldl_cons, ih, addParents]
      by_cases hc : c ∈ g.children n
      · simp [hc]
      · simp [hc]
  rw [initParents, hf, nil_append]

theorem mem_initParents {o : List ν} : n ∈ initParents g o c ↔ n ∈ o ∧ c ∈ g.children n := by
  rw [initParents_eq, mem_filter, decide_eq_true_eq]

theorem initParents_nodup (h : o.Nodup) (c : ν) : (initParents g o c).Nodup := by
  rw [initParents_eq]
  exact h.filter _

end

end Rebalancer
