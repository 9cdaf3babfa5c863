import Rebalancer.AssociativeMap
import Rebalancer.BoundsSound

namespace Rebalancer
open List Function

namespace SumOverThreshold

/-- Values are ordered before the pointers of their children; `⊥` is the null pointer. -/
abbrev Key := ℚ ×ₗ WithBot ExprId

/-- The sum, the sum of squares and the count. -/
abbrev Node := ℚ × ℚ × ℤ

def node (value : ℚ) : Node := (value, value * value, 1)

def entry (child : ExprId) (value : ℚ) : Key × Node := (toLex (value, ↑child), node value)

/-- What the node keeps between calls. -/
structure State where
  values : ExprId → ℚ
  collection : AssociativeMap Key Node
  value : ℚ

variable (t : PrecisionTolerances) (s : SumOverThreshold) (st : State)

def evaluateTree (collection : AssociativeMap Key Node) (threshold : ℚ) : ℚ :=
  let upper := collection.query - collection.queryLe (toLex (threshold, ⊥))
  if s.squares then upper.2.1 + threshold * threshold * upper.2.2 - 2 * threshold * upper.1
  else upper.1 - threshold * upper.2.2

def insertChild (value : ExprId → ℚ) (collection : AssociativeMap Key Node) (child : ExprId) :
    AssociativeMap Key Node :=
  collection.update (entry child (value child)).1 (entry child (value child)).2

def populateAndEvaluate (value : ExprId → ℚ) : State :=
  let collection := s.summands.foldl (insertChild value) .empty
  ⟨value, collection, t.snapToZero (s.evaluateTree collection (value s.threshold))⟩

def updateChild (newValue : ExprId → ℚ) (st : State) (child : ExprId) : State :=
  if child = s.threshold then st
  else if st.values child = newValue child then st
  else { st with
    collection :=
      insertChild newValue (st.collection.remove (entry child (st.values child)).1) child
    values := update st.values child (newValue child) }

section
variable (value newValue : ExprId → ℚ) (changedChildren : List ExprId)

def newThreshold : ℚ :=
  if s.threshold ∈ changedChildren then newValue s.threshold else value s.threshold

def innerPartialApply : State :=
  let st := changedChildren.foldl (s.updateChild newValue) st
  { st with value := t.snapToZero (s.evaluateTree st.collection
      (s.newThreshold value newValue changedChildren)) }

def evaluate : ℚ :=
  let threshold := s.newThreshold value newValue changedChildren
  let result := if threshold ≠ value s.threshold then
    s.evaluateTree st.collection threshold else st.value
  t.snapToZero ((changedChildren.filter (· ≠ s.threshold)).foldl (fun result child =>
    result - s.evaluateSingle (st.values child) threshold +
      s.evaluateSingle (newValue child) threshold) result)

end

def sum (value : ExprId → ℚ) (threshold : ℚ) : ℚ :=
  (s.summands.map fun c => s.evaluateSingle (value c) threshold).sum

structure Changes (value newValue : ExprId → ℚ) (changedChildren : List ExprId) : Prop where
  nodup : changedChildren.Nodup
  children : ∀ c ∈ changedChildren, c ∈ s.children
  others : ∀ c ∈ s.children, c ∉ changedChildren → newValue c = value c

/-- The states after a full apply and any number of partial ones, with the values of the
children. -/
inductive Reached : State → (ExprId → ℚ) → Prop
  | fullApply : Reached (s.populateAndEvaluate t value) value
  | partialApply {st : State} : Reached st value → s.Changes value newValue changedChildren →
      Reached (s.innerPartialApply t st value newValue changedChildren) newValue

structure Holds (value : ExprId → ℚ) : Prop where
  values : ∀ c ∈ s.summands, st.values c = value c
  collection : st.collection.Stores (s.summands.map fun c => entry c (value c))

variable {t s st}

theorem mem_summands : c ∈ s.summands ↔ c ∈ s.children ∧ c ≠ s.threshold := by
  rw [summands, mem_filter, decide_eq_true_eq]

theorem nodup_summands : s.summands.Nodup := (s.values.insert s.threshold).nodup.filter _

theorem Changes.newThreshold (h : s.Changes v v' cs) : s.newThreshold v v' cs = v' s.threshold := by
  rw [SumOverThreshold.newThreshold]
  split_ifs with hm
  · rfl
  · exact (h.others _ List.mem_insert_self hm).symm

theorem entry_inj : (entry c v).1 = (entry c' v').1 ↔ v = v' ∧ c = c' := by
  simp [entry]

theorem entry_le {v w : ℚ} : (entry c v).1 ≤ toLex (w, ⊥) ↔ v < w := by
  simp [entry, Prod.Lex.toLex_le_toLex]

theorem sum_node (vs : List ℚ) :
    (vs.map node).sum = (vs.sum, (vs.map fun v => v * v).sum, (vs.length : ℤ)) := by
  induction vs with
  | nil => rfl
  | cons v vs ih =>
    rw [map_cons, sum_cons, ih]
    simp [node, add_comm]

theorem evaluateTree_eq {tree : AssociativeMap Key Node} {cs : List ExprId} {v : ExprId → ℚ}
    (h : tree.Stores (cs.map fun c => entry c (v c))) (threshold : ℚ) :
    s.evaluateTree tree threshold = s.evaluateCollection (cs.map v) threshold := by
  have hq : tree.query = ((cs.map v).map node).sum := by
    rw [h.query, map_map, map_map]
    rfl
  have hle : tree.queryLe (toLex (threshold, ⊥)) =
      (((cs.map v).filter (· < threshold)).map node).sum := by
    rw [h.queryLe, filter_map, filter_map, map_map, map_map]
    simp only [Function.comp_def, entry_le]
    rfl
  rw [evaluateTree, evaluateCollection, hq, hle, sum_node, sum_node]
  simp

theorem stores_foldl (cs : List ExprId) : ∀ {tree : AssociativeMap Key Node} (ds : List ExprId),
    tree.Stores (ds.map fun c => entry c (v c)) → (ds ++ cs).Nodup →
    (cs.foldl (insertChild v) tree).Stores ((ds ++ cs).map fun c => entry c (v c)) := by
  induction cs with
  | nil =>
    intro tree ds h _
    rwa [append_nil]
  | cons c cs ih =>
    intro tree ds h hn
    rw [append_cons] at hn ⊢
    apply ih _ _ hn
    refine (h.update ?_ (node (v c))).perm ?_
    · intro e he heq
      obtain ⟨d, hd, rfl⟩ := mem_map.mp he
      rw [(entry_inj.mp heq).2] at hd
      exact (nodup_append.mp (nodup_append.mp hn).1).2.2 c hd c (mem_singleton.mpr rfl) rfl
    · rw [map_append]
      exact (perm_append_singleton _ _).symm

theorem Holds.evaluateTree (h : s.Holds st v) (threshold : ℚ) :
    s.evaluateTree st.collection threshold = s.sum v threshold := by
  rw [evaluateTree_eq h.collection, evaluateCollection_eq, map_map]
  rfl

theorem Holds.congr (h : s.Holds st v) (hv : ∀ c ∈ s.summands, v c = w c) : s.Holds st w := by
  refine ⟨fun c hc => (h.values c hc).trans (hv c hc), ?_⟩
  rw [← map_congr_left fun c hc => congrArg (entry c) (hv c hc)]
  exact h.collection

theorem Holds.updateChild (h : s.Holds st v) (hc : c ∈ s.children) :
    s.Holds (s.updateChild v' st c) (update v c (v' c)) := by
  rw [SumOverThreshold.updateChild]
  split_ifs with ht hv
  · apply h.congr
    intro c' hc'
    rw [update_of_ne (ht ▸ (mem_summands.mp hc').2)]
  · apply h.congr
    intro c' hc'
    by_cases he : c' = c
    · rw [he, update_self, ← hv, h.values c (he ▸ hc')]
    · rw [update_of_ne he]
  · have hs := mem_summands.mpr ⟨hc, ht⟩
    have hp := perm_cons_erase hs
    refine ⟨fun c' hc' => ?_, ?_⟩
    · change update st.values c (v' c) c' = _
      by_cases he : c' = c
      · rw [he, update_self, update_self]
      · rw [update_of_ne he, update_of_ne he, h.values c' hc']
    · have he : (s.summands.map fun c' => entry c' (v c')).filter
          (·.1 ≠ (entry c (st.values c)).1) =
          (s.summands.erase c).map fun c' => entry c' (update v c (v' c) c') := by
        rw [filter_map, nodup_summands.erase_eq_filter]
        have hf : s.summands.filter ((fun e : Key × Node =>
          decide (e.1 ≠ (entry c (st.values c)).1)) ∘
            fun c' => entry c' (v c')) = s.summands.filter (· != c) := by
          apply filter_congr
          intro c' hc'
          simp only [Function.comp_apply, ne_eq, entry_inj]
          by_cases he : c' = c
          · simp [he, h.values c hs]
          · simp [he]
        rw [hf]
        apply map_congr_left
        intro c' hc'
        rw [update_of_ne (by simpa using (mem_filter.mp hc').2)]
      have hm := h.collection.remove (entry c (st.values c)).1
      rw [he] at hm
      refine (hm.update ?_ (node (v' c))).perm ?_
      · intro e he heq
        obtain ⟨d, hd, rfl⟩ := mem_map.mp he
        exact (nodup_summands.mem_erase_iff.mp hd).1 (entry_inj.mp heq).2
      · have hm := (hp.map fun c' => entry c' (update v c (v' c) c')).symm
        rwa [map_cons, update_self] at hm

theorem Holds.foldl (cs : List ExprId) : ∀ {st v}, s.Holds st v → (∀ c ∈ cs, c ∈ s.children) →
    (∀ c ∈ s.children, c ∉ cs → v' c = v c) → s.Holds (cs.foldl (s.updateChild v') st) v' := by
  induction cs with
  | nil =>
    intro st v h _ ho
    exact h.congr fun c hc => (ho c (mem_summands.mp hc).1 not_mem_nil).symm
  | cons c cs ih =>
    intro st v h hc ho
    apply ih (h.updateChild (hc c mem_cons_self)) fun c' hc' => hc c' (mem_cons_of_mem _ hc')
    intro c' hc' hn
    by_cases he : c' = c
    · rw [he, update_self]
    · rw [update_of_ne he]
      exact ho c' hc' (not_mem_cons_of_ne_of_not_mem he hn)

theorem innerPartialApply_spec (h : s.Holds st v) (hc : s.Changes v v' cs) :
    s.Holds (s.innerPartialApply t st v v' cs) v' ∧ (s.innerPartialApply t st v v' cs).value =
      t.snapToZero (s.sum v' (v' s.threshold)) := by
  have hh := Holds.foldl cs h hc.children hc.others
  refine ⟨⟨hh.values, hh.collection⟩, ?_⟩
  rw [innerPartialApply, hh.evaluateTree, hc.newThreshold]

theorem Reached.holds (h : s.Reached t st v) :
    s.Holds st v ∧ st.value = t.snapToZero (s.sum v (v s.threshold)) := by
  induction h with
  | @fullApply v =>
    have hh : s.Holds (s.populateAndEvaluate t v) v := ⟨fun _ _ => rfl,
      stores_foldl s.summands [] AssociativeMap.stores_empty nodup_summands⟩
    exact ⟨hh, congrArg t.snapToZero (hh.evaluateTree _)⟩
  | partialApply _ hc ih => exact innerPartialApply_spec ih.1 hc

theorem sum_changed (hc : s.Changes v v' cs) (threshold : ℚ) :
    ((cs.filter (· ≠ s.threshold)).map fun c =>
      s.evaluateSingle (v' c) threshold - s.evaluateSingle (v c) threshold).sum =
      s.sum v' threshold - s.sum v threshold := by
  rw [sum, sum, ← sum_toFinset _ nodup_summands, ← sum_toFinset _ nodup_summands,
    ← Finset.sum_sub_distrib, ← sum_toFinset _ (hc.nodup.filter _)]
  apply Finset.sum_subset
  · intro c h
    rw [mem_toFinset, mem_filter, decide_eq_true_eq] at h
    exact mem_toFinset.mpr (mem_summands.mpr ⟨hc.children c h.1, h.2⟩)
  · intro c h hn
    obtain ⟨h, ht⟩ := mem_summands.mp (mem_toFinset.mp h)
    rw [mem_toFinset, mem_filter, decide_eq_true_eq] at hn
    rw [hc.others c h fun hm => hn ⟨hm, ht⟩, sub_self]

theorem foldl_corrections (f g : ExprId → ℚ) (children : List ExprId) : ∀ r : ℚ,
    children.foldl (fun r c => r - f c + g c) r = r + (children.map fun c => g c - f c).sum := by
  induction children with
  | nil => exact fun r => (add_zero r).symm
  | cons c children ih =>
    intro r
    rw [foldl_cons, ih, map_cons, sum_cons]
    ring

/-- Both updates return the snapped sum, `evaluate` less what the last snap has taken off. -/
theorem updates_return_sum (s : SumOverThreshold) (h : s.Reached t st v) (hc : s.Changes v v' cs) :
    s.evaluate t st v v' cs = t.snapToZero (s.sum v' (v' s.threshold) -
      if v' s.threshold = v s.threshold then
        s.sum v (v s.threshold) - t.snapToZero (s.sum v (v s.threshold)) else 0) ∧
    (s.innerPartialApply t st v v' cs).value = t.snapToZero (s.sum v' (v' s.threshold)) := by
  obtain ⟨hh, hv⟩ := h.holds
  refine ⟨?_, (innerPartialApply_spec hh hc).2⟩
  have hm : ((cs.filter (· ≠ s.threshold)).map fun c =>
      s.evaluateSingle (v' c) (v' s.threshold) -
        s.evaluateSingle (st.values c) (v' s.threshold)).sum =
      s.sum v' (v' s.threshold) - s.sum v (v' s.threshold) := by
    rw [← sum_changed hc]
    congr 1
    apply map_congr_left
    intro c h
    rw [mem_filter, decide_eq_true_eq] at h
    rw [hh.values c (mem_summands.mpr ⟨hc.children c h.1, h.2⟩)]
  rw [evaluate, hc.newThreshold, foldl_corrections, hm]
  congr 1
  by_cases he : v' s.threshold = v s.threshold
  · rw [if_neg (not_not.mpr he), if_pos he, hv, he]
    ring
  · rw [if_pos he, if_neg he, hh.evaluateTree]
    ring

def overZero : SumOverThreshold := ⟨0, ⟨[1], nodup_one⟩, false⟩

theorem overZero_snapped : (overZero.innerPartialApply defaultTolerances
    (overZero.populateAndEvaluate defaultTolerances fun _ => 0) (fun _ => 0)
    (fun c => if c = 1 then 1 / 10 ^ 11 else 0) [1]).value = 0 ∧
    overZero.sum (fun c => if c = 1 then 1 / 10 ^ 11 else 0) 0 = 1 / 10 ^ 11 := by
  decide +kernel

theorem overZero_tripled : (overZero.innerPartialApply defaultTolerances
    (overZero.populateAndEvaluate defaultTolerances fun c => c) (fun c => c) (fun c => 3 * c)
    [1]).value = defaultTolerances.snapToZero (overZero.sum (fun c => 3 * c) (3 * (0 : Nat))) :=
  (updates_return_sum overZero .fullApply ⟨nodup_singleton 1, by decide, by decide +kernel⟩).2

end SumOverThreshold

end Rebalancer
