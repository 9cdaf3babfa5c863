import Rebalancer.BoundsSound

namespace Rebalancer
open List AssocMap

def descending (l : List ℚ) : List ℚ := l.mergeSort fun v w => decide (w ≤ v)

def mapUnion : List ℚ → List ℚ → List ℚ
  | [], l₂ => l₂
  | l₁, [] => l₁
  | key1 :: l₁, key2 :: l₂ =>
    if key2 < key1 then key1 :: mapUnion l₁ (key2 :: l₂)
    else if key1 < key2 then key2 :: mapUnion (key1 :: l₁) l₂
    else key1 :: mapUnion l₁ l₂
termination_by l₁ l₂ => l₁.length + l₂.length

theorem mem_mapUnion : v ∈ mapUnion l₁ l₂ ↔ v ∈ l₁ ∨ v ∈ l₂ := by
  fun_induction mapUnion l₁ l₂ <;> grind

theorem mapUnion_sorted (h₁ : l₁.Pairwise (· > ·)) (h₂ : l₂.Pairwise (· > ·)) :
    (mapUnion l₁ l₂).Pairwise (· > ·) := by
  fun_induction mapUnion l₁ l₂ <;> grind [mem_mapUnion, pairwise_cons]

theorem descending_perm (l : List ℚ) : (descending l).Perm l := mergeSort_perm _ _

theorem mem_descending : v ∈ descending l ↔ v ∈ l := mem_mergeSort

theorem descending_sorted (h : l.Nodup) : (descending l).Pairwise (· > ·) := by
  apply (SortedGE.sortedGT_of_nodup sortedGE_mergeSort ?_).pairwise
  exact (descending_perm l).nodup_iff.mpr h

/-- The loop of `NthLargest::computeNthLargest`; `none` is the infinity that it starts with. -/
def walk (n : Int) (unique : Bool) (frequency : ℚ → Int) : List ℚ → Int → Option ℚ → Option ℚ
  | [], _, smallestValue => smallestValue
  | value :: values, index, smallestValue =>
    if frequency value = 0 then walk n unique frequency values index smallestValue
    else
      let index := index + if unique then 1 else frequency value
      if n < index then some value else walk n unique frequency values index (some value)

theorem walk_eq (f : ℚ → Nat) (l : List ℚ) : ∀ i s, walk n u (fun v => f v) l i s =
    nthLargestLoop n u f (l.filter fun v => f v ≠ 0) i s := by
  induction l with
  | nil => exact fun _ _ => rfl
  | cons v l ih =>
    intro i s
    rw [walk, filter_cons]
    by_cases h : f v = 0
    · simp [h, ih]
    · simp [h, ih, nthLargestLoop]

section
variable (w : ℚ → Nat)

def repeated (l : List ℚ) : List ℚ := l.flatMap fun v => replicate (w v) v

theorem repeated_cons (v : ℚ) (l : List ℚ) :
    repeated w (v :: l) = replicate (w v) v ++ repeated w l :=
  flatMap_cons

theorem nthLargestLoop_eq (hu : ∀ v, (if u then 1 else f v : Int) = w v)
    (hw : ∀ v ∈ l, 0 < w v) (hne : l ≠ []) : ∀ i s, nthLargestLoop n u f l i s =
      (repeated w l)[min (n - i).toNat ((repeated w l).length - 1)]? := by
  induction l with
  | nil => exact absurd rfl hne
  | cons v l ih =>
    intro i s
    obtain ⟨hv, hw⟩ := forall_mem_cons.mp hw
    rw [nthLargestLoop, hu, repeated_cons, length_append, length_replicate]
    split_ifs with hlt
    · rw [getElem?_append_left (by rw [length_replicate]; omega), getElem?_replicate,
        if_pos (by omega)]
    · cases l with
      | nil =>
        rw [nthLargestLoop, repeated, flatMap_nil, append_nil, getElem?_replicate, length_nil,
          if_pos (by omega)]
      | cons v' l =>
        have hl : 0 < (repeated w (v' :: l)).length := by
          rw [repeated_cons, length_append, length_replicate]
          have := hw v' mem_cons_self
          omega
        rw [ih hw (cons_ne_nil _ _), getElem?_append_right (by rw [length_replicate]; omega),
          length_replicate]
        congr 1
        omega

theorem count_repeated (h : l.Nodup) (v : ℚ) :
    (repeated w l).count v = if v ∈ l then w v else 0 := by
  induction l with
  | nil => rfl
  | cons v' l ih =>
    obtain ⟨hv, hl⟩ := nodup_cons.mp h
    rw [repeated_cons, count_append, count_replicate, ih hl]
    grind

theorem repeated_sorted (h : l.Pairwise (· > ·)) : (repeated w l).Pairwise (· ≥ ·) := by
  refine pairwise_flatMap.mpr ⟨fun e _ => pairwise_replicate.mpr (.inr le_rfl), h.imp ?_⟩
  intro v w hlt x hx y hy
  rw [eq_of_mem_replicate hx, eq_of_mem_replicate hy]
  exact hlt.le

end

structure NthLargest where
  children : IdSet
  n : Int
  unique : Bool
  nonempty : children.elems ≠ []

namespace NthLargest
variable (e : NthLargest)

structure State where
  childValue : ExprId → ℚ
  valueFrequency : AssocMap ℚ Int
  value : Option ℚ

def addTo (m : AssocMap ℚ Int) (v : ℚ) (d : Int) : AssocMap ℚ Int := m.insert v (m.getD v 0 + d)

def computeNthLargest (valueFrequency delta : AssocMap ℚ Int) : Option ℚ :=
  walk e.n e.unique (fun v => valueFrequency.getD v 0 + delta.getD v 0)
    (mapUnion (descending valueFrequency.keys) (descending delta.keys)) 0 none

def applyUsingChildValues (childValue : ExprId → ℚ) : State :=
  let valueFrequency := e.children.elems.foldl (fun m c => addTo m (childValue c) 1) ∅
  ⟨childValue, valueFrequency, e.computeNthLargest valueFrequency ∅⟩

def countChange (oldValue newValue : ExprId → ℚ) (m : AssocMap ℚ Int) (c : ExprId) :
    AssocMap ℚ Int :=
  if oldValue c ≠ newValue c then addTo (addTo m (oldValue c) (-1)) (newValue c) 1 else m

def evaluate (st : State) (changedChildren : List ExprId) (newValue : ExprId → ℚ) : Option ℚ :=
  let delta := changedChildren.foldl (countChange st.childValue newValue) ∅
  if delta.keys = [] then st.value else e.computeNthLargest st.valueFrequency delta

def applyAll (initial : ExprId → ℚ) (applied : List (ExprId → ℚ)) : State :=
  applied.foldl (fun _ => e.applyUsingChildValues) (e.applyUsingChildValues initial)

/-- The child value with the index `n` from the largest on, or the smallest one. -/
def nthLargest (value : ExprId → ℚ) : Option ℚ :=
  let values := e.children.elems.map value
  let sorted := descending (if e.unique then values.dedup else values)
  sorted[min e.n.toNat (sorted.length - 1)]?

variable {e}

theorem getD_addTo (m : AssocMap ℚ Int) (v w : ℚ) (d : Int) :
    (addTo m v d).getD w 0 = m.getD w 0 + if w = v then d else 0 := by
  rw [addTo, getD_insert_if]
  split_ifs with h
  · rw [h]
  · rw [add_zero]

theorem getD_frequency (v : ExprId → ℚ) (w : ℚ) (cs : List ExprId) : ∀ m : AssocMap ℚ Int,
    (cs.foldl (fun m c => addTo m (v c) 1) m).getD w 0 = m.getD w 0 + (cs.map v).count w := by
  induction cs with
  | nil => exact fun m => (add_zero _).symm
  | cons c cs ih =>
    intro m
    rw [foldl_cons, ih, getD_addTo, map_cons, count_cons]
    grind

theorem getD_delta (v v' : ExprId → ℚ) (w : ℚ) (cs : List ExprId) : ∀ m : AssocMap ℚ Int,
    (cs.foldl (countChange v v') m).getD w 0 =
      m.getD w 0 + (cs.map v').count w - (cs.map v).count w := by
  induction cs with
  | nil => intro m; simp
  | cons c cs ih =>
    intro m
    rw [foldl_cons, ih, map_cons, map_cons, count_cons, count_cons, countChange]
    by_cases h : v c = v' c
    · rw [if_neg (not_not.mpr h), h]
      grind
    · rw [if_pos h, getD_addTo, getD_addTo]
      grind

theorem mem_keys_of_getD {m : AssocMap ℚ Int} (h : m.getD v 0 ≠ 0) : v ∈ descending m.keys := by
  apply mem_descending.mpr
  by_contra hk
  apply h
  rw [AssocMap.getD, AList.lookup_eq_none.mpr hk]
  rfl

theorem computeNthLargest_eq {m d : AssocMap ℚ Int} {vs : List ℚ}
    (h : ∀ v, m.getD v 0 + d.getD v 0 = vs.count v) :
    e.computeNthLargest m d = Rebalancer.computeNthLargest e.n e.unique vs := by
  have hs := mapUnion_sorted (descending_sorted m.keys_nodup) (descending_sorted d.keys_nodup)
  rw [computeNthLargest, funext h, walk_eq]
  have hl : (mapUnion (descending m.keys) (descending d.keys)).filter (fun v => vs.count v ≠ 0) =
      descending vs.dedup := by
    apply Subset.antisymm_of_sortedGT _ _ (hs.filter _).sortedGT
      (descending_sorted vs.nodup_dedup).sortedGT
    · intro v hv
      have hc := of_decide_eq_true (mem_filter.mp hv).2
      exact mem_descending.mpr (mem_dedup.mpr (count_pos_iff.mp (Nat.pos_of_ne_zero hc)))
    · intro v hv
      have hc := count_pos_iff.mpr (mem_dedup.mp (mem_descending.mp hv))
      apply mem_filter.mpr ⟨mem_mapUnion.mpr ?_, decide_eq_true hc.ne'⟩
      by_contra hk
      obtain ⟨hm, hd⟩ := not_or.mp hk
      have hv := h v
      rw [not_not.mp (hm ∘ mem_keys_of_getD), not_not.mp (hd ∘ mem_keys_of_getD)] at hv
      omega
  rw [hl]
  rfl

theorem repeated_eq_descending (u : Bool) (vs : List ℚ) :
    repeated (fun v => if u then 1 else vs.count v) (descending vs.dedup) =
      descending (if u then vs.dedup else vs) := by
  have hs := descending_sorted vs.nodup_dedup
  apply Perm.eq_of_sortedGE (repeated_sorted _ hs).sortedGE sortedGE_mergeSort
  rw [perm_iff_count]
  intro v
  change _ = count v (descending _)
  rw [count_repeated _ hs.nodup, (descending_perm _).count_eq]
  simp only [mem_descending, mem_dedup]
  cases u with
  | true => exact (count_dedup _ _).symm
  | false =>
    simp only [Bool.false_eq_true, if_false]
    split_ifs with h
    · rfl
    · exact (count_eq_zero_of_not_mem h).symm

theorem computeNthLargest_nthLargest (v : ExprId → ℚ) :
    Rebalancer.computeNthLargest e.n e.unique (e.children.elems.map v) = e.nthLargest v := by
  obtain ⟨c, hc⟩ := exists_mem_of_ne_nil _ e.nonempty
  have hv := mem_descending.mpr (mem_dedup.mpr (mem_map_of_mem (f := v) hc))
  rw [nthLargest]
  generalize e.children.elems.map v = vs at hv
  change nthLargestLoop _ _ _ (descending vs.dedup) _ _ = _
  rw [nthLargestLoop_eq (fun v => if e.unique then 1 else vs.count v) _ _ (ne_nil_of_mem hv),
    repeated_eq_descending, sub_zero]
  · intro v
    split_ifs <;> rfl
  · intro v hv
    split_ifs
    · exact one_pos
    · exact count_pos_iff.mpr (mem_dedup.mp (mem_descending.mp hv))

theorem applyAll_eq (applied : List (ExprId → ℚ)) : ∀ initial,
    e.applyAll initial applied = e.applyUsingChildValues (applied.getLastD initial) := by
  induction applied with
  | nil => exact fun _ => rfl
  | cons v vs ih =>
    intro initial
    rw [getLastD_cons]
    exact ih v

variable (e)

/-- The node keeps the n-th largest of the current child values, and finds that of the new ones. -/
theorem evaluates_nthLargest (initial : ExprId → ℚ) (applied : List (ExprId → ℚ)) :
    (e.applyAll initial applied).value = e.nthLargest (applied.getLastD initial) ∧
      ∀ changed unchanged newValue, e.children.elems.Perm (changed ++ unchanged) →
        (∀ c ∈ unchanged, newValue c = applied.getLastD initial c) →
        e.evaluate (e.applyAll initial applied) changed newValue = e.nthLargest newValue := by
  rw [applyAll_eq]
  generalize applied.getLastD initial = v
  have h0 w : (∅ : AssocMap ℚ Int).getD w 0 = 0 := rfl
  constructor
  · refine (computeNthLargest_eq fun w => ?_).trans (computeNthLargest_nthLargest v)
    rw [getD_frequency, h0, zero_add, add_zero]
  · intro changed unchanged v' hp hv
    have hd w := getD_delta v v' w changed ∅
    rw [← computeNthLargest_nthLargest, evaluate]
    change (if AList.keys (changed.foldl (countChange v v') ∅) = [] then _
      else e.computeNthLargest _ (changed.foldl (countChange v v') ∅)) = _
    generalize changed.foldl (countChange v v') ∅ = d at hd ⊢
    have hc : e.computeNthLargest (e.applyUsingChildValues v).valueFrequency d =
        Rebalancer.computeNthLargest e.n e.unique (e.children.elems.map v') := by
      apply computeNthLargest_eq
      intro w
      rw [applyUsingChildValues, getD_frequency, hd, h0, (hp.map v).count_eq, (hp.map v').count_eq,
        map_append, map_append, count_append, count_append, map_congr_left hv]
      omega
    rw [← hc]
    split_ifs with hk
    · have hd : d = ∅ := AList.ext (map_eq_nil_iff.mp hk)
      rw [hd]
      rfl
    · rfl

theorem twoChildren_exchanged : let e : NthLargest := ⟨⟨[0, 1], by decide⟩, 0, false, by decide⟩
    let old : ExprId → ℚ := fun c => if c = 0 then 1 else 2
    let new : ExprId → ℚ := fun c => if c = 0 then 2 else 1
    e.evaluate (e.applyAll old []) [1, 0] new = e.nthLargest new :=
  (evaluates_nthLargest _ _ []).2 [1, 0] [] _ (.swap ..) nofun

end NthLargest

end Rebalancer
