import Rebalancer.ExpressionNodes

namespace Rebalancer
open Bounds Transform
open List hiding sum
variable {value : ExprId → Except String ℚ}
variable {bs bounds' : ExprId → Bounds}

theorem minOf_le (h : x ∈ l) : minOf l ≤ x := by
  rw [minOf]
  cases hm : l.min? with
  | none =>
    rw [min?_eq_none_iff.mp hm] at h
    cases h
  | some m => exact (min?_eq_some_iff.mp hm).2 x h

theorem le_maxOf (h : x ∈ l) : x ≤ maxOf l := by
  rw [maxOf]
  cases hm : l.max? with
  | none =>
    rw [max?_eq_none_iff.mp hm] at h
    cases h
  | some m => exact (max?_eq_some_iff.mp hm).2 x h

theorem maxOf_mem (h : l ≠ []) : maxOf l ∈ l := by
  rw [maxOf]
  cases hm : l.max? with
  | none => exact absurd (max?_eq_none_iff.mp hm) h
  | some m => exact (max?_eq_some_iff.mp hm).1

theorem minOf_mem (h : l ≠ []) : minOf l ∈ l := by
  rw [minOf]
  cases hm : l.min? with
  | none => exact absurd (min?_eq_none_iff.mp hm) h
  | some m => exact (min?_eq_some_iff.mp hm).1

theorem maxOf_map_le {l : List ι} (h : ∀ i ∈ l, f i ≤ g i) : maxOf (l.map f) ≤ maxOf (l.map g) := by
  by_cases hl : l = []
  · rw [hl]
    exact le_refl _
  · obtain ⟨i, hi, hfi⟩ := mem_map.mp (maxOf_mem (l := l.map f) (by simpa using hl))
    rw [← hfi]
    exact (h i hi).trans (le_maxOf (mem_map_of_mem hi))

namespace Bounds

theorem Contains.snapToZero {b : Bounds} (t : PrecisionTolerances) (h : b.Contains v) :
    (⟨t.snapToZero b.lowerBound, t.snapToZero b.upperBound⟩ : Bounds).Contains
      (t.snapToZero v) :=
  ⟨t.snapToZero_mono h.1, t.snapToZero_mono h.2⟩

theorem Contains.foldl {step : Bounds → ι → Bounds} {l : List ι}
    (hs : ∀ i ∈ l, ∀ b v, b.Contains v → (step b i).Contains (v + term i)) :
    ∀ b v, b.Contains v → (l.foldl step b).Contains (v + (l.map term).sum) := by
  induction l with
  | nil =>
    intro b v h
    simpa using h
  | cons i l ih =>
    intro b v h
    rw [map_cons, sum_cons, ← add_assoc]
    apply ih fun j hj => hs j (mem_cons_of_mem _ hj)
    exact hs i mem_cons_self b v h

theorem Contains.monotone_image (hf : ∀ v w, v ≤ w → f v ≤ f w)
    (h : b.Contains v) : (imageBounds f b).Contains (f v) := by
  have hl := hf _ _ h.1
  refine ⟨?_, (hf _ _ h.2).trans (le_max_left _ _)⟩
  rw [imageBounds]
  split
  · exact (min_le_left _ _).trans ((min_le_right _ _).trans hl)
  · exact (min_le_right _ _).trans hl

theorem Contains.square (h : b.Contains v) : (imageBounds (fun v => v * v) b).Contains (v * v) := by
  obtain ⟨hlow, hh⟩ := h
  refine ⟨?_, ?_⟩
  · simp only [imageBounds]
    split
    · exact (min_le_right _ _).trans (by nlinarith)
    · rename_i hs
      rcases not_and_or.mp hs with hl | hu
      · exact (min_le_right _ _).trans (by nlinarith)
      · exact (min_le_left _ _).trans (by nlinarith)
  · simp only [imageBounds]
    rcases le_total 0 v with hv | hv
    · exact le_max_of_le_left (by nlinarith)
    · exact le_max_of_le_right (by nlinarith)

theorem Contains.mul {b c : Bounds} (hv : b.Contains v) (hw : c.Contains w) :
    (∃ x ∈ [b.lowerBound * c.lowerBound, b.lowerBound * c.upperBound,
        b.upperBound * c.lowerBound, b.upperBound * c.upperBound], x ≤ v * w) ∧
      ∃ x ∈ [b.lowerBound * c.lowerBound, b.lowerBound * c.upperBound,
        b.upperBound * c.lowerBound, b.upperBound * c.upperBound], v * w ≤ x := by
  obtain ⟨hv₁, hv₂⟩ := hv
  obtain ⟨hw₁, hw₂⟩ := hw
  simp only [mem_cons, not_mem_nil, or_false, exists_eq_or_imp, exists_eq_left]
  rcases le_total 0 v with hv0 | hv0
  · have hl := mul_le_mul_of_nonneg_left hw₁ hv0
    have hh := mul_le_mul_of_nonneg_left hw₂ hv0
    constructor
    · rcases le_total 0 c.lowerBound with hc | hc
      · exact .inl ((mul_le_mul_of_nonneg_right hv₁ hc).trans hl)
      · exact .inr (.inr (.inl ((mul_le_mul_of_nonpos_right hv₂ hc).trans hl)))
    · rcases le_total 0 c.upperBound with hc | hc
      · exact .inr (.inr (.inr (hh.trans (mul_le_mul_of_nonneg_right hv₂ hc))))
      · exact .inr (.inl (hh.trans (mul_le_mul_of_nonpos_right hv₁ hc)))
  · have hl := mul_le_mul_of_nonpos_left hw₂ hv0
    have hh := mul_le_mul_of_nonpos_left hw₁ hv0
    constructor
    · rcases le_total 0 c.upperBound with hc | hc
      · exact .inr (.inl ((mul_le_mul_of_nonneg_right hv₁ hc).trans hl))
      · exact .inr (.inr (.inr ((mul_le_mul_of_nonpos_right hv₂ hc).trans hl)))
    · rcases le_total 0 c.lowerBound with hc | hc
      · exact .inr (.inr (.inl (hh.trans (mul_le_mul_of_nonneg_right hv₂ hc))))
      · exact .inl (hh.trans (mul_le_mul_of_nonpos_right hv₁ hc))

end Bounds

theorem Transform.bounds_contain (t : PrecisionTolerances) (t' : Transform) (h : b.Contains v) :
    (t'.innerLowerAndUpperBounds t b).Contains (t'.performTransform t v) := by
  cases t' with
  | square => exact h.square
  | step =>
    apply h.monotone_image
    intro v w hvw
    simp only [performTransform]
    split
    · rename_i hv
      rw [if_pos (PrecisionTolerances.isStrictlyGtZero_mono hvw hv)]
    · split
      · exact zero_le_one
      · exact le_refl 0
  | ceil => exact h.monotone_image fun v w hvw => t.ceil_mono hvw
  | rectangle l upperBound =>
    simp only [innerLowerAndUpperBounds, performTransform]
    split
    · exact ⟨zero_le_one, le_refl 1⟩
    · exact ⟨le_refl 0, zero_le_one⟩

theorem LinearTerms.addBounds_contains (s : LinearTerms)
    (hs : sum.Contains v) (hc : (bs c).Contains w) :
    (s.addBounds bs sum c).Contains (v + w * s.getChildCoefficient c) := by
  rw [addBounds]
  split
  · rename_i hzero
    rw [hzero, mul_zero, add_zero]
    exact hs
  · split
    · rename_i hp
      exact ⟨add_le_add hs.1 (mul_le_mul_of_nonneg_right hc.1 hp.le),
        add_le_add hs.2 (mul_le_mul_of_nonneg_right hc.2 hp.le)⟩
    · rename_i hp
      exact ⟨add_le_add hs.1 (mul_le_mul_of_nonpos_right hc.2 (not_lt.mp hp)),
        add_le_add hs.2 (mul_le_mul_of_nonpos_right hc.1 (not_lt.mp hp))⟩

theorem LinearTerms.bounds_contain (t : PrecisionTolerances) (s : LinearTerms)
    (hch : ∀ c ∈ s.children.elems, ∀ v, value c = .ok v → (bs c).Contains v)
    (h : s.innerFullApply t value = .ok v) : (s.innerLowerAndUpperBounds t bs).Contains v := by
  obtain ⟨terms, ht, h⟩ := except_bind_ok h
  cases h
  obtain ⟨k, rfl, hk⟩ := exists_map_of_mapM_ok ht
  apply Contains.snapToZero
  apply Contains.foldl _ _ _ ⟨le_refl _, le_refl _⟩
  intro c hc b v hb
  obtain ⟨w, hw, hkw⟩ := except_bind_ok (hk c hc)
  rw [← Except.ok.inj hkw]
  exact s.addBounds_contains hb (hch c hc w hw)

namespace SumOverThreshold

theorem evaluateSingle_mono (s : SumOverThreshold) (hv : v ≤ v') (ht : w' ≤ w) :
    s.evaluateSingle v w ≤ s.evaluateSingle v' w' := by
  have hm := max_le_max_left 0 (sub_le_sub hv ht)
  simp only [evaluateSingle]
  split
  · exact mul_self_le_mul_self (le_max_left _ _) hm
  · exact hm

theorem evaluateCollection_eq (s : SumOverThreshold) (vs : List ℚ) (t : ℚ) :
    s.evaluateCollection vs t = (vs.map fun v => s.evaluateSingle v t).sum := by
  induction vs with
  | nil =>
    rw [evaluateCollection]
    split
    · norm_num
    · norm_num
  | cons v vs ih =>
    rw [map_cons, sum_cons, ← ih]
    simp only [evaluateCollection, evaluateSingle]
    by_cases hv : v < t
    · rw [filter_cons_of_pos (by simpa using hv), max_eq_left (by linarith)]
      simp only [map_cons, sum_cons, length_cons, Nat.cast_add, Nat.cast_one]
      split
      · ring
      · ring
    · rw [filter_cons_of_neg (by simpa using hv), max_eq_right (by linarith)]
      simp only [map_cons, sum_cons, length_cons, Nat.cast_add, Nat.cast_one]
      split
      · ring
      · ring

theorem bounds_contain (t : PrecisionTolerances) (s : SumOverThreshold)
    (hch : ∀ c ∈ s.children, ∀ v, value c = .ok v → (bs c).Contains v)
    (h : s.innerFullApply t value = .ok v) : (s.innerLowerAndUpperBounds t bs).Contains v := by
  obtain ⟨threshold, ht, h⟩ := except_bind_ok h
  obtain ⟨values, hv, h⟩ := except_bind_ok h
  cases h
  obtain ⟨k, rfl, hk⟩ := exists_map_of_mapM_ok hv
  have hmem : s.threshold ∈ s.children := IdSet.mem_insert.mpr (.inl rfl)
  have hbounds := hch s.threshold hmem threshold ht
  apply Contains.snapToZero
  rw [evaluateCollection_eq, map_map, ← zero_add (List.sum _)]
  apply Contains.foldl _ _ _ ⟨le_refl _, le_refl _⟩
  intro c hc b v hb
  have hc' := hch c (mem_of_mem_filter hc) (k c) (hk c hc)
  exact ⟨add_le_add hb.1 (s.evaluateSingle_mono hc'.1 hbounds.2),
    add_le_add hb.2 (s.evaluateSingle_mono hc'.2 hbounds.1)⟩

end SumOverThreshold

theorem nthLargestLoop_mem : ∀ {i : Int} {s : Option ℚ}, nthLargestLoop n u f values i s = some v →
      s = some v ∨ v ∈ values := by
  induction values with
  | nil =>
    intro i s h
    exact .inl h
  | cons w values ih =>
    intro i s h
    simp only [nthLargestLoop] at h
    generalize (i + if u then 1 else (f w : Int)) = next at h
    split at h
    · cases h
      exact .inr mem_cons_self
    · rcases ih h with hw | hv
      · cases hw
        exact .inr mem_cons_self
      · exact .inr (mem_cons_of_mem _ hv)

theorem nthLargestLoop_isSome : ∀ {i : Int} {v : Option ℚ}, v.isSome ∨ vs ≠ [] →
      (nthLargestLoop n u f vs i v).isSome := by
  induction vs with
  | nil =>
    intro i v h
    exact h.resolve_right fun hne => hne rfl
  | cons w vs ih =>
    intro i v _
    simp only [nthLargestLoop]
    generalize (i + if u then 1 else (f w : Int)) = next
    split
    · rfl
    · exact ih (.inl rfl)

theorem computeNthLargest_mem {values : List ℚ} (hne : values ≠ []) :
    (computeNthLargest n u values).getD 0 ∈ values := by
  have hs : (values.dedup.mergeSort fun v w => decide (w ≤ v)) ≠ [] := by
    intro hn
    obtain ⟨v, hv⟩ := exists_mem_of_ne_nil values hne
    have hmem : v ∈ values.dedup.mergeSort fun v w => decide (w ≤ v) :=
      mem_mergeSort.mpr (mem_dedup.mpr hv)
    rw [hn] at hmem
    cases hmem
  obtain ⟨v, hv⟩ := Option.isSome_iff_exists.mp (nthLargestLoop_isSome (.inr hs))
  rw [computeNthLargest, hv, Option.getD_some]
  rcases nthLargestLoop_mem hv with h | h
  · cases h
  · exact mem_dedup.mp (mem_mergeSort.mp h)

theorem ObjectValues.nonDefaultCount_eq (vs : ObjectValues n ps) :
    vs.nonDefaultCount = vs.nonDefaultEntries.length := by
  cases vs with
  | objectBacked m => rfl
  | groupBacked g p d disjoint =>
    simp [nonDefaultCount, nonDefaultEntries]

theorem ObjectValues.sum_range (u : Universe ps) (vs : ObjectValues u.numObjects ps) (g : ℚ → ℚ) :
    ((range u.numObjects).map fun o => g (vs.getObjectValue o)).sum =
      (vs.nonDefaultEntries.map fun entry => g entry.2).sum +
        (u.numObjects - vs.nonDefaultCount : Nat) * g vs.defaultValue := by
  let keys := vs.nonDefaultEntries.map Prod.fst
  have hk : keys.Perm ((range u.numObjects).filter (· ∈ keys)) := by
    rw [perm_ext_iff_of_nodup vs.nodup_nonDefaultEntries (nodup_range.filter _)]
    intro o
    rw [mem_filter, decide_eq_true_eq, mem_range]
    exact ⟨fun ho => ⟨vs.lt_of_mem u ho, ho⟩, And.right⟩
  have hs := filter_append_perm (· ∈ keys) (range u.numObjects)
  have hl : (keys.map fun o => g (vs.getObjectValue o)).sum =
      (vs.nonDefaultEntries.map fun entry => g entry.2).sum := by
    rw [map_map]
    congr 1
    apply map_congr_left
    intro entry he
    simp [vs.getObjectValue_of_mem he]
  have hothers : (((range u.numObjects).filter fun o => !decide (o ∈ keys)).map
      fun o => g (vs.getObjectValue o)).sum =
      (u.numObjects - vs.nonDefaultCount : Nat) * g vs.defaultValue := by
    have hc : ((range u.numObjects).filter fun o => !decide (o ∈ keys)).map
        (fun o => g (vs.getObjectValue o)) =
        ((range u.numObjects).filter fun o => !decide (o ∈ keys)).map
          (fun _ => g vs.defaultValue) := by
      apply map_congr_left
      intro o ho
      have hn : o ∉ keys := by simpa using (mem_filter.mp ho).2
      rw [vs.getObjectValue_of_not_mem hn]
    have hlength : ((range u.numObjects).filter fun o => !decide (o ∈ keys)).length =
        u.numObjects - vs.nonDefaultCount := by
      have ha := hs.length_eq
      rw [length_append, ← hk.length_eq, length_map, length_range] at ha
      rw [vs.nonDefaultCount_eq]
      omega
    rw [hc, map_const', sum_replicate, hlength, nsmul_eq_mul]
  rw [← (hs.map _).sum_eq, map_append, sum_append, hothers, ← hl, (hk.map _).sum_eq]

theorem sum_filter_between (f : ι → ℚ) (p : ι → Bool) (l : List ι) :
    (l.map fun i => min (f i) 0).sum ≤ ((l.filter p).map f).sum ∧
      ((l.filter p).map f).sum ≤ (l.map fun i => max (f i) 0).sum := by
  induction l with
  | nil => exact ⟨le_refl _, le_refl _⟩
  | cons i l ih =>
    rw [filter_cons]
    split
    · exact ⟨add_le_add (min_le_left _ _) ih.1, add_le_add (le_max_left _ _) ih.2⟩
    · exact ⟨(add_le_of_nonpos_left (min_le_right _ _)).trans ih.1,
        ih.2.trans (le_add_of_nonneg_left (le_max_right _ _))⟩

namespace ObjectLookup
variable {u : Universe partitions}

theorem addValue_eq (b : Bounds) (e : ObjectId × ℚ) :
    addValue b e = ⟨b.lowerBound + min e.2 0, b.upperBound + max e.2 0⟩ := by
  rw [addValue]
  split
  · rename_i hneg
    rw [min_eq_left hneg.le, max_eq_right hneg.le, add_zero]
  · rename_i hneg
    have hn := not_lt.mp hneg
    split
    · rw [min_eq_right hn, max_eq_left hn, add_zero]
    · rename_i hp
      rw [le_antisymm (not_lt.mp hp) hn, min_self, max_self, add_zero, add_zero]

theorem foldl_addValue (es : List (ObjectId × ℚ)) : ∀ b : Bounds, es.foldl addValue b =
      ⟨b.lowerBound + (es.map fun entry => min entry.2 0).sum,
        b.upperBound + (es.map fun entry => max entry.2 0).sum⟩ := by
  induction es with
  | nil =>
    intro b
    simp
  | cons entry es ih =>
    intro b
    rw [foldl_cons, ih, addValue_eq, map_cons, sum_cons, map_cons,
      sum_cons, add_assoc, add_assoc]

theorem innerLowerAndUpperBounds_eq (l : ObjectLookup u) : l.innerLowerAndUpperBounds =
      ⟨((range u.numObjects).map fun o => min (l.objectVector.getObjectValue o) 0).sum,
        ((range u.numObjects).map fun o => max (l.objectVector.getObjectValue o) 0).sum⟩ := by
  rw [l.objectVector.sum_range u fun v => min v 0, l.objectVector.sum_range u fun v => max v 0,
    innerLowerAndUpperBounds, foldl_addValue]
  simp only [zero_add]
  split
  · rename_i hneg
    rw [min_eq_left hneg.le, max_eq_right hneg.le, mul_zero, add_zero]
  · rename_i hneg
    have hn := not_lt.mp hneg
    split
    · rw [min_eq_right hn, max_eq_left hn, mul_zero, add_zero]
    · rename_i hp
      rw [le_antisymm (not_lt.mp hp) hn, min_self, max_self, mul_zero, add_zero, add_zero]

theorem bounds_contain (l : ObjectLookup u) (a : Assignment) :
    l.innerLowerAndUpperBounds.Contains (l.applyAssignment a) := by
  rw [innerLowerAndUpperBounds_eq, applyAssignment_eq]
  exact sum_filter_between _ _ _

end ObjectLookup

namespace ArithmeticNode
variable {u : Universe partitions}

theorem innerFullApply_congr (node : ArithmeticNode u) (a : Assignment)
    {value value' : ExprId → Except String ℚ} (h : ∀ c ∈ node.children, value c = value' c) :
    node.innerFullApply a value = node.innerFullApply a value' := by
  cases node with
  | var o container => rfl
  | objectLookup l => rfl
  | linearSum s =>
    have hterms : s.children.elems.mapM (fun child => do
        let v ← value child
        .ok (v * s.getChildCoefficient child)) = s.children.elems.mapM (fun child => do
        let v ← value' child
        .ok (v * s.getChildCoefficient child)) := by
      apply mapM_congr
      intro c hc
      rw [h c hc]
    simp [innerFullApply, LinearTerms.innerFullApply, hterms]
  | max children nonempty =>
    have hv : children.elems.mapM value = children.elems.mapM value' := mapM_congr h
    simp [innerFullApply, hv]
  | nthLargest children n unique nonempty =>
    have hv : children.elems.mapM value = children.elems.mapM value' := mapM_congr h
    simp [innerFullApply, hv]
  | sumOverThreshold s =>
    have ht : value s.threshold = value' s.threshold := h _ (IdSet.mem_insert.mpr (.inl rfl))
    have hs : s.summands.mapM value = s.summands.mapM value' :=
      mapM_congr fun c hc => h c (mem_of_mem_filter hc)
    simp [innerFullApply, SumOverThreshold.innerFullApply, ht, hs]
  | anyPositive children =>
    have hv : children.elems.mapM value = children.elems.mapM value' := mapM_congr h
    simp [innerFullApply, hv]
  | product child1st child2nd =>
    have hf : value child1st = value' child1st :=
      h _ (mem_insert_iff.mpr (.inr mem_cons_self))
    have hsecond : value child2nd = value' child2nd := h _ (mem_insert_iff.mpr (.inl rfl))
    simp [innerFullApply, hf, hsecond]
  | transform t child => simp [innerFullApply, h child mem_cons_self]
  | piecewise p child => simp [innerFullApply, h child mem_cons_self]

theorem map_bounds_congr {l : List ExprId} (h : ∀ c ∈ l, bs c = bounds' c) (f : Bounds → ℚ) :
    l.map (fun c => f (bs c)) = l.map (fun c => f (bounds' c)) := by
  apply map_congr_left
  intro c hc
  rw [h c hc]

theorem innerLowerAndUpperBounds_congr (node : ArithmeticNode u)
    (h : ∀ c ∈ node.children, bs c = bounds' c) :
    node.innerLowerAndUpperBounds bs = node.innerLowerAndUpperBounds bounds' := by
  cases node with
  | var o container => rfl
  | objectLookup l => rfl
  | linearSum s =>
    have hsum : s.children.elems.foldl (s.addBounds bs) ⟨s.constant, s.constant⟩ =
        s.children.elems.foldl (s.addBounds bounds') ⟨s.constant, s.constant⟩ := by
      apply foldl_ext
      intro sum c hc
      simp [LinearTerms.addBounds, h c hc]
    simp [innerLowerAndUpperBounds, LinearTerms.innerLowerAndUpperBounds, hsum]
  | max children nonempty =>
    have hchildren : ∀ c ∈ children.elems, bs c = bounds' c := h
    simp [innerLowerAndUpperBounds, map_bounds_congr hchildren lowerBound,
      map_bounds_congr hchildren upperBound]
  | nthLargest children n unique nonempty =>
    have hchildren : ∀ c ∈ children.elems, bs c = bounds' c := h
    simp [innerLowerAndUpperBounds, map_bounds_congr hchildren lowerBound,
      map_bounds_congr hchildren upperBound]
  | sumOverThreshold s =>
    have ht : bs s.threshold = bounds' s.threshold := h _ (IdSet.mem_insert.mpr (.inl rfl))
    have hsum : s.summands.foldl (s.addBounds bs) ⟨0, 0⟩ =
        s.summands.foldl (s.addBounds bounds') ⟨0, 0⟩ := by
      apply foldl_ext
      intro sum c hc
      simp [SumOverThreshold.addBounds, ht, h c (mem_of_mem_filter hc)]
    simp [innerLowerAndUpperBounds, SumOverThreshold.innerLowerAndUpperBounds, hsum]
  | anyPositive children => rfl
  | product child1st child2nd =>
    have hf : bs child1st = bounds' child1st :=
      h _ (mem_insert_iff.mpr (.inr mem_cons_self))
    have hs : bs child2nd = bounds' child2nd := h _ (mem_insert_iff.mpr (.inl rfl))
    simp [innerLowerAndUpperBounds, hf, hs]
  | transform t child => simp [innerLowerAndUpperBounds, h child mem_cons_self]
  | piecewise p child => rfl

theorem bounds_contain (node : ArithmeticNode u)
    (hch : ∀ c ∈ node.children, ∀ v, value c = .ok v → (bs c).Contains v)
    (h : node.innerFullApply a value = .ok v) :
    (node.innerLowerAndUpperBounds bs).Contains v := by
  cases node with
  | var o container =>
    cases h
    split
    · exact ⟨zero_le_one, le_refl 1⟩
    · exact ⟨le_refl 0, zero_le_one⟩
  | objectLookup l =>
    cases h
    exact l.bounds_contain a
  | linearSum s => exact s.bounds_contain u.precision hch h
  | max children nonempty =>
    obtain ⟨values, hvalues, h⟩ := except_bind_ok h
    cases h
    obtain ⟨k, rfl, hk⟩ := exists_map_of_mapM_ok hvalues
    exact ⟨maxOf_map_le fun c hc => (hch c hc _ (hk c hc)).1,
      maxOf_map_le fun c hc => (hch c hc _ (hk c hc)).2⟩
  | nthLargest children n unique nonempty =>
    obtain ⟨values, hvalues, h⟩ := except_bind_ok h
    cases h
    obtain ⟨k, rfl, hk⟩ := exists_map_of_mapM_ok hvalues
    have hne : children.elems.map k ≠ [] := fun hn => nonempty (map_eq_nil_iff.mp hn)
    obtain ⟨c, hc, hkc⟩ := mem_map.mp (@computeNthLargest_mem n unique _ hne)
    have hb := hch c hc _ (hk c hc)
    rw [← hkc]
    exact ⟨(minOf_le (mem_map_of_mem hc)).trans hb.1,
      hb.2.trans (le_maxOf (mem_map_of_mem hc))⟩
  | sumOverThreshold s => exact s.bounds_contain u.precision hch h
  | anyPositive children =>
    obtain ⟨values, hvalues, h⟩ := except_bind_ok h
    cases h
    obtain ⟨k, rfl, -⟩ := exists_map_of_mapM_ok hvalues
    cases hchild : children.elems with
    | nil => exact ⟨le_refl 0, by simp [innerLowerAndUpperBounds, hchild]⟩
    | cons c cs =>
      simp only [innerLowerAndUpperBounds, hchild, isEmpty_cons, Bool.false_eq_true,
        ↓reduceIte]
      split
      · exact ⟨zero_le_one, le_refl 1⟩
      · exact ⟨le_refl 0, zero_le_one⟩
  | product child1st child2nd =>
    obtain ⟨v, hv, h⟩ := except_bind_ok h
    obtain ⟨w, hw, h⟩ := except_bind_ok h
    cases h
    have hf := hch _ (mem_insert_iff.mpr (.inr mem_cons_self)) v hv
    have hs := hch _ (mem_insert_iff.mpr (.inl rfl)) w hw
    obtain ⟨⟨x, hx, hl⟩, y, hy, hh⟩ := hf.mul hs
    exact ⟨(minOf_le hx).trans hl, hh.trans (le_maxOf hy)⟩
  | transform t child =>
    obtain ⟨v, hv, h⟩ := except_bind_ok h
    cases h
    exact t.bounds_contain u.precision (hch child mem_cons_self v hv)
  | piecewise p child =>
    obtain ⟨v, hv, h⟩ := except_bind_ok h
    exact p.bounds_contains h

end ArithmeticNode

namespace ArithmeticDag
variable {u : Universe partitions}

section
variable (dag : ArithmeticDag u)

theorem value_rule (a : Assignment) : LocalRule dag.graph.children dag.graph.depth
      (fun value n => (dag.node n).innerFullApply a value) where
  depth_lt := dag.graph.depth_lt
  congr f g n h := by
    apply ArithmeticNode.innerFullApply_congr
    rw [← dag.children_eq]
    exact h

theorem bounds_rule : LocalRule dag.graph.children dag.graph.depth
      (fun bs n => (dag.node n).innerLowerAndUpperBounds bs) where
  depth_lt := dag.graph.depth_lt
  congr f g n h := by
    apply ArithmeticNode.innerLowerAndUpperBounds_congr
    rw [← dag.children_eq]
    exact h

theorem value_eq (a : Assignment) (n : ExprId) :
    dag.value a n = (dag.node n).innerFullApply a (dag.value a) :=
  (dag.value_rule a).solve_eq _ n

theorem lowerAndUpperBounds_eq (n : ExprId) : dag.lowerAndUpperBounds n =
      (dag.node n).innerLowerAndUpperBounds dag.lowerAndUpperBounds :=
  dag.bounds_rule.solve_eq _ n

end

theorem bounds_contain (dag : ArithmeticDag u) (a : Assignment) (n : ExprId) :
    ∀ v, dag.value a n = .ok v → (dag.lowerAndUpperBounds n).Contains v := by
  apply dag.bounds_rule.induction (p := fun n => ∀ v, dag.value a n = .ok v →
    (dag.lowerAndUpperBounds n).Contains v)
  intro n ih v hv
  rw [dag.value_eq] at hv
  rw [dag.lowerAndUpperBounds_eq]
  apply (dag.node n).bounds_contain _ hv
  rw [← dag.children_eq]
  exact ih

/-- Whatever value a node takes on an assignment lies within its computed bounds. -/
theorem value_within_bounds (dag : ArithmeticDag u) (a : Assignment) (n : ExprId) :
    ∀ v, dag.value a n = .ok v → (dag.lowerAndUpperBounds n).lowerBound ≤ v ∧
      v ≤ (dag.lowerAndUpperBounds n).upperBound :=
  dag.bounds_contain a n

end ArithmeticDag

def oneObject : Universe [] where
  precision := defaultTolerances
  numObjects := 1
  dimension _ := .static []
  scope _ := ⟨[], fun _ => none⟩
  inRange _ h := (nomatch h)

def squaredNode : ExprId → ArithmeticNode oneObject
  | 0 => .var 0 0
  | 1 => .linearSum ⟨-2, ⟨[0], nodup_zero⟩, ∅, true⟩
  | _ => .transform .square 1

def squaredDag : ArithmeticDag oneObject where
  graph :=
    { children := fun n => (squaredNode n).children
      children_nodup := by
        intro n
        match n with
        | 0 => exact .nil
        | 1 => exact nodup_singleton 0
        | n + 2 => exact nodup_singleton 1
      depth := fun n => min n 2
      depth_lt := by
        intro n c hc
        match n with
        | 0 => cases hc
        | 1 =>
          rw [mem_singleton.mp hc]
          decide
        | n + 2 =>
          rw [mem_singleton.mp hc]
          omega
      isAffectedByChange := fun _ _ => none
      directlyAffectedContainers := fun n => (squaredNode n).directlyAffectedContainers }
  node := squaredNode
  children_eq _ := rfl
  direct_eq _ := rfl

theorem squared_within_bounds : squaredDag.value (fun _ => 0) 2 = .ok 1 ∧
    (squaredDag.lowerAndUpperBounds 2).lowerBound ≤ 1 ∧
    1 ≤ (squaredDag.lowerAndUpperBounds 2).upperBound := by
  have hvalue : squaredDag.value (fun _ => 0) 2 = .ok 1 := by
    decide +kernel
  exact ⟨hvalue, squaredDag.value_within_bounds (fun _ => 0) 2 1 hvalue⟩

end Rebalancer
