import Rebalancer.LpEncodings

namespace Rebalancer
open List

def largestValue : ℚ := 100000000

/-- The exact encoding allows only `m` if it is not refused, and the minimizing one has it as its
smallest value. -/
structure EncodesMax (lp : Bool → Except String (Set ℚ)) (m : ℚ) (refused : Prop) : Prop where
  exact : ¬ refused → lp false = .ok {m}
  error : refused → lp false = .error "Huge bigM calculated, model won't be correct."
  least : ∃ values, lp true = .ok values ∧ IsLeast values m

theorem EncodesMax.add (h : EncodesMax f m r) (hr : ¬ r) (hr' : ¬ r') (lb : ℚ) : EncodesMax
    (fun b => f b >>= fun values => .ok (Set.image (· + lb) values)) (m + lb) r' := by
  obtain ⟨values, hv, hl⟩ := h.least
  refine ⟨fun _ => ?_, fun h => absurd h hr', Set.image (· + lb) values, by rw [hv]; rfl,
    ⟨m, hl.1, rfl⟩, ?_⟩
  · rw [h.exact hr]
    exact congrArg _ Set.image_singleton
  · rintro _ ⟨v, hv, rfl⟩
    exact add_le_add_left (hl.2 hv) lb

namespace LpChildren
variable (e : LpChildren) (children : List ExprId) (native : Bool) (dynamic : ExprId → Bool)

section
variable (c : ExprId)

def lowerBound : ℚ := (e.info c).lowerBound

def upperBound : ℚ := (e.info c).upperBound

theorem lowerBound_le : e.lowerBound c ≤ e.value c := (e.takes c).contains.1

theorem le_upperBound : e.value c ≤ e.upperBound c := (e.takes c).contains.2

end

def max : ℚ := maxOf (children.map e.value)

def binaryInnerLp : Set ℚ :=
  {m | (m = 0 ∨ m = 1) ∧ m ≤ (children.map e.value).sum ∧ ∀ c ∈ children, e.value c ≤ m}

def childExprs : List ℚ :=
  let fixed := (children.filter (!dynamic ·)).map e.value
  (if fixed = [] then [] else [maxOf fixed]) ++ (children.filter dynamic).map e.value

def bigM : ℚ := maxOf (children.map e.upperBound) - minOf (children.map e.lowerBound)

def bigMRows : Set ℚ :=
  let exprs := e.childExprs children dynamic
  {m | (∀ v ∈ exprs, v ≤ m) ∧ ∃ i : Fin exprs.length, ∀ j,
    m ≤ exprs.get j + e.bigM children * (1 - if j = i then 1 else 0)}

/-- `native` is whether `addNativeMaxConstraint` has a result. -/
def generalMaxLp (minimizing : Bool) : Except String (Set ℚ) :=
  if native then .ok {e.max children}
  else if minimizing then .ok {m | ∀ v ∈ e.childExprs children dynamic, v ≤ m}
  else if largestValue ≤ e.bigM children then
    .error "Huge bigM calculated, model won't be correct."
  else .ok (e.bigMRows children dynamic)

def directMaxLp (minimizing : Bool) : Except String (Set ℚ) :=
  if children.all fun c => (e.info c).isBinary then .ok (e.binaryInnerLp children)
  else e.generalMaxLp children native dynamic minimizing

def NonGeneral : Prop :=
  ∀ c ∈ children, (e.info c).isInteger = true ∧ e.upperBound c - e.lowerBound c ≤ 1

instance : Decidable (e.NonGeneral children) := inferInstanceAs (Decidable (∀ c ∈ children, _))

def sub (lb : ℚ) : LpChildren where
  info c := ⟨⟨e.lowerBound c - lb, e.upperBound c - lb⟩,
    (e.info c).isInteger && decide ((⌊lb⌋ : ℚ) = lb)⟩
  value c := e.value c - lb
  takes c := by
    refine ⟨⟨sub_le_sub_right (e.lowerBound_le c) lb,
      sub_le_sub_right (e.le_upperBound c) lb⟩, fun h => ?_⟩
    rw [Bool.and_eq_true, decide_eq_true_eq] at h
    obtain ⟨n, hn⟩ := (e.takes c).integer h.1
    exact ⟨n - ⌊lb⌋, by rw [hn, Int.cast_sub, h.2]⟩

def maxLB : ℚ := maxOf (children.map e.lowerBound)

def newChildren : List ExprId := children.filter fun c => e.lowerBound c = e.maxLB children

/-- The children of `n_to_n_plus_one_inner_lp` less their lower bound are binary if they are
integers. -/
def maxLp (minimizing : Bool) : Except String (Set ℚ) :=
  if (children.all fun c => (e.info c).isBinary) = false ∧ e.NonGeneral children then do
    let values ← (e.sub (e.maxLB children)).directMaxLp (e.newChildren children) native
      (fun _ => true) minimizing
    .ok (Set.image (· + e.maxLB children) values)
  else e.directMaxLp children native dynamic minimizing

variable {e children native dynamic}

theorem le_max (h : c ∈ children) : e.value c ≤ e.max children := le_maxOf (mem_map_of_mem h)

theorem exists_max (h : children ≠ []) : ∃ c ∈ children, e.value c = e.max children :=
  mem_map.mp (maxOf_mem fun hm => h (map_eq_nil_iff.mp hm))

theorem max_eq (hc : c ∈ children) (h : ∀ c' ∈ children, e.value c' ≤ e.value c) :
    e.max children = e.value c := by
  obtain ⟨c', hc', he⟩ := exists_max (e := e) (ne_nil_of_mem hc)
  exact le_antisymm (he ▸ h c' hc') (le_max hc)

theorem binaryInnerLp_eq (hne : children ≠ []) (h : ∀ c ∈ children, (e.info c).isBinary = true) :
    e.binaryInnerLp children = {e.max children} := by
  have hb : ∀ c ∈ children, e.value c = 0 ∨ e.value c = 1 := fun c hc => (e.takes c).binary (h c hc)
  obtain ⟨c, hc, hm⟩ := exists_max (e := e) hne
  refine Set.eq_singleton_iff_unique_mem.mpr ⟨⟨hm ▸ hb c hc, ?_, fun _ => le_max⟩, ?_⟩
  · rw [← hm]
    apply single_le_sum _ _ (mem_map_of_mem hc)
    intro v hv
    obtain ⟨c', hc', rfl⟩ := mem_map.mp hv
    rcases hb c' hc' with h | h <;> rw [h]
    exact zero_le_one
  · rintro m ⟨h01, hs, hl⟩
    have hle := hl c hc
    rw [hm] at hle
    rcases h01 with rfl | rfl
    · rcases hb c hc with h | h <;> linarith
    · by_contra hne
      have h0 : ∀ v ∈ children.map e.value, v = 0 := by
        intro v hv
        obtain ⟨c', hc', rfl⟩ := mem_map.mp hv
        rcases hb c' hc' with h | h
        · exact h
        · exact absurd (le_antisymm (h ▸ le_max hc') hle) hne
      rw [sum_eq_zero h0] at hs
      linarith

theorem of_mem_childExprs (h : v ∈ e.childExprs children dynamic) :
    ∃ c ∈ children, e.value c = v := by
  have hv : ∀ {p : ExprId → Bool}, v ∈ (children.filter p).map e.value →
      ∃ c ∈ children, e.value c = v := by
    intro p h
    obtain ⟨c, hc, rfl⟩ := mem_map.mp h
    exact ⟨c, (mem_filter.mp hc).1, rfl⟩
  rw [childExprs] at h
  rcases mem_append.mp h with h | h
  · split_ifs at h with hn
    · cases h
    · rw [mem_singleton] at h
      exact hv (h ▸ maxOf_mem hn)
  · exact hv h

variable (native dynamic) (hne : children ≠ [])

theorem exists_childExprs (hc : c ∈ children) :
    ∃ v ∈ e.childExprs children dynamic, e.value c ≤ v := by
  rw [childExprs]
  cases hd : dynamic c with
  | true => exact ⟨_, mem_append_right _ (mem_map_of_mem (mem_filter.mpr ⟨hc, hd⟩)), le_rfl⟩
  | false =>
    have hf : c ∈ children.filter (!dynamic ·) := mem_filter.mpr ⟨hc, congrArg not hd⟩
    have hm := mem_map_of_mem (f := e.value) hf
    rw [if_neg (ne_nil_of_mem hm)]
    exact ⟨_, mem_append_left _ (mem_singleton.mpr rfl), le_maxOf hm⟩

include hne

theorem max_mem_childExprs : e.max children ∈ e.childExprs children dynamic := by
  obtain ⟨c, hc, hm⟩ := exists_max (e := e) hne
  obtain ⟨v, hv, hle⟩ := exists_childExprs (e := e) dynamic hc
  obtain ⟨c', hc', rfl⟩ := of_mem_childExprs hv
  rw [hm] at hle
  rwa [← (le_max hc').antisymm hle]

theorem isLeast_childExprs :
    IsLeast {m | ∀ v ∈ e.childExprs children dynamic, v ≤ m} (e.max children) := by
  refine ⟨fun v hv => ?_, fun m hm => hm _ (max_mem_childExprs dynamic hne)⟩
  obtain ⟨c, hc, rfl⟩ := of_mem_childExprs hv
  exact le_max hc

theorem max_le_add_bigM (hc : c ∈ children) : e.max children ≤ e.value c + e.bigM children := by
  obtain ⟨c', hc', hm⟩ := exists_max (e := e) hne
  have hu := le_maxOf (mem_map_of_mem (f := e.upperBound) hc')
  have hl := minOf_le (mem_map_of_mem (f := e.lowerBound) hc)
  rw [bigM]
  linarith [e.le_upperBound c', e.lowerBound_le c]

theorem bigMRows_eq : e.bigMRows children dynamic = {e.max children} := by
  obtain ⟨hmem, hleast⟩ := isLeast_childExprs (e := e) dynamic hne
  refine Set.eq_singleton_iff_unique_mem.mpr ⟨⟨hmem, ?_⟩, ?_⟩
  · obtain ⟨i, hi⟩ := mem_iff_get.mp (max_mem_childExprs (e := e) dynamic hne)
    refine ⟨i, fun j => ?_⟩
    by_cases hj : j = i
    · rw [if_pos hj, hj, hi, sub_self, mul_zero, add_zero]
    · obtain ⟨c, hc, hv⟩ := of_mem_childExprs (get_mem _ j)
      rw [if_neg hj, sub_zero, mul_one, ← hv]
      exact max_le_add_bigM hne hc
  · rintro m ⟨hm, i, hi⟩
    have hle := hi i
    rw [if_pos rfl, sub_self, mul_zero, add_zero] at hle
    exact (hle.trans (hmem _ (get_mem _ i))).antisymm (hleast hm)

theorem generalMaxLp_encodes : EncodesMax (e.generalMaxLp children native dynamic) (e.max children)
      (native = false ∧ largestValue ≤ e.bigM children) := by
  cases native with
  | true => exact ⟨fun _ => rfl, fun h => absurd h.1 Bool.noConfusion, _, rfl, isLeast_singleton⟩
  | false =>
    refine ⟨fun h => ?_, fun h => if_pos h.2, _, rfl, isLeast_childExprs dynamic hne⟩
    exact (if_neg fun hl => h ⟨rfl, hl⟩).trans (congrArg _ (bigMRows_eq dynamic hne))

theorem directMaxLp_encodes : EncodesMax (e.directMaxLp children native dynamic) (e.max children)
      ((children.all fun c => (e.info c).isBinary) = false ∧ native = false ∧
        largestValue ≤ e.bigM children) := by
  cases h : children.all fun c => (e.info c).isBinary with
  | true =>
    have he b : e.directMaxLp children native dynamic b = .ok {e.max children} := by
      rw [directMaxLp, if_pos h, binaryInnerLp_eq hne (all_eq_true.mp h)]
    exact ⟨fun _ => he _, fun h => absurd h.1 Bool.noConfusion, _, he _, isLeast_singleton⟩
  | false =>
    have he : e.directMaxLp children native dynamic =
        e.generalMaxLp children native dynamic := funext fun _ => if_neg (by rw [h]; decide)
    obtain ⟨hx, hr, hl⟩ := generalMaxLp_encodes (e := e) native dynamic hne
    rw [he]
    exact ⟨fun h => hx fun hr => h ⟨rfl, hr⟩, fun h => hr h.2, hl⟩

theorem newChildren_ne_nil : e.newChildren children ≠ [] := by
  obtain ⟨c, hc, hlb⟩ := mem_map.mp
    (maxOf_mem fun h => hne (map_eq_nil_iff (f := e.lowerBound).mp h))
  exact ne_nil_of_mem (mem_filter.mpr ⟨hc, decide_eq_true hlb⟩)

theorem max_newChildren (h : e.NonGeneral children) :
    e.max (e.newChildren children) = e.max children := by
  obtain ⟨c, hc, hm⟩ := exists_max (e := e) (newChildren_ne_nil hne)
  obtain ⟨hc', hlb⟩ := mem_filter.mp hc
  rw [← hm]
  apply (max_eq hc' fun c' hd => ?_).symm
  by_cases hlb' : e.lowerBound c' = e.maxLB children
  · rw [hm]
    exact le_max (mem_filter.mpr ⟨hd, decide_eq_true hlb'⟩)
  · have hlt := (le_maxOf (mem_map_of_mem (f := e.lowerBound) hd)).lt_of_ne hlb'
    obtain ⟨n, hn⟩ := (e.takes c).integer (h c hc').1
    obtain ⟨n', hn'⟩ := (e.takes c').integer (h c' hd).1
    have hl := e.lowerBound_le c
    have hu := e.le_upperBound c'
    rw [of_decide_eq_true hlb, hn] at hl
    have hlt' : (n' : ℚ) < n + 1 := by
      rw [← hn']
      rw [maxLB] at hl
      linarith [(h c' hd).2]
    rw [hn, hn']
    exact_mod_cast Int.lt_add_one_iff.mp (by exact_mod_cast hlt')

theorem sub_max : (e.sub lb).max children = e.max children - lb := by
  obtain ⟨c, hc, hm⟩ := exists_max (e := e) hne
  rw [← hm]
  exact max_eq (e := e.sub lb) hc fun c' hc' => sub_le_sub_right (hm ▸ le_max hc') lb

theorem bigM_sub_newChildren (h : e.NonGeneral children) (lb : ℚ) :
    (e.sub lb).bigM (e.newChildren children) ≤ 1 := by
  have hn := newChildren_ne_nil (e := e) hne
  obtain ⟨c, hc, hu⟩ := mem_map.mp (maxOf_mem fun h =>
    hn (map_eq_nil_iff (f := (e.sub lb).upperBound).mp h))
  obtain ⟨c', hc', hl⟩ := mem_map.mp (minOf_mem fun h =>
    hn (map_eq_nil_iff (f := (e.sub lb).lowerBound).mp h))
  rw [bigM, ← hu, ← hl]
  obtain ⟨hc, hlb⟩ := mem_filter.mp hc
  have hlb' := of_decide_eq_true (mem_filter.mp hc').2
  have hle := (h c hc).2
  rw [of_decide_eq_true hlb, ← hlb'] at hle
  exact (sub_sub_sub_cancel_right ..).trans_le hle

/-- Every encoding is that of the maximum; `Max::lp` refuses exactly the big-M one when its constant
is huge, unless the solver has a maximum of its own. -/
theorem maxLp_encodes_max : EncodesMax (e.maxLp children native dynamic) (e.max children)
      ((children.all fun c => (e.info c).isBinary) = false ∧ ¬ e.NonGeneral children ∧
        native = false ∧ largestValue ≤ e.bigM children) ∧
      (e.NonGeneral children → e.max (e.newChildren children) = e.max children) := by
  refine ⟨?_, max_newChildren hne⟩
  by_cases h : (children.all fun c => (e.info c).isBinary) = false ∧ e.NonGeneral children
  · have hn := newChildren_ne_nil (e := e) hne
    have hsmall := bigM_sub_newChildren hne h.2 (e.maxLB children)
    have hr : ¬ ((children.all fun c => (e.info c).isBinary) = false ∧ ¬ e.NonGeneral children ∧
        native = false ∧ largestValue ≤ e.bigM children) := fun hr => hr.2.1 h.2
    have he := (directMaxLp_encodes (e := e.sub (e.maxLB children)) native (fun _ => true)
      hn).add (fun hr => absurd (hr.2.2.trans hsmall) (by decide +kernel)) hr (e.maxLB children)
    rw [sub_max hn, max_newChildren hne h.2, sub_add_cancel] at he
    have hm : e.maxLp children native dynamic = fun b => _ := funext fun _ => if_pos h
    rw [hm]
    exact he
  · have hm : e.maxLp children native dynamic =
        e.directMaxLp children native dynamic := funext fun _ => if_neg h
    obtain ⟨hx, hr, hl⟩ := directMaxLp_encodes (e := e) native dynamic hne
    rw [hm]
    exact ⟨fun hn => hx fun hr => hn ⟨hr.1, fun hg => h ⟨hr.1, hg⟩, hr.2⟩,
      fun h => hr ⟨h.1, h.2.2⟩, hl⟩

omit hne

def zeroOne (ub : ℚ) (h : 1 ≤ ub) : LpChildren where
  info _ := ⟨⟨0, ub⟩, false⟩
  value c := if c = 1 then 1 else 0
  takes c := by
    refine ⟨?_, nofun⟩
    split
    · exact ⟨zero_le_one, h⟩
    · exact ⟨le_rfl, zero_le_one.trans h⟩

theorem zeroOne_encodes_max :
    (zeroOne 2 one_le_two).maxLp [0, 1] false (fun c => c = 1) false = .ok {1} := by
  have hm : (zeroOne 2 one_le_two).max [0, 1] = 1 := by decide +kernel
  rw [← hm]
  apply (maxLp_encodes_max false (fun c => c = 1) (cons_ne_nil 0 [1])).1.exact
  exact fun h => absurd h.2.2.2 (by decide +kernel)

theorem zeroOne_refused : (zeroOne largestValue (by decide +kernel)).maxLp [0, 1] false
    (fun c => c = 1) false = .error "Huge bigM calculated, model won't be correct." := by
  rw [maxLp, if_neg (by decide +kernel), directMaxLp, if_neg (by decide +kernel)]
  have h : largestValue ≤ (zeroOne largestValue (by decide +kernel)).bigM [0, 1] := by
    decide +kernel
  exact if_pos h

end LpChildren

end Rebalancer
