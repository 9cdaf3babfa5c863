import Rebalancer.GroupLimits

namespace Rebalancer
open Finset LimitWrapper

inductive UtilizationBoundType where
  | upper
  | lower

/-- `perGroupUtilizationBounds_` with the scope item, the bound type and whether there is an
aggregation scope; `covering` tells whether every object is in a group, and `additive` whether the
metric counts as much of a group in the item as in the items of the aggregation scope. -/
structure GroupUtilizationBound extends LimitWrapper where
  precision : PrecisionTolerances
  maxDouble : ℚ
  maxDouble_pos : 0 < maxDouble
  scopeItemId : ScopeItemId
  boundType : UtilizationBoundType
  finite : boundType = .lower → globalLimit ≠ ⊤
  aggregates : Bool
  covering : Bool
  additive : Bool

/-- The objects that the metric counts in an item. -/
structure ItemObjects where
  objects : Finset ObjectId
  value : ObjectId → ℚ
  group : ObjectId → Option GroupId

namespace ItemObjects
variable (c : ItemObjects)

def getAbsoluteUtil : ℚ := ∑ o ∈ c.objects, c.value o

def getGroupUtil (g : GroupId) : ℚ := ∑ o ∈ c.objects with c.group o = some g, c.value o

def ungrouped : ℚ := ∑ o ∈ c.objects with c.group o = none, c.value o

end ItemObjects

/-- A scope item, and the items of the aggregation scope in its image. -/
structure NestedObjects where
  item : ItemObjects
  aggregated : List ItemObjects

theorem eq_of_sum_eq_of_le {ι : Type} [DecidableEq ι] {s : Finset ι} {f k : ι → WithTop ℚ}
    {i : ι} (hk : ∀ i ∈ s, k i ≠ ⊤) (hle : ∀ i ∈ s, f i ≤ k i) (h : ∑ i ∈ s, f i = ∑ i ∈ s, k i)
    (hi : i ∈ s) : f i = k i := by
  by_contra hn
  apply (WithTop.add_lt_add_of_lt_of_le _ ((hle i hi).lt_of_ne hn)
    (sum_le_sum fun j hj => hle j (erase_subset i s hj))).ne
  · rw [add_sum_erase s f hi, add_sum_erase s k hi, h]
  · apply WithTop.sum_ne_top.mpr
    intro j hj
    exact ne_top_of_le_ne_top (hk j (erase_subset i s hj)) (hle j (erase_subset i s hj))

namespace GroupUtilizationBound
variable (b : GroupUtilizationBound) (c : NestedObjects)

def defaultLimit : WithTop ℚ := b.getScopeItemLimit b.scopeItemId

def groupLimits : Table GroupId (WithTop ℚ) := b.getGroupsOverride b.scopeItemId

def isDefaultUnbounded : Bool :=
  match b.boundType with
  | .upper => decide (b.maxDouble ≤ b.defaultLimit)
  | .lower => decide (b.defaultLimit ≤ 0)

def boundedUtil (util : ℚ) (boundValue : WithTop ℚ) : WithTop ℚ :=
  match b.boundType with
  | .upper => min (util : WithTop ℚ) boundValue
  | .lower => max (util : WithTop ℚ) (if b.precision.isStrictlyGtZero util then boundValue else 0)

def boundValue (g : GroupId) : WithTop ℚ := (b.groupLimits g).getD b.defaultLimit

def getAggregatedAbsoluteUtil (g : GroupId) : ℚ := (c.aggregated.map (·.getGroupUtil g)).sum

def getGroupUtil (g : GroupId) : ℚ :=
  if b.aggregates then getAggregatedAbsoluteUtil c g else c.item.getGroupUtil g

def getBoundedAbsoluteUtil : WithTop ℚ :=
  if ¬ b.isDefaultUnbounded then
    ∑ g ∈ b.groupIds, b.boundedUtil (b.getGroupUtil c g) (b.boundValue g)
  else
    ∑ g ∈ b.groupIds, (b.groupLimits g).elim 0 (b.boundedUtil (b.getGroupUtil c g)) +
      ((c.item.getAbsoluteUtil -
        ∑ g ∈ b.groupIds with (b.groupLimits g).isSome, b.getGroupUtil c g : ℚ) : WithTop ℚ)

/-- The objects without a group count as they are, each group up to its own limit. -/
def intendedUtil : WithTop ℚ := c.item.ungrouped +
  ∑ g ∈ b.groupIds, b.boundedUtil (b.getGroupUtil c g) (b.getLimit b.scopeItemId g)

/-- Utilisations are not negative, and no larger than the largest double. -/
structure Fits : Prop where
  util_mem : ∀ g, 0 ≤ b.getGroupUtil c g ∧ b.getGroupUtil c g ≤ b.maxDouble
  grouped : ∀ o ∈ c.item.objects, ∀ g, c.item.group o = some g → g ∈ b.groupIds
  covered : b.covering = true → ∀ o ∈ c.item.objects, c.item.group o ≠ none
  additive : b.additive = true → ∀ g, b.getGroupUtil c g = c.item.getGroupUtil g

/-- Objects without a group are kept, an aggregation scope counts what the item does where groups
are taken off the total, and a limit that equals the global one is no other than the default. -/
structure Coincides : Prop where
  kept : b.isDefaultUnbounded = true ∨ b.covering = true
  split : b.isDefaultUnbounded = false ∨ b.aggregates = false ∨ b.additive = true ∨ b.groupIds = ∅
  same : ∀ g ∈ b.groupIds, b.getLimit b.scopeItemId g = b.globalLimit → ∀ util, 0 ≤ util →
    util ≤ b.maxDouble → b.boundedUtil util b.defaultLimit = b.boundedUtil util b.globalLimit

/-- What is left of the total when a default counts as unbounded. -/
def rest : ℚ := if b.isDefaultUnbounded then c.item.ungrouped +
  ∑ g ∈ b.groupIds, (c.item.getGroupUtil g - b.getGroupUtil c g) else 0

def Right : Prop := ∀ c, b.Fits c → b.getBoundedAbsoluteUtil c = b.intendedUtil c

variable {b c}

theorem boundedUtil_default (h : b.isDefaultUnbounded = true) (hu : 0 ≤ util)
    (hm : util ≤ b.maxDouble) : b.boundedUtil util b.defaultLimit = util := by
  rw [isDefaultUnbounded] at h
  rw [boundedUtil]
  cases ht : b.boundType with
  | upper =>
    rw [ht] at h
    exact min_eq_left ((WithTop.coe_le_coe.mpr hm).trans (of_decide_eq_true h))
  | lower =>
    rw [ht] at h
    have h0 : (0 : WithTop ℚ) ≤ util := WithTop.coe_nonneg.mpr hu
    apply max_eq_left
    split
    · exact (of_decide_eq_true h).trans h0
    · exact h0

theorem boundedUtil_ne_top (h : b.boundType = .lower → util = 0 ∨ x ≠ ⊤) :
    b.boundedUtil util x ≠ ⊤ := by
  rw [boundedUtil]
  cases ht : b.boundType with
  | upper => exact ((min_le_left _ _).trans_lt (WithTop.coe_lt_top _)).ne
  | lower =>
    apply (max_lt (WithTop.coe_lt_top _) _).ne
    rcases h ht with rfl | h
    · rw [PrecisionTolerances.isStrictlyGtZero_zero]
      exact WithTop.coe_lt_top 0
    · split
      · exact h.lt_top
      · exact WithTop.coe_lt_top 0

theorem boundedUtil_mono (h : x ≤ y) : b.boundedUtil util x ≤ b.boundedUtil util y := by
  simp only [boundedUtil]
  cases b.boundType with
  | upper => exact min_le_min_left _ h
  | lower =>
    apply max_le_max_left
    split
    · exact h
    · exact le_rfl

theorem Fits.util_eq (h : b.Fits c) : c.item.getAbsoluteUtil =
    c.item.ungrouped + ∑ g ∈ b.groupIds, c.item.getGroupUtil g := by
  have hs : ∑ o ∈ c.item.objects with ¬ c.item.group o = none, c.item.value o =
      ∑ g ∈ b.groupIds, c.item.getGroupUtil g := by
    have hm : ∀ o ∈ {o ∈ c.item.objects | ¬ c.item.group o = none},
        (c.item.group o).getD 0 ∈ b.groupIds := by
      intro o ho
      obtain ⟨ho, hn⟩ := mem_filter.mp ho
      obtain ⟨g, hg⟩ := Option.ne_none_iff_exists'.mp hn
      rw [hg]
      exact h.grouped o ho g hg
    rw [← sum_fiberwise_of_maps_to hm]
    apply sum_congr rfl
    intro g _
    rw [filter_filter]
    apply sum_congr _ fun _ _ => rfl
    apply filter_congr
    intro o _
    cases c.item.group o with
    | none => simp
    | some g' => simp
  rw [← hs, ItemObjects.ungrouped, sum_filter_add_sum_filter_not]
  rfl

theorem getBoundedAbsoluteUtil_eq (h : b.Fits c) : b.getBoundedAbsoluteUtil c =
    (b.rest c : WithTop ℚ) +
      ∑ g ∈ b.groupIds, b.boundedUtil (b.getGroupUtil c g) (b.boundValue g) := by
  rw [getBoundedAbsoluteUtil, rest]
  by_cases hd : b.isDefaultUnbounded = true
  · have hr : c.item.getAbsoluteUtil -
        ∑ g ∈ b.groupIds with (b.groupLimits g).isSome, b.getGroupUtil c g =
        (c.item.ungrouped + ∑ g ∈ b.groupIds, (c.item.getGroupUtil g - b.getGroupUtil c g)) +
          ∑ g ∈ b.groupIds, if (b.groupLimits g).isSome then 0 else b.getGroupUtil c g := by
      rw [h.util_eq, sum_filter, add_sub_assoc, add_assoc, ← sum_sub_distrib, ← sum_add_distrib]
      congr 1
      apply sum_congr rfl
      intro g _
      split <;> ring
    rw [if_neg (not_not.mpr hd), if_pos hd, hr, WithTop.coe_add, add_left_comm, WithTop.coe_sum,
      ← sum_add_distrib]
    congr 1
    apply sum_congr rfl
    intro g _
    cases hg : b.groupLimits g with
    | some x => simp [boundValue, hg]
    | none =>
      obtain ⟨h0, hm⟩ := h.util_mem g
      simp [boundValue, hg, boundedUtil_default hd h0 hm]
  · rw [if_pos hd, if_neg hd, WithTop.coe_zero, zero_add]

theorem boundValue_eq (hg : g ∈ b.groupIds) : b.boundValue g =
    if b.getLimit b.scopeItemId g = b.globalLimit then b.defaultLimit
    else b.getLimit b.scopeItemId g := by
  rw [boundValue, groupLimits, getGroupsOverride_eq hg]
  split
  case isTrue h => rfl
  case isFalse h => rw [if_pos (not_not.mp h), Option.getD_none]

theorem Right.single (h : b.Right) (h0 : 0 ≤ v) (hm : v ≤ b.maxDouble)
    (hg : ∀ g, o = some g → g ∈ b.groupIds) (hc : b.covering = true → o ≠ none) :
    ((if b.isDefaultUnbounded then if o = none then v else 0 else 0 : ℚ) : WithTop ℚ) +
      ∑ g ∈ b.groupIds, b.boundedUtil (if o = some g then v else 0) (b.boundValue g) =
      ((if o = none then v else 0 : ℚ) : WithTop ℚ) +
        ∑ g ∈ b.groupIds, b.boundedUtil (if o = some g then v else 0)
          (b.getLimit b.scopeItemId g) := by
  let i : ItemObjects := ⟨{0}, fun _ => v, fun _ => o⟩
  have hs : ∀ P : Prop, [Decidable P] → ∑ o ∈ ({0} : Finset ObjectId) with P, v =
      if P then v else 0 := by
    intro P _
    rw [sum_filter, sum_singleton]
  have hu : ∀ g, b.getGroupUtil ⟨i, [i]⟩ g = if o = some g then v else 0 := by
    intro g
    rw [getGroupUtil, getAggregatedAbsoluteUtil, List.map_singleton, List.sum_singleton, ite_self]
    exact hs _
  have hf : b.Fits ⟨i, [i]⟩ := by
    refine ⟨fun g => ?_, fun _ _ => hg, fun ht _ _ => hc ht, fun _ g => (hu g).trans (hs _).symm⟩
    rw [hu]
    split
    · exact ⟨h0, hm⟩
    · exact ⟨le_rfl, b.maxDouble_pos.le⟩
  have he := h _ hf
  have hgroup : ∀ g, i.getGroupUtil g = if o = some g then v else 0 := fun g => hs _
  have hun : i.ungrouped = if o = none then v else 0 := hs _
  rw [getBoundedAbsoluteUtil_eq hf, intendedUtil] at he
  simpa only [rest, hu, hgroup, hun, sub_self, sum_const_zero, add_zero] using he

theorem Right.kept (h : b.Right) : b.isDefaultUnbounded = true ∨ b.covering = true := by
  by_contra hn
  obtain ⟨hd, hc⟩ := not_or.mp hn
  have h1 := h.single (o := none) b.maxDouble_pos.le le_rfl nofun fun ht => absurd ht hc
  have h0 := h.single (o := none) le_rfl b.maxDouble_pos.le nofun fun ht => absurd ht hc
  simp only [if_neg hd, if_true, reduceCtorEq, if_false] at h0 h1
  rw [h0, WithTop.add_right_inj, WithTop.coe_inj] at h1
  · exact b.maxDouble_pos.ne h1
  · apply WithTop.sum_ne_top.mpr
    intro g _
    exact boundedUtil_ne_top fun _ => .inl rfl

theorem Right.same (h : b.Right) (hg : g ∈ b.groupIds)
    (hl : b.getLimit b.scopeItemId g = b.globalLimit) (h0 : 0 ≤ v) (hm : v ≤ b.maxDouble) :
    b.boundedUtil v b.defaultLimit = b.boundedUtil v b.globalLimit := by
  by_cases ht : b.globalLimit = ⊤
  · rw [defaultLimit, (eq_global_of_getLimit_eq_top (hl.trans ht)).2]
  have he := h.single h0 hm (fun g' hg' => Option.some.inj hg' ▸ hg) fun _ => Option.some_ne_none g
  simp only [reduceCtorEq, if_false, ite_self, WithTop.coe_zero, zero_add] at he
  rcases le_total b.defaultLimit b.globalLimit with hle | hle
  · have hs := eq_of_sum_eq_of_le (fun g' _ => boundedUtil_ne_top fun _ =>
      .inr (getLimit_ne_top ht))
      (fun g' hg' => boundedUtil_mono ?_) he hg
    · rwa [boundValue_eq hg, if_pos hl, hl, if_pos rfl] at hs
    · rw [boundValue_eq hg']
      split
      case isTrue hl' => exact hle.trans_eq hl'.symm
      case isFalse => exact le_rfl
  · have hs := eq_of_sum_eq_of_le (fun g' hg' => boundedUtil_ne_top fun _ => .inr ?_)
      (fun g' hg' => boundedUtil_mono ?_) he.symm hg
    · rw [boundValue_eq hg, if_pos hl, hl, if_pos rfl] at hs
      exact hs.symm
    · rw [boundValue_eq hg']
      split
      · exact getScopeItemLimit_ne_top ht
      · exact getLimit_ne_top ht
    · rw [boundValue_eq hg']
      split
      case isTrue hl' => exact hl'.trans_le hle
      case isFalse => exact le_rfl

theorem sum_boundValue {u : GroupId → ℚ}
    (h : ∀ g ∈ b.groupIds, b.getLimit b.scopeItemId g = b.globalLimit →
      b.boundedUtil (u g) b.defaultLimit = b.boundedUtil (u g) b.globalLimit) :
    ∑ g ∈ b.groupIds, b.boundedUtil (u g) (b.boundValue g) =
      ∑ g ∈ b.groupIds, b.boundedUtil (u g) (b.getLimit b.scopeItemId g) := by
  apply sum_congr rfl
  intro g hg
  rw [boundValue_eq hg]
  split_ifs with hl
  · rw [h g hg hl, hl]
  · rfl

/-- An object that only the aggregation scope counts is taken off a total that does not have it. -/
theorem Right.split (h : b.Right) : b.isDefaultUnbounded = false ∨ b.aggregates = false ∨
    b.additive = true ∨ b.groupIds = ∅ := by
  by_contra hn
  simp only [not_or, Bool.not_eq_false, Bool.not_eq_true] at hn
  obtain ⟨hd, ha, had, hne⟩ := hn
  obtain ⟨g₀, hg₀⟩ := nonempty_iff_ne_empty.mpr hne
  let none' : ItemObjects := ⟨∅, fun _ => 0, fun _ => none⟩
  let c : NestedObjects := ⟨none', [⟨{0}, fun _ => b.maxDouble, fun _ => some g₀⟩]⟩
  have hu : ∀ g, b.getGroupUtil c g = if g₀ = g then b.maxDouble else 0 := by
    intro g
    rw [getGroupUtil, if_pos ha, getAggregatedAbsoluteUtil, List.map_singleton, List.sum_singleton]
    exact (sum_filter _ _).trans ((sum_singleton _ _).trans (if_congr Option.some_inj rfl rfl))
  have hmem : ∀ g, 0 ≤ b.getGroupUtil c g ∧ b.getGroupUtil c g ≤ b.maxDouble := by
    intro g
    rw [hu]
    split
    · exact ⟨b.maxDouble_pos.le, le_rfl⟩
    · exact ⟨le_rfl, b.maxDouble_pos.le⟩
  have hf : b.Fits c := ⟨hmem, nofun, nofun, fun ht => by rw [had] at ht; cases ht⟩
  have he := h c hf
  rw [getBoundedAbsoluteUtil_eq hf, intendedUtil,
    sum_boundValue fun g hg hl => h.same hg hl (hmem g).1 (hmem g).2, WithTop.add_right_inj,
    WithTop.coe_inj, rest, if_pos hd] at he
  · have hz : ∀ g, none'.getGroupUtil g = 0 := fun _ => rfl
    simp only [c, hz, zero_sub, sum_neg_distrib] at he
    have hs : ∑ g ∈ b.groupIds, b.getGroupUtil c g = b.maxDouble := by
      simp only [hu, sum_ite_eq, if_pos hg₀]
    have := b.maxDouble_pos
    rw [hs] at he
    linarith
  · apply WithTop.sum_ne_top.mpr
    intro g _
    exact boundedUtil_ne_top fun ht => .inr (getLimit_ne_top (b.finite ht))

def atMostFive : GroupUtilizationBound :=
  ⟨⟨(5 : ℚ), .new, .new, .new, {0}⟩, defaultTolerances, 1000, by norm_num, 0, .upper, nofun,
    false, false, true⟩

end GroupUtilizationBound

end Rebalancer
