import Rebalancer.ObjectValues

namespace Rebalancer
open Finset Function

inductive BalanceSpecDefinition where
  | AFTER
  | DURING
  | NEW
  | OLD
  deriving DecidableEq

/-- A balance goal on relative utilisation over a static dimension, with no extra scope items in
the initial average. -/
structure BalanceGoal where
  definition : BalanceSpecDefinition
  fixAverageToInitial : Bool
  useLegacyAverage : Bool
  originalScopeItemIds : Finset ScopeItemId
  getScopeItemId : ContainerId → Option ScopeItemId
  scopeItemIds : Finset ScopeItemId
  filtered : scopeItemIds ⊆ originalScopeItemIds
  capacity : ScopeItemId → ℚ
  positive : ∀ s ∈ originalScopeItemIds, 0 < capacity s
  containers : Finset ContainerId
  objects : Finset ObjectId
  dimValue : ObjectId → ℚ
  initial : ObjectId → ContainerId
  placed : ∀ o ∈ objects, initial o ∈ containers

namespace BalanceGoal
variable (b : BalanceGoal)

def getContainerIds (s : ScopeItemId) : Finset ContainerId :=
  b.containers.filter fun c => b.getScopeItemId c = some s

def shouldFixAverageToInitial : Bool := b.fixAverageToInitial || (decide (b.definition = .AFTER) &&
      decide (b.scopeItemIds.card = b.originalScopeItemIds.card) &&
      decide (∑ s ∈ b.originalScopeItemIds, (b.getContainerIds s).card = b.containers.card))

section
variable (a : ObjectId → ContainerId)

def getAbsoluteUtil (s : ScopeItemId) : ℚ :=
  ∑ o ∈ b.objects, if b.getScopeItemId (a o) = some s then b.dimValue o else 0

def getRelativeUtil (s : ScopeItemId) : ℚ := b.getAbsoluteUtil a s / b.capacity s

def averageOn : ℚ :=
  if b.useLegacyAverage then
    (∑ s ∈ b.scopeItemIds, b.getAbsoluteUtil a s) / ∑ s ∈ b.scopeItemIds, b.capacity s
  else (∑ s ∈ b.scopeItemIds, b.getRelativeUtil a s) / b.scopeItemIds.card

def avgUtil : ℚ :=
  if b.shouldFixAverageToInitial then b.averageOn b.initial else b.averageOn a

end

/-- An average that is fixed although nobody asked for it is right on every assignment. -/
def FixedRightly : Prop := b.fixAverageToInitial = false → b.shouldFixAverageToInitial = true →
    ∀ a : ObjectId → ContainerId, (∀ o ∈ b.objects, a o ∈ b.containers) →
      b.avgUtil a = b.averageOn a

/-- The absolute utilisation is averaged, or moves cannot change the sum of the relative ones. -/
def Conserved : Prop := b.useLegacyAverage = true ∨ (∀ o ∈ b.objects, b.dimValue o = 0) ∨
    ∀ c ∈ b.containers, ∀ c' ∈ b.containers, ∀ s s', b.getScopeItemId c = some s →
      b.getScopeItemId c' = some s' → b.capacity s = b.capacity s'

def rate (w : ScopeItemId → ℚ) (c : ContainerId) : ℚ :=
  ∑ s ∈ b.originalScopeItemIds, if b.getScopeItemId c = some s then w s else 0

variable {b}

theorem rate_eq (hs : s ∈ b.originalScopeItemIds) (hc : b.getScopeItemId c = some s)
    (w : ScopeItemId → ℚ) : b.rate w c = w s := by
  rw [rate, sum_eq_single_of_mem s hs, if_pos hc]
  intro t _ hne
  exact if_neg fun ht => hne (Option.some.inj (ht.symm.trans hc))

theorem sum_mul_getAbsoluteUtil (w : ScopeItemId → ℚ) (a : ObjectId → ContainerId) :
    ∑ s ∈ b.originalScopeItemIds, b.getAbsoluteUtil a s * w s =
      ∑ o ∈ b.objects, b.dimValue o * b.rate w (a o) := by
  simp only [getAbsoluteUtil, rate, sum_mul, mul_sum]
  rw [sum_comm]
  apply sum_congr rfl
  intro o _
  apply sum_congr rfl
  intro s _
  rw [ite_mul, zero_mul, mul_ite, mul_zero]

theorem covered (ha : b.fixAverageToInitial = false) (hf : b.shouldFixAverageToInitial = true) :
    b.scopeItemIds = b.originalScopeItemIds ∧
      ∀ c ∈ b.containers, ∃ s ∈ b.originalScopeItemIds, b.getScopeItemId c = some s := by
  rw [shouldFixAverageToInitial, ha, Bool.false_or, Bool.and_eq_true, Bool.and_eq_true] at hf
  obtain ⟨⟨-, hi⟩, hcount⟩ := hf
  have hi := eq_of_subset_of_card_le b.filtered (of_decide_eq_true hi).ge
  refine ⟨hi, fun c hc => ?_⟩
  have hcount := of_decide_eq_true hcount
  by_contra hnone
  push Not at hnone
  rw [← card_biUnion] at hcount
  · have hsub : b.originalScopeItemIds.biUnion b.getContainerIds ⊆ b.containers.erase c := by
      intro c' hc'
      obtain ⟨s, hs, hc'⟩ := mem_biUnion.mp hc'
      obtain ⟨hmem, hitem⟩ := mem_filter.mp hc'
      apply mem_erase.mpr ⟨_, hmem⟩
      intro heq
      exact hnone s hs (heq ▸ hitem)
    have hle := card_le_card hsub
    rw [card_erase_of_mem hc] at hle
    have hp := card_pos.mpr ⟨c, hc⟩
    omega
  · intro s _ t _ hne
    apply disjoint_filter.mpr
    intro c' _ hs ht
    exact hne (Option.some.inj (hs.symm.trans ht))

theorem conserved_of_fixedRightly (hit : b.scopeItemIds = b.originalScopeItemIds)
    (hco : ∀ c ∈ b.containers, ∃ s ∈ b.originalScopeItemIds, b.getScopeItemId c = some s)
    (hl : b.useLegacyAverage = false)
    (h : ∀ a : ObjectId → ContainerId, (∀ o ∈ b.objects, a o ∈ b.containers) →
      b.averageOn b.initial = b.averageOn a) : b.Conserved := by
  by_cases hzero : ∀ o ∈ b.objects, b.dimValue o = 0
  · exact .inr (.inl hzero)
  push Not at hzero
  obtain ⟨o, ho, hv⟩ := hzero
  have hsame : ∀ c ∈ b.containers, ∀ s, b.getScopeItemId c = some s →
      (b.capacity s)⁻¹ = b.rate (fun s => (b.capacity s)⁻¹) (b.initial o) := by
    intro c hc s hs
    obtain ⟨s', hs', hi⟩ := hco c hc
    rw [Option.some.inj (hs.symm.trans hi)]
    have hm := h (update b.initial o c) (by
      intro o' ho'
      by_cases heq : o' = o
      · rwa [heq, update_self]
      · rw [update_of_ne heq]
        exact b.placed o' ho')
    have hcard : (b.originalScopeItemIds.card : ℚ) ≠ 0 := by
      exact_mod_cast (card_pos.mpr ⟨s', hs'⟩).ne'
    simp only [averageOn, hl, Bool.false_eq_true, if_false, hit, getRelativeUtil,
      div_eq_mul_inv (getAbsoluteUtil _ _ _)] at hm
    rw [div_left_inj' hcard, sum_mul_getAbsoluteUtil, sum_mul_getAbsoluteUtil,
      ← add_sum_erase _ _ ho, ← add_sum_erase _ _ ho, update_self] at hm
    have hrest : ∑ x ∈ b.objects.erase o, b.dimValue x *
          b.rate (fun s => (b.capacity s)⁻¹) (update b.initial o c x) =
        ∑ x ∈ b.objects.erase o, b.dimValue x * b.rate (fun s => (b.capacity s)⁻¹)
          (b.initial x) := by
      apply sum_congr rfl
      intro x hx
      rw [update_of_ne (ne_of_mem_erase hx)]
    rw [hrest, add_left_inj, mul_right_inj' hv, rate_eq hs' hi] at hm
    exact hm.symm
  refine .inr (.inr fun c hc c' hc' s s' hs hs' => ?_)
  exact inv_inj.mp ((hsame c hc s hs).trans (hsame c' hc' s' hs').symm)

/-- The fixed average is right exactly if absolute values are averaged, nothing counts or capacities
agree. -/
theorem fixedRightly_iff (b : BalanceGoal) : b.FixedRightly ↔
    (b.fixAverageToInitial = false → b.shouldFixAverageToInitial = true → b.Conserved) := by
  apply forall_congr'
  intro hask
  apply forall_congr'
  intro hf
  obtain ⟨hitems, hc⟩ := covered hask hf
  simp only [avgUtil, hf, if_true]
  apply Iff.intro
  · intro h
    cases hl : b.useLegacyAverage with
    | true => exact .inl hl
    | false => exact conserved_of_fixedRightly hitems hc hl h
  · intro h a ha
    have hr : ∀ w : ScopeItemId → ℚ, (∀ o ∈ b.objects, ∀ s t,
        b.getScopeItemId (b.initial o) = some s → b.getScopeItemId (a o) = some t →
        b.dimValue o * w s = b.dimValue o * w t) →
        ∑ s ∈ b.originalScopeItemIds, b.getAbsoluteUtil b.initial s * w s =
          ∑ s ∈ b.originalScopeItemIds, b.getAbsoluteUtil a s * w s := by
      intro w hw
      rw [sum_mul_getAbsoluteUtil, sum_mul_getAbsoluteUtil]
      refine sum_congr rfl ?_
      intro o ho
      obtain ⟨s, hs, hi⟩ := hc _ (b.placed o ho)
      obtain ⟨t, ht, hi'⟩ := hc _ (ha o ho)
      rw [rate_eq hs hi, rate_eq ht hi', hw o ho s t hi hi']
    rw [averageOn, averageOn, hitems]
    by_cases hl : b.useLegacyAverage = true
    · have hone := hr (fun _ => 1) fun _ _ _ _ _ _ => rfl
      simp only [mul_one] at hone
      rw [if_pos hl, if_pos hl, hone]
    · have hinv := hr (fun s => (b.capacity s)⁻¹) fun o ho s t hi hi' => by
        rcases h.resolve_left hl with hzero | he
        · rw [hzero o ho, zero_mul, zero_mul]
        · rw [he _ (b.placed o ho) _ (ha o ho) s t hi hi']
      rw [if_neg hl, if_neg hl]
      simp only [getRelativeUtil, div_eq_mul_inv (getAbsoluteUtil _ _ _), hinv]

def unequalCapacities : BalanceGoal where
  definition := .AFTER
  fixAverageToInitial := false
  useLegacyAverage := false
  originalScopeItemIds := {0, 1}
  getScopeItemId c := some c
  scopeItemIds := {0, 1}
  filtered := Subset.rfl
  capacity s := s + 1
  positive s _ := s.cast_add_one_pos
  containers := {0, 1}
  objects := {0}
  dimValue _ := 1
  initial _ := 0
  placed := by decide

theorem unequalCapacities_fixed_wrongly : unequalCapacities.shouldFixAverageToInitial = true ∧
    unequalCapacities.avgUtil (fun _ => 1) = 1 / 2 ∧
    unequalCapacities.averageOn (fun _ => 1) = 1 / 4 ∧ ¬ unequalCapacities.FixedRightly := by
  have hf : unequalCapacities.shouldFixAverageToInitial = true := by decide +kernel
  have ha : unequalCapacities.avgUtil (fun _ => 1) = 1 / 2 := by decide +kernel
  have ht : unequalCapacities.averageOn (fun _ => 1) = 1 / 4 := by decide +kernel
  refine ⟨hf, ha, ht, fun h => ?_⟩
  have heq := h rfl hf (fun _ => 1) (by decide)
  rw [ha, ht] at heq
  norm_num at heq

end BalanceGoal

end Rebalancer
