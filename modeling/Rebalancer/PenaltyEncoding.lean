import Rebalancer.TopSums

namespace Rebalancer
open Finset

structure RowChoice (ι : Type) where
  penalty : ι → ℚ
  waived : ι → Bool
  z : ι → Bool

/-- The rows force each penalty to `max 0 (sum i)` from below, and from above if not minimizing. -/
structure Encodes (minimizing : Bool) (k : Nat) (s : Finset ι) (sum ub : ι → ℚ) (x : RowChoice ι) :
    Prop where
  nonneg : ∀ i ∈ s, 0 ≤ x.penalty i
  above : ∀ i ∈ s, sum i ≤ x.penalty i + if 0 < k ∧ x.waived i = true then ub i else 0
  few : 0 < k → (s.filter fun i => x.waived i = true).card ≤ k
  below : minimizing = false → ∀ i ∈ s, x.penalty i ≤ (if x.z i then ub i else 0) ∧
    x.penalty i ≤ sum i + if x.z i then 0 else ub i

def encodedValues (minimizing : Bool) (k : Nat) (s : Finset ι) (sum ub : ι → ℚ) : Set ℚ :=
  {v | ∃ x : RowChoice ι, Encodes minimizing k s sum ub x ∧ v = ∑ i ∈ s, x.penalty i}

section
variable {ι : Type} {s : Finset ι} {sum ub : ι → ℚ}

theorem encodedValues_least [DecidableEq ι] (hub : ∀ i ∈ s, sum i ≤ ub i) :
    IsLeast (encodedValues true k s sum ub) (leastSum k s fun i => max 0 (sum i)) := by
  constructor
  · obtain ⟨W, hW, hcard, heq⟩ := exists_leastSum k s fun i => max 0 (sum i)
    refine ⟨⟨fun i => if i ∈ W then 0 else max 0 (sum i), fun i => decide (i ∈ W), fun _ => false⟩,
      ⟨?_, ?_, ?_, nofun⟩, ?_⟩
    · intro i _
      dsimp only
      split
      · exact le_rfl
      · exact le_max_left _ _
    · intro i hi
      dsimp only
      by_cases hiW : i ∈ W
      · have hk : 0 < k := (card_pos.mpr ⟨i, hiW⟩).trans_le hcard
        rw [if_pos hiW, if_pos ⟨hk, decide_eq_true hiW⟩, zero_add]
        exact hub i hi
      · rw [if_neg hiW, if_neg fun h => hiW (of_decide_eq_true h.2), add_zero]
        exact le_max_right _ _
    · intro _
      refine (card_le_card ?_).trans hcard
      intro i hi
      exact of_decide_eq_true (mem_filter.mp hi).2
    · have hw : ∑ i ∈ W, (if i ∈ W then 0 else max 0 (sum i)) = 0 :=
        sum_eq_zero fun i hi => if_pos hi
      rw [heq, ← sum_sdiff hW, hw, add_zero]
      exact sum_congr rfl fun i hi => (if_neg (mem_sdiff.mp hi).2).symm
  · rintro v ⟨x, hx, rfl⟩
    by_cases hk : 0 < k
    · apply (leastSum_le s _ (hx.few hk)).trans
      refine (sum_le_sum ?_).trans (sum_le_sum_of_subset_of_nonneg
        sdiff_subset fun i hi _ => hx.nonneg i hi)
      intro i hi
      obtain ⟨his, hn⟩ := mem_sdiff.mp hi
      have ha := hx.above i his
      rw [if_neg fun h => hn (mem_filter.mpr ⟨his, h.2⟩), add_zero] at ha
      exact max_le (hx.nonneg i his) ha
    · rw [Nat.eq_zero_of_not_pos hk, leastSum_zero]
      apply sum_le_sum
      intro i hi
      have ha := hx.above i hi
      rw [if_neg fun h => hk h.1, add_zero] at ha
      exact max_le (hx.nonneg i hi) ha

theorem encodedValues_exact_iff (hub : ∀ i ∈ s, sum i ≤ ub i) (hp : ∀ i ∈ s, 0 ≤ ub i) :
    encodedValues false 0 s sum ub = {∑ i ∈ s, max 0 (sum i)} ↔ ∀ i ∈ s, -ub i ≤ sum i := by
  constructor
  · intro h i hi
    have hmem : ∑ i ∈ s, max 0 (sum i) ∈ encodedValues false 0 s sum ub := by
      rw [h]
      exact Set.mem_singleton _
    obtain ⟨x, hx, -⟩ := hmem
    have hl := (hx.below rfl i hi).2
    have hn := hx.nonneg i hi
    have hu := hp i hi
    split at hl <;> linarith
  · intro hr
    apply Set.eq_singleton_iff_unique_mem.mpr
    constructor
    · refine ⟨⟨fun i => max 0 (sum i), fun _ => false, fun i => decide (0 ≤ sum i)⟩,
        ⟨fun i _ => le_max_left _ _, ?_, fun h => absurd h (lt_irrefl 0), ?_⟩, rfl⟩
      · intro i _
        rw [if_neg fun h => absurd h.1 (lt_irrefl 0), add_zero]
        exact le_max_right _ _
      · intro _ i hi
        by_cases h0 : 0 ≤ sum i
        · simp only [h0, decide_true, ↓reduceIte, add_zero, sup_of_le_right]
          exact ⟨hub i hi, le_rfl⟩
        · have hle := (not_le.mp h0).le
          simp only [h0, decide_false, Bool.false_eq_true, ↓reduceIte, max_eq_left hle]
          exact ⟨le_rfl, by linarith [hr i hi]⟩
    · rintro v ⟨x, hx, rfl⟩
      apply sum_congr rfl
      intro i hi
      have ha := hx.above i hi
      rw [if_neg fun h => absurd h.1 (lt_irrefl 0), add_zero] at ha
      obtain ⟨h₁, h₂⟩ := hx.below rfl i hi
      apply le_antisymm _ (max_le (hx.nonneg i hi) ha)
      cases hz : x.z i with
      | true =>
        rw [hz, if_pos rfl, add_zero] at h₂
        exact h₂.trans (le_max_right _ _)
      | false =>
        rw [hz] at h₁
        exact h₁.trans (le_max_left _ _)

end

end Rebalancer
