import Mathlib

namespace Rebalancer
open List
open Finset hiding sum_nonneg

section
variable {α ι : Type} [AddCommGroup α] [LinearOrder α]

def topSum (k : Nat) (xs : List α) : α := ((xs.insertionSort (· ≥ ·)).take k).sum

theorem topSum_perm {xs ys : List α} (h : xs.Perm ys) (k : Nat) : topSum k xs = topSum k ys := by
  have hs : xs.insertionSort (· ≥ ·) = ys.insertionSort (· ≥ ·) := by
    refine List.Perm.eq_of_pairwise ?_ (pairwise_insertionSort _ xs) (pairwise_insertionSort _ ys)
      (((perm_insertionSort _ xs).trans h).trans (perm_insertionSort _ ys).symm)
    intro x y _ _ hxy hyx
    exact le_antisymm hyx hxy
  rw [topSum, topSum, hs]

theorem exists_topSum (k : Nat) (xs : List α) :
    ∃ ys : List α, ys.Subperm xs ∧ ys.length ≤ k ∧ ys.sum = topSum k xs :=
  ⟨_, (take_sublist k _).subperm.trans (perm_insertionSort _ xs).subperm, length_take_le k _, rfl⟩

variable [DecidableEq ι]

def leastSum (k : Nat) (s : Finset ι) (p : ι → α) : α :=
  (s.powerset.filter fun W => W.card ≤ k).inf'
    ⟨∅, mem_filter.mpr ⟨empty_mem_powerset s, Nat.zero_le k⟩⟩
    fun W => ∑ i ∈ s \ W, p i

theorem leastSum_le (s : Finset ι) (p : ι → α) (hW : W.card ≤ k) :
    leastSum k s p ≤ ∑ i ∈ s \ W, p i := by
  rw [← sdiff_inter_self_left s W]
  apply inf'_le
  apply Finset.mem_filter.mpr
  exact ⟨mem_powerset.mpr inter_subset_left, (card_le_card inter_subset_right).trans hW⟩

theorem exists_leastSum (k : Nat) (s : Finset ι) (p : ι → α) :
    ∃ W ⊆ s, W.card ≤ k ∧ leastSum k s p = ∑ i ∈ s \ W, p i := by
  obtain ⟨W, hW, heq⟩ := exists_mem_eq_inf'
    (⟨∅, mem_filter.mpr ⟨empty_mem_powerset s, Nat.zero_le k⟩⟩ :
      (s.powerset.filter fun W => W.card ≤ k).Nonempty) (fun W => ∑ i ∈ s \ W, p i)
  obtain ⟨hsub, hcard⟩ := mem_filter.mp hW
  exact ⟨W, mem_powerset.mp hsub, hcard, heq⟩

variable {p : ι → α}

theorem leastSum_le_sum : leastSum k s p ≤ ∑ i ∈ s, p i := by
  have hle := leastSum_le (k := k) s p (W := ∅) (by rw [card_empty]; exact Nat.zero_le k)
  rwa [sdiff_empty] at hle

theorem leastSum_zero (s : Finset ι) (p : ι → α) : leastSum 0 s p = ∑ i ∈ s, p i := by
  obtain ⟨W, -, hcard, heq⟩ := exists_leastSum 0 s p
  rw [heq, card_eq_zero.mp (Nat.le_zero.mp hcard), sdiff_empty]

variable [IsOrderedAddMonoid α]

theorem sum_le_sum_take (hs : xs.Pairwise (· ≥ ·)) (hpos : ∀ x ∈ xs, 0 ≤ x) :
    ∀ {ys : List α} {k : Nat}, ys.Subperm xs → ys.length ≤ k → ys.sum ≤ (xs.take k).sum := by
  induction xs with
  | nil =>
    intro ys k hsub _
    rw [subperm_nil.mp hsub, take_nil]
  | cons x xs ih =>
    intro ys k hsub hl
    obtain ⟨hx, hs⟩ := pairwise_cons.mp hs
    have ih := @ih hs fun y hy => hpos y (mem_cons_of_mem _ hy)
    cases ys with
    | nil =>
      apply sum_nonneg
      intro y hy
      exact hpos y (mem_of_mem_take hy)
    | cons y ys =>
      cases k with
      | zero => cases hl
      | succ k =>
        by_cases hmem : x ∈ y :: ys
        · have hp := perm_cons_erase hmem
          rw [hp.sum_eq]
          apply add_le_add_right
          apply ih
          · exact subperm_cons x |>.mp (hp.symm.subperm.trans hsub)
          · rw [length_erase_of_mem hmem]
            exact Nat.sub_le_of_le_add hl
        · have hs' : (y :: ys).Subperm xs := by
            have he := hsub.erase x
            rwa [erase_of_not_mem hmem, erase_cons_head] at he
          apply add_le_add
          · exact hx y (hs'.subset mem_cons_self)
          · exact ih ((sublist_cons_self y ys).subperm.trans hs') (Nat.le_of_succ_le_succ hl)

theorem sum_le_topSum {xs ys : List α} (hpos : ∀ x ∈ xs, 0 ≤ x) (hs : ys.Subperm xs)
    (hl : ys.length ≤ k) : ys.sum ≤ topSum k xs := by
  have hp := perm_insertionSort (· ≥ ·) xs
  apply sum_le_sum_take (pairwise_insertionSort _ xs) _ (hs.trans hp.symm.subperm) hl
  intro x hx
  exact hpos x (hp.mem_iff.mp hx)

theorem leastSum_mono {p q : ι → α} (h : ∀ i ∈ s, p i ≤ q i) : leastSum k s p ≤ leastSum k s q := by
  obtain ⟨W, -, hcard, heq⟩ := exists_leastSum k s q
  rw [heq]
  apply (leastSum_le s p hcard).trans
  apply Finset.sum_le_sum
  intro i hi
  exact h i (mem_sdiff.mp hi).1

theorem leastSum_congr {p q : ι → α} (h : ∀ i ∈ s, p i = q i) : leastSum k s p = leastSum k s q :=
  le_antisymm (leastSum_mono fun i hi => (h i hi).le) (leastSum_mono fun i hi => (h i hi).ge)

theorem leastSum_subset (hst : s ⊆ t)
    (hp : ∀ i ∈ t \ s, 0 ≤ p i) : leastSum k s p ≤ leastSum k t p := by
  obtain ⟨W, -, hcard, heq⟩ := exists_leastSum k t p
  rw [heq]
  apply (leastSum_le s p hcard).trans
  apply sum_le_sum_of_subset_of_nonneg (sdiff_subset_sdiff hst le_rfl)
  intro i hi hn
  obtain ⟨hit, hiW⟩ := mem_sdiff.mp hi
  apply hp i
  apply mem_sdiff.mpr
  exact ⟨hit, fun his => hn (mem_sdiff.mpr ⟨his, hiW⟩)⟩

theorem leastSum_eq_of_subset (hst : s ⊆ t)
    (hz : ∀ i ∈ t \ s, p i = 0) : leastSum k s p = leastSum k t p := by
  apply le_antisymm (leastSum_subset hst fun i hi => (hz i hi).ge)
  obtain ⟨W, -, hcard, heq⟩ := exists_leastSum k s p
  rw [heq]
  apply (leastSum_le t p hcard).trans_eq
  symm
  apply sum_subset (sdiff_subset_sdiff hst le_rfl)
  intro i hi hn
  obtain ⟨hit, hiW⟩ := mem_sdiff.mp hi
  apply hz i
  apply mem_sdiff.mpr
  exact ⟨hit, fun his => hn (mem_sdiff.mpr ⟨his, hiW⟩)⟩

theorem leastSum_nonneg (hp : ∀ i ∈ s, 0 ≤ p i) : 0 ≤ leastSum k s p := by
  obtain ⟨W, -, -, heq⟩ := exists_leastSum k s p
  rw [heq]
  apply Finset.sum_nonneg
  intro i hi
  exact hp i (mem_sdiff.mp hi).1

theorem leastSum_eq_zero_iff (hp : ∀ i ∈ s, 0 ≤ p i) :
    leastSum k s p = 0 ↔ (s.filter fun i => 0 < p i).card ≤ k := by
  constructor
  · intro hzero
    obtain ⟨W, -, hcard, heq⟩ := exists_leastSum k s p
    refine (card_le_card ?_).trans hcard
    intro i hi
    obtain ⟨his, hip⟩ := mem_filter.mp hi
    by_contra hiW
    have hle := single_le_sum (f := p) (s := s \ W)
      (fun j hj => hp j (mem_sdiff.mp hj).1) (mem_sdiff.mpr ⟨his, hiW⟩)
    rw [← heq, hzero] at hle
    exact absurd hip (not_lt.mpr hle)
  · intro hcard
    apply le_antisymm _ (leastSum_nonneg hp)
    apply (leastSum_le s p hcard).trans_eq
    apply Finset.sum_eq_zero
    intro i hi
    obtain ⟨his, hn⟩ := mem_sdiff.mp hi
    apply le_antisymm _ (hp i his)
    apply not_lt.mp
    intro hip
    exact hn (mem_filter.mpr ⟨his, hip⟩)

theorem sum_le_leastSum (hp : ∀ i ∈ s, 0 ≤ p i) (hW : W ⊆ s) (hca : k ≤ W.card ∨ W = s)
    (hr : ∀ i ∈ W, ∀ j ∈ s \ W, p j ≤ p i) : ∑ i ∈ s \ W, p i ≤ leastSum k s p := by
  rcases hca with hca | rfl
  · obtain ⟨V, hV, hle, heq⟩ := exists_leastSum k s p
    rw [heq]
    rw [sum_sdiff_eq_sub hW, sum_sdiff_eq_sub hV]
    apply sub_le_sub_left
    rw [← sub_nonneg, ← sum_sdiff_sub_sum_sdiff, sub_nonneg]
    have hc := card_sdiff_le_card_sdiff_iff.mpr (hle.trans hca)
    by_cases he : (V \ W).Nonempty
    · obtain ⟨m, hm, hmax⟩ := exists_max_image _ p he
      have hms : m ∈ s \ W := sdiff_subset_sdiff hV le_rfl hm
      calc ∑ i ∈ V \ W, p i ≤ (V \ W).card • p m := sum_le_card_nsmul _ _ _ hmax
        _ ≤ (W \ V).card • p m := nsmul_le_nsmul_left (hp m (mem_sdiff.mp hms).1) hc
        _ ≤ ∑ i ∈ W \ V, p i := by
          apply Finset.card_nsmul_le_sum
          intro i hi
          exact hr i (mem_sdiff.mp hi).1 m hms
    · rw [not_nonempty_iff_eq_empty.mp he, sum_empty]
      apply Finset.sum_nonneg
      intro i hi
      exact hp i (hW (mem_sdiff.mp hi).1)
  · rw [Finset.sdiff_self, Finset.sum_empty]
    exact leastSum_nonneg hp

theorem sum_sub_topSum {gs : List ι} (hn : gs.Nodup) (hpos : ∀ g ∈ gs, 0 ≤ p g) :
    (gs.map p).sum - topSum k (gs.map p) = leastSum k gs.toFinset p := by
  have hp' : ∀ x ∈ gs.map p, 0 ≤ x := by
    intro x hx
    obtain ⟨g, hg, rfl⟩ := mem_map.mp hx
    exact hpos g hg
  have hs := (sum_toFinset p hn).symm
  apply le_antisymm
  · obtain ⟨W, hWt, hcard, heq⟩ := exists_leastSum k gs.toFinset p
    rw [heq, sub_le_iff_le_add, hs, ← sum_sdiff hWt]
    apply add_le_add_right
    have hW : W.toList.Subperm gs := by
      apply W.nodup_toList.subperm
      intro g hg
      exact mem_toFinset.mp (hWt (mem_toList.mp hg))
    obtain ⟨ws, hp, hsub⟩ := hW
    have hle := sum_le_topSum (k := k) hp' (hsub.map p).subperm
      (by rwa [length_map, hp.length_eq, length_toList])
    rwa [(hp.map p).sum_eq, sum_map_toList] at hle
  · obtain ⟨ys, hsub, hl, hys⟩ := exists_topSum k (gs.map p)
    obtain ⟨zs, hp, hsub⟩ := hsub
    obtain ⟨ws, hws, rfl⟩ := sublist_map_iff.mp hsub
    have hwn : ws.Nodup := hn.sublist hws
    have hw : ws.toFinset ⊆ gs.toFinset := by
      intro g hg
      exact mem_toFinset.mpr (hws.subset (mem_toFinset.mp hg))
    rw [← hys, ← hp.sum_eq, hs, ← sum_toFinset p hwn, le_sub_iff_add_le]
    rw [← sum_sdiff hw]
    apply add_le_add_left
    apply leastSum_le
    rwa [toFinset_card_of_nodup hwn, ← length_map p, hp.length_eq]

end

end Rebalancer
