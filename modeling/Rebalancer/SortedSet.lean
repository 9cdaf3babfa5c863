import Mathlib

namespace Rebalancer
open List

namespace SortedSet
variable {α : Type} (lt : α → α → Prop) [DecidableRel lt]

def insert (x : α) : List α → List α
  | [] => [x]
  | y :: l =>
    if lt x y then x :: y :: l
    else if lt y x then y :: insert x l
    else y :: l

def erase (x : α) : List α → List α
  | [] => []
  | y :: l =>
    if lt x y then y :: l
    else if lt y x then y :: erase x l
    else l

variable {lt} [IsStrictTotalOrder α lt]

omit [DecidableRel lt] in
theorem eq_of_not_lt (h₁ : ¬ lt x y) (h₂ : ¬ lt y x) : x = y := by
  rcases trichotomous_of lt x y with h | h | h
  · exact absurd h h₁
  · exact h
  · exact absurd h h₂

theorem mem_insert : y ∈ insert lt x l ↔ y = x ∨ y ∈ l := by
  induction l with
  | nil => exact mem_singleton.trans (or_iff_left not_mem_nil).symm
  | cons z l ih =>
    rw [insert]
    split
    · exact mem_cons
    · rename_i hxz
      split
      · rw [mem_cons, ih, mem_cons, or_left_comm]
      · rename_i hzx
        rw [eq_of_not_lt hxz hzx, mem_cons]
        exact or_self_left.symm

theorem insert_sorted (h : l.Pairwise lt) (x : α) : (insert lt x l).Pairwise lt := by
  induction l with
  | nil => exact pairwise_singleton lt x
  | cons y l ih =>
    obtain ⟨hy, hl⟩ := pairwise_cons.mp h
    rw [insert]
    split
    · rename_i hxy
      refine pairwise_cons.mpr ⟨?_, h⟩
      intro z hz
      rcases mem_cons.mp hz with rfl | hz
      · exact hxy
      · exact trans_of lt hxy (hy z hz)
    · split
      · rename_i hyx
        refine pairwise_cons.mpr ⟨?_, ih hl⟩
        intro z hz
        rcases mem_insert.mp hz with rfl | hz
        · exact hyx
        · exact hy z hz
      · exact h

theorem mem_erase (h : l.Pairwise lt) : y ∈ erase lt x l ↔ y ∈ l ∧ y ≠ x := by
  induction l with
  | nil => exact iff_of_false not_mem_nil fun h => not_mem_nil h.1
  | cons z l ih =>
    obtain ⟨hz, hl⟩ := pairwise_cons.mp h
    rw [erase]
    split
    · rename_i hxz
      refine (and_iff_left_of_imp ?_).symm
      intro hy he
      subst he
      rcases mem_cons.mp hy with rfl | hy
      · exact irrefl_of lt y hxz
      · exact asymm_of lt hxz (hz y hy)
    · rename_i hxz
      split
      · rename_i hzx
        rw [mem_cons, ih hl, mem_cons]
        constructor
        · intro hy
          rcases hy with rfl | hy
          · refine ⟨.inl rfl, ?_⟩
            intro he
            subst he
            exact irrefl_of lt y hzx
          · exact ⟨.inr hy.1, hy.2⟩
        · intro hy
          exact hy.1.imp_right fun hmem => ⟨hmem, hy.2⟩
      · rename_i hzx
        obtain rfl := eq_of_not_lt hxz hzx
        rw [mem_cons]
        constructor
        · intro hy
          refine ⟨.inr hy, ?_⟩
          intro he
          subst he
          exact irrefl_of lt y (hz y hy)
        · intro hy
          exact hy.1.resolve_left hy.2

theorem erase_sorted (h : l.Pairwise lt) (x : α) : (erase lt x l).Pairwise lt := by
  induction l with
  | nil => exact h
  | cons y l ih =>
    obtain ⟨hy, hl⟩ := pairwise_cons.mp h
    rw [erase]
    split
    · exact h
    · split
      · refine pairwise_cons.mpr ⟨?_, ih hl⟩
        intro z hz
        exact hy z ((mem_erase hl).mp hz).1
      · exact hl

omit [DecidableRel lt] in
theorem head?_eq {l : List α} (hs : l.Pairwise lt) (hx : x ∈ l)
    (hl : ∀ y ∈ l, y = x ∨ lt x y) : l.head? = some x := by
  cases l with
  | nil => cases hx
  | cons y l =>
    rcases mem_cons.mp hx with rfl | hx
    · rfl
    · have hlt := (pairwise_cons.mp hs).1 x hx
      rcases hl y mem_cons_self with rfl | hgt
      · exact absurd hlt (irrefl_of lt y)
      · exact absurd (trans_of lt hlt hgt) (irrefl_of lt y)

end SortedSet

end Rebalancer
