import Mathlib

namespace Rebalancer
open List Function Nat
open Finset hiding mem_singleton

structure Placement (β π ι : Type) where
  remaining : β → Nat
  pool : π → List ι
  placed : ι → Option β

namespace Placement
variable {β π ι : Type} [DecidableEq β]

/-- Every item is in its pool until it is placed, and a bin has as many items as it no longer takes.
-/
structure Inv (items : Finset ι) (target : β → Nat) (before : ι → Option β)
    (s : Placement β π ι) : Prop where
  pooled : ∀ o, (∃ p, o ∈ s.pool p) ↔ o ∈ items ∧ s.placed o = none
  nodup : ∀ p, (s.pool p).Nodup
  one_pool : ∀ o p q, o ∈ s.pool p → o ∈ s.pool q → p = q
  counts : ∀ c, (items.filter fun o => s.placed o = some c).card + s.remaining c = target c
  frame : ∀ o, o ∉ items → s.placed o = before o

variable {items : Finset ι} {target : β → Nat} {before : ι → Option β}
variable {s : Placement β π ι}

theorem Inv.start (hpo : ∀ o, (∃ p, o ∈ s.pool p) ↔ o ∈ items) (hn : ∀ p, (s.pool p).Nodup)
    (hone : ∀ o p q, o ∈ s.pool p → o ∈ s.pool q → p = q)
    (hp : ∀ o ∈ items, s.placed o = none) : s.Inv items s.remaining s.placed where
  pooled o := by
    rw [hpo o]
    exact ⟨fun ho => ⟨ho, hp o ho⟩, And.left⟩
  nodup := hn
  one_pool := hone
  counts c := by
    have hnone : items.filter (fun o => s.placed o = some c) = ∅ := by
      apply filter_eq_empty_iff.mpr
      intro o ho he
      rw [hp o ho] at he
      cases he
    rw [hnone, card_empty, zero_add]
  frame _ _ := rfl

structure Fits (items : Finset ι) (target : β → Nat) (bins : Finset β) : Prop where
  outside : ∀ c, c ∉ bins → target c = 0
  total : ∑ c ∈ bins, target c = items.card

section
variable {bins : Finset β} (h : s.Inv items target before) (hf : Fits items target bins)
include h hf

theorem Inv.balance :
    (items.filter fun o => s.placed o ≠ none).card + ∑ c ∈ bins, s.remaining c = items.card := by
  have hfiber : (items.filter fun o => s.placed o ≠ none).card =
      ∑ c ∈ bins, (items.filter fun o => s.placed o = some c).card := by
    rw [Finset.card_eq_sum_card_fiberwise (f := s.placed) (t := bins.map .some), Finset.sum_map]
    · apply Finset.sum_congr rfl
      intro c _
      congr 1
      ext o
      simp only [Finset.mem_filter, Embedding.some_apply]
      constructor
      · intro ho
        exact ⟨ho.1.1, ho.2⟩
      · intro ho
        refine ⟨⟨ho.1, ?_⟩, ho.2⟩
        rw [ho.2]
        exact Option.some_ne_none c
    · intro o ho
      obtain ⟨ho, hne⟩ := Finset.mem_filter.mp ho
      obtain ⟨c, hc⟩ := Option.ne_none_iff_exists'.mp hne
      rw [hc]
      apply Finset.mem_coe.mpr
      apply Finset.mem_map.mpr
      refine ⟨c, ?_, rfl⟩
      by_contra hout
      have hcount := h.counts c
      rw [hf.outside c hout] at hcount
      have hp : 0 < (items.filter fun o => s.placed o = some c).card :=
        Finset.card_pos.mpr ⟨o, Finset.mem_filter.mpr ⟨ho, hc⟩⟩
      omega
  rw [hfiber, ← Finset.sum_add_distrib, ← hf.total]
  apply Finset.sum_congr rfl
  intro c _
  exact h.counts c

theorem Inv.remaining_zero (he : ∀ p, s.pool p = []) (c : β) : s.remaining c = 0 := by
  have ha : items.filter (fun o => s.placed o ≠ none) = items := by
    apply filter_true_of_mem
    intro o ho hnone
    obtain ⟨p, hp⟩ := (h.pooled o).mpr ⟨ho, hnone⟩
    rw [he p] at hp
    cases hp
  have hb := h.balance hf
  rw [ha] at hb
  by_cases hc : c ∈ bins
  · exact sum_eq_zero_iff.mp (add_eq_left.mp hb) c hc
  · have hcount := h.counts c
    rw [hf.outside c hc] at hcount
    exact Nat.eq_zero_of_add_eq_zero_left hcount

theorem Inv.finished (hz : ∀ c, s.remaining c = 0) : (∀ o ∈ items, s.placed o ≠ none) ∧
      ∀ c, (items.filter fun o => s.placed o = some c).card = target c := by
  constructor
  · have hb := h.balance hf
    rw [sum_eq_zero fun c _ => hz c] at hb
    exact filter_eq_self.mp (eq_of_subset_of_card_le (filter_subset _ _) (le_of_eq hb.symm))
  · intro c
    have hc := h.counts c
    rwa [hz c, add_zero] at hc

end

theorem Inv.mem_pool_update [DecidableEq π] (h : s.Inv items target before)
    (hp : s.pool p = rest ++ [o]) : x ∈ update s.pool p rest q ↔ x ∈ s.pool q ∧ x ≠ o := by
  have hn := h.nodup p
  rw [hp, nodup_append'] at hn
  by_cases hq : q = p
  · subst hq
    rw [update_self, hp, mem_append, mem_singleton]
    constructor
    · intro hx
      exact ⟨.inl hx, fun he => hn.2.2 hx (mem_singleton.mpr he)⟩
    · intro hx
      exact hx.1.resolve_right hx.2
  · rw [update_of_ne hq]
    constructor
    · intro hx
      refine ⟨hx, ?_⟩
      intro he
      subst he
      apply hq
      apply h.one_pool x q p hx
      rw [hp]
      exact mem_append_right _ mem_cons_self
    · exact And.left

variable [DecidableEq ι]

theorem Inv.counts_update (h : s.Inv items target before) (ho : o ∈ items)
    (hn : s.placed o = none) (hb : 0 < s.remaining c) (d : β) :
    (items.filter fun x => update s.placed o (some c) x = some d).card +
      update s.remaining c (s.remaining c - 1) d = target d := by
  have hc := h.counts d
  by_cases hd : d = c
  · subst hd
    have hi : items.filter (fun x => update s.placed o (some d) x = some d) =
        insert o (items.filter fun x => s.placed x = some d) := by
      ext x
      rw [Finset.mem_filter, Finset.mem_insert, Finset.mem_filter]
      by_cases hx : x = o
      · subst hx
        rw [update_self]
        exact iff_of_true ⟨ho, rfl⟩ (.inl rfl)
      · rw [update_of_ne hx, or_iff_right hx]
    rw [hi, card_insert_of_notMem, update_self]
    · omega
    · intro hm
      rw [Finset.mem_filter, hn] at hm
      cases hm.2
  · have hs : items.filter (fun x => update s.placed o (some c) x = some d) =
        items.filter fun x => s.placed x = some d := by
      apply Finset.filter_congr
      intro x _
      by_cases hx : x = o
      · subst hx
        rw [update_self, hn]
        exact iff_of_false (fun he => hd (Option.some.inj he).symm) nofun
      · rw [update_of_ne hx]
    rw [hs, update_of_ne hd]
    exact hc

variable [DecidableEq π]

inductive Step (s : Placement β π ι) : Placement β π ι → Prop where
  | place : s.pool p = rest ++ [o] → 0 < s.remaining c →
    Step s ⟨update s.remaining c (s.remaining c - 1), update s.pool p rest,
      update s.placed o (some c)⟩

def Steps : Placement β π ι → Placement β π ι → Prop := Relation.ReflTransGen Step
variable {t : Placement β π ι}

theorem Step.pool_nil (h : s.Step t) (hp : s.pool p = []) : t.pool p = [] := by
  cases h with
  | @place q rest o c hpool hb =>
    have hne : p ≠ q := by
      intro he
      rw [← he, hp] at hpool
      exact absurd hpool.symm (append_ne_nil_of_right_ne_nil _ (cons_ne_nil _ _))
    exact (update_of_ne hne _ _).trans hp

theorem Step.remaining_zero (h : s.Step t) (hc : s.remaining c = 0) : t.remaining c = 0 := by
  cases h with
  | @place p rest o d hp hb =>
    have hne : c ≠ d := by
      intro he
      rw [← he, hc] at hb
      exact lt_irrefl 0 hb
    exact (update_of_ne hne _ _).trans hc

theorem Steps.pool_nil (h : s.Steps t) (hp : s.pool p = []) : t.pool p = [] := by
  induction h with
  | refl => exact hp
  | tail _ hs ih => exact hs.pool_nil ih

theorem Steps.remaining_zero (h : s.Steps t) (hc : s.remaining c = 0) : t.remaining c = 0 := by
  induction h with
  | refl => exact hc
  | tail _ hs ih => exact hs.remaining_zero ih

theorem Step.unpooled (h : s.Step t) (ho : ∀ p, o ∉ s.pool p) :
    (∀ p, o ∉ t.pool p) ∧ t.placed o = s.placed o := by
  cases h with
  | @place p rest x c hp hb =>
    have hne : o ≠ x := by
      intro he
      apply ho p
      rw [hp, he]
      exact mem_append_right _ mem_cons_self
    refine ⟨?_, update_of_ne hne _ _⟩
    intro q hq
    by_cases hqp : q = p
    · subst hqp
      simp only [update_self] at hq
      apply ho q
      rw [hp]
      exact mem_append_left _ hq
    · simp only [update_of_ne hqp] at hq
      exact ho q hq

theorem Steps.unpooled (h : s.Steps t) (ho : ∀ p, o ∉ s.pool p) :
    (∀ p, o ∉ t.pool p) ∧ t.placed o = s.placed o := by
  induction h with
  | refl => exact ⟨ho, rfl⟩
  | tail _ hs ih =>
    obtain ⟨hpool, hp⟩ := hs.unpooled ih.1
    exact ⟨hpool, hp.trans ih.2⟩

theorem Inv.step (h : s.Inv items target before) (hs : s.Step t) : t.Inv items target before := by
  cases hs with
  | @place p rest o c hp hb =>
    have hl : o ∈ s.pool p := by
      rw [hp]
      exact mem_append_right _ mem_cons_self
    obtain ⟨ho, hnone⟩ := (h.pooled o).mp ⟨p, hl⟩
    refine ⟨?_, ?_, ?_, h.counts_update ho hnone hb, ?_⟩
    · intro x
      simp only [h.mem_pool_update hp, exists_and_right, h.pooled x]
      by_cases hx : x = o
      · subst hx
        rw [update_self]
        exact iff_of_false (fun hc => hc.2 rfl) (fun hc => nomatch hc.2)
      · rw [update_of_ne hx, and_iff_left hx]
    · intro q
      by_cases hq : q = p
      · subst hq
        have hn := h.nodup q
        rw [hp, nodup_append'] at hn
        simp only [update_self]
        exact hn.1
      · simp only [update_of_ne hq]
        exact h.nodup q
    · intro x q r hx hy
      rw [h.mem_pool_update hp] at hx hy
      exact h.one_pool x q r hx.1 hy.1
    · intro x hx
      have hne : x ≠ o := fun he => hx (he ▸ ho)
      exact (update_of_ne hne _ _).trans (h.frame x hx)

theorem Inv.steps (h : s.Inv items target before) (hs : s.Steps t) : t.Inv items target before := by
  induction hs with
  | refl => exact h
  | tail _ hs ih => exact ih.step hs

end Placement

end Rebalancer
