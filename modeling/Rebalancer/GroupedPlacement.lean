import Rebalancer.Placement

namespace Rebalancer
open Finset Function Relation

namespace Placement
variable {β ι : Type}

def Crossed (items : Finset ι) (home : ι → β) (A B : Set β) (s : Placement β β ι) : Prop :=
  ∃ o ∈ items, home o ∈ A ∧ ∃ c ∈ B, s.placed o = some c

/-- Items wait at home; a group that took an item has empty pools, one that lost an item full bins.
-/
structure KeepInv (items : Finset ι) (home : ι → β) (family : Set (Set β))
    (s : Placement β β ι) : Prop where
  at_home : ∀ p, ∀ o ∈ s.pool p, home o = p
  came_in : ∀ G ∈ family, Crossed items home Gᶜ G s → ∀ q ∈ G, s.pool q = []
  went_out : ∀ G ∈ family, Crossed items home G Gᶜ s → ∀ d ∈ G, s.remaining d = 0
  not_both : ∀ G ∈ family, Crossed items home Gᶜ G s → ¬ Crossed items home G Gᶜ s

variable {is : Finset ι} {home : ι → β} {family : Set (Set β)}

theorem KeepInv.start {s : Placement β β ι} (hh : ∀ p, ∀ o ∈ s.pool p, home o = p)
    (hp : ∀ o ∈ is, s.placed o = none) : s.KeepInv is home family := by
  have hnone : ∀ A B, ¬ Crossed is home A B s := by
    rintro A B ⟨o, ho, -, c, -, hc⟩
    rw [hp o ho] at hc
    cases hc
  exact ⟨hh, fun G _ h => absurd h (hnone _ _), fun G _ h => absurd h (hnone _ _),
    fun G _ h => absurd h (hnone _ _)⟩

open Classical in
theorem KeepInv.kept {s : Placement β β ι} (h : s.KeepInv is home family)
    (ha : ∀ o ∈ is, s.placed o ≠ none) (hG : G ∈ family) :
    (is.filter fun o => home o ∈ G ∧ ∃ c ∈ G, s.placed o = some c).card =
      min (is.filter fun o => home o ∈ G).card
        (is.filter fun o => ∃ c ∈ G, s.placed o = some c).card := by
  by_cases hcame : Crossed is home Gᶜ G s
  · have hstay : ∀ o ∈ is, home o ∈ G → ∃ c ∈ G, s.placed o = some c := by
      intro o ho hh
      obtain ⟨c, hc⟩ := Option.ne_none_iff_exists'.mp (ha o ho)
      refine ⟨c, ?_, hc⟩
      by_contra hout
      exact h.not_both G hG hcame ⟨o, ho, hh, c, hout, hc⟩
    have hs : (is.filter fun o => home o ∈ G ∧ ∃ c ∈ G, s.placed o = some c) =
        is.filter fun o => home o ∈ G := by
      apply filter_congr
      intro o ho
      exact and_iff_left_of_imp (hstay o ho)
    rw [hs, min_eq_left]
    apply card_le_card
    intro o ho
    rw [mem_filter] at ho ⊢
    exact ⟨ho.1, hstay o ho.1 ho.2⟩
  · have hf : ∀ o ∈ is, (∃ c ∈ G, s.placed o = some c) → home o ∈ G := by
      intro o ho hin
      by_contra hout
      exact hcame ⟨o, ho, hout, hin⟩
    have hs : (is.filter fun o => home o ∈ G ∧ ∃ c ∈ G, s.placed o = some c) =
        is.filter fun o => ∃ c ∈ G, s.placed o = some c := by
      apply filter_congr
      intro o ho
      exact and_iff_right_of_imp (hf o ho)
    rw [hs, min_eq_right]
    apply card_le_card
    intro o ho
    rw [mem_filter] at ho ⊢
    exact ⟨ho.1, hf o ho.1 ho.2⟩

variable [DecidableEq ι]

theorem Crossed.of_update {r : β → Nat} {pool : β → List ι}
    (h : Crossed is home A B ⟨r, pool, update s.placed o (some c)⟩) :
    Crossed is home A B s ∨ home o ∈ A ∧ c ∈ B := by
  obtain ⟨x, hx, hh, d, hd, hp⟩ := h
  by_cases he : x = o
  · subst he
    simp only [update_self, Option.some.injEq] at hp
    exact .inr ⟨hh, hp ▸ hd⟩
  · simp only [update_of_ne he] at hp
    exact .inl ⟨x, hx, hh, d, hd, hp⟩

variable [DecidableEq β]

inductive Move (c p : β) (s : Placement β β ι) : Placement β β ι → Prop where
  | place : s.pool p = rest ++ [o] → 0 < s.remaining c →
    Move c p s ⟨update s.remaining c (s.remaining c - 1), update s.pool p rest,
      update s.placed o (some c)⟩
variable {s t : Placement β β ι}

theorem Move.step (h : Move c p s t) : s.Step t := by
  cases h with
  | place hp hb => exact .place hp hb

theorem Move.remaining_of_ne (h : Move c p s t) (hd : d ≠ c) : t.remaining d = s.remaining d := by
  cases h with
  | place hp hb => exact update_of_ne hd _ _

theorem Move.pool_of_ne (h : Move c p s t) (hq : q ≠ p) : t.pool q = s.pool q := by
  cases h with
  | place hp hb => exact update_of_ne hq _ _

theorem Move.remaining_pos (h : Move c p s t) : 0 < s.remaining c := by
  cases h with
  | place hp hb => exact hb

theorem Move.pool_ne_nil (h : Move c p s t) : s.pool p ≠ [] := by
  cases h with
  | place hp hb =>
    rw [hp]
    exact List.append_ne_nil_of_right_ne_nil _ (List.cons_ne_nil _ _)

theorem steps_of_moves (h : ReflTransGen (Move c p) s t) : s.Steps t := by
  induction h with
  | refl => exact .refl
  | tail _ hm ih => exact ih.tail hm.step

section
variable (family : Set (Set β))

/-- A move into a group finds its pools empty, and a move out of it finds its bins full. -/
def Keeping (s : Placement β β ι) (c p : β) : Prop :=
  ∀ G ∈ family, (c ∈ G → p ∉ G → ∀ q ∈ G, s.pool q = []) ∧
    (p ∈ G → c ∉ G → ∀ d ∈ G, s.remaining d = 0)

def KeepStep (s t : Placement β β ι) : Prop := ∃ c p, Move c p s t ∧ Keeping family s c p

def KeepSteps : Placement β β ι → Placement β β ι → Prop := ReflTransGen (KeepStep family)

end

theorem KeepSteps.steps (h : KeepSteps family s t) : s.Steps t := by
  induction h with
  | refl => exact .refl
  | tail _ hk ih =>
    obtain ⟨c, p, hm, -⟩ := hk
    exact ih.tail hm.step

theorem Keeping.of_move (hm : Move c p s t) (h : Keeping family s c p) : Keeping family t c p := by
  intro G hG
  obtain ⟨hin, hout⟩ := h G hG
  constructor
  · intro hc hp q hq
    have hne : q ≠ p := by
      rintro rfl
      exact hp hq
    rw [hm.pool_of_ne hne]
    exact hin hc hp q hq
  · intro hp hc d hd
    have hne : d ≠ c := by
      rintro rfl
      exact hc hd
    rw [hm.remaining_of_ne hne]
    exact hout hp hc d hd

theorem keepSteps_of_moves (h : ReflTransGen (Move c p) s t)
    (hk : s.pool p ≠ [] → 0 < s.remaining c → Keeping family s c p) : KeepSteps family s t := by
  induction h using ReflTransGen.head_induction_on with
  | refl => exact .refl
  | head hm _ ih =>
    have hkeeping := hk hm.pool_ne_nil hm.remaining_pos
    exact .head ⟨c, p, hm, hkeeping⟩ (ih fun _ _ => hkeeping.of_move hm)

theorem KeepInv.step (h : s.KeepInv is home family)
    (hs : KeepStep family s t) : t.KeepInv is home family := by
  obtain ⟨c, p, hm, hk⟩ := hs
  have hstep := hm.step
  have hne := hm.pool_ne_nil
  cases hm with
  | @place rest o hp hb =>
    have hl : o ∈ s.pool p := by
      rw [hp]
      exact List.mem_append_right _ List.mem_cons_self
    have hh : home o = p := h.at_home p o hl
    refine ⟨?_, ?_, ?_, ?_⟩
    · intro q x hx
      by_cases hq : q = p
      · subst hq
        apply h.at_home
        rw [hp]
        simp only [update_self] at hx
        exact List.mem_append_left _ hx
      · simp only [update_of_ne hq] at hx
        exact h.at_home q x hx
    · intro G hG hc q hq
      apply hstep.pool_nil
      rcases hc.of_update with hold | hn
      · exact h.came_in G hG hold q hq
      · rw [hh] at hn
        exact (hk G hG).1 hn.2 hn.1 q hq
    · intro G hG hw d hd
      apply hstep.remaining_zero
      rcases hw.of_update with hold | hn
      · exact h.went_out G hG hold d hd
      · rw [hh] at hn
        exact (hk G hG).2 hn.1 hn.2 d hd
    · intro G hG hc hw
      rcases hc.of_update with hc | hc
      · rcases hw.of_update with hw | hw
        · exact h.not_both G hG hc hw
        · rw [hh] at hw
          exact hne (h.came_in G hG hc p hw.1)
      · rcases hw.of_update with hw | hw
        · rw [h.went_out G hG hw c hc.2] at hb
          exact Nat.lt_irrefl 0 hb
        · exact hw.2 hc.2

theorem KeepInv.steps (h : s.KeepInv is home family)
    (hs : KeepSteps family s t) : t.KeepInv is home family := by
  induction hs with
  | refl => exact h
  | tail _ hk ih => exact ih.step hk

def Resolved (s : Placement β β ι) : Prop := ∀ c, s.remaining c = 0 ∨ s.pool c = []

theorem Resolved.step (h : s.Resolved) (hs : s.Step t) : t.Resolved := by
  intro c
  rcases h c with hzero | hn
  · exact .inl (hs.remaining_zero hzero)
  · exact .inr (hs.pool_nil hn)

theorem Resolved.keepSteps (hf : ∀ G ∈ family, ∃ c, G = {c})
    (h : s.Resolved) (hs : s.Steps t) : KeepSteps family s t := by
  induction hs using ReflTransGen.head_induction_on with
  | refl => exact .refl
  | head hs _ ih =>
    apply ReflTransGen.head _ (ih (h.step hs))
    cases hs with
    | @place p rest o c hpool hb =>
      refine ⟨c, p, .place hpool hb, ?_⟩
      intro G hG
      obtain ⟨d, rfl⟩ := hf G hG
      simp only [Set.mem_singleton_iff, forall_eq]
      constructor
      · intro hc _
        rw [hc] at hb
        exact (h d).resolve_left (Nat.ne_of_gt hb)
      · intro hp _
        apply (h d).resolve_right
        rw [← hp, hpool]
        exact List.append_ne_nil_of_right_ne_nil _ (List.cons_ne_nil _ _)

end Placement

end Rebalancer
