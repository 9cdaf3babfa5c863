import Mathlib

namespace Rebalancer
open List

/-- Something to be minimized, and how far it may rise again above the value that was found. -/
structure Goal (X R : Type) where
  value : X → R
  allow : R → R

/-- Goals that are minimized one after the other, each within what the earlier ones allow. -/
inductive Rounds {X R : Type} [LinearOrder R] : Set X → List (Goal X R) → List X → X → Prop where
  | last (hx : x ∈ S) (hmin : IsMinOn g.value S x) : Rounds S [g] [x] x
  | next {x : X} {g : Goal X R} (hx : x ∈ S) (hmin : IsMinOn g.value S x)
      (hrest : Rounds {y ∈ S | g.value y ≤ g.allow (g.value x)} gs xs z) :
      Rounds S (g :: gs) (x :: xs) z

def Kept [LE R] (gs : List (Goal X R)) (xs : List X) (y : X) : Prop :=
  ∀ k g x, k + 1 < gs.length → gs[k]? = some g → xs[k]? = some x → g.value y ≤ g.allow (g.value x)

section
variable {X R : Type} [LinearOrder R] {S : Set X} {gs : List (Goal X R)} {xs : List X} {y z : X}

omit [LinearOrder R] in
theorem Kept.single [LE R] (g : Goal X R) (xs : List X) (y : X) : Kept [g] xs y := by
  intro k _ _ hk
  simp only [length_singleton, Nat.add_lt_iff_lt_sub_right, Nat.sub_self, Nat.not_lt_zero] at hk

omit [LinearOrder R] in
theorem Kept.cons_iff [LE R] (hgs : gs ≠ []) :
    Kept (g :: gs) (x :: xs) y ↔ g.value y ≤ g.allow (g.value x) ∧ Kept gs xs y := by
  have hp := length_pos_iff.mpr hgs
  constructor
  · intro h
    constructor
    · apply h 0 g x _ rfl rfl
      rw [length_cons]
      omega
    · intro k g' x' hk hg' hx'
      apply h (k + 1) g' x' _ hg' hx'
      rw [length_cons]
      omega
  · intro h k g' x' hk hg' hx'
    cases k with
    | zero =>
      cases hg'
      cases hx'
      exact h.1
    | succ k =>
      apply h.2 k g' x' _ hg' hx'
      rw [length_cons] at hk
      omega

section
variable (h : Rounds S gs xs z)
include h

theorem Rounds.goals_ne_nil : gs ≠ [] := by
  cases h with
  | last => exact cons_ne_nil _ _
  | next => exact cons_ne_nil _ _

theorem Rounds.mem : z ∈ S := by
  induction h with
  | last hx => exact hx
  | next _ _ _ ih => exact ih.1

theorem Rounds.getLast_eq : xs.getLast? = some z := by
  induction h with
  | last => rfl
  | next _ _ _ ih => rw [getLast?_cons, ih, Option.getD_some]

theorem Rounds.length_eq : xs.length = gs.length := by
  induction h with
  | last => rfl
  | next _ _ _ ih => rw [length_cons, length_cons, ih]

theorem Rounds.kept : Kept gs xs z := by
  induction h with
  | last => exact Kept.single _ _ _
  | next _ _ hrest ih =>
    rw [Kept.cons_iff hrest.goals_ne_nil]
    exact ⟨hrest.mem.2, ih⟩

theorem Rounds.last_le : ∀ g, gs.getLast? = some g →
    ∀ y ∈ S, Kept gs xs y → g.value z ≤ g.value y := by
  induction h with
  | last hx hmin =>
    intro g hg y hy _
    cases hg
    exact hmin hy
  | next hx hmin hrest ih =>
    intro g hg y hy hk
    rw [Kept.cons_iff hrest.goals_ne_nil] at hk
    apply ih g _ y ⟨hy, hk.1⟩ hk.2
    rw [getLast?_cons, Option.some_inj] at hg
    obtain ⟨g', hg'⟩ := Option.isSome_iff_exists.mp (getLast?_isSome.mpr hrest.goals_ne_nil)
    rw [hg'] at hg ⊢
    exact congrArg some hg

end

theorem cons_le_cons_of_le {vs ws : List R} (hle : v ≤ w) (hr : v = w → vs ≤ ws) :
    v :: vs ≤ w :: ws := by
  rw [← not_lt, cons_lt_cons_iff]
  intro h
  rcases h with hlt | ⟨heq, hlt⟩
  · exact absurd hle hlt.not_ge
  · exact absurd (hr heq.symm) hlt.not_ge

theorem Rounds.lex_le (h : Rounds S gs xs z) : (∀ g ∈ gs, ∀ v, g.allow v = v) →
    ∀ y ∈ S, gs.map (·.value z) ≤ gs.map (·.value y) := by
  induction h with
  | last hx hmin =>
    intro _ y hy
    exact cons_le_cons_of_le (hmin hy) fun _ => le_refl _
  | @next S _ _ z x g hx hmin hrest ih =>
    intro ha y hy
    obtain ⟨hz, hvalue⟩ := hrest.mem
    rw [ha g mem_cons_self] at hvalue
    have heq : g.value z = g.value x := le_antisymm hvalue (hmin hz)
    apply cons_le_cons_of_le
    · exact heq.trans_le (hmin hy)
    · intro hzy
      apply ih (fun g' hg' => ha g' (mem_cons_of_mem _ hg')) y
      apply And.intro hy
      rw [ha g mem_cons_self, ← heq]
      exact hzy.ge

end

end Rebalancer
