import Mathlib

namespace Rebalancer

/-- The goal is reached, or there is a step and every step leads to where every run reaches it. -/
inductive Inevitable {σ : Type} (step : σ → σ → Prop) (goal : σ → Prop) : σ → Prop where
  | now : goal s → Inevitable step goal s
  | later : (∃ t, step s t) → (∀ t, step s t → Inevitable step goal t) → Inevitable step goal s

section
variable {σ : Type} {step : σ → σ → Prop}

theorem invariant_of_reachable {inv : σ → Prop} {s' s : σ}
    (hst : ∀ s t, inv s → step s t → inv t) (hs : inv s')
    (hr : Relation.ReflTransGen step s' s) : inv s := by
  induction hr with
  | refl => exact hs
  | tail _ hl ih => exact hst _ _ ih hl

theorem inevitable_of_measure {goal inv : σ → Prop}
    {m : σ → Nat} (hk : ∀ s t, inv s → step s t → inv t) (hl : ∀ s t, step s t → m t < m s)
    (hp : ∀ s, inv s → goal s ∨ ∃ t, step s t) : ∀ {s : σ}, inv s → Inevitable step goal s := by
  have hb : ∀ n s, m s ≤ n → inv s → Inevitable step goal s := by
    intro n
    induction n with
    | zero =>
      intro s hn hinv
      rcases hp s hinv with hg | ⟨t, hst⟩
      · exact .now hg
      · exact absurd (Nat.lt_of_lt_of_le (hl s t hst) hn) (Nat.not_lt_zero _)
    | succ n ih =>
      intro s hn hinv
      rcases hp s hinv with hg | hs
      · exact .now hg
      · apply Inevitable.later hs
        intro t hst
        exact ih t (Nat.le_of_lt_succ (Nat.lt_of_lt_of_le (hl s t hst) hn)) (hk s t hinv hst)
  intro s
  exact hb (m s) s (Nat.le_refl _)

end

section
variable {σ τ : Type} {step : σ → σ → Prop} {s'' : τ → τ → Prop} {f : σ → τ}

theorem reachable_embedded (hs : ∀ s t', s'' (f s) t' → ∃ t, step s t ∧ t' = f t)
    (hr : Relation.ReflTransGen s'' (f s') t') :
    ∃ t, Relation.ReflTransGen step s' t ∧ t' = f t := by
  induction hr with
  | refl => exact ⟨s', .refl, rfl⟩
  | tail _ hl ih =>
    obtain ⟨t, hr, rfl⟩ := ih
    obtain ⟨u, hs, rfl⟩ := hs t _ hl
    exact ⟨u, hr.tail hs, rfl⟩

theorem Inevitable.embedded {g' : τ → Prop} (h : Inevitable step goal s)
    (hg : ∀ s, goal s → g' (f s)) (hf : ∀ s t, step s t → s'' (f s) (f t))
    (hb : ∀ s t', s'' (f s) t' → ∃ t, step s t ∧ t' = f t) : Inevitable s'' g' (f s) := by
  induction h with
  | now h => exact .now (hg _ h)
  | later he _ ih =>
    obtain ⟨t, hst⟩ := he
    apply Inevitable.later ⟨f t, hf _ _ hst⟩
    intro t' hst'
    obtain ⟨u, hsu, rfl⟩ := hb _ t' hst'
    exact ih u hsu

end

end Rebalancer
