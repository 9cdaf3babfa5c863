import Rebalancer.ExpressionGraph

namespace Rebalancer

section
variable {ν A S : Type}

def fullApply (g : ExpressionGraph ν) (innerFullApply : ν → A → List S → S) (a : A) : Nat → ν → S
  | 0, n => innerFullApply n a []
  | fuel + 1, n => innerFullApply n a ((g.children n).map (fullApply g innerFullApply a fuel))

section
variable (g : ExpressionGraph ν) (innerFullApply : ν → A → List S → S) (a : A)

def fromScratch (n : ν) : S := fullApply g innerFullApply a (g.depth n + 1) n

theorem fullApply_fuel : ∀ fuel f' n, g.depth n < fuel → g.depth n < f' →
      fullApply g innerFullApply a fuel n = fullApply g innerFullApply a f' n := by
  intro fuel
  induction fuel with
  | zero =>
    intro f' n h
    exact absurd h (Nat.not_lt_zero _)
  | succ fuel ih =>
    intro f' n h h'
    cases f' with
    | zero => exact absurd h' (Nat.not_lt_zero _)
    | succ f' =>
      rw [fullApply]
      congr 1
      apply List.map_congr_left
      intro c hc
      have hd := g.depth_lt n c hc
      exact ih f' c (by omega) (by omega)

theorem fromScratch_eq (n : ν) : fromScratch g innerFullApply a n =
      innerFullApply n a ((g.children n).map (fromScratch g innerFullApply a)) := by
  rw [fromScratch, fullApply]
  congr 1
  apply List.map_congr_left
  intro c hc
  exact fullApply_fuel g innerFullApply a _ _ c (g.depth_lt n c hc) (Nat.lt_succ_self _)

end

/-- A node is pushed when touched directly, and saved when its parents know of its change. -/
structure Propagation (g : ExpressionGraph ν) where
  Fed : ν → Prop
  Pushed : ν → Prop
  Changed : ν → Prop
  Saved : ν → Prop
  Handled : ν → Prop
  InQueue : ν → Prop
  fed_child : ∀ n c, Fed n → c ∈ g.children n → Fed c
  cause : ∀ n, Fed n → Changed n → Pushed n ∨ ∃ c ∈ g.children n, Changed c
  pushed : ∀ n, Fed n → Pushed n → InQueue n ∨ Handled n
  notified : ∀ n c, Fed n → c ∈ g.children n → Saved c → InQueue n ∨ Handled n
  handled : ∀ n, Fed n → Handled n → Changed n → Saved n

variable (P : Propagation g)

theorem Propagation.handled_or_pending :
    ∀ d n, g.depth n < d → P.Fed n → (P.Pushed n ∨ ∃ c ∈ g.children n, P.Changed c) →
      P.Handled n ∨ ∃ m, g.Below n m ∧ P.InQueue m := by
  intro d
  induction d with
  | zero =>
    intro n h
    exact absurd h (Nat.not_lt_zero _)
  | succ d ih =>
    intro n hd hf hcause
    rcases hcause with hp | ⟨c, hc, hch⟩
    · rcases P.pushed n hf hp with hq | hh
      · exact .inr ⟨n, .refl, hq⟩
      · exact .inl hh
    · have hf' := P.fed_child n c hf hc
      have hdepth := g.depth_lt n c hc
      rcases ih c (by omega) hf' (P.cause c hf' hch) with hh | ⟨m, hm, hq⟩
      · rcases P.notified n c hf hc (P.handled c hf' hh hch) with hq | hh
        · exact .inr ⟨n, .refl, hq⟩
        · exact .inl hh
      · exact .inr ⟨m, .head hc hm, hq⟩

theorem Propagation.saved_of_quiet (hf : P.Fed n)
    (hqu : ∀ m, g.Below n m → ¬ P.InQueue m) (hch : P.Changed n) : P.Saved n := by
  rcases P.handled_or_pending (g.depth n + 1) n (Nat.lt_succ_self _) hf (P.cause n hf hch)
    with hh | ⟨m, hm, hq⟩
  · exact P.handled n hf hh hch
  · exact absurd hq (hqu m hm)

theorem Propagation.fed_below (hf : P.Fed n) (hd : g.Below n d) : P.Fed d := by
  induction hd with
  | refl => exact hf
  | tail _ hc ih => exact P.fed_child _ _ ih hc

end

end Rebalancer
