import Mathlib

namespace Rebalancer

section
variable {ν S : Type}

def iterateRule (rule : (ν → S) → ν → S) (start : ν → S) : Nat → ν → S
  | 0 => start
  | fuel + 1 => rule (iterateRule rule start fuel)

/-- A rule computes a node from its children, which lie deeper. -/
structure LocalRule (children : ν → List ν) (depth : ν → Nat) (rule : (ν → S) → ν → S) : Prop where
  depth_lt : ∀ n c, c ∈ children n → depth c < depth n
  congr : ∀ f g n, (∀ c ∈ children n, f c = g c) → rule f n = rule g n

theorem LocalRule.iterate_eq (h : LocalRule c' d rule) (s : ν → S) :
    ∀ fuel f' n, d n < fuel → d n < f' → iterateRule rule s fuel n = iterateRule rule s f' n := by
  intro fuel
  induction fuel with
  | zero =>
    intro f' n hn
    exact absurd hn (Nat.not_lt_zero _)
  | succ fuel ih =>
    intro f' n hn hn'
    cases f' with
    | zero => exact absurd hn' (Nat.not_lt_zero _)
    | succ f' =>
      apply h.congr
      intro c hc
      have hd := h.depth_lt n c hc
      exact ih f' c (Nat.lt_of_lt_of_le hd (Nat.le_of_lt_succ hn))
        (Nat.lt_of_lt_of_le hd (Nat.le_of_lt_succ hn'))

def solveRule (depth : ν → Nat) (rule : (ν → S) → ν → S) (start : ν → S) (n : ν) : S :=
  iterateRule rule start (depth n + 1) n

theorem LocalRule.solve_eq (h : LocalRule c' d rule) (s : ν → S) (n : ν) :
    solveRule d rule s n = rule (solveRule d rule s) n := by
  apply h.congr
  intro c hc
  exact h.iterate_eq s _ _ c (h.depth_lt n c hc) (Nat.lt_succ_self _)

theorem LocalRule.induction (h : LocalRule c' d' rule) {p : ν → Prop}
    (hs : ∀ n, (∀ c ∈ c' n, p c) → p n) (n : ν) : p n := by
  induction hn : d' n using Nat.strongRecOn generalizing n with
  | ind d ih =>
    apply hs
    intro c hc
    exact ih (d' c) (hn ▸ h.depth_lt n c hc) c rfl

end

end Rebalancer
