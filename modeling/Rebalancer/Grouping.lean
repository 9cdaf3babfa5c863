import Mathlib

namespace Rebalancer
open List

inductive Grouping (α : Type) where
  | single (x : α)
  | join (left right : Grouping α)

namespace Grouping
variable {α κ ε : Type}

def leaves : Grouping α → List α
  | single x => [x]
  | join left right => left.leaves ++ right.leaves

def combine (f : α → α → Except ε α) : Grouping α → Except ε α
  | single x => .ok x
  | join left right => do
    let x ← left.combine f
    let y ← right.combine f
    f x y

/-- On the elements that satisfy `P`, `f` selects the smaller key and adds up the weights. -/
def Selects [LinearOrder κ] (f : α → α → Except ε α) (P : α → Prop) (key : α → κ)
    (weight : α → Nat) : Prop :=
  ∀ x y, P x → P y → ∃ z, f x y = .ok z ∧ P z ∧ key z = min (key x) (key y) ∧
    weight z = weight x + weight y

theorem combine_spec [LinearOrder κ] {key : α → κ} (hf : Selects f P key w) (t : Grouping α)
    (hP : ∀ x ∈ t.leaves, P x) :
    ∃ z, t.combine f = .ok z ∧ P z ∧ IsLeast {k | ∃ x ∈ t.leaves, key x = k} (key z) ∧
      w z = (t.leaves.map w).sum := by
  induction t with
  | single x =>
    refine ⟨x, rfl, hP x (mem_singleton.mpr rfl), ⟨⟨x, mem_singleton.mpr rfl, rfl⟩, ?_⟩, ?_⟩
    · rintro k ⟨y, hy, rfl⟩
      rw [mem_singleton.mp hy]
    · simp [leaves]
  | join left right ihl ihr =>
    obtain ⟨x, hx, hPx, hlx, hwx⟩ := ihl (fun z hz => hP z (mem_append_left _ hz))
    obtain ⟨y, hy, hPy, hly, hwy⟩ := ihr (fun z hz => hP z (mem_append_right _ hz))
    obtain ⟨z, hz, hPz, hk, hw⟩ := hf x y hPx hPy
    refine ⟨z, ?_, hPz, ?_, ?_⟩
    · rw [combine, hx, hy]
      exact hz
    · have hs : {k | ∃ a ∈ (join left right).leaves, key a = k} =
          {k | ∃ a ∈ left.leaves, key a = k} ∪ {k | ∃ a ∈ right.leaves, key a = k} := by
        ext k
        simp [leaves, or_and_right, exists_or]
      rw [hs, hk]
      exact hlx.union hly
    · rw [hw, hwx, hwy, leaves, map_append, sum_append]

theorem combine_key_eq [LinearOrder κ] {key : α → κ} (hf : Selects f P key w)
    (t t' : Grouping α) (hP : ∀ x ∈ t.leaves, P x) (hP' : ∀ x ∈ t'.leaves, P x)
    (hm : ∀ x, x ∈ t.leaves ↔ x ∈ t'.leaves) (hs : (t.leaves.map w).sum = (t'.leaves.map w).sum) :
    ∃ z z', t.combine f = .ok z ∧ t'.combine f = .ok z' ∧ P z ∧ P z' ∧ key z = key z' ∧
      w z = w z' := by
  obtain ⟨z, hz, hPz, hl, hw⟩ := combine_spec hf t hP
  obtain ⟨z', hz', hPz', hl', hw'⟩ := combine_spec hf t' hP'
  refine ⟨z, z', hz, hz', hPz, hPz', ?_, by rw [hw, hw', hs]⟩
  simp only [hm] at hl
  exact hl.unique hl'

end Grouping

end Rebalancer
