import Mathlib

namespace Rebalancer

abbrev Table (κ β : Type) := κ → Option β

namespace Table
variable {κ β : Type}

def new : Table κ β := fun _ => none

variable [DecidableEq κ]

def emplace (t : Table κ β) (k : κ) (v : β) : Table κ β :=
  fun m => if m = k then some ((t k).getD v) else t m

theorem emplace_fresh {t : Table κ β} (h : t k = none) (v : β) : t.emplace k v k = some v := by
  simp [emplace, h]

theorem emplace_of_ne {t : Table κ β} (h : m ≠ k) (v : β) : t.emplace k v m = t m := by
  simp [emplace, h]

theorem emplace_self (t : Table κ β) (k : κ) (v : β) : t.emplace k v k = some ((t k).getD v) := by
  simp [emplace]

theorem emplace_eq_some {t : Table κ β} (h : ∀ w, t k = some w → w = v) :
    t.emplace k v m = some u ↔ t m = some u ∨ m = k ∧ u = v := by
  by_cases hm : m = k
  · subst hm
    rw [emplace_self]
    cases hc : t m with
    | none => simp [eq_comm]
    | some w => simp [h w hc, eq_comm]
  · simp [emplace_of_ne hm, hm]

end Table

end Rebalancer
