import Rebalancer.AssocMap

namespace Rebalancer
open List AList

namespace AssocMap
variable {κ β R : Type} [CommRing R]

def total (f : κ → β → R) (m : AssocMap κ β) : R := (m.entries.map fun e => f e.1 e.2).sum

@[simp] theorem total_empty (f : κ → β → R) : total f (∅ : AssocMap κ β) = 0 := rfl

theorem values_sum (m : AssocMap κ R) : m.values.sum = m.total fun _ v => v := rfl

variable [DecidableEq κ]

section
variable (f : κ → β → R) (m : AssocMap κ β) (k : κ)

theorem total_erase : total f (m.erase k) = m.total f - ((lookup k m).map (f k)).getD 0 := by
  cases hk : lookup k m with
  | none =>
    rw [erase_of_lookup_none hk]
    simp
  | some v =>
    have hp := ((entries_perm hk).map fun e => f e.1 e.2).sum_eq
    rw [total, total, hp]
    simp

theorem total_insert (v : β) :
    total f (m.insert k v) = m.total f - ((lookup k m).map (f k)).getD 0 + f k v := by
  rw [← total_erase, add_comm]
  rfl

end

theorem total_eq_sum {m : AssocMap κ β} {keys : List κ} {g : κ → R}
    (hn : keys.Nodup) (hm : ∀ k, k ∈ keys ↔ k ∈ m)
    (hg : ∀ k v, lookup k m = some v → g k = f k v) : (keys.map g).sum = m.total f := by
  have hp : keys.Perm m.keys := by
    apply (perm_ext_iff_of_nodup hn m.keys_nodup).mpr
    intro k
    rw [hm, AList.mem_keys]
  rw [(hp.map g).sum_eq, AList.keys, List.keys, List.map_map]
  congr 1
  apply map_congr_left
  intro e he
  exact hg e.1 e.2 (mem_lookup_iff.mpr he)

end AssocMap

end Rebalancer
