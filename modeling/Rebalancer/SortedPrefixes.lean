import Rebalancer.AssocMap

namespace Rebalancer.CapacitySpecBuilder
open List
variable {V κ : Type} [DecidableEq κ]

/-- What `mergeInvalidObjects` is called with: objects and the scope items that they may not
enter. -/
abbrev MergeCall := Finset Nat × List Nat

section
variable (objectIds : List Nat) (getValue : Nat → Option V) (table : AssocMap κ (List Nat))
variable (exceeds : V → κ → Bool)

/-- A value is `none` if it is NaN. -/
def isInvalid (value : Option V) (thresholdKey : κ) : Bool := value.any (exceeds · thresholdKey)

def markByScanningEachThreshold : List MergeCall := table.entries.map fun e =>
  ((objectIds.filter fun o => isInvalid exceeds (getValue o) e.1).toFinset, e.2)

variable (objectsByValue : List (V × Nat))

/-- The result of `std::partition_point`. -/
def invalidCount (thresholdKey : κ) : Nat :=
  (objectsByValue.takeWhile fun object => exceeds object.1 thresholdKey).length

/-- The loop over the thresholds, with the bits that are set and their number. -/
def markBySortedPrefixes : Finset Nat → Nat → List (Nat × κ) → Option (List MergeCall)
  | _, _, [] => some []
  | invalidObjects, invalidCount, (nextInvalidCount, thresholdKey) :: thresholds => do
    let next := (objectsByValue.drop invalidCount).take (nextInvalidCount - invalidCount)
    let invalidObjects := invalidObjects ∪ (next.map Prod.snd).toFinset
    let blockedScopeItemIds ← table.lookup thresholdKey
    let calls ← markBySortedPrefixes invalidObjects (max invalidCount nextInvalidCount) thresholds
    some ((invalidObjects, blockedScopeItemIds) :: calls)

/-- What the calls of `std::sort` leave, with ties in any order. -/
structure Sorted [LE V] (thresholdsByInvalidCount : List (Nat × κ)) : Prop where
  objects : objectsByValue.Perm (objectIds.filterMap fun o => (getValue o).map (·, o))
  descending : objectsByValue.Pairwise fun a b => b.1 ≤ a.1
  thresholds : thresholdsByInvalidCount.Perm
    (table.entries.map fun e => (invalidCount exceeds objectsByValue e.1, e.1))
  ascending : thresholdsByInvalidCount.Pairwise fun a b => a.1 ≤ b.1

def prefixBits (k : Nat) : Finset Nat := ((objectsByValue.take k).map Prod.snd).toFinset

end

variable {objectIds : List Nat} {getValue : Nat → Option V} {table : AssocMap κ (List Nat)}
variable {exceeds : V → κ → Bool} {objectsByValue : List (V × Nat)} {ts : List (Nat × κ)}

theorem markBySortedPrefixes_eq (hs : ts.Pairwise fun a b => a.1 ≤ b.1)
    (hk : ∀ t ∈ ts, t.2 ∈ table) : ∀ k, (∀ t ∈ ts, k ≤ t.1) →
    markBySortedPrefixes table objectsByValue (prefixBits objectsByValue k) k ts =
      some (ts.map fun t => (prefixBits objectsByValue t.1, (table.lookup t.2).getD [])) := by
  induction ts with
  | nil =>
    intro k _
    rfl
  | cons t ts ih =>
    intro k hle
    obtain ⟨ht, hs⟩ := pairwise_cons.mp hs
    have hkt := hle t mem_cons_self
    obtain ⟨items, hi⟩ := mem_iff_lookup.mp (hk t mem_cons_self)
    have hb : prefixBits objectsByValue k ∪
        (((objectsByValue.drop k).take (t.1 - k)).map Prod.snd).toFinset =
          prefixBits objectsByValue t.1 := by
      rw [prefixBits, ← toFinset_append, ← map_append, ← take_add, Nat.add_sub_cancel' hkt,
        prefixBits]
    rw [markBySortedPrefixes, max_eq_right hkt]
    simp only [hb, hi]
    rw [ih hs (fun u hu => hk u (mem_cons_of_mem t hu)) t.1 ht, map_cons, hi]
    rfl

omit [DecidableEq κ] in
theorem takeWhile_eq_filter {p : κ → Bool} {l : List κ}
    (h : l.Pairwise fun a b => p b = true → p a = true) : l.takeWhile p = l.filter p := by
  induction l with
  | nil => rfl
  | cons a l ih =>
    obtain ⟨ha, h⟩ := pairwise_cons.mp h
    by_cases hp : p a = true
    · rw [takeWhile_cons_of_pos hp, filter_cons_of_pos hp, ih h]
    · rw [takeWhile_cons_of_neg hp, filter_cons_of_neg hp, filter_eq_nil_iff.mpr]
      intro b hb hpb
      exact hp (ha b hb hpb)

/-- Both ways call `mergeInvalidObjects` with the same objects for the scope items of each
threshold. -/
theorem prefixes_eq_scan [LinearOrder V]
    (hm : ∀ key a b, a ≤ b → exceeds a key = true → exceeds b key = true)
    (h : Sorted objectIds getValue table exceeds objectsByValue ts) :
    ∃ calls, markBySortedPrefixes table objectsByValue ∅ 0 ts = some calls ∧
      calls.Perm (markByScanningEachThreshold objectIds getValue table exceeds) := by
  have hb (key : κ) : prefixBits objectsByValue (invalidCount exceeds objectsByValue key) =
      (objectIds.filter fun o => isInvalid exceeds (getValue o) key).toFinset := by
    have hd := h.descending.imp fun {a b} hab => hm key b.1 a.1 hab
    rw [prefixBits, invalidCount, ← prefix_iff_eq_take.mp <| takeWhile_prefix _,
      takeWhile_eq_filter hd]
    ext o
    simp only [mem_toFinset, mem_map, mem_filter, h.objects.mem_iff, mem_filterMap, isInvalid,
      Option.map_eq_some_iff, Option.any_eq_true]
    constructor
    · rintro ⟨e, ⟨⟨o', ho, v, hv, rfl⟩, he⟩, rfl⟩
      exact ⟨ho, v, hv, he⟩
    · rintro ⟨ho, v, hv, he⟩
      exact ⟨(v, o), ⟨⟨o, ho, v, hv, rfl⟩, he⟩, rfl⟩
  refine ⟨_, markBySortedPrefixes_eq h.ascending ?_ 0 fun _ _ => Nat.zero_le _, ?_⟩
  · intro t ht
    obtain ⟨e, he, rfl⟩ := mem_map.mp (h.thresholds.mem_iff.mp ht)
    exact AList.mem_keys.mpr (mem_map_of_mem he)
  · refine (h.thresholds.map _).trans ?_
    rw [markByScanningEachThreshold, map_map]
    refine .of_eq (map_congr_left ?_)
    intro e he
    have hl : table.lookup e.1 = some e.2 := AList.mem_lookup_iff.mpr he
    simp only [Function.comp, hb, hl, Option.getD_some]

/-- Two objects have the same value, which is above the threshold 3 and not above 5. -/
def twoThresholds : AssocMap Nat (List Nat) := .insert 5 [8] (.singleton 3 [7])

theorem prefixes_eq_scan_two : ∃ calls, markBySortedPrefixes twoThresholds
      [(5, 2), (5, 1), (1, 0)] ∅ 0 [(0, 5), (2, 3)] = some calls ∧
    calls.Perm (markByScanningEachThreshold [0, 1, 2]
      (fun o => some (if o = 0 then 1 else 5)) twoThresholds fun v key => decide (key < v)) :=
  prefixes_eq_scan (fun key a b hab h => decide_eq_true ((of_decide_eq_true h).trans_le hab))
    ⟨by decide, by decide, by decide, by decide⟩

end Rebalancer.CapacitySpecBuilder
