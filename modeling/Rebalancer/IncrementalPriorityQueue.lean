import Rebalancer.AssocMap
import Rebalancer.SortedSet

namespace Rebalancer
open SortedSet List

structure ValueSortedMap (K V : Type) [DecidableEq K] (lt : K × V → K × V → Prop) where
  map : AssocMap K V
  set : List (K × V)
  sorted : set.Pairwise lt
  mem_set : ∀ k v, (k, v) ∈ set ↔ map.lookup k = some v

namespace ValueSortedMap
variable {K V : Type} [DecidableEq K] {lt : K × V → K × V → Prop}

def new : ValueSortedMap K V lt where
  map := ∅
  set := []
  sorted := .nil
  mem_set _ _ := iff_of_false not_mem_nil nofun

def size (m : ValueSortedMap K V lt) : Nat := m.map.size

variable [DecidableRel lt] [IsStrictTotalOrder (K × V) lt]

section
variable (m : ValueSortedMap K V lt)

def setWithout (key : K) : List (K × V) :=
  match m.map.lookup key with
  | some value => erase lt (key, value) m.set
  | none => m.set

theorem setWithout_sorted (key : K) : (m.setWithout key).Pairwise lt := by
  rw [setWithout]
  split
  · exact erase_sorted m.sorted _
  · exact m.sorted

theorem mem_setWithout (key k : K) (v : V) :
    (k, v) ∈ m.setWithout key ↔ k ≠ key ∧ m.map.lookup k = some v := by
  rw [setWithout]
  split
  · rename_i value hvalue
    rw [mem_erase m.sorted, m.mem_set, and_comm]
    apply and_congr_left
    intro hk
    rw [ne_eq, Prod.mk.injEq, not_and]
    constructor
    · intro h he
      subst he
      rw [hvalue] at hk
      exact h rfl (Option.some.inj hk).symm
    · intro h he
      exact absurd he h
  · rename_i hnone
    rw [m.mem_set]
    refine (and_iff_right_of_imp ?_).symm
    intro hk he
    subst he
    rw [hnone] at hk
    cases hk

end

section
variable (m : ValueSortedMap K V lt)

def erase (key : K) : ValueSortedMap K V lt where
  map := m.map.erase key
  set := m.setWithout key
  sorted := m.setWithout_sorted key
  mem_set k v := by
    rw [m.mem_setWithout]
    by_cases hk : k = key
    · subst hk
      rw [AList.lookup_erase]
      exact iff_of_false (fun h => h.1 rfl) nofun
    · rw [AList.lookup_erase_ne hk, and_iff_right hk]

def assign (key : K) (value : V) : ValueSortedMap K V lt where
  map := m.map.insert key value
  set := insert lt (key, value) (m.setWithout key)
  sorted := insert_sorted (m.setWithout_sorted key) _
  mem_set k v := by
    rw [mem_insert, m.mem_setWithout, Prod.mk.injEq]
    by_cases hk : k = key
    · subst hk
      rw [AList.lookup_insert, and_iff_right rfl, or_iff_left fun h => h.1 rfl, Option.some.injEq]
      exact eq_comm
    · rw [AList.lookup_insert_ne hk, or_iff_right fun h => hk h.1, and_iff_right hk]

omit [DecidableRel lt] in
theorem set_length : m.set.length = m.size := by
  have hnodup : (m.set.map Prod.fst).Nodup := by
    apply Nodup.map_on
    · intro x hx y hy he
      have hvx := (m.mem_set x.1 x.2).mp hx
      have hvy := (m.mem_set y.1 y.2).mp hy
      rw [he, hvy] at hvx
      exact Prod.ext he (Option.some.inj hvx).symm
    · refine m.sorted.imp ?_
      intro x y hlt he
      subst he
      exact irrefl_of lt x hlt
  have hp : (m.set.map Prod.fst).Perm m.map.keys := by
    apply (perm_ext_iff_of_nodup hnodup m.map.keys_nodup).mpr
    intro k
    rw [← AList.mem_keys, ← AList.lookup_isSome, Option.isSome_iff_exists, mem_map]
    constructor
    · intro h
      obtain ⟨x, hx, rfl⟩ := h
      exact ⟨x.2, (m.mem_set x.1 x.2).mp hx⟩
    · intro h
      obtain ⟨v, hv⟩ := h
      exact ⟨(k, v), (m.mem_set k v).mpr hv, rfl⟩
  rw [← length_map Prod.fst, hp.length_eq]
  rfl

end

end ValueSortedMap

abbrev Sequence := List Nat

namespace Sequence

def firstDifference : Sequence → Sequence → Option (Nat × Nat)
  | lhs :: lhsSeq, rhs :: rhsSeq =>
    if lhs ≠ rhs then some (lhs, rhs) else firstDifference lhsSeq rhsSeq
  | _, _ => none

/-- Comparison of sequences: by the first difference, and then the longer one goes first. -/
def Precedes : Sequence → Sequence → Prop
  | lhs :: lhsSeq, rhs :: rhsSeq => lhs < rhs ∨ lhs = rhs ∧ Precedes lhsSeq rhsSeq
  | _ :: _, [] => True
  | [], _ => False

theorem Precedes.irrefl (s : Sequence) : ¬ Precedes s s := by
  induction s with
  | nil => exact id
  | cons a s ih =>
    intro h
    rcases h with h | h
    · exact Nat.lt_irrefl a h
    · exact ih h.2

theorem Precedes.trans : ∀ {t u}, Precedes s t → Precedes t u → Precedes s u := by
  induction s with
  | nil =>
    intro t u h
    cases h
  | cons a s ih =>
    intro t u hst htu
    cases t with
    | nil => cases htu
    | cons b t =>
      cases u with
      | nil => trivial
      | cons c u =>
        rcases hst with hab | ⟨rfl, hst⟩
        · rcases htu with hbc | ⟨rfl, -⟩
          · exact .inl (Nat.lt_trans hab hbc)
          · exact .inl hab
        · rcases htu with hbc | ⟨rfl, htu⟩
          · exact .inl hbc
          · exact .inr ⟨rfl, ih hst htu⟩

theorem precedes_trichotomous (s : Sequence) : ∀ t, Precedes s t ∨ s = t ∨ Precedes t s := by
  induction s with
  | nil =>
    intro t
    cases t with
    | nil => exact .inr (.inl rfl)
    | cons b t => exact .inr (.inr trivial)
  | cons a s ih =>
    intro t
    cases t with
    | nil => exact .inl trivial
    | cons b t =>
      rcases Nat.lt_trichotomy a b with h | rfl | h
      · exact .inl (.inl h)
      · rcases ih t with h | rfl | h
        · exact .inl (.inr ⟨rfl, h⟩)
        · exact .inr (.inl rfl)
        · exact .inr (.inr (.inr ⟨rfl, h⟩))
      · exact .inr (.inr (.inl h))

theorem precedes_append (s : Sequence) (i : Nat) : Precedes (s ++ [i]) s := by
  induction s with
  | nil => trivial
  | cons a s ih => exact .inr ⟨rfl, ih⟩

theorem Precedes.append : ∀ {s : Sequence}, Precedes p s → (∀ a ∈ p, a ≤ i) →
    ¬ (s ++ [i]) <+: p → Precedes p (s ++ [i]) := by
  induction p with
  | nil =>
    intro s h
    cases h
  | cons a p ih =>
    intro s h hle hn
    cases s with
    | nil =>
      rcases Nat.lt_or_eq_of_le (hle a mem_cons_self) with hlt | rfl
      · exact .inl hlt
      · exact absurd (prefix_iff_eq_append.mpr rfl) hn
    | cons b s =>
      rcases h with hlt | ⟨rfl, h⟩
      · exact .inl hlt
      · refine .inr ⟨rfl, ih h (fun x hx => hle x (mem_cons_of_mem _ hx)) ?_⟩
        intro hp
        exact hn (cons_prefix_cons.mpr ⟨rfl, hp⟩)

end Sequence

namespace IncrementalPriorityQueue
variable {T : Type} [LinearOrder T]

def compare (lhs rhs : T × Sequence) : Bool :=
  match Sequence.firstDifference lhs.2 rhs.2 with
  | some (lhsSeqI, rhsSeqI) => decide (lhsSeqI < rhsSeqI)
  | none =>
    if lhs.2.length = rhs.2.length then decide (lhs.1 < rhs.1)
    else decide (lhs.2.length > rhs.2.length)

theorem compare_iff (x y : T) (s : Sequence) : ∀ t,
    compare (x, s) (y, t) = true ↔ Sequence.Precedes s t ∨ s = t ∧ x < y := by
  induction s with
  | nil =>
    intro t
    cases t with
    | nil => simp [compare, Sequence.firstDifference, Sequence.Precedes]
    | cons b t => simp [compare, Sequence.firstDifference, Sequence.Precedes]
  | cons a s ih =>
    intro t
    cases t with
    | nil => simp [compare, Sequence.firstDifference, Sequence.Precedes]
    | cons b t =>
      by_cases hab : a = b
      · subst hab
        have hs : compare (x, a :: s) (y, a :: t) = compare (x, s) (y, t) := by
          simp [compare, Sequence.firstDifference]
        rw [hs, ih]
        simp [Sequence.Precedes]
      · simp [compare, Sequence.firstDifference, Sequence.Precedes, hab]

def Before (lhs rhs : T × Sequence) : Prop := compare lhs rhs = true

instance : DecidableRel (Before (T := T)) := fun lhs rhs =>
  inferInstanceAs (Decidable (compare lhs rhs = true))

instance : IsStrictTotalOrder (T × Sequence) Before where
  irrefl x h := by
    rcases (compare_iff x.1 x.1 x.2 x.2).mp h with h | h
    · exact Sequence.Precedes.irrefl x.2 h
    · exact lt_irrefl x.1 h.2
  trans x y z hxy hyz := by
    apply (compare_iff x.1 z.1 x.2 z.2).mpr
    rcases (compare_iff x.1 y.1 x.2 y.2).mp hxy with hxy | ⟨hxy, hlt⟩
    · rcases (compare_iff y.1 z.1 y.2 z.2).mp hyz with hyz | ⟨hyz, -⟩
      · exact .inl (hxy.trans hyz)
      · exact .inl (hyz ▸ hxy)
    · rcases (compare_iff y.1 z.1 y.2 z.2).mp hyz with hyz | ⟨hyz, hlt'⟩
      · exact .inl (hxy ▸ hyz)
      · exact .inr ⟨hxy.trans hyz, lt_trans hlt hlt'⟩
  trichotomous x y hxy hyx := by
    have hxy' : ¬ (Sequence.Precedes x.2 y.2 ∨ x.2 = y.2 ∧ x.1 < y.1) := fun h =>
      hxy ((compare_iff x.1 y.1 x.2 y.2).mpr h)
    have hyx' : ¬ (Sequence.Precedes y.2 x.2 ∨ y.2 = x.2 ∧ y.1 < x.1) := fun h =>
      hyx ((compare_iff y.1 x.1 y.2 x.2).mpr h)
    rcases Sequence.precedes_trichotomous x.2 y.2 with h | heq | h
    · exact absurd (.inl h) hxy'
    · rcases lt_trichotomy x.1 y.1 with h | h | h
      · exact absurd (.inr ⟨heq, h⟩) hxy'
      · exact Prod.ext h heq
      · exact absurd (.inr ⟨heq.symm, h⟩) hyx'
    · exact absurd (.inl h) hyx'

end IncrementalPriorityQueue

structure IncrementalPriorityQueue (T : Type) [LinearOrder T] where
  updateCount : Nat
  removed : Finset T
  map : ValueSortedMap T Sequence IncrementalPriorityQueue.Before

namespace IncrementalPriorityQueue
variable {T : Type} [LinearOrder T]

def new : IncrementalPriorityQueue T := ⟨0, ∅, .new⟩

def size (q : IncrementalPriorityQueue T) : Nat := q.map.size

section
variable (q : IncrementalPriorityQueue T)

def empty : Bool := decide (q.size = 0)

def top : Except String T :=
  if q.map.size = 0 then .error "empty"
  else
    match q.map.set with
    | [] => .error "begin of an empty set"
    | (item, _) :: _ => .ok item

def isTopStrict : Except String Bool :=
  if q.map.size = 0 then .error "empty"
  else if q.map.size < 2 then .ok true
  else
    match q.map.set with
    | (_, firstSequence) :: (_, secondSequence) :: _ =>
      .ok (decide (firstSequence ≠ secondSequence))
    | _ => .error "begin of an empty set"

end

def remove (item : T) (q : IncrementalPriorityQueue T) : IncrementalPriorityQueue T :=
  { q with removed := insert item q.removed, map := q.map.erase item }

def updateItem (index : Nat) (q : IncrementalPriorityQueue T) (item : T) :
    IncrementalPriorityQueue T :=
  if item ∈ q.removed then q
  else
    match q.map.map.lookup item with
    | some sequence => { q with map := q.map.assign item (sequence ++ [index]) }
    | none => { q with map := q.map.assign item [index] }

def update (items : List T) (q : IncrementalPriorityQueue T) : IncrementalPriorityQueue T :=
  let index := q.updateCount
  items.foldl (updateItem index) { q with updateCount := q.updateCount + 1 }

def sequenceOf (q : IncrementalPriorityQueue T) (item : T) : Option Sequence :=
  q.map.map.lookup item

end IncrementalPriorityQueue

end Rebalancer
