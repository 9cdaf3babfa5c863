import Rebalancer.LeafIndexSpec
import Rebalancer.Precision

namespace Rebalancer

def compareValues : List ℚ → List ℚ → Ordering
  | x :: xs, y :: ys =>
    if x ≠ y then (if x < y then .lt else .gt) else compareValues xs ys
  | _, _ => .eq

theorem compareValues_cons_of_eq (x : ℚ) (xs ys : List ℚ) :
    compareValues (x :: xs) (x :: ys) = compareValues xs ys := by
  simp [compareValues]

theorem compareValues_cons_of_lt (h : x < y) (xs ys : List ℚ) :
    compareValues (x :: xs) (y :: ys) = .lt := by
  simp [compareValues, h.ne, h]

theorem compareValues_cons_of_gt (h : y < x) (xs ys : List ℚ) :
    compareValues (x :: xs) (y :: ys) = .gt := by
  simp [compareValues, h.ne', not_lt_of_gt h]

theorem compareValues_swap (xs : List ℚ) : ∀ ys,
    compareValues ys xs = (compareValues xs ys).swap := by
  induction xs with
  | nil =>
    intro ys
    cases ys <;> rfl
  | cons x xs ih =>
    intro ys
    cases ys with
    | nil => rfl
    | cons y ys =>
      rcases lt_trichotomy x y with h | rfl | h
      · rw [compareValues_cons_of_lt h, compareValues_cons_of_gt h]
        rfl
      · rw [compareValues_cons_of_eq, compareValues_cons_of_eq, ih]
      · rw [compareValues_cons_of_gt h, compareValues_cons_of_lt h]
        rfl

theorem compareValues_eq_iff (xs : List ℚ) : ∀ ys,
    compareValues xs ys = .eq ↔ xs <+: ys ∨ ys <+: xs := by
  induction xs with
  | nil =>
    intro ys
    simp [compareValues]
  | cons x xs ih =>
    intro ys
    cases ys with
    | nil => simp [compareValues]
    | cons y ys =>
      rcases lt_trichotomy x y with h | rfl | h
      · simp [compareValues_cons_of_lt h, h.ne, h.ne']
      · simp [compareValues_cons_of_eq, ih]
      · simp [compareValues_cons_of_gt h, h.ne, h.ne']

theorem lt_of_compareValues (xs : List ℚ) : ∀ ys, compareValues xs ys = .lt → xs < ys := by
  induction xs with
  | nil =>
    intro ys h
    cases h
  | cons x xs ih =>
    intro ys h
    cases ys with
    | nil => cases h
    | cons y ys =>
      rw [List.cons_lt_cons_iff]
      rcases lt_trichotomy x y with hlt | rfl | hgt
      · exact .inl hlt
      · rw [compareValues_cons_of_eq] at h
        exact .inr ⟨rfl, ih ys h⟩
      · rw [compareValues_cons_of_gt hgt] at h
        cases h

def Settled (xs ys : List ℚ) : Prop := xs <+: ys ∨ ys <+: xs → xs = ys

theorem Settled.of_length (h : xs.length = ys.length) : Settled xs ys := by
  intro hp
  rcases hp with hp | hp
  · exact hp.eq_of_length h
  · exact (hp.eq_of_length h.symm).symm

theorem Settled.compareValues_eq (h : Settled xs ys) : compareValues xs ys = .eq ↔ xs = ys := by
  rw [compareValues_eq_iff]
  constructor
  · exact h
  · rintro rfl
    exact .inl (List.prefix_refl xs)

theorem Settled.compareValues_lt (h : Settled xs ys) : compareValues xs ys = .lt ↔ xs < ys := by
  constructor
  · exact lt_of_compareValues xs ys
  · intro hlt
    cases hc : compareValues xs ys with
    | lt => rfl
    | eq => exact absurd (h.compareValues_eq.mp hc) hlt.ne
    | gt =>
      have hgt := lt_of_compareValues ys xs (by rw [compareValues_swap, hc]; rfl)
      exact absurd hlt hgt.asymm

structure GlobalObjectiveValue where
  values : List ℚ
  tupleSize : Option Nat
deriving DecidableEq

namespace GlobalObjectiveValue

def new : GlobalObjectiveValue := ⟨[], none⟩

def makeWithFixedSize (size : Nat) : GlobalObjectiveValue := ⟨[], some size⟩

variable (v : GlobalObjectiveValue)

def size : Nat := v.values.length

def append (val : ℚ) : Except String GlobalObjectiveValue :=
  match v.tupleSize with
  | none => .ok ⟨v.values ++ [val], none⟩
  | some tupleSize =>
    if tupleSize ≤ v.size then
      .error s!"tupleSize {tupleSize}, cannot be <= number of values in the tuple {v.size}"
    else .ok ⟨v.values ++ [val], some tupleSize⟩

def isPartial : Bool :=
  match v.tupleSize with
  | none => false
  | some tupleSize => tupleSize != v.size

/-- `lt`, `eq` and `gt` are the source's `-1`, `0` and `1`; an empty tuple counts as infinite. -/
def unsafeCompare (value1 value2 : GlobalObjectiveValue) : Except String Ordering :=
  if value1.size = 0 then .ok (if value2.size = 0 then .eq else .gt)
  else if value2.size = 0 then .ok .lt
  else if !(value1.isPartial || value2.isPartial || value1.size == value2.size) then
    .error s!"size1: {value1.size} != size2: {value2.size}"
  else .ok (compareValues value1.values value2.values)

def betterAt (compare : Ordering) (worse later : Bool) : Bool :=
  match compare with
  | .lt => true
  | .gt => false
  | .eq => !worse && later

def betterValues (precision : PrecisionTolerances) : List ℚ → List ℚ → Bool
  | x :: xs, y :: ys =>
    betterAt (precision.compare x y) (decide (y < x)) (betterValues precision xs ys)
  | _, _ => false

def isStrictlyBetter (candidate current : GlobalObjectiveValue) (precision : PrecisionTolerances) :
    Except String Bool :=
  if candidate.size = 0 then .ok false
  else if current.size = 0 then .ok true
  else if !candidate.isPartial && !current.isPartial && candidate.size != current.size then
    .error s!"size1: {candidate.size} != size2: {current.size}"
  else .ok (betterValues precision candidate.values current.values)

end GlobalObjectiveValue

theorem GlobalObjectiveValue.betterAt_cases {t : PrecisionTolerances}
    (ht : 0 < t.absolute) (h : betterAt (t.compare x y) (decide (y < x)) l = true) :
    x < y ∨ x = y ∧ l = true := by
  cases hc : t.compare x y with
  | lt => exact .inl (t.compare_lt_strict ht hc)
  | gt =>
    rw [hc] at h
    exact absurd h Bool.false_ne_true
  | eq =>
    rw [hc] at h
    obtain ⟨hle, hl⟩ := Bool.and_eq_true_iff.mp h
    rw [Bool.not_eq_true', decide_eq_false_iff_not, not_lt] at hle
    rcases lt_or_eq_of_le hle with hlt | heq
    · exact .inl hlt
    · exact .inr ⟨heq, hl⟩

theorem compareValues_of_better (ht : 0 < t.absolute) (xs : List ℚ) : ∀ ys,
    GlobalObjectiveValue.betterValues t xs ys = true → compareValues xs ys = .lt := by
  induction xs with
  | nil =>
    intro ys h
    exact absurd h Bool.false_ne_true
  | cons x xs ih =>
    intro ys h
    cases ys with
    | nil => exact absurd h Bool.false_ne_true
    | cons y ys =>
      rcases GlobalObjectiveValue.betterAt_cases ht h with hlt | ⟨rfl, hl⟩
      · exact compareValues_cons_of_lt hlt xs ys
      · rw [compareValues_cons_of_eq]
        exact ih ys hl

/-- The objective tuple of the local search, with every objective followed by its penalty when
there are penalties. -/
structure LocalSearchObjectiveValue where
  combinedValue : GlobalObjectiveValue
  hasPenalty : Bool
deriving DecidableEq

namespace LocalSearchObjectiveValue

def new : LocalSearchObjectiveValue := ⟨.new, false⟩

section
variable (lhs rhs : LocalSearchObjectiveValue)

def validateCompatible : Except String Unit :=
  if lhs.combinedValue.size ≠ 0 ∧ rhs.combinedValue.size ≠ 0 ∧ lhs.hasPenalty ≠ rhs.hasPenalty then
    .error s!"Penalty objective presence differs: lhs={lhs.hasPenalty}, rhs={rhs.hasPenalty}"
  else .ok ()

def unsafeCompare : Except String Ordering := do
  validateCompatible lhs rhs
  lhs.combinedValue.unsafeCompare rhs.combinedValue

end

def isStrictlyBetter (candidate current : LocalSearchObjectiveValue)
    (precision : PrecisionTolerances) : Except String Bool := do
  validateCompatible candidate current
  candidate.combinedValue.isStrictlyBetter current.combinedValue precision

end LocalSearchObjectiveValue

end Rebalancer
