import Rebalancer.ObjectiveValue

namespace Rebalancer
open List GlobalObjectiveValue Nat

abbrev Evaluate (ν C : Type) := ν → C → Except String (ℚ × C)

/-- Evaluation of the given nodes yields the values `v` and keeps the context good for more. -/
def Answers (evaluate : Evaluate ν C) (Good : C → Prop) (nodes : List ν) (v : ν → ℚ) : Prop :=
  ∀ n ∈ nodes, ∀ ctx, Good ctx → ∃ ctx', evaluate n ctx = .ok (v n, ctx') ∧ Good ctx'

theorem Answers.mono (h : Answers evaluate Good ns v)
    (hs : ns' ⊆ ns) : Answers evaluate Good ns' v :=
  fun n hn => h n (hs hn)

structure GlobalObjective (ν : Type) where
  objectives : List ν

namespace GlobalObjective
variable {ν C : Type}

def build (zero : ν) (objectives : List ν) : GlobalObjective ν :=
  if objectives.isEmpty then ⟨[zero]⟩ else ⟨objectives⟩

section
variable (goal : GlobalObjective ν)

def size : Nat := goal.objectives.length

def getValue (value : ν → ℚ) : GlobalObjectiveValue := ⟨goal.objectives.map value, none⟩

def positions (start stop : Int) : List ν :=
  (goal.objectives.take (min stop goal.size).toNat).drop (max 0 start).toNat

end

def getRange (zero : ν) (goal : GlobalObjective ν) (start stop : Int) : GlobalObjective ν :=
  build zero (goal.positions start stop)

def stops (priorObjectiveImproved : Bool) (val current : ℚ) : Bool :=
  !priorObjectiveImproved && defaultTolerances.compare val current == .gt

def evaluateLoop (evaluate : Evaluate ν C) (value : ν → ℚ) (evaluateAllTuples : Bool) :
    List ν → Bool → GlobalObjectiveValue → C → Except String (GlobalObjectiveValue × C)
  | [], _, result, ctx => .ok (result, ctx)
  | objective :: rest, improved, result, ctx => do
    let (val, ctx) ← evaluate objective ctx
    let result ← result.append val
    if evaluateAllTuples then
      evaluateLoop evaluate value evaluateAllTuples rest improved result ctx
    else if val < value objective then
      evaluateLoop evaluate value evaluateAllTuples rest true result ctx
    else if stops improved val (value objective) then .ok (result, ctx)
    else evaluateLoop evaluate value evaluateAllTuples rest improved result ctx

def evaluate (goal : GlobalObjective ν) (evaluate : Evaluate ν C) (value : ν → ℚ)
    (evaluateAllTuples : Bool) (ctx : C) : Except String (GlobalObjectiveValue × C) :=
  evaluateLoop evaluate value evaluateAllTuples goal.objectives false
    (.makeWithFixedSize goal.size) ctx

def shortCircuit : Bool → List ℚ → List ℚ → List ℚ
  | improved, x :: xs, y :: ys =>
    x :: (if x < y then shortCircuit true xs ys
      else if stops improved x y then []
      else shortCircuit improved xs ys)
  | _, _, _ => []

def evaluatedValues (evaluateAllTuples : Bool) (xs ys : List ℚ) : List ℚ :=
  if evaluateAllTuples then xs else shortCircuit false xs ys

theorem append_ok {r : GlobalObjectiveValue} (hs : r.tupleSize = some n)
    (hlt : r.values.length < n) (val : ℚ) : r.append val = .ok ⟨r.values ++ [val], some n⟩ := by
  simp [GlobalObjectiveValue.append, hs, GlobalObjectiveValue.size, not_le.mpr hlt]

variable {e : Evaluate ν C}

theorem evaluateLoop_spec (v' : ν → ℚ) (all : Bool)
    (ns : List ν) : ∀ (i' : Bool) (r : GlobalObjectiveValue) (ctx : C) (n : Nat),
    Answers e Good ns v → Good ctx → r.tupleSize = some n → r.values.length + ns.length ≤ n →
    ∃ ctx', evaluateLoop e v' all ns i' r ctx = .ok (⟨r.values ++ if all then ns.map v
        else shortCircuit i' (ns.map v) (ns.map v'), some n⟩, ctx') ∧ Good ctx' := by
  induction ns with
  | nil =>
    intro i' r ctx n _ hg hsize _
    refine ⟨ctx, ?_, hg⟩
    simp [evaluateLoop, shortCircuit, ← hsize]
  | cons node ns ih =>
    intro i' r ctx n ha hg hsize hlen
    rw [length_cons] at hlen
    obtain ⟨ctx₁, hr, hg₁⟩ := ha node mem_cons_self ctx hg
    have hrest := ha.mono (subset_cons_self node ns)
    have hn : ∀ i, ∃ ctx', evaluateLoop e v' all ns i
        ⟨r.values ++ [v node], some n⟩ ctx₁ = .ok (⟨r.values ++ v node ::
          (if all then ns.map v else shortCircuit i (ns.map v) (ns.map v')), some n⟩,
          ctx') ∧ Good ctx' := by
      intro i
      obtain ⟨ctx', hl, hg'⟩ := ih i ⟨r.values ++ [v node], some n⟩ ctx₁ n hrest hg₁
        rfl (by simp only [length_append, length_singleton]; omega)
      refine ⟨ctx', ?_, hg'⟩
      rw [hl, append_assoc, singleton_append]
    simp only [evaluateLoop, hr, except_ok_bind, append_ok hsize (by omega : _ < n),
      map_cons, shortCircuit]
    cases all with
    | true => exact hn i'
    | false =>
      simp only [Bool.false_eq_true, ↓reduceIte] at hn ⊢
      split
      · exact hn true
      · split
        · exact ⟨ctx₁, rfl, hg₁⟩
        · exact hn i'

theorem evaluate_spec (goal : GlobalObjective ν) (v' : ν → ℚ)
    (ha : Answers e Good goal.objectives v) (hg : Good ctx) (all : Bool) :
    ∃ ctx', goal.evaluate e v' all ctx =
      .ok (⟨evaluatedValues all (goal.objectives.map v) (goal.objectives.map v'),
        some goal.size⟩, ctx') ∧ Good ctx' := by
  obtain ⟨ctx', hl, hg'⟩ := evaluateLoop_spec v' all goal.objectives false
    (.makeWithFixedSize goal.size) ctx goal.size ha hg rfl (by
      simp [makeWithFixedSize, size])
  exact ⟨ctx', hl, hg'⟩

theorem stops_lt (h : stops i x y = true) : y < x := by
  rw [stops, Bool.and_eq_true, beq_iff_eq] at h
  exact PrecisionTolerances.compare_gt h.2

theorem shortCircuit_improved (xs : List ℚ) : ∀ ys, xs.length = ys.length →
    shortCircuit true xs ys = xs := by
  induction xs with
  | nil =>
    intro ys _
    rfl
  | cons x xs ih =>
    intro ys h
    cases ys with
    | nil => cases h
    | cons y ys =>
      have ht := ih ys (succ.inj h)
      have hs : stops true x y = false := rfl
      simp [shortCircuit, hs, ht]

theorem shortCircuit_cases (xs : List ℚ) : ∀ ys, xs.length = ys.length →
    shortCircuit false xs ys = xs ∨
      compareValues (shortCircuit false xs ys) ys = .gt ∧ compareValues xs ys = .gt := by
  induction xs with
  | nil =>
    intro ys _
    exact .inl rfl
  | cons x xs ih =>
    intro ys h
    cases ys with
    | nil => cases h
    | cons y ys =>
      have hl := succ.inj h
      rcases lt_trichotomy x y with hlt | rfl | hgt
      · refine .inl ?_
        rw [shortCircuit, if_pos hlt, shortCircuit_improved xs ys hl]
      · have hstop : stops false x x = false := by
          cases hs : stops false x x with
          | false => rfl
          | true => exact absurd (stops_lt hs) (lt_irrefl x)
        simp only [shortCircuit, hstop, lt_irrefl, Bool.false_eq_true, ↓reduceIte, cons.injEq,
          true_and, compareValues_cons_of_eq]
        exact ih ys hl
      · exact .inr ⟨compareValues_cons_of_gt hgt _ _, compareValues_cons_of_gt hgt _ _⟩

theorem betterValues_shortCircuit (t : PrecisionTolerances) (xs : List ℚ) : ∀ ys,
    xs.length = ys.length → betterValues t (shortCircuit false xs ys) ys =
      betterValues t xs ys := by
  induction xs with
  | nil =>
    intro ys _
    rfl
  | cons x xs ih =>
    intro ys h
    cases ys with
    | nil => cases h
    | cons y ys =>
      have hl := succ.inj h
      rw [shortCircuit, betterValues, betterValues]
      split
      · rw [shortCircuit_improved xs ys hl]
      · split
        · rename_i hstop
          have hgt := stops_lt hstop
          have hs : ∀ l, betterAt (t.compare x y) (decide (y < x)) l = false := by
            intro l
            rw [decide_eq_true hgt]
            rcases t.compare_eq_or_of_gt hgt with hc | hc <;> rw [hc] <;> rfl
          rw [hs, hs]
        · rw [ih ys hl]

theorem shortCircuit_settled (ys : List ℚ) : ∀ (i : Bool) (xs xs' : List ℚ),
    xs.length = ys.length → xs'.length = ys.length →
    Settled (shortCircuit i xs ys) (shortCircuit i xs' ys) := by
  induction ys with
  | nil =>
    intro i xs xs' h h' _
    rw [length_eq_zero_iff.mp h, length_eq_zero_iff.mp h']
  | cons y ys ih =>
    intro i xs xs' h h' hp
    cases xs with
    | nil => cases h
    | cons x xs =>
      cases xs' with
      | nil => cases h'
      | cons x' xs' =>
        have hl := succ.inj h
        have hl' := succ.inj h'
        simp only [shortCircuit, cons_prefix_cons] at hp ⊢
        have hx : x = x' := by
          rcases hp with ⟨hx, -⟩ | ⟨hx, -⟩
          · exact hx
          · exact hx.symm
        subst hx
        simp only [true_and] at hp
        congr 1
        split_ifs at hp ⊢ with hlt hs
        · exact ih true xs xs' hl hl' hp
        · rfl
        · exact ih i xs xs' hl hl' hp

theorem shortCircuit_ne_nil (h : xs ≠ []) (hl : xs.length = ys.length) :
    shortCircuit i xs ys ≠ [] := by
  cases xs with
  | nil => exact absurd rfl h
  | cons x xs =>
    cases ys with
    | nil => cases hl
    | cons y ys => exact cons_ne_nil _ _

end GlobalObjective

end Rebalancer
