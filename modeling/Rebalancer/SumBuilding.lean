import Rebalancer.LinearSum

namespace Rebalancer
open List LinearSum LinearTerms Except

/-- Linear sums have the values of their terms; initial values are those of the initial assignment.
-/
structure GivenExpressions where
  linearSum : ExprId → Option LinearSum
  value : Assignment → ExprId → ℚ
  initialAssignment : Assignment
  value_linearSum : ∀ e s, linearSum e = some s → ∀ a,
    s.innerFullApply exactTolerances (fun c => .ok (value a c)) = .ok (value a e)

namespace GivenExpressions

def initial (g : GivenExpressions) : ExprId → ℚ := g.value g.initialAssignment

end GivenExpressions

/-- What a pointer to an expression can point to: a given expression that is not a linear sum, or
a linear sum. -/
inductive ExprPtr (g : GivenExpressions) where
  | other (e : ExprId) (h : g.linearSum e = none)
  | sum (s : LinearSum)

namespace ExprPtr
variable {g : GivenExpressions}

section
variable (g : GivenExpressions)

def ofGiven (e : ExprId) : ExprPtr g :=
  match h : g.linearSum e with
  | none => .other e h
  | some s => .sum s

def constExpr (value : ℚ) : LinearSum := .new exactTolerances g.initial value ∅

def weighted (e : ExprId) (coef : ℚ) : LinearSum :=
  .new exactTolerances g.initial 0 (AList.insert e coef ∅)

end

def times (lhs : ExprPtr g) (rhs : ℚ) : LinearSum :=
  match lhs with
  | .other e _ => if rhs = 0 then constExpr g 0 else weighted g e rhs
  | .sum s =>
    if rhs = 0 ∨ s.constant = 0 ∧ s.children.elems = [] then constExpr g 0
    else .times exactTolerances g.initial s.toLinearTerms rhs

def asSum (lhs : ExprPtr g) : LinearSum :=
  match lhs with
  | .other e h => times (.other e h) 1
  | .sum s => s

def plus (lhs rhs : ExprPtr g) : LinearSum :=
  .plus exactTolerances g.initial lhs.asSum.toLinearTerms rhs.asSum.toLinearTerms

def inPlace (lhs : Option (ExprPtr g)) : LinearSum :=
  match lhs with
  | none => constExpr g 0
  | some (.other e _) => weighted g e 1
  | some (.sum s) => s

def combine (lhs : Option (ExprPtr g)) (rhs : ExprPtr g) (coef : ℚ) : LinearSum :=
  match rhs with
  | .other e h =>
    (inPlace lhs).combine exactTolerances g.initial (times (.other e h) coef).toLinearTerms 1
  | .sum s => (inPlace lhs).combine exactTolerances g.initial s.toLinearTerms coef

def inplaceAdd (lhs : Option (ExprPtr g)) (rhs : ExprId) (coef : ℚ) : LinearSum :=
  (inPlace lhs).add exactTolerances g.initial rhs coef

def initialValue : ExprPtr g → ℚ
  | .other e _ => g.initial e
  | .sum s => s.initialValue

def fullApply (a : Assignment) : ExprPtr g → Except String ℚ
  | .other e _ => .ok (g.value a e)
  | .sum s => s.innerFullApply exactTolerances fun c => .ok (g.value a c)

end ExprPtr

inductive SumStep where
  | plus (rhs : ExprId)
  | minus (rhs : ExprId)
  | minusFrom (lhs : ExprId)
  | plusNumber (rhs : ℚ)
  | minusNumber (rhs : ℚ)
  | minusFromNumber (lhs : ℚ)
  | times (rhs : ℚ)
  | inplaceAdd (rhs : ExprId) (coef : ℚ)
  | plusAssign (rhs : ExprId)
  | minusAssign (rhs : ExprId)
  | plusAssignNumber (rhs : ℚ)
  | minusAssignNumber (rhs : ℚ)

namespace SumStep
variable {g : GivenExpressions}

def notNull (message : String) (lhs : Option (ExprPtr g)) : Except String (ExprPtr g) :=
  match lhs with
  | none => .error message
  | some lhs => .ok lhs

def run (lhs : Option (ExprPtr g)) : SumStep → Except String LinearSum
  | plus rhs => do
    let lhs ← notNull "null pointer" lhs
    .ok (lhs.plus (.ofGiven g rhs))
  | minus rhs => do
    let lhs ← notNull "null pointer" lhs
    .ok (lhs.plus (.sum ((ExprPtr.ofGiven g rhs).times (-1))))
  | minusFrom e => do
    let lhs ← notNull "lhs must not be null for inplace_multiply" lhs
    .ok ((ExprPtr.ofGiven g e).plus (.sum (lhs.times (-1))))
  | plusNumber rhs => do
    let lhs ← notNull "lhs must not be null for inplace_add" lhs
    .ok (lhs.plus (.sum (ExprPtr.constExpr g rhs)))
  | minusNumber rhs => do
    let lhs ← notNull "lhs must not be null for inplace_add" lhs
    .ok (lhs.plus (.sum (ExprPtr.constExpr g (-rhs))))
  | minusFromNumber c => do
    let lhs ← notNull "lhs must not be null for inplace_multiply" lhs
    .ok ((ExprPtr.sum (lhs.times (-1))).plus (.sum (ExprPtr.constExpr g c) : ExprPtr g))
  | times rhs => do
    let lhs ← notNull "lhs must not be null for inplace_multiply" lhs
    .ok (lhs.times rhs)
  | inplaceAdd rhs coef => .ok (ExprPtr.inplaceAdd lhs rhs coef)
  | plusAssign rhs => .ok (ExprPtr.combine lhs (.ofGiven g rhs) 1)
  | minusAssign rhs => .ok (ExprPtr.combine lhs (.ofGiven g rhs) (-1))
  | plusAssignNumber rhs => do
    let lhs ← notNull "lhs must not be null for inplace_add" lhs
    .ok ((ExprPtr.inPlace (some lhs)).plusConstant exactTolerances rhs)
  | minusAssignNumber rhs => do
    let lhs ← notNull "lhs must not be null for inplace_add" lhs
    .ok ((ExprPtr.inPlace (some lhs)).plusConstant exactTolerances (-rhs))

end SumStep

structure Form where
  constant : ℚ
  terms : List (ℚ × ExprId)

namespace Form

variable (f : Form)

def eval (v : ExprId → ℚ) : ℚ := f.constant + (f.terms.map fun term => term.1 * v term.2).sum

def addTerm (coef : ℚ) (e : ExprId) : Form := { f with terms := (coef, e) :: f.terms }

variable (c : ℚ)

def addNumber : Form := { f with constant := f.constant + c }

def scale : Form := ⟨f.constant * c, f.terms.map fun term => (term.1 * c, term.2)⟩

@[simp] theorem eval_addTerm (coef : ℚ) (e : ExprId) (v : ExprId → ℚ) :
    (f.addTerm coef e).eval v = f.eval v + coef * v e := by
  rw [eval, eval, addTerm, map_cons, sum_cons]
  ring

@[simp] theorem eval_addNumber (v : ExprId → ℚ) : (f.addNumber c).eval v = f.eval v + c := by
  rw [eval, eval, addNumber]
  ring

@[simp] theorem eval_scale (v : ExprId → ℚ) : (f.scale c).eval v = f.eval v * c := by
  have ht : ((f.scale c).terms.map fun term => term.1 * v term.2) =
      (f.terms.map fun term => term.1 * v term.2).map (· * c) := by
    rw [scale, map_map, map_map]
    apply map_congr_left
    intro term _
    simp only [Function.comp_apply]
    ring
  rw [eval, eval, ht, sum_map_mul_right, map_id']
  rw [scale]
  ring

end Form

def SumStep.added (f : Form) : SumStep → Form
  | plus rhs => f.addTerm 1 rhs
  | minus rhs => f.addTerm (-1) rhs
  | minusFrom e => (f.scale (-1)).addTerm 1 e
  | plusNumber rhs => f.addNumber rhs
  | minusNumber rhs => f.addNumber (-rhs)
  | minusFromNumber c => (f.scale (-1)).addNumber c
  | times rhs => f.scale rhs
  | inplaceAdd rhs coef => f.addTerm coef rhs
  | plusAssign rhs => f.addTerm 1 rhs
  | minusAssign rhs => f.addTerm (-1) rhs
  | plusAssignNumber rhs => f.addNumber rhs
  | minusAssignNumber rhs => f.addNumber (-rhs)

namespace SumStep
variable {g : GivenExpressions}

def Right (lhs : Option (ExprPtr g)) (f : Form) : Prop :=
  ∀ node, lhs = some node → node.initialValue = f.eval g.initial ∧
    ∀ a, node.fullApply a = .ok (f.eval (g.value a))

/-- An expression added in place is not a child of the sum yet, unless it never counts. -/
def Fresh (lhs : Option (ExprPtr g)) : SumStep → Prop
  | inplaceAdd rhs coef => rhs ∈ (ExprPtr.inPlace lhs).children →
    (ExprPtr.inPlace lhs).getChildCoefficient rhs * g.initial rhs = 0 ∧
      ∀ a, coef * g.value a rhs = 0
  | _ => True

def RightThroughout (lhs : Option (ExprPtr g)) (f : Form) : List SumStep → Prop
  | [] => Right lhs f
  | step :: steps => Right lhs f ∧ ∀ s, step.run lhs = .ok s →
    RightThroughout (some (.sum s)) (step.added f) steps

def FreshThroughout (lhs : Option (ExprPtr g)) : List SumStep → Prop
  | [] => True
  | step :: steps => step.Fresh lhs ∧ ∀ s, step.run lhs = .ok s →
    FreshThroughout (some (.sum s)) steps

end SumStep

namespace ExprPtr
variable {g : GivenExpressions}

theorem constExpr_kept (g : GivenExpressions) (c : ℚ) : (constExpr g c).Kept g.initial ∧
    ∀ v, (constExpr g c).eval v = c := by
  obtain ⟨hk, he⟩ := new_kept g.initial c ∅
  refine ⟨hk, ?_⟩
  intro v
  rw [constExpr, he, AssocMap.total_empty, add_zero]

theorem weighted_kept (g : GivenExpressions) (e : ExprId) (coef : ℚ) :
    (weighted g e coef).Kept g.initial ∧ ∀ v, (weighted g e coef).eval v = coef * v e := by
  obtain ⟨hk, he⟩ := new_kept g.initial 0 (AList.insert e coef ∅)
  refine ⟨hk, ?_⟩
  intro v
  rw [weighted, he, AssocMap.total_insert]
  simp

theorem times_kept (lhs : ExprPtr g) (c : ℚ) : (lhs.times c).Kept g.initial ∧
    ∀ v, (lhs.times c).eval v = (inPlace (some lhs)).eval v * c := by
  cases lhs with
  | other e h =>
    rw [times, inPlace]
    split_ifs with hzero
    · refine ⟨(constExpr_kept g 0).1, ?_⟩
      intro v
      rw [(constExpr_kept g 0).2, hzero, mul_zero]
    · refine ⟨(weighted_kept g e c).1, ?_⟩
      intro v
      rw [(weighted_kept g e c).2, (weighted_kept g e 1).2]
      ring
  | sum s =>
    rw [times, inPlace]
    split_ifs with hzero
    · refine ⟨(constExpr_kept g 0).1, ?_⟩
      intro v
      rw [(constExpr_kept g 0).2]
      rcases hzero with hzero | ⟨hc, hchildren⟩
      · rw [hzero, mul_zero]
      · rw [eval, hc, hchildren, map_nil, sum_nil, add_zero, zero_mul]
    · exact LinearSum.times_kept _ c

theorem asSum_eval (lhs : ExprPtr g) (v : ExprId → ℚ) :
    lhs.asSum.eval v = (inPlace (some lhs)).eval v := by
  cases lhs with
  | other e h =>
    rw [asSum, (times_kept _ 1).2, mul_one]
  | sum s => rfl

theorem plus_kept (lhs rhs : ExprPtr g) : (lhs.plus rhs).Kept g.initial ∧
    ∀ v, (lhs.plus rhs).eval v = (inPlace (some lhs)).eval v + (inPlace (some rhs)).eval v := by
  obtain ⟨hk, he⟩ := LinearSum.plus_kept g.initial lhs.asSum.toLinearTerms rhs.asSum.toLinearTerms
  refine ⟨hk, ?_⟩
  intro v
  rw [plus, he, asSum_eval, asSum_eval]

theorem ofGiven_eval (g : GivenExpressions) (e : ExprId) (a : Assignment) :
    (inPlace (some (ofGiven g e))).eval (g.value a) = g.value a e := by
  rw [ofGiven]
  split
  · exact ((weighted_kept g e 1).2 _).trans (one_mul _)
  · rename_i s hs
    have hvalue := g.value_linearSum e s hs a
    rw [innerFullApply_exact] at hvalue
    exact ok.inj hvalue

theorem combine_kept (h : (inPlace lhs).Kept g.initial)
    (rhs : ExprPtr g) (coef : ℚ) : (combine lhs rhs coef).Kept g.initial ∧
    ∀ v, (combine lhs rhs coef).eval v =
      (inPlace lhs).eval v + (inPlace (some rhs)).eval v * coef := by
  cases rhs with
  | other e he =>
    obtain ⟨hk, heval⟩ := LinearSum.combine_kept h (times (.other e he) coef).toLinearTerms 1
    refine ⟨hk, ?_⟩
    intro v
    rw [combine, heval, (times_kept _ coef).2, mul_one]
  | sum s => exact LinearSum.combine_kept h s.toLinearTerms coef

end ExprPtr

namespace SumStep
variable {g : GivenExpressions}

structure Agrees (lhs : Option (ExprPtr g)) (f : Form) : Prop where
  kept : (ExprPtr.inPlace lhs).Kept g.initial
  eval : ∀ a, (ExprPtr.inPlace lhs).eval (g.value a) = f.eval (g.value a)

variable {lhs : Option (ExprPtr g)}

theorem Agrees.right (h : Agrees lhs f) : Right lhs f := by
  intro node hn
  subst hn
  cases node with
  | other e he =>
    have hvalue : ∀ a, g.value a e = f.eval (g.value a) := by
      intro a
      rw [← h.eval a]
      exact (((ExprPtr.weighted_kept g e 1).2 _).trans (one_mul _)).symm
    exact ⟨hvalue _, fun a => congrArg ok (hvalue a)⟩
  | sum s =>
    refine ⟨h.kept.initialValue_eq_eval.trans (h.eval _), ?_⟩
    intro a
    exact (innerFullApply_exact _ _).trans (congrArg ok (h.eval a))

theorem of_notNull {f : ExprPtr g → α}
    (h : (notNull m lhs >>= fun node => .ok (f node)) = .ok s) :
    ∃ node, lhs = some node ∧ f node = s := by
  cases lhs with
  | none => cases h
  | some node => exact ⟨node, rfl, ok.inj h⟩

theorem Agrees.of_sum (hk : s.Kept g.initial)
    (he : ∀ a, s.eval (g.value a) = f.eval (g.value a)) : Agrees (g := g) (some (.sum s)) f :=
  ⟨hk, he⟩

theorem Agrees.plus {lhs rhs : ExprPtr g} {w : Assignment → ℚ} (h : Agrees (some lhs) f)
    (hr : ∀ a, (ExprPtr.inPlace (some rhs)).eval (g.value a) = w a)
    (hf' : ∀ a, f'.eval (g.value a) = f.eval (g.value a) + w a) :
    Agrees (g := g) (some (.sum (lhs.plus rhs))) f' := by
  apply Agrees.of_sum (ExprPtr.plus_kept lhs rhs).1
  intro a
  rw [(ExprPtr.plus_kept lhs rhs).2, h.eval, hr, hf']

section
variable {lhs : ExprPtr g} (h : Agrees (some lhs) f) (c : ℚ)
include h

theorem Agrees.plusNumber :
    Agrees (g := g) (some (.sum (lhs.plus (.sum (ExprPtr.constExpr g c))))) (f.addNumber c) := by
  apply h.plus (w := fun _ => c)
  · intro a
    exact (ExprPtr.constExpr_kept g c).2 _
  · intro a
    rw [Form.eval_addNumber]

theorem Agrees.times : Agrees (g := g) (some (.sum (lhs.times c))) (f.scale c) := by
  apply Agrees.of_sum (ExprPtr.times_kept lhs c).1
  intro a
  rw [(ExprPtr.times_kept lhs c).2, h.eval, Form.eval_scale]

end

section
variable (h : Agrees lhs f)
include h

theorem Agrees.combine (e : ExprId) (coef : ℚ) :
    Agrees (g := g) (some (.sum (ExprPtr.combine lhs (.ofGiven g e) coef))) (f.addTerm coef e) := by
  apply Agrees.of_sum (ExprPtr.combine_kept h.kept _ coef).1
  intro a
  rw [(ExprPtr.combine_kept h.kept _ coef).2, h.eval, ExprPtr.ofGiven_eval, Form.eval_addTerm]
  ring

theorem Agrees.plusConstant (c : ℚ) :
    Agrees (g := g) (some (.sum ((ExprPtr.inPlace lhs).plusConstant exactTolerances c)))
      (f.addNumber c) := by
  apply Agrees.of_sum (plusConstant_kept h.kept c).1
  intro a
  rw [(plusConstant_kept h.kept c).2, h.eval, Form.eval_addNumber]

theorem Agrees.inplaceAdd (hf : (SumStep.inplaceAdd e coef).Fresh lhs) :
    Agrees (g := g) (some (.sum (ExprPtr.inplaceAdd lhs e coef))) (f.addTerm coef e) := by
  by_cases hmem : e ∈ (ExprPtr.inPlace lhs).children
  · obtain ⟨hold, hc⟩ := hf hmem
    obtain ⟨he, -, hk⟩ := add_again h.kept hmem coef
    apply Agrees.of_sum (hk hold (hc g.initialAssignment))
    intro a
    refine (he _).trans ?_
    rw [h.eval, Form.eval_addTerm, hc, add_zero]
  · obtain ⟨hk, he⟩ := LinearSum.add_kept h.kept hmem coef
    apply Agrees.of_sum hk
    intro a
    refine (he _).trans ?_
    rw [h.eval, Form.eval_addTerm]

theorem Agrees.run (step : SumStep) (hf : step.Fresh lhs)
    (hr : step.run lhs = .ok s) : Agrees (g := g) (some (.sum s)) (step.added f) := by
  cases step with
  | plus rhs =>
    obtain ⟨node, rfl, rfl⟩ := of_notNull hr
    apply h.plus (ExprPtr.ofGiven_eval g rhs)
    intro a
    rw [added, Form.eval_addTerm, one_mul]
  | minus rhs =>
    obtain ⟨node, rfl, rfl⟩ := of_notNull hr
    apply h.plus (w := fun a => g.value a rhs * -1)
    · intro a
      exact ((ExprPtr.times_kept _ _).2 _).trans (congrArg (· * -1) (ExprPtr.ofGiven_eval g rhs a))
    · intro a
      rw [added, Form.eval_addTerm]
      ring
  | minusFrom e =>
    obtain ⟨node, rfl, rfl⟩ := of_notNull hr
    apply Agrees.of_sum (ExprPtr.plus_kept _ _).1
    intro a
    rw [(ExprPtr.plus_kept _ _).2, ExprPtr.ofGiven_eval, (h.times (-1)).eval, added,
      Form.eval_addTerm]
    ring
  | plusNumber rhs =>
    obtain ⟨node, rfl, rfl⟩ := of_notNull hr
    exact h.plusNumber rhs
  | minusNumber rhs =>
    obtain ⟨node, rfl, rfl⟩ := of_notNull hr
    exact h.plusNumber (-rhs)
  | minusFromNumber c =>
    obtain ⟨node, rfl, rfl⟩ := of_notNull hr
    exact (h.times (-1)).plusNumber c
  | times rhs =>
    obtain ⟨node, rfl, rfl⟩ := of_notNull hr
    exact h.times rhs
  | inplaceAdd rhs coef =>
    cases hr
    exact h.inplaceAdd hf
  | plusAssign rhs =>
    cases hr
    exact h.combine rhs 1
  | minusAssign rhs =>
    cases hr
    exact h.combine rhs (-1)
  | plusAssignNumber rhs =>
    obtain ⟨node, rfl, rfl⟩ := of_notNull hr
    exact h.plusConstant rhs
  | minusAssignNumber rhs =>
    obtain ⟨node, rfl, rfl⟩ := of_notNull hr
    exact h.plusConstant (-rhs)

theorem Agrees.fresh (step : SumStep)
    (hr : ∀ s, step.run lhs = .ok s → Right (g := g) (some (.sum s)) (step.added f)) :
    step.Fresh lhs := by
  cases step with
  | inplaceAdd rhs coef =>
    intro hmem
    obtain ⟨he, hinitial, -⟩ := add_again h.kept hmem coef
    obtain ⟨hvalue, hf⟩ := hr _ rfl _ rfl
    refine ⟨?_, ?_⟩
    · have hs : (ExprPtr.inplaceAdd lhs rhs coef).initialValue =
          (f.addTerm coef rhs).eval g.initial := hvalue
      rw [ExprPtr.inplaceAdd, hinitial, Form.eval_addTerm, h.kept.initialValue_eq_eval,
        GivenExpressions.initial, h.eval] at hs
      rw [GivenExpressions.initial]
      linarith
    · intro a
      have hs : (ExprPtr.inplaceAdd lhs rhs coef).innerFullApply exactTolerances
          (fun c => .ok (g.value a c)) = .ok ((f.addTerm coef rhs).eval (g.value a)) := hf a
      rw [innerFullApply_exact, ExprPtr.inplaceAdd, he, h.eval] at hs
      have hs := ok.inj hs
      rw [Form.eval_addTerm] at hs
      linarith
  | plus rhs => trivial
  | minus rhs => trivial
  | minusFrom e => trivial
  | plusNumber rhs => trivial
  | minusNumber rhs => trivial
  | minusFromNumber c => trivial
  | times rhs => trivial
  | plusAssign rhs => trivial
  | minusAssign rhs => trivial
  | plusAssignNumber rhs => trivial
  | minusAssignNumber rhs => trivial

end

theorem RightThroughout.head (h : RightThroughout lhs f ss) : Right lhs f := by
  cases ss with
  | nil => exact h
  | cons step ss => exact h.1

theorem rightThroughout_iff (ss : List SumStep) : ∀ {lhs : Option (ExprPtr g)} {f : Form},
    Agrees lhs f → (RightThroughout lhs f ss ↔ FreshThroughout lhs ss) := by
  induction ss with
  | nil =>
    intro lhs f h
    exact ⟨fun _ => trivial, fun _ => h.right⟩
  | cons step ss ih =>
    intro lhs f h
    refine ⟨?_, ?_⟩
    · intro hr
      have hf := h.fresh step fun s hs => (hr.2 s hs).head
      exact ⟨hf, fun s hs => (ih (h.run step hf hs)).mp (hr.2 s hs)⟩
    · intro hf
      exact ⟨h.right, fun s hs => (ih (h.run step hf.1 hs)).mpr (hf.2 s hs)⟩

abbrev Start (g : GivenExpressions) := Option { e : ExprId // g.linearSum e = none }

def Start.node (start : Start g) : Option (ExprPtr g) := start.map fun e => .other e.1 e.2

def Start.form (start : Start g) : Form := ⟨0, (start.map fun e => (1, e.1)).toList⟩

theorem Start.agrees (s : Start g) : Agrees s.node s.form := by
  cases s with
  | none =>
    refine ⟨(ExprPtr.constExpr_kept g 0).1, ?_⟩
    intro a
    refine ((ExprPtr.constExpr_kept g 0).2 _).trans ?_
    simp [Start.form, Form.eval]
  | some e =>
    refine ⟨(ExprPtr.weighted_kept g e.1 1).1, ?_⟩
    intro a
    refine ((ExprPtr.weighted_kept g e.1 1).2 _).trans ?_
    simp [Start.form, Form.eval]

/-- A sum is right in every state of its construction exactly if no step adds in place what is
already there. -/
theorem right_iff_fresh (g : GivenExpressions) (start : Start g) (steps : List SumStep) :
    RightThroughout start.node start.form steps ↔ FreshThroughout start.node steps :=
  rightThroughout_iff steps start.agrees

def oneExpression : GivenExpressions where
  linearSum _ := none
  value _ _ := 1
  initialAssignment _ := 0
  value_linearSum _ _ h := nomatch h

def addedAgain : LinearSum := ExprPtr.inplaceAdd (g := oneExpression)
    (some (.sum (ExprPtr.inplaceAdd (g := oneExpression) none 0 2))) 0 3

/-- The initial value has the last coefficient only and a full apply the first one. -/
theorem addedAgain_wrong : addedAgain.initialValue = 3 ∧ addedAgain.innerFullApply exactTolerances
      (fun c => .ok (oneExpression.value (fun _ => 0) c)) = .ok 2 ∧
    ¬ RightThroughout (Start.node (none : Start oneExpression))
      (Start.form (none : Start oneExpression)) [.inplaceAdd 0 2, .inplaceAdd 0 3] := by
  refine ⟨by decide +kernel, by decide +kernel, ?_⟩
  intro h
  have hl := (h.2 _ rfl).2 _ rfl
  have hinitial : addedAgain.initialValue = 5 := by
    refine (hl _ rfl).1.trans ?_
    decide +kernel
  revert hinitial
  decide +kernel

end SumStep

end Rebalancer
