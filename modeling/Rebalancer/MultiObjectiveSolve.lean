import Rebalancer.LexicographicSearch
import Rebalancer.OptimalSolver

namespace Rebalancer
open List Nat

def checkNonNegativeValue (value : ℚ) (attr : String) : Except String Unit :=
  if value < 0 then .error s!"expected {attr} to be non-negative but got {value}" else .ok ()

def AllowedWorsening.check (allowedWorsening : AllowedWorsening) : Except String Unit := do
  checkNonNegativeValue allowedWorsening.percent "allowedWorsening.percent"
  checkNonNegativeValue allowedWorsening.absolute "allowedWorsening.absolute"

def HigherPriorityObjectivesConfig.check (config : HigherPriorityObjectivesConfig) :
    Except String Unit :=
  forM config.tuplePosToAllowedWorsening.entries fun entry => entry.2.check

/-- The feasible values, the objectives in the order of their priority, and the allowances. -/
structure MultiObjectiveProblem (X : Type) where
  region : Set X
  objectives : List (X → ℚ)
  higherPriObjConfig : Option HigherPriorityObjectivesConfig

structure ObjectiveBound where
  pos : Nat
  allowedWorsenUntilValue : ℚ

inductive ProblemStatus where
  | optimalFound
  | solutionFound
  | solutionNotFound
  | noSolutionExists
deriving DecidableEq

inductive Answer (X : Type) where
  | optimalFound (x : X)
  | solutionFound (x : X)
  | solutionNotFound
  | noSolutionExists

namespace Answer

def status : Answer X → ProblemStatus
  | optimalFound _ => .optimalFound
  | solutionFound _ => .solutionFound
  | solutionNotFound => .solutionNotFound
  | noSolutionExists => .noSolutionExists

def point : Answer X → Option X
  | optimalFound x => some x
  | solutionFound x => some x
  | solutionNotFound => none
  | noSolutionExists => none

theorem status_ne_optimal {a : Answer X} (h : a.point = none) : a.status ≠ .optimalFound := by
  cases a with
  | optimalFound => cases h
  | solutionFound => cases h
  | solutionNotFound => exact nofun
  | noSolutionExists => exact nofun

end Answer

structure SolveRound (X : Type) where
  pos : Nat
  added : List ObjectiveBound
  answer : Answer X

abbrev SolveForObjective (X : Type) := List ObjectiveBound → Nat → Answer X

structure IterativeState (X : Type) where
  added : List ObjectiveBound
  rounds : List (SolveRound X)

structure SolveOutcome (X : Type) where
  status : ProblemStatus
  rounds : List (SolveRound X)

namespace SolveOutcome

def point (r : SolveOutcome X) : Option X := r.rounds.getLast?.bind fun round => round.answer.point

def points (r : SolveOutcome X) : List X := r.rounds.filterMap fun round => round.answer.point

end SolveOutcome

namespace MultiObjectiveProblem

section
variable (p : MultiObjectiveProblem X)

def getObjectiveSize : Nat := p.objectives.length

variable (pos : Nat)

def getObjectiveAt : X → ℚ := p.objectives.getD pos fun _ => 0

def allowedWorsening : Option AllowedWorsening :=
  p.higherPriObjConfig.bind fun config => config.tuplePosToAllowedWorsening.lookup pos

def allowedWorsenUntilValue (currValue : ℚ) : ℚ :=
  match p.allowedWorsening pos with
  | none => currValue
  | some allowed => getAllowedWorsenUntilValue currValue allowed

def addNewConstraintForObjectiveAt (x : X) (s : IterativeState X) : IterativeState X :=
  { s with added := s.added ++ [⟨pos, p.allowedWorsenUntilValue pos (p.getObjectiveAt pos x)⟩] }

end

def solveForObjectiveAndSaveResult (solveAt : SolveForObjective X) (pos : Nat)
    (s : IterativeState X) : IterativeState X :=
  { s with rounds := s.rounds ++ [⟨pos, s.added, solveAt s.added pos⟩] }

/-- The loop of `customMultiObjectiveIterativeSolve` over the positions, without time limits. -/
def iterate (p : MultiObjectiveProblem X) (solveAt : SolveForObjective X) :
    List Nat → IterativeState X → IterativeState X
  | [], s => s
  | pos :: positions, s =>
    let solved := solveForObjectiveAndSaveResult solveAt pos s
    match (solveAt s.added pos).point with
    | none => solved
    | some x =>
      if pos < p.getObjectiveSize - 1 then
        p.iterate solveAt positions (p.addNewConstraintForObjectiveAt pos x solved)
      else p.iterate solveAt positions solved

section
variable (p : MultiObjectiveProblem X)

def customMultiObjectiveIterativeSolve (solveAt : SolveForObjective X) :
    IterativeState X → IterativeState X :=
  p.iterate solveAt (range p.getObjectiveSize)

def saveFinalSolveStatus (results : List ProblemStatus) : Except String ProblemStatus :=
  if results.isEmpty then
    .error "Expected at least one problemResult before saving final status"
  else
    let numObjectivesSolvedOptimally := results.count .optimalFound
    let numSolvedObjectives := numObjectivesSolvedOptimally + results.count .solutionFound
    let numInfeasible := results.count .noSolutionExists
    if 0 < numInfeasible then .ok .noSolutionExists
    else if numObjectivesSolvedOptimally = p.getObjectiveSize then .ok .optimalFound
    else if 0 < numSolvedObjectives then .ok .solutionFound
    else .ok .solutionNotFound

def withObjective : MultiObjectiveProblem X :=
  if p.getObjectiveSize = 0 then { p with objectives := [fun _ => 0] } else p

/-- `ProblemImpl::solve` of a problem that has not been solved before. -/
def solve (solveAt : SolveForObjective X) : Except String (SolveOutcome X) := do
  let p := p.withObjective
  let s :=
    if p.getObjectiveSize = 1 then solveForObjectiveAndSaveResult solveAt 0 ⟨[], []⟩
    else p.customMultiObjectiveIterativeSolve solveAt ⟨[], []⟩
  let status ← p.saveFinalSolveStatus (s.rounds.map fun round => round.answer.status)
  return ⟨status, s.rounds⟩

def feasible (added : List ObjectiveBound) : Set X :=
  {x ∈ p.region | ∀ bound ∈ added, p.getObjectiveAt bound.pos x - bound.allowedWorsenUntilValue ≤ 0}

/-- The solve returned an exact optimum over its constraints, or reported that there is none. -/
def Exact (round : SolveRound X) : Prop :=
  match round.answer with
  | .optimalFound x =>
    x ∈ p.feasible round.added ∧ IsMinOn (p.getObjectiveAt round.pos) (p.feasible round.added) x
  | .noSolutionExists => p.feasible round.added = ∅
  | _ => False

def goalAt (pos : Nat) : Goal X ℚ := ⟨p.getObjectiveAt pos, p.allowedWorsenUntilValue pos⟩

def WithinAllowances (points : List X) (y : X) : Prop :=
  ∀ pos x, pos + 1 < p.getObjectiveSize → points[pos]? = some x →
    p.getObjectiveAt pos y ≤ p.allowedWorsenUntilValue pos (p.getObjectiveAt pos x)

def objectiveValues (x : X) : List ℚ := p.objectives.map fun f => f x

end

end MultiObjectiveProblem

theorem checkNonNegativeValue_ok (h : checkNonNegativeValue value attr = .ok ()) : 0 ≤ value := by
  rw [checkNonNegativeValue] at h
  split at h
  · cases h
  · exact not_lt.mp ‹_›

theorem AllowedWorsening.absolute_nonneg {a : AllowedWorsening}
    (h : a.check = .ok ()) : 0 ≤ a.absolute := by
  obtain ⟨_, _, ha⟩ := except_bind_ok h
  exact checkNonNegativeValue_ok ha

theorem HigherPriorityObjectivesConfig.check_ok {c : HigherPriorityObjectivesConfig}
    (h : c.check = .ok ()) (hp : c.tuplePosToAllowedWorsening.lookup pos = some a) :
    a.check = .ok () :=
  forM_ok_forall _ h ⟨pos, a⟩ (AList.mem_lookup_iff.mp hp)

theorem getAllowedWorsenUntilValue_ge (h : 0 ≤ allowed.absolute)
    (v : ℚ) : v ≤ getAllowedWorsenUntilValue v allowed := by
  cases allowed.intent with
  | max => exact le_max_of_le_right (le_add_of_nonneg_right h)

variable {p : MultiObjectiveProblem X}

namespace MultiObjectiveProblem

def Checked (p : MultiObjectiveProblem X) : Prop :=
  ∀ config, p.higherPriObjConfig = some config → config.check = .ok ()

theorem Checked.le_allowed (h : p.Checked) (pos : Nat) (v : ℚ) :
    v ≤ p.allowedWorsenUntilValue pos v := by
  rw [allowedWorsenUntilValue]
  split
  · exact le_refl v
  · rename_i a ha
    obtain ⟨c, hc, hp⟩ := Option.bind_eq_some_iff.mp ha
    have hcheck := HigherPriorityObjectivesConfig.check_ok (h c hc) hp
    exact getAllowedWorsenUntilValue_ge (AllowedWorsening.absolute_nonneg hcheck) v

section
variable (p : MultiObjectiveProblem X)

theorem withObjective_size : 0 < p.withObjective.getObjectiveSize := by
  rw [withObjective]
  split
  · exact zero_lt_one
  · exact pos_of_ne_zero ‹_›

@[simp] theorem withObjective_region : p.withObjective.region = p.region := by
  rw [withObjective]
  split
  · rfl
  · rfl

@[simp] theorem withObjective_config : p.withObjective.higherPriObjConfig =
    p.higherPriObjConfig := by
  rw [withObjective]
  split
  · rfl
  · rfl

theorem solve_eq (a : SolveForObjective X) : p.solve a =
      let s := p.withObjective.iterate a (range p.withObjective.getObjectiveSize) ⟨[], []⟩
      (p.withObjective.saveFinalSolveStatus (s.rounds.map fun r => r.answer.status)).map
        fun status => ⟨status, s.rounds⟩ := by
  rw [solve]
  split
  · rename_i ho
    have hl : p.withObjective.iterate a (range 1) ⟨[], []⟩ =
        solveForObjectiveAndSaveResult a 0 ⟨[], []⟩ := by
      rw [range_succ, range_zero, nil_append, iterate, ho]
      split
      · rfl
      · rfl
    rw [ho, hl]
    rfl
  · rfl

def addedAfter (added : List ObjectiveBound) (pos : Nat) (x : X) : List ObjectiveBound :=
  if pos < p.getObjectiveSize - 1 then
    added ++ [⟨pos, p.allowedWorsenUntilValue pos (p.getObjectiveAt pos x)⟩]
  else added

end

inductive Run (p : MultiObjectiveProblem X) (solveAt : SolveForObjective X) :
    List Nat → List ObjectiveBound → List (SolveRound X) → Prop where
  | done (added : List ObjectiveBound) : Run p solveAt [] added []
  | stop (positions : List Nat) (hnone : (solveAt added pos).point = none) :
      Run p solveAt (pos :: positions) added [⟨pos, added, solveAt added pos⟩]
  | next (hpoint : (solveAt added pos).point = some x)
      (hrest : Run p solveAt positions (p.addedAfter added pos x) rounds) :
      Run p solveAt (pos :: positions) added (⟨pos, added, solveAt added pos⟩ :: rounds)

theorem iterate_run (p : MultiObjectiveProblem X) (a : SolveForObjective X)
    (ps : List Nat) : ∀ s, ∃ rounds, (p.iterate a ps s).rounds = s.rounds ++ rounds ∧
        p.Run a ps s.added rounds := by
  induction ps with
  | nil =>
    intro s
    exact ⟨[], (append_nil _).symm, .done _⟩
  | cons pos ps ih =>
    intro s
    rw [iterate]
    split
    · exact ⟨_, rfl, .stop _ ‹_›⟩
    · rename_i x hpoint
      split
      · rename_i hlt
        obtain ⟨rounds, heq, hr⟩ := ih (p.addNewConstraintForObjectiveAt pos x
          (solveForObjectiveAndSaveResult a pos s))
        refine ⟨_, heq.trans (append_assoc _ _ _), .next hpoint ?_⟩
        rw [addedAfter, if_pos hlt]
        exact hr
      · rename_i hge
        obtain ⟨rounds, heq, hr⟩ := ih (solveForObjectiveAndSaveResult a pos s)
        refine ⟨_, heq.trans (append_assoc _ _ _), .next hpoint ?_⟩
        rw [addedAfter, if_neg hge]
        exact hr

section
variable {X : Type} {p : MultiObjectiveProblem X} {a : SolveForObjective X}
  {ps : List Nat} {added : List ObjectiveBound} {rs : List (SolveRound X)}

section
variable (h : p.Run a ps added rs)
include h

theorem Run.nonempty (hne : ps ≠ []) : rs ≠ [] := by
  cases h with
  | done => exact absurd rfl hne
  | stop => exact cons_ne_nil _ _
  | next => exact cons_ne_nil _ _

theorem Run.length_le : rs.length ≤ ps.length := by
  induction h with
  | done => exact le_refl _
  | stop => exact succ_le_succ (zero_le _)
  | next _ _ ih => exact succ_le_succ ih

theorem Run.stopped : rs.length < ps.length → ∃ round ∈ rs, round.answer.point = none := by
  induction h with
  | done => exact fun hlt => absurd hlt (lt_irrefl _)
  | stop _ hnone => exact fun _ => ⟨_, mem_singleton_self _, hnone⟩
  | next _ _ ih =>
    intro hlt
    obtain ⟨round, hr, hnone⟩ := ih (lt_of_succ_lt_succ hlt)
    exact ⟨round, mem_cons_of_mem _ hr, hnone⟩

theorem Run.answered : ∀ r ∈ rs, r.answer = a r.added r.pos := by
  induction h with
  | done => exact nofun
  | stop =>
    intro r hr
    cases mem_singleton.mp hr
    rfl
  | next _ _ ih =>
    intro r hr
    rcases mem_cons.mp hr with rfl | hr
    · rfl
    · exact ih r hr

end

end

section
variable (p : MultiObjectiveProblem X)

theorem saveFinalSolveStatus_optimal (rs : List ProblemStatus)
    (hne : rs ≠ []) (hle : rs.length ≤ p.getObjectiveSize)
    (hlt : rs.length < p.getObjectiveSize → ∃ status ∈ rs, status ≠ .optimalFound) :
    ∃ status, p.saveFinalSolveStatus rs = .ok status ∧
      (status = .optimalFound ↔ ∀ r ∈ rs, r = .optimalFound) := by
  have ha : (∀ r ∈ rs, r = .optimalFound) ↔ rs.count .optimalFound = p.getObjectiveSize := by
    constructor
    · intro ha
      rw [count_eq_length.mpr fun r hr => (ha r hr).symm]
      apply le_antisymm hle
      by_contra hshort
      obtain ⟨status, hmem, hs⟩ := hlt (lt_of_not_ge hshort)
      exact hs (ha status hmem)
    · intro hc r hr
      have hl : rs.count .optimalFound = rs.length := le_antisymm count_le_length (hc ▸ hle)
      exact (List.count_eq_length.mp hl r hr).symm
  simp only [saveFinalSolveStatus, List.isEmpty_iff, hne, ↓reduceIte, List.count_pos_iff]
  split
  · rename_i hi
    exact ⟨_, rfl, nofun, fun h => (nomatch h _ hi)⟩
  · split
    · exact ⟨_, rfl, fun _ => ha.mpr ‹_›, fun _ => rfl⟩
    · split
      · exact ⟨_, rfl, nofun, fun h => absurd (ha.mp h) ‹_›⟩
      · exact ⟨_, rfl, nofun, fun h => absurd (ha.mp h) ‹_›⟩

theorem feasible_append (a : List ObjectiveBound) (pos : Nat)
    (v : ℚ) : p.feasible (a ++ [⟨pos, v⟩]) = {y ∈ p.feasible a | p.getObjectiveAt pos y ≤ v} := by
  ext y
  simp [feasible, or_imp, forall_and, and_assoc]

theorem feasible_nil : p.feasible [] = p.region := by
  ext y
  simp [feasible]

end

theorem Exact.found (h : p.Exact ⟨pos, a, a'⟩) (hne : (p.feasible a).Nonempty) :
    ∃ x, a' = .optimalFound x ∧ x ∈ p.feasible a ∧
      IsMinOn (p.getObjectiveAt pos) (p.feasible a) x := by
  cases a' with
  | optimalFound x => exact ⟨x, rfl, h⟩
  | solutionFound => cases h
  | solutionNotFound => cases h
  | noSolutionExists => exact absurd h hne.ne_empty

theorem Run.searched (hc : p.Checked) (h : p.Run s ps a' rs) : ∀ k m, ps = range' k (m + 1) →
      k + (m + 1) = p.getObjectiveSize → (∀ round ∈ rs, p.Exact round) → (p.feasible a').Nonempty →
      ∃ xs z, rs.map (fun round => round.answer) = xs.map Answer.optimalFound ∧
        Rounds (p.feasible a') (ps.map p.goalAt) xs z := by
  induction h with
  | done => exact nofun
  | stop _ hnone =>
    intro k m _ _ he hne
    obtain ⟨x, hx, _⟩ := (he _ (mem_singleton_self _)).found hne
    rw [hx] at hnone
    cases hnone
  | @next a' pos x ps rs hpoint hrest ih =>
    intro k m hp hsize he hne
    obtain ⟨x', hx', hmem, hmin⟩ := (he _ mem_cons_self).found hne
    have hxx' : x' = x := by
      rw [hx'] at hpoint
      exact Option.some.inj hpoint
    rw [hxx'] at hx' hmem hmin
    rw [range'_succ, cons.injEq] at hp
    obtain ⟨rfl, hp⟩ := hp
    cases m with
    | zero =>
      subst hp
      cases hrest
      exact ⟨[x], x, congrArg (fun a => [a]) hx', .last hmem hmin⟩
    | succ m =>
      have ha : p.addedAfter a' pos x =
          a' ++ [⟨pos, p.allowedWorsenUntilValue pos (p.getObjectiveAt pos x)⟩] := by
        rw [addedAfter, if_pos]
        omega
      rw [ha] at ih
      have hx : x ∈ p.feasible (a' ++
          [⟨pos, p.allowedWorsenUntilValue pos (p.getObjectiveAt pos x)⟩]) := by
        rw [feasible_append]
        exact ⟨hmem, hc.le_allowed pos _⟩
      obtain ⟨xs, z, hxs, hr⟩ := ih (pos + 1) m hp (by omega)
        (fun round hround => he round (mem_cons_of_mem _ hround)) ⟨x, hx⟩
      rw [feasible_append] at hr
      refine ⟨x :: xs, z, ?_, .next hmem hmin hr⟩
      rw [map_cons, hxs]
      exact congrArg (· :: _) hx'

theorem Run.infeasible (h : p.Run s ps a rs) (he : ∀ round ∈ rs, p.Exact round)
    (hem : p.feasible a = ∅) : rs.tail = [] := by
  cases h with
  | done => rfl
  | stop => rfl
  | @next _ pos x _ _ hpoint _ =>
    have hr := he _ mem_cons_self
    cases ha : s a pos with
    | optimalFound x =>
      rw [ha] at hr
      have hx := hr.1
      rw [hem] at hx
      cases hx
    | solutionFound =>
      rw [ha] at hr
      cases hr
    | solutionNotFound =>
      rw [ha] at hpoint
      cases hpoint
    | noSolutionExists =>
      rw [ha] at hpoint
      cases hpoint

theorem kept_iff (p : MultiObjectiveProblem X) (points : List X) (y : X) :
    Kept ((range p.getObjectiveSize).map p.goalAt) points y ↔ p.WithinAllowances points y := by
  rw [Kept, length_map, length_range]
  constructor
  · intro h pos x hp hx
    apply h pos (p.goalAt pos) x hp _ hx
    rw [getElem?_map, getElem?_range (lt_of_succ_lt hp), Option.map_some]
  · intro h pos g x hp hg hx
    rw [getElem?_map, getElem?_range (lt_of_succ_lt hp)] at hg
    cases hg
    exact h pos x hp hx

theorem map_goalAt (p : MultiObjectiveProblem X) (x : X) :
    ((range p.getObjectiveSize).map p.goalAt).map (fun g => g.value x) = p.objectiveValues x := by
  apply ext_getElem
  · rw [length_map, length_map, length_range, objectiveValues, length_map]
    rfl
  · intro i hi hi'
    rw [objectiveValues, length_map] at hi'
    simp [goalAt, getObjectiveAt, objectiveValues, hi']

theorem getLast_goalAt (h : 0 < p.getObjectiveSize) :
    ((range p.getObjectiveSize).map p.goalAt).getLast? =
      some (p.goalAt (p.getObjectiveSize - 1)) := by
  obtain ⟨n, hn⟩ := exists_eq_succ_of_ne_zero h.ne'
  rw [hn, range_succ, map_append, getLast?_append]
  rfl

theorem points_of_answers {rs : List (SolveRound X)}
    (h : rs.map (fun round => round.answer) = xs.map Answer.optimalFound) (status : ProblemStatus) :
    SolveOutcome.points ⟨status, rs⟩ = xs ∧ SolveOutcome.point ⟨status, rs⟩ = xs.getLast? ∧
      ∀ round ∈ rs, round.answer.status = .optimalFound := by
  refine ⟨?_, ?_, ?_⟩
  · have hp : SolveOutcome.points ⟨status, rs⟩ =
        (rs.map fun round => round.answer).filterMap Answer.point := by
      rw [filterMap_map]
      rfl
    rw [hp, h, filterMap_map]
    exact filterMap_some
  · have hpoint : SolveOutcome.point ⟨status, rs⟩ =
        (rs.map fun round => round.answer).getLast?.bind Answer.point := by
      rw [getLast?_map, Option.bind_map]
      rfl
    rw [hpoint, h, getLast?_map, Option.bind_map]
    exact Option.bind_fun_some _
  · intro round hr
    have hmem := mem_map_of_mem (f := fun round => round.answer) hr
    rw [h] at hmem
    obtain ⟨x, _, hx⟩ := mem_map.mp hmem
    rw [← hx]
    rfl

/-- The point is feasible, keeps to the allowances and is best for the last objective among such. -/
structure Best (p : MultiObjectiveProblem X) (points : List X) (x : X) : Prop where
  feasible : x ∈ p.region
  within : p.WithinAllowances points x
  last : ∀ y ∈ p.region, p.WithinAllowances points y →
    p.getObjectiveAt (p.getObjectiveSize - 1) x ≤ p.getObjectiveAt (p.getObjectiveSize - 1) y
  lexicographic : (∀ pos, p.allowedWorsening pos = none) →
    ∀ y ∈ p.region, p.objectiveValues x ≤ p.objectiveValues y

theorem Best.of_rounds (hs : 0 < p.getObjectiveSize)
    (h : Rounds p.region ((range p.getObjectiveSize).map p.goalAt) xs z) : p.Best xs z where
  feasible := h.mem
  within := (p.kept_iff xs z).mp h.kept
  last y hy hwithin := h.last_le _ (getLast_goalAt hs) y hy ((p.kept_iff xs y).mpr hwithin)
  lexicographic hnone y hy := by
    rw [← p.map_goalAt, ← p.map_goalAt]
    apply h.lex_le _ y hy
    intro g hg v
    obtain ⟨pos, _, rfl⟩ := mem_map.mp hg
    simp [goalAt, allowedWorsenUntilValue, hnone pos]

theorem Run.status (hsi : 0 < p.getObjectiveSize) (h : p.Run a (range p.getObjectiveSize) [] rs) :
    ∃ status, p.saveFinalSolveStatus (rs.map fun round => round.answer.status) = .ok status ∧
      (status = .optimalFound ↔ ∀ round ∈ rs, round.answer.status = .optimalFound) := by
  have hp : range p.getObjectiveSize ≠ [] := by
    rw [ne_eq, range_eq_nil]
    exact hsi.ne'
  have hl := h.length_le
  have hs := h.stopped
  rw [length_range] at hl hs
  simp only [← forall_mem_map (f := fun round : SolveRound X => round.answer.status)
    (P := fun status => status = .optimalFound)]
  apply saveFinalSolveStatus_optimal
  · intro hn
    exact h.nonempty hp (map_eq_nil_iff.mp hn)
  · rwa [length_map]
  · intro hlt
    rw [length_map] at hlt
    obtain ⟨round, hr, hnone⟩ := hs hlt
    exact ⟨_, mem_map_of_mem hr, Answer.status_ne_optimal hnone⟩

theorem Run.best (hc : p.Checked) (hsi : 0 < p.getObjectiveSize)
    (h : p.Run a (range p.getObjectiveSize) [] rs)
    (he : ∀ round ∈ rs, p.Exact round) (hne : p.region.Nonempty) (status : ProblemStatus) :
    (∀ round ∈ rs, round.answer.status = .optimalFound) ∧
      rs.length = p.getObjectiveSize ∧ ∃ x, SolveOutcome.point ⟨status, rs⟩ = some x ∧
        p.Best (SolveOutcome.points ⟨status, rs⟩) x := by
  obtain ⟨m, hm⟩ := exists_eq_succ_of_ne_zero hsi.ne'
  rw [← p.feasible_nil] at hne
  have hp : range p.getObjectiveSize = range' 0 (m + 1) := by
    rw [hm, range_eq_range']
  obtain ⟨xs, z, hxs, hs⟩ := h.searched hc 0 m hp (by omega) he hne
  rw [p.feasible_nil] at hs
  obtain ⟨hpoints, hpoint, hstatus⟩ := points_of_answers hxs status
  rw [hpoints, hpoint, hs.getLast_eq]
  refine ⟨hstatus, ?_, z, rfl, .of_rounds hsi hs⟩
  have hl := congrArg length hxs
  rw [length_map, length_map, hs.length_eq, length_map, length_range] at hl
  exact hl

section
variable (p : MultiObjectiveProblem X)

/-- If every round was exact, the solve ends with the point that is asked for. -/
theorem solve_best (solveAt : SolveForObjective X)
    (hchecked : p.Checked) : ∃ r, p.solve solveAt = .ok r ∧
      (r.status = .optimalFound ↔ ∀ round ∈ r.rounds, round.answer.status = .optimalFound) ∧
      ((∀ round ∈ r.rounds, p.withObjective.Exact round) →
        (∀ round ∈ r.rounds.tail, round.answer.status ≠ .noSolutionExists) ∧
        (p.region.Nonempty → r.rounds.length = p.withObjective.getObjectiveSize ∧
          ∃ x, r.point = some x ∧ p.withObjective.Best r.points x)) := by
  have hsize := p.withObjective_size
  have hc' : p.withObjective.Checked := by
    intro c hc
    rw [withObjective_config] at hc
    exact hchecked c hc
  rw [solve_eq, ← withObjective_region]
  generalize p.withObjective = q at hsize hc'
  obtain ⟨rounds, hrounds, hrun⟩ := q.iterate_run solveAt (range q.getObjectiveSize) ⟨[], []⟩
  rw [nil_append] at hrounds
  obtain ⟨status, hs, ho⟩ := hrun.status hsize
  refine ⟨⟨status, rounds⟩, ?_, ho, ?_⟩
  · simp only [hrounds, hs]
    rfl
  · intro he
    constructor
    · rcases q.region.eq_empty_or_nonempty with hempty | hne
      · rw [hrun.infeasible he (q.feasible_nil.trans hempty)]
        exact nofun
      · intro round hr
        rw [(hrun.best hc' hsize he hne status).1 round (mem_of_mem_tail hr)]
        exact nofun
    · intro hne
      exact (hrun.best hc' hsize he hne status).2

def solveByList (points : List X) : SolveForObjective X :=
  fun added pos =>
    let feasible := points.filter fun x =>
      added.all fun bound => p.getObjectiveAt bound.pos x - bound.allowedWorsenUntilValue ≤ 0
    match feasible.argmin (p.getObjectiveAt pos) with
    | some x => .optimalFound x
    | none => .noSolutionExists

theorem solveByList_exact (h : p.region = {x | x ∈ points}) (a : List ObjectiveBound) (pos : Nat) :
    p.Exact ⟨pos, a, p.solveByList points a pos⟩ := by
  have hmem : ∀ x, x ∈ p.feasible a ↔ x ∈ points.filter fun x =>
      a.all fun b => p.getObjectiveAt b.pos x - b.allowedWorsenUntilValue ≤ 0 := by
    intro x
    simp [feasible, h]
  cases ha : (points.filter fun x => a.all fun b =>
      p.getObjectiveAt b.pos x - b.allowedWorsenUntilValue ≤ 0).argmin (p.getObjectiveAt pos) with
  | some x =>
    have hanswer : p.solveByList points a pos = .optimalFound x := by
      rw [solveByList, ha]
    rw [hanswer]
    refine ⟨(hmem x).mpr (argmin_mem ha), ?_⟩
    intro y hy
    exact le_of_mem_argmin ((hmem y).mp hy) ha
  | none =>
    have hanswer : p.solveByList points a pos = .noSolutionExists := by
      rw [solveByList, ha]
    rw [argmin_eq_none] at ha
    rw [hanswer]
    apply Set.eq_empty_iff_forall_notMem.mpr
    intro x hx
    rw [hmem, ha] at hx
    cases hx

theorem solve_answered (h : p.solve a = .ok r) :
    ∀ r' ∈ r.rounds, r'.answer = a r'.added r'.pos := by
  rw [solve_eq] at h
  obtain ⟨rounds, hr, hrun⟩ := p.withObjective.iterate_run a
    (range p.withObjective.getObjectiveSize) ⟨[], []⟩
  simp only [hr, nil_append] at h
  cases hs : p.withObjective.saveFinalSolveStatus (rounds.map fun r' => r'.answer.status) with
  | error e =>
    rw [hs] at h
    cases h
  | ok s =>
    rw [hs] at h
    cases h
    exact hrun.answered

end

def threePoints : MultiObjectiveProblem (Fin 3) where
  region := {x | x ∈ finRange 3}
  objectives := [fun x => x.val, fun x => -x.val]
  higherPriObjConfig := some ⟨AList.singleton 0 ⟨0, 1, .max⟩⟩

theorem threePoints_best : threePoints.Checked ∧ ∃ r,
    threePoints.solve (threePoints.solveByList (finRange 3)) = .ok r ∧
      (∀ round ∈ r.rounds, threePoints.withObjective.Exact round) ∧ r.rounds.length = 2 ∧
      ∃ x, r.point = some x ∧ threePoints.Best r.points x := by
  have hc : threePoints.Checked := by
    intro c hconfig
    cases hconfig
    decide +kernel
  refine ⟨hc, ?_⟩
  obtain ⟨r, hr, _, he⟩ := threePoints.solve_best (threePoints.solveByList (finRange 3)) hc
  have ha : ∀ round ∈ r.rounds, threePoints.withObjective.Exact round := by
    intro round hround
    have he := threePoints.solveByList_exact rfl round.added round.pos
    rw [← threePoints.solve_answered hr round hround] at he
    exact he
  exact ⟨r, hr, ha, (he ha).2 ⟨0, mem_finRange 0⟩⟩

end MultiObjectiveProblem

end Rebalancer
