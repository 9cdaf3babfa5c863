import Rebalancer.OptimalSolverApply
import Rebalancer.SolutionChanges

namespace Rebalancer
open AssignmentState Orchestrator

/-- Where the solution places the objects, what is left of a step that throws, and the summaries. -/
structure InnerSolve (ν σ : Type) where
  newAssignment : Except String (Option (AssocMap ObjectId ContainerId))
  left : Interrupted ν ℚ σ
  log : ProblemState ν ℚ σ → Except String Unit

def InnerSolve.createChanges (inner : InnerSolve ν σ) (assignment : AssignmentState) :
    Except String ChangeSet := do
  match ← inner.newAssignment with
  | none => .ok .new
  | some newAssignment => assignment.changesTo newAssignment

def OptimalSolver.solve [DecidableEq ν] (solver : OptimalSolver ν) (p : ProblemSetup ν ℚ T σ)
    (inner : InnerSolve ν σ) : EStateM String (ProblemState ν ℚ σ) Unit := fun s =>
  match inner.createChanges s.assignment with
  | .error e => .error e s
  | .ok changes =>
    match solver.applyChanges p inner.left changes s with
    | .error e s => .error e s
    | .ok () s =>
      match inner.log s with
      | .error e => .error e s
      | .ok () => .ok () s

structure OptimalSubsetSolver (ν : Type) where
  optimal : OptimalSolver ν
  maxSubsetRuns : Int
  maxSubproblemErrors : Int
  regrettableMoves : AssocMap ObjectId ContainerId

structure SubsetState (ν σ : Type) where
  problem : ProblemState ν ℚ σ
  iter : Int
  subProblemErrorCt : Int

namespace OptimalSubsetSolver
variable {ν T σ : Type} [DecidableEq ν]

omit [DecidableEq ν] in
section
variable (configs : OptimalSubsetSolver ν)

def regrettableChanges (assignment : AssignmentState) : Except String ChangeSet := do
  let moves := configs.regrettableMoves.entries.filter fun move => assignment.isDynamic move.1
  let rs ← moves.mapM fun move => do
    let srcContainerId ← assignment.getContainer move.1
    .ok (⟨move.1, srcContainerId, move.2⟩ : Relocation)
  .ok (rs.foldl Relocation.insert .new)

variable (p : ProblemSetup ν ℚ T σ)

def applyRegrettable
    (left : Interrupted ν ℚ σ) : EStateM String (ProblemState ν ℚ σ) Unit := fun s =>
  match configs.regrettableChanges s.assignment with
  | .error e => .error e s
  | .ok changes => if changes.empty then .ok () s else p.apply left changes s

def iterate (inner : InnerSolve ν σ) : EStateM String (SubsetState ν σ) Unit := fun s =>
  match configs.optimal.solve p inner s.problem with
  | .ok () problem => .ok () { s with problem, iter := s.iter + 1 }
  | .error e problem =>
    let s := { s with problem, subProblemErrorCt := s.subProblemErrorCt + 1 }
    if configs.maxSubproblemErrors < s.subProblemErrorCt then .error e s else .ok () s

end

def loop (configs : OptimalSubsetSolver ν) (p : ProblemSetup ν ℚ T σ) :
    List (InnerSolve ν σ) → EStateM String (SubsetState ν σ) Unit
  | [] => fun s => .ok () s
  | inner :: inners => fun s =>
    if configs.maxSubsetRuns = 0 ∨ s.iter ≤ configs.maxSubsetRuns then
      match configs.iterate p inner s with
      | .error e s => .error e s
      | .ok () s => configs.loop p inners s
    else .ok () s

def solve (configs : OptimalSubsetSolver ν) (p : ProblemSetup ν ℚ T σ) (left : Interrupted ν ℚ σ)
    (inners : List (InnerSolve ν σ)) (problem : ProblemState ν ℚ σ) :
    EStateM.Result String (SubsetState ν σ) Unit :=
  match configs.applyRegrettable p left problem with
  | .error e problem => .error e ⟨problem, 1, 0⟩
  | .ok () problem => configs.loop p inners ⟨problem, 1, 0⟩

end OptimalSubsetSolver

structure InnerSolve.Relocates (inner : InnerSolve ν σ) (on on' : Table ObjectId ContainerId) :
    Prop where
  places : ∃ newAssignment, inner.newAssignment = .ok (some newAssignment) ∧
    (∀ o c, on o = some c → o ∈ newAssignment) ∧
    ∀ o, on' o = (on o).bind fun _ => newAssignment.lookup o
  elsewhere : on' ≠ on

theorem Leads.none (on : Table ObjectId ContainerId) : Leads on .new on :=
  ⟨(MoveSet.fromChangeSet_ok_iff _).mp ⟨_, rfl⟩, nofun, rfl⟩

theorem InnerSolve.createChanges_cases (i : InnerSolve ν σ) (h : a.Consistent keys) :
    (∃ e, i.createChanges a = .error e ∧ ∀ on', ¬ i.Relocates a.table on') ∨
      ∃ changes on', i.createChanges a = .ok changes ∧ Leads a.table changes on' ∧
        (∀ o, (∃ change ∈ changes.changes, change.object = o) ↔ on' o ≠ a.table o) ∧
        ∀ on'', i.Relocates a.table on'' ↔ on'' = on' ∧ on' ≠ a.table := by
  cases hn : i.newAssignment with
  | error e =>
    refine .inl ⟨e, ?_, ?_⟩
    · rw [createChanges, hn]
      rfl
    · intro on' hr
      obtain ⟨newAssignment, hs, -, -⟩ := hr.places
      rw [hn] at hs
      cases hs
  | ok f =>
    cases f with
    | none =>
      refine .inr ⟨.new, a.table, ?_, .none _, ?_, ?_⟩
      · rw [createChanges, hn]
        rfl
      · intro o
        exact iff_of_false (fun hex => (nomatch hex.choose_spec.1)) (not_not.mpr rfl)
      · intro on''
        refine iff_of_false ?_ fun hne => hne.2 rfl
        intro hr
        obtain ⟨newAssignment, hs, -, -⟩ := hr.places
        rw [hn] at hs
        cases hs
    | some newAssignment =>
      have heq : i.createChanges a = a.changesTo newAssignment := by
        rw [createChanges, hn]
        rfl
      rw [heq]
      cases hchanges : a.changesTo newAssignment with
      | error e =>
        refine .inl ⟨e, rfl, ?_⟩
        intro on' hr
        obtain ⟨n', hs, hp, -⟩ := hr.places
        rw [hn] at hs
        cases hs
        obtain ⟨cs, hcs⟩ := changesTo_ok h hp
        rw [hchanges] at hcs
        cases hcs
      | ok changes =>
        refine .inr ⟨changes, _, rfl, changesTo_leads h hchanges, changesTo_objects h hchanges, ?_⟩
        intro on''
        constructor
        · intro hr
          obtain ⟨n', hs, -, hon''⟩ := hr.places
          rw [hn] at hs
          cases hs
          have heq := funext hon''
          exact ⟨heq, heq ▸ hr.elsewhere⟩
        · intro hon''
          obtain ⟨rfl, hne⟩ := hon''
          refine ⟨⟨newAssignment, hn, ?_, fun _ => rfl⟩, hne⟩
          intro o c hc
          exact placed_of_changesTo h hchanges hc

section
open ProblemSetup
variable {ν T σ : Type} [DecidableEq ν]
  {p : ProblemSetup ν ℚ T σ} {g : ExpressionGraph ν} {roots : List ν}
  {data : AffectedByChangeDecisionData} {fs : IdSet}
  {innerFullApply : ν → Table ObjectId ContainerId → List ℚ → ℚ}
  {Corresponds : Table ObjectId ContainerId → ν → σ → Prop}

theorem OptimalSolver.solve_of_applyChanges {solver : OptimalSolver ν}
    (hc : i.createChanges s.assignment = .ok cs)
    (hr : solver.applyChanges p i.left cs s = .ok () s' ∨
      ∃ e, solver.applyChanges p i.left cs s = .error e s') :
    solver.solve p i s = .ok () s' ∨ ∃ e, solver.solve p i s = .error e s' := by
  rcases hr with hr | ⟨e, hr⟩
  · cases hl : i.log s' with
    | error e =>
      refine .inr ⟨e, ?_⟩
      simp [solve, hc, hr, hl]
    | ok _ =>
      refine .inl ?_
      simp [solve, hc, hr, hl]
  · refine .inr ⟨e, ?_⟩
    simp [solve, hc, hr]

theorem OptimalSolver.solve_table (solver : OptimalSolver ν)
    (h : p.Correct g roots data fs innerFullApply Corresponds)
    (ho : ∀ n ∈ solver.objective.objectives, n ∈ p.orchestrator.postOrder)
    (hco : ∀ n ∈ solver.constraints, n ∈ p.orchestrator.postOrder) (i : InnerSolve ν σ)
    {s : ProblemState ν ℚ σ} (hs : UpToDate g roots Corresponds keys s) :
    ∃ s', UpToDate g roots Corresponds keys s' ∧
      (solver.solve p i s = .ok () s' ∨ ∃ e, solver.solve p i s = .error e s') ∧
      (s'.assignment.table = s.assignment.table ↔ ∀ on',
        i.Relocates s.assignment.table on' → solver.Undoes p g innerFullApply s on') := by
  rcases i.createChanges_cases hs.consistent with
    ⟨e, he, hnone⟩ | ⟨changes, on', hc, hl, hobjects, hr⟩
  · refine ⟨s, hs, .inr ⟨e, ?_⟩, iff_of_true rfl fun on' hon' => absurd hon' (hnone on')⟩
    simp [solve, he]
  · obtain ⟨s', hs', hrun, hundone, hk⟩ := applyChanges_table solver h ho hco i.left hs hl hobjects
    refine ⟨s', hs', solve_of_applyChanges hc hrun, ?_⟩
    constructor
    · intro ht on'' hon''
      obtain ⟨rfl, hne⟩ := (hr on'').mp hon''
      by_contra hu
      exact hne ((hk hu).symm.trans ht)
    · intro ha
      by_cases hu : solver.Undoes p g innerFullApply s on'
      · exact hundone hu
      · by_contra hne
        rw [hk hu] at hne
        exact hu (ha on' ((hr on').mpr ⟨rfl, hne⟩))

namespace OptimalSubsetSolver
variable {configs : OptimalSubsetSolver ν}

omit [DecidableEq ν] in
theorem regrettableChanges_leads
    (hc : configs.regrettableChanges a = .ok cs) : ∃ on', Leads a.table cs on' := by
  obtain ⟨rs, hrs, hcs⟩ := except_bind_ok hc
  cases hcs
  obtain ⟨k, rfl, hk⟩ := exists_map_of_mapM_ok hrs
  have hspec : ∀ move ∈ configs.regrettableMoves.entries.filter fun move => a.isDynamic move.1,
      (k move).object = move.1 ∧ a.table move.1 = some (k move).fromContainer := by
    intro move hm
    obtain ⟨src, hs, heq⟩ := except_bind_ok (hk move hm)
    rw [← Except.ok.inj heq]
    exact ⟨rfl, AssocMap.of_fetch_ok hs⟩
  have hnodup : ((configs.regrettableMoves.entries.filter fun move => a.isDynamic move.1).map
      fun move => (k move).object).Nodup := by
    rw [List.map_congr_left fun move hm => (hspec move hm).1]
    exact (List.filter_sublist.map _).nodup configs.regrettableMoves.nodupKeys
  obtain ⟨on', hl, -, -⟩ := Relocation.leads a.table (by rw [List.map_map]; exact hnodup) (by
      intro r hr
      obtain ⟨move, hm, rfl⟩ := List.mem_map.mp hr
      rw [(hspec move hm).1]
      exact (hspec move hm).2) _ (Relocation.foldl_insert _ .new)
  exact ⟨on', hl⟩

section
variable (h : p.Correct g roots data fs innerFullApply Corresponds)
include h

theorem applyRegrettable_upToDate (hs : UpToDate g roots Corresponds keys s)
    (hr : configs.applyRegrettable p left s = .ok () s') :
    UpToDate g roots Corresponds keys s' := by
  rw [applyRegrettable] at hr
  split at hr
  · cases hr
  · rename_i c hc
    split at hr
    · cases hr
      exact hs
    · obtain ⟨on', hl⟩ := regrettableChanges_leads hc
      exact (h.of_apply_ok hs hl hr).1

variable (hobjectives : ∀ n ∈ configs.optimal.objective.objectives, n ∈ p.orchestrator.postOrder)
  (hconstraints : ∀ n ∈ configs.optimal.constraints, n ∈ p.orchestrator.postOrder)
include hobjectives hconstraints

theorem iterate_upToDate (hs : UpToDate g roots Corresponds keys s.problem)
    (hr : configs.iterate p i s = .ok () s') : UpToDate g roots Corresponds keys s'.problem := by
  obtain ⟨problem, hp, hsolve, -⟩ := configs.optimal.solve_table h hobjectives hconstraints i hs
  rcases hsolve with hsolve | ⟨e, hsolve⟩
  · simp only [iterate, hsolve] at hr
    cases hr
    exact hp
  · simp only [iterate, hsolve] at hr
    split at hr
    · cases hr
    · cases hr
      exact hp

theorem loop_upToDate (is : List (InnerSolve ν σ)) : ∀ {s s' : SubsetState ν σ},
    UpToDate g roots Corresponds keys s.problem → configs.loop p is s = .ok () s' →
      UpToDate g roots Corresponds keys s'.problem := by
  induction is with
  | nil =>
    intro s s' hs hr
    cases hr
    exact hs
  | cons i is ih =>
    intro s s' hs hr
    simp only [loop] at hr
    split at hr
    · split at hr
      · cases hr
      · rename_i s₁ hi
        exact ih (iterate_upToDate h hobjectives hconstraints hs hi) hr
    · cases hr
      exact hs

theorem solve_upToDate (hs : UpToDate g roots Corresponds keys p')
    (hr : configs.solve p left is p' = .ok () s) : UpToDate g roots Corresponds keys s.problem := by
  rw [solve] at hr
  split at hr
  · cases hr
  · rename_i prepared hp
    have hp := applyRegrettable_upToDate h hs hp
    exact loop_upToDate h hobjectives hconstraints is hp hr

/-- A swallowed exception leaves everything as it was exactly if relocated objects are moved back.
-/
theorem swallowed_unchanged_iff (left : Interrupted ν ℚ σ) (problem : ProblemState ν ℚ σ)
    (keys : IndexKeys) (hstart : UpToDate g roots Corresponds keys problem)
    (inners : List (InnerSolve ν σ)) (s : SubsetState ν σ)
    (hrun : configs.solve p left inners problem = .ok () s) (inner : InnerSolve ν σ) (e : String)
    (thrown : ProblemState ν ℚ σ)
    (hthrows : configs.optimal.solve p inner s.problem = .error e thrown)
    (s' : SubsetState ν σ) (hswallowed : configs.iterate p inner s = .ok () s') :
    p.Reverted s.problem s'.problem ↔ ∀ on', inner.Relocates s.problem.assignment.table on' →
        configs.optimal.Undoes p g innerFullApply s.problem on' := by
  have hs := solve_upToDate h hobjectives hconstraints hstart hrun
  obtain ⟨after, hafter, hsolve, ht⟩ := configs.optimal.solve_table h hobjectives hconstraints
    inner hs
  have ha : s'.problem = after := by
    rcases hsolve with hsolve | ⟨e', hsolve⟩
    · rw [hsolve] at hthrows
      cases hthrows
    · simp only [iterate, hsolve] at hswallowed
      split at hswallowed
      · cases hswallowed
      · cases hswallowed
        rfl
  rw [ha, ← ht]
  exact ⟨Reverted.table, h.reverted hs hafter⟩

end

end OptimalSubsetSolver

end

def forbiddingSolver : OptimalSubsetSolver (Fin 2) where
  optimal := { placedSolver with
    objective := ⟨[1]⟩, constraint := 0, constraints := [0], higherPriorityObjConfig := none }
  maxSubsetRuns := 1
  maxSubproblemErrors := 1
  regrettableMoves := ∅

theorem OptimalSubsetSolver.iterate_swallows [DecidableEq ν] {configs : OptimalSubsetSolver ν}
    {inner : InnerSolve ν σ} (hs : configs.optimal.solve p inner s.problem = .error e problem)
    (hf : s.subProblemErrorCt + 1 ≤ configs.maxSubproblemErrors) : configs.iterate p inner s =
      .ok () { s with problem, subProblemErrorCt := s.subProblemErrorCt + 1 } := by
  simp only [iterate, hs, if_neg (not_lt.mpr hf)]

def uncheckedSubsetSolver : OptimalSubsetSolver (Fin 2) :=
  { forbiddingSolver with optimal := uncheckedSolver }

/-- The solution moves object 0 to container 1. -/
def violatingSolve : InnerSolve (Fin 2) ℚ :=
  ⟨.ok (some [⟨0, 1⟩, ⟨1, 0⟩].toAList), ⟨id, id, id⟩, fun _ => .ok ()⟩

def unloggedSolve : InnerSolve (Fin 2) ℚ :=
  { violatingSolve with log := fun _ => .error "cannot log" }

/-- The worse solution is applied and moved back before the throw. -/
theorem OptimalSubsetSolver.unlogged_unchanged :
    ∃ o, init placedGraph [0, 1] ⟨2, 2⟩ .empty = .ok o ∧
      let p : ProblemSetup (Fin 2) ℚ Unit ℚ := ⟨o, placedApply, false⟩
      ∃ s', uncheckedSubsetSolver.iterate p unloggedSolve ⟨placedAtZero, 1, 0⟩ = .ok () s' ∧
        p.Reverted placedAtZero s'.problem := by
  obtain ⟨o, ho⟩ : ∃ o, init placedGraph [0, 1] ⟨2, 2⟩ .empty = .ok o := ⟨_, rfl⟩
  have hmem (n : Fin 2) : n ∈ o.postOrder :=
    (mem_postOrder_iff ho).mpr ⟨n, by revert n; decide, .refl⟩
  obtain ⟨s', ha⟩ := OptimalSolver.uncheckedSolver_applyChanges ho
  have hc : unloggedSolve.createChanges placedAtZero.assignment = .ok (moveToOne 0) := rfl
  have ht : uncheckedSubsetSolver.optimal.solve ⟨o, placedApply, false⟩ unloggedSolve
      placedAtZero = .error "cannot log" s' := by
    rw [OptimalSolver.solve, hc]
    dsimp only
    rw [show uncheckedSubsetSolver.optimal.applyChanges _ unloggedSolve.left _ _ = _ from ha]
    rfl
  have hs := iterate_swallows (s := ⟨placedAtZero, 1, 0⟩) ht (by decide)
  refine ⟨o, ho, _, hs, ?_⟩
  refine (swallowed_unchanged_iff (placed_correct ho false) (fun n _ => hmem n)
    (fun n _ => hmem n) ⟨id, id, id⟩ placedAtZero _ placedAtZero_upToDate [] ⟨placedAtZero, 1, 0⟩
    rfl unloggedSolve _ _ ht _ hs).mpr ?_
  intro on' hr
  obtain ⟨⟨a, hsome, -, hon⟩, -⟩ := hr
  cases hsome
  have hzero : on' 0 = some 1 := hon 0
  have hvalue : placedValue 0 on' = 1 := if_pos ⟨rfl, hzero⟩
  constructor
  · exact le_refl (0 : ℚ)
  · rintro name a ⟨⟩
  · rintro n ⟨⟩
  · change uncheckedSolver.reverts ⟨[0], none⟩ ⟨[placedValue 0 on'], none⟩ = _
    rw [hvalue]
    decide +kernel

theorem placed_apply : ∃ o, init placedGraph [0, 1] ⟨2, 2⟩ .empty = .ok o ∧
    let p : ProblemSetup (Fin 2) ℚ Unit ℚ := ⟨o, placedApply, false⟩
    ∃ a, p.apply ⟨id, id, id⟩ (moveToOne 0) placedAtZero = .ok () a ∧
      a.assignment.table 0 = some 1 ∧ a.store 0 = 1 := by
  refine ⟨_, rfl, _, rfl, rfl, ?_⟩
  decide +kernel

/-- The solution breaks the constraint and is ignored, but object 0 has been moved. -/
theorem OptimalSubsetSolver.violating_solution_stays :
    ∃ o, init placedGraph [0, 1] ⟨2, 2⟩ .empty = .ok o ∧
      let p : ProblemSetup (Fin 2) ℚ Unit ℚ := ⟨o, placedApply, false⟩
      ∃ e t s', forbiddingSolver.optimal.solve p violatingSolve placedAtZero = .error e t ∧
        forbiddingSolver.iterate p violatingSolve ⟨placedAtZero, 1, 0⟩ = .ok () s' ∧
        placedAtZero.assignment.table 0 = some 0 ∧ s'.problem.assignment.table 0 = some 1 ∧
        p.exprs.value (placedAtZero.store 0) = 0 ∧ p.exprs.value (s'.problem.store 0) = 1 := by
  obtain ⟨o, ho, applied, ha, ht, hvalue⟩ := placed_apply
  have hv : forbiddingSolver.optimal.violationExceedsMaxTolerance
      ⟨o, placedApply, false⟩ applied = true := by
    change (forbiddingSolver.optimal.exceedsMaxTolerance (applied.store 0) || false) = true
    rw [hvalue]
    decide +kernel
  obtain ⟨e, he⟩ := OptimalSolver.applyChanges_violating ha hv
  have hc : violatingSolve.createChanges placedAtZero.assignment = .ok (moveToOne 0) := rfl
  have hs : forbiddingSolver.optimal.solve ⟨o, placedApply, false⟩ violatingSolve
      placedAtZero = .error e applied := by
    simp only [OptimalSolver.solve, hc]
    rw [show violatingSolve.left = ⟨id, id, id⟩ from rfl, he]
  refine ⟨o, ho, e, applied, _, hs, iterate_swallows hs (by decide), rfl, ht, rfl, hvalue⟩

end Rebalancer
