import Rebalancer.OptimalSolver

namespace Rebalancer
open GlobalObjective Orchestrator ProblemSetup GlobalObjectiveValue Bool

theorem GlobalObjectiveValue.isStrictlyBetter_ok (goal : GlobalObjective ν) (f f' : ν → ℚ)
    (p : PrecisionTolerances) :
    ∃ better, (goal.getValue f).isStrictlyBetter (goal.getValue f') p = .ok better := by
  have hsize : (goal.getValue f).size = (goal.getValue f').size := by
    rw [size, size, getValue, getValue, List.length_map, List.length_map]
  rw [isStrictlyBetter, hsize]
  split
  · exact ⟨false, rfl⟩
  · simp only [bne_self_eq_false, Bool.and_false, Bool.false_eq_true, if_false]
    exact ⟨_, rfl⟩

namespace ProblemSetup
open AssignmentState Orchestrator
variable {ν V T σ : Type} [DecidableEq ν] [DecidableEq V]

structure UpToDate (g : ExpressionGraph ν) (roots : List ν)
    (Corresponds : Table ObjectId ContainerId → ν → σ → Prop) (keys : IndexKeys)
    (s : ProblemState ν V σ) : Prop where
  consistent : s.assignment.Consistent keys
  corresponds : ∀ n, g.Reached roots n → Corresponds s.assignment.table n (s.store n)

omit [DecidableEq ν] [DecidableEq V] in
theorem UpToDate.congr {rs : List ν} (h : UpToDate g rs cs keys s)
    (ha : s'.assignment = s.assignment) (hs : s'.store = s.store) : UpToDate g rs cs keys s' := by
  refine ⟨?_, ?_⟩
  · rw [ha]
    exact h.consistent
  · rw [ha, hs]
    exact h.corresponds

structure Reverted (p : ProblemSetup ν V T σ) (s s' : ProblemState ν V σ) : Prop where
  table : s'.assignment.table = s.assignment.table
  values : ∀ n ∈ p.orchestrator.postOrder, p.exprs.value (s'.store n) = p.exprs.value (s.store n)

section
variable {p : ProblemSetup ν V T σ} {g : ExpressionGraph ν} {rs : List ν}
  {data : AffectedByChangeDecisionData} {fixedContainers : IdSet}
  {i : ν → Table ObjectId ContainerId → List V → V}
  {Corresponds : Table ObjectId ContainerId → ν → σ → Prop}
  (h : p.Correct g rs data fixedContainers i Corresponds)
include h

omit [DecidableEq V] in
theorem Correct.value_eq (hs : UpToDate g rs Corresponds keys s)
    (hn : n ∈ p.orchestrator.postOrder) :
    p.exprs.value (s.store n) = fromScratch g i s.assignment.table n := by
  have hr := (mem_postOrder_iff h.init).mp hn
  exact h.value _ n hr _ (hs.corresponds n hr)

omit [DecidableEq V] in
theorem Correct.reverted (hs : UpToDate g rs Corresponds keys s)
    (hs' : UpToDate g rs Corresponds keys s')
    (ht : s'.assignment.table = s.assignment.table) : p.Reverted s s' := by
  refine ⟨ht, ?_⟩
  intro n hn
  rw [h.value_eq hs' hn, h.value_eq hs hn, ht]

theorem Correct.apply (left : Interrupted ν V σ) {s : ProblemState ν V σ}
    (hs : UpToDate g rs Corresponds keys s) (hl : Leads s.assignment.table cs on') :
    ∃ s', UpToDate g rs Corresponds keys s' ∧ s'.assignment.table = on' ∧
      ((s.entityAttributesStore.Knows fun o => ∃ change ∈ cs.changes, change.object = o) ∧
          p.apply left cs s = .ok () s' ∨
        ¬ (s.entityAttributesStore.Knows fun o => ∃ change ∈ cs.changes, change.object = o) ∧
          ∃ e, p.apply left cs s = .error e s') := by
  obtain ⟨m, a, st, hm, ha, hst, hc, ht, -, hcorr⟩ := h.stages hs.consistent hs.corresponds hl
  rw [← ht] at hcorr
  have hk := s.entityAttributesStore.updateOnApply_ok_iff cs (p.world a st.store)
  cases hattributes : s.entityAttributesStore.updateOnApply (p.world a st.store) cs with
  | error e =>
    refine ⟨⟨a, st.store, left.attributes s.entityAttributesStore, s.fixedObjects⟩,
      ⟨hc, hcorr⟩, ht, .inr ⟨?_, e, ?_⟩⟩
    · rw [← hk, hattributes]
      exact nofun
    · simp [ProblemSetup.apply, hm, ha, hst, hattributes]
  | ok attributes =>
    refine ⟨p.maybeFixMovedObjects cs ⟨a, st.store, attributes, s.fixedObjects⟩, ?_, ?_,
      .inl ⟨hk.mp ⟨_, hattributes⟩, ?_⟩⟩
    · refine UpToDate.congr (s := ⟨a, st.store, attributes, s.fixedObjects⟩) ⟨hc, hcorr⟩ ?_ ?_
      · rw [maybeFixMovedObjects_assignment]
      · rw [maybeFixMovedObjects_store]
    · rw [maybeFixMovedObjects_assignment]
      exact ht
    · simp [ProblemSetup.apply, hm, ha, hst, hattributes]

theorem Correct.of_apply_ok (hs : UpToDate g rs Corresponds keys s)
    (hl : Leads s.assignment.table cs on') (hr : p.apply left cs s = .ok () s') :
    UpToDate g rs Corresponds keys s' ∧ s'.assignment.table = on' := by
  obtain ⟨s₁, hs₁, ht, ⟨-, hok⟩ | ⟨-, e, he⟩⟩ := h.apply left hs hl
  · rw [hr] at hok
    cases hok
    exact ⟨hs₁, ht⟩
  · rw [hr] at he
    cases he

end

end ProblemSetup

namespace OptimalSolver
open ProblemSetup Orchestrator
variable {ν T σ : Type} [DecidableEq ν]

def WithinAllowance (precision : PrecisionTolerances) (config : HigherPriorityObjectivesConfig)
    (oldValue newValue : GlobalObjectiveValue) : Prop :=
  ∀ i oldI newI, oldValue.values[i]? = some oldI → newValue.values[i]? = some newI →
    exceedsAllowance precision config i oldI newI = false

def StrictlyBetter (solver : OptimalSolver ν) (newValue oldValue : GlobalObjectiveValue) : Prop :=
  newValue.isStrictlyBetter oldValue solver.precision = .ok true

def allowances (solver : OptimalSolver ν) : HigherPriorityObjectivesConfig :=
  solver.higherPriorityObjConfig.getD ⟨∅⟩

/-- The changes are undone, or they are an improvement, or all positions are within the allowances.
-/
structure Acceptable (solver : OptimalSolver ν) (p : ProblemSetup ν ℚ T σ)
    (newValue : GlobalObjectiveValue) (s s' : ProblemState ν ℚ σ) : Prop where
  outcome : p.Reverted s s' ∨
    solver.StrictlyBetter (solver.objectiveValue p s') (solver.objectiveValue p s) ∨
    ∃ config, solver.higherPriorityObjConfig = some config ∧
      WithinAllowance solver.precision config (solver.objectiveValue p s)
        (solver.objectiveValue p s')
  worsened : ¬ solver.StrictlyBetter newValue (solver.objectiveValue p s) →
    ¬ WithinAllowance solver.precision solver.allowances (solver.objectiveValue p s) newValue →
    p.Reverted s s'

/-- If a configuration is set, the solution is not worse than the present one or stays within the
allowances. -/
def Allowed (solver : OptimalSolver ν) (oldValue newValue : GlobalObjectiveValue) : Prop :=
  ∀ config, solver.higherPriorityObjConfig = some config →
    solver.StrictlyBetter oldValue newValue → ¬ solver.StrictlyBetter newValue oldValue →
    WithinAllowance solver.precision config oldValue newValue

section
variable {solver : OptimalSolver ν} {p : ProblemSetup ν ℚ T σ} {g : ExpressionGraph ν}
  {roots : List ν} {data : AffectedByChangeDecisionData} {fs : IdSet}
  {innerFullApply : ν → Table ObjectId ContainerId → List ℚ → ℚ}
  {Corresponds : Table ObjectId ContainerId → ν → σ → Prop}

omit [DecidableEq ν] in
theorem Acceptable.of_reverted (h : p.Reverted s s')
    (v : GlobalObjectiveValue) : solver.Acceptable p v s s' :=
  ⟨.inl h, fun _ _ => h⟩

section
variable (ho : ∀ n ∈ solver.objective.objectives, n ∈ p.orchestrator.postOrder)
include ho

omit [DecidableEq ν] in
theorem objectiveValue_of_reverted
    (h : p.Reverted s s') : solver.objectiveValue p s' = solver.objectiveValue p s := by
  rw [objectiveValue, objectiveValue, getValue, getValue]
  congr 1
  apply List.map_congr_left
  intro n hn
  exact h.values n (ho n hn)

omit [DecidableEq ν] in
theorem acceptable_kept_iff
    (hn : ¬ solver.StrictlyBetter (solver.objectiveValue p s') (solver.objectiveValue p s))
    (hwo : solver.StrictlyBetter (solver.objectiveValue p s) (solver.objectiveValue p s'))
    (hc : solver.higherPriorityObjConfig = some c) :
    solver.Acceptable p (solver.objectiveValue p s') s s' ↔
      WithinAllowance solver.precision c (solver.objectiveValue p s)
        (solver.objectiveValue p s') := by
  have hk : ¬ p.Reverted s s' := by
    intro hr
    rw [objectiveValue_of_reverted ho hr] at hn hwo
    exact hn hwo
  refine ⟨?_, ?_⟩
  · intro ha
    rcases ha.outcome with hr | hb | ⟨c', hc', hw⟩
    · exact absurd hr hk
    · exact absurd hb hn
    · rw [hc] at hc'
      cases hc'
      exact hw
  · intro hw
    refine ⟨.inr (.inr ⟨c, hc, hw⟩), ?_⟩
    intro _ he
    rw [allowances, hc] at he
    exact absurd hw he

end

section
variable (solver : OptimalSolver ν) (p : ProblemSetup ν ℚ T σ)

omit [DecidableEq ν] in
theorem objectiveValue_size (s : ProblemState ν ℚ σ) :
    (solver.objectiveValue p s).size = solver.objective.objectives.length := by
  rw [objectiveValue, GlobalObjectiveValue.size, getValue, List.length_map]

omit [DecidableEq ν] in
theorem reverts_eq (s s' : ProblemState ν ℚ σ) : ∃ improved worsened,
    (solver.objectiveValue p s').isStrictlyBetter (solver.objectiveValue p s)
      solver.precision = .ok improved ∧
    (solver.objectiveValue p s).isStrictlyBetter (solver.objectiveValue p s')
      solver.precision = .ok worsened ∧
    solver.reverts (solver.objectiveValue p s) (solver.objectiveValue p s') =
      .ok (if !improved && !worsened then true
        else if worsened then solver.higherPriorityObjConfig.isNone else false) := by
  obtain ⟨improved, hi⟩ : ∃ improved,
      (solver.objectiveValue p s').isStrictlyBetter (solver.objectiveValue p s)
        solver.precision = .ok improved := isStrictlyBetter_ok ..
  obtain ⟨worsened, hw⟩ : ∃ worsened,
      (solver.objectiveValue p s).isStrictlyBetter (solver.objectiveValue p s')
        solver.precision = .ok worsened := isStrictlyBetter_ok ..
  refine ⟨improved, worsened, hi, hw, ?_⟩
  have hsize : (solver.objectiveValue p s').size = (solver.objectiveValue p s).size := by
    rw [objectiveValue_size, objectiveValue_size]
  rw [reverts, hi, except_ok_bind, hw, except_ok_bind, isWorse_eq solver _ _ hsize]
  split
  · rfl
  · split
    · rfl
    · rfl

end

section
variable {left : Interrupted ν ℚ σ} {s applied : ProblemState ν ℚ σ}
  (ha : p.apply left cs s = .ok () applied)
include ha

theorem applyChanges_kept (hv : solver.violationExceedsMaxTolerance p applied = false)
    (hr : solver.reverts (solver.objectiveValue p s) (solver.objectiveValue p applied) =
      .ok false) : solver.applyChanges p left cs s = .ok () applied := by
  simp [applyChanges, ha, hv, hr]

theorem applyChanges_violating (hv : solver.violationExceedsMaxTolerance p applied = true) :
    ∃ e, solver.applyChanges p left cs s = .error e applied := by
  simp only [applyChanges, ha, hv, if_true]
  exact ⟨_, rfl⟩

theorem applyChanges_undone (hv : solver.violationExceedsMaxTolerance p applied = false)
    (hva : p.exprs.value (s.store solver.constraint) ≤ solver.feasibilityTolerance)
    (hn : cs.empty = false)
    (hr : solver.reverts (solver.objectiveValue p s) (solver.objectiveValue p applied) = .ok true) :
    solver.applyChanges p left cs s = p.apply left (reverseChanges cs) applied := by
  simp [applyChanges, ha, hv, hva, hn, hr]

end

section
variable (h : p.Correct g roots data fs innerFullApply Corresponds)
include h

theorem objectiveValue_eq (ho : ∀ n ∈ solver.objective.objectives, n ∈ p.orchestrator.postOrder)
    (hs : UpToDate g roots Corresponds keys s) : solver.objectiveValue p s =
      solver.objective.getValue (fromScratch g innerFullApply s.assignment.table) := by
  rw [objectiveValue, getValue]
  congr 1
  apply List.map_congr_left
  intro n hn
  exact h.value_eq hs (ho n hn)

theorem applyChanges_cases (hs : UpToDate g roots Corresponds keys s)
    (hl : Leads s.assignment.table cs on')
    (hv : p.exprs.value (s.store solver.constraint) ≤ solver.feasibilityTolerance)
    (hrun : solver.applyChanges p left cs s = .ok () s') :
    ∃ applied, UpToDate g roots Corresponds keys applied ∧ applied.assignment.table = on' ∧
      (s' = applied ∧ (cs.changes = [] ∨
          solver.reverts (solver.objectiveValue p s) (solver.objectiveValue p applied) =
            .ok false) ∨
        solver.reverts (solver.objectiveValue p s) (solver.objectiveValue p applied) = .ok true ∧
          p.Reverted s s') := by
  rw [applyChanges, decide_eq_true hv] at hrun
  rw [Bool.true_and] at hrun
  split at hrun
  · cases hrun
  · rename_i applied happly
    obtain ⟨ha, ht⟩ := h.of_apply_ok hs hl happly
    refine ⟨applied, ha, ht, ?_⟩
    split at hrun
    · cases hrun
    · split at hrun
      · split at hrun
        · cases hrun
        · rename_i hr
          have hb : Leads applied.assignment.table (reverseChanges cs) s.assignment.table := by
            rw [ht]
            exact hl.inverse
          obtain ⟨hs', ht'⟩ := h.of_apply_ok ha hb hrun
          exact .inr ⟨hr, h.reverted hs hs' ht'⟩
        · rename_i hr
          cases hrun
          exact .inl ⟨rfl, .inr hr⟩
      · rename_i he
        cases hrun
        rw [not_eq_true', not_eq_false, ChangeSet.empty, List.isEmpty_iff] at he
        exact .inl ⟨rfl, .inl he⟩

/-- The changes are acceptable exactly if the configuration does not have to keep them out. -/
theorem applyChanges_acceptable_iff (hobjectives : ∀ n ∈ solver.objective.objectives,
    n ∈ p.orchestrator.postOrder)
    (left : Interrupted ν ℚ σ) (s s' : ProblemState ν ℚ σ) (keys : IndexKeys)
    (hs : UpToDate g roots Corresponds keys s) (changes : ChangeSet)
    (on' : Table ObjectId ContainerId) (hleads : Leads s.assignment.table changes on')
    (hvalid : p.exprs.value (s.store solver.constraint) ≤ solver.feasibilityTolerance)
    (hrun : solver.applyChanges p left changes s = .ok () s') :
    solver.Acceptable p (solver.objective.getValue (fromScratch g innerFullApply on')) s s' ↔
      solver.Allowed (solver.objectiveValue p s)
        (solver.objective.getValue (fromScratch g innerFullApply on')) := by
  obtain ⟨applied, ha, ht, hcases⟩ := applyChanges_cases h hs hleads hvalid hrun
  rw [← ht, ← objectiveValue_eq h hobjectives ha]
  obtain ⟨i, w, hi, hw, hreverts⟩ := reverts_eq solver p s applied
  rcases hcases with ⟨rfl, he | hk⟩ | ⟨hu, hr⟩
  · -- nothing has changed, so the objective is not worse than before
    have htables : s'.assignment.table = s.assignment.table := by
      rw [ht, hleads.after, he]
      rfl
    have hr := h.reverted hs ha htables
    refine iff_of_true (.of_reverted hr _) ?_
    intro c _ hworse hn
    rw [objectiveValue_of_reverted hobjectives hr] at hworse hn
    exact absurd hworse hn
  · rw [hreverts] at hk
    have hk := Except.ok.inj hk
    cases i with
    | true =>
      refine iff_of_true ⟨.inr (.inl hi), fun hn => absurd hi hn⟩ ?_
      intro c _ _ hn
      exact absurd hi hn
    | false =>
      cases w with
      | false => cases hk
      | true =>
        obtain ⟨c, hc⟩ := Option.ne_none_iff_exists'.mp
          (Option.isNone_eq_false_iff.mp hk |> Option.isSome_iff_ne_none.mp)
        have hn : ¬ solver.StrictlyBetter (solver.objectiveValue p s')
            (solver.objectiveValue p s) := by
          rw [StrictlyBetter, hi]
          exact nofun
        rw [acceptable_kept_iff hobjectives hn hw hc]
        refine ⟨?_, fun hallowed => hallowed c hc hw hn⟩
        intro hwithin c' hc' _ _
        rw [hc] at hc'
        cases hc'
        exact hwithin
  · refine iff_of_true (.of_reverted hr _) ?_
    intro c hc hworse hn
    rw [hreverts] at hu
    rw [StrictlyBetter, hw] at hworse
    cases hworse
    rw [hc] at hu
    cases i with
    | true => cases hu
    | false => cases hu

end

structure Undoes (solver : OptimalSolver ν) (p : ProblemSetup ν ℚ T σ) (g : ExpressionGraph ν)
    (innerFullApply : ν → Table ObjectId ContainerId → List ℚ → ℚ) (s : ProblemState ν ℚ σ)
    (on' : Table ObjectId ContainerId) : Prop where
  valid : p.exprs.value (s.store solver.constraint) ≤ solver.feasibilityTolerance
  known : s.entityAttributesStore.Knows fun o => on' o ≠ s.assignment.table o
  feasible : ∀ n ∈ solver.constraints,
    solver.exceedsMaxTolerance (fromScratch g innerFullApply on' n) = false
  reverts : solver.reverts (solver.objectiveValue p s)
    (solver.objective.getValue (fromScratch g innerFullApply on')) = .ok true

theorem applyChanges_table (solver : OptimalSolver ν)
    (h : p.Correct g roots data fs innerFullApply Corresponds)
    (ho : ∀ n ∈ solver.objective.objectives, n ∈ p.orchestrator.postOrder)
    (hco : ∀ n ∈ solver.constraints, n ∈ p.orchestrator.postOrder) (left : Interrupted ν ℚ σ)
    (hs : UpToDate g roots Corresponds keys s) (hl : Leads s.assignment.table cs on')
    (hob : ∀ o, (∃ change ∈ cs.changes, change.object = o) ↔ on' o ≠ s.assignment.table o) :
    ∃ s', UpToDate g roots Corresponds keys s' ∧ (solver.applyChanges p left cs s = .ok () s' ∨
        ∃ e, solver.applyChanges p left cs s = .error e s') ∧
      (solver.Undoes p g innerFullApply s on' → s'.assignment.table = s.assignment.table) ∧
      (¬ solver.Undoes p g innerFullApply s on' → s'.assignment.table = on') := by
  obtain ⟨a, ha, ht, hk⟩ := h.apply left hs hl
  simp only [hob] at hk
  rcases hk with ⟨hk, hok⟩ | ⟨hunknown, e, herror⟩
  · have hvalue := objectiveValue_eq h ho ha
    have hv : solver.violationExceedsMaxTolerance p a = false ↔ ∀ n ∈ solver.constraints,
          solver.exceedsMaxTolerance (fromScratch g innerFullApply on' n) = false := by
      rw [violationExceedsMaxTolerance, List.any_eq_false]
      refine forall₂_congr fun n hn => ?_
      rw [h.value_eq ha (hco n hn), ht, not_eq_true]
    rw [ht] at hvalue
    by_cases hu : solver.Undoes p g innerFullApply s on'
    · have hf := hv.mpr hu.feasible
      cases he : cs.empty with
      | true =>
        have hsame : on' = s.assignment.table := by
          rw [hl.after, List.isEmpty_iff.mp he]
          rfl
        refine ⟨a, ha, .inl ?_, fun _ => ht.trans hsame, absurd hu⟩
        simp [applyChanges, hok, hf, he]
      | false =>
        have hundone := applyChanges_undone hok hf hu.valid he (by rw [hvalue]; exact hu.reverts)
        have hb : Leads a.assignment.table (reverseChanges cs) s.assignment.table := by
          rw [ht]
          exact hl.inverse
        obtain ⟨s', hs', ht', hr⟩ := h.apply left ha hb
        refine ⟨s', hs', ?_, fun _ => ht', absurd hu⟩
        rw [hundone]
        exact hr.imp And.right And.right
    · refine ⟨a, ha, ?_, fun hundo => absurd hundo hu, fun _ => ht⟩
      simp only [applyChanges, hok]
      split
      · exact .inr ⟨_, rfl⟩
      · rename_i hf
        rw [not_eq_true] at hf
        split
        · rename_i hc
          obtain ⟨hvalid, -⟩ := and_eq_true_iff.mp hc
          split
          · exact .inr ⟨_, rfl⟩
          · rename_i hundone
            rw [hvalue] at hundone
            exact absurd ⟨decide_eq_true_iff.mp hvalid, hk, hv.mp hf, hundone⟩ hu
          · exact .inl rfl
        · exact .inl rfl
  · refine ⟨a, ha, .inr ⟨e, ?_⟩, fun hu => absurd hu.known hunknown, fun _ => ht⟩
    simp [applyChanges, herror]

end

end OptimalSolver

def placedGraph : ExpressionGraph (Fin 2) where
  children _ := []
  children_nodup _ := List.nodup_nil
  depth _ := 0
  depth_lt _ _ h := absurd h List.not_mem_nil
  isAffectedByChange _ _ := some (.ofAllChanges true)
  directlyAffectedContainers _ := none

def placedValue (n : Fin 2) (on : Table ObjectId ContainerId) : ℚ :=
  if n = 0 ∧ on 0 = some 1 then 1 else 0

def placedApply : ApplyExpressions (Fin 2) ℚ Unit ℚ (Table ObjectId ContainerId) where
  value s := s
  partialApply n _ on _ store := (placedValue n on, Function.update store n (placedValue n on))
  nested _ := []

theorem placed_correct (h : init placedGraph [0, 1] ⟨2, 2⟩ .empty = .ok o) (o' : Bool) :
    Correct ⟨o, placedApply, o'⟩ placedGraph [0, 1] ⟨2, 2⟩ .empty
      (fun n on _ => placedValue n on) fun on n s => s = placedValue n on := by
  refine ⟨h, ?_, ?_⟩
  · intro on n _ s hs
    rw [hs]
    rfl
  · intro on cs on' hl
    refine ⟨?_, ?_, ?_⟩
    · intro n _ hno
      refine absurd (.inl ?_) hno
      change 0 < if shouldDedupeLeaves (some cs) then min 1 1 else 1
      split <;> decide
    · intro n _ view store _ _
      refine ⟨rfl, Function.update_self .., ?_⟩
      intro m hm
      exact Function.update_of_ne hm ..
    · intro n _ _ view store _ hstore
      exact Prod.ext rfl (Function.update_eq_self_iff.mpr hstore.symm)

def placedAtZero : ProblemState (Fin 2) ℚ ℚ where
  assignment := .new twoOnZero .empty
  store _ := 0
  entityAttributesStore := ∅
  fixedObjects := .empty

theorem moveToOne_leads : Leads placedAtZero.assignment.table (moveToOne 0)
    (moveAll placedAtZero.assignment.table (moveToOne 0).changes) := by
  refine ⟨(MoveSet.fromChangeSet_ok_iff _).mp ⟨_, rfl⟩, ?_, rfl⟩
  decide

def placedSolver : OptimalSolver (Fin 2) where
  precision := defaultTolerances
  feasibilityTolerance := 0
  objective := ⟨[0]⟩
  constraint := 1
  constraints := []
  higherPriorityObjConfig := some ⟨∅⟩

theorem placedAtZero_upToDate : UpToDate placedGraph [0, 1]
    (fun on n s => s = placedValue n on) (fun _ => none) placedAtZero := by
  refine ⟨AssignmentState.new_consistent _ _, ?_⟩
  intro n _
  have hon : placedAtZero.assignment.table 0 = some 0 := rfl
  rw [placedValue, if_neg (fun h => absurd h.2 (by decide))]
  rfl

def uncheckedSolver : OptimalSolver (Fin 2) := { placedSolver with higherPriorityObjConfig := none }

theorem OptimalSolver.uncheckedSolver_applyChanges
    (h : init placedGraph [0, 1] ⟨2, 2⟩ .empty = .ok o) : ∃ s', uncheckedSolver.applyChanges
      ⟨o, placedApply, false⟩ ⟨id, id, id⟩ (moveToOne 0) placedAtZero = .ok () s' := by
  cases h
  refine ⟨_, (applyChanges_undone rfl ?_ ?_ ?_ ?_).trans rfl⟩
  · rfl
  · decide +kernel
  · rfl
  · decide +kernel

theorem OptimalSolver.worsened_undone : ∃ o, init placedGraph [0, 1] ⟨2, 2⟩ .empty = .ok o ∧
      let p : ProblemSetup (Fin 2) ℚ Unit ℚ := ⟨o, placedApply, false⟩
      ∃ s', uncheckedSolver.applyChanges p ⟨id, id, id⟩ (moveToOne 0) placedAtZero = .ok () s' ∧
        uncheckedSolver.Acceptable p (uncheckedSolver.objective.getValue (fromScratch placedGraph
          (fun n on _ => placedValue n on)
          (moveAll placedAtZero.assignment.table (moveToOne 0).changes))) placedAtZero s' := by
  obtain ⟨s', hr⟩ := uncheckedSolver_applyChanges rfl
  refine ⟨_, rfl, _, hr, ?_⟩
  refine (applyChanges_acceptable_iff (placed_correct rfl false) ?_ ⟨id, id, id⟩ placedAtZero _ _
    placedAtZero_upToDate (moveToOne 0) _ moveToOne_leads ?_ hr).mpr ?_
  · decide +kernel
  · decide +kernel
  · exact nofun

/-- The objective goes from 0 to 1, which no allowance covers, and the changes are kept. -/
theorem OptimalSolver.worsened_kept : ∃ o, init placedGraph [0, 1] ⟨2, 2⟩ .empty = .ok o ∧
      let p : ProblemSetup (Fin 2) ℚ Unit ℚ := ⟨o, placedApply, false⟩
      p.exprs.value (placedAtZero.store placedSolver.constraint) ≤
        placedSolver.feasibilityTolerance ∧
      ∃ s', placedSolver.applyChanges p ⟨id, id, id⟩ (moveToOne 0) placedAtZero = .ok () s' ∧
        placedSolver.objectiveValue p placedAtZero = ⟨[0], none⟩ ∧
        placedSolver.objectiveValue p s' = ⟨[1], none⟩ ∧
        ∀ n, ¬ placedSolver.Acceptable p n placedAtZero s' := by
  refine ⟨_, rfl, ?_, _, applyChanges_kept rfl ?_ ?_, ?_, ?_, ?_⟩
  · decide +kernel
  · rfl
  · decide +kernel
  · decide +kernel
  · decide +kernel
  · intro n h
    rcases h.outcome with hr | hb | ⟨c, hc, hw⟩
    · have hvalue := hr.values 0 (by decide +kernel)
      revert hvalue
      decide +kernel
    · rw [StrictlyBetter] at hb
      revert hb
      decide +kernel
    · cases hc
      have he := hw 0 0 1 rfl (by decide +kernel)
      revert he
      decide +kernel

end Rebalancer
