import Rebalancer.ShortCircuit

namespace Rebalancer
open List LocalSearchObjectiveValue MovesEvaluator Assignment Bool Except

variable {ν S C : Type}

/-- In every state of `Reach` the stored values are those of the assignment, and legal moves keep it
so. -/
structure Problem.Exact (problem : Problem ν S C) (nodes : List ν) (exact : Assignment → ν → ℚ)
    (Reach : S → Prop) : Prop where
  value : ∀ s, Reach s → ∀ n ∈ nodes, problem.value s n = exact (problem.assignment s) n
  evaluates : ∀ s, Reach s → ∀ moves,
    checkMoves (problem.assignment s) moves = .ok () →
    (∃ legal, MoveSet.fromChangeSet moves.getChangeSet = .ok legal) →
    ∃ Good : C → Prop, Good (problem.newContext moves.getChangeSet) ∧
      Answers (problem.evaluate s) Good nodes
        (exact ((problem.assignment s).applyChanges moves.getChangeSet))
  applies : ∀ s, Reach s → ∀ moves s',
    checkMoves (problem.assignment s) moves = .ok () →
    (∃ legal, MoveSet.fromChangeSet moves.getChangeSet = .ok legal) →
    problem.partialApply s ((problem.assignment s).applyChanges moves.getChangeSet)
      moves.getChangeSet = .ok s' →
    Reach s' ∧ problem.assignment s' = (problem.assignment s).applyChanges moves.getChangeSet

namespace MovesEvaluator

def improveHotContainer (evaluator : MovesEvaluator ν) (problem : Problem ν S C)
    (hash : Move → Nat) : List (List MoveSet) → S → Except String (Bool × S)
  | [], s => .ok (false, s)
  | candidates :: rest, s => do
    let result ← evaluator.bestOf problem hash false s candidates
    let better ← result.isBetter problem.precision
    if !better then improveHotContainer evaluator problem hash rest s
    else do
      let (status, s') ← evaluator.tryApply problem s result
      if status ≠ .applied then improveHotContainer evaluator problem hash rest s'
      else .ok (true, s')

/-- A run of the search on the candidates proposed in each iteration; the result lists the states
after each applied move. -/
def search (evaluator : MovesEvaluator ν) (problem : Problem ν S C) (hash : Move → Nat) :
    List (List (List MoveSet)) → S → Except String (List S)
  | [], _ => .ok []
  | proposals :: rest, s => do
    let (improved, s') ← evaluator.improveHotContainer problem hash proposals s
    let visited ← search evaluator problem hash rest s'
    .ok (if improved then s' :: visited else visited)

variable {evaluator : MovesEvaluator ν} {problem : Problem ν S C} {hash : Move → Nat}

theorem addEvals_addEvals (r : MoveResult) (m n : Nat) :
    (r.addEvals m).addEvals n = r.addEvals (n + m) := by
  simp only [MoveResult.addEvals, Nat.add_assoc]

theorem bestOf_candidate (h : evaluator.bestOf problem hash false s cs = .ok w) :
    (∃ n, w = MoveResult.makeEmpty.addEvals n) ∨ ∃ moves ∈ cs, ∃ r n,
      evaluator.evaluateWith problem false s moves = .ok r ∧ w = r.addEvals n := by
  have hr := foldlM_ok_rule (g := fun moves => [moves]) (P := fun done (w : MoveResult) =>
    (∃ n, w = MoveResult.makeEmpty.addEvals n) ∨ ∃ moves ∈ done, ∃ r n,
      evaluator.evaluateWith problem false s moves = .ok r ∧ w = r.addEvals n)
    (fun moves _ done b b' hb hs => ?_) [] .makeEmpty (.inl ⟨0, rfl⟩) h
  · rwa [nil_append, flatMap_singleton'] at hr
  · obtain ⟨r, hr, ha⟩ := except_bind_ok hs
    obtain ⟨c, -, ha⟩ := except_bind_ok ha
    obtain ⟨ac, -, ha⟩ := except_bind_ok ha
    split at ha
    · cases ha
      exact .inr ⟨moves, mem_append_right _ mem_cons_self, r, _, hr, rfl⟩
    · cases ha
      rcases hb with ⟨n, rfl⟩ | ⟨m, hm, r', n, hr', rfl⟩
      · exact .inl ⟨_, addEvals_addEvals _ _ _⟩
      · exact .inr ⟨m, mem_append_left _ hm, r', _, hr', addEvals_addEvals _ _ _⟩

theorem stageTuple_congr (problem : Problem ν S C) (h : ∀ n ∈ evaluator.nodes problem, v n = v' n) :
    evaluator.stageTuple v = evaluator.stageTuple v' := by
  apply map_congr_left
  intro n hn
  apply h
  simp [nodes, hn]

theorem permits_congr (h : ∀ n ∈ evaluator.nodes problem, v n = v' n) :
    evaluator.permits problem value v = evaluator.permits problem value v' := by
  have hconstraints : problem.constraints.any (fun c => problem.precision.isStrictlyGtZero (v c)) =
      problem.constraints.any (fun c => problem.precision.isStrictlyGtZero (v' c)) := by
    have hm : problem.constraints.map v = problem.constraints.map v' := by
      apply map_congr_left
      intro c hc
      apply h
      simp [nodes, hc]
    have ha := congrArg (fun vs => vs.any problem.precision.isStrictlyGtZero) hm
    rw [any_map, any_map] at ha
    exact ha
  have hg : evaluator.doNotWorsenGoalConfig.goal.objectives.map v =
      evaluator.doNotWorsenGoalConfig.goal.objectives.map v' := by
    apply map_congr_left
    intro n hn
    apply h
    simp [nodes, hn]
  rw [permits, permits, hconstraints, hg]

/-- What an accepted move does to the stored values: nothing forbids the change, and the stage
tuple gets strictly better. -/
structure Accepts (evaluator : MovesEvaluator ν) (problem : Problem ν S C) (s s' : S) : Prop where
  permits : evaluator.permits problem (problem.value s) (problem.value s') = true
  better : GlobalObjectiveValue.betterValues problem.precision
    (evaluator.stageTuple (problem.value s')) (evaluator.stageTuple (problem.value s)) = true

section
variable {exact : Assignment → ν → ℚ} {r' : S → Prop}

section
variable (hp : evaluator.Proper)
include hp

theorem accepts_of_isBetter (he : problem.Exact (evaluator.nodes problem) exact r') (hs : r' s)
    (hr : evaluator.evaluateWith problem false s ms = .ok r)
    (hb : r.isBetter problem.precision = .ok true)
    (hap : problem.applyChanges s ms.getChangeSet = .ok s') :
    r.oldValue = evaluator.minimizingGoal.getValue (problem.value s) ∧ r' s' ∧
      problem.assignment s' = (problem.assignment s).applyChanges ms.getChangeSet ∧
      evaluator.Accepts problem s s' := by
  obtain ⟨l, hl, hap⟩ := except_bind_ok hap
  have hc : checkMoves (problem.assignment s) ms = .ok () := by
    obtain ⟨u, hc, -⟩ := except_bind_ok hr
    exact hc
  obtain ⟨Good, hg, ha⟩ := he.evaluates s hs ms hc ⟨l, hl⟩
  obtain ⟨hs', hassign⟩ := he.applies s hs ms s' hc ⟨l, hl⟩ hap
  have hvalue : ∀ n ∈ evaluator.nodes problem, problem.value s' n =
      exact ((problem.assignment s).applyChanges ms.getChangeSet) n := by
    intro n hn
    rw [he.value s' hs' n hn, hassign]
  rw [evaluator.evaluateWith_spec problem false hc ha hg] at hr
  cases hr
  rw [outcome_isBetter hp] at hb
  obtain ⟨hpermit, hb⟩ := and_eq_true_iff.mp (ok.inj hb)
  refine ⟨?_, hs', hassign, ?_, ?_⟩
  · rw [outcome, if_pos hpermit]
    rfl
  · rw [permits_congr hvalue]
    exact hpermit
  · rw [stageTuple_congr problem hvalue]
    exact hb

theorem Accepts.validate (h : evaluator.Accepts problem s s')
    (ho : r.oldValue = evaluator.minimizingGoal.getValue (problem.value s)) :
    evaluator.validate problem s r s' = .ok .applied := by
  obtain ⟨hconstraints, hw⟩ := and_eq_true_iff.mp h.permits
  rw [not_eq_true'] at hconstraints hw
  have hb : (evaluator.minimizingGoal.getValue (problem.value s')).isStrictlyBetter
      (evaluator.minimizingGoal.getValue (problem.value s)) problem.precision = .ok true := by
    have hsize : ∀ v : ν → ℚ, (evaluator.minimizingGoal.getValue v).combinedValue.size =
        evaluator.minimizingGoal.combinedObjective.size := evaluator.stageTuple_length
    have hc : validateCompatible (evaluator.minimizingGoal.getValue (problem.value s'))
        (evaluator.minimizingGoal.getValue (problem.value s)) = .ok () := by
      simp [validateCompatible, LocalSearchObjective.getValue]
    simp only [isStrictlyBetter, hc, except_ok_bind,
      GlobalObjectiveValue.isStrictlyBetter, hsize, hp.goal, bne_self_eq_false, Bool.and_false,
      Bool.false_eq_true, ↓reduceIte]
    exact congrArg ok h.better
  simp [MovesEvaluator.validate, violatesConstraints, hconstraints, hw, ho, hb, except_ok_bind]

theorem tryApply_applied (he : problem.Exact (evaluator.nodes problem) exact r') (hs : r' s)
    (hr : evaluator.evaluateWith problem false s moves = .ok r)
    (hb : r.isBetter problem.precision = .ok true)
    (ht : evaluator.tryApply problem s (r.addEvals n) = .ok (ss, s')) : ss = .applied ∧ r' s' ∧
      problem.assignment s' = (problem.assignment s).applyChanges moves.getChangeSet ∧
      evaluator.Accepts problem s s' := by
  have hm : (r.addEvals n).moveSet = moves := (evaluateWith_stageResult hr).2
  have hold : (r.addEvals n).oldValue = r.oldValue := rfl
  rw [tryApply, hm] at ht
  split at ht
  · obtain ⟨s₁, happly, ht⟩ := except_bind_ok ht
    cases ht
    obtain ⟨-, hs', hassign, ha⟩ := accepts_of_isBetter hp he hs hr hb happly
    exact ⟨rfl, hs', hassign, ha⟩
  · obtain ⟨s₁, happly, ht⟩ := except_bind_ok ht
    obtain ⟨ho, hs', hassign, ha⟩ := accepts_of_isBetter hp he hs hr hb happly
    simp only [ha.validate hp (hold.trans ho), except_ok_bind, ne_eq, not_true_eq_false,
      ↓reduceIte] at ht
    cases ht
    exact ⟨rfl, hs', hassign, ha⟩

/-- One call of `improveHotContainer`: either nothing changes, or one of the proposed move sets is
accepted. -/
theorem improveHotContainer_spec (he : problem.Exact (evaluator.nodes problem) exact r') (hs : r' s)
    (ps : List (List MoveSet)) : ∀ i s',
    evaluator.improveHotContainer problem hash ps s = .ok (i, s') →
    (i = false ∧ s' = s) ∨ (i = true ∧ r' s' ∧ evaluator.Accepts problem s s' ∧
      ∃ candidates ∈ ps, ∃ moves ∈ candidates,
        problem.assignment s' = (problem.assignment s).applyChanges moves.getChangeSet) := by
  induction ps with
  | nil =>
    intro i s' h
    cases h
    exact .inl ⟨rfl, rfl⟩
  | cons candidates rest ih =>
    intro i s' h
    obtain ⟨result, hbest, h⟩ := except_bind_ok h
    obtain ⟨b, hb, h⟩ := except_bind_ok h
    cases b with
    | false =>
      rcases ih i s' h with hk | ⟨hi, hs', ha, c, hc, hm⟩
      · exact .inl hk
      · exact .inr ⟨hi, hs', ha, c, mem_cons_of_mem _ hc, hm⟩
    | true =>
      obtain ⟨⟨status, s₁⟩, ht, h⟩ := except_bind_ok h
      rcases bestOf_candidate hbest with ⟨n, rfl⟩ | ⟨moves, hm, r, n, hr, rfl⟩
      · cases hb
      · obtain ⟨rfl, hs', hassign, ha⟩ := tryApply_applied hp he hs hr hb ht
        cases h
        exact .inr ⟨rfl, hs', ha, candidates, mem_cons_self, moves, hm, hassign⟩

end

structure Step (evaluator : MovesEvaluator ν) (problem : Problem ν S C)
    (proposals : List (List (List MoveSet))) (s s' : S) : Prop where
  accepts : evaluator.Accepts problem s s'
  moved : ∃ p ∈ proposals, ∃ candidates ∈ p, ∃ moves ∈ candidates,
    problem.assignment s' = (problem.assignment s).applyChanges moves.getChangeSet

theorem search_spec (hp : evaluator.Proper) (he : problem.Exact (evaluator.nodes problem) exact r')
    (ps : List (List (List MoveSet))) : ∀ s v, r' s →
    evaluator.search problem hash ps s = .ok v →
    (∀ s' ∈ v, r' s') ∧ List.IsChain (evaluator.Step problem ps) (s :: v) := by
  induction ps with
  | nil =>
    intro s v _ h
    cases h
    exact ⟨fun s' hs' => absurd hs' not_mem_nil, isChain_singleton s⟩
  | cons p rest ih =>
    intro s v hs h
    obtain ⟨⟨i, s₁⟩, hi, hrest⟩ := except_bind_ok h
    obtain ⟨v₁, hsearch, hv⟩ := except_bind_ok hrest
    have hmono : ∀ s s', evaluator.Step problem rest s s' →
        evaluator.Step problem (p :: rest) s s' := by
      rintro s s' ⟨ha, q, hq, hm⟩
      exact ⟨ha, q, mem_cons_of_mem _ hq, hm⟩
    rcases improveHotContainer_spec hp he hs p i s₁ hi with
      ⟨rfl, rfl⟩ | ⟨rfl, hs₁, ha, hm⟩
    · cases hv
      obtain ⟨hr, hc⟩ := ih s₁ v₁ hs hsearch
      exact ⟨hr, hc.imp hmono⟩
    · cases hv
      obtain ⟨hr, hc⟩ := ih s₁ v₁ hs₁ hsearch
      exact ⟨forall_mem_cons.mpr ⟨hs₁, hr⟩,
        isChain_cons_cons.mpr ⟨⟨ha, p, mem_cons_self, hm⟩, hc.imp hmono⟩⟩

section
variable (hp : evaluator.Proper) (he : problem.Exact (evaluator.nodes problem) exact r')
include hp he

theorem tryApply_of_isBetter (hs : r' s)
    (hr : evaluator.evaluateWith problem false s moves = .ok r)
    (hb : r.isBetter problem.precision = .ok true) (n : Nat) :
    evaluator.tryApply problem s (r.addEvals n) =
      problem.applyChanges s moves.getChangeSet >>= fun s' => .ok (.applied, s') := by
  have hm : (r.addEvals n).moveSet = moves := (evaluateWith_stageResult hr).2
  rw [tryApply, hm]
  split
  · rfl
  · apply except_bind_congr
    intro s' ha
    obtain ⟨ho, -, -, hacc⟩ := accepts_of_isBetter hp he hs hr hb ha
    have hv := hacc.validate hp (r := r.addEvals n) ho
    rw [hv]
    rfl

theorem improveHotContainer_validate (b : Bool) (hs : r' s) (ps : List (List MoveSet)) :
    evaluator.improveHotContainer { problem with validateAppliedMoves := b } hash ps s =
      evaluator.improveHotContainer problem hash ps s := by
  induction ps with
  | nil => rfl
  | cons candidates rest ih =>
    apply except_bind_congr
    intro result hw
    apply except_bind_congr
    intro better hb
    cases better with
    | false => exact ih
    | true =>
      rcases bestOf_candidate hw with ⟨n, rfl⟩ | ⟨moves, -, r, n, hr, rfl⟩
      · cases hb
      · have he' : Problem.Exact { problem with validateAppliedMoves := b }
            (evaluator.nodes problem) exact r' := ⟨he.value, he.evaluates, he.applies⟩
        have ht := tryApply_of_isBetter hp he hs hr hb n
        have hsame := (tryApply_of_isBetter hp he' hs hr hb n).trans ht.symm
        change evaluator.tryApply { problem with validateAppliedMoves := b } s _ >>= _ = _
        rw [hsame, ht]
        apply except_bind_congr
        intro out hout
        obtain ⟨s', -, hs'⟩ := except_bind_ok hout
        cases hs'
        rfl

end

/-- Where the stored values are those of the assignment, validating applied moves changes no run. -/
theorem search_validateAppliedMoves {first last : Int} {allowed : Nat → Option ℚ}
    (hnew : new problem first last allowed = .ok evaluator)
    (he : problem.Exact (evaluator.nodes problem) exact r') (b : Bool)
    (ps : List (List (List MoveSet))) : ∀ s, r' s →
    evaluator.search { problem with validateAppliedMoves := b } hash ps s =
      evaluator.search problem hash ps s := by
  have hp := new_proper hnew
  induction ps with
  | nil => exact fun _ _ => rfl
  | cons p rest ih =>
    intro s hs
    rw [search, search, improveHotContainer_validate hp he b hs]
    apply except_bind_congr
    rintro ⟨i, s'⟩ hi
    have hs' : r' s' := by
      rcases improveHotContainer_spec hp he hs p i s' hi with ⟨-, rfl⟩ | ⟨-, hs', -⟩
      · exact hs
      · exact hs'
    simp only [ih s' hs']

end

end MovesEvaluator

structure Assignment.Within (objects : Finset ObjectId) (containers : Finset ContainerId)
    (a₀ a : Assignment) : Prop where
  off : ∀ o, o ∉ objects → a o = a₀ o
  on : ∀ o ∈ objects, a o ∈ containers

theorem Assignment.applyChanges_getChangeSet (ms : MoveSet) : ∀ a : Assignment,
    a.applyChanges ms.getChangeSet =
      ms.foldl (fun (a : Assignment) m => a.moveTo m.object m.dstContainer) a := by
  induction ms with
  | nil =>
    intro a
    rfl
  | cons m ms ih =>
    intro a
    have ht := ih (a.moveTo m.object m.dstContainer)
    simp only [applyChanges, MoveSet.getChangeSet, ChangeSet.ofList_changes] at ht ⊢
    rw [flatMap_cons, foldl_append, foldl_cons]
    exact ht

theorem Assignment.Within.applyChanges (h : Within os cs a₀ a)
    (hm : ∀ m ∈ ms, m.object ∈ os ∧ m.dstContainer ∈ cs) :
    Within os cs a₀ (a.applyChanges (MoveSet.getChangeSet ms)) := by
  rw [applyChanges_getChangeSet]
  refine foldlRecOn (motive := Within os cs a₀) _ _ h ?_
  intro a h m hmem
  obtain ⟨hobject, hc⟩ := hm m hmem
  constructor
  · intro o ho
    have hne : o ≠ m.object := by
      rintro rfl
      exact ho hobject
    exact (if_neg hne).trans (h.off o ho)
  · intro o ho
    change (if o = m.object then m.dstContainer else a o) ∈ cs
    split
    · exact hc
    · exact h.on o ho

theorem exists_step_of_isChain (l : List α) : ∀ x, List.IsChain R (x :: l) →
    ∀ z ∈ l, ∃ y, R y z := by
  induction l with
  | nil =>
    intro x _ z hz
    exact absurd hz not_mem_nil
  | cons y l ih =>
    intro x h z hz
    obtain ⟨hxy, hrest⟩ := isChain_cons_cons.mp h
    rcases mem_cons.mp hz with rfl | hz
    · exact ⟨x, hxy⟩
    · exact ih y hrest z hz

theorem Assignment.Within.length_le {l : List Assignment} (hn : l.Nodup)
    (h : ∀ a ∈ l, Within os cs a₀ a) : l.length ≤ cs.card ^ os.card := by
  let restrict : Assignment → os → ContainerId := fun a o => a o
  have hi : ∀ a ∈ l, ∀ a' ∈ l, restrict a = restrict a' → a = a' := by
    intro a ha a' ha' heq
    funext o
    by_cases ho : o ∈ os
    · exact congrFun heq ⟨o, ho⟩
    · rw [(h a ha).off o ho, (h a' ha').off o ho]
  have hm := hn.map_on (fun a ha a' ha' => hi a ha a' ha')
  have hsub : (l.map restrict).toFinset ⊆ Fintype.piFinset (fun _ : os => cs) := by
    intro f hf
    obtain ⟨a, ha, rfl⟩ := mem_map.mp (mem_toFinset.mp hf)
    exact Fintype.mem_piFinset.mpr (fun o => (h a ha).on o o.2)
  have hcard := Finset.card_le_card hsub
  rw [toFinset_card_of_nodup hm, length_map, Fintype.card_piFinset,
    Finset.prod_const, Finset.card_univ, Fintype.card_coe] at hcard
  exact hcard

variable {evaluator : MovesEvaluator ν}

namespace MovesEvaluator

theorem Accepts.tuple_lt (ht : 0 < p.precision.absolute) (h : evaluator.Accepts p s s') :
    compareValues (evaluator.stageTuple (p.value s')) (evaluator.stageTuple (p.value s)) = .lt :=
  compareValues_of_better ht _ _ h.better

theorem Accepts.constraints (h : evaluator.Accepts p s s') (hc : c ∈ p.constraints) :
    p.precision.isStrictlyGtZero (p.value s' c) = false := by
  have hnone := (and_eq_true_iff.mp h.permits).1
  rw [not_eq_true', any_eq_false] at hnone
  exact not_eq_true _ ▸ hnone c hc

/-- No constraint is violated, the stage tuple gets smaller, and no assignment is visited twice. -/
theorem search_never_revisits (problem : Problem ν S C) (objTupleBegin objTupleEnd : Int)
    (allowedWorsenUntilValue : Nat → Option ℚ) (evaluator : MovesEvaluator ν)
    (hnew : new problem objTupleBegin objTupleEnd allowedWorsenUntilValue =
      .ok evaluator) (ht : 0 < problem.precision.absolute)
    (exact : Assignment → ν → ℚ) (Reach : S → Prop)
    (hexact : problem.Exact (evaluator.nodes problem) exact Reach) (hash : Move → Nat) (s : S)
    (hs : Reach s) (proposals : List (List (List MoveSet))) (visited : List S)
    (hrun : evaluator.search problem hash proposals s = .ok visited)
    (objects : Finset ObjectId) (containers : Finset ContainerId)
    (hstart : ∀ o ∈ objects, problem.assignment s o ∈ containers)
    (hmoves : ∀ p ∈ proposals, ∀ candidates ∈ p, ∀ moves ∈ candidates, ∀ m ∈ moves,
      m.object ∈ objects ∧ m.dstContainer ∈ containers) :
    (∀ s' ∈ visited, ∀ c ∈ problem.constraints,
      problem.precision.isStrictlyGtZero (problem.value s' c) = false) ∧
    List.IsChain (fun s s' => compareValues (evaluator.stageTuple (problem.value s'))
      (evaluator.stageTuple (problem.value s)) = .lt) (s :: visited) ∧
    ((s :: visited).map problem.assignment).Nodup ∧
    visited.length < containers.card ^ objects.card := by
  obtain ⟨hr, hchain⟩ := search_spec (new_proper hnew) hexact proposals s visited hs hrun
  have hall : ∀ x ∈ s :: visited, Reach x := forall_mem_cons.mpr ⟨hs, hr⟩
  have hlt := hchain.imp (fun _ _ h => h.accepts.tuple_lt ht)
  have hnodup : ((s :: visited).map problem.assignment).Nodup := by
    have htrans : IsTrans S (fun s s' => evaluator.stageTuple (problem.value s') <
        evaluator.stageTuple (problem.value s)) := ⟨fun _ _ _ h h' => lt_trans h' h⟩
    have hpairs := isChain_iff_pairwise.mp (hlt.imp (fun _ _ h => lt_of_compareValues _ _ h))
    refine pairwise_map.mpr (hpairs.imp_of_mem ?_)
    intro x y hx hy hxy heq
    have hsame : evaluator.stageTuple (problem.value x) =
        evaluator.stageTuple (problem.value y) := by
      apply stageTuple_congr problem
      intro n hn
      rw [hexact.value x (hall x hx) n hn, hexact.value y (hall y hy) n hn, heq]
    rw [hsame] at hxy
    exact lt_irrefl _ hxy
  refine ⟨?_, hlt, hnodup, ?_⟩
  · intro s' hs' c hc
    obtain ⟨x, hx⟩ := exists_step_of_isChain visited s hchain s' hs'
    exact hx.accepts.constraints hc
  · have hw : ∀ x ∈ s :: visited, Within objects containers (problem.assignment s)
        (problem.assignment x) := by
      refine hchain.induction (fun x => Within objects containers
        (problem.assignment s) (problem.assignment x)) _ ?_ (fun _ => ⟨fun _ _ => rfl, hstart⟩)
      rintro x y ⟨-, p, hp, candidates, hcand, moves, hm, heq⟩ hx
      rw [heq]
      exact hx.applyChanges (hmoves p hp candidates hcand moves hm)
    have hle := Within.length_le hnodup (by
      intro a ha
      obtain ⟨x, hx, rfl⟩ := mem_map.mp ha
      exact hw x hx)
    rw [length_map] at hle
    exact hle

end MovesEvaluator

theorem Problem.ofValues_exact (p : PrecisionTolerances) (cs : List ν)
    (o : GlobalObjective ν) (zero : ν) (e : Assignment → ν → ℚ) (ns : List ν) :
    (Problem.ofValues p cs o zero e).Exact ns e (fun _ => True) where
  value _ _ _ _ := rfl
  evaluates a _ moves _ _ := ⟨(· = moves.getChangeSet), rfl,
    Problem.ofValues_answers p cs o zero e a moves.getChangeSet ns⟩
  applies _ _ _ _ _ _ ha := ⟨trivial, (ok.inj ha).symm⟩

def smallContainerEvaluator : MovesEvaluator (Fin 2) :=
  ⟨⟨⟨[]⟩, fun _ => none⟩, ⟨⟨[1]⟩, false⟩, none⟩

def smallContainerProposals : List (List (List MoveSet)) :=
  [[[[⟨7, 4, 9⟩], [⟨7, 4, 1⟩]]], [[[⟨7, 1, 4⟩]]]]

theorem smallContainer_unvalidated : smallContainerEvaluator.search
      { smallContainerProblem with validateAppliedMoves := false } pairHash
        smallContainerProposals (fun _ => 4) =
    smallContainerEvaluator.search smallContainerProblem pairHash smallContainerProposals
      (fun _ => 4) :=
  search_validateAppliedMoves
    (show new smallContainerProblem 0 1 (fun _ => none) = .ok smallContainerEvaluator from rfl)
    (Problem.ofValues_exact _ _ _ _ _ _) false _ _ trivial

theorem smallContainer_search : ∃ visited, new smallContainerProblem 0 1 (fun _ => none) =
        .ok smallContainerEvaluator ∧
      smallContainerEvaluator.search smallContainerProblem pairHash smallContainerProposals
        (fun _ => 4) = .ok visited ∧ visited.map (fun a => a 7) = [1] ∧
      (((fun _ => 4) :: visited).map smallContainerProblem.assignment).Nodup ∧
      visited.length < 3 ^ 1 := by
  have hf : ((smallContainerEvaluator.search smallContainerProblem pairHash
      smallContainerProposals (fun _ => 4)).toOption.map (map (fun a => a 7))) = some [1] := by
    decide +kernel
  cases hr : smallContainerEvaluator.search smallContainerProblem pairHash
      smallContainerProposals (fun _ => 4) with
  | error e =>
    rw [hr] at hf
    cases hf
  | ok visited =>
    rw [hr] at hf
    obtain ⟨-, -, hnodup, hl⟩ := search_never_revisits smallContainerProblem 0 1
      (fun _ => none) smallContainerEvaluator rfl (by decide +kernel) _ (fun _ => True)
      (Problem.ofValues_exact _ _ _ _ _ _) pairHash (fun _ => 4) trivial smallContainerProposals
      visited hr {7} {1, 4, 9} (by decide) (by decide)
    exact ⟨visited, rfl, rfl, Option.some.inj hf, hnodup, hl⟩

end Rebalancer
