import Rebalancer.Aggregation

namespace Rebalancer
open List GlobalObjective MovesEvaluator GlobalObjectiveValue MoveResult

variable {ν S C : Type}

namespace MovesEvaluator
variable {evaluator : MovesEvaluator ν} {problem : Problem ν S C} {v' v : ν → ℚ}

section
variable (evaluator : MovesEvaluator ν) (problem : Problem ν S C)

def bestOf (hash : Move → Nat)
    (evaluateAllTuples : Bool) (s : S) (candidates : List MoveSet) : Except String MoveResult :=
  candidates.foldlM (fun best moves => do
    let r ← evaluator.evaluateWith problem evaluateAllTuples s moves
    best.aggregate hash r) .makeEmpty

def Evaluable (s : S) (moves : MoveSet) : Prop := checkMoves (problem.assignment s) moves = .ok () ∧
    ∃ (Good : C → Prop) (v : ν → ℚ), Good (problem.newContext moves.getChangeSet) ∧
      Answers (problem.evaluate s) Good (evaluator.nodes problem) v

end

theorem isStrictlyBetter_newValueOf (hp : evaluator.Proper) (all : Bool) (v' : ν → ℚ)
    (hxs : xs.length = evaluator.minimizingGoal.combinedObjective.size) (t : PrecisionTolerances) :
    (evaluator.newValueOf all v' xs).isStrictlyBetter (evaluator.minimizingGoal.getValue v')
      t = .ok (betterValues t
        (evaluator.newValueOf all v' xs).combinedValue.values (evaluator.stageTuple v')) := by
  have hc := evaluator.validateCompatible_newValueOf all v' xs
  have hold : (evaluator.minimizingGoal.getValue v').combinedValue.size =
      evaluator.minimizingGoal.combinedObjective.size := evaluator.stageTuple_length v'
  have hs : (!(evaluator.newValueOf all v' xs).combinedValue.isPartial &&
      !(evaluator.minimizingGoal.getValue v').combinedValue.isPartial &&
      (evaluator.newValueOf all v' xs).combinedValue.size !=
        evaluator.minimizingGoal.combinedObjective.size) = false := by
    cases hpart : (evaluator.newValueOf all v' xs).combinedValue.isPartial with
    | true => rw [Bool.not_true, Bool.false_and, Bool.false_and]
    | false => rw [evaluator.newValueOf_full hpart, bne_self_eq_false, Bool.and_false]
  simp only [LocalSearchObjectiveValue.isStrictlyBetter, hc, except_ok_bind,
    isStrictlyBetter, evaluator.newValueOf_size all v' hxs, hold, hp.goal,
    hs, Bool.false_eq_true, ↓reduceIte]
  rfl

theorem outcome_isBetter (hp : evaluator.Proper) (all : Bool) (ms : MoveSet)
    (t : PrecisionTolerances) : (evaluator.outcome problem all v' v ms).isBetter t =
      .ok (evaluator.permits problem v' v && betterValues t
        (evaluator.stageTuple v) (evaluator.stageTuple v')) := by
  have hl := (evaluator.stageTuple_length v).trans (evaluator.stageTuple_length v').symm
  cases hpermit : evaluator.permits problem v' v with
  | false =>
    simp [outcome, hpermit, isBetter, makeInvalid]
  | true =>
    simp only [outcome, hpermit, ↓reduceIte, isBetter, makeValid,
      isStrictlyBetter_newValueOf hp all v' (evaluator.stageTuple_length v), Bool.true_and]
    cases all with
    | true => rfl
    | false => exact congrArg _ (betterValues_shortCircuit t _ _ hl)

/-- Results of the two ways of evaluating: the same one if it improves on the stage tuple, and
otherwise two that do not. -/
structure Paired (stage : WithTop (List ℚ)) (r r' : MoveResult) : Prop where
  evals : r.evalsCount = r'.evalsCount
  alike : (r = r' ∧ r.valueKey < stage) ∨ (stage ≤ r.valueKey ∧ stage ≤ r'.valueKey)

section
variable (hp : evaluator.Proper)
include hp

theorem outcome_valueKey (all : Bool) (ms : MoveSet) (hpe : evaluator.permits problem v' v = true) :
    (evaluator.outcome problem all v' v ms).valueKey =
      (evaluatedValues all (evaluator.stageTuple v) (evaluator.stageTuple v') : List ℚ) := by
  apply StageResult.valueKey_valid hp (evaluator.stageTuple_length v)
  simp [outcome, hpe, makeValid]

theorem outcome_paired (problem : Problem ν S C) (v' v : ν → ℚ)
    (moves : MoveSet) : Paired (evaluator.stageTuple v' : List ℚ)
      (evaluator.outcome problem false v' v moves)
      (evaluator.outcome problem true v' v moves) := by
  have hl := (evaluator.stageTuple_length v).trans (evaluator.stageTuple_length v').symm
  have he : ∀ all, (evaluator.outcome problem all v' v moves).evalsCount = 1 := by
    intro all
    rw [outcome]
    split <;> rfl
  refine ⟨by rw [he, he], ?_⟩
  cases hpermit : evaluator.permits problem v' v with
  | false =>
    have hk : ∀ all, (evaluator.outcome problem all v' v moves).valueKey = ⊤ := by
      intro all
      rw [outcome, hpermit]
      rfl
    rw [hk, hk]
    exact .inr ⟨le_top, le_top⟩
  | true =>
    rcases shortCircuit_cases _ _ hl with hf | ⟨hc, hgt⟩
    · have hs : evaluator.outcome problem false v' v moves =
          evaluator.outcome problem true v' v moves := by
        simp [outcome, newValueOf, evaluatedValues, hf]
      rw [hs]
      rcases lt_or_ge (evaluator.outcome problem true v' v moves).valueKey
        (evaluator.stageTuple v' : List ℚ) with hlt | hge
      · exact .inl ⟨rfl, hlt⟩
      · exact .inr ⟨hge, hge⟩
    · rw [outcome_valueKey hp false moves hpermit, outcome_valueKey hp true moves hpermit,
        WithTop.coe_le_coe, WithTop.coe_le_coe]
      refine .inr ⟨(lt_of_compareValues _ _ ?_).le, (lt_of_compareValues _ _ ?_).le⟩
      · exact (compareValues_swap _ _).trans (congrArg Ordering.swap hc)
      · exact (compareValues_swap _ _).trans (congrArg Ordering.swap hgt)

theorem Paired.aggregate (ha : Move → Nat)
    (hw : StageResult evaluator false v' w) (hw' : StageResult evaluator true v' w')
    (hr : StageResult evaluator false v' r) (hr' : StageResult evaluator true v' r')
    (h : Paired s w w') (h' : Paired s r r') :
    ∃ z z', w.aggregate ha r = .ok z ∧ w'.aggregate ha r' = .ok z' ∧
      StageResult evaluator false v' z ∧ StageResult evaluator true v' z' ∧
      Paired s z z' ∧ (w.valueKey < s ∨ r.valueKey < s → z.valueKey < s) := by
  obtain ⟨z, hz, he, hs, hk, -, hr, hw⟩ := hw.aggregate_cases hp ha hr
  obtain ⟨z', hz', he', hs', hk', -, hr', hw'⟩ := hw'.aggregate_cases hp ha hr'
  have hsum : z.evalsCount = z'.evalsCount := by rw [he, he', h.evals, h'.evals]
  refine ⟨z, z', hz, hz', hs, hs', ⟨hsum, ?_⟩, ?_⟩
  · rcases h.alike with ⟨rfl, hwlt⟩ | ⟨hwge, hwge'⟩
    · rcases h'.alike with ⟨rfl, hrlt⟩ | ⟨hrge, hrge'⟩
      · obtain rfl := Except.ok.inj (hz.symm.trans hz')
        exact .inl ⟨rfl, by rw [hk]; exact min_lt_iff.mpr (.inl hwlt)⟩
      · rw [hw (hwlt.trans_le hrge), hw' (hwlt.trans_le hrge'), h'.evals]
        exact .inl ⟨rfl, hwlt⟩
    · rcases h'.alike with ⟨rfl, hrlt⟩ | ⟨hrge, hrge'⟩
      · rw [hr (hrlt.trans_le hwge), hr' (hrlt.trans_le hwge'), h.evals]
        exact .inl ⟨rfl, hrlt⟩
      · rw [hk, hk']
        exact .inr ⟨le_min hwge hrge, le_min hwge' hrge'⟩
  · intro hlt
    rw [hk]
    exact min_lt_iff.mpr hlt

theorem bestOf_paired (hash : Move → Nat) (cs : List MoveSet) : ∀ w w' : MoveResult,
    (∀ moves ∈ cs, evaluator.Evaluable problem s moves) →
    StageResult evaluator false (problem.value s) w →
    StageResult evaluator true (problem.value s) w' →
    Paired (evaluator.stageTuple (problem.value s) : List ℚ) w w' →
    ∃ z z', cs.foldlM (fun best moves => do
        let r ← evaluator.evaluateWith problem false s moves
        best.aggregate hash r) w = .ok z ∧
      cs.foldlM (fun best moves => do
        let r ← evaluator.evaluateWith problem true s moves
        best.aggregate hash r) w' = .ok z' ∧
      Paired (evaluator.stageTuple (problem.value s) : List ℚ) z z' ∧
      ((w.valueKey < (evaluator.stageTuple (problem.value s) : List ℚ) ∨
        ∃ moves ∈ cs, ∃ r, evaluator.evaluateWith problem false s moves = .ok r ∧
          r.valueKey < (evaluator.stageTuple (problem.value s) : List ℚ)) →
        z.valueKey < (evaluator.stageTuple (problem.value s) : List ℚ)) := by
  induction cs with
  | nil =>
    intro w w' _ _ _ hpair
    refine ⟨w, w', rfl, rfl, hpair, ?_⟩
    rintro (hlt | ⟨moves, hmoves, -⟩)
    · exact hlt
    · exact absurd hmoves not_mem_nil
  | cons moves cs ih =>
    intro w w' he hw hw' hpair
    obtain ⟨hc, Good, v, hg, ha⟩ := he moves mem_cons_self
    have hrun := evaluator.evaluateWith_spec problem false hc ha hg
    have hr' := evaluator.evaluateWith_spec problem true hc ha hg
    obtain ⟨z₁, z₁', hz₁, hz₁', hs₁, hs₁', hp₁, hlt₁⟩ := hpair.aggregate hp hash hw hw'
      (evaluateWith_stageResult hrun).1 (evaluateWith_stageResult hr').1
      (outcome_paired hp problem (problem.value s) v moves)
    obtain ⟨z, z', hz, hz', hp', hlt⟩ := ih z₁ z₁'
      (fun m hm => he m (mem_cons_of_mem _ hm)) hs₁ hs₁' hp₁
    refine ⟨z, z', ?_, ?_, hp', ?_⟩
    · rw [foldlM_cons, hrun, except_ok_bind, hz₁]
      exact hz
    · rw [foldlM_cons, hr', except_ok_bind, hz₁']
      exact hz'
    · rintro (hwlt | ⟨m, hm, r, hr, hrlt⟩)
      · exact hlt (.inl (hlt₁ (.inl hwlt)))
      · rcases mem_cons.mp hm with rfl | hm
        · rw [hrun] at hr
          cases hr
          exact hlt (.inl (hlt₁ (.inr hrlt)))
        · exact hlt (.inr ⟨m, hm, r, hr, hrlt⟩)

theorem valueKey_lt_of_isBetter (ht : 0 < t.absolute)
    (h : (evaluator.outcome problem false v' v ms).isBetter t = .ok true) :
    (evaluator.outcome problem false v' v ms).valueKey < (evaluator.stageTuple v' : List ℚ) := by
  rw [outcome_isBetter hp] at h
  obtain ⟨hpermit, hb⟩ := Bool.and_eq_true_iff.mp (Except.ok.inj h)
  have hlt := lt_of_compareValues _ _ (compareValues_of_better ht _ _ hb)
  rcases (outcome_paired hp problem v' v ms).alike with ⟨-, hk⟩ | ⟨-, hge⟩
  · exact hk
  · rw [outcome_valueKey hp true ms hpermit, WithTop.coe_le_coe] at hge
    exact absurd hlt (not_lt.mpr hge)

end

/-- For these candidates the short circuit changes no verdict, and if one of them is better it
does not change the winner either. -/
def ShortCircuitHarmless (evaluator : MovesEvaluator ν) (problem : Problem ν S C)
    (hash : Move → Nat) (s : S) (candidates : List MoveSet) : Prop :=
  (∀ moves ∈ candidates, ∃ r r', evaluator.evaluateWith problem false s moves = .ok r ∧
    evaluator.evaluateWith problem true s moves = .ok r' ∧
    r.isBetter problem.precision = r'.isBetter problem.precision) ∧
  ((∃ moves ∈ candidates, ∃ r, evaluator.evaluateWith problem false s moves = .ok r ∧
      r.isBetter problem.precision = .ok true) →
    ∃ w w', evaluator.bestOf problem hash false s candidates = .ok w ∧
      evaluator.bestOf problem hash true s candidates = .ok w' ∧ w.moveSet = w'.moveSet)

theorem short_circuit_verdicts (hp : evaluator.Proper) (he : evaluator.Evaluable problem s ms) :
    ∃ r r', evaluator.evaluateWith problem false s ms = .ok r ∧
      evaluator.evaluateWith problem true s ms = .ok r' ∧
      r.isBetter problem.precision = r'.isBetter problem.precision := by
  obtain ⟨hc, Good, v, hg, ha⟩ := he
  refine ⟨_, _, evaluator.evaluateWith_spec problem false hc ha hg,
    evaluator.evaluateWith_spec problem true hc ha hg, ?_⟩
  rw [outcome_isBetter hp, outcome_isBetter hp]

theorem short_circuit_harmless (hp : evaluator.Proper) (ht : 0 < problem.precision.absolute)
    (hash : Move → Nat) (he : ∀ moves ∈ candidates, evaluator.Evaluable problem s moves) :
    evaluator.ShortCircuitHarmless problem hash s candidates := by
  refine ⟨fun moves hm => short_circuit_verdicts hp (he moves hm), ?_⟩
  rintro ⟨moves, hm, r, hr, hb⟩
  obtain ⟨w, w', hw, hw', hpair, hlt⟩ := bestOf_paired hp hash candidates .makeEmpty .makeEmpty
    he (.invalid true 0 []) (.invalid true 0 []) ⟨rfl, .inr ⟨le_top, le_top⟩⟩
  refine ⟨w, w', hw, hw', ?_⟩
  have hi := hlt (.inr ⟨moves, hm, r, hr, by
    obtain ⟨hc, Good, v, hg, ha⟩ := he moves hm
    rw [evaluator.evaluateWith_spec problem false hc ha hg] at hr
    cases hr
    exact valueKey_lt_of_isBetter hp ht hb⟩)
  rcases hpair.alike with ⟨rfl, -⟩ | ⟨hge, -⟩
  · rfl
  · exact absurd hi (not_lt.mpr hge)

end MovesEvaluator

section
variable (t : PrecisionTolerances)

def threeObjectives : Problem (Fin 3) Assignment ChangeSet :=
  .ofValues t [] ⟨[0, 1, 2]⟩ 0 (fun a n =>
    if n = 0 then 0 else if a 7 = 0 then 0 else if n = 1 then 5 else a 7)

def threeObjectivesEvaluator : MovesEvaluator (Fin 3) :=
  ⟨⟨⟨[]⟩, fun _ => none⟩, ⟨⟨[0, 1, 2]⟩, false⟩, none⟩

def lastFirstHash (move : Move) : Nat := 10 - move.dstContainer

def twoCandidates : List MoveSet := [[⟨7, 0, 1⟩], [⟨7, 0, 2⟩]]

theorem threeObjectives_evaluable (moves : MoveSet) (h : moves ∈ twoCandidates) :
    threeObjectivesEvaluator.Evaluable (threeObjectives t) (fun _ => 0) moves := by
  refine ⟨?_, (· = moves.getChangeSet), _, rfl, Problem.ofValues_answers _ _ _ _ _ _ _ _⟩
  simp only [twoCandidates, mem_cons, not_mem_nil, or_false] at h
  rcases h with rfl | rfl <;> rfl

def threeObjectivesResult (moves : MoveSet) (values : List ℚ) (evals : Nat) : MoveResult :=
  ⟨false, true, ⟨⟨[0, 0, 0], none⟩, false⟩, ⟨⟨values, some 3⟩, false⟩, none, evals, moves⟩

theorem shortCircuit_second_worse (x : ℚ) : shortCircuit false [0, 5, x] [0, 0, 0] = [0, 5] := by
  have hf : stops false 0 0 = false := by decide +kernel
  have hs : stops false 5 0 = true := by decide +kernel
  have hp : ¬ (5 : ℚ) < 0 := by decide +kernel
  simp [shortCircuit, hf, hs, hp]

theorem threeObjectives_cut (c : Nat) :
    threeObjectivesEvaluator.evaluateWith (threeObjectives t) false (fun _ => 0)
      [⟨7, 0, c + 1⟩] = .ok (threeObjectivesResult [⟨7, 0, c + 1⟩] [0, 5] 1) := by
  obtain ⟨v, hr, hv⟩ : ∃ v, threeObjectivesEvaluator.evaluateWith (threeObjectives t) false
      (fun _ => 0) [⟨7, 0, c + 1⟩] = .ok (threeObjectivesEvaluator.outcome (threeObjectives t) false
        ((threeObjectives t).value (fun _ => 0)) v [⟨7, 0, c + 1⟩]) ∧
      threeObjectivesEvaluator.stageTuple v = [0, 5, ((c + 1 : Nat) : ℚ)] :=
    ⟨_, threeObjectivesEvaluator.evaluateWith_spec (threeObjectives t) false rfl
      (Problem.ofValues_answers _ _ _ _ _ _ (MoveSet.getChangeSet [⟨7, 0, c + 1⟩]) _) rfl, rfl⟩
  have hp : threeObjectivesEvaluator.permits (threeObjectives t)
      ((threeObjectives t).value (fun _ => 0)) v = true := rfl
  have hn : threeObjectivesEvaluator.newValueOf false ((threeObjectives t).value (fun _ => 0))
      [0, 5, ((c + 1 : Nat) : ℚ)] = ⟨⟨[0, 5], some 3⟩, false⟩ :=
    congrArg (fun values => (⟨⟨values, some 3⟩, false⟩ : LocalSearchObjectiveValue))
      (shortCircuit_second_worse (c + 1 : Nat))
  rw [hr, outcome, if_pos hp, hv, hn]
  exact congrArg (fun a => Except.ok (makeValid _ _ _ a)) (ite_self none)

theorem threeObjectives_full (c : Nat) :
    threeObjectivesEvaluator.evaluateWith (threeObjectives t) true (fun _ => 0)
      [⟨7, 0, c + 1⟩] = .ok (threeObjectivesResult [⟨7, 0, c + 1⟩] [0, 5, ((c + 1 : Nat) : ℚ)] 1) :=
        rfl

theorem threeObjectives_winners :
    threeObjectivesEvaluator.bestOf (threeObjectives t) lastFirstHash false (fun _ => 0)
        twoCandidates = .ok (threeObjectivesResult [⟨7, 0, 2⟩] [0, 5] 2) ∧
      threeObjectivesEvaluator.bestOf (threeObjectives t) lastFirstHash true (fun _ => 0)
        twoCandidates = .ok (threeObjectivesResult [⟨7, 0, 1⟩] [0, 5, 1] 2) := by
  constructor
  · simp only [bestOf, twoCandidates, foldlM_cons, foldlM_nil]
    rw [threeObjectives_cut t 0, threeObjectives_cut t 1]
    rfl
  · simp only [bestOf, twoCandidates, foldlM_cons, foldlM_nil]
    rw [threeObjectives_full t 0, threeObjectives_full t 1]
    rfl

theorem threeObjectives_isBetter (ht : t.absolute ≤ 0) :
    (threeObjectivesResult [⟨7, 0, 1⟩] [0, 5] 1).isBetter t = .ok true := by
  have hb : betterValues t [0, 5] [0, 0, 0] = true := by
    rw [betterValues, t.compare_zero ht]
    rfl
  exact congrArg Except.ok hb

/-- The short circuit is harmless exactly when the absolute tolerance is positive. -/
theorem short_circuit_harmless_iff :
    (∀ (ν S C : Type) (problem : Problem ν S C) (objTupleBegin objTupleEnd : Int)
      (allowedWorsenUntilValue : Nat → Option ℚ) (evaluator : MovesEvaluator ν) (hash : Move → Nat)
      (s : S) (candidates : List MoveSet), problem.precision = t →
      new problem objTupleBegin objTupleEnd allowedWorsenUntilValue = .ok evaluator →
      (∀ moves ∈ candidates, evaluator.Evaluable problem s moves) →
      evaluator.ShortCircuitHarmless problem hash s candidates) ↔ 0 < t.absolute := by
  constructor
  · intro h
    by_contra hno
    have ht := not_lt.mp hno
    obtain ⟨-, hwinner⟩ := h (Fin 3) Assignment ChangeSet (threeObjectives t) 0 3 (fun _ => none)
      threeObjectivesEvaluator lastFirstHash (fun _ => 0) twoCandidates rfl rfl
      (threeObjectives_evaluable t)
    obtain ⟨w, w', hw, hw', hs⟩ := hwinner ⟨[⟨7, 0, 1⟩], mem_cons_self, _,
      threeObjectives_cut t 0, threeObjectives_isBetter t ht⟩
    rw [(threeObjectives_winners t).1] at hw
    rw [(threeObjectives_winners t).2] at hw'
    cases hw
    cases hw'
    exact absurd hs (by decide)
  · intro ht ν S C problem start stop allowed evaluator hash s candidates hp hn he
    exact short_circuit_harmless (new_proper hn) (by rw [hp]; exact ht) hash he

end

/-- The full evaluation prefers container 1 and the short circuit container 2. -/
theorem zero_tolerance_changes_winner :
    ∃ r w w', new (threeObjectives ⟨0, 1 / 10 ^ 10⟩) 0 3 (fun _ => none) =
        .ok threeObjectivesEvaluator ∧
      threeObjectivesEvaluator.evaluate (threeObjectives ⟨0, 1 / 10 ^ 10⟩) (fun _ => 0)
        [⟨7, 0, 1⟩] = .ok r ∧ r.isBetter ⟨0, 1 / 10 ^ 10⟩ = .ok true ∧
      threeObjectivesEvaluator.bestOf (threeObjectives ⟨0, 1 / 10 ^ 10⟩) lastFirstHash false
        (fun _ => 0) twoCandidates = .ok w ∧
      threeObjectivesEvaluator.bestOf (threeObjectives ⟨0, 1 / 10 ^ 10⟩) lastFirstHash true
        (fun _ => 0) twoCandidates = .ok w' ∧ w.moveSet ≠ w'.moveSet :=
  ⟨_, _, _, rfl, threeObjectives_cut _ 0, threeObjectives_isBetter _ (le_refl 0),
    (threeObjectives_winners _).1, (threeObjectives_winners _).2, by decide⟩

end Rebalancer
