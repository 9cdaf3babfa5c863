import Rebalancer.Grouping
import Rebalancer.StageResults

namespace Rebalancer
open List MoveResult LocalSearchObjectiveValue MovesEvaluator Function Grouping Option Nat
variable {hash : Move → Nat}

variable {ν S C : Type}

namespace MoveSet

def key (hash : Move → Nat) (moves : MoveSet) : ℕ ×ₗ List ℕ := toLex (moves.length, moves.map hash)

variable (hi : Injective hash)
include hi

theorem compareMoves_lt (ls : MoveSet) : ∀ rs : MoveSet, ls.length = rs.length →
    (compareMoves hash ls rs = .lt ↔ rs.map hash < ls.map hash) := by
  induction ls with
  | nil =>
    intro rs h
    rw [length_eq_zero_iff.mp h.symm]
    simp [compareMoves]
  | cons l ls ih =>
    intro rs h
    cases rs with
    | nil => cases h
    | cons r rs =>
      have ht := ih rs (succ.inj h)
      rw [map_cons, map_cons, cons_lt_cons_iff, compareMoves]
      by_cases heq : l = r
      · subst heq
        simp [Move.compare, ht]
      · have hne : hash r ≠ hash l := fun hc => heq (hi hc).symm
        by_cases hlt : hash l < hash r
        · simp [Move.compare, heq, hlt, not_lt_of_gt hlt, hne]
        · have hgt : hash r < hash l := lt_of_le_of_ne (not_lt.mp hlt) hne
          simp [Move.compare, heq, hlt, hgt]

theorem compare_lt (mine o : MoveSet) : compare hash mine o = .lt ↔ key hash o < key hash mine := by
  rw [key, key, Prod.Lex.toLex_lt_toLex, compare]
  rcases lt_trichotomy mine.length o.length with hlt | heq | hgt
  · simp [hlt, not_lt_of_gt hlt, hlt.ne']
  · simp [heq, compareMoves_lt hi mine o heq]
  · simp [not_lt_of_gt hgt, hgt]

theorem key_injective : Injective (key hash) := by
  intro m m' h
  have hm := (Prod.ext_iff.mp (toLex.injective h)).2
  exact map_injective_iff.mpr hi hm

end MoveSet

namespace MoveResult

def valueKey (r : MoveResult) : WithTop (List ℚ) :=
  if r.newValue.combinedValue.size = 0 then ⊤ else (r.newValue.combinedValue.values : List ℚ)

def arbiterKey (r : MoveResult) : List ℚ := r.arbiterValue.elim [] GlobalObjectiveValue.values

def key (hash : Move → Nat) (r : MoveResult) : WithTop (List ℚ) ×ₗ (List ℚ ×ₗ (ℕ ×ₗ List ℕ)) :=
  toLex (r.valueKey, toLex (r.arbiterKey, MoveSet.key hash r.moveSet))

theorem prefersOther_iff (hi : Injective hash) {mine o : MoveResult}
    (hlt : c = .lt ↔ o.valueKey < mine.valueKey) (heq : c = .eq ↔ o.valueKey = mine.valueKey)
    (halt : c = .eq → (ac = some .lt ↔ o.arbiterKey < mine.arbiterKey))
    (ha : c = .eq → (ac = none ∨ ac = some .eq ↔ o.arbiterKey = mine.arbiterKey)) :
    prefersOther hash c ac mine.moveSet o.moveSet = true ↔ o.key hash < mine.key hash := by
  rw [key, key, Prod.Lex.toLex_lt_toLex, Prod.Lex.toLex_lt_toLex, ← hlt, ← heq,
    ← MoveSet.compare_lt hi]
  simp only [prefersOther, Bool.or_eq_true, Bool.and_eq_true, beq_iff_eq]
  by_cases hc : c = .eq
  · rw [← halt hc, ← ha hc]
    simp [hc]
  · simp [hc]

end MoveResult

namespace MovesEvaluator
variable {evaluator : MovesEvaluator ν} {all : Bool} {value : ν → ℚ}

theorem newValueOf_settled (evaluator : MovesEvaluator ν) (all : Bool) (value : ν → ℚ)
    (hxs : xs.length = evaluator.minimizingGoal.combinedObjective.size)
    (hys : ys.length = evaluator.minimizingGoal.combinedObjective.size) :
    Settled (evaluator.newValueOf all value xs).combinedValue.values
      (evaluator.newValueOf all value ys).combinedValue.values := by
  cases all with
  | true => exact .of_length (hxs.trans hys.symm)
  | false =>
    exact GlobalObjective.shortCircuit_settled _ false xs ys
      (hxs.trans (evaluator.stageTuple_length value).symm)
      (hys.trans (evaluator.stageTuple_length value).symm)

theorem unsafeCompare_newValues (hp : evaluator.Proper)
    (hxs : xs.length = evaluator.minimizingGoal.combinedObjective.size)
    (hys : ys.length = evaluator.minimizingGoal.combinedObjective.size) :
    (evaluator.newValueOf all value ys).unsafeCompare (evaluator.newValueOf all value xs) =
      .ok (compareValues (evaluator.newValueOf all value ys).combinedValue.values
        (evaluator.newValueOf all value xs).combinedValue.values) := by
  have hc : validateCompatible (evaluator.newValueOf all value ys)
      (evaluator.newValueOf all value xs) = .ok () := by
    simp [validateCompatible, newValueOf]
  have hs : ((evaluator.newValueOf all value ys).combinedValue.isPartial ||
      (evaluator.newValueOf all value xs).combinedValue.isPartial ||
      (evaluator.newValueOf all value ys).combinedValue.size ==
        (evaluator.newValueOf all value xs).combinedValue.size) = true := by
    cases hy : (evaluator.newValueOf all value ys).combinedValue.isPartial with
    | true => rw [Bool.true_or, Bool.true_or]
    | false =>
      cases hx : (evaluator.newValueOf all value xs).combinedValue.isPartial with
      | true => rw [Bool.or_true, Bool.true_or]
      | false =>
        rw [evaluator.newValueOf_full hy, evaluator.newValueOf_full hx, beq_self_eq_true,
          Bool.or_true]
  simp [unsafeCompare, hc, except_ok_bind, GlobalObjectiveValue.unsafeCompare,
    evaluator.newValueOf_size all value hxs, evaluator.newValueOf_size all value hys, hp.goal, hs]

theorem unsafeCompare_new_right {v : LocalSearchObjectiveValue} (h : v.combinedValue.size ≠ 0) :
    v.unsafeCompare .new = .ok .lt := by
  have hn : LocalSearchObjectiveValue.new.combinedValue.size = 0 := rfl
  simp [unsafeCompare, validateCompatible, GlobalObjectiveValue.unsafeCompare, hn, h,
    except_ok_bind]

theorem unsafeCompare_new_left (h : v.combinedValue.size ≠ 0) :
    LocalSearchObjectiveValue.new.unsafeCompare v = .ok .gt := by
  have hn : LocalSearchObjectiveValue.new.combinedValue.size = 0 := rfl
  simp [unsafeCompare, validateCompatible, GlobalObjectiveValue.unsafeCompare, hn, h,
    except_ok_bind]

theorem StageResult.valueKey_invalid {r : MoveResult} (hn : r.newValue = .new) :
    r.valueKey = ⊤ := by
  rw [valueKey, hn]
  rfl

theorem StageResult.valueKey_valid {r : MoveResult} (hp : evaluator.Proper)
    (hxs : xs.length = evaluator.minimizingGoal.combinedObjective.size)
    (hn : r.newValue = evaluator.newValueOf all value xs) :
    r.valueKey = ((evaluator.newValueOf all value xs).combinedValue.values : List ℚ) := by
  rw [valueKey, hn, if_neg ((evaluator.newValueOf_size all value hxs).not.mpr hp.goal)]

theorem StageResult.newValue_cases (hp : evaluator.Proper) (h : StageResult evaluator all value r) :
    (r.newValue = .new ∧ r.valueKey = ⊤ ∧ r.valid = false ∧ r.oldValue = .new) ∨
      ∃ xs : List ℚ, xs.length = evaluator.minimizingGoal.combinedObjective.size ∧
        r.newValue = evaluator.newValueOf all value xs ∧
        r.valueKey = ((evaluator.newValueOf all value xs).combinedValue.values : List ℚ) ∧
        r.valid = true ∧ r.oldValue = evaluator.minimizingGoal.getValue value := by
  cases h with
  | invalid empty e m => exact .inl ⟨rfl, valueKey_invalid rfl, rfl, rfl⟩
  | valid e m xs zs hxs hzs =>
    exact .inr ⟨xs, hxs, rfl, valueKey_valid hp hxs rfl, rfl, rfl⟩

theorem StageResult.compare_values (hp : evaluator.Proper)
    (h : StageResult evaluator all value mine) (h' : StageResult evaluator all value o) :
    ∃ c, o.newValue.unsafeCompare mine.newValue = .ok c ∧ (c = .lt ↔ o.valueKey < mine.valueKey) ∧
      (c = .eq ↔ o.valueKey = mine.valueKey) := by
  rcases h.newValue_cases hp with ⟨hn, hk, -⟩ | ⟨xs, hxs, hn, hk, -⟩ <;>
    rcases h'.newValue_cases hp with ⟨hn', hk', -⟩ | ⟨ys, hys, hn', hk', -⟩ <;>
    rw [hn, hn', hk, hk']
  · exact ⟨.eq, rfl, by simp only [reduceCtorEq, lt_irrefl], by simp only⟩
  · refine ⟨.lt, unsafeCompare_new_right
      ((evaluator.newValueOf_size all value hys).not.mpr hp.goal), ?_, ?_⟩
    · simp [WithTop.coe_lt_top]
    · simp [WithTop.coe_ne_top]
  · refine ⟨.gt, unsafeCompare_new_left
      ((evaluator.newValueOf_size all value hxs).not.mpr hp.goal), ?_, ?_⟩
    · simp
    · simp [WithTop.top_ne_coe]
  · have hs := evaluator.newValueOf_settled all value hys hxs
    rw [WithTop.coe_lt_coe, WithTop.coe_inj]
    exact ⟨_, unsafeCompare_newValues hp hxs hys, hs.compareValues_lt, hs.compareValues_eq⟩

theorem StageResult.arbiter_isSome_iff (hp : evaluator.Proper)
    (h : StageResult evaluator all value r) : r.arbiterValue.isSome = true ↔
      evaluator.arbiterGoal.isSome = true ∧
        ∃ vs : List ℚ, r.valueKey = vs ∧ compareValues vs (evaluator.stageTuple value) = .lt := by
  cases h with
  | invalid empty e m =>
    rw [valueKey_invalid rfl]
    simp [WithTop.top_ne_coe]
  | valid e m xs zs hxs hzs =>
    rw [valueKey_valid hp hxs rfl]
    simp only [WithTop.coe_inj, exists_eq_left']
    split_ifs with hlt
    · simp [hlt]
    · simp [hlt]

theorem StageResult.arbiter_eq (h : StageResult evaluator all value r)
    (hr : r.arbiterValue = some a) : ∃ goal, evaluator.arbiterGoal = some goal ∧
      a.values.length = goal.size ∧ a.tupleSize = some goal.size := by
  cases h with
  | invalid empty e m => cases hr
  | valid e m xs zs hxs hzs =>
    simp only at hr
    split at hr
    · obtain ⟨goal, hg, rfl⟩ := map_eq_some_iff.mp hr
      exact ⟨goal, hg, hzs goal hg, rfl⟩
    · cases hr

theorem unsafeCompare_arbiters {a a' : GlobalObjectiveValue}
    (hl : a.values.length = a'.values.length) (hne : a.values.length ≠ 0) :
    a'.unsafeCompare a = .ok (compareValues a'.values a.values) := by
  simp [GlobalObjectiveValue.unsafeCompare, GlobalObjectiveValue.size, ← hl, hne]

section
variable (hp : evaluator.Proper)
include hp

theorem StageResult.compare_arbiters (h : StageResult evaluator all value mine)
    (h' : StageResult evaluator all value o) :
    ∃ ac, mine.compareArbiters o = .ok ac ∧ (o.valueKey = mine.valueKey →
      (ac = some .lt ↔ o.arbiterKey < mine.arbiterKey) ∧
      (ac = none ∨ ac = some .eq ↔ o.arbiterKey = mine.arbiterKey)) := by
  have hs : o.valueKey = mine.valueKey →
      (o.arbiterValue.isSome = true ↔ mine.arbiterValue.isSome = true) := by
    intro heq
    rw [h.arbiter_isSome_iff hp, h'.arbiter_isSome_iff hp, heq]
  cases hm : mine.arbiterValue with
  | none =>
    refine ⟨none, by simp only [compareArbiters, hm], ?_⟩
    intro heq
    have ho : o.arbiterValue = none := by
      rw [← not_isSome_iff_eq_none, hs heq, hm]
      exact Bool.false_ne_true
    simp [arbiterKey, hm, ho]
  | some arbiter =>
    cases ho : o.arbiterValue with
    | none =>
      refine ⟨none, by simp only [compareArbiters, hm, ho], ?_⟩
      intro heq
      have hsome := (hs heq).mpr (by rw [hm]; rfl)
      rw [ho] at hsome
      cases hsome
    | some a' =>
      obtain ⟨goal, hg, hl, -⟩ := h.arbiter_eq hm
      obtain ⟨g', hg', hl', -⟩ := h'.arbiter_eq ho
      obtain rfl := some.inj (hg.symm.trans hg')
      have hc := unsafeCompare_arbiters (hl.trans hl'.symm) (by rw [hl]; exact hp.arbiter goal hg)
      have hset : Settled a'.values arbiter.values := .of_length (hl'.trans hl.symm)
      refine ⟨some (compareValues a'.values arbiter.values), ?_, ?_⟩
      · simp [compareArbiters, hm, ho, hc, except_ok_bind]
      · intro _
        simp [arbiterKey, hm, ho, hset.compareValues_lt, hset.compareValues_eq]

theorem StageResult.aggregate_cases (hash : Move → Nat)
    (h : StageResult evaluator all value mine) (h' : StageResult evaluator all value o) :
    ∃ z, mine.aggregate hash o = .ok z ∧ z.evalsCount = mine.evalsCount + o.evalsCount ∧
      StageResult evaluator all value z ∧ z.valueKey = min mine.valueKey o.valueKey ∧
      (z = o.addEvals mine.evalsCount ∨ z = mine.addEvals o.evalsCount) ∧
      (o.valueKey < mine.valueKey → z = o.addEvals mine.evalsCount) ∧
      (mine.valueKey < o.valueKey → z = mine.addEvals o.evalsCount) := by
  obtain ⟨c, hc, hlt, heq⟩ := h.compare_values hp h'
  obtain ⟨ac, hac, -⟩ := h.compare_arbiters hp h'
  simp only [aggregate, hc, hac, except_ok_bind]
  split_ifs with hother
  · have hle : o.valueKey ≤ mine.valueKey := by
      simp only [prefersOther, Bool.or_eq_true, Bool.and_eq_true, beq_iff_eq] at hother
      rcases hother with (hother | hother) | hother
      · exact (hlt.mp hother).le
      · exact (heq.mp hother.1).le
      · exact (heq.mp hother.1.1).le
    exact ⟨_, rfl, rfl, h'.addEvals _, (min_eq_right hle).symm, .inl rfl, fun _ => rfl,
      fun hl => absurd hl hle.not_gt⟩
  · have hle : mine.valueKey ≤ o.valueKey := by
      apply not_lt.mp (hlt.not.mp ?_)
      rintro rfl
      exact hother rfl
    exact ⟨_, rfl, add_comm _ _, h.addEvals _, (min_eq_left hle).symm, .inr rfl,
      fun hl => absurd hl hle.not_gt, fun _ => rfl⟩

theorem aggregate_selects (all : Bool) (value : ν → ℚ) (hi : Injective hash) :
    Selects (aggregate hash)
      (StageResult evaluator all value) (key hash) evalsCount := by
  intro mine o h h'
  obtain ⟨c, hc, hlt, heq⟩ := h.compare_values hp h'
  obtain ⟨ac, hac, ha⟩ := h.compare_arbiters hp h'
  have hprefer := prefersOther_iff hi hlt heq
    (fun he => (ha (heq.mp he)).1) (fun he => (ha (heq.mp he)).2)
  simp only [aggregate, hc, hac, except_ok_bind]
  split_ifs with hother
  · refine ⟨_, rfl, h'.addEvals _, ?_, rfl⟩
    rw [min_eq_right (hprefer.mp hother).le]
    rfl
  · refine ⟨_, rfl, h.addEvals _, ?_, add_comm _ _⟩
    rw [min_eq_left (not_lt.mp (fun hc => hother (hprefer.mpr hc)))]
    rfl

section
variable (h : StageResult evaluator all value r) (h' : StageResult evaluator all value r')
include h h'

theorem StageResult.eq_of_valueKey (hs : r.valueKey = r'.valueKey) :
    r.valid = r'.valid ∧ r.oldValue = r'.oldValue ∧ r.newValue = r'.newValue := by
  rcases h.newValue_cases hp with ⟨hn, hk, hv, ho⟩ | ⟨xs, hxs, hn, hk, hv, ho⟩ <;>
    rcases h'.newValue_cases hp with ⟨hn', hk', hv', ho'⟩ | ⟨ys, hys, hn', hk', hv', ho'⟩ <;>
    rw [hk, hk'] at hs <;> rw [hn, hn', hv, hv', ho, ho']
  · exact ⟨rfl, rfl, rfl⟩
  · exact absurd hs WithTop.top_ne_coe
  · exact absurd hs WithTop.coe_ne_top
  · have hvalues := WithTop.coe_inj.mp hs
    refine ⟨rfl, rfl, ?_⟩
    simp only [newValueOf] at hvalues ⊢
    rw [hvalues]

theorem StageResult.arbiter_eq_of_key (hv : r.valueKey = r'.valueKey)
    (har : r.arbiterKey = r'.arbiterKey) : r.arbiterValue = r'.arbiterValue := by
  have hs : r.arbiterValue.isSome = true ↔ r'.arbiterValue.isSome = true := by
    rw [h.arbiter_isSome_iff hp, h'.arbiter_isSome_iff hp, hv]
  cases ha : r.arbiterValue with
  | none =>
    cases ha' : r'.arbiterValue with
    | none => rfl
    | some a' =>
      rw [ha, ha'] at hs
      exact absurd (hs.mpr rfl) Bool.false_ne_true
  | some a =>
    cases ha' : r'.arbiterValue with
    | none =>
      rw [ha, ha'] at hs
      exact absurd (hs.mp rfl) Bool.false_ne_true
    | some a' =>
      obtain ⟨goal, hg, -, hsize⟩ := h.arbiter_eq ha
      obtain ⟨g', hg', -, hs'⟩ := h'.arbiter_eq ha'
      obtain rfl := some.inj (hg.symm.trans hg')
      rw [arbiterKey, arbiterKey, ha, ha'] at har
      simp only [elim_some] at har
      cases a
      cases a'
      simp only at hsize hs' har
      rw [hsize, hs', har]

end

theorem StageResult.eq_of_key (hi : Injective hash) (h : StageResult evaluator all value r)
    (h' : StageResult evaluator all value r') (hk : r.key hash = r'.key hash) :
    r.moveSet = r'.moveSet ∧ r.valid = r'.valid ∧ r.oldValue = r'.oldValue ∧
      r.newValue = r'.newValue ∧ r.arbiterValue = r'.arbiterValue := by
  obtain ⟨hvalue, hrest⟩ := Prod.ext_iff.mp (toLex.injective hk)
  obtain ⟨ha, hm⟩ := Prod.ext_iff.mp (toLex.injective hrest)
  simp only at hvalue ha hm
  refine ⟨MoveSet.key_injective hi hm, ?_⟩
  obtain ⟨hv, hold, hn⟩ := h.eq_of_valueKey hp h' hvalue
  exact ⟨hv, hold, hn, h.arbiter_eq_of_key hp h' hvalue ha⟩

end

theorem sum_evalsCount_filter (l : List MoveResult) : (l.map evalsCount).sum =
    ((l.filter (· ≠ .makeEmpty)).map evalsCount).sum := by
  induction l with
  | nil => rfl
  | cons r l ih =>
    rw [map_cons, sum_cons, ih, filter_cons]
    by_cases hr : r = .makeEmpty
    · rw [if_neg (by simp [hr]), hr]
      exact zero_add _
    · rw [if_pos (decide_eq_true hr), map_cons, sum_cons]

/-- However results of one state are grouped and ordered, `aggregate` ends with the same winner. -/
theorem aggregate_independent_of_grouping (problem : Problem ν S C)
    (objTupleBegin objTupleEnd : Int)
    (allowedWorsenUntilValue : Nat → Option ℚ) (evaluator : MovesEvaluator ν)
    (hnew : new problem objTupleBegin objTupleEnd allowedWorsenUntilValue =
      .ok evaluator) (s : S) (hash : Move → Nat) (hinj : Injective hash)
    (t t' : Grouping MoveResult) (hresults : ∀ r, r ∈ t.leaves ∨ r ∈ t'.leaves →
      r = .makeEmpty ∨ ∃ moves, evaluator.evaluate problem s moves = .ok r)
    (hperm : (t.leaves.filter (· ≠ .makeEmpty)).Perm (t'.leaves.filter (· ≠ .makeEmpty)))
    (hempty : .makeEmpty ∈ t.leaves ↔ .makeEmpty ∈ t'.leaves) :
    ∃ r r', t.combine (aggregate hash) = .ok r ∧ t'.combine (aggregate hash) = .ok r' ∧
      r.moveSet = r'.moveSet ∧ r.valid = r'.valid ∧ r.oldValue = r'.oldValue ∧
      r.newValue = r'.newValue ∧ r.arbiterValue = r'.arbiterValue ∧
      r.evalsCount = r'.evalsCount := by
  have hp := new_proper hnew
  have hs : ∀ r, r ∈ t.leaves ∨ r ∈ t'.leaves →
      StageResult evaluator false (problem.value s) r := by
    intro r hr
    rcases hresults r hr with rfl | ⟨moves, hm⟩
    · exact .invalid true 0 []
    · exact (evaluateWith_stageResult hm).1
  have hmem : ∀ r, r ∈ t.leaves ↔ r ∈ t'.leaves := by
    intro r
    by_cases hr : r = .makeEmpty
    · rw [hr]
      exact hempty
    · have hi := hperm.mem_iff (a := r)
      simpa only [mem_filter, ne_eq, hr, not_false_eq_true, decide_true, and_true] using hi
  have hsum : (t.leaves.map evalsCount).sum = (t'.leaves.map evalsCount).sum := by
    rw [sum_evalsCount_filter, sum_evalsCount_filter t'.leaves]
    exact (hperm.map _).sum_eq
  obtain ⟨r, r', hrun, hrun', hr, hr', hk, he⟩ := combine_key_eq
    (aggregate_selects hp false (problem.value s) hinj) t t' (fun r hr => hs r (.inl hr))
    (fun r hr => hs r (.inr hr)) hmem hsum
  obtain ⟨hm, hv, hold, hnew, ha⟩ := hr.eq_of_key hp hinj hr' hk
  exact ⟨r, r', hrun, hrun', hm, hv, hold, hnew, ha, he⟩

end MovesEvaluator

section
variable (precision : PrecisionTolerances) (constraints : List ν) (objective : GlobalObjective ν)
  (zero : ν) (exact : Assignment → ν → ℚ)

def Problem.ofValues : Problem ν Assignment ChangeSet where
  precision := precision
  constraints := constraints
  objective := objective
  penaltyObjective := ⟨[]⟩
  zero := zero
  validateAppliedMoves := true
  assignment a := a
  value := exact
  newContext changes := changes
  evaluate a n changes := .ok (exact (a.applyChanges changes) n, changes)
  partialApply _ a _ := .ok a

theorem Problem.ofValues_answers (a : Assignment) (cs : ChangeSet) (ns : List ν) :
    Answers ((Problem.ofValues precision constraints objective zero exact).evaluate a)
      (· = cs) ns (exact (a.applyChanges cs)) := by
  rintro n - ctx rfl
  exact ⟨ctx, rfl, rfl⟩

end

def smallContainerProblem : Problem (Fin 2) Assignment ChangeSet :=
  .ofValues defaultTolerances [0] ⟨[1]⟩ 0 (fun a n => if n = 0 then (a 7 : ℚ) - 5 else a 7)

def pairHash (move : Move) : Nat := pair move.object (pair move.srcContainer move.dstContainer)

theorem pairHash_injective : Injective pairHash := by
  intro m m' h
  obtain ⟨ho, hrest⟩ := pair_eq_pair.mp h
  obtain ⟨hs, hd⟩ := pair_eq_pair.mp hrest
  cases m
  cases m'
  simp only at ho hs hd
  rw [ho, hs, hd]

theorem smallContainer_two_groupings :
    ∃ evaluator r₁ r₂ w w', new smallContainerProblem 0 1 (fun _ => none) = .ok evaluator ∧
      evaluator.evaluate smallContainerProblem (fun _ => 4) [⟨7, 4, 1⟩] = .ok r₁ ∧
      evaluator.evaluate smallContainerProblem (fun _ => 4) [⟨7, 4, 9⟩] = .ok r₂ ∧
      (join (.single r₁) (.join (.single .makeEmpty) (.single r₂))).combine
        (aggregate pairHash) = .ok w ∧ (join (.join (.single .makeEmpty) (.single r₂))
        (.join (.single .makeEmpty) (.single r₁))).combine (aggregate pairHash) =
        .ok w' ∧ w.moveSet = w'.moveSet ∧ w.evalsCount = w'.evalsCount := by
  obtain ⟨evaluator, hn⟩ : ∃ evaluator, new smallContainerProblem 0 1
    (fun _ => none) = .ok evaluator := ⟨_, rfl⟩
  have heval : ∀ moves, checkMoves (fun _ => 4) moves = .ok () →
      ∃ r, evaluator.evaluate smallContainerProblem (fun _ => 4) moves = .ok r ∧
        r ≠ .makeEmpty := by
    intro moves hc
    refine ⟨_, evaluator.evaluateWith_spec smallContainerProblem false hc
      (Problem.ofValues_answers _ _ _ _ _ _ moves.getChangeSet _) rfl, ?_⟩
    intro heq
    have he := congrArg evalsCount heq
    simp only [outcome] at he
    split at he <;> cases he
  obtain ⟨r₁, hr₁, hne₁⟩ := heval [⟨7, 4, 1⟩] rfl
  obtain ⟨r₂, hr₂, hne₂⟩ := heval [⟨7, 4, 9⟩] rfl
  obtain ⟨w, w', hw, hw', hm, -, -, -, -, he⟩ :=
    aggregate_independent_of_grouping smallContainerProblem 0 1 (fun _ => none)
      evaluator hn (fun _ => 4) pairHash pairHash_injective
      (.join (.single r₁) (.join (.single .makeEmpty) (.single r₂)))
      (.join (.join (.single .makeEmpty) (.single r₂)) (.join (.single .makeEmpty) (.single r₁)))
      (by
        intro r hr
        simp only [leaves, mem_append, mem_singleton] at hr
        rcases hr with (rfl | rfl | rfl) | (rfl | rfl) | rfl | rfl
        · exact .inr ⟨_, hr₁⟩
        · exact .inl rfl
        · exact .inr ⟨_, hr₂⟩
        · exact .inl rfl
        · exact .inr ⟨_, hr₂⟩
        · exact .inl rfl
        · exact .inr ⟨_, hr₁⟩)
      (by
        simp only [leaves, cons_append, nil_append, ne_eq, hne₁, hne₂,
          not_true_eq_false, not_false_eq_true, decide_true, decide_false, filter_cons_of_pos,
          Bool.false_eq_true, filter_cons_of_neg, filter_nil]
        exact List.Perm.swap _ _ _)
      (by simp [leaves])
  exact ⟨evaluator, r₁, r₂, w, w', hn, hr₁, hr₂, hw, hw', hm, he⟩

end Rebalancer
