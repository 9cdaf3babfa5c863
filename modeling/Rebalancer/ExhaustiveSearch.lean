import Rebalancer.LocalSearch
import Rebalancer.MoveTypeObjects
import Rebalancer.PrecisionOrder

namespace Rebalancer
open GlobalObjectiveValue List MoveResult
variable {t : PrecisionTolerances}

/-- Up to the last position, a value within the tolerance of the current one equals it. -/
def PrecisionTolerances.TellsApart (t : PrecisionTolerances) : List ℚ → List ℚ → Prop
  | x :: x' :: xs, y :: ys => (t.compare x y = .eq → x = y) ∧ t.TellsApart (x' :: xs) ys
  | _, _ => True

theorem PrecisionTolerances.TellsApart.head (h : t.TellsApart (x :: xs) (y :: ys)) (hxs : xs ≠ []) :
    t.compare x y = .eq → x = y := by
  cases xs with
  | nil => exact absurd rfl hxs
  | cons x' xs => exact h.1

theorem PrecisionTolerances.TellsApart.tail (h : t.TellsApart (x :: xs) (y :: ys)) :
    t.TellsApart xs ys := by
  cases xs with
  | nil => trivial
  | cons x' xs => exact h.2

theorem betterValues_of_le (ht : 0 < t.absolute) (xs : List ℚ) :
    ∀ ws ys, ws.length = xs.length → ws = xs ∨ ws < xs → t.TellsApart ws ys →
      betterValues t xs ys = true → betterValues t ws ys = true := by
  induction xs with
  | nil =>
    intro ws ys _ _ _ hb
    cases hb
  | cons x xs ih =>
    intro ws ys hlen hle ha hb
    rcases hle with rfl | hlt
    · exact hb
    cases ws with
    | nil => cases hlen
    | cons w ws =>
      cases ys with
      | nil => cases hb
      | cons y ys =>
        rw [betterValues] at hb ⊢
        rcases cons_lt_cons_iff.mp hlt with hlt | ⟨rfl, htail⟩
        · cases hx : t.compare x y with
          | gt =>
            rw [hx] at hb
            cases hb
          | lt =>
            rw [PrecisionTolerances.compare_lt_of_le ht hlt.le hx]
            rfl
          | eq =>
            rw [hx] at hb
            obtain ⟨hworse, hl⟩ := Bool.and_eq_true_iff.mp hb
            rw [Bool.not_eq_true', decide_eq_false_iff_not, not_lt] at hworse
            have hwy : w < y := hlt.trans_le hworse
            have hws : ws ≠ [] := by
              rintro rfl
              rw [length_eq_zero_iff.mp (Nat.succ.inj hlen).symm] at hl
              cases hl
            cases hw : t.compare w y with
            | lt => rfl
            | eq => exact absurd (ha.head hws hw) hwy.ne
            | gt => exact absurd (PrecisionTolerances.compare_gt hw) (not_lt.mpr hwy.le)
        · cases hw : t.compare w y with
          | gt =>
            rw [hw] at hb
            cases hb
          | lt => rfl
          | eq =>
            rw [hw] at hb
            obtain ⟨hworse, hl⟩ := Bool.and_eq_true_iff.mp hb
            exact Bool.and_eq_true_iff.mpr ⟨hworse,
              ih ws ys (Nat.succ.inj hlen) (.inr htail) ha.tail hl⟩

namespace MovesEvaluator
variable {ν S C : Type} {evaluator : MovesEvaluator ν} {problem : Problem ν S C} {s : S}

theorem StageResult.isBetter_ok (hp : evaluator.Proper) (h : StageResult evaluator false v r)
    (t : PrecisionTolerances) : ∃ better, r.isBetter t = .ok better := by
  cases h with
  | invalid empty e m => exact ⟨false, rfl⟩
  | valid e m xs zs hxs hzs =>
    exact ⟨_, isStrictlyBetter_newValueOf hp false v hxs t⟩

structure BestResult (evaluator : MovesEvaluator ν) (problem : Problem ν S C) (s : S)
    (Proposed : MoveSet → Prop) (r : MoveResult) : Prop where
  stage : StageResult evaluator false (problem.value s) r
  origin : (∃ n, r = makeEmpty.addEvals n) ∨ ∃ moves r₀ n, Proposed moves ∧
    evaluator.evaluate problem s moves = .ok r₀ ∧ r = r₀.addEvals n
  least : ∀ moves r₀, Proposed moves → evaluator.evaluate problem s moves = .ok r₀ →
    r.valueKey ≤ r₀.valueKey

theorem BestResult.mono (h : BestResult evaluator problem s p r)
    (hi : ∀ moves, p moves ↔ Proposed' moves) : BestResult evaluator problem s Proposed' r := by
  have heq : p = Proposed' := funext fun moves => propext (hi moves)
  rw [← heq]
  exact h

theorem BestResult.makeEmpty : BestResult evaluator problem s (fun _ => False) .makeEmpty where
  stage := .invalid true 0 []
  origin := .inl ⟨0, rfl⟩
  least _ _ h := h.elim

theorem BestResult.evaluate (h : evaluator.evaluate problem s ms = .ok r) :
    BestResult evaluator problem s (· = ms) r where
  stage := (evaluateWith_stageResult h).1
  origin := .inr ⟨ms, r, 0, rfl, h, by rw [addEvals, Nat.zero_add]⟩
  least moves' r₀ hmoves h₀ := by
    rw [hmoves, h] at h₀
    cases h₀
    exact le_refl _

theorem BestResult.addEvals (h : BestResult evaluator problem s p r) (n : Nat) :
    BestResult evaluator problem s p (r.addEvals n) where
  stage := h.stage.addEvals n
  origin := by
    rcases h.origin with ⟨m, rfl⟩ | ⟨moves, r₀, m, hm, h₀, rfl⟩
    · exact .inl ⟨n + m, addEvals_addEvals _ m n⟩
    · exact .inr ⟨moves, r₀, n + m, hm, h₀, addEvals_addEvals _ m n⟩
  least := h.least

theorem BestResult.aggregate (hp : evaluator.Proper) (ha : Move → Nat)
    (h : BestResult evaluator problem s p w) (h' : BestResult evaluator problem s p' r) :
    ∃ z, w.aggregate ha r = .ok z ∧
      BestResult evaluator problem s (fun moves => p moves ∨ p' moves) z := by
  obtain ⟨z, hz, -, hs, hk, ho, -⟩ := h.stage.aggregate_cases hp ha h'.stage
  refine ⟨z, hz, hs, ?_, ?_⟩
  · rcases ho with rfl | rfl
    · rcases (h'.addEvals w.evalsCount).origin with he | ⟨moves, r₀, n, hm, h₀, heq⟩
      · exact .inl he
      · exact .inr ⟨moves, r₀, n, .inr hm, h₀, heq⟩
    · rcases (h.addEvals r.evalsCount).origin with he | ⟨moves, r₀, n, hm, h₀, heq⟩
      · exact .inl he
      · exact .inr ⟨moves, r₀, n, .inl hm, h₀, heq⟩
  · intro moves r₀ hm h₀
    rw [hk]
    rcases hm with hm | hm
    · exact (min_le_left _ _).trans (h.least moves r₀ hm h₀)
    · exact (min_le_right _ _).trans (h'.least moves r₀ hm h₀)

theorem outcome_valueKey_of_lt (hp : evaluator.Proper)
    (hlt : (evaluator.outcome problem false v' v ms).valueKey <
      (evaluator.stageTuple v' : List ℚ)) : evaluator.permits problem v' v = true ∧
      (evaluator.outcome problem false v' v ms).valueKey = (evaluator.stageTuple v : List ℚ) := by
  cases hpermit : evaluator.permits problem v' v with
  | false =>
    rw [outcome, hpermit] at hlt
    exact absurd hlt (not_lt.mpr le_top)
  | true =>
    refine ⟨rfl, ?_⟩
    rcases (outcome_paired hp problem v' v ms).alike with ⟨heq, -⟩ | ⟨hge, -⟩
    · rw [heq, outcome_valueKey hp true ms hpermit]
      rfl
    · exact absurd hlt (not_lt.mpr hge)

theorem BestResult.isBetter (hp : evaluator.Proper) (ht : 0 < problem.precision.absolute)
    (h : BestResult evaluator problem s p r) (a : MoveSet → ν → ℚ) (hm : p ms)
    (he : ∀ ms, p ms → evaluator.evaluate problem s ms =
      .ok (evaluator.outcome problem false (problem.value s) (a ms) ms)) (ha : ∀ ms, p ms →
      evaluator.permits problem (problem.value s) (a ms) = true →
      problem.precision.TellsApart (evaluator.stageTuple (a ms))
        (evaluator.stageTuple (problem.value s)))
    (hb : (evaluator.outcome problem false (problem.value s) (a ms) ms).isBetter
      problem.precision = .ok true) : r.isBetter problem.precision = .ok true := by
  have hlt := valueKey_lt_of_isBetter hp ht hb
  have hle := h.least ms _ hm (he ms hm)
  rcases h.origin with ⟨n, rfl⟩ | ⟨m', r₀, n, hm', h₀, rfl⟩
  · exact absurd (hle.trans_lt hlt) (not_lt.mpr le_top)
  · rw [he m' hm'] at h₀
    cases h₀
    obtain ⟨hp', hk'⟩ := outcome_valueKey_of_lt hp (hle.trans_lt hlt)
    obtain ⟨-, hk⟩ := outcome_valueKey_of_lt hp hlt
    rw [outcome_isBetter hp] at hb
    obtain ⟨-, hb⟩ := Bool.and_eq_true_iff.mp (Except.ok.inj hb)
    have hs : evaluator.stageTuple (a m') = evaluator.stageTuple (a ms) ∨
        evaluator.stageTuple (a m') < evaluator.stageTuple (a ms) := by
      change (evaluator.outcome problem false (problem.value s) (a m') m').valueKey ≤ _ at hle
      rw [hk, hk', WithTop.coe_le_coe] at hle
      exact hle.eq_or_lt
    have hb' := betterValues_of_le ht _ _ _
      ((evaluator.stageTuple_length _).trans (evaluator.stageTuple_length _).symm) hs
      (ha m' hm' hp') hb
    change (evaluator.outcome problem false (problem.value s) (a m') m').isBetter _ = _
    rw [outcome_isBetter hp, hp', hb']
    rfl

end MovesEvaluator

namespace Exploration
variable {ν S C : Type} {e' : MovesEvaluator ν} {problem : Problem ν S C} {s : S}

inductive Exhaustive : Exploration → Prop where
  | evaluate (moves : MoveSet) : Exhaustive (.evaluate moves)
  | several (h : ∀ part ∈ parts, Exhaustive part) : Exhaustive (.several false parts)

mutual

theorem findBest_best (hp : e'.Proper) (ha : Move → Nat) (e : Exploration) (he : e.Exhaustive)
    (hev : ∀ moves, e.Proposes moves → ∃ r, e'.evaluate problem s moves = .ok r) :
    ∃ r, findBest e' problem ha s e = .ok r ∧ e'.BestResult problem s e.Proposes r := by
  cases e with
  | evaluate moves =>
    obtain ⟨r, hr⟩ := hev moves (.evaluate moves)
    refine ⟨r, by rw [findBest, hr], (MovesEvaluator.BestResult.evaluate hr).mono ?_⟩
    intro m'
    exact proposes_evaluate.symm
  | several u p =>
    cases he with
    | several he =>
      obtain ⟨r, hr, hb⟩ := findBestOf_best hp ha p he
        (fun part hpart moves h => hev moves (.several hpart h)) .makeEmpty .makeEmpty
      refine ⟨r, by rw [findBest, hr], hb.mono ?_⟩
      intro moves
      rw [proposes_several, false_or]

theorem findBestOf_best (hp : e'.Proper) (hash : Move → Nat) (ps : List Exploration)
    (he : ∀ part ∈ ps, Exhaustive part) (hev : ∀ part ∈ ps, ∀ moves, part.Proposes moves →
      ∃ r, e'.evaluate problem s moves = .ok r)
    (best : MoveResult) (hbe : e'.BestResult problem s p' best) :
    ∃ r, findBestOf e' problem hash s false ps best = .ok r ∧ e'.BestResult problem s
        (fun moves => p' moves ∨ ∃ part ∈ ps, part.Proposes moves) r := by
  cases ps with
  | nil =>
    refine ⟨best, by rw [findBestOf], hbe.mono ?_⟩
    intro moves
    simp
  | cons part ps =>
    obtain ⟨result, hresult, hpart⟩ := findBest_best hp hash part (he part mem_cons_self)
      (hev part mem_cons_self)
    obtain ⟨b', ha, hb'⟩ := hbe.aggregate hp hash hpart
    obtain ⟨b, hb⟩ := hb'.stage.isBetter_ok hp problem.precision
    obtain ⟨r, hr, hrest⟩ := findBestOf_best hp hash ps (fun p h => he p (mem_cons_of_mem _ h))
      (fun p h => hev p (mem_cons_of_mem _ h)) b' hb'
    refine ⟨r, ?_, hrest.mono ?_⟩
    · rw [findBestOf, hresult, except_ok_bind, ha, except_ok_bind, hb, except_ok_bind,
        Bool.false_and, if_neg Bool.false_ne_true, hr]
    · intro moves
      simp only [mem_cons, exists_eq_or_imp, or_assoc]

end

end Exploration

end Rebalancer
