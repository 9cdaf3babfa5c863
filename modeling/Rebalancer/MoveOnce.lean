import Rebalancer.MoveTypeObjects

namespace Rebalancer
open List

namespace Exploration
variable {ν S C : Type} {e' : MovesEvaluator ν} {problem : Problem ν S C} {hash : Move → Nat}
  {s : S}

def Found (Proposed : MoveSet → Prop) (r : MoveResult) : Prop :=
  (∃ n, r = MoveResult.makeEmpty.addEvals n) ∨ Proposed r.moveSet

theorem Found.mono (h : Found p r) (hi : ∀ moves, p moves → p' moves) : Found p' r := by
  rcases h with h | h
  · exact .inl h
  · exact .inr (hi _ h)

theorem Found.addEvals (h : Found p r) (n : Nat) : Found p (r.addEvals n) := by
  rcases h with ⟨m, rfl⟩ | h
  · refine .inl ⟨n + m, ?_⟩
    simp only [MoveResult.addEvals, Nat.add_assoc]
  · exact .inr h

theorem Found.aggregate (h : Found p best)
    (h' : Found p r) (ha : best.aggregate hash r = .ok w) : Found p w := by
  obtain ⟨c, -, ha⟩ := except_bind_ok ha
  obtain ⟨ac, -, ha⟩ := except_bind_ok ha
  split at ha
  · rw [← Except.ok.inj ha]
    exact h'.addEvals _
  · rw [← Except.ok.inj ha]
    exact h.addEvals _

mutual

theorem findBest_found (e : Exploration) (w : MoveResult)
    (h : findBest e' problem hash s e = .ok w) : Found e.Proposes w := by
  cases e with
  | evaluate m =>
    rw [findBest] at h
    rw [← (MovesEvaluator.evaluateWith_stageResult h).2]
    exact .inr (.evaluate w.moveSet)
  | several u parts =>
    rw [findBest] at h
    apply findBestOf_found u parts .makeEmpty w _ (.inl ⟨0, rfl⟩) h
    intro part hpart m hm
    exact .several hpart hm

theorem findBestOf_found (u : Bool) (ps : List Exploration) (best w : MoveResult)
    (hpa : ∀ part ∈ ps, ∀ moves, part.Proposes moves → p' moves) (hb : Found p' best)
    (h : findBestOf e' problem hash s u ps best = .ok w) : Found p' w := by
  cases ps with
  | nil =>
    rw [findBestOf] at h
    cases h
    exact hb
  | cons part ps =>
    rw [findBestOf] at h
    obtain ⟨r, hr, h⟩ := except_bind_ok h
    obtain ⟨b', ha, h⟩ := except_bind_ok h
    obtain ⟨b, -, h⟩ := except_bind_ok h
    have hf := (findBest_found part r hr).mono (hpa part mem_cons_self)
    have hb' := hb.aggregate hf ha
    split at h
    · cases h
      exact hb'
    · exact findBestOf_found u ps b' w (fun p hp => hpa p (mem_cons_of_mem _ hp)) hb' h

end

theorem proposes_of_better (h : findBest e' problem hash s e = .ok r)
    (hb : r.isBetter problem.precision = .ok true) : e.Proposes r.moveSet := by
  rcases findBest_found e r h with ⟨n, rfl⟩ | h
  · cases hb
  · exact h

end Exploration

/-- A problem of the local search, with the objects that are fixed from the start and whether an
object is to be moved only once. -/
structure LocalSearchProblem (ν S C : Type) extends Problem ν S C where
  fixedObjects : IdSet
  moveObjectsOnce : Bool

structure LocalSearchState (S : Type) where
  state : S
  fixedObjects : IdSet

structure SearchCall where
  space : SearchSpace
  moveType : MoveType
  hotContainer : ContainerId
  view : SearchView

/-- One round of the loop of a stage; the random choices may be others in each round. -/
structure SearchIteration (ν : Type) where
  space : SearchSpace
  evaluator : MovesEvaluator ν
  moveTypes : List MoveType
  hotContainer : ContainerId

structure SearchProgress (S : Type) where
  calls : List SearchCall
  applied : List MoveSet
  state : LocalSearchState S

namespace LocalSearchProblem
variable {ν S C : Type}

def view (p : LocalSearchProblem ν S C) (s : LocalSearchState S) : SearchView :=
  ⟨p.assignment s.state, p.fixedObjects, s.fixedObjects⟩

def maybeFixMovedObjects (p : LocalSearchProblem ν S C) (changes : ChangeSet)
    (fixedObjects : IdSet) : IdSet :=
  if p.moveObjectsOnce then
    changes.changes.foldl (fun fixedObjects change =>
      if change.value = 1 then fixedObjects.insert change.object else fixedObjects) fixedObjects
  else fixedObjects

def tryApply (p : LocalSearchProblem ν S C) (evaluator : MovesEvaluator ν) (s : LocalSearchState S)
    (result : MoveResult) : Except String (ApplyStatus × LocalSearchState S) := do
  let (status, state) ← evaluator.tryApply p.toProblem s.state result
  if status ≠ .applied then .ok (status, ⟨state, s.fixedObjects⟩)
  else
    .ok (status, ⟨state, p.maybeFixMovedObjects result.moveSet.getChangeSet s.fixedObjects⟩)

def improveHotContainer (p : LocalSearchProblem ν S C) (hash : Move → Nat)
    (it : SearchIteration ν) :
    List MoveType → SearchProgress S → Except String (SearchProgress S)
  | [], progress => .ok progress
  | moveType :: moveTypes, progress => do
    let view := p.view progress.state
    let exploration ← moveType.explore it.space view it.hotContainer
    let progress := { progress with
      calls := progress.calls ++ [⟨it.space, moveType, it.hotContainer, view⟩] }
    let result ← exploration.findBest it.evaluator p.toProblem hash progress.state.state
    let better ← result.isBetter p.precision
    if !better then p.improveHotContainer hash it moveTypes progress
    else do
      let (status, state) ← p.tryApply it.evaluator progress.state result
      if status ≠ .applied then p.improveHotContainer hash it moveTypes { progress with state }
      else .ok { progress with applied := progress.applied ++ [result.moveSet], state }

variable (p : LocalSearchProblem ν S C)

def search (hash : Move → Nat) (iterations : List (SearchIteration ν))
    (progress : SearchProgress S) : Except String (SearchProgress S) :=
  iterations.foldlM (fun progress it =>
    p.improveHotContainer hash it it.moveTypes progress) progress

def start (s : S) : SearchProgress S := ⟨[], [], s, p.fixedObjects⟩

end LocalSearchProblem

def SearchCall.Unfixed (call : SearchCall) : Prop :=
  ∀ o, call.moveType.Draws call.space call.view call.hotContainer o → o ∉ call.view.fixedObjects

structure MovedOnce (fixedObjects : IdSet) (applied : List MoveSet) : Prop where
  once : applied.Pairwise fun moves moves' =>
    ∀ move ∈ moves, ∀ move' ∈ moves', move.object ≠ move'.object
  unfixed : ∀ moves ∈ applied, ∀ move ∈ moves, move.object ∉ fixedObjects

namespace LocalSearchProblem
variable {ν S C : Type} {p : LocalSearchProblem ν S C}

theorem mem_fixMoved (cs : List Change) : ∀ os : IdSet, o ∈ cs.foldl (fun (os : IdSet) change =>
      if change.value = 1 then os.insert change.object else os) os ↔
      o ∈ os ∨ ∃ change ∈ cs, change.value = 1 ∧ change.object = o := by
  induction cs with
  | nil =>
    intro os
    simp
  | cons change cs ih =>
    intro os
    rw [foldl_cons, ih]
    split_ifs with hvalue
    · rw [IdSet.mem_insert, eq_comm, or_comm (a := change.object = o), or_assoc]
      simp [hvalue]
    · simp [hvalue]

theorem addition_mem {ms : MoveSet} (h : move ∈ ms) :
    Change.addition move.object move.dstContainer ∈ ms.getChangeSet.changes := by
  rw [MoveSet.getChangeSet, ChangeSet.ofList_changes]
  exact mem_flatMap.mpr ⟨move, h, mem_cons_of_mem _ mem_cons_self⟩

theorem mem_maybeFix (ho : p.moveObjectsOnce = true) (ms : MoveSet) (fixedObjects : IdSet)
    (h : o ∈ fixedObjects ∨ ∃ move ∈ ms, move.object = o) :
    o ∈ p.maybeFixMovedObjects ms.getChangeSet fixedObjects := by
  rw [maybeFixMovedObjects, if_pos ho, mem_fixMoved]
  rcases h with h | ⟨move, hm, rfl⟩
  · exact .inl h
  · exact .inr ⟨_, addition_mem hm, rfl, rfl⟩

structure Restricts (p : LocalSearchProblem ν S C) (progress : SearchProgress S) : Prop where
  movedOnce : MovedOnce p.fixedObjects progress.applied
  initial : ∀ o ∈ p.fixedObjects, o ∈ progress.state.fixedObjects
  moved : ∀ moves ∈ progress.applied, ∀ move ∈ moves, move.object ∈ progress.state.fixedObjects

theorem Restricts.apply (hon : p.moveObjectsOnce = true) (h : p.Restricts p')
    (hmo : ∀ move ∈ ms, move.object ∉ p'.state.fixedObjects) (s : S)
    (cs : List SearchCall) :
    p.Restricts ⟨cs, p'.applied ++ [ms], s,
      p.maybeFixMovedObjects ms.getChangeSet p'.state.fixedObjects⟩ where
  movedOnce := by
    constructor
    · rw [pairwise_append]
      refine ⟨h.movedOnce.once, pairwise_singleton _ _, ?_⟩
      intro e he l hl move hm move' hmove' heq
      rw [mem_singleton.mp hl] at hmove'
      apply hmo move' hmove'
      rw [← heq]
      exact h.moved e he move hm
    · intro m' hm' move hm hf
      rcases mem_append.mp hm' with hm' | hm'
      · exact h.movedOnce.unfixed m' hm' move hm hf
      · rw [mem_singleton.mp hm'] at hm
        exact hmo move hm (h.initial _ hf)
  initial o ho := mem_maybeFix hon ms _ (.inl (h.initial o ho))
  moved m' hm' move hm := by
    rcases mem_append.mp hm' with hm' | hm'
    · exact mem_maybeFix hon ms _ (.inl (h.moved m' hm' move hm))
    · rw [mem_singleton.mp hm'] at hm
      exact mem_maybeFix hon ms _ (.inr ⟨move, hm, rfl⟩)

theorem tryApply_cases (h : p.tryApply e s r = .ok (ss, s')) : (ss = .applied ∧ s'.fixedObjects =
      p.maybeFixMovedObjects r.moveSet.getChangeSet s.fixedObjects) ∨
    (ss ≠ .applied ∧ s'.fixedObjects = s.fixedObjects) := by
  obtain ⟨⟨status', state⟩, -, h⟩ := except_bind_ok h
  by_cases hs : status' = .applied
  · simp only [hs, ne_eq, not_true_eq_false, ↓reduceIte] at h
    cases h
    exact .inl ⟨rfl, rfl⟩
  · simp only [ne_eq, hs, not_false_eq_true, ↓reduceIte] at h
    cases h
    exact .inr ⟨hs, rfl⟩

section
variable (ho : p.moveObjectsOnce = true) {hash : Move → Nat}
include ho

theorem improveHotContainer_restricts (ts : List MoveType) : ∀ progress p' : SearchProgress S,
      p.improveHotContainer hash it ts progress = .ok p' →
      progress.calls <+: p'.calls ∧ (p.Restricts progress →
        (∀ call ∈ p'.calls, call.Unfixed) → p.Restricts p') := by
  induction ts with
  | nil =>
    intro progress p' h
    cases h
    exact ⟨prefix_refl _, fun hr _ => hr⟩
  | cons m ts ih =>
    intro progress p' h
    obtain ⟨e, he, h⟩ := except_bind_ok h
    obtain ⟨r, hresult, h⟩ := except_bind_ok h
    obtain ⟨b, hb, h⟩ := except_bind_ok h
    have hl : progress.calls <+: progress.calls ++
        [⟨it.space, m, it.hotContainer, p.view progress.state⟩] := prefix_append _ _
    cases b with
    | false =>
      obtain ⟨hc, hk⟩ := ih _ p' h
      refine ⟨hl.trans hc, ?_⟩
      intro hr hu
      exact hk ⟨hr.movedOnce, hr.initial, hr.moved⟩ hu
    | true =>
      obtain ⟨⟨status, state⟩, hs, h⟩ := except_bind_ok h
      rcases tryApply_cases hs with ⟨rfl, hf⟩ | ⟨hne, hf⟩
      · cases h
        refine ⟨hl, ?_⟩
        intro hr hu
        have hcall := hu _ (mem_append_right _ (mem_singleton_self _))
        have hm := MoveType.explore_unfixed he (Exploration.proposes_of_better hresult hb) hcall
        have ha := hr.apply ho hm state.state progress.calls
        rw [← hf] at ha
        exact ⟨ha.movedOnce, ha.initial, ha.moved⟩
      · simp only [ne_eq, hne, not_false_eq_true, ↓reduceIte] at h
        obtain ⟨hc, hk⟩ := ih _ p' h
        refine ⟨hl.trans hc, ?_⟩
        intro hr hu
        apply hk _ hu
        refine ⟨hr.movedOnce, ?_, ?_⟩
        · rw [hf]
          exact hr.initial
        · rw [hf]
          exact hr.moved

theorem search_restricts (is : List (SearchIteration ν)) : ∀ progress p' : SearchProgress S,
      p.search hash is progress = .ok p' → progress.calls <+: p'.calls ∧ (p.Restricts progress →
        (∀ call ∈ p'.calls, call.Unfixed) → p.Restricts p') := by
  induction is with
  | nil =>
    intro progress p' h
    cases h
    exact ⟨prefix_refl _, fun hr _ => hr⟩
  | cons it is ih =>
    intro progress p' h
    obtain ⟨next, hn, h⟩ := except_bind_ok h
    obtain ⟨hc, hk⟩ := improveHotContainer_restricts ho it.moveTypes progress next hn
    obtain ⟨hc', hk'⟩ := ih next p' h
    refine ⟨hc.trans hc', ?_⟩
    intro hr hu
    apply hk' _ hu
    apply hk hr
    intro call hcall
    exact hu call (hc'.subset hcall)

end

/-- An object moves at most once if no call finds a fixed object among those it does not check. -/
theorem search_movedOnce (p : LocalSearchProblem ν S C) (honce : p.moveObjectsOnce = true)
    (hash : Move → Nat) (iterations : List (SearchIteration ν)) (s : S)
    (progress : SearchProgress S) (h : p.search hash iterations (p.start s) = .ok progress)
    (hunfixed : ∀ call ∈ progress.calls, call.Unfixed) :
    MovedOnce p.fixedObjects progress.applied := by
  have hs : p.Restricts (p.start s) := ⟨⟨.nil, nofun⟩, fun _ ho => ho, nofun⟩
  exact ((search_restricts honce iterations _ progress h).2 hs hunfixed).movedOnce

end LocalSearchProblem

def affinity (a : Assignment) : ℚ :=
  (if a 0 = 2 then 1 else 0) + (if a 1 = 0 then 1 else if a 1 = 2 then 2 else 0) +
    if a 2 = 1 then 1 else 0

def affinityProblem : LocalSearchProblem (Fin 1) Assignment ChangeSet where
  toProblem := .ofValues defaultTolerances [] ⟨[0]⟩ 0 fun a _ => 4 - affinity a
  fixedObjects := .empty
  moveObjectsOnce := true

def threeContainers (moveType : MoveType) (hotContainer : ContainerId) :
    SearchIteration (Fin 1) where
  space := ⟨[0, 1, 2], [0, 1, 2], .empty, id, fun _ _ => false⟩
  evaluator := ⟨⟨⟨[]⟩, fun _ => none⟩, ⟨⟨[0]⟩, false⟩, none⟩
  moveTypes := [moveType]
  hotContainer := hotContainer

theorem chains_applied : (affinityProblem.search pairHash
    [threeContainers (.singleChain ⟨none, none⟩) 0, threeContainers (.singleChain ⟨none, none⟩) 2]
    (affinityProblem.start id)).map (·.applied) =
      .ok [[⟨1, 1, 0⟩, ⟨0, 0, 2⟩], [⟨1, 0, 2⟩, ⟨2, 2, 1⟩]] := by
  decide +kernel

theorem singles_applied : (affinityProblem.search pairHash
    [threeContainers .single 0, threeContainers .single 1] (affinityProblem.start id)).map
      (fun progress => (progress.applied, progress.calls.all fun call =>
        match call.moveType with
        | .single => true
        | _ => false)) = .ok ([[⟨0, 0, 2⟩], [⟨1, 1, 2⟩]], true) := by
  decide +kernel

theorem LocalSearchProblem.singles_movedOnce : ∃ progress, affinityProblem.search pairHash
      [threeContainers .single 0, threeContainers .single 1] (affinityProblem.start id) =
        .ok progress ∧ progress.applied = [[⟨0, 0, 2⟩], [⟨1, 1, 2⟩]] ∧
      (∀ call ∈ progress.calls, call.Unfixed) ∧
      MovedOnce affinityProblem.fixedObjects progress.applied := by
  obtain ⟨progress, h, hp⟩ := exists_of_map_eq_ok singles_applied
  obtain ⟨ha, hc⟩ := Prod.mk.inj hp
  have hu : ∀ call ∈ progress.calls, call.Unfixed := by
    intro call hcall o ho
    have hs := all_eq_true.mp hc call hcall
    cases hm : call.moveType with
    | single =>
      rw [hm] at ho
      exact absurd ho not_false
    | _ =>
      rw [hm] at hs
      cases hs
  exact ⟨progress, h, ha, hu, affinityProblem.search_movedOnce rfl pairHash _ id progress h hu⟩

/-- The partner in a chain is not checked, and object 1 is moved twice. -/
theorem LocalSearchProblem.partner_moved_twice : ∃ progress, affinityProblem.search pairHash
      [threeContainers (.singleChain ⟨none, none⟩) 0, threeContainers (.singleChain ⟨none, none⟩) 2]
      (affinityProblem.start id) = .ok progress ∧
    ¬ MovedOnce affinityProblem.fixedObjects progress.applied := by
  obtain ⟨progress, h, ha⟩ := exists_of_map_eq_ok chains_applied
  refine ⟨progress, h, ?_⟩
  intro hm
  have ho := hm.once
  rw [ha, pairwise_pair] at ho
  exact ho ⟨1, 1, 0⟩ mem_cons_self ⟨1, 0, 2⟩ mem_cons_self rfl

end Rebalancer
