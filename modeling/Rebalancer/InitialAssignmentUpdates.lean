import Rebalancer.AssocMap
import Rebalancer.ChangeSet

namespace Rebalancer
open List

abbrev Updates := AssocMap ObjectId ContainerId

structure MoveInProgress where
  objName : ObjectId
  toContainer : ContainerId

/-- `MovesInProgressSpecBuilder::getUpdatesInInitialAssignment`; other specs have no updates. -/
def movesInProgressUpdates (moves : List MoveInProgress) : Updates :=
  moves.foldl (fun inProgress move => inProgress.emplace move.objName move.toContainer) ∅

structure EntityNames where
  object : ObjectId → String
  container : ContainerId → String

namespace Materializer

section
variable (names : EntityNames)

def addUpdate (updates : Updates) (updatesInInitialAssignment : Updates)
    (entry : Sigma fun _ : ObjectId => ContainerId) : Except String Updates :=
  match updates.lookup entry.1 with
  | some existingOverride =>
    if existingOverride ≠ entry.2 then
      .error (s!"object {names.object entry.1} cannot be fixed to {names.container entry.2} " ++
        s!"as it is already fixed to {names.container existingOverride}. Object can be fixed to " ++
        "only one container. Please fix required constraints")
    else .ok (updatesInInitialAssignment.emplace entry.1 entry.2)
  | none => .ok (updatesInInitialAssignment.emplace entry.1 entry.2)

def addUpdates (updatesInInitialAssignment updates : Updates) : Except String Updates :=
  updates.entries.foldlM (addUpdate names updates) updatesInInitialAssignment

section
variable (constraints : List Updates)

def getUpdatesInInitialAssignment : Except String Updates := constraints.foldlM (addUpdates names) ∅

/-- `updatedInitialAssignment`, as the container of each object. -/
def updatedInitialContainer (updates : Updates) (initial : ObjectId → ContainerId)
    (objectId : ObjectId) : ContainerId :=
  (updates.lookup objectId).getD (initial objectId)

theorem addUpdate_ok (acc : Updates) (h : e ∈ us.entries) :
    addUpdate names us acc e = .ok (acc.emplace e.1 e.2) := by
  have hl : us.lookup e.1 = some e.2 := AList.mem_lookup_iff.mpr h
  simp [addUpdate, hl]

theorem foldlM_addUpdate {es : List (Sigma fun _ : ObjectId => ContainerId)} : ∀ acc : Updates,
    (∀ entry ∈ es, entry ∈ us.entries) → ∃ m, es.foldlM (addUpdate names us) acc = .ok m ∧
      ∀ o, m.lookup o = (acc.lookup o).or (es.dlookup o) := by
  induction es with
  | nil =>
    intro acc _
    refine ⟨acc, rfl, ?_⟩
    intro o
    exact (Option.or_none).symm
  | cons entry es ih =>
    intro acc hsub
    obtain ⟨m, hm, hl⟩ := ih (acc.emplace entry.1 entry.2) fun e he => hsub e (mem_cons_of_mem _ he)
    refine ⟨m, ?_, ?_⟩
    · rw [foldlM_cons, addUpdate_ok names acc (hsub entry mem_cons_self), except_ok_bind]
      exact hm
    · intro o
      rw [hl]
      by_cases ho : o = entry.1
      · subst ho
        rw [AssocMap.lookup_emplace, dlookup_cons_eq]
        cases acc.lookup entry.1 with
        | none => rfl
        | some c => rfl
      · rw [AssocMap.lookup_emplace_ne _ ho, dlookup_cons_ne _ _ ho]

theorem addUpdates_ok (acc us : Updates) : ∃ m, addUpdates names acc us = .ok m ∧
      ∀ o, m.lookup o = (acc.lookup o).or (us.lookup o) :=
  foldlM_addUpdate names acc fun _ he => he

def firstRequest (o : ObjectId) : Option ContainerId := constraints.findSome? (AList.lookup o)

theorem foldlM_addUpdates : ∀ acc : Updates,
    ∃ m, constraints.foldlM (addUpdates names) acc = .ok m ∧
      ∀ o, m.lookup o = (acc.lookup o).or (firstRequest constraints o) := by
  induction constraints with
  | nil =>
    intro acc
    refine ⟨acc, rfl, ?_⟩
    intro o
    exact (Option.or_none).symm
  | cons u constraints ih =>
    intro acc
    obtain ⟨m, hm, hl⟩ := addUpdates_ok names acc u
    obtain ⟨m', hm', hl'⟩ := ih m
    refine ⟨m', ?_, ?_⟩
    · rw [foldlM_cons, hm, except_ok_bind]
      exact hm'
    · intro o
      have hf : firstRequest (u :: constraints) o =
          (AList.lookup o u).or (firstRequest constraints o) := by
        rw [firstRequest, findSome?_cons]
        cases AList.lookup o u with
        | none => rfl
        | some c => rfl
      rw [hl', hl, Option.or_assoc, hf]

theorem getUpdatesInInitialAssignment_ok :
    ∃ m, getUpdatesInInitialAssignment names constraints = .ok m ∧
      ∀ o, m.lookup o = firstRequest constraints o := by
  obtain ⟨m, hm, hl⟩ := foldlM_addUpdates names constraints ∅
  refine ⟨m, hm, ?_⟩
  intro o
  rw [hl]
  rfl

def Requests (o : ObjectId) (c : ContainerId) : Prop :=
  ∃ updates ∈ constraints, updates.lookup o = some c

def Conflicting : Prop := ∃ o c c', Requests constraints o c ∧ Requests constraints o c' ∧ c ≠ c'

def Merges : Prop :=
  (¬ Conflicting constraints → ∃ m, getUpdatesInInitialAssignment names constraints = .ok m ∧
    ∀ o c, m.lookup o = some c ↔ Requests constraints o c) ∧
  (Conflicting constraints →
    ∃ message, getUpdatesInInitialAssignment names constraints = .error message)

end

theorem requests_perm (h : cs'.Perm cs) : Requests cs' o c ↔ Requests cs o c := by
  refine ⟨?_, ?_⟩
  · intro hr
    obtain ⟨u, hmem, hl⟩ := hr
    exact ⟨u, h.mem_iff.mp hmem, hl⟩
  · intro hr
    obtain ⟨u, hmem, hl⟩ := hr
    exact ⟨u, h.mem_iff.mpr hmem, hl⟩

theorem conflicting_perm (h : cs'.Perm constraints) :
    Conflicting cs' ↔ Conflicting constraints := by
  simp [Conflicting, requests_perm h]

theorem requests_of_first (h : firstRequest cs o = some c) : Requests cs o c := by
  obtain ⟨u, hmem, hl⟩ := exists_of_findSome?_eq_some h
  exact ⟨u, hmem, hl⟩

theorem first_of_requests (h : Requests cs o c) : ∃ c', firstRequest cs o = some c' := by
  obtain ⟨u, hmem, hl⟩ := h
  apply Option.isSome_iff_exists.mp
  rw [firstRequest, findSome?_isSome_iff]
  exact ⟨u, hmem, by rw [hl]; rfl⟩

theorem merges_of_not_conflicting (h : ¬ Conflicting constraints) : Merges names constraints := by
  refine ⟨?_, fun hc => absurd hc h⟩
  intro _
  obtain ⟨m, hm, hl⟩ := getUpdatesInInitialAssignment_ok names constraints
  refine ⟨m, hm, ?_⟩
  intro o c
  rw [hl]
  refine ⟨requests_of_first, ?_⟩
  intro hr
  obtain ⟨c', hc'⟩ := first_of_requests hr
  have heq : c' = c := by
    by_contra hne
    exact h ⟨o, c', c, requests_of_first hc', hr, hne⟩
  rw [hc', heq]

/-- The updates are merged as they should be, in whatever order the constraints come, exactly if
they do not conflict. -/
theorem merges_iff_not_conflicting (constraints : List Updates) :
    (∀ constraints', constraints'.Perm constraints → Merges names constraints') ↔
      ¬ Conflicting constraints := by
  refine ⟨?_, ?_⟩
  · intro h hc
    obtain ⟨message, he⟩ := (h constraints .rfl).2 hc
    obtain ⟨m, hm, -⟩ := getUpdatesInInitialAssignment_ok names constraints
    rw [hm] at he
    cases he
  · intro h constraints' hp
    exact merges_of_not_conflicting names fun hc => h ((conflicting_perm hp).mp hc)

end

def opposedMoves : List Updates :=
    [movesInProgressUpdates [⟨0, 1⟩], movesInProgressUpdates [⟨0, 2⟩]]

theorem opposedMoves_accepted : Conflicting opposedMoves ∧
    (getUpdatesInInitialAssignment ⟨toString, toString⟩ opposedMoves).toOption.map
      (AList.lookup 0) = some (some 1) := by
  refine ⟨⟨0, 1, 2, ?_, ?_, by decide⟩, by decide⟩
  · exact ⟨_, mem_cons_self, rfl⟩
  · exact ⟨_, mem_cons_of_mem _ mem_cons_self, rfl⟩

end Materializer

end Rebalancer
