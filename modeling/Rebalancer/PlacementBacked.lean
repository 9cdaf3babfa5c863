import Rebalancer.FixedJustified

namespace Rebalancer
open List Assignment Materializer GroupMoveLimitSpec

theorem lookup_emplaceMoves {moves : List MoveInProgress} : ∀ acc : Updates,
    (moves.foldl (fun inProgress move => inProgress.emplace move.objName move.toContainer)
      acc).lookup o = some c → acc.lookup o = some c ∨ ⟨o, c⟩ ∈ moves := by
  intro acc
  refine foldlRecOn (motive := fun m : Updates => m.lookup o = some c →
    acc.lookup o = some c ∨ ⟨o, c⟩ ∈ moves) _ _ .inl ?_
  intro m ih move hmem ha
  by_cases ho : o = move.objName
  · subst ho
    rw [AssocMap.lookup_emplace] at ha
    cases hl : m.lookup move.objName with
    | none =>
      rw [hl] at ha
      cases ha
      exact .inr hmem
    | some c' =>
      rw [hl] at ha
      exact ih (hl.trans ha)
  · rw [AssocMap.lookup_emplace_ne _ ho] at ha
    exact ih ha

namespace ConstraintUniverse
variable {u : ConstraintUniverse} {a : Assignment}

section
variable (u : ConstraintUniverse)

def updatedInitial (o : ObjectId) : ContainerId :=
  (firstRequest (u.constraints.map fun c => updatesOf c.spec) o).getD (u.initialContainer o)

def hardComponents : List (Assignment → ℚ) :=
  u.constraints.flatMap (u.hardComponentsOf u.updatedInitial)

def fixedObjects : List ObjectId := u.constraints.flatMap fun c => u.fixedObjectsOf c.spec

def nonAcceptingContainers : List ContainerId :=
  u.constraints.flatMap fun c => nonAcceptingContainersOf c.spec

theorem materialize_ok : u.materialize = .ok ⟨u.updatedInitial, u.hardComponents, u.fixedObjects,
      u.nonAcceptingContainers,
      u.collectFixedContainers u.fixedObjects u.nonAcceptingContainers⟩ := by
  obtain ⟨m, hm, hl⟩ := getUpdatesInInitialAssignment_ok u.names
    (u.constraints.map fun c => updatesOf c.spec)
  have hu : updatedInitialContainer m u.initialContainer = u.updatedInitial := by
    funext o
    rw [updatedInitialContainer, hl, updatedInitial]
  rw [materialize, hm, except_ok_bind, hu]
  rfl

def InProgress (o : ObjectId) : Prop := o ∈ u.movesInProgress.map (·.objName)

end

theorem mem_movesInProgress :
    move ∈ u.movesInProgress ↔ ∃ c ∈ u.constraints, ∃ moves, c.spec = .movesInProgress moves ∧
      move ∈ moves := by
  rw [movesInProgress, mem_flatMap]
  constructor
  · intro ⟨c, hc, hm⟩
    cases hspec : c.spec with
    | movesInProgress moves =>
      rw [hspec] at hm
      exact ⟨c, hc, moves, hspec, hm⟩
    | avoidMoving _ =>
      rw [hspec] at hm
      cases hm
    | groupMoveLimit _ =>
      rw [hspec] at hm
      cases hm
    | nonAccepting _ =>
      rw [hspec] at hm
      cases hm
  · intro ⟨c, hc, moves, hspec, hm⟩
    refine ⟨c, hc, ?_⟩
    rw [hspec]
    exact hm

theorem move_of_update (h : (updatesOf spec).lookup o = some c) :
    ∃ moves, spec = .movesInProgress moves ∧ ⟨o, c⟩ ∈ moves := by
  cases spec with
  | movesInProgress moves =>
    rcases lookup_emplaceMoves ∅ h with he | hmem
    · cases he
    · exact ⟨moves, rfl, hmem⟩
  | avoidMoving _ => cases h
  | groupMoveLimit _ => cases h
  | nonAccepting _ => cases h

theorem updatedInitial_cases (u : ConstraintUniverse) (o : ObjectId) :
    u.updatedInitial o = u.initialContainer o ∨ ⟨o, u.updatedInitial o⟩ ∈ u.movesInProgress := by
  rw [updatedInitial]
  cases hr : firstRequest (u.constraints.map fun c => updatesOf c.spec) o with
  | none => exact .inl rfl
  | some d =>
    obtain ⟨updates, hu, hl⟩ := exists_of_findSome?_eq_some hr
    obtain ⟨c, hc, rfl⟩ := mem_map.mp hu
    obtain ⟨m, hspec, hm⟩ := move_of_update hl
    exact .inr (mem_movesInProgress.mpr ⟨c, hc, m, hspec, hm⟩)

theorem updatedInitial_of_not_inProgress (h : ¬ u.InProgress o) :
    u.updatedInitial o = u.initialContainer o := by
  rcases u.updatedInitial_cases o with heq | hm
  · exact heq
  · exact absurd (mem_map_of_mem (f := MoveInProgress.objName) hm) h

theorem accepted_of_movesInProgress (h : move ∈ u.movesInProgress) :
    move.objName ∈ u.objects ∧ move.toContainer ∈ u.containers := by
  obtain ⟨c, hc, m, hspec, hm⟩ := mem_movesInProgress.mp h
  have ha := u.accepted c hc
  rw [hspec] at ha
  exact ha move hm

theorem updatedInitial_mem (ho : o ∈ u.objects) : u.updatedInitial o ∈ u.containers := by
  rcases u.updatedInitial_cases o with heq | hm
  · rw [heq]
    exact u.initial_mem o ho
  · exact (accepted_of_movesInProgress hm).2

theorem InProgress.mem_objects (h : u.InProgress o) : o ∈ u.objects := by
  obtain ⟨move, hm, rfl⟩ := mem_map.mp h
  exact (accepted_of_movesInProgress hm).1

theorem InProgress.mem_fixedObjects (h : u.InProgress o) : o ∈ u.fixedObjects := by
  obtain ⟨move, hm, rfl⟩ := mem_map.mp h
  obtain ⟨c, hc, m, hspec, hmem⟩ := mem_movesInProgress.mp hm
  rw [fixedObjects, mem_flatMap]
  refine ⟨c, hc, ?_⟩
  rw [hspec]
  exact mem_map_of_mem hmem

theorem relevantObjects_updatedInitial (h : o ∈ u.relevantObjects l) :
    u.updatedInitial o = u.initialContainer o := by
  apply updatedInitial_of_not_inProgress
  have hn := (mem_filter.mp h).2
  rw [decide_eq_true_eq] at hn
  exact hn

theorem mem_objects_of_fixed (h : o ∈ u.fixedObjects) : o ∈ u.objects := by
  obtain ⟨c, hc, ho⟩ := mem_flatMap.mp h
  have ha := u.accepted c hc
  cases hspec : c.spec with
  | avoidMoving l =>
    rw [hspec] at ho ha
    exact ha o ho
  | groupMoveLimit spec =>
    rw [hspec] at ho ha
    rw [fixedObjectsOf, GroupMoveLimitSpec.fixedObjects] at ho
    split at ho
    · cases ho
    · obtain ⟨g, -, hg⟩ := mem_flatMap.mp ho
      split at hg
      · cases hg
      · split at hg
        · exact ha.1 g o hg
        · cases hg
  | nonAccepting _ =>
    rw [hspec] at ho
    cases ho
  | movesInProgress m =>
    rw [hspec] at ho ha
    obtain ⟨move, hm, rfl⟩ := mem_map.mp ho
    exact (ha move hm).1

theorem mem_containers_of_nonAccepting (h : c ∈ u.nonAcceptingContainers) : c ∈ u.containers := by
  obtain ⟨constraint, hconstraint, hc⟩ := mem_flatMap.mp h
  have ha := u.accepted constraint hconstraint
  cases hspec : constraint.spec with
  | nonAccepting i =>
    rw [hspec] at hc ha
    obtain ⟨item, hi, hmem⟩ := mem_flatMap.mp hc
    split at hmem
    · cases hmem
    · exact ha item hi c hmem
  | avoidMoving _ =>
    rw [hspec] at hc
    cases hc
  | groupMoveLimit _ =>
    rw [hspec] at hc
    cases hc
  | movesInProgress _ =>
    rw [hspec] at hc
    cases hc

theorem hard_of_raised (expr : Assignment → ℚ) (hc : c ∈ u.constraints) (hp : c.policy ≠ .soft)
    (hi : ⟨expr, v, none⟩ ∈ u.constraintInfos u.updatedInitial c.spec) (hn : 0 ≤ v)
    (hr : v < expr a) : ∃ h ∈ u.hardComponents, 0 < h a := by
  obtain ⟨h, hh, hpos⟩ := ConstraintInfo.hardComponent_pos u.precision hp hn hr
  exact ⟨h, mem_flatMap.mpr ⟨c, hc, mem_filterMap.mpr ⟨_, hi, hh⟩⟩, hpos⟩

theorem hardComponents_cases (h : c' ∈ u.hardComponents) :
    ∃ c ∈ u.constraints, c.policy ≠ .soft ∧ ∃ info ∈ u.constraintInfos u.updatedInitial c.spec,
      ∃ excused, (excused = 0 ∨ excused = info.initialValue) ∧
        ∀ a, c' a = info.constraintExpr a - excused := by
  obtain ⟨c, hc, hcomponent⟩ := mem_flatMap.mp h
  obtain ⟨info, hi, hs⟩ := mem_filterMap.mp hcomponent
  have hpolicy : c.policy ≠ .soft := by
    intro hsoft
    rw [info.hardComponent_soft u.precision hsoft] at hs
    cases hs
  refine ⟨c, hc, hpolicy, info, hi, ?_⟩
  rcases info.hardComponent_cases u.precision hpolicy with heq | ⟨heq, -⟩
  · refine ⟨0, .inl rfl, ?_⟩
    intro a
    rw [heq] at hs
    rw [← Option.some.inj hs, sub_zero]
  · have hcopy : info.doNotMakeWorseCopy = none := by
      cases hspec : c.spec with
      | avoidMoving _ =>
        rw [hspec] at hi
        rw [mem_singleton.mp hi]
      | groupMoveLimit _ =>
        rw [hspec] at hi
        rw [mem_singleton.mp hi]
      | nonAccepting _ =>
        rw [hspec] at hi
        obtain ⟨item, -, rfl⟩ := mem_map.mp hi
        rfl
      | movesInProgress _ =>
        rw [hspec] at hi
        rw [mem_singleton.mp hi]
    refine ⟨info.initialValue, .inr rfl, ?_⟩
    intro a
    rw [heq] at hs
    rw [← Option.some.inj hs, ConstraintInfo.getViolationBeyondInitial, hcopy]

/-- Some constraint that is not soft forbids the object to be in the container, whatever the other
objects do. -/
inductive Held (u : ConstraintUniverse) (o : ObjectId) (d : ContainerId) : Prop where
  | avoidMoving (c : SpecConstraint) (listed : List ObjectId) (hc : c ∈ u.constraints)
    (hpolicy : c.policy ≠ .soft) (hspec : c.spec = .avoidMoving listed)
    (ho : o ∈ u.relevantObjects listed)
  | movesInProgress (c : SpecConstraint) (moves : List MoveInProgress) (hc : c ∈ u.constraints)
    (hpolicy : c.policy ≠ .soft) (hspec : c.spec = .movesInProgress moves)
    (ho : o ∈ moves.map (·.objName)) (hmade : Made u.updatedInitial moves)
  | groupMoveLimit (c : SpecConstraint) (spec : GroupMoveLimitSpec) (g : GroupId)
    (hc : c ∈ u.constraints) (hpolicy : c.policy ≠ .soft) (hspec : c.spec = .groupMoveLimit spec)
    (hg : o ∈ spec.partition.getObjectIds g)
    (haffects : spec.doesMoveAffectLimit u.updatedInitial o d = true)
    (hlimit : spec.limit.getLimit g < (spec.getObjectMoveCost u.updatedInitial o d : ℚ))

def ClosedTo (u : ConstraintUniverse) (o : ObjectId) (d : ContainerId) : Prop :=
  ∃ c ∈ u.constraints, c.policy ≠ .soft ∧ ∃ items, c.spec = .nonAccepting items ∧
    ∃ item ∈ items, d ∈ item ∧ u.updatedInitial o ∉ item ∧ u.initialContainer o ∉ item

theorem Held.positive (h : u.Held o (a o)) (ha : ∀ q ∈ u.objects, a q ∈ u.containers)
    (ho : o ∈ u.objects) (hm : a o ≠ u.updatedInitial o) : ∃ h ∈ u.hardComponents, 0 < h a := by
  cases h with
  | avoidMoving c l hc hpolicy hspec hrelevant =>
    have haccepted := u.accepted c hc
    rw [hspec] at haccepted
    have hr :=
        avoidMovingExpr_raised haccepted (fun _ h => relevantObjects_updatedInitial h) hrelevant hm
    apply hard_of_raised (u.avoidMovingExpr l) hc hpolicy _
      (u.avoidMovingExpr_nonneg l u.updatedInitial) hr
    rw [hspec]
    exact mem_singleton_self _
  | movesInProgress c m hc hpolicy hspec hl hmade =>
    have hr := movesInProgressExpr_raised hmade hl hm
    apply hard_of_raised (movesInProgressExpr m) hc hpolicy _
      (movesInProgressExpr_nonneg m u.updatedInitial) hr
    rw [hspec]
    exact mem_singleton_self _
  | groupMoveLimit c spec g hc hpolicy hspec hg haffects hlimit =>
    have haccepted := u.accepted c hc
    rw [hspec] at haccepted
    have hr : 0 < spec.moveLimitValue u.objects u.updatedInitial a := by
      apply moveLimitValue_pos _ ho hg haffects hlimit
      intro q hq
      exact getObjectMoveCost_nonneg haccepted.2 hq (ha q hq)
    apply hard_of_raised (spec.moveLimitValue u.objects u.updatedInitial) hc hpolicy _ (le_refl 0)
      hr
    rw [hspec]
    exact mem_singleton_self _

theorem ClosedTo.positive (h : u.ClosedTo o (a o)) (ho : o ∈ u.objects)
    (hs : ∀ q, u.InProgress q → a q = u.updatedInitial q) : ∃ h ∈ u.hardComponents, 0 < h a := by
  obtain ⟨c, hc, hpolicy, i, hspec, item, hi, hin, hu, hinitial⟩ := h
  have hr : u.newUtilExpr item u.updatedInitial < u.newUtilExpr item a := by
    apply newUtilExpr_raised ho hin hu hinitial
    intro q _ hq hqi
    by_cases hp : u.InProgress q
    · exact hs q hp
    · rw [updatedInitial_of_not_inProgress hp] at hq
      exact absurd hq hqi
  apply hard_of_raised (u.newUtilExpr item) hc hpolicy _
    (u.newUtilExpr_nonneg item u.updatedInitial) hr
  rw [hspec]
  exact mem_map_of_mem hi

/-- Whatever the lists of fixed objects and containers exclude makes some hard component
positive. -/
def Justified (u : ConstraintUniverse) : Prop := ∃ materialized, u.materialize = .ok materialized ∧
    ∀ a : Assignment, (∀ o ∈ u.objects, a o ∈ u.containers) →
      ((∃ o ∈ materialized.fixedObjects, a o ≠ materialized.updatedInitialAssignment o) ∨
        (∃ c ∈ materialized.nonAcceptingContainers, ∃ o ∈ u.objects,
          a o = c ∧ materialized.updatedInitialAssignment o ≠ c) ∨
        (∃ c ∈ materialized.fixedContainers, ∃ o ∈ u.objects,
          ¬ (a o = c ↔ materialized.updatedInitialAssignment o = c))) →
      ∃ h ∈ materialized.hardComponents, 0 < h a

def Backed (u : ConstraintUniverse) : Prop :=
  (∀ o ∈ u.fixedObjects, ∀ d ∈ u.containers, d ≠ u.updatedInitial o →
    u.Held o d ∨ ¬ u.InProgress o ∧ u.ClosedTo o d) ∧
  ∀ c ∈ u.nonAcceptingContainers, ∀ o ∈ u.objects, u.updatedInitial o ≠ c →
    u.Held o c ∨ u.ClosedTo o c

/-- The hard components allow the start, and no move in progress is held back by a scope item alone.
-/
structure Undisturbed (u : ConstraintUniverse) : Prop where
  satisfied : ∀ h ∈ u.hardComponents, h u.updatedInitial ≤ 0
  made : ∀ c ∈ u.constraints, c.policy ≠ .soft →
    ∀ moves, c.spec = .movesInProgress moves → Made u.updatedInitial moves
  held : ∀ o, u.InProgress o → ∀ d, u.ClosedTo o d → u.Held o d

theorem fixedContainer_cases
    (hc : c ∈ u.collectFixedContainers u.fixedObjects u.nonAcceptingContainers)
    (ho : o ∈ u.objects) (hm : ¬ (a o = c ↔ u.updatedInitial o = c)) :
    (o ∈ u.fixedObjects ∧ a o ≠ u.updatedInitial o) ∨
      (c ∈ u.nonAcceptingContainers ∧ a o = c ∧ u.updatedInitial o ≠ c) := by
  obtain ⟨haccepts, hall⟩ := mem_filter.mp hc
  by_cases ha : a o = c
  · exact .inr ⟨haccepts, ha, fun h => hm ⟨fun _ => h, fun _ => ha⟩⟩
  · have hu : u.updatedInitial o = c := by
      by_contra hne
      exact hm ⟨fun h => absurd h ha, fun h => absurd h hne⟩
    refine .inl ⟨?_, fun h => ha (h.trans hu)⟩
    by_cases hp : u.InProgress o
    · exact hp.mem_fixedObjects
    · rw [updatedInitial_of_not_inProgress hp] at hu
      apply of_decide_eq_true
      apply all_eq_true.mp hall
      exact mem_filter.mpr ⟨ho, decide_eq_true hu⟩

theorem Backed.justified (h : u.Backed) : u.Justified := by
  obtain ⟨hfixed, haccepts⟩ := h
  refine ⟨_, u.materialize_ok, ?_⟩
  intro a ha hmove
  by_cases hs : ∀ q, u.InProgress q → a q = u.updatedInitial q
  · have hfirst : ∀ o ∈ u.fixedObjects, a o ≠ u.updatedInitial o →
        ∃ h ∈ u.hardComponents, 0 < h a := by
      intro o ho hm
      have hobject := mem_objects_of_fixed ho
      rcases hfixed o ho (a o) (ha o hobject) hm with hh | ⟨-, hclosed⟩
      · exact hh.positive ha hobject hm
      · exact hclosed.positive hobject hs
    have hsecond : ∀ c ∈ u.nonAcceptingContainers, ∀ o ∈ u.objects, a o = c →
        u.updatedInitial o ≠ c → ∃ h ∈ u.hardComponents, 0 < h a := by
      intro c hc o ho hao hne
      subst hao
      rcases haccepts (a o) hc o ho hne with hh | hclosed
      · exact hh.positive ha ho hne.symm
      · exact hclosed.positive ho hs
    rcases hmove with ⟨o, ho, hm⟩ | ⟨c, hc, o, ho, hao, hne⟩ | ⟨c, hc, o, ho, hm⟩
    · exact hfirst o ho hm
    · exact hsecond c hc o ho hao hne
    · rcases fixedContainer_cases hc ho hm with ⟨hf, hm⟩ | ⟨hc, hao, hne⟩
      · exact hfirst o hf hm
      · exact hsecond c hc o ho hao hne
  · rw [not_forall] at hs
    obtain ⟨q, hq⟩ := hs
    rw [Classical.not_imp] at hq
    obtain ⟨hp, hm⟩ := hq
    have hobject := hp.mem_objects
    rcases hfixed q hp.mem_fixedObjects (a q) (ha q hobject) hm with hh | ⟨hn, -⟩
    · exact hh.positive ha hobject hm
    · exact absurd hp hn

theorem Undisturbed.held_or_closed (h : u.Undisturbed) (hco : c' ∈ u.hardComponents)
    (hp : 0 < c' (moveTo u.updatedInitial o d)) : u.Held o d ∨ u.ClosedTo o d := by
  obtain ⟨c, hc, hpolicy, info, hi, e, he, heq⟩ := hardComponents_cases hco
  have hs := h.satisfied c' hco
  rw [heq] at hp hs
  have ha := u.accepted c hc
  have hk : ∀ q, q ≠ o → moveTo u.updatedInitial o d q = u.updatedInitial q :=
    fun q hq => if_neg hq
  cases hspec : c.spec with
  | avoidMoving l =>
    rw [hspec] at hi ha
    rw [mem_singleton.mp hi] at hp hs
    by_cases ho : o ∈ u.relevantObjects l
    · exact .inl (.avoidMoving c l hc hpolicy hspec ho)
    · have hsame := avoidMovingExpr_congr ha fun q hq => hk q fun hqo => ho (hqo ▸ hq)
      simp only [hsame] at hp
      exact absurd hs (not_le.mpr hp)
  | groupMoveLimit spec =>
    rw [hspec] at hi
    rw [mem_singleton.mp hi] at hp he
    by_contra hnone
    have hle : spec.moveLimitValue u.objects u.updatedInitial
        (moveTo u.updatedInitial o d) ≤ 0 := by
      apply moveLimitValue_moveTo_le u.objects_nodup
      intro g hg haffects
      by_contra hlimit
      exact hnone (.inl (.groupMoveLimit c spec g hc hpolicy hspec hg haffects (not_le.mp hlimit)))
    rw [or_self] at he
    rw [he, sub_zero] at hp
    exact absurd hle (not_le.mpr hp)
  | nonAccepting i =>
    rw [hspec] at hi
    obtain ⟨item, hitem, rfl⟩ := mem_map.mp hi
    by_contra hnone
    have hle : u.newUtilExpr item (moveTo u.updatedInitial o d) ≤
        u.newUtilExpr item u.updatedInitial := by
      apply newUtilExpr_moveTo_le
      intro hd
      by_contra hout
      rw [not_or] at hout
      exact hnone (.inr ⟨c, hc, hpolicy, i, hspec, item, hitem, hd, hout⟩)
    exact absurd ((sub_le_sub_right hle e).trans hs) (not_le.mpr hp)
  | movesInProgress m =>
    rw [hspec] at hi
    rw [mem_singleton.mp hi] at hp hs
    by_cases ho : o ∈ m.map (·.objName)
    · exact .inl (.movesInProgress c m hc hpolicy hspec ho (h.made c hc hpolicy m hspec))
    · have hsame := movesInProgressExpr_congr fun move hm => hk move.objName
        fun hqo => ho (hqo ▸ mem_map_of_mem hm)
      simp only [hsame] at hp
      exact absurd hs (not_le.mpr hp)

theorem Undisturbed.backed (h : u.Undisturbed) (hj : u.Justified) : u.Backed := by
  obtain ⟨m, hok, hj⟩ := hj
  rw [materialize_ok] at hok
  cases hok
  have hm : ∀ o d, d ∈ u.containers → ∀ q ∈ u.objects,
      moveTo u.updatedInitial o d q ∈ u.containers := by
    intro o d hd q hq
    rw [moveTo]
    split
    · exact hd
    · exact updatedInitial_mem hq
  have hself : ∀ o d, moveTo u.updatedInitial o d o = d := fun o d => if_pos rfl
  constructor
  · intro o ho d hd hne
    obtain ⟨component, hcomponent, hp⟩ := hj _ (hm o d hd) (.inl ⟨o, ho, by rw [hself]; exact hne⟩)
    rcases h.held_or_closed hcomponent hp with hh | hclosed
    · exact .inl hh
    · by_cases hprogress : u.InProgress o
      · exact .inl (h.held o hprogress d hclosed)
      · exact .inr ⟨hprogress, hclosed⟩
  · intro c hc o ho hne
    obtain ⟨component, hcomponent, hp⟩ := hj _
      (hm o c (mem_containers_of_nonAccepting hc)) (.inr (.inl ⟨c, hc, o, ho, hself o c, hne⟩))
    exact h.held_or_closed hcomponent hp

/-- The lists are justified where a hard constraint excludes the moves, and only there. -/
theorem justified_where_backed (u : ConstraintUniverse) :
    (u.Backed → u.Justified) ∧ (u.Undisturbed → (u.Justified ↔ u.Backed)) :=
  ⟨Backed.justified, fun h => ⟨h.backed, Backed.justified⟩⟩

def avoidFirst (policy : ConstraintPolicy) : ConstraintUniverse where
  precision := defaultTolerances
  names := ⟨fun _ => "", fun _ => ""⟩
  objects := [0]
  containers := [0, 1]
  initialContainer := fun _ => 0
  constraints := [⟨⟨policy, 1, 0⟩, .avoidMoving [0]⟩]
  objects_nodup := nodup_zero
  containers_nodup := nodup_zero_one
  initial_mem := by decide
  accepted := by
    intro c hc
    rw [List.mem_singleton.mp hc]
    exact fun _ ho => ho

theorem avoidFirst_hard_justified : (avoidFirst .hard).Backed ∧ (avoidFirst .hard).Justified := by
  have hb : (avoidFirst .hard).Backed := by
    constructor
    · intro o ho d _ _
      exact .inl (.avoidMoving _ [0] mem_cons_self (by decide) rfl ho)
    · intro c hc
      cases hc
  exact ⟨hb, (justified_where_backed _).1 hb⟩

/-- An object of a soft constraint is listed as fixed, and there is no hard component at all. -/
theorem avoidFirst_soft_unjustified : ¬ (avoidFirst .soft).Justified := by
  intro ⟨m, hok, hj⟩
  cases hok
  obtain ⟨h, hh, -⟩ := hj (fun _ => 1) (fun _ _ => by decide) (.inl ⟨0, mem_cons_self, by decide⟩)
  cases hh

end ConstraintUniverse

end Rebalancer
