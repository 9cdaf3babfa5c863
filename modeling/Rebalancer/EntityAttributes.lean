import Rebalancer.AssignmentState
import Rebalancer.ChangeSetInverse

namespace Rebalancer
open List AList AssocMap

structure World (V : Type) where
  on : Table ObjectId ContainerId
  values : List V

def getOnlyGroupId (partition : Partition) (objectId : ObjectId) : Except String GroupId :=
  AssignmentState.getOnlyGroup (s!"Expected exactly one group id for object {objectId}, " ++
      s!"but got {(partition.objectIdToGroupIds objectId).length}") partition objectId

structure AllowedScopeItemsPerGroup (V : Type) where
  scopeItemIds : List ScopeItemId
  partition : Partition
  evaluate : World V → GroupId → ScopeItemId → Nat
  scopeItemToGroupToCount : AssocMap ScopeItemId (AssocMap GroupId Nat)

namespace AllowedScopeItemsPerGroup
variable {V : Type}

variable (world : World V)

def evaluateAllowedGroups (partition : Partition)
    (evaluate : World V → GroupId → ScopeItemId → Nat) (scopeItemId : ScopeItemId) :
    AssocMap GroupId Nat :=
  partition.getGroupIds.foldl (fun groupToCount groupId =>
    let count := evaluate world groupId scopeItemId
    if 0 < count then groupToCount.insert groupId count else groupToCount) ∅

def new (scopeItemIds : List ScopeItemId) (partition : Partition)
    (evaluate : World V → GroupId → ScopeItemId → Nat) : AllowedScopeItemsPerGroup V :=
  ⟨scopeItemIds, partition, evaluate, scopeItemIds.foldl (fun m scopeItemId =>
    m.insert scopeItemId (evaluateAllowedGroups world partition evaluate scopeItemId)) ∅⟩

def getGroupsWithNonZeroCount (a : AllowedScopeItemsPerGroup V) (scopeItemId : ScopeItemId) :
    AssocMap GroupId Nat :=
  getD a.scopeItemToGroupToCount scopeItemId ∅

def recomputeCount (groupId : GroupId) (a : AllowedScopeItemsPerGroup V)
    (scopeItemId : ScopeItemId) : AllowedScopeItemsPerGroup V :=
  let groupToCount := getD a.scopeItemToGroupToCount scopeItemId ∅
  let count := a.evaluate world groupId scopeItemId
  { a with
    scopeItemToGroupToCount := a.scopeItemToGroupToCount.insert scopeItemId
      (if 0 < count then groupToCount.insert groupId count else groupToCount.erase groupId) }

def recomputeAllowedScopeItemsForGroup (a : AllowedScopeItemsPerGroup V)
    (groupId : GroupId) : AllowedScopeItemsPerGroup V :=
  a.scopeItemIds.foldl (recomputeCount world groupId) a

def changedGroups (a : AllowedScopeItemsPerGroup V) (changes : List Change) : Except String IdSet :=
  changes.foldlM (fun changedGroups change => do
    let groupId ← getOnlyGroupId a.partition change.object
    .ok (changedGroups.insert groupId)) .empty

def updateOnApply (changes : ChangeSet) (a : AllowedScopeItemsPerGroup V) :
    Except String (AllowedScopeItemsPerGroup V) := do
  let changedGroups ← a.changedGroups changes.changes
  .ok (changedGroups.elems.foldl (recomputeAllowedScopeItemsForGroup world) a)

end AllowedScopeItemsPerGroup

inductive MoveDirection where
  | toSource
  | fromSource

structure OneObjectPerGroup where
  partition : Partition
  sourceContainer : ContainerId
  assignedCounts : AssocMap GroupId Int

namespace OneObjectPerGroup

section
variable (a : OneObjectPerGroup)

def getAssignedCount (groupId : GroupId) : Int := getD a.assignedCounts groupId 0

def recordObjectMove (objectId : ObjectId) (direction : MoveDirection) : OneObjectPerGroup :=
  let delta : Int := match direction with
    | .fromSource => 1
    | .toSource => -1
  { a with
    assignedCounts := (a.partition.objectIdToGroupIds objectId).foldl (fun assignedCounts groupId =>
      assignedCounts.insert groupId (getD assignedCounts groupId 0 + delta))
      a.assignedCounts }

def recordChange (change : Change) : OneObjectPerGroup :=
  if change.container = a.sourceContainer then
    a.recordObjectMove change.object (if change.value = 1 then .toSource else .fromSource)
  else a

end

def updateOnApply (changes : ChangeSet) (a : OneObjectPerGroup) : OneObjectPerGroup :=
  changes.changes.foldl recordChange a

end OneObjectPerGroup

inductive EntityAttributes (V : Type) where
  | allowedScopeItemsPerGroup (a : AllowedScopeItemsPerGroup V)
  | oneObjectPerGroup (a : OneObjectPerGroup)

namespace EntityAttributes

def updateOnApply (world : World V) (changes : ChangeSet) :
    EntityAttributes V → Except String (EntityAttributes V)
  | allowedScopeItemsPerGroup a => do
    let a ← a.updateOnApply world changes
    .ok (.allowedScopeItemsPerGroup a)
  | oneObjectPerGroup a => .ok (.oneObjectPerGroup (a.updateOnApply changes))

end EntityAttributes

abbrev EntityAttributesStore (V : Type) := AssocMap String (EntityAttributes V)

def EntityAttributesStore.updateOnApply (world : World V) (changes : ChangeSet)
    (store : EntityAttributesStore V) : Except String (EntityAttributesStore V) :=
  store.updateAll fun _ => EntityAttributes.updateOnApply world changes

namespace AllowedScopeItemsPerGroup
variable {V : Type}

def stored (count : Nat) : Option Nat := if 0 < count then some count else none

def countOf (a : AllowedScopeItemsPerGroup V) (scopeItemId : ScopeItemId) (groupId : GroupId) :
    Option Nat :=
  (a.getGroupsWithNonZeroCount scopeItemId).lookup groupId

structure Reevaluated (world : World V) (groups : GroupId → Prop)
    (a a' : AllowedScopeItemsPerGroup V) : Prop where
  scopeItemIds : a'.scopeItemIds = a.scopeItemIds
  partition : a'.partition = a.partition
  evaluate : a'.evaluate = a.evaluate
  evaluated : ∀ s ∈ a.scopeItemIds, ∀ g, groups g →
    a'.countOf s g = stored (a.evaluate world g s)
  kept : ∀ s g, (s ∉ a.scopeItemIds ∨ ¬ groups g) → a'.countOf s g = a.countOf s g

theorem recomputeCount_countOf (w : World V) (g : GroupId) (a : AllowedScopeItemsPerGroup V)
    (s s' : ScopeItemId) (g' : GroupId) : (recomputeCount w g a s).countOf s' g' =
      if s' = s ∧ g' = g then stored (a.evaluate w g s) else a.countOf s' g' := by
  change (getD (a.scopeItemToGroupToCount.insert s _) s' ∅).lookup g' = _
  by_cases hs : s' = s
  · subst hs
    rw [getD_insert_self, stored]
    by_cases hg : g' = g
    · subst hg
      by_cases hc : 0 < a.evaluate w g' s'
      · rw [if_pos hc, if_pos hc, if_pos ⟨rfl, rfl⟩]
        exact lookup_insert _
      · rw [if_neg hc, if_neg hc, if_pos ⟨rfl, rfl⟩]
        exact lookup_erase _ _
    · have hne : ¬ (s' = s' ∧ g' = g) := fun h => hg h.2
      split
      · exact lookup_insert_ne hg
      · exact lookup_erase_ne hg
  · rw [getD_insert_ne _ hs, if_neg fun h => hs h.1]
    rfl

theorem foldl_recomputeCount (w : World V) (g : GroupId) (is : List ScopeItemId)
    (a : AllowedScopeItemsPerGroup V) :
      (is.foldl (recomputeCount w g) a).scopeItemIds = a.scopeItemIds ∧
      (is.foldl (recomputeCount w g) a).partition = a.partition ∧
      (is.foldl (recomputeCount w g) a).evaluate = a.evaluate ∧
      ∀ s g', (is.foldl (recomputeCount w g) a).countOf s g' =
        if s ∈ is ∧ g' = g then stored (a.evaluate w g s) else a.countOf s g' := by
  refine foldl_rule (P := fun done a' => scopeItemIds a' = a.scopeItemIds ∧
    a'.partition = a.partition ∧ a'.evaluate = a.evaluate ∧ ∀ s g', a'.countOf s g' =
      if s ∈ done ∧ g' = g then stored (a.evaluate w g s) else a.countOf s g')
    ?_ [] a ⟨rfl, rfl, rfl, fun _ _ => rfl⟩
  rintro item _ done a' ⟨hi, hp, he, hc⟩
  refine ⟨hi, hp, he, ?_⟩
  intro s g'
  rw [recomputeCount_countOf, hc, he]
  by_cases hs : s = item
  · subst hs
    by_cases hg : g' = g
    · simp [hg]
    · simp [hg]
  · simp [hs]

theorem foldl_recompute (w : World V) (gs : List GroupId) (a : AllowedScopeItemsPerGroup V) :
    Reevaluated w (· ∈ gs) a (gs.foldl (recomputeAllowedScopeItemsForGroup w) a) := by
  refine foldl_rule (P := fun done => Reevaluated w (· ∈ done) a) ?_ [] a
    ⟨rfl, rfl, rfl, fun _ _ _ hg => absurd hg not_mem_nil, fun _ _ _ => rfl⟩
  intro group _ done a' h
  obtain ⟨hi, hp, he, hc⟩ := foldl_recomputeCount w group a.scopeItemIds a'
  rw [h.evaluate] at hc
  rw [recomputeAllowedScopeItemsForGroup, h.scopeItemIds]
  refine ⟨hi.trans h.scopeItemIds, hp.trans h.partition, he.trans h.evaluate, ?_, ?_⟩
  · intro s hs g hg
    refine (hc s g).trans ?_
    split_ifs with hn
    · rw [hn.2]
    · refine h.evaluated s hs g ((mem_append.mp hg).resolve_right ?_)
      exact fun hmem => hn ⟨hs, mem_singleton.mp hmem⟩
  · intro s g hk
    rw [mem_append, not_or, mem_singleton] at hk
    refine (hc s g).trans ((if_neg ?_).trans (h.kept s g (hk.imp_right And.left)))
    exact fun hn => hk.elim (fun hs => hs hn.1) fun hg => hg.2 hn.2

def Touched (partition : Partition) (changes : List Change) (g : GroupId) : Prop :=
  ∃ change ∈ changes, getOnlyGroupId partition change.object = .ok g

theorem mem_getInverse_object {cs : ChangeSet} {P : ObjectId → Prop} :
    (∃ change ∈ cs.getInverse.changes, P change.object) ↔
      ∃ change ∈ cs.changes, P change.object := by
  rw [ChangeSet.getInverse, ChangeSet.ofList_changes]
  simp only [mem_map, mem_reverse, exists_exists_and_eq_and]
  rfl

theorem changedGroups_ok (a : AllowedScopeItemsPerGroup V) (cs : List Change)
    (h : ∀ change ∈ cs, ∃ g, getOnlyGroupId a.partition change.object = .ok g) :
    ∃ groups, a.changedGroups cs = .ok groups ∧ ∀ g, g ∈ groups ↔ Touched a.partition cs g := by
  let P (done : List Change) (groups : IdSet) : Prop := ∀ g, g ∈ groups ↔ Touched a.partition done g
  have hs : P [] .empty := fun g => iff_of_false not_mem_nil fun ht => not_mem_nil ht.choose_spec.1
  nth_rewrite 2 [← flatMap_singleton' cs]
  refine exists_foldlM_ok (P := P) ?_ [] .empty hs
  intro change hc done groups hp
  obtain ⟨group, hg⟩ := h change hc
  refine ⟨groups.insert group, by rw [hg, except_ok_bind], ?_⟩
  intro g
  simp only [IdSet.mem_insert, hp g, Touched, mem_append, mem_singleton, or_and_right, exists_or,
    exists_eq_left, hg, Except.ok.injEq]
  rw [or_comm, eq_comm]

theorem changedGroups_known {a : AllowedScopeItemsPerGroup V} (h : a.changedGroups cs = .ok gs) :
    ∀ c ∈ cs, ∃ g, getOnlyGroupId a.partition c.object = .ok g := by
  refine foldlM_ok_forall ?_ cs _ h
  intro s c s' hs
  obtain ⟨g, hg, -⟩ := except_bind_ok hs
  exact ⟨g, hg⟩

theorem updateOnApply_ok (cs : ChangeSet)
    (h : ∀ change ∈ cs.changes, ∃ g, getOnlyGroupId a.partition change.object = .ok g)
    (w : World V) : ∃ a', a.updateOnApply w cs = .ok a' ∧
      Reevaluated w (Touched a.partition cs.changes) a a' := by
  obtain ⟨groups, hgroups, hmem⟩ := changedGroups_ok a cs.changes h
  refine ⟨groups.elems.foldl (recomputeAllowedScopeItemsForGroup w) a, ?_, ?_⟩
  · rw [updateOnApply, hgroups, except_ok_bind]
  · have hre := foldl_recompute w groups.elems a
    refine ⟨hre.scopeItemIds, hre.partition, hre.evaluate, ?_, ?_⟩
    · intro s hs g hg
      exact hre.evaluated s hs g ((hmem g).mpr hg)
    · intro s g hk
      exact hre.kept s g (hk.imp_right fun hg hin => hg ((hmem g).mp hin))

theorem updateOnApply_inverse {a a₁ : AllowedScopeItemsPerGroup V} {w₁ : World V}
    (h : a.updateOnApply w₁ cs = .ok a₁) (w : World V) :
    ∃ a₂, a₁.updateOnApply w cs.getInverse = .ok a₂ ∧
      Reevaluated w (Touched a.partition cs.changes) a a₂ := by
  obtain ⟨groups, hgroups, -⟩ := except_bind_ok h
  have hk := changedGroups_known hgroups
  obtain ⟨a₁', ha₁', hre₁⟩ := updateOnApply_ok cs hk w₁
  rw [h] at ha₁'
  cases ha₁'
  obtain ⟨a₂, ha₂, hre₂⟩ := updateOnApply_ok (a := a₁) cs.getInverse (by
    intro c hc
    rw [hre₁.partition]
    obtain ⟨c', hc', ho⟩ := (mem_getInverse_object (P := fun o => o = c.object)).mp ⟨c, hc, rfl⟩
    rw [← ho]
    exact hk c' hc') w
  have ht : ∀ g, Touched a₁.partition cs.getInverse.changes g ↔
      Touched a.partition cs.changes g := by
    intro g
    rw [hre₁.partition]
    exact mem_getInverse_object (P := fun o => getOnlyGroupId a.partition o = .ok g)
  refine ⟨a₂, ha₂, hre₂.scopeItemIds.trans hre₁.scopeItemIds,
    hre₂.partition.trans hre₁.partition, hre₂.evaluate.trans hre₁.evaluate, ?_, ?_⟩
  · intro s hs g hg
    rw [hre₂.evaluated s (hre₁.scopeItemIds ▸ hs) g ((ht g).mpr hg), hre₁.evaluate]
  · intro s g hkept
    rw [hre₂.kept s g, hre₁.kept s g hkept]
    rcases hkept with hs | hg
    · exact .inl (hre₁.scopeItemIds ▸ hs)
    · exact .inr fun h => hg ((ht g).mp h)

end AllowedScopeItemsPerGroup

namespace OneObjectPerGroup

variable (partition : Partition) (sourceContainer : ContainerId)

def shift (g : GroupId) (change : Change) : Int :=
  if change.container = sourceContainer then
    -change.value * ((partition.objectIdToGroupIds change.object).count g : Int)
  else 0

theorem shift_inverse (g : GroupId) (change : Change) :
    shift partition sourceContainer g change.inverse =
      -shift partition sourceContainer g change := by
  rw [shift, shift]
  change (if change.container = _ then -(-change.value) * _ else _) = _
  split
  · rw [neg_neg, neg_mul, neg_neg]
    rfl
  · rfl

theorem foldl_addDelta (d : Int) (gs : List GroupId) (g : GroupId) : ∀ cs : AssocMap GroupId Int,
      (gs.foldl (fun (cs : AssocMap GroupId Int) groupId =>
        cs.insert groupId (cs.getD groupId 0 + d)) cs).getD g 0 =
      cs.getD g 0 + d * (gs.count g : Int) := by
  induction gs with
  | nil =>
    intro cs
    rw [count_nil, Nat.cast_zero, mul_zero, add_zero]
    rfl
  | cons group gs ih =>
    intro cs
    rw [foldl_cons, ih, count_cons]
    by_cases hg : g = group
    · subst hg
      rw [getD_insert_self, if_pos (beq_self_eq_true g), Nat.cast_add]
      ring
    · rw [getD_insert_ne _ hg, if_neg fun h => hg (beq_iff_eq.mp h).symm, add_zero]

theorem recordChange_count (a : OneObjectPerGroup) (change : Change) (g : GroupId) :
    (a.recordChange change).getAssignedCount g =
      a.getAssignedCount g + shift a.partition a.sourceContainer g change := by
  rw [recordChange, shift]
  split
  · rcases change.valid with hvalue | hvalue
    · rw [if_pos hvalue, hvalue]
      exact foldl_addDelta (-1) _ g a.assignedCounts
    · have hne : change.value ≠ 1 := by
        rw [hvalue]
        decide
      rw [hvalue]
      exact foldl_addDelta 1 _ g a.assignedCounts
  · rw [add_zero]

def SameTracked (a a' : OneObjectPerGroup) : Prop :=
  a'.partition = a.partition ∧ a'.sourceContainer = a.sourceContainer

theorem recordChange_same (a : OneObjectPerGroup) (c : Change) :
    SameTracked a (a.recordChange c) := by
  rw [recordChange]
  split
  · exact ⟨rfl, rfl⟩
  · exact ⟨rfl, rfl⟩

theorem foldl_recordChange (cs : List Change) (a : OneObjectPerGroup) :
    SameTracked a (cs.foldl recordChange a) ∧ ∀ g, (cs.foldl recordChange a).getAssignedCount g =
        a.getAssignedCount g + (cs.map (shift a.partition a.sourceContainer g)).sum := by
  refine foldl_rule (P := fun done a' => SameTracked a a' ∧ ∀ g, a'.getAssignedCount g =
    a.getAssignedCount g + (done.map (shift a.partition a.sourceContainer g)).sum)
    ?_ [] a ⟨⟨rfl, rfl⟩, fun g => (add_zero _).symm⟩
  rintro c _ done a' ⟨⟨hp, hs⟩, hc⟩
  obtain ⟨hp', hs'⟩ := recordChange_same a' c
  refine ⟨⟨hp'.trans hp, hs'.trans hs⟩, ?_⟩
  intro g
  rw [recordChange_count, hc, hp, hs, map_append, sum_append, add_assoc, map_singleton,
    sum_singleton]

theorem sum_shift_inverse (g : GroupId) (cs : List Change) :
    ((cs.reverse.map Change.inverse).map (shift partition sourceContainer g)).sum =
      -(cs.map (shift partition sourceContainer g)).sum := by
  have hc : shift partition sourceContainer g ∘ Change.inverse =
      fun change => -shift partition sourceContainer g change :=
    funext fun change => shift_inverse partition sourceContainer g change
  rw [map_map, hc, map_reverse, sum_reverse, sum_neg, map_map]
  rfl

theorem updateOnApply_inverse (cs : ChangeSet) (a : OneObjectPerGroup) :
    SameTracked a ((a.updateOnApply cs).updateOnApply cs.getInverse) ∧
      ∀ g, ((a.updateOnApply cs).updateOnApply cs.getInverse).getAssignedCount g =
        a.getAssignedCount g := by
  obtain ⟨⟨hp, hs⟩, hc⟩ := foldl_recordChange cs.changes a
  obtain ⟨⟨hp', hs'⟩, hc'⟩ := foldl_recordChange cs.getInverse.changes (a.updateOnApply cs)
  refine ⟨⟨hp'.trans hp, hs'.trans hs⟩, ?_⟩
  intro g
  refine (hc' g).trans ?_
  change (cs.changes.foldl recordChange a).getAssignedCount g + _ = _
  rw [hc]
  change _ + (map (shift (cs.changes.foldl recordChange a).partition
    (cs.changes.foldl recordChange a).sourceContainer g) _).sum = _
  rw [hp, hs, ChangeSet.getInverse, ChangeSet.ofList_changes, sum_shift_inverse,
    add_neg_cancel_right]

end OneObjectPerGroup

namespace EntityAttributes
variable {V : Type}

/-- All that a rejected application keeps; the counts of touched groups are evaluated in the given
world. -/
def Restored (world : World V) (changes : List Change) :
    EntityAttributes V → EntityAttributes V → Prop
  | allowedScopeItemsPerGroup a, allowedScopeItemsPerGroup a' =>
    a.Reevaluated world (AllowedScopeItemsPerGroup.Touched a.partition changes) a'
  | oneObjectPerGroup a, oneObjectPerGroup a' =>
    a.SameTracked a' ∧ ∀ g, a'.getAssignedCount g = a.getAssignedCount g
  | _, _ => False

theorem updateOnApply_inverse (h : a.updateOnApply w₁ cs = .ok a₁) (w : World V) :
    ∃ a₂, a₁.updateOnApply w cs.getInverse = .ok a₂ ∧ Restored w cs.changes a a₂ := by
  cases a with
  | allowedScopeItemsPerGroup a =>
    obtain ⟨b₁, hb₁, h⟩ := except_bind_ok h
    cases h
    obtain ⟨b₂, hb₂, hre⟩ := AllowedScopeItemsPerGroup.updateOnApply_inverse hb₁ w
    refine ⟨.allowedScopeItemsPerGroup b₂, ?_, hre⟩
    rw [updateOnApply, hb₂]
    rfl
  | oneObjectPerGroup a =>
    cases h
    exact ⟨_, rfl, OneObjectPerGroup.updateOnApply_inverse cs a⟩

end EntityAttributes

theorem EntityAttributesStore.updateOnApply_inverse {s s₁ : EntityAttributesStore V}
    (h : s.updateOnApply w₁ cs = .ok s₁) (w : World V) :
    ∃ store₂, s₁.updateOnApply w cs.getInverse = .ok store₂ ∧
      ∀ name, Option.Rel (EntityAttributes.Restored w cs.changes)
        (AList.lookup name s) (AList.lookup name store₂) := by
  have hok := updateAll_ok h
  obtain ⟨store₂, hs₂, hrel⟩ := updateAll_rel (m := s₁)
    (f := fun _ => EntityAttributes.updateOnApply w cs.getInverse)
    (R := fun name a₁ a₂ => ∀ a, lookup name s = some a →
      EntityAttributes.Restored w cs.changes a a₂) (by
      intro name a₁ ha₁
      have hn := hok name
      rw [ha₁] at hn
      cases ha : lookup name s with
      | none =>
        rw [ha] at hn
        cases hn
      | some a =>
        rw [ha] at hn
        cases hn with
        | some hn =>
          obtain ⟨a₂, ha₂, hr⟩ := EntityAttributes.updateOnApply_inverse hn w
          refine ⟨a₂, ha₂, ?_⟩
          intro a' ha'
          cases ha'
          exact hr)
  refine ⟨store₂, hs₂, ?_⟩
  intro name
  exact optionRel_comp (hok name) (hrel name) fun a _ _ ha _ hr => hr a ha

variable {V : Type} (store : EntityAttributesStore V)

/-- Every object of the kind has one group in the partitions that the attributes read. -/
def EntityAttributesStore.Knows (P : ObjectId → Prop) : Prop :=
  ∀ name a, AList.lookup name store = some (.allowedScopeItemsPerGroup a) → ∀ o, P o →
    ∃ g, getOnlyGroupId a.partition o = .ok g

theorem EntityAttributesStore.updateOnApply_ok_iff (cs : ChangeSet) (w : World V) :
    (∃ store', store.updateOnApply w cs = .ok store') ↔
      store.Knows fun o => ∃ change ∈ cs.changes, change.object = o := by
  constructor
  · intro hex name a ha o ho
    obtain ⟨store', hs'⟩ := hex
    obtain ⟨change, hc, rfl⟩ := ho
    have hn := updateAll_ok hs' name
    rw [ha] at hn
    cases hl : lookup name store' with
    | none =>
      rw [hl] at hn
      cases hn
    | some a' =>
      rw [hl] at hn
      cases hn with
      | some hn =>
        obtain ⟨b, hb, -⟩ := except_bind_ok hn
        obtain ⟨g, hg, -⟩ := except_bind_ok hb
        exact AllowedScopeItemsPerGroup.changedGroups_known hg change hc
  · intro hk
    obtain ⟨store', hs', -⟩ := updateAll_rel (m := store)
      (f := fun _ => EntityAttributes.updateOnApply w cs) (R := fun _ _ _ => True) (by
        intro name a ha
        cases a with
        | allowedScopeItemsPerGroup a =>
          obtain ⟨a', ha', -⟩ := AllowedScopeItemsPerGroup.updateOnApply_ok (a := a) cs
            (fun change hc => hk name a ha _ ⟨change, hc, rfl⟩) w
          refine ⟨.allowedScopeItemsPerGroup a', ?_, trivial⟩
          rw [EntityAttributes.updateOnApply, ha']
          rfl
        | oneObjectPerGroup a => exact ⟨_, rfl, trivial⟩)
    exact ⟨store', hs'⟩

end Rebalancer
