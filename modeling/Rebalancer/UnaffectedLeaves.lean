import Rebalancer.LookupChanges
import Rebalancer.MoveLimit

namespace Rebalancer
open List

namespace AffectedByChange
variable {f' : ChangeFilterFn} {key : Change → Nat} {keys es : List Nat} {changes : List Change}

theorem calls_of_pushes (h : pushes info cs = 0) (ht : info.getType = .ok t) :
    info.calls t cs = 0 := by
  simp only [pushes, ht] at h
  split at h
  · omega
  · exact h

theorem exists_of_not_passes (h : passesFilter f' changes ≠ true) (hch : ch ∈ changes) :
    ∃ f, f' = some f ∧ f ch = false := by
  cases f' with
  | none => exact absurd rfl h
  | some f =>
    exact ⟨f, rfl, eq_false_of_ne_true fun hf => h (any_eq_true.mpr ⟨ch, hch, hf⟩)⟩

theorem refused (h : keys.countP (fun k => decide (k ∈ es) &&
      passesFilter f' (changes.filter fun ch => key ch = k)) = 0) (hk : key ch ∈ keys)
    (hch : ch ∈ changes) (he : key ch ∈ es) : ∃ f, f' = some f ∧ f ch = false := by
  have hn := countP_eq_zero.mp h _ hk
  rw [Bool.and_eq_true, not_and] at hn
  exact exists_of_not_passes (hn (decide_eq_true he)) (mem_filter.mpr ⟨hch, decide_eq_true rfl⟩)

theorem refused_of_containers (h : (ofContainers containers f').pushes cs = 0)
    (hch : ch ∈ cs.changes) (hc : ch.container ∈ containers) :
    ∃ f, f' = some f ∧ f ch = false :=
  refused (calls_of_pushes h rfl) ((cs.mem_containers _).mpr ⟨ch, hch, rfl⟩) hch hc

theorem refused_of_objects (h : (ofObjects os f').pushes cs = 0)
    (hch : ch ∈ cs.changes) (ho : ch.object ∈ os) :
    ∃ f, f' = some f ∧ f ch = false :=
  refused (calls_of_pushes h rfl) ((cs.mem_objects _).mpr ⟨ch, hch, rfl⟩) hch ho

end AffectedByChange

open AffectedByChange

namespace ObjectLookup
variable {u : Universe partitions} (l : ObjectLookup u) (data : AffectedByChangeDecisionData)

def nonDefaultObjectIds : IdSet :=
  ⟨l.objectVector.nonDefaultEntries.map Prod.fst, l.objectVector.nodup_nonDefaultEntries⟩

def useObjectsForAffectedByChangeIndex : Prop :=
  l.objectVector.defaultValue = 0 ∧ 0 < data.numTotalObjects ∧ 0 < data.numTotalContainers ∧
    (l.objectVector.nonDefaultCount / data.numTotalObjects : ℚ) <
      l.containers.size / data.numTotalContainers

instance : Decidable (l.useObjectsForAffectedByChangeIndex data) := by
  unfold useObjectsForAffectedByChangeIndex
  infer_instance

def isAffectedByChange : AffectedByChange :=
  if l.useObjectsForAffectedByChangeIndex data then
    .ofObjects l.nonDefaultObjectIds (if l.containers.size < data.numTotalContainers then
      some fun change => change.container ∈ l.containers else none)
  else
    .ofContainers l.containers (if l.objectVector.defaultValue = 0 ∧
        l.objectVector.nonDefaultCount < data.numTotalObjects then
      some fun change => l.getObjectValue change.object ≠ 0 else none)

variable {l data}

variable (h : (l.isAffectedByChange data).pushes cs = 0)
include h

theorem value_eq_zero_of_not_queued (hch : ch ∈ cs.changes) (hc : ch.container ∈ l.containers) :
    l.getObjectValue ch.object = 0 := by
  rw [isAffectedByChange] at h
  split at h
  · rename_i hi
    by_contra hv
    have ho : ch.object ∈ l.nonDefaultObjectIds := by
      by_contra hn
      exact hv ((l.objectVector.getObjectValue_of_not_mem hn).trans hi.1)
    obtain ⟨f, hf, hfalse⟩ := refused_of_objects h hch ho
    obtain ⟨-, ⟨⟩⟩ := Option.ite_none_right_eq_some.mp hf
    exact of_decide_eq_false hfalse hc
  · obtain ⟨f, hf, hfalse⟩ := refused_of_containers h hch hc
    obtain ⟨-, ⟨⟩⟩ := Option.ite_none_right_eq_some.mp hf
    exact not_not.mp (of_decide_eq_false hfalse)

theorem evaluate_of_not_queued
    (hv : u.precision.compare st.value 0 = .eq → st.value = 0) : l.evaluate cs st = st.value := by
  have hz : ((if cs.size ≤ l.containers.size then
      cs.changes.filter fun ch => ch.container ∈ l.containers
      else l.containers.elems.flatMap cs.getChangesByContainer).map fun ch =>
        (ch.value : ℚ) * l.getObjectValue ch.object).sum = 0 := by
    apply sum_eq_zero
    intro y hy
    obtain ⟨ch, hch, rfl⟩ := mem_map.mp hy
    have hm : ch ∈ cs.changes ∧ ch.container ∈ l.containers := by
      split at hch
      · simpa using hch
      · obtain ⟨c, hc, hch⟩ := mem_flatMap.mp hch
        obtain ⟨hm, hk⟩ := mem_filter.mp hch
        obtain rfl := of_decide_eq_true hk
        exact ⟨hm, hc⟩
    rw [value_eq_zero_of_not_queued h hm.1 hm.2, mul_zero]
  rw [evaluate, hz, add_zero]
  split_ifs with hc
  · exact (hv hc).symm
  · rfl

end ObjectLookup

namespace ObjectPartitionMoveLimit
variable (n : ObjectPartitionMoveLimit) (containers : IdSet)

def directlyAffectedContainers : IdSet :=
  ⟨containers.elems.filter fun c => ¬ (c ∈ n.sourceContainerIdsNotAffectingLimit ∧
    c ∈ n.destinationContainerIdsNotAffectingLimit), containers.nodup.filter _⟩

/-- The containers are those of the original assignment. -/
def isAffectedByChange : AffectedByChange :=
  if (n.directlyAffectedContainers containers).size < containers.size then
    .ofContainers (n.directlyAffectedContainers containers) none
  else .ofAllChanges true

variable {n containers}

variable (h : (n.isAffectedByChange containers).pushes cs = 0)
  (hk : ∀ ch ∈ cs.changes, ch.container ∈ containers)
include h hk

theorem cost_of_not_queued (hch : ch ∈ cs.changes) : n.cost o ch.container = 0 := by
  rw [isAffectedByChange] at h
  split at h
  · have hc : ch.container ∈ n.destinationContainerIdsNotAffectingLimit := by
      by_contra hn
      obtain ⟨f, hf, -⟩ := refused_of_containers h hch
        (mem_filter.mpr ⟨hk ch hch, decide_eq_true (mt And.right hn)⟩)
      cases hf
    simp [cost, GroupMoveLimitSpec.getObjectMoveCost, GroupMoveLimitSpec.doesMoveAffectLimit, hc]
  · cases calls_of_pushes h rfl

variable (hl : GroupRoutingRing.Leads cs a (a.afterMoves cs))
include hl

theorem cost_afterMoves (o : ObjectId) : n.cost o (a.afterMoves cs o) = n.cost o (a o) := by
  by_cases hs : a.afterMoves cs o = a o
  · rw [hs]
  have hex : ∀ c, a.afterMoves cs o = c ∨ a o = c → n.cost o c = 0 := by
    intro c hc
    by_contra hn
    have hz := hl o c
    rw [GroupRoutingRing.sum_map_eq_zero] at hz
    · rcases hc with rfl | rfl
      · simp [Ne.symm hs] at hz
      · simp [hs] at hz
    · intro ch hch
      rw [if_neg]
      rintro ⟨-, rfl⟩
      exact hn (cost_of_not_queued h hk hch)
  rw [hex _ (.inl rfl), hex _ (.inr rfl)]

theorem evaluate_of_not_queued (hr : n.Reaches a st)
    (hn : ∀ g ∈ n.partition.getGroupIds, 0 ≤ n.limit.getLimit g) : n.evaluate cs st = st.value := by
  rw [hr.inv.evaluate_eq hn, hr.inv.value_eq hn]
  simp only [largestViolation, total, cost_afterMoves h hk hl]

end ObjectPartitionMoveLimit

structure Variable where
  object : ObjectId
  container : ContainerId

namespace Variable
variable (v : Variable)

def evaluate (cs : ChangeSet) (value : ℚ) : ℚ := cs.changes.foldl (fun val change =>
    if change.object = v.object ∧ change.container = v.container then val + change.value
    else val) value

def isAffectedByChange : AffectedByChange :=
  .ofPairs ⟨[v.container], nodup_singleton _⟩ ⟨[v.object], nodup_singleton _⟩

theorem evaluate_of_not_queued (h : v.isAffectedByChange.pushes cs = 0) :
    v.evaluate cs value = value := by
  have hn := countP_eq_zero.mp (calls_of_pushes h rfl)
  rw [evaluate]
  refine foldlRecOn (motive := fun r => r = value) _ _ rfl ?_
  intro r hr ch hch
  rw [if_neg]
  · exact hr
  · rintro ⟨ho, hc⟩
    apply hn ch hch
    simp [isAffectedByChange, ofPairs, containerElems, objectElems, ho, hc]

end Variable

/-- A leaf that is not queued keeps its value, up to the tolerances and to negative limits. -/
theorem evaluate_eq_of_not_queued (g : ExpressionGraph ν) (data : AffectedByChangeDecisionData)
    (cs : ChangeSet) (leaf : ν) (hq : nodePushes g data cs leaf = 0) :
    (∀ (l : ObjectLookup u) (st : LookupState),
      g.isAffectedByChange data leaf = some (l.isAffectedByChange data) →
      (u.precision.compare st.value 0 = .eq → st.value = 0) → l.evaluate cs st = st.value) ∧
    (∀ (n : ObjectPartitionMoveLimit) (containers : IdSet) (a : Assignment) (st : MoveLimitState),
      g.isAffectedByChange data leaf = some (n.isAffectedByChange containers) →
      (∀ g ∈ n.partition.getGroupIds, 0 ≤ n.limit.getLimit g) → n.Reaches a st →
      (∀ ch ∈ cs.changes, ch.container ∈ containers) →
      GroupRoutingRing.Leads cs a (a.afterMoves cs) → n.evaluate cs st = st.value) ∧
    ∀ (v : Variable) (value : ℚ), g.isAffectedByChange data leaf = some v.isAffectedByChange →
      v.evaluate cs value = value := by
  have hp : ∀ info, g.isAffectedByChange data leaf = some info → info.pushes cs = 0 := by
    intro info hi
    rwa [nodePushes, hi] at hq
  refine ⟨?_, ?_, ?_⟩
  · intro l st hi hv
    exact ObjectLookup.evaluate_of_not_queued (hp _ hi) hv
  · intro n containers a st hi hl hr hk hm
    exact ObjectPartitionMoveLimit.evaluate_of_not_queued (hp _ hi) hk hm hr hl
  · intro v value hi
    exact v.evaluate_of_not_queued (hp _ hi)

/-- Containers 3 and 4 do not count; objects 0 and 1 start on container 0 and object 2 on 3. -/
theorem nodup_three_four : [3, 4].Nodup := by decide

def exemptPair : ObjectPartitionMoveLimit :=
  ⟨⟨⟨[(0, [0, 1]), (1, [2])], by decide⟩, ⟨1, ∅, false⟩, .static fun _ => 1, [],
      ⟨[3, 4], nodup_three_four⟩, ⟨[3, 4], nodup_three_four⟩⟩,
    [0, 1, 2], by decide, fun o => if o = 2 then 3 else 0, by
      intro g o ho
      have hg : g = 0 ∨ g = 1 := by
        simpa [Partition.getGroupIds] using GroupMoveLimitSpec.mem_getGroupIds ho
      rcases hg with rfl | rfl
      · exact (by decide : ∀ o ∈ [0, 1], o ∈ [0, 1, 2]) o ho
      · exact (by decide : ∀ o ∈ [2], o ∈ [0, 1, 2]) o ho⟩

def fourContainers : IdSet := ⟨[0, 1, 3, 4], by decide⟩

def lookupAndLimit : ExpressionGraph Bool := ⟨fun _ => [], fun _ => nodup_nil, fun _ => 0, by simp,
    fun data lookup => some (if lookup then ObjectLookup.weighted.isAffectedByChange data
      else exemptPair.isAffectedByChange fourContainers), fun _ => none⟩

def pairMoved : Assignment := fun o => if o = 2 then 3 else 1

def moveTwo : ChangeSet := .ofList [.removal 2 3, .addition 2 4]

theorem pairMoved_elsewhere :
    ObjectLookup.weighted.evaluate moveTwo (ObjectLookup.weighted.innerFullApply pairMoved) = 7 ∧
    exemptPair.evaluate moveTwo (exemptPair.innerFullApply pairMoved) = 1 := by
  have hl := (evaluate_eq_of_not_queued lookupAndLimit ⟨3, 4⟩ moveTwo true (by decide +kernel)).1
    ObjectLookup.weighted (ObjectLookup.weighted.innerFullApply pairMoved) rfl (by decide +kernel)
  have hmoves : pairMoved.afterMoves moveTwo = pairMoved.moveTo 2 4 := by
    funext o
    by_cases ho : o = 2
    · rw [ho]
      rfl
    · simp [Assignment.afterMoves, Assignment.moveTo, ChangeSet.lastAddition, moveTwo,
        ChangeSet.ofList_changes, Change.removal, Change.addition, ho, Ne.symm ho]
  have hm := (evaluate_eq_of_not_queued (u := ObjectLookup.threeObjects) lookupAndLimit ⟨3, 4⟩
    moveTwo false
    (by decide +kernel)).2.1 exemptPair fourContainers pairMoved _ rfl (by decide +kernel)
      (.full pairMoved) (by decide) (hmoves ▸ GroupRoutingRing.Leads.move pairMoved 2 4)
  rw [hl, hm]
  decide +kernel

namespace ObjectLookup

def tinyAlone : ExpressionGraph Unit := ⟨fun _ => [], fun _ => nodup_nil, fun _ => 0, by simp,
    fun data _ => some (tiny.isAffectedByChange data), fun _ => none⟩

theorem tinyAlone_unchanged : nodePushes tinyAlone ⟨1, 1⟩ .new () = 0 ∧
    tiny.evaluate .new (tiny.innerFullApply fun _ => 0) ≠
      (tiny.innerFullApply fun _ => 0).value := by
  decide +kernel

end ObjectLookup

end Rebalancer
