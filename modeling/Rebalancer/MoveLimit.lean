import Rebalancer.FixedJustified

namespace Rebalancer
open List GroupMoveLimitSpec

structure ObjectPartitionMoveLimit extends GroupMoveLimitSpec where
  objects : List ObjectId
  nodup : objects.Nodup
  originalAssignment : Assignment
  covered : ∀ g, ∀ o ∈ partition.getObjectIds g, o ∈ objects

/-- An entry of a group has the costs of its objects; a group without an entry has no cost. -/
structure MoveLimitState where
  groupDeviations : GroupId → ObjectId → Option ℚ
  groupMoveCosts : GroupId → Option ℚ
  value : ℚ

def ChangeSet.lastAddition (cs : ChangeSet) (o : ObjectId) : Option ContainerId :=
  ((cs.changes.filter fun ch => ch.value = 1 ∧ ch.object = o).getLast?).map Change.container

def Assignment.afterMoves (a : Assignment) (cs : ChangeSet) : Assignment :=
  fun o => (cs.lastAddition o).getD (a o)

namespace ObjectPartitionMoveLimit
variable (n : ObjectPartitionMoveLimit) (a : Assignment) (cs : ChangeSet)

def cost (o : ObjectId) (c : ContainerId) : ℚ := n.getObjectMoveCost n.originalAssignment o c

def query (deviations : ObjectId → Option ℚ) : ℚ :=
  (n.objects.map fun o => (deviations o).getD 0).sum

def largest (costs : GroupId → Option ℚ) : ℚ :=
  (n.partition.getGroupIds.filterMap costs).foldr max 0

def innerFullApply : MoveLimitState :=
  let moves := n.relevantMoves n.objects n.originalAssignment a
  ⟨fun g o => if o ∈ moves g then some (n.cost o (a o)) else none,
    fun g => if moves g = [] then none
      else some (n.moveCost g (n.groupDeviation n.objects n.originalAssignment a g)),
    n.moveLimitValue n.objects n.originalAssignment a⟩

def newContribution (g : GroupId) (o : ObjectId) : Option ℚ :=
  if g ∈ n.partition.objectIdToGroupIds o then (cs.lastAddition o).map (n.cost o) else none

def groupsWithUpdatedDeviations : List GroupId :=
  n.partition.getGroupIds.filter fun g => n.objects.any fun o => (n.newContribution cs g o).isSome

section
variable (st : MoveLimitState)

def innerPartialApply : MoveLimitState :=
  let deviations := fun g o => (n.newContribution cs g o).or (st.groupDeviations g o)
  let costs := fun g => if g ∈ n.groupsWithUpdatedDeviations cs then
    some (n.moveCost g (n.query (deviations g))) else st.groupMoveCosts g
  ⟨deviations, costs, n.largest costs⟩

def totalChangeInDeviation (g : GroupId) : ℚ := (n.objects.map fun o =>
    ((n.newContribution cs g o).map (· - (st.groupDeviations g o).getD 0)).getD 0).sum

def evaluate : ℚ :=
  let groups := n.groupsWithUpdatedDeviations cs
  let maxNewMoveCost := (groups.map fun g =>
    n.moveCost g (n.query (st.groupDeviations g) + n.totalChangeInDeviation cs st g)).foldr max 0
  if st.value ≤ maxNewMoveCost ∨ groups.length = n.partition.getGroupIds.length then maxNewMoveCost
  else ((n.partition.getGroupIds.filter (· ∉ groups)).filterMap st.groupMoveCosts).foldr max
    maxNewMoveCost

end

inductive Reaches : Assignment → MoveLimitState → Prop
  | full (b : Assignment) : Reaches b (n.innerFullApply b)
  | step (h : Reaches b st) (changes : ChangeSet) :
    Reaches (b.afterMoves changes) (n.innerPartialApply changes st)

def total (g : GroupId) : ℚ :=
  (n.objects.map fun o => if g ∈ n.partition.objectIdToGroupIds o then n.cost o (a o) else 0).sum

def largestViolation : ℚ :=
  (n.partition.getGroupIds.map fun g => n.moveCost g (n.total a g)).foldr max 0

/-- Whatever is applied, the value is that of a full application and the largest violation. -/
def Right : Prop :=
  ∀ a st, n.Reaches a st → st.value = (n.innerFullApply a).value ∧ st.value = n.largestViolation a ∧
    ∀ cs, n.evaluate cs st = (n.innerFullApply (a.afterMoves cs)).value

variable {n a cs}

theorem largestViolation_le_iff : n.largestViolation a ≤ b ↔
    0 ≤ b ∧ ∀ g ∈ n.partition.getGroupIds, n.moveCost g (n.total a g) ≤ b := by
  simp [largestViolation, foldr_max_le_iff]

theorem groupDeviation_eq (g : GroupId) :
    n.groupDeviation n.objects n.originalAssignment a g = n.total a g := by
  rw [groupDeviation, relevantMoves, total]
  induction n.objects with
  | nil => rfl
  | cons o objects ih =>
    rw [map_cons, sum_cons, ← ih]
    by_cases hg : g ∈ n.partition.objectIdToGroupIds o <;>
      by_cases ha : n.doesMoveAffectLimit n.originalAssignment o (a o) = true <;>
      simp [hg, ha, cost, getObjectMoveCost]

structure Inv (n : ObjectPartitionMoveLimit) (a : Assignment) (st : MoveLimitState) : Prop where
  deviation : ∀ g o, (st.groupDeviations g o).getD 0 =
    if g ∈ n.partition.objectIdToGroupIds o then n.cost o (a o) else 0
  costs : ∀ g ∈ n.partition.getGroupIds,
    st.groupMoveCosts g = some (n.moveCost g (n.total a g)) ∨
      st.groupMoveCosts g = none ∧ n.total a g = 0
  value : st.value = n.largest st.groupMoveCosts

theorem inv_innerFullApply : Inv n a (n.innerFullApply a) where
  deviation g o := by
    rw [innerFullApply]
    by_cases hg : g ∈ n.partition.objectIdToGroupIds o
    · have ho : o ∈ n.objects := n.covered g o (Partition.mem_objectIdToGroupIds.mp hg)
      by_cases ha : n.doesMoveAffectLimit n.originalAssignment o (a o) = true <;>
        simp [hg, ho, ha, cost, getObjectMoveCost, relevantMoves]
    · simp [hg, relevantMoves]
  costs g _ := by
    rw [← groupDeviation_eq]
    by_cases hm : n.relevantMoves n.objects n.originalAssignment a g = []
    · apply Or.inr
      rw [groupDeviation, hm]
      exact ⟨if_pos hm, rfl⟩
    · exact .inl (if_neg hm)
  value := by
    rw [innerFullApply, largest, moveLimitValue]
    induction n.partition.getGroupIds with
    | nil => rfl
    | cons g groups ih =>
      by_cases hm : n.relevantMoves n.objects n.originalAssignment a g = [] <;> simp [hm, ← ih]

theorem newContribution_eq (g : GroupId) (o : ObjectId) (d : Option ℚ)
    (hd : d.getD 0 = if g ∈ n.partition.objectIdToGroupIds o then n.cost o (a o) else 0) :
    ((n.newContribution cs g o).or d).getD 0 =
      if g ∈ n.partition.objectIdToGroupIds o then n.cost o (a.afterMoves cs o) else 0 := by
  rw [newContribution, Assignment.afterMoves]
  by_cases hg : g ∈ n.partition.objectIdToGroupIds o
  · cases hl : cs.lastAddition o with
    | none => simpa [hg] using hd
    | some c => simp [hg]
  · simpa [hg] using hd

theorem total_afterMoves (hg : g ∈ n.partition.getGroupIds)
    (hn : g ∉ n.groupsWithUpdatedDeviations cs) : n.total (a.afterMoves cs) g = n.total a g := by
  rw [total]
  congr 1
  apply map_congr_left
  intro o ho
  by_cases hgo : g ∈ n.partition.objectIdToGroupIds o
  · cases hl : cs.lastAddition o with
    | none => rw [Assignment.afterMoves, hl, Option.getD_none]
    | some c =>
      apply absurd _ hn
      rw [groupsWithUpdatedDeviations, mem_filter, any_eq_true]
      exact ⟨hg, o, ho, by simp [newContribution, hgo, hl]⟩
  · rw [if_neg hgo, if_neg hgo]

theorem Inv.innerPartialApply (h : Inv n a st) :
    Inv n (a.afterMoves cs) (n.innerPartialApply cs st) where
  deviation g o := newContribution_eq g o _ (h.deviation g o)
  costs g hg := by
    by_cases ht : g ∈ n.groupsWithUpdatedDeviations cs
    · apply Or.inl
      simp only [ObjectPartitionMoveLimit.innerPartialApply, if_pos ht, query, total,
        newContribution_eq g _ _ (h.deviation g _)]
    · simp only [ObjectPartitionMoveLimit.innerPartialApply, if_neg ht, total_afterMoves hg ht]
      exact h.costs g hg
  value := rfl

theorem Reaches.inv (h : n.Reaches a st) : Inv n a st := by
  induction h with
  | full b => exact inv_innerFullApply
  | step _ changes ih => exact ih.innerPartialApply

theorem Inv.query_add (h : Inv n a st) (g : GroupId) :
    n.query (st.groupDeviations g) + n.totalChangeInDeviation cs st g =
      n.total (a.afterMoves cs) g := by
  rw [query, totalChangeInDeviation, ← sum_map_add]
  congr 1
  apply map_congr_left
  intro o _
  rw [← newContribution_eq g o _ (h.deviation g o)]
  cases n.newContribution cs g o with
  | none => simp
  | some c => simp

theorem largestViolation_afterMoves_le_iff : n.largestViolation (a.afterMoves cs) ≤ b ↔
    ((n.groupsWithUpdatedDeviations cs).map fun g =>
      n.moveCost g (n.total (a.afterMoves cs) g)).foldr max 0 ≤ b ∧
    ∀ g ∈ n.partition.getGroupIds, g ∉ n.groupsWithUpdatedDeviations cs →
      n.moveCost g (n.total a g) ≤ b := by
  rw [largestViolation_le_iff, foldr_max_le_iff, forall_mem_map, and_assoc]
  apply and_congr_right
  intro _
  constructor
  · intro h
    apply And.intro fun g ht => h g (mem_filter.mp ht).1
    intro g hg ht
    rw [← total_afterMoves hg ht]
    exact h g hg
  · intro h g hg
    by_cases ht : g ∈ n.groupsWithUpdatedDeviations cs
    · exact h.1 g ht
    · rw [total_afterMoves hg ht]
      exact h.2 g hg ht

section
variable (hl : ∀ g ∈ n.partition.getGroupIds, 0 ≤ n.limit.getLimit g)
include hl

theorem moveCost_zero (hg : g ∈ n.partition.getGroupIds) : n.moveCost g 0 = 0 := by
  have h := hl g hg
  rw [moveCost]
  cases he : n.limit.getLimit g with
  | top => rfl
  | coe limit =>
    rw [he] at h
    simpa using h

theorem Inv.costs_le_iff (h : Inv n a st) (hg : g ∈ n.partition.getGroupIds) (hb : 0 ≤ b) :
    (∀ c, st.groupMoveCosts g = some c → c ≤ b) ↔ n.moveCost g (n.total a g) ≤ b := by
  rcases h.costs g hg with hs | ⟨hs, ht⟩
  · simp [hs]
  · simpa [hs, ht, moveCost_zero hl hg] using hb

theorem Inv.value_eq (h : Inv n a st) : st.value = n.largestViolation a := by
  apply eq_of_forall_ge_iff
  intro b
  rw [h.value, largest, foldr_max_le_iff, largestViolation_le_iff]
  apply and_congr_right
  intro hb
  rw [forall_mem_filterMap]
  apply forall₂_congr
  intro g hg
  exact h.costs_le_iff hl hg hb

theorem Inv.evaluate_eq (h : Inv n a st) :
    n.evaluate cs st = n.largestViolation (a.afterMoves cs) := by
  apply eq_of_forall_ge_iff
  intro b
  simp only [evaluate, h.query_add, largestViolation_afterMoves_le_iff]
  split_ifs with hc
  · apply (and_iff_left_of_imp _).symm
    intro hm g hg ht
    rcases hc with hc | hc
    · rw [h.value_eq hl] at hc
      exact (largestViolation_le_iff.mp (hc.trans hm)).2 g hg
    · exact absurd (mem_filter.mpr ⟨hg, length_filter_eq_length_iff.mp hc g hg⟩) ht
  · rw [foldr_max_le_iff]
    apply and_congr_right
    intro hm
    have hb := (foldr_max_le_iff.mp hm).1
    rw [forall_mem_filterMap]
    simp only [mem_filter, and_imp, decide_eq_true_eq]
    apply forall₂_congr
    intro g hg
    rw [h.costs_le_iff hl hg hb]

end

/-- All values over a run are right exactly when no limit is negative. -/
theorem right_iff_limits : n.Right ↔ ∀ g ∈ n.partition.getGroupIds, 0 ≤ n.limit.getLimit g := by
  constructor
  · intro h g hg
    have hm : ∀ g, n.relevantMoves n.objects n.originalAssignment n.originalAssignment g = [] := by
      simp [relevantMoves, doesMoveAffectLimit]
    have ht : n.total n.originalAssignment g = 0 := by
      rw [← groupDeviation_eq, groupDeviation, hm, map_nil, sum_nil]
    have hv := (h _ _ (.full n.originalAssignment)).2.1
    have hc := (largestViolation_le_iff.mp hv.ge).2 g hg
    rw [ht] at hc
    simp only [innerFullApply, moveLimitValue, hm] at hc
    rw [moveCost] at hc
    cases hl : n.limit.getLimit g with
    | top => exact le_top
    | coe limit => simpa [hl] using hc
  · intro hl a st h
    rw [h.inv.value_eq hl, inv_innerFullApply.value_eq hl]
    apply And.intro rfl
    apply And.intro rfl
    intro cs
    rw [h.inv.evaluate_eq hl, inv_innerFullApply.value_eq hl]

def negativeLimit : ObjectPartitionMoveLimit :=
  ⟨⟨⟨[(0, [0])], oneGroup_nodup⟩, ⟨-1, ∅, false⟩, .static fun _ => 1, [], ⟨[], nodup_nil⟩,
      ⟨[], nodup_nil⟩⟩,
    [0], nodup_zero, fun _ => 0, fun g _ ho => by
      cases mem_singleton.mp (mem_getGroupIds ho)
      exact ho⟩

theorem negativeLimit_unmoved : (negativeLimit.innerFullApply fun _ => 0).value = 0 ∧
    negativeLimit.largestViolation (fun _ => 0) = 1 := by
  decide +kernel

end ObjectPartitionMoveLimit

end Rebalancer
