import Rebalancer.SolutionApplied
import Rebalancer.StableGroups

namespace Rebalancer
open List

open ObjectToContainerAssignmentUtils IdSet

theorem Relocation.container_of_mem_changes {r : Relocation} (h : c ∈ r.changes) :
    c.container = r.fromContainer ∨ c.container = r.toContainer := by
  rw [changes] at h
  split at h
  · rcases mem_cons.mp h with rfl | h
    · exact .inl rfl
    · rw [mem_singleton.mp h]
      exact .inr rfl
  · cases h

theorem inGroup_single : inGroup (empty.insert c) c' = true ↔ c' = some c := by
  rw [inGroup_iff]
  constructor
  · intro ⟨d, hd, hc⟩
    rw [hc, (mem_insert.mp hd).resolve_right not_mem_nil]
  · intro h
    exact ⟨c, mem_insert.mpr (.inl rfl), h⟩

theorem filter_inGroup (l : List ObjectId) (f : ObjectId → Option ContainerId) (c : ContainerId) :
    (l.filter fun o => inGroup (empty.insert c) (f o)) = l.filter fun o => f o = some c := by
  apply filter_congr
  intro o _
  rw [Bool.eq_iff_iff, inGroup_single, decide_eq_true_eq]

theorem KeepsAll.same (h : KeepsAll l b a (empty.insert c))
    (hl : (l.filter fun o => b o = some c).length =
      (l.filter fun o => a o = some c).length) (ho : o ∈ l) : b o = some c ↔ a o = some c := by
  have hboth : (l.filter fun o => inGroup (empty.insert c) (b o) &&
      inGroup (empty.insert c) (a o)) =
        l.filter fun o => decide (b o = some c) && decide (a o = some c) := by
    apply filter_congr
    intro x _
    rw [Bool.eq_iff_iff]
    simp [inGroup_single]
  rw [KeepsAll, filter_inGroup, filter_inGroup, hboth] at h
  constructor
  · intro hb
    rw [← hl, min_self] at h
    simp only [Bool.and_comm (decide (b _ = some c))] at h
    rw [← filter_filter, length_filter_eq_length_iff] at h
    exact of_decide_eq_true (h o (mem_filter.mpr ⟨ho, decide_eq_true hb⟩))
  · intro ha
    rw [hl, min_self, ← filter_filter, length_filter_eq_length_iff] at h
    exact of_decide_eq_true (h o (mem_filter.mpr ⟨ho, decide_eq_true ha⟩))

namespace AssignmentProblem
variable {p : AssignmentProblem} {context : LpContext} {solution : Solution}

def HoldsInitial (p : AssignmentProblem) (i : EquivalenceSetId) (c : ContainerId) : Prop :=
  ∀ o, p.equivalenceSets.setAt o = .ok i →
    (p.assignment.table o = some c ↔ p.initialAssignment.getContainer o = some c)

theorem HoldsInitial.kept (h : p.HoldsInitial i c) (hc : (p.request cs).checked = .ok i')
    (hm : p.getStableObjectToContainerAssignment cs = .ok m)
    (hp : ((p.equivalenceSets.getSet i).filter fun o => m.lookup o = some c).card = cs.count i c)
    (hco : cs.count i c = p.assignment.countOn p.equivalenceSets i c)
    (ho : p.equivalenceSets.setAt o = .ok i) :
    p.assignment.table o = some c ↔ m.lookup o = some c := by
  have hkeeps := AssignmentRequest.getObjectToContainer_keepsContainer
    (withGroups_valid p.stableContainerGroups) hc hm i c
  have hmem : o ∈ p.initialAssignment.getObjects.filter fun o =>
      p.equivalenceSets.setAt o = .ok i := by
    rw [mem_filter, p.initial_objects]
    exact ⟨lt_of_mem_getSet ((p.partition.mem_iff i o).mpr ho), decide_eq_true ho⟩
  have hinitial : ((p.equivalenceSets.getSet i).filter fun o =>
      p.initialAssignment.getContainer o = some c).card = cs.count i c := by
    rw [hco, countOn_eq_card p.consistent]
    congr 1
    apply Finset.filter_congr
    intro x hx
    exact (h x ((p.partition.mem_iff i x).mp hx)).symm
  rw [h o ho]
  apply hkeeps.same _ hmem
  simp only [filter_filter, Bool.and_comm (decide (_ = some c)), ← Bool.decide_and]
  exact (p.length_initial i _).trans (hinitial.trans (hp.symm.trans (p.length_initial i _).symm))

def settledAssignment : ContainerAssignment := ⟨[⟨0, [0]⟩, ⟨1, [1]⟩, ⟨2, []⟩].toAList, by decide⟩

theorem mem_settledAssignment (o : Nat) : o ∈ settledAssignment.getObjects ↔ o < 2 := mem_inPlace o

def settled : AssignmentProblem := ofEquivalent 2 settledAssignment settledAssignment
  mem_settledAssignment mem_settledAssignment fun _ hc => hc

def settledContext : LpContext := ⟨⟨[1, 2], by decide⟩, ⟨[0], nodup_zero⟩⟩

/-- One object of the class goes to container 2. -/
def toTwo : Solution := fun _ c => if c = 2 then 1 else 0

end AssignmentProblem

end Rebalancer
