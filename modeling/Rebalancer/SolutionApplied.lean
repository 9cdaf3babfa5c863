import Rebalancer.SolutionConsistent

namespace Rebalancer
open List AssignmentState AssocMap AList ProblemSetup
variable {counts : ObjectCounts}

namespace ObjectToContainerAssignmentUtils

theorem foldlM_pushContainer_ok {a : ContainerAssignment} {eq : EquivalenceSets}
    (hk : ∀ o ∈ a.getObjects, ∃ i, eq.setAt o = .ok i) :
    ∃ sets, a.containerToObjects.entries.foldlM (pushContainer eq) ∅ = .ok sets ∧
      ∀ j, j ∈ sets ↔ ∃ o ∈ a.getObjects, eq.setAt o = .ok j := by
  let P (done : List ObjectId) (sets : AssocMap EquivalenceSetId ContainerToObjects) : Prop :=
    ∀ j, j ∈ sets ↔ ∃ o ∈ done, eq.setAt o = .ok j
  have hs : P [] ∅ := fun j => iff_of_false nofun fun ⟨_, ho, _⟩ => (nomatch ho)
  refine exists_foldlM_ok (l := a.containerToObjects.entries) (g := fun e => e.2) (P := P)
    ?_ [] ∅ hs
  intro e he done sets hp
  rw [← flatMap_singleton' e.2]
  refine exists_foldlM_ok ?_ done sets hp
  intro o ho done sets hp
  obtain ⟨i, hi⟩ := hk o (mem_flatten_of_mem (mem_map_of_mem he) ho)
  refine ⟨pushObject sets i e.1 o, by rw [hi, except_ok_bind], ?_⟩
  intro j
  simp only [pushObject, mem_insert, hp j, mem_append, mem_singleton, or_and_right, exists_or,
    exists_eq_left, hi, Except.ok.injEq]
  rw [or_comm, eq_comm]

theorem getEquivSetToContainerToObjects_ok (rt : Runtime) (seed : String)
    (hk : ∀ o ∈ a.getObjects, ∃ i, eq.setAt o = .ok i) :
    ∃ initial, getEquivSetToContainerToObjects rt eq a (some seed) = .ok initial ∧
      ∀ j, j ∈ initial ↔ ∃ o ∈ a.getObjects, eq.setAt o = .ok j := by
  obtain ⟨sets, hs, hmem⟩ := foldlM_pushContainer_ok hk
  refine ⟨sets.mapValues fun e objects =>
    objects.mapValues fun c => rt.shuffle seed e c, ?_, ?_⟩
  · rw [getEquivSetToContainerToObjects, hs]
    rfl
  · intro j
    rw [← lookup_isSome, lookup_mapValues, Option.isSome_map, lookup_isSome]
    exact hmem j

end ObjectToContainerAssignmentUtils

open ObjectToContainerAssignmentUtils

namespace AssignmentProblem
variable {p : AssignmentProblem} {context : LpContext} {solution : Solution}

theorem nodup_containers (p : AssignmentProblem) : p.containers.Nodup :=
  p.initialAssignment.containerToObjects.keys_nodup

theorem addObjectInContainerConstraints_ok (p : AssignmentProblem) (context : LpContext) :
    p.addObjectInContainerConstraints context = .ok (context.dynamicEquivSets.elems.map fun i =>
      ⟨i, p.containers.filter fun c => context.HasVariable i c, (p.equivalenceSets.getSet i).card -
          ((p.containers.filter fun c => ¬ context.HasVariable i c).map fun c =>
            (p.assignment.countOn p.equivalenceSets i c : Int)).sum⟩) := by
  apply mapM_ok
  intro i _
  rw [foldlM_addTerm, nil_append]

structure Solved (p : AssignmentProblem) (context : LpContext) (solution : Solution) : Prop where
  holds : ∃ constraints, p.addObjectInContainerConstraints context = .ok constraints ∧
    ∀ k ∈ constraints, k.Holds context solution
  integral : solution.Integral context

section
variable (h : p.Solved context solution)
include h

theorem Solved.constraint (hi : i ∈ context.dynamicEquivSets) :
    (((p.containers.filter fun c => context.HasVariable i c).map (solution i)).sum : ℚ) =
        (p.equivalenceSets.getSet i).card -
          (((p.containers.filter fun c => ¬ context.HasVariable i c).map fun c =>
            (p.assignment.countOn p.equivalenceSets i c : ℚ)).sum) ∧
      ∀ c ∈ context.dynamicContainers, 0 ≤ solution i c := by
  obtain ⟨constraints, hok, hh⟩ := h.holds
  rw [addObjectInContainerConstraints_ok] at hok
  cases hok
  obtain ⟨hs, hb⟩ := hh _ (mem_map_of_mem hi)
  refine ⟨?_, fun c hc => (hb c hc).1⟩
  rw [hs, Int.cast_sub, Int.cast_list_sum, map_map]
  rfl

theorem Solved.round_eq (hv : context.HasVariable i c) :
    ((round (solution i c)).toNat : ℚ) = solution i c := by
  obtain ⟨n, hn⟩ := h.integral i hv.2 c hv.1
  have hnonneg := (h.constraint hv.2).2 c hv.1
  rw [hn] at hnonneg ⊢
  rw [round_intCast]
  have hc := Int.toNat_of_nonneg (by exact_mod_cast hnonneg)
  exact_mod_cast hc

theorem Solved.sum_counts (hco : ∀ i c, counts.count i c = if context.HasVariable i c then
      (round (solution i c)).toNat else p.assignment.countOn p.equivalenceSets i c)
    (i : EquivalenceSetId) :
    ∑ c ∈ p.containers.toFinset, counts.count i c = (p.equivalenceSets.getSet i).card := by
  by_cases hi : i ∈ context.dynamicEquivSets
  · have hs := sum_map_filter_add_sum_map_filter_not (fun c => context.HasVariable i c)
      (fun c => (counts.count i c : ℚ)) p.containers
    have hvars : ((p.containers.filter fun c => context.HasVariable i c).map fun c =>
        (counts.count i c : ℚ)) =
        (p.containers.filter fun c => context.HasVariable i c).map (solution i) := by
      apply map_congr_left
      intro c hc
      have hv := of_decide_eq_true (mem_filter.mp hc).2
      rw [hco, if_pos hv, h.round_eq hv]
    have hrest : ((p.containers.filter fun c => ¬ context.HasVariable i c).map fun c =>
        (counts.count i c : ℚ)) =
        (p.containers.filter fun c => ¬ context.HasVariable i c).map fun c =>
          (p.assignment.countOn p.equivalenceSets i c : ℚ) := by
      apply map_congr_left
      intro c hc
      rw [hco, if_neg (of_decide_eq_true (mem_filter.mp hc).2)]
    rw [hvars, hrest, (h.constraint hi).1, sub_add_cancel] at hs
    have hsum := sum_toFinset (fun c => (counts.count i c : ℚ)) p.nodup_containers
    rw [← hs, ← Nat.cast_sum] at hsum
    exact Nat.cast_injective hsum
  · rw [← p.sum_countOn i]
    apply Finset.sum_congr rfl
    intro c _
    rw [hco, if_neg fun hv => hi hv.2]

end

theorem length_initial (p : AssignmentProblem) (i : EquivalenceSetId) (q : ObjectId → Prop)
    [DecidablePred q] :
    (p.initialAssignment.getObjects.filter fun o =>
      p.equivalenceSets.setAt o = .ok i ∧ q o).length =
      ((p.equivalenceSets.getSet i).filter q).card := by
  have hnodup : (p.initialAssignment.getObjects.filter fun o =>
      p.equivalenceSets.setAt o = .ok i ∧ q o).Nodup := p.initialAssignment.nodup.filter _
  rw [← toFinset_card_of_nodup hnodup]
  congr 1
  ext o
  rw [mem_toFinset, mem_filter, decide_eq_true_eq, Finset.mem_filter,
    p.partition.mem_iff, p.initial_objects]
  constructor
  · intro h
    exact h.2
  · intro h
    exact ⟨lt_of_mem_getSet ((p.partition.mem_iff i o).mpr h.1), h⟩

theorem Solved.checked (h : p.Solved context solution)
    (hw : ObjectCounts.Within p.containers counts)
    (hse : ∀ i, i ∈ counts ↔ ∃ o < p.numObjects, p.setOf o = i)
    (hc : ∀ i c, counts.count i c = if context.HasVariable i c then
      (round (solution i c)).toNat else p.assignment.countOn p.equivalenceSets i c) :
    ∃ initial, (p.request counts).checked = .ok initial := by
  have hk : ∀ o ∈ p.initialAssignment.getObjects, ∃ i, p.equivalenceSets.setAt o = .ok i := by
    intro o ho
    exact p.partition.assigned o ((p.initial_objects o).mp ho)
  obtain ⟨initial, hinitial, hmem⟩ := getEquivSetToContainerToObjects_ok p.rt p.runId hk
  have hd := getEquivSetToContainerToObjects_distributed hinitial
  refine ⟨initial, ?_⟩
  have hs : sanityCheckOnEquivSetToContainerToObjectCount p.rt initial counts = .ok () := by
    apply sanityCheck_of_sizes
    · intro i
      rw [hmem, hse]
      constructor
      · intro ⟨o, ho, hi⟩
        have hlt := (p.initial_objects o).mp ho
        exact ⟨o, hlt, (setOf_eq hlt).mpr hi⟩
      · intro ⟨o, ho, hi⟩
        exact ⟨o, (p.initial_objects o).mpr ho, (setOf_eq ho).mp hi⟩
    · intro i objects inner hobjects hinner
      have hl := (hd.perm i).length_eq
      rw [setObjects_of_lookup hobjects, length_flatten] at hl
      have ha := p.length_initial i fun _ => True
      simp only [and_true, Finset.filter_true] at ha
      rw [hw.values_sum hinner, h.sum_counts hc i, ← ha]
      exact hl
  change (getEquivSetToContainerToObjects p.rt p.equivalenceSets p.initialAssignment
    (some p.runId) >>= _) = _
  rw [hinitial]
  change (sanityCheckOnEquivSetToContainerToObjectCount p.rt initial counts >>= _) = _
  rw [hs]
  rfl

theorem stableGroups_calls (gs : List IdSet) :
    gs.foldl ObjectToContainerAssignmentUtils.addStableContainerGroup .new =
      (gs.map UtilsCall.addStableContainerGroup).foldl UtilsCall.run .new := by
  rw [foldl_map]
  rfl

theorem getStableObjectToContainerAssignment_ok (hch : (p.request counts).checked = .ok i') :
    ∃ m, p.getStableObjectToContainerAssignment counts = .ok m ∧ (∀ o, o ∈ m ↔ o < p.numObjects) ∧
      ∀ i c, ((p.equivalenceSets.getSet i).filter fun o => m.lookup o = some c).card =
        counts.count i c := by
  obtain ⟨m, hm, hmem, -, hc⟩ := AssignmentRequest.getObjectToContainer_correct
    (p.stableContainerGroups.map UtilsCall.addStableContainerGroup) (p.request counts) hch
  refine ⟨m, ?_, ?_, ?_⟩
  · rw [getStableObjectToContainerAssignment, stableGroups_calls]
    exact hm
  · intro o
    rw [hmem]
    exact p.initial_objects o
  · intro i c
    rw [← p.length_initial i]
    exact hc i c

theorem changesTo_applied (hm : ∀ o, o ∈ m ↔ o < p.numObjects) :
    ∃ changes a, p.assignment.changesTo m = .ok changes ∧ Leads p.assignment.table changes a.table ∧
      moveObjects changes.changes p.assignment = .ok a ∧ a.Consistent p.keys ∧
      ∀ o < p.numObjects, a.table o = m.lookup o := by
  have hp : ∀ o c, p.assignment.table o = some c → o ∈ m :=
    fun o c hc => (hm o).mpr (p.known o c hc).1
  obtain ⟨changes, hchanges⟩ := changesTo_ok p.consistent hp
  have hl := changesTo_leads p.consistent hchanges
  obtain ⟨a, ha, hconsistent, ht, -⟩ := Consistent.moveObjects changes.changes
    p.assignment p.consistent (by
      intro change hchange hvalue
      obtain ⟨c, hc⟩ := hl.placed hchange hvalue
      exact p.consistent.known _ c hc)
  rw [← hl.after] at ht
  refine ⟨changes, a, hchanges, ?_, ha, hconsistent, ?_⟩
  · rw [ht]
    exact hl
  · intro o ho
    obtain ⟨c, hc⟩ := p.placed o ho
    rw [congrFun ht o]
    simp [hc]

theorem countOn_applied {m : AssocMap ObjectId ContainerId} {a : AssignmentState}
    (hc : a.Consistent p.keys)
    (ht : ∀ o < p.numObjects, a.table o = m.lookup o)
    (hco : ∀ i c, ((p.equivalenceSets.getSet i).filter fun o => m.lookup o = some c).card =
      counts.count i c) (i : EquivalenceSetId) (c : ContainerId) :
    a.countOn p.equivalenceSets i c = counts.count i c := by
  rw [countOn_eq_card hc, ← hco]
  congr 1
  apply Finset.filter_congr
  intro o ho
  rw [ht o (lt_of_mem_getSet ho)]

theorem createChangesFromSolution_eq (hco : p.newEquivSetToContMap context solution = .ok counts)
    (hm : p.getStableObjectToContainerAssignment counts = .ok m)
    (hc : p.assignment.changesTo m = .ok changes) :
    p.createChangesFromSolution context (some solution) = .ok changes := by
  rw [createChangesFromSolution, hco]
  change (p.getStableObjectToContainerAssignment counts >>= _) = _
  rw [hm, except_ok_bind, hc]
  rfl

/-- The counts pass the check, and the changes leave every set with what the solution says. -/
theorem createChangesFromSolution_correct (p : AssignmentProblem) (dynamicContainers : IdSet)
    (hcontainers : ∀ c ∈ dynamicContainers, c ∈ p.containers) :
    ∃ context, p.lpContext dynamicContainers = .ok context ∧
      (∃ constraints, p.addObjectInContainerConstraints context = .ok constraints) ∧
      ∀ solution, p.Solved context solution →
        ∃ counts initial changes a, p.newEquivSetToContMap context solution = .ok counts ∧
          (p.request counts).checked = .ok initial ∧
          p.createChangesFromSolution context (some solution) = .ok changes ∧
          moveObjects changes.changes p.assignment = .ok a ∧
          ∀ i c, (c ∈ dynamicContainers → p.lpAssignmentValue context solution i c =
              .ok (a.countOn p.equivalenceSets i c : ℚ)) ∧
            (c ∉ dynamicContainers → a.countOn p.equivalenceSets i c =
              p.assignment.countOn p.equivalenceSets i c) := by
  obtain ⟨context, hcontext, rfl, hf⟩ := p.lpContext_ok dynamicContainers hcontainers
  refine ⟨context, hcontext, ⟨_, p.addObjectInContainerConstraints_ok context⟩, ?_⟩
  intro solution hs
  obtain ⟨counts, hcounts, hw, hsets, hcount⟩ := newEquivSetToContMap_ok hf solution
  obtain ⟨initial, hchecked⟩ := hs.checked hw hsets hcount
  obtain ⟨m, hm, hobjects, hp⟩ := getStableObjectToContainerAssignment_ok hchecked
  obtain ⟨changes, a, hchanges, -, ha, hconsistent, ht⟩ := changesTo_applied hobjects
  have hafter := countOn_applied hconsistent ht hp
  refine ⟨counts, initial, changes, a, hcounts, hchecked,
    createChangesFromSolution_eq hcounts hm hchanges, ha, ?_⟩
  intro i c
  rw [hafter, hcount]
  constructor
  · intro _
    rw [lpAssignmentValue_ok]
    by_cases hv : context.HasVariable i c
    · rw [if_pos hv, if_pos hv, hs.round_eq hv]
    · rw [if_neg hv, if_neg hv]
  · intro hc
    rw [if_neg fun hv => hc hv.1]

def ofEquivalent (numObjects : Nat) (initialAssignment current : ContainerAssignment)
    (hinitial : ∀ o, o ∈ initialAssignment.getObjects ↔ o < numObjects)
    (hcurrent : ∀ o, o ∈ current.getObjects ↔ o < numObjects)
    (hcontainers : ∀ c ∈ current.getContainers, c ∈ initialAssignment.getContainers) :
    AssignmentProblem where
  rt := insertionOrder
  numObjects := numObjects
  equivalenceSets := EquivalenceSets.new.finalize numObjects
  initialAssignment := initialAssignment
  assignment := new current .empty
  keys := fun _ => none
  stableContainerGroups := []
  runId := ""
  partition := ((EquivalenceSets.Inv.new numObjects).finalize).1
  initial_objects := hinitial
  consistent := new_consistent current .empty
  placed := by
    intro o ho
    obtain ⟨objects, hobjects, ho⟩ := mem_flatten.mp ((hcurrent o).mpr ho)
    obtain ⟨c, hc⟩ := (mem_values _ _).mp hobjects
    exact ⟨c, (new_lookup current .empty).mpr ⟨objects, hc, ho⟩⟩
  known := by
    intro o c hc
    obtain ⟨objects, hobjects, ho⟩ := (new_lookup current .empty).mp hc
    constructor
    · rw [← hcurrent]
      exact mem_flatten.mpr ⟨objects, (mem_values _ _).mpr ⟨c, hobjects⟩, ho⟩
    · exact hcontainers c (mem_iff_lookup.mpr ⟨_, hobjects⟩)

def inPlace : ContainerAssignment := ⟨[⟨0, [0]⟩, ⟨1, [1]⟩].toAList, by decide⟩

def exchanged : ContainerAssignment := ⟨[⟨0, [1]⟩, ⟨1, [0]⟩].toAList, by decide⟩

theorem mem_inPlace (o : Nat) : o ∈ inPlace.getObjects ↔ o < 2 := by
  change o ∈ [0, 1] ↔ o < 2
  simp only [mem_cons, not_mem_nil, or_false]
  omega

theorem mem_exchanged (o : Nat) : o ∈ exchanged.getObjects ↔ o < 2 := by
  change o ∈ [1, 0] ↔ o < 2
  simp only [mem_cons, not_mem_nil, or_false]
  omega

def traded : AssignmentProblem :=
  ofEquivalent 2 inPlace exchanged mem_inPlace mem_exchanged fun _ hc => hc

def tradedContext : LpContext := ⟨⟨[1], nodup_one⟩, ⟨[0], nodup_zero⟩⟩

theorem traded_solved : traded.Solved tradedContext fun _ _ => 1 := by
  refine ⟨⟨[⟨0, [1], 1⟩], rfl, ?_⟩, fun _ _ _ _ => ⟨1, rfl⟩⟩
  intro k hk
  rw [mem_singleton.mp hk, BasicConstraint.Holds]
  simp

theorem traded_correct : ∃ counts initial changes a,
    traded.newEquivSetToContMap tradedContext (fun _ _ => 1) = .ok counts ∧
    (traded.request counts).checked = .ok initial ∧
    traded.createChangesFromSolution tradedContext (some fun _ _ => 1) = .ok changes ∧
    moveObjects changes.changes traded.assignment = .ok a ∧
    traded.lpAssignmentValue tradedContext (fun _ _ => 1) 0 1 =
      .ok (a.countOn traded.equivalenceSets 0 1 : ℚ) ∧
    a.countOn traded.equivalenceSets 0 0 =
    traded.assignment.countOn traded.equivalenceSets 0 0 := by
  obtain ⟨context, hc, -, h⟩ :=
    createChangesFromSolution_correct traded ⟨[1], nodup_one⟩ (by decide)
  cases hc
  obtain ⟨counts, initial, changes, a, hcounts, hi, hchanges, ha, h⟩ := h _ traded_solved
  exact ⟨counts, initial, changes, a, hcounts, hi, hchanges, ha, (h 0 1).1 (by decide),
    (h 0 0).2 (by decide)⟩

end AssignmentProblem

end Rebalancer
