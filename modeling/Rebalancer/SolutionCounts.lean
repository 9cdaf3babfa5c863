import Rebalancer.AssignmentCorrect
import Rebalancer.SolutionChanges

namespace Rebalancer
open AssocMap

abbrev ObjectCounts := AssocMap EquivalenceSetId (AssocMap ContainerId Nat)

namespace ObjectCounts

variable (counts : ObjectCounts) (equivSet : EquivalenceSetId) (container : ContainerId)

def count : Nat := getD (getD counts equivSet ∅) container 0

def write (n : Nat) : ObjectCounts :=
  counts.insert equivSet ((getD counts equivSet ∅).insert container n)

end ObjectCounts

def ContainerAssignment.located (a : ContainerAssignment) : List (ContainerId × ObjectId) :=
  a.containerToObjects.entries.flatMap fun e => e.2.map fun o => (e.1, o)

def AssignmentState.located (a : AssignmentState) : List (ContainerId × ObjectId) :=
  a.containerToObjects.entries.flatMap fun e => e.2.elems.map fun o => (e.1, o)

def AssignmentState.countOn (equivalenceSets : EquivalenceSets) (a : AssignmentState)
    (equivSet : EquivalenceSetId) (container : ContainerId) : Nat :=
  ((a.getObjects container).elems.filter fun o => equivalenceSets.setAt o = .ok equivSet).length

structure LpContext where
  dynamicContainers : IdSet
  dynamicEquivSets : IdSet

namespace LpContext

section
variable (context : LpContext) (equivSet : EquivalenceSetId) (container : ContainerId)

def HasVariable : Prop :=
  container ∈ context.dynamicContainers ∧ equivSet ∈ context.dynamicEquivSets

instance : Decidable (context.HasVariable equivSet container) :=
  inferInstanceAs (Decidable (_ ∧ _))

end

def lpVars (context : LpContext) : List (EquivalenceSetId × ContainerId) :=
  context.dynamicEquivSets.elems.flatMap fun equivSet =>
    context.dynamicContainers.elems.map fun container => (equivSet, container)

end LpContext

abbrev Solution := EquivalenceSetId → ContainerId → ℚ

structure BasicConstraint where
  equivSet : EquivalenceSetId
  terms : List ContainerId
  totalSize : Int

section
variable (context : LpContext) (solution : Solution)

def BasicConstraint.Holds (k : BasicConstraint) : Prop :=
  (k.terms.map (solution k.equivSet)).sum = k.totalSize ∧
    ∀ c ∈ context.dynamicContainers, 0 ≤ solution k.equivSet c ∧ solution k.equivSet c ≤ k.totalSize

def Solution.Integral : Prop :=
  ∀ i ∈ context.dynamicEquivSets, ∀ c ∈ context.dynamicContainers, ∃ n : ℤ, solution i c = n

end

/-- Both assignments place every object, and the containers are those of the initial assignment. -/
structure AssignmentProblem where
  rt : Runtime
  numObjects : Nat
  equivalenceSets : EquivalenceSets
  initialAssignment : ContainerAssignment
  assignment : AssignmentState
  keys : IndexKeys
  stableContainerGroups : List IdSet
  runId : String
  partition : equivalenceSets.IsPartition numObjects
  initial_objects : ∀ o, o ∈ initialAssignment.getObjects ↔ o < numObjects
  consistent : assignment.Consistent keys
  placed : ∀ o < numObjects, ∃ c, assignment.table o = some c
  known : ∀ o c, assignment.table o = some c →
    o < numObjects ∧ c ∈ initialAssignment.getContainers

namespace AssignmentProblem

section
variable (p : AssignmentProblem)

def containers : List ContainerId := p.initialAssignment.getContainers

def getDynamicEquivalentSets (containerSet : IdSet) : Except String IdSet :=
  (containerSet.elems.flatMap fun c => (p.assignment.getDynamicObjects c).elems).foldlM
    (fun dynamicSets obj => do
      let equivSet ← p.equivalenceSets.setAt obj
      .ok (dynamicSets.insert equivSet)) .empty

def lpContext (dynamicContainers : IdSet) : Except String LpContext := do
  let dynamicEquivSets ← p.getDynamicEquivalentSets dynamicContainers
  .ok ⟨dynamicContainers, dynamicEquivSets⟩

def fixedEquivSetVals (container : ContainerId) : Except String (AssocMap EquivalenceSetId Nat) :=
  (p.assignment.getObjects container).elems.foldlM (fun equivSetToValue obj => do
      let equivSet ← p.equivalenceSets.setAt obj
      .ok (equivSetToValue.insert equivSet (getD equivSetToValue equivSet 0 + 1))) ∅

section
variable (context : LpContext)

def getMaybeFixedAssignmentValue (equivSet : EquivalenceSetId) (container : ContainerId) :
    Except String (Option Nat) :=
  if context.HasVariable equivSet container then .ok none
  else do
    let vals ← p.fixedEquivSetVals container
    .ok (some (getD vals equivSet 0))

section
variable (solution : Solution)

def lpAssignmentValue
    (equivSet : EquivalenceSetId) (container : ContainerId) : Except String ℚ := do
  match ← p.getMaybeFixedAssignmentValue context equivSet container with
  | none => .ok (solution equivSet container)
  | some fixedValue => .ok fixedValue

def addTerm (k : BasicConstraint) (cont : ContainerId) : Except String BasicConstraint := do
  match ← p.getMaybeFixedAssignmentValue context k.equivSet cont with
  | some fixedValue => .ok { k with totalSize := k.totalSize - fixedValue }
  | none => .ok { k with terms := k.terms ++ [cont] }

def addObjectInContainerConstraints : Except String (List BasicConstraint) :=
  context.dynamicEquivSets.elems.mapM fun equivSet =>
    p.containers.foldlM (p.addTerm context)
      ⟨equivSet, [], ((p.equivalenceSets.getSet equivSet).card : Int)⟩

section
variable (counts : ObjectCounts) (x : ContainerId × ObjectId)

def writeZero : Except String ObjectCounts := do
  let equivSet ← p.equivalenceSets.setAt x.2
  .ok (counts.write equivSet x.1 0)

def countFixed : Except String ObjectCounts := do
  let equivSet ← p.equivalenceSets.setAt x.2
  .ok (if x.1 ∉ context.dynamicContainers ∨ equivSet ∉ context.dynamicEquivSets then
    counts.write equivSet x.1 (counts.count equivSet x.1 + 1) else counts)

end

def writeVariable (counts : ObjectCounts) (x : EquivalenceSetId × ContainerId) : ObjectCounts :=
  counts.write x.1 x.2 (round (solution x.1 x.2)).toNat

def newEquivSetToContMap : Except String ObjectCounts := do
  let zeros ← p.initialAssignment.located.foldlM p.writeZero ∅
  let fixed ← p.assignment.located.foldlM (p.countFixed context) zeros
  .ok (context.lpVars.foldl (writeVariable solution) fixed)

end

def request (counts : ObjectCounts) : AssignmentRequest where
  rt := p.rt
  equivalenceSets := p.equivalenceSets
  equivSetToContainerToObjectCount := counts
  initialAssignment := p.initialAssignment
  shuffleSeed := some p.runId

def getStableObjectToContainerAssignment (counts : ObjectCounts) :
    Except Fault (AssocMap ObjectId ContainerId) :=
  ((p.request counts).getObjectToContainer (p.stableContainerGroups.foldl
    ObjectToContainerAssignmentUtils.addStableContainerGroup .new)).1

/-- `createChangesFromSolution`; there is no solution when the status says so. -/
def createChangesFromSolution (solution : Option Solution) : Except Fault ChangeSet :=
  match solution with
  | none => .ok .new
  | some solution => do
    let counts ← (p.newEquivSetToContMap context solution).mapError .thrown
    let newAssignment ← p.getStableObjectToContainerAssignment counts
    (p.assignment.changesTo newAssignment).mapError .thrown

end

end

end AssignmentProblem

end Rebalancer
