import Rebalancer.LookupBounds

namespace Rebalancer
open List
variable {bc : BoundConstraints}

/-- The builder throws when containers that alone may change are combined with the others. -/
structure BoundConstraints where
  dynamic : Option IdSet
  notGiving : Option IdSet
  notTaking : Option IdSet
  built : dynamic ≠ none → notGiving = none ∧ notTaking = none

namespace BoundConstraints

section
variable (bc : BoundConstraints)

def isEmpty : Bool := bc.dynamic.isNone && bc.notGiving.isNone && bc.notTaking.isNone

def inDynamicContainerSet (container : ContainerId) : Bool :=
  match bc.dynamic with
  | none => true
  | some dynamic => decide (container ∈ dynamic)

def anyInDynamicContainerSet (containers : IdSet) : Bool :=
  match bc.dynamic with
  | none => true
  | some dynamic =>
    if dynamic.elems.length < containers.elems.length then dynamic.elems.any (· ∈ containers)
    else containers.elems.any (· ∈ dynamic)

/-- What `giving` and `taking` have in common: the containers that are excluded. -/
def allowed (excluded : Option IdSet) (container : ContainerId) : Bool :=
  match excluded with
  | none => bc.inDynamicContainerSet container
  | some excluded => decide (container ∉ excluded)

def anyAllowed (excluded : Option IdSet) (containers : IdSet) : Bool :=
  match excluded with
  | none => bc.anyInDynamicContainerSet containers
  | some excluded =>
    if excluded.elems.length < containers.elems.length then true
    else containers.elems.any (· ∉ excluded)

def giving : ContainerId → Bool := bc.allowed bc.notGiving
def taking : ContainerId → Bool := bc.allowed bc.notTaking
def anyGiving : IdSet → Bool := bc.anyAllowed bc.notGiving
def anyTaking : IdSet → Bool := bc.anyAllowed bc.notTaking

end

theorem of_anyAllowed (h : bc.anyAllowed e cs = false) (hc : c ∈ cs) : bc.allowed e c = false := by
  cases e with
  | none =>
    rw [anyAllowed, anyInDynamicContainerSet] at h
    rw [allowed, inDynamicContainerSet]
    cases hd : bc.dynamic with
    | none =>
      rw [hd] at h
      cases h
    | some d =>
      rw [hd] at h
      dsimp only at h ⊢
      apply decide_eq_false
      intro hmem
      split at h
      · exact absurd (decide_eq_true hc) (any_eq_false.mp h c hmem)
      · exact absurd (decide_eq_true hmem) (any_eq_false.mp h c hc)
  | some e =>
    rw [anyAllowed] at h
    split at h
    · cases h
    · exact Bool.eq_false_iff.mpr (any_eq_false.mp h c hc)

def Permits (bc : BoundConstraints) (a a' : Assignment) : Prop :=
  ∀ o, a' o ≠ a o → bc.giving (a o) = true ∧ bc.taking (a' o) = true

end BoundConstraints

namespace ObjectPartitionLookup
variable {u : Universe partitions}

section
variable (l : ObjectPartitionLookup u)

def keepsLower (bc : BoundConstraints) : Bool :=
  match l.bound with
  | .max => !bc.anyGiving l.lookupContainers
  | .min => !bc.anyTaking l.lookupContainers

def keepsUpper (bc : BoundConstraints) : Bool :=
  match l.bound with
  | .max => !bc.anyTaking l.lookupContainers
  | .min => !bc.anyGiving l.lookupContainers

/-- `getBounds(bc)`, with the stored unconstrained bounds and the current value. -/
def getConstrainedBounds (unconstrainedBounds : Option Bounds)
    (value : ℚ) (bc : BoundConstraints) : Except String Bounds :=
  if bc.isEmpty then .error
    ("Expected to be called only when boundConstraints is given and when " ++
    "unconstrained bounds has already been computed")
  else match unconstrainedBounds with
  | none => .error ("Expected to be called only when boundConstraints is given and when " ++
    "unconstrained bounds has already been computed")
  | some bounds =>
    .ok ⟨if l.keepsLower bc then value else bounds.lowerBound,
      if l.keepsUpper bc then value else bounds.upperBound⟩

def NonnegativeWeights : Prop := ∀ c ∈ l.lookupContainers, ∀ o,
    0 ≤ (u.dimension l.objectPartition.dimensionId).getValue o (l.getDimensionScopeItemId c)

def NoGhosts : Prop := ∀ g ∈ l.known, l.penaltyOf 0 g ≠ 0 → l.Permanent g

/-- More objects on the lookup containers never change the value in the wrong direction. -/
def Monotone : Prop := l.NonnegativeWeights ∧ (l.bound = .min → l.NoGhosts)

def Keeps (a a' : Assignment) : Prop := ∀ o, a o ∈ l.lookupContainers → a' o = a o

end

variable {l : ObjectPartitionLookup u} {a a' : Assignment}

section
variable (h : l.Keeps a a')
include h

theorem Keeps.contributing (ho : o ∈ l.contributingObjectIds a) :
    o ∈ l.contributingObjectIds a' ∧ l.weightOf a' o = l.weightOf a o := by
  rcases mem_contributingObjectIds.mp ho with hd | ⟨hlt, hc⟩
  · rw [weightOf, weightOf, getDimensionScopeItemId_during hd, getDimensionScopeItemId_during hd]
    exact ⟨mem_contributingObjectIds.mpr (.inl hd), rfl⟩
  · rw [weightOf, weightOf, h o hc]
    exact ⟨mem_contributingObjectIds.mpr (.inr ⟨hlt, (h o hc).symm ▸ hc⟩), rfl⟩

theorem Keeps.entered : l.entered a ⊆ l.entered a' := by
  intro g hg
  apply mem_entered.mpr
  rcases mem_entered.mp hg with hinit | ⟨o, ho, hog⟩
  · exact .inl hinit
  · exact .inr ⟨o, (h.contributing ho).1, hog⟩

theorem Keeps.groupWeight_le (hp : l.NonnegativeWeights) (g : GroupId) :
    l.groupWeight a g ≤ l.groupWeight a' g := by
  rw [groupWeight_eq, groupWeight_eq, Finset.sum_congr rfl fun o ho => by
    rw [← (h.contributing (mem_toFinset.mp ho)).2]]
  apply Finset.sum_le_sum_of_subset_of_nonneg
  · intro o ho
    exact mem_toFinset.mpr (h.contributing (mem_toFinset.mp ho)).1
  · intro o ho hn
    apply mul_nonneg _ (Nat.cast_nonneg _)
    rcases mem_contributingObjectIds.mp (mem_toFinset.mp ho) with hd | ⟨-, hc⟩
    · exact absurd (mem_toFinset.mpr (mem_contributingObjectIds.mpr (.inl hd))) hn
    · exact hp _ hc o

theorem Keeps.valueAt_max (hb : l.bound = .max) (hm : l.Monotone) : l.valueAt a ≤ l.valueAt a' := by
  apply le_trans _ (leastSum_subset h.entered fun g _ => l.penaltyAt_nonneg a' g)
  apply leastSum_mono
  intro g _
  apply l.penaltyOf_mono
  rw [hb]
  exact h.groupWeight_le hm.1 g

theorem Keeps.valueAt_min (hb : l.bound = .min) (hm : l.Monotone) : l.valueAt a' ≤ l.valueAt a := by
  have hle : ∀ g, l.penaltyAt a' g ≤ l.penaltyAt a g := by
    intro g
    apply l.penaltyOf_mono
    rw [hb]
    exact h.groupWeight_le hm.1 g
  rw [valueAt, ← leastSum_eq_of_subset h.entered]
  · exact leastSum_mono fun g _ => hle g
  · intro g hg
    obtain ⟨hmem, hn⟩ := Finset.mem_sdiff.mp hg
    have he : l.penaltyOf 0 g = 0 := by
      by_contra hne
      exact hn ((hm.2 hb g (entered_subset_known l a' hmem) hne).entered a)
    apply le_antisymm _ (l.penaltyAt_nonneg a' g)
    apply (hle g).trans_eq
    rw [penaltyAt, groupWeight_of_not_entered hn, he]

end

theorem keeps_of_not_giving (h : bc.Permits a a')
    (hg : bc.anyGiving l.lookupContainers = false) : l.Keeps a a' := by
  intro o ho
  by_contra hne
  exact absurd (h o hne).1 (Bool.eq_false_iff.mp (BoundConstraints.of_anyAllowed hg ho))

theorem keeps_of_not_taking (h : bc.Permits a a')
    (ht : bc.anyTaking l.lookupContainers = false) : l.Keeps a' a := by
  intro o ho
  by_contra hne
  exact absurd (h o (Ne.symm hne)).2 (Bool.eq_false_iff.mp (BoundConstraints.of_anyAllowed ht ho))

theorem keepsLower_sound (h : l.keepsLower bc = true) (hm : l.Monotone)
    (hr : bc.Permits a a') : l.valueAt a ≤ l.valueAt a' := by
  rw [keepsLower] at h
  cases hb : l.bound with
  | max =>
    rw [hb] at h
    exact (keeps_of_not_giving hr (Bool.not_eq_true' _ ▸ h)).valueAt_max hb hm
  | min =>
    rw [hb] at h
    exact (keeps_of_not_taking hr (Bool.not_eq_true' _ ▸ h)).valueAt_min hb hm

theorem keepsUpper_sound (h : l.keepsUpper bc = true) (hm : l.Monotone)
    (hr : bc.Permits a a') : l.valueAt a' ≤ l.valueAt a := by
  rw [keepsUpper] at h
  cases hb : l.bound with
  | max =>
    rw [hb] at h
    exact (keeps_of_not_taking hr (Bool.not_eq_true' _ ▸ h)).valueAt_max hb hm
  | min =>
    rw [hb] at h
    exact (keeps_of_not_giving hr (Bool.not_eq_true' _ ▸ h)).valueAt_min hb hm

/-- The bounds contain the value on every assignment that the permitted moves lead to. -/
theorem getConstrainedBounds_contain (l : ObjectPartitionLookup u) (bc : BoundConstraints)
    {b b' : Bounds} (hb : l.getBounds = .ok b) (a a' : Assignment)
    (ha : l.computeFromAssignment a = .ok v) (hb' : l.getConstrainedBounds (some b) v bc = .ok b')
    (hlower : if l.keepsLower bc then l.Monotone else l.Scanned ∧ l.LowerSound)
    (hupper : if l.keepsUpper bc then l.Monotone else l.Scanned ∧ l.UpperSound)
    (hreach : bc.Permits a a') (ha' : l.computeFromAssignment a' = .ok v') : b'.Contains v' := by
  obtain ⟨hall, rfl⟩ := acceptsAll_of_ok ha
  obtain ⟨hall', rfl⟩ := acceptsAll_of_ok ha'
  rw [getConstrainedBounds] at hb'
  split at hb'
  · cases hb'
  · cases hb'
    rw [getBounds_eq hb]
    constructor
    · split_ifs at hlower with hkeeps
      · exact (if_pos hkeeps).trans_le (keepsLower_sound hkeeps hlower hreach)
      · exact (if_neg hkeeps).trans_le (lowerBound_le hlower.1 hlower.2 hall')
    · split_ifs at hupper with hkeeps
      · exact (keepsUpper_sound hkeeps hupper hreach).trans_eq (if_pos hkeeps).symm
      · exact (le_upperBound hupper.1 hupper.2 hall').trans_eq (if_neg hkeeps).symm

end ObjectPartitionLookup

def pairLookup (weight : ℚ) : ObjectPartitionLookup (weightedUniverse [3, weight]
    ⟨[(0, [0, 1])], by decide⟩ (by simp)) :=
  plainLookup .empty 1 unit_nonneg 0 .max

def zeroNotGiving : BoundConstraints :=
  ⟨none, some ⟨[0], nodup_zero⟩, none, fun h => absurd rfl h⟩

/-- Container `0` gives nothing away, but an object of negative weight joins it and the value falls
below the lower bound. -/
theorem getConstrainedBounds_above_value :
    (pairLookup (-2)).getConstrainedBounds (some ⟨0, 3⟩) 3 zeroNotGiving = .ok ⟨3, 3⟩ ∧
      (pairLookup (-2)).getBounds = .ok ⟨0, 3⟩ ∧
      (pairLookup (-2)).computeFromAssignment id = .ok 3 ∧ zeroNotGiving.Permits id (fun _ => 0) ∧
      (pairLookup (-2)).computeFromAssignment (fun _ => 0) = .ok 1 := by
  refine ⟨by decide +kernel, by decide +kernel, by decide +kernel, ?_, by decide +kernel⟩
  intro o ho
  exact ⟨decide_eq_true fun h => ho (mem_singleton.mp h).symm, rfl⟩

theorem getConstrainedBounds_contain_second_joins : (⟨3, 5⟩ : Bounds).Contains 5 := by
  have hb : (pairLookup 2).getBounds = .ok ⟨0, 5⟩ := by decide +kernel
  refine (pairLookup 2).getConstrainedBounds_contain zeroNotGiving hb id (fun _ => 0) (v := 3)
    (by decide +kernel) (by decide +kernel) ?_ ?_ ?_ (by decide +kernel)
  · refine ⟨?_, nofun⟩
    intro c _ o
    match o with
    | 0 => exact (by decide +kernel : (0 : ℚ) ≤ 3)
    | 1 => exact (by decide +kernel : (0 : ℚ) ≤ 2)
    | _ + 2 => exact le_refl (0 : ℚ)
  · refine ⟨ObjectPartitionLookup.scanned_of_static rfl, ?_⟩
    intro g hg
    exact absurd hg not_mem_nil
  · intro o ho
    exact ⟨decide_eq_true fun h => ho (mem_singleton.mp h).symm, rfl⟩

end Rebalancer
