import Rebalancer.ApplyTrace
import Rebalancer.TrafficTable

namespace Rebalancer
open List Int

structure RingContainers where
  directlyAffectedContainers : List ContainerId
  containerIdToScopeItemId : ContainerId → Option ScopeItemId
  nodup : directlyAffectedContainers.Nodup
  mem_iff : ∀ c, c ∈ directlyAffectedContainers ↔ ∃ s, containerIdToScopeItemId c = some s

namespace RingContainers

def new : RingContainers :=
  ⟨[], fun _ => none, List.nodup_nil, fun c =>
    ⟨fun h => absurd h List.not_mem_nil, fun ⟨_, h⟩ => by cases h⟩⟩

def add (rc : RingContainers) (scopeItem : ScopeItemId) (container : ContainerId)
    (h : rc.containerIdToScopeItemId container = none) : RingContainers where
  directlyAffectedContainers := container :: rc.directlyAffectedContainers
  containerIdToScopeItemId := fun c =>
    if c = container then some scopeItem else rc.containerIdToScopeItemId c
  nodup := by
    refine List.nodup_cons.mpr ⟨?_, rc.nodup⟩
    intro hm
    obtain ⟨s, hs⟩ := (rc.mem_iff container).mp hm
    rw [h] at hs
    cases hs
  mem_iff c := by
    by_cases hc : c = container
    · simp [hc]
    · simp [hc, rc.mem_iff c]

def insertContainer (scopeItem : ScopeItemId) (rc : RingContainers) (container : ContainerId) :
    Except String RingContainers :=
  match h : rc.containerIdToScopeItemId container with
  | none => .ok (rc.add scopeItem container h)
  | some s =>
    if scopeItem ≠ s then
      .error (s!"Container {container} belongs to two scopeItems, {s} and {scopeItem}. " ++
        "This is not supported in GroupRoutingRing.")
    else .ok rc

def updateDirectlyAffectedContainers (config : RoutingConfig) (rc : RingContainers)
    (destinationScopeItemSets : List (List ScopeItemId)) : Except String RingContainers :=
  destinationScopeItemSets.flatten.foldlM (fun rc scopeItem =>
    (config.containerIds scopeItem).foldlM (insertContainer scopeItem) rc) rc

end RingContainers

structure GroupRoutingRing where
  config : RoutingConfig
  totalOriginTraffic : ℚ
  containers : RingContainers
  groupObjectIds : IdSet

/-- A missing count is zero; when building the traffic table throws, the table holds the exception.
-/
@[ext] structure RingState where
  scopeItemToObjectCount : ScopeItemId → Int
  trafficTableWithStats : Except String TrafficTableWithStats

abbrev Assignment := ObjectId → ContainerId

def Assignment.moveTo (a : Assignment) (object : ObjectId) (container : ContainerId) : Assignment :=
  fun o => if o = object then container else a o

theorem sum_map_filter [AddCommMonoid R] (p : α → Bool) (g : α → R) (xs : List α) :
    ((xs.filter p).map g).sum = (xs.map fun x => if p x then g x else 0).sum := by
  induction xs with
  | nil => rfl
  | cons x xs ih => cases h : p x <;> simp [h, ih]

namespace GroupRoutingRing

def new (config : RoutingConfig) (groupObjectIds : IdSet) : Except String GroupRoutingRing := do
  let containers ← config.routingRings.foldlM (fun rc ring => do
    let sets ← config.destinationScopeItemSets ring
    rc.updateDirectlyAffectedContainers config sets) .new
  .ok ⟨config, (config.routingRings.map RoutingRing.originTraffic).sum, containers, groupObjectIds⟩

def directlyAffectedContainers (ring : GroupRoutingRing) : IdSet :=
  ⟨ring.containers.directlyAffectedContainers, ring.containers.nodup⟩

section
variable (ring : GroupRoutingRing)

def isAffectedByChange (data : AffectedByChangeDecisionData) : Option AffectedByChange :=
  some (.ofDecision ring.directlyAffectedContainers ring.groupObjectIds data)

def scopeItemOf (container : ContainerId) : Option ScopeItemId :=
  ring.containers.containerIdToScopeItemId container

def relevantScopeItem (change : Change) : Option ScopeItemId :=
  if change.object ∈ ring.groupObjectIds then ring.scopeItemOf change.container else none

def withTable (counts : ScopeItemId → Int) : RingState :=
  ⟨counts, ring.config.createTrafficTableWithStats ring.totalOriginTraffic counts⟩

def bump (counts : ScopeItemId → Int) (scopeItem : Option ScopeItemId) (value : Int) :
    ScopeItemId → Int :=
  match scopeItem with
  | none => counts
  | some s => fun s' => if s' = s then counts s' + value else counts s'

def applyAssignment (assignment : Assignment) : RingState :=
  ring.withTable (ring.groupObjectIds.elems.foldl
    (fun counts o => bump counts (ring.scopeItemOf (assignment o)) 1) (fun _ => 0))

def innerPartialApply (changes : ChangeSet) (st : RingState) : RingState :=
  ring.withTable (changes.changes.foldl
    (fun counts change => bump counts (ring.relevantScopeItem change) change.value)
    st.scopeItemToObjectCount)

def delta (changes : List Change) (s : ScopeItemId) : Int :=
  (changes.map (fun ch => if ring.relevantScopeItem ch = some s then ch.value else 0)).sum

def population (assignment : Assignment) (s : ScopeItemId) : Int := (ring.groupObjectIds.elems.map
    (fun o => if ring.scopeItemOf (assignment o) = some s then (1 : Int) else 0)).sum

theorem bump_apply (cs : ScopeItemId → Int) (item : Option ScopeItemId) (v : Int)
    (s : ScopeItemId) : bump cs item v s = cs s + if item = some s then v else 0 := by
  cases item with
  | none => simp [bump]
  | some s' =>
    by_cases h : s = s'
    · simp [bump, h]
    · simp [bump, h, Ne.symm h]

theorem foldl_bump (item : α → Option ScopeItemId) (v : α → Int) (l : List α)
    (s : ScopeItemId) : ∀ cs : ScopeItemId → Int,
    l.foldl (fun cs x => bump cs (item x) (v x)) cs s =
      cs s + (l.map (fun x => if item x = some s then v x else 0)).sum := by
  induction l with
  | nil =>
    intro cs
    simp
  | cons x l ih =>
    intro cs
    rw [foldl_cons, ih, bump_apply, map_cons, sum_cons, add_assoc]

theorem applyAssignment_counts (a : Assignment) :
    (ring.applyAssignment a).scopeItemToObjectCount = ring.population a := by
  funext s
  simp only [applyAssignment, withTable]
  rw [foldl_bump (fun o => ring.scopeItemOf (a o)) (fun _ => 1), population, zero_add]

variable (cs : ChangeSet)

theorem innerPartialApply_counts (st : RingState) :
    (ring.innerPartialApply cs st).scopeItemToObjectCount =
      fun s => st.scopeItemToObjectCount s + ring.delta cs.changes s := by
  funext s
  simp only [innerPartialApply, withTable]
  rw [foldl_bump ring.relevantScopeItem Change.value, delta]

theorem iterate_innerPartialApply (st : RingState)
    (k : Nat) : ((ring.innerPartialApply cs)^[k] st).scopeItemToObjectCount =
      fun s => st.scopeItemToObjectCount s + k * ring.delta cs.changes s := by
  induction k with
  | zero =>
    funext s
    simp
  | succ k ih =>
    rw [Function.iterate_succ_apply', innerPartialApply_counts, ih]
    funext s
    rw [Nat.cast_succ, add_mul, one_mul, add_assoc]

def Consistent (st : RingState) : Prop := st = ring.withTable st.scopeItemToObjectCount

theorem applyAssignment_consistent (a : Assignment) :
    ring.Consistent (ring.applyAssignment a) := rfl

theorem iterate_consistent
    (h : ring.Consistent st) (k : Nat) : ring.Consistent ((ring.innerPartialApply cs)^[k] st) := by
  cases k with
  | zero => exact h
  | succ k =>
    rw [Function.iterate_succ_apply']
    rfl

end

theorem Consistent.eq_iff {ring : GroupRoutingRing}
    (h : ring.Consistent st) (h' : ring.Consistent st') :
    st = st' ↔ st.scopeItemToObjectCount = st'.scopeItemToObjectCount := by
  constructor
  · rintro rfl
    rfl
  · intro heq
    rw [h, h', heq]

/-- The net effect of the changes is that of going from `a` to `a'`. -/
def Leads (cs : ChangeSet) (a a' : Assignment) : Prop :=
  ∀ o c, (cs.changes.map (fun ch => if ch.object = o ∧ ch.container = c then ch.value else 0)).sum =
    (if a' o = c then 1 else 0) - (if a o = c then 1 else 0)

theorem sum_map_eq_zero (f : α → Int) (l : List α) (h : ∀ x ∈ l, f x = 0) : (l.map f).sum = 0 := by
  apply sum_eq_zero
  intro y hy
  obtain ⟨x, hx, rfl⟩ := mem_map.mp hy
  exact h x hx

theorem sum_map_finset [AddCommMonoid R] (l : List α) (t : Finset ι) (f : α → ι → R) :
    (l.map fun x => ∑ i ∈ t, f x i).sum = ∑ i ∈ t, (l.map fun x => f x i).sum := by
  induction l with
  | nil => simp
  | cons x l ih => simp [ih, Finset.sum_add_distrib]

theorem Leads.move (a : Assignment) (o' : ObjectId) (c' : ContainerId) :
    Leads (.ofList [.removal o' (a o'), .addition o' c']) a (a.moveTo o' c') := by
  intro o c
  rw [ChangeSet.ofList_changes]
  simp only [map_cons, map_nil, sum_cons, sum_nil, add_zero,
    Change.removal, Change.addition, Assignment.moveTo]
  by_cases ho : o = o'
  · subst ho
    simp only [true_and, ↓reduceIte]
    split <;> split <;> rfl
  · simp only [ho, Ne.symm ho, false_and, ↓reduceIte]
    omega

theorem Leads.sum_changes [CommRing R] (h : Leads cs a a') (os : Finset ObjectId)
    (w : ObjectId → ContainerId → R) : (cs.changes.map fun ch => if ch.object ∈ os then
      (ch.value : R) * w ch.object ch.container else 0).sum =
    ∑ o ∈ os, (w o (a' o) - w o (a o)) := by
  let containers := cs.containers.toFinset ∪ os.image a' ∪ os.image a
  have hsplit : ∀ ch ∈ cs.changes, (if ch.object ∈ os then
      (ch.value : R) * w ch.object ch.container else 0) =
      ∑ o ∈ os, ∑ c ∈ containers,
        ((if ch.object = o ∧ ch.container = c then ch.value else 0 : ℤ) : R) * w o c := by
    intro ch hch
    have hc : ch.container ∈ containers := by
      simp [containers, (cs.mem_containers _).mpr ⟨ch, hch, rfl⟩]
    simp [ite_and, hc]
  have hsum : ∀ o ∈ os, ∑ c ∈ containers, (cs.changes.map fun ch =>
      ((if ch.object = o ∧ ch.container = c then ch.value else 0 : ℤ) : R) * w o c).sum =
      w o (a' o) - w o (a o) := by
    intro o ho
    have ha : a o ∈ containers ∧ a' o ∈ containers := by
      simp [containers, Finset.mem_image_of_mem a ho, Finset.mem_image_of_mem a' ho]
    have hc : ∀ c, (cs.changes.map fun ch =>
        ((if ch.object = o ∧ ch.container = c then ch.value else 0 : ℤ) : R)).sum =
        (if a' o = c then 1 else 0) - (if a o = c then 1 else 0) := by
      intro c
      have hm := congrArg (castRingHom R) (h o c)
      simpa [Function.comp_def] using hm
    simp only [sum_map_mul_right, hc, sub_mul, Finset.sum_sub_distrib]
    simp [ha]
  rw [map_congr_left hsplit, sum_map_finset]
  apply Finset.sum_congr rfl
  intro o ho
  rw [sum_map_finset, hsum o ho]

theorem Leads.population (h : Leads cs a a') (ring : GroupRoutingRing) (s : ScopeItemId) :
    ring.population a' s = ring.population a s + ring.delta cs.changes s := by
  have hd := h.sum_changes ring.groupObjectIds.elems.toFinset fun _ c =>
    if ring.scopeItemOf c = some s then (1 : ℤ) else 0
  rw [Finset.sum_sub_distrib, sum_toFinset _ ring.groupObjectIds.nodup,
    sum_toFinset _ ring.groupObjectIds.nodup] at hd
  have he : ring.delta cs.changes s = ring.population a' s - ring.population a s := by
    rw [GroupRoutingRing.population, GroupRoutingRing.population, ← hd, delta]
    congr 1
    apply map_congr_left
    intro ch _
    rw [relevantScopeItem]
    by_cases hg : ch.object ∈ ring.groupObjectIds
    · simp [hg, show ch.object ∈ ring.groupObjectIds.elems from hg]
    · simp [hg, show ch.object ∉ ring.groupObjectIds.elems from hg]
  omega

end GroupRoutingRing

end Rebalancer
