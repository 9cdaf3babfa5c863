import Rebalancer.AssignGreedy
import Rebalancer.AssignmentCaches
import Rebalancer.InitialObjects

namespace Rebalancer
open List AssocMap AssignmentRequest
open AList hiding keys

open ObjectToContainerAssignmentUtils

def AssignmentRequest.requested (r : AssignmentRequest) (equivSet : EquivalenceSetId)
    (container : ContainerId) : Nat :=
  AssocMap.getD (AssocMap.getD r.equivSetToContainerToObjectCount equivSet ∅) container 0

theorem setObjects_of_lookup (h : i'.lookup i = some os) : setObjects i' i = os.values.flatten := by
  rw [setObjects, AssocMap.getD, h, Option.getD_some]

theorem fits_of_size {counts : AssocMap ContainerId Nat}
    (hno : os.values.flatten.Nodup) (hs : initialSize os = counts.values.sum) :
    Placement.Fits os.values.flatten.toFinset (fun c => counts.getD c 0) counts.keys.toFinset where
  outside c hc := by
    have hn : c ∉ counts := by
      intro hm
      exact hc (mem_toFinset.mpr hm)
    rw [AssocMap.getD_of_notMem hn]
  total := by
    rw [sum_getD, toFinset_card_of_nodup hno, length_flatten, ← hs]
    rfl

theorem view_inv (hn : os.values.flatten.Nodup) (m : AssocMap ObjectId ContainerId)
    (cs : AssocMap ContainerId Nat) (hf : ∀ o ∈ os.values.flatten, m.lookup o = none) :
    (SetState.view ⟨m, cs, os⟩).Inv os.values.flatten.toFinset
      (fun c => cs.getD c 0) fun o => m.lookup o := by
  refine Placement.Inv.start (s := SetState.view ⟨m, cs, os⟩) ?_ ?_ ?_ ?_
  · intro o
    rw [mem_toFinset, mem_flatten_values]
    rfl
  · intro p
    exact getD_nodup hn p
  · intro o p q hp hq
    exact eq_of_mem_getD hn hp hq
  · intro o ho
    exact hf o (mem_toFinset.mp ho)

structure SetsAssigned (initial : AssocMap EquivalenceSetId ContainerToObjects)
    (handled : List (Sigma fun _ : EquivalenceSetId => AssocMap ContainerId Nat))
    (m : AssocMap ObjectId ContainerId) : Prop where
  assigned : ∀ o, m.lookup o ≠ none ↔ ∃ e ∈ handled, o ∈ setObjects initial e.1
  counts : ∀ e ∈ handled, ∀ c,
    ((setObjects initial e.1).toFinset.filter fun o => m.lookup o = some c).card =
      AssocMap.getD e.2 c 0

theorem ObjectToContainerAssignmentUtils.Distributed.mem_setObjects (h : Distributed eq os i') :
    o ∈ setObjects i' i ↔ o ∈ os ∧ eq.setAt o = .ok i := by
  rw [(h.perm i).mem_iff, mem_filter, decide_eq_true_iff]
variable {r : AssignmentRequest}

theorem ObjectToContainerAssignmentUtils.Distributed.nodup (h : Distributed eq os i')
    (hn : os.Nodup) (i : EquivalenceSetId) : (setObjects i' i).Nodup :=
  (h.perm i).nodup_iff.mpr (hn.filter _)

structure SetStep (r : AssignmentRequest) (p : Preferences) (order : List IdSet)
    (initial : AssocMap EquivalenceSetId ContainerToObjects)
    (handled : List (Sigma fun _ : EquivalenceSetId => AssocMap ContainerId Nat))
    (m : AssocMap ObjectId ContainerId)
    (e : Sigma fun _ : EquivalenceSetId => AssocMap ContainerId Nat)
    (m' : AssocMap ObjectId ContainerId) : Prop where
  run : r.assignSet initial p order m e = .ok m'
  before : SetsAssigned initial handled m
  after : SetsAssigned initial (handled ++ [e]) m'
  apart : ∀ e' ∈ handled, ∀ o ∈ setObjects initial e'.1, o ∉ setObjects initial e.1
  frame : ∀ o, o ∉ setObjects initial e.1 → m'.lookup o = m.lookup o

variable {I : List (Sigma fun _ : EquivalenceSetId => AssocMap ContainerId Nat) →
    AssocMap ObjectId ContainerId → Prop}

section
variable {p : Preferences} {o' : List IdSet}
  {i : AssocMap EquivalenceSetId ContainerToObjects} {objects : List ObjectId}
  {eq : EquivalenceSets}

theorem SetsAssigned.step (hd : Distributed eq objects i) (hn : objects.Nodup)
    (hp : p.Consistent o') (h : SetsAssigned i h' m)
    (hnew : ∀ e' ∈ h', e'.1 ≠ e.1) (hl : i.lookup e.1 = some os)
    (hsi : initialSize os = (values e.2).sum) : ∃ m', SetStep r p o' i h' m e m' := by
  have hs := setObjects_of_lookup hl
  have hflat : os.values.flatten.Nodup := by
    rw [← hs]
    exact hd.nodup hn e.1
  have ha : ∀ e' ∈ h', ∀ o ∈ setObjects i e'.1, o ∉ setObjects i e.1 := by
    intro e' he' o ho ho'
    have heq := (hd.mem_setObjects.mp ho).2.symm.trans (hd.mem_setObjects.mp ho').2
    exact hnew e' he' (Except.ok.inj heq)
  have hfree : ∀ o ∈ os.values.flatten, m.lookup o = none := by
    intro o ho
    by_contra hsome
    obtain ⟨e', he', ho'⟩ := (h.assigned o).mp hsome
    exact ha e' he' o ho' (hs ▸ ho)
  obtain ⟨m', hm', hall, hc, hf⟩ := assignObjectToContainerForOneSet_ok r.rt e.1 hp
    (view_inv hflat m e.2 hfree) (fits_of_size hflat hsi)
  rw [← hs] at hall hc hf
  refine ⟨m', ?_, h, ⟨?_, ?_⟩, ha, fun o ho => hf o fun hm => ho (mem_toFinset.mp hm)⟩
  · rw [assignSet, hl]
    exact hm'
  · intro o
    by_cases ho : o ∈ setObjects i e.1
    · exact iff_of_true (hall o (mem_toFinset.mpr ho)) ⟨e, mem_append_right _ mem_cons_self, ho⟩
    · rw [hf o (fun hm => ho (mem_toFinset.mp hm)), h.assigned]
      constructor
      · intro hex
        obtain ⟨e', he', ho'⟩ := hex
        exact ⟨e', mem_append_left _ he', ho'⟩
      · intro hex
        obtain ⟨e', he', ho'⟩ := hex
        rcases mem_append.mp he' with he' | he'
        · exact ⟨e', he', ho'⟩
        · rw [mem_singleton.mp he'] at ho'
          exact absurd ho' ho
  · intro e' he' c
    rcases mem_append.mp he' with he' | he'
    · rw [← h.counts e' he' c]
      congr 1
      apply Finset.filter_congr
      intro o ho
      rw [hf o fun hm => ha e' he' o (mem_toFinset.mp ho) (mem_toFinset.mp hm)]
    · rw [mem_singleton.mp he']
      exact hc c

theorem SetsAssigned.foldlM_rule (hd : Distributed eq objects i) (hno : objects.Nodup)
    (hp : p.Consistent o') (hs : ∀ h' m e m', I h' m → SetStep r p o' i h' m e m' →
      I (h' ++ [e]) m') (es : List (Sigma fun _ : EquivalenceSetId => AssocMap ContainerId Nat)) :
    ∀ h' m, SetsAssigned i h' m → I h' m → (h' ++ es).NodupKeys →
      (∀ e ∈ es, ∃ containerObjects, i.lookup e.1 = some containerObjects ∧
        initialSize containerObjects = (values e.2).sum) →
      ∃ m', es.foldlM (r.assignSet i p o') m = .ok m' ∧
        SetsAssigned i (h' ++ es) m' ∧ I (h' ++ es) m' := by
  induction es with
  | nil =>
    intro h' m h hI _ _
    exact ⟨m, rfl, by rwa [append_nil], by rwa [append_nil]⟩
  | cons e es ih =>
    intro h' m h hI hkeys hm
    obtain ⟨containerObjects, hl, hsize⟩ := hm e mem_cons_self
    have hn : ∀ e' ∈ h', e'.1 ≠ e.1 := by
      intro e' he' heq
      have hk := hkeys
      rw [List.NodupKeys, keys, map_append, nodup_append'] at hk
      apply hk.2.2 (mem_map_of_mem he')
      rw [heq]
      exact mem_cons_self
    obtain ⟨m', hm'⟩ := h.step (r := r) hd hno hp hn hl hsize
    rw [append_cons] at hkeys ⊢
    obtain ⟨m'', hm'', hf⟩ := ih _ m' hm'.after (hs h' m e m' hI hm') hkeys
      fun e' he' => hm e' (mem_cons_of_mem _ he')
    refine ⟨m'', ?_, hf⟩
    rw [foldlM_cons, hm'.run]
    exact hm''

end

inductive UtilsCall where
  | addStableContainerGroup (containers : IdSet)
  | getObjectToContainer (request : AssignmentRequest)

def UtilsCall.run (utils : ObjectToContainerAssignmentUtils) : UtilsCall →
    ObjectToContainerAssignmentUtils
  | addStableContainerGroup containers => utils.addStableContainerGroup containers
  | getObjectToContainer request => (request.getObjectToContainer utils).2

theorem UtilsCall.run_valid (h : us.Valid) (call : UtilsCall) : (call.run us).Valid := by
  cases call with
  | addStableContainerGroup c => exact h.addStableContainerGroup c
  | getObjectToContainer r =>
    rw [UtilsCall.run, AssignmentRequest.getObjectToContainer]
    cases r.checked with
    | error m => exact h
    | ok initial => exact (h.prepared r.rt r.initialAssignment.getContainers).2

theorem UtilsCall.foldl_valid (cs : List UtilsCall) : ∀ us : ObjectToContainerAssignmentUtils,
    us.Valid → (cs.foldl UtilsCall.run us).Valid :=
  fun _ h => foldlRecOn _ _ h fun _ h call _ => run_valid h call

theorem AssignmentRequest.checked_ok (h : r.checked = .ok initial) :
    Distributed r.equivalenceSets r.initialAssignment.getObjects initial ∧
      (∀ i containerObjects, initial.lookup i = some containerObjects →
        ∃ counts, r.equivSetToContainerToObjectCount.lookup i = some counts ∧
          initialSize containerObjects = (values counts).sum) ∧
      ∀ i ∈ r.equivSetToContainerToObjectCount, i ∈ initial := by
  obtain ⟨sets, hs, h⟩ := except_bind_ok h
  obtain ⟨u, hc, h⟩ := except_bind_ok h
  cases h
  exact ⟨getEquivSetToContainerToObjects_distributed hs, sanityCheck_ok hc⟩

theorem AssignmentRequest.getObjectToContainer_rule (h : us.Valid) (hch : r.checked = .ok i)
    (hI : I [] ∅) (hst : ∀ handled m e m', I handled m →
      SetStep r (us.getContainerToPreferredContainers r.rt r.initialAssignment.getContainers).1
        (us.getContainerToPreferredContainers r.rt
          r.initialAssignment.getContainers).2.getSourceContainerOrder.1 i handled m e m' →
      I (handled ++ [e]) m') : ∃ m, (r.getObjectToContainer us).1 = .ok m ∧
      SetsAssigned i r.equivSetToContainerToObjectCount.entries m ∧
      I r.equivSetToContainerToObjectCount.entries m := by
  obtain ⟨hd, hs, hk⟩ := checked_ok hch
  have hp := (h.prepared r.rt r.initialAssignment.getContainers).1
  have hstart : SetsAssigned i [] ∅ := by
    refine ⟨fun o => iff_of_false (fun hne => hne rfl) ?_, nofun⟩
    intro hex
    obtain ⟨e, he, -⟩ := hex
    cases he
  obtain ⟨m, hm, ha⟩ := hstart.foldlM_rule (r := r) hd r.initialAssignment.nodup hp hst
    r.equivSetToContainerToObjectCount.entries [] ∅ hI
    r.equivSetToContainerToObjectCount.nodupKeys (by
      intro e he
      have ht := mem_lookup_iff.mpr he
      obtain ⟨c, hobjects⟩ := mem_iff_lookup.mp (hk e.1 (mem_iff_lookup.mpr ⟨_, ht⟩))
      obtain ⟨counts, hc, hsize⟩ := hs e.1 c hobjects
      rw [ht] at hc
      cases hc
      exact ⟨c, hobjects, hsize⟩)
  refine ⟨m, ?_, ha⟩
  rw [getObjectToContainer, hch]
  exact hm

theorem AssignmentRequest.getObjectToContainer_assigned
    {us : ObjectToContainerAssignmentUtils} (h : us.Valid) (hc : r.checked = .ok i) :
    ∃ m, (r.getObjectToContainer us).1 = .ok m ∧
      SetsAssigned i r.equivSetToContainerToObjectCount.entries m := by
  obtain ⟨m, hm, ha, -⟩ := r.getObjectToContainer_rule h hc (I := fun _ _ => True) trivial
    fun _ _ _ _ _ _ => trivial
  exact ⟨m, hm, ha⟩

theorem AssignmentRequest.exists_entry (hch : r.checked = .ok i') (ho : o ∈ setObjects i' i) :
    ∃ counts, (⟨i, counts⟩ : Sigma fun _ : EquivalenceSetId => AssocMap ContainerId Nat) ∈
      r.equivSetToContainerToObjectCount.entries := by
  obtain ⟨-, hs, -⟩ := checked_ok hch
  cases hi : i'.lookup i with
  | none =>
    rw [setObjects, AssocMap.getD, hi] at ho
    cases ho
  | some c =>
    obtain ⟨counts, hc, -⟩ := hs i c hi
    exact ⟨counts, mem_lookup_iff.mp hc⟩

theorem AssignmentRequest.length_placed (hch : r.checked = .ok i')
    (h : SetsAssigned i' r.equivSetToContainerToObjectCount.entries m) (i : EquivalenceSetId)
    (c : ContainerId) :
    ((setObjects i' i).filter fun o => m.lookup o = some c).length = r.requested i c := by
  obtain ⟨hd, -, -⟩ := checked_ok hch
  cases hi : r.equivSetToContainerToObjectCount.lookup i with
  | none =>
    have hnone : setObjects i' i = [] := by
      apply eq_nil_iff_forall_not_mem.mpr
      intro o ho
      obtain ⟨counts, he⟩ := exists_entry hch ho
      rw [mem_lookup_iff.mpr he] at hi
      cases hi
    rw [hnone, requested, AssocMap.getD, AssocMap.getD, hi]
    rfl
  | some counts =>
    have hc := h.counts ⟨i, counts⟩ (mem_lookup_iff.mp hi) c
    have hf : (setObjects i' i).toFinset.filter (fun o => m.lookup o = some c) =
        ((setObjects i' i).filter fun o => m.lookup o = some c).toFinset := by
      ext o
      simp
    rw [hf, toFinset_card_of_nodup ((hd.nodup r.initialAssignment.nodup i).filter _)] at hc
    rw [hc, requested, AssocMap.getD, AssocMap.getD, AssocMap.getD, hi, Option.getD_some]

/-- A request that passes the check is answered: every object gets a container, every count is met.
-/
theorem AssignmentRequest.getObjectToContainer_correct (calls : List UtilsCall)
    (r : AssignmentRequest) (hcheck : r.checked = .ok initial) :
    ∃ m, (r.getObjectToContainer (calls.foldl UtilsCall.run .new)).1 = .ok m ∧
      (∀ o, o ∈ m ↔ o ∈ r.initialAssignment.getObjects) ∧
      (∀ o ∈ r.initialAssignment.getObjects, ∃! c, m.lookup o = some c) ∧
      ∀ i c, (r.initialAssignment.getObjects.filter fun o =>
        r.equivalenceSets.setAt o = .ok i ∧ m.lookup o = some c).length = r.requested i c := by
  obtain ⟨hd, -, -⟩ := checked_ok hcheck
  obtain ⟨m, hm, ha⟩ := r.getObjectToContainer_assigned (UtilsCall.foldl_valid calls .new .new)
    hcheck
  have hmem : ∀ o, o ∈ m ↔ o ∈ r.initialAssignment.getObjects := by
    intro o
    rw [← lookup_isSome, ← Option.ne_none_iff_isSome, ha.assigned]
    constructor
    · intro hex
      obtain ⟨e, -, ho⟩ := hex
      exact (hd.mem_setObjects.mp ho).1
    · intro ho
      obtain ⟨i, hi⟩ := hd.known o ho
      have hs := hd.mem_setObjects.mpr ⟨ho, hi⟩
      obtain ⟨counts, he⟩ := exists_entry hcheck hs
      exact ⟨_, he, hs⟩
  refine ⟨m, hm, hmem, ?_, ?_⟩
  · intro o ho
    obtain ⟨c, hc⟩ := mem_iff_lookup.mp ((hmem o).mpr ho)
    refine ⟨c, hc, ?_⟩
    intro d hd'
    rw [hc] at hd'
    exact (Option.some.inj hd').symm
  · intro i c
    rw [← length_placed hcheck ha i c,
      ((hd.perm i).filter fun o => m.lookup o = some c).length_eq, filter_filter]
    congr 1
    apply filter_congr
    intro o _
    rw [Bool.decide_and, Bool.and_comm]

def insertionOrder : Runtime where
  order _ l := l
  order_perm _ _ := .refl _
  shuffle _ _ _ l := l
  shuffle_perm _ _ _ _ := .refl _

def spreadRequest : AssignmentRequest where
  rt := insertionOrder
  equivalenceSets := EquivalenceSets.new.finalize 3
  equivSetToContainerToObjectCount := .singleton 0 [⟨0, 1⟩, ⟨2, 1⟩, ⟨3, 1⟩].toAList
  initialAssignment := ⟨[⟨0, [0, 1]⟩, ⟨1, [2]⟩, ⟨2, []⟩].toAList, by decide⟩
  shuffleSeed := none

def spreadCalls : List UtilsCall := [.addStableContainerGroup ⟨[1, 2], nodup_one_two⟩]

theorem spreadRequest_correct : ∃ m,
    (spreadRequest.getObjectToContainer (spreadCalls.foldl UtilsCall.run .new)).1 = .ok m ∧
      (∀ o, o ∈ m ↔ o ∈ spreadRequest.initialAssignment.getObjects) ∧
      (∀ o ∈ spreadRequest.initialAssignment.getObjects, ∃! c, m.lookup o = some c) ∧
      ∀ i c, (spreadRequest.initialAssignment.getObjects.filter fun o =>
        spreadRequest.equivalenceSets.setAt o = .ok i ∧ m.lookup o = some c).length =
          spreadRequest.requested i c :=
  getObjectToContainer_correct spreadCalls spreadRequest rfl

example : ((spreadRequest.getObjectToContainer (spreadCalls.foldl UtilsCall.run
    .new)).1.toOption.map
    fun m => m.entries.map fun e => (e.1, e.2)) = some [(0, 3), (2, 2), (1, 0)] := by
  rfl

end Rebalancer
