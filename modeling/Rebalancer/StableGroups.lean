import Rebalancer.AssignStable
import Rebalancer.AssignmentCorrect

namespace Rebalancer
open Option AssocMap List
variable {r : AssignmentRequest}

open ObjectToContainerAssignmentUtils

def ContainerAssignment.getContainer (a : ContainerAssignment) (object : ObjectId) :
    Option ContainerId :=
  (a.containerToObjects.entries.find? fun entry => object ∈ entry.2).map Sigma.fst

theorem ContainerAssignment.getContainer_of_mem {a : ContainerAssignment}
    (h : o ∈ AssocMap.getD a.containerToObjects c []) : a.getContainer o = some c := by
  have hentry : ∀ e ∈ a.containerToObjects.entries, getD a.containerToObjects e.1 [] = e.2 := by
    intro e he
    rw [AssocMap.getD, AList.mem_lookup_iff.mpr he, getD_some]
  rw [getContainer]
  cases hf : a.containerToObjects.entries.find? fun entry => o ∈ entry.2 with
  | none =>
    obtain ⟨objects, hc, h⟩ := (mem_getD not_mem_nil).mp h
    exact absurd (decide_eq_true h) (find?_eq_none.mp hf _ (AList.mem_lookup_iff.mp hc))
  | some e =>
    have hmem := mem_of_find?_eq_some hf
    have ho := find?_some hf
    rw [decide_eq_true_iff, ← hentry e hmem] at ho
    rw [map_some, eq_of_mem_getD a.nodup h ho]

namespace ObjectToContainerAssignmentUtils

def withGroups (groups : List IdSet) : ObjectToContainerAssignmentUtils :=
  groups.foldl addStableContainerGroup new

theorem withGroups_eq (gs : List IdSet) : withGroups gs = ⟨gs, none, ∅, none⟩ := by
  refine foldl_rule (P := fun done u => u = ⟨done, none, ∅, none⟩) ?_ [] new rfl
  rintro g _ done _ rfl
  rfl

theorem withGroups_valid (gs : List IdSet) : (withGroups gs).Valid := by
  rw [withGroups_eq]
  exact ⟨fun _ => ⟨rfl, rfl⟩, nofun⟩

theorem Preferences.foldl_visit_mem (rt : Runtime) (hg : g ∈ gs) (hc : c ∈ g)
    (cs : List ContainerId) (p : Preferences) :
    c ∈ cs → c ∈ (cs.foldl (Preferences.visit rt gs) p).containerToPreferredContainers := by
  refine foldl_rule (P := fun done p => c ∈ done → c ∈ containerToPreferredContainers p) ?_ [] p
    nofun
  intro d _ done p h hd
  rw [Preferences.visit]
  split_ifs with hl
  · refine (mem_append.mp hd).elim h ?_
    intro hd
    have hmem : c ∈ getPreferredContainers rt gs c := mem_getPreferredContainers.mpr ⟨g, hg, hc, hc⟩
    rw [← mem_singleton.mp hd] at hl
    rw [length_eq_zero_iff.mp hl] at hmem
    cases hmem
  · exact (AList.mem_insert _).mpr ((mem_append.mp hd).symm.imp mem_singleton.mp h)

theorem withGroups_prepared (rt : Runtime) (hco : ∀ group ∈ gs, ∀ c ∈ group, c ∈ cs) :
    GreedyState.Prepared rt gs ((withGroups gs).getContainerToPreferredContainers rt cs).1
      ((withGroups gs).getContainerToPreferredContainers rt cs).2.getSourceContainerOrder.1 := by
  have hconsistent := ((withGroups_valid gs).prepared rt cs).1
  rw [withGroups_eq] at hconsistent ⊢
  have hb := Preferences.Built.foldl cs _ (.new rt gs)
  exact ⟨hconsistent, sourceOrderOf_ranked gs, fun c p hc => (hb.preferred c p hc).1,
    fun group hg c hc => Preferences.foldl_visit_mem rt hg hc cs _ (hco group hg c hc)⟩

def Housed (a : ContainerAssignment) (sets : AssocMap EquivalenceSetId ContainerToObjects) : Prop :=
  ∀ i c, ∀ o ∈ AssocMap.getD (AssocMap.getD sets i ∅) c [],
    o ∈ AssocMap.getD a.containerToObjects c []

theorem Housed.pushObject (h : Housed a sets) (ho : o ∈ AssocMap.getD a.containerToObjects c [])
    (i : EquivalenceSetId) : Housed a (pushObject sets i c o) := by
  intro j d x hx
  rw [ObjectToContainerAssignmentUtils.pushObject] at hx
  by_cases hj : j = i
  · subst hj
    rw [getD_insert_self] at hx
    by_cases hd : d = c
    · subst hd
      rw [getD_insert_self] at hx
      rcases mem_append.mp hx with hx | hx
      · exact h j d x hx
      · rw [mem_singleton.mp hx]
        exact ho
    · rw [getD_insert_ne _ hd] at hx
      exact h j d x hx
  · rw [getD_insert_ne _ hj] at hx
    exact h j d x hx

theorem Housed.shuffle (h : Housed a sets)
    {f : EquivalenceSetId → ContainerId → List ObjectId → List ObjectId}
    (hf : ∀ i c l, (f i c l).Perm l) :
    Housed a (sets.mapValues fun i inner => inner.mapValues (f i)) := by
  intro i c o ho
  apply h i c
  rw [AssocMap.getD, AssocMap.getD, AssocMap.lookup_mapValues] at ho
  rw [AssocMap.getD, AssocMap.getD]
  cases hi : sets.lookup i with
  | none =>
    rw [hi] at ho
    exact ho
  | some inner =>
    rw [hi, map_some, getD_some, lookup_mapValues] at ho
    rw [getD_some]
    cases hc : inner.lookup c with
    | none =>
      rw [hc] at ho
      exact ho
    | some objects =>
      rw [hc, map_some, getD_some, (hf i c objects).mem_iff] at ho
      rw [getD_some]
      exact ho

theorem getEquivSetToContainerToObjects_housed
    (h : getEquivSetToContainerToObjects rt eq a s = .ok initial) : Housed a initial := by
  apply getEquivSetToContainerToObjects_rule (P := fun _ => Housed a) _ _ _ h
  · exact nofun
  · intro c o ho i _ sets hh _
    exact hh.pushObject ho i
  · intro _ sets f hf hh
    exact hh.shuffle hf

end ObjectToContainerAssignmentUtils

def inGroup (group : IdSet) (container : Option ContainerId) : Bool :=
  container.any fun c => c ∈ group

/-- Of these objects, as many stay in the group as start in it or as end in it. -/
def KeepsAll (objects : List ObjectId) (before after : ObjectId → Option ContainerId)
    (group : IdSet) : Prop :=
  (objects.filter fun o => inGroup group (before o) && inGroup group (after o)).length =
    min (objects.filter fun o => inGroup group (before o)).length
      (objects.filter fun o => inGroup group (after o)).length

theorem KeepsAll.of_perm (h : KeepsAll os b a group) (hp : os'.Perm os) :
    KeepsAll os' b a group := by
  rw [KeepsAll, (hp.filter _).length_eq, (hp.filter _).length_eq, (hp.filter _).length_eq]
  exact h

theorem KeepsAll.congr (h : KeepsAll os b a group)
    (ha : ∀ o ∈ os, a' o = a o) : KeepsAll os b a' group := by
  have he : os.filter (fun o => inGroup group (a' o)) = os.filter fun o => inGroup group (a o) :=
    filter_congr fun o ho => by rw [ha o ho]
  have hb : os.filter (fun o => inGroup group (b o) && inGroup group (a' o)) =
      os.filter fun o => inGroup group (b o) && inGroup group (a o) :=
    filter_congr fun o ho => by rw [ha o ho]
  rw [KeepsAll, he, hb]
  exact h

theorem length_filter_eq_card {l : List ObjectId} (h : l.Nodup) {_ : DecidablePred P}
    (hf : ∀ o ∈ l, f o = true ↔ P o) : (l.filter f).length = (l.toFinset.filter P).card := by
  have heq : l.toFinset.filter P = (l.filter f).toFinset := by
    ext o
    simp only [Finset.mem_filter, List.mem_toFinset, List.mem_filter]
    exact and_congr_right fun ho => (hf o ho).symm
  rw [heq, List.toFinset_card_of_nodup (h.filter _)]

theorem inGroup_iff : inGroup g c' = true ↔ ∃ c ∈ g, c' = some c := by
  cases c' with
  | none => exact iff_of_false Bool.false_ne_true fun h => nomatch h.choose_spec.2
  | some c =>
    rw [inGroup, any_some, decide_eq_true_iff]
    constructor
    · intro hc
      exact ⟨c, hc, rfl⟩
    · intro h
      obtain ⟨d, hd, he⟩ := h
      cases he
      exact hd

theorem KeepsAll.of_keepInv {s : Placement ContainerId ContainerId ObjectId} (hn : l.Nodup)
    (h : s.KeepInv l.toFinset home (familyOf gs)) (ha : ∀ o ∈ l, s.placed o ≠ none)
    (hbe : ∀ o ∈ l, b o = some (home o)) (hg : group ∈ gs) : KeepsAll l b s.placed group := by
  have hk := h.kept (fun o ho => ha o (mem_toFinset.mp ho)) ⟨group, hg, rfl⟩
  have hs : ∀ o ∈ l, inGroup group (b o) = true ↔ home o ∈ { c | c ∈ group } := by
    intro o ho
    rw [hbe o ho]
    exact decide_eq_true_iff
  have hend : ∀ o ∈ l, inGroup group (s.placed o) = true ↔
      ∃ c ∈ { c | c ∈ group }, s.placed o = some c := fun o _ => inGroup_iff
  have hb : ∀ o ∈ l, (inGroup group (b o) && inGroup group (s.placed o)) = true ↔
      home o ∈ { c | c ∈ group } ∧ ∃ c ∈ { c | c ∈ group }, s.placed o = some c := by
    intro o ho
    rw [Bool.and_eq_true, hs o ho, hend o ho]
  rw [← length_filter_eq_card hn hs, ← length_filter_eq_card hn hend,
    ← length_filter_eq_card hn hb] at hk
  exact hk

def GroupsKept (r : AssignmentRequest) (groups : List IdSet)
    (initial : AssocMap EquivalenceSetId ContainerToObjects)
    (handled : List (Sigma fun _ : EquivalenceSetId => AssocMap ContainerId Nat))
    (m : AssocMap ObjectId ContainerId) : Prop :=
  ∀ e ∈ handled, ∀ group ∈ groups, KeepsAll (setObjects initial e.1)
    r.initialAssignment.getContainer (fun o => m.lookup o) group

theorem GroupsKept.step (hke : ∀ i (s : SetState), ∃ t : SetState,
      assignObjectToContainerForOneSet r.rt i p o' s = .ok t.objectToContainer ∧
        Placement.KeepSteps (familyOf gs) s.view t.view)
    (hho : Housed r.initialAssignment i') (hn : ∀ i, (setObjects i' i).Nodup)
    (h : GroupsKept r gs i' h' m) (hs : SetStep r p o' i' h' m e m') :
    GroupsKept r gs i' (h' ++ [e]) m' := by
  intro e' he' g hg
  rcases mem_append.mp he' with he' | he'
  · exact (h e' he' g hg).congr fun o ho => hs.frame o (hs.apart e' he' o ho)
  · rw [mem_singleton.mp he']
    have hr := hs.run
    rw [AssignmentRequest.assignSet] at hr
    cases hl : i'.lookup e.1 with
    | none =>
      rw [hl] at hr
      cases hr
    | some objects =>
      simp only [hl] at hr
      obtain ⟨t, ht, hk⟩ := hke e.1 ⟨m, e.2, objects⟩
      rw [hr] at ht
      cases ht
      have hp : getD i' e.1 ∅ = objects := by
        rw [AssocMap.getD, hl, getD_some]
      have hh : ∀ c, ∀ o ∈ getD objects c [], r.initialAssignment.getContainer o = some c := by
        intro c o ho
        apply ContainerAssignment.getContainer_of_mem
        apply hho e.1 c
        rw [hp]
        exact ho
      have hkept : t.view.KeepInv (setObjects i' e.1).toFinset
          (fun o => (r.initialAssignment.getContainer o).getD 0) (familyOf gs) := by
        refine Placement.KeepInv.steps (.start ?_ ?_) hk
        · intro c o ho
          rw [hh c o ho, getD_some]
        · intro o ho
          by_contra hne
          obtain ⟨e', he', ho'⟩ := (hs.before.assigned o).mp hne
          exact hs.apart e' he' o ho' (mem_toFinset.mp ho)
      refine KeepsAll.of_keepInv (hn e.1) hkept ?_ ?_ hg
      · intro o ho
        exact (hs.after.assigned o).mpr ⟨e, mem_append_right _ mem_cons_self, ho⟩
      · intro o ho
        rw [setObjects, hp, mem_flatten_values] at ho
        obtain ⟨c, ho⟩ := ho
        rw [hh c o ho, getD_some]

theorem AssignmentRequest.getObjectToContainer_keeps (h : us.Valid) (hc : r.checked = .ok initial)
    (hke : ∀ i (s : SetState), ∃ t : SetState, assignObjectToContainerForOneSet r.rt i
          (us.getContainerToPreferredContainers r.rt r.initialAssignment.getContainers).1
          (us.getContainerToPreferredContainers r.rt
            r.initialAssignment.getContainers).2.getSourceContainerOrder.1 s =
        .ok t.objectToContainer ∧ Placement.KeepSteps (familyOf gs) s.view t.view) :
    ∃ m, (r.getObjectToContainer us).1 = .ok m ∧ ∀ i, ∀ group ∈ gs,
      KeepsAll (r.initialAssignment.getObjects.filter fun o => r.equivalenceSets.setAt o = .ok i)
        r.initialAssignment.getContainer (fun o => m.lookup o) group := by
  obtain ⟨hd, -, -⟩ := checked_ok hc
  have hnodup := hd.nodup r.initialAssignment.nodup
  have hh : Housed r.initialAssignment initial := by
    have hinitial := hc
    obtain ⟨sets, hs, hinitial⟩ := except_bind_ok hinitial
    obtain ⟨u, -, hinitial⟩ := except_bind_ok hinitial
    cases hinitial
    exact getEquivSetToContainerToObjects_housed hs
  obtain ⟨m, hm, -, hk⟩ := r.getObjectToContainer_rule h hc (I := GroupsKept r gs initial) nofun
    fun handled m e m' hI hstep => hI.step hke hh hnodup hstep
  refine ⟨m, hm, ?_⟩
  intro i group hg
  refine KeepsAll.of_perm ?_ (hd.perm i).symm
  cases hi : setObjects initial i with
  | nil => rfl
  | cons o rest =>
    have ho : o ∈ setObjects initial i := by
      rw [hi]
      exact mem_cons_self
    obtain ⟨c, he⟩ := exists_entry hc ho
    rw [← hi]
    exact hk ⟨i, c⟩ he group hg

def AssignmentRequest.KeepsGroups (r : AssignmentRequest) (groups : List IdSet) : Prop :=
  ∃ m, (r.getObjectToContainer (withGroups groups)).1 = .ok m ∧ ∀ i, ∀ group ∈ groups,
      KeepsAll (r.initialAssignment.getObjects.filter fun o => r.equivalenceSets.setAt o = .ok i)
        r.initialAssignment.getContainer (fun o => m.lookup o) group

theorem AssignmentRequest.keepsGroups_of_uncrowded (hl : Laminar groups) (hu : Uncrowded groups)
    (hc : r.checked = .ok i')
    (hli : ∀ group ∈ groups, ∀ c ∈ group, c ∈ r.initialAssignment.getContainers) :
    r.KeepsGroups groups :=
  r.getObjectToContainer_keeps (withGroups_valid groups) hc fun i s =>
    assignObjectToContainerForOneSet_keepSteps i ⟨withGroups_prepared r.rt hli, hl, hu⟩ s

theorem AssignmentRequest.getObjectToContainer_keepsContainer (h : us.Valid)
    (hc : r.checked = .ok i')
    (hm : (r.getObjectToContainer us).1 = .ok m) (i : EquivalenceSetId) (c : ContainerId) :
    KeepsAll (r.initialAssignment.getObjects.filter fun o => r.equivalenceSets.setAt o = .ok i)
      r.initialAssignment.getContainer (fun o => m.lookup o) (IdSet.empty.insert c) := by
  have hf : ∀ G ∈ familyOf [IdSet.empty.insert c], ∃ d, G = {d} := by
    intro G hG
    obtain ⟨g, hg, rfl⟩ := hG
    rw [mem_singleton.mp hg]
    refine ⟨c, ?_⟩
    ext d
    exact IdSet.mem_insert.trans (or_iff_left not_mem_nil)
  have hp := (h.prepared r.rt r.initialAssignment.getContainers).1
  obtain ⟨m', hm', hk⟩ := r.getObjectToContainer_keeps h hc (by
    intro i s
    obtain ⟨hkeep, hr⟩ := s.kept_resolved (familyOf [IdSet.empty.insert c]) r.rt i
    obtain ⟨t, hs, hrun⟩ := assignObjectToContainerForOneSet_run r.rt i hp s
    have hrest := hs.trans (SetState.foldl_steps (SetState.assignRest_steps r.rt i)
      (r.rt.order (.restCounts i) t.containerToObjectCount.keys) t)
    exact ⟨_, hrun, hkeep.trans (hr.keepSteps hf hrest)⟩)
  rw [hm] at hm'
  cases hm'
  exact hk i _ mem_cons_self

end Rebalancer
