import Rebalancer.BoundsSound

namespace Rebalancer
open List

structure LookupState where
  values : Finset (ObjectId × ℚ)
  objectPotentials : Finset (ObjectId × ℚ)
  value : ℚ

namespace ObjectLookup
variable {u : Universe partitions} (l : ObjectLookup u) (a : Assignment) (cs : ChangeSet)

abbrev getObjectValue : ObjectId → ℚ := l.objectVector.getObjectValue

def items : List (ObjectId × ℚ) :=
  if l.objectVector.defaultValue = 0 ∧ (l.objectVector.nonDefaultCount ≤ l.containers.size ∨
      l.objectVector.nonDefaultCount ≤ l.getCurrObjectsInContainersSize a) then
    l.getObjectValuesFromObjectVector a
  else l.getObjectValuesFromAssignment a

def innerFullApply : LookupState :=
  ⟨(l.items a).toFinset, (l.items a).toFinset, l.applyAssignment a⟩

def relevantObjectsSize : Nat :=
  if l.objectVector.defaultValue = 0 then l.objectVector.nonDefaultCount else u.numObjects

def changeSizeForObjects : Nat :=
  (l.objectVector.nonDefaultEntries.map fun e => (cs.getChangesByObject e.1).length).sum

def changeSizeForContainers : Nat :=
  (l.containers.elems.map fun c => (cs.getChangesByContainer c).length).sum

def useLookupObjectsToComputeChanges : Prop :=
  l.objectVector.defaultValue = 0 ∧ l.relevantObjectsSize < cs.size ∧
    if l.containers.size ≤ l.relevantObjectsSize then
      l.relevantObjectsSize < l.changeSizeForContainers cs ∧
        l.changeSizeForObjects cs ≤ l.changeSizeForContainers cs
    else l.changeSizeForObjects cs ≤ l.containers.size ∨
      l.changeSizeForObjects cs ≤ l.changeSizeForContainers cs

instance : Decidable (l.useLookupObjectsToComputeChanges cs) := by
  unfold useLookupObjectsToComputeChanges
  infer_instance

/-- The changes in the order in which `getNetChangePerObject` adds them up. -/
def changesToAdd : List Change :=
  if cs.size ≤ l.relevantObjectsSize ∧ cs.size ≤ l.containers.size then
    cs.changes.filter fun ch => ch.container ∈ l.containers
  else if l.useLookupObjectsToComputeChanges cs then
    l.objectVector.nonDefaultEntries.flatMap fun e =>
      (cs.getChangesByObject e.1).filter fun ch => ch.container ∈ l.containers
  else l.containers.elems.flatMap cs.getChangesByContainer

def getNetChangePerObject (o : ObjectId) : Int :=
  ((l.changesToAdd cs).map fun ch => if ch.object = o then ch.value else 0).sum

section
variable (st : LookupState)

def updateObject (object : ObjectId) : Except String LookupState :=
  let changeVal := l.getNetChangePerObject cs object
  let objectValue := l.getObjectValue object
  if changeVal = 0 ∨ objectValue = 0 then .ok st
  else if changeVal = 1 then
    .ok { st with
      values := insert (object, objectValue) (st.values.filter fun e => e.1 ≠ object)
      objectPotentials := insert (object, objectValue) st.objectPotentials }
  else if changeVal = -1 then
    .ok { st with
      values := st.values.filter fun e => e.1 ≠ object
      objectPotentials := st.objectPotentials.erase (object, objectValue) }
  else .error s!"Invalid change value: {changeVal}"

def innerPartialApply : Except String LookupState := do
  let st ← ((l.changesToAdd cs).map Change.object).dedup.foldlM (l.updateObject cs) st
  .ok { st with value := ∑ e ∈ st.values, e.2 }

def evaluate : ℚ :=
  let changes :=
    if cs.size ≤ l.containers.size then cs.changes.filter fun ch => ch.container ∈ l.containers
    else l.containers.elems.flatMap cs.getChangesByContainer
  let delta := (changes.map fun ch => ch.value * l.getObjectValue ch.object).sum
  if u.precision.compare st.value (-delta) = .eq then 0 else st.value + delta

end

structure Step (_ : ObjectLookup u) (a : Assignment) (cs : ChangeSet) (a' : Assignment) : Prop where
  leads : GroupRoutingRing.Leads cs a a'
  known : ∀ ch ∈ cs.changes, ch.object < u.numObjects

inductive Reaches : Assignment → LookupState → Prop
  | full (b : Assignment) : Reaches b (l.innerFullApply b)
  | step (h : Reaches b st) (hs : l.Step b changes b')
    (hp : l.innerPartialApply changes st = .ok st') : Reaches b' st'

def total : ℚ := ((l.lookedUp a).map l.getObjectValue).sum

/-- Up to objects whose value is zero, the objects in the lookup containers with their values. -/
def Lists (s : Finset (ObjectId × ℚ)) : Prop :=
  ∀ o v, v ≠ 0 → ((o, v) ∈ s ↔ o ∈ l.lookedUp a ∧ l.getObjectValue o = v)

variable {l a cs}

theorem mem_lookedUp : o ∈ l.lookedUp a ↔ o < u.numObjects ∧ a o ∈ l.containers := by
  simp [lookedUp]

theorem lists_items : l.Lists a (l.items a).toFinset := by
  intro o v hv
  rw [mem_toFinset, items]
  split_ifs with h
  · rw [getObjectValuesFromObjectVector, mem_filter, mem_lookedUp]
    constructor
    · rintro ⟨hm, hc⟩
      exact ⟨⟨l.objectVector.lt_of_mem u (mem_map_of_mem hm), of_decide_eq_true hc⟩,
        l.objectVector.getObjectValue_of_mem hm⟩
    · rintro ⟨ho, rfl⟩
      have hk : o ∈ l.objectVector.nonDefaultEntries.map Prod.fst := by
        by_contra hn
        exact hv ((l.objectVector.getObjectValue_of_not_mem hn).trans h.1)
      obtain ⟨e, he, rfl⟩ := mem_map.mp hk
      rw [getObjectValue, l.objectVector.getObjectValue_of_mem he]
      exact ⟨he, decide_eq_true ho.2⟩
  · rw [getObjectValuesFromAssignment, mem_filterMap]
    simp only [(l.flatMap_getObjects_perm a).mem_iff]
    constructor
    · rintro ⟨o', ho, h⟩
      split at h
      · cases h
      · cases h
        exact ⟨ho, rfl⟩
    · rintro ⟨ho, rfl⟩
      exact ⟨o, ho, if_neg hv⟩

theorem Lists.sum_eq (h : l.Lists a s) : ∑ e ∈ s, e.2 = l.total a := by
  have hs : s.filter (fun e => e.2 ≠ 0) = ((l.lookedUp a).toFinset.filter fun o =>
      l.getObjectValue o ≠ 0).image fun o => (o, l.getObjectValue o) := by
    ext ⟨o, v⟩
    simp only [Finset.mem_filter, Finset.mem_image, mem_toFinset, Prod.mk.injEq]
    constructor
    · rintro ⟨hm, hv⟩
      obtain ⟨ho, rfl⟩ := (h o v hv).mp hm
      exact ⟨o, ⟨ho, hv⟩, rfl, rfl⟩
    · rintro ⟨o, ⟨ho, hv⟩, rfl, rfl⟩
      exact ⟨(h o _ hv).mpr ⟨ho, rfl⟩, hv⟩
  rw [← Finset.sum_filter_ne_zero, hs, Finset.sum_image (by simp), Finset.sum_filter_ne_zero,
    sum_toFinset _ (l.nodup_lookedUp a), total]

theorem sum_changesToAdd [AddCommMonoid R] (g : Change → R)
    (hg : ∀ ch, l.getObjectValue ch.object = 0 → g ch = 0) : ((l.changesToAdd cs).map g).sum =
      ((cs.changes.filter fun ch => ch.container ∈ l.containers).map g).sum := by
  rw [changesToAdd]
  split
  · rfl
  · split_ifs with h
    · have hp := flatMap_filter_perm Change.object
        (cs.changes.filter fun ch => ch.container ∈ l.containers)
        l.objectVector.nodup_nonDefaultEntries
      rw [flatMap_map] at hp
      simp only [ChangeSet.getChangesByObject,
        filter_comm (fun ch : Change => decide (ch.container ∈ l.containers))]
      rw [(hp.map g).sum_eq, sum_map_filter]
      congr 1
      apply map_congr_left
      intro ch _
      split_ifs with hn
      · rfl
      · apply (hg ch _).symm
        exact (l.objectVector.getObjectValue_of_not_mem (mt decide_eq_true hn)).trans h.1
    · exact ((flatMap_filter_perm Change.container _ l.containers.nodup).map g).sum_eq

theorem Step.net_eq (h : l.Step a cs a') (hv : l.getObjectValue o ≠ 0) :
    l.getNetChangePerObject cs o =
      (if a' o ∈ l.containers then 1 else 0) - (if a o ∈ l.containers then 1 else 0) := by
  have hs := h.leads.sum_changes {o} fun _ c => if c ∈ l.containers then (1 : ℤ) else 0
  rw [Finset.sum_singleton] at hs
  rw [getNetChangePerObject, sum_changesToAdd, sum_map_filter, ← hs]
  · congr 1
    apply map_congr_left
    intro ch _
    by_cases hc : ch.container ∈ l.containers <;> simp [hc]
  · intro ch hz
    rw [if_neg]
    rintro rfl
    exact hv hz

theorem total_eq : l.total a = ∑ o ∈ Finset.range u.numObjects,
    if a o ∈ l.containers then l.getObjectValue o else 0 := by
  rw [total, lookedUp, sum_map_filter]
  simp only [decide_eq_true_eq]
  rfl

theorem Step.delta_eq (h : l.Step a cs a') :
    ((cs.changes.filter fun ch => ch.container ∈ l.containers).map fun ch =>
      (ch.value : ℚ) * l.getObjectValue ch.object).sum = l.total a' - l.total a := by
  rw [total_eq, total_eq, ← Finset.sum_sub_distrib, ← h.leads.sum_changes _ fun o c =>
    if c ∈ l.containers then l.getObjectValue o else 0, sum_map_filter]
  congr 1
  apply map_congr_left
  intro ch hch
  have hk := h.known ch hch
  by_cases hc : ch.container ∈ l.containers <;> simp [hc, hk]

theorem Lists.moveTo (h : l.Lists b s) (ho : o < u.numObjects)
    (hn : ∀ e, e.1 ≠ o → (e ∈ s' ↔ e ∈ s))
    (hs : ∀ v, v ≠ 0 → ((o, v) ∈ s' ↔ c ∈ l.containers ∧ l.getObjectValue o = v)) :
    l.Lists (b.moveTo o c) s' := by
  intro o' v hv
  rw [mem_lookedUp, Assignment.moveTo]
  by_cases he : o' = o
  · rw [he, hs v hv, if_pos rfl]
    simp [ho]
  · rw [hn (o', v) he, h o' v hv, mem_lookedUp, if_neg he]

structure Kept (l : ObjectLookup u) (a : Assignment) (st : LookupState) : Prop where
  values : l.Lists a st.values
  potentials : l.Lists a st.objectPotentials

theorem Step.updateObject (h : l.Step a cs a') (ho : o < u.numObjects) (hb : b o = a o)
    (hk : l.Kept b st) :
    ∃ st', l.updateObject cs st o = .ok st' ∧ l.Kept (b.moveTo o (a' o)) st' := by
  have hself : ∀ s, l.Lists b s → ∀ v, v ≠ 0 →
      ((o, v) ∈ s ↔ a o ∈ l.containers ∧ l.getObjectValue o = v) := by
    intro s hs v hv
    rw [hs o v hv, mem_lookedUp, hb, and_iff_right ho]
  have hstay : (l.getObjectValue o ≠ 0 → (a o ∈ l.containers ↔ a' o ∈ l.containers)) →
      l.Kept (b.moveTo o (a' o)) st := by
    intro hc
    have hl : ∀ s, l.Lists b s → l.Lists (b.moveTo o (a' o)) s := by
      intro s hs
      apply hs.moveTo ho (fun _ _ => Iff.rfl)
      intro v hv
      rw [hself s hs v hv]
      apply and_congr_left
      rintro rfl
      exact hc hv
    exact ⟨hl _ hk.values, hl _ hk.potentials⟩
  by_cases hv : l.getObjectValue o = 0
  · exact ⟨st, if_pos (.inr hv), hstay (absurd hv)⟩
  rw [ObjectLookup.updateObject, h.net_eq hv]
  by_cases hin : a' o ∈ l.containers <;> by_cases hout : a o ∈ l.containers
  · exact ⟨st, by simp [hin, hout], hstay fun _ => iff_of_true hout hin⟩
  · refine ⟨_, by simp [hin, hout, hv]; rfl, hk.values.moveTo ho ?_ ?_,
      hk.potentials.moveTo ho ?_ ?_⟩
    · intro e he
      simp [he, Prod.ext_iff]
    · intro v hv'
      simp [hin, eq_comm]
    · intro e he
      simp [he, Prod.ext_iff]
    · intro v hv'
      simp [hin, hout, hself _ hk.potentials v hv', eq_comm]
  · refine ⟨_, by simp [hin, hout, hv]; rfl, hk.values.moveTo ho ?_ ?_,
      hk.potentials.moveTo ho ?_ ?_⟩
    · intro e he
      simp [he]
    · intro v hv'
      simp [hin]
    · intro e he
      simp [he, Prod.ext_iff]
    · intro v hv'
      simp [hin, hout, hself _ hk.potentials v hv', eq_comm]
  · exact ⟨st, by simp [hin, hout], hstay fun _ => iff_of_false hout hin⟩

theorem Step.foldlM (h : l.Step a cs a') {os : List ObjectId} (hn : os.Nodup)
    (ho : ∀ o ∈ os, o < u.numObjects) : ∀ b st, (∀ o ∈ os, b o = a o) → l.Kept b st →
      ∃ st', os.foldlM (l.updateObject cs) st = .ok st' ∧
        l.Kept (fun o => if o ∈ os then a' o else b o) st' := by
  induction os with
  | nil =>
    intro b st _ hk
    exact ⟨st, rfl, by simpa using hk⟩
  | cons o os ih =>
    intro b st hb hk
    obtain ⟨hno, hn⟩ := nodup_cons.mp hn
    obtain ⟨st₁, hu, hk₁⟩ := h.updateObject (ho o mem_cons_self) (hb o mem_cons_self) hk
    obtain ⟨st₂, hf, hk₂⟩ := ih hn (fun o' ho' => ho o' (mem_cons_of_mem _ ho'))
      (b.moveTo o (a' o)) st₁ (by
        intro o' ho'
        rw [Assignment.moveTo, if_neg (ne_of_mem_of_not_mem ho' hno)]
        exact hb o' (mem_cons_of_mem _ ho')) hk₁
    refine ⟨st₂, by rw [foldlM_cons, hu]; exact hf, ?_⟩
    convert hk₂ using 2 with o'
    by_cases he : o' = o
    · simp [he, Assignment.moveTo]
    · simp [he, Assignment.moveTo]

theorem mem_of_mem_changesToAdd (h : ch ∈ l.changesToAdd cs) : ch ∈ cs.changes := by
  rw [changesToAdd] at h
  split at h
  · exact mem_of_mem_filter h
  · split at h
    · obtain ⟨e, -, he⟩ := mem_flatMap.mp h
      exact mem_of_mem_filter (mem_of_mem_filter he)
    · obtain ⟨c, -, hc⟩ := mem_flatMap.mp h
      exact mem_of_mem_filter hc

theorem Step.innerPartialApply (h : l.Step a cs a') (hk : l.Kept a st) :
    ∃ st', l.innerPartialApply cs st = .ok st' ∧ l.Kept a' st' ∧ st'.value = l.total a' := by
  obtain ⟨st₁, hf, hk₁⟩ := h.foldlM (nodup_dedup ((l.changesToAdd cs).map Change.object)) (by
    intro o ho
    obtain ⟨ch, hch, rfl⟩ := mem_map.mp (mem_dedup.mp ho)
    exact h.known ch (mem_of_mem_changesToAdd hch)) a st (fun _ _ => rfl) hk
  have hl : ∀ s, l.Lists (fun o => if o ∈ ((l.changesToAdd cs).map Change.object).dedup then a' o
      else a o) s → l.Lists a' s := by
    intro s hs o v hv
    rw [hs o v hv, mem_lookedUp, mem_lookedUp]
    apply and_congr_left
    rintro rfl
    split_ifs with ho
    · rfl
    · have hz : l.getNetChangePerObject cs o = 0 := by
        apply GroupRoutingRing.sum_map_eq_zero
        intro ch hch
        rw [if_neg]
        rintro rfl
        exact ho (mem_dedup.mpr (mem_map_of_mem hch))
      rw [h.net_eq hv] at hz
      split at hz <;> split at hz <;> simp_all
  have hv := hl _ hk₁.values
  refine ⟨{ st₁ with value := ∑ e ∈ st₁.values, e.2 }, ?_, ⟨hv, hl _ hk₁.potentials⟩, hv.sum_eq⟩
  rw [ObjectLookup.innerPartialApply, hf]
  rfl

theorem Reaches.kept (h : l.Reaches a st) : l.Kept a st ∧ st.value = l.total a := by
  induction h with
  | full b => exact ⟨⟨lists_items, lists_items⟩, l.applyAssignment_eq b⟩
  | step _ hs hp ih =>
    obtain ⟨st', hp', hk, hv⟩ := hs.innerPartialApply ih.1
    cases hp.symm.trans hp'
    exact ⟨hk, hv⟩

/-- Either way to apply gives the new total; `evaluate` makes a total close to zero zero. -/
theorem Reaches.applied (h : l.Reaches a st) (hs : l.Step a cs a') :
    (∃ st', l.innerPartialApply cs st = .ok st' ∧ st'.value = l.total a' ∧
      l.Lists a' st'.objectPotentials) ∧
    (l.innerFullApply a').value = l.total a' ∧ l.Lists a' (l.innerFullApply a').objectPotentials ∧
    l.evaluate cs st = if u.precision.compare (l.total a) (l.total a - l.total a') = .eq then 0
      else l.total a' := by
  obtain ⟨hk, hv⟩ := h.kept
  obtain ⟨st', hp, hk', hv'⟩ := hs.innerPartialApply hk
  refine ⟨⟨st', hp, hv', hk'.potentials⟩, l.applyAssignment_eq a', lists_items, ?_⟩
  have hd : ((if cs.size ≤ l.containers.size then
      cs.changes.filter fun ch => ch.container ∈ l.containers
      else l.containers.elems.flatMap cs.getChangesByContainer).map fun ch =>
        (ch.value : ℚ) * l.getObjectValue ch.object).sum = l.total a' - l.total a := by
    rw [← hs.delta_eq]
    split
    · rfl
    · exact ((flatMap_filter_perm Change.container _ l.containers.nodup).map _).sum_eq
  rw [evaluate, hd, hv, neg_sub, add_sub_cancel]

def tiny : ObjectLookup oneObject :=
  ⟨0, .objectBacked ⟨⟨[(0, 1 / 10 ^ 11)], by decide⟩, 0, by decide⟩, ⟨[0], nodup_zero⟩⟩

def threeObjects : Universe [] where
  precision := defaultTolerances
  numObjects := 3
  dimension _ := .static []
  scope _ := ⟨[], fun _ => none⟩
  inRange := by decide

def weighted : ObjectLookup threeObjects :=
  ⟨0, .objectBacked ⟨⟨[(0, 3), (1, 4), (2, 5)], by decide⟩, 0, by decide⟩, ⟨[0, 1], nodup_zero_one⟩⟩

theorem weighted_moved : weighted.evaluate (.ofList [.removal 0 0, .addition 0 3])
    (weighted.innerFullApply fun _ => 0) = 9 := by
  have h := ((Reaches.full (l := weighted) fun _ => 0).applied
    ⟨GroupRoutingRing.Leads.move _ 0 3, by decide⟩).2.2.2
  rw [h]
  decide +kernel

theorem tiny_unchanged : tiny.evaluate .new (tiny.innerFullApply fun _ => 0) = 0 ∧
    (tiny.innerFullApply fun _ => 0).value = 1 / 10 ^ 11 := by
  decide +kernel

end ObjectLookup

end Rebalancer
