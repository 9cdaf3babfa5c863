import Rebalancer.LookupValue

namespace Rebalancer
open List

namespace IdMap

def insert (m : IdMap) (k : Nat) (v : ℚ) : IdMap where
  entries := (k, v) :: m.entries.filter fun e => e.1 != k
  nodup := by
    apply nodup_cons.mpr
    refine ⟨?_, m.nodup.sublist (filter_sublist.map _)⟩
    intro hmem
    obtain ⟨e, he, hk⟩ := mem_map.mp hmem
    exact absurd hk (bne_iff_ne.mp (mem_filter.mp he).2)

theorem get?_eq_some {m : IdMap} : m.get? k = some v ↔ (k, v) ∈ m.entries :=
  ⟨mem_of_lookup, lookup_of_mem m.nodup⟩

theorem get?_insert (m : IdMap) (k k' : Nat) (v : ℚ) :
    (m.insert k v).get? k' = if k' = k then some v else m.get? k' := by
  apply Option.ext
  intro w
  by_cases hk : k' = k
  · rw [if_pos hk, get?_eq_some]
    subst hk
    simp [insert, eq_comm]
  · rw [if_neg hk, get?_eq_some, get?_eq_some]
    simp [insert, hk]

end IdMap

variable {l : ObjectPartitionLookup u}

namespace ObjectPartitionLookup
variable {u : Universe partitions}

section
variable (l : ObjectPartitionLookup u) (a : Assignment)

/-- The order in which `get_do_not_make_worse_copy` sorts the groups. -/
def Heavier (g g' : GroupId) : Prop :=
  l.groupWeight a g' < l.groupWeight a g ∨ (l.groupWeight a g = l.groupWeight a g' ∧ g ≤ g')

instance : DecidableRel (l.Heavier a) :=
  fun g g' => inferInstanceAs (Decidable
    (l.groupWeight a g' < l.groupWeight a g ∨ (l.groupWeight a g = l.groupWeight a g' ∧ g ≤ g')))

end

section
variable (l : ObjectPartitionLookup u)

variable (a : Assignment)

def heaviestFirst : List GroupId := (l.initialGroups ++ (l.contributingObjectIds a).flatMap
    l.objectPartition.getObjectGroups).dedup.insertionSort (l.Heavier a)

def isWorse (g : GroupId) : Bool :=
  match l.bound with
  | .max => decide (0 < l.groupWeight a g - l.limitOf g)
  | .min => decide (l.groupWeight a g - l.limitOf g < 0)

def newGroupLimitOverrides : IdMap := ((l.heaviestFirst a).drop l.groupsAllowed).foldl
    (fun m g => if l.isWorse a g then m.insert g (l.groupWeight a g) else m) l.groupLimitOverrides

def skipped : Finset GroupId := ((l.heaviestFirst a).take l.groupsAllowed).toFinset

end

theorem mem_heaviestFirst : g ∈ l.heaviestFirst a ↔ g ∈ l.entered a := by
  rw [heaviestFirst, mem_insertionSort, mem_dedup, entered, mem_toFinset]

theorem heaviestFirst_nodup (l : ObjectPartitionLookup u) (a : Assignment) :
    (l.heaviestFirst a).Nodup :=
  (perm_insertionSort _ _).nodup_iff.mpr (nodup_dedup _)

theorem mem_drop_heaviestFirst :
    g ∈ (l.heaviestFirst a).drop l.groupsAllowed ↔ g ∈ l.entered a \ l.skipped a := by
  have hnodup := l.heaviestFirst_nodup a
  rw [← take_append_drop l.groupsAllowed (l.heaviestFirst a)] at hnodup
  have hd := (nodup_append'.mp hnodup).2.2
  rw [Finset.mem_sdiff, skipped, mem_toFinset, ← mem_heaviestFirst]
  refine ⟨fun hg => ⟨mem_of_mem_drop hg, fun ht => hd ht hg⟩, ?_⟩
  rintro ⟨hg, hn⟩
  rw [← take_append_drop l.groupsAllowed (l.heaviestFirst a)] at hg
  exact (mem_append.mp hg).resolve_left hn

section
variable (l : ObjectPartitionLookup u) (a : Assignment)

theorem skipped_subset : l.skipped a ⊆ l.entered a := by
  intro g hg
  exact mem_heaviestFirst.mp (mem_of_mem_take (mem_toFinset.mp hg))

theorem skipped_card : l.groupsAllowed ≤ (l.skipped a).card ∨ l.skipped a = l.entered a := by
  by_cases hl : l.groupsAllowed ≤ (l.heaviestFirst a).length
  · left
    rw [skipped, toFinset_card_of_nodup
      ((l.heaviestFirst_nodup a).sublist (take_sublist _ _)), length_take]
    exact le_min le_rfl hl
  · right
    ext g
    rw [skipped, take_of_length_le (not_le.mp hl).le, mem_toFinset, mem_heaviestFirst]

theorem foldl_insert_get? (p : Nat → Bool) (w : Nat → ℚ) (k : Nat) (gs : List Nat) :
    ∀ m : IdMap, (gs.foldl (fun m g => if p g then m.insert g (w g) else m) m).get? k =
      if k ∈ gs ∧ p k = true then some (w k) else m.get? k := by
  induction gs with
  | nil =>
    intro m
    simp
  | cons g gs ih =>
    intro m
    rw [foldl_cons, ih]
    by_cases hk : k ∈ gs ∧ p k = true
    · rw [if_pos hk, if_pos ⟨mem_cons_of_mem _ hk.1, hk.2⟩]
    · rw [if_neg hk]
      by_cases hg : p g = true
      · rw [if_pos hg, IdMap.get?_insert]
        by_cases hkg : k = g
        · subst hkg
          rw [if_pos rfl, if_pos ⟨mem_cons_self, hg⟩]
        · rw [if_neg hkg, if_neg]
          rintro ⟨hmem, hp⟩
          exact hk ⟨(mem_cons.mp hmem).resolve_left hkg, hp⟩
      · rw [if_neg hg, if_neg]
        rintro ⟨hmem, hp⟩
        rcases mem_cons.mp hmem with rfl | hmem
        · exact hg hp
        · exact hk ⟨hmem, hp⟩

def Overridden (g : GroupId) : Prop := g ∈ l.entered a \ l.skipped a ∧ l.isWorse a g = true

end

section
variable (l : ObjectPartitionLookup u)

instance (a : Assignment) : DecidablePred (l.Overridden a) :=
  fun g => inferInstanceAs (Decidable (g ∈ l.entered a \ l.skipped a ∧ l.isWorse a g = true))

theorem get?_newGroupLimitOverrides (a : Assignment) (g : GroupId) :
    (l.newGroupLimitOverrides a).get? g =
      if l.Overridden a g then some (l.groupWeight a g) else l.groupLimitOverrides.get? g := by
  rw [newGroupLimitOverrides, foldl_insert_get?]
  simp [mem_drop_heaviestFirst, Overridden]

def getDoNotMakeWorseCopy (initialAssignment : Assignment) : ObjectPartitionLookup u := { l with
    groupLimitOverrides := l.newGroupLimitOverrides initialAssignment
    overridesRelevant := by
      rintro ⟨g, v⟩ he hinit
      have hget := IdMap.get?_eq_some.mpr he
      rw [get?_newGroupLimitOverrides] at hget
      split_ifs at hget with hover
      · exact known_relevant (entered_subset_known l _ (Finset.mem_sdiff.mp hover.1).1)
      · exact l.overridesRelevant _ (IdMap.get?_eq_some.mp hget) hinit }

end

variable {l : ObjectPartitionLookup u} {initial a : Assignment} {g : GroupId}

theorem limitOf_copy : (l.getDoNotMakeWorseCopy initial).limitOf g =
    if l.Overridden initial g then l.groupWeight initial g else l.limitOf g := by
  simp only [limitOf, getDoNotMakeWorseCopy, get?_newGroupLimitOverrides]
  by_cases hover : l.Overridden initial g
  · rw [if_pos hover, if_pos hover]
  · rw [if_neg hover, if_neg hover]

theorem penaltyAt_copy (hg : l.objectPartition.partitionInfo.isRelevant g = true) :
    (l.getDoNotMakeWorseCopy initial).penaltyAt a g =
      if l.Overridden initial g then l.computePenalty
        ((l.groupWeight a g - l.groupWeight initial g) * l.objectPartition.coefficientOf g)
      else l.penaltyAt a g := by
  have hc := penaltyOf_of_relevant (l := l.getDoNotMakeWorseCopy initial) hg (l.groupWeight a g)
  rw [limitOf_copy] at hc
  apply hc.trans
  split
  · rfl
  · exact (penaltyOf_of_relevant hg _).symm

theorem mem_initialGroups : g ∈ l.initialGroups ↔
    (∃ v, l.objectPartition.groupLimits.get? g = some v ∧ l.bound.initializes v = true) ∨
      ∃ v, l.groupLimitOverrides.get? g = some v ∧ l.bound.initializes v = true := by
  simp only [IdMap.get?_eq_some, initialGroups, mem_filterMap, mem_append]
  constructor
  · rintro ⟨⟨g', v⟩, hmem, heq⟩
    obtain ⟨hinit, hg⟩ := Option.ite_none_right_eq_some.mp heq
    cases hg
    exact hmem.imp (fun h => ⟨v, h, hinit⟩) (fun h => ⟨v, h, hinit⟩)
  · rintro (⟨v, hmem, hinit⟩ | ⟨v, hmem, hinit⟩)
    · exact ⟨(g, v), .inl hmem, if_pos hinit⟩
    · exact ⟨(g, v), .inr hmem, if_pos hinit⟩

theorem of_not_entered_copy (hg : g ∈ l.entered a)
    (hn : g ∉ (l.getDoNotMakeWorseCopy initial).entered a) :
    l.Overridden initial g ∧ l.bound.le 0 (l.groupWeight initial g) := by
  obtain ⟨hinit, hc⟩ := not_or.mp (mt mem_entered.mpr hn)
  have hmem := (mem_entered.mp hg).resolve_right hc
  rw [mem_initialGroups, not_or] at hinit
  obtain ⟨v, hv, hvinit⟩ := (mem_initialGroups.mp hmem).resolve_left hinit.1
  have hover : l.Overridden initial g := by
    by_contra hover
    refine hinit.2 ⟨v, ?_, hvinit⟩
    exact (get?_newGroupLimitOverrides l initial g).trans ((if_neg hover).trans hv)
  refine ⟨hover, LookupBound.le_of_initializes fun h => hinit.2 ⟨_, ?_, h⟩⟩
  exact (get?_newGroupLimitOverrides l initial g).trans (if_pos hover)

theorem copy_value_initial : (l.getDoNotMakeWorseCopy initial).valueAt initial = 0 := by
  rw [valueAt, leastSum_eq_zero_iff fun g _ => penaltyAt_nonneg _ initial g]
  have hcard : (l.skipped initial).card ≤ l.groupsAllowed :=
    (toFinset_card_le _).trans (length_take_le _ _)
  refine (Finset.card_le_card ?_).trans hcard
  intro g hg
  obtain ⟨hmem, hp⟩ := Finset.mem_filter.mp hg
  by_contra hs
  have hr : l.objectPartition.partitionInfo.isRelevant g = true :=
    known_relevant (l := l.getDoNotMakeWorseCopy initial) (entered_subset_known _ _ hmem)
  apply hp.ne'
  rw [penaltyAt_copy hr]
  split_ifs with hover
  · rw [sub_self, zero_mul, computePenalty_zero]
  · rw [penaltyAt, penaltyOf_of_relevant hr]
    apply computePenalty_of_le
    rw [← zero_mul (l.objectPartition.coefficientOf g)]
    apply LookupBound.le_mul (l.objectPartition.coefficientOf_nonneg g)
    have he : g ∈ l.entered initial := by
      rcases mem_entered.mp hmem with hinit | hc
      · rcases mem_initialGroups.mp hinit with h | ⟨v, hv, hvinit⟩
        · exact mem_entered.mpr (.inl (mem_initialGroups.mpr (.inl h)))
        · have hold := ((get?_newGroupLimitOverrides l initial g).trans
            (if_neg hover)).symm.trans hv
          exact mem_entered.mpr (.inl (mem_initialGroups.mpr (.inr ⟨v, hold, hvinit⟩)))
      · exact mem_entered.mpr (.inr hc)
    have hw : ¬ l.isWorse initial g = true := fun h =>
      hover ⟨Finset.mem_sdiff.mpr ⟨he, hs⟩, h⟩
    rw [isWorse] at hw
    cases hb : l.bound with
    | max =>
      rw [hb] at hw
      exact not_lt.mp fun h => hw (decide_eq_true h)
    | min =>
      rw [hb] at hw
      exact not_lt.mp fun h => hw (decide_eq_true h)

section
variable (l : ObjectPartitionLookup u) (initial : Assignment)

def SkipsLargest : Prop := ∀ g ∈ l.skipped initial, ∀ g' ∈ l.entered initial \ l.skipped initial,
    l.penaltyAt initial g' ≤ l.penaltyAt initial g

def StepVisible : Prop := l.penaltyTransform = .step → ∀ g, l.Overridden initial g →
    l.objectPartition.coefficientOf g ≠ 0 → l.penaltyAt initial g ≠ 0

end

theorem step_of_computePenalty (h : ¬ l.bound.le d 0) (hz : l.computePenalty d = 0) :
    l.penaltyTransform = .step := by
  have hp : 0 < max 0 (if l.bound = .max then d else -d) := by
    apply lt_max_of_lt_right
    cases hb : l.bound with
    | max =>
      rw [hb] at h
      exact not_le.mp h
    | min =>
      rw [hb] at h
      exact neg_pos.mpr (not_le.mp h)
  rw [computePenalty] at hz
  cases ht : l.penaltyTransform with
  | identity =>
    rw [ht] at hz
    exact absurd hz hp.ne'
  | square =>
    rw [ht] at hz
    exact absurd hz (mul_pos hp hp).ne'
  | step => rfl

theorem computePenalty_step (h : l.penaltyTransform = .step) (d : ℚ) :
    l.computePenalty d = 0 ∨ l.computePenalty d = 1 := by
  rw [computePenalty, h]
  by_cases hgt : u.precision.isStrictlyGtZero (max 0 (if l.bound = .max then d else -d)) = true
  · exact .inr (if_pos hgt)
  · exact .inl (if_neg hgt)

theorem Overridden.penalty_le (h : l.Overridden initial g) (hv : l.StepVisible initial)
    (hz : l.computePenalty
      ((l.groupWeight a g - l.groupWeight initial g) * l.objectPartition.coefficientOf g) = 0) :
    l.penaltyAt a g ≤ l.penaltyAt initial g := by
  have hr := known_relevant (entered_subset_known _ _ (Finset.mem_sdiff.mp h.1).1)
  by_cases hc : l.objectPartition.coefficientOf g = 0
  · rw [penaltyAt, penaltyAt, penaltyOf_of_relevant hr, penaltyOf_of_relevant hr, hc, mul_zero,
      mul_zero]
  · by_cases hle : l.bound.le ((l.groupWeight a g - l.groupWeight initial g) *
        l.objectPartition.coefficientOf g) 0
    · apply l.penaltyOf_mono
      have hcpos := lt_of_le_of_ne (l.objectPartition.coefficientOf_nonneg g) (Ne.symm hc)
      cases hb : l.bound with
      | max =>
        rw [hb] at hle
        exact sub_nonpos.mp (nonpos_of_mul_nonpos_left hle hcpos)
      | min =>
        rw [hb] at hle
        exact sub_nonneg.mp (nonneg_of_mul_nonneg_left hle hcpos)
    · have hs := step_of_computePenalty hle hz
      have hinitial := hv hs g h hc
      rw [penaltyAt, penaltyOf_of_relevant hr] at hinitial ⊢
      rw [penaltyAt, penaltyOf_of_relevant hr, (computePenalty_step hs _).resolve_left hinitial]
      rcases computePenalty_step hs
          ((l.groupWeight a g - l.limitOf g) * l.objectPartition.coefficientOf g) with h | h
      · exact h.le.trans zero_le_one
      · exact h.le

theorem penaltyAt_le_of_copy (hv : l.StepVisible initial) (hg : g ∈ l.entered a)
    (hze : g ∈ (l.getDoNotMakeWorseCopy initial).entered a →
      (l.getDoNotMakeWorseCopy initial).penaltyAt a g = 0) :
    l.penaltyAt a g ≤ if l.Overridden initial g then l.penaltyAt initial g else 0 := by
  by_cases he : g ∈ (l.getDoNotMakeWorseCopy initial).entered a
  · have hz := hze he
    rw [penaltyAt_copy (known_relevant (entered_subset_known _ _ hg))] at hz
    split_ifs at hz with hover
    · rw [if_pos hover]
      exact hover.penalty_le hv hz
    · rw [if_neg hover, hz]
  · obtain ⟨hover, hle⟩ := of_not_entered_copy hg he
    rw [if_pos hover]
    apply l.penaltyOf_mono
    have hw : l.groupWeight a g = 0 :=
      groupWeight_of_not_entered (l := l.getDoNotMakeWorseCopy initial) he
    rwa [hw]

theorem copy_sound (hl : l.SkipsLargest initial) (hv : l.StepVisible initial)
    (hz : (l.getDoNotMakeWorseCopy initial).valueAt a = 0) : l.valueAt a ≤ l.valueAt initial := by
  rw [valueAt, leastSum_eq_zero_iff fun g _ => penaltyAt_nonneg _ a g] at hz
  apply (leastSum_le (l.entered a) (l.penaltyAt a) hz).trans
  have hr : ∀ g, l.Overridden initial g →
      g ∈ l.entered initial \ l.skipped initial := fun g h => h.1
  calc ∑ g ∈ l.entered a \ _, l.penaltyAt a g
      ≤ ∑ g ∈ l.entered a \ _, if l.Overridden initial g then l.penaltyAt initial g else 0 := by
        apply Finset.sum_le_sum
        intro g hg
        obtain ⟨hmem, hn⟩ := Finset.mem_sdiff.mp hg
        apply penaltyAt_le_of_copy hv hmem
        intro hc
        apply le_antisymm _ (penaltyAt_nonneg _ a g)
        exact not_lt.mp fun hp => hn (Finset.mem_filter.mpr ⟨hc, hp⟩)
    _ ≤ ∑ g ∈ l.entered initial \ l.skipped initial, l.penaltyAt initial g := by
        rw [← Finset.sum_filter]
        apply Finset.sum_le_sum_of_subset_of_nonneg
        · intro g hg
          exact hr g (Finset.mem_filter.mp hg).2
        · intro g _ _
          exact l.penaltyAt_nonneg initial g
    _ ≤ l.valueAt initial :=
        sum_le_leastSum (fun g _ => l.penaltyAt_nonneg initial g) (l.skipped_subset initial)
          (l.skipped_card initial) hl

/-- The copy starts at zero, and where it is zero the lookup is no worse than initially. -/
theorem getDoNotMakeWorseCopy_sound (l : ObjectPartitionLookup u) (initial : Assignment) {v : ℚ}
    (hinitial : l.computeFromAssignment initial = .ok v) :
    (l.getDoNotMakeWorseCopy initial).computeFromAssignment initial = .ok 0 ∧
      (l.SkipsLargest initial → l.StepVisible initial → ∀ a,
        (l.getDoNotMakeWorseCopy initial).computeFromAssignment a = .ok 0 →
        ∃ w ≤ v, l.computeFromAssignment a = .ok w) := by
  have haccept : ∀ a, (l.getDoNotMakeWorseCopy initial).acceptsAll a = l.acceptsAll a :=
    fun a => rfl
  simp only [computeFromAssignment_eq, haccept] at hinitial ⊢
  split at hinitial
  · cases hinitial
    rename_i hall
    rw [if_pos hall, copy_value_initial]
    refine ⟨rfl, ?_⟩
    intro hl hv a ha
    split at ha
    · rename_i halla
      exact ⟨_, copy_sound hl hv (Except.ok.inj ha), if_pos halla⟩
    · cases ha
  · cases hinitial

end ObjectPartitionLookup

def twoGroupLookup (limit : ℚ) : ObjectPartitionLookup (weightedUniverse [3, 2, 9]
    ⟨[(0, [0, 2]), (1, [1])], by decide⟩ (by decide)) :=
  plainLookup ⟨[(0, limit)], nodup_zero⟩ 1 unit_nonneg 1 .max

def thirdElsewhere : Assignment := fun o => if o = 2 then 1 else 0

/-- The heavier group is exempted although the other one has the larger penalty; when it grows the
copy does not notice. -/
theorem getDoNotMakeWorseCopy_worse :
    (twoGroupLookup 2).computeFromAssignment thirdElsewhere = .ok 1 ∧
      ((twoGroupLookup 2).getDoNotMakeWorseCopy thirdElsewhere).computeFromAssignment
        (fun _ => 0) = .ok 0 ∧ (twoGroupLookup 2).computeFromAssignment (fun _ => 0) = .ok 2 := by
  decide +kernel

theorem getDoNotMakeWorseCopy_sound_third_joins :
    ∃ w ≤ (2 : ℚ), (twoGroupLookup 0).computeFromAssignment (fun _ => 0) = .ok w := by
  apply ((twoGroupLookup 0).getDoNotMakeWorseCopy_sound thirdElsewhere (v := 2)
    (by decide +kernel)).2
  · unfold ObjectPartitionLookup.SkipsLargest
    decide +kernel
  · intro hs
    cases hs
  · decide +kernel

end Rebalancer
