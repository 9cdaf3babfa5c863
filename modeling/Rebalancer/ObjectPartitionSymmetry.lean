import Rebalancer.ObjectPartition
import Rebalancer.TopSums

namespace Rebalancer
open List ObjectPartition ObjectPartitionArgs GroupWeights
variable {w : GroupWeights}

section
variable {u : Universe partitions}

namespace GroupWeights

theorem mem_touch : g ∈ (w.touch g').groupIds ↔ g ∈ w.groupIds ∨ g = g' := by
  rw [touch]
  split_ifs with h
  · exact ⟨.inl, fun hg => hg.elim (fun hg => hg) (fun he => he ▸ h)⟩
  · rw [mem_append, mem_singleton]

theorem nodup_touch (h : w.groupIds.Nodup) : (w.touch g).groupIds.Nodup := by
  rw [touch]
  split_ifs with hg
  · exact h
  · exact nodup_append'.mpr ⟨h, nodup_singleton g, disjoint_singleton.mpr hg⟩

theorem touch_counts (w : GroupWeights) (g : GroupId) :
    (w.touch g).groupObjectCounts = w.groupObjectCounts := by
  rw [touch]
  split <;> rfl

theorem touch_weights (w : GroupWeights) (g : GroupId) :
    (w.touch g).groupObjectWeights = w.groupObjectWeights := by
  rw [touch]
  split <;> rfl

structure Counted (initial : List GroupId) (groups : ObjectId → List GroupId)
    (weight : ObjectId → ℚ) (done : List ObjectId) (w : GroupWeights) : Prop where
  mem_iff : ∀ g, g ∈ w.groupIds ↔ g ∈ initial ∨ ∃ o ∈ done, g ∈ groups o
  nodup : w.groupIds.Nodup
  counts : ∀ g o, w.groupObjectCounts g o = if o ∈ done then (groups o).count g else 0
  weights : ∀ g o, w.groupObjectWeights g o = if o ∈ done then weight o * (groups o).count g else 0

theorem foldl_touch (i : List GroupId) : ∀ w : GroupWeights, w.groupIds.Nodup →
    (i.foldl touch w).groupIds.Nodup ∧
      (∀ g, g ∈ (i.foldl touch w).groupIds ↔ g ∈ w.groupIds ∨ g ∈ i) ∧
      (i.foldl touch w).groupObjectCounts = w.groupObjectCounts ∧
      (i.foldl touch w).groupObjectWeights = w.groupObjectWeights := by
  induction i with
  | nil =>
    intro w h
    refine ⟨h, ?_, rfl, rfl⟩
    intro g
    simp
  | cons g' i ih =>
    intro w h
    obtain ⟨hn, hm, hc, hw⟩ := ih (w.touch g') (nodup_touch h)
    refine ⟨hn, ?_, hc.trans (touch_counts w g'), hw.trans (touch_weights w g')⟩
    intro g
    rw [foldl_cons, hm g, mem_touch, mem_cons, or_assoc]

theorem foldl_add (x : ℚ) (o : ObjectId) (gs : List GroupId) : ∀ w : GroupWeights,
    w.groupIds.Nodup → (gs.foldl (add x o) w).groupIds.Nodup ∧
      (∀ g, g ∈ (gs.foldl (add x o) w).groupIds ↔ g ∈ w.groupIds ∨ g ∈ gs) ∧
      (∀ g o', (gs.foldl (add x o) w).groupObjectCounts g o' =
        w.groupObjectCounts g o' + if o' = o then gs.count g else 0) ∧
      ∀ g o', (gs.foldl (add x o) w).groupObjectWeights g o' =
        if o' = o ∧ g ∈ gs then x * (w.groupObjectCounts g o + gs.count g : Nat)
        else w.groupObjectWeights g o' := by
  induction gs with
  | nil =>
    intro w h
    refine ⟨h, ?_, ?_, ?_⟩
    · intro g
      simp
    · intro g o'
      simp
    · intro g o'
      simp
  | cons g' gs ih =>
    intro w h
    obtain ⟨hn, hm, hc, hw⟩ := ih (w.add x o g') (nodup_touch h)
    refine ⟨hn, ?_, ?_, ?_⟩
    · intro g
      rw [foldl_cons, hm g, mem_cons, ← or_assoc]
      exact or_congr_left mem_touch
    · intro g o'
      rw [foldl_cons, hc g o', count_cons]
      simp only [add, touch_counts]
      by_cases ho : o' = o
      · by_cases hg : g = g'
        · subst hg
          simp only [ho, and_self, ↓reduceIte, beq_self_eq_true]
          omega
        · simp [ho, hg, beq_eq_false_iff_ne.mpr (Ne.symm hg)]
      · simp [ho]
    · intro g o'
      rw [foldl_cons, hw g o', count_cons]
      simp only [add, touch_counts, touch_weights, mem_cons]
      by_cases ho : o' = o
      · subst ho
        by_cases hg : g = g'
        · subst hg
          by_cases hin : g ∈ gs
          · simp only [hin, and_self, ↓reduceIte, or_true, beq_self_eq_true]
            congr 2
            omega
          · simp [hin, count_eq_zero_of_not_mem hin]
        · simp [hg, beq_eq_false_iff_ne.mpr (Ne.symm hg)]
      · simp [ho]

theorem Counted.add (h : w.Counted i gs w' done) (hnew : o ∉ done) :
    ((gs o).foldl (add (w' o) o) w).Counted i gs w' (done ++ [o]) := by
  obtain ⟨hn, hm, hc, hw⟩ := foldl_add (w' o) o (gs o) w h.nodup
  refine ⟨?_, hn, ?_, ?_⟩
  · intro g
    rw [hm g, h.mem_iff g]
    simp [or_and_right, exists_or, or_assoc]
  · intro g o'
    rw [hc g o', h.counts g o']
    by_cases ho : o' = o
    · subst ho
      simp [hnew]
    · simp [ho]
  · intro g o'
    rw [hw g o', h.weights g o', h.counts g o]
    by_cases ho : o' = o
    · subst ho
      by_cases hg : g ∈ gs o'
      · simp [hg, hnew]
      · simp [hg, hnew, count_eq_zero_of_not_mem hg]
    · simp [ho]

end GroupWeights

namespace ObjectPartition

theorem checked_spec (p : ObjectPartition u) :
    (u.dimension p.dimensionId).isDynamic = p.scopeItemIds.isSome ∧
      ∀ e ∈ p.groupLimits.entries, p.partitionInfo.isRelevant e.1 = true := by
  have h := p.checked
  rw [check] at h
  obtain ⟨u₁, -, h⟩ := except_bind_ok h
  obtain ⟨u₂, hd, h⟩ := except_bind_ok h
  obtain ⟨u₃, hl, -⟩ := except_bind_ok h
  refine ⟨not_not.mp (of_throwIf hd), ?_⟩
  exact all_eq_true.mp (not_not.mp (of_throwIf hl))

theorem getObjectGroups_relevant {p : ObjectPartition u} (h : g ∈ p.getObjectGroups o) :
    p.partitionInfo.isRelevant g = true :=
  (mem_filter.mp h).2

end ObjectPartition

namespace ObjectPartitionLookup

section
variable (l : ObjectPartitionLookup u)

theorem initialWeights_counted (w' : ObjectId → ℚ) :
    l.initialWeights.Counted l.initialGroups l.objectPartition.getObjectGroups w' [] := by
  obtain ⟨hn, hm, hc, hw⟩ := foldl_touch l.initialGroups ⟨[], fun _ _ => 0, fun _ _ => 0⟩ .nil
  refine ⟨?_, hn, ?_, ?_⟩
  · intro g
    rw [initialWeights, hm g]
    simp
  · intro g o
    rw [initialWeights, hc]
    simp
  · intro g o
    rw [initialWeights, hw]
    simp

section
variable (a : Assignment)

def weightOf (o : ObjectId) : ℚ :=
  (u.dimension l.objectPartition.dimensionId).getValue o (l.getDimensionScopeItemId (a o))

def accepts (o : ObjectId) : Bool := l.objectPartition.acceptable (l.getDimensionScopeItemId (a o))

theorem foldlM_addObject (os : List ObjectId) :
    ∀ (done : List ObjectId) (w : GroupWeights), (done ++ os).Nodup →
      w.Counted l.initialGroups l.objectPartition.getObjectGroups (l.weightOf a) done →
      if os.all (l.accepts a) then
        ∃ w', os.foldlM (l.addObject a) w = .ok w' ∧ w'.Counted l.initialGroups
          l.objectPartition.getObjectGroups (l.weightOf a) (done ++ os)
      else os.foldlM (l.addObject a) w =
        .error "The provided scope item is not in the list of acceptable scope items" := by
  induction os with
  | nil =>
    intro done w _ h
    rw [append_nil]
    exact ⟨w, rfl, h⟩
  | cons o os ih =>
    intro done w hnodup h
    have hn : o ∉ done := by
      intro ho
      exact (nodup_append'.mp hnodup).2.2 ho mem_cons_self
    rw [all_cons, foldlM_cons]
    by_cases ho : l.accepts a o = true
    · have hs : l.addObject a w o = .ok ((l.objectPartition.getObjectGroups o).foldl
          (add (l.weightOf a o) o) w) := by
        rw [accepts] at ho
        simp [addObject, getObjectWeight, ho, except_ok_bind, weightOf]
      rw [ho, Bool.true_and, hs, except_ok_bind]
      rw [append_cons] at hnodup
      have hr := ih (done ++ [o]) _ hnodup (h.add hn)
      rw [append_assoc] at hr
      exact hr
    · have hs : l.addObject a w o =
          .error "The provided scope item is not in the list of acceptable scope items" := by
        rw [accepts] at ho
        simp only [addObject, getObjectWeight, ho, Bool.false_eq_true, ↓reduceIte]
        rfl
      rw [Bool.not_eq_true] at ho
      rw [ho, Bool.false_and, hs]
      rfl

def penaltyOf (weight : ℚ) (g : GroupId) : ℚ :=
  match l.getGroupPenalty weight g with
  | .ok penalty => penalty
  | .error _ => 0

theorem getGroupPenalty_of_relevant (w' : ℚ)
    (h : l.objectPartition.partitionInfo.isRelevant g = true) :
    l.getGroupPenalty w' g = .ok (l.penaltyOf w' g) := by
  have hlimit : ∃ limit, l.getGroupLimit g = .ok limit := by
    rw [getGroupLimit]
    split
    · exact ⟨_, rfl⟩
    · split
      · exact ⟨_, rfl⟩
      · rw [ObjectPartition.getGroupLimit, if_pos h]
        exact ⟨_, rfl⟩
  obtain ⟨limit, hlimit⟩ := hlimit
  simp [penaltyOf, getGroupPenalty, hlimit, getGroupCoefficient, h, except_ok_bind]

theorem initialGroups_relevant (h : g ∈ l.initialGroups) :
    l.objectPartition.partitionInfo.isRelevant g = true := by
  obtain ⟨e, he, hg⟩ := mem_filterMap.mp h
  split at hg
  · rename_i hinit
    cases hg
    rcases mem_append.mp he with he | he
    · exact l.objectPartition.checked_spec.2 e he
    · exact l.overridesRelevant e he hinit
  · cases hg

def groupWeight (g : GroupId) : ℚ := ((l.contributingObjectIds a).map fun o =>
    l.weightOf a o * (l.objectPartition.getObjectGroups o).count g).sum

theorem nodup_contributingObjectIds : (l.contributingObjectIds a).Nodup := nodup_dedup _

theorem computeFromAssignment_spec : if (l.contributingObjectIds a).all (l.accepts a) then
      ∃ groupIds : List GroupId, groupIds.Nodup ∧ (∀ g, g ∈ groupIds ↔ g ∈ l.initialGroups ∨
          ∃ o ∈ l.contributingObjectIds a, g ∈ l.objectPartition.getObjectGroups o) ∧
        l.computeFromAssignment a =
          .ok (l.total (groupIds.map fun g => l.penaltyOf (l.groupWeight a g) g))
    else l.computeFromAssignment a =
      .error "The provided scope item is not in the list of acceptable scope items" := by
  have hl := l.foldlM_addObject a (l.contributingObjectIds a) [] l.initialWeights
    (l.nodup_contributingObjectIds a) (l.initialWeights_counted _)
  by_cases ha : (l.contributingObjectIds a).all (l.accepts a) = true
  · rw [if_pos ha] at hl ⊢
    obtain ⟨w, hw, hc⟩ := hl
    rw [nil_append] at hc
    refine ⟨w.groupIds, hc.nodup, hc.mem_iff, ?_⟩
    have hq : ∀ g, w.query (l.contributingObjectIds a) g = l.groupWeight a g := by
      intro g
      rw [query]
      congr 1
      apply map_congr_left
      intro o ho
      rw [hc.weights g o, if_pos ho]
    have hp : (w.groupIds.mapM fun g =>
        l.getGroupPenalty (w.query (l.contributingObjectIds a) g) g) =
          .ok (w.groupIds.map fun g => l.penaltyOf (l.groupWeight a g) g) := by
      apply mapM_ok
      intro g hg
      rw [hq g]
      apply l.getGroupPenalty_of_relevant
      rcases (hc.mem_iff g).mp hg with hg | ⟨o, -, hg⟩
      · exact l.initialGroups_relevant hg
      · exact getObjectGroups_relevant hg
    rw [computeFromAssignment, hw, except_ok_bind, hp, except_ok_bind]
  · rw [if_neg ha] at hl ⊢
    rw [computeFromAssignment, hl]
    rfl

end

end

structure Symmetric (l : ObjectPartitionLookup u) (σ : Equiv.Perm ObjectId) : Prop where
  inRange : ∀ o, σ o < u.numObjects ↔ o < u.numObjects
  during : ∀ o, σ o ∈ l.initialDuringObjects ↔ o ∈ l.initialDuringObjects
  groups : ∀ o g, (l.objectPartition.getObjectGroups (σ o)).count g =
    (l.objectPartition.getObjectGroups o).count g
  values : ∀ o s, l.objectPartition.acceptable s = true →
    (u.dimension l.objectPartition.dimensionId).getValue (σ o) s =
      (u.dimension l.objectPartition.dimensionId).getValue o s
variable {l : ObjectPartitionLookup u}

theorem mem_contributingObjectIds : o ∈ l.contributingObjectIds a ↔
      o ∈ l.initialDuringObjects ∨ o < u.numObjects ∧ a o ∈ l.lookupContainers := by
  rw [contributingObjectIds, mem_dedup, mem_append, mem_flatMap]
  refine or_congr Iff.rfl ?_
  simp only [Assignment.getObjects, mem_filter, mem_range, decide_eq_true_eq]
  constructor
  · rintro ⟨c, hc, ho, rfl⟩
    exact ⟨ho, hc⟩
  · rintro ⟨ho, hc⟩
    exact ⟨a o, hc, ho, rfl⟩

theorem sumTop_perm (h : xs.Perm ys) (n : Nat) : sumTop n xs = sumTop n ys := topSum_perm h n

theorem total_perm (h : xs.Perm ys) : l.total xs = l.total ys := by
  rw [total, total, sumTop_perm h, h.sum_eq]

section
variable (h : l.Symmetric σ) (a : Assignment)
include h

theorem Symmetric.contributing :
    ((l.contributingObjectIds (a ∘ σ)).map σ).Perm (l.contributingObjectIds a) := by
  rw [perm_ext_iff_of_nodup ((l.nodup_contributingObjectIds _).map σ.injective)
    (l.nodup_contributingObjectIds a)]
  intro o
  rw [mem_map]
  constructor
  · rintro ⟨o', ho, rfl⟩
    rw [mem_contributingObjectIds] at ho ⊢
    rw [h.during, h.inRange]
    exact ho
  · intro ho
    refine ⟨σ.symm o, ?_, σ.apply_symm_apply o⟩
    rw [mem_contributingObjectIds] at ho ⊢
    rw [← h.during, ← h.inRange, Function.comp_apply, σ.apply_symm_apply]
    exact ho

theorem Symmetric.groupWeight
    (ha : (l.contributingObjectIds (a ∘ σ)).all (l.accepts (a ∘ σ)) = true) (g : GroupId) :
    l.groupWeight (a ∘ σ) g = l.groupWeight a g := by
  have hs := ((h.contributing a).map fun o =>
    l.weightOf a o * (l.objectPartition.getObjectGroups o).count g).sum_eq
  rw [ObjectPartitionLookup.groupWeight, ObjectPartitionLookup.groupWeight, ← hs, map_map]
  congr 1
  apply map_congr_left
  intro o ho
  rw [Function.comp_apply, h.groups o g]
  congr 1
  exact (h.values o _ (all_eq_true.mp ha o ho)).symm

theorem Symmetric.accepts : (l.contributingObjectIds (a ∘ σ)).all (l.accepts (a ∘ σ)) =
      (l.contributingObjectIds a).all (l.accepts a) := by
  rw [← (h.contributing a).all_eq, all_map]
  rfl

theorem Symmetric.computeFromAssignment : l.computeFromAssignment (a ∘ σ) =
    l.computeFromAssignment a := by
  have hspec := l.computeFromAssignment_spec (a ∘ σ)
  have hs' := l.computeFromAssignment_spec a
  rw [h.accepts a] at hspec
  by_cases ha : (l.contributingObjectIds a).all (l.accepts a) = true
  · rw [if_pos ha] at hspec hs'
    obtain ⟨gs, hn, hm, hv⟩ := hspec
    obtain ⟨gs', hn', hm', hv'⟩ := hs'
    have hp : gs.Perm gs' := by
      rw [perm_ext_iff_of_nodup hn hn']
      intro g
      rw [hm g, hm' g]
      apply or_congr_right
      have hgroups : ∀ o, g ∈ l.objectPartition.getObjectGroups (σ o) ↔
          g ∈ l.objectPartition.getObjectGroups o := by
        intro o
        rw [← count_pos_iff, h.groups o g, count_pos_iff]
      simp only [← (h.contributing a).mem_iff, mem_map]
      constructor
      · rintro ⟨o, ho, hg⟩
        exact ⟨σ o, ⟨o, ho, rfl⟩, (hgroups o).mpr hg⟩
      · rintro ⟨_, ⟨o, ho, rfl⟩, hg⟩
        exact ⟨o, ho, (hgroups o).mp hg⟩
    have hw : (gs.map fun g => l.penaltyOf (l.groupWeight (a ∘ σ) g) g) =
        gs.map fun g => l.penaltyOf (l.groupWeight a g) g := by
      apply map_congr_left
      intro g _
      rw [h.groupWeight a (by rw [h.accepts a]; exact ha) g]
    rw [hv, hv', hw, total_perm (hp.map _)]
  · rw [if_neg ha] at hspec hs'
    rw [hspec, hs']

end

end ObjectPartitionLookup

end

end Rebalancer
