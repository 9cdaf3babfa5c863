import Rebalancer.FixedPlacement

namespace Rebalancer
open List

theorem length_filter_eq_sum (p : α → Bool) (l : List α) :
    ((l.filter p).length : ℚ) = (l.map fun x => if p x then (1 : ℚ) else 0).sum := by
  rw [← sum_map_filter, map_const', sum_replicate, nsmul_eq_mul, mul_one]

theorem foldr_max_le_iff {l : List ℚ} : l.foldr max m ≤ b ↔ m ≤ b ∧ ∀ x ∈ l, x ≤ b := by
  induction l with
  | nil => simp
  | cons x l ih => simp [ih, and_left_comm]

namespace GroupMoveLimitSpec
variable {spec : GroupMoveLimitSpec} {u a : Assignment}

theorem getObjectMoveCost_nonneg (hch : spec.check os cs = .ok ())
    (ho : o ∈ os) (hc : c ∈ cs) : 0 ≤ spec.getObjectMoveCost u o c := by
  have hvalue : 0 ≤ spec.dimension.getValue o c := by
    rw [check] at hch
    split at hch
    · cases hch
    · rename_i hn
      by_contra hneg
      apply hn
      rw [any_cons, Bool.or_eq_true]
      exact .inl (any_eq_true.mpr ⟨o, ho, any_eq_true.mpr ⟨c, hc, decide_eq_true (not_le.mp hneg)⟩⟩)
  rw [getObjectMoveCost]
  split
  · cases hd : spec.dimension with
    | static v =>
      rw [hd] at hvalue
      exact hvalue
    | dynamic v =>
      rw [hd] at hvalue
      exact hvalue.trans (le_max_right _ _)
  · exact le_refl 0

theorem mem_relevantMoves : o ∈ spec.relevantMoves os u a g ↔ o ∈ os ∧
      o ∈ spec.partition.getObjectIds g ∧ spec.doesMoveAffectLimit u o (a o) = true := by
  rw [relevantMoves, mem_filter, decide_eq_true_eq, Partition.mem_objectIdToGroupIds]

theorem mem_getGroupIds {p : Partition} (h : o ∈ p.getObjectIds g) : g ∈ p.getGroupIds :=
  mem_map_of_mem (f := Prod.fst) (Partition.mem_of_mem_getObjectIds h)

theorem moveLimitValue_pos {os : List ObjectId}
    (hn : ∀ x ∈ os, 0 ≤ spec.getObjectMoveCost u x (a x)) (ho : o ∈ os)
    (hg : o ∈ spec.partition.getObjectIds g) (ha : spec.doesMoveAffectLimit u o (a o) = true)
    (hli : spec.limit.getLimit g < (spec.getObjectMoveCost u o (a o) : ℚ)) :
    0 < spec.moveLimitValue os u a := by
  have hr := mem_relevantMoves.mpr ⟨ho, hg, ha⟩
  have hd : spec.getObjectMoveCost u o (a o) ≤ spec.groupDeviation os u a g := by
    apply single_le_sum
    · intro x hx
      obtain ⟨o', ho', rfl⟩ := mem_map.mp hx
      exact hn o' (mem_relevantMoves.mp ho').1
    · exact mem_map_of_mem hr
  have hc : 0 < spec.moveCost g (spec.groupDeviation os u a g) := by
    rw [moveCost]
    cases hl : spec.limit.getLimit g with
    | top =>
      rw [hl] at hli
      exact absurd hli (not_lt.mpr le_top)
    | coe limit =>
      rw [hl, WithTop.coe_lt_coe] at hli
      exact lt_max_of_lt_right (sub_pos.mpr (hli.trans_le hd))
  apply hc.trans_le
  apply (foldr_max_le_iff.mp le_rfl).2
  apply mem_map_of_mem (f := fun g => spec.moveCost g (spec.groupDeviation os u a g))
  rw [mem_filter, decide_eq_true_eq]
  exact ⟨mem_getGroupIds hg, ne_nil_of_mem hr⟩

theorem moveLimitValue_moveTo_le {os : List ObjectId} (hn : os.Nodup)
    (hli : ∀ g, o ∈ spec.partition.getObjectIds g → spec.doesMoveAffectLimit u o d = true →
      (spec.getObjectMoveCost u o d : ℚ) ≤ spec.limit.getLimit g) :
    spec.moveLimitValue os u (u.moveTo o d) ≤ 0 := by
  apply foldr_max_le_iff.mpr
  apply And.intro le_rfl
  intro x hx
  obtain ⟨g, hg, rfl⟩ := mem_map.mp hx
  rw [mem_filter, decide_eq_true_eq] at hg
  have hself : u.moveTo o d o = d := if_pos rfl
  have ho : ∀ q ∈ spec.relevantMoves os u (u.moveTo o d) g, q = o := by
    intro q hq
    by_contra hne
    have hk : u.moveTo o d q = u q := if_neg hne
    have haffects := (mem_relevantMoves.mp hq).2.2
    rw [hk, doesMoveAffectLimit, Bool.and_eq_true, Bool.and_eq_true, decide_eq_true_eq] at haffects
    exact haffects.1.1 rfl
  obtain ⟨q, hq⟩ := exists_mem_of_ne_nil _ hg.2
  have hqo := ho q hq
  rw [hqo] at hq
  obtain ⟨-, hgroup, haffects⟩ := mem_relevantMoves.mp hq
  rw [hself] at haffects
  have hs : spec.relevantMoves os u (u.moveTo o d) g = [o] := by
    apply perm_singleton.mp
    apply (perm_ext_iff_of_nodup (hn.filter _) (nodup_singleton o)).mpr
    intro x
    rw [mem_singleton]
    exact ⟨ho x, fun hx => hx ▸ hq⟩
  have hle := hli g hgroup haffects
  have hd : spec.groupDeviation os u (u.moveTo o d) g = spec.getObjectMoveCost u o d := by
    rw [groupDeviation, hs, map_singleton, sum_singleton, hself]
  change spec.moveCost g (spec.groupDeviation os u (u.moveTo o d) g) ≤ 0
  rw [hd, moveCost]
  cases hl : spec.limit.getLimit g with
  | top => exact le_refl 0
  | coe limit =>
    rw [hl, WithTop.coe_le_coe] at hle
    exact max_le (le_refl 0) (sub_nonpos.mpr hle)

end GroupMoveLimitSpec

namespace ConstraintUniverse
variable {u : ConstraintUniverse} {a b updated : Assignment}

theorem isAssigned_le_one (a : Assignment) (c : ContainerId) (o : ObjectId) :
    isAssigned a c o ≤ 1 := by
  rw [isAssigned]
  split
  · exact le_refl 1
  · exact zero_le_one

def countedObjects (u : ConstraintUniverse) (objectIds : List ObjectId) : List ObjectId :=
  if objectIds.length ≤ 2 then objectIds else u.objects.filter fun o => o ∈ objectIds

theorem getStayedObjectCountExpr_eq (c : ContainerId) (is : List ObjectId) (a : Assignment) :
    u.getStayedObjectCountExpr c is a = ((u.countedObjects is).map (isAssigned a c)).sum := by
  rw [getStayedObjectCountExpr, countedObjects]
  split
  · rfl
  · have hf : (u.objects.filter fun o => a o = c ∧ o ∈ is) =
        (u.objects.filter fun o => o ∈ is).filter fun o => a o = c := by
      rw [filter_filter]
      apply filter_congr
      intro o _
      rw [Bool.decide_and]
    rw [hf, sum_map_filter]
    apply congrArg
    apply map_congr_left
    intro o _
    rw [isAssigned]
    by_cases ho : a o = c
    · rw [decide_eq_true ho, if_pos rfl, if_pos ho]
    · rw [decide_eq_false ho, if_neg Bool.false_ne_true, if_neg ho]

theorem mem_countedObjects (hs : ∀ o ∈ objectIds, o ∈ u.objects) :
    o ∈ u.countedObjects objectIds ↔ o ∈ objectIds := by
  rw [countedObjects]
  split
  · rfl
  · rw [mem_filter, decide_eq_true_eq]
    exact ⟨fun h => h.2, fun h => ⟨hs o h, h⟩⟩

theorem length_countedObjects_le (is : List ObjectId) :
    (u.countedObjects is).length ≤ is.length := by
  rw [countedObjects]
  split
  · exact le_refl _
  · apply List.Subperm.length_le
    apply (u.objects_nodup.filter _).subperm
    intro o ho
    exact of_decide_eq_true (mem_filter.mp ho).2

theorem relevantObjects_sub (hl : ∀ o ∈ l, o ∈ u.objects) (c : ContainerId) :
    ∀ o ∈ (u.relevantObjects l).filter fun o => u.initialContainer o = c, o ∈ u.objects := by
  intro o ho
  exact hl o (mem_filter.mp (mem_filter.mp ho).1).1

theorem sum_isAssigned_unmoved (hl : ∀ o ∈ l, o ∈ u.objects)
    (hk : ∀ o ∈ u.relevantObjects l, updated o = u.initialContainer o) (c : ContainerId) :
    ((u.countedObjects ((u.relevantObjects l).filter fun o => u.initialContainer o = c)).map
      (isAssigned updated c)).sum =
    (u.countedObjects ((u.relevantObjects l).filter fun o => u.initialContainer o = c)).length := by
  have hone : ∀ o ∈ u.countedObjects
      ((u.relevantObjects l).filter fun o => u.initialContainer o = c),
      isAssigned updated c o = 1 := by
    intro o ho
    rw [mem_countedObjects (relevantObjects_sub hl c), mem_filter] at ho
    rw [isAssigned, hk o ho.1, if_pos (of_decide_eq_true ho.2)]
  rw [map_congr_left hone, map_const', sum_replicate, nsmul_eq_mul, mul_one]

theorem sum_isAssigned_le (a : Assignment) (c : ContainerId) (l : List ObjectId) :
    (l.map (isAssigned a c)).sum ≤ l.length := by
  have hle := sum_le_sum (l := l) (fun o _ => isAssigned_le_one a c o)
  rw [map_const', sum_replicate, nsmul_eq_mul, mul_one] at hle
  exact hle

theorem avoidMovingExpr_nonneg (u : ConstraintUniverse) (l : List ObjectId) (a : Assignment) :
    0 ≤ u.avoidMovingExpr l a := by
  have ht : ∀ c ∈ u.containers, u.getStayedObjectCountExpr c
      ((u.relevantObjects l).filter fun o => u.initialContainer o = c) a ≤
        (((u.relevantObjects l).filter fun o => u.initialContainer o = c).length : ℕ) := by
    intro c _
    rw [getStayedObjectCountExpr_eq]
    exact (sum_isAssigned_le a c _).trans (by exact_mod_cast length_countedObjects_le _)
  have hs := sum_le_sum ht
  have hlength := (flatMap_filter_perm u.initialContainer (u.relevantObjects l)
    u.containers_nodup).length_eq
  rw [length_flatMap] at hlength
  have htotal := (Nat.cast_le (α := ℚ)).mpr (hlength.trans_le (length_filter_le _ _))
  rw [Nat.cast_list_sum, map_map] at htotal
  rw [avoidMovingExpr, stayedCount]
  exact sub_nonneg.mpr (hs.trans htotal)

theorem avoidMovingExpr_raised (hl : ∀ o ∈ l, o ∈ u.objects)
    (hk : ∀ o ∈ u.relevantObjects l, updated o = u.initialContainer o)
    (ho : o ∈ u.relevantObjects l) (ha : a o ≠ updated o) :
    u.avoidMovingExpr l updated < u.avoidMovingExpr l a := by
  have hlt : u.stayedCount l a < u.stayedCount l updated := by
    apply sum_lt_sum
    · intro c _
      rw [getStayedObjectCountExpr_eq, getStayedObjectCountExpr_eq, sum_isAssigned_unmoved hl hk]
      exact sum_isAssigned_le a c _
    · refine ⟨u.initialContainer o, u.initial_mem o (hl o (mem_filter.mp ho).1), ?_⟩
      rw [getStayedObjectCountExpr_eq, getStayedObjectCountExpr_eq]
      apply sum_lt_sum
      · intro x hx
        rw [mem_countedObjects (relevantObjects_sub hl _), mem_filter] at hx
        rw [isAssigned, isAssigned, hk x hx.1, if_pos (of_decide_eq_true hx.2)]
        exact isAssigned_le_one a _ x
      · refine ⟨o, ?_, ?_⟩
        · rw [mem_countedObjects (relevantObjects_sub hl _), mem_filter]
          exact ⟨ho, decide_eq_true rfl⟩
        · rw [hk o ho] at ha
          rw [isAssigned, isAssigned, if_neg ha, hk o ho, if_pos rfl]
          exact zero_lt_one
  rw [avoidMovingExpr, avoidMovingExpr]
  linarith

theorem avoidMovingExpr_congr (hl : ∀ o ∈ l, o ∈ u.objects)
    (h : ∀ o ∈ u.relevantObjects l, a o = b o) : u.avoidMovingExpr l a = u.avoidMovingExpr l b := by
  have hc : u.stayedCount l a = u.stayedCount l b := by
    apply congrArg sum
    apply map_congr_left
    intro c _
    rw [getStayedObjectCountExpr_eq, getStayedObjectCountExpr_eq]
    apply congrArg sum
    apply map_congr_left
    intro o ho
    rw [mem_countedObjects (relevantObjects_sub hl c), mem_filter] at ho
    rw [isAssigned, isAssigned, h o ho.1]
  rw [avoidMovingExpr, avoidMovingExpr, hc]

def Made (updated : Assignment) (moves : List MoveInProgress) : Prop :=
  ∀ move ∈ moves, updated move.objName = move.toContainer

theorem movesInProgressExpr_nonneg (ms : List MoveInProgress) (a : Assignment) :
    0 ≤ movesInProgressExpr ms a := by
  have hle := sum_le_sum (l := ms) (fun move _ => isAssigned_le_one a move.toContainer move.objName)
  rw [map_const', sum_replicate, nsmul_eq_mul] at hle
  rw [movesInProgressExpr]
  linarith

theorem movesInProgressExpr_raised (hma : Made updated ms) (ho : o ∈ ms.map (·.objName))
    (ha : a o ≠ updated o) : movesInProgressExpr ms updated < movesInProgressExpr ms a := by
  have hone : ∀ move ∈ ms, isAssigned updated move.toContainer move.objName = 1 := by
    intro move hm
    rw [isAssigned, if_pos (hma move hm)]
  have hlt : (ms.map fun move => isAssigned a move.toContainer move.objName).sum <
      (ms.map fun move => isAssigned updated move.toContainer move.objName).sum := by
    apply sum_lt_sum
    · intro move hm
      rw [hone move hm]
      exact isAssigned_le_one a _ _
    · obtain ⟨move, hm, rfl⟩ := mem_map.mp ho
      refine ⟨move, hm, ?_⟩
      rw [hma move hm] at ha
      rw [hone move hm, isAssigned, if_neg ha]
      exact zero_lt_one
  rw [movesInProgressExpr, movesInProgressExpr]
  linarith

theorem movesInProgressExpr_congr (h : ∀ move ∈ ms, a move.objName = b move.objName) :
    movesInProgressExpr ms a = movesInProgressExpr ms b := by
  have hs : (ms.map fun move => isAssigned a move.toContainer move.objName) =
      ms.map fun move => isAssigned b move.toContainer move.objName := by
    apply map_congr_left
    intro move hm
    rw [isAssigned, isAssigned, h move hm]
  rw [movesInProgressExpr, movesInProgressExpr, hs]

section
variable (u : ConstraintUniverse) (item : IdSet) (a : Assignment)

def newIn (o : ObjectId) : ℚ :=
  if a o ∈ item ∧ u.initialContainer o ∉ item then 1 else 0

theorem newUtilExpr_eq : u.newUtilExpr item a = (u.objects.map (u.newIn item a)).sum := by
  have hs : ∀ o, (if decide (a o ∈ item) = true then (1 : ℚ) else 0) = u.newIn item a o +
        if decide (a o ∈ item ∧ u.initialContainer o ∈ item) = true then 1 else 0 := by
    intro o
    rw [newIn]
    by_cases ha : a o ∈ item <;> by_cases hi : u.initialContainer o ∈ item <;> simp [ha, hi]
  rw [newUtilExpr, length_filter_eq_sum, length_filter_eq_sum]
  simp only [hs, sum_map_add]
  exact add_sub_cancel_right _ _

theorem newIn_nonneg (o : ObjectId) : 0 ≤ u.newIn item a o := by
  rw [newIn]
  split
  · exact zero_le_one
  · exact le_refl 0

theorem newUtilExpr_nonneg : 0 ≤ u.newUtilExpr item a := by
  rw [newUtilExpr_eq]
  apply sum_nonneg
  intro x hx
  obtain ⟨o, -, rfl⟩ := mem_map.mp hx
  exact u.newIn_nonneg item a o

end

theorem newUtilExpr_raised (ho : o ∈ u.objects) (ha : a o ∈ item) (hu : updated o ∉ item)
    (hi : u.initialContainer o ∉ item)
    (hs : ∀ q ∈ u.objects, updated q ∈ item → u.initialContainer q ∉ item → a q = updated q) :
    u.newUtilExpr item updated < u.newUtilExpr item a := by
  rw [newUtilExpr_eq, newUtilExpr_eq]
  apply sum_lt_sum
  · intro q hq
    rw [newIn]
    split_ifs with hn
    · rw [newIn, hs q hq hn.1 hn.2, if_pos hn]
    · exact u.newIn_nonneg item a q
  · refine ⟨o, ho, ?_⟩
    rw [newIn, newIn, if_neg fun h => hu h.1, if_pos ⟨ha, hi⟩]
    exact zero_lt_one

theorem newUtilExpr_moveTo_le (h : d ∈ item → updated o ∈ item ∨ u.initialContainer o ∈ item) :
    u.newUtilExpr item (updated.moveTo o d) ≤ u.newUtilExpr item updated := by
  rw [newUtilExpr_eq, newUtilExpr_eq]
  apply sum_le_sum
  intro q _
  rw [newIn, Assignment.moveTo]
  by_cases hq : q = o
  · split_ifs with hn
    · rw [hq] at hn ⊢
      rcases h hn.1 with hin | hin
      · rw [newIn, if_pos ⟨hin, hn.2⟩]
      · exact absurd hin hn.2
    · exact u.newIn_nonneg item updated q
  · rw [if_neg hq]
    exact le_refl _

end ConstraintUniverse

end Rebalancer
