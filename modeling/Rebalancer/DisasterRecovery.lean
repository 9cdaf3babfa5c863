import Rebalancer.GroupRoutingRing
import Rebalancer.PrecisionOrder

namespace Rebalancer
open List

inductive BinaryExpr where
  | const (v : ℚ)
  | node (f : Assignment → ℚ)

namespace BinaryExpr

def value : BinaryExpr → Assignment → ℚ
  | const v, _ => v
  | node f, a => f a

def isConst : BinaryExpr → ℚ → Bool
  | const v, w => v == w
  | node _, _ => false

def binaryMin (t : PrecisionTolerances) (e f : BinaryExpr) : BinaryExpr :=
  if e.isConst 0 || f.isConst 0 then const 0
  else if e.isConst 1 then f
  else if f.isConst 1 then e
  else node fun a => if t.isStrictlyGtZero (e.value a + f.value a - 1) then 1 else 0

def inplaceBinaryMax (e f : BinaryExpr) : BinaryExpr :=
  if e.isConst 1 || f.isConst 1 then const 1
  else if e.isConst 0 then f
  else if f.isConst 0 then e
  else node fun a => max (e.value a) (f.value a)

theorem value_of_isConst {e : BinaryExpr} (h : e.isConst v = true) : e.value a = v := by
  cases e with
  | const w => exact eq_of_beq h
  | node f => cases h

theorem value_binaryMin {e f : BinaryExpr} (ht : t.isStrictlyGtZero 1 = true)
    (he : e.value a = if p then 1 else 0) (hf : f.value a = if q then 1 else 0) :
    (binaryMin t e f).value a = if p && q then 1 else 0 := by
  have hn : t.isStrictlyGtZero (-1) = false := by
    apply Bool.eq_false_iff.mpr
    intro h
    exact absurd (PrecisionTolerances.compare_gt (eq_of_beq h)) (by norm_num)
  have h0 := PrecisionTolerances.isStrictlyGtZero_zero (t := t)
  have h : (binaryMin t e f).value a = e.value a * f.value a := by
    rw [binaryMin]
    split_ifs with hc h1 h1
    · rcases Bool.or_eq_true_iff.mp hc with hc | hc
      · rw [value_of_isConst hc, zero_mul, value]
      · rw [value_of_isConst hc, mul_zero, value]
    · rw [value_of_isConst h1, one_mul]
    · rw [value_of_isConst h1, mul_one]
    · rw [value, he, hf]
      cases p with
      | false => cases q <;> simp [hn, h0]
      | true => cases q <;> simp [ht, h0]
  rw [h, he, hf]
  cases p with
  | false => exact zero_mul _
  | true => exact one_mul _

theorem value_inplaceBinaryMax {e : BinaryExpr} {f : Assignment → ℚ} {p q : Bool}
    (he : e.value a = if p then 1 else 0) (hf : f a = if q then 1 else 0) :
    (e.inplaceBinaryMax (.node f)).value a = if p || q then 1 else 0 := by
  have h : (e.inplaceBinaryMax (.node f)).value a = max (e.value a) (f a) := by
    simp only [inplaceBinaryMax, isConst, Bool.or_false, Bool.false_eq_true, if_false]
    split_ifs with hc hc
    · rw [value_of_isConst hc, hf, value]
      cases q <;> simp
    · rw [value_of_isConst hc, value, hf]
      cases q <;> simp
    · rfl
  rw [h, he, hf]
  cases p <;> cases q <;> simp

end BinaryExpr

/-- The load of each object in each scope item at one index; no container is in two scope items. -/
structure DisasterRecovery where
  precision : PrecisionTolerances
  scopeItemIds : List ScopeItemId
  getContainerIds : ScopeItemId → List ContainerId
  getScopeItemId : ContainerId → Option ScopeItemId
  disasterGroups : List (List ScopeItemId)
  primaryToSetOfSecondaryObjects : List (ObjectId × List ObjectId)
  load : ObjectId → ScopeItemId → ℚ
  mem_getContainerIds : ∀ s c, c ∈ getContainerIds s ↔ getScopeItemId c = some s

namespace DisasterRecovery
variable (d : DisasterRecovery) (group : List ScopeItemId) (s : ScopeItemId) (a : Assignment)

def sharedDisasterGroups : List (List ScopeItemId) :=
  d.disasterGroups ++ (d.scopeItemIds.filter fun s => !d.disasterGroups.any (s ∈ ·)).map ([·])

def isAssigned (o : ObjectId) : BinaryExpr := (d.getContainerIds s).foldl
    (fun e c => e.inplaceBinaryMax (.node fun a => if a o = c then 1 else 0)) (.const 0)

def inDisasterGroup (o : ObjectId) : BinaryExpr :=
  .node fun a => if a o ∈ group.flatMap d.getContainerIds then 1 else 0

/-- What a scope item takes over from one primary object, by the secondary objects that are left. -/
def excessLoadFrom (load : ObjectId → ℚ) : BinaryExpr → List ObjectId → ℚ
  | _, [] => 0
  | preConditions, o :: os =>
    (BinaryExpr.binaryMin d.precision preConditions (d.isAssigned s o)).value a * load o +
      excessLoadFrom load (.binaryMin d.precision preConditions (d.inDisasterGroup group o)) os

def getExcessLoad : ℚ :=
  if s ∈ group then 0
  else (d.primaryToSetOfSecondaryObjects.map fun e =>
    d.excessLoadFrom group s a (d.load · s) (d.inDisasterGroup group e.1) e.2).sum

def getMaxDisasterUsage : Option ℚ :=
  (d.sharedDisasterGroups.map fun group => d.getExcessLoad group s a).max?

def getPrimaryUsage : ℚ := (d.primaryToSetOfSecondaryObjects.map fun e =>
    if d.getScopeItemId (a e.1) = some s then d.load e.1 s else 0).sum

def getTotalDisasterUsage : Option ℚ := (d.getMaxDisasterUsage s a).map (d.getPrimaryUsage s a + ·)

def inside (o : ObjectId) : Bool := (d.getScopeItemId (a o)).any (· ∈ group)

def survivor (os : List ObjectId) : Option ObjectId := os.find? fun o => !d.inside group a o

def takenOver (load : ObjectId → ℚ) (e : ObjectId × List ObjectId) : ℚ :=
  if d.inside group a e.1 then
    (d.survivor group a e.2).elim 0 fun o =>
      if d.getScopeItemId (a o) = some s then load o else 0
  else 0

def takeovers : List ℚ := (d.sharedDisasterGroups.filter (s ∉ ·)).map fun group =>
    (d.primaryToSetOfSecondaryObjects.map (d.takenOver group s a (d.load · s))).sum

variable {d group s a}

theorem value_inDisasterGroup : (d.inDisasterGroup group o).value a =
    if d.inside group a o then 1 else 0 := by
  have h : a o ∈ group.flatMap d.getContainerIds ↔ d.inside group a o = true := by
    simp [inside, d.mem_getContainerIds, Option.any_eq_true, and_comm]
  simp only [inDisasterGroup, BinaryExpr.value, h]

theorem value_isAssigned : (d.isAssigned s o).value a =
    if decide (d.getScopeItemId (a o) = some s) then 1 else 0 := by
  have h : ∀ (cs : List ContainerId) {e : BinaryExpr} {p : Bool},
      e.value a = (if p then 1 else 0) → (cs.foldl (fun e c => e.inplaceBinaryMax
        (.node fun a => if a o = c then 1 else 0)) e).value a =
          if p || decide (a o ∈ cs) then 1 else 0 := by
    intro cs
    induction cs with
    | nil => simp
    | cons c cs ih =>
      intro e p he
      rw [foldl_cons, ih (BinaryExpr.value_inplaceBinaryMax (q := a o = c) he (by simp))]
      simp [or_assoc]
  rw [isAssigned, h _ (p := false) rfl]
  simp [d.mem_getContainerIds]

section
variable (ht : d.precision.isStrictlyGtZero 1 = true) (hs : s ∉ group)
include ht hs

theorem excessLoadFrom_eq
    (load : ObjectId → ℚ) {pre : BinaryExpr} {p : Bool} (hp : pre.value a = if p then 1 else 0)
    (os : List ObjectId) : d.excessLoadFrom group s a load pre os =
      if p then (d.survivor group a os).elim 0 fun o =>
        if d.getScopeItemId (a o) = some s then load o else 0 else 0 := by
  induction os generalizing pre p with
  | nil => simp [excessLoadFrom, survivor]
  | cons o os ih =>
    rw [excessLoadFrom, BinaryExpr.value_binaryMin ht hp value_isAssigned,
      ih (BinaryExpr.value_binaryMin ht hp value_inDisasterGroup), survivor, survivor, find?_cons]
    cases p with
    | false => simp
    | true =>
      cases ho : d.inside group a o with
      | false => simp
      | true =>
        have hn : d.getScopeItemId (a o) ≠ some s := by
          intro h
          rw [inside, h] at ho
          exact hs (of_decide_eq_true ho)
        simp [hn]

theorem getExcessLoad_eq : d.getExcessLoad group s a =
      (d.primaryToSetOfSecondaryObjects.map (d.takenOver group s a (d.load · s))).sum := by
  rw [getExcessLoad, if_neg hs]
  congr 2
  funext e
  exact excessLoadFrom_eq ht hs _ value_inDisasterGroup e.2

end

theorem exists_sharedDisasterGroup (hs : s ∈ d.scopeItemIds) :
    ∃ group ∈ d.sharedDisasterGroups, s ∈ group := by
  by_cases h : d.disasterGroups.any (s ∈ ·) = true
  · obtain ⟨group, hg, hm⟩ := any_eq_true.mp h
    exact ⟨group, mem_append_left _ hg, of_decide_eq_true hm⟩
  · refine ⟨[s], mem_append_right _ (mem_map.mpr ⟨s, ?_, rfl⟩), mem_singleton_self s⟩
    exact mem_filter.mpr ⟨hs, by simpa using h⟩

theorem getMaxDisasterUsage_eq (ht : d.precision.isStrictlyGtZero 1 = true)
    (hs : s ∈ d.scopeItemIds) : d.getMaxDisasterUsage s a = some
    ((d.takeovers s a).foldl max 0) := by
  have hx : (0 :: d.takeovers s a).max? = some ((d.takeovers s a).foldl max 0) := rfl
  rw [max?_eq_some_iff] at hx
  rw [getMaxDisasterUsage, max?_eq_some_iff]
  obtain ⟨hm, hle⟩ := hx
  apply And.intro
  · rcases mem_cons.mp hm with h0 | hm
    · obtain ⟨group, hg, hin⟩ := exists_sharedDisasterGroup hs
      exact mem_map.mpr ⟨group, hg, by rw [h0, getExcessLoad, if_pos hin]⟩
    · obtain ⟨group, hg, heq⟩ := mem_map.mp hm
      obtain ⟨hg, hn⟩ := mem_filter.mp hg
      exact mem_map.mpr ⟨group, hg, (getExcessLoad_eq ht (of_decide_eq_true hn)).trans heq⟩
  · intro x hx
    obtain ⟨group, hg, rfl⟩ := mem_map.mp hx
    by_cases hin : s ∈ group
    · rw [getExcessLoad, if_pos hin]
      exact hle 0 mem_cons_self
    · rw [getExcessLoad_eq ht hin]
      exact hle _ (mem_cons_of_mem _ (mem_map.mpr
        ⟨group, mem_filter.mpr ⟨hg, decide_eq_true hin⟩, rfl⟩))

/-- The usage is the primary load and the most that is taken over in a disaster elsewhere. -/
theorem getTotalDisasterUsage_eq (d : DisasterRecovery)
    (ht : d.precision.isStrictlyGtZero 1 = true) (a : Assignment) :
    (∀ s ∈ d.scopeItemIds, d.getTotalDisasterUsage s a =
      some (d.getPrimaryUsage s a + (d.takeovers s a).foldl max 0)) ∧
    ∀ group, ∀ e ∈ d.primaryToSetOfSecondaryObjects, ∑ s ∈ d.scopeItemIds.toFinset with s ∉ group,
        d.excessLoadFrom group s a (fun _ => 1) (d.inDisasterGroup group e.1) e.2 ≤ 1 := by
  apply And.intro
  · intro s hs
    rw [getTotalDisasterUsage, getMaxDisasterUsage_eq ht hs, Option.map_some]
  · intro group e _
    rw [Finset.sum_congr rfl fun s hs =>
      excessLoadFrom_eq ht (Finset.mem_filter.mp hs).2 _ value_inDisasterGroup e.2]
    cases d.inside group a e.1 with
    | false => simp
    | true =>
      cases d.survivor group a e.2 with
      | none => simp
      | some o =>
        cases hs : d.getScopeItemId (a o) with
        | none => simp [hs]
        | some s' =>
          simp only [if_true, Option.elim_some, hs, Option.some.injEq, Finset.sum_ite_eq]
          split_ifs
          · exact le_rfl
          · exact zero_le_one

def negativeLoad : DisasterRecovery where
  precision := defaultTolerances
  scopeItemIds := [0, 1]
  getContainerIds s := [0, 1].filter (· = s)
  getScopeItemId c := if c ∈ [0, 1] then some c else none
  disasterGroups := []
  primaryToSetOfSecondaryObjects := [(0, [1])]
  load _ _ := -1
  mem_getContainerIds s c := by simp

theorem negativeLoad_usage : negativeLoad.getTotalDisasterUsage 0 (fun o => 1 - o) = some 0 ∧
    negativeLoad.getPrimaryUsage 0 (fun o => 1 - o) = 0 ∧
    (negativeLoad.takeovers 0 fun o => 1 - o).max? = some (-1) := by
  decide +kernel

theorem negativeLoad_getTotalDisasterUsage : negativeLoad.getTotalDisasterUsage 0 (fun o => 1 - o) =
      some (negativeLoad.getPrimaryUsage 0 (fun o => 1 - o) +
        (negativeLoad.takeovers 0 fun o => 1 - o).foldl max 0) :=
  (negativeLoad.getTotalDisasterUsage_eq (by decide +kernel) _).1 0 mem_cons_self

end DisasterRecovery

end Rebalancer
