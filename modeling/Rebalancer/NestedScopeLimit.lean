import Rebalancer.ExceptLoops
import Rebalancer.ObjectValues
import Rebalancer.Table

namespace Rebalancer
open List Except Table

inductive NestedScopeFault where
  | thrown (message : String)
  | unsetOptional
  deriving DecidableEq

/-- What the builder reads: the containers of the inner items, the outer scope, the filtered inner
items and their limits. -/
structure NestedScopeLimit where
  getContainerIds : ScopeItemId → List ContainerId
  outerScope : Scope
  scopeName : String
  outerScopeName : String
  getEntityName : ScopeItemId → String
  filtered : List ScopeItemId
  getLimit : ScopeItemId → ℚ

structure RelativeLimit where
  innerScopeItem : ScopeItemId
  limit : ℚ
  outerScopeItem : ScopeItemId
  deriving DecidableEq

namespace NestedScopeLimit

def visitContainer (n : NestedScopeLimit) (outerScopeItem : Option ScopeItemId) (c : ContainerId) :
    Except NestedScopeFault (Option ScopeItemId) :=
  match n.outerScope.getScopeItemId c, outerScopeItem with
  | none, _ => .ok outerScopeItem
  | some o, none => .ok (some o)
  | some o, some o' =>
    if o' ≠ o then .error (.thrown "inner and outer scopes must be nested")
    else .ok outerScopeItem

def getOuterScopeItem (n : NestedScopeLimit) (i : ScopeItemId) :
    Except NestedScopeFault ScopeItemId := do
  match ← (n.getContainerIds i).foldlM n.visitContainer none with
  | some o => .ok o
  | none => .error .unsetOptional

def getInnerToOuterScopeMapping (n : NestedScopeLimit) :
    List ScopeItemId → Table ScopeItemId ScopeItemId →
      Except NestedScopeFault (Table ScopeItemId ScopeItemId)
  | [], mapping => .ok mapping
  | i :: items, mapping => do
    let o ← n.getOuterScopeItem i
    n.getInnerToOuterScopeMapping items (mapping.emplace i o)

section
variable (n : NestedScopeLimit)

def constraint (mapping : Table ScopeItemId ScopeItemId) (i : ScopeItemId) :
    Except NestedScopeFault RelativeLimit :=
  match mapping i with
  | some o => .ok ⟨i, n.getLimit i, o⟩
  | none =>
    let name := n.getEntityName i
    let inner := n.scopeName
    let outer := n.outerScopeName
    .error (.thrown
      s!"Unable to map item {name} of inner scope {inner} to an item of outer scope {outer}")

def constraints : Except NestedScopeFault (List RelativeLimit) := do
  let mapping ← n.getInnerToOuterScopeMapping n.filtered new
  n.filtered.mapM (n.constraint mapping)

def outers (i : ScopeItemId) : List ScopeItemId :=
  (n.getContainerIds i).filterMap n.outerScope.getScopeItemId

def Crosses (i : ScopeItemId) : Prop := ∃ o ∈ n.outers i, ∃ o' ∈ n.outers i, o ≠ o'

end

/-- The constraint of `i` is relative to an outer item with every container of `i` that the outer
scope has. -/
structure Relative (n : NestedScopeLimit) (i : ScopeItemId) (r : RelativeLimit) : Prop where
  inner : r.innerScopeItem = i
  limit : r.limit = n.getLimit i
  outer : r.outerScopeItem ∈ n.outers i
  contains : ∀ c ∈ n.getContainerIds i, (n.outerScope.getScopeItemId c).isSome →
    n.outerScope.getScopeItemId c = some r.outerScopeItem

/-- Every filtered item is limited relative to its outer item, or the builder throws. -/
structure Right (n : NestedScopeLimit) : Prop where
  never : n.constraints ≠ .error .unsetOptional
  relative : ∀ rs, n.constraints = .ok rs → Forall₂ n.Relative n.filtered rs
  throws : ∀ i ∈ n.filtered, n.outers i = [] ∨ n.Crosses i →
    ∃ message, n.constraints = .error (.thrown message)

/-- No item without a container in the outer scope comes before the first crossing item. -/
def Reached (n : NestedScopeLimit) : List ScopeItemId → Prop
  | [] => True
  | i :: items => n.outers i ≠ [] ∧ (n.Crosses i ∨ n.Reached items)

variable {n : NestedScopeLimit}

def settle : List ScopeItemId → Except NestedScopeFault ScopeItemId
  | [] => .error .unsetOptional
  | o :: os =>
    if ∀ o' ∈ os, o' = o then .ok o
    else .error (.thrown "inner and outer scopes must be nested")

theorem foldlM_visitContainer_some (o : ScopeItemId) (cs : List ContainerId) :
    cs.foldlM n.visitContainer (some o) =
      (settle (o :: cs.filterMap n.outerScope.getScopeItemId)).map some := by
  induction cs with
  | nil => rfl
  | cons c cs ih =>
    cases hc : n.outerScope.getScopeItemId c with
    | none =>
      simp only [foldlM_cons, visitContainer, hc, filterMap_cons_none hc]
      exact ih
    | some o' =>
      simp only [foldlM_cons, visitContainer, hc, filterMap_cons_some hc]
      by_cases h : o = o'
      · subst h
        rw [if_neg (not_not.mpr rfl), settle]
        simp only [forall_mem_cons, true_and]
        exact ih
      · rw [if_pos h, settle, if_neg fun ha => h (ha o' mem_cons_self).symm]
        rfl

theorem getOuterScopeItem_eq (n : NestedScopeLimit) (i : ScopeItemId) :
    n.getOuterScopeItem i = settle (n.outers i) := by
  rw [getOuterScopeItem, outers]
  induction n.getContainerIds i with
  | nil => rfl
  | cons c cs ih =>
    cases hc : n.outerScope.getScopeItemId c with
    | none =>
      simp only [foldlM_cons, visitContainer, hc, filterMap_cons_none hc]
      exact ih
    | some o =>
      simp only [foldlM_cons, visitContainer, hc, filterMap_cons_some hc, except_ok_bind,
        foldlM_visitContainer_some]
      cases settle (o :: cs.filterMap n.outerScope.getScopeItemId) with
      | error e => rfl
      | ok o' => rfl

theorem getInnerToOuterScopeMapping_eq (is : List ScopeItemId) (m : Table ScopeItemId ScopeItemId) :
    n.getInnerToOuterScopeMapping is m = (is.mapM n.getOuterScopeItem).map fun _ j =>
      (m j).or (if j ∈ is then (n.getOuterScopeItem j).toOption else none) := by
  induction is generalizing m with
  | nil => simp [getInnerToOuterScopeMapping, Except.map, pure, Except.pure]
  | cons i is ih =>
    rw [getInnerToOuterScopeMapping, mapM_cons]
    cases h : n.getOuterScopeItem i with
    | error e => rfl
    | ok o =>
      have hs : (fun j => ((m.emplace i o) j).or
            (if j ∈ is then (n.getOuterScopeItem j).toOption else none)) =
          fun j => (m j).or (if j ∈ i :: is then (n.getOuterScopeItem j).toOption else none) := by
        funext j
        by_cases hj : j = i
        · subst hj
          rw [emplace_self, if_pos mem_cons_self, h]
          cases m j with
          | none => rfl
          | some q => rfl
        · simp only [emplace_of_ne hj, mem_cons, hj, false_or]
      rw [except_ok_bind, ih, hs]
      cases is.mapM n.getOuterScopeItem with
      | error e => rfl
      | ok os => rfl

theorem relative_of_settle (h : n.getOuterScopeItem i = .ok o) :
    n.Relative i ⟨i, n.getLimit i, o⟩ ∧ n.outers i ≠ [] ∧ ¬ n.Crosses i := by
  rw [getOuterScopeItem_eq] at h
  cases hos : n.outers i with
  | nil =>
    rw [hos] at h
    nomatch h
  | cons p os =>
    rw [hos, settle] at h
    split at h
    case isFalse => nomatch h
    case isTrue hall =>
      have hall : ∀ q ∈ n.outers i, q = o := by
        rw [hos, ← ok.inj h]
        exact forall_mem_cons.mpr ⟨rfl, hall⟩
      have hp : p ∈ n.outers i := hos ▸ mem_cons_self
      refine ⟨⟨rfl, rfl, hall p hp ▸ hp, fun c hc hs => ?_⟩, cons_ne_nil p os, ?_⟩
      · obtain ⟨q, hq⟩ := Option.isSome_iff_exists.mp hs
        rw [hq, hall q (mem_filterMap.mpr ⟨c, hc, hq⟩)]
      · intro ⟨a, ha, b, hb, hab⟩
        exact hab ((hall a ha).trans (hall b hb).symm)

theorem mapM_getOuterScopeItem_cases (n : NestedScopeLimit) (items : List ScopeItemId) :
    items.mapM n.getOuterScopeItem = .error .unsetOptional ∧ ¬ n.Reached items ∨
      (∃ message, items.mapM n.getOuterScopeItem = .error (.thrown message)) ∧ n.Reached items ∨
      (∃ os, items.mapM n.getOuterScopeItem = .ok os) ∧ n.Reached items := by
  induction items with
  | nil => exact .inr (.inr ⟨⟨[], rfl⟩, trivial⟩)
  | cons i items ih =>
    rw [mapM_cons, Reached]
    cases h : n.getOuterScopeItem i with
    | ok o =>
      obtain ⟨-, hne, hn⟩ := relative_of_settle h
      simp only [hne, hn, ne_eq, not_false_eq_true, true_and, false_or, except_ok_bind]
      rcases ih with ⟨h, hr⟩ | ⟨⟨message, h⟩, hr⟩ | ⟨⟨os, h⟩, hr⟩
      · exact .inl ⟨by rw [h]; rfl, hr⟩
      · exact .inr (.inl ⟨⟨message, by rw [h]; rfl⟩, hr⟩)
      · exact .inr (.inr ⟨⟨o :: os, by rw [h]; rfl⟩, hr⟩)
    | error e =>
      rw [getOuterScopeItem_eq] at h
      cases hos : n.outers i with
      | nil =>
        rw [hos] at h
        exact .inl ⟨by rw [← error.inj h]; rfl, fun hr => hr.1 rfl⟩
      | cons o os =>
        rw [hos, settle] at h
        split at h
        case isTrue => nomatch h
        case isFalse ha =>
          push Not at ha
          obtain ⟨o', ho', hne⟩ := ha
          refine .inr (.inl ⟨⟨_, by rw [← error.inj h]; rfl⟩, cons_ne_nil o os, .inl ?_⟩)
          exact ⟨o', hos ▸ mem_cons_of_mem o ho', o, hos ▸ mem_cons_self, hne⟩

/-- The mapping is read unset exactly when an item outside comes before one that crosses two items.
-/
theorem right_iff (n : NestedScopeLimit) : n.Right ↔ n.Reached n.filtered := by
  have hrun := getInnerToOuterScopeMapping_eq (n := n) n.filtered new
  rcases n.mapM_getOuterScopeItem_cases n.filtered with ⟨h, hr⟩ | ⟨⟨m, h⟩, hr⟩ | ⟨⟨os, h⟩, hr⟩
  · rw [h] at hrun
    exact iff_of_false (fun hn => hn.never (by rw [constraints, hrun]; rfl)) hr
  · rw [h] at hrun
    have ht : n.constraints = .error (.thrown m) := by rw [constraints, hrun]; rfl
    apply iff_of_true _ hr
    exact ⟨by simp [ht], by simp [ht], fun _ _ _ => ⟨m, ht⟩⟩
  · rw [h] at hrun
    let k := fun i => (⟨i, n.getLimit i, ((n.getOuterScopeItem i).toOption).getD 0⟩ : RelativeLimit)
    have hok : n.constraints = .ok (n.filtered.map k) := by
      rw [constraints, hrun]
      apply mapM_ok
      intro i hi
      obtain ⟨o, ho⟩ := mem_of_mapM_ok h i hi
      simp only [constraint, new, hi, if_true, ho, k]
      rfl
    apply iff_of_true _ hr
    refine ⟨by simp [hok], fun rs hrs => ?_, fun i hi hb => ?_⟩
    · rw [hok] at hrs
      rw [← ok.inj hrs, forall₂_map_right_iff, forall₂_same]
      intro i hi
      obtain ⟨o, ho⟩ := mem_of_mapM_ok h i hi
      simp only [k, ho]
      exact (relative_of_settle ho).1
    · obtain ⟨o, ho⟩ := mem_of_mapM_ok h i hi
      obtain ⟨-, hne, hnot⟩ := relative_of_settle ho
      exact absurd hb (not_or.mpr ⟨hne, hnot⟩)

def rackOutsideRegions : NestedScopeLimit :=
  ⟨fun _ => [0, 1], ⟨[0], fun c => if c = 2 then some 0 else none⟩, "rack", "region",
    fun _ => "rack0", [0], fun _ => 1⟩

theorem rackOutsideRegions_not_right :
    rackOutsideRegions.constraints = .error .unsetOptional ∧ ¬ rackOutsideRegions.Right := by
  have h : rackOutsideRegions.constraints = .error .unsetOptional := rfl
  exact ⟨h, fun hn => hn.never h⟩

end NestedScopeLimit

end Rebalancer
