import Rebalancer.ExpressionNodes
import Rebalancer.MapTotals

namespace Rebalancer
open List AList AssocMap LinearTerms
open Option hiding map_map or_assoc

def exactTolerances : PrecisionTolerances := ⟨0, 0⟩

theorem exactTolerances_snapToZero (v : ℚ) : exactTolerances.snapToZero v = v :=
  if_neg (not_lt.mpr (abs_nonneg v))

structure LinearSum extends LinearTerms where
  collection : AssocMap ExprId ℚ
  initialValue : ℚ

namespace LinearSum
variable (t : PrecisionTolerances) (initial : ExprId → ℚ)

section
variable (s : LinearSum)

def computeValue : ℚ := t.snapToZero (s.constant + s.collection.values.sum)

def setInitialValue : LinearSum := { s with initialValue := s.computeValue t }

def collect (child : ExprId) : LinearSum :=
  { s with collection := s.collection.insert child (initial child * s.getChildCoefficient child) }

def rebuildInitialValueFrom (exprs : List ExprId) : LinearSum :=
  (exprs.foldl (collect initial) s).setInitialValue t

def addWeight (entry : ExprId × ℚ) : LinearSum :=
  if entry.2 = 0 then s
  else
    { s with
      children := s.children.insert entry.1
      coefficients := s.coefficients.emplace entry.1 entry.2
      allCoeffsOne := s.allCoeffsOne && decide (entry.2 = 1) }

end

def new (constant : ℚ) (coef : AssocMap ExprId ℚ) : LinearSum :=
  let s := (coef.entries.map fun e => (e.1, e.2)).foldl addWeight
    ⟨⟨constant, .empty, ∅, true⟩, ∅, 0⟩
  s.rebuildInitialValueFrom t initial s.children.elems

def addCoefficient (s : LinearTerms) (coef : AssocMap ExprId ℚ) (child : ExprId) :
    AssocMap ExprId ℚ :=
  coef.insert child (coef.getD child 0 + s.getChildCoefficient child)

def plus (s other : LinearTerms) : LinearSum := new t initial (s.constant + other.constant)
    (other.children.elems.foldl (addCoefficient other)
      (s.children.elems.foldl (addCoefficient s) ∅))

def setCoefficient (s : LinearTerms) (c : ℚ) (coef : AssocMap ExprId ℚ) (child : ExprId) :
    AssocMap ExprId ℚ :=
  coef.insert child (s.getChildCoefficient child * c)

def times (s : LinearTerms) (c : ℚ) : LinearSum :=
  new t initial (s.constant * c) (s.children.elems.foldl (setCoefficient s c) ∅)

def combineChild (other : LinearTerms) (scale : ℚ) (s : LinearSum) (child : ExprId) : LinearSum :=
  let newCoeff := s.coefficients.getD child 0 + other.getChildCoefficient child * scale
  { s with
    children := s.children.insert child
    coefficients := s.coefficients.insert child newCoeff
    allCoeffsOne := s.allCoeffsOne && decide (newCoeff = 1) }

variable (s : LinearSum)

def combine (other : LinearTerms) (scale : ℚ) : LinearSum :=
  (other.children.elems.foldl (combineChild other scale)
    { s with constant := s.constant + other.constant * scale }).rebuildInitialValueFrom t initial
      other.children.elems

def plusConstant (c : ℚ) : LinearSum := { s with constant := s.constant + c }.setInitialValue t

def add (expr : ExprId) (coef : ℚ) : LinearSum := { s with
    children := s.children.insert expr
    coefficients := s.coefficients.emplace expr coef
    allCoeffsOne := s.allCoeffsOne && decide (coef = 1)
    collection := s.collection.insert expr (initial expr * coef) }.setInitialValue t

end LinearSum

def LinearTerms.eval (s : LinearTerms) (v : ExprId → ℚ) : ℚ :=
  s.constant + (s.children.elems.map fun c => s.getChildCoefficient c * v c).sum

structure LinearTerms.Tabled (s : LinearTerms) : Prop where
  mem_iff : ∀ c, c ∈ s.children ↔ c ∈ s.coefficients
  ones : s.allCoeffsOne = true → ∀ c w, s.coefficients.lookup c = some w → w = 1

namespace LinearTerms
variable {s : LinearTerms}

theorem innerFullApply_exact (s : LinearTerms) (v : ExprId → ℚ) :
    s.innerFullApply exactTolerances (fun c => .ok (v c)) = .ok (s.eval v) := by
  have ht : s.children.elems.mapM (fun child =>
      (.ok (v child * s.getChildCoefficient child) : Except String ℚ)) =
      .ok (s.children.elems.map fun c => s.getChildCoefficient c * v c) := by
    apply mapM_ok
    intro c _
    rw [mul_comm]
  simp [innerFullApply, except_ok_bind, ht, exactTolerances_snapToZero, eval]

theorem Tabled.getChildCoefficient_eq (h : s.Tabled) (hw : s.coefficients.lookup c = some w) :
    s.getChildCoefficient c = w := by
  rw [getChildCoefficient]
  split_ifs with ho
  · exact (h.ones ho c w hw).symm
  · rw [hw, getD_some]

theorem Tabled.eval_eq (h : s.Tabled) (v : ExprId → ℚ) :
    s.eval v = s.constant + s.coefficients.total fun c w => w * v c := by
  rw [eval, total_eq_sum s.children.nodup h.mem_iff]
  intro c w hw
  rw [h.getChildCoefficient_eq hw]

theorem Tabled.lookup_of_mem (h : s.Tabled) (hc : c ∈ s.children) :
    s.coefficients.lookup c = some (s.getChildCoefficient c) := by
  obtain ⟨w, hw⟩ := mem_iff_lookup.mp ((h.mem_iff c).mp hc)
  rw [hw, h.getChildCoefficient_eq hw]

end LinearTerms

namespace LinearSum
variable {initial : ExprId → ℚ} {s : LinearSum}

def put (s : LinearTerms) (child : ExprId) (w : ℚ) : LinearTerms := { s with
    children := s.children.insert child
    coefficients := s.coefficients.insert child w
    allCoeffsOne := s.allCoeffsOne && decide (w = 1) }

section
variable {s : LinearTerms} (h : s.Tabled) (child : ExprId) (w : ℚ)
include h

theorem tabled_put : (put s child w).Tabled where
  mem_iff c := by
    change c ∈ s.children.insert child ↔ c ∈ s.coefficients.insert child w
    rw [IdSet.mem_insert, mem_insert, h.mem_iff]
  ones hones c w' hw' := by
    rw [put, Bool.and_eq_true, decide_eq_true_eq] at hones
    exact forall_lookup_insert (P := fun _ w => w = 1) hones.2 (h.ones hones.1) c w' hw'

theorem eval_put (v : ExprId → ℚ) :
    (put s child w).eval v = s.eval v + (w - s.coefficients.getD child 0) * v child := by
  rw [(tabled_put h child w).eval_eq, h.eval_eq]
  have hold : ((s.coefficients.lookup child).map fun w => w * v child).getD 0 =
      s.coefficients.getD child 0 * v child := by
    rw [AssocMap.getD]
    cases s.coefficients.lookup child with
    | none => exact (zero_mul _).symm
    | some w => rfl
  change s.constant + total _ (s.coefficients.insert child w) = _
  rw [total_insert, hold]
  ring

end

structure Kept (initial : ExprId → ℚ) (s : LinearSum) : Prop where
  tabled : s.toLinearTerms.Tabled
  collected : ∀ c, s.collection.lookup c = (s.coefficients.lookup c).map (initial c * ·)
  initialValue_eq : s.initialValue = s.constant + s.collection.values.sum

theorem computeValue_exact (s : LinearSum) :
    s.computeValue exactTolerances = s.constant + s.collection.values.sum :=
  exactTolerances_snapToZero _

theorem Kept.initialValue_eq_eval (h : s.Kept initial) : s.initialValue = s.eval initial := by
  have hmem : ∀ c, c ∈ s.children ↔ c ∈ s.collection := by
    intro c
    rw [h.tabled.mem_iff, ← lookup_isSome, ← lookup_isSome, h.collected, isSome_map]
  rw [h.initialValue_eq, eval, values_sum, total_eq_sum s.children.nodup hmem]
  intro c v hv
  rw [h.collected] at hv
  obtain ⟨w, hw, hv⟩ := map_eq_some_iff.mp hv
  rw [h.tabled.getChildCoefficient_eq hw, ← hv, mul_comm]

theorem foldl_collect (initial : ExprId → ℚ) (es : List ExprId) (s : LinearSum) :
    (es.foldl (collect initial) s).toLinearTerms = s.toLinearTerms ∧
    ∀ c, (es.foldl (collect initial) s).collection.lookup c =
      if c ∈ es then some (initial c * s.getChildCoefficient c) else s.collection.lookup c := by
  refine foldl_rule (P := fun done t => toLinearTerms t = s.toLinearTerms ∧
    ∀ c, t.collection.lookup c = if c ∈ done then some (initial c * s.getChildCoefficient c)
      else s.collection.lookup c) ?_ [] s ⟨rfl, fun c => rfl⟩
  rintro child _ done t ⟨ht, hl⟩
  refine ⟨ht, ?_⟩
  intro c
  by_cases hc : c = child
  · subst hc
    rw [if_pos (mem_append_right _ (mem_singleton_self c)), ← ht]
    exact lookup_insert _
  · refine (lookup_insert_ne hc).trans ?_
    simp [hl, hc]

theorem rebuild_terms (initial : ExprId → ℚ) (s : LinearSum) (es : List ExprId) :
    (s.rebuildInitialValueFrom exactTolerances initial es).toLinearTerms = s.toLinearTerms :=
  (foldl_collect initial es s).1

theorem rebuild_kept (h : s.toLinearTerms.Tabled) (he : ∀ c ∈ es, c ∈ s.children)
    (hco : ∀ c, c ∉ es → s.collection.lookup c = (s.coefficients.lookup c).map (initial c * ·)) :
    (s.rebuildInitialValueFrom exactTolerances initial es).Kept initial := by
  obtain ⟨ht, hl⟩ := foldl_collect initial es s
  have hr := s.rebuild_terms initial es
  refine ⟨?_, ?_, ?_⟩
  · rw [hr]
    exact h
  · intro c
    rw [hr]
    refine (hl c).trans ?_
    by_cases hc : c ∈ es
    · rw [if_pos hc, h.lookup_of_mem (he c hc), map_some]
    · rw [if_neg hc, hco c hc]
  · exact computeValue_exact _

theorem addWeight_terms (s : LinearSum) (hw : e.2 ≠ 0) (hn : e.1 ∉ s.coefficients) :
    (s.addWeight e).toLinearTerms = put s.toLinearTerms e.1 e.2 := by
  rw [addWeight, if_neg hw]
  simp [emplace, if_neg hn, put]

theorem addWeight_collection (s : LinearSum) (e : ExprId × ℚ) :
    (s.addWeight e).collection = s.collection ∧ (s.addWeight e).constant = s.constant := by
  rw [addWeight]
  split
  · exact ⟨rfl, rfl⟩
  · exact ⟨rfl, rfl⟩

theorem addWeight_fresh (s : LinearSum) (hc : c ≠ e.1)
    (hn : c ∉ s.coefficients) : c ∉ (s.addWeight e).coefficients := by
  rw [addWeight]
  split
  · exact hn
  · rw [emplace]
    split
    · exact hn
    · intro hmem
      exact ((mem_insert _).mp hmem).elim hc hn

theorem foldl_addWeight (es : List (ExprId × ℚ)) : ∀ s : LinearSum, s.toLinearTerms.Tabled →
    (es.map Prod.fst).Nodup → (∀ entry ∈ es, entry.1 ∉ s.coefficients) →
    (es.foldl addWeight s).toLinearTerms.Tabled ∧ (es.foldl addWeight s).collection = s.collection ∧
    ∀ v, (es.foldl addWeight s).eval v =
      s.eval v + (es.map fun entry => entry.2 * v entry.1).sum := by
  induction es with
  | nil =>
    intro s h _ _
    exact ⟨h, rfl, fun v => (add_zero _).symm⟩
  | cons entry es ih =>
    intro s h hnodup hn
    obtain ⟨hnot, hnodup⟩ := nodup_cons.mp hnodup
    have hf := hn entry mem_cons_self
    have hs : (s.addWeight entry).toLinearTerms.Tabled ∧
        ∀ v, (s.addWeight entry).eval v = s.eval v + entry.2 * v entry.1 := by
      by_cases hw : entry.2 = 0
      · rw [addWeight, if_pos hw, hw]
        refine ⟨h, ?_⟩
        intro v
        ring
      · rw [addWeight_terms s hw hf]
        refine ⟨tabled_put h _ _, ?_⟩
        intro v
        rw [eval_put h, AssocMap.getD_of_notMem hf, sub_zero]
    obtain ⟨ht, hc, he⟩ := ih (s.addWeight entry) hs.1 hnodup (by
      intro e' he'
      apply s.addWeight_fresh _ (hn e' (mem_cons_of_mem _ he'))
      intro heq
      exact hnot (heq ▸ mem_map_of_mem he'))
    refine ⟨ht, hc.trans (s.addWeight_collection entry).1, ?_⟩
    intro v
    rw [foldl_cons, he, hs.2, map_cons, sum_cons, add_assoc]

theorem new_kept (initial : ExprId → ℚ) (c' : ℚ) (coef : AssocMap ExprId ℚ) :
    (new exactTolerances initial c' coef).Kept initial ∧
    ∀ v, (new exactTolerances initial c' coef).eval v = c' + coef.total fun c w => w * v c := by
  have he : (⟨c', .empty, ∅, true⟩ : LinearTerms).Tabled :=
    ⟨fun c => ⟨nofun, fun h => absurd h (notMem_empty c)⟩, nofun⟩
  have hnodup : ((coef.entries.map fun e => (e.1, e.2)).map Prod.fst).Nodup := by
    rw [map_map]
    exact coef.keys_nodup
  obtain ⟨ht, hcollection, heval⟩ := foldl_addWeight (coef.entries.map fun e => (e.1, e.2))
    ⟨⟨c', .empty, ∅, true⟩, ∅, 0⟩ he hnodup fun entry _ => notMem_empty _
  refine ⟨?_, ?_⟩
  · apply rebuild_kept ht fun c hc => hc
    intro c hc
    have hnone := AList.lookup_eq_none.mpr fun hmem => hc ((ht.mem_iff c).mpr hmem)
    rw [hcollection, hnone]
    rfl
  · intro v
    rw [new, rebuild_terms, heval, total, map_map]
    rw [eval, IdSet.empty, map_nil, sum_nil, add_zero, Function.comp_def]

theorem total_addCoefficient (s : LinearTerms) (v : ExprId → ℚ) (c' : List ExprId) :
    ∀ coef : AssocMap ExprId ℚ, (c'.foldl (addCoefficient s) coef).total (fun c w => w * v c) =
      (coef.total fun c w => w * v c) + (c'.map fun c => s.getChildCoefficient c * v c).sum := by
  induction c' with
  | nil =>
    intro coef
    exact (add_zero _).symm
  | cons child c' ih =>
    intro coef
    have hold : ((lookup child coef).map fun w => w * v child).getD 0 =
        coef.getD child 0 * v child := by
      rw [AssocMap.getD]
      cases lookup child coef with
      | none => exact (zero_mul _).symm
      | some w => rfl
    rw [foldl_cons, ih, addCoefficient, total_insert, hold, map_cons, sum_cons]
    ring

theorem plus_kept (initial : ExprId → ℚ) (s o : LinearTerms) :
    (plus exactTolerances initial s o).Kept initial ∧
    ∀ v, (plus exactTolerances initial s o).eval v = s.eval v + o.eval v := by
  obtain ⟨hk, he⟩ := new_kept initial (s.constant + o.constant)
    (o.children.elems.foldl (addCoefficient o) (s.children.elems.foldl (addCoefficient s) ∅))
  refine ⟨hk, ?_⟩
  intro v
  rw [plus, he, total_addCoefficient, total_addCoefficient, total_empty, eval, eval]
  ring

theorem total_setCoefficient (s : LinearTerms) (c : ℚ) (v : ExprId → ℚ) {children : List ExprId} :
    ∀ coef : AssocMap ExprId ℚ, children.Nodup → (∀ child ∈ children, child ∉ coef) →
      (children.foldl (setCoefficient s c) coef).total (fun c w => w * v c) =
        (coef.total fun c w => w * v c) +
          (children.map fun child => s.getChildCoefficient child * v child).sum * c := by
  induction children with
  | nil =>
    intro coef _ _
    rw [map_nil, sum_nil, zero_mul, add_zero]
    rfl
  | cons child children ih =>
    intro coef hnodup hn
    obtain ⟨hnot, hnodup⟩ := nodup_cons.mp hnodup
    have hf := AList.lookup_eq_none.mpr (hn child mem_cons_self)
    have hrest : ∀ c' ∈ children, c' ∉ setCoefficient s c coef child := by
      intro c' hc' hmem
      rcases (mem_insert _).mp hmem with rfl | hmem
      · exact hnot hc'
      · exact hn c' (mem_cons_of_mem _ hc') hmem
    rw [foldl_cons, ih _ hnodup hrest, setCoefficient, total_insert, hf,
      map_cons, sum_cons, map_none, getD_none]
    ring

theorem times_kept (s : LinearTerms) (c : ℚ) : (times exactTolerances initial s c).Kept initial ∧
    ∀ v, (times exactTolerances initial s c).eval v = s.eval v * c := by
  obtain ⟨hk, he⟩ := new_kept initial (s.constant * c)
    (s.children.elems.foldl (setCoefficient s c) ∅)
  refine ⟨hk, ?_⟩
  intro v
  rw [times, he, total_setCoefficient s c v ∅ s.children.nodup fun _ _ => notMem_empty _,
    total_empty, eval]
  ring

theorem foldl_combineChild (o : LinearTerms) (scale : ℚ) (c' : List ExprId) :
    ∀ s : LinearSum, s.toLinearTerms.Tabled →
      (c'.foldl (combineChild o scale) s).toLinearTerms.Tabled ∧
      (c'.foldl (combineChild o scale) s).collection = s.collection ∧
      (∀ c, c ∈ (c'.foldl (combineChild o scale) s).children ↔ c ∈ s.children ∨ c ∈ c') ∧
      (∀ c, c ∉ c' → (c'.foldl (combineChild o scale) s).coefficients.lookup c =
          s.coefficients.lookup c) ∧ ∀ v, (c'.foldl (combineChild o scale) s).eval v =
        s.eval v + (c'.map fun c => o.getChildCoefficient c * v c).sum * scale := by
  induction c' with
  | nil =>
    intro s h
    refine ⟨h, rfl, fun c => (or_iff_left (not_mem_nil)).symm, fun c _ => rfl, ?_⟩
    intro v
    rw [map_nil, sum_nil, zero_mul, add_zero]
    rfl
  | cons child c' ih =>
    intro s h
    have hs : (s.combineChild o scale child).toLinearTerms = put s.toLinearTerms child
        (s.coefficients.getD child 0 + o.getChildCoefficient child * scale) := rfl
    have ht : (s.combineChild o scale child).toLinearTerms.Tabled := by
      exact tabled_put h _ _
    obtain ⟨ht', hcollection, hmem, hl, he⟩ := ih _ ht
    refine ⟨ht', hcollection, ?_, ?_, ?_⟩
    · intro c
      rw [foldl_cons, hmem, mem_cons]
      change c ∈ s.children.insert child ∨ _ ↔ _
      rw [IdSet.mem_insert, or_assoc, or_left_comm]
    · intro c hc
      rw [foldl_cons, hl c fun hmem => hc (mem_cons_of_mem _ hmem)]
      exact lookup_insert_ne fun heq => hc (heq ▸ mem_cons_self)
    · intro v
      rw [foldl_cons, he, hs, eval_put h, map_cons, sum_cons]
      ring

variable (h : s.Kept initial)
include h

theorem combine_kept (o : LinearTerms) (scale : ℚ) :
    (s.combine exactTolerances initial o scale).Kept initial ∧
    ∀ v, (s.combine exactTolerances initial o scale).eval v = s.eval v + o.eval v * scale := by
  have hs : ({ s with constant := s.constant + o.constant * scale } :
      LinearSum).toLinearTerms.Tabled := ⟨h.tabled.mem_iff, h.tabled.ones⟩
  obtain ⟨ht, hcollection, hmem, hl, he⟩ := foldl_combineChild o scale o.children.elems _ hs
  refine ⟨?_, ?_⟩
  · apply rebuild_kept ht
    · intro c hc
      exact (hmem c).mpr (.inr hc)
    · intro c hc
      rw [hcollection, hl c hc]
      exact h.collected c
  · intro v
    rw [combine, rebuild_terms, he, eval, eval, eval]
    change s.constant + o.constant * scale +
      (s.children.elems.map fun c => s.getChildCoefficient c * v c).sum + _ = _
    ring

theorem plusConstant_kept (c : ℚ) : (s.plusConstant exactTolerances c).Kept initial ∧
    ∀ v, (s.plusConstant exactTolerances c).eval v = s.eval v + c := by
  refine ⟨⟨⟨h.tabled.mem_iff, h.tabled.ones⟩, h.collected, computeValue_exact _⟩, ?_⟩
  intro v
  change s.constant + c + (s.children.elems.map fun c => s.getChildCoefficient c * v c).sum = _
  rw [eval]
  ring

theorem add_kept (hn : expr ∉ s.children) (coef : ℚ) :
    (s.add exactTolerances initial expr coef).Kept initial ∧
    ∀ v, (s.add exactTolerances initial expr coef).eval v = s.eval v + coef * v expr := by
  have hf : expr ∉ s.coefficients := fun hmem => hn ((h.tabled.mem_iff expr).mpr hmem)
  have ht : (s.add exactTolerances initial expr coef).toLinearTerms =
      put s.toLinearTerms expr coef := by
    simp [add, setInitialValue, emplace, if_neg hf, put]
  refine ⟨⟨?_, ?_, computeValue_exact _⟩, ?_⟩
  · rw [ht]
    exact tabled_put h.tabled expr coef
  · intro c
    rw [ht]
    change (s.collection.insert expr (initial expr * coef)).lookup c =
      ((s.coefficients.insert expr coef).lookup c).map (initial c * ·)
    by_cases hc : c = expr
    · subst hc
      rw [lookup_insert, lookup_insert, map_some]
    · rw [lookup_insert_ne hc, lookup_insert_ne hc]
      exact h.collected c
  · intro v
    rw [ht, eval_put h.tabled, AssocMap.getD_of_notMem hf, sub_zero]

theorem add_again (hch : expr ∈ s.children) (coef : ℚ) :
    (∀ v, (s.add exactTolerances initial expr coef).eval v = s.eval v) ∧
    (s.add exactTolerances initial expr coef).initialValue =
      s.initialValue - s.getChildCoefficient expr * initial expr + coef * initial expr ∧
    (s.getChildCoefficient expr * initial expr = 0 → coef * initial expr = 0 →
      (s.add exactTolerances initial expr coef).Kept initial) := by
  have hl := h.tabled.lookup_of_mem hch
  have hmem : expr ∈ s.coefficients := (h.tabled.mem_iff expr).mp hch
  have hcoefficients : (s.add exactTolerances initial expr coef).coefficients =
      s.coefficients := if_pos hmem
  have ht : (s.add exactTolerances initial expr coef).toLinearTerms.Tabled := by
    refine ⟨?_, ?_⟩
    · intro c
      rw [hcoefficients, ← h.tabled.mem_iff]
      change c ∈ s.children.insert expr ↔ _
      rw [IdSet.mem_insert]
      refine ⟨?_, .inr⟩
      intro hc
      rcases hc with rfl | hc
      · exact hch
      · exact hc
    · intro ho c w hw
      rw [hcoefficients] at hw
      exact h.tabled.ones (Bool.and_eq_true _ _ ▸ ho).1 c w hw
  have hcollected := h.collected expr
  rw [hl, map_some] at hcollected
  refine ⟨?_, ?_, ?_⟩
  · intro v
    rw [ht.eval_eq, h.tabled.eval_eq, hcoefficients]
    rfl
  · have hvalue : (s.add exactTolerances initial expr coef).initialValue =
        s.constant + (values (s.collection.insert expr (initial expr * coef))).sum :=
      computeValue_exact _
    rw [hvalue, h.initialValue_eq, values_sum, values_sum, total_insert,
      hcollected, map_some, getD_some]
    ring
  · intro hold hcoef
    refine ⟨ht, ?_, computeValue_exact _⟩
    intro c
    rw [hcoefficients]
    change (s.collection.insert expr (initial expr * coef)).lookup c = _
    by_cases hc : c = expr
    · subst hc
      rw [lookup_insert, hl, map_some, mul_comm, hcoef, mul_comm, hold]
    · rw [lookup_insert_ne hc]
      exact h.collected c

end LinearSum

end Rebalancer
