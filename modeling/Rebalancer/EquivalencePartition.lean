import Rebalancer.EquivalenceClasses

namespace Rebalancer
open List MergeCall

namespace EquivalenceSets

/-- The sets and the table describe one partition of the objects below `n` into non-empty
classes. -/
structure IsPartition (n : Nat) (eq : EquivalenceSets) : Prop where
  assigned : ∀ o, o < n → ∃ i, eq.setAt o = .ok i
  mem_iff : ∀ i o, o ∈ eq.getSet i ↔ eq.setAt o = .ok i
  nonempty : ∀ s ∈ eq.sets, s.Nonempty
  inRange : ∀ s ∈ eq.sets, ∀ o ∈ s, o < n
variable {eq : EquivalenceSets}

theorem setAt_eq_ok : eq.setAt o = .ok i ↔ eq.objectIdToSetId o = some i := by
  rw [setAt]
  cases eq.objectIdToSetId o with
  | none => simp
  | some j => simp

theorem mem_sets_iff : s ∈ eq.sets ↔ ∃ i < eq.sets.length, eq.getSet i = s := by
  rw [mem_iff_getElem]
  refine exists_congr ?_
  intro i
  constructor
  · rintro ⟨hi, he⟩
    exact ⟨hi, by rw [getSet, getD_eq_getElem _ _ hi, he]⟩
  · rintro ⟨hi, he⟩
    exact ⟨hi, by rw [← he, getSet, getD_eq_getElem _ _ hi]⟩

theorem Valid.isPartition (h : eq.Valid) (ha : ∀ o, o < n → eq.objectIdToSetId o ≠ none)
    (hr : ∀ o, eq.objectIdToSetId o ≠ none → o < n) : eq.IsPartition n where
  assigned o ho := by
    obtain ⟨i, hi⟩ := Option.ne_none_iff_exists'.mp (ha o ho)
    exact ⟨i, setAt_eq_ok.mpr hi⟩
  mem_iff i o := by rw [h.mem_iff, setAt_eq_ok]
  nonempty := h.nonempty
  inRange s hs o ho := by
    obtain ⟨i, -, rfl⟩ := mem_sets_iff.mp hs
    refine hr o ?_
    rw [(h.mem_iff i o).mp ho]
    exact Option.some_ne_none i

theorem Inv.all_assigned (h : eq.Inv n) :
    n = eq.seenObjects ↔ ∀ o, o < n → eq.objectIdToSetId o ≠ none := by
  rw [h.seen, eq_comm]
  have hcard := Finset.card_filter_eq_iff (s := Finset.range n)
    (p := fun o => eq.objectIdToSetId o ≠ none)
  rw [Finset.card_range] at hcard
  rw [hcard]
  simp

theorem Inv.finalize (h : eq.Inv n) : (eq.finalize n).IsPartition n ∧ ∀ a b, a < n → b < n →
      ((eq.finalize n).setAt a = (eq.finalize n).setAt b ↔ Together eq.combined a b) := by
  have hs : ∀ eq' : EquivalenceSets, eq'.IsPartition n →
      (∀ a b, a < n → b < n → (eq'.objectIdToSetId a = eq'.objectIdToSetId b ↔
        eq.objectIdToSetId a = eq.objectIdToSetId b)) →
      ∀ a b, a < n → b < n → (eq'.setAt a = eq'.setAt b ↔ Together eq.combined a b) := by
    intro eq' hp ht a b ha hb
    obtain ⟨i, hi⟩ := hp.assigned a ha
    rw [← h.together a b, ← ht a b ha hb, hi, setAt_eq_ok.mp hi, eq_comm, setAt_eq_ok, eq_comm]
  rw [EquivalenceSets.finalize]
  split_ifs with hn
  · have hp := h.toValid.isPartition (h.all_assigned.mp hn) h.inRange
    exact ⟨hp, hs eq hp fun _ _ _ _ => Iff.rfl⟩
  · generalize hu : ((range n).filter fun o => (eq.objectIdToSetId o).isNone) = unseen
    have hmem : ∀ o, o ∈ unseen ↔ o < n ∧ eq.objectIdToSetId o = none := by
      intro o
      rw [← hu, mem_filter, mem_range, Option.isNone_iff_eq_none]
    have hne : unseen ≠ [] := by
      intro he
      refine hn (h.all_assigned.mpr ?_)
      intro o ho hnone
      have hm := (hmem o).mpr ⟨ho, hnone⟩
      rw [he] at hm
      cases hm
    have hv := h.toValid.addToNewSet hne fun o ho => ((hmem o).mp ho).2
    have hp : (eq.addToNewSet unseen).IsPartition n := by
      refine hv.isPartition ?_ ?_
      · intro o ho
        rw [addToNewSet_table]
        split_ifs with hno
        · exact Option.some_ne_none _
        · exact fun hnone => hno ((hmem o).mpr ⟨ho, hnone⟩)
      · intro o ho
        rw [addToNewSet_table] at ho
        split_ifs at ho with hm
        · exact ((hmem o).mp hm).1
        · exact h.inRange o ho
    have hp' : IsPartition n { eq.addToNewSet unseen with seenObjects := n } := { hp with }
    refine ⟨hp', hs _ hp' ?_⟩
    intro a b ha hb
    have hsplit := addToNewSet_splits h.toValid fun o ho => ((hmem o).mp ho).2
    refine (hsplit a b).trans (and_iff_left_of_imp ?_)
    intro he
    simp [hmem, ha, hb, he]

theorem IsPartition.mem_sets (h : eq.IsPartition n) :
    s ∈ eq.sets ↔ ∃ a < n, ∀ b, b ∈ s ↔ b < n ∧ eq.setAt b = eq.setAt a := by
  constructor
  · intro hs
    obtain ⟨a, ha⟩ := h.nonempty s hs
    refine ⟨a, h.inRange s hs a ha, ?_⟩
    obtain ⟨i, -, rfl⟩ := mem_sets_iff.mp hs
    intro b
    rw [h.mem_iff, (h.mem_iff i a).mp ha]
    exact ⟨fun hb => ⟨h.inRange _ hs b ((h.mem_iff i b).mpr hb), hb⟩, And.right⟩
  · rintro ⟨a, ha, hs⟩
    obtain ⟨i, hi⟩ := h.assigned a ha
    have hset : eq.getSet i = s := by
      ext b
      rw [h.mem_iff, hs, hi]
      refine ⟨fun hb => ⟨?_, hb⟩, And.right⟩
      have hbi := (h.mem_iff i b).mpr hb
      refine h.inRange (eq.getSet i) ?_ b hbi
      refine mem_sets_iff.mpr ⟨i, ?_, rfl⟩
      by_contra hlen
      rw [getSet, getD_eq_default _ _ (Nat.le_of_not_lt hlen)] at hbi
      exact Finset.notMem_empty b hbi
    refine mem_sets_iff.mpr ⟨i, ?_, hset⟩
    by_contra hlen
    have hai := (h.mem_iff i a).mpr hi
    rw [getSet, getD_eq_default _ _ (Nat.le_of_not_lt hlen)] at hai
    exact Finset.notMem_empty a hai

variable {u : Universe partitions}

/-- Calls on behalf of the same expression hand over the same mapping. -/
def ExprsAgree (calls : List (MergeCall u)) : Prop :=
  ∀ c ∈ calls, ∀ c' ∈ calls, ∀ id, c.exprId? = some id → c'.exprId? = some id → c.inputs = c'.inputs

def exprInputsOf (calls : List (MergeCall u)) (id : ExprId) : List (List ObjectId) :=
  ((calls.find? fun c => c.exprId? = some id).map inputs).getD []

theorem ExprsAgree.exprInputsOf {id : ExprId} (h : ExprsAgree cs) (hc : c ∈ cs)
    (hid : c.exprId? = some id) : exprInputsOf cs id = c.inputs := by
  rw [EquivalenceSets.exprInputsOf]
  cases hf : cs.find? fun c => c.exprId? = some id with
  | none =>
    have hnone := find?_eq_none.mp hf c hc
    exact absurd (decide_eq_true hid) hnone
  | some c' =>
    have hfound := find?_some hf
    exact h c' (mem_of_find?_eq_some hf) c hc id (of_decide_eq_true hfound) hid

theorem mem_combined_of_agree {cs : List (MergeCall u)} (h : ExprsAgree cs) :
    s ∈ (cs.foldl run .new).combined ↔ ∃ c ∈ cs, s ∈ c.inputs := by
  have hr := calls_called (exprInputsOf cs) cs .new .new (by
    intro c hc id hid s hs
    rwa [h.exprInputsOf hc hid] at hs)
  rw [← mem_flatMap]
  constructor
  · intro hs
    rcases hr.only s hs with hs | hs
    · cases hs
    · exact hs
  · refine hr.covers ?_ s
    intro c hc id hid s hs
    rwa [h.exprInputsOf hc hid]

theorem foldl_run_spec (cs : List (MergeCall u)) :
    (∀ s ∈ (cs.foldl run .new).combined, ∃ c ∈ cs, s ∈ c.inputs) ∧
    ((∀ call ∈ cs, call.Distinct) → (cs.foldl run .new).Inv u.numObjects) := by
  have hr := calls_called (fun _ => []) cs .new .new (by
    intro c _ id _ s hs
    cases hs)
  constructor
  · intro s hs
    exact mem_flatMap.mp ((hr.only s hs).resolve_left not_mem_nil)
  · intro h
    refine hr.inv _ ?_ (.new _)
    intro s hs
    obtain ⟨call, hc, hs⟩ := mem_flatMap.mp hs
    exact h call hc s hs

/-- Two objects share a class exactly when no input of `combine` contained one without the other;
the inputs are those of the calls, all of them where an expression always hands over the same. -/
theorem finalize_partition (calls : List (MergeCall u)) (hcalls : ∀ call ∈ calls, call.Distinct) :
    let eq := calls.foldl run .new
    (eq.finalize u.numObjects).IsPartition u.numObjects ∧
      (∀ a b, a < u.numObjects → b < u.numObjects →
        ((eq.finalize u.numObjects).setAt a = (eq.finalize u.numObjects).setAt b ↔
          ∀ input ∈ eq.combined, (a ∈ input ↔ b ∈ input))) ∧
      (∀ input ∈ eq.combined, ∃ call ∈ calls, input ∈ call.inputs) ∧
      (ExprsAgree calls → ∀ call ∈ calls, ∀ input ∈ call.inputs, input ∈ eq.combined) ∧
      ∀ calls' : List (MergeCall u), calls'.Perm calls → ExprsAgree calls →
        ((calls'.foldl run .new).finalize u.numObjects).sets.toFinset =
          (eq.finalize u.numObjects).sets.toFinset := by
  intro eq
  obtain ⟨hp, hclass⟩ := ((foldl_run_spec calls).2 hcalls).finalize
  refine ⟨hp, hclass, (foldl_run_spec calls).1, fun ha call hc input hi =>
    (mem_combined_of_agree ha).mpr ⟨call, hc, hi⟩, ?_⟩
  intro calls' hperm hagree
  have ha' : ExprsAgree calls' := by
    intro c hc c' hc'
    exact hagree c (hperm.mem_iff.mp hc) c' (hperm.mem_iff.mp hc')
  obtain ⟨hp', hclass'⟩ := ((foldl_run_spec calls').2 fun c hc =>
    hcalls c (hperm.mem_iff.mp hc)).finalize
  have hmem : ∀ s, s ∈ (calls'.foldl run .new).combined ↔ s ∈ eq.combined := by
    intro s
    rw [mem_combined_of_agree ha', mem_combined_of_agree hagree]
    simp [hperm.mem_iff]
  have hs : ∀ a b, a < u.numObjects → b < u.numObjects →
      (((calls'.foldl run .new).finalize u.numObjects).setAt b =
          ((calls'.foldl run .new).finalize u.numObjects).setAt a ↔
        (eq.finalize u.numObjects).setAt b = (eq.finalize u.numObjects).setAt a) := by
    intro a b ha hb
    rw [hclass' b a hb ha, hclass b a hb ha, Together, Together]
    simp only [hmem]
    rfl
  ext s
  rw [mem_toFinset, mem_toFinset, hp'.mem_sets, hp.mem_sets]
  refine exists_congr fun a => and_congr_right fun ha => forall_congr' fun b => ?_
  refine iff_congr Iff.rfl (and_congr_right fun hb => ?_)
  exact hs a b ha hb

end EquivalenceSets

def triplePartition : Partition := ⟨[(0, [0, 1, 2])], by decide⟩

def fiveObjects : Universe [triplePartition] where
  precision := defaultTolerances
  numObjects := 5
  dimension _ := .static []
  scope _ := ⟨[], fun _ => none⟩
  inRange := by decide

def fiveObjectsCalls : List (MergeCall fiveObjects) :=
  [.combine [0, 1], .group 0 0, .exprMapping 7 [(3, true), (1, false)], .group 0 0]

theorem fiveObjectsCalls_distinct : ∀ call ∈ fiveObjectsCalls, call.Distinct := by
  simp only [fiveObjectsCalls, forall_mem_cons, Distinct, inputs]
  decide

theorem fiveObjectsCalls_partition : ((fiveObjectsCalls.foldl run .new).finalize 5).IsPartition 5 ∧
      ((fiveObjectsCalls.foldl run .new).finalize 5).sets = [{0}, {2}, {3}, {1}, {4}] ∧
      ((fiveObjectsCalls.reverse.foldl run .new).finalize 5).sets.toFinset =
        {{0}, {1}, {2}, {3}, {4}} := by
  obtain ⟨hp, -, -, -, hperm⟩ :=
    EquivalenceSets.finalize_partition fiveObjectsCalls fiveObjectsCalls_distinct
  have hs : ((fiveObjectsCalls.foldl run .new).finalize 5).sets =
      [{0}, {2}, {3}, {1}, {4}] := by decide
  refine ⟨hp, hs, (hperm _ (reverse_perm _) ?_).trans ?_⟩
  · simp [EquivalenceSets.ExprsAgree, fiveObjectsCalls, exprId?]
  · change ((fiveObjectsCalls.foldl run .new).finalize 5).sets.toFinset = _
    decide

end Rebalancer
