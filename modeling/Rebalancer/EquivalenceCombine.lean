import Rebalancer.EquivalenceSets
import Rebalancer.ExceptLoops

namespace Rebalancer
open Finset
open List hiding disjoint_left filter_false mem_filter mem_range

theorem getD_set_self {l : List (List α)} (h : i < l.length) (v : List α) :
    (l.set i v).getD i [] = v := by
  rw [getD_eq_getElem?_getD, getElem?_set_self h, Option.getD_some]

theorem getD_set_ne {l : List α} (h : i ≠ j) (v d : α) : (l.set i v).getD j d = l.getD j d := by
  rw [getD_eq_getElem?_getD, getD_eq_getElem?_getD, getElem?_set_ne h]

structure CombineInput.Collected (objectIdToSetId : Table ObjectId Nat) (length : Nat)
    (done : List ObjectId) (acc : CombineInput) : Prop where
  bySetId : ∀ i, acc.bySetId.getD i [] = done.filter fun o => objectIdToSetId o = some i
  length_eq : acc.bySetId.length = length
  mem_ids : ∀ i, i ∈ acc.setIdsInInput ↔ ∃ o ∈ done, objectIdToSetId o = some i
  nodup_ids : acc.setIdsInInput.Nodup
  unseen : acc.unseenObjects = done.filter fun o => objectIdToSetId o = none

theorem CombineInput.Collected.push {acc : CombineInput}
    (h : acc.Collected t l done) (hit : ∀ i, t item = some i → i < l) :
    (acc.push t item).Collected t l (done ++ [item]) := by
  cases ht : t item with
  | none =>
    rw [CombineInput.push, ht]
    refine ⟨?_, h.length_eq, ?_, h.nodup_ids, ?_⟩
    · intro i
      rw [h.bySetId i]
      simp [ht]
    · intro i
      simp [h.mem_ids i, or_and_right, exists_or, ht]
    · simp [h.unseen, ht]
  | some s =>
    simp only [CombineInput.push, ht]
    have hlt := h.length_eq ▸ hit s ht
    refine ⟨?_, ?_, ?_, ?_, ?_⟩
    · intro i
      by_cases hi : s = i
      · subst hi
        rw [getD_set_self hlt, h.bySetId s]
        simp [ht]
      · rw [getD_set_ne hi, h.bySetId i]
        simp [ht, hi]
    · rw [List.length_set, h.length_eq]
    · intro i
      have hids : i ∈ (if (acc.bySetId.getD s []).isEmpty then acc.setIdsInInput ++ [s]
          else acc.setIdsInInput) ↔ i ∈ acc.setIdsInInput ∨ s = i := by
        split_ifs with hne
        · rw [List.mem_append, List.mem_singleton, eq_comm (a := i)]
        · refine ⟨Or.inl, ?_⟩
          rintro (hi | rfl)
          · exact hi
          · obtain ⟨o, ho⟩ := List.exists_mem_of_ne_nil _ (fun he => hne (List.isEmpty_iff.mpr he))
            rw [h.bySetId, List.mem_filter] at ho
            exact (h.mem_ids _).mpr ⟨o, ho.1, of_decide_eq_true ho.2⟩
      rw [hids, h.mem_ids i]
      simp [or_and_right, exists_or, ht]
    · split_ifs with he
      · refine List.nodup_append'.mpr ⟨h.nodup_ids, List.nodup_singleton s, ?_⟩
        intro i hi his
        obtain ⟨o, ho, hoi⟩ := (h.mem_ids i).mp hi
        rw [List.mem_singleton] at his
        have hmem : o ∈ acc.bySetId.getD s [] := by
          rw [h.bySetId, List.mem_filter]
          exact ⟨ho, decide_eq_true (his ▸ hoi)⟩
        rw [List.isEmpty_iff.mp he] at hmem
        cases hmem
      · exact h.nodup_ids
    · simp [h.unseen, ht]

namespace EquivalenceSets

section
variable (items : List ObjectId)

theorem foldl_assign (i : Nat) : ∀ (t : Table ObjectId Nat) (o : ObjectId),
    items.foldl (fun t item o => if o = item then some i else t o) t o =
      if o ∈ items then some i else t o := by
  induction items with
  | nil =>
    intro t o
    rfl
  | cons item items ih =>
    intro t o
    rw [foldl_cons, ih]
    by_cases ho : o = item
    · simp [ho]
    · simp [ho]

theorem foldl_insert : ∀ s : Finset ObjectId,
    ∀ o, o ∈ items.foldl (fun newSet item => insert item newSet) s ↔ o ∈ items ∨ o ∈ s := by
  induction items with
  | nil =>
    intro s o
    simp
  | cons item items ih =>
    intro s o
    rw [List.foldl_cons, ih, mem_insert, List.mem_cons, or_left_comm, or_assoc]

theorem foldl_erase : ∀ s : Finset ObjectId,
    ∀ o, o ∈ items.foldl Finset.erase s ↔ o ∈ s ∧ o ∉ items := by
  induction items with
  | nil =>
    intro s o
    simp
  | cons item items ih =>
    intro s o
    rw [List.foldl_cons, ih, mem_erase, List.mem_cons, not_or, and_assoc, and_left_comm]

end

section
variable (eq : EquivalenceSets) (items : List ObjectId)

theorem addToNewSet_table (o : ObjectId) : (eq.addToNewSet items).objectIdToSetId o =
      if o ∈ items then some eq.sets.length else eq.objectIdToSetId o :=
  foldl_assign items _ _ o

theorem mem_getSet_addToNewSet (i : Nat) (o : ObjectId) : o ∈ (eq.addToNewSet items).getSet i ↔
      i < eq.sets.length ∧ o ∈ eq.getSet i ∨ i = eq.sets.length ∧ o ∈ items := by
  rw [addToNewSet, getSet, getSet]
  rcases Nat.lt_trichotomy i eq.sets.length with hi | hi | hi
  · rw [getD_append _ _ _ _ hi]
    simp [hi, Nat.ne_of_lt hi]
  · subst hi
    rw [getD_append_right _ _ _ _ (Nat.le_refl _), Nat.sub_self, getD_cons_zero, foldl_insert]
    simp
  · rw [getD_eq_default _ _ (by rw [length_append, length_singleton]; omega)]
    simp [Nat.not_lt_of_gt hi, Nat.ne_of_gt hi]

end

structure Valid (eq : EquivalenceSets) : Prop where
  mem_iff : ∀ i o, o ∈ eq.getSet i ↔ eq.objectIdToSetId o = some i
  nonempty : ∀ s ∈ eq.sets, s.Nonempty
variable {eq : EquivalenceSets}

theorem lt_of_table (hm : ∀ i o, o ∈ eq.getSet i ↔ eq.objectIdToSetId o = some i)
    (h : eq.objectIdToSetId o = some i) : i < eq.sets.length := by
  by_contra hi
  have ho := (hm i o).mpr h
  rw [getSet, getD_eq_default _ _ (Nat.le_of_not_lt hi)] at ho
  exact notMem_empty o ho

theorem Valid.addToNewSet (h : eq.Valid) (hne : is ≠ [])
    (hu : ∀ o ∈ is, eq.objectIdToSetId o = none) : (eq.addToNewSet is).Valid where
  mem_iff i o := by
    rw [mem_getSet_addToNewSet, addToNewSet_table, h.mem_iff]
    by_cases ho : o ∈ is
    · simp [hu o ho, ho, eq_comm]
    · simp only [ho, and_false, or_false, ↓reduceIte, and_iff_right_iff_imp]
      exact lt_of_table h.mem_iff
  nonempty s hs := by
    rcases mem_append.mp hs with hs | hs
    · exact h.nonempty s hs
    · obtain ⟨o, ho⟩ := exists_mem_of_ne_nil is hne
      rw [List.mem_singleton.mp hs]
      exact ⟨o, (foldl_insert is ∅ o).mpr (.inl ho)⟩

theorem addToNewSet_splits (h : eq.Valid) (hu : ∀ o ∈ is, eq.objectIdToSetId o = none) :
    SplitsBy eq.objectIdToSetId (eq.addToNewSet is).objectIdToSetId [fun o => o ∈ is] := by
  refine .fresh (some eq.sets.length) hu ?_ ?_ ?_
  · intro o ho
    exact Nat.lt_irrefl _ (lt_of_table h.mem_iff ho)
  · intro o ho
    rw [addToNewSet_table, if_pos ho]
  · intro o ho
    rw [addToNewSet_table, if_neg ho]

section
variable (eq : EquivalenceSets) (i : Nat) (subset : List ObjectId)

def moveToNewSet : EquivalenceSets :=
  addToNewSet { eq with sets := eq.sets.set i (subset.foldl Finset.erase (eq.getSet i)) } subset

theorem moveToNewSet_table (o : ObjectId) : (eq.moveToNewSet i subset).objectIdToSetId o =
      if o ∈ subset then some eq.sets.length else eq.objectIdToSetId o := by
  rw [moveToNewSet, addToNewSet_table, length_set]

end

theorem getSet_set (eq : EquivalenceSets) (s : Finset ObjectId)
    (hi : i < eq.sets.length) (j : Nat) :
    getSet { eq with sets := eq.sets.set i s } j = if j = i then s else eq.getSet j := by
  rw [getSet, getSet]
  by_cases hj : j = i
  · subst hj
    simp [getElem?_set_self hi]
  · simp only [hj, ↓reduceIte, getD_set_ne (Ne.symm hj)]

theorem Valid.moveToNewSet (h : eq.Valid)
    (hsub : ∀ o ∈ s', eq.objectIdToSetId o = some i) (hne : s' ≠ [])
    (hp : ∃ o ∈ eq.getSet i, o ∉ s') : (eq.moveToNewSet i s').Valid where
  mem_iff j o := by
    obtain ⟨o', ho', -⟩ := hp
    have hi := lt_of_table h.mem_iff ((h.mem_iff i o').mp ho')
    rw [moveToNewSet_table, EquivalenceSets.moveToNewSet, mem_getSet_addToNewSet,
      getSet_set eq _ hi, length_set]
    by_cases ho : o ∈ s'
    · have hold : ¬ o ∈ (if j = i then s'.foldl erase (eq.getSet i) else eq.getSet j) := by
        split_ifs with hj
        · rw [foldl_erase]
          exact fun hc => hc.2 ho
        · rw [h.mem_iff, hsub o ho, Option.some.injEq]
          exact Ne.symm hj
      simp only [hold, and_false, ho, and_true, false_or, ↓reduceIte, Option.some.injEq]
      exact eq_comm
    · have hold : o ∈ (if j = i then s'.foldl erase (eq.getSet i) else eq.getSet j) ↔
          eq.objectIdToSetId o = some j := by
        split_ifs with hj
        · rw [foldl_erase, h.mem_iff, hj]
          exact and_iff_left ho
        · exact h.mem_iff j o
      simp only [hold, ho, and_false, or_false, ↓reduceIte, and_iff_right_iff_imp]
      exact lt_of_table h.mem_iff
  nonempty s hs := by
    rcases mem_append.mp hs with hs | hs
    · rcases mem_or_eq_of_mem_set hs with hs | rfl
      · exact h.nonempty s hs
      · obtain ⟨o, ho, hno⟩ := hp
        exact ⟨o, (foldl_erase s' _ o).mpr ⟨ho, hno⟩⟩
    · obtain ⟨o, ho⟩ := exists_mem_of_ne_nil s' hne
      rw [List.mem_singleton.mp hs]
      exact ⟨o, (foldl_insert s' ∅ o).mpr (.inl ho)⟩

theorem splitSet_eq (eq : EquivalenceSets) (i : Nat) : eq.splitSet i =
    { (if (eq.combineInputBySetId.getD i []).length ≠ (eq.getSet i).card then
        eq.moveToNewSet i (eq.combineInputBySetId.getD i []) else eq) with
      combineInputBySetId := eq.combineInputBySetId.set i [] } := by
  rw [splitSet]
  split <;> rfl

/-- `eq'` has separated the parts from the rest of their classes and assigned no new object. -/
structure SplitOff (eq eq' : EquivalenceSets) (parts : List (ObjectId → Prop)) : Prop where
  valid : eq'.Valid
  splits : SplitsBy eq.objectIdToSetId eq'.objectIdToSetId parts
  unchanged : ∀ o, (∀ part ∈ parts, ¬ part o) → eq'.objectIdToSetId o = eq.objectIdToSetId o
  assigned : ∀ o, eq'.objectIdToSetId o = none ↔ eq.objectIdToSetId o = none

theorem SplitOff.trans (h : SplitOff eq eq' ps) (h' : SplitOff eq' eq'' ps') :
    SplitOff eq eq'' (ps ++ ps') where
  valid := h'.valid
  splits := h.splits.append h'.splits
  unchanged o ho := by
    rw [forall_mem_append] at ho
    rw [h'.unchanged o ho.2, h.unchanged o ho.1]
  assigned o := (h'.assigned o).trans (h.assigned o)

theorem splitSet_splitOff (h : eq.Valid)
    (hb : eq.combineInputBySetId.getD i [] = s') (hne : s' ≠ [])
    (hn : s'.Nodup) (hsub : ∀ o ∈ s', eq.objectIdToSetId o = some i) :
    SplitOff eq (eq.splitSet i) [fun o => o ∈ s'] := by
  have hs : s'.toFinset ⊆ eq.getSet i := by
    intro o ho
    rw [h.mem_iff]
    exact hsub o (mem_toFinset.mp ho)
  rw [splitSet_eq, hb]
  by_cases hl : s'.length ≠ (eq.getSet i).card
  · rw [if_pos hl]
    have hcard := card_le_card hs
    rw [toFinset_card_of_nodup hn] at hcard
    obtain ⟨o, ho, hno⟩ := exists_mem_notMem_of_card_lt_card (s := s'.toFinset) (t := eq.getSet i)
      (by rw [toFinset_card_of_nodup hn]; omega)
    have hv := h.moveToNewSet hsub hne ⟨o, ho, fun hc => hno (mem_toFinset.mpr hc)⟩
    refine ⟨⟨hv.mem_iff, hv.nonempty⟩, ?_, ?_, ?_⟩
    · refine .fresh (some eq.sets.length) hsub ?_ ?_ ?_
      · intro o hc
        exact Nat.lt_irrefl _ (lt_of_table h.mem_iff hc)
      · intro o ho
        exact (moveToNewSet_table eq i s' o).trans (if_pos ho)
      · intro o ho
        exact (moveToNewSet_table eq i s' o).trans (if_neg ho)
    · intro o ho
      exact (moveToNewSet_table eq i s' o).trans (if_neg (ho _ mem_cons_self))
    · intro o
      rw [moveToNewSet_table]
      by_cases ho : o ∈ s'
      · simp [ho, hsub o ho]
      · simp [ho]
  · rw [if_neg hl]
    have ha := eq_of_subset_of_card_le hs (by
        rw [toFinset_card_of_nodup hn]
        omega)
    refine ⟨⟨h.mem_iff, h.nonempty⟩, .whole (i := some i) ?_, fun _ _ => rfl, fun _ => Iff.rfl⟩
    intro o
    rw [← h.mem_iff, ← ha, mem_toFinset]

theorem getD_set_nil (l : List (List ObjectId)) (i j : Nat) :
    (l.set i []).getD j [] = if j = i then [] else l.getD j [] := by
  rw [getD_eq_getElem?_getD, getElem?_set, getD_eq_getElem?_getD]
  by_cases hj : i = j
  · split_ifs <;> simp_all
  · simp [hj, Ne.symm hj]

theorem foldl_splitSet_frame (ids : List Nat) : ∀ eq : EquivalenceSets,
    ∃ sets table buffer, ids.foldl splitSet eq =
        { eq with sets := sets, objectIdToSetId := table, combineInputBySetId := buffer } ∧
      ∀ j, buffer.getD j [] = if j ∈ ids then [] else eq.combineInputBySetId.getD j [] := by
  induction ids with
  | nil =>
    intro eq
    exact ⟨eq.sets, eq.objectIdToSetId, eq.combineInputBySetId, rfl, fun _ => rfl⟩
  | cons i ids ih =>
    intro eq
    obtain ⟨sets, table, buffer, heq, hb⟩ := ih (eq.splitSet i)
    refine ⟨sets, table, buffer, ?_, ?_⟩
    · rw [foldl_cons, heq, splitSet_eq]
      split <;> rfl
    · intro j
      rw [hb, splitSet_eq]
      simp only [getD_set_nil, List.mem_cons]
      by_cases hj : j ∈ ids
      · simp [hj]
      · simp [hj]

theorem foldl_splitSet_splitOff (ids : List Nat) (s : Nat → List ObjectId) :
    ∀ eq : EquivalenceSets, eq.Valid → ids.Nodup →
      (∀ i ∈ ids, eq.combineInputBySetId.getD i [] = s i ∧ s i ≠ [] ∧ (s i).Nodup ∧
        ∀ o ∈ s i, eq.objectIdToSetId o = some i) →
      SplitOff eq (ids.foldl splitSet eq) (ids.map fun i o => o ∈ s i) := by
  induction ids with
  | nil =>
    intro eq h _ _
    exact ⟨h, .nil _, fun _ _ => rfl, fun _ => Iff.rfl⟩
  | cons i ids ih =>
    intro eq h hnodup hi
    rw [nodup_cons] at hnodup
    obtain ⟨hb, hne, hn, hsub⟩ := hi i mem_cons_self
    have hs := splitSet_splitOff h hb hne hn hsub
    refine hs.trans (ih _ hs.valid hnodup.2 ?_)
    intro j hj
    have hji : j ≠ i := fun he => hnodup.1 (he ▸ hj)
    obtain ⟨hb', hne', hn', hs'⟩ := hi j (mem_cons_of_mem _ hj)
    refine ⟨?_, hne', hn', ?_⟩
    · rw [splitSet_eq, ← hb']
      simp only [getD_set_nil, hji, ↓reduceIte]
    · intro o ho
      rw [hs.unchanged o ?_, hs' o ho]
      intro part hp
      rw [List.mem_singleton.mp hp]
      intro hc
      have hl := hsub o hc
      rw [hs' o ho, Option.some.injEq] at hl
      exact hji hl

structure Inv (n : Nat) (eq : EquivalenceSets) : Prop extends Valid eq where
  scratch : ∀ i, eq.combineInputBySetId.getD i [] = []
  inRange : ∀ o, eq.objectIdToSetId o ≠ none → o < n
  seen : eq.seenObjects = ((Finset.range n).filter fun o => eq.objectIdToSetId o ≠ none).card
  unassigned : ∀ o, eq.objectIdToSetId o = none ↔ ∀ s ∈ eq.combined, o ∉ s
  together : ∀ a b, eq.objectIdToSetId a = eq.objectIdToSetId b ↔ Together eq.combined a b

theorem Inv.new (n : Nat) : (new : EquivalenceSets).Inv n where
  mem_iff i o := by simp [EquivalenceSets.new, getSet, Table.new]
  nonempty s hs := by cases hs
  scratch i := rfl
  inRange o h := absurd rfl h
  seen := by simp [EquivalenceSets.new, Table.new]
  unassigned o := by simp [EquivalenceSets.new, Table.new]
  together a b := by simp [EquivalenceSets.new, Table.new, Together]

theorem collected (hsc : ∀ i, eq.combineInputBySetId.getD i [] = [])
    (hm : ∀ i o, o ∈ eq.getSet i ↔ eq.objectIdToSetId o = some i) (input : List ObjectId) :
    (input.foldl (CombineInput.push eq.objectIdToSetId) ⟨eq.resizedBuffer, [], []⟩).Collected
      eq.objectIdToSetId eq.resizedBuffer.length input := by
  have hs : (⟨eq.resizedBuffer, [], []⟩ : CombineInput).Collected eq.objectIdToSetId
      eq.resizedBuffer.length [] := by
    refine ⟨?_, rfl, ?_, .nil, rfl⟩
    · intro i
      rw [filter_nil, resizedBuffer]
      by_cases hi : i < eq.combineInputBySetId.length
      · rw [getD_append _ _ _ _ hi, hsc]
      · rw [getD_append_right _ _ _ _ (Nat.le_of_not_lt hi),
          getD_eq_getElem?_getD, getElem?_getD_replicate_default_eq]
    · intro i
      simp
  refine foldl_rule (P := CombineInput.Collected eq.objectIdToSetId _)
    (fun o _ _ _ h => h.push ?_) [] _ hs
  intro i hi
  have hlt := lt_of_table hm hi
  rw [resizedBuffer, length_append, length_replicate]
  omega

/-- The parts of the input that `combine` separates: its objects in each touched set, and its
unseen objects. -/
def inputParts (table : Table ObjectId Nat) (input : List ObjectId) (ids : List Nat) :
    List (ObjectId → Prop) :=
  ids.map (fun i o => o ∈ input.filter fun o => table o = some i) ++
    [fun o => o ∈ input.filter fun o => table o = none]

theorem splitsBy_input (h : SplitsBy t t' (inputParts t i' ids))
    (hi : ∀ i, i ∈ ids ↔ ∃ o ∈ i', t o = some i) : SplitsBy t t' [fun o => o ∈ i'] := by
  refine h.collect ?_ ?_
  · intro part hp
    rcases mem_append.mp hp with hp | hp
    · obtain ⟨i, -, rfl⟩ := mem_map.mp hp
      refine ⟨some i, ?_⟩
      intro o
      simp
    · rw [List.mem_singleton.mp hp]
      refine ⟨none, ?_⟩
      intro o
      simp
  · intro o ho
    cases ht : t o with
    | none =>
      refine ⟨_, mem_append_right _ mem_cons_self, ?_⟩
      exact List.mem_filter.mpr ⟨ho, decide_eq_true ht⟩
    | some i =>
      refine ⟨_, mem_append_left _ (mem_map.mpr ⟨i, (hi i).mpr ⟨o, ho, ht⟩, rfl⟩), ?_⟩
      exact List.mem_filter.mpr ⟨ho, decide_eq_true ht⟩

section
variable (eq : EquivalenceSets)

def addUnseen (unseenObjects : List ObjectId) : EquivalenceSets :=
  if unseenObjects.isEmpty then eq
  else addToNewSet { eq with seenObjects := eq.seenObjects + unseenObjects.length } unseenObjects

theorem addUnseen_table (u : List ObjectId) (o : ObjectId) : (eq.addUnseen u).objectIdToSetId o =
      if o ∈ u then some eq.sets.length else eq.objectIdToSetId o := by
  cases u with
  | nil => rfl
  | cons item u => exact addToNewSet_table _ (item :: u) o

theorem addUnseen_frame (u : List ObjectId) :
    (eq.addUnseen u).seenObjects = eq.seenObjects + u.length ∧
      (eq.addUnseen u).combined = eq.combined ∧
      (eq.addUnseen u).combineInputBySetId = eq.combineInputBySetId := by
  cases u with
  | nil => exact ⟨rfl, rfl, rfl⟩
  | cons item u => exact ⟨rfl, rfl, rfl⟩

end

theorem Valid.addUnseen (h : eq.Valid)
    (hu : ∀ o ∈ u, eq.objectIdToSetId o = none) : (eq.addUnseen u).Valid := by
  cases u with
  | nil => exact h
  | cons item u =>
    have hv : Valid { eq with seenObjects := eq.seenObjects + (item :: u).length } :=
      ⟨h.mem_iff, h.nonempty⟩
    exact hv.addToNewSet (cons_ne_nil item u) hu

theorem addUnseen_splits (h : eq.Valid) (hu : ∀ o ∈ u, eq.objectIdToSetId o = none) :
    SplitsBy eq.objectIdToSetId (eq.addUnseen u).objectIdToSetId [fun o => o ∈ u] := by
  cases u with
  | nil => exact .empty _ _ fun _ => not_mem_nil
  | cons item u => exact addToNewSet_splits h hu

/-- What `combine` does to the classes: it separates the input from its complement and assigns
its objects. -/
structure Combined (eq eq' : EquivalenceSets) (input : List ObjectId) : Prop where
  valid : eq'.Valid
  scratch : ∀ i, eq'.combineInputBySetId.getD i [] = []
  splits : SplitsBy eq.objectIdToSetId eq'.objectIdToSetId [fun o => o ∈ input]
  assigned : ∀ o, eq'.objectIdToSetId o = none ↔ eq.objectIdToSetId o = none ∧ o ∉ input
  seen : eq'.seenObjects =
    eq.seenObjects + (input.filter fun o => eq.objectIdToSetId o = none).length
  history : eq'.combined = input :: eq.combined

theorem combine_combined (h : eq.Valid) (hsc : ∀ i, eq.combineInputBySetId.getD i [] = [])
    (hno : input.Nodup) : Combined eq (eq.combine input) input := by
  have hc := collected hsc h.mem_iff input
  rw [combine]
  generalize input.foldl (CombineInput.push eq.objectIdToSetId) ⟨eq.resizedBuffer, [], []⟩ = parts
    at hc
  let start : EquivalenceSets :=
    { eq with combineInputBySetId := parts.bySetId, combined := input :: eq.combined }
  change Combined eq ((parts.setIdsInInput.foldl splitSet start).addUnseen
    parts.unseenObjects) input
  obtain ⟨sets, t, b, hf, hb⟩ := foldl_splitSet_frame parts.setIdsInInput start
  have hs := foldl_splitSet_splitOff parts.setIdsInInput
    (fun i => input.filter fun o => eq.objectIdToSetId o = some i) start ⟨h.mem_iff, h.nonempty⟩
    hc.nodup_ids (by
      intro i hi
      obtain ⟨o, ho, hoi⟩ := (hc.mem_ids i).mp hi
      refine ⟨hc.bySetId i, ?_, hno.filter _, ?_⟩
      · exact ne_nil_of_mem (List.mem_filter.mpr ⟨ho, decide_eq_true hoi⟩)
      · intro o ho
        exact of_decide_eq_true (List.mem_filter.mp ho).2)
  rw [hf] at hs ⊢
  have hu : ∀ o ∈ parts.unseenObjects, t o = none := by
    intro o ho
    rw [hc.unseen, List.mem_filter] at ho
    exact (hs.assigned o).mpr (of_decide_eq_true ho.2)
  obtain ⟨hseen, hh, hbuf⟩ := addUnseen_frame
    { start with sets := sets, objectIdToSetId := t, combineInputBySetId := b }
    parts.unseenObjects
  have hl := addUnseen_splits hs.valid hu
  rw [hc.unseen] at hl
  refine ⟨hs.valid.addUnseen hu, ?_, ?_, ?_, ?_, hh⟩
  · intro i
    rw [hbuf, hb]
    split_ifs with hi
    · rfl
    · rw [hc.bySetId i, filter_eq_nil_iff]
      intro o ho hoi
      exact hi ((hc.mem_ids i).mpr ⟨o, ho, of_decide_eq_true hoi⟩)
  · rw [hc.unseen]
    exact splitsBy_input (hs.splits.append hl) hc.mem_ids
  · intro o
    have ha := hs.assigned o
    rw [addUnseen_table, hc.unseen]
    by_cases ho : o ∈ input.filter fun o => eq.objectIdToSetId o = none
    · rw [if_pos ho]
      simp [(List.mem_filter.mp ho).1]
    · rw [if_neg ho, ha]
      refine ⟨fun hn => ⟨hn, fun hin => ho (List.mem_filter.mpr ⟨hin, decide_eq_true hn⟩)⟩,
        And.left⟩
  · rw [hseen, hc.unseen]

theorem Inv.combine (h : eq.Inv n) (hn : i.Nodup)
    (hin : ∀ o ∈ i, o < n) : (eq.combine i).Inv n := by
  have hc := combine_combined h.toValid h.scratch hn
  refine ⟨hc.valid, hc.scratch, ?_, ?_, ?_, ?_⟩
  · intro o ho
    rw [Ne, hc.assigned o, not_and_or, not_not] at ho
    rcases ho with ho | ho
    · exact h.inRange o ho
    · exact hin o ho
  · rw [hc.seen, h.seen, ← List.toFinset_card_of_nodup (hn.filter _), ← card_union_of_disjoint]
    · congr 1
      ext o
      simp only [mem_union, mem_filter, mem_range, List.mem_toFinset,
        List.mem_filter, decide_eq_true_eq, Ne, hc.assigned o, not_and_or, not_not]
      by_cases ho : eq.objectIdToSetId o = none
      · simp only [ho, not_true_eq_false, and_false, and_true, false_or]
        exact ⟨fun hm => ⟨hin o hm, hm⟩, And.right⟩
      · simp [ho]
    · rw [disjoint_left]
      intro o ho ho'
      rw [List.mem_toFinset, List.mem_filter] at ho'
      exact (mem_filter.mp ho).2 (of_decide_eq_true ho'.2)
  · intro o
    rw [hc.assigned o, h.unassigned o, hc.history, List.forall_mem_cons, and_comm]
  · intro a b
    rw [hc.splits a b, List.forall_mem_singleton, h.together a b, hc.history, Together.cons_iff,
      and_comm]

end EquivalenceSets

end Rebalancer
