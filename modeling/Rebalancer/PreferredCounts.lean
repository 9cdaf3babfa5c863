import Rebalancer.AssignOneSet

namespace Rebalancer
open AList List
variable {old new c' : IdSet}

section
variable (counts : AssocMap ContainerId Int) (l : List ContainerId)

theorem foldl_leastChoice_none : ∀ l', l.foldl (leastChoice counts) l' = none →
      l' = none ∧ ∀ c ∈ l, c ∉ counts := by
  induction l with
  | nil =>
    intro l' h
    exact ⟨h, nofun⟩
  | cons c l ih =>
    intro l' h
    obtain ⟨hleast, hl⟩ := ih _ h
    rw [leastChoice] at hleast
    cases hc : counts.lookup c with
    | none =>
      simp only [hc] at hleast
      refine ⟨hleast, ?_⟩
      intro d hd
      rcases mem_cons.mp hd with rfl | hd
      · exact AList.lookup_eq_none.mp hc
      · exact hl d hd
    | some n =>
      simp only [hc] at hleast
      cases l' with
      | none => cases hleast
      | some best =>
        simp only at hleast
        split at hleast
        · cases hleast
        · cases hleast

theorem foldl_leastChoice_some : ∀ l', l.foldl (leastChoice counts) l' = some best →
      l' = some best ∨ best.1 ∈ l ∧ best.1 ∈ counts := by
  intro l'
  refine foldlRecOn (motive := fun r => r = some best →
    l' = some best ∨ best.1 ∈ l ∧ best.1 ∈ counts) _ _ .inl ?_
  intro r ih c hmem hr
  rw [leastChoice] at hr
  cases hc : counts.lookup c with
  | none =>
    simp only [hc] at hr
    exact ih hr
  | some n =>
    have hb : c ∈ l ∧ c ∈ counts := ⟨hmem, mem_iff_lookup.mpr ⟨_, hc⟩⟩
    simp only [hc] at hr
    cases r with
    | none =>
      cases hr
      exact .inr hb
    | some old =>
      simp only at hr
      split at hr
      · cases hr
        exact .inr hb
      · exact ih hr

end

theorem mem_of_pick (h : pickContainerToPlaceObjects counts l = some c) : c ∈ l ∧ c ∈ counts := by
  obtain ⟨best, hb, rfl⟩ := Option.map_eq_some_iff.mp h
  exact (foldl_leastChoice_some counts l none hb).resolve_left nofun

theorem not_mem_of_pick (h : pickContainerToPlaceObjects counts l = none) (hc : c ∈ l) :
    c ∉ counts :=
  (foldl_leastChoice_none counts l none (Option.map_eq_none_iff.mp h)).2 c hc

section
variable (rt : Runtime) (equivSet : EquivalenceSetId) (round : Nat)

theorem findContainer_some (hc : c ∈ cs) (gs : List IdSet) : ∀ s,
    (∀ d ∈ cs, ∃ group ∈ gs, d ∈ group) →
    ∃ d groups', findContainer rt equivSet round cs s gs = some (d, groups') ∧
      d ∈ cs ∧ ∀ d ∈ cs, ∃ group ∈ groups', d ∈ group := by
  induction gs with
  | nil =>
    intro s h
    obtain ⟨group, hg, -⟩ := h c hc
    cases hg
  | cons group gs ih =>
    intro s h
    rw [findContainer]
    cases hp : pickContainerToPlaceObjects cs
        (rt.order (.sourceGroup equivSet round s) group.elems) with
    | some d => exact ⟨d, group :: gs, rfl, (mem_of_pick hp).2, h⟩
    | none =>
      apply ih
      intro d hd
      obtain ⟨g', hg, hm⟩ := h d hd
      rcases mem_cons.mp hg with rfl | hg
      · exact absurd hd (not_mem_of_pick hp ((rt.order_perm _ _).mem_iff.mpr hm))
      · exact ⟨g', hg, hm⟩

theorem dropChoice_lookup_ne (cs : AssocMap ContainerId Int) (h : c ≠ d) :
    (dropChoice cs d).lookup c = cs.lookup c := by
  rw [dropChoice]
  split
  · rfl
  · split
    · exact lookup_erase_ne h
    · exact lookup_insert_ne h

theorem dropChoice_lookup_self (h : cs.lookup c = some n) :
    (dropChoice cs c).lookup c = if n - 1 = 0 then none else some (n - 1) := by
  simp only [dropChoice, h]
  split
  · exact lookup_erase _ _
  · exact lookup_insert _

theorem foldl_dropChoice_none (l : List ContainerId) (cs : AssocMap ContainerId Int)
    (h : cs.lookup c = none) : (l.foldl dropChoice cs).lookup c = none := by
  refine foldlRecOn (motive := fun cs => AList.lookup c cs = none) _ _ h ?_
  intro cs h d _
  by_cases hd : c = d
  · subst hd
    simp [dropChoice, h]
  · rw [dropChoice_lookup_ne cs hd, h]

theorem foldl_dropChoice_some (l : List ContainerId) : ∀ (cs : AssocMap ContainerId Int) (n : Int),
    0 < n → cs.lookup c = some n → (l.foldl dropChoice cs).lookup c =
      if n ≤ l.count c then none else some (n - l.count c) := by
  induction l with
  | nil =>
    intro cs n hn h
    rw [count_nil, if_neg (by omega)]
    simp [h]
  | cons d l ih =>
    intro cs n hn h
    rw [foldl_cons]
    by_cases hd : c = d
    · subst hd
      have hself := dropChoice_lookup_self h
      rw [count_cons_self]
      by_cases ho : n - 1 = 0
      · rw [if_pos ho] at hself
        rw [foldl_dropChoice_none l _ hself, if_pos (by omega)]
      · rw [if_neg ho] at hself
        rw [ih _ _ (by omega) hself]
        by_cases hle : n - 1 ≤ l.count c
        · rw [if_pos hle, if_pos (by omega)]
        · rw [if_neg hle, if_neg (by omega)]
          congr 1
          omega
    · rw [count_cons_of_ne (Ne.symm hd)]
      exact ih _ n hn ((dropChoice_lookup_ne cs hd).trans h)

def droppedChoices
    (preferredContainerToContainers : AssocMap ContainerId IdSet) (emptyContainers : IdSet) :
    List ContainerId :=
  (rt.order (.emptyContainers equivSet round) emptyContainers.elems).flatMap fun preferred =>
    match preferredContainerToContainers.lookup preferred with
    | none => []
    | some containers => rt.order (.preferring equivSet round preferred) containers.elems

theorem updatePreferredCount_eq (r : AssocMap ContainerId IdSet) (cs : IdSet)
    (counts : AssocMap ContainerId Int) : updatePreferredCount rt equivSet round r cs counts =
      (droppedChoices rt equivSet round r cs).foldl dropChoice counts := by
  rw [droppedChoices, foldl_flatMap, updatePreferredCount]
  congr 1
  funext counts preferred
  cases r.lookup preferred with
  | none => rfl
  | some c => rfl

theorem count_droppedChoices {preferred : List ContainerId} (cs : IdSet)
    (h : ∀ q, q ∈ preferred ↔ ∃ containers, r.lookup q = some containers ∧ c ∈ containers) :
    (droppedChoices rt equivSet round r cs).count c =
      (cs.elems.filter fun q => q ∈ preferred).length := by
  rw [droppedChoices, ((rt.order_perm _ cs.elems).flatMap_right _).count_eq]
  induction cs.elems with
  | nil => rfl
  | cons q elems ih =>
    rw [flatMap_cons, count_append, ih, filter_cons]
    have hq : (match r.lookup q with
        | none => []
        | some containers => rt.order (.preferring equivSet round q) containers.elems).count c =
          if q ∈ preferred then 1 else 0 := by
      cases hl : r.lookup q with
      | none =>
        rw [if_neg]
        · rfl
        · intro hm
          obtain ⟨containers, hc, -⟩ := (h q).mp hm
          rw [hl] at hc
          cases hc
      | some containers =>
        have hi : c ∈ containers.elems ↔ q ∈ preferred := by
          rw [h q, hl]
          constructor
          · intro hc
            exact ⟨containers, rfl, hc⟩
          · intro hc
            obtain ⟨_, he, hc⟩ := hc
            cases he
            exact hc
        simp [(rt.order_perm _ containers.elems).count_eq, containers.nodup.count, hi]
    rw [hq]
    split
    · rename_i hp
      rw [if_pos (decide_eq_true hp), length_cons, Nat.add_comm]
    · rw [if_neg (by rwa [decide_eq_true_iff]), Nat.zero_add]

end

open ObjectToContainerAssignmentUtils (Preferences)

/-- The two directions of the preferences agree, and every container that has preferences is in
the source container order. -/
structure ObjectToContainerAssignmentUtils.Preferences.Consistent (p : Preferences)
    (sourceContainerOrder : List IdSet) : Prop where
  nodup : ∀ c preferred, p.containerToPreferredContainers.lookup c = some preferred →
    preferred.Nodup
  nonempty : ∀ c preferred, p.containerToPreferredContainers.lookup c = some preferred →
    preferred ≠ []
  reverse : ∀ c preferred, p.containerToPreferredContainers.lookup c = some preferred →
    ∀ q, q ∈ preferred ↔
      ∃ containers, p.preferredContainerToContainers.lookup q = some containers ∧ c ∈ containers
  source : ∀ c ∈ p.containerToPreferredContainers, ∃ group ∈ sourceContainerOrder, c ∈ group

def choicesLeft (preferred : List ContainerId) (emptyContainers : IdSet) : Nat :=
  (preferred.filter fun q => q ∉ emptyContainers).length

theorem choicesLeft_split (hp : p.Nodup) (hn : ∀ q, q ∈ new ↔ q ∈ old ∨ q ∈ c')
    (hd : ∀ q ∈ c', q ∉ old) : choicesLeft p old =
      choicesLeft p new + (c'.elems.filter fun q => q ∈ p).length := by
  rw [choicesLeft, length_eq_length_filter_add fun q => decide (q ∉ c')]
  congr 1
  · rw [choicesLeft, filter_filter]
    congr 1
    apply filter_congr
    intro q _
    rw [Bool.eq_iff_iff, Bool.and_eq_true, decide_eq_true_iff, decide_eq_true_iff,
      decide_eq_true_iff, hn, not_or, and_comm]
  · apply List.Perm.length_eq
    rw [perm_ext_iff_of_nodup ((hp.filter _).filter _) (c'.nodup.filter _)]
    intro q
    simp only [mem_filter, decide_not, Bool.not_not, decide_eq_true_iff, Bool.not_eq_true',
      decide_eq_false_iff_not]
    constructor
    · intro hq
      exact ⟨hq.2, hq.1.1⟩
    · intro hq
      exact ⟨⟨hq.2, hd q hq.1⟩, hq.1⟩

def ChoicesCounted (p : Preferences) (emptyContainers : IdSet)
    (counts : AssocMap ContainerId Int) : Prop :=
  ∀ c n, counts.lookup c = some n → 0 < n ∧
    ∃ preferred, p.containerToPreferredContainers.lookup c = some preferred ∧
      n = choicesLeft preferred emptyContainers

theorem ChoicesCounted.erase (h : ChoicesCounted p cs counts) (c : ContainerId) :
    ChoicesCounted p cs (counts.erase c) := by
  intro d n hd
  by_cases he : d = c
  · subst he
    rw [lookup_erase] at hd
    cases hd
  · rw [lookup_erase_ne he] at hd
    exact h d n hd

theorem mem_of_mem_updatePreferredCount
    (hc : c ∈ updatePreferredCount rt s r' r c' counts) : c ∈ counts := by
  by_contra hnone
  rw [updatePreferredCount_eq] at hc
  exact AList.lookup_eq_none.mp (foldl_dropChoice_none _ _ (AList.lookup_eq_none.mpr hnone)) hc

theorem ChoicesCounted.update (rt : Runtime) (s : EquivalenceSetId) (r : Nat)
    (hp : p.Consistent o) (h : ChoicesCounted p old cs) (hnew : ∀ q, q ∈ new ↔ q ∈ old ∨ q ∈ c')
    (hd : ∀ q ∈ c', q ∉ old) :
    ChoicesCounted p new (updatePreferredCount rt s r p.preferredContainerToContainers c' cs) := by
  intro c n hn
  rw [updatePreferredCount_eq] at hn
  cases hc : cs.lookup c with
  | none =>
    rw [foldl_dropChoice_none _ _ hc] at hn
    cases hn
  | some m =>
    obtain ⟨hm, preferred, hpreferred, rfl⟩ := h c m hc
    rw [foldl_dropChoice_some _ _ _ hm hc, count_droppedChoices rt s r c'
      (hp.reverse c preferred hpreferred)] at hn
    have hs := choicesLeft_split (hp.nodup c preferred hpreferred) hnew hd
    split at hn
    · cases hn
    · cases hn
      exact ⟨by omega, preferred, hpreferred, by omega⟩

theorem ChoicesCounted.mem_or_empty (rt : Runtime) (s : EquivalenceSetId) (r : Nat)
    (hp : p.Consistent o) (h : ChoicesCounted p old cs) (hn : ∀ q, q ∈ new ↔ q ∈ old ∨ q ∈ c')
    (hdi : ∀ q ∈ c', q ∉ old) (hc : c ∈ cs)
    (hpr : p.containerToPreferredContainers.lookup c = some preferred) :
    c ∈ updatePreferredCount rt s r p.preferredContainerToContainers c' cs ∨
      ∀ q ∈ preferred, q ∈ new := by
  obtain ⟨m, hm⟩ := mem_iff_lookup.mp hc
  obtain ⟨hpos, p', hp', rfl⟩ := h c m hm
  rw [hpr] at hp'
  cases hp'
  have hd := foldl_dropChoice_some (droppedChoices rt s r
    p.preferredContainerToContainers c') cs _ hpos hm
  rw [← updatePreferredCount_eq, count_droppedChoices rt s r c' (hp.reverse c preferred hpr)] at hd
  have hs := choicesLeft_split (hp.nodup c preferred hpr) hn hdi
  split at hd
  · right
    have hzero : choicesLeft preferred new = 0 := by omega
    rw [choicesLeft, length_eq_zero_iff, filter_eq_nil_iff] at hzero
    intro q hq
    by_contra hnot
    exact hzero q hq (decide_eq_true hnot)
  · left
    apply lookup_isSome.mp
    rw [hd]
    rfl

theorem ChoicesCounted.not_mem (h : ChoicesCounted p cs counts)
    (hp : p.containerToPreferredContainers.lookup c = some preferred)
    (ha : ∀ q ∈ preferred, q ∈ cs) : c ∉ counts := by
  intro hc
  obtain ⟨n, hn⟩ := mem_iff_lookup.mp hc
  obtain ⟨hpos, p', hp', rfl⟩ := h c n hn
  rw [hp] at hp'
  cases hp'
  have hzero : choicesLeft preferred cs = 0 := by
    rw [choicesLeft, length_eq_zero_iff, filter_eq_nil_iff]
    intro q hq
    rw [decide_eq_true_iff, not_not]
    exact ha q hq
  omega

end Rebalancer
