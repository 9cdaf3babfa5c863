import Rebalancer.ApplySequence
import Rebalancer.GroupRoutingRing

namespace Rebalancer
open List AffectedByChange ChangeSet

theorem ChangeSet.single_move_cases {cs : ChangeSet} (h : cs.representsSingleMove = true) :
    ∃ ch ch', cs.changes = [ch, ch'] ∧ ch.object = ch'.object ∧ ch.container ≠ ch'.container ∧
      ch.value + ch'.value = 0 ∧ cs.containers.Perm [ch.container, ch'.container] ∧
      cs.objects = [ch.object] := by
  simp only [representsSingleMove, Bool.and_eq_true, decide_eq_true_eq] at h
  obtain ⟨⟨⟨hl, hobj⟩, hcont⟩, hs⟩ := h
  obtain ⟨ch, ch', hcs⟩ := length_eq_two.mp hl
  obtain ⟨o, ho⟩ := length_eq_one_iff.mp hobj
  have hmem : ∀ c ∈ cs.changes, c.object = o := by
    intro c hc
    have hin := (cs.mem_objects _).mpr ⟨c, hc, rfl⟩
    rw [ho] at hin
    exact mem_singleton.mp hin
  have hch : ch.object = o := hmem ch (by rw [hcs]; exact mem_cons_self)
  have hch' : ch'.object = o :=
    hmem ch' (by rw [hcs]; exact mem_cons_of_mem _ mem_cons_self)
  have hsub : cs.containers ⊆ [ch.container, ch'.container] := by
    intro c hc
    obtain ⟨x, hx, rfl⟩ := (cs.mem_containers c).mp hc
    rw [hcs] at hx
    rcases mem_cons.mp hx with rfl | hx
    · exact mem_cons_self
    · rw [mem_singleton.mp hx]
      exact mem_cons_of_mem _ mem_cons_self
  have hp := (subperm_of_subset cs.containers_nodup hsub).perm_of_length_le (by rw [hcont]; rfl)
  refine ⟨ch, ch', hcs, hch.trans hch'.symm, ?_, ?_, hp, by rw [ho, hch]⟩
  · intro heq
    have hnd := hp.nodup_iff.mp cs.containers_nodup
    rw [heq] at hnd
    exact (nodup_cons.mp hnd).1 mem_cons_self
  · rw [hcs] at hs
    simpa only [map_cons, map_nil, sum_cons, sum_nil, Int.add_zero] using hs

namespace GroupRoutingRing
variable {ring : GroupRoutingRing} {data : AffectedByChangeDecisionData} {cs : ChangeSet}

section
variable (ring : GroupRoutingRing) (data : AffectedByChangeDecisionData) (cs : ChangeSet)

def CountsTwice : Prop :=
  cs.representsSingleMove = true ∧
  ring.directlyAffectedContainers.size ≠ data.numTotalContainers ∧
  ∃ ch ∈ cs.changes, ∃ ch' ∈ cs.changes, ∃ s s', ring.relevantScopeItem ch = some s ∧
    ring.relevantScopeItem ch' = some s' ∧ s ≠ s'

def pushes : Nat :=
  (ofDecision ring.directlyAffectedContainers ring.groupObjectIds data).pushes cs

end

theorem relevant_iff : (∃ s, ring.relevantScopeItem ch = some s) ↔
    ch.object ∈ ring.groupObjectIds ∧ ch.container ∈ ring.directlyAffectedContainers.elems := by
  rw [relevantScopeItem, directlyAffectedContainers, ring.containers.mem_iff]
  by_cases ho : ch.object ∈ ring.groupObjectIds
  · simp only [ho, ↓reduceIte, true_and]
    exact Iff.rfl
  · simp [ho]

def calls (ring : GroupRoutingRing) (data : AffectedByChangeDecisionData) (cs : ChangeSet) : Nat :=
  if ring.directlyAffectedContainers.size = data.numTotalContainers then
    if ring.groupObjectIds.size = data.numTotalObjects then 1
    else cs.objects.countP (fun o => decide (o ∈ ring.groupObjectIds.elems))
  else if ring.groupObjectIds.size = data.numTotalObjects then
    cs.containers.countP (fun c => decide (c ∈ ring.directlyAffectedContainers.elems))
  else cs.changes.countP (fun ch => decide (ch.container ∈ ring.directlyAffectedContainers.elems) &&
    decide (ch.object ∈ ring.groupObjectIds.elems))

theorem pushes_eq : ring.pushes data cs =
    if shouldDedupeLeaves (some cs) then min 1 (ring.calls data cs) else ring.calls data cs := by
  by_cases hc : ring.directlyAffectedContainers.size = data.numTotalContainers <;>
    by_cases ho : ring.groupObjectIds.size = data.numTotalObjects <;>
    simp [pushes, AffectedByChange.pushes, ofDecision, hc, ho, getType, AffectedByChange.calls,
      containerElems, objectElems, passesFilter, calls]

theorem calls_pos (data : AffectedByChangeDecisionData) (hch : ch ∈ cs.changes)
    (hs : ring.relevantScopeItem ch = some s) : 0 < ring.calls data cs := by
  obtain ⟨ho, hc⟩ := relevant_iff.mp ⟨s, hs⟩
  rw [calls]
  split
  · split
    · exact Nat.one_pos
    · exact countP_pos_iff.mpr ⟨ch.object, (cs.mem_objects _).mpr ⟨ch, hch, rfl⟩,
        decide_eq_true ho⟩
  · split
    · exact countP_pos_iff.mpr ⟨ch.container, (cs.mem_containers _).mpr ⟨ch, hch, rfl⟩,
        decide_eq_true hc⟩
    · have hog : ch.object ∈ ring.groupObjectIds.elems := ho
      refine countP_pos_iff.mpr ⟨ch, hch, ?_⟩
      rw [decide_eq_true hc, decide_eq_true hog]
      rfl

theorem exists_relevant (h : ring.delta cs.changes s ≠ 0) :
    ∃ ch ∈ cs.changes, ring.relevantScopeItem ch = some s := by
  by_contra hno
  push Not at hno
  exact h (sum_map_eq_zero _ _ (fun ch hch => if_neg (hno ch hch)))

theorem pushes_pos (data : AffectedByChangeDecisionData) (h : ring.delta cs.changes s ≠ 0) :
    0 < ring.pushes data cs := by
  obtain ⟨ch, hch, hs⟩ := exists_relevant h
  have hp := calls_pos data hch hs
  rw [pushes_eq]
  split <;> omega

theorem single_move_of_pushes (h : 1 < ring.pushes data cs) : cs.representsSingleMove = true ∧
      ring.directlyAffectedContainers.size ≠ data.numTotalContainers := by
  rw [pushes_eq] at h
  split_ifs at h with hd
  · omega
  · have hcase : cs.empty = true ∨ cs.representsSingleMove = true := by
      simp only [shouldDedupeLeaves, Bool.and_eq_true, Bool.not_eq_true', not_and,
        Bool.not_eq_false] at hd
      cases he : cs.empty with
      | true => exact .inl rfl
      | false => exact .inr (hd he)
    have hempty : cs.empty = true → ring.calls data cs ≤ 1 := by
      intro he
      have hn : cs.changes = [] := isEmpty_iff.mp he
      have hcs : cs.containers = [] := by
        simp [eq_nil_iff_forall_not_mem, cs.mem_containers, hn]
      have hos : cs.objects = [] := by
        simp [eq_nil_iff_forall_not_mem, cs.mem_objects, hn]
      simp only [calls, hn, hcs, hos, countP_nil]
      split
      · split <;> omega
      · split <;> omega
    rcases hcase with he | hs
    · have hle := hempty he
      omega
    · refine ⟨hs, ?_⟩
      intro ha
      obtain ⟨ch, ch', -, -, -, -, -, hobj⟩ := single_move_cases hs
      have hle : ring.calls data cs ≤ 1 := by
        simp only [calls, ha, ↓reduceIte, hobj]
        split
        · exact le_refl 1
        · exact countP_le_length
      omega

section
variable (ha : ring.directlyAffectedContainers.size ≠ data.numTotalContainers)
  (hcs : cs.changes = [ch, ch']) (hp : cs.containers.Perm [ch.container, ch'.container])
include ha hcs hp

theorem containers_of_calls (h : 1 < ring.calls data cs) :
    ch.container ∈ ring.directlyAffectedContainers.elems ∧
      ch'.container ∈ ring.directlyAffectedContainers.elems := by
  rw [calls, hp.countP_eq, hcs] at h
  by_cases hc : ch.container ∈ ring.directlyAffectedContainers.elems <;>
    by_cases hc' : ch'.container ∈ ring.directlyAffectedContainers.elems
  · exact ⟨hc, hc'⟩
  all_goals
    exfalso
    simp only [countP_cons, countP_nil, hc, hc', decide_true, decide_false,
      Bool.true_and, Bool.false_and, Bool.false_eq_true, ↓reduceIte] at h
    repeat' split at h
    all_goals omega

theorem calls_of_relevant
    (hs : ring.relevantScopeItem ch = some s) (hs' : ring.relevantScopeItem ch' = some s') :
    ring.calls data cs = 2 := by
  obtain ⟨ho, hc⟩ := relevant_iff.mp ⟨s, hs⟩
  obtain ⟨ho', hc'⟩ := relevant_iff.mp ⟨s', hs'⟩
  have hog : ch.object ∈ ring.groupObjectIds.elems := ho
  have hog' : ch'.object ∈ ring.groupObjectIds.elems := ho'
  rw [calls, if_neg ha, hp.countP_eq, hcs]
  simp [hc, hc', hog, hog']

end

theorem delta_pair (hcs : cs.changes = [ch, ch']) : ring.delta cs.changes s =
    (if ring.relevantScopeItem ch = some s then ch.value else 0) +
      (if ring.relevantScopeItem ch' = some s then ch'.value else 0) := by
  rw [delta, hcs]
  simp

theorem CountsTwice.pushes_eq_two (h : ring.CountsTwice data cs) : ring.pushes data cs = 2 := by
  obtain ⟨hsingle, ha, x, hx, x', hx', s, s', hs, hs', hne⟩ := h
  obtain ⟨ch, ch', hcs, ho, hc, hv, hp, -⟩ := single_move_cases hsingle
  have hr : (∃ t, ring.relevantScopeItem ch = some t) ∧
      ∃ t, ring.relevantScopeItem ch' = some t := by
    rw [hcs] at hx hx'
    simp only [mem_cons, not_mem_nil, or_false] at hx hx'
    rcases hx with rfl | rfl <;> rcases hx' with rfl | rfl
    · exact absurd (Option.some.inj (hs.symm.trans hs')) hne
    · exact ⟨⟨s, hs⟩, ⟨s', hs'⟩⟩
    · exact ⟨⟨s', hs'⟩, ⟨s, hs⟩⟩
    · exact absurd (Option.some.inj (hs.symm.trans hs')) hne
  obtain ⟨⟨t, ht⟩, t', ht'⟩ := hr
  have hd : shouldDedupeLeaves (some cs) = false := by
    simp [shouldDedupeLeaves, hsingle]
  rw [pushes_eq, hd]
  exact calls_of_relevant ha hcs hp ht ht'

theorem CountsTwice.delta_ne_zero (h : ring.CountsTwice data cs) :
    ∃ s, ring.delta cs.changes s ≠ 0 := by
  obtain ⟨hsingle, ha, x, hx, x', hx', s, s', hs, hs', hne⟩ := h
  obtain ⟨ch, ch', hcs, -, -, -, -, -⟩ := single_move_cases hsingle
  refine ⟨s, ?_⟩
  rw [delta_pair hcs]
  have hv : x.value ≠ 0 := by
    rcases x.valid with ho | ho <;> rw [ho] <;> decide
  have hss : ¬ some s' = some s := fun heq => hne (Option.some.inj heq).symm
  rw [hcs] at hx hx'
  simp only [mem_cons, not_mem_nil, or_false] at hx hx'
  rcases hx with rfl | rfl <;> rcases hx' with rfl | rfl
  · exact absurd (hs'.symm.trans hs) hss
  · rw [if_pos hs, hs', if_neg hss, Int.add_zero]
    exact hv
  · rw [hs', if_neg hss, if_pos hs, Int.zero_add]
    exact hv
  · exact absurd (hs'.symm.trans hs) hss

theorem countsTwice_of_pushes (hd : ring.delta cs.changes s ≠ 0) (h : 1 < ring.pushes data cs) :
    ring.CountsTwice data cs := by
  obtain ⟨hs, ha⟩ := single_move_of_pushes h
  obtain ⟨ch, ch', hcs, ho, hcont, hv, hp, -⟩ := single_move_cases hs
  have hcalls : 1 < ring.calls data cs := by
    rw [pushes_eq] at h
    split at h
    · omega
    · exact h
  obtain ⟨hc, hc'⟩ := containers_of_calls ha hcs hp hcalls
  obtain ⟨x, hx, hxs⟩ := exists_relevant hd
  have hog : ch.object ∈ ring.groupObjectIds := by
    have hxo := (relevant_iff.mp ⟨s, hxs⟩).1
    rw [hcs] at hx
    simp only [mem_cons, not_mem_nil, or_false] at hx
    rcases hx with rfl | rfl
    · exact hxo
    · rw [ho]
      exact hxo
  obtain ⟨t, ht⟩ := relevant_iff.mpr ⟨hog, hc⟩
  obtain ⟨t', ht'⟩ := relevant_iff.mpr ⟨ho ▸ hog, hc'⟩
  rw [delta_pair hcs, ht, ht'] at hd
  have hne : t ≠ t' := by
    rintro rfl
    apply hd
    split
    · exact hv
    · rfl
  exact ⟨hs, ha, ch, by rw [hcs]; exact mem_cons_self, ch',
    by rw [hcs]; exact mem_cons_of_mem _ mem_cons_self, t, t', ht, ht', hne⟩

theorem pushes_mul_delta_iff (ring : GroupRoutingRing) (data : AffectedByChangeDecisionData)
    (cs : ChangeSet) :
    (∀ s, (ring.pushes data cs : Int) * ring.delta cs.changes s = ring.delta cs.changes s) ↔
      ¬ ring.CountsTwice data cs := by
  constructor
  · intro h ht
    obtain ⟨s, hs⟩ := ht.delta_ne_zero
    have heq := h s
    rw [ht.pushes_eq_two] at heq
    apply hs
    omega
  · intro hno s
    by_cases hd : ring.delta cs.changes s = 0
    · rw [hd, Int.mul_zero]
    · have hp := pushes_pos data hd
      have ho : ring.pushes data cs = 1 := by
        by_contra hne
        exact hno (countsTwice_of_pushes hd (by omega))
      rw [ho, Nat.cast_one, Int.one_mul]

end GroupRoutingRing

end Rebalancer
