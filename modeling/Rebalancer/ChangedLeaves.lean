import Rebalancer.LeafIndexSpec

namespace Rebalancer
open Option AffectedByChange List Except LeafTables

theorem count_filter_ite [DecidableEq α] (p : α → Bool) (a : α) (l : List α) :
    (l.filter p).count a = if p a = true then l.count a else 0 := by
  split_ifs with h
  · exact count_filter h
  · rw [count_eq_zero]
    intro hm
    exact h (mem_filter.mp hm).2

section
variable {ν : Type} {ℓ : LeafId} {t : LeafTables} {s : LeafStore ν} {cs : ChangeSet}

theorem count_pairCalls (h : t.FiledAs ℓ info t') :
    (cs.containers.flatMap (fun c => (cs.getChangesByContainer c).flatMap (fun change =>
      t.containerObjectToLeaves c change.object))).count ℓ =
    cs.changes.countP (fun ch => decide (t' = .allGivenContainerObjectPairs ∧
      ch.container ∈ info.containerElems ∧ ch.object ∈ info.objectElems)) := by
  have hk : ∀ c, (cs.getChangesByContainer c).flatMap (fun change =>
      t.containerObjectToLeaves c change.object) = (cs.getChangesByContainer c).flatMap
        (fun change => t.containerObjectToLeaves change.container change.object) := by
    intro c
    apply flatMap_congr
    intro change hmem
    rw [(ChangeSet.mem_getChangesByContainer.mp hmem).2]
  simp only [hk]
  rw [← flatMap_assoc,
    (cs.flatMap_getChangesByContainer_perm.flatMap_right _).count_eq, count_flatMap,
    ← sum_map_indicator]
  congr 1
  apply map_congr_left
  intro ch _
  rw [Function.comp_apply, h.pair]
  simp

theorem count_keyCalls (s : LeafStore ν) (keys : List Nat) (t' : Nat → List LeafId)
    (es : List Nat) (c : Nat → List Change) (p : Prop) [Decidable p]
    (ht : ∀ k, (t' k).count ℓ = if p ∧ k ∈ es then 1 else 0) :
    (keys.flatMap (fun k => (t' k).filter (fun id =>
      passesFilter (s.filter id) (c k)))).count ℓ =
    keys.countP (fun k => decide p && (decide (k ∈ es) && passesFilter (s.filter ℓ) (c k))) := by
  rw [count_flatMap, ← sum_map_indicator]
  congr 1
  apply map_congr_left
  intro k _
  rw [Function.comp_apply, count_filter_ite, ht]
  by_cases hp : p <;> by_cases hk : k ∈ es <;> simp [hp, hk]

theorem leafCalls_count (h : t.FiledAs ℓ info c) (hf : s.filter ℓ = info.filter) :
    (leafCalls s t (some cs)).count ℓ = info.calls c cs := by
  have hc := count_keyCalls s cs.containers t.containerToLeaves
    info.containerElems cs.getChangesByContainer _ h.container
  have ho := count_keyCalls s cs.objects t.objectToLeaves info.objectElems
    cs.getChangesByObject _ h.object
  rw [hf] at hc ho
  simp only [leafCalls, count_append, h.toCheck, count_pairCalls h, hc, ho]
  cases c <;> simp [calls]

theorem leafCalls_count_absent (h : t.Absent ℓ) : (leafCalls s t (some cs)).count ℓ = 0 := by
  rw [count_eq_zero]
  intro hmem
  simp only [leafCalls, mem_append, mem_flatMap, mem_filter] at hmem
  rcases hmem with ((hm | ⟨c, -, ch, -, hm⟩) | ⟨c, -, hm, -⟩) | ⟨o, -, hm, -⟩
  · exact count_eq_zero.mp h.toCheck hm
  · exact count_eq_zero.mp (h.pair c ch.object) hm
  · exact count_eq_zero.mp (h.container c) hm
  · exact count_eq_zero.mp (h.object o) hm

end

section
variable {ν : Type} {g : ExpressionGraph ν} {data : AffectedByChangeDecisionData} {ℓ : LeafId}

structure Filed (g : ExpressionGraph ν) (data : AffectedByChangeDecisionData) (ns : List ν)
    (store : LeafStore ν) (t : LeafTables) : Prop where
  nodup : store.leaves.Nodup
  stored : ∀ n ∈ store.leaves, ∃ info, g.isAffectedByChange data n = some info
  known : ∀ n ∈ ns, ∀ info, g.isAffectedByChange data n = some info →
    ∃ ℓ changeType, store.entries[ℓ]? = some (n, info.filter) ∧
      info.getType = .ok changeType ∧ t.FiledAs ℓ info changeType
  other : ∀ ℓ, (∀ n f, store.entries[ℓ]? = some (n, f) → n ∉ ns) → t.Absent ℓ

theorem Filed.new (hn : s.leaves.Nodup)
    (hs : ∀ n ∈ s.leaves, ∃ info, g.isAffectedByChange data n = some info) :
    Filed g data [] s .new :=
  ⟨hn, hs, fun _ hm => absurd hm not_mem_nil, fun ℓ _ => .new ℓ⟩

theorem getContainers_ok {info : AffectedByChange} (h : info.getContainers = .ok containers) :
    info.containersPtr = some containers := by
  rw [getContainers] at h
  split at h <;> cases h
  assumption

theorem getObjects_ok {info : AffectedByChange} (h : info.getObjects = .ok objects) :
    info.objectsPtr = some objects := by
  rw [getObjects] at h
  split at h <;> cases h
  assumption

theorem initChangeInfo_cases (h : initChangeInfo g data acc n = .ok acc') :
    (g.isAffectedByChange data n = none ∧ acc' = acc) ∨
    ∃ info changeType, g.isAffectedByChange data n = some info ∧ info.getType = .ok changeType ∧
      acc' = ((acc.1.add n info.filter).1, acc.2.file acc.1.entries.length info changeType) := by
  rw [initChangeInfo] at h
  cases hi : g.isAffectedByChange data n with
  | none =>
    rw [hi] at h
    cases h
    exact .inl ⟨rfl, rfl⟩
  | some info =>
    rw [hi] at h
    obtain ⟨changeType, ht, h⟩ := except_bind_ok h
    refine .inr ⟨info, changeType, rfl, ht, ?_⟩
    cases changeType with
    | allChanges =>
      cases h
      rfl
    | containersOnly =>
      obtain ⟨c, hc, h⟩ := except_bind_ok h
      cases h
      simp [file, containerElems, getContainers_ok hc, LeafStore.add]
    | objectsOnly =>
      obtain ⟨o, hc, h⟩ := except_bind_ok h
      cases h
      simp [file, objectElems, getObjects_ok hc, LeafStore.add]
    | allGivenContainerObjectPairs =>
      obtain ⟨c, hc, h⟩ := except_bind_ok h
      obtain ⟨o, ho, h⟩ := except_bind_ok h
      cases h
      simp [file, containerElems, objectElems, getContainers_ok hc, getObjects_ok ho, LeafStore.add]

theorem LeafStore.add_leaves (s : LeafStore ν) (n : ν) (f : ChangeFilterFn) :
    (s.add n f).1.leaves = s.leaves ++ [n] := by
  simp [LeafStore.leaves, LeafStore.add]

variable {s : LeafStore ν}

theorem LeafStore.getElem?_add (h : s.entries[ℓ]? = some e)
    (n : ν) (f : ChangeFilterFn) : (s.add n f).1.entries[ℓ]? = some e := by
  rw [LeafStore.add, List.getElem?_append_left (List.getElem?_eq_some_iff.mp h).1]
  exact h

theorem LeafStore.mem_leaves (h : s.entries[ℓ]? = some (n, f)) : n ∈ s.leaves :=
  mem_map.mpr ⟨(n, f), mem_of_getElem? h, rfl⟩

section
variable {n : ν} {ns : List ν} (h : Filed g data ns s t) (hn : n ∉ s.leaves) (hns : n ∉ ns)
  (hi : g.isAffectedByChange data n = some info)
include h hn hns hi

theorem Filed.add : Filed g data ns (s.add n info.filter).1 t where
  nodup := by
    rw [LeafStore.add_leaves]
    exact h.nodup.append (nodup_singleton n) (disjoint_singleton.mpr hn)
  stored m hm := by
    rw [LeafStore.add_leaves, mem_append, mem_singleton] at hm
    rcases hm with hm | rfl
    · exact h.stored m hm
    · exact ⟨info, hi⟩
  known m hm info' hi' := by
    obtain ⟨ℓ, ty, he, ht, hf⟩ := h.known m hm info' hi'
    exact ⟨ℓ, ty, LeafStore.getElem?_add he n _, ht, hf⟩
  other ℓ hℓ := by
    apply h.other ℓ
    intro m f he
    exact hℓ m f (LeafStore.getElem?_add he n _)

theorem Filed.file (ht : info.getType = .ok c) :
    Filed g data (ns ++ [n]) (s.add n info.filter).1 (t.file s.entries.length info c) := by
  have ha := h.add hn hns hi
  have habs : t.Absent s.entries.length := by
    apply h.other
    intro m f he
    have hlt := (List.getElem?_eq_some_iff.mp he).1
    exact absurd hlt (Nat.lt_irrefl _)
  refine ⟨ha.nodup, ha.stored, ?_, ?_⟩
  · intro m hm i' hi'
    rcases mem_append.mp hm with hm | hm
    · obtain ⟨ℓ, ty, he, hty, hf⟩ := h.known m hm i' hi'
      refine ⟨ℓ, ty, LeafStore.getElem?_add he n _, hty, hf.file ?_ info c⟩
      exact Nat.ne_of_lt (List.getElem?_eq_some_iff.mp he).1
    · rw [mem_singleton] at hm
      subst hm
      rw [hi, some.injEq] at hi'
      subst hi'
      exact ⟨s.entries.length, c, List.getElem?_concat_length, ht, habs.filedAs info c⟩
  · intro ℓ hℓ
    have hne : ℓ ≠ s.entries.length := by
      rintro rfl
      exact hℓ n info.filter List.getElem?_concat_length
        (mem_append_right ns (mem_singleton.mpr rfl))
    refine (h.other ℓ ?_).file hne info c
    intro m f he hm
    exact hℓ m f (LeafStore.getElem?_add he n _) (mem_append_left [n] hm)

end

theorem Filed.skip (h : Filed g data ns s t)
    (hi : g.isAffectedByChange data n = none) : Filed g data (ns ++ [n]) s t where
  nodup := h.nodup
  stored := h.stored
  known m hm info hinfo := by
    rcases mem_append.mp hm with hm | hm
    · exact h.known m hm info hinfo
    · rw [mem_singleton.mp hm, hi] at hinfo
      cases hinfo
  other ℓ hℓ := by
    apply h.other ℓ
    intro m f he hm
    exact hℓ m f he (mem_append_left [n] hm)

theorem initChangeInfo_run {e' : List (List ν × LeafTables)} (hnd : ns.Nodup)
    (hf : Filed g data [] acc.1 acc.2) (hnew : ∀ n ∈ ns, n ∉ acc.1.leaves)
    (he : ∀ e ∈ e', Filed g data e.1 acc.1 e.2 ∧ ∀ n ∈ ns, n ∉ e.1)
    (h : ns.foldlM (initChangeInfo g data) acc = .ok acc') :
    Filed g data ns acc'.1 acc'.2 ∧ (∀ e ∈ e', Filed g data e.1 acc'.1 e.2) ∧
      ∀ n ∈ acc'.1.leaves, n ∈ acc.1.leaves ∨ n ∈ ns := by
  refine foldlM_ok_append (P := fun done (a : LeafStore ν × LeafTables) =>
    Filed g data done a.1 a.2 ∧ (∀ e ∈ e', Filed g data e.1 a.1 e.2) ∧
      ∀ n ∈ a.1.leaves, n ∈ acc.1.leaves ∨ n ∈ done) ?_
    ⟨hf, fun e hm => (he e hm).1, fun n hn => .inl hn⟩ h
  rintro done n rest rfl a a' ⟨hf, hold, hl⟩ hs
  have hmem : n ∈ done ++ n :: rest := mem_append_right _ mem_cons_self
  have hd : n ∉ done := fun hm => disjoint_of_nodup_append hnd hm mem_cons_self
  have hn : n ∉ a.1.leaves := fun hm => (hl n hm).elim (hnew n hmem) hd
  rcases initChangeInfo_cases hs with ⟨hi, rfl⟩ | ⟨info, ty, hi, ht, rfl⟩
  · exact ⟨hf.skip hi, hold, fun m hm => (hl m hm).imp_right (mem_append_left _)⟩
  · refine ⟨hf.file hn hd hi ht, fun e hm => (hold e hm).add hn ((he e hm).2 n hmem) hi, ?_⟩
    intro m hm
    rw [LeafStore.add_leaves] at hm
    rcases mem_append.mp hm with hm | hm
    · exact (hl m hm).imp_right (mem_append_left _)
    · exact .inr (mem_append_right _ hm)

theorem initIndex_succ (h : initIndex g data o rs (k + 1) = .ok (s, ls)) :
    ∃ store₁ leaves₁ t, initIndex g data o rs k = .ok (store₁, leaves₁) ∧
      (rootSegment o rs k).foldlM (initChangeInfo g data) (store₁, .new) =
        .ok (s, t) ∧ ls = leaves₁ ++ [t] := by
  rw [initIndex, range_succ, foldlM_append] at h
  obtain ⟨⟨store₁, leaves₁⟩, h₁, h⟩ := except_bind_ok h
  obtain ⟨acc, h₂, h⟩ := except_bind_ok h
  cases h
  obtain ⟨⟨s₂, t⟩, h₃, h₂⟩ := except_bind_ok h₂
  cases h₂
  exact ⟨store₁, leaves₁, t, h₁, h₃, rfl⟩

theorem rootSegment_nodup (h : o.Nodup) (rs : List Nat) (i : Nat) : (rootSegment o rs i).Nodup :=
  h.sublist ((take_sublist _ _).trans (drop_sublist _ _))

theorem initIndex_run (ho : Ordered g roots st rs) : ∀ k, k ≤ roots.length →
    ∀ s ls, initIndex g data st.postOrder rs k = .ok (s, ls) → ls.length = k ∧
    (∀ i t, ls[i]? = some t → Filed g data (rootSegment st.postOrder rs i) s t) ∧
    s.leaves.Nodup ∧ (∀ n ∈ s.leaves, ∃ info, g.isAffectedByChange data n = some info) ∧
    ∀ n ∈ s.leaves, ∃ p, st.nodeToPriority n = some p ∧ p.rootIdx < k := by
  intro k
  induction k with
  | zero =>
    intro _ s ls h
    cases h
    refine ⟨rfl, ?_, nodup_nil, ?_, ?_⟩
    · intro i t hi
      simp only [List.getElem?_nil, reduceCtorEq] at hi
    · intro n hn
      exact absurd hn not_mem_nil
    · intro n hn
      exact absurd hn not_mem_nil
  | succ k ih =>
    intro hk s ls h
    obtain ⟨s₁, l₁, t, h₁, hfold, rfl⟩ := initIndex_succ h
    obtain ⟨hl, hf, hnodup, hinfo, hidx⟩ := ih (by omega) s₁ l₁ h₁
    have hu : ∀ i < roots.length, ∀ j < roots.length, i ≠ j → ∀ n,
        n ∈ rootSegment st.postOrder rs i → n ∉ rootSegment st.postOrder rs j := by
      intro i hi j hj hne n hn hn'
      obtain ⟨p, hp, rfl⟩ := (ho.segment i hi n).mp hn
      obtain ⟨q, hq, rfl⟩ := (ho.segment j hj n).mp hn'
      rw [hp, some.injEq] at hq
      exact hne (congrArg _ hq)
    let earlier : List (List ν × LeafTables) :=
      l₁.zipIdx.map (fun e => (rootSegment st.postOrder rs e.2, e.1))
    have hearlier : ∀ e ∈ earlier, Filed g data e.1 s₁ e.2 ∧
        ∀ n ∈ rootSegment st.postOrder rs k, n ∉ e.1 := by
      intro e he
      obtain ⟨⟨t', i⟩, hmem, rfl⟩ := mem_map.mp he
      have hget : l₁[i]? = some t' := List.mem_zipIdx_iff_getElem?.mp hmem
      have hi : i < l₁.length := (List.getElem?_eq_some_iff.mp hget).1
      refine ⟨hf i t' hget, ?_⟩
      intro n hn
      exact hu k (by omega) i (by omega) (by omega) n hn
    obtain ⟨hf', he', hl'⟩ := initChangeInfo_run
      (rootSegment_nodup ho.valid.nodup rs k) (.new hnodup hinfo) (by
        intro n hn hmem
        obtain ⟨p, hp, hlt⟩ := hidx n hmem
        obtain ⟨q, hq, hqk⟩ := (ho.segment k (by omega) n).mp hn
        rw [hp, some.injEq] at hq
        subst hq
        omega) hearlier hfold
    refine ⟨by rw [length_append, hl, List.length_singleton], ?_, hf'.nodup, hf'.stored, ?_⟩
    · intro i t' hi
      by_cases hlt : i < l₁.length
      · rw [List.getElem?_append_left hlt] at hi
        exact he' (_, t') (mem_map.mpr ⟨(t', i), List.mem_zipIdx_iff_getElem?.mpr hi, rfl⟩)
      · rw [List.getElem?_append_right (Nat.le_of_not_lt hlt)] at hi
        obtain ⟨h0, rfl⟩ := List.getElem?_eq_some_iff.mp hi
        rw [List.length_singleton] at h0
        have hik : i = k := by omega
        subst hik
        rw [getElem_singleton]
        exact hf'
    · intro n hn
      rcases hl' n hn with hn | hn
      · obtain ⟨p, hp, hlt⟩ := hidx n hn
        exact ⟨p, hp, by omega⟩
      · obtain ⟨p, hp, hpk⟩ := (ho.segment k (by omega) n).mp hn
        exact ⟨p, hp, by omega⟩

end

section
variable {ν : Type} [DecidableEq ν] {nodeToPriority : Table ν PriorityInfo} {s : LeafStore ν}
  {prio : ν → PriorityInfo} {ℓ ℓ' : LeafId}

omit [DecidableEq ν] in
theorem leafId_unique (h : s.leaves.Nodup) (hℓ : s.entries[ℓ]? = some (n, f))
    (hℓ' : s.entries[ℓ']? = some (n, f')) : ℓ = ℓ' := by
  have hn : s.leaves[ℓ]? = some n := by
    rw [LeafStore.leaves, List.getElem?_map, hℓ, map_some]
  have hn' : s.leaves[ℓ']? = some n := by
    rw [LeafStore.leaves, List.getElem?_map, hℓ', map_some]
  obtain ⟨hlt, -⟩ := List.getElem?_eq_some_iff.mp hn
  exact (List.getElem?_inj hlt h).mp (hn.trans hn'.symm)

variable (p' : Table ν PriorityInfo) (prio : ν → PriorityInfo)

theorem processLeaf_run (d : Bool) (hno : s.leaves.Nodup) (cs : List LeafId) :
    ∀ (seen : List LeafId)
    (q : BucketedPriorityQueue PriorityInfo ν), (∀ ℓ ∈ cs, ∃ n f, s.entries[ℓ]? = some (n, f) ∧
      p' n = some (prio n)) →
    ∃ (seen' : List LeafId) (q' : BucketedPriorityQueue PriorityInfo ν) (pushed : List ν),
      cs.foldlM (processLeaf p' s d) (seen, q) = .ok (seen', q') ∧
      q'.entries.Perm (pushed.map (fun n => (prio n, n)) ++ q.entries) ∧
      (∀ n ∈ pushed, ∃ ℓ ∈ cs, ∃ f, s.entries[ℓ]? = some (n, f)) ∧
      ∀ ℓ n f, s.entries[ℓ]? = some (n, f) → pushed.count n =
        if d = true then (if ℓ ∈ seen then 0 else min 1 (cs.count ℓ)) else cs.count ℓ := by
  induction cs with
  | nil =>
    intro seen q _
    refine ⟨seen, q, [], rfl, Perm.refl _, ?_, ?_⟩
    · intro n hn
      exact absurd hn not_mem_nil
    · intro ℓ n f _
      simp
  | cons ℓ cs ih =>
    intro seen q hcalls
    obtain ⟨n, f, hℓ, hp⟩ := hcalls ℓ mem_cons_self
    have hrest : ∀ ℓ ∈ cs, ∃ n f, s.entries[ℓ]? = some (n, f) ∧
        p' n = some (prio n) := fun m hm => hcalls m (mem_cons_of_mem ℓ hm)
    by_cases hskip : d = true ∧ ℓ ∈ seen
    · obtain ⟨hd, hmem⟩ := hskip
      obtain ⟨seen', q', pushed, hr, hperm, hin, hc⟩ := ih seen q hrest
      refine ⟨seen', q', pushed, ?_, hperm, ?_, ?_⟩
      · rw [foldlM_cons, processLeaf, hd, decide_eq_true hmem]
        rw [hd] at hr
        exact hr
      · intro m hm
        obtain ⟨ℓ', hℓ', h⟩ := hin m hm
        exact ⟨ℓ', mem_cons_of_mem ℓ hℓ', h⟩
      · intro ℓ' m f' he
        rw [hc ℓ' m f' he]
        split_ifs with hn
        · rfl
        · have hne : ℓ ≠ ℓ' := by
            rintro rfl
            exact hn hmem
          rw [count_cons_of_ne hne]
    · have hcond : (d && decide (ℓ ∈ seen)) = false := by
        rw [Bool.and_eq_false_iff, decide_eq_false_iff_not]
        cases d with
        | false => exact .inl rfl
        | true => exact .inr (fun hm => hskip ⟨rfl, hm⟩)
      obtain ⟨seen', q', pushed, hr, hperm, hin, hc⟩ :=
        ih (if d = true then ℓ :: seen else seen) (q.emplace (prio n) n) hrest
      refine ⟨seen', q', n :: pushed, ?_, ?_, ?_, ?_⟩
      · have hleaf : s.leafAt ℓ = .ok n := by rw [LeafStore.leafAt, hℓ]
        rw [foldlM_cons, processLeaf, hcond, hleaf]
        simp only [Bool.false_eq_true, if_false, except_ok_bind, hp]
        exact hr
      · refine hperm.trans ?_
        refine ((q.entries_emplace (prio n) n).append_left _).trans ?_
        exact perm_middle
      · intro m hm
        rcases mem_cons.mp hm with rfl | hm
        · exact ⟨ℓ, mem_cons_self, f, hℓ⟩
        · obtain ⟨ℓ', hℓ', h⟩ := hin m hm
          exact ⟨ℓ', mem_cons_of_mem ℓ hℓ', h⟩
      · intro ℓ' m f' he
        have hi : n = m ↔ ℓ = ℓ' := by
          constructor
          · rintro rfl
            exact leafId_unique hno hℓ he
          · rintro rfl
            rw [hℓ, some.injEq, Prod.mk.injEq] at he
            exact he.1
        rw [count_cons, hc ℓ' m f' he, count_cons]
        simp only [beq_iff_eq, hi]
        cases d with
        | false => simp
        | true =>
          have hs : ℓ ∉ seen := fun hm => hskip ⟨rfl, hm⟩
          simp only [↓reduceIte, mem_cons]
          by_cases hll : ℓ = ℓ'
          · subst hll
            simp only [true_or, ↓reduceIte, hs, Nat.zero_add]
            omega
          · simp [hll, Ne.symm hll]

def nodePushes (g : ExpressionGraph ν) (data : AffectedByChangeDecisionData) (cs : ChangeSet)
    (n : ν) : Nat :=
  match g.isAffectedByChange data n with
  | none => 0
  | some info => info.pushes cs

theorem computeChangedLeavesByRoot_spec (cs : ChangeSet) (hf : Filed g data ns s t)
    (hg : ls[root]? = some t) (hpr : ∀ n ∈ ns, p' n = some (prio n))
    (q : BucketedPriorityQueue PriorityInfo ν) :
    ∃ (q' : BucketedPriorityQueue PriorityInfo ν) (pushed : List ν),
      computeChangedLeavesByRoot p' s ls (some cs) root q = .ok q' ∧
      q'.entries.Perm (pushed.map (fun n => (prio n, n)) ++ q.entries) ∧
      ∀ n, pushed.count n = if n ∈ ns then nodePushes g data cs n else 0 := by
  have ho : ∀ ℓ ∈ leafCalls s t (some cs), ∃ n f, s.entries[ℓ]? = some (n, f) ∧ n ∈ ns := by
    intro ℓ hℓ
    by_contra hno
    have ha : t.Absent ℓ := by
      apply hf.other
      intro n f he hn
      exact hno ⟨n, f, he, hn⟩
    exact count_eq_zero.mp (leafCalls_count_absent ha) hℓ
  obtain ⟨seen, q', pushed, hr, hp, hin, hc⟩ :=
    processLeaf_run p' prio (shouldDedupeLeaves (some cs)) hf.nodup
      (leafCalls s t (some cs)) [] q (by
        intro ℓ hℓ
        obtain ⟨n, f, he, hn⟩ := ho ℓ hℓ
        exact ⟨n, f, he, hpr n hn⟩)
  have hin' : ∀ n ∈ pushed, n ∈ ns ∧ n ∈ s.leaves := by
    intro n hn
    obtain ⟨ℓ, hℓ, f, he⟩ := hin n hn
    obtain ⟨m, f', he', hm⟩ := ho ℓ hℓ
    rw [he, some.injEq, Prod.mk.injEq] at he'
    rw [he'.1]
    exact ⟨hm, he'.1 ▸ LeafStore.mem_leaves he⟩
  refine ⟨q', pushed, ?_, hp, ?_⟩
  · simp only [computeChangedLeavesByRoot, hg, hr]
    rfl
  · intro n
    split_ifs with hn
    · cases hi : g.isAffectedByChange data n with
      | none =>
        rw [nodePushes, hi, count_eq_zero]
        intro hmem
        obtain ⟨info, hinfo⟩ := hf.stored n (hin' n hmem).2
        rw [hi] at hinfo
        cases hinfo
      | some info =>
        obtain ⟨ℓ, ty, he, ht, hfiled⟩ := hf.known n hn info hi
        have hfilter : s.filter ℓ = info.filter := by
          rw [LeafStore.filter, he]
        rw [hc ℓ n _ he, nodePushes, hi, leafCalls_count hfiled hfilter]
        simp [pushes, ht]
    · rw [count_eq_zero]
      intro hmem
      exact hn (hin' n hmem).1

end

end Rebalancer
