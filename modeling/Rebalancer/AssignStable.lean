import Rebalancer.AssignGreedy
import Rebalancer.PreferenceOrder

namespace Rebalancer

open ObjectToContainerAssignmentUtils Placement List GreedyState SetState

def familyOf (groups : List IdSet) : Set (Set ContainerId) :=
  { G | ∃ group ∈ groups, G = { c | c ∈ group } }

/-- No group contains two disjoint groups, one of them with two containers. -/
def Uncrowded (groups : List IdSet) : Prop := ∀ outer ∈ groups, ∀ inner ∈ groups, ∀ other ∈ groups,
    (∀ c ∈ inner, c ∈ outer) → (∀ c ∈ other, c ∈ outer) → (∀ c ∈ inner, c ∉ other) →
      inner.size ≤ 1 ∨ other.size = 0

theorem size_lt_of_ssubset {g h : IdSet} (hs : ∀ c ∈ g, c ∈ h) (hc : c ∈ h) (hnot : c ∉ g) :
    g.size < h.size := by
  have hn := nodup_cons.mpr ⟨hnot, g.nodup⟩
  apply (hn.subperm ?_).length_le
  intro x hx
  rcases mem_cons.mp hx with rfl | hx
  · exact hc
  · exact hs x hx

theorem eq_of_size_le_one {g : IdSet} (h : g.size ≤ 1) (hc : c ∈ g) (hd : d ∈ g) : c = d := by
  by_contra hne
  have hn : [c, d].Nodup := nodup_cons.mpr ⟨fun hm => hne (mem_singleton.mp hm), nodup_singleton d⟩
  have hsub : ∀ x ∈ [c, d], x ∈ g.elems := by
    intro x hx
    rcases mem_cons.mp hx with rfl | hx
    · exact hc
    · rw [mem_singleton.mp hx]
      exact hd
  exact Nat.not_succ_le_self 1 (le_trans (hn.subperm hsub).length_le h)

theorem Uncrowded.smallest_lt (h : Uncrowded gs) (hl : Laminar gs) (hg : g ∈ gs)
    (hs : 2 ≤ g.size) (hd : d ∈ g) (ha : a ∉ g) (hb : b ∈ gs) (hab : a ∈ b) (hq : q ∈ g)
    (hqb : q ∈ b) : smallestGroupSize gs d < smallestGroupSize gs a := by
  have hgb : ∀ c ∈ g, c ∈ b := by
    rcases hl g hg b hb with hsub | hsub | hdisjoint
    · exact hsub
    · exact absurd (hsub a hab) ha
    · exact absurd hqb (hdisjoint q hq)
  obtain ⟨e, he, hae, hr⟩ := exists_smallestGroup hb hab
  have hsub : ∀ c ∈ g, c ∈ e := by
    rcases hl g hg e he with hsub | hsub | hdisjoint
    · exact hsub
    · exact absurd (hsub a hae) ha
    · exfalso
      have heb : ∀ c ∈ e, c ∈ b := by
        rcases hl e he b hb with hsub | hsub | hdis
        · exact hsub
        · exact absurd (hsub q hqb) (hdisjoint q hq)
        · exact absurd hab (hdis a hae)
      rcases h b hb g hg e he hgb heb hdisjoint with ho | hzero
      · omega
      · exact absurd hzero (ne_of_gt (length_pos_of_mem hae))
  rw [← hr]
  exact lt_of_le_of_lt (smallestGroupSize_le hg hd) (size_lt_of_ssubset hsub hae ha)

theorem findContainer_head (h : findContainer rt e r cs s gs = some (c, gs')) :
    gs' <:+ gs ∧ ∃ group rest s, gs' = group :: rest ∧
      pickContainerToPlaceObjects cs (rt.order (.sourceGroup e r s) group.elems) = some c := by
  induction gs generalizing s with
  | nil => cases h
  | cons group gs ih =>
    rw [findContainer] at h
    cases hp : pickContainerToPlaceObjects cs (rt.order (.sourceGroup e r s) group.elems) with
    | none =>
      rw [hp] at h
      obtain ⟨hs, hh⟩ := ih h
      exact ⟨hs.trans (suffix_cons _ _), hh⟩
    | some d =>
      rw [hp] at h
      obtain ⟨rfl, rfl⟩ := h
      exact ⟨suffix_refl _, group, gs, s, rfl, hp⟩

/-- A container may take from its preferred ones: a group it is not in and that still has objects
has no container left to fill. -/
def Leavable (groups : List IdSet) (c : ContainerId)
    (s : Placement ContainerId ContainerId ObjectId) : Prop :=
  ∀ g ∈ groups, c ∉ g → ∀ b ∈ groups, c ∈ b → ∀ q ∈ g, q ∈ b → s.pool q ≠ [] →
    ∀ d ∈ g, s.remaining d = 0

theorem Leavable.steps (h : Leavable gs c s) (hs : s.Steps t) : Leavable gs c t := by
  intro g hg hc b hb hcb q hq hqb hp d hd
  apply hs.remaining_zero
  exact h g hg hc b hb hcb q hq hqb (fun hn => hp (hs.pool_nil hn)) d hd

def Drained (groups : List IdSet) (s : Placement ContainerId ContainerId ObjectId) : Prop :=
  ∀ g ∈ groups, ∀ d ∈ g, s.remaining d ≠ 0 → ∀ q ∈ g, s.pool q = []

theorem Drained.steps (h : Drained gs s) (hs : s.Steps t) : Drained gs t := by
  intro g hg d hd hne q hq
  apply hs.pool_nil
  exact h g hg d hd (fun hzero => hne (hs.remaining_zero hzero)) q hq

namespace SetState

variable (f : Set (Set ContainerId))

theorem keepSteps_self (s : SetState) (c : ContainerId) :
    KeepSteps f s.view (s.assign c c).view := by
  apply keepSteps_of_moves (s.assign_moves c c).1
  intro _ _ G _
  exact ⟨fun hin hout => absurd hin hout, fun hin hout => absurd hin hout⟩

theorem keepSteps_drained {s : SetState} (h : Drained gs s.view) (c p : ContainerId) :
    KeepSteps (familyOf gs) s.view (s.assign c p).view := by
  apply keepSteps_of_moves (s.assign_moves c p).1
  intro hpool hb G hG
  obtain ⟨g, hg, rfl⟩ := hG
  constructor
  · intro hc _ q hq
    exact h g hg c hc (ne_of_gt hb) q hq
  · intro hp _ d hd
    by_contra hne
    exact hpool (h g hg d hd hne p hp)

theorem keepInPlace_keepSteps (s : SetState) (c : ContainerId) :
    KeepSteps f s.view (s.keepInPlace c).view ∧
      ((s.keepInPlace c).objectCount c = 0 ∨ (s.keepInPlace c).initialObjects c = []) := by
  let kept := if c ∈ s.containerToInitialObjects ∧ c ∈ s.containerToObjectCount then
    s.assign c c else s
  have hk : KeepSteps f s.view kept.view ∧
      (kept.objectCount c = 0 ∨ kept.initialObjects c = []) := by
    change KeepSteps f s.view (ite _ _ _ : SetState).view ∧
      ((ite _ _ _ : SetState).objectCount c = 0 ∨ (ite _ _ _ : SetState).initialObjects c = [])
    split_ifs with hn
    · exact ⟨keepSteps_self f s c, (s.assign_moves c c).2⟩
    · refine ⟨.refl, ?_⟩
      by_cases hc : c ∈ s.containerToObjectCount
      · right
        rw [initialObjects, AssocMap.getD,
          AList.lookup_eq_none.mpr fun hi => hn ⟨hi, hc⟩, Option.getD_none]
      · left
        rw [objectCount, AssocMap.getD_of_notMem hc]
  have hv : (s.keepInPlace c).view = kept.view := by
    change (if kept.objectCount c = 0 then kept.eraseCount c else kept).view = _
    split_ifs with hzero
    · exact eraseCount_view hzero
    · rfl
  change KeepSteps f s.view (s.keepInPlace c).view ∧
    ((s.keepInPlace c).view.remaining c = 0 ∨ (s.keepInPlace c).view.pool c = [])
  rw [hv]
  exact hk

theorem foldl_keepInPlace_settled (cs : List ContainerId) (s : SetState) :
    KeepSteps f s.view (cs.foldl keepInPlace s).view ∧ ∀ c ∈ cs,
      (cs.foldl keepInPlace s).objectCount c = 0 ∨
        (cs.foldl keepInPlace s).initialObjects c = [] := by
  refine foldl_rule (P := fun done t => KeepSteps f s.view (view t) ∧
    ∀ c ∈ done, objectCount t c = 0 ∨ initialObjects t c = []) ?_ [] s ⟨.refl, nofun⟩
  rintro d _ done t ⟨hk, hs⟩
  obtain ⟨hd, he⟩ := keepInPlace_keepSteps f t d
  refine ⟨hk.trans hd, ?_⟩
  intro c hc
  rcases mem_append.mp hc with hc | hc
  · exact (hs c hc).imp hd.steps.remaining_zero hd.steps.pool_nil
  · rw [mem_singleton.mp hc]
    exact he

theorem assignFrom_keepSteps (c : ContainerId) (cs : List ContainerId) :
    ∀ s : SetState, Drained gs s.view →
      KeepSteps (familyOf gs) s.view (assignFrom c cs s).view := by
  induction cs with
  | nil =>
    intro s _
    exact .refl
  | cons p cs ih =>
    intro s h
    have ha := keepSteps_drained h c p
    rw [assignFrom]
    split
    · exact ha
    · exact ha.trans (ih _ (h.steps ha.steps))

theorem foldl_assignRest_keepSteps (rt : Runtime) (e : EquivalenceSetId)
    (cs : List ContainerId) (s : SetState) (h : Drained gs s.view) :
    KeepSteps (familyOf gs) s.view (cs.foldl (assignRest rt e) s).view := by
  refine foldlRecOn (motive := fun t => KeepSteps (familyOf gs) s.view (view t)) _ _ .refl ?_
  intro t ht c _
  apply ht.trans
  rw [assignRest]
  split
  · exact .refl
  · exact assignFrom_keepSteps c _ t (h.steps ht.steps)

end SetState

namespace GreedyState

theorem noteEmpty_emptied (h : ∀ x ∈ s.emptyContainers, s.initialObjects x = [])
    (q : ContainerId) (c : IdSet) :
    ∀ x ∈ (noteEmpty q s c).1.emptyContainers, s.initialObjects x = [] := by
  intro x hx
  rw [noteEmpty] at hx
  split_ifs at hx with hq
  · rcases IdSet.mem_insert.mp hx with rfl | hx
    · exact hq.1
    · exact h x hx
  · exact h x hx

structure PreferredKept (family : Set (Set ContainerId)) (c : ContainerId)
    (preferred : List ContainerId) (s t : GreedyState) : Prop where
  keeps : KeepSteps family s.view t.view
  emptied : ∀ q ∈ t.emptyContainers, t.initialObjects q = []
  mono : ∀ q ∈ s.emptyContainers, q ∈ t.emptyContainers
  ended : t.objectCount c = 0 ∨ ∀ q ∈ preferred, q ∈ t.emptyContainers

theorem assignPreferred_kept (rt : Runtime) (hl : Laminar gs) (c : ContainerId)
    (p' : List ContainerId) : ∀ (done : List ContainerId) (s : GreedyState) (c' : IdSet),
      getPreferredContainers rt gs c = done ++ p' → (∀ q ∈ done, s.initialObjects q = []) →
      (∀ q ∈ s.emptyContainers, s.initialObjects q = []) → Leavable gs c s.view →
      PreferredKept (familyOf gs) c p' s (assignPreferred c p' s c').1 := by
  induction p' with
  | nil =>
    intro done s c' _ _ he _
    exact ⟨.refl, he, fun q hq => hq, .inr nofun⟩
  | cons p p' ih =>
    intro done s c' hs hd he hleave
    obtain ⟨hmoves, hend⟩ := s.assign_moves c p
    have hp : p ∈ getPreferredContainers rt gs c := by
      rw [hs]
      exact mem_append_right _ mem_cons_self
    obtain ⟨b, hb, hcb, hpb⟩ := mem_getPreferredContainers.mp hp
    have hk : KeepSteps (familyOf gs) s.view (s.assign c p).view := by
      apply keepSteps_of_moves hmoves
      intro hpool _ G hG
      obtain ⟨g, hg, rfl⟩ := hG
      exact ⟨fun hc hp q hq => hd q (hl.mem_before hg hc hq hp hs),
        fun hp hc => hleave g hg hc b hb hcb p hp hpb hpool⟩
    have hsteps := hk.steps
    let moved : GreedyState := { s with toSetState := s.assign c p }
    obtain ⟨hset, -, hmono⟩ := noteEmpty_frame p moved c'
    have hm : ∀ q ∈ (noteEmpty p moved c').1.emptyContainers,
        (noteEmpty p moved c').1.initialObjects q = [] := by
      rw [hset]
      exact noteEmpty_emptied (s := moved) (fun q hq => hsteps.pool_nil (he q hq)) p c'
    have hv : (noteEmpty p moved c').1.view = (s.assign c p).view := by
      rw [hset]
    rw [assignPreferred]
    split
    · rename_i hzero
      have hf := finish_view hzero
      refine ⟨?_, ?_, hmono, .inl ?_⟩
      · rw [hf, hv]
        exact hk
      · intro q hq
        change ((noteEmpty p moved c').1.finish c).view.pool q = []
        exact hm q hq
      · change ((noteEmpty p moved c').1.finish c).view.remaining c = 0
        rw [hf]
        exact hzero
    · rename_i hcount
      have hpool : (s.assign c p).initialObjects p = [] := by
        rw [hset] at hcount
        exact hend.resolve_left hcount
      rw [append_cons] at hs
      have hd' : ∀ q ∈ done ++ [p], (noteEmpty p moved c').1.initialObjects q = [] := by
        intro q hq
        rw [hset]
        rcases mem_append.mp hq with hq | hq
        · exact hsteps.pool_nil (hd q hq)
        · rw [mem_singleton.mp hq]
          exact hpool
      have hrest := ih (done ++ [p]) (noteEmpty p moved c').1 (noteEmpty p moved c').2
        hs hd' hm (by rw [hv]; exact hleave.steps hsteps)
      have hkeeps := hrest.keeps
      rw [hv] at hkeeps
      refine ⟨hk.trans hkeeps, hrest.emptied, fun q hq => hrest.mono q (hmono q hq),
        hrest.ended.imp_right ?_⟩
      intro ha q hq
      rcases mem_cons.mp hq with rfl | hq
      · exact hrest.mono q (mem_noteEmpty hpool c')
      · exact ha q hq

structure Tracked (groups : List IdSet) (s : GreedyState) : Prop where
  emptied : ∀ q ∈ s.emptyContainers, s.initialObjects q = []
  pending : ∀ g ∈ groups, ∀ d ∈ g, s.objectCount d ≠ 0 →
    d ∈ s.containerToPreferredCount ∨ ∀ g ∈ groups, d ∈ g → ∀ q ∈ g, q ∈ s.emptyContainers
  settled : ∀ c, s.objectCount c = 0 ∨ s.initialObjects c = []

structure Prepared (rt : Runtime) (groups : List IdSet) (p : Preferences) (order : List IdSet) :
    Prop where
  consistent : p.Consistent order
  ranked : Ranked (smallestGroupSize groups) order
  preferred : ∀ c preferred, p.containerToPreferredContainers.lookup c = some preferred →
    preferred = getPreferredContainers rt groups c
  listed : ∀ g ∈ groups, ∀ c ∈ g, c ∈ p.containerToPreferredContainers

structure Stable (rt : Runtime) (groups : List IdSet) (p : Preferences) (order : List IdSet) : Prop
    extends Prepared rt groups p order where
  laminar : Laminar groups
  uncrowded : Uncrowded groups

theorem Tracked.leavable (hp : Stable rt gs p o)
    (h : s.Tracked gs) (hpi : Picked rt e p r ss s c ss')
    (hso : ss <:+ o) : Leavable gs c s.view := by
  intro g hg hc b hb hcb q hq hqb hpool d hd
  by_contra hne
  rcases h.pending g hg d hd hne with hmem | hdone
  · obtain ⟨hs, group, rest, _, rfl, hpick⟩ := findContainer_head hpi.found
    have hgroup : c ∈ group := (rt.order_perm _ _).mem_iff.mp (mem_of_pick hpick).1
    obtain ⟨g', hg', hd'⟩ := hpi.source d hmem
    have hle := (hp.ranked.suffix (hs.trans hso)).head_le hgroup hg' hd'
    rcases lt_or_ge g.size 2 with ho | ht
    · rw [eq_of_size_le_one (Nat.le_of_lt_succ ho) hq hd] at hpool
      exact hpool ((h.settled d).resolve_left hne)
    · exact Nat.not_lt_of_le hle (hp.uncrowded.smallest_lt hp.laminar hg ht hd hc hb hcb hq hqb)
  · exact hpool (h.emptied q (hdone g hg hd q hq))

theorem Tracked.finish {s : GreedyState} (h : s.Tracked groups) (hz : s.objectCount c = 0) :
    (s.finish c).Tracked groups := by
  have hv := finish_view hz
  have hp : (s.finish c).initialObjects = s.initialObjects := congrArg pool hv
  have hc : (s.finish c).objectCount = s.objectCount := congrArg remaining hv
  refine ⟨?_, ?_, ?_⟩
  · exact h.emptied
  · intro g hg d hd hne
    rw [hc] at hne
    refine (h.pending g hg d hd hne).imp_left fun hmem => AList.mem_erase.mpr ⟨?_, hmem⟩
    intro he
    rw [he] at hne
    exact hne hz
  · rw [hp, hc]
    exact h.settled

theorem Tracked.visited (e : EquivalenceSetId) (r : Nat) (hp : Stable rt groups p o)
    {s : GreedyState} (h : s.Tracked groups)
    (hc : ChoicesCounted p s.emptyContainers s.containerToPreferredCount)
    (hpr : p.containerToPreferredContainers.lookup c = some preferred)
    (hl : Leavable groups c s.view) :
    KeepSteps (familyOf groups) s.view (s.visited rt e p r c preferred).view ∧
      (s.visited rt e p r c preferred).Tracked groups := by
  have heq := hp.preferred c preferred hpr
  have hv := assignPreferred_start c preferred s
  have hk := assignPreferred_kept rt hp.laminar c preferred [] s .empty heq.symm nofun h.emptied hl
  rw [GreedyState.visited]
  generalize assignPreferred c preferred s .empty = t at hv hk ⊢
  refine ⟨hk.keeps, hk.emptied, ?_, ?_⟩
  · intro g hg d hd hne
    by_cases he : d = c
    · subst he
      right
      intro g' hg' hd' q hq
      apply hk.ended.resolve_left hne
      rw [heq]
      exact mem_getPreferredContainers.mpr ⟨g', hg', hd', hq⟩
    · have hne' : s.objectCount d ≠ 0 := fun hzero => hne (hk.keeps.steps.remaining_zero hzero)
      rcases h.pending g hg d hd hne' with hmem | hdone
      · have hm' : d ∈ t.1.containerToPreferredCount := by
          rcases hv.ended with hended | hended
          · rw [hended]
            exact AList.mem_erase.mpr ⟨he, hmem⟩
          · rw [hended.1]
            exact hmem
        obtain ⟨p', hp'⟩ := mem_iff_lookup.mp (hp.listed g hg d hd)
        refine ((hv.counted hc).mem_or_empty rt e r hp.consistent
          hv.noted.mem_iff hv.noted.fresh hm' hp').imp_right ?_
        intro ha g' hg' hd' q hq
        apply ha
        rw [hp.preferred d p' hp']
        exact mem_getPreferredContainers.mpr ⟨g', hg', hd', hq⟩
      · exact .inr fun g' hg' hd' q hq => hk.mono q (hdone g' hg' hd' q hq)
  · intro d
    exact (h.settled d).imp hk.keeps.steps.remaining_zero hk.keeps.steps.pool_nil

theorem Tracked.round {r : Nat} (hp : Stable rt gs p order) (h : s.Tracked gs)
    (hs : ss <:+ order) (hr : Round rt e p r ss s ss' s') :
    KeepSteps (familyOf gs) s.view s'.view ∧ s'.Tracked gs ∧ ss' <:+ order := by
  cases hr with
  | finish hpicked hzero =>
    rw [finish_view hzero]
    exact ⟨.refl, h.finish hzero, (findContainer_head hpicked.found).1.trans hs⟩
  | visit hpicked hc hpreferred =>
    obtain ⟨hk, ht⟩ := h.visited e r hp hpicked.counted hpreferred (h.leavable hp hpicked hs)
    exact ⟨hk, ht, (findContainer_head hpicked.found).1.trans hs⟩

theorem Tracked.drained {s : GreedyState} (h : s.Tracked gs)
    (hs : s.containerToPreferredCount.size = 0 ∨ s.containerToObjectCount.size = 0) :
    Drained gs s.view := by
  intro g hg d hd hne q hq
  rcases hs with hs | hs
  · rcases h.pending g hg d hd hne with hmem | hdone
    · exact absurd hmem (AssocMap.not_mem_of_size hs)
    · exact h.emptied q (hdone g hg hd q hq)
  · refine absurd ?_ hne
    change AssocMap.getD _ _ _ = _
    rw [AssocMap.getD, AList.lookup_eq_none.mpr (AssocMap.not_mem_of_size hs), Option.getD_none]

section
variable (rt : Runtime) (s : EquivalenceSetId)

theorem initiallyEmpty_emptied (os : ContainerToObjects) (hq : q ∈ initiallyEmpty rt s os) :
    AssocMap.getD os q [] = [] := by
  refine foldlRecOn (motive := fun acc : IdSet => ∀ q ∈ acc, AssocMap.getD os q [] = []) _ _
    ?_ ?_ q hq
  · exact nofun
  · intro acc ha e he x hx
    split_ifs at hx with hn
    · rcases IdSet.mem_insert.mp hx with rfl | hx
      · rw [AssocMap.getD, AList.mem_lookup_iff.mpr ((rt.order_perm _ _).mem_iff.mp he),
          Option.getD_some, hn]
      · exact ha x hx
    · exact ha x hx

theorem mem_initialPreferredCount :
    d ∈ initialPreferredCount rt s p counts ↔ d ∈ p ∧ d ∈ counts := by
  have hf : ∀ (entries : List (Sigma fun _ : ContainerId => List ContainerId))
      (acc : AssocMap ContainerId Int), d ∈ entries.foldl (fun acc entry =>
        if entry.1 ∈ counts then acc.insert entry.1 (entry.2.length : Int) else acc) acc ↔
      d ∈ entries.keys ∧ d ∈ counts ∨ d ∈ acc := by
    intro entries
    induction entries with
    | nil =>
      intro acc
      exact (or_iff_right fun h => not_mem_nil h.1).symm
    | cons e entries ih =>
      intro acc
      rw [foldl_cons, ih, keys_cons, mem_cons, or_and_right, or_assoc, or_left_comm]
      apply or_congr_right
      split_ifs with hc
      · rw [AList.mem_insert]
        apply or_congr_left
        constructor
        · intro hd
          exact ⟨hd, hd ▸ hc⟩
        · exact And.left
      · refine (or_iff_right ?_).symm
        intro hd
        exact hc (hd.1 ▸ hd.2)
  rw [initialPreferredCount, hf, or_iff_left (AList.notMem_empty d), keys,
    ((rt.order_perm _ p.entries).map Sigma.fst).mem_iff]
  rfl

end

theorem start_tracked (e : EquivalenceSetId) (hp : Stable rt groups p o)
    (hs : ∀ c, s.objectCount c = 0 ∨ s.initialObjects c = []) :
    (start rt e p s).Tracked groups := by
  refine ⟨fun q hq => initiallyEmpty_emptied rt e s.containerToInitialObjects hq, ?_, hs⟩
  intro g hg d hd hne
  have hc : d ∈ s.containerToObjectCount := by
    by_contra hnot
    apply hne
    change AssocMap.getD s.containerToObjectCount d 0 = 0
    rw [AssocMap.getD_of_notMem hnot]
  have hl := hp.listed g hg d hd
  obtain ⟨preferred, hpreferred⟩ := mem_iff_lookup.mp hl
  refine ((initialPreferredCount_counted rt e hp.consistent
    s.containerToObjectCount).mem_or_empty rt e _ hp.consistent
      (fun q => (or_iff_right not_mem_nil).symm) (fun q _ => not_mem_nil)
      ((mem_initialPreferredCount rt e).mpr ⟨hl, hc⟩) hpreferred).imp_right ?_
  intro ha g' hg' hd' q hq
  apply ha
  rw [hp.preferred d preferred hpreferred]
  exact mem_getPreferredContainers.mpr ⟨g', hg', hd', hq⟩

end GreedyState

theorem SetState.kept_resolved (f : Set (Set ContainerId)) (rt : Runtime)
    (e : EquivalenceSetId) (s : SetState) : KeepSteps f s.view (s.kept rt e).view ∧
      (s.kept rt e).view.Resolved := by
  obtain ⟨hk, hs⟩ := foldl_keepInPlace_settled f
    (rt.order (.objectCounts e) s.containerToObjectCount.keys) s
  refine ⟨hk, ?_⟩
  intro c
  by_cases hc : c ∈ s.containerToObjectCount
  · exact hs c ((rt.order_perm _ _).mem_iff.mpr hc)
  · exact .inl (hk.steps.remaining_zero (AssocMap.getD_of_notMem hc 0))

theorem assignObjectToContainerForOneSet_keepSteps (e : EquivalenceSetId)
    (hp : Stable rt gs p o) (s : SetState) :
    ∃ t : SetState, assignObjectToContainerForOneSet rt e p o s = .ok t.objectToContainer ∧
      KeepSteps (familyOf gs) s.view t.view := by
  let kept := s.kept rt e
  obtain ⟨hk, ha⟩ := s.kept_resolved (familyOf gs) rt e
  obtain ⟨sources, t, ht, ⟨hsteps, htracked, -⟩, hstop⟩ := run_rule rt e
    hp.consistent (I := fun sources t =>
      KeepSteps (familyOf gs) (start rt e p kept).view t.view ∧ t.Tracked gs ∧ sources <:+ o) (by
      intro r sources t s' t' hI hr
      obtain ⟨hkeep, htracked, hs⟩ := hI
      obtain ⟨hk', ht', hs'⟩ := htracked.round hp hs hr
      exact ⟨hkeep.trans hk', ht', hs'⟩) _ o
    (start rt e p kept)
    (start_counted rt e hp.consistent kept)
    (start_source rt e hp.consistent kept) (Nat.lt_succ_self _)
    ⟨.refl, start_tracked e hp ha, suffix_refl _⟩
  refine ⟨_, ?_, (hk.trans hsteps).trans (foldl_assignRest_keepSteps rt e
    (rt.order (.restCounts e) t.containerToObjectCount.keys) t.toSetState
    (htracked.drained hstop))⟩
  change (run rt e p ((start rt e p kept).containerToPreferredCount.size + 1) o
    (start rt e p kept) >>= _) = _
  rw [ht]
  rfl

end Rebalancer
