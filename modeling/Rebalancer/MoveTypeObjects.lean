import Rebalancer.MoveTypes

namespace Rebalancer
open List Exploration SearchView
variable {t : SwapMoveType}

theorem mem_dedupBy [DecidableEq κ] (l : List α) : ∀ {l' : List κ}, x ∈ dedupBy key l' l ↔
    key x ∉ l' ∧ l.find? (fun y => key y = key x) = some x := by
  induction l with
  | nil =>
    intro l'
    exact iff_of_false not_mem_nil nofun
  | cons y l ih =>
    intro l'
    rw [dedupBy, find?_cons]
    by_cases hk : key y = key x
    · rw [decide_eq_true hk, hk]
      split_ifs with hy
      · rw [ih]
        exact iff_of_false (fun h => h.1 hy) fun h => h.1 hy
      · rw [mem_cons, ih, or_iff_left fun h => h.1 mem_cons_self, and_iff_right hy,
          Option.some.injEq, eq_comm]
    · rw [decide_eq_false hk]
      split_ifs with hy
      · exact ih
      · rw [mem_cons, ih, mem_cons, not_or, or_iff_right fun h => hk (congrArg key h.symm),
          and_iff_right (Ne.symm hk)]

namespace Exploration

@[simp] theorem proposes_evaluate : Proposes (.evaluate moves) ms' ↔ ms' = moves := by
  constructor
  · intro h
    cases h
    rfl
  · intro h
    rw [h]
    exact .evaluate moves

@[simp] theorem proposes_several :
    Proposes (.several b ps) moves ↔ ∃ part ∈ ps, Proposes part moves := by
  constructor
  · intro h
    cases h with
    | several hpart h => exact ⟨_, hpart, h⟩
  · intro h
    obtain ⟨part, hpart, h⟩ := h
    exact .several hpart h

@[simp] theorem proposes_nothing : ¬ Proposes .nothing moves := by
  rw [nothing, proposes_several]
  exact fun h => absurd h.choose_spec.1 not_mem_nil

@[simp] theorem proposes_all : Proposes (.all moveSets) ms ↔ ms ∈ moveSets := by
  rw [all, proposes_several]
  constructor
  · intro h
    obtain ⟨part, hpart, h⟩ := h
    obtain ⟨m', hm', rfl⟩ := mem_map.mp hpart
    rw [proposes_evaluate.mp h]
    exact hm'
  · intro h
    exact ⟨_, mem_map_of_mem h, .evaluate ms⟩

theorem Proposes.of_mapM {l : List α} {f : α → Except String Exploration}
    (h : (l.mapM f >>= fun parts => .ok (.several b parts)) = .ok e) (hm : Proposes e ms) :
    ∃ x ∈ l, ∃ part, f x = .ok part ∧ Proposes part ms := by
  obtain ⟨p, hp, h⟩ := except_bind_ok h
  cases h
  obtain ⟨part, hpart, hm⟩ := proposes_several.mp hm
  obtain ⟨x, hx, he⟩ := of_mem_mapM_ok hp part hpart
  exact ⟨x, hx, part, he, hm⟩

end Exploration
variable {space : SearchSpace}

theorem SearchSpace.mem_of_mem_distinct {objects : List ObjectId}
    (h : o ∈ space.distinctObjects objects) : o ∈ objects :=
  mem_of_find?_eq_some ((mem_dedupBy _).mp h).2

theorem SearchSpace.mem_of_mem_group {objects : List ObjectId}
    (hs : s ∈ space.groupObjectsByEquivalenceSet objects) (ho : o ∈ s) : o ∈ objects := by
  obtain ⟨f, -, rfl⟩ := mem_map.mp hs
  exact (mem_filter.mp ho).1
variable {v : SearchView}

def SearchView.Unfixed (v : SearchView) (moves : MoveSet) : Prop :=
  ∀ move ∈ moves, move.object ∉ v.fixedObjects

theorem SearchView.not_mem_fixed (h : v.attemptMoveWithThisObject o = true) :
    o ∉ v.fixedObjects := of_decide_eq_true h

theorem exploreHotObjects_proposes
    (h : exploreHotObjects space v hot a c e' = .ok e) (hm : e.Proposes moves) :
    ∃ hotObject cold part, hotObject ∈ space.getDynamicObjects v hot ∧ a hotObject = true ∧
      cold ∈ space.acceptingContainers hot c ∧ e' hotObject cold = .ok part ∧
      part.Proposes moves := by
  obtain ⟨⟨hotObject, cold⟩, hpair, part, he, hm⟩ := hm.of_mapM h
  obtain ⟨hh, hc⟩ := mem_product.mp hpair
  obtain ⟨hh, ha⟩ := mem_filter.mp hh
  exact ⟨hotObject, cold, part, SearchSpace.mem_of_mem_distinct hh, ha, hc, he, hm⟩

theorem SingleMoveType.proposes (h : explore space v hot = .ok e) (hm : e.Proposes ms) :
    ∃ hotObject cold, v.attemptMoveWithThisObject hotObject = true ∧
      ms = [⟨hotObject, hot, cold⟩] := by
  obtain ⟨hotObject, cold, part, -, ha, -, he, hm⟩ := exploreHotObjects_proposes h hm
  cases he
  rw [exploreFromAllSingleMoves] at hm
  split at hm
  · exact absurd hm proposes_nothing
  · exact ⟨hotObject, cold, ha, proposes_evaluate.mp hm⟩

namespace SingleChainMoveType

def Draws (t : SingleChainMoveType) (space : SearchSpace) (v : SearchView)
    (hotContainer : ContainerId) (o : ObjectId) : Prop :=
  match t.partitionToExploreChainsWithinObjectGroup with
  | none => ∃ other ∈ space.containers, other ≠ hotContainer ∧ o ∈ space.getDynamicObjects v other
  | some partition => ∃ hotObject ∈ space.getDynamicObjects v hotContainer,
      hotObject ∉ v.fixedObjects ∧ ∃ groupId,
        partition.getOnlyGroupIdIfExists hotObject = .ok (some groupId) ∧
        o ∈ partition.getObjectIds groupId ∧ v.assignment o ∈ space.containers ∧
        v.assignment o ≠ hotContainer

theorem proposes {t : SingleChainMoveType}
    (h : t.explore space v hot = .ok e) (hm : e.Proposes ms) :
    ∃ hotObject otherObject otherContainer cold, v.attemptMoveWithThisObject hotObject = true ∧
      t.Draws space v hot otherObject ∧
      ms = generateMoveSet hotObject hot cold otherObject otherContainer := by
  obtain ⟨hotObject, cold, part, hhot, ha, -, he, hm⟩ := exploreHotObjects_proposes h hm
  rw [exploreFromAllSingleMoves] at he
  split at he
  · cases he
    exact absurd hm proposes_nothing
  · obtain ⟨o, hother, part, hpart, hm⟩ := hm.of_mapM he
    obtain ⟨hmem, hne⟩ := mem_filter.mp hother
    obtain ⟨others, ho, hpart⟩ := except_bind_ok hpart
    cases hpart
    obtain ⟨otherObject, hotherObject, rfl⟩ := mem_map.mp (proposes_all.mp hm)
    have hh : o ≠ hot := (of_decide_eq_true hne).1
    refine ⟨hotObject, otherObject, o, cold, ha, ?_, rfl⟩
    rw [Draws]
    rw [othersToExplore] at ho
    cases hp : t.partitionToExploreChainsWithinObjectGroup with
    | none =>
      rw [hp] at ho
      cases ho
      exact ⟨o, hmem, hh, SearchSpace.mem_of_mem_distinct (mem_filter.mp hotherObject).1⟩
    | some p =>
      rw [hp] at ho
      obtain ⟨group, hg, ho⟩ := except_bind_ok ho
      cases group with
      | none =>
        cases ho
        cases hotherObject
      | some g =>
        cases ho
        have hin := SearchSpace.mem_of_mem_distinct hotherObject
        obtain ⟨hin, hw⟩ := mem_filter.mp hin
        obtain ⟨hw, -⟩ := of_decide_eq_true hw
        refine ⟨hotObject, hhot, not_mem_fixed ha, g, hg, hin, ?_, ?_⟩
        · rw [hw]
          exact hmem
        · rw [hw]
          exact hh

end SingleChainMoveType

namespace BundleOptions

theorem mem_of_mem_bundlesOf (os : BundleOptions) (he : Bool)
    (sets : List (List ObjectId)) : ∀ w b, b ∈ os.bundlesOf he sets w →
      ∀ o ∈ b, ∃ eqSet, (eqSet ∈ w ∨ eqSet ∈ sets) ∧ o ∈ eqSet := by
  induction sets with
  | nil => exact nofun
  | cons eqSet sets ih =>
    intro w b h o ho
    have hh : b ∈ os.homogenousBundles eqSet → o ∈ eqSet := by
      intro h
      rw [homogenousBundles] at h
      split at h
      · rw [mem_singleton.mp h] at ho
        exact mem_of_mem_take ho
      · cases h
    have hl : ∀ w', (∀ eqSet' ∈ w', eqSet' ∈ w ∨ eqSet' = eqSet) → b ∈ os.bundlesOf he sets w' →
        ∃ eqSet', (eqSet' ∈ w ∨ eqSet' ∈ eqSet :: sets) ∧ o ∈ eqSet' := by
      intro w' hw' h
      obtain ⟨eqSet', hs', ho'⟩ := ih w' b h o ho
      refine ⟨eqSet', ?_, ho'⟩
      rcases hs' with hs' | hs'
      · rcases hw' eqSet' hs' with hs' | rfl
        · exact .inl hs'
        · exact .inr mem_cons_self
      · exact .inr (mem_cons_of_mem _ hs')
    have hp : ∀ eqSet' ∈ w ++ [eqSet], eqSet' ∈ w ∨ eqSet' = eqSet := by
      intro eqSet' hs'
      rw [mem_append, mem_singleton] at hs'
      exact hs'
    rw [bundlesOf] at h
    split at h
    · rcases mem_append.mp h with h | h
      · exact ⟨eqSet, .inr mem_cons_self, hh h⟩
      · exact hl _ (fun eqSet' hs' => .inl hs') h
    · split at h
      · rcases mem_append.mp h with h | h
        · exact ⟨eqSet, .inr mem_cons_self, hh h⟩
        · rcases mem_cons.mp h with rfl | h
          · obtain ⟨eqSet', hs', ho'⟩ := os.sample_mem _ o ho
            rcases hp eqSet' hs' with hs' | rfl
            · exact ⟨eqSet', .inl hs', ho'⟩
            · exact ⟨eqSet', .inr mem_cons_self, ho'⟩
          · exact hl _ (fun eqSet' hs' => hp eqSet' (mem_of_mem_tail hs')) h
      · rcases mem_append.mp h with h | h
        · exact ⟨eqSet, .inr mem_cons_self, hh h⟩
        · exact hl _ hp h

theorem mem_dynamic_of_mem_bundle {os : BundleOptions}
    (h : os.getObjectBundlesToExplore space v src = .ok bs) (hb : b ∈ bs)
    (ho : o ∈ b) : o ∈ space.getDynamicObjects v src := by
  rw [getObjectBundlesToExplore] at h
  split at h
  · cases h
  · obtain ⟨groups, hg, h⟩ := except_bind_ok h
    cases h
    obtain ⟨group, hgroup, hb⟩ := mem_flatMap.mp hb
    split at hb
    · cases hb
    · obtain ⟨s, hs, ho⟩ := os.mem_of_mem_bundlesOf _ _ [] b hb o ho
      have hs : s ∈ space.groupObjectsByEquivalenceSet group := hs.resolve_left not_mem_nil
      have hin := SearchSpace.mem_of_mem_group hs ho
      obtain ⟨index, hi, hg⟩ := except_bind_ok hg
      cases hg
      obtain ⟨i, -, rfl⟩ := mem_map.mp hgroup
      obtain ⟨e, he, rfl⟩ := mem_map.mp hin
      obtain ⟨he, -⟩ := mem_filter.mp he
      obtain ⟨he, hsrc⟩ := mem_filter.mp he
      obtain ⟨object, hobject, hk⟩ := of_mem_mapM_ok hi e he
      obtain ⟨g, -, hk⟩ := except_bind_ok hk
      cases hk
      obtain ⟨hobject, hd⟩ := mem_filter.mp hobject
      apply mem_filter.mpr
      exact ⟨hobject, decide_eq_true ⟨of_decide_eq_true hsrc, of_decide_eq_true hd⟩⟩

end BundleOptions

namespace SwapMoveType

theorem mem_of_mem_anchored (h : buildAnchoredBundle candidates a size = .ok b)
    (ho : o ∈ b) : o ∈ candidates := by
  rw [buildAnchoredBundle] at h
  split at h
  · cases h
  · split at h
    · cases h
    · split at h
      · cases h
      · rename_i ha
        dsimp only at h
        split at h
        · cases h
        · cases h
          rcases mem_cons.mp ho with rfl | ho
          · exact not_not.mp ha
          · exact (mem_filter.mp (mem_of_mem_take ho)).1

theorem mem_of_mem_coldBundle (h : coldBundle e v' os o' eqSet = .ok (some (size, b)))
    (ho : o ∈ b) : o ∈ eqSet := by
  cases eqSet with
  | nil => cases h
  | cons c rest =>
    simp only [coldBundle] at h
    split at h
    · cases h
    · split at h
      · cases h
      · obtain ⟨b', hb, h⟩ := except_bind_ok h
        cases h
        exact mem_of_mem_anchored hb ho

theorem candidates_of_generated (h : generateDimensionBasedSwapCandidates space enable v' os o' d =
      .ok cs) (he : e' ∈ cs) (hc : cold ∈ e'.2) : (v' = none ∧ e'.1 = [o'] ∧ cold.length ≤ 1) ∨
      (v' ≠ none ∧ (∀ o ∈ e'.1, o ∈ os) ∧ ∀ o ∈ cold, o ∈ d) := by
  cases v' with
  | none =>
    cases h
    cases mem_singleton.mp he
    obtain ⟨e, -, rfl⟩ := mem_map.mp hc
    exact .inl ⟨rfl, rfl, length_take_le 1 e⟩
  | some v' =>
    obtain ⟨b, hbundles, h⟩ := except_bind_ok h
    obtain ⟨size, -, h⟩ := of_mem_mapM_ok h e' he
    obtain ⟨hotBundle, hh, h⟩ := except_bind_ok h
    cases h
    refine .inr ⟨Option.some_ne_none _, fun o ho => mem_of_mem_anchored hh ho, ?_⟩
    intro o ho
    obtain ⟨⟨s', bundle⟩, hb, rfl⟩ := mem_map.mp hc
    obtain ⟨hb, -⟩ := mem_filter.mp hb
    obtain ⟨f, hf, hid⟩ := mem_filterMap.mp hb
    rw [id] at hid
    rw [hid] at hf
    obtain ⟨e, hs, hs'⟩ := of_mem_mapM_ok hbundles _ hf
    exact SearchSpace.mem_of_mem_group hs (mem_of_mem_coldBundle hs' ho)

def Draws (t : SwapMoveType) (space : SearchSpace) (v : SearchView) (hotContainer : ContainerId)
    (o : ObjectId) : Prop :=
  ((t.bundleOptions hotContainer).isSome ∨ t.swapRatioDimension.isSome) ∧
    (o ∈ space.getDynamicObjects v hotContainer ∨ ∃ cold ∈ space.acceptingContainers hotContainer
        (t.customColdContainers.map fun custom => custom hotContainer),
        o ∈ space.getDynamicObjects v cold)

theorem shouldTry_head (h : t.shouldTryColdObjectBundle v b = true) (hl : b.length ≤ 1) :
    ∀ o ∈ b, o ∉ v.fixedObjects := by
  match b with
  | [] => exact nofun
  | [representativeObj] =>
    intro o ho
    rw [mem_singleton.mp ho]
    exact not_mem_fixed (Bool.and_eq_true_iff.mp h).1

theorem swapMoves_unfixed (hh : ∀ o ∈ c.1, o ∉ v.fixedObjects)
    (hc : ∀ o ∈ c.2, o ∉ v.fixedObjects) : v.Unfixed (swapMoves hot cold c) := by
  intro move hm
  rcases mem_append.mp hm with hm | hm
  · obtain ⟨o, ho, rfl⟩ := mem_map.mp hm
    exact hh o ho
  · obtain ⟨o, ho, rfl⟩ := mem_map.mp hm
    exact hc o ho

theorem coldObjects_cases (h : t.coldObjects space v o' cold = .ok (some os)) :
    os = space.getDynamicObjects v cold ∨ ∀ o ∈ os, o ∉ v.fixedObjects := by
  rw [coldObjects] at h
  split at h
  · cases h
    exact .inl rfl
  · obtain ⟨g, -, h⟩ := except_bind_ok h
    cases g with
    | none => cases h
    | some i =>
      cases h
      apply Or.inr
      intro o ho
      exact (of_decide_eq_true (mem_filter.mp ho).2).2

theorem mem_dynamic_of_hotObjectsInEquivSet (h : t.hotObjectsInEquivSet space v hot o' = .ok os)
    (ho : o ∈ os) :
    o ∈ space.getDynamicObjects v hot := by
  rw [hotObjectsInEquivSet] at h
  split at h
  · cases h
  · cases h
    exact (mem_filter.mp ho).1

theorem exploreColdContainer_unfixed (h : t.exploreColdContainer space v hot o' cold = .ok e)
    (hm : e.Proposes ms)
    (hhot : o' ∉ v.fixedObjects)
    (hco : cold ∈ space.acceptingContainers hot (t.customColdContainers.map fun custom =>
    custom hot))
    (hdr : ∀ o, t.Draws space v hot o → o ∉ v.fixedObjects) : v.Unfixed ms := by
  obtain ⟨d, hdynamic, h⟩ := except_bind_ok h
  cases d with
  | none =>
    cases h
    exact absurd hm proposes_nothing
  | some d =>
    obtain ⟨hotObjects, hh, h⟩ := except_bind_ok h
    obtain ⟨c, hcandidates, h⟩ := except_bind_ok h
    cases h
    obtain ⟨part, hpart, hm⟩ := proposes_several.mp hm
    obtain ⟨candidate, hc, rfl⟩ := mem_map.mp hpart
    rw [proposes_evaluate.mp hm]
    obtain ⟨hc, -⟩ := mem_filter.mp hc
    obtain ⟨i, hi, hc⟩ := mem_flatMap.mp hc
    obtain ⟨b, hb, rfl⟩ := mem_map.mp hc
    obtain ⟨hb, ht⟩ := mem_filter.mp hb
    rcases candidates_of_generated hcandidates hi hb with
      ⟨-, hs, hl⟩ | ⟨hvalue, hin, hin'⟩
    · apply swapMoves_unfixed
      · intro o ho
        rw [hs] at ho
        rw [mem_singleton.mp ho]
        exact hhot
      · exact shouldTry_head ht hl
    · have hr : t.swapRatioDimension.isSome = true := by
        cases hd : t.swapRatioDimension with
        | none =>
          rw [hd] at hvalue
          exact absurd rfl hvalue
        | some => rfl
      apply swapMoves_unfixed
      · intro o ho
        exact hdr o ⟨.inr hr, .inl (mem_dynamic_of_hotObjectsInEquivSet hh (hin o ho))⟩
      · intro o ho
        rcases coldObjects_cases hdynamic with heq | hu
        · rw [heq] at hin'
          exact hdr o ⟨.inr hr, .inr ⟨cold, hco, hin' o ho⟩⟩
        · exact hu o (hin' o ho)

theorem exploreBundles_unfixed (h : t.exploreBundles space v hot os = .ok e) (hm : e.Proposes ms)
    (hop : t.bundleOptions hot = some os) (hdr : ∀ o, t.Draws space v hot o → o ∉ v.fixedObjects) :
    v.Unfixed ms := by
  have hsome : (t.bundleOptions hot).isSome = true := by
    rw [hop]
    rfl
  obtain ⟨cold, hcold, part, hpart, hm⟩ := hm.of_mapM h
  obtain ⟨s, hsrc, hpart⟩ := except_bind_ok hpart
  obtain ⟨d, hd, hpart⟩ := except_bind_ok hpart
  cases hpart
  obtain ⟨c, hc, rfl⟩ := mem_map.mp (proposes_all.mp hm)
  obtain ⟨hc, -⟩ := mem_filter.mp hc
  obtain ⟨hf, hs⟩ := mem_product.mp hc
  apply swapMoves_unfixed
  · intro o ho
    exact hdr o ⟨.inl hsome, .inl (BundleOptions.mem_dynamic_of_mem_bundle hsrc hf ho)⟩
  · intro o ho
    exact hdr o ⟨.inl hsome, .inr ⟨cold, hcold, BundleOptions.mem_dynamic_of_mem_bundle hd hs ho⟩⟩

theorem unfixed (h : t.explore space v hot = .ok e) (hm : e.Proposes ms)
    (hd : ∀ o, t.Draws space v hot o → o ∉ v.fixedObjects) : v.Unfixed ms := by
  have ha : ∀ o, t.attemptMoveWithThisObject v o = true → o ∉ v.fixedObjects := by
    intro o ho
    exact not_mem_fixed (Bool.and_eq_true_iff.mp ho).1
  rw [explore] at h
  split at h
  · exact exploreBundles_unfixed h hm ‹_› hd
  · split at h
    · obtain ⟨hotObject, hh, part, hpart, hm⟩ := hm.of_mapM h
      obtain ⟨cold, hc, part, hpart, hm⟩ := hm.of_mapM hpart
      exact exploreColdContainer_unfixed hpart hm (ha hotObject (mem_filter.mp hh).2) hc hd
    · obtain ⟨hotObject, cold, part, -, hattempt, hc, hpart, hm⟩ := exploreHotObjects_proposes h hm
      exact exploreColdContainer_unfixed hpart hm (ha hotObject hattempt) hc hd

end SwapMoveType

namespace SwapNMoveType

def Draws (t : SwapNMoveType) (space : SearchSpace) (v : SearchView) (hotContainer : ContainerId)
    (o : ObjectId) : Prop :=
  (o ∈ space.getDynamicObjects v hotContainer ∧ o ∈ t.sourceObjectIds) ∨
    ∃ scope ∈ t.swapNDestinationScope, ∃ container ∈ scope,
      (space.getDynamicObjects v container).head? = some o

theorem head_of_destinationObjectIds
    (h : destinationObjectIds space v ds pick = .ok os) (ho : o ∈ os) :
    ∃ containerIds ∈ ds, ∃ container ∈ containerIds,
      (space.getDynamicObjects v container).head? = some o := by
  rw [destinationObjectIds] at h
  split at h
  · cases h
  · rename_i containerIds hc
    obtain ⟨i, -, hi⟩ := of_mem_mapM_ok h o ho
    split at hi
    · cases hi
    · rename_i container hcontainer
      split at hi
      · cases hi
      · rename_i f rest hd
        cases hi
        refine ⟨containerIds, mem_of_getElem? hc, container, mem_of_getElem? hcontainer, ?_⟩
        rw [hd]
        rfl

theorem mem_of_mem_generate (h : move ∈ generate space v m destinationObjects) :
    move.object ∈ m ∨ move.object ∈ destinationObjects := by
  rw [generate] at h
  split at h
  · cases h
  · obtain ⟨⟨o, o'⟩, hp, hm⟩ := mem_flatMap.mp h
    obtain ⟨ho, ho'⟩ := of_mem_zip hp
    rcases mem_cons.mp hm with rfl | hm
    · exact .inl ho
    · rw [mem_singleton.mp hm]
      exact .inr ho'

theorem unfixed {t : SwapNMoveType} (h : t.explore space v hot = .ok e) (hmo : e.Proposes ms)
    (hd : ∀ o, t.Draws space v hot o → o ∉ v.fixedObjects) : v.Unfixed ms := by
  rw [explore] at h
  split at h
  · cases h
    exact absurd hmo proposes_nothing
  · obtain ⟨m, hm, h⟩ := except_bind_ok h
    cases h
    obtain ⟨hmo, -⟩ := mem_filter.mp (proposes_all.mp hmo)
    obtain ⟨pick, -, hp⟩ := of_mem_mapM_ok hm ms hmo
    obtain ⟨objects, hobjects, hp⟩ := except_bind_ok hp
    cases hp
    intro move hmove
    apply hd
    rcases mem_of_mem_generate hmove with ho | ho
    · obtain ⟨ho, hs⟩ := mem_filter.mp (mem_of_mem_take ho)
      exact .inl ⟨ho, of_decide_eq_true hs⟩
    · obtain ⟨i, hc, c, hcontainer, hh⟩ := head_of_destinationObjectIds hobjects ho
      obtain ⟨s, hscope, rfl⟩ := mem_map.mp (mem_filter.mp hc).1
      exact .inr ⟨s, hscope, c, (mem_filter.mp hcontainer).1, hh⟩

end SwapNMoveType

variable {t : GreedyGroupToScopeItemMoveType}

namespace GreedyGroupToScopeItemMoveType

def Draws (t : GreedyGroupToScopeItemMoveType) (space : SearchSpace) (v : SearchView)
    (hotContainer : ContainerId) (o : ObjectId) : Prop :=
  ∃ hotObject ∈ space.getDynamicObjects v hotContainer, ∃ groupId,
    t.partition.getOnlyGroupIdIfExists hotObject = .ok (some groupId) ∧
      o ∈ t.partition.getObjectIds groupId

theorem mem_of_mem_exploreMovingGroup (h : (t.exploreMovingGroup space v objects ds).Proposes ms)
    (hm : move ∈ ms) : move.object ∈ objects := by
  obtain ⟨part, hpart, h⟩ := proposes_several.mp h
  obtain ⟨containers, -, rfl⟩ := mem_map.mp hpart
  rw [sampleContainersAndEvaluate] at h
  split at h
  · exact absurd h proposes_nothing
  · obtain ⟨h, -⟩ := mem_filter.mp (proposes_all.mp h)
    obtain ⟨s, -, rfl⟩ := mem_map.mp h
    rw [generateRandomSampleAndMoveSet] at hm
    split at hm
    · cases hm
    · obtain ⟨⟨o, c⟩, hp, rfl⟩ := mem_map.mp hm
      exact (of_mem_zip hp).1

theorem exploreHotObjects_group (os : List ObjectId) : ∀ seen ps,
      t.exploreHotObjects space v hot os seen = .ok ps → ∀ part ∈ ps,
        ∃ hotObject ∈ os, ∃ groupId destinations,
          t.partition.getOnlyGroupIdIfExists hotObject = .ok (some groupId) ∧
          part = t.exploreMovingGroup space v (t.partition.getObjectIds groupId) destinations := by
  induction os with
  | nil =>
    intro seen ps h part hpart
    cases h
    cases hpart
  | cons hotObject os ih =>
    intro seen ps h part hpart
    rw [exists_mem_cons_iff]
    rw [exploreHotObjects] at h
    obtain ⟨g, hg, h⟩ := except_bind_ok h
    cases g with
    | none => exact .inr (ih seen ps h part hpart)
    | some groupId =>
      simp only at h
      split at h
      · exact .inr (ih seen ps h part hpart)
      · obtain ⟨destinations, -, h⟩ := except_bind_ok h
        obtain ⟨rest, hrest, h⟩ := except_bind_ok h
        cases h
        rcases mem_cons.mp hpart with rfl | hpart
        · exact .inl ⟨groupId, destinations, hg, rfl⟩
        · exact .inr (ih _ rest hrest part hpart)

theorem unfixed (h : t.explore space v hot = .ok e) (hmo : e.Proposes ms)
    (hd : ∀ o, t.Draws space v hot o → o ∉ v.fixedObjects) : v.Unfixed ms := by
  obtain ⟨p, hp, h⟩ := except_bind_ok h
  cases h
  obtain ⟨part, hpart, hmo⟩ := proposes_several.mp hmo
  obtain ⟨hotObject, hh, g, d, hg, rfl⟩ := exploreHotObjects_group _ _ p hp part hpart
  intro move hm
  exact hd _ ⟨hotObject, hh, g, hg, mem_of_mem_exploreMovingGroup hmo hm⟩

end GreedyGroupToScopeItemMoveType

variable {t : ColocateGroupsMoveType}

namespace ColocateGroupsMoveType

def Draws (t : ColocateGroupsMoveType) (space : SearchSpace) (v : SearchView)
    (hotContainer : ContainerId) (o : ObjectId) : Prop :=
  ∃ hotObject ∈ space.getDynamicObjects v hotContainer, ∃ groupId related,
    t.partition.getOnlyGroupIdIfExists hotObject = .ok (some groupId) ∧
      t.groupIdToRelatedGroups.lookup groupId = some related ∧
      (o = hotObject ∨ ∃ relatedGroupId ∈ related.relatedGroups,
        o ∈ t.partition.getObjectIds relatedGroupId ∧
          v.assignment o ∈ t.sourceContainers hotContainer)

theorem mem_of_mem_representatives (gs : List GroupId) :
    ∀ o ∈ t.getRepresentativeObjectPerGroup v i h sources gs, o = h ∨ ∃ relatedGroupId ∈ gs,
        o ∈ t.partition.getObjectIds relatedGroupId ∧ v.assignment o ∈ sources := by
  induction gs with
  | nil => exact nofun
  | cons g gs ih =>
    intro o ho
    rw [getRepresentativeObjectPerGroup] at ho
    split at ho
    · cases ho
    · rename_i r hr
      rcases mem_cons.mp ho with rfl | ho
      · split at hr
        · cases hr
          exact .inl rfl
        · refine .inr ⟨g, mem_cons_self, mem_of_find?_eq_some hr, ?_⟩
          have hs := find?_some hr
          exact of_decide_eq_true hs
      · rcases ih o ho with heq | ⟨relatedGroupId, hmem, hin⟩
        · exact .inl heq
        · exact .inr ⟨relatedGroupId, mem_cons_of_mem _ hmem, hin⟩

theorem mem_of_mem_moveSets (h : ms ∈ t.getMoveSetsForRelatedGroups space v r s representatives)
    (hm : move ∈ ms) : move.object ∈ representatives := by
  obtain ⟨item, -, h⟩ := mem_flatMap.mp h
  obtain ⟨containers, -, rfl⟩ := mem_map.mp h
  obtain ⟨⟨o, c⟩, hp, rfl⟩ := mem_map.mp hm
  exact (of_mem_zip hp).1

theorem exploreHotObjects_related (os : List ObjectId) : ∀ seen ps,
      t.exploreHotObjects space v hot os seen = .ok ps → ∀ part ∈ ps,
        ∃ hotObject ∈ os, ∃ groupId related,
          t.partition.getOnlyGroupIdIfExists hotObject = .ok (some groupId) ∧
          t.groupIdToRelatedGroups.lookup groupId = some related ∧
          part = .all (t.getMoveSetsForRelatedGroups space v related (t.getScopeItemId hot)
            (t.getRepresentativeObjectPerGroup v groupId hotObject (t.sourceContainers hot)
              related.relatedGroups)) := by
  induction os with
  | nil =>
    intro seen ps h part hpart
    cases h
    cases hpart
  | cons hotObject os ih =>
    intro seen ps h part hpart
    rw [exists_mem_cons_iff]
    rw [exploreHotObjects] at h
    obtain ⟨g, hg, h⟩ := except_bind_ok h
    cases g with
    | none => exact .inr (ih seen ps h part hpart)
    | some groupId =>
      simp only at h
      split at h
      · exact .inr (ih seen ps h part hpart)
      · rename_i related hr
        split at h
        · exact .inr (ih seen ps h part hpart)
        · obtain ⟨rest, hrest, h⟩ := except_bind_ok h
          split at h
          · cases h
            exact .inr (ih _ _ hrest part hpart)
          · cases h
            rcases mem_cons.mp hpart with rfl | hpart
            · exact .inl ⟨groupId, related, hg, hr, rfl⟩
            · exact .inr (ih _ rest hrest part hpart)

theorem unfixed (h : t.explore space v hot = .ok e) (hmo : e.Proposes ms)
    (hd : ∀ o, t.Draws space v hot o → o ∉ v.fixedObjects) : v.Unfixed ms := by
  obtain ⟨p, hp, h⟩ := except_bind_ok h
  cases h
  obtain ⟨part, hpart, hmo⟩ := proposes_several.mp hmo
  obtain ⟨hotObject, hh, g, r, hg, hr, rfl⟩ := exploreHotObjects_related _ _ p hp part hpart
  intro move hm
  have ho := mem_of_mem_moveSets (proposes_all.mp hmo) hm
  exact hd _ ⟨hotObject, SearchSpace.mem_of_mem_distinct hh, g, r, hg, hr,
    mem_of_mem_representatives _ _ ho⟩

end ColocateGroupsMoveType

namespace MoveType

/-- The objects that a move type can put into a move set without asking whether they are fixed. -/
def Draws (space : SearchSpace) (v : SearchView) (hotContainer : ContainerId) :
    MoveType → ObjectId → Prop
  | single, _ => False
  | singleChain t, o => t.Draws space v hotContainer o
  | swap t, o => t.Draws space v hotContainer o
  | swapN t, o => t.Draws space v hotContainer o
  | greedyGroupToScopeItem t, o => t.Draws space v hotContainer o
  | colocateGroups t, o => t.Draws space v hotContainer o

theorem explore_unfixed {m : MoveType} (h : m.explore space v hot = .ok e)
    (hmo : e.Proposes ms) (hd : ∀ o, m.Draws space v hot o → o ∉ v.fixedObjects) :
    v.Unfixed ms := by
  cases m with
  | single =>
    obtain ⟨hotObject, cold, ha, rfl⟩ := SingleMoveType.proposes h hmo
    intro move hm
    rw [mem_singleton.mp hm]
    exact not_mem_fixed ha
  | singleChain t =>
    obtain ⟨hotObject, otherObject, other, cold, ha, hother, rfl⟩ :=
      SingleChainMoveType.proposes h hmo
    intro move hm
    rcases mem_cons.mp hm with rfl | hm
    · exact hd _ hother
    · rw [mem_singleton.mp hm]
      exact not_mem_fixed ha
  | swap t => exact SwapMoveType.unfixed h hmo hd
  | swapN t => exact SwapNMoveType.unfixed h hmo hd
  | greedyGroupToScopeItem t => exact GreedyGroupToScopeItemMoveType.unfixed h hmo hd
  | colocateGroups t => exact ColocateGroupsMoveType.unfixed h hmo hd

end MoveType

end Rebalancer
