import Rebalancer.AssignPlacement
import Rebalancer.PreferredCounts

namespace Rebalancer
open List AList GreedyState SetState AssocMap IdSet

open ObjectToContainerAssignmentUtils (Preferences)

namespace GreedyState

structure Noted (old : IdSet) (s : GreedyState) (cleared : IdSet) : Prop where
  mem_iff : ∀ q, q ∈ s.emptyContainers ↔ q ∈ old ∨ q ∈ cleared
  fresh : ∀ q ∈ cleared, q ∉ old

theorem Noted.noteEmpty (h : Noted old s c) (q : ContainerId) :
    Noted old (noteEmpty q s c).1 (noteEmpty q s c).2 := by
  rw [GreedyState.noteEmpty]
  split_ifs with hq
  · constructor
    · intro x
      rw [mem_insert, mem_insert, h.mem_iff, or_left_comm]
    · intro x hx hold
      rcases mem_insert.mp hx with rfl | hx
      · exact hq.2 ((h.mem_iff x).mpr (.inl hold))
      · exact h.fresh x hx hold
  · exact h

theorem noteEmpty_frame (q : ContainerId) (s : GreedyState) (c : IdSet) :
    (noteEmpty q s c).1.toSetState = s.toSetState ∧
      (noteEmpty q s c).1.containerToPreferredCount = s.containerToPreferredCount ∧
      ∀ x ∈ s.emptyContainers, x ∈ (noteEmpty q s c).1.emptyContainers := by
  rw [noteEmpty]
  split
  · exact ⟨rfl, rfl, fun x hx => mem_insert.mpr (.inr hx)⟩
  · exact ⟨rfl, rfl, fun x hx => hx⟩

theorem mem_noteEmpty (h : s.initialObjects q = []) (c : IdSet) :
    q ∈ (noteEmpty q s c).1.emptyContainers := by
  rw [noteEmpty]
  split_ifs with hq
  · exact mem_insert.mpr (.inl rfl)
  · by_contra hn
    exact hq ⟨h, hn⟩

/-- The loop over the preferred containers ends with the count used up or all preferred ones empty.
-/
structure PreferredVisited (c : ContainerId) (preferred : List ContainerId) (old : IdSet)
    (s t : GreedyState) (cleared : IdSet) : Prop where
  steps : s.view.Steps t.view
  noted : Noted old t cleared
  mono : ∀ q ∈ s.emptyContainers, q ∈ t.emptyContainers
  ended : t.containerToPreferredCount = s.containerToPreferredCount.erase c ∨
    t.containerToPreferredCount = s.containerToPreferredCount ∧
      ∀ q ∈ preferred, q ∈ t.emptyContainers

theorem finish_view {s : GreedyState} (h : s.objectCount c = 0) : (s.finish c).view = s.view :=
  eraseCount_view h

theorem assignPreferred_visited (old : IdSet) (c : ContainerId) (p : List ContainerId) :
    ∀ (s : GreedyState) (c' : IdSet), Noted old s c' →
      PreferredVisited c p old s (assignPreferred c p s c').1 (assignPreferred c p s c').2 := by
  induction p with
  | nil =>
    intro s c' h
    exact ⟨.refl, h, fun q hq => hq, .inr ⟨rfl, nofun⟩⟩
  | cons q p ih =>
    intro s c' h
    obtain ⟨ha, hend⟩ := s.assign_steps c q
    let moved : GreedyState := { s with toSetState := s.assign c q }
    have hn := Noted.noteEmpty (s := moved) ⟨h.mem_iff, h.fresh⟩ q
    obtain ⟨hset, hc, hm⟩ := noteEmpty_frame q moved c'
    have hs : s.view.Steps (noteEmpty q moved c').1.view := by
      rw [hset]
      exact ha
    rw [assignPreferred]
    split
    · rename_i hzero
      refine ⟨?_, ⟨hn.mem_iff, hn.fresh⟩, hm, .inl ?_⟩
      · rw [finish_view hzero]
        exact hs
      · exact congrArg (erase c) hc
    · rename_i hcount
      have hrest := ih (noteEmpty q moved c').1 (noteEmpty q moved c').2 hn
      have he := hrest.ended
      rw [hc] at he
      refine ⟨hs.trans hrest.steps, hrest.noted, fun x hx => hrest.mono x (hm x hx),
        he.imp_right fun hall => ⟨hall.1, ?_⟩⟩
      intro x hx
      rcases mem_cons.mp hx with rfl | hx
      · apply hrest.mono
        apply mem_noteEmpty
        rw [hset] at hcount
        exact hend.resolve_left hcount
      · exact hall.2 x hx

def visited (rt : Runtime) (equivSet : EquivalenceSetId) (p : Preferences) (round : Nat)
    (c : ContainerId) (preferred : List ContainerId) (s : GreedyState) : GreedyState :=
  { (assignPreferred c preferred s .empty).1 with
    containerToPreferredCount := updatePreferredCount rt equivSet round
      p.preferredContainerToContainers (assignPreferred c preferred s .empty).2
      (assignPreferred c preferred s .empty).1.containerToPreferredCount }

structure Picked (rt : Runtime) (equivSet : EquivalenceSetId) (p : Preferences) (round : Nat)
    (groups : List IdSet) (s : GreedyState) (c : ContainerId) (groups' : List IdSet) : Prop where
  found : findContainer rt equivSet round s.containerToPreferredCount 0 groups = some (c, groups')
  counted : ChoicesCounted p s.emptyContainers s.containerToPreferredCount
  mem : c ∈ s.containerToPreferredCount
  source : ∀ d ∈ s.containerToPreferredCount, ∃ group ∈ groups', d ∈ group

inductive Round (rt : Runtime) (equivSet : EquivalenceSetId) (p : Preferences) (round : Nat)
    (groups : List IdSet) (s : GreedyState) : List IdSet → GreedyState → Prop where
  | finish : Picked rt equivSet p round groups s c groups' → s.objectCount c = 0 →
    Round rt equivSet p round groups s groups' (s.finish c)
  | visit : Picked rt equivSet p round groups s c groups' → s.objectCount c ≠ 0 →
    p.containerToPreferredContainers.lookup c = some preferred →
    Round rt equivSet p round groups s groups' (s.visited rt equivSet p round c preferred)

theorem exists_round (rt : Runtime) (e : EquivalenceSetId) (p : Preferences) (r : Nat)
    (hco : ChoicesCounted p s.emptyContainers s.containerToPreferredCount)
    (hs : ∀ c ∈ s.containerToPreferredCount, ∃ group ∈ gs, c ∈ group)
    (hm : ¬ (s.containerToPreferredCount.size = 0 ∨ s.containerToObjectCount.size = 0)) :
    ∃ groups' s', Round rt e p r gs s groups' s' ∧
      run rt e p (r + 1) gs s = run rt e p r groups' s' := by
  obtain ⟨c₀, hc₀⟩ := exists_mem (not_or.mp hm).1
  obtain ⟨c, groups', hf, hc, hs'⟩ := findContainer_some rt e r hc₀ gs 0 hs
  have hpicked : Picked rt e p r gs s c groups' := ⟨hf, hco, hc, hs'⟩
  rw [run, if_neg hm]
  simp only [hf]
  split
  · rename_i hzero
    exact ⟨groups', s.finish c, .finish hpicked hzero, rfl⟩
  · rename_i hcount
    obtain ⟨n, hn⟩ := mem_iff_lookup.mp hc
    obtain ⟨-, preferred, hp, -⟩ := hco c n hn
    refine ⟨groups', s.visited rt e p r c preferred, .visit hpicked hcount hp, ?_⟩
    rw [hp]
    rfl

theorem assignPreferred_start (c : ContainerId) (p : List ContainerId) (s : GreedyState) :
    PreferredVisited c p s.emptyContainers s (assignPreferred c p s .empty).1
      (assignPreferred c p s .empty).2 :=
  assignPreferred_visited s.emptyContainers c p s .empty
    ⟨fun _ => (or_iff_left not_mem_nil).symm, nofun⟩

theorem PreferredVisited.counted (h : PreferredVisited c p' old s t c')
    (hc : ChoicesCounted p s.emptyContainers s.containerToPreferredCount) :
    ChoicesCounted p s.emptyContainers t.containerToPreferredCount := by
  rcases h.ended with he | he
  · rw [he]
    exact hc.erase c
  · rw [he.1]
    exact hc
variable {p : Preferences}

theorem visited_counted (rt : Runtime) (e : EquivalenceSetId)
    (hp : p.Consistent o) (r : Nat) {s : GreedyState}
    (hc : ChoicesCounted p s.emptyContainers s.containerToPreferredCount)
    (hpr : p.containerToPreferredContainers.lookup c = some p') :
    ChoicesCounted p (s.visited rt e p r c p').emptyContainers
        (s.visited rt e p r c p').containerToPreferredCount ∧
      (∀ d ∈ (s.visited rt e p r c p').containerToPreferredCount, d ∈ s.containerToPreferredCount) ∧
      c ∉ (s.visited rt e p r c p').containerToPreferredCount := by
  have hv := assignPreferred_start c p' s
  rw [visited]
  generalize assignPreferred c p' s .empty = t at hv ⊢
  have hk : ∀ d ∈ t.1.containerToPreferredCount, d ∈ s.containerToPreferredCount := by
    intro d hd
    rcases hv.ended with he | he
    · rw [he] at hd
      exact (mem_erase.mp hd).2
    · rwa [he.1] at hd
  have hu := (hv.counted hc).update rt e r hp hv.noted.mem_iff hv.noted.fresh
  refine ⟨hu, fun d hd => hk d (mem_of_mem_updatePreferredCount hd), ?_⟩
  rcases hv.ended with he | he
  · intro hd
    have hd' := mem_of_mem_updatePreferredCount hd
    rw [he] at hd'
    exact (mem_erase.mp hd').1 rfl
  · exact hu.not_mem hpr he.2

theorem Round.progress {r : Nat} (hp : p.Consistent o) (h : Round rt e p r gs s gs' s') :
    ChoicesCounted p s'.emptyContainers s'.containerToPreferredCount ∧
      (∀ c ∈ s'.containerToPreferredCount, ∃ group ∈ gs', c ∈ group) ∧
      s'.containerToPreferredCount.size < s.containerToPreferredCount.size := by
  cases h with
  | @finish c _ hpicked hzero =>
    have hsub : ∀ d ∈ (s.finish c).containerToPreferredCount, d ∈ s.containerToPreferredCount :=
      fun d hd => (mem_erase.mp hd).2
    exact ⟨hpicked.counted.erase c, fun d hd => hpicked.source d (hsub d hd),
      size_lt hsub hpicked.mem fun hc => (mem_erase.mp hc).1 rfl⟩
  | visit hpicked hcount hpreferred =>
    obtain ⟨hcounted, hsub, hn⟩ := visited_counted rt e hp r hpicked.counted hpreferred
    exact ⟨hcounted, fun d hd => hpicked.source d (hsub d hd), size_lt hsub hpicked.mem hn⟩

theorem Round.steps {r : Nat} (h : Round rt e p r gs s gs' s') : s.view.Steps s'.view := by
  cases h with
  | finish hp hzero =>
    rw [finish_view hzero]
    exact .refl
  | @visit c _ preferred hp hc hpreferred => exact (assignPreferred_start c preferred s).steps

variable (rt : Runtime) (e : EquivalenceSetId) (hp : p.Consistent order)
include hp

theorem run_rule {I : List IdSet → GreedyState → Prop} (hst : ∀ r gs s groups' s', I gs s →
      Round rt e p r gs s groups' s' → I groups' s') (r : Nat) :
    ∀ (gs : List IdSet) (s : GreedyState),
      ChoicesCounted p s.emptyContainers s.containerToPreferredCount →
      (∀ c ∈ s.containerToPreferredCount, ∃ group ∈ gs, c ∈ group) →
      s.containerToPreferredCount.size < r → I gs s →
      ∃ groups' t, run rt e p r gs s = .ok t.toSetState ∧ I groups' t ∧
        (t.containerToPreferredCount.size = 0 ∨ t.containerToObjectCount.size = 0) := by
  induction r with
  | zero =>
    intro gs s _ _ hsize
    exact absurd hsize (Nat.not_lt_zero _)
  | succ r ih =>
    intro gs s hc hs hsize hI
    by_cases hm : s.containerToPreferredCount.size = 0 ∨ s.containerToObjectCount.size = 0
    · refine ⟨gs, s, ?_, hI, hm⟩
      rw [run, if_pos hm]
    · obtain ⟨groups', s', hr, hrun⟩ := exists_round rt e p r hc hs hm
      obtain ⟨hc', hs', hlt⟩ := hr.progress hp
      rw [hrun]
      exact ih groups' s' hc' hs' (Nat.lt_of_lt_of_le hlt (Nat.le_of_lt_succ hsize))
        (hst r gs s groups' s' hI hr)

theorem run_ok (r : Nat) (gs : List IdSet) (s : GreedyState)
    (hc : ChoicesCounted p s.emptyContainers s.containerToPreferredCount)
    (hso : ∀ c ∈ s.containerToPreferredCount, ∃ group ∈ gs, c ∈ group)
    (hsi : s.containerToPreferredCount.size < r) :
    ∃ t, run rt e p r gs s = .ok t ∧ s.view.Steps t.view := by
  obtain ⟨-, t, hrun, hsteps, -⟩ := run_rule rt e hp
    (I := fun _ t => s.view.Steps t.view) (fun _ _ _ _ _ hs hr => hs.trans hr.steps)
    r gs s hc hso hsi .refl
  exact ⟨t.toSetState, hrun, hsteps⟩

end GreedyState

theorem initialPreferredCount_counted (rt : Runtime) (s : EquivalenceSetId)
    (hp : p.Consistent o) (cs : AssocMap ContainerId Nat) : ChoicesCounted p .empty
      (initialPreferredCount rt s p.containerToPreferredContainers cs) := by
  refine foldlRecOn (motive := ChoicesCounted p .empty) _ _ (fun _ _ hn => nomatch hn) ?_
  intro acc h e he
  split
  · have hl := mem_lookup_iff.mpr ((rt.order_perm _ _).mem_iff.mp he)
    refine forall_lookup_insert
      ⟨Int.natCast_pos.mpr (length_pos_iff.mpr (hp.nonempty _ _ hl)), e.2, hl, ?_⟩ h
    rw [choicesLeft, filter_eq_self.mpr]
    intro q _
    exact decide_eq_true not_mem_nil
  · exact h

namespace GreedyState

theorem start_counted (rt : Runtime) (e : EquivalenceSetId) (hp : p.Consistent o) (s : SetState) :
    ChoicesCounted p (start rt e p s).emptyContainers
      (start rt e p s).containerToPreferredCount := by
  refine ChoicesCounted.update rt e _ hp
    (initialPreferredCount_counted rt e hp s.containerToObjectCount) ?_ ?_
  · intro q
    exact (or_iff_right not_mem_nil).symm
  · intro q _
    exact not_mem_nil

theorem start_source (rt : Runtime) (e : EquivalenceSetId) (hp : p.Consistent o) (s : SetState) :
    ∀ c ∈ (start rt e p s).containerToPreferredCount, ∃ group ∈ o, c ∈ group := by
  intro c hc
  obtain ⟨n, hn⟩ := mem_iff_lookup.mp hc
  obtain ⟨-, preferred, hpreferred, -⟩ := start_counted rt e hp s c n hn
  exact hp.source c (mem_iff_lookup.mpr ⟨_, hpreferred⟩)

end GreedyState

variable (rt : Runtime) (equivSet : EquivalenceSetId)

def SetState.kept (s : SetState) : SetState :=
  (rt.order (.objectCounts equivSet) s.containerToObjectCount.keys).foldl keepInPlace s

theorem assignObjectToContainerForOneSet_run (hp : p.Consistent o) (s : SetState) :
    ∃ t : SetState, (s.kept rt equivSet).view.Steps t.view ∧
      assignObjectToContainerForOneSet rt equivSet p o s =
        .ok ((rt.order (.restCounts equivSet) t.containerToObjectCount.keys).foldl
          (assignRest rt equivSet) t).objectToContainer := by
  obtain ⟨t, ht, hs⟩ := run_ok rt equivSet hp _ o (start rt equivSet p (s.kept rt equivSet))
    (start_counted rt equivSet hp (s.kept rt equivSet))
    (start_source rt equivSet hp (s.kept rt equivSet)) (Nat.lt_succ_self _)
  refine ⟨t, hs, ?_⟩
  change (run rt equivSet p
    ((start rt equivSet p (s.kept rt equivSet)).containerToPreferredCount.size + 1) o
    (start rt equivSet p (s.kept rt equivSet)) >>= _) = _
  rw [ht]
  rfl

theorem assignObjectToContainerForOneSet_ok (hp : p.Consistent o')
    (h : s.view.Inv is t' b) (hf : Placement.Fits is t' bins) :
    ∃ m, assignObjectToContainerForOneSet rt equivSet p o' s = .ok m ∧
      (∀ o ∈ is, m.lookup o ≠ none) ∧ (∀ c, (is.filter fun o => m.lookup o = some c).card = t' c) ∧
      ∀ o, o ∉ is → m.lookup o = b o := by
  obtain ⟨t, hs, hr⟩ := assignObjectToContainerForOneSet_run rt equivSet hp s
  have hinv := (h.steps (foldl_steps keepInPlace_steps _ s)).steps hs
  have hrest := hinv.steps (foldl_steps (assignRest_steps rt equivSet)
    (rt.order (.restCounts equivSet) t.containerToObjectCount.keys) t)
  obtain ⟨ha, hcount⟩ := hrest.finished hf (foldl_assignRest_zero rt equivSet hf _ t hinv (by
      intro c hc
      rw [(rt.order_perm _ _).mem_iff] at hc
      rw [objectCount, AssocMap.getD_of_notMem hc]))
  exact ⟨_, hr, ha, hcount, hrest.frame⟩

end Rebalancer
