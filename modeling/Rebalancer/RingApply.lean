import Rebalancer.RingPushes

namespace Rebalancer
open List GroupRoutingRing Orchestrator Context

inductive RingNodeState (τ : Type) where
  | ring (state : RingState)
  | other (state : τ)

def RingNodeState.mapRing (f : RingState → RingState) : RingNodeState τ → RingNodeState τ
  | .ring state => .ring (f state)
  | .other state => .other state

namespace Orchestrator
variable {ν T τ : Type} [DecidableEq ν]

/-- Node `r` is a routing ring with a constant value; the others leave the state of the ring alone.
-/
def withRing (ring : GroupRoutingRing) (r : ν)
    (others : ApplyExpressions ν ℚ T (RingNodeState τ) Assignment) :
    ApplyExpressions ν ℚ T (RingNodeState τ) Assignment where
  value
    | .ring _ => 0
    | .other state => others.value (.other state)
  partialApply n view assignment changes store :=
    if n = r then
      (0, fun m => if m = r then (store r).mapRing (ring.innerPartialApply changes) else store m)
    else
      let result := others.partialApply n view assignment changes store
      (result.1, fun m => if m = r then store r else result.2 m)
  nested := others.nested

section
variable {g : ExpressionGraph ν} {data : AffectedByChangeDecisionData} {cs : ChangeSet}
  {o : Orchestrator ν} {ring : GroupRoutingRing} {r : ν}
  {os : ApplyExpressions ν ℚ T (RingNodeState τ) Assignment}

/-- The ring has been updated once for every time it was taken from the queue, and its value is
never cached. -/
structure RingTrace (g : ExpressionGraph ν) (data : AffectedByChangeDecisionData) (cs : ChangeSet)
    (o : Orchestrator ν) (ring : GroupRoutingRing) (r : ν) (nested : ν → List ν) (start : RingState)
    (popped ran : List ν) (st : ApplyState ν ℚ T (RingNodeState τ)) : Prop where
  trace : Trace g data cs nested o popped ran st
  store : st.store r = .ring ((ring.innerPartialApply cs)^[popped.count r] start)
  cached : st.ctx.apply r = none

section
variable {p ran : List ν} {st : ApplyState ν ℚ T (RingNodeState τ)} (h : o.Sound g data)
  (ht : RingTrace g data cs o ring r os.nested s p ran st)
include h ht

theorem RingTrace.step_ring (a : Assignment)
    (hq : st.ctx.readyNodes.entries = x :: q.entries) (hx : x.2 = r) :
    ∃ st', o.applyReady (withRing ring r os) a (st.setReady q) x.2 = .ok st' ∧
      RingTrace g data cs o ring r os.nested s (p ++ [x.2]) (ran ++ [x.2]) st' ∧
      o.potential st'.ctx + 1 = o.potential st.ctx := by
  have hc : st.ctx.apply x.2 = none := by rw [hx, ht.cached]
  obtain ⟨st', hrun, ha⟩ := applyReady_run h (withRing ring r os) a hc ht.trace.changes q
  have hr : (withRing ring r os).partialApply x.2 (st.view (withRing ring r os)) a cs
      st.store = (0, fun m => if m = r then (st.store r).mapRing (ring.innerPartialApply cs)
        else st.store m) := if_pos hx
  rw [hr] at ha
  have hs : (withRing ring r os).value (st.store x.2) = 0 := by
    rw [hx, ht.store]
    rfl
  refine ⟨st', hrun, ⟨?_, ?_, ?_⟩, ha.potential hq⟩
  · exact ht.trace.step h [x.2] hq ha (append_nil _).symm (List.Sublist.refl _)
  · rw [ha.store]
    simp only [↓reduceIte, ht.store, hx, count_append, count_singleton_self,
      Function.iterate_succ_apply']
    rfl
  · rw [ha.same hs, setReady_apply, ht.cached]

theorem RingTrace.keep (hq : st.ctx.readyNodes.entries = x :: q.entries) (hx : x.2 ≠ r)
    (ha : o.Applied (withRing ring r os) x.2 q st r' runs st')
    (hr : r'.2 r = st.store r) (ran₁ : List ν)
    (hru : runs = ran₁.flatMap (fun n => n :: os.nested n)) (hsub : ran₁.Sublist [x.2]) :
    RingTrace g data cs o ring r os.nested s (p ++ [x.2]) (ran ++ ran₁) st' := by
  refine ⟨ht.trace.step h ran₁ hq ha hru hsub, ?_, ?_⟩
  · rw [ha.store, hr, ht.store, count_append, count_singleton]
    simp [hx]
  · by_cases hs : (withRing ring r os).value (st.store x.2) = r'.1
    · rw [ha.same hs, setReady_apply, ht.cached]
    · rw [(ha.notify hs).apply, saveApply_apply, setReady_apply,
        Table.emplace_of_ne (Ne.symm hx), ht.cached]

theorem RingTrace.step_other (a : Assignment)
    (hq : st.ctx.readyNodes.entries = x :: q.entries) (hx : x.2 ≠ r) :
    ∃ st', o.applyReady (withRing ring r os) a (st.setReady q) x.2 = .ok st' ∧
      (∃ p ran, RingTrace g data cs o ring r os.nested s p ran st') ∧
      o.potential st'.ctx + 1 = o.potential st.ctx := by
  cases hc : st.ctx.apply x.2 with
  | some v =>
    obtain ⟨st', hrun, ha⟩ := applyReady_cached h (withRing ring r os) a hc q
    exact ⟨st', hrun, ⟨_, _, ht.keep h hq hx ha rfl [] rfl (nil_sublist _)⟩, ha.potential hq⟩
  | none =>
    obtain ⟨st', hrun, ha⟩ := applyReady_run h (withRing ring r os) a hc ht.trace.changes q
    have hr : ((withRing ring r os).partialApply x.2 (st.view (withRing ring r os)) a
        cs st.store).2 r = st.store r := by
      simp [withRing, hx]
    exact ⟨st', hrun, ⟨_, _, ht.keep h hq hx ha hr [x.2] (append_nil _).symm
      (List.Sublist.refl _)⟩, ha.potential hq⟩

end

theorem apply_ring (h : o.Sound g data) (hr : r ∈ o.postOrder) (hle : g.children r = [])
    (ring : GroupRoutingRing) (os : ApplyExpressions ν ℚ T (RingNodeState τ) Assignment)
    (a : Assignment) (cs : ChangeSet) (hs : s' r = .ring s) :
    ∃ st, o.apply (withRing ring r os) a (.new cs : Context ν ℚ T) s' = .ok st ∧
      st.store r = .ring ((ring.innerPartialApply cs)^[nodePushes g data cs r] s) := by
  obtain ⟨q, pushed, hl, hperm, hcount⟩ := computeAllChangedLeaves_spec (V := ℚ) (T := T) h cs
  obtain ⟨st, hloop, ⟨p, ran, ht⟩, hn⟩ := applyLoop_rule o (withRing ring r os) a
    (fun st => ∃ p ran, RingTrace g data cs o ring r os.nested s p ran st) (by
      rintro st x q ⟨p, ran, ht⟩ hq -
      by_cases hx : x.2 = r
      · obtain ⟨st', hrun, ht', hpot⟩ := ht.step_ring h a hq hx
        exact ⟨st', hrun, ⟨_, _, ht'⟩, hpot⟩
      · obtain ⟨st', hrun, ht', hpot⟩ := ht.step_other h a hq hx
        exact ⟨st', hrun, ht', hpot⟩)
    _ _ ⟨[], [], .start hcount hperm s', hs, rfl⟩ (potential_lt_loopFuel o _)
  have hnone : st.ctx.changedChildren r = [] := by
    rw [eq_nil_iff_forall_not_mem]
    intro c hc
    have hmem := (ht.trace.child r c hc).1
    rw [hle] at hmem
    exact not_mem_nil hmem
  have hp := ht.trace.popped_count hn hr
  rw [hnone, if_pos rfl, Nat.add_zero] at hp
  refine ⟨st, ?_, by rw [ht.store, hp]⟩
  simp only [apply, hl, except_ok_bind]
  exact hloop

omit [DecidableEq ν] in
theorem apply_ring_iff (hi : g.isAffectedByChange data r = ring.isAffectedByChange data)
    (hl : GroupRoutingRing.Leads cs a a') :
    (ring.innerPartialApply cs)^[nodePushes g data cs r] (ring.applyAssignment a) =
      ring.applyAssignment a' ↔ ¬ ring.CountsTwice data cs := by
  have hp : nodePushes g data cs r = ring.pushes data cs := by
    simp only [nodePushes, hi, isAffectedByChange]
    rfl
  have hc := ring.iterate_consistent cs (ring.applyAssignment_consistent a) (nodePushes g data cs r)
  rw [hc.eq_iff (ring.applyAssignment_consistent a'), ring.iterate_innerPartialApply,
    ring.applyAssignment_counts, ring.applyAssignment_counts, hp,
    ← ring.pushes_mul_delta_iff data cs]
  constructor
  · intro heq s
    have hs := congrFun heq s
    rw [hl.population] at hs
    omega
  · intro heq
    funext s
    rw [heq s, hl.population]

end

/-- The ring holds the counts of the assignment exactly when no step moves an object inside the
ring. -/
theorem ring_eq_applyAssignment_iff (g : ExpressionGraph ν) (roots : List ν)
    (data : AffectedByChangeDecisionData) (fixedContainers : IdSet) (o : Orchestrator ν)
    (hinit : init g roots data fixedContainers = .ok o) (ring : GroupRoutingRing) (r : ν)
    (hr : g.Reached roots r) (hleaf : g.children r = [])
    (hindex : g.isAffectedByChange data r = ring.isAffectedByChange data)
    (others : ApplyExpressions ν ℚ T (RingNodeState τ) Assignment)
    (steps : List (Assignment × ChangeSet)) (a₀ : Assignment) (store₀ : ν → RingNodeState τ)
    (hstore₀ : store₀ r = .ring (ring.applyAssignment a₀))
    (hsteps : EveryStep (fun a a' cs => GroupRoutingRing.Leads cs a a') a₀ steps) :
    (∀ done rest, steps = done ++ rest →
      ∃ store, o.applyAll (withRing ring r others) done store₀ = .ok store ∧
        store r = .ring (ring.applyAssignment (finalAssignment a₀ done))) ↔
      EveryStep (fun _ _ cs => ¬ ring.CountsTwice data cs) a₀ steps := by
  have hs := init_sound hinit
  have hmem : r ∈ o.postOrder := (mem_postOrder_iff hinit).mpr hr
  induction steps generalizing a₀ store₀ with
  | nil =>
    refine ⟨fun _ => trivial, ?_⟩
    intro _ done rest heq
    obtain ⟨rfl, rfl⟩ := append_eq_nil_iff.mp heq.symm
    exact ⟨store₀, rfl, hstore₀⟩
  | cons step steps ih =>
    obtain ⟨a', cs⟩ := step
    obtain ⟨hl, hrest⟩ := hsteps
    obtain ⟨st, hrun, hst⟩ := apply_ring hs hmem hleaf ring others a' cs hstore₀
    have hi := apply_ring_iff hindex hl
    have hc : ∀ done, o.applyAll (withRing ring r others) ((a', cs) :: done) store₀ =
        o.applyAll (withRing ring r others) done st.store := by
      intro done
      simp [applyAll, hrun, except_ok_bind]
    constructor
    · intro hall
      have hn : ¬ ring.CountsTwice data cs := by
        obtain ⟨store, ha, hright⟩ := hall [(a', cs)] steps rfl
        rw [hc] at ha
        cases ha
        rw [hst] at hright
        exact hi.mp (RingNodeState.ring.inj hright)
      refine ⟨hn, (ih a' st.store (by rw [hst, hi.mpr hn]) hrest).mp ?_⟩
      intro done rest heq
      obtain ⟨store, ha, hright⟩ := hall ((a', cs) :: done) rest (by rw [heq]; rfl)
      rw [hc] at ha
      exact ⟨store, ha, hright⟩
    · rintro ⟨hn, ho⟩ done rest heq
      cases done with
      | nil => exact ⟨store₀, rfl, hstore₀⟩
      | cons step done =>
        obtain ⟨rfl, hr'⟩ := cons_eq_cons.mp heq
        rw [hc]
        exact (ih a' st.store (by rw [hst, hi.mpr hn]) hrest).mpr ho done rest hr'

end Orchestrator

def twoItemRouting : RoutingConfig where
  routingRings := [⟨10, 1, some [[10, 20]]⟩]
  latencyTable _ := some (fun _ => some 1)
  defaultOriginToDestinationScopeItemSets := none
  containerIds s := if s = 10 then [0] else if s = 20 then [1] else []

def ringGraph (ring : GroupRoutingRing) : ExpressionGraph (Fin 1) where
  children _ := []
  children_nodup := single_children_nodup
  depth _ := 0
  depth_lt := single_depth_lt
  isAffectedByChange data _ := ring.isAffectedByChange data
  directlyAffectedContainers _ := some ring.directlyAffectedContainers

def noOthers : ApplyExpressions (Fin 1) ℚ Unit (RingNodeState Unit) Assignment where
  value _ := 0
  partialApply _ _ _ _ store := (0, store)
  nested _ := []

def onContainer (c : ContainerId) : Assignment := fun _ => c

def moveFiveOut : ChangeSet := .ofList [.removal 5 0, .addition 5 2]

theorem moveFiveOut_ring : ∃ ring o store, new twoItemRouting ⟨[5], by decide⟩ = .ok ring ∧
      init (ringGraph ring) [0] ⟨9, 3⟩ ⟨[], .nil⟩ = .ok o ∧ o.applyAll (withRing ring 0 noOthers)
        [((onContainer 0).moveTo 5 2, moveFiveOut)]
        (fun _ => .ring (ring.applyAssignment (onContainer 0))) = .ok store ∧
      store 0 = .ring (ring.applyAssignment ((onContainer 0).moveTo 5 2)) := by
  obtain ⟨ring, hr⟩ : ∃ ring, new twoItemRouting ⟨[5], by decide⟩ = .ok ring := ⟨_, rfl⟩
  have hout : ¬ ring.CountsTwice ⟨9, 3⟩ moveFiveOut := by
    have hten : ∀ ch ∈ moveFiveOut.changes, ∀ s, ring.relevantScopeItem ch = some s → s = 10 := by
      cases hr
      intro ch hch s hs
      rcases mem_cons.mp hch with rfl | hch
      · exact (Option.some.inj hs).symm
      · rw [mem_singleton.mp hch] at hs
        cases hs
    rintro ⟨-, -, ch, hch, ch', hch', s, s', hs, hs', hne⟩
    exact hne ((hten ch hch s hs).trans (hten ch' hch' s' hs').symm)
  obtain ⟨o, ho⟩ : ∃ o, init (ringGraph ring) [0] ⟨9, 3⟩ ⟨[], .nil⟩ = .ok o := by
    cases hr
    exact ⟨_, rfl⟩
  obtain ⟨store, ha, hstore⟩ := (ring_eq_applyAssignment_iff (ringGraph ring) [0]
    ⟨9, 3⟩ ⟨[], .nil⟩ o ho ring 0 ⟨0, mem_singleton.mpr rfl, .refl⟩ rfl rfl noOthers
    [((onContainer 0).moveTo 5 2, moveFiveOut)] (onContainer 0)
    (fun _ => .ring (ring.applyAssignment (onContainer 0))) rfl
    ⟨GroupRoutingRing.Leads.move (onContainer 0) 5 2, trivial⟩).mpr ⟨hout, trivial⟩
    [((onContainer 0).moveTo 5 2, moveFiveOut)] [] rfl
  exact ⟨ring, o, store, hr, ho, ha, hstore⟩

/-- The ring is updated twice, and scope item 20 counts two objects where there is one. -/
theorem moveFive_ring_counts_twice :
    ∃ ring o st state, new twoItemRouting ⟨[5], by decide⟩ = .ok ring ∧
      GroupRoutingRing.Leads moveFive (onContainer 0) ((onContainer 0).moveTo 5 1) ∧
      init (ringGraph ring) [0] ⟨9, 3⟩ ⟨[], .nil⟩ = .ok o ∧
      o.apply (withRing ring 0 noOthers) ((onContainer 0).moveTo 5 1)
        (.new moveFive) (fun _ => .ring (ring.applyAssignment (onContainer 0))) = .ok st ∧
      st.store 0 = .ring state ∧ state.scopeItemToObjectCount 20 = 2 ∧
      (ring.applyAssignment ((onContainer 0).moveTo 5 1)).scopeItemToObjectCount 20 = 1 :=
  ⟨_, _, _, _, rfl, GroupRoutingRing.Leads.move (onContainer 0) 5 1, rfl, rfl, rfl, rfl, rfl⟩

end Rebalancer
