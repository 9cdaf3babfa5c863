import Rebalancer.ApplySequence
import Rebalancer.AssignmentRuns
import Rebalancer.EntityAttributes

namespace Rebalancer
open Orchestrator MoveSet AssignmentState
open List hiding keys

def AssignmentState.table (a : AssignmentState) : Table ObjectId ContainerId :=
  fun o => a.objectToContainer.lookup o

structure ProblemState (ν V σ : Type) where
  assignment : AssignmentState
  store : ν → σ
  entityAttributesStore : EntityAttributesStore V
  fixedObjects : IdSet

structure ProblemSetup (ν V T σ : Type) where
  orchestrator : Orchestrator ν
  exprs : ApplyExpressions ν V T σ (Table ObjectId ContainerId)
  moveObjectsOnce : Bool

namespace ProblemSetup
variable {ν V T σ : Type} [DecidableEq ν] [DecidableEq V]

section
variable (p : ProblemSetup ν V T σ)

omit [DecidableEq ν] [DecidableEq V] in
def world (assignment : AssignmentState) (store : ν → σ) : World V :=
  ⟨assignment.table, p.orchestrator.postOrder.map fun n => p.exprs.value (store n)⟩

def moveObjects (changes : List Change) (a : AssignmentState) : Except String AssignmentState :=
  changes.foldlM (fun a change =>
    if change.value = 1 then a.moveTo change.object change.container else .ok a) a

section
variable (changes : ChangeSet) (s : ProblemState ν V σ)

def applyChanges : Except String (ProblemState ν V σ) := do
  let _ ← fromChangeSet changes
  let assignment ← moveObjects changes.changes s.assignment
  let applied ← p.orchestrator.apply p.exprs assignment.table (.new changes) s.store
  let entityAttributesStore ←
    s.entityAttributesStore.updateOnApply (p.world assignment applied.store) changes
  .ok { s with assignment, store := applied.store, entityAttributesStore }

omit [DecidableEq ν] [DecidableEq V] in
def maybeFixMovedObjects : ProblemState ν V σ :=
  if p.moveObjectsOnce then
    { s with
      fixedObjects := changes.changes.foldl (fun fixedObjects change =>
        if change.value = 1 then fixedObjects.insert change.object else fixedObjects)
        s.fixedObjects }
  else s

end

def tryApply (changes : ChangeSet)
    (validate : ProblemState ν V σ → Except String ApplyStatus) (s : ProblemState ν V σ) :
    Except String (ApplyStatus × ProblemState ν V σ) := do
  let s ← p.applyChanges changes s
  let status ← validate s
  if status ≠ .applied then do
    let s ← p.applyChanges changes.getInverse s
    .ok (status, s)
  else .ok (status, p.maybeFixMovedObjects changes s)

end

end ProblemSetup

namespace AssignmentState

/-- Two assignments no reader can tell apart, but for empty containers that only one lists: such a
container is one of `C`. -/
structure Same (C : ContainerId → Prop) (a a' : AssignmentState) : Prop where
  fixedObjects : a'.fixedObjects = a.fixedObjects
  table : a'.table = a.table
  objects : ∀ c o, o ∈ a'.getObjects c ↔ o ∈ a.getObjects c
  dynamicObjects : ∀ c o, o ∈ a'.getDynamicObjects c ↔ o ∈ a.getDynamicObjects c
  containers : ∀ c, c ∈ a.containerToObjects → c ∈ a'.containerToObjects
  added : ∀ c, c ∈ a'.containerToObjects → C c ∨ c ∈ a.containerToObjects
  indices : ∀ name, Option.Rel (fun index index' => index'.objectToIndex = index.objectToIndex ∧
    ∀ c k o, index'.Holds name.spec c k o ↔ index.Holds name.spec c k o)
    (a.index name) (a'.index name)

theorem Consistent.same (h : a.Consistent keys) (h' : a'.Consistent keys)
    (ht : a'.table = a.table) (hf : Frame C a a') : Same C a a' := by
  have hlookup : ∀ o, a'.objectToContainer.lookup o = a.objectToContainer.lookup o := fun o =>
    congrFun ht o
  have hd : ∀ o, a'.isDynamic o ↔ a.isDynamic o := by
    intro o
    rw [isDynamic, isDynamic, hf.fixedObjects, ← AList.lookup_isSome, ← AList.lookup_isSome,
      hlookup]
  refine ⟨hf.fixedObjects, ht, ?_, ?_, hf.containers, hf.added, ?_⟩
  · intro c o
    refine (h'.objects o c).trans (Iff.trans ?_ (h.objects o c).symm)
    rw [hlookup]
  · intro c o
    refine (h'.dynamic o c).trans (Iff.trans ?_ (h.dynamic o c).symm)
    rw [hlookup, hd]
  · intro name
    have hr := hf.indices name
    cases hi : a.index name with
    | none =>
      rw [hi] at hr
      cases hi' : a'.index name with
      | none => exact .none
      | some i' =>
        rw [hi'] at hr
        cases hr
    | some i =>
      rw [hi] at hr
      cases hi' : a'.index name with
      | none =>
        rw [hi'] at hr
        cases hr
      | some i' =>
        rw [hi'] at hr
        obtain ⟨key, hk⟩ := Tracks.key_of_index h hi
        have hl := Tracks.lists h hk hi
        have hl' := Tracks.lists h' hk hi'
        cases hr with
        | some he =>
          refine .some ⟨he.keys, ?_⟩
          intro c k o
          rw [hl.holds, hl'.holds, hlookup, hd]

theorem Consistent.moveObjects (cs : List Change) : ∀ a : AssignmentState, a.Consistent keys →
    (∀ change ∈ cs, change.value = 1 → change.object ∈ a.objectToContainer) →
    ∃ a', ProblemSetup.moveObjects cs a = .ok a' ∧ a'.Consistent keys ∧
      a'.table = moveAll a.table cs ∧
      Frame (fun c => ∃ change ∈ cs, change.value = 1 ∧ change.container = c) a a' := by
  induction cs with
  | nil =>
    intro a h _
    exact ⟨a, rfl, h, rfl, .refl _ a⟩
  | cons change cs ih =>
    intro a h hk
    have hrest : ∀ {C : ContainerId → Prop}, (C = fun c => ∃ change ∈ cs,
        change.value = 1 ∧ change.container = c) → ∀ c, C c →
        ∃ c' ∈ change :: cs, c'.value = 1 ∧ c'.container = c := by
      intro C hC c hc
      rw [hC] at hc
      obtain ⟨c', hmem, hvalue⟩ := hc
      exact ⟨c', mem_cons_of_mem _ hmem, hvalue⟩
    rw [ProblemSetup.moveObjects, foldlM_cons, moveAll, foldl_cons]
    by_cases hvalue : change.value = 1
    · obtain ⟨a₁, ha₁, h₁, hl, hf⟩ := Consistent.moveTo h
        (hk change mem_cons_self hvalue) change.container
      have ht : a₁.table = Function.update a.table change.object (some change.container) :=
        funext hl
      obtain ⟨a', ha', h', ht', hf'⟩ := ih a₁ h₁ (by
        intro x hx hv'
        have hmem := hk x (mem_cons_of_mem _ hx) hv'
        rw [← AList.lookup_isSome, hl]
        by_cases he : x.object = change.object
        · rw [he, Function.update_self]
          rfl
        · rw [Function.update_of_ne he]
          exact AList.lookup_isSome.mpr hmem)
      rw [if_pos hvalue, if_pos hvalue, ha₁, ← ht]
      refine ⟨a', ha', h', ht', (hf.mono ?_).trans (hf'.mono (hrest rfl))⟩
      intro c hc
      exact ⟨change, mem_cons_self, hvalue, hc.symm⟩
    · rw [if_neg hvalue, if_neg hvalue, except_ok_bind]
      obtain ⟨a', ha', h', ht', hf'⟩ := ih a h fun x hx =>
        hk x (mem_cons_of_mem _ hx)
      exact ⟨a', ha', h', ht', hf'.mono (hrest rfl)⟩

end AssignmentState

namespace ProblemSetup
open AssignmentState Orchestrator
variable {ν V T σ : Type} [DecidableEq ν] [DecidableEq V]

/-- Each node's incremental update is right for every change set of moves. -/
structure Correct (p : ProblemSetup ν V T σ) (g : ExpressionGraph ν) (roots : List ν)
    (data : AffectedByChangeDecisionData) (fixedContainers : IdSet)
    (innerFullApply : ν → Table ObjectId ContainerId → List V → V)
    (Corresponds : Table ObjectId ContainerId → ν → σ → Prop) : Prop where
  init : init g roots data fixedContainers = .ok p.orchestrator
  value : ∀ on n, g.Reached roots n → ∀ s, Corresponds on n s →
    p.exprs.value s = fromScratch g innerFullApply on n
  right : ∀ on cs on', Leads on cs on' →
    (ApplySetting.ofStep g data p.exprs innerFullApply Corresponds on on' cs).NodesRight roots

structure Restored (p : ProblemSetup ν V T σ) (changes : ChangeSet) (s s' : ProblemState ν V σ) :
    Prop where
  assignment : s.assignment.Same
    (fun c => ∃ change ∈ changes.changes, change.value = 1 ∧ change.container = c) s'.assignment
  values : ∀ n ∈ p.orchestrator.postOrder, p.exprs.value (s'.store n) = p.exprs.value (s.store n)
  entityAttributes : ∀ name, Option.Rel
    (EntityAttributes.Restored (p.world s.assignment s.store) changes.changes)
    (AList.lookup name s.entityAttributesStore) (AList.lookup name s'.entityAttributesStore)
  fixedObjects : s'.fixedObjects = s.fixedObjects

variable {s : ProblemState ν V σ}

section
variable {p : ProblemSetup ν V T σ} {g : ExpressionGraph ν} {roots : List ν}
  {data : AffectedByChangeDecisionData} {fixedContainers : IdSet}
  {innerFullApply : ν → Table ObjectId ContainerId → List V → V}
  {Corresponds : Table ObjectId ContainerId → ν → σ → Prop}

section
variable (h : p.Correct g roots data fixedContainers innerFullApply Corresponds)
  (h' : s.assignment.Consistent keys)
  (hs : ∀ n, g.Reached roots n → Corresponds s.assignment.table n (s.store n))
  (hl : Leads s.assignment.table cs on')
include h h' hs hl

theorem Correct.stages : ∃ moves a st, fromChangeSet cs = .ok moves ∧
      ProblemSetup.moveObjects cs.changes s.assignment = .ok a ∧
      p.orchestrator.apply p.exprs a.table (.new cs) s.store = .ok st ∧
      a.Consistent keys ∧ a.table = on' ∧
      Frame (fun c => ∃ change ∈ cs.changes, change.value = 1 ∧ change.container = c)
        s.assignment a ∧ ∀ n, g.Reached roots n → Corresponds on' n (st.store n) := by
  obtain ⟨moves, hm⟩ := (fromChangeSet_ok_iff cs).mpr hl.balanced
  obtain ⟨a, ha, hconsistent, ht, hf⟩ := Consistent.moveObjects cs.changes s.assignment h' (by
      intro change hchange hvalue
      obtain ⟨c, hc⟩ := hl.placed hchange hvalue
      exact h'.known _ c hc)
  rw [← hl.after] at ht
  obtain ⟨st, hst, hcorr, -⟩ := apply_step h.init h.value (h.right _ cs on' hl) hs
  rw [← ht] at hst
  exact ⟨moves, a, st, hm, ha, hst, hconsistent, ht, hf, hcorr⟩

theorem Correct.applyChanges : ∃ a store, a.Consistent keys ∧ a.table = on' ∧
      Frame (fun c => ∃ change ∈ cs.changes, change.value = 1 ∧ change.container = c)
        s.assignment a ∧
      (∀ n, g.Reached roots n → Corresponds on' n (store n)) ∧
      p.applyChanges cs s =
        s.entityAttributesStore.updateOnApply (p.world a store) cs >>= fun attributes =>
          .ok ⟨a, store, attributes, s.fixedObjects⟩ := by
  obtain ⟨m, a, st, hm, ha, hst, hc, ht, hf, hcorr⟩ := h.stages h' hs hl
  refine ⟨a, st.store, hc, ht, hf, hcorr, ?_⟩
  rw [ProblemSetup.applyChanges, hm, except_ok_bind, ha, except_ok_bind, hst, except_ok_bind]

end

/-- When the callback of `tryApply` rejects the changes, undoing them restores the problem. -/
theorem tryApply_restores (h : p.Correct g roots data fixedContainers innerFullApply Corresponds)
    (s : ProblemState ν V σ) (keys : IndexKeys) (hassignment : s.assignment.Consistent keys)
    (hstore : ∀ n, g.Reached roots n → Corresponds s.assignment.table n (s.store n))
    (changes : ChangeSet) (haccepted : ∃ moves, fromChangeSet changes = .ok moves)
    (hcurrent : ∀ change ∈ changes.changes, change.value = -1 →
      s.assignment.getContainer change.object = .ok change.container)
    (validate : ProblemState ν V σ → Except String ApplyStatus)
    (hforward : p.applyChanges changes s = .ok s₁) (hvalidate : validate s₁ = .ok status)
    (hstatus : status ≠ .applied) :
    ∃ s', p.tryApply changes validate s = .ok (status, s') ∧ p.Restored changes s s' := by
  have hl : Leads s.assignment.table changes (moveAll s.assignment.table changes.changes) := by
    refine ⟨(fromChangeSet_ok_iff changes).mp haccepted, ?_, rfl⟩
    intro change hc hvalue
    have hget := hcurrent change hc hvalue
    rw [getContainer, AssocMap.fetch] at hget
    change s.assignment.objectToContainer.lookup change.object = some change.container
    cases hlookup : s.assignment.objectToContainer.lookup change.object with
    | none =>
      rw [hlookup] at hget
      cases hget
    | some c =>
      rw [hlookup] at hget
      cases hget
      rfl
  obtain ⟨a₁, store₁, hc₁, ht₁, hf₁, hcorr₁, happly₁⟩ := h.applyChanges hassignment hstore hl
  rw [hforward] at happly₁
  obtain ⟨attributes₁, ha₁, hs₁⟩ := except_bind_ok happly₁.symm
  cases hs₁
  have hb := ht₁ ▸ hl.inverse
  obtain ⟨a₂, s₂, hc₂, ht₂, hf₂, hcorr₂, ha₂⟩ :=
    h.applyChanges (s := ⟨a₁, store₁, attributes₁, s.fixedObjects⟩) hc₁ (ht₁ ▸ hcorr₁) hb
  have hmem : ∀ n, n ∈ p.orchestrator.postOrder ↔ g.Reached roots n := fun n =>
    mem_postOrder_iff h.init
  have hv : ∀ n ∈ p.orchestrator.postOrder, p.exprs.value (s₂ n) = p.exprs.value (s.store n) := by
    intro n hn
    have hr := (hmem n).mp hn
    rw [h.value _ n hr _ (hcorr₂ n hr), h.value _ n hr _ (hstore n hr)]
  have hw : p.world a₂ s₂ = p.world s.assignment s.store := by
    rw [world, world, ht₂, map_congr_left hv]
  obtain ⟨attributes₂, hattributes₂, hrestored⟩ :=
    EntityAttributesStore.updateOnApply_inverse ha₁ (p.world s.assignment s.store)
  rw [hw] at ha₂
  rw [hattributes₂, except_ok_bind] at ha₂
  refine ⟨⟨a₂, s₂, attributes₂, s.fixedObjects⟩, ?_, ?_, hv, hrestored, rfl⟩
  · rw [tryApply, hforward, except_ok_bind, hvalidate, except_ok_bind, if_pos hstatus, ha₂,
      except_ok_bind]
  · apply hassignment.same hc₂ ht₂
    refine ⟨hf₂.fixedObjects.trans hf₁.fixedObjects,
      fun d hd => hf₂.containers d (hf₁.containers d hd), ?_,
      fun name => optionRel_comp (hf₁.indices name) (hf₂.indices name) fun _ _ _ _ => .trans⟩
    intro d hd
    rcases hf₂.added d hd with hd | hd
    · obtain ⟨change, hc, hvalue, rfl⟩ := hd
      rw [ChangeSet.getInverse, ChangeSet.ofList_changes] at hc
      obtain ⟨r, hremoval, rfl⟩ := mem_map.mp hc
      have hleft := hl.current r (mem_reverse.mp hremoval) (neg_eq_iff_eq_neg.mp hvalue)
      exact .inr (Tracks.container_mem hassignment hleft)
    · exact hf₁.added d hd

end

end ProblemSetup

def zeroOnOneGraph : ExpressionGraph (Fin 1) where
  children _ := []
  children_nodup := single_children_nodup
  depth _ := 0
  depth_lt := single_depth_lt
  isAffectedByChange _ _ := some (.ofAllChanges true)
  directlyAffectedContainers _ := none

def zeroOnOne (on : Table ObjectId ContainerId) : Int := if on 0 = some 1 then 1 else 0

def zeroOnOneApply : ApplyExpressions (Fin 1) Int Unit Int (Table ObjectId ContainerId) where
  value s := s
  partialApply _ _ on _ _ := (zeroOnOne on, fun _ => zeroOnOne on)
  nested _ := []

theorem zeroOnOne_correct (h : init zeroOnOneGraph [0] ⟨2, 2⟩ .empty = .ok o) (o' : Bool) :
    ProblemSetup.Correct ⟨o, zeroOnOneApply, o'⟩ zeroOnOneGraph [0] ⟨2, 2⟩ .empty
      (fun _ on _ => zeroOnOne on) fun on _ s => s = zeroOnOne on := by
  refine ⟨h, ?_, ?_⟩
  · intro on n _ s hs
    rw [hs]
    rfl
  · intro on cs on' hl
    refine ⟨?_, ?_, ?_⟩
    · intro n _ hno
      refine absurd (.inl ?_) hno
      change 0 < if shouldDedupeLeaves (some cs) then min 1 1 else 1
      split <;> decide
    · intro n _ view store _ _
      refine ⟨rfl, rfl, ?_⟩
      intro m hm
      exact absurd (Subsingleton.elim m n) hm
    · intro n _ _ view store _ hstore
      refine Prod.ext rfl (funext fun m => ?_)
      rw [Subsingleton.elim m n]
      exact hstore.symm

def roomLeft (world : World Int) (_ : GroupId) (container : ScopeItemId) : Nat :=
  2 - ([0, 1].filter fun o => decide (world.on o = some container)).length

def twoOnZero : ContainerAssignment := ⟨[⟨0, [0, 1]⟩, ⟨1, []⟩].toAList, by decide⟩

def twoObjects : ProblemState (Fin 1) Int Int where
  assignment := .new twoOnZero .empty
  store _ := 0
  entityAttributesStore := .singleton "room"
    (.allowedScopeItemsPerGroup (.new ⟨fun o => if o < 2 then some 0 else none, [0]⟩ [1]
      ⟨[(0, [0]), (1, [1])], by decide⟩ roomLeft))
  fixedObjects := .empty

def moveToOne (o : ObjectId) : ChangeSet := .ofList [.removal o 0, .addition o 1]

def roomOf (s : ProblemState (Fin 1) Int Int) (g : GroupId) : Option Nat :=
  match s.entityAttributesStore.lookup "room" with
  | some (.allowedScopeItemsPerGroup a) => a.countOf 1 g
  | _ => none

theorem rejected_move_restores : ∃ o, init zeroOnOneGraph [0] ⟨2, 2⟩ .empty = .ok o ∧
      let p : ProblemSetup (Fin 1) Int Unit Int := ⟨o, zeroOnOneApply, true⟩
      ∃ s', p.tryApply (moveToOne 0) (fun _ => .ok .violatesConstraint) twoObjects =
          .ok (.violatesConstraint, s') ∧ p.Restored (moveToOne 0) twoObjects s' := by
  refine ⟨_, rfl, ?_⟩
  exact ProblemSetup.tryApply_restores (zeroOnOne_correct rfl true) twoObjects (fun _ => none)
    (new_consistent _ _) (fun _ _ => rfl) (moveToOne 0) ⟨_, rfl⟩ (by decide) _ rfl
    rfl (by decide)

/-- A rejected move of object 0 brings the stored count of the other group up to date. -/
theorem rejected_move_updates_count : ∃ o, init zeroOnOneGraph [0] ⟨2, 2⟩ .empty = .ok o ∧
      let p : ProblemSetup (Fin 1) Int Unit Int := ⟨o, zeroOnOneApply, false⟩
      p.Correct zeroOnOneGraph [0] ⟨2, 2⟩ .empty (fun _ on _ => zeroOnOne on)
        (fun on _ s => s = zeroOnOne on) ∧
      ∃ s₁ s₂, p.tryApply (moveToOne 1) (fun _ => .ok .applied) twoObjects = .ok (.applied, s₁) ∧
        (∃ m, fromChangeSet (moveToOne 0) = .ok m) ∧
        s₁.assignment.getContainer 0 = .ok 0 ∧
        p.tryApply (moveToOne 0) (fun _ => .ok .violatesConstraint) s₁ =
          .ok (.violatesConstraint, s₂) ∧
        roomOf s₁ 0 = some 2 ∧ roomOf s₂ 0 = some 1 := by
  refine ⟨_, rfl, zeroOnOne_correct rfl false, _, _, rfl, ⟨_, rfl⟩, rfl, rfl, ?_, ?_⟩
  · decide
  · decide

end Rebalancer
