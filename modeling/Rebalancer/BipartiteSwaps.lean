import Rebalancer.ChangeSetInverse
import Rebalancer.ObjectIndex

namespace Rebalancer
open List AssocMap AList

abbrev Transition := ContainerId × ContainerId

abbrev CounterMap := AssocMap Transition Int

/-- The initial assignment is to containers of the problem. -/
structure BipartiteSwaps where
  initialAssignment : AssocMap ObjectId ContainerId
  leftSubset : IdSet
  containers : IdSet
  placed : ∀ o i, initialAssignment.lookup o = some i → i ∈ containers

namespace BipartiteSwaps
variable (s : BipartiteSwaps)

structure State where
  value : ℚ
  countsBase : CounterMap

def getMoves (a : Assignment) : MoveSet :=
  (s.initialAssignment.entries.filter fun e => e.2 ≠ a e.1).map fun e => ⟨e.1, e.2, a e.1⟩

def count (delta : CounterMap) (t : Transition) (n : Int) : CounterMap :=
  if t.1 = t.2 then delta else delta.insert t (delta.getD t 0 + n)

def countMove (delta : CounterMap) (move : Move) : Except String CounterMap := do
  let initialContainer ← s.initialAssignment.fetch move.object
  .ok (count (count delta (initialContainer, move.srcContainer) (-1))
    (initialContainer, move.dstContainer) 1)

def getDelta (moves : MoveSet) : Except String CounterMap := moves.foldlM s.countMove ∅

def isSameSideMove (t : Transition) : Bool :=
  decide (t.1 ∈ s.leftSubset) == decide (t.2 ∈ s.leftSubset)

def evaluateDelta (st : State) (delta : CounterMap) : ℚ :=
  let count t := st.countsBase.getD t 0 + delta.getD t 0
  if delta.keys.any fun t => !s.isSameSideMove t && count t != count t.swap then 0
  else if st.value = 1 then 1
  else if st.countsBase.keys.any fun t => !s.isSameSideMove t && t ∉ delta && t.swap ∉ delta &&
    st.countsBase.getD t 0 != st.countsBase.getD t.swap 0 then 0
  else 1

def innerFullApply (a : Assignment) : Except String State := do
  let delta ← s.getDelta (s.getMoves a)
  .ok ⟨s.evaluateDelta ⟨1, ∅⟩ delta, delta⟩

def evaluate (st : State) (changes : ChangeSet) : Except String ℚ := do
  let moves ← MoveSet.fromChangeSet changes
  let delta ← s.getDelta moves
  .ok (s.evaluateDelta st delta)

/-- The counts stay those of the last `innerFullApply`. -/
def innerPartialApply (st : State) (changes : ChangeSet) : Except String State := do
  let value ← s.evaluate st changes
  .ok ⟨value, st.countsBase⟩

def Placed (a : Assignment) : Prop := ∀ o ∈ s.initialAssignment, a o ∈ s.containers

structure Step (a : Assignment) (cs : ChangeSet) (a' : Assignment) : Prop where
  moves : ∃ moves, MoveSet.fromChangeSet cs = .ok moves ∧ ∀ move ∈ moves,
    move.object ∈ s.initialAssignment ∧ move.srcContainer = a move.object ∧
      move.dstContainer ∈ s.containers
  after : a' = a.applyChanges cs
  placed : s.Placed a'

inductive Reached : State → Assignment → Prop
  | fullApply : s.Placed a → s.innerFullApply a = .ok st → Reached st a
  | partialApply : Reached st a → s.Step a cs a' → s.innerPartialApply st cs = .ok st' →
      Reached st' a'

def Agrees (v : ℚ) (a : Assignment) : Prop := ∃ st, s.innerFullApply a = .ok st ∧ st.value = v

def OneSided : Prop := ∀ o i, s.initialAssignment.lookup o = some i → ∀ c ∈ s.containers,
  s.isSameSideMove (i, c) = true

variable {s}

theorem mem_count (h : t ∈ count delta t' n) : t ∈ delta ∨ t = t' := by
  rw [count] at h
  split_ifs at h
  · exact .inl h
  · exact (mem_insert _).mp h |>.symm

theorem evaluateDelta_one (hb : ∀ t ∈ st.countsBase, s.isSameSideMove t = true)
    (hd : ∀ t ∈ delta, s.isSameSideMove t = true) : s.evaluateDelta st delta = 1 := by
  rw [evaluateDelta, if_neg]
  · split_ifs with hv h
    · rfl
    · obtain ⟨t, ht, h⟩ := any_eq_true.mp h
      rw [hb t ht] at h
      cases h
    · rfl
  · intro h
    obtain ⟨t, ht, h⟩ := any_eq_true.mp h
    rw [hd t ht] at h
    cases h

theorem getDelta_sameSide (hs : s.OneSided) (moves : MoveSet) (delta : CounterMap)
    (hd : ∀ t ∈ delta, s.isSameSideMove t = true)
    (hm : ∀ move ∈ moves, move.object ∈ s.initialAssignment ∧ move.srcContainer ∈ s.containers ∧
      move.dstContainer ∈ s.containers) :
    ∃ delta', moves.foldlM s.countMove delta = .ok delta' ∧
      ∀ t ∈ delta', s.isSameSideMove t = true := by
  refine exists_foldlM_ok (g := fun move => [move])
    (P := fun _ delta => ∀ t ∈ delta, s.isSameSideMove t = true) ?_ [] delta hd
  intro move hmem _ delta hd
  obtain ⟨ho, hsrc, hdst⟩ := hm move hmem
  obtain ⟨i, hi⟩ := mem_iff_lookup.mp ho
  rw [countMove, fetch_ok hi]
  refine ⟨_, rfl, ?_⟩
  intro t ht
  rcases mem_count ht with ht | rfl
  · rcases mem_count ht with ht | rfl
    · exact hd t ht
    · exact hs _ i hi _ hsrc
  · exact hs _ i hi _ hdst

theorem OneSided.innerFullApply (hs : s.OneSided) (ha : s.Placed a) :
    ∃ delta, s.innerFullApply a = .ok ⟨1, delta⟩ ∧ ∀ t ∈ delta, s.isSameSideMove t = true := by
  have hm : ∀ move ∈ s.getMoves a, move.object ∈ s.initialAssignment ∧
      move.srcContainer ∈ s.containers ∧ move.dstContainer ∈ s.containers := by
    intro move hm
    obtain ⟨e, he, rfl⟩ := mem_map.mp hm
    have hl := mem_lookup_iff.mpr (mem_filter.mp he).1
    have ho : e.1 ∈ s.initialAssignment := mem_iff_lookup.mpr ⟨_, hl⟩
    exact ⟨ho, s.placed e.1 e.2 hl, ha e.1 ho⟩
  obtain ⟨delta, hd, hk⟩ := getDelta_sameSide hs _ ∅ (by simp) hm
  refine ⟨delta, ?_, hk⟩
  rw [BipartiteSwaps.innerFullApply, getDelta, hd, except_ok_bind, evaluateDelta_one (by simp) hk]

theorem OneSided.evaluate (hs : s.OneSided) (ha : s.Placed a) (h : s.Step a cs a')
    (hb : ∀ t ∈ st.countsBase, s.isSameSideMove t = true) : s.evaluate st cs = .ok 1 := by
  obtain ⟨moves, hm, hk⟩ := h.moves
  obtain ⟨delta, hd, hdelta⟩ := getDelta_sameSide hs moves ∅ (by simp) fun move hmem =>
    ⟨(hk move hmem).1, (hk move hmem).2.1 ▸ ha _ (hk move hmem).1, (hk move hmem).2.2⟩
  rw [BipartiteSwaps.evaluate, hm, except_ok_bind, getDelta, hd, except_ok_bind,
    evaluateDelta_one hb hdelta]

theorem Reached.oneSided (h : s.Reached st a) (hs : s.OneSided) :
    s.Placed a ∧ st.value = 1 ∧ ∀ t ∈ st.countsBase, s.isSameSideMove t = true := by
  induction h with
  | fullApply ha h =>
    obtain ⟨delta, h', hk⟩ := hs.innerFullApply ha
    rw [h] at h'
    cases h'
    exact ⟨ha, rfl, hk⟩
  | partialApply _ hm h ih =>
    rw [innerPartialApply, hs.evaluate ih.1 hm ih.2.2, except_ok_bind] at h
    cases h
    exact ⟨hm.placed, rfl, ih.2.2⟩

variable (s) in
def initial : Assignment := fun o => (s.initialAssignment.lookup o).getD 0

theorem placed_initial : s.Placed s.initial := by
  intro o ho
  obtain ⟨i, hi⟩ := mem_iff_lookup.mp ho
  rw [initial, hi]
  exact s.placed o i hi

theorem innerFullApply_initial : s.innerFullApply s.initial = .ok ⟨1, ∅⟩ := by
  have hm : s.getMoves s.initial = [] := by
    rw [getMoves, filter_eq_nil_iff.mpr, map_nil]
    intro e he
    rw [initial, (mem_lookup_iff.mpr he : s.initialAssignment.lookup e.1 = some e.2)]
    simp
  rw [innerFullApply, hm]
  rfl

theorem innerPartialApply_cross (ho : s.initialAssignment.lookup o = some i)
    (hx : s.isSameSideMove (i, c) = false) :
    s.innerPartialApply ⟨1, ∅⟩ (MoveSet.getChangeSet [⟨o, i, c⟩]) = .ok ⟨0, ∅⟩ := by
  have hne : i ≠ c := by
    rintro rfl
    simp [isSameSideMove] at hx
  have hd : s.getDelta [⟨o, i, c⟩] = .ok (singleton (i, c) 1) := by
    simp [getDelta, countMove, fetch_ok ho, count, hne, AssocMap.getD]
  rw [innerPartialApply, evaluate, MoveSet.fromChangeSet_single, except_ok_bind, hd, except_ok_bind,
    evaluateDelta, if_pos]
  · rfl
  · simp [hx, AssocMap.getD, hne, hne.symm, AList.singleton, AList.lookup]

/-- All values over a run are right exactly when every object has one side. -/
theorem exact_iff_oneSided (s : BipartiteSwaps) : (∀ st a, s.Reached st a → s.Agrees st.value a ∧
      ∀ cs a', s.Step a cs a' → ∃ v, s.evaluate st cs = .ok v ∧ s.Agrees v a') ↔ s.OneSided := by
  constructor
  · intro h o i ho c hc
    by_contra hx
    have hx := Bool.eq_false_of_not_eq_true hx
    have hk : o ∈ s.initialAssignment := mem_iff_lookup.mpr ⟨_, ho⟩
    have hi : s.initial o = i := by rw [initial, ho, Option.getD_some]
    have hp : s.Placed (s.initial.applyChanges (MoveSet.getChangeSet [⟨o, i, c⟩])) := by
      intro o' ho'
      change (if o' = o then c else s.initial o') ∈ s.containers
      split_ifs
      · exact hc
      · exact placed_initial o' ho'
    have hm : s.Step s.initial (MoveSet.getChangeSet [⟨o, i, c⟩]) _ :=
      ⟨⟨_, MoveSet.fromChangeSet_single o i c, by simp [hk, hi, hc]⟩, rfl, hp⟩
    obtain ⟨⟨st, hst, hv⟩, h⟩ := h _ _ <|
      .partialApply (.fullApply placed_initial innerFullApply_initial) hm
        (innerPartialApply_cross ho hx)
    obtain ⟨v, he, st', hst', hv'⟩ := h .new _ ⟨⟨[], rfl, nofun⟩, rfl, hp⟩
    cases he
    cases hst.symm.trans hst'
    exact absurd (hv.symm.trans hv') zero_ne_one
  · intro hs st a h
    have ha : ∀ a, s.Placed a → s.Agrees 1 a := by
      intro a ha
      obtain ⟨delta, h, -⟩ := hs.innerFullApply ha
      exact ⟨_, h, rfl⟩
    obtain ⟨hp, hv, hb⟩ := h.oneSided hs
    refine ⟨hv ▸ ha a hp, fun cs a' hm => ⟨1, hs.evaluate hp hm hb, ha a' hm.placed⟩⟩

def oneCrossing : BipartiteSwaps where
  initialAssignment := singleton 0 0
  leftSubset := ⟨[0], nodup_zero⟩
  containers := ⟨[0, 1], nodup_zero_one⟩
  placed o i h := by
    cases List.mem_singleton.mp (mem_lookup_iff.mp h)
    decide

/-- After the move the value is zero, as from scratch, but the next evaluation says one. -/
theorem oneCrossing_stale : ∃ st st' scratch, oneCrossing.innerFullApply (fun _ => 0) = .ok st ∧
    oneCrossing.innerPartialApply st (MoveSet.getChangeSet [⟨0, 0, 1⟩]) = .ok st' ∧
    oneCrossing.innerFullApply (fun _ => 1) = .ok scratch ∧ st'.value = 0 ∧ scratch.value = 0 ∧
    oneCrossing.evaluate st' .new = .ok 1 :=
  ⟨_, _, _, rfl, rfl, rfl, rfl, rfl, rfl⟩

end BipartiteSwaps

end Rebalancer
