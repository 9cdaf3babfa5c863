import Rebalancer.AssignOneSet
import Rebalancer.GroupedPlacement

namespace Rebalancer
open AList Function Placement List

theorem assignObjects_moves (c p : ContainerId) (r : ContainerId → Nat)
    (pool : ContainerId → List ObjectId) (c' : Nat) : ∀ os p',
      Relation.ReflTransGen (Placement.Move c p)
        ⟨update r c c', update pool p os, fun o => AList.lookup o p'⟩
        ⟨update r c (assignObjects c c' os p').1, update pool p (assignObjects c c' os p').2.1,
          fun o => (assignObjects c c' os p').2.2.lookup o⟩ ∧ ((assignObjects c c' os p').1 = 0 ∨
        (assignObjects c c' os p').2.1 = []) := by
  induction c' with
  | zero =>
    intro os p'
    exact ⟨.refl, .inl rfl⟩
  | succ c' ih =>
    intro os p'
    rw [assignObjects]
    cases hl : os.getLast? with
    | none => exact ⟨.refl, .inr (getLast?_eq_none_iff.mp hl)⟩
    | some o =>
      obtain ⟨rest, hobjects⟩ := getLast?_eq_some_iff.mp hl
      obtain ⟨hm, hend⟩ := ih os.dropLast (p'.insert o c)
      refine ⟨.head ?_ hm, hend⟩
      have hpool : update pool p os p = rest ++ [o] := by
        rw [update_self, hobjects]
      have hb : 0 < update r c (c' + 1) c := by
        rw [update_self]
        exact Nat.succ_pos c'
      have hs := Move.place (s := ⟨update r c (c' + 1),
        update pool p os, fun o => lookup o p'⟩) hpool hb
      simp only [update_idem, update_self, Nat.add_sub_cancel] at hs
      rw [AssocMap.lookup_insert_eq, hobjects, dropLast_concat]
      rw [hobjects] at hs
      exact hs

namespace SetState

def view (s : SetState) : Placement ContainerId ContainerId ObjectId :=
  ⟨s.objectCount, s.initialObjects, fun o => s.objectToContainer.lookup o⟩

theorem assign_moves (s : SetState) (c p : ContainerId) :
    Relation.ReflTransGen (Placement.Move c p) s.view (s.assign c p).view ∧
      ((s.assign c p).objectCount c = 0 ∨ (s.assign c p).initialObjects p = []) := by
  obtain ⟨hm, hend⟩ := assignObjects_moves c p s.objectCount s.initialObjects (s.objectCount c)
    (s.initialObjects p) s.objectToContainer
  rw [update_eq_self, update_eq_self] at hm
  have hc : (s.assign c p).objectCount = update s.objectCount c
      (assignObjects c (s.objectCount c) (s.initialObjects p) s.objectToContainer).1 :=
    AssocMap.getD_insert _ _ _ _
  have hp : (s.assign c p).initialObjects = update s.initialObjects p
      (assignObjects c (s.objectCount c) (s.initialObjects p) s.objectToContainer).2.1 :=
    AssocMap.getD_insert _ _ _ _
  rw [view, view, hc, hp]
  refine ⟨hm, ?_⟩
  rw [update_self, update_self]
  exact hend

theorem assign_steps (s : SetState) (c p : ContainerId) : s.view.Steps (s.assign c p).view ∧
      ((s.assign c p).objectCount c = 0 ∨ (s.assign c p).initialObjects p = []) := by
  obtain ⟨hm, hend⟩ := s.assign_moves c p
  exact ⟨steps_of_moves hm, hend⟩

theorem eraseCount_view {s : SetState} (h : s.objectCount c = 0) :
    (s.eraseCount c).view = s.view := by
  have hc : (s.eraseCount c).objectCount = s.objectCount :=
    funext fun k => AssocMap.getD_erase s.containerToObjectCount h k
  rw [view, hc]
  rfl

theorem keepInPlace_steps (s : SetState) (c : ContainerId) :
    s.view.Steps (s.keepInPlace c).view := by
  have he : ∀ t : SetState,
      t.view.Steps (if t.objectCount c = 0 then t.eraseCount c else t).view := by
    intro t
    split_ifs with hzero
    · rw [eraseCount_view hzero]
      exact .refl
    · exact .refl
  refine .trans ?_ (he _)
  split
  · exact (s.assign_steps c c).1
  · exact .refl

theorem foldl_steps (hf : ∀ (s : SetState) c, s.view.Steps (f s c).view)
    (cs : List ContainerId) (s : SetState) : s.view.Steps (cs.foldl f s).view :=
  foldlRecOn (motive := fun t : SetState => s.view.Steps t.view) cs f .refl
    fun t h c _ => h.trans (hf t c)

theorem assignFrom_steps (c : ContainerId) (cs : List ContainerId) : ∀ s : SetState,
    s.view.Steps (assignFrom c cs s).view ∧ ((assignFrom c cs s).objectCount c = 0 ∨
        ∀ p ∈ cs, (assignFrom c cs s).initialObjects p = []) := by
  induction cs with
  | nil =>
    intro s
    exact ⟨.refl, .inr nofun⟩
  | cons p cs ih =>
    intro s
    obtain ⟨ha, hend⟩ := s.assign_steps c p
    rw [assignFrom]
    split
    · rename_i hzero
      exact ⟨ha, .inl hzero⟩
    · rename_i hc
      obtain ⟨hrest, hends⟩ := ih (s.assign c p)
      refine ⟨ha.trans hrest, hends.imp_right ?_⟩
      intro he q hq
      rcases mem_cons.mp hq with rfl | hq
      · exact hrest.pool_nil (hend.resolve_left hc)
      · exact he q hq

variable (rt : Runtime) (e : EquivalenceSetId)

theorem assignRest_steps (s : SetState)
    (c : ContainerId) : s.view.Steps (s.assignRest rt e c).view := by
  rw [assignRest]
  split
  · exact .refl
  · exact (assignFrom_steps c _ s).1

theorem assignRest_zero {s : SetState} (h : s.view.Inv is t b) (hf : Fits is t bins)
    (c : ContainerId) : (s.assignRest rt e c).objectCount c = 0 := by
  rw [assignRest]
  split_ifs with hzero
  · exact hzero
  · obtain ⟨hs, hend⟩ := assignFrom_steps c
      (rt.order (.restObjects e c) s.containerToInitialObjects.keys) s
    rcases hend with hzero | he
    · exact hzero
    · refine (h.steps hs).remaining_zero hf ?_ c
      intro p
      by_cases hp : p ∈ s.containerToInitialObjects
      · exact he p ((rt.order_perm _ _).mem_iff.mpr (mem_keys.mp hp))
      · apply hs.pool_nil
        change (lookup p s.containerToInitialObjects).getD [] = []
        rw [AList.lookup_eq_none.mpr hp, Option.getD_none]

theorem foldl_assignRest_zero (hf : Fits is t bins) (cs : List ContainerId) : ∀ s : SetState,
    s.view.Inv is t b → (∀ c, c ∉ cs → s.objectCount c = 0) →
    ∀ c, (cs.foldl (assignRest rt e) s).objectCount c = 0 := by
  induction cs with
  | nil =>
    intro s _ hzero c
    exact hzero c not_mem_nil
  | cons c cs ih =>
    intro s h hzero
    have hs := s.assignRest_steps rt e c
    apply ih (s.assignRest rt e c) (h.steps hs)
    intro d hd
    by_cases he : d = c
    · rw [he]
      exact assignRest_zero rt e h hf c
    · apply hs.remaining_zero
      apply hzero
      intro hm
      rcases mem_cons.mp hm with hm | hm
      · exact he hm
      · exact hd hm

end SetState

end Rebalancer
