import Mathlib

namespace Rebalancer
open List
variable {l : List α}
variable {f : α → Except ε β}

theorem except_bind_ok {x : Except ε α} (h : (x >>= f) = .ok b) : ∃ a, x = .ok a ∧ f a = .ok b := by
  cases x with
  | error e => cases h
  | ok a => exact ⟨a, rfl, h⟩

@[simp] theorem except_ok_bind (a : α) (f : α → Except ε β) : (Except.ok a >>= f) = f a := rfl

theorem except_bind_congr {x : Except ε α} {f g : α → Except ε β}
    (h : ∀ a, x = .ok a → f a = g a) : x >>= f = x >>= g := by
  cases x with
  | error e => rfl
  | ok a => exact h a rfl

theorem exists_of_map_eq_ok {x : Except ε α} {f : α → β} (h : x.map f = .ok b) :
    ∃ a, x = .ok a ∧ f a = b := by
  cases x with
  | error e => cases h
  | ok a => exact ⟨a, rfl, Except.ok.inj h⟩

theorem mapM_ok {k : α → β} {xs : List α}
    (h : ∀ x ∈ xs, f x = .ok (k x)) : xs.mapM f = .ok (xs.map k) := by
  induction xs with
  | nil => rfl
  | cons x xs ih =>
    rw [mapM_cons, h x mem_cons_self, except_ok_bind,
      ih fun y hy => h y (mem_cons_of_mem _ hy), except_ok_bind]
    rfl

theorem mem_of_mapM_ok : ∀ {r : List β}, l.mapM f = .ok r → ∀ x ∈ l, ∃ y, f x = .ok y := by
  induction l with
  | nil =>
    intro r _ x hx
    cases hx
  | cons a l ih =>
    intro r h x hx
    rw [mapM_cons] at h
    obtain ⟨y, hy, h⟩ := except_bind_ok h
    obtain ⟨ys, hys, -⟩ := except_bind_ok h
    rcases mem_cons.mp hx with rfl | hx
    · exact ⟨y, hy⟩
    · exact ih hys x hx

theorem of_mem_mapM_ok : ∀ {r : List β}, l.mapM f = .ok r → ∀ y ∈ r, ∃ x ∈ l, f x = .ok y := by
  induction l with
  | nil =>
    intro r h y hy
    cases h
    cases hy
  | cons a l ih =>
    intro r h y hy
    rw [mapM_cons] at h
    obtain ⟨y', hy', h⟩ := except_bind_ok h
    obtain ⟨ys, hys, h⟩ := except_bind_ok h
    cases h
    rcases mem_cons.mp hy with rfl | hy
    · exact ⟨a, mem_cons_self, hy'⟩
    · obtain ⟨x, hx, hfx⟩ := ih hys y hy
      exact ⟨x, mem_cons_of_mem _ hx, hfx⟩

theorem exists_mapM_ok (h : ∀ x ∈ l, ∃ y, f x = .ok y) : ∃ r, l.mapM f = .ok r := by
  induction l with
  | nil => exact ⟨[], rfl⟩
  | cons a l ih =>
    obtain ⟨y, hy⟩ := h a mem_cons_self
    obtain ⟨ys, hys⟩ := ih fun x hx => h x (mem_cons_of_mem _ hx)
    refine ⟨y :: ys, ?_⟩
    rw [mapM_cons, hy, hys]
    rfl

theorem mapM_congr {f g : α → Except ε β} (h : ∀ x ∈ l, f x = g x) : l.mapM f = l.mapM g := by
  induction l with
  | nil => rfl
  | cons x l ih =>
    rw [mapM_cons, mapM_cons, h x mem_cons_self, ih fun y hy => h y (mem_cons_of_mem _ hy)]

theorem exists_map_of_mapM_ok [Inhabited β] {r : List β}
    (h : l.mapM f = .ok r) : ∃ k : α → β, r = l.map k ∧ ∀ x ∈ l, f x = .ok (k x) := by
  let k : α → β := fun x =>
    match f x with
    | .ok y => y
    | .error _ => default
  have hk : ∀ x ∈ l, f x = .ok (k x) := by
    intro x hx
    obtain ⟨y, hy⟩ := mem_of_mapM_ok h x hx
    simp [k, hy]
  refine ⟨k, ?_, hk⟩
  rw [mapM_ok hk] at h
  exact (Except.ok.inj h).symm

theorem foldl_rule {f : β → α → β} {P : List α → β → Prop}
    (h : ∀ x ∈ l, ∀ done s, P done s → P (done ++ [x]) (f s x)) :
    ∀ done s, P done s → P (done ++ l) (l.foldl f s) := by
  induction l with
  | nil =>
    intro done s hs
    rwa [append_nil]
  | cons x l ih =>
    intro done s hs
    rw [append_cons]
    exact ih (fun y hy => h y (mem_cons_of_mem _ hy)) _ _ (h x mem_cons_self done s hs)

theorem foldlM_ok_forall {ε : Type} {f : β → α → Except ε β} {P : α → Prop}
    (hf : ∀ s x s', f s x = .ok s' → P x) (l : List α) :
    ∀ s, l.foldlM f s = .ok s' → ∀ x ∈ l, P x := by
  induction l with
  | nil =>
    intro s _ x hx
    cases hx
  | cons y l ih =>
    intro s h x hx
    rw [foldlM_cons] at h
    obtain ⟨next, hn, h⟩ := except_bind_ok h
    rcases mem_cons.mp hx with rfl | hx
    · exact hf s x next hn
    · exact ih next h x hx

section
variable {f : β → α → Except ε β}

theorem foldlM_ok_rule {g : α → List γ} {P : List γ → β → Prop}
    (h : ∀ x ∈ l, ∀ done s s', P done s → f s x = .ok s' → P (done ++ g x) s') :
    ∀ done s, P done s → l.foldlM f s = .ok s' → P (done ++ l.flatMap g) s' := by
  induction l with
  | nil =>
    intro done s hs hr
    cases hr
    rwa [flatMap_nil, append_nil]
  | cons x l ih =>
    intro done s hs hr
    rw [foldlM_cons] at hr
    obtain ⟨next, hn, hr⟩ := except_bind_ok hr
    rw [flatMap_cons, ← append_assoc]
    exact ih (fun y hy => h y (mem_cons_of_mem _ hy)) _ _ (h x mem_cons_self _ _ _ hs hn) hr

theorem foldlM_ok_append {P : List α → β → Prop}
    (h : ∀ xs x ys, l = xs ++ x :: ys → ∀ s s', P xs s → f s x = .ok s' → P (xs ++ [x]) s')
    (hs : P [] s) (hr : l.foldlM f s = .ok s') : P l s' := by
  suffices ∀ ys xs s, l = xs ++ ys → P xs s → ys.foldlM f s = .ok s' → P l s' from
    this l [] s rfl hs hr
  intro ys
  induction ys with
  | nil =>
    intro xs s hl hs hr
    cases hr
    rwa [hl, append_nil]
  | cons x ys ih =>
    intro xs s hl hs hr
    rw [foldlM_cons] at hr
    obtain ⟨next, hn, hr⟩ := except_bind_ok hr
    exact ih (xs ++ [x]) next (by rw [hl, append_cons]) (h xs x ys hl s next hs hn) hr

theorem exists_foldlM_ok {g : α → List γ} {P : List γ → β → Prop}
    (h : ∀ x ∈ l, ∀ done s, P done s → ∃ s', f s x = .ok s' ∧ P (done ++ g x) s') :
    ∀ done s, P done s → ∃ s', l.foldlM f s = .ok s' ∧ P (done ++ l.flatMap g) s' := by
  induction l with
  | nil =>
    intro done s hs
    refine ⟨s, rfl, ?_⟩
    rwa [flatMap_nil, append_nil]
  | cons x l ih =>
    intro done s hs
    obtain ⟨next, hn, hs⟩ := h x mem_cons_self done s hs
    obtain ⟨s', hr, hs⟩ := ih (fun y hy => h y (mem_cons_of_mem _ hy)) _ next hs
    refine ⟨s', ?_, ?_⟩
    · rw [foldlM_cons, hn, except_ok_bind, hr]
    · rwa [flatMap_cons, ← append_assoc]

theorem foldlM_eq_foldl {g : β → α → β} (h : ∀ x ∈ l, ∀ s, f s x = .ok (g s x)) :
    ∀ s, l.foldlM f s = .ok (l.foldl g s) := by
  induction l with
  | nil =>
    intro s
    rfl
  | cons x l ih =>
    intro s
    rw [foldlM_cons, h x mem_cons_self, except_ok_bind, foldl_cons]
    exact ih (fun y hy => h y (mem_cons_of_mem _ hy)) _

end

theorem forM_ok_forall {ε : Type} {f : α → Except ε PUnit} (l : List α) :
    forM l f = .ok ⟨⟩ → ∀ x ∈ l, f x = .ok ⟨⟩ := by
  induction l with
  | nil =>
    intro _ x hx
    cases hx
  | cons y l ih =>
    intro h x hx
    rw [forM_cons] at h
    obtain ⟨_, hy, h⟩ := except_bind_ok h
    rcases mem_cons.mp hx with rfl | hx
    · exact hy
    · exact ih h x hx

end Rebalancer
