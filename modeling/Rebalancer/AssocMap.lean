import Rebalancer.ExceptLoops

namespace Rebalancer
open List Function
open AList hiding keys

theorem optionRel_refl {R : α → α → Prop} (h : ∀ a, R a a) (x : Option α) : Option.Rel R x x := by
  cases x with
  | none => exact .none
  | some a => exact .some (h a)

theorem optionRel_imp (h : Option.Rel R x y) (hi : ∀ a b, R a b → S a b) : Option.Rel S x y := by
  cases h with
  | none => exact .none
  | some h => exact .some (hi _ _ h)

theorem optionRel_comp (h₁ : Option.Rel R x y) (h₂ : Option.Rel S y z)
    (hc : ∀ a b c, x = some a → R a b → S b c → T a c) : Option.Rel T x z := by
  cases h₁ with
  | none =>
    cases h₂
    exact .none
  | some h₁ =>
    cases h₂ with
    | some h₂ => exact .some (hc _ _ _ rfl h₁ h₂)

/-- A finite map. The order of its entries carries no meaning. -/
abbrev AssocMap (κ β : Type) := AList fun _ : κ => β

theorem mem_iff_lookup [DecidableEq κ] {m : AssocMap κ β} : k ∈ m ↔ ∃ v, m.lookup k = some v := by
  rw [← lookup_isSome, Option.isSome_iff_exists]

namespace AssocMap
variable {κ β γ : Type}

def size (m : AssocMap κ β) : Nat := m.keys.length

def values (m : AssocMap κ β) : List β := m.entries.map Sigma.snd

section
variable (f : κ → β → γ)

theorem map_keys (l : List (Sigma fun _ : κ => β)) :
    (l.map fun e => (⟨e.1, f e.1 e.2⟩ : Sigma fun _ : κ => γ)).keys = l.keys := by
  rw [keys, map_map]
  rfl

variable (m : AssocMap κ β)

def mapValues : AssocMap κ γ where
  entries := m.entries.map fun e => ⟨e.1, f e.1 e.2⟩
  nodupKeys := by
    rw [List.NodupKeys, map_keys]
    exact m.nodupKeys

theorem size_mapValues : (m.mapValues f).size = m.size := congrArg length (map_keys f m.entries)

theorem values_mapValues : (m.mapValues f).values = m.entries.map fun e => f e.1 e.2 := by
  rw [values, mapValues, map_map]
  rfl

end

theorem flatten_mapValues_perm (hf : ∀ k l, (f k l).Perm l)
    (m : AssocMap κ (List β)) : (m.mapValues f).values.flatten.Perm m.values.flatten := by
  rw [values_mapValues]
  exact List.Perm.flatMap_left _ fun e _ => hf e.1 e.2

theorem size_lt {m m' : AssocMap κ β} (hs : ∀ k, k ∈ m' → k ∈ m) (hk : k ∈ m) (hk' : k ∉ m') :
    m'.size < m.size := by
  have hn : (k :: m'.keys).Nodup := nodup_cons.mpr ⟨hk', m'.keys_nodup⟩
  apply (hn.subperm ?_).length_le
  intro x hx
  rcases mem_cons.mp hx with rfl | hx
  · exact hk
  · exact hs x hx
variable {m : AssocMap κ β}

theorem mem_of_size_eq {m' : AssocMap κ γ} (hsub : ∀ k, k ∈ m → k ∈ m')
    (hs : m.size = m'.size) (hk : k ∈ m') : k ∈ m :=
  (((m.keys_nodup.subperm hsub).perm_of_length_le (Nat.le_of_eq hs.symm)).mem_iff).mpr hk

theorem exists_mem (h : m.size ≠ 0) : ∃ k, k ∈ m := exists_mem_of_length_pos (Nat.pos_of_ne_zero h)

theorem not_mem_of_size (h : m.size = 0) : k ∉ m := by
  intro hk
  rw [AList.mem_keys, length_eq_zero_iff.mp h] at hk
  cases hk

variable [DecidableEq κ]

def getD (m : AssocMap κ β) (k : κ) (default : β) : β := (lookup k m).getD default

theorem getD_of_notMem {m : AssocMap κ β} (h : k ∉ m) (d : β) : m.getD k d = d := by
  rw [getD, lookup_eq_none.mpr h, Option.getD_none]

def emplace (m : AssocMap κ β) (k : κ) (v : β) : AssocMap κ β := if k ∈ m then m else m.insert k v

theorem mem_getD [Membership α β] {m : AssocMap κ β} {x : α} (h : x ∉ d) :
    x ∈ m.getD k d ↔ ∃ v, lookup k m = some v ∧ x ∈ v := by
  rw [getD]
  cases lookup k m with
  | none => exact iff_of_false h nofun
  | some v => simp

section
variable (m : AssocMap κ β)

theorem mem_pairs (f : β → List α) :
    (k, x) ∈ (m.entries.flatMap fun e => (f e.2).map fun x => (e.1, x)) ↔
      ∃ v, lookup k m = some v ∧ x ∈ f v := by
  rw [mem_flatMap]
  constructor
  · intro ⟨e, he, hx⟩
    obtain ⟨x', hx', heq⟩ := mem_map.mp hx
    cases heq
    exact ⟨e.2, mem_lookup_iff.mpr he, hx'⟩
  · intro ⟨v, hv, hx⟩
    exact ⟨⟨k, v⟩, mem_lookup_iff.mp hv, mem_map_of_mem hx⟩

theorem lookup_emplace (k : κ) (v : β) : (m.emplace k v).lookup k = some ((lookup k m).getD v) := by
  rw [emplace]
  split_ifs with hmem
  · obtain ⟨w, hw⟩ := mem_iff_lookup.mp hmem
    rw [hw, Option.getD_some]
  · rw [lookup_insert, lookup_eq_none.mpr hmem, Option.getD_none]

theorem lookup_emplace_ne (h : k' ≠ k) (v : β) : (m.emplace k v).lookup k' = lookup k' m := by
  rw [emplace]
  split
  · rfl
  · exact lookup_insert_ne h

end

theorem lookup_mapValues (f : κ → β → γ) (m : AssocMap κ β) (k : κ) :
    (m.mapValues f).lookup k = (lookup k m).map (f k) := by
  obtain ⟨entries, hn⟩ := m
  change (entries.map fun e => (⟨e.1, f e.1 e.2⟩ : Sigma fun _ : κ => γ)).dlookup k =
    (entries.dlookup k).map (f k)
  clear hn
  induction entries with
  | nil => rfl
  | cons e entries ih =>
    obtain ⟨k', v⟩ := e
    by_cases hk : k = k'
    · subst hk
      rw [map_cons, dlookup_cons_eq, dlookup_cons_eq]
      rfl
    · rw [map_cons, dlookup_cons_ne _ _ hk, dlookup_cons_ne _ _ hk, ih]

section
variable (m : AssocMap κ β)

theorem lookup_insert_eq (k : κ) (v : β) :
    (fun k' => lookup k' (m.insert k v)) = update (fun k' => lookup k' m) k (some v) := by
  funext k'
  by_cases hk : k' = k
  · rw [hk, lookup_insert, update_self]
  · rw [lookup_insert_ne hk, update_of_ne hk]

variable {m} in
theorem forall_lookup_insert {P : κ → β → Prop} (hk : P k v)
    (h : ∀ k' v', lookup k' m = some v' → P k' v') :
    ∀ k' v', lookup k' (m.insert k v) = some v' → P k' v' := by
  intro k' v' hv
  by_cases he : k' = k
  · subst he
    rw [lookup_insert] at hv
    exact Option.some.inj hv ▸ hk
  · rw [lookup_insert_ne he] at hv
    exact h k' v' hv

@[simp] theorem getD_insert_self (k : κ) (v d : β) : getD (m.insert k v) k d = v := by
  rw [getD, lookup_insert, Option.getD_some]

theorem getD_insert_ne (h : k ≠ k') (v d : β) : getD (m.insert k' v) k d = m.getD k d := by
  rw [getD, lookup_insert_ne h, getD]

theorem getD_insert_if (k k' : κ) (v d : β) :
    getD (insert k v m) k' d = if k' = k then v else m.getD k' d := by
  split_ifs with hk
  · rw [hk, getD_insert_self]
  · exact getD_insert_ne m hk v d

theorem getD_insert (k : κ) (v d : β) :
    (fun k' => getD (m.insert k v) k' d) = update (fun k' => m.getD k' d) k v := by
  funext k'
  by_cases hk : k' = k
  · subst hk
    rw [getD_insert_self, update_self]
  · rw [getD_insert_ne m hk, update_of_ne hk]

theorem getD_erase (h : m.getD k d = d) (k' : κ) : getD (m.erase k) k' d = m.getD k' d := by
  by_cases hk : k' = k
  · subst hk
    rw [h, getD, lookup_erase, Option.getD_none]
  · rw [getD, lookup_erase_ne hk, getD]

theorem size_erase (k : κ) :
    AssocMap.size (m.erase k) = if m.lookup k = none then m.size else m.size - 1 := by
  change (m.erase k).keys.length = _
  simp only [AList.keys_erase, length_erase, AList.lookup_eq_none, AList.mem_keys, ite_not]
  rfl

theorem size_insert (k : κ) (v : β) :
    AssocMap.size (m.insert k v) = if m.lookup k = none then m.size + 1 else m.size := by
  have hk : AssocMap.size (m.insert k v) = AssocMap.size (m.erase k) + 1 := by
    change (m.insert k v).keys.length = (m.erase k).keys.length + 1
    rfl
  rw [hk, size_erase]
  split_ifs with hs
  · rfl
  · have hmem : k ∈ m.keys := by
      by_contra hnot
      exact hs (lookup_eq_none.mpr hnot)
    exact Nat.sub_add_cancel (length_pos_of_mem hmem)

end

theorem entries_perm (h : m.lookup k = some v) :
    m.entries.Perm (⟨k, v⟩ :: (m.erase k).entries) := by
  obtain ⟨v', l₁, l₂, hn, hl, he⟩ := exists_of_kerase (l := m.entries)
    (mem_keys.mp (mem_iff_lookup.mpr ⟨v, h⟩) : k ∈ m.entries.keys)
  have hv : v' = v := by
    have hmem : (⟨k, v'⟩ : Sigma fun _ : κ => β) ∈ m.entries := by
      rw [hl]
      exact mem_append_right _ mem_cons_self
    rw [mem_lookup_iff.mpr hmem] at h
    exact Option.some.inj h
  subst hv
  change m.entries.Perm (⟨k, v'⟩ :: m.entries.kerase k)
  rw [he, hl]
  exact perm_middle

theorem mem_values (m : AssocMap κ β) (v : β) : v ∈ m.values ↔ ∃ k, m.lookup k = some v := by
  rw [values, mem_map]
  constructor
  · intro h
    obtain ⟨e, he, hv⟩ := h
    exact ⟨e.1, hv ▸ mem_lookup_iff.mpr he⟩
  · intro h
    obtain ⟨k, hk⟩ := h
    exact ⟨⟨k, v⟩, mem_lookup_iff.mp hk, rfl⟩

theorem values_insert_perm (m : AssocMap κ β) (k : κ) (v : β) :
    (values (m.insert k v)).Perm (v :: values (m.erase k)) := by
  rfl

theorem values_perm (h : m.lookup k = some v) : m.values.Perm (v :: values (m.erase k)) := by
  have hp := (entries_perm h).map fun e => e.2
  exact hp

theorem erase_of_lookup_none (h : m.lookup k = none) : m.erase k = m := by
  apply ext
  exact kerase_of_notMem_keys (lookup_eq_none.mp h)

theorem flatten_push_perm (m : AssocMap κ (List β)) (k : κ) (x : β) :
    (values (m.insert k (m.getD k [] ++ [x]))).flatten.Perm (x :: m.values.flatten) := by
  refine (values_insert_perm m k _).flatten.trans ?_
  rw [flatten_cons]
  cases hk : m.lookup k with
  | none =>
    rw [getD, hk, erase_of_lookup_none hk]
    rfl
  | some v =>
    rw [getD, hk, append_assoc]
    refine .trans ?_ (((values_perm hk).flatten).symm.cons x)
    exact perm_middle

section
variable {m : AssocMap κ (List β)}

theorem mem_flatten_values : x ∈ m.values.flatten ↔ ∃ k, x ∈ m.getD k [] := by
  rw [mem_flatten]
  constructor
  · intro ⟨v, hv, hx⟩
    obtain ⟨k, hk⟩ := (m.mem_values v).mp hv
    exact ⟨k, (mem_getD not_mem_nil).mpr ⟨v, hk, hx⟩⟩
  · intro ⟨k, hx⟩
    obtain ⟨v, hk, hx⟩ := (mem_getD not_mem_nil).mp hx
    exact ⟨v, (m.mem_values v).mpr ⟨k, hk⟩, hx⟩

theorem getD_nodup (h : m.values.flatten.Nodup) (k : κ) : (m.getD k []).Nodup := by
  cases hk : m.lookup k with
  | none =>
    rw [getD, hk]
    exact .nil
  | some v =>
    rw [getD, hk]
    exact (nodup_flatten.mp h).1 v ((m.mem_values v).mpr ⟨k, hk⟩)

theorem eq_of_mem_getD (h : m.values.flatten.Nodup)
    (hk : x ∈ m.getD k []) (hk' : x ∈ m.getD k' []) : k = k' := by
  by_contra hne
  obtain ⟨v, hl, hk⟩ := (mem_getD not_mem_nil).mp hk
  have hn := ((values_perm hl).flatten.nodup_iff).mp h
  rw [flatten_cons, nodup_append'] at hn
  apply hn.2.2 hk
  rw [mem_flatten_values]
  refine ⟨k', ?_⟩
  rwa [getD, lookup_erase_ne (Ne.symm hne)]

end

theorem sum_getD [AddCommMonoid R] (m : AssocMap κ R) :
    ∑ k ∈ m.keys.toFinset, m.getD k 0 = m.values.sum := by
  rw [sum_toFinset _ m.keys_nodup, AList.keys, keys, map_map]
  congr 1
  apply map_congr_left
  intro e he
  rw [comp_apply, getD, AList.mem_lookup_iff.mpr he, Option.getD_some]

section
variable {ε : Type} (f : κ → β → Except ε β) (m : AssocMap κ β)

def updateAt (k : κ) : Except ε (AssocMap κ β) :=
  match lookup k m with
  | none => .ok m
  | some v => do
    let v ← f k v
    .ok (m.insert k v)

def updateAll : Except ε (AssocMap κ β) := m.keys.foldlM (updateAt f) m

end

variable {f : κ → β → Except ε β}
variable {R : κ → β → β → Prop}

theorem updateAt_ok (h : updateAt f m k = .ok m') :
    Option.Rel (fun v v' => f k v = .ok v') (lookup k m) (lookup k m') ∧
      ∀ j, j ≠ k → lookup j m' = lookup j m := by
  rw [updateAt] at h
  cases hk : lookup k m with
  | none =>
    rw [hk] at h
    cases h
    rw [hk]
    exact ⟨.none, fun _ _ => rfl⟩
  | some v =>
    rw [hk] at h
    obtain ⟨v', hv', h⟩ := except_bind_ok h
    cases h
    rw [lookup_insert]
    exact ⟨.some hv', fun j hj => lookup_insert_ne hj⟩

theorem updateAll_ok (h : updateAll f m = .ok m') (k : κ) :
    Option.Rel (fun v v' => f k v = .ok v') (lookup k m) (lookup k m') := by
  have hf : ∀ (keys : List κ) (m₁ : AssocMap κ β), keys.Nodup →
      keys.foldlM (updateAt f) m₁ = .ok m' →
      (∀ k ∈ keys, Option.Rel (fun v v' => f k v = .ok v') (lookup k m₁) (lookup k m')) ∧
      ∀ k, k ∉ keys → lookup k m' = lookup k m₁ := by
    intro keys
    induction keys with
    | nil =>
      intro m₁ _ h
      cases h
      exact ⟨nofun, fun _ _ => rfl⟩
    | cons k keys ih =>
      intro m₁ hnodup h
      obtain ⟨hk, hnodup⟩ := nodup_cons.mp hnodup
      obtain ⟨m₂, hm₂, h⟩ := except_bind_ok h
      obtain ⟨hr, hother⟩ := updateAt_ok hm₂
      obtain ⟨ha, hrest⟩ := ih m₂ hnodup h
      refine ⟨?_, ?_⟩
      · intro j hj
        rcases mem_cons.mp hj with rfl | hj
        · rw [hrest j hk]
          exact hr
        · rw [← hother j fun he => hk (he ▸ hj)]
          exact ha j hj
      · intro j hj
        rw [hrest j fun hmem => hj (mem_cons_of_mem _ hmem),
          hother j fun he => hj (he ▸ mem_cons_self)]
  obtain ⟨ha, hrest⟩ := hf m.keys m m.keys_nodup h
  by_cases hk : k ∈ m
  · exact ha k (mem_keys.mp hk)
  · rw [hrest k fun hmem => hk (mem_keys.mpr hmem), lookup_eq_none.mpr hk]
    exact .none

theorem exists_foldlM_updateAt {keys : List κ} : ∀ m₁ : AssocMap κ β, keys.Nodup →
    (∀ k ∈ keys, ∀ v, lookup k m₁ = some v → ∃ v', f k v = .ok v') →
    ∃ m', keys.foldlM (updateAt f) m₁ = .ok m' := by
  induction keys with
  | nil =>
    intro m₁ _ _
    exact ⟨m₁, rfl⟩
  | cons k keys ih =>
    intro m₁ hn h
    obtain ⟨hk, hn⟩ := nodup_cons.mp hn
    obtain ⟨m₂, hm₂⟩ : ∃ m₂, updateAt f m₁ k = .ok m₂ := by
      rw [updateAt]
      cases hv : lookup k m₁ with
      | none => exact ⟨m₁, rfl⟩
      | some v =>
        obtain ⟨v', hv'⟩ := h k mem_cons_self v hv
        exact ⟨m₁.insert k v', by simp only [hv']; rfl⟩
    obtain ⟨m', hm'⟩ := ih m₂ hn (by
      intro j hj v hv
      rw [(updateAt_ok hm₂).2 j fun he => hk (he ▸ hj)] at hv
      exact h j (mem_cons_of_mem _ hj) v hv)
    exact ⟨m', by rw [foldlM_cons, hm₂]; exact hm'⟩

theorem updateAll_rel (h : ∀ k v, lookup k m = some v → ∃ v', f k v = .ok v' ∧ R k v v') :
    ∃ m', updateAll f m = .ok m' ∧ ∀ k, Option.Rel (R k) (lookup k m) (lookup k m') := by
  obtain ⟨m', hm'⟩ := exists_foldlM_updateAt m m.keys_nodup fun k _ v hv =>
    (h k v hv).imp fun _ => And.left
  refine ⟨m', hm', fun k => ?_⟩
  have hr := updateAll_ok hm' k
  generalize hv : lookup k m = x at hr ⊢
  generalize lookup k m' = y at hr ⊢
  cases hr with
  | none => exact .none
  | some he =>
    obtain ⟨v', hv', hR⟩ := h k _ hv
    cases he.symm.trans hv'
    exact .some hR

end AssocMap

end Rebalancer
