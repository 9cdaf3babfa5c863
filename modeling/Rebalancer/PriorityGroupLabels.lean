import Rebalancer.IncrementalPriorityQueue
import Rebalancer.PriorityGroups

namespace Rebalancer
open List Function Sequence

theorem label_inj {l : GroupRef → Sequence} {gs : List GroupRef}
    (h : gs.Pairwise fun g h => Precedes (l g) (l h)) (hg : g ∈ gs)
    (hg' : g' ∈ gs) (heq : l g = l g') : g = g' := by
  by_contra hne
  have hd : gs.Pairwise fun g h => l g ≠ l h := by
    refine h.imp ?_
    intro a b hab he
    rw [he] at hab
    exact Precedes.irrefl _ hab
  have : Std.Symm fun g h => l g ≠ l h := ⟨fun _ _ h he => h he.symm⟩
  exact hd.forall hg hg' hne heq

/-- Groups in the order of their labels: the updates that the items of the group were in. -/
structure OrderedGroups (i : Nat) (label : GroupRef → Sequence) (groups : List GroupRef) :
    Prop where
  sorted : groups.Pairwise fun g h => Precedes (label g) (label h)
  ne_nil : ∀ g ∈ groups, label g ≠ []
  bound : ∀ g ∈ groups, ∀ a ∈ label g, a ≤ i
  closed : ∀ g ∈ groups, ∀ s, (s ++ [i]) <+: label g → ∃ h ∈ groups, label h = s ++ [i]

theorem OrderedGroups.insert (h : OrderedGroups i l (l₁ ++ l₂)) (hgr : group ∉ l₁ ++ l₂)
    (hf : ∀ g ∈ l₁ ++ l₂, l g ≠ s ++ [i]) (hbo : ∀ a ∈ s, a ≤ i)
    (hcl : ∀ t, (t ++ [i]) <+: s → ∃ g ∈ l₁ ++ l₂, l g = t ++ [i])
    (hbe : ∀ g ∈ l₁, Precedes (l g) s) (haf : ∀ g ∈ l₂, l g = s ∨ Precedes s (l g)) :
    OrderedGroups i (update l group (s ++ [i])) (l₁ ++ group :: l₂) := by
  have hother : ∀ g ∈ l₁ ++ l₂, update l group (s ++ [i]) g = l g := by
    intro g hg
    exact update_of_ne (ne_of_mem_of_not_mem hg hgr) _ _
  have hself : update l group (s ++ [i]) group = s ++ [i] := update_self _ _ _
  have hmem : ∀ g, g ∈ l₁ ++ group :: l₂ ↔ g = group ∨ g ∈ l₁ ++ l₂ := by
    intro g
    rw [mem_append, mem_cons, mem_append]
    exact or_left_comm
  have hl : ∀ g ∈ l₁, g ∈ l₁ ++ l₂ := fun g hg => mem_append_left _ hg
  have hr : ∀ g ∈ l₂, g ∈ l₁ ++ l₂ := fun g hg => mem_append_right _ hg
  refine ⟨?_, ?_, ?_, ?_⟩
  · obtain ⟨hs₁, hs₂, hc⟩ := pairwise_append.mp h.sorted
    apply pairwise_append.mpr
    refine ⟨?_, pairwise_cons.mpr ⟨?_, ?_⟩, ?_⟩
    · refine hs₁.imp_of_mem ?_
      intro a b ha hb hab
      rw [hother a (hl a ha), hother b (hl b hb)]
      exact hab
    · intro g hg
      rw [hself, hother g (hr g hg)]
      rcases haf g hg with he | hlt
      · rw [he]
        exact precedes_append s i
      · exact (precedes_append s i).trans hlt
    · refine hs₂.imp_of_mem ?_
      intro a b ha hb hab
      rw [hother a (hr a ha), hother b (hr b hb)]
      exact hab
    · intro a ha b hb
      rw [hother a (hl a ha)]
      rcases mem_cons.mp hb with rfl | hb
      · rw [hself]
        apply (hbe a ha).append (h.bound a (hl a ha))
        intro hp
        obtain ⟨g, hg, hlabel⟩ := h.closed a (hl a ha) s hp
        exact hf g hg hlabel
      · rw [hother b (hr b hb)]
        exact hc a ha b hb
  · intro g hg
    rcases (hmem g).mp hg with rfl | hg
    · rw [hself]
      exact append_ne_nil_of_right_ne_nil _ (cons_ne_nil _ _)
    · rw [hother g hg]
      exact h.ne_nil g hg
  · intro g hg a ha
    rcases (hmem g).mp hg with rfl | hg
    · rw [hself] at ha
      rcases mem_append.mp ha with ha | ha
      · exact hbo a ha
      · exact Nat.le_of_eq (mem_singleton.mp ha)
    · rw [hother g hg] at ha
      exact h.bound g hg a ha
  · intro g hg t ht
    have hold : (∃ g ∈ l₁ ++ l₂, l g = t ++ [i]) →
        ∃ g ∈ l₁ ++ group :: l₂, update l group (s ++ [i]) g = t ++ [i] := by
      intro hexists
      obtain ⟨g', hg', hlabel⟩ := hexists
      exact ⟨g', (hmem g').mpr (.inr hg'), (hother g' hg').trans hlabel⟩
    rcases (hmem g).mp hg with rfl | hg
    · rw [hself] at ht
      rcases prefix_concat_iff.mp ht with heq | hp
      · exact ⟨g, (hmem g).mpr (.inl rfl), hself.trans heq.symm⟩
      · exact hold (hcl t hp)
    · rw [hother g hg] at ht
      exact hold (h.closed g hg t ht)

structure LabelledGroups (i : Nat) (label : GroupRef → Sequence) (groups : List GroupRef)
    (link : GroupRef → Option GroupRef) (newItems : Option GroupRef) : Prop extends
    OrderedGroups i label groups where
  parent : ∀ h ∈ groups, ∀ s, label h = s ++ [i] →
    s = [] ∧ newItems = some h ∨ ∃ g ∈ groups, label g = s ∧ link g = some h
  linked : ∀ g ∈ groups, ∀ h, link g = some h → h ∈ groups ∧ label h = label g ++ [i]
  newest : ∀ h, newItems = some h → h ∈ groups ∧ label h = [i]

theorem LabelledGroups.congr_link (h : LabelledGroups i l gs link newItems)
    (hli : ∀ g ∈ gs, l' g = link g) : LabelledGroups i l gs l' newItems := by
  refine ⟨h.toOrderedGroups, ?_, ?_, h.newest⟩
  · intro g hg s hs
    rcases h.parent g hg s hs with hn | ⟨g', hg', hl, hl'⟩
    · exact .inl hn
    · exact .inr ⟨g', hg', hl, (hli g' hg').trans hl'⟩
  · intro g hg g' hl'
    exact h.linked g hg g' ((hli g hg).symm.trans hl')

theorem LabelledGroups.split (h : LabelledGroups i l (l₁ ++ g :: l₂) link newItems)
    (hgr : group ∉ l₁ ++ g :: l₂) (hli : link g = none) (hem : link group = none) :
    LabelledGroups i (update l group (l g ++ [i])) (l₁ ++ group :: g :: l₂)
      (update link g (some group)) newItems := by
  have hg : g ∈ l₁ ++ g :: l₂ := mem_append_right _ mem_cons_self
  have hmem : ∀ g', g' ∈ l₁ ++ group :: g :: l₂ ↔ g' = group ∨ g' ∈ l₁ ++ g :: l₂ := by
    intro g'
    rw [mem_append, mem_cons, mem_append]
    exact or_left_comm
  have hother : ∀ g' ∈ l₁ ++ g :: l₂, update l group (l g ++ [i]) g' = l g' := by
    intro g' hg'
    exact update_of_ne (ne_of_mem_of_not_mem hg' hgr) _ _
  have hself : update l group (l g ++ [i]) group = l g ++ [i] := update_self _ _ _
  have hf : ∀ g' ∈ l₁ ++ g :: l₂, l g' ≠ l g ++ [i] := by
    intro g' hg' heq
    rcases h.parent g' hg' (l g) heq with ⟨hnil, -⟩ | ⟨g'', hg'', hl, hl'⟩
    · exact h.ne_nil g hg hnil
    · rw [label_inj h.sorted hg'' hg hl, hli] at hl'
      cases hl'
  obtain ⟨-, hsorted, hc⟩ := pairwise_append.mp h.sorted
  refine ⟨h.toOrderedGroups.insert hgr hf (h.bound g hg) (h.closed g hg) ?_ ?_, ?_, ?_, ?_⟩
  · intro g' hg'
    exact hc g' hg' g mem_cons_self
  · intro g' hg'
    rcases mem_cons.mp hg' with rfl | hg'
    · exact .inl rfl
    · exact .inr ((pairwise_cons.mp hsorted).1 g' hg')
  · intro g' hg' s hs
    rcases (hmem g').mp hg' with rfl | hg'
    · rw [hself] at hs
      refine .inr ⟨g, (hmem g).mpr (.inr hg), ?_, update_self _ _ _⟩
      rw [hother g hg]
      exact (append_inj' hs rfl).1
    · rw [hother g' hg'] at hs
      rcases h.parent g' hg' s hs with hn | ⟨g'', hg'', hl, hl'⟩
      · exact .inl hn
      · refine .inr ⟨g'', (hmem g'').mpr (.inr hg''), (hother g'' hg'').trans hl, ?_⟩
        have hne : g'' ≠ g := by
          intro he
          rw [he, hli] at hl'
          cases hl'
        rw [update_of_ne hne]
        exact hl'
  · intro g' hg' h' hl'
    have hgg : g' ≠ group := by
      intro he
      subst he
      rw [update_of_ne (ne_of_mem_of_not_mem hg hgr).symm, hem] at hl'
      cases hl'
    have hg' := ((hmem g').mp hg').resolve_left hgg
    rw [hother g' hg']
    by_cases hgg' : g' = g
    · subst hgg'
      rw [update_self] at hl'
      cases hl'
      exact ⟨(hmem _).mpr (.inl rfl), hself⟩
    · rw [update_of_ne hgg'] at hl'
      obtain ⟨hh, hl⟩ := h.linked g' hg' h' hl'
      exact ⟨(hmem h').mpr (.inr hh), (hother h' hh).trans hl⟩
  · intro h' hn
    obtain ⟨hh, hl⟩ := h.newest h' hn
    exact ⟨(hmem h').mpr (.inr hh), (hother h' hh).trans hl⟩

theorem LabelledGroups.append (h : LabelledGroups i l gs link none)
    (hgr : group ∉ gs) (he : link group = none) :
    LabelledGroups i (update l group [i]) (gs ++ [group]) link (some group) := by
  have hmem : ∀ g, g ∈ gs ++ [group] ↔ g ∈ gs ∨ g = group := by
    intro g
    rw [mem_append, mem_singleton]
  have hother : ∀ g ∈ gs, update l group [i] g = l g := by
    intro g hg
    exact update_of_ne (ne_of_mem_of_not_mem hg hgr) _ _
  have hself : update l group [i] group = [i] := update_self _ _ _
  have hf : ∀ g ∈ gs, l g ≠ [] ++ [i] := by
    intro g hg heq
    rcases h.parent g hg [] heq with ⟨-, hn⟩ | ⟨g', hg', hl, -⟩
    · cases hn
    · exact h.ne_nil g' hg' hl
  have ho : OrderedGroups i (update l group ([] ++ [i])) (gs ++ group :: []) := by
    apply OrderedGroups.insert
    · rw [append_nil]
      exact h.toOrderedGroups
    · rw [append_nil]
      exact hgr
    · rw [append_nil]
      exact hf
    · intro a ha
      cases ha
    · intro t ht
      rw [prefix_nil] at ht
      exact absurd ht (append_ne_nil_of_right_ne_nil _ (cons_ne_nil _ _))
    · intro g hg
      obtain ⟨a, s, hl⟩ := exists_cons_of_ne_nil (h.ne_nil g hg)
      rw [hl]
      trivial
    · intro g hg
      cases hg
  refine ⟨ho, ?_, ?_, ?_⟩
  · intro g hg s hs
    rcases (hmem g).mp hg with hg | rfl
    · rw [hother g hg] at hs
      rcases h.parent g hg s hs with ⟨-, hn⟩ | ⟨g', hg', hl, hlink⟩
      · cases hn
      · exact .inr ⟨g', (hmem g').mpr (.inl hg'), (hother g' hg').trans hl, hlink⟩
    · rw [hself] at hs
      exact .inl ⟨(append_inj' (hs : [] ++ [i] = s ++ [i]) rfl).1.symm, rfl⟩
  · intro g hg h' hlink
    rcases (hmem g).mp hg with hg | rfl
    · obtain ⟨hh, hl⟩ := h.linked g hg h' hlink
      rw [hother g hg, hother h' hh]
      exact ⟨(hmem h').mpr (.inl hh), hl⟩
    · rw [he] at hlink
      cases hlink
  · intro h' hn
    cases hn
    exact ⟨(hmem _).mpr (.inr rfl), hself⟩

end Rebalancer
