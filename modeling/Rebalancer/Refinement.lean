import Mathlib

namespace Rebalancer

section
variable {α ι : Type}

def Together (family : List (List α)) (a b : α) : Prop := ∀ s ∈ family, (a ∈ s ↔ b ∈ s)

namespace Together

theorem symm (h : Together f a b) : Together f b a :=
  fun s hs => (h s hs).symm

theorem mono (h : Together f a b) (hsub : ∀ s ∈ s', s ∈ f) : Together s' a b :=
  fun s hs => h s (hsub s hs)

theorem cons_iff : Together (s :: f) a b ↔ (a ∈ s ↔ b ∈ s) ∧ Together f a b := List.forall_mem_cons

end Together

/-- The labels `l'` separate what the labels `l` separate, and the points of each part from the
points outside it, and nothing else. -/
def SplitsBy (l l' : α → ι) (parts : List (α → Prop)) : Prop :=
  ∀ a b, l' a = l' b ↔ l a = l b ∧ ∀ part ∈ parts, (part a ↔ part b)

namespace SplitsBy

theorem nil (l : α → ι) : SplitsBy l l [] := by
  intro a b
  simp

theorem append (h : SplitsBy l l' ps) (h' : SplitsBy l' l'' ps') : SplitsBy l l'' (ps ++ ps') := by
  intro a b
  rw [h' a b, h a b, List.forall_mem_append, and_assoc]

theorem fresh (new : ι) (hc : ∀ a, part a → l a = i)
    (hn : ∀ a, l a ≠ new) (hin : ∀ a, part a → l' a = new)
    (ho : ∀ a, ¬ part a → l' a = l a) : SplitsBy l l' [part] := by
  intro a b
  by_cases ha : part a <;> by_cases hb : part b
  · simp [hin a ha, hin b hb, hc a ha, hc b hb, ha, hb]
  · simp [hin a ha, ho b hb, ha, hb, (hn b).symm]
  · simp [hin b hb, ho a ha, ha, hb, hn a]
  · simp [ho a ha, ho b hb, ha, hb]

theorem whole (hc : ∀ a, part a ↔ l a = i) : SplitsBy l l [part] := by
  intro a b
  rw [List.forall_mem_singleton, hc a, hc b]
  exact ⟨fun h => ⟨h, by rw [h]⟩, And.left⟩

theorem empty (l : α → ι) (part : α → Prop) (hp : ∀ a, ¬ part a) : SplitsBy l l [part] := by
  intro a b
  simp [hp a, hp b]

theorem collect (h : SplitsBy l l' ps) (hpart : ∀ part ∈ ps, ∃ i, ∀ a, part a ↔ s a ∧ l a = i)
    (hc : ∀ a, s a → ∃ part ∈ ps, part a) : SplitsBy l l' [s] := by
  intro a b
  rw [h a b, List.forall_mem_singleton]
  have key : ∀ a b, l a = l b → (∀ part ∈ ps, (part a ↔ part b)) → s a → s b := by
    intro a b hl hparts ha
    obtain ⟨part, hp, hpa⟩ := hc a ha
    obtain ⟨i, hi⟩ := hpart part hp
    exact ((hi b).mp ((hparts part hp).mp hpa)).1
  refine and_congr_right ?_
  intro hl
  constructor
  · intro hparts
    exact ⟨key a b hl hparts, key b a hl.symm fun p hp => (hparts p hp).symm⟩
  · intro hs part hp
    obtain ⟨i, hi⟩ := hpart part hp
    rw [hi a, hi b, hs, hl]

end SplitsBy

end

end Rebalancer
