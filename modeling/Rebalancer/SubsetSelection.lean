import Rebalancer.ChangeSet

namespace Rebalancer
open List Nat
open Finset hiding mem_singleton

inductive MakeupType where
  | hot
  | cold
  | random

structure SubsetMakeup where
  descending : List ContainerId
  portions : List (MakeupType × Nat)

def SubsetMakeup.Ordered (m : SubsetMakeup) : Prop := ∃ p ∈ m.portions, p.1 ≠ .random

def SubsetMakeup.Random (m : SubsetMakeup) : Prop := ∃ p ∈ m.portions, p.1 = .random

/-- The containers that affect the objective, sorted, the always-chosen ones and the indices that
the random generator produces. -/
structure SubsetSelector where
  sortedOrder : List ContainerId
  nodup : sortedOrder.Nodup
  alwaysChosenContainers : List ContainerId
  draws : Nat → Fin sortedOrder.length

structure Selection where
  containers : Finset ContainerId
  chosenThisRound : Finset ContainerId
  drawn : Nat

def Selection.inserter (s : Selection) (container : ContainerId) : Selection := { s with
    containers := insert container s.containers
    chosenThisRound := insert container s.chosenThisRound }

/-- A hot portion, or a cold one on the reversed order; `none` when it reads past the end. -/
def selectInOrder (target : Nat) : List ContainerId → Selection → Option Selection
  | [], s => if s.containers.card < target then none else some s
  | container :: order, s =>
    if s.containers.card < target then selectInOrder target order (s.inserter container)
    else some s

namespace SubsetSelector

def all (d : SubsetSelector) : Finset ContainerId := ⟨d.sortedOrder, d.nodup⟩

def choice (d : SubsetSelector) (k : Nat) : ContainerId := d.sortedOrder.get (d.draws k)

/-- The inner loop of a random portion; `none` when the fuel runs out. -/
def draw (d : SubsetSelector) : Nat → Selection → Option Selection
  | 0, _ => none
  | fuel + 1, s =>
    if d.choice s.drawn ∈ s.chosenThisRound then draw d fuel { s with drawn := s.drawn + 1 }
    else some ({ s with drawn := s.drawn + 1 }.inserter (d.choice s.drawn))

def startRound (d : SubsetSelector) (s : Selection) : Selection :=
  if s.chosenThisRound.card = d.sortedOrder.length then { s with chosenThisRound := ∅ } else s

def selectAtRandom (d : SubsetSelector) (target : Nat) : Nat → Selection → Option Selection
  | 0, _ => none
  | fuel + 1, s =>
    if s.containers.card < target then do
      let s ← draw d fuel (d.startRound s)
      selectAtRandom d target fuel s
    else some s

def selectPortion (d : SubsetSelector) (fuel : Nat) (descending : List ContainerId)
    (portion : MakeupType × Nat) (s : Selection) : Option Selection :=
  let target := min (s.containers.card + portion.2) d.all.card
  match portion.1 with
  | .hot => selectInOrder target descending s
  | .cold => selectInOrder target descending.reverse s
  | .random => d.selectAtRandom target fuel s

def selectPortions (d : SubsetSelector) (fuel : Nat) (descending : List ContainerId) :
    List (MakeupType × Nat) → Selection → Option Selection
  | [], s => some s
  | portion :: portions, s => do
    let s ← d.selectPortion fuel descending portion s
    selectPortions d fuel descending portions s

def insertAlways (d : SubsetSelector) (s : Selection) : Selection :=
  d.alwaysChosenContainers.foldl Selection.inserter { s with containers := ∅ }

def select (d : SubsetSelector) (fuel : Nat) (makeup : SubsetMakeup) (s : Selection) :
    Option Selection :=
  d.selectPortions fuel makeup.descending makeup.portions (d.insertAlways s)

def run (d : SubsetSelector) (fuel : Nat) :
    List SubsetMakeup → Selection → Option (List (Finset ContainerId))
  | [], _ => some []
  | makeup :: makeups, s => do
    let s ← d.select fuel makeup s
    let later ← run d fuel makeups s
    some (s.containers :: later)

/-- Each portion adds containers up to its size or the number of containers that affect the
objective. -/
inductive Fills (d : SubsetSelector) : List (MakeupType × Nat) → Finset ContainerId →
    Finset ContainerId → Prop where
  | nil : Fills d [] a a
  | cons (hsub : a ⊆ b) (hcard : b.card = max a.card (min (a.card + num) d.all.card))
    (h : Fills d portions b c) : Fills d ((type, num) :: portions) a c

def Fair (d : SubsetSelector) : Prop := ∀ i k, ∃ k', k ≤ k' ∧ d.draws k' = i

/-- Draws from a selection find a container that is new in its round, and keep the property. -/
structure Draws (d : SubsetSelector) (Inv : Selection → Prop) : Prop where
  room : ∀ s, Inv s → s.containers.card < d.all.card → s.chosenThisRound.card ≤ d.all.card
  cleared : ∀ s, Inv s → Inv { s with chosenThisRound := ∅ }
  drawn : ∀ s, Inv s → s.containers.card < d.all.card → s.chosenThisRound.card < d.all.card →
    ∀ c ∈ d.all, ∀ k, Inv ({ s with drawn := k }.inserter c)

def Extends (Inv : Selection → Prop) (target : Nat) (f : Nat → Selection → Option Selection)
    (s : Selection) : Prop :=
  ∃ s' enough, (∀ fuel, enough ≤ fuel → f fuel s = some s') ∧ Inv s' ∧
    s.containers ⊆ s'.containers ∧ s'.containers.card = max s.containers.card target

variable {d : SubsetSelector} {s : Selection} {Inv : Selection → Prop}

theorem Extends.refl (h : Inv s) (ht : t ≤ s.containers.card)
    (hf : ∀ fuel, f (fuel + 1) s = some s) : Extends Inv t f s := by
  refine ⟨s, 1, ?_, h, subset_rfl, (max_eq_left ht).symm⟩
  intro fuel hfuel
  obtain ⟨fuel, rfl⟩ := Nat.exists_eq_add_of_le' hfuel
  exact hf fuel

theorem Extends.of_step (h : Extends Inv t' f t) (hsub : s.containers ⊆ t.containers)
    (ht : t.containers.card ≤ t') (hs : ∀ fuel, g fuel s = f fuel t) : Extends Inv t' g s := by
  obtain ⟨s', e, hf, hi, hs', hcard⟩ := h
  refine ⟨s', e, fun fuel hfuel => (hs fuel).trans (hf fuel hfuel), hi, hsub.trans hs', ?_⟩
  rw [hcard, max_eq_right ht, max_eq_right ((card_le_card hsub).trans ht)]

theorem selectInOrder_extends (o : List ContainerId)
    (ho : ∀ s, Inv s → ∀ c ∈ o, Inv (s.inserter c)) : ∀ {s : Selection}, Inv s →
    t ≤ (s.containers ∪ o.toFinset).card → Extends Inv t (fun _ => selectInOrder t o) s := by
  induction o with
  | nil =>
    intro s hi ht
    rw [toFinset_nil, union_empty] at ht
    exact .refl hi ht fun _ => if_neg ht.not_gt
  | cons c o ih =>
    intro s hi ht
    by_cases hlt : s.containers.card < t
    · rw [toFinset_cons, union_insert, ← insert_union] at ht
      exact (ih (fun s h c' hc => ho s h c' (mem_cons_of_mem _ hc)) (ho s hi c mem_cons_self)
        ht).of_step (subset_insert _ _) ((card_insert_le _ _).trans hlt) fun _ => if_pos hlt
    · exact .refl hi (not_lt.mp hlt) fun _ => if_neg hlt

theorem choice_mem (k : Nat) : d.choice k ∈ d.all := get_mem _ _

theorem draw_of_new (hn : d.choice s.drawn ∉ s.chosenThisRound) :
    d.draw (fuel + 1) s = some ({ s with drawn := s.drawn + 1 }.inserter (d.choice s.drawn)) :=
  if_neg hn

theorem draw_ok (n : Nat) : ∀ {s : Selection}, d.choice (s.drawn + n) ∉ s.chosenThisRound →
    ∃ c k enough, c ∈ d.all ∧ c ∉ s.chosenThisRound ∧ ∀ fuel, enough ≤ fuel →
      d.draw (fuel + 1) s = some ({ s with drawn := k }.inserter c) := by
  induction n with
  | zero =>
    intro s hn
    exact ⟨_, _, 0, choice_mem s.drawn, hn, fun _ _ => draw_of_new hn⟩
  | succ n ih =>
    intro s hn
    by_cases hold : d.choice s.drawn ∈ s.chosenThisRound
    · rw [← Nat.add_assoc, Nat.add_right_comm] at hn
      obtain ⟨c, k, enough, hc, hcnew, hd⟩ := ih (s := { s with drawn := s.drawn + 1 }) hn
      refine ⟨c, k, enough + 1, hc, hcnew, ?_⟩
      intro fuel hf
      obtain ⟨fuel, rfl⟩ := Nat.exists_eq_add_of_le' (le_of_add_left_le hf)
      rw [draw, if_pos hold]
      exact hd fuel (le_of_succ_le_succ hf)
    · exact ⟨_, _, 0, choice_mem s.drawn, hold, fun _ _ => draw_of_new hold⟩

theorem selectAtRandom_of_drawn (hfa : d.Fair) (hi : Inv s)
    (hr : s.containers.card < t → s.chosenThisRound.card < d.all.card)
    (hne : ∀ c k, c ∈ d.all → c ∉ s.chosenThisRound → s.containers.card < t →
      Extends Inv t (d.selectAtRandom t) ({ s with drawn := k }.inserter c)) :
    Extends Inv t (d.selectAtRandom t) s := by
  by_cases hlt : s.containers.card < t
  · obtain ⟨c, hc, hn⟩ := exists_mem_notMem_of_card_lt_card (hr hlt)
    obtain ⟨i, rfl⟩ := get_of_mem hc
    obtain ⟨k, hk, hi⟩ := hfa i s.drawn
    obtain ⟨n, rfl⟩ := Nat.exists_eq_add_of_le hk
    obtain ⟨c, k, e, hc, hn, hd⟩ := draw_ok n (hi ▸ hn)
    obtain ⟨s', e', hf, hi', hsub, hcard⟩ := hne c k hc hn hlt
    refine ⟨s', e + e' + 2, ?_, hi', (Finset.subset_insert _ _).trans hsub, ?_⟩
    · intro fuel hfuel
      obtain ⟨fuel, rfl⟩ := Nat.exists_eq_add_of_le' (le_of_add_left_le hfuel)
      have hs : d.startRound s = s := if_neg (hr hlt).ne
      rw [selectAtRandom, if_pos hlt, hs, hd fuel (by omega)]
      exact hf (fuel + 1) (by omega)
    · rw [hcard, max_eq_right hlt.le]
      exact max_eq_right ((card_insert_le _ _).trans hlt)
  · exact .refl hi (not_lt.mp hlt) fun _ => if_neg hlt

theorem left_lt (hc : c ∈ d.all) (hn : c ∉ c') :
    (d.all \ insert c c').card < (d.all \ c').card := by
  rw [sdiff_insert]
  exact card_erase_lt_of_mem (mem_sdiff.mpr ⟨hc, hn⟩)

/-- Draws until the round is full; `hfull` says how it goes on from there. -/
theorem selectAtRandom_rounds {P : Selection → Prop} (hf : d.Fair) (hinv : ∀ s, P s → Inv s)
    (hdrawn : ∀ s, P s → s.containers.card < t → s.chosenThisRound.card < d.all.card →
      ∀ c ∈ d.all, ∀ k, P ({ s with drawn := k }.inserter c))
    (hfull : ∀ s, P s → s.containers.card < t → d.all.card ≤ s.chosenThisRound.card →
      Extends Inv t (d.selectAtRandom t) s) (hs : P s) : Extends Inv t (d.selectAtRandom t) s := by
  induction hn : (d.all \ s.chosenThisRound).card using Nat.strong_induction_on generalizing s with
  | _ n ih =>
    subst hn
    by_cases hr : s.containers.card < t → s.chosenThisRound.card < d.all.card
    · apply selectAtRandom_of_drawn hf (hinv s hs) hr
      intro c k hc hnew hlt
      exact ih _ (left_lt hc hnew) (hdrawn s hs hlt (hr hlt) c hc k) rfl
    · obtain ⟨hlt, hge⟩ := Classical.not_imp.mp hr
      exact hfull s hs hlt (not_lt.mp hge)

theorem selectAtRandom_same_round (hf : d.Fair) (hd : d.Draws Inv) (hi : Inv s)
    (hs : s.chosenThisRound ⊆ s.containers) (ht : t ≤ d.all.card) :
    Extends Inv t (d.selectAtRandom t) s := by
  apply selectAtRandom_rounds (P := fun s => Inv s ∧ s.chosenThisRound ⊆ s.containers) hf
    (fun _ h => h.1) _ _ ⟨hi, hs⟩
  · rintro s ⟨hi, hs⟩ hlt hr c hc k
    exact ⟨hd.drawn s hi (hlt.trans_le ht) hr c hc k, insert_subset_insert c hs⟩
  · rintro s ⟨-, hs⟩ hlt hge
    exact absurd ((card_le_card hs).trans_lt (hlt.trans_le ht)) hge.not_gt

theorem selectAtRandom_extends (hf : d.Fair) (hd : d.Draws Inv) (hi : Inv s)
    (ht : t ≤ d.all.card) : Extends Inv t (d.selectAtRandom t) s := by
  apply selectAtRandom_rounds (P := Inv) hf (fun _ h => h) _ _ hi
  · intro s hi hlt hr c hc k
    exact hd.drawn s hi (hlt.trans_le ht) hr c hc k
  · intro s hi hlt hge
    have hs : d.startRound { s with chosenThisRound := ∅ } = d.startRound s := by
      rw [startRound, ite_self]
      exact (if_pos (le_antisymm (hd.room s hi (hlt.trans_le ht)) hge)).symm
    apply (selectAtRandom_same_round (s := { s with chosenThisRound := ∅ }) hf hd
      (hd.cleared s hi) (empty_subset _) ht).of_step (Finset.Subset.refl s.containers) hlt.le
    intro fuel
    cases fuel with
    | zero => rfl
    | succ fuel =>
      rw [selectAtRandom, selectAtRandom, hs, if_pos hlt]
      exact (if_pos hlt).symm

/-- A property that the insertions of a run keep, as far as the makeups make them. -/
structure Keeps (d : SubsetSelector) (makeups : List SubsetMakeup) (Inv : Selection → Prop) :
    Prop where
  ordered : ∀ m ∈ makeups, m.Ordered → ∀ s, Inv s → ∀ c ∈ m.descending, Inv (s.inserter c)
  random : ∀ m ∈ makeups, m.Random → d.Draws Inv
  always : ∀ s, Inv s → Inv (d.insertAlways s)

theorem selectPortions_fills (hfa : d.Fair) {m : SubsetMakeup} (ho : m.Ordered →
      (∀ s, Inv s → ∀ c ∈ m.descending, Inv (s.inserter c)) ∧
        d.all.card ≤ (d.alwaysChosenContainers.toFinset ∪ m.descending.toFinset).card)
    (hr : m.Random → d.Draws Inv) (ps : List (MakeupType × Nat)) : ps ⊆ m.portions →
    ∀ {s : Selection}, Inv s → d.alwaysChosenContainers.toFinset ⊆ s.containers →
      ∃ s' enough, (∀ fuel, enough ≤ fuel → d.selectPortions fuel m.descending ps s = some s') ∧
        Inv s' ∧ d.Fills ps s.containers s'.containers := by
  induction ps with
  | nil =>
    intro _ s hi _
    exact ⟨s, 0, fun _ _ => rfl, hi, .nil⟩
  | cons p ps ih =>
    intro hps s hi ha
    obtain ⟨hp, hps⟩ := cons_subset.mp hps
    obtain ⟨t, enough, hf, ht, hsub, hcard⟩ : Extends Inv (min (s.containers.card + p.2) d.all.card)
        (fun fuel => d.selectPortion fuel m.descending p) s := by
      obtain ⟨type, num⟩ := p
      have hroom (h : m.Ordered) : min (s.containers.card + num) d.all.card ≤
          (s.containers ∪ m.descending.toFinset).card :=
        (min_le_right _ _).trans ((ho h).2.trans (card_le_card (union_subset_union_left ha)))
      cases type with
      | hot =>
        have h : m.Ordered := ⟨_, hp, MakeupType.noConfusion⟩
        exact selectInOrder_extends _ (ho h).1 hi (hroom h)
      | cold =>
        have h : m.Ordered := ⟨_, hp, MakeupType.noConfusion⟩
        exact selectInOrder_extends _ (fun s hi c hc => (ho h).1 s hi c (mem_reverse.mp hc)) hi
          (by rw [toFinset_reverse]; exact hroom h)
      | random => exact selectAtRandom_extends hfa (hr ⟨_, hp, rfl⟩) hi (min_le_right _ _)
    obtain ⟨s', e', hf', hs', hfills⟩ := ih hps ht (ha.trans hsub)
    refine ⟨s', enough + e', ?_, hs', .cons hsub hcard hfills⟩
    intro fuel hfuel
    have hfirst : d.selectPortion fuel m.descending p s = some t := hf fuel (by omega)
    rw [selectPortions, hfirst]
    exact hf' fuel (by omega)

theorem foldl_inserter (cs : List ContainerId) : ∀ s : Selection,
    (cs.foldl Selection.inserter s).containers = cs.toFinset ∪ s.containers ∧
      (cs.foldl Selection.inserter s).chosenThisRound = cs.toFinset ∪ s.chosenThisRound := by
  induction cs with
  | nil => exact fun s => ⟨(empty_union _).symm, (empty_union _).symm⟩
  | cons c cs ih =>
    intro s
    obtain ⟨hc, hr⟩ := ih (s.inserter c)
    rw [toFinset_cons, insert_union, insert_union]
    exact ⟨hc.trans (union_insert _ _ _), hr.trans (union_insert _ _ _)⟩

theorem run_fills (hfa : d.Fair) (ms : List SubsetMakeup) : d.Keeps ms Inv →
    (∀ m ∈ ms, m.Ordered →
      d.all.card ≤ (d.alwaysChosenContainers.toFinset ∪ m.descending.toFinset).card) →
    ∀ {s : Selection}, Inv (d.insertAlways s) → ∃ selected enough,
      (∀ fuel, enough ≤ fuel → d.run fuel ms s = some selected) ∧
      List.Forall₂ (fun m cs => d.Fills m.portions d.alwaysChosenContainers.toFinset cs)
        ms selected := by
  induction ms with
  | nil =>
    intro _ _ s _
    exact ⟨[], 0, fun _ _ => rfl, .nil⟩
  | cons m ms ih =>
    intro hk ho s hi
    have hc : (d.insertAlways s).containers = d.alwaysChosenContainers.toFinset :=
      (foldl_inserter _ _).1.trans (union_empty _)
    obtain ⟨t, enough, hf, ht, hfills⟩ := selectPortions_fills hfa
      (fun h => ⟨hk.ordered m mem_cons_self h, ho m mem_cons_self h⟩)
      (hk.random m mem_cons_self) m.portions (List.Subset.refl _) hi hc.ge
    obtain ⟨selected, e', hf', ha⟩ := ih ⟨fun m hm => hk.ordered m (mem_cons_of_mem _ hm),
      fun m hm => hk.random m (mem_cons_of_mem _ hm), hk.always⟩
      (fun m hm => ho m (mem_cons_of_mem _ hm)) (hk.always t ht)
    rw [hc] at hfills
    refine ⟨t.containers :: selected, enough + e', ?_, .cons hfills ha⟩
    intro fuel hfuel
    rw [run, select, hf fuel (by omega)]
    change (d.run fuel ms t >>= fun l => some (t.containers :: l)) = _
    rw [hf' fuel (by omega)]
    rfl

theorem keeps_inside (ha : ∀ c ∈ d.alwaysChosenContainers, c ∈ d.sortedOrder)
    (ho : ∀ m ∈ ms, SubsetMakeup.Ordered m → ∀ c ∈ m.descending, c ∈ d.sortedOrder) :
    d.Keeps ms fun s => s.chosenThisRound ⊆ d.all where
  ordered m hm h _ hi c hc := insert_subset (ho m hm h c hc) hi
  random _ _ _ := ⟨fun _ hi _ => card_le_card hi, fun _ _ => empty_subset _,
    fun _ hi _ _ _ hc _ => insert_subset hc hi⟩
  always s hi := by
    rw [insertAlways, (foldl_inserter _ _).2]
    exact union_subset (fun c hc => ha c (mem_toFinset.mp hc)) hi

/-- Without ordered portions, what is drawn after the start of a round stays in the selection, and
leaves room for the always-chosen containers. -/
theorem keeps_room (ho : ∀ m ∈ ms, ¬ SubsetMakeup.Ordered m) : d.Keeps ms fun s =>
    d.alwaysChosenContainers.toFinset ⊆ s.containers ∧
    (s.chosenThisRound ∪ d.alwaysChosenContainers.toFinset).card ≤
      max d.all.card d.alwaysChosenContainers.toFinset.card ∧
    (d.alwaysChosenContainers.toFinset ⊆ s.chosenThisRound ∨
      s.chosenThisRound ⊆ s.containers) where
  ordered m hm h := absurd h (ho m hm)
  random _ _ _ := by
    refine ⟨?_, ?_, ?_⟩
    · rintro s ⟨ha, hle, -⟩ hlt
      rw [max_eq_left ((card_le_card ha).trans hlt.le)] at hle
      exact (card_le_card subset_union_left).trans hle
    · rintro s ⟨ha, -, -⟩
      exact ⟨ha, (by simp), .inr (empty_subset _)⟩
    · rintro s ⟨ha, -, hor⟩ hlt hchosen c - k
      refine ⟨ha.trans (subset_insert _ _), le_max_of_le_left ?_, ?_⟩
      · have hsmall : (s.chosenThisRound ∪ d.alwaysChosenContainers.toFinset).card <
            d.all.card := by
          rcases hor with h | h
          · rwa [union_eq_left.mpr h]
          · exact (card_le_card (union_subset h ha)).trans_lt hlt
        change (insert c s.chosenThisRound ∪ _).card ≤ _
        rw [insert_union]
        exact (card_insert_le _ _).trans hsmall
      · exact hor.imp (fun h => h.trans (subset_insert _ _)) (insert_subset_insert c)
  always s hi := by
    rw [insertAlways, (foldl_inserter _ _).1, (foldl_inserter _ _).2]
    refine ⟨subset_union_left, ?_, .inl subset_union_left⟩
    rw [union_comm, ← union_assoc, union_self, union_comm]
    exact hi.2.1

def start : Selection := ⟨∅, ∅, 0⟩

end SubsetSelector

def twoContainers (always : List ContainerId) : SubsetSelector :=
  ⟨[1, 2], by decide, always, fun k => ⟨k % 2, mod_lt k (by decide)⟩⟩

theorem twoContainers_fair (as : List ContainerId) : (twoContainers as).Fair := by
  intro i k
  refine ⟨2 * k + i, by omega, Fin.ext ?_⟩
  have hi : i.1 < 2 := i.2
  change (2 * k + i.1) % 2 = i.1
  omega

end Rebalancer
