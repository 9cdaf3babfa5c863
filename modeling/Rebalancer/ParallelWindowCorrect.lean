import Rebalancer.ParallelWindow

namespace Rebalancer
open List Callbacks

section
variable {I O A E : Type}

def Callbacks.Raised (c : Callbacks I O A E) (executor : Executor E) (processed : List I) (e : E) :
    Prop :=
  (∃ x ∈ processed, c.process x = .error e) ∨ (∃ a o, c.aggregate a o = .error e) ∨
    (∃ a b, c.aggregateSlot a b = .error e) ∨ executor.rejects e
variable {c : Callbacks I O A E}

theorem Callbacks.Raised.mono (h : c.Raised e' p e) (hs : ∀ x ∈ p, x ∈ p') : c.Raised e' p' e := by
  rcases h with ⟨x, hx, he⟩ | h
  · exact .inl ⟨x, hs x hx, he⟩
  · exact .inr h

theorem Callbacks.raised_of_bind (hx : x ∈ p)
    (h : c.process x >>= c.aggregate a = .error e) : c.Raised executor p e := by
  cases ho : c.process x with
  | error e' =>
    rw [ho] at h
    cases h
    exact .inl ⟨x, hx, ho⟩
  | ok o =>
    rw [ho] at h
    exact .inr (.inl ⟨a, o, h⟩)

theorem Callbacks.Lawful.raised (hc : c.Lawful f g) (hr : ∀ e, ¬ e'.rejects e)
    (h : c.Raised e' p e) : ∃ x ∈ p, c.process x = .error e := by
  rcases h with h | ⟨a, o, h⟩ | ⟨a, b, h⟩ | h
  · exact h
  · rw [hc.aggregate_eq] at h
    cases h
  · rw [hc.aggregateSlot_eq] at h
    cases h
  · exact absurd h (hr e)

theorem Callbacks.Lawful.foldlM (hc : c.Lawful f g) (vs : List O) :
    ∀ a, vs.foldlM c.aggregate a = .ok (vs.foldl f a) :=
  foldlM_eq_foldl fun v _ a => hc.aggregate_eq a v

theorem Callbacks.Lawful.foldl_perm (hc : c.Lawful f g) {vs vs' : List O}
    (h : vs.Perm vs') (a : A) : vs.foldl f a = vs'.foldl f a := by
  have : RightCommutative f := ⟨hc.comm⟩
  exact h.foldl_eq a

variable {values : List O}

theorem Callbacks.Lawful.sequential_eq (hc : c.Lawful f g) (h : is.map c.process = values.map .ok) :
    c.sequential is = .ok (values.foldl f c.initial) := by
  have hf : ∀ (is : List I) (values : List O) (a : A), is.map c.process = values.map .ok →
      is.foldlM (fun r i => c.process i >>= c.aggregate r) a = .ok (values.foldl f a) := by
    intro is
    induction is with
    | nil =>
      intro values a h
      rw [map_nil, eq_comm, map_eq_nil_iff] at h
      rw [h]
      rfl
    | cons x is ih =>
      intro values a h
      cases values with
      | nil => cases h
      | cons v values =>
        obtain ⟨hx, h⟩ := cons.inj h
        rw [foldlM_cons, hx, except_ok_bind, hc.aggregate_eq, except_ok_bind, ih values _ h]
        rfl
  exact hf is values c.initial h

theorem Callbacks.Lawful.sequential_of_perm (hc : c.Lawful f g)
    {p is : List I} (hin : p.Perm is) (hva : (values.map .ok).Perm (p.map c.process)) :
    c.sequential is = .ok (values.foldl f c.initial) := by
  have hp := (hin.map c.process).symm.trans hva.symm
  obtain ⟨v', hm⟩ : is.map c.process ∈ Set.range (map (Except.ok : O → Except E O)) := by
    rw [Set.range_list_map]
    intro o ho
    obtain ⟨v, -, hv⟩ := mem_map.mp (hp.subset ho)
    exact ⟨v, hv⟩
  rw [← hm] at hp
  have hi : Function.Injective (Except.ok : O → Except E O) := fun _ _ h => Except.ok.inj h
  rw [hc.sequential_eq hm.symm, hc.foldl_perm ((map_perm_map_iff hi).mp hp)]

/-- Where the window stands: how many tasks may be pending, and that none is missing. -/
def WindowState.Phase (windowSize : Nat) (s : WindowState I O A E) : Prop :=
  match s.main with
  | .sequential => s.pending = 0 ∧ s.exception = none
  | .scheduling i => s.pending = i ∧ i ≤ windowSize ∧ s.exception = none
  | .reading =>
    s.pending ≤ windowSize ∧ (s.exception = none → s.remaining = [] ∨ s.pending = windowSize)
  | .refilling =>
    s.pending < windowSize ∧ (s.exception = none → s.remaining = [] ∨ s.pending + 1 = windowSize)
  | .returned r => s.pending = 0 ∧ r = s.outcome ∧ (s.exception = none → s.remaining = [])

structure WindowInvariant (c : Callbacks I O A E) (executor : Executor E) (windowSize : Nat)
    (inputs : List I) (s : WindowState I O A E) : Prop where
  pending : s.pending = s.tasks.length + s.computed.length + s.outputs.length
  phase : s.Phase windowSize
  conserved : (s.processed ++ s.tasks ++ s.remaining).Perm inputs
  aggregated : ∃ consumed : List (Except E O),
    (consumed ++ s.computed ++ s.outputs).Perm (s.processed.map c.process) ∧
    (s.exception = none → ∃ values : List O, consumed = values.map .ok ∧
      values.foldlM c.aggregate c.initial = .ok s.result)
  raised : ∀ e, s.exception = some e → c.Raised executor s.processed e

theorem WindowInvariant.start (c : Callbacks I O A E) (e' : Executor E) (s : Nat) (is : List I) :
    WindowInvariant c e' s is (executeParallelWindow c e' s is).start := by
  refine ⟨rfl, ?_, .refl _, ⟨[], .refl _, fun _ => ⟨[], rfl, rfl⟩⟩, ?_⟩
  · by_cases ho : s = 1
    · simp [executeParallelWindow, ho, WindowState.Phase]
    · simp [executeParallelWindow, ho, WindowState.Phase]
  · intro e he
    cases he

theorem Callbacks.aggregate_next (hf : values.foldlM c.aggregate c.initial = .ok r)
    (hn : o >>= c.aggregate r = .ok a) :
    ∃ values' : List O, values.map .ok ++ [o] = values'.map .ok ∧
      values'.foldlM c.aggregate c.initial = .ok a := by
  cases o with
  | error e => cases hn
  | ok v =>
    rw [except_ok_bind] at hn
    refine ⟨values ++ [v], ?_, ?_⟩
    · rw [map_append]
      rfl
    · rw [foldlM_append, hf, except_ok_bind, foldlM_cons, hn]
      rfl

theorem WindowInvariant.read {s : WindowState I O A E}
    (h : WindowInvariant c executor windowSize inputs s) (hm : s.main = .reading)
    (hne : s.pending ≠ 0) (ho : s.outputs = output :: outputs) :
    WindowInvariant c executor windowSize inputs (WindowState.consume c output
        { s with main := .refilling, pending := s.pending - 1, outputs }) := by
  obtain ⟨hp, hphase, hc, ⟨consumed, hconsumed, hv⟩, hr⟩ := h
  rw [WindowState.Phase, hm] at hphase
  rw [ho] at hconsumed hp
  have hp' : s.pending - 1 = s.tasks.length + s.computed.length + outputs.length := by
    rw [hp, length_cons]
    omega
  have hc' : (consumed ++ [output] ++ s.computed ++ outputs).Perm (s.processed.map c.process) := by
    classical
    grind
  have hlt : s.pending - 1 < windowSize := by omega
  have hf : s.exception = none → s.remaining = [] ∨ s.pending - 1 + 1 = windowSize := by
    intro hnone
    rw [Nat.sub_add_cancel (Nat.pos_of_ne_zero hne)]
    exact hphase.2 hnone
  rw [WindowState.consume]
  split
  · rename_i e he
    refine ⟨hp', ⟨hlt, hf⟩, hc, ⟨_, hc', ?_⟩, hr⟩
    intro hnone
    cases he.symm.trans hnone
  · rename_i hnone
    obtain ⟨values, rfl, hfold⟩ := hv hnone
    split
    · rename_i a ha
      refine ⟨hp', ⟨hlt, hf⟩, hc, ⟨_, hc', ?_⟩, hr⟩
      intro _
      exact aggregate_next hfold ha
    · rename_i e he
      refine ⟨hp', ⟨hlt, by simp⟩, hc, ⟨_, hc', by simp⟩, ?_⟩
      intro e' he'
      cases he'
      have hmem : output ∈ s.processed.map c.process := by
        apply hc'.subset
        simp
      obtain ⟨x, hx, rfl⟩ := mem_map.mp hmem
      exact raised_of_bind hx he

theorem WindowStep.keeps {s t : WindowState I O A E} (hw : 1 ≤ w)
    (h : WindowInvariant c executor w is s) (hs : WindowStep c executor w s t) :
    WindowInvariant c executor w is t := by
  have hi := h
  obtain ⟨hpending, hp, hc, ⟨consumed, hconsumed, hv⟩, hraised⟩ := h
  rw [WindowState.Phase] at hp
  cases hs with
  | sequential hm hr hn =>
    rw [hm] at hp
    rw [hr] at hc
    obtain ⟨values, rfl, hfold⟩ := hv hp.2
    refine ⟨hpending, ?_, ?_, ⟨_, ?_, fun _ => aggregate_next hfold hn⟩, ?_⟩
    · simp only [WindowState.Phase, hm]
      exact hp
    · classical
      grind
    · classical
      grind
    · intro e he
      cases hp.2.symm.trans he
  | @sequentialThrow x xs e _ hm hr hn =>
    rw [hm] at hp
    refine ⟨hpending, ⟨hp.1, rfl, by simp⟩, ?_, ⟨consumed ++ [c.process x], ?_, by simp⟩, ?_⟩
    · classical
      grind
    · classical
      grind
    · intro e' he'
      cases he'
      exact raised_of_bind (mem_append_right _ mem_cons_self) hn
  | sequentialEnd hm hr =>
    rw [hm] at hp
    refine ⟨hpending, ⟨hp.1, ?_, fun _ => hr⟩, hc, ⟨_, hconsumed, hv⟩, hraised⟩
    simp [WindowState.outcome, hp.2]
  | schedule hm hlt hr =>
    rw [hm] at hp
    refine ⟨?_, ⟨congrArg (· + 1) hp.1, hlt, hp.2.2⟩, ?_, ⟨_, hconsumed, hv⟩, hraised⟩
    · simp only [WindowState.newWorker, hpending, length_append, length_singleton]
      omega
    · simp only [WindowState.newWorker]
      classical
      grind
  | scheduleReject hm hlt hr hreject =>
    rw [hm] at hp
    refine ⟨hpending, ⟨?_, by simp⟩, hc, ⟨_, hconsumed, by simp⟩, ?_⟩
    · exact hp.1 ▸ hp.2.1
    · intro e' he'
      cases he'
      exact .inr (.inr (.inr hreject))
  | scheduled hm hend =>
    rw [hm] at hp
    refine ⟨hpending, ⟨hp.1 ▸ hp.2.1, ?_⟩, hc, ⟨_, hconsumed, hv⟩, hraised⟩
    intro _
    by_cases hlt : s.pending < w
    · exact .inl (hend (hp.1 ▸ hlt))
    · exact .inr (Nat.le_antisymm (hp.1 ▸ hp.2.1) (Nat.not_lt.mp hlt))
  | call ht =>
    rw [ht] at hc hpending
    refine ⟨?_, hp, ?_, ⟨consumed, ?_, hv⟩, ?_⟩
    · simp only [hpending, length_append, length_cons]
      omega
    · classical
      grind
    · classical
      grind
    · intro e he
      exact (hraised e he).mono fun x hx => mem_append_left _ hx
  | write hcomputed hroom =>
    rw [hcomputed] at hconsumed hpending
    refine ⟨?_, hp, hc, ⟨consumed, ?_, hv⟩, hraised⟩
    · simp only [hpending, length_append, length_cons, length_nil]
      omega
    · classical
      grind
  | read hm hne ho => exact hi.read hm hne ho
  | refill hm hnone hr =>
    rw [hm] at hp
    refine ⟨?_, ⟨hp.1, ?_⟩, ?_, ⟨_, hconsumed, hv⟩, hraised⟩
    · simp only [WindowState.newWorker, hpending, length_append, length_singleton]
      omega
    · intro _
      rcases hp.2 hnone with hnil | hf
      · rw [hr] at hnil
        cases hnil
      · exact .inr hf
    · simp only [WindowState.newWorker]
      classical
      grind
  | refillReject hm hnone hr hreject =>
    rw [hm] at hp
    refine ⟨hpending, ⟨Nat.le_of_lt hp.1, by simp⟩, hc, ⟨_, hconsumed, by simp⟩, ?_⟩
    intro e' he'
    cases he'
    exact .inr (.inr (.inr hreject))
  | refilled hm hend =>
    rw [hm] at hp
    exact ⟨hpending, ⟨Nat.le_of_lt hp.1, fun hnone => .inl (hend hnone)⟩, hc,
      ⟨_, hconsumed, hv⟩, hraised⟩
  | finish hm hzero =>
    rw [hm] at hp
    refine ⟨hpending, ⟨hzero, rfl, ?_⟩, hc, ⟨_, hconsumed, hv⟩, hraised⟩
    intro hnone
    rcases hp.2 hnone with hnil | hf
    · exact hnil
    · omega

theorem WindowInvariant.progress (hw : 1 ≤ w) (h : WindowInvariant c e' w is s) :
    (∃ r, s.main = .returned r) ∨ ∃ t, WindowStep c e' w s t := by
  cases hm : s.main with
  | sequential =>
    cases hr : s.remaining with
    | nil => exact .inr ⟨_, .sequentialEnd hm hr⟩
    | cons x xs =>
      cases hn : c.process x >>= c.aggregate s.result with
      | ok a => exact .inr ⟨_, .sequential hm hr hn⟩
      | error e => exact .inr ⟨_, .sequentialThrow hm hr hn⟩
  | scheduling i =>
    by_cases hlt : i < w
    · cases hr : s.remaining with
      | nil => exact .inr ⟨_, .scheduled hm fun _ => hr⟩
      | cons x xs => exact .inr ⟨_, .schedule hm hlt hr⟩
    · exact .inr ⟨_, .scheduled hm fun h => absurd h hlt⟩
  | reading =>
    by_cases hzero : s.pending = 0
    · exact .inr ⟨_, .finish hm hzero⟩
    · cases ho : s.outputs with
      | cons o outputs => exact .inr ⟨_, .read hm hzero ho⟩
      | nil =>
        cases hc : s.computed with
        | cons o computed =>
          have hf : s.computed = [] ++ o :: computed := hc
          refine .inr ⟨_, .write hf ?_⟩
          rw [ho]
          exact hw
        | nil =>
          cases ht : s.tasks with
          | cons x tasks =>
            have hf : s.tasks = [] ++ x :: tasks := ht
            exact .inr ⟨_, .call hf⟩
          | nil =>
            have hp := h.pending
            rw [ho, hc, ht] at hp
            exact absurd hp hzero
  | refilling =>
    cases he : s.exception with
    | some e =>
      refine .inr ⟨_, .refilled hm fun h => ?_⟩
      exact nomatch he.symm.trans h
    | none =>
      cases hr : s.remaining with
      | nil => exact .inr ⟨_, .refilled hm fun _ => hr⟩
      | cons x xs => exact .inr ⟨_, .refill hm he hr⟩
  | returned r => exact .inl ⟨r, rfl⟩

theorem WindowInvariant.returned (h : WindowInvariant c e' w is s) (hm : s.main = .returned r) :
    s.tasks = [] ∧ s.computed = [] ∧ ((∃ e, r = .error e ∧ c.Raised e' s.processed e) ∨
        ∃ a, ∃ values : List O, r = .ok a ∧ s.processed.Perm is ∧
          (values.map .ok).Perm (s.processed.map c.process) ∧
          values.foldlM c.aggregate c.initial = .ok a) := by
  obtain ⟨hp, hphase, hc, ⟨consumed, hconsumed, hv⟩, hraised⟩ := h
  rw [WindowState.Phase, hm] at hphase
  obtain ⟨hzero, hr, hend⟩ := hphase
  have ht : s.tasks = [] := length_eq_zero_iff.mp (by omega)
  have hcomputed : s.computed = [] := length_eq_zero_iff.mp (by omega)
  have ho : s.outputs = [] := length_eq_zero_iff.mp (by omega)
  refine ⟨ht, hcomputed, ?_⟩
  cases he : s.exception with
  | some e =>
    rw [WindowState.outcome, he] at hr
    exact .inl ⟨e, hr, hraised e he⟩
  | none =>
    rw [WindowState.outcome, he] at hr
    obtain ⟨values, rfl, hf⟩ := hv he
    rw [ht, hend he, append_nil, append_nil] at hc
    rw [hcomputed, ho, append_nil, append_nil] at hconsumed
    exact .inr ⟨s.result, values, hr, hc, hconsumed, hf⟩

theorem Callbacks.Lawful.outcome (hc : c.Lawful f g) {e' : Executor E} (hrun : ∀ e, ¬ e'.rejects e)
    (h : (∃ e, r = .error e ∧ c.Raised e' p e) ∨ ∃ a, ∃ values : List O, r = .ok a ∧ p.Perm is ∧
        (values.map .ok).Perm (p.map c.process) ∧ a = values.foldl f c.initial)
    (hs : ∀ x ∈ p, x ∈ is) :
    ((∀ x ∈ is, ∃ o, c.process x = .ok o) → p.Perm is ∧ r = c.sequential is) ∧
      ((∃ x ∈ is, ∃ e, c.process x = .error e) →
        ∃ x ∈ p, ∃ e, c.process x = .error e ∧ r = .error e) := by
  rcases h with ⟨e, rfl, hr⟩ | ⟨a, values, rfl, hp, hvalues, rfl⟩
  · obtain ⟨x, hx, ht⟩ := hc.raised hrun hr
    constructor
    · intro ha
      obtain ⟨o, ho⟩ := ha x (hs x hx)
      exact nomatch ht.symm.trans ho
    · intro _
      exact ⟨x, hx, e, ht, rfl⟩
  · constructor
    · intro _
      exact ⟨hp, (hc.sequential_of_perm hp hvalues).symm⟩
    · intro ht
      obtain ⟨x, hx, e, he⟩ := ht
      have hmem : c.process x ∈ p.map c.process := mem_map_of_mem (hp.symm.subset hx)
      obtain ⟨v, -, hv⟩ := mem_map.mp (hvalues.symm.subset hmem)
      exact nomatch hv.trans he

theorem executeParallelWindow_correct (hc : c.Lawful f g) (hrun : ∀ e, ¬ e'.rejects e) (hw : 1 ≤ w)
    (inputs : List I) : (executeParallelWindow c e' w inputs).Correct c inputs := by
  have hstart := WindowInvariant.start c e' w inputs
  have hkeeps : ∀ s t, WindowInvariant c e' w inputs s →
      WindowStep c e' w s t → WindowInvariant c e' w inputs t :=
    fun s t => WindowStep.keeps hw
  have hreach : ∀ s, Relation.ReflTransGen (WindowStep c e' w)
      (executeParallelWindow c e' w inputs).start s →
      WindowInvariant c e' w inputs s :=
    fun s hs => invariant_of_reachable hkeeps hstart hs
  have hm : ∀ (s : WindowState I O A E) r,
      (executeParallelWindow c e' w inputs).returned s = some r →
      s.main = .returned r := by
    intro s r hr
    simp only [executeParallelWindow] at hr
    split at hr
    · rename_i hm
      cases hr
      exact hm
    · cases hr
  have hsubperm : ∀ s, WindowInvariant c e' w inputs s → s.processed.Subperm inputs := by
    intro s hs
    have hsublist : s.processed.Sublist (s.processed ++ s.tasks ++ s.remaining) :=
      (sublist_append_left _ _).trans (sublist_append_left _ _)
    exact hsublist.subperm.trans hs.conserved.subperm
  have ho : ∀ s r, WindowInvariant c e' w inputs s →
      (executeParallelWindow c e' w inputs).returned s = some r →
      ((∀ x ∈ inputs, ∃ o, c.process x = .ok o) →
        s.processed.Perm inputs ∧ r = c.sequential inputs) ∧
      ((∃ x ∈ inputs, ∃ e, c.process x = .error e) →
        ∃ x ∈ s.processed, ∃ e, c.process x = .error e ∧ r = .error e) := by
    intro s r hs hr
    obtain ⟨-, -, hcases⟩ := hs.returned (hm s r hr)
    refine hc.outcome hrun ?_ (hsubperm s hs).subset
    refine hcases.imp_right ?_
    intro hok
    obtain ⟨a, values, hr, hp, hv, hf⟩ := hok
    rw [hc.foldlM] at hf
    exact ⟨a, values, hr, hp, hv, (Except.ok.inj hf).symm⟩
  refine ⟨?_, ?_, ?_, ?_, ?_⟩
  · apply inevitable_of_measure hkeeps (fun s t => WindowStep.lowers) _ hstart
    intro s hs
    rcases hs.progress hw with ⟨r, hr⟩ | hstep
    · refine .inl ?_
      simp [executeParallelWindow, hr]
    · exact .inr hstep
  · intro s r hs hr
    obtain ⟨ht, hcomputed, -⟩ := (hreach s hs).returned (hm s r hr)
    simp [executeParallelWindow, ht, hcomputed]
  · intro s hs
    exact hsubperm s (hreach s hs)
  · intro s r hs hr
    exact (ho s r (hreach s hs) hr).1
  · intro s r hs hr
    exact (ho s r (hreach s hs) hr).2

end

end Rebalancer
