import Rebalancer.ParallelBatchWork
import Rebalancer.ParallelWindowCorrect

namespace Rebalancer
open List BatchShared ConsumerPhase BatchMain Except

section
variable {I O A E : Type}

def ConsumerPhase.held : ConsumerPhase I E → List I
  | .processing _ rest => rest
  | .calling _ x rest => x :: rest
  | _ => []

def ConsumerPhase.exception : ConsumerPhase I E → Option E
  | .throwing _ e => some e
  | .recording _ e => some e
  | _ => none

def ConsumerPhase.isThrowing : ConsumerPhase I E → Bool
  | .throwing _ _ => true
  | _ => false

def ConsumerPhase.isRecording : ConsumerPhase I E → Bool
  | .recording _ _ => true
  | _ => false

def BatchMain.hand : BatchMain I A E → List I
  | .starting _ batch => batch
  | .writing batch => batch
  | .filled batch => batch
  | _ => []

def BatchShared.queued (s : BatchShared I E) : List I := s.queue.flatMap fun entry => entry.getD []

def BatchState.Failing (s : BatchState I A E) : Prop := s.shared.tracker.hasException = true ∨
    ∃ consumer ∈ s.consumers, consumer.phase.isThrowing = true

/-- No input is lost unless an exception was thrown, and what was processed is aggregated in the
accumulators. -/
structure BatchData (c : Callbacks I O A E) (executor : Executor E) (inputs : List I)
    (s : BatchState I A E) : Prop where
  conserved : ∃ dropped : List I,
    (s.shared.processed ++ (s.consumers.flatMap fun consumer => consumer.phase.held) ++
      s.shared.queued ++ s.main.hand ++ s.remaining ++ dropped).Perm inputs ∧
    (dropped ≠ [] → s.Failing)
  aggregated : ∃ (values : List (List O)) (lost : List (Except E O)),
    Forall₂ (fun consumer vs => vs.foldlM c.aggregate c.initial = .ok consumer.acc)
      s.consumers values ∧
    (values.flatten.map ok ++ lost).Perm (s.shared.processed.map c.process) ∧
    (lost ≠ [] → s.Failing)
  first : ∀ e, s.shared.tracker.firstException = some e → c.Raised executor s.shared.processed e
  raised : ∀ consumer ∈ s.consumers, ∀ e, consumer.phase.exception = some e →
    c.Raised executor s.shared.processed e
  tracked : s.shared.tracker.hasException = true →
    (∃ e, s.shared.tracker.firstException = some e) ∨
      ∃ consumer ∈ s.consumers, consumer.phase.isRecording = true

section
variable (b : List I) (s : BatchShared I E)

@[simp] theorem BatchShared.queued_recycle : (s.recycle b).queued = s.queued := by
  rw [recycle]
  split
  · rfl
  · rfl

@[simp] theorem BatchShared.processed_recycle : (s.recycle b).processed = s.processed := by
  rw [recycle]
  split
  · rfl
  · rfl

@[simp] theorem BatchShared.tracker_recycle : (s.recycle b).tracker = s.tracker := by
  rw [recycle]
  split
  · rfl
  · rfl

end

variable {c' c'' : Consumer I A E}

variable {c : Callbacks I O A E}

section
variable {s t : BatchShared I E} (h : ConsumerStep c s c' t c'')
include h

theorem ConsumerStep.conserved :
    ∃ dropped, (t.processed ++ c''.phase.held ++ t.queued ++ dropped).Perm
        (s.processed ++ c'.phase.held ++ s.queued) ∧
      (dropped ≠ [] → t.tracker.hasException = true ∨ c''.phase.isThrowing = true) := by
  cases h with
  | read hq =>
    refine ⟨[], ?_, fun h => absurd rfl h⟩
    simp only [queued, held, hq, flatMap_cons, Option.getD_some]
    classical
    grind
  | poison hq =>
    refine ⟨[], ?_, fun h => absurd rfl h⟩
    simp only [queued, held, hq, flatMap_cons, Option.getD_none]
    classical
    grind
  | @stop _ _ x rest _ he =>
    refine ⟨x :: rest, ?_, fun _ => .inl he⟩
    simp only [held]
    classical
    grind
  | aggregate _ =>
    refine ⟨[], ?_, fun h => absurd rfl h⟩
    simp only [queued, held]
    classical
    grind
  | @throw _ _ _ _ _ rest _ =>
    refine ⟨rest, ?_, fun _ => .inr rfl⟩
    simp only [queued, held]
    classical
    grind
  | recycle =>
    refine ⟨[], .of_eq ?_, fun h => absurd rfl h⟩
    rw [processed_recycle, queued_recycle, append_nil]
    rfl
  | _ => exact ⟨[], .of_eq (append_nil _), fun h => absurd rfl h⟩

theorem ConsumerStep.aggregated {vs : List O} (hv : vs.foldlM c.aggregate c.initial = .ok c'.acc) :
    ∃ (values' : List O) (lost : List (Except E O)) (processed : List I),
      values'.foldlM c.aggregate c.initial = .ok c''.acc ∧
      t.processed = s.processed ++ processed ∧
      (values'.map ok ++ lost).Perm (vs.map ok ++ processed.map c.process) ∧
      (lost ≠ [] → c''.phase.isThrowing = true) := by
  cases h with
  | @aggregate x _ _ _ _ _ hn =>
    obtain ⟨values', hm, hf⟩ := Callbacks.aggregate_next hv hn
    refine ⟨values', [], [x], hf, rfl, .of_eq ?_, fun h => absurd rfl h⟩
    rw [append_nil, ← hm]
    rfl
  | @throw x _ _ _ _ _ ht =>
    exact ⟨vs, [c.process x], [x], hv, rfl, .refl _, fun _ => rfl⟩
  | recycle =>
    refine ⟨vs, [], [], hv, ?_, .refl _, fun h => absurd rfl h⟩
    rw [processed_recycle, append_nil]
  | _ => exact ⟨vs, [], [], hv, (append_nil _).symm, .refl _, fun h => absurd rfl h⟩

theorem ConsumerStep.raised (e' : Executor E) : (∀ e, c''.phase.exception = some e →
      c'.phase.exception = some e ∨ c.Raised e' t.processed e) ∧
    ∀ e, t.tracker.firstException = some e →
      s.tracker.firstException = some e ∨ c'.phase.exception = some e := by
  cases h with
  | throw ht =>
    refine ⟨?_, fun _ => .inl⟩
    intro e he
    cases he
    exact .inr (Callbacks.raised_of_bind (mem_append_right _ mem_cons_self) ht)
  | exchange _ => exact ⟨fun _ => .inl, fun _ => .inl⟩
  | record =>
    refine ⟨nofun, ?_⟩
    intro e he
    cases he
    exact .inr rfl
  | recycle =>
    refine ⟨nofun, ?_⟩
    rw [tracker_recycle]
    exact fun _ => .inl
  | _ => exact ⟨nofun, fun _ => .inl⟩

theorem ConsumerStep.tracked : (s.tracker.hasException = true ∨ c'.phase.isThrowing = true →
      t.tracker.hasException = true) ∧ (t.tracker.hasException = true →
      s.tracker.hasException = true ∨ c''.phase.isRecording = true) ∧
    ((∃ e, s.tracker.firstException = some e) ∨ c'.phase.isRecording = true →
      ∃ e, t.tracker.firstException = some e) := by
  cases h with
  | exchange _ =>
    refine ⟨fun _ => rfl, fun _ => .inr rfl, ?_⟩
    intro h
    exact h.resolve_right nofun
  | ignore he =>
    refine ⟨fun _ => he, .inl, ?_⟩
    intro h
    exact h.resolve_right nofun
  | record =>
    refine ⟨?_, .inl, fun _ => ⟨_, rfl⟩⟩
    intro h
    exact h.resolve_right nofun
  | recycle =>
    rw [tracker_recycle]
    refine ⟨?_, .inl, ?_⟩
    · intro h
      exact h.resolve_right nofun
    · intro h
      exact h.resolve_right nofun
  | _ =>
    refine ⟨?_, .inl, ?_⟩
    · intro h
      exact h.resolve_right nofun
    · intro h
      exact h.resolve_right nofun

theorem ConsumerStep.processed_subset : ∀ x ∈ s.processed, x ∈ t.processed := by
  cases h with
  | aggregate _ => exact fun x hx => mem_append_left _ hx
  | throw _ => exact fun x hx => mem_append_left _ hx
  | recycle =>
    rw [processed_recycle]
    exact fun x hx => hx
  | _ => exact fun x hx => hx

end

theorem perm_replace {p p' held he' q q' d d' l₁ l₂ rest inputs : List α}
    (hs : (p' ++ he' ++ q' ++ d').Perm (p ++ held ++ q))
    (h : (p ++ (l₁ ++ (held ++ l₂)) ++ q ++ rest ++ d).Perm inputs) :
    (p' ++ (l₁ ++ (he' ++ l₂)) ++ q' ++ rest ++ (d' ++ d)).Perm inputs := by
  classical
  rw [perm_iff_count] at hs h ⊢
  intro x
  have hs := hs x
  have h := h x
  simp only [count_append] at hs h ⊢
  omega

theorem perm_replace_append {vs vs' lost l' a l₁ l₂ os : List α} (hs : (vs' ++ l').Perm (vs ++ a))
    (h : (l₁ ++ (vs ++ l₂) ++ lost).Perm os) :
    (l₁ ++ (vs' ++ l₂) ++ (l' ++ lost)).Perm (os ++ a) := by
  classical
  rw [perm_iff_count] at hs h ⊢
  intro x
  have hs := hs x
  have h := h x
  simp only [count_append] at hs h ⊢
  omega

theorem forall₂_split (l₁ : List α) : ∀ {v : List β}, Forall₂ R (l₁ ++ x :: l₂) v →
    ∃ v₁ y v₂, v = v₁ ++ y :: v₂ ∧ Forall₂ R l₁ v₁ ∧ R x y ∧ Forall₂ R l₂ v₂ := by
  induction l₁ with
  | nil =>
    intro v h
    cases h with
    | cons hx h => exact ⟨[], _, _, rfl, .nil, hx, h⟩
  | cons z l₁ ih =>
    intro v h
    cases h with
    | cons hz h =>
      obtain ⟨v₁, y, v₂, rfl, h₁, hx, h₂⟩ := ih h
      exact ⟨_ :: v₁, y, v₂, rfl, .cons hz h₁, hx, h₂⟩

theorem BatchData.consume {s : BatchState I A E} (h : BatchData c executor inputs s)
    (hconsumers : s.consumers = l₁ ++ c' :: l₂)
    (hstep : ConsumerStep c s.shared c' shared c'') :
    BatchData c executor inputs { s with shared, consumers := l₁ ++ c'' :: l₂ } := by
  obtain ⟨⟨d, hperm, hd⟩, ⟨v, lost, hv, hp, hl⟩, hfirst, hraised, htracked⟩ := h
  obtain ⟨hh, hh', hrecorded⟩ := hstep.tracked
  obtain ⟨hexception, hf'⟩ := hstep.raised executor
  have hmem : c' ∈ s.consumers := by
    rw [hconsumers]
    exact mem_append_right _ mem_cons_self
  have hm' : ∀ o, o ∈ l₁ ++ c'' :: l₂ ↔ o = c'' ∨ o ∈ l₁ ∨ o ∈ l₂ := by
    intro o
    rw [mem_append, mem_cons]
    exact or_left_comm
  have hother : ∀ o, o ∈ l₁ ∨ o ∈ l₂ → o ∈ s.consumers := by
    intro o hother
    rw [hconsumers, mem_append, mem_cons]
    exact hother.imp_right .inr
  have hc : ∀ o ∈ s.consumers, o = c' ∨ o ∈ l₁ ∨ o ∈ l₂ := by
    intro o hother
    rw [hconsumers, mem_append, mem_cons] at hother
    exact or_left_comm.mp hother
  have hf : s.Failing → BatchState.Failing { s with shared, consumers := l₁ ++ c'' :: l₂ } := by
    intro hf
    rcases hf with hh'' | ⟨o, hin, ht⟩
    · exact .inl (hh (.inl hh''))
    · rcases hc o hin with rfl | hin
      · exact .inl (hh (.inr ht))
      · exact .inr ⟨o, (hm' o).mpr (.inr hin), ht⟩
  have hn : c''.phase.isThrowing = true →
      BatchState.Failing { s with shared, consumers := l₁ ++ c'' :: l₂ } :=
    fun h => .inr ⟨c'', (hm' c'').mpr (.inl rfl), h⟩
  refine ⟨?_, ?_, ?_, ?_, ?_⟩
  · obtain ⟨d', hp', hd'⟩ := hstep.conserved
    refine ⟨d' ++ d, ?_, ?_⟩
    · rw [hconsumers, flatMap_append, flatMap_cons, append_assoc _ s.main.hand] at hperm
      rw [flatMap_append, append_assoc _ s.main.hand]
      exact perm_replace hp' hperm
    · intro hne
      by_cases hempty : d' = []
      · rw [hempty, nil_append] at hne
        exact hf (hd hne)
      · rcases hd' hempty with h | h
        · exact .inl h
        · exact hn h
  · rw [hconsumers] at hv
    obtain ⟨v₁, vs, v₂, rfl, h₁, hvs, h₂⟩ := forall₂_split l₁ hv
    obtain ⟨vs', l', p, hvs', hgrown, hp', hl'⟩ := hstep.aggregated hvs
    refine ⟨v₁ ++ vs' :: v₂, l' ++ lost, rel_append h₁ (.cons hvs' h₂), ?_, ?_⟩
    · simp only [flatten_append, flatten_cons, map_append] at hp
      simp only [hgrown, flatten_append, flatten_cons, map_append]
      exact perm_replace_append hp' hp
    · intro hne
      by_cases hempty : l' = []
      · rw [hempty, nil_append] at hne
        exact hf (hl hne)
      · exact hn (hl' hempty)
  · intro e he
    rcases hf' e he with he | he
    · exact (hfirst e he).mono hstep.processed_subset
    · exact (hraised c' hmem e he).mono hstep.processed_subset
  · intro o hin e he
    rcases (hm' o).mp hin with rfl | hin
    · rcases hexception e he with he | hr'
      · exact (hraised c' hmem e he).mono hstep.processed_subset
      · exact hr'
    · exact (hraised o (hother o hin) e he).mono hstep.processed_subset
  · intro hs
    rcases hh' hs with hs | hr
    · rcases htracked hs with hsome | ⟨o, hin, hr⟩
      · exact .inl (hrecorded (.inl hsome))
      · rcases hc o hin with rfl | hin
        · exact .inl (hrecorded (.inr hr))
        · exact .inr ⟨o, (hm' o).mpr (.inr hin), hr⟩
    · exact .inr ⟨c'', (hm' c'').mpr (.inl rfl), hr⟩

theorem BatchData.main (h : BatchData c e' is s) {main : BatchMain I A E}
    (hc : cs = s.consumers ++ a) (ha : ∀ c' ∈ a, c' = ⟨.scheduled, c.initial⟩)
    (htr : s'.tracker = s.shared.tracker) (hpr : s'.processed = s.shared.processed)
    (hm : ∃ dropped, (s'.queued ++ main.hand ++ r ++ dropped).Perm
        (s.shared.queued ++ s.main.hand ++ s.remaining) ∧
      (dropped ≠ [] → s.shared.tracker.hasException = true)) :
    BatchData c e' is ⟨main, r, s', cs⟩ := by
  subst hc
  obtain ⟨⟨dropped, hp, hd⟩, ⟨v, lost, hv, ho, hl⟩, hfirst, hraised, htracked⟩ := h
  have hf : s.Failing → BatchState.Failing ⟨main, r, s', s.consumers ++ a⟩ := by
    intro hf
    rcases hf with hs | ⟨c', hin, ht⟩
    · exact .inl (htr ▸ hs)
    · exact .inr ⟨c', mem_append_left _ hin, ht⟩
  refine ⟨?_, ?_, ?_, ?_, ?_⟩
  · obtain ⟨d', hp', hd'⟩ := hm
    have hh : a.flatMap (fun c' => c'.phase.held) = [] := by
      rw [flatMap_eq_nil_iff]
      intro c' hin
      rw [ha c' hin]
      rfl
    refine ⟨d' ++ dropped, ?_, ?_⟩
    · simp only [hpr, flatMap_append, hh, append_nil]
      classical
      rw [perm_iff_count] at hp hp' ⊢
      intro x
      have hp := hp x
      have hp' := hp' x
      simp only [count_append] at hp hp' ⊢
      omega
    · intro hne
      by_cases hempty : d' = []
      · rw [hempty, nil_append] at hne
        exact hf (hd hne)
      · exact hf (.inl (hd' hempty))
  · refine ⟨v ++ a.map fun _ => [], lost, rel_append hv ?_, ?_, ?_⟩
    · rw [forall₂_map_right_iff, forall₂_same]
      intro c' hin
      rw [ha c' hin]
      rfl
    · have hn : (a.map fun _ => ([] : List O)).flatten = [] := by
        rw [flatten_eq_nil_iff]
        intro vs hvs
        obtain ⟨-, -, rfl⟩ := mem_map.mp hvs
        rfl
      rw [hpr, flatten_append, hn, append_nil]
      exact ho
    · exact fun hne => hf (hl hne)
  · simp only [htr, hpr]
    exact hfirst
  · simp only [hpr]
    intro c' hin e he
    rcases mem_append.mp hin with hin | hin
    · exact hraised c' hin e he
    · rw [ha c' hin] at he
      cases he
  · simp only [htr]
    intro hs
    rcases htracked hs with hsome | ⟨c', hin, hr⟩
    · exact .inl hsome
    · exact .inr ⟨c', mem_append_left _ hin, hr⟩

theorem BatchData.keep (h : BatchData c e' is s) {main : BatchMain I A E}
    (htr : s'.tracker = s.shared.tracker) (hpr : s'.processed = s.shared.processed)
    (hp : (s'.queued ++ main.hand ++ r).Perm (s.shared.queued ++ s.main.hand ++ s.remaining)) :
    BatchData c e' is ⟨main, r, s', s.consumers⟩ := by
  refine h.main (append_nil _).symm ?_ htr hpr ⟨[], ?_, fun h => absurd rfl h⟩
  · intro c' hin
    cases hin
  · rwa [append_nil]

theorem BatchStep.keeps_data {e' : Executor E} (hrun : ∀ e, ¬ e'.rejects e)
    (h : BatchData c e' is s) (hst : BatchStep c e' b cs s t) : BatchData c e' is t := by
  have hs : ∀ main : BatchMain I A E, main.hand = s.main.hand →
      BatchData c e' is { s with main } := by
    intro main hh
    exact h.keep rfl rfl (by rw [hh])
  cases hst with
  | add hm _ =>
    refine h.main rfl ?_ rfl rfl ?_
    · intro c' hin
      exact mem_singleton.mp hin
    refine ⟨[], ?_, fun h => absurd rfl h⟩
    simp [hm, hand]
  | addReject _ _ hr => exact absurd hr (hrun _)
  | added hm _ => exact hs _ (by rw [hm]; rfl)
  | write hm _ => exact h.keep rfl rfl (by simp [hm, hand, queued])
  | fill hm _ =>
    obtain ⟨f, ha⟩ := s.shared.allocate_eq
    rw [ha]
    exact h.keep rfl rfl (by simp [hm, hand, queued])
  | stop hm he =>
    refine h.main (append_nil _).symm (by simp) rfl rfl ⟨s.main.hand, ?_, fun _ => he⟩
    simp only [hand, append_nil, append_assoc]
    exact Perm.append_left _ perm_append_comm
  | check hm _ => exact hs _ (by rw [hm]; rfl)
  | fillEnd hm _ => exact hs _ (by rw [hm]; rfl)
  | poison hm _ => exact h.keep rfl rfl (by simp [hm, hand, queued])
  | poisonEnd hm => exact hs _ (by rw [hm]; rfl)
  | wait hm _ _ => exact hs _ (by rw [hm]; rfl)
  | finish hm _ => exact hs _ (by rw [hm]; rfl)
  | consume hc hconsumer => exact h.consume hc hconsumer

end

end Rebalancer
