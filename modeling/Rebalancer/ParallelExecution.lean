import Rebalancer.ParallelBatchProtocol

namespace Rebalancer
open List Nat Relation BatchState

section
variable {I O A E : Type}
variable {c : Callbacks I O A E}

theorem Callbacks.Lawful.slot_foldl_right (hc : c.Lawful f g)
    (vs : List O) : ∀ a b, g a (vs.foldl f b) = vs.foldl f (g a b) := by
  induction vs with
  | nil =>
    intro a b
    rfl
  | cons v vs ih =>
    intro a b
    rw [foldl_cons, ih, hc.slot_right]
    rfl

theorem Callbacks.Lawful.slot_foldl_left (hc : c.Lawful f g)
    (vs : List O) : ∀ a b, g (vs.foldl f a) b = vs.foldl f (g a b) := by
  induction vs with
  | nil =>
    intro a b
    rfl
  | cons v vs ih =>
    intro a b
    rw [foldl_cons, ih, hc.slot_left]
    rfl

theorem Callbacks.Lawful.foldlM_slots (hc : c.Lawful f g)
    (h : Forall₂ (fun acc vs => vs.foldlM c.aggregate c.initial = .ok acc) accs values) :
    ∀ ws : List O, accs.foldlM c.aggregateSlot (ws.foldl f c.initial) =
      .ok ((ws ++ values.flatten).foldl f c.initial) := by
  induction h with
  | nil =>
    intro ws
    rw [flatten_nil, append_nil]
    rfl
  | @cons acc vs accs values ha _ ih =>
    intro ws
    rw [hc.foldlM] at ha
    have hs : g (ws.foldl f c.initial) acc = (ws ++ vs).foldl f c.initial := by
      rw [← Except.ok.inj ha, hc.slot_foldl_right, hc.slot_foldl_left, hc.slot_initial,
        foldl_append]
    rw [foldlM_cons, hc.aggregateSlot_eq, except_ok_bind, hs, ih, flatten_cons, append_assoc]

theorem BatchData.start (c : Callbacks I O A E) (e' : Executor E) (b r : List I) :
    BatchData c e' (b ++ r) ⟨.starting 0 b, r, ⟨[], [], ⟨false, none⟩, []⟩, []⟩ := by
  refine ⟨⟨[], ?_, fun h => absurd rfl h⟩, ⟨[], [], .nil, .refl _, fun h => absurd rfl h⟩, ?_, ?_,
    nofun⟩
  · exact .of_eq (append_nil _)
  · intro e he
    cases he
  · intro consumer hin
    cases hin

theorem BatchProtocol.start (c : Callbacks I O A E) (cs : Nat) (b r : List I) : BatchProtocol c cs
      (⟨.starting 0 b, r, ⟨[], [], ⟨false, none⟩, []⟩, []⟩ : BatchState I A E) := by
  refine ⟨⟨[], 0, rfl, ?_, fun h => absurd rfl h⟩, ⟨rfl, zero_le _⟩, nofun, nofun, nofun, nofun⟩
  simp only [BatchMain.pills, BatchMain.started, alive, map_nil, sum_nil]
  omega

theorem BatchProtocol.outcome (hc : c.Lawful f g) (hn : 1 ≤ cs) (h : BatchProtocol c cs s)
    (hda : BatchData c e' is s) (hm : s.main = .returned r) : s.active = 0 ∧
      ((∃ e, r = .error e ∧ c.Raised e' s.shared.processed e) ∨
        ∃ a, ∃ values : List O, r = .ok a ∧ s.shared.processed.Perm is ∧
          (values.map .ok).Perm (s.shared.processed.map c.process) ∧
          a = values.foldl f c.initial) := by
  obtain ⟨⟨b, k, hq, hcount, ha⟩, hs, hp, -, hreturned, -⟩ := h
  obtain ⟨hf, hr⟩ := hreturned r hm
  obtain ⟨⟨d, hperm, hd⟩, ⟨values, lost, hv, ho, hl⟩, hfirst, -, htracked⟩ := hda
  constructor
  · rw [active, countP_eq_zero]
    intro consumer hin
    simp [hf consumer hin]
  · have hslots : (s.consumers.map Consumer.acc).foldlM c.aggregateSlot c.initial =
        .ok (values.flatten.foldl f c.initial) := by
      refine hc.foldlM_slots ?_ []
      rw [forall₂_map_left_iff]
      exact hv
    rw [BatchState.outcome, hslots] at hr
    cases hexception : s.shared.tracker.firstException with
    | some e =>
      rw [hexception] at hr
      exact .inl ⟨e, hr, hfirst e hexception⟩
    | none =>
      rw [hexception] at hr
      have hclear : s.shared.tracker.hasException = false := by
        by_contra hset
        rw [Bool.not_eq_false] at hset
        rcases htracked hset with ⟨e, he⟩ | ⟨consumer, hin, hrecording⟩
        · exact nomatch hexception.symm.trans he
        · rw [hf consumer hin] at hrecording
          cases hrecording
      have hcalm : ¬ s.Failing := by
        intro hfailing
        rcases hfailing with hset | ⟨consumer, hin, ht⟩
        · exact nomatch hclear.symm.trans hset
        · rw [hf consumer hin] at ht
          cases ht
      have halive : s.alive = 0 := by
        apply List.sum_eq_zero_iff_forall_eq_nat.mpr
        intro n hn
        obtain ⟨consumer, hin, rfl⟩ := List.mem_map.mp hn
        rw [hf consumer hin]
        rfl
      rw [hm] at hcount hs
      simp only [BatchMain.pills, BatchMain.started] at hcount hs
      have hb : b = [] := by
        by_contra hne
        have hlength := ha hne
        omega
      have hempty : s.shared.queued = [] := by
        have hk : k = 0 := by omega
        rw [BatchShared.queued, hq, hb, hk]
        rfl
      have hh : (s.consumers.flatMap fun consumer => consumer.phase.held) = [] := by
        rw [flatMap_eq_nil_iff]
        intro consumer hin
        rw [hf consumer hin]
        rfl
      have hremaining : s.remaining = [] := by
        rcases hp (by rw [hm]; rfl) with hnil | hset
        · exact hnil
        · exact nomatch hclear.symm.trans hset
      have hnone : d = [] := by
        by_contra hne
        exact hcalm (hd hne)
      have hn' : lost = [] := by
        by_contra hne
        exact hcalm (hl hne)
      refine .inr ⟨_, values.flatten, hr, ?_, ?_, rfl⟩
      · rw [hh, hempty, hm, hremaining, hnone] at hperm
        simpa only [BatchMain.hand, append_nil] using hperm
      · rw [hn', append_nil] at ho
        exact ho

def runBatches (c : Callbacks I O A E) (executor : Executor E) (batchSize numConsumers : Nat)
    (firstBatch remaining : List I) : Call I A E where
  State := BatchState I A E
  start := ⟨.starting 0 firstBatch, remaining, ⟨[], [], ⟨false, none⟩, []⟩, []⟩
  Step := BatchStep c executor batchSize numConsumers
  returned s :=
    match s.main with
    | .returned r => some r
    | .abandoned e => some (.error e)
    | _ => none
  processed s := s.shared.processed
  active := active

theorem runBatches_correct (hc : c.Lawful f g) (hrun : ∀ e, ¬ e'.rejects e)
    (hb : 1 ≤ s') (hn : 1 ≤ cs) (b r' : List I) : (runBatches c e' s' cs b r').Correct c
      (b ++ r') := by
  have hstart : BatchData c e' (b ++ r') (runBatches c e' s' cs b r').start ∧ BatchProtocol c cs
        (runBatches c e' s' cs b r').start :=
    ⟨BatchData.start c e' b r', BatchProtocol.start c cs b r'⟩
  have hkeeps : ∀ s t : BatchState I A E, BatchData c e' (b ++ r') s ∧ BatchProtocol c cs s →
      BatchStep c e' s' cs s t →
      BatchData c e' (b ++ r') t ∧ BatchProtocol c cs t :=
    fun s t h hstep => ⟨hstep.keeps_data hrun h.1, hstep.keeps_protocol hrun h.2⟩
  have hreach : ∀ s, ReflTransGen (BatchStep c e' s' cs) (runBatches c e' s' cs b r').start s →
      BatchData c e' (b ++ r') s ∧ BatchProtocol c cs s :=
    fun s hs => @invariant_of_reachable _ _ (fun s =>
      BatchData c e' (b ++ r') s ∧ BatchProtocol c cs s) _ _
      hkeeps hstart hs
  have hm : ∀ (s : BatchState I A E) r, BatchProtocol c cs s →
      (runBatches c e' s' cs b r').returned s = some r →
      s.main = .returned r := by
    intro s r hs hr
    simp only [runBatches] at hr
    split at hr
    · rename_i hm
      cases hr
      exact hm
    · rename_i hm
      exact absurd hm (hs.kept _)
    · cases hr
  have hsubperm : ∀ s : BatchState I A E, BatchData c e' (b ++ r') s →
      s.shared.processed.Subperm (b ++ r') := by
    intro s hs
    obtain ⟨d, hp, -⟩ := hs.conserved
    simp only [append_assoc] at hp
    exact (sublist_append_left _ _).subperm.trans hp.subperm
  have ho : ∀ s r, BatchData c e' (b ++ r') s ∧ BatchProtocol c cs s →
      (runBatches c e' s' cs b r').returned s = some r →
      s.active = 0 ∧
      ((∀ x ∈ b ++ r', ∃ o, c.process x = .ok o) → s.shared.processed.Perm (b ++ r') ∧
        r = c.sequential (b ++ r')) ∧
      ((∃ x ∈ b ++ r', ∃ e, c.process x = .error e) →
        ∃ x ∈ s.shared.processed, ∃ e, c.process x = .error e ∧ r = .error e) := by
    intro s r hs hr
    obtain ⟨ha, hcases⟩ := hs.2.outcome hc hn hs.1 (hm s r hs.2 hr)
    exact ⟨ha, hc.outcome hrun hcases (hsubperm s hs.1).subset⟩
  refine ⟨?_, ?_, ?_, ?_, ?_⟩
  · apply inevitable_of_measure hkeeps (fun s t => BatchStep.lowers hb) _ hstart
    intro s hs
    rcases hs.2.progress hn with ⟨r, hr⟩ | hstep
    · refine .inl ?_
      simp [runBatches, hr]
    · exact .inr hstep
  · intro s r hs hr
    exact (ho s r (hreach s hs) hr).1
  · intro s hs
    exact hsubperm s (hreach s hs).1
  · intro s r hs hr
    exact (ho s r (hreach s hs) hr).2.1
  · intro s r hs hr
    exact (ho s r (hreach s hs) hr).2.2

theorem Call.Correct.embedded {call : Call I A E} (h : call.Correct c inputs) (c' : Call I A E)
    (f : call.State → c'.State) (hst : c'.start = f call.start)
    (hf : ∀ s t, call.Step s t → c'.Step (f s) (f t))
    (hb : ∀ s t', c'.Step (f s) t' → ∃ t, call.Step s t ∧ t' = f t)
    (hre : ∀ s, c'.returned (f s) = call.returned s)
    (hp : ∀ s, c'.processed (f s) = call.processed s)
    (hac : ∀ s, c'.active (f s) = call.active s) : c'.Correct c inputs := by
  have hreach : ∀ s', ReflTransGen c'.Step c'.start s' →
      ∃ s, ReflTransGen call.Step call.start s ∧ s' = f s := by
    intro s' hs'
    rw [hst] at hs'
    exact reachable_embedded hb hs'
  refine ⟨?_, ?_, ?_, ?_, ?_⟩
  · rw [hst]
    apply h.returns.embedded _ hf hb
    intro s hs
    rw [hre]
    exact hs
  · intro s' r hs' hr
    obtain ⟨s, hs, rfl⟩ := hreach s' hs'
    rw [hre] at hr
    rw [hac]
    exact h.drained s r hs hr
  · intro s' hs'
    obtain ⟨s, hs, rfl⟩ := hreach s' hs'
    rw [hp]
    exact h.once s hs
  · intro s' r hs' hr ha
    obtain ⟨s, hs, rfl⟩ := hreach s' hs'
    rw [hre] at hr
    rw [hp]
    exact h.result s r hs hr ha
  · intro s' r hs' hr ht
    obtain ⟨s, hs, rfl⟩ := hreach s' hs'
    rw [hre] at hr
    rw [hp]
    exact h.rethrown s r hs hr ht

theorem BatchingExecutionOptions.numConsumers_pos (executor : Executor E)
    {c' : BatchingExecutionOptions} (h : c'.maxConcurrency ≠ some 0) :
    1 ≤ c'.numConsumers executor := by
  rw [BatchingExecutionOptions.numConsumers]
  apply Nat.le_min.mpr
  refine ⟨Nat.le_max_left _ _, ?_⟩
  cases hm : c'.maxConcurrency with
  | none => exact Nat.le_max_left _ _
  | some n =>
    rw [hm] at h
    exact Nat.pos_of_ne_zero fun hzero => h (congrArg some hzero)

theorem executeParallelBatch_correct (hc : c.Lawful f g) {e' : Executor E}
    (hrun : ∀ e, ¬ e'.rejects e) (a : String → E) (hb : 1 ≤ c'.batchSize)
    (hco : c'.maxConcurrency ≠ some 0) (inputs : List I) :
    (executeParallelBatch c e' a c' inputs).Correct c inputs := by
  have hn := BatchingExecutionOptions.numConsumers_pos e' hco
  by_cases he : inputs = []
  · subst he
    have hreach : ∀ s, ReflTransGen (executeParallelBatch c e' a c' []).Step
        (.returned (.ok c.initial)) s → s = .returned (.ok c.initial) := by
      intro s hs
      rcases ReflTransGen.cases_head hs with rfl | ⟨t, hstep, -⟩
      · rfl
      · cases hstep
    refine ⟨.now rfl, ?_, ?_, ?_, ?_⟩
    · intro s r hs _
      rw [hreach s hs]
      rfl
    · intro s hs
      rw [hreach s hs]
      exact Subperm.refl []
    · intro s r hs hr _
      rw [hreach s hs] at hr ⊢
      exact ⟨Perm.refl [], (Option.some.inj hr).symm⟩
    · intro s r _ _ hthrow
      obtain ⟨x, hx, -⟩ := hthrow
      cases hx
  · have ht : inputs.take c'.batchSize ≠ [] := by
      intro ht
      rcases take_eq_nil_iff.mp ht with hzero | hnil
      · omega
      · exact he hnil
    have hp : 1 ≤ (inputs.take c'.batchSize).length := length_pos_of_ne_nil ht
    by_cases hrest : inputs.drop c'.batchSize = []
    · have hall : inputs.take c'.batchSize = inputs := by
        have ha := take_append_drop c'.batchSize inputs
        rwa [hrest, append_nil] at ha
      have hw := executeParallelWindow_correct hc hrun
        (Nat.le_min.mpr ⟨hp, hn⟩) (inputs.take c'.batchSize)
      have hi : (executeParallelWindow c e'
          (min (inputs.take c'.batchSize).length (c'.numConsumers e'))
          (inputs.take c'.batchSize)).Correct c inputs := by
        rw [hall] at hw ⊢
        exact hw
      apply hi.embedded (executeParallelBatch c e' a c' inputs) BatchCallState.window
      · simp [executeParallelBatch, startBatch, he, hco, ht, hrest, Nat.ne_of_gt hb]
      · intro s t hstep
        exact .window hstep
      · intro s t' hstep
        cases hstep with
        | window hstep => exact ⟨_, hstep, rfl⟩
      · exact fun s => rfl
      · exact fun s => rfl
      · exact fun s => rfl
    · have hbatches := runBatches_correct hc hrun hb hn (inputs.take c'.batchSize)
        (inputs.drop c'.batchSize)
      rw [take_append_drop] at hbatches
      apply hbatches.embedded (executeParallelBatch c e' a c' inputs) BatchCallState.batches
      · simp only [executeParallelBatch, startBatch, List.isEmpty_iff, he, hco, ht,
          hrest, Nat.ne_of_gt hb, if_false]
        rfl
      · intro s t hstep
        exact .batches hstep
      · intro s t' hstep
        cases hstep with
        | batches hstep => exact ⟨_, hstep, rfl⟩
      · exact fun s => rfl
      · exact fun s => rfl
      · exact fun s => rfl

/-- Both schemes return, in every interleaving, what the sequential loop returns. -/
theorem executeParallel_correct (hc : c.Lawful f g) {executor : Executor E}
    (hrun : ∀ e, ¬ executor.rejects e) (invalidArgument : String → E) (inputs : List I) :
    (∀ windowSize, 1 ≤ windowSize →
      (executeParallelWindow c executor windowSize inputs).Correct c inputs) ∧
    (∀ config : BatchingExecutionOptions, 1 ≤ config.batchSize →
      (∀ n, config.maxConcurrency = some n → 1 ≤ n) →
      (executeParallelBatch c executor invalidArgument config inputs).Correct c inputs) := by
  refine ⟨?_, ?_⟩
  · intro windowSize hw
    exact executeParallelWindow_correct hc hrun hw inputs
  · intro config hb hconcurrency
    apply executeParallelBatch_correct hc hrun invalidArgument hb _ inputs
    intro hzero
    exact absurd (hconcurrency 0 hzero) (not_succ_le_zero 0)

def sumOfSquares : Callbacks Nat Nat Nat String where
  process n := if n = 0 then .error "zero" else .ok (n * n)
  initial := 0
  aggregate total square := .ok (total + square)
  aggregateSlot total subtotal := .ok (total + subtotal)

theorem sumOfSquares_lawful : sumOfSquares.Lawful (· + ·) (· + ·) where
  aggregate_eq _ _ := rfl
  aggregateSlot_eq _ _ := rfl
  comm := add_right_comm
  slot_initial := rfl
  slot_left a b x := add_right_comm a x b
  slot_right a b x := (add_assoc a b x).symm

theorem executeParallel_sumOfSquares :
    (executeParallelWindow sumOfSquares ⟨4, fun _ => False⟩ 2 [1, 2, 3]).Correct sumOfSquares
      [1, 2, 3] ∧
    (executeParallelBatch sumOfSquares ⟨4, fun _ => False⟩ id ⟨2, some 3⟩ [5, 0, 1, 2, 3]).Correct
      sumOfSquares [5, 0, 1, 2, 3] :=
  ⟨(executeParallel_correct sumOfSquares_lawful (fun _ h => h) id [1, 2, 3]).1 2 (by decide),
    (executeParallel_correct sumOfSquares_lawful (fun _ h => h) id [5, 0, 1, 2, 3]).2 ⟨2, some 3⟩
      (by decide) (fun n h => Option.some.inj h ▸ by decide)⟩

end

end Rebalancer
