import Rebalancer.ParallelExecution

namespace Rebalancer
open List Relation BatchState

section
variable {I O A E : Type}

/-- What holds of every interleaving, also if callbacks throw and the executor rejects tasks. -/
structure Call.Contained (call : Call I A E) (c : Callbacks I O A E) (executor : Executor E)
    (limit : Nat) (inputs : List I) : Prop where
  returns : Inevitable call.Step (fun s => (call.returned s).isSome = true) call.start
  bounded : ∀ s, ReflTransGen call.Step call.start s → call.active s ≤ limit
  once : ∀ s, ReflTransGen call.Step call.start s → (call.processed s).Subperm inputs
  outcome : ∀ s r, ReflTransGen call.Step call.start s → call.returned s = some r →
    call.active s = 0 ∧ ((∃ e, r = .error e ∧ c.Raised executor (call.processed s) e) ∨
      ∃ a, ∃ values : List O, r = .ok a ∧ (call.processed s).Perm inputs ∧
        (values.map .ok).Perm ((call.processed s).map c.process) ∧
        values.foldlM c.aggregate c.initial = .ok a)

/-- The call can end while a task that it has scheduled is not finished. -/
def Call.Outlived (call : Call I A E) : Prop := ∃ s r, ReflTransGen call.Step call.start s ∧
  call.returned s = some r ∧ call.active s ≠ 0

variable (c : Callbacks I O A E) (executor : Executor E)

variable {c executor} in
theorem WindowInvariant.pending_le (h : WindowInvariant c executor w is s) : s.pending ≤ w := by
  have hp := h.phase
  rw [WindowState.Phase] at hp
  split at hp <;> omega

/-- Callbacks may throw and tasks be rejected: the call still ends, with no task left. -/
theorem executeParallelWindow_contained (hw : 1 ≤ windowSize) (inputs : List I) :
    (executeParallelWindow c executor windowSize inputs).Contained c executor
      windowSize inputs := by
  have hstart := WindowInvariant.start c executor windowSize inputs
  have hkeeps : ∀ s t, WindowInvariant c executor windowSize inputs s →
      WindowStep c executor windowSize s t → WindowInvariant c executor windowSize inputs t :=
    fun s t => WindowStep.keeps hw
  refine ⟨?_, ?_, ?_, ?_⟩
  · apply inevitable_of_measure hkeeps (fun s t => WindowStep.lowers) _ hstart
    intro s hs
    refine (hs.progress hw).imp_left ?_
    rintro ⟨r, hr⟩
    simp [executeParallelWindow, hr]
  · intro s hs
    have hi := invariant_of_reachable hkeeps hstart hs
    have hp := hi.pending ▸ hi.pending_le
    exact (Nat.le_add_right _ _).trans hp
  · intro s hs
    have hc := (invariant_of_reachable hkeeps hstart hs).conserved
    rw [append_assoc] at hc
    exact (sublist_append_left _ _).subperm.trans hc.subperm
  · intro s r hs hr
    have hm : s.main = .returned r := by
      simp only [executeParallelWindow] at hr
      split at hr
      · rename_i hm
        cases hr
        exact hm
      · cases hr
    obtain ⟨ht, hc, ho⟩ := (invariant_of_reachable hkeeps hstart hs).returned hm
    refine ⟨?_, ho⟩
    simp [executeParallelWindow, ht, hc]

theorem executeParallelWindow_contained_two :
    (executeParallelWindow sumOfSquares ⟨4, (· = "full")⟩ 2 [1, 0, 3]).Contained sumOfSquares
      ⟨4, (· = "full")⟩ 2 [1, 0, 3] :=
  executeParallelWindow_contained sumOfSquares ⟨4, (· = "full")⟩ (by decide) [1, 0, 3]

variable (invalidArgument : String → E) {config : BatchingExecutionOptions} {inputs : List I}

/-- The consumers refer to variables of the call, which does not catch what the executor throws. -/
theorem executeParallelBatch_outlived_iff (hb : 1 ≤ config.batchSize)
    (hi : config.batchSize < inputs.length) (hn : 2 ≤ config.numConsumers executor) :
    (executeParallelBatch c executor invalidArgument config inputs).Outlived ↔
      ∃ e, executor.rejects e := by
  have hmax : config.maxConcurrency ≠ some 0 := by
    intro hz
    rw [BatchingExecutionOptions.numConsumers, hz] at hn
    simp at hn
  have hne : inputs ≠ [] := ne_nil_of_length_pos (Nat.zero_lt_of_lt hi)
  have hr : inputs.drop config.batchSize ≠ [] := by simpa using hi
  have hstart : startBatch c executor invalidArgument config inputs =
      .batches ⟨.starting 0 (inputs.take config.batchSize), inputs.drop config.batchSize,
        ⟨[], [], ⟨false, none⟩, []⟩, []⟩ := by
    simp [startBatch, hmax, hne, Nat.ne_of_gt hb, hr]
  constructor
  · rintro ⟨s, r, hs, hr, ha⟩
    by_contra hno
    have hrun : ∀ e, ¬ executor.rejects e := fun e he => hno ⟨e, he⟩
    change ReflTransGen _ (startBatch c executor invalidArgument config inputs) s at hs
    rw [hstart] at hs
    have hbatches : ∀ s t', BatchCallStep c executor config.batchSize
        (config.numConsumers executor) (min (inputs.take config.batchSize).length
        (config.numConsumers executor)) (.batches s) t' →
        ∃ t, BatchStep c executor config.batchSize (config.numConsumers executor) s t ∧
          t' = .batches t := by
      intro s t' hst
      cases hst with
      | batches hst => exact ⟨_, hst, rfl⟩
    obtain ⟨t, ht, rfl⟩ := reachable_embedded hbatches hs
    have hp : BatchProtocol c (config.numConsumers executor) t :=
      invariant_of_reachable (fun _ _ h hst => hst.keeps_protocol hrun h) (.start c _ _ _) ht
    have hf : ∀ consumer ∈ t.consumers, consumer.phase = .finished := by
      simp only [executeParallelBatch] at hr
      split at hr
      · rename_i hm
        exact (hp.returned _ hm).1
      · rename_i hm
        exact absurd hm (hp.kept _)
      · cases hr
    apply ha
    change t.consumers.countP _ = 0
    rw [countP_eq_zero]
    intro consumer hin
    simp [hf consumer hin]
  · rintro ⟨e, he⟩
    refine ⟨.batches ⟨.abandoned e, inputs.drop config.batchSize, ⟨[], [], ⟨false, none⟩, []⟩,
      [⟨.scheduled, c.initial⟩]⟩, .error e, ?_, rfl, by simp [executeParallelBatch, active]⟩
    change ReflTransGen _ (startBatch c executor invalidArgument config inputs) _
    rw [hstart]
    refine .head (.batches (.add rfl ?_)) (.single (.batches (.addReject rfl ?_ he)))
    · omega
    · omega

theorem executeParallelBatch_outlived_two :
    (executeParallelBatch sumOfSquares ⟨4, (· = "full")⟩ id ⟨2, some 3⟩ [5, 0, 1]).Outlived :=
  (executeParallelBatch_outlived_iff sumOfSquares ⟨4, (· = "full")⟩ id (by decide) (by decide)
    (by decide)).mpr ⟨"full", rfl⟩

end

end Rebalancer
