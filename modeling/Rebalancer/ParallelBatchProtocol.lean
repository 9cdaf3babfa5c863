import Rebalancer.ParallelBatchData

namespace Rebalancer
open List BatchMain Nat

section
variable {I O A E : Type}

def ConsumerPhase.alive : ConsumerPhase I E → Nat
  | .posting => 0
  | .finished => 0
  | _ => 1

def BatchMain.pills (numConsumers : Nat) : BatchMain I A E → Nat
  | .poisoning left => left
  | .waiting _ => 0
  | .abandoned _ => 0
  | .returned _ => 0
  | _ => numConsumers

def BatchMain.started (numConsumers : Nat) : BatchMain I A E → Nat
  | .starting idx _ => idx
  | _ => numConsumers

def BatchMain.producing : BatchMain I A E → Bool
  | .starting _ _ => true
  | .writing _ => true
  | .filling => true
  | .filled _ => true
  | _ => false

def BatchState.alive (s : BatchState I A E) : Nat :=
  (s.consumers.map fun consumer => consumer.phase.alive).sum

/-- The poison pills follow the batches, one for every consumer, and the call waits for the
consumers. -/
structure BatchProtocol (c : Callbacks I O A E) (numConsumers : Nat) (s : BatchState I A E) :
    Prop where
  queue : ∃ batches k, s.shared.queue = batches.map some ++ List.replicate k none ∧
    k + s.main.pills numConsumers + s.main.started numConsumers = s.alive + numConsumers ∧
    (batches ≠ [] → s.alive = s.consumers.length)
  started : s.consumers.length = s.main.started numConsumers ∧
    s.main.started numConsumers ≤ numConsumers
  produced : s.main.producing = false → s.remaining = [] ∨ s.shared.tracker.hasException = true
  waited : ∀ idx, s.main = .waiting idx → idx ≤ numConsumers ∧
    ∀ j, j < idx → s.consumers[j]?.map Consumer.phase = some .finished
  returned : ∀ r, s.main = .returned r →
    (∀ consumer ∈ s.consumers, consumer.phase = .finished) ∧ r = s.outcome c
  kept : ∀ e, s.main ≠ .abandoned e

theorem ConsumerPhase.alive_le (p : ConsumerPhase I E) : p.alive ≤ 1 := by
  cases p with
  | posting => exact zero_le 1
  | finished => exact zero_le 1
  | _ => exact Nat.le_refl 1

theorem alive_le_length (cs : List (Consumer I A E)) :
    (cs.map fun consumer => consumer.phase.alive).sum ≤ cs.length := by
  induction cs with
  | nil => exact Nat.le_refl 0
  | cons consumer cs ih =>
    rw [map_cons, sum_cons, length_cons, add_comm]
    exact Nat.add_le_add ih consumer.phase.alive_le

theorem ConsumerStep.queue_cases (h : ConsumerStep c s c' t c'') : c'.phase ≠ .finished ∧
      (t.queue = s.queue ∧ c''.phase.alive = c'.phase.alive ∨
      (∃ batch, s.queue = some batch :: t.queue) ∧ c''.phase.alive = c'.phase.alive ∨
      s.queue = none :: t.queue ∧ c'.phase.alive = 1 ∧ c''.phase.alive = 0) := by
  cases h with
  | read hq => exact ⟨by rintro ⟨⟩, .inr (.inl ⟨⟨_, hq⟩, rfl⟩)⟩
  | poison hq => exact ⟨by rintro ⟨⟩, .inr (.inr ⟨hq, rfl, rfl⟩)⟩
  | recycle =>
    refine ⟨by rintro ⟨⟩, .inl ⟨?_, rfl⟩⟩
    rw [BatchShared.recycle]
    split
    · rfl
    · rfl
  | _ => exact ⟨by rintro ⟨⟩, .inl ⟨rfl, rfl⟩⟩

theorem getElem?_replace_ne (l₁ l₂ : List α) (x y : α) (h : j ≠ l₁.length) :
    (l₁ ++ x :: l₂)[j]? = (l₁ ++ y :: l₂)[j]? := by
  rw [getElem?_append, getElem?_append]
  split_ifs with hge
  · rfl
  · have hp : j - l₁.length ≠ 0 := by omega
    obtain ⟨m, hm⟩ := exists_eq_succ_of_ne_zero hp
    rw [hm, succ_eq_add_one, getElem?_cons_succ, getElem?_cons_succ]

theorem BatchProtocol.consume (h : BatchProtocol c numConsumers s)
    (hconsumers : s.consumers = l₁ ++ consumer :: l₂)
    (hstep : ConsumerStep c s.shared consumer shared consumer') :
    BatchProtocol c numConsumers { s with shared, consumers := l₁ ++ consumer' :: l₂ } := by
  obtain ⟨⟨batches, k, hq, hc, hall⟩, hstarted, hproduced, hw, hreturned, hk⟩ := h
  obtain ⟨hn, hcases⟩ := hstep.queue_cases
  have hl : (l₁ ++ consumer' :: l₂).length = s.consumers.length := by
    rw [hconsumers, length_append, length_append]
    rfl
  have ha : BatchState.alive { s with shared, consumers := l₁ ++ consumer' :: l₂ } +
      consumer.phase.alive = s.alive + consumer'.phase.alive := by
    simp only [BatchState.alive, hconsumers, map_append, sum_append_nat, map_cons, sum_cons]
    omega
  refine ⟨?_, ⟨hl.trans hstarted.1, hstarted.2⟩, ?_, ?_, ?_, hk⟩
  · rcases hcases with ⟨hsame, hphase⟩ | ⟨⟨batch, hread⟩, hphase⟩ | ⟨hpill, ho, hzero⟩
    · have hs := ha
      rw [hphase] at hs
      have hs := add_right_cancel hs
      refine ⟨batches, k, hsame.trans hq, ?_, ?_⟩
      · rw [hs]
        exact hc
      · intro hne
        rw [hs, hall hne]
        exact hl.symm
    · have hs := ha
      rw [hphase] at hs
      have hs := add_right_cancel hs
      rw [hq] at hread
      cases batches with
      | nil =>
        cases k with
        | zero => cases hread
        | succ k => cases hread
      | cons b batches =>
        refine ⟨batches, k, (cons.inj hread).2.symm, ?_, ?_⟩
        · rw [hs]
          exact hc
        · intro _
          rw [hs, hall (cons_ne_nil _ _)]
          exact hl.symm
    · rw [hq] at hpill
      cases batches with
      | cons b batches => cases hpill
      | nil =>
        cases k with
        | zero => cases hpill
        | succ k =>
          refine ⟨[], k, (cons.inj hpill).2.symm, ?_, fun h => absurd rfl h⟩
          rw [ho, hzero] at ha
          simp only at hc ⊢
          omega
  · intro hend
    rcases hproduced hend with hnil | he
    · exact .inl hnil
    · exact .inr (hstep.tracked.1 (.inl he))
  · intro idx hidx
    obtain ⟨hle, hf⟩ := hw idx hidx
    refine ⟨hle, ?_⟩
    intro j hj
    have hj := hf j hj
    by_cases hp : j = l₁.length
    · rw [hconsumers, hp, getElem?_append_right (Nat.le_refl _), Nat.sub_self] at hj
      exact absurd (Option.some.inj hj) hn
    · simp only [getElem?_replace_ne l₁ l₂ consumer' consumer hp]
      rw [hconsumers] at hj
      exact hj
  · intro r hr
    have hmem : consumer ∈ s.consumers := by
      rw [hconsumers]
      exact mem_append_right _ mem_cons_self
    exact absurd ((hreturned r hr).1 consumer hmem) hn

theorem BatchStep.keeps_protocol {e' : Executor E} (hrun : ∀ e, ¬ e'.rejects e)
    (h : BatchProtocol c cs s) (hst : BatchStep c e' s' cs s t) : BatchProtocol c cs t := by
  have hi := h
  have hle := alive_le_length s.consumers
  obtain ⟨⟨b, k, hq, hc, ha⟩, hs, hp, hw, hreturned, hkept⟩ := h
  cases hst with
  | add hm hlt =>
    rw [hm] at hc hs
    refine ⟨⟨b, k, hq, ?_, ?_⟩, ⟨?_, hlt⟩, by rintro ⟨⟩, by simp, by simp, by simp⟩
    · simp only [BatchState.alive, pills, started, map_append,
        sum_append_nat, map_cons, map_nil, sum_cons, sum_nil,
        ConsumerPhase.alive] at hc ⊢
      omega
    · intro hne
      have ha := ha hne
      simp only [BatchState.alive, map_append, sum_append_nat, map_cons, map_nil,
        sum_cons, sum_nil, ConsumerPhase.alive, length_append, length_cons,
        length_nil] at ha ⊢
      omega
    · simp only [started, length_append, length_singleton] at hs ⊢
      omega
  | addReject _ _ hreject => exact absurd hreject (hrun _)
  | added hm hn =>
    rw [hm] at hc hs
    simp only [pills, started] at hc hs
    refine ⟨⟨b, k, hq, ?_, ha⟩, ⟨?_, Nat.le_refl _⟩, by rintro ⟨⟩, by simp, by simp, by simp⟩
    · simp only [BatchState.alive, pills, started] at hc ⊢
      omega
    · simp only [started]
      omega
  | write hm hroom =>
    rw [hm] at hc hs
    simp only [BatchState.alive, pills, started] at hc hs hle
    have hk : k = 0 := by omega
    have halive : (s.consumers.map fun consumer => consumer.phase.alive).sum =
        s.consumers.length := by omega
    refine ⟨⟨b ++ [s.main.hand], 0, ?_, ?_, fun _ => halive⟩, hs, by rintro ⟨⟩, by simp, by simp,
      by simp⟩
    · simp [hm, hand, hq, hk]
    · simp only [BatchState.alive, pills, started]
      omega
  | fill hm _ =>
    obtain ⟨f, hallocate⟩ := s.shared.allocate_eq
    rw [hm] at hc hs
    refine ⟨⟨b, k, ?_, hc, ha⟩, hs, by rintro ⟨⟩, by simp, by simp, by simp⟩
    rw [hallocate]
    exact hq
  | stop hm he =>
    rw [hm] at hc hs
    exact ⟨⟨b, k, hq, hc, ha⟩, hs, fun _ => .inr he, by simp, by simp, by simp⟩
  | check hm _ =>
    rw [hm] at hc hs
    exact ⟨⟨b, k, hq, hc, ha⟩, hs, by rintro ⟨⟩, by simp, by simp, by simp⟩
  | fillEnd hm hnil =>
    rw [hm] at hc hs
    exact ⟨⟨b, k, hq, hc, ha⟩, hs, fun _ => .inl hnil, by simp, by simp, by simp⟩
  | poison hm _ =>
    rw [hm] at hc hs hp
    refine ⟨⟨b, k + 1, ?_, ?_, ha⟩, hs, hp, by simp, by simp, by simp⟩
    · simp only [hq, append_assoc, replicate_succ']
    · simp only [BatchState.alive, pills, started] at hc ⊢
      omega
  | poisonEnd hm =>
    rw [hm] at hc hs hp
    refine ⟨⟨b, k, hq, hc, ha⟩, hs, hp, ?_, by simp, by simp⟩
    intro idx hidx
    cases hidx
    exact ⟨zero_le _, fun j hj => absurd hj (not_lt_zero j)⟩
  | @wait idx _ hm hlt hd =>
    obtain ⟨-, hf⟩ := hw idx hm
    rw [hm] at hc hs hp
    refine ⟨⟨b, k, hq, hc, ha⟩, hs, hp, ?_, by simp, by simp⟩
    intro idx' hidx
    cases hidx
    refine ⟨hlt, ?_⟩
    intro j hj
    rcases Nat.lt_succ_iff_lt_or_eq.mp hj with hj | rfl
    · exact hf j hj
    · exact hd
  | @finish idx _ hm hn =>
    obtain ⟨hidx, hf⟩ := hw idx hm
    rw [hm] at hc hs hp
    refine ⟨⟨b, k, hq, hc, ha⟩, hs, hp, by simp, ?_, by simp⟩
    intro r hr
    cases hr
    refine ⟨?_, rfl⟩
    intro consumer hin
    obtain ⟨j, hj⟩ := mem_iff_getElem?.mp hin
    have hlt : j < s.consumers.length := (List.getElem?_eq_some_iff.mp hj).1
    simp only [started] at hs
    have hd := hf j (by omega)
    rw [hj] at hd
    exact Option.some.inj hd
  | consume hconsumers hconsumer => exact hi.consume hconsumers hconsumer

theorem ConsumerStep.exists_step (c : Callbacks I O A E) (s : BatchShared I E)
    (c' : Consumer I A E) (hf : c'.phase ≠ .finished) (hq : c'.phase = .reading → s.queue ≠ []) :
    ∃ t consumer', ConsumerStep c s c' t consumer' := by
  obtain ⟨phase, acc⟩ := c'
  cases phase with
  | scheduled => exact ⟨_, _, .start⟩
  | reading =>
    obtain ⟨entry, queue, hentry⟩ := exists_cons_of_ne_nil (hq rfl)
    cases entry with
    | none => exact ⟨_, _, .poison hentry⟩
    | some b => exact ⟨_, _, .read hentry⟩
  | processing b rest =>
    cases rest with
    | nil => exact ⟨_, _, .finishBatch⟩
    | cons x rest =>
      cases he : s.tracker.hasException with
      | true => exact ⟨_, _, .stop he⟩
      | false => exact ⟨_, _, .check he⟩
  | calling b x rest =>
    cases hn : c.process x >>= c.aggregate acc with
    | ok acc' => exact ⟨_, _, .aggregate hn⟩
    | error e => exact ⟨_, _, .throw hn⟩
  | throwing b e =>
    cases he : s.tracker.hasException with
    | true => exact ⟨_, _, .ignore he⟩
    | false => exact ⟨_, _, .exchange he⟩
  | recording b e => exact ⟨_, _, .record⟩
  | recycling b => exact ⟨_, _, .recycle⟩
  | posting => exact ⟨_, _, .post⟩
  | finished => exact absurd rfl hf

theorem BatchState.consumer_step (hin : consumer ∈ s.consumers) (hf : consumer.phase ≠ .finished)
    (hq : consumer.phase = .reading → s.shared.queue ≠ []) : ∃ t, BatchStep c e b cs s t := by
  obtain ⟨l₁, l₂, hs⟩ := append_of_mem hin
  obtain ⟨shared, c', hstep⟩ := ConsumerStep.exists_step c s.shared consumer hf hq
  exact ⟨_, .consume hs hstep⟩

theorem BatchState.alive_step (ha : s.alive ≠ 0)
    (hq : s.shared.queue ≠ []) : ∃ t, BatchStep c e b cs s t := by
  obtain ⟨n, hn, hp⟩ := List.sum_pos_iff_exists_pos_nat.mp (Nat.pos_of_ne_zero ha)
  obtain ⟨consumer, hin, rfl⟩ := mem_map.mp hn
  apply BatchState.consumer_step hin _ (fun _ => hq)
  intro hf
  rw [hf] at hp
  exact Nat.lt_irrefl 0 hp

theorem BatchProtocol.progress (hn : 1 ≤ cs) (h : BatchProtocol c cs s) :
    (∃ r, s.main = .returned r) ∨ ∃ t, BatchStep c e' s' cs s t := by
  obtain ⟨⟨batches, k, hq, hc, hall⟩, hs, hproduced, hw, hreturned, hkept⟩ := h
  have hfull : ¬ s.shared.queue.length < kQueueCapacity → s.shared.queue ≠ [] := by
    intro hfull hnil
    have hp : 0 < kQueueCapacity := by decide
    rw [hnil] at hfull
    exact hfull hp
  cases hm : s.main with
  | starting idx f =>
    by_cases hlt : idx < cs
    · exact .inr ⟨_, .add hm hlt⟩
    · exact .inr ⟨_, .added hm hlt⟩
  | writing b =>
    by_cases hr : s.shared.queue.length < kQueueCapacity
    · exact .inr ⟨_, .write hm hr⟩
    · rw [hm] at hc
      simp only [BatchMain.pills, BatchMain.started] at hc
      exact .inr (BatchState.alive_step (by omega) (hfull hr))
  | filling =>
    by_cases hnil : s.remaining = []
    · exact .inr ⟨_, .fillEnd hm hnil⟩
    · exact .inr ⟨_, .fill hm hnil⟩
  | filled b =>
    cases he : s.shared.tracker.hasException with
    | true => exact .inr ⟨_, .stop hm he⟩
    | false => exact .inr ⟨_, .check hm he⟩
  | poisoning left =>
    cases left with
    | zero => exact .inr ⟨_, .poisonEnd hm⟩
    | succ left =>
      by_cases hr : s.shared.queue.length < kQueueCapacity
      · exact .inr ⟨_, .poison hm hr⟩
      · rw [hm] at hc
        simp only [BatchMain.pills, BatchMain.started] at hc
        exact .inr (BatchState.alive_step (by omega) (hfull hr))
  | waiting idx =>
    by_cases hlt : idx < cs
    · rw [hm] at hc hs
      simp only [BatchMain.pills, BatchMain.started] at hc hs
      obtain ⟨consumer, hconsumer⟩ : ∃ consumer, s.consumers[idx]? = some consumer :=
        ⟨_, getElem?_eq_getElem (by omega)⟩
      by_cases ha : s.alive = 0
      · by_cases hf : consumer.phase = .finished
        · refine .inr ⟨_, .wait hm hlt ?_⟩
          rw [hconsumer, Option.map_some, hf]
        · refine .inr (BatchState.consumer_step (mem_of_getElem? hconsumer) hf ?_)
          intro hreading
          have hzero : consumer.phase.alive = 0 := by
            apply List.sum_eq_zero_iff_forall_eq_nat.mp ha
            exact List.mem_map_of_mem (List.mem_of_getElem? hconsumer)
          rw [hreading] at hzero
          cases hzero
      · refine .inr (BatchState.alive_step ha ?_)
        rw [hq]
        intro hnil
        have hk := (replicate_eq_nil_iff _).mp (append_eq_nil_iff.mp hnil).2
        omega
    · exact .inr ⟨_, .finish hm hlt⟩
  | abandoned e => exact absurd hm (hkept e)
  | returned r => exact .inl ⟨r, rfl⟩

end

end Rebalancer
