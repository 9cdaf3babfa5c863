import Rebalancer.ParallelBatch

namespace Rebalancer
open List Option BatchState

section
variable {I O A E : Type}

def ConsumerPhase.work : ConsumerPhase I E → Nat
  | .scheduled => 3
  | .reading => 2
  | .processing _ rest => 4 + 3 * rest.length
  | .calling _ _ rest => 6 + 3 * rest.length
  | .throwing _ _ => 5
  | .recording _ _ => 4
  | .recycling _ => 3
  | .posting => 1
  | .finished => 0

def BatchShared.work (s : BatchShared I E) : Nat :=
  (s.queue.map fun entry => (entry.map fun batch => 3 + 3 * batch.length).getD 1).sum

def BatchMain.work (numConsumers : Nat) : BatchMain I A E → Nat
  | .starting idx batch => 4 * (numConsumers - idx) + 3 * batch.length + 3 * numConsumers + 8
  | .writing batch => 3 * batch.length + 3 * numConsumers + 7
  | .filling => 3 * numConsumers + 3
  | .filled batch => 3 * batch.length + 3 * numConsumers + 8
  | .poisoning left => 2 * left + numConsumers + 2
  | .waiting idx => numConsumers - idx + 1
  | .abandoned _ => 0
  | .returned _ => 0

def BatchState.work (numConsumers : Nat) (s : BatchState I A E) : Nat :=
  9 * s.remaining.length + s.main.work numConsumers + s.shared.work +
    (s.consumers.map fun consumer => consumer.phase.work).sum

@[simp] theorem BatchShared.work_recycle (b : List I) (s : BatchShared I E) :
    (s.recycle b).work = s.work := by
  rw [recycle]
  split
  · rfl
  · rfl

theorem BatchShared.allocate_eq (s : BatchShared I E) :
    ∃ freelist, s.allocate = ([], { s with freelist }) := by
  rw [allocate]
  split
  · exact ⟨_, rfl⟩
  · exact ⟨s.freelist, rfl⟩

theorem ConsumerStep.lowers (h : ConsumerStep c s consumer t c') :
    t.work + c'.phase.work < s.work + consumer.phase.work := by
  cases h with
  | start => exact Nat.add_lt_add_left (Nat.lt_succ_self 2) _
  | read hq =>
    simp only [BatchShared.work, ConsumerPhase.work, hq, map_cons, sum_cons, map_some, getD_some]
    omega
  | poison hq =>
    simp only [BatchShared.work, ConsumerPhase.work, hq, map_cons, sum_cons, map_none, getD_none]
    omega
  | finishBatch => exact Nat.add_lt_add_left (Nat.lt_succ_self 3) _
  | stop _ =>
    simp only [ConsumerPhase.work, length_cons]
    omega
  | check _ =>
    simp only [ConsumerPhase.work, length_cons]
    omega
  | aggregate _ =>
    simp only [BatchShared.work, ConsumerPhase.work]
    omega
  | throw _ =>
    simp only [BatchShared.work, ConsumerPhase.work]
    omega
  | exchange _ => exact Nat.add_lt_add_left (Nat.lt_succ_self 4) _
  | ignore _ =>
    simp only [ConsumerPhase.work]
    omega
  | record => exact Nat.add_lt_add_left (Nat.lt_succ_self 3) _
  | recycle =>
    rw [BatchShared.work_recycle]
    exact Nat.add_lt_add_left (Nat.lt_succ_self 2) _
  | post => exact Nat.add_lt_add_left (Nat.lt_succ_self 0) _

theorem BatchStep.lowers (hb : 1 ≤ b) (h : BatchStep c e b numConsumers s t) :
    t.work numConsumers < s.work numConsumers := by
  cases h with
  | add hm hlt =>
    simp only [work, BatchMain.work, hm, map_append, sum_append,
      map_cons, map_nil, sum_cons, sum_nil, ConsumerPhase.work]
    omega
  | addReject hm _ _ =>
    simp only [work, BatchMain.work, hm]
    omega
  | added hm _ =>
    simp only [work, BatchMain.work, hm]
    omega
  | write hm _ =>
    simp only [work, BatchMain.work, BatchShared.work, hm, map_append,
      sum_append, map_cons, map_nil, sum_cons, sum_nil, map_some,
      getD_some]
    omega
  | fill hm hne =>
    obtain ⟨f, ha⟩ := s.shared.allocate_eq
    have hl := length_pos_of_ne_nil hne
    simp only [work, BatchMain.work, BatchShared.work, hm, ha, nil_append, length_take, length_drop]
    omega
  | stop hm _ =>
    simp only [work, BatchMain.work, hm]
    omega
  | check hm _ =>
    simp only [work, BatchMain.work, hm]
    omega
  | fillEnd hm _ =>
    simp only [work, BatchMain.work, hm]
    omega
  | poison hm _ =>
    simp only [work, BatchMain.work, BatchShared.work, hm, map_append,
      sum_append, map_cons, map_nil, sum_cons, sum_nil, map_none,
      getD_none]
    omega
  | poisonEnd hm =>
    simp only [work, BatchMain.work, hm]
    omega
  | wait hm hlt _ =>
    simp only [work, BatchMain.work, hm]
    omega
  | finish hm hn =>
    simp only [work, BatchMain.work, hm]
    omega
  | consume hc hs =>
    have hlower := hs.lowers
    simp only [work, hc, map_append, sum_append, map_cons, sum_cons]
    omega

end

end Rebalancer
