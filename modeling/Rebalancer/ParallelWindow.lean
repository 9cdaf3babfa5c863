import Rebalancer.ExceptLoops
import Rebalancer.Interleaving

namespace Rebalancer
open List Relation

/-- What a parallel call is given: `aggregateSlot` is `aggregate` called with an accumulator. -/
structure Callbacks (I O A E : Type) where
  process : I → Except E O
  /-- what `initialize` returns -/
  initial : A
  aggregate : A → O → Except E A
  aggregateSlot : A → A → Except E A

/-- An executor runs every task that it accepts; `rejects` has what `add` may throw. -/
structure Executor (E : Type) where
  numThreads : Nat
  rejects : E → Prop

section
variable {I O A E : Type}

def Callbacks.sequential (c : Callbacks I O A E) (inputs : List I) : Except E A :=
  inputs.foldlM (fun result input => c.process input >>= c.aggregate result) c.initial

structure Call (I A E : Type) where
  State : Type
  start : State
  Step : State → State → Prop
  returned : State → Option (Except E A)
  /-- the inputs for which `process` was called -/
  processed : State → List I
  /-- how many tasks were scheduled and have not finished -/
  active : State → Nat

/-- Every interleaving returns, after all tasks, what the sequential fold returns or `process`
threw. -/
structure Call.Correct (call : Call I A E) (c : Callbacks I O A E) (inputs : List I) : Prop where
  returns : Inevitable call.Step (fun s => (call.returned s).isSome = true) call.start
  drained : ∀ s r, ReflTransGen call.Step call.start s → call.returned s = some r →
    call.active s = 0
  once : ∀ s, ReflTransGen call.Step call.start s → (call.processed s).Subperm inputs
  result : ∀ s r, ReflTransGen call.Step call.start s → call.returned s = some r →
    (∀ x ∈ inputs, ∃ o, c.process x = .ok o) →
    (call.processed s).Perm inputs ∧ r = c.sequential inputs
  rethrown : ∀ s r, ReflTransGen call.Step call.start s → call.returned s = some r →
    (∃ x ∈ inputs, ∃ e, c.process x = .error e) →
    ∃ x ∈ call.processed s, ∃ e, c.process x = .error e ∧ r = .error e

/-- The aggregation does not throw and does not depend on the order or grouping of the outputs. -/
structure Callbacks.Lawful (c : Callbacks I O A E) (f : A → O → A) (g : A → A → A) : Prop where
  aggregate_eq : ∀ a o, c.aggregate a o = .ok (f a o)
  aggregateSlot_eq : ∀ a b, c.aggregateSlot a b = .ok (g a b)
  comm : ∀ a x y, f (f a x) y = f (f a y) x
  slot_initial : g c.initial c.initial = c.initial
  slot_left : ∀ a b x, g (f a x) b = f (g a b) x
  slot_right : ∀ a b x, g a (f b x) = f (g a b) x

inductive WindowMain (A E : Type) where
  /-- the loop for a window of one -/
  | sequential
  /-- the loop that fills the window -/
  | scheduling (i : Nat)
  /-- the head of the loop that reads the outputs -/
  | reading
  /-- the end of the body of that loop -/
  | refilling
  | returned (r : Except E A)

structure WindowState (I O A E : Type) where
  main : WindowMain A E
  /-- the inputs of `[first, last)` -/
  remaining : List I
  pending : Nat
  exception : Option E
  result : A
  /-- the tasks that the executor has yet to run -/
  tasks : List I
  /-- the outputs that tasks have yet to write -/
  computed : List (Except E O)
  outputs : List (Except E O)
  processed : List I

namespace WindowState

def consume (c : Callbacks I O A E) (output : Except E O) (s : WindowState I O A E) :
    WindowState I O A E :=
  match s.exception with
  | some _ => s
  | none =>
    match output >>= c.aggregate s.result with
    | .ok result => { s with result }
    | .error e => { s with exception := some e }

def newWorker (input : I) (remaining : List I) (s : WindowState I O A E) : WindowState I O A E :=
  { s with remaining, tasks := s.tasks ++ [input], pending := s.pending + 1 }

def outcome (s : WindowState I O A E) : Except E A :=
  match s.exception with
  | some e => .error e
  | none => .ok s.result

end WindowState

inductive WindowStep (c : Callbacks I O A E) (executor : Executor E) (windowSize : Nat) :
    WindowState I O A E → WindowState I O A E → Prop where
  | sequential : s.main = .sequential → s.remaining = x :: xs →
    c.process x >>= c.aggregate s.result = .ok a →
    WindowStep c executor windowSize s
      { s with remaining := xs, result := a, processed := s.processed ++ [x] }
  | sequentialThrow : s.main = .sequential → s.remaining = x :: xs →
    c.process x >>= c.aggregate s.result = .error e →
    WindowStep c executor windowSize s
      { s with
        main := .returned (.error e)
        remaining := xs
        exception := some e
        processed := s.processed ++ [x] }
  | sequentialEnd : s.main = .sequential → s.remaining = [] →
    WindowStep c executor windowSize s { s with main := .returned (.ok s.result) }
  | schedule : s.main = .scheduling i → i < windowSize → s.remaining = x :: xs →
    WindowStep c executor windowSize s { s.newWorker x xs with main := .scheduling (i + 1) }
  | scheduleReject : s.main = .scheduling i → i < windowSize → s.remaining = x :: xs →
    executor.rejects e →
    WindowStep c executor windowSize s { s with main := .reading, exception := some e }
  | scheduled : s.main = .scheduling i → (i < windowSize → s.remaining = []) →
    WindowStep c executor windowSize s { s with main := .reading }
  | call : s.tasks = l₁ ++ x :: l₂ →
    WindowStep c executor windowSize s
      { s with
        tasks := l₁ ++ l₂
        computed := c.process x :: s.computed
        processed := s.processed ++ [x] }
  | write : s.computed = l₁ ++ output :: l₂ → s.outputs.length < windowSize →
    WindowStep c executor windowSize s
      { s with computed := l₁ ++ l₂, outputs := s.outputs ++ [output] }
  | read : s.main = .reading → s.pending ≠ 0 → s.outputs = output :: outputs →
    WindowStep c executor windowSize s
      (WindowState.consume c output
        { s with main := .refilling, pending := s.pending - 1, outputs })
  | refill : s.main = .refilling → s.exception = none → s.remaining = x :: xs →
    WindowStep c executor windowSize s { s.newWorker x xs with main := .reading }
  | refillReject : s.main = .refilling → s.exception = none → s.remaining = x :: xs →
    executor.rejects e →
    WindowStep c executor windowSize s { s with main := .reading, exception := some e }
  | refilled : s.main = .refilling → (s.exception = none → s.remaining = []) →
    WindowStep c executor windowSize s { s with main := .reading }
  | finish : s.main = .reading → s.pending = 0 →
    WindowStep c executor windowSize s { s with main := .returned s.outcome }

def executeParallelWindow (c : Callbacks I O A E) (executor : Executor E) (windowSize : Nat)
    (inputs : List I) : Call I A E where
  State := WindowState I O A E
  start := ⟨if windowSize = 1 then .sequential else .scheduling 0, inputs, 0, none, c.initial, [],
    [], [], []⟩
  Step := WindowStep c executor windowSize
  returned s :=
    match s.main with
    | .returned r => some r
    | _ => none
  processed := WindowState.processed
  active s := s.tasks.length + s.computed.length

def WindowState.work (s : WindowState I O A E) : Nat :=
  6 * s.remaining.length + 4 * s.tasks.length + 3 * s.computed.length + 2 * s.outputs.length +
    match s.main with
    | .sequential => 1
    | .scheduling _ => 3
    | .refilling => 2
    | .reading => 1
    | .returned _ => 0

theorem WindowState.consume_work (c : Callbacks I O A E) (o : Except E O)
    (s : WindowState I O A E) : (consume c o s).work = s.work := by
  rw [consume]
  split
  · rfl
  · split
    · rfl
    · rfl

theorem WindowStep.lowers (h : WindowStep c e w s t) : t.work < s.work := by
  cases h with
  | sequential hm hr _ =>
    simp only [WindowState.work, hm, hr, length_cons]
    omega
  | sequentialThrow hm hr _ =>
    simp only [WindowState.work, hm, hr, length_cons]
    omega
  | sequentialEnd hm hr =>
    simp only [WindowState.work, hm, hr, length_nil]
    omega
  | schedule hm _ hr =>
    simp only [WindowState.work, WindowState.newWorker, hm, hr, length_cons,
      length_append, length_nil]
    omega
  | scheduleReject hm _ _ _ =>
    simp only [WindowState.work, hm]
    omega
  | scheduled hm _ =>
    simp only [WindowState.work, hm]
    omega
  | call ht =>
    simp only [WindowState.work, ht, length_cons, length_append]
    omega
  | write hc _ =>
    simp only [WindowState.work, hc, length_cons, length_append, length_nil]
    omega
  | read hm _ ho =>
    rw [WindowState.consume_work]
    simp only [WindowState.work, hm, ho, length_cons]
    omega
  | refill hm _ hr =>
    simp only [WindowState.work, WindowState.newWorker, hm, hr, length_cons,
      length_append, length_nil]
    omega
  | refillReject hm _ _ _ =>
    simp only [WindowState.work, hm]
    omega
  | refilled hm _ =>
    simp only [WindowState.work, hm]
    omega
  | finish hm _ =>
    simp only [WindowState.work, hm]
    omega

end

end Rebalancer
