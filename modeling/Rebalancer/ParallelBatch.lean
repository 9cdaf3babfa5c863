import Rebalancer.ParallelWindow

namespace Rebalancer

def kQueueCapacity : Nat := 4096

def kDefaultBatchSize : Nat := 32

structure BatchingExecutionOptions where
  batchSize : Nat := kDefaultBatchSize
  maxConcurrency : Option Nat := none

structure ExceptionTracker (E : Type) where
  hasException : Bool
  firstException : Option E

namespace ExceptionTracker

def recordException (tracker : ExceptionTracker E) (e : E) : ExceptionTracker E :=
  if tracker.hasException then tracker else ⟨true, some e⟩

end ExceptionTracker

/-- Where a consumer is in `consumeBatches`; it holds the batch it read. -/
inductive ConsumerPhase (I E : Type) where
  /-- the executor has yet to run it -/
  | scheduled
  | reading
  /-- the loop over the batch, with the inputs that are left -/
  | processing (batch rest : List I)
  /-- after the check for an error -/
  | calling (batch : List I) (input : I) (rest : List I)
  /-- before the exchange in `recordException` -/
  | throwing (batch : List I) (e : E)
  /-- after an exchange that set the flag -/
  | recording (batch : List I) (e : E)
  | recycling (batch : List I)
  | posting
  | finished

structure Consumer (I A E : Type) where
  phase : ConsumerPhase I E
  acc : A

/-- What the threads share; a batch without inputs is not a poison pill. -/
structure BatchShared (I E : Type) where
  queue : List (Option (List I))
  freelist : List (List I)
  tracker : ExceptionTracker E
  processed : List I

section
variable {I O A E : Type}

def BatchShared.recycle (batch : List I) (s : BatchShared I E) : BatchShared I E :=
  if s.freelist.length < kQueueCapacity then { s with freelist := s.freelist ++ [batch] } else s

/-- `BatchPool::allocate`: the buffer, which is empty, and what is left of the free list. -/
def BatchShared.allocate (s : BatchShared I E) : List I × BatchShared I E :=
  match s.freelist with
  | _ :: freelist => ([], { s with freelist })
  | [] => ([], s)

inductive ConsumerStep (c : Callbacks I O A E) :
    BatchShared I E → Consumer I A E → BatchShared I E → Consumer I A E → Prop where
  | start : ConsumerStep c s ⟨.scheduled, acc⟩ s ⟨.reading, acc⟩
  | read : s.queue = some batch :: queue →
    ConsumerStep c s ⟨.reading, acc⟩ { s with queue } ⟨.processing batch batch, acc⟩
  | poison : s.queue = none :: queue →
    ConsumerStep c s ⟨.reading, acc⟩ { s with queue } ⟨.posting, acc⟩
  | finishBatch :
    ConsumerStep c s ⟨.processing batch [], acc⟩ s ⟨.recycling batch, acc⟩
  | stop : s.tracker.hasException = true →
    ConsumerStep c s ⟨.processing batch (x :: rest), acc⟩ s ⟨.recycling batch, acc⟩
  | check : s.tracker.hasException = false →
    ConsumerStep c s ⟨.processing batch (x :: rest), acc⟩ s ⟨.calling batch x rest, acc⟩
  | aggregate : c.process x >>= c.aggregate acc = .ok acc' →
    ConsumerStep c s ⟨.calling batch x rest, acc⟩
      { s with processed := s.processed ++ [x] } ⟨.processing batch rest, acc'⟩
  | throw : c.process x >>= c.aggregate acc = .error e →
    ConsumerStep c s ⟨.calling batch x rest, acc⟩
      { s with processed := s.processed ++ [x] } ⟨.throwing batch e, acc⟩
  | exchange : s.tracker.hasException = false →
    ConsumerStep c s ⟨.throwing batch e, acc⟩
      { s with tracker := { s.tracker with hasException := true } } ⟨.recording batch e, acc⟩
  | ignore : s.tracker.hasException = true →
    ConsumerStep c s ⟨.throwing batch e, acc⟩ s ⟨.recycling batch, acc⟩
  | record :
    ConsumerStep c s ⟨.recording batch e, acc⟩
      { s with tracker := { s.tracker with firstException := some e } } ⟨.recycling batch, acc⟩
  | recycle :
    ConsumerStep c s ⟨.recycling batch, acc⟩ (s.recycle batch) ⟨.reading, acc⟩
  | post : ConsumerStep c s ⟨.posting, acc⟩ s ⟨.finished, acc⟩

inductive BatchMain (I A E : Type) where
  /-- the loop that adds the consumers, with the first batch at hand -/
  | starting (idx : Nat) (firstBatch : List I)
  /-- before a blocking write of a batch -/
  | writing (batch : List I)
  /-- the head of the loop over the inputs -/
  | filling
  /-- before the check for an error -/
  | filled (batch : List I)
  /-- the loop that writes the poison pills, with how many are left -/
  | poisoning (left : Nat)
  /-- the loop that waits for the consumers -/
  | waiting (idx : Nat)
  /-- left without waiting for the consumers -/
  | abandoned (e : E)
  | returned (r : Except E A)

structure BatchState (I A E : Type) where
  main : BatchMain I A E
  /-- the inputs of `[it, end)` -/
  remaining : List I
  shared : BatchShared I E
  consumers : List (Consumer I A E)

/-- The aggregation of the accumulators, and `rethrowIfException`. -/
def BatchState.outcome (c : Callbacks I O A E) (s : BatchState I A E) : Except E A :=
  let result := (s.consumers.map Consumer.acc).foldlM c.aggregateSlot c.initial
  let tracker :=
    match result with
    | .ok _ => s.shared.tracker
    | .error e => s.shared.tracker.recordException e
  match tracker.firstException with
  | some e => .error e
  | none => result

inductive BatchStep (c : Callbacks I O A E) (executor : Executor E)
    (batchSize numConsumers : Nat) : BatchState I A E → BatchState I A E → Prop where
  | add : s.main = .starting idx firstBatch → idx < numConsumers →
    BatchStep c executor batchSize numConsumers s
      { s with
        main := .starting (idx + 1) firstBatch
        consumers := s.consumers ++ [⟨.scheduled, c.initial⟩] }
  | addReject : s.main = .starting idx firstBatch → idx < numConsumers → executor.rejects e →
    BatchStep c executor batchSize numConsumers s { s with main := .abandoned e }
  | added : s.main = .starting idx firstBatch → ¬ idx < numConsumers →
    BatchStep c executor batchSize numConsumers s { s with main := .writing firstBatch }
  | write : s.main = .writing batch → s.shared.queue.length < kQueueCapacity →
    BatchStep c executor batchSize numConsumers s
      { s with
        main := .filling
        shared := { s.shared with queue := s.shared.queue ++ [some batch] } }
  | fill : s.main = .filling → s.remaining ≠ [] →
    BatchStep c executor batchSize numConsumers s
      { s with
        main := .filled (s.shared.allocate.1 ++ s.remaining.take batchSize)
        remaining := s.remaining.drop batchSize
        shared := s.shared.allocate.2 }
  | stop : s.main = .filled batch → s.shared.tracker.hasException = true →
    BatchStep c executor batchSize numConsumers s { s with main := .poisoning numConsumers }
  | check : s.main = .filled batch → s.shared.tracker.hasException = false →
    BatchStep c executor batchSize numConsumers s { s with main := .writing batch }
  | fillEnd : s.main = .filling → s.remaining = [] →
    BatchStep c executor batchSize numConsumers s { s with main := .poisoning numConsumers }
  | poison : s.main = .poisoning (left + 1) → s.shared.queue.length < kQueueCapacity →
    BatchStep c executor batchSize numConsumers s
      { s with
        main := .poisoning left
        shared := { s.shared with queue := s.shared.queue ++ [none] } }
  | poisonEnd : s.main = .poisoning 0 →
    BatchStep c executor batchSize numConsumers s { s with main := .waiting 0 }
  | wait : s.main = .waiting idx → idx < numConsumers →
    s.consumers[idx]?.map Consumer.phase = some .finished →
    BatchStep c executor batchSize numConsumers s { s with main := .waiting (idx + 1) }
  | finish : s.main = .waiting idx → ¬ idx < numConsumers →
    BatchStep c executor batchSize numConsumers s { s with main := .returned (s.outcome c) }
  | consume : s.consumers = l₁ ++ consumer :: l₂ →
    ConsumerStep c s.shared consumer shared consumer' →
    BatchStep c executor batchSize numConsumers s
      { s with shared, consumers := l₁ ++ consumer' :: l₂ }

def BatchState.active (s : BatchState I A E) : Nat := s.consumers.countP fun consumer =>
    match consumer.phase with
    | .finished => false
    | _ => true

/-- A call that fits in one batch runs on a sliding window. -/
inductive BatchCallState (I O A E : Type) where
  | returned (r : Except E A)
  | window (s : WindowState I O A E)
  | batches (s : BatchState I A E)

inductive BatchCallStep (c : Callbacks I O A E) (executor : Executor E)
    (batchSize numConsumers windowSize : Nat) :
    BatchCallState I O A E → BatchCallState I O A E → Prop where
  | window : WindowStep c executor windowSize s t →
    BatchCallStep c executor batchSize numConsumers windowSize (.window s) (.window t)
  | batches : BatchStep c executor batchSize numConsumers s t →
    BatchCallStep c executor batchSize numConsumers windowSize (.batches s) (.batches t)

def BatchingExecutionOptions.numConsumers (executor : Executor E)
    (config : BatchingExecutionOptions) : Nat :=
  min (max 1 executor.numThreads) (config.maxConcurrency.getD (max 1 executor.numThreads))

variable (c : Callbacks I O A E) (executor : Executor E) (invalidArgument : String → E)
  (config : BatchingExecutionOptions) (inputs : List I)

/-- Where `executeParallelBatch` starts; `invalidArgument` is the exception with a message. -/
def startBatch : BatchCallState I O A E :=
  if inputs.isEmpty then .returned (.ok c.initial)
  else if config.batchSize = 0 then
    .returned (.error (invalidArgument "batchSize must be greater than 0"))
  else if config.maxConcurrency = some 0 then
    .returned (.error (invalidArgument "maxConcurrency must be greater than 0"))
  else
    let firstBatch := inputs.take config.batchSize
    let remaining := inputs.drop config.batchSize
    if firstBatch.isEmpty then .returned (.ok c.initial)
    else if remaining.isEmpty then
      .window (executeParallelWindow c executor
        (min firstBatch.length (config.numConsumers executor)) firstBatch).start
    else .batches ⟨.starting 0 firstBatch, remaining, ⟨[], [], ⟨false, none⟩, []⟩, []⟩

def executeParallelBatch : Call I A E where
  State := BatchCallState I O A E
  start := startBatch c executor invalidArgument config inputs
  Step := BatchCallStep c executor config.batchSize (config.numConsumers executor)
    (min (inputs.take config.batchSize).length (config.numConsumers executor))
  returned
    | .returned r => some r
    | .window s =>
      match s.main with
      | .returned r => some r
      | _ => none
    | .batches s =>
      match s.main with
      | .returned r => some r
      | .abandoned e => some (.error e)
      | _ => none
  processed
    | .returned _ => []
    | .window s => s.processed
    | .batches s => s.shared.processed
  active
    | .returned _ => 0
    | .window s => s.tasks.length + s.computed.length
    | .batches s => s.active

end

end Rebalancer
