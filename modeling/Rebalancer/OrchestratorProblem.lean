import Rebalancer.ApplySequence
import Rebalancer.LocalSearch
import Rebalancer.TrafficShares
import Rebalancer.TryApply

namespace Rebalancer
open MovesEvaluator Orchestrator

structure ProblemSpec (ν : Type) where
  precision : PrecisionTolerances
  constraints : List ν
  objective : GlobalObjective ν
  penaltyObjective : GlobalObjective ν
  zero : ν
  validateAppliedMoves : Bool

namespace Orchestrator
variable {ν T σ : Type} [DecidableEq ν]

/-- The state is the assignment together with the stored states of the nodes. -/
def toProblem (o : Orchestrator ν) (spec : ProblemSpec ν)
    (exprs : (ν → σ) → Expressions ν ℚ T) (applyExprs : ApplyExpressions ν ℚ T σ Assignment) :
    Problem ν (Assignment × (ν → σ)) (Context ν ℚ T) where
  precision := spec.precision
  constraints := spec.constraints
  objective := spec.objective
  penaltyObjective := spec.penaltyObjective
  zero := spec.zero
  validateAppliedMoves := spec.validateAppliedMoves
  assignment s := s.1
  value s n := applyExprs.value (s.2 n)
  newContext changes := .new changes
  evaluate s n ctx := o.evaluate (exprs s.2) n ctx
  partialApply s assignment changes := do
    let st ← o.apply applyExprs assignment (.new changes) s.2
    .ok (assignment, st.store)

/-- A node's index entry, its `evaluate` and its `partialApply` are right about legal moves. -/
structure NodesExact (g : ExpressionGraph ν) (roots : List ν) (data : AffectedByChangeDecisionData)
    (exprs : (ν → σ) → Expressions ν ℚ T) (applyExprs : ApplyExpressions ν ℚ T σ Assignment)
    (innerFullApply : ν → Assignment → List ℚ → ℚ) (Corresponds : Assignment → ν → σ → Prop)
    (tables : Assignment → ChangeSet → ν → Option T) : Prop where
  stored : ∀ store n, (exprs store).value n = applyExprs.value (store n)
  value : ∀ a n, g.Reached roots n → ∀ s, Corresponds a n s →
    applyExprs.value s = fromScratch g innerFullApply a n
  index : ∀ a moves store n, checkMoves a moves = .ok () → g.Reached roots n →
    nodePushes g data moves.getChangeSet n = 0 →
    innerFullApply n (a.applyChanges moves.getChangeSet) ((g.children n).map (exprs store).value) =
      innerFullApply n a ((g.children n).map (exprs store).value)
  evaluates : ∀ a moves store, checkMoves a moves = .ok () →
    (∃ legal, MoveSet.fromChangeSet moves.getChangeSet = .ok legal) →
    (∀ n, g.Reached roots n → Corresponds a n (store n)) → ∀ n, g.Reached roots n →
    Setting.EvaluatesRight ⟨g, data, exprs store, moves.getChangeSet,
      fromScratch g innerFullApply (a.applyChanges moves.getChangeSet),
      tables a moves.getChangeSet⟩ n
  applies : ∀ a moves, checkMoves a moves = .ok () →
    (∃ legal, MoveSet.fromChangeSet moves.getChangeSet = .ok legal) →
    (ApplySetting.ofStep g data applyExprs innerFullApply Corresponds a
      (a.applyChanges moves.getChangeSet) moves.getChangeSet).NodesRight roots

theorem toProblem_exact {rs : List ν} (hi : init g rs data fs = .ok o)
    {es : ApplyExpressions ν ℚ T σ Assignment} (h : NodesExact g rs data exprs es i cs ts)
    (spec : ProblemSpec ν) (ns : List ν) (hno : ∀ n ∈ ns, g.Reached rs n) :
    (o.toProblem spec exprs es).Exact ns (fromScratch g i)
      (fun s => ∀ n, g.Reached rs n → cs s.1 n (s.2 n)) := by
  have hs := init_sound hi
  refine ⟨?_, ?_, ?_⟩
  · intro s hs n hn
    exact h.value s.1 n (hno n hn) _ (hs n (hno n hn))
  · rintro ⟨a, store⟩ hcorr moves hcheck hl
    let S : Setting ν ℚ T := ⟨g, data, exprs store, moves.getChangeSet,
      fromScratch g i (a.applyChanges moves.getChangeSet),
      ts a moves.getChangeSet⟩
    have hvalue : ∀ n, g.Reached rs n → (exprs store).value n = fromScratch g i a n := by
      intro n hn
      rw [h.stored]
      exact h.value a n hn _ (hcorr n hn)
    refine ⟨S.Between o, Setting.Inv.new S o, ?_⟩
    intro n hn ctx hb
    refine evaluate_spec (S := S) hs ?_ ?_ ((mem_postOrder_iff hi).mpr (hno n hn)) hb
    · intro m hm hch
      have hr := (mem_postOrder_iff hi).mp hm
      refine queueable_of_changed rfl (hvalue m hr) ?_ (h.index a moves store m hcheck hr) hch
      intro c hc
      exact hvalue c ((mem_postOrder_iff hi).mp (hs.child m hm c hc).1)
    · intro m hm
      exact h.evaluates a moves store hcheck hl hcorr m ((mem_postOrder_iff hi).mp hm)
  · rintro ⟨a, store⟩ hcorr moves s' hcheck hl ha
    obtain ⟨st, hrun, hnew, -⟩ := apply_step hi h.value (h.applies a moves hcheck hl) hcorr
    obtain ⟨st', hr', ha⟩ := except_bind_ok ha
    cases ha
    obtain rfl := Except.ok.inj (hrun.symm.trans hr')
    exact ⟨hnew, rfl⟩

/-- Every assignment that the local search visits over expressions that an orchestrator keeps: its
from-scratch values are the stored ones, satisfy the constraints and have a better stage tuple. -/
theorem search_eq_fromScratch {rs : List ν} (hi : init g rs data fs = .ok o)
    {es : ApplyExpressions ν ℚ T σ Assignment} (h : NodesExact g rs data exprs es i cs ts)
    (spec : ProblemSpec ν) (hnew : new (o.toProblem spec exprs es) b e w = .ok evaluator)
    (hno : ∀ n ∈ evaluator.nodes (o.toProblem spec exprs es), g.Reached rs n)
    (ht : 0 < spec.precision.absolute) {s : Assignment × (ν → σ)}
    (hs : ∀ n, g.Reached rs n → cs s.1 n (s.2 n)) {hash : Move → Nat}
    (hrun : evaluator.search (o.toProblem spec exprs es) hash proposals s = .ok visited) :
    (∀ s' ∈ visited, (∀ n, g.Reached rs n → es.value (s'.2 n) = fromScratch g i s'.1 n) ∧
      ∀ c ∈ spec.constraints, spec.precision.isStrictlyGtZero (fromScratch g i s'.1 c) = false) ∧
    List.IsChain (fun s s' => compareValues (evaluator.stageTuple (fromScratch g i s'.1))
      (evaluator.stageTuple (fromScratch g i s.1)) = .lt) (s :: visited) := by
  have hexact := toProblem_exact hi h spec _ hno
  obtain ⟨hr, hchain⟩ := search_spec (new_proper hnew) hexact proposals s visited hs hrun
  have hv : ∀ x ∈ s :: visited, ∀ n, g.Reached rs n → es.value (x.2 n) = fromScratch g i x.1 n :=
    fun x hx n hn => h.value x.1 n hn _ (List.forall_mem_cons.mpr ⟨hs, hr⟩ x hx n hn)
  refine ⟨?_, ?_⟩
  · intro s' hs'
    refine ⟨hv s' (List.mem_cons_of_mem s hs'), ?_⟩
    intro c hc
    obtain ⟨x, hx⟩ := exists_step_of_isChain visited s hchain s' hs'
    rw [← hv s' (List.mem_cons_of_mem s hs') c (hno c (by simp [nodes, toProblem, hc]))]
    exact hx.accepts.constraints hc
  · have htuple : ∀ x ∈ s :: visited, evaluator.stageTuple (fromScratch g i x.1) =
        evaluator.stageTuple fun n => es.value (x.2 n) :=
      fun x hx => stageTuple_congr _ fun n hn => (hv x hx n (hno n hn)).symm
    refine (List.IsChain.iff_mem.mp hchain).imp ?_
    rintro x y ⟨hx, hy, hxy⟩
    rw [htuple x hx, htuple y hy]
    exact hxy.accepts.tuple_lt ht

end Orchestrator

def sevenExpressions (store : Fin 1 → Assignment) : Expressions (Fin 1) ℚ Unit where
  value n := store n 7
  evaluate n _ changes := ((store n).applyChanges changes 7, [])

def sevenApply : ApplyExpressions (Fin 1) ℚ Unit Assignment Assignment where
  value a := a 7
  partialApply _ _ a _ _ := (a 7, fun _ => a)
  nested _ := []

def sevenSpec : ProblemSpec (Fin 1) := ⟨defaultTolerances, [], ⟨[0]⟩, ⟨[]⟩, 0, false⟩

theorem zeroOnOne_pushed (cs : ChangeSet) (n : Fin 1) :
    0 < nodePushes zeroOnOneGraph data cs n := by
  change 0 < if shouldDedupeLeaves (some cs) then min 1 1 else 1
  split <;> decide

theorem seven_nodesExact : NodesExact zeroOnOneGraph [0] ⟨9, 3⟩ sevenExpressions sevenApply
    (fun _ a _ => a 7) (fun a _ s => s = a) (fun _ _ _ => none) where
  stored _ _ := rfl
  value _ _ _ _ h := h ▸ rfl
  index _ _ _ n _ _ h := absurd h (zeroOnOne_pushed _ n).ne'
  evaluates a moves store _ _ h n hn _ _ := by
    refine ⟨?_, ?_, ?_⟩
    · rw [← h n hn]
      rfl
    · rintro _ ⟨⟩
    · rintro _ ⟨⟩
  applies a moves _ _ := by
    refine ⟨?_, ?_, ?_⟩
    · intro n _ hno
      exact absurd (.inl (zeroOnOne_pushed _ n)) hno
    · intro n _ view store _ _
      refine ⟨rfl, rfl, ?_⟩
      intro m hm
      exact absurd (Subsingleton.elim m n) hm
    · intro n _ _ view store _ hs
      refine Prod.ext rfl (funext fun m => ?_)
      rw [Subsingleton.elim m n]
      exact hs.symm

def sevenSearch : Except String (List (Assignment × (Fin 1 → Assignment))) := do
  let o ← init zeroOnOneGraph [0] ⟨9, 3⟩ .empty
  let problem := o.toProblem sevenSpec sevenExpressions sevenApply
  let evaluator ← new problem 0 1 fun _ => none
  evaluator.search problem pairHash [[[[⟨7, 4, 9⟩], [⟨7, 4, 1⟩]]], [[[⟨7, 1, 4⟩]]]]
    (fun _ => 4, fun _ _ => 4)

theorem sevenSearch_eq_fromScratch : ∃ visited, sevenSearch = .ok visited ∧
    visited.map (fun s => s.1 7) = [1] ∧ ∀ s ∈ visited, sevenApply.value (s.2 0) = s.1 7 := by
  have hf : sevenSearch.toOption.map (List.map fun s => s.1 7) = some [1] := by decide +kernel
  have hreached : ∀ n, zeroOnOneGraph.Reached [0] n := fun n => ⟨n, by revert n; decide, .refl⟩
  cases hr : sevenSearch with
  | error e =>
    rw [hr] at hf
    cases hf
  | ok visited =>
    rw [hr] at hf
    refine ⟨visited, rfl, Option.some.inj hf, ?_⟩
    obtain ⟨o, ho, hr⟩ := except_bind_ok hr
    obtain ⟨evaluator, hn, hr⟩ := except_bind_ok hr
    intro s hs
    exact ((search_eq_fromScratch ho seven_nodesExact sevenSpec hn (fun n _ => hreached n)
      (by decide +kernel) (fun _ _ => rfl) hr).1 s hs).1 0 (hreached 0)

def TrafficTableWithStats.getWeightedAvgLatency (table : TrafficTableWithStats) :
    Except String ℚ := do
  table.throwIfTotalTrafficFromAllOriginsIsNot1
  .ok table.latencyStats.weightedAvgLatency

/-- `evaluate` saves a traffic table in the context when a change is relevant to the ring. -/
def GroupRoutingRing.evaluate (ring : GroupRoutingRing) (changes : ChangeSet) (st : RingState) :
    Option (Except String TrafficTableWithStats) :=
  if changes.changes.all fun change => ring.relevantScopeItem change = none then none
  else some (ring.innerPartialApply changes st).trafficTableWithStats

namespace GroupRoutingLatencyLookup

/-- The metric `AVG`. In an embedding of nodes that do not throw a missing value is zero. -/
def aggregateLatency (table : Except String TrafficTableWithStats) : ℚ :=
  (table.bind TrafficTableWithStats.getWeightedAvgLatency).toOption.getD 0

def ringTable : RingNodeState ℚ → Except String TrafficTableWithStats
  | .ring st => st.trafficTableWithStats
  | .other _ => .error "not a routing ring"

/-- Node 1 looks up the latency of the ring at node 0. -/
def graph (ring : GroupRoutingRing) : ExpressionGraph (Fin 2) where
  children n := if n = 1 then [0] else []
  children_nodup := by decide
  depth := Fin.val
  depth_lt := by decide
  isAffectedByChange data _ := ring.isAffectedByChange data
  directlyAffectedContainers _ := some ring.directlyAffectedContainers

def lookupApply : ApplyExpressions (Fin 2) ℚ (Except String TrafficTableWithStats)
    (RingNodeState ℚ) Assignment where
  value
    | .ring _ => 0
    | .other latency => latency
  partialApply n _ _ _ store :=
    let latency := aggregateLatency (ringTable (store 0))
    (latency, fun m => if m = n then .other latency else store m)
  nested _ := []

def expressions (ring : GroupRoutingRing) (store : Fin 2 → RingNodeState ℚ) :
    Expressions (Fin 2) ℚ (Except String TrafficTableWithStats) where
  value n := lookupApply.value (store n)
  evaluate n view changes :=
    match store n with
    | .ring st => (0, ((ring.evaluate changes st).map fun table => (n, table)).toList)
    | .other latency =>
      match view.tempTrafficTable 0 with
      | none => (latency, [])
      | some table => (aggregateLatency table, [])

end GroupRoutingLatencyLookup

open GroupRoutingLatencyLookup

/-- Each of the two origins is near one of the items 10 and 20 and falls back to the other. -/
def farItemRouting : RoutingConfig :=
  { twoItemRouting with
    routingRings := [⟨10, 1, some [[10], [20]]⟩, ⟨20, 1, some [[20], [10]]⟩]
    latencyTable := fun origin => some fun d => some (if d = origin then 1 else 5) }

def farItemSpec : ProblemSpec (Fin 2) := ⟨defaultTolerances, [], ⟨[1]⟩, ⟨[]⟩, 0, false⟩

/-- The states before and after two iterations that propose one move each. -/
def farItemSearch : Except String (List (Assignment × (Fin 2 → RingNodeState ℚ))) := do
  let ring ← GroupRoutingRing.new farItemRouting ⟨[5, 6], by decide⟩
  let o ← init (graph ring) [1] ⟨9, 3⟩ .empty
  let problem := o.toProblem farItemSpec (expressions ring) (withRing ring 0 lookupApply)
  let evaluator ← MovesEvaluator.new problem 0 1 fun _ => none
  let st := ring.applyAssignment (onContainer 0)
  let start := (onContainer 0, fun n : Fin 2 =>
    if n = 0 then .ring st else .other (aggregateLatency st.trafficTableWithStats))
  let visited ← evaluator.search problem pairHash [[[[⟨5, 0, 1⟩]]], [[[⟨5, 1, 0⟩]]]] start
  .ok (start :: visited)

/-- Both moves are accepted: each is evaluated with one object on either item, but on apply the
ring counts it twice. The latency stays at 3, and the second move leads back. -/
theorem farItemSearch_revisits :
    farItemSearch.toOption.map
    (List.map fun s => ((List.range 9).map s.1, lookupApply.value (s.2 1))) =
      some [([0, 0, 0, 0, 0, 0, 0, 0, 0], 3), ([0, 0, 0, 0, 0, 1, 0, 0, 0], 3),
        ([0, 0, 0, 0, 0, 0, 0, 0, 0], 3)] := by
  decide +kernel

end Rebalancer
