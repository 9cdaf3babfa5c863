import Rebalancer.ExceptLoops

namespace Rebalancer
open Option Nat Int List

/-- The size of the move set that `improveHotContainer` applied, and what the checks after it find.
-/
structure HotContainerPass where
  applied : Option Nat
  atGlobalOptimum : Bool
  outOfTime : Bool

def shouldTerminate (stopAfterMoves : Option Int) (totalMoves : Nat) (outOfTime : Bool) : Bool :=
  outOfTime || match stopAfterMoves with
  | some limit => decide (limit ≤ totalMoves)
  | none => false

def runPasses (stopAfterMoves : Option Int) : Nat → List HotContainerPass → List Nat
  | _, [] => []
  | totalMoves, pass :: passes =>
    let total := totalMoves + pass.applied.toList.sum
    if pass.atGlobalOptimum || shouldTerminate stopAfterMoves total pass.outOfTime then
      pass.applied.toList
    else pass.applied.toList ++ runPasses stopAfterMoves total passes

structure StageRun where
  atGlobalOptimum : Bool
  outOfTime : Bool
  passes : List HotContainerPass

def coreSolve (stopAfterMoves : Option Int) (run : StageRun) : List Nat :=
  if run.atGlobalOptimum || shouldTerminate stopAfterMoves 0 run.outOfTime then []
  else runPasses stopAfterMoves 0 run.passes

structure LocalSearchStageSpec where
  stopAfterMoves : Option Int
  stopAfterMovesTillStage : Option Int

structure MultiStageConfig where
  stageIds : List Int
  moveLimit : Option Int
  nodup : stageIds.Nodup

structure LocalSearchStageSolverSpec where
  stageSpecs : List LocalSearchStageSpec
  stopAfterMoves : Option Int
  multiStageConfigs : List MultiStageConfig

/-- The moves that a listed stage adds; a stage without move statistics is `none`. -/
def movesUsedSoFar (stageSummaries : List (Option Nat)) (stageId : Nat) (stage : Int) :
    Except String Nat :=
  if stage < stageId then
    if stage < 0 then .error "out_of_range" else
    match stageSummaries[stage.toNat]? with
    | some (some numMoves) => .ok numMoves
    | _ => .error s!"Stage {stage} does not have move stats set"
  else .ok 0

def getTotalMovesUsedSoFar (stageSummaries : List (Option Nat)) (stageId : Nat) :
    List Int → Except String Int
  | [] => .ok 0
  | stage :: stageList => do
    let numMoves ← movesUsedSoFar stageSummaries stageId stage
    let total ← getTotalMovesUsedSoFar stageSummaries stageId stageList
    .ok (numMoves + total)

def tighten (maxMoves : Option Int) (moves : Int) : Option Int :=
  match maxMoves with
  | none => some moves
  | some current => if moves ≤ current then some moves else some current

def getMultiStageMoves (stageSummaries : List (Option Nat)) (stageId : Nat)
    (config : MultiStageConfig) : Except String (List Int) :=
  match config.moveLimit with
  | some limit =>
    if (stageId : Int) ∈ config.stageIds then do
      let used ← getTotalMovesUsedSoFar stageSummaries stageId config.stageIds
      .ok [limit - used]
    else .ok []
  | none => .ok []

/-- A negative limit is no limit. -/
def limitMaybe (limit : Option Int) : List Int := (limit.filter (0 ≤ ·)).toList

def getStageMoveLimit (globalConfig : LocalSearchStageSolverSpec)
    (stageConfig : LocalSearchStageSpec) (totalMoves stageId : Nat)
    (stageSummaries : List (Option Nat)) : Except String (Option Int) := do
  let multiStageMoves ←
    globalConfig.multiStageConfigs.mapM (getMultiStageMoves stageSummaries stageId)
  .ok ((limitMaybe stageConfig.stopAfterMoves ++
    (limitMaybe globalConfig.stopAfterMoves).map (· - (totalMoves : Int)) ++
    multiStageMoves.flatten ++
    (limitMaybe stageConfig.stopAfterMovesTillStage).map (· - (totalMoves : Int))).foldl
    tighten none)

/-- The stages from `stageId` on: the applied move sets with their stage, up to an error. -/
def solveStages (configs : LocalSearchStageSolverSpec) :
    List (LocalSearchStageSpec × StageRun) → Nat → List Nat → Nat → List (Nat × Nat)
  | [], _, _, _ => []
  | (stageConfig, run) :: stages, stageId, stageMoves, totalMoves =>
    match getStageMoveLimit configs stageConfig totalMoves stageId
        (stageMoves.map some ++ [none]) with
    | .error _ => []
    | .ok stageMaxMoves =>
      let applied := coreSolve stageMaxMoves run
      applied.map (Prod.mk stageId) ++ solveStages configs stages (stageId + 1)
        (stageMoves ++ [applied.sum]) (totalMoves + applied.sum)

def LocalSearchStageSolverSpec.solve (configs : LocalSearchStageSolverSpec)
    (runs : List StageRun) : List (Nat × Nat) :=
  solveStages configs (configs.stageSpecs.zip runs) 0 [] 0

def movesIn (scope : Nat → Prop) [DecidablePred scope] (log : List (Nat × Nat)) : Nat :=
  (log.map fun e => if scope e.1 then e.2 else 0).sum

/-- A limit in force in a stage, with the stages it counts. -/
inductive Limited (configs : LocalSearchStageSolverSpec) (stageConfig : LocalSearchStageSpec)
    (stageId : Nat) : Int → (scope : Nat → Prop) → [DecidablePred scope] → Prop where
  | stage (h : l ∈ limitMaybe stageConfig.stopAfterMoves) :
    Limited configs stageConfig stageId l (· = stageId)
  | run (h : l ∈ limitMaybe configs.stopAfterMoves) :
    Limited configs stageConfig stageId l (fun _ => True)
  | multiStage (h : c ∈ configs.multiStageConfigs) (hin : (stageId : Int) ∈ c.stageIds)
    (hlimit : c.moveLimit = some l) :
    Limited configs stageConfig stageId l (fun s => (s : Int) ∈ c.stageIds)
  | tillStage (h : l ∈ limitMaybe stageConfig.stopAfterMovesTillStage) :
    Limited configs stageConfig stageId l (· ≤ stageId)

def Respects (configs : LocalSearchStageSolverSpec) (earlier log : List (Nat × Nat)) : Prop :=
  ∀ before s n after, log = before ++ (s, n) :: after →
    ∀ stageConfig, configs.stageSpecs[s]? = some stageConfig →
      ∀ l (scope : Nat → Prop) [DecidablePred scope], Limited configs stageConfig s l scope →
        (movesIn scope (earlier ++ before) : Int) < l

section movesIn
variable {s' s'' : Nat → Prop} [DecidablePred s'] [DecidablePred s''] {log : List (Nat × Nat)}

section
variable (s' : Nat → Prop) [DecidablePred s']

theorem movesIn_append (log log' : List (Nat × Nat)) :
    movesIn s' (log ++ log') = movesIn s' log + movesIn s' log' := by
  rw [movesIn, map_append, sum_append_nat, movesIn, movesIn]

theorem movesIn_stage (s : Nat) (ss : List Nat) :
    movesIn s' (ss.map (Prod.mk s)) = if s' s then ss.sum else 0 := by
  by_cases hs : s' s
  · simp [movesIn, Function.comp_def, hs]
  · simp [movesIn, Function.comp_def, hs]

end

theorem movesIn_congr (h : ∀ e ∈ log, s' e.1 ↔ s'' e.1) : movesIn s' log = movesIn s'' log := by
  exact congrArg sum (map_congr_left fun e he => if_congr (h e he) rfl rfl)

theorem movesIn_eq_zero (h : ∀ e ∈ log, ¬ s' e.1) : movesIn s' log = 0 := by
  apply sum_eq_zero
  intro n hn
  obtain ⟨e, he, rfl⟩ := mem_map.mp hn
  exact if_neg (h e he)

theorem movesIn_or (h : ∀ s, s' s → ¬ s'' s) :
    movesIn (fun s => s' s ∨ s'' s) log = movesIn s' log + movesIn s'' log := by
  rw [movesIn, movesIn, movesIn, ← sum_map_add]
  apply congrArg sum
  apply map_congr_left
  intro e _
  by_cases he : s' e.1
  · simp [he, h e.1 he]
  · simp [he]

end movesIn

theorem shouldTerminate_false (h : shouldTerminate (some m) t out = false) : (t : Int) < m :=
  not_le.mp (of_decide_eq_false (Bool.or_eq_false_iff.mp h).2)

theorem runPasses_limit (ps : List HotContainerPass) : ∀ {t : Nat} {b' : List Nat},
    (t : Int) < m → runPasses (some m) t ps = b' ++ n :: a → ((t + b'.sum : Nat) : Int) < m := by
  induction ps with
  | nil =>
    intro t b' _ h
    cases b' <;> cases h
  | cons pass ps ih =>
    intro t b' hlt h
    cases b' with
    | nil => exact hlt
    | cons b b' =>
      rw [runPasses] at h
      cases hp : pass.applied with
      | none =>
        rw [hp] at h
        split at h
        · cases h
        · exact ih hlt h
      | some k =>
        rw [hp] at h
        split_ifs at h with hgo
        · cases b' <;> cases h
        · rw [Bool.not_eq_true, Bool.or_eq_false_iff] at hgo
          obtain ⟨rfl, hrest⟩ := cons.inj h
          have hn := ih (shouldTerminate_false hgo.2) hrest
          rwa [sum_cons, ← add_assoc]

theorem coreSolve_limit (h : coreSolve (some m) run = b ++ n :: a) : (b.sum : Int) < m := by
  rw [coreSolve] at h
  split_ifs at h with hs
  · cases b <;> cases h
  · rw [Bool.not_eq_true, Bool.or_eq_false_iff] at hs
    have hlt := runPasses_limit run.passes (shouldTerminate_false hs.2) h
    rwa [zero_add] at hlt

theorem foldl_tighten (bs : List Int) : ∀ b ∈ bs, ∃ m, bs.foldl tighten none = some m ∧ m ≤ b := by
  refine foldl_rule (P := fun done ms => ∀ b ∈ done, ∃ m, ms = some m ∧ m ≤ b) ?_ [] none nofun
  intro moves _ done ms h b hb
  have hk : ∃ m, tighten ms moves = some m ∧ m ≤ moves ∧ ∀ b ∈ ms, m ≤ b := by
    cases ms with
    | none => exact ⟨moves, rfl, le_rfl, nofun⟩
    | some c =>
      by_cases hm : moves ≤ c
      · exact ⟨moves, if_pos hm, le_rfl, fun b hb => some.inj hb ▸ hm⟩
      · exact ⟨c, if_neg hm, (not_le.mp hm).le, fun b hb => (some.inj hb).le⟩
  obtain ⟨m, hm, hmoves, hcurrent⟩ := hk
  refine ⟨m, hm, ?_⟩
  rcases mem_append.mp hb with hb | hb
  · obtain ⟨m', hm', hle⟩ := h b hb
    exact (hcurrent m' hm').trans hle
  · rwa [mem_singleton.mp hb]

/-- The totals that the solver keeps are those of the move sets applied so far. -/
structure Accounted (earlier : List (Nat × Nat)) (stageId : Nat) (stageMoves : List Nat)
    (totalMoves : Nat) : Prop where
  stages : stageMoves = (List.range stageId).map fun s => movesIn (· = s) earlier
  total : totalMoves = movesIn (fun _ => True) earlier
  past : ∀ e ∈ earlier, e.1 < stageId

section Accounted
variable (h : Accounted earlier stageId stageMoves totalMoves)
include h

theorem getTotalMovesUsedSoFar_eq {l : List Int} : l.Nodup → ∀ {used : Int},
    getTotalMovesUsedSoFar (stageMoves.map some ++ [none]) stageId l = .ok used →
      used = movesIn (fun s => (s : Int) ∈ l) earlier := by
  induction l with
  | nil =>
    intro _ used hu
    cases hu
    exact (congrArg ofNat (movesIn_eq_zero fun _ _ => not_mem_nil)).symm
  | cons stage l ih =>
    intro hnodup used hu
    obtain ⟨hnew, hnodup⟩ := nodup_cons.mp hnodup
    obtain ⟨n, hn, hu⟩ := except_bind_ok hu
    obtain ⟨rest, hrest, hu⟩ := except_bind_ok hu
    cases hu
    have hsplit : movesIn (fun s => (s : Int) ∈ stage :: l) earlier =
        movesIn (fun s => (s : Int) = stage) earlier +
          movesIn (fun s => (s : Int) ∈ l) earlier := by
      rw [← movesIn_or]
      · exact movesIn_congr fun _ _ => mem_cons
      · intro s hs hin
        exact hnew (hs ▸ hin)
    rw [hsplit, natCast_add, ih hnodup hrest]
    congr 1
    rw [movesUsedSoFar] at hn
    by_cases hlt : stage < stageId
    · rw [if_pos hlt] at hn
      by_cases hneg : stage < 0
      · rw [if_pos hneg] at hn
        cases hn
      · obtain ⟨s, rfl⟩ := eq_ofNat_of_zero_le (not_lt.mp hneg)
        have hs : s < stageId := Int.ofNat_lt.mp hlt
        rw [if_neg hneg, toNat_natCast, getElem?_append_left (by simp [h.stages, hs]),
          h.stages, getElem?_map, getElem?_map, getElem?_range hs] at hn
        cases hn
        exact congrArg _ (movesIn_congr fun _ _ => natCast_inj.symm)
    · rw [if_neg hlt] at hn
      cases hn
      rw [movesIn_eq_zero]
      intro e he heq
      exact hlt (heq ▸ Int.ofNat_lt.mpr (h.past e he))

theorem getStageMoveLimit_le {cs : LocalSearchStageSolverSpec} {s : Nat → Prop}
    [DecidablePred s] (hr : getStageMoveLimit cs c totalMoves stageId
      (stageMoves.map some ++ [none]) = .ok ms) (hl : Limited cs c stageId l s) :
    s stageId ∧ ∃ m, ms = some m ∧ m ≤ l - movesIn s earlier := by
  obtain ⟨multi, hm, hr⟩ := except_bind_ok hr
  cases hr
  have hf := foldl_tighten (limitMaybe c.stopAfterMoves ++
    (limitMaybe cs.stopAfterMoves).map (· - (totalMoves : Int)) ++ multi.flatten ++
    (limitMaybe c.stopAfterMovesTillStage).map (· - (totalMoves : Int)))
  simp only [mem_append] at hf
  cases hl with
  | stage hl =>
    rw [movesIn_eq_zero fun e he => (h.past e he).ne, ofNat_zero, sub_zero]
    exact ⟨rfl, hf l (.inl (.inl (.inl hl)))⟩
  | run hl =>
    rw [← h.total]
    exact ⟨trivial, hf _ (.inl (.inl (.inr (mem_map_of_mem hl))))⟩
  | multiStage hc hin hlimit =>
    obtain ⟨b, rfl, hb⟩ := exists_map_of_mapM_ok hm
    refine ⟨hin, hf _ (.inl (.inr (mem_flatten.mpr ⟨_, mem_map_of_mem hc, ?_⟩)))⟩
    have ho := hb _ hc
    simp only [getMultiStageMoves, hlimit, if_pos hin] at ho
    obtain ⟨used, hu, ho⟩ := except_bind_ok ho
    rw [← Except.ok.inj ho, getTotalMovesUsedSoFar_eq h (MultiStageConfig.nodup _) hu]
    exact mem_singleton_self _
  | tillStage hl =>
    have ht : movesIn (· ≤ stageId) earlier = totalMoves :=
      (movesIn_congr fun e he => iff_true_intro (h.past e he).le).trans h.total.symm
    rw [ht]
    exact ⟨le_rfl, hf _ (.inr (mem_map_of_mem hl))⟩

theorem Accounted.next (ss : List Nat) :
    Accounted (earlier ++ ss.map (Prod.mk stageId)) (stageId + 1) (stageMoves ++ [ss.sum])
      (totalMoves + ss.sum) := by
  refine ⟨?_, ?_, ?_⟩
  · rw [range_succ, map_append, h.stages]
    congr 1
    · apply map_congr_left
      intro s hs
      rw [movesIn_append, movesIn_stage, if_neg (mem_range.mp hs).ne', add_zero]
    · rw [map_singleton, movesIn_append, movesIn_stage, if_pos rfl,
        movesIn_eq_zero fun e he => (h.past e he).ne, zero_add]
  · rw [movesIn_append, movesIn_stage, if_pos trivial, h.total]
  · intro e he
    rcases mem_append.mp he with he | he
    · exact (h.past e he).trans (lt_succ_self _)
    · obtain ⟨n, -, rfl⟩ := mem_map.mp he
      exact lt_succ_self _

end Accounted

variable (configs : LocalSearchStageSolverSpec)

theorem solveStages_respects
    (ss : List (LocalSearchStageSpec × StageRun)) : ∀ {i' : Nat} {ms : List Nat}
    {ts : Nat} {e' : List (Nat × Nat)},
    (∀ i c, ss[i]? = some c → configs.stageSpecs[i' + i]? = some c.1) → Accounted e' i' ms ts →
      Respects configs e' (solveStages configs ss i' ms ts) := by
  induction ss with
  | nil =>
    intro i' ms ts e' _ _ b s n a h
    cases b <;> cases h
  | cons stage ss ih =>
    intro i' ms ts e' hs h b s n a hlog
    obtain ⟨stageConfig, run⟩ := stage
    rw [solveStages] at hlog
    split at hlog
    · cases b <;> cases hlog
    · rename_i maxMoves hlimit
      have hn := ih (fun i c hi => (succ_add_eq_add_succ i' i).symm ▸
        hs (i + 1) c hi) (h.next (coreSolve maxMoves run))
      rcases append_eq_append_iff.mp hlog with ⟨b', rfl, hrest⟩ | ⟨rest, ha, hrest⟩
      · have hlater := hn b' s n a hrest
        rwa [append_assoc] at hlater
      · cases rest with
        | nil =>
          rw [append_nil] at ha
          have hlater := hn [] s n a hrest.symm
          rwa [append_nil, ha] at hlater
        | cons e rest =>
          cases hrest
          obtain ⟨sizes, r', hcore, hb, hsn⟩ := map_eq_append_iff.mp ha
          obtain ⟨n', r'', rfl, he, -⟩ := map_eq_cons_iff.mp hsn
          cases he
          intro config hc l scope _ hl
          have hsame := hs 0 _ rfl
          rw [add_zero, hc] at hsame
          cases hsame
          obtain ⟨hscope, m, rfl, hm⟩ := getStageMoveLimit_le h hlimit hl
          have hlt := coreSolve_limit hcore
          rw [← hb, movesIn_append, movesIn_stage, if_pos hscope]
          omega

/-- Over a whole run of the stages, no stage goes beyond its move limits. -/
theorem LocalSearchStageSolverSpec.solve_respects
    (runs : List StageRun) : Respects configs [] (configs.solve runs) := by
  apply solveStages_respects
  · intro i c hi
    rw [zero_add]
    exact (getElem?_zip_eq_some.mp hi).1
  · exact ⟨rfl, rfl, nofun⟩

end Rebalancer
