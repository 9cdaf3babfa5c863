import Rebalancer.RingApply
import Rebalancer.NthLargest

namespace Rebalancer
open List

theorem exists_of_isOk {x : Except ε α} (h : x.isOk = true) : ∃ a, x = .ok a := by
  cases x with
  | error e => cases h
  | ok a => exact ⟨a, rfl⟩

namespace TrafficTableWithStats
variable {table table' : TrafficTableWithStats}

def entries (table : TrafficTableWithStats) : TrafficRow := table.trafficTable.flatMap Prod.snd

def rowTraffic (row : TrafficRow) : ℚ := (row.map fun entry => entry.2.1).sum

theorem foldl_addDestination (row : TrafficRow) : ∀ table, ∃ f, row.foldl addDestination table =
    { table with
      latencyStats := row.foldl (fun s e => s.updateLatencyStats e.2.2 e.2.1) table.latencyStats
      destinationToTraffic := f } := by
  induction row with
  | nil => exact fun table => ⟨_, rfl⟩
  | cons e row ih =>
    intro table
    obtain ⟨f, hf⟩ := ih (table.addDestination e)
    exact ⟨f, hf⟩

theorem appendToTrafficTable_ok (h : table.appendToTrafficTable origin row = .ok table') :
    table'.trafficTable = table.trafficTable ++ [(origin, row)] ∧
    table'.latencyStats =
      row.foldl (fun s e => s.updateLatencyStats e.2.2 e.2.1) table.latencyStats ∧
    table'.totalTrafficFromAllOrigins = table.totalTrafficFromAllOrigins + rowTraffic row := by
  rw [appendToTrafficTable] at h
  split at h
  · cases h
  · obtain ⟨f, hf⟩ := foldl_addDestination row
      { table with trafficTable := table.trafficTable ++ [(origin, row)] }
    rw [hf] at h
    dsimp only at h
    split at h
    · cases h
    · cases h
      exact ⟨rfl, rfl, rfl⟩

theorem exists_appendToTrafficTable (hn : ∀ r ∈ table.trafficTable, r.1 ≠ origin)
    (hle : table.totalTrafficFromAllOrigins + rowTraffic row ≤ 1) :
    ∃ table', table.appendToTrafficTable origin row = .ok table' := by
  obtain ⟨f, hf⟩ := foldl_addDestination row
    { table with trafficTable := table.trafficTable ++ [(origin, row)] }
  have hnew : ¬ table.trafficTable.any (fun row => row.1 == origin) = true := by
    rw [any_eq_true]
    rintro ⟨r, hr, he⟩
    exact hn r hr (beq_iff_eq.mp he)
  rw [appendToTrafficTable, if_neg hnew, hf]
  exact ⟨_, if_neg fun h => (PrecisionTolerances.compare_gt h).not_ge hle⟩

end TrafficTableWithStats

namespace RoutingConfig
open TrafficTableWithStats

def Reaches (counts : ScopeItemId → Int) (sets : List (List ScopeItemId)) (d : ScopeItemId) :
    Prop :=
  ∃ s, sets.find? (fun s => s.any fun d => 0 < counts d) = some s ∧ d ∈ s ∧ 0 < counts d

theorem mem_chosenDestinations : d ∈ chosenDestinations counts sets ↔ Reaches counts sets d := by
  induction sets with
  | nil => simp [chosenDestinations, Reaches]
  | cons s sets ih =>
    have he : ((s.filter fun d => 0 < counts d).dedup.isEmpty = true) ↔
        ¬ (s.any fun d => 0 < counts d) = true := by
      simp [List.isEmpty_iff, dedup_eq_nil]
    rw [chosenDestinations, Reaches, find?_cons]
    by_cases hs : (s.any fun d => 0 < counts d) = true
    · rw [if_neg fun h => he.mp h hs]
      simp [hs]
    · rw [if_pos (he.mpr hs), ih]
      simp [hs, Reaches]

theorem chosenDestinations_nodup : (chosenDestinations counts sets).Nodup := by
  induction sets with
  | nil => exact nodup_nil
  | cons s sets ih =>
    rw [chosenDestinations]
    split
    · exact ih
    · exact nodup_dedup _

/-- The row has the ring's part of all traffic, evenly for the destinations it reaches. -/
def Splits (config : RoutingConfig) (total : ℚ) (counts : ScopeItemId → Int) (ring : RoutingRing)
    (row : ScopeItemId × TrafficRow) : Prop :=
  ∃ sets, ∃ ds : List ScopeItemId, config.destinationScopeItemSets ring = .ok sets ∧
    row.1 = ring.originScopeItem ∧ ds.Nodup ∧ (∀ d, d ∈ ds ↔ Reaches counts sets d) ∧
    row.2.map (fun e => (e.1, e.2.1)) = ds.map fun d => (d, ring.originTraffic / total / ds.length)

theorem createTrafficTableForOrigin_splits (hs : config.destinationScopeItemSets ring = .ok sets)
    (h : config.createTrafficTableForOrigin total ring.originScopeItem ring.originTraffic sets
      counts = .ok row) : Splits config total counts ring (ring.originScopeItem, row) := by
  refine ⟨sets, _, hs, rfl, chosenDestinations_nodup, fun _ => mem_chosenDestinations, ?_⟩
  obtain ⟨k, rfl, hk⟩ := exists_map_of_mapM_ok h
  rw [map_map]
  apply map_congr_left
  intro d hd
  obtain ⟨latency, -, he⟩ := except_bind_ok (hk d hd)
  rw [Function.comp_apply, ← Except.ok.inj he, div_div]

def Served (config : RoutingConfig) (counts : ScopeItemId → Int) (ring : RoutingRing) : Prop :=
  ∃ sets d, config.destinationScopeItemSets ring = .ok sets ∧ Reaches counts sets d

variable {config : RoutingConfig} {rings : List RoutingRing}

theorem Splits.traffic (h : Splits config total counts ring row) :
    Served config counts ring ∧ rowTraffic row.2 = ring.originTraffic / total ∨
      ¬ Served config counts ring ∧ row.2 = [] := by
  obtain ⟨sets, ds, hs, -, -, hd, he⟩ := h
  cases ds with
  | nil =>
    refine .inr ⟨?_, map_eq_nil_iff.mp he⟩
    rintro ⟨sets', d, hs', hr⟩
    rw [hs] at hs'
    cases hs'
    exact not_mem_nil ((hd d).mpr hr)
  | cons d ds =>
    refine .inl ⟨⟨sets, d, hs, (hd d).mp mem_cons_self⟩, ?_⟩
    have ht : rowTraffic row.2 = ((row.2.map fun e => (e.1, e.2.1)).map Prod.snd).sum := by
      rw [map_map]
      rfl
    rw [ht, he, map_map]
    simp only [Function.comp_def, map_const', sum_replicate, nsmul_eq_mul]
    exact mul_div_cancel₀ _ (Nat.cast_ne_zero.mpr (Nat.succ_ne_zero _))

theorem traffic_le (ht : 0 < total) (h : Forall₂ (Splits config total counts) rings rows)
    (hn : ∀ ring ∈ rings, 0 ≤ ring.originTraffic) :
    rowTraffic (rows.flatMap Prod.snd) ≤ (rings.map RoutingRing.originTraffic).sum / total ∧
    (rowTraffic (rows.flatMap Prod.snd) = (rings.map RoutingRing.originTraffic).sum / total ↔
      ∀ ring ∈ rings, ring.originTraffic ≠ 0 → Served config counts ring) := by
  induction h with
  | nil => simp [rowTraffic]
  | @cons ring row rings rows hr hrs ih =>
    obtain ⟨hle, heq⟩ := ih fun r hm => hn r (mem_cons_of_mem _ hm)
    have hone : rowTraffic row.2 ≤ ring.originTraffic / total ∧
        (rowTraffic row.2 = ring.originTraffic / total ↔
          (ring.originTraffic ≠ 0 → Served config counts ring)) := by
      rcases hr.traffic with ⟨hs, he⟩ | ⟨hs, he⟩
      · exact ⟨he.le, iff_of_true he fun _ => hs⟩
      · rw [he, rowTraffic, map_nil, sum_nil]
        refine ⟨div_nonneg (hn ring mem_cons_self) ht.le, ?_⟩
        rw [eq_comm, div_eq_zero_iff, or_iff_left ht.ne', imp_iff_not_or, not_not, or_iff_left hs]
    have hsum : rowTraffic ((row :: rows).flatMap Prod.snd) =
        rowTraffic row.2 + rowTraffic (rows.flatMap Prod.snd) := by
      simp [rowTraffic]
    rw [hsum, map_cons, sum_cons, add_div, forall_mem_cons, ← hone.2, ← heq]
    exact ⟨add_le_add hone.1 hle, add_eq_add_iff_eq_and_eq hone.1 hle⟩

/-- As the checker accepts a configuration, with a latency for every destination of a ring. -/
structure Checked (config : RoutingConfig) : Prop where
  traffic : ∀ ring ∈ config.routingRings, 0 ≤ ring.originTraffic
  origins : (config.routingRings.map RoutingRing.originScopeItem).Nodup
  latencies : ∀ ring ∈ config.routingRings, ∃ sets,
    config.destinationScopeItemSets ring = .ok sets ∧
    ∀ set ∈ sets, ∀ d ∈ set, ∃ latency, config.getLatency ring.originScopeItem d = .ok latency

theorem Checked.exists_row (h : config.Checked) (hr : ring ∈ config.routingRings) (total : ℚ)
    (counts : ScopeItemId → Int) : ∃ sets row, config.destinationScopeItemSets ring = .ok sets ∧
      config.createTrafficTableForOrigin total ring.originScopeItem ring.originTraffic sets counts =
        .ok row ∧ Splits config total counts ring (ring.originScopeItem, row) := by
  obtain ⟨sets, hs, hl⟩ := h.latencies ring hr
  obtain ⟨row, hrow⟩ : ∃ row, config.createTrafficTableForOrigin total ring.originScopeItem
      ring.originTraffic sets counts = .ok row := by
    apply exists_mapM_ok
    intro d hd
    obtain ⟨set, hf, hd, -⟩ := mem_chosenDestinations.mp hd
    obtain ⟨latency, hl⟩ := hl set (mem_of_find?_eq_some hf) d hd
    exact ⟨_, by rw [hl]; rfl⟩
  exact ⟨sets, row, hs, hrow, createTrafficTableForOrigin_splits hs hrow⟩

/-- The loop over the rings, after those that are `done`: no row is there twice, and the total never
exceeds one. -/
theorem Checked.exists_table (h : config.Checked) (ht : 0 < total)
    (hle : (config.routingRings.map RoutingRing.originTraffic).sum ≤ total)
    (counts : ScopeItemId → Int) (rings : List RoutingRing) :
    ∀ done (table : TrafficTableWithStats), config.routingRings = done ++ rings →
    Forall₂ (Splits config total counts) done table.trafficTable →
    table.totalTrafficFromAllOrigins = rowTraffic table.entries →
    ∃ table', rings.foldlM (fun table ring => do
      let sets ← config.destinationScopeItemSets ring
      let row ← config.createTrafficTableForOrigin total ring.originScopeItem ring.originTraffic
        sets counts
      table.appendToTrafficTable ring.originScopeItem row) table = .ok table' ∧
      Forall₂ (Splits config total counts) config.routingRings table'.trafficTable := by
  induction rings with
  | nil =>
    intro done table hd hrows _
    exact ⟨table, rfl, by rwa [hd, append_nil]⟩
  | cons ring rings ih =>
    intro done table hd hrows htotal
    have hmem : ring ∈ config.routingRings := by simp [hd]
    obtain ⟨sets, row, hs, hrow, hsplits⟩ := h.exists_row hmem total counts
    have hall := rel_append hrows (.cons hsplits .nil)
    have hentries : rowTraffic ((table.trafficTable ++ [(ring.originScopeItem, row)]).flatMap
        Prod.snd) = rowTraffic table.entries + rowTraffic row := by
      simp [rowTraffic, entries]
    have hone := (traffic_le ht hall fun r hr => h.traffic r (by
      rw [hd, append_cons]
      exact mem_append_left _ hr)).1
    have hsum : ((done ++ [ring]).map RoutingRing.originTraffic).sum ≤ total := by
      rw [hd, append_cons, map_append, sum_append] at hle
      refine (le_add_of_nonneg_right (sum_nonneg ?_)).trans hle
      intro v hv
      obtain ⟨r, hr, rfl⟩ := mem_map.mp hv
      exact h.traffic r (by simp [hd, hr])
    have hnew : ∀ r ∈ table.trafficTable, r.1 ≠ ring.originScopeItem := by
      intro r hr heq
      obtain ⟨i, hi, rfl⟩ := mem_iff_getElem.mp hr
      have hi' : i < done.length := by rwa [hrows.length_eq]
      obtain ⟨-, -, -, hr, -⟩ := hrows.get hi' hi
      have hn := h.origins
      rw [hd, map_append, map_cons] at hn
      exact (nodup_append.mp hn).2.2 _ (mem_map_of_mem (get_mem done ⟨i, hi'⟩)) _ mem_cons_self
        (hr.symm.trans heq)
    have hfits : table.totalTrafficFromAllOrigins + rowTraffic row ≤ 1 := by
      rw [htotal, ← hentries]
      exact hone.trans ((div_le_one ht).mpr hsum)
    obtain ⟨table', happend⟩ := exists_appendToTrafficTable hnew hfits
    obtain ⟨hrows', -, htotal'⟩ := appendToTrafficTable_ok happend
    rw [foldlM_cons, hs, except_ok_bind, hrow, except_ok_bind, happend, except_ok_bind]
    apply ih (done ++ [ring]) table' (by rw [hd, append_cons])
    · rwa [hrows']
    · rw [htotal', htotal, ← hentries, ← hrows']
      rfl

/-- The table is built, each ring's traffic is split over the destinations it reaches, and all of it
arrives exactly when every ring with traffic is served. -/
theorem traffic_split (hr : GroupRoutingRing.new config objects = .ok ring) (hc : config.Checked)
    (ht : 0 < ring.totalOriginTraffic) (counts : ScopeItemId → Int) :
    ∃ table, (ring.withTable counts).trafficTableWithStats = .ok table ∧
    Forall₂ (fun r row => Splits config ring.totalOriginTraffic counts r row ∧
        (∀ entry ∈ row.2, 0 ≤ entry.2.1) ∧
        (Served config counts r → rowTraffic row.2 = r.originTraffic / ring.totalOriginTraffic))
      config.routingRings table.trafficTable ∧
    rowTraffic table.entries ≤ 1 ∧
    (rowTraffic table.entries = 1 ↔
      ∀ r ∈ config.routingRings, r.originTraffic ≠ 0 → Served config counts r) := by
  obtain ⟨containers, -, hr⟩ := except_bind_ok hr
  cases hr
  obtain ⟨table, htable, hs⟩ := hc.exists_table ht le_rfl counts config.routingRings []
    .new rfl .nil rfl
  have hle := traffic_le ht hs hc.traffic
  rw [div_self ht.ne'] at hle
  refine ⟨table, htable, ?_, hle⟩
  apply ((forall₂_and_left _ _).mpr ⟨hc.traffic, hs⟩).imp
  rintro r row ⟨hr, hs⟩
  refine ⟨hs, ?_, fun hr => (hs.traffic.resolve_right fun h => h.1 hr).2⟩
  obtain ⟨sets, ds, -, -, -, -, he⟩ := hs
  intro entry hmem
  obtain ⟨d, -, hd⟩ := mem_map.mp (he ▸ mem_map_of_mem hmem)
  rw [← (Prod.mk.inj hd).2]
  exact div_nonneg (div_nonneg hr ht.le) (Nat.cast_nonneg _)

def twoRingRouting : RoutingConfig :=
  { twoItemRouting with routingRings := [⟨10, 1, some [[10], [20]]⟩, ⟨20, 3, some [[20], [10]]⟩] }

theorem twoRingRouting_checked : twoRingRouting.Checked where
  traffic := by decide +kernel
  origins := by decide
  latencies := by
    refine forall_mem_cons.mpr ⟨?_, forall_mem_cons.mpr ⟨?_, nofun⟩⟩
    · exact ⟨_, rfl, fun _ _ _ _ => ⟨1, rfl⟩⟩
    · exact ⟨_, rfl, fun _ _ _ _ => ⟨1, rfl⟩⟩

theorem both_items_served : ∃ ring table,
    GroupRoutingRing.new twoRingRouting ⟨[5], by decide⟩ = .ok ring ∧
    (ring.withTable fun _ => 1).trafficTableWithStats = .ok table ∧
    rowTraffic table.entries = 1 := by
  obtain ⟨ring, hr⟩ : ∃ ring, GroupRoutingRing.new twoRingRouting ⟨[5], by decide⟩ = .ok ring :=
    ⟨_, rfl⟩
  have ht : ring.totalOriginTraffic = 4 := by
    cases hr
    decide +kernel
  obtain ⟨table, h, -, -, hall⟩ := traffic_split hr twoRingRouting_checked
    (by rw [ht]; exact four_pos) fun _ => 1
  refine ⟨ring, table, hr, h, hall.mpr ?_⟩
  refine forall_mem_cons.mpr ⟨fun _ => ?_, forall_mem_cons.mpr ⟨fun _ => ?_, nofun⟩⟩
  · exact ⟨_, 10, rfl, [10], rfl, by decide, by decide⟩
  · exact ⟨_, 20, rfl, [20], rfl, by decide, by decide⟩

end RoutingConfig

namespace TrafficTableWithStats

def trafficWhere (row : TrafficRow) (p : ℚ → Prop) [DecidablePred p] : ℚ :=
  (row.map fun entry => if p entry.2.2 then entry.2.1 else 0).sum

def percentileLoop (percentileValue : ℚ) (frequency : ℚ → ℚ) : List ℚ → ℚ → Except String (Option ℚ)
  | [], _ => .error "could not find percentile value"
  | latency :: latencies, accumulatedFrequency =>
    let accumulatedFrequency := accumulatedFrequency + frequency latency
    if 100 * (1 - accumulatedFrequency) < percentileValue then .ok (some latency)
    else percentileLoop percentileValue frequency latencies accumulatedFrequency

def throwIfTotalTrafficFromAllOriginsIsNot1 (table : TrafficTableWithStats) : Except String Unit :=
  if defaultTolerances.compare table.totalTrafficFromAllOrigins 1 ≠ .eq then
    .error ("Expected total traffic from all origins to equal 1.0, but found " ++
      s!"{table.totalTrafficFromAllOrigins}. Do the traffic values for each (origin, destination) "
      ++ "pair reflect the fraction of total traffic from all origins to that destination?")
  else .ok ()

/-- `none` is the lowest double, the maximum of no latencies. -/
def getPercentileLatency (table : TrafficTableWithStats) (percentileValue : ℚ) :
    Except String (Option ℚ) := do
  table.throwIfTotalTrafficFromAllOriginsIsNot1
  if percentileValue ≤ 0 ∨ 100 < percentileValue then
    .error "percentile value should be greater than 0 and at most 100"
  else if 100 * (1 - table.latencyStats.maxLatencyTraffic) < percentileValue then
    .ok table.latencyStats.maxLatency
  else
    percentileLoop percentileValue (fun latency => trafficWhere table.entries (· = latency))
      (descending (table.entries.map fun entry => entry.2.2).dedup) 0

def ofRows (rows : List (ScopeItemId × TrafficRow)) : Except String TrafficTableWithStats :=
  rows.foldlM (fun table row => table.appendToTrafficTable row.1 row.2) .new

def latencyStatsOf (row : TrafficRow) : LatencyStats :=
  row.foldl (fun s e => s.updateLatencyStats e.2.2 e.2.1) .new

theorem ofRows_ok (h : ofRows rows = .ok table) : table.entries = rows.flatMap Prod.snd ∧
    table.latencyStats = latencyStatsOf table.entries ∧
    table.totalTrafficFromAllOrigins = rowTraffic table.entries := by
  have hr := foldlM_ok_rule (g := Prod.snd) (P := fun done (table : TrafficTableWithStats) =>
    table.entries = done ∧ table.latencyStats = latencyStatsOf done ∧
      table.totalTrafficFromAllOrigins = rowTraffic done)
    (fun row _ done table table' hd hs => ?_) [] .new ⟨rfl, rfl, rfl⟩ h
  · obtain ⟨he, hs, ht⟩ := hr
    rw [nil_append] at he
    exact ⟨he, he ▸ hs, he ▸ ht⟩
  · obtain ⟨hrows, hstats, htotal⟩ := appendToTrafficTable_ok hs
    obtain ⟨he, hl, ht⟩ := hd
    refine ⟨?_, ?_, ?_⟩
    · rw [entries, hrows, flatMap_append, flatMap_singleton]
      exact congrArg (· ++ row.2) he
    · rw [hstats, hl, latencyStatsOf, latencyStatsOf, foldl_append]
    · rw [htotal, ht, rowTraffic, rowTraffic, rowTraffic, map_append, sum_append]

variable {row : TrafficRow}

section
variable {p q r : ℚ → Prop} [DecidablePred p] [DecidablePred q] [DecidablePred r]

theorem trafficWhere_congr (h : ∀ e ∈ row, p e.2.2 ↔ q e.2.2) :
    trafficWhere row p = trafficWhere row q := by
  rw [trafficWhere, map_congr_left fun e he => if_congr (h e he) rfl rfl, trafficWhere]

theorem trafficWhere_add (h : ∀ e ∈ row, r e.2.2 ↔ p e.2.2 ∨ q e.2.2)
    (hd : ∀ e ∈ row, p e.2.2 → ¬ q e.2.2) :
    trafficWhere row r = trafficWhere row p + trafficWhere row q := by
  rw [trafficWhere, trafficWhere, trafficWhere, ← sum_map_add]
  congr 1
  apply map_congr_left
  intro e he
  rw [if_congr (h e he) rfl rfl]
  by_cases hp : p e.2.2
  · simp [hp, hd e he hp]
  · simp [hp]

theorem trafficWhere_le (hn : ∀ e ∈ row, 0 ≤ e.2.1) (h : ∀ v, p v → q v) :
    trafficWhere row p ≤ trafficWhere row q := by
  apply sum_le_sum
  intro e he
  by_cases hp : p e.2.2
  · rw [if_pos hp, if_pos (h _ hp)]
  · rw [if_neg hp]
    split
    · exact hn e he
    · exact le_refl _

theorem trafficWhere_eq_zero (h : ∀ e ∈ row, ¬ p e.2.2) : trafficWhere row p = 0 := by
  rw [trafficWhere, map_congr_left fun e he => if_neg (h e he)]
  simp

theorem trafficWhere_eq (h : ∀ e ∈ row, p e.2.2) : trafficWhere row p = rowTraffic row := by
  rw [trafficWhere, map_congr_left fun e he => if_pos (h e he), rowTraffic]

theorem trafficWhere_concat (e : ScopeItemId × ℚ × ℚ) :
    trafficWhere (row ++ [e]) p = trafficWhere row p + if p e.2.2 then e.2.1 else 0 := by
  simp [trafficWhere]

end

def Reaching (row : TrafficRow) (percentileValue : ℚ) : Set ℚ :=
  {latency | (∃ e ∈ row, e.2.2 = latency) ∧ percentileValue ≤ 100 * trafficWhere row (· ≤ latency)}

theorem isLeast_reaching (hn : ∀ e ∈ row, 0 ≤ e.2.1) (hl : ∃ e ∈ row, e.2.2 = latency)
    (hle : v ≤ 100 * trafficWhere row (· ≤ latency))
    (hlt : 100 * trafficWhere row (· < latency) < v) : IsLeast (Reaching row v) latency := by
  refine ⟨⟨hl, hle⟩, ?_⟩
  rintro latency' ⟨-, hle'⟩
  by_contra h
  have := trafficWhere_le hn fun w (hw : w ≤ latency') => hw.trans_lt (not_le.mp h)
  linarith

theorem latencyStatsOf_eq (row : TrafficRow) : row = [] ∧ latencyStatsOf row = .new ∨
    ∃ latency, (latencyStatsOf row).maxLatency = some latency ∧ (∃ e ∈ row, e.2.2 = latency) ∧
      (∀ e ∈ row, e.2.2 ≤ latency) ∧
      (latencyStatsOf row).maxLatencyTraffic = trafficWhere row (· = latency) := by
  induction row using reverseRecOn with
  | nil => exact .inl ⟨rfl, rfl⟩
  | append_singleton row e ih =>
    have hs : latencyStatsOf (row ++ [e]) =
        (latencyStatsOf row).updateLatencyStats e.2.2 e.2.1 := foldl_concat _ _ _ _
    right
    rw [hs, LatencyStats.updateLatencyStats]
    simp only [trafficWhere_concat, mem_append, mem_singleton, or_imp, forall_and, forall_eq]
    rcases ih with ⟨rfl, hnew⟩ | ⟨m, hm, hmem, hle, ht⟩
    · rw [hnew]
      exact ⟨e.2.2, rfl, ⟨e, .inr rfl, rfl⟩, ⟨fun e he => absurd he not_mem_nil, le_rfl⟩,
        by simp [trafficWhere, LatencyStats.new]⟩
    · rw [hm]
      dsimp only
      rcases lt_trichotomy m e.2.2 with h | h | h
      · rw [if_pos h]
        refine ⟨e.2.2, rfl, ⟨e, .inr rfl, rfl⟩, ⟨fun e' he => (hle e' he).trans h.le, le_rfl⟩, ?_⟩
        rw [trafficWhere_eq_zero fun e' he => ((hle e' he).trans_lt h).ne, if_pos rfl, zero_add]
      · subst h
        rw [if_neg (lt_irrefl _), if_pos rfl]
        exact ⟨e.2.2, rfl, ⟨e, .inr rfl, rfl⟩, ⟨hle, le_rfl⟩, by simp [ht]⟩
      · rw [if_neg h.not_gt, if_neg h.ne']
        obtain ⟨e', he', hm'⟩ := hmem
        exact ⟨m, rfl, ⟨e', .inl he', hm'⟩, ⟨hle, h.le⟩, by simp [ht, h.ne]⟩

theorem percentileLoop_spec (hn : ∀ e ∈ row, 0 ≤ e.2.1) (hv : 0 < v) (l : List ℚ) :
    ∀ acc, l.Pairwise (· > ·) → (∀ x ∈ l, ∃ e ∈ row, e.2.2 = x) →
    (∀ e ∈ row, ∀ x ∈ l, e.2.2 ≤ x → e.2.2 ∈ l) → acc + trafficWhere row (· ∈ l) = 1 →
    v ≤ 100 * trafficWhere row (· ∈ l) →
    ∃ latency, percentileLoop v (fun latency => trafficWhere row (· = latency)) l acc =
      .ok (some latency) ∧ IsLeast (Reaching row v) latency := by
  induction l with
  | nil =>
    intro acc _ _ _ _ hle
    rw [trafficWhere_eq_zero fun _ _ => not_mem_nil] at hle
    linarith
  | cons x l ih =>
    intro acc hs hl hd ht hle
    obtain ⟨hx, hs⟩ := pairwise_cons.mp hs
    have hadd : trafficWhere row (· ∈ x :: l) =
        trafficWhere row (· = x) + trafficWhere row (· ∈ l) := by
      apply trafficWhere_add
      · exact fun _ _ => mem_cons
      · intro e _ he hm
        exact lt_irrefl x (he ▸ hx _ hm)
    rw [percentileLoop]
    split
    · rename_i hlt
      refine ⟨x, rfl, isLeast_reaching hn (hl x mem_cons_self) ?_ ?_⟩
      · rwa [trafficWhere_congr (q := (· ∈ x :: l))]
        intro e he
        refine ⟨hd e he x mem_cons_self, fun hm => ?_⟩
        rcases mem_cons.mp hm with h | h
        · exact h.le
        · exact (hx _ h).le
      · rw [trafficWhere_congr (q := (· ∈ l))]
        · linarith
        · intro e he
          refine ⟨fun h => ?_, hx _⟩
          exact (mem_cons.mp (hd e he x mem_cons_self h.le)).resolve_left h.ne
    · apply ih _ hs fun y hy => hl y (mem_cons_of_mem _ hy)
      · intro e he y hy hle
        exact (mem_cons.mp (hd e he y (mem_cons_of_mem _ hy) hle)).resolve_left
          (hle.trans_lt (hx y hy)).ne
      · linarith
      · linarith

/-- The percentile is the least latency within which enough of the traffic is served. -/
theorem getPercentileLatency_isLeast (h : ofRows rows = .ok table)
    (hn : ∀ e ∈ table.entries, 0 ≤ e.2.1) (ht : rowTraffic table.entries = 1)
    (hv : 0 < v) (hv' : v ≤ 100) :
    ∃ latency, table.getPercentileLatency v = .ok (some latency) ∧
      IsLeast (Reaching table.entries v) latency := by
  obtain ⟨-, hs, htotal⟩ := ofRows_ok h
  have hthrow : table.throwIfTotalTrafficFromAllOriginsIsNot1 = .ok () := by
    rw [throwIfTotalTrafficFromAllOriginsIsNot1, htotal, ht,
      PrecisionTolerances.compare_self (by decide +kernel)]
    rfl
  rw [getPercentileLatency, hthrow, except_ok_bind, if_neg (by grind), hs]
  split
  · rename_i hlt
    rcases latencyStatsOf_eq table.entries with ⟨he, -⟩ | ⟨latency, hl, hmem, hle, hmax⟩
    · simp [he, rowTraffic] at ht
    · refine ⟨latency, by rw [hl], isLeast_reaching hn hmem ?_ ?_⟩
      · rw [trafficWhere_eq hle, ht]
        linarith
      · have hadd : trafficWhere table.entries (· ≤ latency) =
            trafficWhere table.entries (· = latency) + trafficWhere table.entries (· < latency) :=
          trafficWhere_add (fun _ _ => le_iff_eq_or_lt) fun _ _ h hlt => hlt.ne h
        rw [trafficWhere_eq hle, ht] at hadd
        rw [hmax] at hlt
        linarith
  · have hmem : ∀ x, x ∈ descending (table.entries.map fun e => e.2.2).dedup ↔
        ∃ e ∈ table.entries, e.2.2 = x := by
      simp [mem_descending]
    have hall : ∀ e ∈ table.entries, e.2.2 ∈ descending (table.entries.map fun e => e.2.2).dedup :=
      fun e he => (hmem _).mpr ⟨e, he, rfl⟩
    apply percentileLoop_spec hn hv _ 0 (descending_sorted (nodup_dedup _)) (fun x => (hmem x).mp)
    · exact fun e he _ _ _ => hall e he
    · rw [trafficWhere_eq hall, ht, zero_add]
    · rw [trafficWhere_eq hall, ht]
      linarith

theorem halves_percentile : ∃ table latency,
    ofRows [(0, [(1, 1 / 2, 10), (2, 1 / 2, 20)])] = .ok table ∧
    table.getPercentileLatency 60 = .ok (some latency) ∧
    IsLeast (Reaching table.entries 60) latency := by
  obtain ⟨table, h⟩ := exists_of_isOk
    (x := ofRows [(0, [(1, 1 / 2, 10), (2, 1 / 2, 20)])]) (by decide +kernel)
  have he := (ofRows_ok h).1
  obtain ⟨latency, hl⟩ := getPercentileLatency_isLeast h (by rw [he]; decide +kernel)
    (by rw [he]; decide +kernel) (by norm_num : (0 : ℚ) < 60) (by norm_num)
  exact ⟨table, latency, h, hl⟩

end TrafficTableWithStats

end Rebalancer
