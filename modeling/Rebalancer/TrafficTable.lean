import Rebalancer.Precision

namespace Rebalancer

abbrev ScopeItemId := Nat

/-- `maxLatency` is `none` where the source starts from the lowest double. -/
structure LatencyStats where
  weightedAvgLatency : ℚ
  maxLatency : Option ℚ
  maxLatencyTraffic : ℚ

def LatencyStats.new : LatencyStats := ⟨0, none, 0⟩

def LatencyStats.updateLatencyStats (stats : LatencyStats) (latency traffic : ℚ) : LatencyStats :=
  let stats := { stats with weightedAvgLatency := stats.weightedAvgLatency + traffic * latency }
  match stats.maxLatency with
  | none => { stats with maxLatency := some latency, maxLatencyTraffic := traffic }
  | some m =>
    if m < latency then { stats with maxLatency := some latency, maxLatencyTraffic := traffic }
    else if m = latency then { stats with maxLatencyTraffic := stats.maxLatencyTraffic + traffic }
    else stats

abbrev TrafficRow := List (ScopeItemId × ℚ × ℚ)

structure TrafficTableWithStats where
  trafficTable : List (ScopeItemId × TrafficRow)
  latencyStats : LatencyStats
  destinationToTraffic : ScopeItemId → ℚ
  totalTrafficFromAllOrigins : ℚ

namespace TrafficTableWithStats

def new : TrafficTableWithStats := ⟨[], .new, fun _ => 0, 0⟩

variable (table : TrafficTableWithStats)

def addDestination (entry : ScopeItemId × ℚ × ℚ) : TrafficTableWithStats := { table with
    latencyStats := table.latencyStats.updateLatencyStats entry.2.2 entry.2.1
    destinationToTraffic := fun d =>
      if d = entry.1 then table.destinationToTraffic d + entry.2.1
      else table.destinationToTraffic d }

def appendToTrafficTable (origin : ScopeItemId)
    (destinationToTraffic : TrafficRow) : Except String TrafficTableWithStats :=
  if table.trafficTable.any (fun row => row.1 == origin) then
    .error ("row corresponding to the given origin already exists; " ++
      "cannot append with same origin.")
  else
    let table := destinationToTraffic.foldl addDestination
      { table with trafficTable := table.trafficTable ++ [(origin, destinationToTraffic)] }
    let total := table.totalTrafficFromAllOrigins +
      (destinationToTraffic.map (fun entry => entry.2.1)).sum
    if defaultTolerances.compare total 1 = .gt then
      .error (s!"Expected the total traffic from all origins to not exceed 1.0, but found {total}. "
        ++ "Do the traffic values for each (origin, destination) pair reflect the fraction of " ++
        "total traffic from all origins to that destination?")
    else .ok { table with totalTrafficFromAllOrigins := total }

end TrafficTableWithStats

structure RoutingRing where
  originScopeItem : ScopeItemId
  originTraffic : ℚ
  destinationScopeItemSets : Option (List (List ScopeItemId))

/-- A routing configuration, restricted to the rings of one group and to the scope's containers. -/
structure RoutingConfig where
  routingRings : List RoutingRing
  latencyTable : ScopeItemId → Option (ScopeItemId → Option ℚ)
  defaultOriginToDestinationScopeItemSets :
    Option (ScopeItemId → Option (List (List ScopeItemId)))
  containerIds : ScopeItemId → List Nat

namespace RoutingConfig

section
variable (config : RoutingConfig)

def getLatency (origin destination : ScopeItemId) : Except String ℚ :=
  match config.latencyTable origin with
  | none => .error s!"latencies for origin {origin} not found"
  | some latencies =>
    match latencies destination with
    | none => .error s!"latency for origin {origin} and destination {destination} not found"
    | some latency => .ok latency

def getDefaultDestinationScopeItemSetsFromOrigin (origin : ScopeItemId) :
    Except String (List (List ScopeItemId)) :=
  match config.defaultOriginToDestinationScopeItemSets with
  | none => .error s!"default destinations not set for {origin}"
  | some defaults =>
    match defaults origin with
    | none => .error s!"default destinations for origin {origin} not found"
    | some sets => .ok sets

def destinationScopeItemSets (ring : RoutingRing) : Except String (List (List ScopeItemId)) :=
  match ring.destinationScopeItemSets with
  | some sets => .ok sets
  | none => config.getDefaultDestinationScopeItemSetsFromOrigin ring.originScopeItem

end

/-- The destinations with objects of the group in the first set that has any. -/
def chosenDestinations (scopeItemToObjectCount : ScopeItemId → Int) :
    List (List ScopeItemId) → List ScopeItemId
  | [] => []
  | scopeItemSet :: sets =>
    let destinations := (scopeItemSet.filter (fun d => 0 < scopeItemToObjectCount d)).dedup
    if destinations.isEmpty then chosenDestinations scopeItemToObjectCount sets else destinations

variable (config : RoutingConfig) (totalOriginTraffic : ℚ)

def createTrafficTableForOrigin
    (origin : ScopeItemId) (originTraffic : ℚ) (destinationScopeItemSets : List (List ScopeItemId))
    (scopeItemToObjectCount : ScopeItemId → Int) : Except String TrafficRow :=
  let destinations := chosenDestinations scopeItemToObjectCount destinationScopeItemSets
  destinations.mapM (fun d => do
    let latency ← config.getLatency origin d
    .ok (d, originTraffic / (totalOriginTraffic * destinations.length), latency))

def createTrafficTableWithStats
    (scopeItemToObjectCount : ScopeItemId → Int) : Except String TrafficTableWithStats :=
  config.routingRings.foldlM (fun table ring => do
    let sets ← config.destinationScopeItemSets ring
    let row ← config.createTrafficTableForOrigin totalOriginTraffic ring.originScopeItem
      ring.originTraffic sets scopeItemToObjectCount
    table.appendToTrafficTable ring.originScopeItem row) .new

end RoutingConfig

end Rebalancer
