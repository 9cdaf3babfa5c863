import Rebalancer.ApplyOnce
import Rebalancer.BalanceAverage
import Rebalancer.BipartiteSwaps
import Rebalancer.DisasterRecovery
import Rebalancer.EquivalenceRepeats
import Rebalancer.HotContainers
import Rebalancer.LargeShardDrain
import Rebalancer.LookupLp
import Rebalancer.MaxEncoding
import Rebalancer.MultiObjectiveSolve
import Rebalancer.NestedScopeLimit
import Rebalancer.NonAccepting
import Rebalancer.OptimalSubsetSolver
import Rebalancer.OrchestratorProblem
import Rebalancer.ParallelFaults
import Rebalancer.PlacementBacked
import Rebalancer.PriorityQueueAgreement
import Rebalancer.RingApply
import Rebalancer.SingleMoveComplete
import Rebalancer.SolutionFrame
import Rebalancer.StableCrowded
import Rebalancer.StageMoveLimits
import Rebalancer.StepModK
import Rebalancer.SubsetSelection
import Rebalancer.SumBuilding
import Rebalancer.ThresholdUpdates
import Rebalancer.UnaffectedLeaves
import Rebalancer.NthLargest
import Rebalancer.TrafficShares
import Rebalancer.QuotientBounds
import Rebalancer.Batching
import Rebalancer.CartesianProduct
import Rebalancer.SortedPrefixes
