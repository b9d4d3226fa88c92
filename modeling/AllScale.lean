import AllScale.Lib.LayeredTree
import AllScale.Lib.Token
import AllScale.Lib.TokenLaws
import AllScale.Lib.TokenDispatch
import AllScale.Lib.TokenLedger
import AllScale.Lib.Run
import AllScale.Hierarchy
import AllScale.Network
import AllScale.DataItemManager.LocationInfo
import AllScale.DataItemManager.IndexEntry
import AllScale.DataItemManager.DataItem
import AllScale.DataItemManager.IndexService
import AllScale.DataItemManager.Acquire
import AllScale.DataItemManager.Grid
import AllScale.DataItemManager.Locate
import AllScale.DataItemManager.Lookup
import AllScale.DataItemManager.Scheduling
import AllScale.DataItemManager.Bookkeeping
import AllScale.DataItemManager.Caches
import AllScale.DataItemManager.LookupTermination
import AllScale.DataItemManager.CachedLookup
import AllScale.DataItemManager.LocalTasks
import AllScale.Lib.TokenOwner
import AllScale.DataItemManager.Transfers
import AllScale.DataItemManager.Coherence
import AllScale.Lib.TokenMessages
import AllScale.DataItemManager.Traffic
import AllScale.DataItemManager.Gaps
import AllScale.DataItemManager.Placement
import AllScale.DataItemManager.Concurrent
import AllScale.Lib.TokenParking
import AllScale.DataItemManager.Assertions
import AllScale.Lib.Steering
import AllScale.SchedulePolicy.DecisionTree
import AllScale.SchedulePolicy.FillTree
import AllScale.SchedulePolicy.TreePolicy
import AllScale.SchedulePolicy.Mapping
import AllScale.SchedulePolicy.ReadBack
import AllScale.SchedulePolicy.Uniform
import AllScale.SchedulePolicy.Descent
import AllScale.SchedulePolicy.LoadBalance
import AllScale.SchedulePolicy.Rebalance
import AllScale.SchedulePolicy.Migration
import AllScale.SchedulePolicy.Availability
import AllScale.Lib.Outcome
import AllScale.SchedulePolicy.Kinds
import AllScale.Resilience.Component
import AllScale.Resilience.Dispatched
import AllScale.Resilience.Ring
import AllScale.Resilience.Heartbeats
import AllScale.Tasks.PackedPath
import AllScale.Tasks.TaskId
import AllScale.Monitor.ProfileQueue
import AllScale.Lib.OrderedSet
import AllScale.Optimizer.Pareto
import AllScale.Optimizer.InternodeOptimizer
import AllScale.Optimizer.History
import AllScale.Optimizer.Tuner
import AllScale.Optimizer.NelderMead
import AllScale.SchedulePolicy.DecisionMap
import AllScale.SchedulePolicy.DecisionBounds
import AllScale.SchedulePolicy.ActiveNodes
import AllScale.Lib.KeyedList
import AllScale.DataItemManager.MergeRequirements
import AllScale.Tasks.TaskTimes
import AllScale.Lib.OrderedMap
import AllScale.Optimizer.GreedyPartition
import AllScale.Optimizer.DecideSchedule
import AllScale.Optimizer.BalanceIno
import AllScale.Optimizer.ParetoTies
import AllScale.Lib.CycleWalk
import AllScale.Resilience.Recovery
import AllScale.Optimizer.Descent
import AllScale.Optimizer.Redirection
import AllScale.Optimizer.SecondWorst
import AllScale.Optimizer.Constraints
import AllScale.Monitor.Dependencies
import AllScale.Monitor.TaskGraph
import AllScale.Monitor.Averages
import AllScale.Monitor.PreviousIteration
import AllScale.HardwareReconf
import AllScale.Dashboard
import AllScale.DataItemManager.Routing
import AllScale.Tasks.NumaNodes
import AllScale.SchedulePolicy.Dispatch
import AllScale.SchedulePolicy.Broadcast
import AllScale.SchedulePolicy.BroadcastRuns
import AllScale.SchedulePolicy.Serving
import AllScale.Tasks.Execution
import AllScale.Tasks.Progress
import AllScale.Tasks.Treeture
import AllScale.Tasks.TreetureValues
import AllScale.Tasks.TreetureReferences
import AllScale.DataItemManager.SharedData
import AllScale.Lib.Writes
import AllScale.Lib.Positions
import AllScale.Scheduler.ThreadPools
import AllScale.Scheduler.Throttling
import AllScale.Scheduler.ActiveThreads
import AllScale.Optimizer.Objectives
import AllScale.Optimizer.LocalOptimizer
import AllScale.Optimizer.LocalOptimizerRuns
import AllScale.Optimizer.Balancing
import AllScale.Optimizer.BalancingRounds
import AllScale.Optimizer.BalancingRuns
