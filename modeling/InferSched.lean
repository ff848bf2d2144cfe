import InferSched.Durable.Fencing
import InferSched.Engine.KvCheck
import InferSched.Engine.Request
import InferSched.Library.JsonFields
import InferSched.Durable.ResultEnvelope
import InferSched.Durable.OutboxRelay
import InferSched.Durable.KafkaPoller
import InferSched.Durable.Router
import InferSched.Durable.RouterRules
import InferSched.Durable.CommitSafety
import InferSched.Engine.CostModel
import InferSched.Engine.ExecutionState
import InferSched.Engine.RequestQueue
import InferSched.Engine.ResultCache
import InferSched.Library.Trie
import InferSched.Engine.RadixPrefixCache
import InferSched.Engine.RadixInvariant
import InferSched.Engine.ContinuousEngine
import InferSched.Engine.EngineSteps
import InferSched.Engine.EngineInvariant
import InferSched.Engine.EngineRuns
import InferSched.Engine.BatchConsistency
import InferSched.Engine.Conservation
import InferSched.Engine.TailBlocks
import InferSched.Engine.Termination
import InferSched.Durable.UnfencedCompletion
import InferSched.Durable.MessageHandling
import InferSched.Engine.PrefixCache
import InferSched.Engine.StaticBatchPolicy
import InferSched.Engine.DeterministicEngine
import InferSched.Engine.BatchAnswers
import InferSched.Engine.CacheTransparency
import InferSched.Engine.PrefixInvariant
import InferSched.Engine.BatchInvariant
import InferSched.Engine.LeftBehind
import InferSched.Distributed.EngineService
import InferSched.Engine.IdleRuns
import InferSched.Distributed.JobRegister
import InferSched.Distributed.BatchResults
import InferSched.Distributed.Reservations
import InferSched.Distributed.JobResults
import InferSched.Distributed.Cancellation
import InferSched.Distributed.Draining
import InferSched.Concurrency.MpscRing
import InferSched.Concurrency.RingOrder
import InferSched.Distributed.Rejection
import InferSched.Gateway.FailedSubmissions
import InferSched.Engine.DecodeBlocks
import InferSched.Engine.TokenBudget
import InferSched.Engine.Examination
import InferSched.Engine.SharedBlocks
import InferSched.Engine.CacheCounters
import InferSched.Engine.AccessStamps
import InferSched.Engine.MachineEngine
import InferSched.Engine.MachineInvariant
import InferSched.Engine.MachineRefinement
import InferSched.Engine.MachineRuns
import InferSched.Engine.MachineFaults
import InferSched.Engine.SubmissionOrder
import InferSched.Engine.ResultTimes
import InferSched.Engine.Transitions
import InferSched.Engine.Peaks
import InferSched.Engine.BatchAccounting
import InferSched.Durable.StateVersions
import InferSched.Library.Tasks
import InferSched.Durable.PoisonRecords
import InferSched.Durable.RelayRaces
import InferSched.Engine.RadixRuns
import InferSched.Engine.RadixPaths
import InferSched.Engine.PrefixAgreement
import InferSched.Engine.ResultCacheRuns
import InferSched.Engine.PrefixRuns
import InferSched.Engine.BatchSelection
import InferSched.Durable.OffsetRuns
import InferSched.Engine.CostArithmetic
import InferSched.Library.OrderStatistics
import InferSched.Metrics.Histogram
import InferSched.Engine.CacheKeys
import InferSched.Engine.RadixEviction
import InferSched.Distributed.DispatchStream
import InferSched.Library.TeamRestriction
import InferSched.Durable.ResultProvenance
import InferSched.Durable.RecoveryRuns
import InferSched.Library.Leases
import InferSched.Distributed.RouterService
import InferSched.Distributed.CapacityReports
import InferSched.Library.Census
import InferSched.Gateway.Lifecycle
import InferSched.Concurrency.ShardedRegistry
import InferSched.Engine.BlockContents
import InferSched.Concurrency.RingProgress
import InferSched.Engine.BusyPeriods
import InferSched.Durable.RowStates
import InferSched.Gateway.ClientAnswers
import InferSched.Engine.Preemption
import InferSched.Engine.HashlessRequests
import InferSched.Durable.DuplicateDelivery
import InferSched.Durable.OrderlyQueues
import InferSched.Durable.GrantedCalls
import InferSched.Durable.SteadyRuns
