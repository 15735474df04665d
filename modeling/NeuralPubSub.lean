import NeuralPubSub.Base.Dict
import NeuralPubSub.Base.Graph
import NeuralPubSub.Base.Scan
import NeuralPubSub.Base.TreeDp
import NeuralPubSub.Base.Freshest
import NeuralPubSub.Base.Coroutine
import NeuralPubSub.Base.Refines
import NeuralPubSub.Base.FileName
import NeuralPubSub.Base.OrderStatistic
import NeuralPubSub.Pipeline.Dag
import NeuralPubSub.Pipeline.DagInvariants
import NeuralPubSub.Pipeline.Builder
import NeuralPubSub.Measurement.Harness
import NeuralPubSub.Broker.Models
import NeuralPubSub.Broker.FunnelResilience
import NeuralPubSub.Broker.ReadyStages
import NeuralPubSub.Broker.Placement.Topology
import NeuralPubSub.Broker.Placement.Feasibility
import NeuralPubSub.Broker.Placement.EdgeBounds
import NeuralPubSub.Broker.Placement.Constraints
import NeuralPubSub.Broker.Placement.Cost
import NeuralPubSub.Broker.Placement.Greedy
import NeuralPubSub.Broker.Placement.Dp
import NeuralPubSub.Broker.Placement.DpTables
import NeuralPubSub.Broker.Placement.DpOptimality
import NeuralPubSub.Broker.Placement.Redistribution
import NeuralPubSub.Broker.Placement.DpSafety
import NeuralPubSub.Broker.Placement.RedistributionSafety
import NeuralPubSub.Broker.Placement.Completion
import NeuralPubSub.Broker.Placement.Heuristics
import NeuralPubSub.Broker.Placement.LatencyOrder
import NeuralPubSub.Broker.Placement.TrustedEdges
import NeuralPubSub.Broker.Placement.Splice
import NeuralPubSub.Broker.Placement.Market
import NeuralPubSub.Broker.Placement.MarketLedger
import NeuralPubSub.Broker.Placement.Clearing
import NeuralPubSub.Broker.Placement.Congestion
import NeuralPubSub.Broker.State
import NeuralPubSub.Broker.Base
import NeuralPubSub.Broker.Recovery
import NeuralPubSub.Broker.Static
import NeuralPubSub.Broker.Neural
import NeuralPubSub.Broker.Handlers
import NeuralPubSub.Broker.Safety
import NeuralPubSub.Broker.SuccessFinal
import NeuralPubSub.Broker.StrayResults
import NeuralPubSub.Broker.FairComparison
import NeuralPubSub.Broker.ShardedOracle
import NeuralPubSub.Broker.ShardMerge
import NeuralPubSub.Broker.ShardCoverage
import NeuralPubSub.Broker.MergedGovernance
import NeuralPubSub.Broker.GlobalTrust
import NeuralPubSub.Broker.DispatchLoad
import NeuralPubSub.Broker.RegistryAgreement
import NeuralPubSub.Broker.Replacement
import NeuralPubSub.Broker.RepeatedResult
import NeuralPubSub.Broker.LoadConservation
import NeuralPubSub.Broker.Handover
import NeuralPubSub.Broker.InFlight
import NeuralPubSub.Broker.FailedPipelines
import NeuralPubSub.Broker.HealthyRun
import NeuralPubSub.Broker.SkippedStages
import NeuralPubSub.Broker.RecoveryProgress
import NeuralPubSub.Federation.Propagation
import NeuralPubSub.Federation.PeerCaches
import NeuralPubSub.Federation.PeerHealth
import NeuralPubSub.Federation.Routing
import NeuralPubSub.Federation.Compression
import NeuralPubSub.Federation.Forwarding
import NeuralPubSub.Workload.WarmUp
import NeuralPubSub.Workload.Worker
import NeuralPubSub.Measurement.Adaptation
import NeuralPubSub.Broker.FunnelTimeouts
import NeuralPubSub.Base.RoundRobin
import NeuralPubSub.Broker.RoundRobin
import NeuralPubSub.Broker.Eviction
import NeuralPubSub.Analysis.HolmBonferroni
import NeuralPubSub.Analysis.Throughput
import NeuralPubSub.Analysis.Degradation
import NeuralPubSub.Experiments.PhaseMain
import NeuralPubSub.Experiments.CrashRecovery
import NeuralPubSub.Pipeline.Assembly
import NeuralPubSub.Pipeline.Patterns
import NeuralPubSub.Base.Semaphore
import NeuralPubSub.Workload.Generator
import NeuralPubSub.Broker.Steps
import NeuralPubSub.Broker.Lifecycle
import NeuralPubSub.Broker.Isolation
import NeuralPubSub.Base.Collect
import NeuralPubSub.Measurement.Latency
import NeuralPubSub.Broker.Traces
import NeuralPubSub.Broker.Publish
import NeuralPubSub.Broker.StaticPublish
import NeuralPubSub.Base.MapMessages
import NeuralPubSub.Broker.KafkaConsumer
import NeuralPubSub.Broker.KafkaTransport
import NeuralPubSub.Base.CausalOrder
import NeuralPubSub.Broker.Causality
import NeuralPubSub.Base.Network
import NeuralPubSub.Federation.Deployment
import NeuralPubSub.Base.Workflow
import NeuralPubSub.Federation.Engines
