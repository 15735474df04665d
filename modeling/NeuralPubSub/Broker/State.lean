-- SUMMARY: The state of a broker, the calls of its handlers, the messages it sends, and the updates the handlers share.
import NeuralPubSub.Base.Coroutine
import NeuralPubSub.Broker.Placement.Dp
import NeuralPubSub.Broker.ReadyStages
import NeuralPubSub.Measurement.Harness

open Base

/-!
# Broker state

One record serves `BaseBroker`, `StaticBroker` and `NeuralBroker`; a class
leaves the fields that it does not have at their defaults. The handlers share
`PipelineState` objects by reference: here an object is named by its pipeline id
and stays in `pipelines` for good, while `activePipelines` lists the keys of
`_active_pipelines`.
-/

namespace NeuralPubSub

/-! ## Configuration -/

inductive Transport where
  | http
  | kafka
  deriving DecidableEq, Repr

inductive PlacementStrategy where
  | roundRobin
  | random
  deriving DecidableEq, Repr

structure BrokerConfig where
  domainId : DomainId
  brokerId : String
  transport : Transport := .http
  /-- `self_url`, or the environment variable that replaces it. -/
  selfUrl : String := ""
  port : Nat := 8080
  weights : Weights := {}
  healthCheckMaxFailures : Nat := 3
  governanceEnabled : Bool := false
  localStageTypes : Finset String := ∅
  trustLevels : Dict DomainId ℚ := .empty
  funnel : FunnelConfig := {}
  placementStrategy : PlacementStrategy := .roundRobin

/-- Governance policy derived from config; an empty one when governance is disabled. -/
def BrokerConfig.governance (cfg : BrokerConfig) : GovernancePolicy :=
  if cfg.governanceEnabled then
    { localStageTypes := cfg.localStageTypes
      trustLevels := .ofList (cfg.trustLevels.entries.map fun e => ((cfg.domainId, e.1), e.2)) }
  else {}

/-! ## State -/

structure Broker where
  workers : Dict NodeId WorkerInfo := .empty
  pipelines : Dict PipelineId PipelineState := .empty
  activePipelines : List PipelineId := []
  metrics : MetricsCollector := {}
  /-- What `time.time()` reads. -/
  clock : ℚ := 0
  workerFailures : Dict NodeId Nat := .empty
  /-- `StaticBroker`: what each cycle still has to give, the next worker first. -/
  sliceCycles : Dict (Option SliceId) (List NodeId) := .empty
  /-- `StaticBroker`: the numbers that `random.choice` draws. -/
  draws : List Nat := []
  topology : NetworkTopology := ⟨[], .empty⟩
  shardedPeerWorkerUrls : Dict NodeId String := .empty

/-! ## Calls, messages and answers -/

/-- A publish request whose pipeline has been built and placed. The id is the
one that `uuid4` returns, and `feasibilityTopology` the snapshot that the
placement is checked against afterwards. -/
structure PlacedPipeline where
  pipelineId : PipelineId
  pipelineType : String
  dag : PipelineDAG
  placement : Placement
  feasibilityTopology : NetworkTopology := ⟨[], .empty⟩
  deriving DecidableEq

/-- Body for `POST /register`, with the host of the client. -/
structure RegisterRequest where
  nodeId : NodeId
  domainId : DomainId
  sliceId : SliceId
  capacity : ℚ
  url : String := ""
  bidCostMs : ℚ := 0
  clientHost : String := "127.0.0.1"
  deriving DecidableEq

/-- What one health probe returns: whether the worker is healthy, and its load. -/
structure ProbeResult where
  nodeId : NodeId
  healthy : Bool
  reportedLoad : Option ℚ := none
  deriving DecidableEq

/-- The handlers that run on a broker's event loop. -/
inductive Call where
  | publish (req : PlacedPipeline)
  | register (req : RegisterRequest)
  | deregister (nodeId : NodeId)
  | result (req : StageResultRequest)
  | dispatchStage (pipelineId : PipelineId) (stageId : StageId)
  /-- One round of the health check loop, once the probes are back. -/
  | healthCheck (results : List ProbeResult)
  /-- `_fetch_sharded_oracle_peer_topologies`, once the peers have answered. -/
  | cachePeerWorkers (urls : Dict NodeId String)
  | tick (time : ℚ)
  deriving DecidableEq

/-- The payload of `POST /execute`. -/
structure ExecuteRequest where
  pipelineId : PipelineId
  stageId : StageId
  stageType : String
  computationalDemand : ℚ
  brokerId : String
  pipelineType : String
  resultUrl : Option String := none
  deriving DecidableEq, Repr

inductive WorkerMessage where
  | http (url : String) (payload : ExecuteRequest)
  | kafka (topic : String) (targetWorker : NodeId) (targetUrl : String) (payload : ExecuteRequest)
  deriving DecidableEq, Repr

def WorkerMessage.payload : WorkerMessage → ExecuteRequest
  | .http _ payload | .kafka _ _ _ payload => payload

inductive Response where
  | unknownPipeline (pipelineId : PipelineId)
  | pipelineFailed (pipelineId : PipelineId)
  | pipelineComplete (pipelineId : PipelineId)
  | stageRecorded (pipelineId : PipelineId) (stageId : StageId)
  | dispatched (pipelineId : PipelineId) (placement : Placement)
  | registered (nodeId : NodeId)
  | deregistered (nodeId : NodeId)
  /-- The call returns nothing. -/
  | none
  deriving DecidableEq

abbrev BrokerM := Co Broker Call WorkerMessage PyError
abbrev BrokerScene := Scene Broker Call WorkerMessage PyError Response
abbrev BrokerWorld := World Broker Call WorkerMessage PyError Response

/-! ## Shared updates -/

namespace Broker

/-- `_active_pipelines.get`. -/
def activePipeline? (b : Broker) (pipelineId : PipelineId) : Option PipelineState :=
  if pipelineId ∈ b.activePipelines then b.pipelines.get? pipelineId else none

def updatePipeline (b : Broker) (pipelineId : PipelineId) (f : PipelineState → PipelineState) :
    Broker :=
  { b with pipelines := b.pipelines.modify pipelineId f }

/-- `_active_pipelines.pop`. -/
def popPipeline (b : Broker) (pipelineId : PipelineId) : Broker :=
  { b with activePipelines := b.activePipelines.filter (· ≠ pipelineId) }

def record (b : Broker) (r : TimestampRecord) : Broker := { b with metrics := b.metrics.record r }

def completePipeline (b : Broker) (c : Completion) : Broker :=
  { b with metrics := b.metrics.completePipeline c }

/-- Mark a pipeline as failed and take it out of the active ones. -/
def failPipeline (b : Broker) (pipelineId : PipelineId) (error : String) : Broker :=
  (b.updatePipeline pipelineId fun ps => { ps with failed := true, error := some error }).popPipeline
    pipelineId

section Fields

variable (b : Broker) (pid : PipelineId) (f : PipelineState → PipelineState) (r : TimestampRecord)
  (c : Completion) (error : String)

@[simp] theorem workers_updatePipeline : (b.updatePipeline pid f).workers = b.workers := rfl
@[simp] theorem active_updatePipeline :
    (b.updatePipeline pid f).activePipelines = b.activePipelines := rfl
@[simp] theorem metrics_updatePipeline : (b.updatePipeline pid f).metrics = b.metrics := rfl
@[simp] theorem topology_updatePipeline : (b.updatePipeline pid f).topology = b.topology := rfl
@[simp] theorem peers_updatePipeline :
    (b.updatePipeline pid f).shardedPeerWorkerUrls = b.shardedPeerWorkerUrls := rfl
@[simp] theorem clock_updatePipeline : (b.updatePipeline pid f).clock = b.clock := rfl
@[simp] theorem workers_popPipeline : (b.popPipeline pid).workers = b.workers := rfl
@[simp] theorem pipelines_popPipeline : (b.popPipeline pid).pipelines = b.pipelines := rfl
@[simp] theorem active_popPipeline :
    (b.popPipeline pid).activePipelines = b.activePipelines.filter (· ≠ pid) := rfl
@[simp] theorem metrics_popPipeline : (b.popPipeline pid).metrics = b.metrics := rfl
@[simp] theorem topology_popPipeline : (b.popPipeline pid).topology = b.topology := rfl
@[simp] theorem peers_popPipeline :
    (b.popPipeline pid).shardedPeerWorkerUrls = b.shardedPeerWorkerUrls := rfl
@[simp] theorem workers_record : (b.record r).workers = b.workers := rfl
@[simp] theorem pipelines_record : (b.record r).pipelines = b.pipelines := rfl
@[simp] theorem active_record : (b.record r).activePipelines = b.activePipelines := rfl
@[simp] theorem topology_record : (b.record r).topology = b.topology := rfl
@[simp] theorem peers_record : (b.record r).shardedPeerWorkerUrls = b.shardedPeerWorkerUrls := rfl
@[simp] theorem clock_record : (b.record r).clock = b.clock := rfl
@[simp] theorem completions_record :
    (b.record r).metrics.completions = b.metrics.completions := rfl
@[simp] theorem workers_completePipeline : (b.completePipeline c).workers = b.workers := rfl
@[simp] theorem pipelines_completePipeline : (b.completePipeline c).pipelines = b.pipelines := rfl
@[simp] theorem active_completePipeline :
    (b.completePipeline c).activePipelines = b.activePipelines := rfl
@[simp] theorem topology_completePipeline : (b.completePipeline c).topology = b.topology := rfl
@[simp] theorem peers_completePipeline :
    (b.completePipeline c).shardedPeerWorkerUrls = b.shardedPeerWorkerUrls := rfl
@[simp] theorem completions_completePipeline :
    (b.completePipeline c).metrics.completions = b.metrics.completions ++ [c] := rfl
@[simp] theorem workers_failPipeline : (b.failPipeline pid error).workers = b.workers := rfl
@[simp] theorem active_failPipeline :
    (b.failPipeline pid error).activePipelines = b.activePipelines.filter (· ≠ pid) := rfl
@[simp] theorem metrics_failPipeline : (b.failPipeline pid error).metrics = b.metrics := rfl
@[simp] theorem topology_failPipeline : (b.failPipeline pid error).topology = b.topology := rfl
@[simp] theorem peers_failPipeline :
    (b.failPipeline pid error).shardedPeerWorkerUrls = b.shardedPeerWorkerUrls := rfl

theorem get?_updatePipeline (pid' : PipelineId) : (b.updatePipeline pid f).pipelines.get? pid' =
    if pid' = pid then (b.pipelines.get? pid).map f else b.pipelines.get? pid' :=
  Dict.get?_modify ..

theorem get?_failPipeline (pid' : PipelineId) : (b.failPipeline pid error).pipelines.get? pid' =
    if pid' = pid then
      (b.pipelines.get? pid).map fun ps => { ps with failed := true, error := some error }
    else b.pipelines.get? pid' :=
  Dict.get?_modify ..

end Fields

/-- The workers in the placement of a pipeline that are not in the registry. -/
def deadWorkers (b : Broker) (ps : PipelineState) : Finset NodeId :=
  ps.placement.values.toFinset \ b.workers.keys.toFinset

end Broker

/-- The pipeline object that a handler holds. -/
def getPipeline (pipelineId : PipelineId) : BrokerM PipelineState := do
  Co.ofExcept (subscript (← Co.read (·.pipelines)) pipelineId)

/-- `worker.url.rstrip('/')`. -/
def rstripSlash (url : String) : String :=
  String.ofList (url.toList.reverse.dropWhile (· = '/')).reverse

/-- The message that hands a stage to a worker. -/
def workerMessage (cfg : BrokerConfig) (nodeId : NodeId) (url : String) (payload : ExecuteRequest) :
    WorkerMessage :=
  match cfg.transport with
  | .http => .http s!"{rstripSlash url}/execute" payload
  | .kafka => .kafka payload.pipelineType nodeId url payload

@[simp] theorem payload_workerMessage (cfg : BrokerConfig) (nodeId : NodeId) (url : String)
    (payload : ExecuteRequest) : (workerMessage cfg nodeId url payload).payload = payload := by
  unfold workerMessage
  cases cfg.transport <;> rfl

/-- The payload for a stage of a pipeline. -/
def executeRequest (cfg : BrokerConfig) (ps : PipelineState) (stageId : StageId) (stage : Stage)
    (resultUrl : Option String) : ExecuteRequest where
  pipelineId := ps.pipelineId
  stageId := stageId
  stageType := stage.stageType
  computationalDemand := stage.computationalDemand
  brokerId := cfg.brokerId
  pipelineType := ps.pipelineType
  resultUrl := resultUrl

/-- What a stage result does to the pipeline it names. -/
def PipelineState.recordResult (ps : PipelineState) (req : StageResultRequest) : PipelineState :=
  if req.success then { ps with completedStages := insert req.stageId ps.completedStages }
  else
    let error := match req.error with
      | some e => if e = "" then s!"Stage '{req.stageId}' failed." else e
      | none => s!"Stage '{req.stageId}' failed."
    { ps with failed := true, error := some error }

end NeuralPubSub
