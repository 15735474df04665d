-- SUMMARY: The neural broker: solver placement, load reservation and dispatch to peer-owned workers.
import NeuralPubSub.Broker.Recovery

open Base

/-!
# The neural broker

`NeuralBroker` of `src/broker/neural_broker.py`. It keeps a network topology
beside its registry, reserves load when it dispatches a stage and releases it
when the result arrives.
-/

namespace NeuralPubSub
namespace NeuralBroker

/-! ## Topology -/

/-- The latency entries of a list of workers, each pair in registry order. -/
def latencyPairs : List WorkerInfo → List ((NodeId × NodeId) × ℚ)
  | [] => []
  | a :: rest =>
    (rest.map fun b =>
      ((a.nodeId, b.nodeId), if a.domainId = b.domainId then (2 : ℚ) else 20)) ++ latencyPairs rest

def executionUnit (w : WorkerInfo) : ExecutionUnit where
  nodeId := w.nodeId
  domainId := w.domainId
  sliceId := w.sliceId
  capacity := w.capacity
  currentLoad := w.currentLoad

/-- `_rebuild_topology`. -/
def rebuildTopology (b : Broker) : Broker :=
  { b with topology :=
      { nodes := b.workers.values.map executionUnit
        latencyMatrix := .ofList (latencyPairs b.workers.values) } }

/-- Give the first node of that id another load. -/
def setNodeLoad (nodeId : NodeId) (load : ℚ) : List ExecutionUnit → List ExecutionUnit
  | [] => []
  | eu :: rest =>
    if eu.nodeId = nodeId then { eu with currentLoad := load } :: rest
    else eu :: setNodeLoad nodeId load rest

/-- `_update_worker_load`. -/
def updateWorkerLoad (nodeId : NodeId) (delta : ℚ) (b : Broker) : Broker :=
  match b.workers.get? nodeId with
  | none => b
  | some worker =>
    let load := max 0 (worker.currentLoad + delta)
    { b with
      workers := b.workers.insert nodeId { worker with currentLoad := load }
      topology := { b.topology with nodes := setNodeLoad nodeId load b.topology.nodes } }

section Frame

variable (nodeId : NodeId) (delta : ℚ) (b : Broker)

@[simp] theorem pipelines_updateWorkerLoad :
    (updateWorkerLoad nodeId delta b).pipelines = b.pipelines := by
  unfold updateWorkerLoad
  split <;> rfl

@[simp] theorem activePipelines_updateWorkerLoad :
    (updateWorkerLoad nodeId delta b).activePipelines = b.activePipelines := by
  unfold updateWorkerLoad
  split <;> rfl

@[simp] theorem metrics_updateWorkerLoad :
    (updateWorkerLoad nodeId delta b).metrics = b.metrics := by
  unfold updateWorkerLoad
  split <;> rfl

@[simp] theorem clock_updateWorkerLoad : (updateWorkerLoad nodeId delta b).clock = b.clock := by
  unfold updateWorkerLoad
  split <;> rfl

@[simp] theorem peers_updateWorkerLoad :
    (updateWorkerLoad nodeId delta b).shardedPeerWorkerUrls = b.shardedPeerWorkerUrls := by
  unfold updateWorkerLoad
  split <;> rfl

theorem keys_updateWorkerLoad : (updateWorkerLoad nodeId delta b).workers.keys = b.workers.keys := by
  unfold updateWorkerLoad
  cases hw : b.workers.get? nodeId with
  | none => rfl
  | some worker => exact Dict.keys_insert_of_mem _ (Dict.mem_of_get?_eq_some hw)

theorem mem_workers_updateWorkerLoad (n : NodeId) :
    n ∈ (updateWorkerLoad nodeId delta b).workers ↔ n ∈ b.workers := by
  rw [Dict.mem_iff_mem_keys, keys_updateWorkerLoad, Dict.mem_iff_mem_keys]

end Frame

/-! ## Re-placement -/

/-- Solve the placement of the whole DAG again and take over the hosts of the
given stages; `false` when there is no feasible placement. -/
def replan (cfg : BrokerConfig) (pipelineId : PipelineId) (stagesToReplace : List StageId) :
    BrokerM Bool := do
  let topology ← Co.read (·.topology)
  if topology.nodes = [] then return false
  else
    let ps ← getPipeline pipelineId
    match findPlacement ps.dag topology cfg.governance cfg.weights with
    | .ok newPlacement =>
      Co.forEach stagesToReplace fun stageId => do
        let nodeId ← Co.ofExcept (subscript newPlacement stageId)
        Co.modify (·.updatePipeline pipelineId fun ps =>
          { ps with placement := ps.placement.insert stageId nodeId })
      return true
    | .error (.runtime _) => return false
    | .error e => Co.raise e

def replaceFailedStages (cfg : BrokerConfig) (deadNodeId : NodeId) : BrokerM Unit :=
  NeuralPubSub.replaceFailedStages cfg (replan cfg) deadNodeId

/-- A successful probe brings the load that the worker reports. -/
def syncLoad (probe : ProbeResult) (b : Broker) : Broker :=
  match probe.reportedLoad with
  | none => b
  | some load =>
    { b with workers := b.workers.modify probe.nodeId fun w => { w with currentLoad := load } }

def healthCheck (cfg : BrokerConfig) (results : List ProbeResult) : BrokerM Unit :=
  NeuralPubSub.healthCheck rebuildTopology (replaceFailedStages cfg) cfg.healthCheckMaxFailures
    syncLoad results

/-! ## Stage dispatch -/

/-- Where this broker takes stage results. -/
def selfUrl (cfg : BrokerConfig) : String :=
  if cfg.selfUrl = "" then s!"http://{cfg.brokerId}:{cfg.port}" else cfg.selfUrl

/-- The URL of the worker, and whether a peer owns it. -/
def dispatchUrl (nodeId : NodeId) (b : Broker) : Option (String × Bool) :=
  match b.workers.get? nodeId with
  | some worker => some (worker.url, false)
  | none => (b.shardedPeerWorkerUrls.get? nodeId).map (·, true)

/-- The part of `_dispatch_stage` that follows a failed send. -/
def redispatch (cfg : BrokerConfig) (pipelineId : PipelineId) (stageId : StageId) (nodeId : NodeId)
    (stage : Stage) (payload : ExecuteRequest) (exc : PyError) : BrokerM Unit := do
  Co.modify fun b =>
    { b with workerFailures :=
        b.workerFailures.insert nodeId (b.workerFailures.getD nodeId 0 + 1) }
  let exhausted := do
    Co.modify (updateWorkerLoad nodeId (-stage.computationalDemand))
    dispatchExhausted pipelineId (s!"Dispatch of stage '{stageId}' to '{nodeId}' failed " ++
      s!"and re-placement was unsuccessful: {exc.text}")
  if ← replan cfg pipelineId [stageId] then
    let ps ← getPipeline pipelineId
    let newNodeId ← Co.ofExcept (subscript ps.placement stageId)
    match ← Co.read (·.workers.get? newNodeId) with
    | none => exhausted
    | some newWorker =>
      match ← Co.request (workerMessage cfg newNodeId newWorker.url payload) with
      | .ok () => return ()
      | .error _ => exhausted
  else exhausted

/-- `_dispatch_stage`. -/
def dispatchStage (cfg : BrokerConfig) (pipelineId : PipelineId) (stageId : StageId) :
    BrokerM Unit := do
  let ps ← getPipeline pipelineId
  let nodeId ← Co.ofExcept (subscript ps.placement stageId)
  match ← Co.read (dispatchUrl nodeId) with
  | none => dispatchExhausted pipelineId s!"Worker '{nodeId}' not registered."
  | some (url, peerDispatch) =>
    let stage ← Co.ofExcept (ps.dag.getStage stageId)
    let now ← Co.read (·.clock)
    Co.modify (·.record
      { pipelineId := ps.pipelineId, stageId := stageId, event := .dispatched, timestamp := now
        nodeId := nodeId, pipelineType := ps.pipelineType })
    let resultUrl := if peerDispatch then some (rstripSlash (selfUrl cfg)) else none
    let payload := executeRequest cfg ps stageId stage resultUrl
    Co.modify (updateWorkerLoad nodeId stage.computationalDemand)
    match ← Co.request (workerMessage cfg nodeId url payload) with
    | .ok () => return ()
    | .error exc => redispatch cfg pipelineId stageId nodeId stage payload exc

/-! ## Handlers -/

/-- The handler of `POST /publish`, from the point where the pipeline is placed.
A placement that fails the check is only counted as a violation, but the check
itself may raise. -/
def publish (cfg : BrokerConfig) (req : PlacedPipeline) : BrokerM Response := do
  registerPipeline cfg req
  let _ ← Co.ofExcept
    (checkFeasibility req.placement req.dag req.feasibilityTopology cfg.governance)
  dispatchReadyStages cfg req.pipelineId
  return .dispatched req.pipelineId (← Co.read (·.answeredPlacement req))

/-- The handler of `POST /result`. -/
def result (cfg : BrokerConfig) (req : StageResultRequest) : BrokerM Response := do
  let now ← Co.read (·.clock)
  Co.modify (·.record (stageRecord req .stageResultReceived now "__pending__"))
  match ← Co.read (·.activePipeline? req.pipelineId) with
  | none => return .unknownPipeline req.pipelineId
  | some ps =>
    Co.modify (·.updatePipeline req.pipelineId (·.recordResult req))
    Co.modify (·.record (stageRecord req .stageStart req.startTime ps.pipelineType))
    Co.modify (·.record (stageRecord req .stageEnd req.endTime ps.pipelineType))
    let stage ← Co.ofExcept (ps.dag.getStage req.stageId)
    Co.modify (updateWorkerLoad req.nodeId (-stage.computationalDemand))
    completeOrAdvance cfg req

/-- The handler of `POST /register`. -/
def register (req : RegisterRequest) : BrokerM Response := do
  Co.modify fun b => { b with workers := b.workers.insert req.nodeId (req.workerInfo req.bidCostMs) }
  Co.modify rebuildTopology
  return .registered req.nodeId

/-- Mark the active pipelines that use the node as failed. -/
def failPipelinesOn (nodeId : NodeId) (b : Broker) : Broker :=
  b.activePipelines.foldl (fun b pipelineId =>
    b.updatePipeline pipelineId fun ps =>
      if nodeId ∈ ps.placement.values ∧ ¬ ps.failed then
        let error := s!"Worker '{nodeId}' deregistered while pipeline " ++
          s!"'{ps.pipelineId}' was in flight."
        { ps with failed := true, error := some error }
      else ps) b

/-- The handler of `DELETE /register`. -/
def deregister (nodeId : NodeId) : BrokerM Response := do
  if nodeId ∉ (← Co.read (·.workers)) then Co.raise (notRegistered nodeId)
  else
    Co.modify fun b => { b with workers := b.workers.erase nodeId }
    Co.modify rebuildTopology
    Co.modify (failPipelinesOn nodeId)
    return .deregistered nodeId

/-- The handlers of a neural broker. -/
def body (cfg : BrokerConfig) : Call → BrokerM Response
  | .publish req => publish cfg req
  | .register req => register req
  | .deregister nodeId => deregister nodeId
  | .result req => result cfg req
  | .dispatchStage pipelineId stageId => do
    dispatchStage cfg pipelineId stageId
    return .none
  | .healthCheck results => do
    healthCheck cfg results
    return .none
  | .cachePeerWorkers urls => do
    Co.modify fun b => { b with shardedPeerWorkerUrls := urls }
    return .none
  | .tick time => do
    Co.modify fun b => { b with clock := time }
    return .none

end NeuralBroker
end NeuralPubSub
