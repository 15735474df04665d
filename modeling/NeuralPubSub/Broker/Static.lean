-- SUMMARY: The static broker: round-robin and random placement, with dispatch-time recovery.
import NeuralPubSub.Broker.Recovery

open Base

/-!
# The static broker

`StaticBroker` of `src/broker/static_broker.py`. It takes the publish and result
handlers from the base broker.
-/

namespace NeuralPubSub
namespace StaticBroker

/-! ## Picking workers -/

/-- Sorted ids of the workers eligible for the slice. -/
def eligibleWorkers (b : Broker) (sliceRequirement : Option SliceId) : List NodeId :=
  ((b.workers.entries.filter fun e => sliceMatches e.2.sliceId sliceRequirement).map
    Prod.fst).insertionSort (· ≤ ·)

/-- `_rebuild_cycle`: a cycle for no requirement and for each slice of a worker. -/
def rebuildCycle (b : Broker) : Broker :=
  let slices := (b.workers.values.map (·.sliceId)).filter (· ≠ "flat")
  let sliceKeys := none :: slices.dedup.map some
  { b with sliceCycles := .ofList ((sliceKeys.map fun req => (req, eligibleWorkers b req)).filter
      fun e => e.2 ≠ []) }

def noEligibleWorkers (sliceRequirement : Option SliceId) : PyError :=
  let slice := sliceRequirement.getD "None"
  .runtime s!"No eligible workers for slice '{slice}'."

/-- `_pick_worker`. -/
def pickWorker (cfg : BrokerConfig) (sliceRequirement : Option SliceId) (b : Broker) :
    Except PyError NodeId × Broker :=
  if b.workers.keys = [] then (.error (.runtime "No workers registered."), b)
  else
    let eligible := eligibleWorkers b sliceRequirement
    match cfg.placementStrategy with
    | .random =>
      match eligible[b.draws.headD 0 % eligible.length]? with
      | none => (.error (noEligibleWorkers sliceRequirement), b)
      | some nodeId => (.ok nodeId, { b with draws := b.draws.tail })
    | .roundRobin =>
      -- a cycle is never empty, so an empty list is a missing one
      let cycle := match b.sliceCycles.getD sliceRequirement [] with
        | [] => eligible
        | cycle => cycle
      match cycle with
      | [] => (.error (noEligibleWorkers sliceRequirement), b)
      | nodeId :: rest =>
        (.ok nodeId,
          { b with sliceCycles := b.sliceCycles.insert sliceRequirement (rest ++ [nodeId]) })

/-! ## Recovery -/

/-- Re-place one stage; `false` when no worker is eligible. -/
def replaceStage (cfg : BrokerConfig) (pipelineId : PipelineId) (stageId : StageId) :
    BrokerM Bool := do
  let ps ← getPipeline pipelineId
  let stage ← Co.ofExcept (ps.dag.getStage stageId)
  match ← Co.update (pickWorker cfg stage.sliceRequirement) with
  | .ok nodeId =>
    Co.modify (·.updatePipeline pipelineId fun ps =>
      { ps with placement := ps.placement.insert stageId nodeId })
    return true
  | .error (.runtime _) => return false
  | .error e => Co.raise e

/-- Re-place the stages one after the other, up to the first without a worker. -/
def replaceAll (cfg : BrokerConfig) (pipelineId : PipelineId) : List StageId → BrokerM Bool
  | [] => return true
  | stageId :: rest => do
    if ← replaceStage cfg pipelineId stageId then replaceAll cfg pipelineId rest
    else return false

def replan (cfg : BrokerConfig) (pipelineId : PipelineId) (stagesToReplace : List StageId) :
    BrokerM Bool := do
  if (← Co.read (·.workers.keys)) = [] then return false
  else replaceAll cfg pipelineId stagesToReplace

def replaceFailedStages (cfg : BrokerConfig) (deadNodeId : NodeId) : BrokerM Unit :=
  NeuralPubSub.replaceFailedStages cfg (replan cfg) deadNodeId

def healthCheck (cfg : BrokerConfig) (results : List ProbeResult) : BrokerM Unit :=
  NeuralPubSub.healthCheck rebuildCycle (replaceFailedStages cfg) cfg.healthCheckMaxFailures
    (fun _ b => b) results

/-! ## Dispatch with recovery -/

/-- Take a worker out of the registry after a failed dispatch. -/
def evict (nodeId : NodeId) (b : Broker) : Broker :=
  if nodeId ∈ b.workers then
    let b := rebuildCycle { b with workers := b.workers.erase nodeId }
    { b with workerFailures := b.workerFailures.erase nodeId }
  else b

/-- The part of `_dispatch_stage` that follows a failed send. -/
def redispatch (cfg : BrokerConfig) (pipelineId : PipelineId) (stageId : StageId) (nodeId : NodeId)
    (payload : ExecuteRequest) : BrokerM Unit := do
  let exhausted := s!"Dispatch of stage '{stageId}' to '{nodeId}' failed " ++
    "and re-placement was unsuccessful."
  Co.modify (evict nodeId)
  if ← replan cfg pipelineId [stageId] then
    let ps ← getPipeline pipelineId
    let newNodeId ← Co.ofExcept (subscript ps.placement stageId)
    match ← Co.read (·.workers.get? newNodeId) with
    | none => dispatchExhausted pipelineId exhausted
    | some newWorker =>
      match ← Co.request (workerMessage cfg newNodeId newWorker.url payload) with
      | .ok () => return ()
      | .error _ => dispatchExhausted pipelineId exhausted
  else dispatchExhausted pipelineId exhausted

/-- `_dispatch_stage`. -/
def dispatchStage (cfg : BrokerConfig) (pipelineId : PipelineId) (stageId : StageId) :
    BrokerM Unit := do
  let ps ← getPipeline pipelineId
  let nodeId ← Co.ofExcept (subscript ps.placement stageId)
  match ← Co.read (·.workers.get? nodeId) with
  | none => failAndComplete pipelineId s!"Worker '{nodeId}' not registered."
  | some worker =>
    let stage ← Co.ofExcept (ps.dag.getStage stageId)
    let now ← Co.read (·.clock)
    Co.modify (·.record
      { pipelineId := ps.pipelineId, stageId := stageId, event := .dispatched, timestamp := now
        nodeId := nodeId, pipelineType := ps.pipelineType })
    let payload := executeRequest cfg ps stageId stage none
    match ← Co.request (workerMessage cfg nodeId worker.url payload) with
    | .ok () => return ()
    | .error _ => redispatch cfg pipelineId stageId nodeId payload

/-- The handlers of a static broker. -/
def body (cfg : BrokerConfig) : Call → BrokerM Response
  | .publish req => BaseBroker.publish cfg req
  | .register req => BaseBroker.register rebuildCycle req
  | .deregister nodeId => BaseBroker.deregister rebuildCycle nodeId
  | .result req => BaseBroker.handleResult cfg req
  | .dispatchStage pipelineId stageId => do
    dispatchStage cfg pipelineId stageId
    return .none
  | .healthCheck results => do
    healthCheck cfg results
    return .none
  | .tick time => do
    Co.modify fun b => { b with clock := time }
    return .none
  | .cachePeerWorkers _ => return .none

end StaticBroker
end NeuralPubSub
