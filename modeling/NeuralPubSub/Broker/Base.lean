-- SUMMARY: The handlers of the base broker: publishing, DAG walking, stage dispatch, result handling and registration.
import NeuralPubSub.Broker.State

open Base

/-!
# The base broker

`BaseBroker` of `src/broker/base.py`. A handler is written as the source writes
it; the locks are left out because no handler waits while it holds one.
-/

namespace NeuralPubSub

/-! ## DAG walking -/

/-- The message of a pipeline that the funnel policy fails. -/
def funnelError (result : FunnelPolicyResult) : String :=
  s!"funnel_{result.action.value}: pipeline failed due to " ++
    s!"funnel resilience policy ({result.action.value} mode)"

/-- Fail a pipeline and report its failure. -/
def failAndComplete (pipelineId : PipelineId) (error : String) : BrokerM Unit := do
  Co.modify (·.failPipeline pipelineId error)
  Co.modify (·.completePipeline
    { pipelineId := pipelineId, success := false, error := some error })

/-- `_dispatch_ready_stages`. -/
def dispatchReadyStages (cfg : BrokerConfig) (pipelineId : PipelineId) : BrokerM Unit := do
  let ps ← getPipeline pipelineId
  if ps.failed then return ()
  else
    let now ← Co.read (·.clock)
    let deadWorkers ← Co.read (·.deadWorkers ps)
    let scan := findReadyStages cfg.funnel deadWorkers now ps
    Co.modify (·.updatePipeline pipelineId fun _ => scan.ps)
    match scan.funnelResult.filter (·.pipelineFailed) with
    | some result => failAndComplete pipelineId (funnelError result)
    | none =>
      if scan.ready = [] then return ()
      else
        Co.modify (·.updatePipeline pipelineId fun ps =>
          { ps with dispatchedStages := ps.dispatchedStages ∪ scan.ready.toFinset })
        Co.gatherAll (scan.ready.map (.dispatchStage pipelineId))

/-- The scan that a dispatch round makes in the state `b`. -/
def Broker.readyScan (cfg : BrokerConfig) (b : Broker) (ps : PipelineState) : ReadyScan :=
  findReadyStages cfg.funnel (b.deadWorkers ps) b.clock ps

/-- The state in which a dispatch round waits for the stages it has scheduled. -/
def Broker.markReady (cfg : BrokerConfig) (b : Broker) (pipelineId : PipelineId)
    (ps : PipelineState) : Broker :=
  (b.updatePipeline pipelineId fun _ => (b.readyScan cfg ps).ps).updatePipeline pipelineId fun ps' =>
    { ps' with
      dispatchedStages := ps'.dispatchedStages ∪ (b.readyScan cfg ps).ready.toFinset }

theorem Broker.get?_markReady (cfg : BrokerConfig) (b : Broker) {pid : PipelineId}
    {ps : PipelineState} (h : b.pipelines.get? pid = some ps) (pid' : PipelineId) :
    (b.markReady cfg pid ps).pipelines.get? pid' =
      if pid' = pid then
        some { (b.readyScan cfg ps).ps with
          dispatchedStages := (b.readyScan cfg ps).ps.dispatchedStages ∪
            (b.readyScan cfg ps).ready.toFinset }
      else b.pipelines.get? pid' := by
  unfold markReady
  rw [get?_updatePipeline]
  split
  · simp [get?_updatePipeline, h]
  · next hne => rw [get?_updatePipeline, if_neg hne]

section Spec

variable {r : Wake Broker Call WorkerMessage PyError Response} {I : BrokerScene → Prop}
  {E : PyError → BrokerScene → Prop} {sc : BrokerScene} {cfg : BrokerConfig}

theorem wp_getPipeline {pid : PipelineId} {ps : PipelineState} {Q : PipelineState → BrokerScene → Prop}
    (h : sc.state.pipelines.get? pid = some ps) :
    (getPipeline pid).wp r I E Q sc ↔ Q ps sc := by
  have hsub : subscript sc.state.pipelines pid = .ok ps := subscript_eq_ok_iff.mpr h
  simp [getPipeline, hsub]

/-- What a dispatch round does: nothing for a failed pipeline; otherwise it scans,
and then fails the pipeline, finds nothing ready, or schedules what is ready. -/
theorem wp_dispatchReadyStages {pid : PipelineId} {ps : PipelineState}
    {Q : Unit → BrokerScene → Prop} (h : sc.state.pipelines.get? pid = some ps)
    (hfailed : ps.failed = true → Q () sc)
    (hpolicy : ps.failed = false → ∀ result,
      (sc.state.readyScan cfg ps).funnelResult = some result → result.pipelineFailed = true →
      Q () (sc.withState (((sc.state.updatePipeline pid fun _ =>
        (sc.state.readyScan cfg ps).ps).failPipeline pid (funnelError result)).completePipeline
          { pipelineId := pid, success := false, error := some (funnelError result) })))
    (hidle : ps.failed = false →
      (sc.state.readyScan cfg ps).funnelResult.filter (·.pipelineFailed) = none →
      (sc.state.readyScan cfg ps).ready = [] →
      Q () (sc.withState (sc.state.updatePipeline pid fun _ => (sc.state.readyScan cfg ps).ps)))
    (hready : ps.failed = false →
      (sc.state.readyScan cfg ps).funnelResult.filter (·.pipelineFailed) = none →
      (sc.state.readyScan cfg ps).ready ≠ [] →
      I ((sc.withState (sc.state.markReady cfg pid ps)).schedule
        ((sc.state.readyScan cfg ps).ready.map (.dispatchStage pid))) ∧
      ∀ sc', I sc' → ((sc.withState (sc.state.markReady cfg pid ps)).schedule
        ((sc.state.readyScan cfg ps).ready.map (.dispatchStage pid))).Before sc' → r.join sc' →
        Q () sc' ∧ ∀ e, E e sc') :
    (dispatchReadyStages cfg pid).wp r I E Q sc := by
  unfold dispatchReadyStages
  rw [Co.wp_monad_bind, wp_getPipeline h]
  have hscan : findReadyStages cfg.funnel (sc.state.deadWorkers ps) sc.state.clock ps =
      sc.state.readyScan cfg ps := rfl
  cases hf : ps.failed with
  | true => simpa [hf] using hfailed hf
  | false =>
    cases hres : (sc.state.readyScan cfg ps).funnelResult.filter (·.pipelineFailed) with
    | some result =>
      obtain ⟨hsome, hfail⟩ := Option.filter_eq_some_iff.mp hres
      simpa [hf, hscan, hres, failAndComplete] using hpolicy hf result hsome hfail
    | none =>
      by_cases hnil : (sc.state.readyScan cfg ps).ready = []
      · simpa [hf, hscan, hres, hnil] using hidle hf hres hnil
      · simpa [hf, hscan, hres, hnil, Broker.markReady] using hready hf hres hnil

end Spec

/-! ## Publishing -/

/-- A record of the pipeline as a whole. -/
def pipelineRecord (cfg : BrokerConfig) (req : PlacedPipeline) (event : TimestampEvent) (now : ℚ) :
    TimestampRecord where
  pipelineId := req.pipelineId
  stageId := "__pipeline__"
  event := event
  timestamp := now
  nodeId := cfg.brokerId
  pipelineType := req.pipelineType

/-- Register the pipeline that a publish request has built and placed. -/
def registerPipeline (cfg : BrokerConfig) (req : PlacedPipeline) : BrokerM Unit := do
  Co.modify fun b => { b with
    pipelines := b.pipelines.insert req.pipelineId
      { pipelineId := req.pipelineId, pipelineType := req.pipelineType
        dag := req.dag, placement := req.placement }
    activePipelines := b.activePipelines ++ [req.pipelineId] }
  let now ← Co.read (·.clock)
  Co.modify (·.record (pipelineRecord cfg req .created now))
  Co.modify (·.record (pipelineRecord cfg req .placementComplete now))

/-- The placement in the answer of a publish: the dict of the pipeline itself, in which
re-placements of the first round have changed the hosts. -/
def Broker.answeredPlacement (b : Broker) (req : PlacedPipeline) : Placement :=
  (b.pipelines.get? req.pipelineId).elim req.placement (·.placement)

/-! ## Result handling -/

/-- A record of the stage that a result names. -/
def stageRecord (req : StageResultRequest) (event : TimestampEvent) (time : ℚ)
    (pipelineType : String) : TimestampRecord where
  pipelineId := req.pipelineId
  stageId := req.stageId
  event := event
  timestamp := time
  nodeId := req.nodeId
  pipelineType := pipelineType

/-- Finalise or advance a pipeline whose result has been recorded. -/
def completeOrAdvance (cfg : BrokerConfig) (req : StageResultRequest) : BrokerM Response := do
  let ps ← getPipeline req.pipelineId
  if ps.failed then
    Co.modify (·.completePipeline
      { pipelineId := req.pipelineId, success := false, error := ps.error })
    Co.modify (·.popPipeline req.pipelineId)
    return .pipelineFailed req.pipelineId
  else if ps.completedStages = ps.allStages then
    let now ← Co.read (·.clock)
    Co.modify (·.record (stageRecord req .delivered now ps.pipelineType))
    Co.modify (·.completePipeline { pipelineId := req.pipelineId, success := true })
    Co.modify (·.popPipeline req.pipelineId)
    return .pipelineComplete req.pipelineId
  else
    dispatchReadyStages cfg req.pipelineId
    return .stageRecorded req.pipelineId req.stageId

/-! ## Registration -/

/-- The registry entry of a registration. -/
def RegisterRequest.workerInfo (req : RegisterRequest) (bidCostMs : ℚ) : WorkerInfo where
  nodeId := req.nodeId
  domainId := req.domainId
  sliceId := req.sliceId
  capacity := req.capacity
  url := if req.url = "" then s!"http://{req.clientHost}:8081" else req.url
  bidCostMs := bidCostMs

def notRegistered (nodeId : NodeId) : PyError := .http 404 s!"Worker '{nodeId}' not registered."

namespace BaseBroker

/-- `_dispatch_stage`. -/
def dispatchStage (cfg : BrokerConfig) (pipelineId : PipelineId) (stageId : StageId) :
    BrokerM Unit := do
  let ps ← getPipeline pipelineId
  let nodeId ← Co.ofExcept (subscript ps.placement stageId)
  match ← Co.read (·.workers.get? nodeId) with
  | none => failAndComplete pipelineId s!"Worker '{nodeId}' not registered."
  | some worker =>
    let stage ← Co.ofExcept (ps.dag.getStage stageId)
    let now ← Co.read (·.clock)
    Co.modify (·.record
      { pipelineId := ps.pipelineId, stageId := stageId, event := .dispatched, timestamp := now
        nodeId := nodeId, pipelineType := ps.pipelineType })
    let reply ← Co.request
      (workerMessage cfg nodeId worker.url (executeRequest cfg ps stageId stage none))
    match reply with
    | .ok () => return ()
    | .error exc =>
      failAndComplete pipelineId <| match cfg.transport with
        | .kafka => s!"Kafka publish failed for stage '{stageId}': {exc.text}"
        | .http => s!"Dispatch failed for stage '{stageId}': {exc.text}"

/-- The handler of `POST /publish`, from the point where the pipeline is placed. -/
def publish (cfg : BrokerConfig) (req : PlacedPipeline) : BrokerM Response := do
  registerPipeline cfg req
  dispatchReadyStages cfg req.pipelineId
  return .dispatched req.pipelineId (← Co.read (·.answeredPlacement req))

/-- `_handle_result`. -/
def handleResult (cfg : BrokerConfig) (req : StageResultRequest) : BrokerM Response := do
  let now ← Co.read (·.clock)
  Co.modify (·.record (stageRecord req .stageResultReceived now "unknown"))
  match ← Co.read (·.activePipeline? req.pipelineId) with
  | none => return .unknownPipeline req.pipelineId
  | some ps =>
    Co.modify (·.updatePipeline req.pipelineId (·.recordResult req))
    Co.modify (·.record (stageRecord req .stageStart req.startTime ps.pipelineType))
    Co.modify (·.record (stageRecord req .stageEnd req.endTime ps.pipelineType))
    completeOrAdvance cfg req

/-- The handler of `POST /register`; `onWorkerChange` is the hook of the subclass. -/
def register (onWorkerChange : Broker → Broker) (req : RegisterRequest) : BrokerM Response := do
  Co.modify fun b => { b with workers := b.workers.insert req.nodeId (req.workerInfo 0) }
  Co.modify onWorkerChange
  return .registered req.nodeId

/-- The handler of `DELETE /register`. -/
def deregister (onWorkerChange : Broker → Broker) (nodeId : NodeId) : BrokerM Response := do
  if nodeId ∉ (← Co.read (·.workers)) then Co.raise (notRegistered nodeId)
  else
    Co.modify fun b => { b with workers := b.workers.erase nodeId }
    Co.modify onWorkerChange
    return .deregistered nodeId

/-- The handlers of a base broker. It has no health checks and no peers. -/
def body (cfg : BrokerConfig) : Call → BrokerM Response
  | .publish req => publish cfg req
  | .register req => register id req
  | .deregister nodeId => deregister id nodeId
  | .result req => handleResult cfg req
  | .dispatchStage pipelineId stageId => do
    dispatchStage cfg pipelineId stageId
    return .none
  | .tick time => do
    Co.modify fun b => { b with clock := time }
    return .none
  | .healthCheck _ | .cachePeerWorkers _ => return .none

end BaseBroker
end NeuralPubSub
