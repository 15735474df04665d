-- SUMMARY: Health check rounds, the removal of dead workers and the re-placement of their stages.
import NeuralPubSub.Broker.Base

open Base

/-!
# Dead workers

`StaticBroker` and `NeuralBroker` recover in the same way and differ in how they
re-place a stage, in what a change of the registry updates, and in whether a
probe reports a load. These are the parameters here.
-/

namespace NeuralPubSub

/-! ## Re-placement -/

/-- The stages on a node that have not yet completed. -/
def PipelineState.incompleteOn (ps : PipelineState) (nodeId : NodeId) : List StageId :=
  (ps.placement.entries.filter fun e => e.2 = nodeId ∧ e.1 ∉ ps.completedStages).map Prod.fst

/-- `str` of a list of stage ids. -/
def stageListText (stages : List StageId) : String :=
  let quoted := stages.map fun sid => s!"'{sid}'"
  "[" ++ ", ".intercalate quoted ++ "]"

/-- The active pipelines that have not failed and use the node. -/
def Broker.affectedPipelines (b : Broker) (nodeId : NodeId) : List PipelineId :=
  b.activePipelines.filter fun pipelineId =>
    (b.pipelines.get? pipelineId).any fun ps => ¬ ps.failed ∧ nodeId ∈ ps.placement.values

section Replace

variable (cfg : BrokerConfig) (replan : PipelineId → List StageId → BrokerM Bool)

/-- The stages to re-place: with the bypass, predecessors of fan-in stages are
left to the funnel policy. -/
def stagesToReplace (ps : PipelineState) (deadNodeId : NodeId) : List StageId :=
  if cfg.funnel.bypassReplace then
    (ps.incompleteOn deadNodeId).filter (· ∉ findFunnelPredecessorStages ps.dag)
  else ps.incompleteOn deadNodeId

/-- Re-place the stages, if there are any. -/
def replaceUnlessNone (pipelineId : PipelineId) (stages : List StageId) : BrokerM Bool :=
  if stages = [] then return true else replan pipelineId stages

/-- One iteration of the loop of `_replace_failed_stages`. -/
def replaceStagesOf (deadNodeId : NodeId) (pipelineId : PipelineId) : BrokerM Unit := do
  let ps ← getPipeline pipelineId
  if ps.incompleteOn deadNodeId = [] then return ()
  else if ← replaceUnlessNone replan pipelineId (stagesToReplace cfg ps deadNodeId) then
    dispatchReadyStages cfg pipelineId
  else
    failAndComplete pipelineId (s!"Worker '{deadNodeId}' died; re-placement failed " ++
      s!"for stages {stageListText (ps.incompleteOn deadNodeId)}.")

/-- `_replace_failed_stages`. -/
def replaceFailedStages (deadNodeId : NodeId) : BrokerM Unit := do
  let affected ← Co.read (·.affectedPipelines deadNodeId)
  Co.forEach affected (replaceStagesOf cfg replan deadNodeId)

end Replace

/-! ## Health checks -/

section Health

variable (onWorkerChange : Broker → Broker) (replace : NodeId → BrokerM Unit)

/-- `_remove_dead_worker`. -/
def removeDeadWorker (nodeId : NodeId) : BrokerM Unit := do
  Co.modify fun b => { b with workerFailures := b.workerFailures.erase nodeId }
  Co.modify fun b =>
    if nodeId ∈ b.workers then onWorkerChange { b with workers := b.workers.erase nodeId } else b
  replace nodeId

/-- Count the consecutive failures; the workers that reach the limit are dead. -/
def trackProbes (maxFailures : Nat) (syncLoad : ProbeResult → Broker → Broker)
    (results : List ProbeResult) (b : Broker) : List NodeId × Broker :=
  results.foldl (fun (dead, b) probe =>
    if probe.healthy then
      (dead, syncLoad probe { b with workerFailures := b.workerFailures.erase probe.nodeId })
    else
      let count := b.workerFailures.getD probe.nodeId 0 + 1
      (if count ≥ maxFailures then dead ++ [probe.nodeId] else dead,
        { b with workerFailures := b.workerFailures.insert probe.nodeId count })) ([], b)

/-- One round of `_health_check_loop`, once the probes are back. -/
def healthCheck (maxFailures : Nat) (syncLoad : ProbeResult → Broker → Broker)
    (results : List ProbeResult) : BrokerM Unit := do
  let dead ← Co.update (trackProbes maxFailures syncLoad results)
  Co.forEach dead (removeDeadWorker onWorkerChange replace)

end Health

/-! ## Giving up -/

/-- The last step of a dispatch whose re-placement did not help. -/
def dispatchExhausted (pipelineId : PipelineId) (error : String) : BrokerM Unit :=
  Co.modify (·.failPipeline pipelineId error)

end NeuralPubSub
