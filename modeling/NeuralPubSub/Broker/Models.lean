-- SUMMARY: The broker's records: registered workers, in-flight pipelines and stage results.
import NeuralPubSub.Pipeline.Dag

open Base

/-!
# Broker models

The dataclasses of `src/broker/models.py` with the fields that placement,
dispatch and result handling read or write. Times are exact rationals.
-/

namespace NeuralPubSub

abbrev NodeId := String
abbrev PipelineId := String

/-- Registration record for a connected worker node. -/
structure WorkerInfo where
  nodeId : NodeId
  domainId : DomainId
  sliceId : SliceId
  capacity : ℚ
  url : String
  currentLoad : ℚ := 0
  bidCostMs : ℚ := 0
  deriving DecidableEq, Repr

/-- Tracks an in-flight pipeline execution. -/
structure PipelineState where
  pipelineId : PipelineId
  pipelineType : String
  dag : PipelineDAG
  placement : Dict StageId NodeId
  completedStages : Finset StageId := ∅
  dispatchedStages : Finset StageId := ∅
  failed : Bool := false
  error : Option String := none
  /-- The field `partial`. -/
  isPartial : Bool := false
  skippedStages : Finset StageId := ∅
  funnelWaitStart : Option ℚ := none
  deriving DecidableEq

/-- `all_stages`, which `__post_init__` caches; the DAG is not modified afterwards. -/
def PipelineState.allStages (ps : PipelineState) : Finset StageId := ps.dag.stages.keys.toFinset

/-- Body for `POST /result`, sent by a worker after a stage has run. -/
structure StageResultRequest where
  pipelineId : PipelineId
  stageId : StageId
  nodeId : NodeId
  startTime : ℚ
  endTime : ℚ
  success : Bool := true
  error : Option String := none
  deriving DecidableEq, Repr

end NeuralPubSub
