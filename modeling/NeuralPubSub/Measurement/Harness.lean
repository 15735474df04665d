-- SUMMARY: The metrics collector: the trace of each pipeline, and how a completion is recorded.
import NeuralPubSub.Broker.Models

open Base

/-!
# Measurement harness

The part of `MetricsCollector` that the brokers write to. The wall-clock bounds
and the federation and routing figures are left out: no broker reads them.
-/

namespace NeuralPubSub

/-- The members of `VALID_EVENTS`. -/
inductive TimestampEvent where
  | created
  | dispatched
  | placementComplete
  | stageStart
  | stageEnd
  | stageResultReceived
  | delivered
  deriving DecidableEq, Repr

/-- A single timestamped event at a stage boundary. -/
structure TimestampRecord where
  pipelineId : PipelineId
  stageId : StageId
  event : TimestampEvent
  timestamp : ℚ
  nodeId : NodeId
  /-- `metadata.get("pipeline_type", "unknown")`. -/
  pipelineType : String := "unknown"
  deriving DecidableEq, Repr

/-- Accumulated trace for a single pipeline execution. -/
structure PipelineTrace where
  pipelineId : PipelineId
  pipelineType : String
  timestamps : List TimestampRecord := []
  placement : Dict StageId NodeId := .empty
  success : Bool := false
  error : Option String := none
  /-- The field `partial`. -/
  isPartial : Bool := false
  deriving DecidableEq, Repr

/-- The arguments of one call of `complete_pipeline`. -/
structure Completion where
  pipelineId : PipelineId
  success : Bool
  error : Option String := none
  isPartial : Bool := false
  deriving DecidableEq, Repr

structure MetricsCollector where
  traces : Dict PipelineId PipelineTrace := .empty
  /-- The calls of `complete_pipeline` so far. A trace keeps the last one only. -/
  completions : List Completion := []
  deriving DecidableEq, Repr

/-- Append a timestamped event record to the trace of its pipeline. -/
def MetricsCollector.record (m : MetricsCollector) (r : TimestampRecord) : MetricsCollector :=
  let trace := m.traces.getD r.pipelineId
    { pipelineId := r.pipelineId, pipelineType := r.pipelineType }
  let placement :=
    if r.nodeId ≠ "" ∧ r.stageId ≠ "" then trace.placement.insert r.stageId r.nodeId
    else trace.placement
  let trace' := { trace with timestamps := trace.timestamps ++ [r], placement := placement }
  { m with traces := m.traces.insert r.pipelineId trace' }

/-- Mark a pipeline as complete. -/
def MetricsCollector.completePipeline (m : MetricsCollector) (c : Completion) : MetricsCollector :=
  let trace := m.traces.getD c.pipelineId { pipelineId := c.pipelineId, pipelineType := "unknown" }
  let trace' := { trace with success := c.success, error := c.error, isPartial := c.isPartial }
  { traces := m.traces.insert c.pipelineId trace', completions := m.completions ++ [c] }

/-- The outcome that the trace of a pipeline shows: success, error and partial. -/
def MetricsCollector.outcome (m : MetricsCollector) (pipelineId : PipelineId) :
    Option (Bool × Option String × Bool) :=
  (m.traces.get? pipelineId).map fun trace => (trace.success, trace.error, trace.isPartial)

/-- The calls of `complete_pipeline` for one pipeline so far. -/
def MetricsCollector.completionsOf (m : MetricsCollector) (pipelineId : PipelineId) :
    List Completion :=
  m.completions.filter (·.pipelineId = pipelineId)

@[simp] theorem MetricsCollector.completions_record (m : MetricsCollector) (r : TimestampRecord) :
    (m.record r).completions = m.completions := rfl

@[simp] theorem MetricsCollector.completions_completePipeline (m : MetricsCollector)
    (c : Completion) : (m.completePipeline c).completions = m.completions ++ [c] := rfl

@[simp] theorem MetricsCollector.completionsOf_record (m : MetricsCollector) (r : TimestampRecord)
    (pid : PipelineId) : (m.record r).completionsOf pid = m.completionsOf pid := rfl

theorem MetricsCollector.completionsOf_completePipeline (m : MetricsCollector) (c : Completion)
    (pid : PipelineId) : (m.completePipeline c).completionsOf pid =
      if c.pipelineId = pid then m.completionsOf pid ++ [c] else m.completionsOf pid := by
  unfold completionsOf
  rw [completions_completePipeline, List.filter_append]
  split <;> simp_all

/-- An event does not change the outcome that a trace shows. -/
theorem MetricsCollector.outcome_record {m : MetricsCollector} (r : TimestampRecord)
    {pid : PipelineId} {x : Bool × Option String × Bool} (h : m.outcome pid = some x) :
    (m.record r).outcome pid = some x := by
  unfold outcome record at *
  rw [Dict.get?_insert]
  split
  · next heq =>
    subst heq
    obtain ⟨trace, htrace, rfl⟩ := Option.map_eq_some_iff.mp h
    simp [Dict.getD, htrace]
  · exact h

/-- The trace of a completed pipeline shows the arguments of the call. -/
theorem MetricsCollector.outcome_completePipeline (m : MetricsCollector) (c : Completion)
    (pid : PipelineId) : (m.completePipeline c).outcome pid =
      if pid = c.pipelineId then some (c.success, c.error, c.isPartial) else m.outcome pid := by
  unfold outcome completePipeline
  rw [Dict.get?_insert]
  split <;> rfl

end NeuralPubSub
