-- SUMMARY: The funnel resilience policy: what a fan-in stage with missing inputs does.
import NeuralPubSub.Broker.Models

open Base

/-!
# Funnel resilience

`src/broker/funnel_resilience.py`. The three environment variables are read
into a `FunnelConfig`; the decision itself is `applyFunnelPolicy`.
-/

namespace NeuralPubSub

inductive FunnelMode where
  | wait
  | proceed
  | abort
  deriving DecidableEq, Repr

inductive FunnelAction where
  | wait
  | proceed
  | abort
  | fail
  deriving DecidableEq, Repr

/-- The value of a `FunnelAction`, as error messages print it. -/
def FunnelAction.value : FunnelAction → String
  | .wait => "wait"
  | .proceed => "proceed"
  | .abort => "abort"
  | .fail => "fail"

/-- Result of applying the funnel resilience policy. -/
structure FunnelPolicyResult where
  action : FunnelAction
  isPartial : Bool
  pipelineComplete : Bool
  pipelineFailed : Bool
  deriving DecidableEq, Repr

/-- `FUNNEL_MODE`, `FUNNEL_TIMEOUT` and `FUNNEL_BYPASS_REPLACE`, with their defaults. -/
structure FunnelConfig where
  mode : FunnelMode := .wait
  timeout : ℚ := 30
  bypassReplace : Bool := false
  deriving DecidableEq, Repr

/-- Decide how to handle a funnel stage with potentially missing inputs. -/
def applyFunnelPolicy (mode : FunnelMode) (expectedInputs receivedInputs : Finset StageId)
    (timeoutReached : Bool) : FunnelPolicyResult :=
  -- all inputs received: proceed normally regardless of mode
  if expectedInputs ⊆ receivedInputs then
    { action := .proceed, isPartial := false, pipelineComplete := false, pipelineFailed := false }
  else
    match mode with
    | .wait =>
      if timeoutReached then
        { action := .fail, isPartial := false, pipelineComplete := false, pipelineFailed := true }
      else
        { action := .wait, isPartial := false, pipelineComplete := false, pipelineFailed := false }
    | .proceed =>
      { action := .proceed, isPartial := true, pipelineComplete := false, pipelineFailed := false }
    | .abort =>
      { action := .abort, isPartial := false, pipelineComplete := false, pipelineFailed := true }

/-- With an input missing, the policy proceeds in `proceed` mode only. -/
theorem applyFunnelPolicy_action_eq_proceed (mode : FunnelMode) {expected received : Finset StageId}
    (timeoutReached : Bool) (h : ¬ expected ⊆ received) :
    (applyFunnelPolicy mode expected received timeoutReached).action = .proceed ↔
      mode = .proceed := by
  unfold applyFunnelPolicy
  rw [if_neg h]
  cases mode <;> cases timeoutReached <;> simp

/-- With an input missing, the policy fails the pipeline in `abort` mode, and in
`wait` mode once the timeout is reached. -/
theorem applyFunnelPolicy_pipelineFailed {mode : FunnelMode} {expected received : Finset StageId}
    {timeoutReached : Bool} (h : ¬ expected ⊆ received) :
    (applyFunnelPolicy mode expected received timeoutReached).pipelineFailed = true ↔
      mode = .abort ∨ (mode = .wait ∧ timeoutReached = true) := by
  unfold applyFunnelPolicy
  rw [if_neg h]
  cases mode <;> cases timeoutReached <;> simp

/-- Stage ids that are predecessors of fan-in (funnel) stages. -/
def findFunnelPredecessorStages (dag : PipelineDAG) : Finset StageId :=
  dag.stages.keys.foldl (fun funnelPreds sid =>
    let preds := dag.predecessors sid
    if preds.length > 1 then funnelPreds ∪ preds.toFinset else funnelPreds) ∅

end NeuralPubSub
