-- SUMMARY: The whole-placement feasibility check and the per-stage checks, with what each accepts.
import NeuralPubSub.Broker.Placement.Topology
import NeuralPubSub.Pipeline.DagInvariants

open Base

/-!
# Feasibility

`check_feasibility` validates a complete placement; `_is_node_feasible` and
`_is_node_feasible_simple` test one stage on one node while a placement is being
built. Capacity, latency, governance and slice are the four constraint families.
-/

namespace NeuralPubSub

/-- The slack `1e-9` of every comparison of loads or latencies. -/
def tolerance : ℚ := 1 / 10 ^ 9

abbrev Placement := Dict StageId NodeId

/-! ## The whole check -/

/-- A violated constraint, with the values its message prints. -/
inductive Violation where
  | overloaded (nodeId : NodeId) (demand residual : ℚ)
  | notPlaced (sourceId targetId : StageId)
  | latency (sourceId targetId : StageId) (actual bound : ℚ) (sourceNode targetNode : NodeId)
  | noTrust (sourceDomain targetDomain : DomainId) (sourceId targetId : StageId)
  | wrongDomain (stageId : StageId) (required : DomainId) (nodeId : NodeId) (domainId : DomainId)
  | localOnly (stageId : StageId) (stageType : String)
  | wrongSlice (stageId : StageId) (required : Option SliceId) (nodeId : NodeId) (provided : SliceId)
  deriving DecidableEq, Repr

/-- Collect what `f` reports for each element, in order. -/
def collect {α : Type} (l : List α) (f : α → Except PyError (List Violation)) :
    Except PyError (List Violation) := do
  return (← l.mapM f).flatten

/-- The load that a placement puts on each node it uses. -/
def nodeLoads (placement : Placement) (dag : PipelineDAG) : Except PyError (Dict NodeId ℚ) :=
  placement.entries.foldlM (fun nodeLoad e => do
    let stage ← dag.getStage e.1
    return nodeLoad.insert e.2 (nodeLoad.getD e.2 0 + stage.computationalDemand)) .empty

def capacityViolations (topology : NetworkTopology) (nodeLoad : Dict NodeId ℚ) :
    Except PyError (List Violation) :=
  collect nodeLoad.entries fun e => do
    let node ← topology.getNode e.1
    if e.2 > node.residualCapacity + tolerance then
      return [.overloaded e.1 e.2 node.residualCapacity]
    else return []

def edgeViolations (placement : Placement) (topology : NetworkTopology)
    (governance : GovernancePolicy) (edge : Edge) : Except PyError (List Violation) :=
  match placement.get? edge.sourceId, placement.get? edge.targetId with
  | some src, some tgt => do
    let actual ← topology.latency src tgt
    let late := if actual > edge.latencyBound + tolerance then
      [.latency edge.sourceId edge.targetId actual edge.latencyBound src tgt] else []
    let srcDomain := (← topology.getNode src).domainId
    let tgtDomain := (← topology.getNode tgt).domainId
    let untrusted := if srcDomain ≠ tgtDomain ∧ governance.getTrust srcDomain tgtDomain ≤ 0 then
      [.noTrust srcDomain tgtDomain edge.sourceId edge.targetId] else []
    return late ++ untrusted
  | _, _ => return [.notPlaced edge.sourceId edge.targetId]

/-- The stage declares a sovereignty domain other than the given one. -/
def Stage.outsideDomain (stage : Stage) (domainId : DomainId) : Bool :=
  stage.dataSovereigntyDomain.any (· ≠ domainId)

def governanceViolations (dag : PipelineDAG) (topology : NetworkTopology)
    (governance : GovernancePolicy) (e : StageId × NodeId) : Except PyError (List Violation) := do
  let stage ← dag.getStage e.1
  let node ← topology.getNode e.2
  let sovereignty :=
    match stage.dataSovereigntyDomain with
    | some required =>
      if node.domainId ≠ required then [.wrongDomain e.1 required e.2 node.domainId] else []
    | none => []
  let localType := if stage.stageType ∈ governance.localStageTypes ∧ stage.outsideDomain node.domainId
    then [.localOnly e.1 stage.stageType] else []
  return sovereignty ++ localType

def sliceViolations (dag : PipelineDAG) (topology : NetworkTopology) (e : StageId × NodeId) :
    Except PyError (List Violation) := do
  let stage ← dag.getStage e.1
  let node ← topology.getNode e.2
  if sliceMatches node.sliceId stage.sliceRequirement then return []
  else return [.wrongSlice e.1 stage.sliceRequirement e.2 node.sliceId]

/-- Validate a placement against all constraint classes: whether it is feasible,
and the violations found. -/
def checkFeasibility (placement : Placement) (dag : PipelineDAG) (topology : NetworkTopology)
    (governance : GovernancePolicy) : Except PyError (Bool × List Violation) := do
  let nodeLoad ← nodeLoads placement dag
  let capacity ← capacityViolations topology nodeLoad
  let edges ← collect dag.edges (edgeViolations placement topology governance)
  let domains ← collect placement.entries (governanceViolations dag topology governance)
  let slices ← collect placement.entries (sliceViolations dag topology)
  let violations := capacity ++ edges ++ domains ++ slices
  return (violations.length = 0, violations)

/-! ## The per-stage checks -/

/-- `_is_node_feasible_simple`: capacity, slice, sovereignty and local stage type,
without context. -/
def isNodeFeasibleSimple (stage : Stage) (node : ExecutionUnit) (governance : GovernancePolicy) :
    Bool :=
  if stage.computationalDemand > node.residualCapacity + tolerance then false
  else if ! sliceMatches node.sliceId stage.sliceRequirement then false
  else if stage.outsideDomain node.domainId then false
  else if stage.stageType ∈ governance.localStageTypes ∧ stage.outsideDomain node.domainId then false
  else true

/-- The latency between `src` and `tgt` is within the bound of the edge, if there
is an edge. -/
def latencyWithin (topology : NetworkTopology) (edge? : Option Edge) (src tgt : NodeId) :
    Except PyError Bool :=
  match edge? with
  | none => return true
  | some edge => do
    let actual ← topology.latency src tgt
    return ! (actual > edge.latencyBound + tolerance)

/-- Data may flow from one domain to another. -/
def GovernancePolicy.trusts (g : GovernancePolicy) (src tgt : DomainId) : Bool :=
  if src ≠ tgt then ! (g.getTrust src tgt ≤ 0) else true

/-- Test the node that hosts `sid`, if the stage is placed already. -/
def ifPlaced (partialPlacement : Placement) (sid : StageId) (test : NodeId → Except PyError Bool) :
    Except PyError Bool :=
  match partialPlacement.get? sid with
  | some nid => test nid
  | none => return true

/-- `_is_node_feasible`: `_is_node_feasible_simple` together with the load
committed in this round and the edges to the neighbours placed so far. -/
def isNodeFeasible (stage : Stage) (node : ExecutionUnit) (dag : PipelineDAG)
    (topology : NetworkTopology) (governance : GovernancePolicy) (partialPlacement : Placement)
    (additionalLoad : Dict NodeId ℚ) : Except PyError Bool := do
  if ! isNodeFeasibleSimple stage node governance then return false
  let committed := additionalLoad.getD node.nodeId 0
  if committed > 0 ∧ stage.computationalDemand > node.residualCapacity - committed + tolerance then
    return false
  let predsInTime ← (dag.predecessors stage.id).allM fun predId =>
    ifPlaced partialPlacement predId fun predNodeId =>
      latencyWithin topology (dag.getEdge predId stage.id) predNodeId node.nodeId
  if ! predsInTime then return false
  let succsInTime ← (dag.successors stage.id).allM fun succId =>
    ifPlaced partialPlacement succId fun succNodeId =>
      latencyWithin topology (dag.getEdge stage.id succId) node.nodeId succNodeId
  if ! succsInTime then return false
  let predsTrusted ← (dag.predecessors stage.id).allM fun predId =>
    ifPlaced partialPlacement predId fun predNodeId =>
      return governance.trusts (← topology.getNode predNodeId).domainId node.domainId
  if ! predsTrusted then return false
  let succsTrusted ← (dag.successors stage.id).allM fun succId =>
    ifPlaced partialPlacement succId fun succNodeId =>
      return governance.trusts node.domainId (← topology.getNode succNodeId).domainId
  return succsTrusted

end NeuralPubSub
