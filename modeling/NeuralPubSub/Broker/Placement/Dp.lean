-- SUMMARY: Placement of tree DAGs by dynamic programming: the tables, the trace and the redistribution pass.
import NeuralPubSub.Broker.Placement.Greedy

open Base

/-!
# Dynamic programming placement

`_dp_placement` and `find_placement`. The tables are filled along a topological
order, with the sink as the root; the trace reads an assignment off them, and a
last pass moves co-located predecessors of a stage to other nodes.
-/

namespace NeuralPubSub

variable (dag : PipelineDAG) (topology : NetworkTopology) (governance : GovernancePolicy)
  (w : Weights)

/-- The ids of the nodes, in order; the tables are indexed by position in it. -/
def NetworkTopology.nodeIds (t : NetworkTopology) : List NodeId := t.nodes.map (·.nodeId)

/-! ## The tables -/

/-- `dp` and `choice`: for each stage and node, the least cost of the subtree and
the node index it takes for each predecessor. -/
structure DpTables where
  dp : Dict StageId (List (WithTop ℚ)) := .empty
  choice : Dict StageId (List (Dict StageId ℕ)) := .empty

/-- The loop that finds the best node for one predecessor when the stage is on `node`. -/
def bestPredecessorNode (predRow : List (WithTop ℚ)) (edge? : Option Edge) (nid : NodeId)
    (node : ExecutionUnit) : Except PyError (WithTop ℚ × Option (NodeId × ℕ)) :=
  firstMinM (fun m : NodeId × ℕ => do
    let predCost := predRow.getD m.2 ⊤
    if predCost = ⊤ then return ⊤
    let lat ← topology.latency nid m.1
    -- a missing edge has no bound
    if edge?.any (fun edge => lat > edge.latencyBound + tolerance) then return ⊤
    let predDomain := (← topology.getNode m.1).domainId
    if ! governance.trusts predDomain node.domainId then return ⊤
    let cross := if predDomain ≠ node.domainId then 1 else 0
    return predCost + (w.alpha * lat : ℚ) + (w.gamma * cross : ℚ)) topology.nodeIds.zipIdx

/-- The loop over the predecessors: it abandons the candidate node when one of
them has no feasible node. -/
def combinePredecessors (tables : DpTables) (stageId : StageId) (nid : NodeId)
    (node : ExecutionUnit) : List StageId → WithTop ℚ → Dict StageId ℕ →
    Except PyError (WithTop ℚ × Dict StageId ℕ)
  | [], total, childChoices => return (total, childChoices)
  | predId :: preds, total, childChoices => do
    let predRow ← subscript tables.dp predId
    let best ← bestPredecessorNode topology governance w predRow (dag.getEdge predId stageId) nid node
    match best.2 with
    | none => return (⊤, .empty)
    | some m =>
      combinePredecessors tables stageId nid node preds (total + best.1)
        (childChoices.insert predId m.2)

/-- The table entries of a stage on one candidate node. -/
def dpCell (tables : DpTables) (stageId : StageId) (stage : Stage) (nid : NodeId) :
    Except PyError (WithTop ℚ × Dict StageId ℕ) := do
  let node ← topology.getNode nid
  if ! isNodeFeasibleSimple stage node governance then return (⊤, .empty)
  let localCost : ℚ := w.beta * loadRatio stage node
  combinePredecessors dag topology governance w tables stageId nid node (dag.predecessors stageId)
    localCost .empty

def dpStage (tables : DpTables) (stageId : StageId) : Except PyError DpTables := do
  let stage ← dag.getStage stageId
  let row ← topology.nodeIds.mapM (dpCell dag topology governance w tables stageId stage)
  return { dp := tables.dp.insert stageId (row.map Prod.fst)
           choice := tables.choice.insert stageId (row.map Prod.snd) }

/-! ## The trace -/

/-- `_trace`, with the depth of the recursion bounded by the first argument. -/
def trace (nodeIds : List NodeId) (choice : Dict StageId (List (Dict StageId ℕ))) :
    ℕ → StageId → ℕ → Placement → Placement
  | 0, _, _, placement => placement
  | fuel + 1, stageId, ni, placement =>
    (((choice.getD stageId []).getD ni .empty).entries).foldl
      (fun placement e => trace nodeIds choice fuel e.1 e.2 placement)
      (placement.insert stageId (nodeIds.getD ni ""))

/-- The assignment that `_dp_placement` has before its redistribution pass. -/
def dpAssignment (order : List StageId) : Except PyError Placement := do
  let tables ← order.foldlM (dpStage dag topology governance w) {}
  match dag.sinks with
  | [] => .error (.index "list index out of range")
  | sinkId :: _ => do
    let sinkRow ← subscript tables.dp sinkId
    let best ← firstMinM (fun ni => return sinkRow.getD ni ⊤) (List.range topology.nodeIds.length)
    match best.2 with
    | none => .error (.runtime "No feasible DP placement found for the tree DAG.")
    | some ni => return trace topology.nodeIds tables.choice dag.stages.keys.length sinkId ni .empty

/-! ## Redistribution -/

/-- Move a sibling off `nid`, to the least-loaded node that is feasible for it
and has room. The state is the placement and the load committed to each node. -/
def redistributeSibling (nid : NodeId) (s : Placement × Dict NodeId ℚ) (predId : StageId) :
    Except PyError (Placement × Dict NodeId ℚ) := do
  let (placement, committedLoad) := s
  let predStage ← dag.getStage predId
  let best ← firstMinM (fun node : ExecutionUnit =>
    let current := committedLoad.getD node.nodeId 0
    let residual := node.capacity - node.currentLoad - current
    if node.nodeId = nid then return ⊤
    else if ! isNodeFeasibleSimple predStage node governance then return ⊤
    else if residual < predStage.computationalDemand - tolerance then return ⊤
    else return (current : WithTop ℚ)) topology.nodes
  match best.2 with
  | none => return s
  | some bestAlt => do
    let oldNid ← subscript placement predId
    let oldLoad ← subscript committedLoad oldNid
    let committedLoad := committedLoad.insert oldNid (oldLoad - predStage.computationalDemand)
    return (placement.insert predId bestAlt.nodeId, committedLoad.insert bestAlt.nodeId
      (committedLoad.getD bestAlt.nodeId 0 + predStage.computationalDemand))

/-- Group the predecessors of a stage by the node they are on. -/
def groupByNode (placement : Placement) (preds : List StageId) :
    Except PyError (Dict NodeId (List StageId)) :=
  preds.foldlM (fun nodeToPreds predId => do
    let nid ← subscript placement predId
    return nodeToPreds.insert nid (nodeToPreds.getD nid [] ++ [predId])) .empty

/-- Keep the heaviest of a group of co-located siblings, and try to move the others. -/
def redistributeGroup (s : Placement × Dict NodeId ℚ) (group : NodeId × List StageId) :
    Except PyError (Placement × Dict NodeId ℚ) := do
  if group.2.length ≤ 1 then return s
  let keyed ← group.2.mapM fun sid => return (-(← dag.getStage sid).computationalDemand, sid)
  let colocated := (keyed.insertionSort fun a b => a.1 ≤ b.1).map Prod.snd
  colocated.tail.foldlM (redistributeSibling dag topology governance group.1) s

def redistributeStage (s : Placement × Dict NodeId ℚ) (stageId : StageId) :
    Except PyError (Placement × Dict NodeId ℚ) := do
  let preds := dag.predecessors stageId
  if preds.length < 2 then return s
  let nodeToPreds ← groupByNode s.1 preds
  nodeToPreds.entries.foldlM (redistributeGroup dag topology governance) s

def redistribute (order : List StageId) (placement : Placement) : Except PyError Placement := do
  let committedLoad ← nodeLoads placement dag
  let s ← order.foldlM (redistributeStage dag topology governance) (placement, committedLoad)
  return s.1

/-! ## The solvers -/

def dpPlacement : Except PyError Placement := do
  let order ← dag.topologicalSort
  let placement ← dpAssignment dag topology governance w order
  redistribute dag topology governance order placement

def findPlacement : Except PyError Placement :=
  if dag.stages.keys.length = 0 then return .empty
  else if dag.isTree then dpPlacement dag topology governance w
  else greedyPlacement dag topology governance w

end NeuralPubSub
