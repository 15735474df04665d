-- SUMMARY: The pipeline DAG of stages and latency-bounded edges, with its builder and structural queries.
import NeuralPubSub.Base.Graph

open Base

/-!
# Pipeline DAGs

`PipelineDAG` as `src/pipeline/dag.py` keeps it: the stages in insertion order,
the list of edges, an index from an ordered pair of stages to an edge, and the
two adjacency maps. Demands, latency bounds and budgets are exact rationals.
-/

namespace NeuralPubSub

/-- The exceptions the modelled code raises, with their messages. -/
inductive PyError where
  | index (msg : String)
  | key (msg : String)
  | type (msg : String)
  | value (msg : String)
  | overflow (msg : String)
  | runtime (msg : String)
  | zeroDivision (msg : String)
  /-- `HTTPException`. -/
  | http (statusCode : Nat) (detail : String)
  /-- What the HTTP client or the Kafka producer raises. -/
  | transport (msg : String)
  deriving DecidableEq, Repr

/-- `str(exc)`. -/
def PyError.text : PyError → String
  | .index msg | .key msg | .type msg | .value msg | .overflow msg | .runtime msg
  | .zeroDivision msg | .transport msg => msg
  | .http statusCode detail => s!"{statusCode}: {detail}"

/-- Division of floats. -/
def divide (x y : ℚ) : Except PyError ℚ :=
  if y = 0 then .error (.zeroDivision "float division by zero") else .ok (x / y)

/-- The subscript `d[k]`, which raises `KeyError` on a missing key. -/
def subscript {ν : Type} (d : Dict String ν) (k : String) : Except PyError ν :=
  match d.get? k with
  | some v => .ok v
  | none => .error (.key s!"'{k}'")

@[simp] theorem subscript_eq_ok_iff {ν : Type} {d : Dict String ν} {k : String} {v : ν} :
    subscript d k = .ok v ↔ d.get? k = some v := by
  unfold subscript
  cases d.get? k <;> simp

/-! ## Stages and edges -/

abbrev StageId := String
abbrev DomainId := String
abbrev SliceId := String

structure Stage where
  id : StageId
  stageType : String
  computationalDemand : ℚ
  outputDataRate : ℚ
  sliceRequirement : Option SliceId := none
  dataSovereigntyDomain : Option DomainId := none
  metadata : Option (Dict String String) := none
  deriving DecidableEq, Repr

structure Edge where
  sourceId : StageId
  targetId : StageId
  latencyBound : ℚ
  deriving DecidableEq, Repr

structure PipelineDAG where
  stages : Dict StageId Stage
  edges : List Edge
  edgeIndex : Dict (StageId × StageId) Edge
  successorLists : Dict StageId (List StageId)
  predecessorLists : Dict StageId (List StageId)
  valueBudget : Option ℚ
  deriving DecidableEq, Repr

namespace PipelineDAG

/-! ## Queries -/

def stage? (d : PipelineDAG) (stageId : StageId) : Option Stage := d.stages.get? stageId

def getStage (d : PipelineDAG) (stageId : StageId) : Except PyError Stage :=
  subscript d.stages stageId

def getEdge (d : PipelineDAG) (sourceId targetId : StageId) : Option Edge :=
  d.edgeIndex.get? (sourceId, targetId)

def predecessors (d : PipelineDAG) (stageId : StageId) : List StageId :=
  d.predecessorLists.getD stageId []

def successors (d : PipelineDAG) (stageId : StageId) : List StageId :=
  d.successorLists.getD stageId []

def sources (d : PipelineDAG) : List StageId :=
  d.stages.keys.filter fun sid => d.predecessors sid = []

def sinks (d : PipelineDAG) : List StageId :=
  d.stages.keys.filter fun sid => d.successors sid = []

/-- `_can_reach`. -/
def canReach (d : PipelineDAG) (fromId toId : StageId) : Bool :=
  if fromId = toId then true
  else Graph.bfs d.successors toId (d.stages.keys.length + 1) [fromId] ∅

/-- The in-degrees `topological_sort` starts from. -/
def inDegree (d : PipelineDAG) : Dict StageId Int :=
  d.edges.foldl (fun indeg e => indeg.modify e.targetId (· + 1))
    (Dict.ofList (d.stages.keys.map fun sid => (sid, 0)))

def topologicalSort (d : PipelineDAG) : Except PyError (List StageId) :=
  let indeg := d.inDegree
  let queue := indeg.keys.filter fun sid => indeg.getD sid 0 = 0
  let order := Graph.kahn d.successors d.stages.keys.length indeg queue []
  if order.length ≠ d.stages.keys.length then
    .error (.runtime "Topological sort failed: the graph contains a cycle.")
  else .ok order

/-- The loop of `is_tree`: `none` at the first stage with two or more
successors, otherwise the number of sinks. -/
def countSinks (d : PipelineDAG) : List StageId → Nat → Option Nat
  | [], sinkCount => some sinkCount
  | sid :: sids, sinkCount =>
    let nSucc := (d.successors sid).length
    if nSucc > 1 then none
    else if nSucc = 0 then countSinks d sids (sinkCount + 1)
    else countSinks d sids sinkCount

def isTree (d : PipelineDAG) : Bool := d.countSinks d.stages.keys 0 = some 1

/-! ## Construction

A call returns its result together with the DAG it leaves behind, so that a
call that raises is a call like any other. -/

def empty (valueBudget : Option ℚ) : PipelineDAG where
  stages := .empty
  edges := []
  edgeIndex := .empty
  successorLists := .empty
  predecessorLists := .empty
  valueBudget := valueBudget

def addStage (d : PipelineDAG) (stage : Stage) : Except PyError Unit × PipelineDAG :=
  if stage.id ∈ d.stages then
    (.error (.value s!"Stage '{stage.id}' already exists in the DAG."), d)
  else (.ok (), { d with stages := d.stages.insert stage.id stage })

def addEdge (d : PipelineDAG) (edge : Edge) : Except PyError Unit × PipelineDAG :=
  if edge.sourceId ∉ d.stages then
    (.error (.value s!"Source stage '{edge.sourceId}' not found in the DAG."), d)
  else if edge.targetId ∉ d.stages then
    (.error (.value s!"Target stage '{edge.targetId}' not found in the DAG."), d)
  -- the target must not be able to reach the source
  else if d.canReach edge.targetId edge.sourceId then
    (.error (.value s!"Adding edge {edge.sourceId} -> {edge.targetId} would create a cycle."), d)
  else
    (.ok (), { d with
      edges := d.edges ++ [edge]
      edgeIndex := d.edgeIndex.insert (edge.sourceId, edge.targetId) edge
      successorLists :=
        d.successorLists.insert edge.sourceId (d.successors edge.sourceId ++ [edge.targetId])
      predecessorLists :=
        d.predecessorLists.insert edge.targetId (d.predecessors edge.targetId ++ [edge.sourceId]) })

/-- The DAGs that some sequence of builder calls produces, raising calls
included. -/
inductive Built : PipelineDAG → Prop
  | empty (valueBudget : Option ℚ) : Built (.empty valueBudget)
  | addStage {d : PipelineDAG} (stage : Stage) : Built d → Built (d.addStage stage).2
  | addEdge {d : PipelineDAG} (edge : Edge) : Built d → Built (d.addEdge edge).2

/-- Add the stages, then the edges, to an empty DAG; raising calls are skipped. -/
def ofLists (stages : List Stage) (edges : List Edge) : PipelineDAG :=
  edges.foldl (fun d e => (d.addEdge e).2)
    (stages.foldl (fun d s => (d.addStage s).2) (.empty none))

theorem built_ofLists (stages : List Stage) (edges : List Edge) : (ofLists stages edges).Built := by
  have hstages : ∀ (ss : List Stage) (d : PipelineDAG), d.Built →
      (ss.foldl (fun d s => (d.addStage s).2) d).Built := by
    intro ss
    induction ss with
    | nil => exact fun d h => h
    | cons s ss ih => exact fun d h => ih _ (h.addStage s)
  have hedges : ∀ (es : List Edge) (d : PipelineDAG), d.Built →
      (es.foldl (fun d e => (d.addEdge e).2) d).Built := by
    intro es
    induction es with
    | nil => exact fun d h => h
    | cons e es ih => exact fun d h => ih _ (h.addEdge e)
  exact hedges edges _ (hstages stages _ (.empty none))

end PipelineDAG
end NeuralPubSub
