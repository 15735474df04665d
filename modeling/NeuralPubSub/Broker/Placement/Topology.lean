-- SUMMARY: Execution units, the network topology, the governance policy and slice matching.
import NeuralPubSub.Base.Scan
import NeuralPubSub.Broker.Models

open Base

/-!
# Topologies

The problem data of `src/broker/placement.py`. Lookups raise `KeyError` as the
source does; `NetworkTopology.Complete` says when they do not.
-/

namespace NeuralPubSub

/-! ## Execution units -/

/-- A compute node that can host pipeline stages. -/
structure ExecutionUnit where
  nodeId : NodeId
  domainId : DomainId
  sliceId : SliceId
  capacity : ℚ
  currentLoad : ℚ := 0
  /-- The compute time in ms of each stage type. -/
  computeTimes : Option (Dict String ℚ) := none
  deriving DecidableEq, Repr

/-- Remaining capacity available for new stages. -/
def ExecutionUnit.residualCapacity (n : ExecutionUnit) : ℚ := n.capacity - n.currentLoad

/-- Network of execution units and pairwise latencies. -/
structure NetworkTopology where
  nodes : List ExecutionUnit
  latencyMatrix : Dict (NodeId × NodeId) ℚ
  deriving DecidableEq, Repr

namespace NetworkTopology

/-- The index `_node_map`, where a later node replaces an earlier one of the same id. -/
def nodeMap (t : NetworkTopology) : Dict NodeId ExecutionUnit :=
  .ofList (t.nodes.map fun n => (n.nodeId, n))

def getNode (t : NetworkTopology) (nodeId : NodeId) : Except PyError ExecutionUnit :=
  match t.nodeMap.get? nodeId with
  | some n => .ok n
  | none => .error (.key s!"Node '{nodeId}' not found in topology.")

/-- Network latency between two nodes; the matrix may store either ordering. -/
def latency (t : NetworkTopology) (a b : NodeId) : Except PyError ℚ :=
  if a = b then .ok 0
  else
    match t.latencyMatrix.get? (a, b) with
    | some l => .ok l
    | none =>
      match t.latencyMatrix.get? (b, a) with
      | some l => .ok l
      | none => .error (.key s!"No latency entry for ({a}, {b}).")

/-- Unique node ids and a symmetric latency for every pair of nodes. -/
structure Complete (t : NetworkTopology) : Prop where
  nodupIds : (t.nodes.map (·.nodeId)).Nodup
  latency : ∀ a ∈ t.nodes, ∀ b ∈ t.nodes, ∃ l, t.latency a.nodeId b.nodeId = .ok l ∧
    t.latency b.nodeId a.nodeId = .ok l

variable {t : NetworkTopology}

theorem complete_iff : t.Complete ↔ (t.nodes.map (·.nodeId)).Nodup ∧
    ∀ a ∈ t.nodes, ∀ b ∈ t.nodes, (t.latency a.nodeId b.nodeId).toBool = true ∧
      (t.latency a.nodeId b.nodeId).toOption = (t.latency b.nodeId a.nodeId).toOption := by
  refine ⟨fun h => ⟨h.nodupIds, fun a ha b hb => ?_⟩, fun ⟨hn, h⟩ => ⟨hn, fun a ha b hb => ?_⟩⟩
  · obtain ⟨l, hab, hba⟩ := h.latency a ha b hb
    rw [hab, hba]
    exact ⟨rfl, rfl⟩
  · obtain ⟨hok, heq⟩ := h a ha b hb
    cases hab : t.latency a.nodeId b.nodeId with
    | error e => rw [hab] at hok; cases hok
    | ok l =>
      cases hba : t.latency b.nodeId a.nodeId with
      | error e => rw [hab, hba] at heq; cases heq
      | ok l' =>
        rw [hab, hba] at heq
        cases heq
        exact ⟨l, rfl, rfl⟩

instance : Decidable t.Complete := decidable_of_iff' _ complete_iff

variable (t) in
theorem get?_nodeMap (h : (t.nodes.map (·.nodeId)).Nodup) {n : ExecutionUnit} (hn : n ∈ t.nodes) :
    t.nodeMap.get? n.nodeId = some n := by
  have hfst : (t.nodes.map fun n => (n.nodeId, n)).map Prod.fst = t.nodes.map (·.nodeId) := by
    simp [Function.comp_def]
  rw [Dict.get?_eq_some_iff, nodeMap, Dict.entries_ofList _ (by rw [hfst]; exact h)]
  exact List.mem_map_of_mem hn

theorem Complete.getNode (h : t.Complete) {n : ExecutionUnit} (hn : n ∈ t.nodes) :
    t.getNode n.nodeId = .ok n := by
  rw [NetworkTopology.getNode, t.get?_nodeMap h.nodupIds hn]

/-- The latency between two node ids, where `latency` does not raise. -/
def latencyOf (t : NetworkTopology) (a b : NodeId) : ℚ := (t.latency a b).toOption.getD 0

theorem Complete.latency_eq (h : t.Complete) {a b : ExecutionUnit} (ha : a ∈ t.nodes)
    (hb : b ∈ t.nodes) : t.latency a.nodeId b.nodeId = .ok (t.latencyOf a.nodeId b.nodeId) := by
  obtain ⟨l, hl, -⟩ := h.latency a ha b hb
  rw [latencyOf, hl]
  rfl

theorem Complete.latencyOf_comm (h : t.Complete) {a b : ExecutionUnit} (ha : a ∈ t.nodes)
    (hb : b ∈ t.nodes) : t.latencyOf a.nodeId b.nodeId = t.latencyOf b.nodeId a.nodeId := by
  obtain ⟨l, hab, hba⟩ := h.latency a ha b hb
  rw [latencyOf, latencyOf, hab, hba]

theorem Complete.eq_of_nodeId_eq (h : t.Complete) {a b : ExecutionUnit} (ha : a ∈ t.nodes)
    (hb : b ∈ t.nodes) (hid : a.nodeId = b.nodeId) : a = b :=
  List.inj_on_of_nodup_map h.nodupIds ha hb hid

end NetworkTopology

/-! ## Governance -/

/-- Data-governance and trust constraints for pipeline placement. -/
structure GovernancePolicy where
  localStageTypes : Finset String := ∅
  trustLevels : Dict (DomainId × DomainId) ℚ := .empty
  deriving DecidableEq

/-- Trust level between two domains; pairs that are not stored have none. -/
def GovernancePolicy.getTrust (g : GovernancePolicy) (a b : DomainId) : ℚ :=
  if a = b then 1
  else
    match g.trustLevels.get? (a, b) with
    | some trust => trust
    | none => g.trustLevels.getD (b, a) 0

/-- Whether a worker's slice satisfies a stage's requirement; a flat worker accepts any. -/
def sliceMatches (workerSlice : SliceId) (requiredSlice : Option SliceId) : Bool :=
  match requiredSlice with
  | none => true
  | some required => if workerSlice = "flat" then true else workerSlice = required

end NeuralPubSub
