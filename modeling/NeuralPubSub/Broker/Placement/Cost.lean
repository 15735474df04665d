-- SUMMARY: The weighted placement cost, and its value for given hosts.
import NeuralPubSub.Broker.Placement.Constraints

open Base

/-!
# Placement cost

`_placement_cost`: the weighted sum of the latencies of the edges, the load
ratios of the stages and the number of domain crossings.
-/

namespace NeuralPubSub

/-- The weights of the three cost terms. -/
structure Weights where
  alpha : ℚ := 1
  beta : ℚ := 1
  gamma : ℚ := 1
  deriving DecidableEq, Repr

/-- The load ratio of a stage on a node, with the capacity kept away from zero. -/
def loadRatio (stage : Stage) (node : ExecutionUnit) : ℚ :=
  stage.computationalDemand / max node.capacity (1 / 10 ^ 12)

/-- `_placement_cost`. -/
def placementCost (placement : Placement) (dag : PipelineDAG) (topology : NetworkTopology)
    (w : Weights) : Except PyError ℚ := do
  let (lTotal, dCross) ← dag.edges.foldlM (fun (acc : ℚ × ℕ) edge => do
    let srcNode ← subscript placement edge.sourceId
    let tgtNode ← subscript placement edge.targetId
    let lTotal := acc.1 + (← topology.latency srcNode tgtNode)
    if (← topology.getNode srcNode).domainId ≠ (← topology.getNode tgtNode).domainId then
      return (lTotal, acc.2 + 1)
    else return (lTotal, acc.2)) (0, 0)
  let uTotal ← placement.entries.foldlM (fun (acc : ℚ) e => do
    let stage ← dag.getStage e.1
    let node ← topology.getNode e.2
    return acc + loadRatio stage node) 0
  return w.alpha * lTotal + w.beta * uTotal + w.gamma * dCross

/-! ## The cost of given hosts -/

variable (dag : PipelineDAG) (topology : NetworkTopology) (w : Weights)

/-- One when the domains differ. -/
def crossing (a b : ExecutionUnit) : ℕ := if a.domainId ≠ b.domainId then 1 else 0

/-- The cost of an edge between two hosts. -/
def edgeCost (src tgt : ExecutionUnit) : ℚ :=
  w.alpha * topology.latencyOf src.nodeId tgt.nodeId + w.gamma * crossing src tgt

/-- The cost of a stage on its host. -/
def stageCost (sid : StageId) (node : ExecutionUnit) : ℚ :=
  w.beta * (dag.stage? sid).elim 0 (loadRatio · node)

/-- The cost of the hosts, edge by edge and stage by stage. -/
def hostsCost (host : StageId → ExecutionUnit) : ℚ :=
  (dag.edges.map fun e => edgeCost topology w (host e.sourceId) (host e.targetId)).sum +
    (dag.stages.keys.map fun sid => stageCost dag w sid (host sid)).sum

variable {dag topology}

theorem placementCost_spec (hw : dag.WellFormed) (hc : topology.Complete)
    {host : StageId → ExecutionUnit} {p : Placement} (h : Hosts dag topology host p) :
    placementCost p dag topology w = .ok (hostsCost dag topology w host) := by
  have hedges := foldlM_scan_ok (l := dag.edges) (b := ((0, 0) : ℚ × ℕ))
    (f := fun (acc : ℚ × ℕ) edge => do
      let srcNode ← subscript p edge.sourceId
      let tgtNode ← subscript p edge.targetId
      let lTotal := acc.1 + (← topology.latency srcNode tgtNode)
      if (← topology.getNode srcNode).domainId ≠ (← topology.getNode tgtNode).domainId then
        return (lTotal, acc.2 + 1)
      else return (lTotal, acc.2))
    (P := fun done (acc : ℚ × ℕ) => w.alpha * acc.1 + w.gamma * acc.2 =
      (done.map fun e => edgeCost topology w (host e.sourceId) (host e.targetId)).sum)
    (by simp) (by
    intro done e rest acc hsplit hacc
    have he : e ∈ dag.edges := by simp [hsplit]
    have hs := hw.source_mem e he
    have ht := hw.target_mem e he
    have hsn := h.mem_nodes _ hs
    have htn := h.mem_nodes _ ht
    simp only [subscript_eq_ok_iff.mpr (h.get? _ hs), subscript_eq_ok_iff.mpr (h.get? _ ht),
      hc.latency_eq hsn htn, hc.getNode hsn, hc.getNode htn, bind, Except.bind]
    have hsum : ∀ x : ℕ, x = crossing (host e.sourceId) (host e.targetId) →
        w.alpha * (acc.1 + topology.latencyOf (host e.sourceId).nodeId (host e.targetId).nodeId) +
          w.gamma * ((acc.2 + x : ℕ) : ℚ) =
        ((done ++ [e]).map fun e =>
          edgeCost topology w (host e.sourceId) (host e.targetId)).sum := by
      rintro x rfl
      rw [List.map_append, List.sum_append, ← hacc]
      simp only [List.map_cons, List.map_nil, List.sum_cons, List.sum_nil, edgeCost]
      push_cast
      ring
    split
    · next hdom => exact ⟨_, rfl, hsum 1 (by rw [crossing, if_pos hdom])⟩
    · next hdom => exact ⟨_, rfl, hsum 0 (by rw [crossing, if_neg hdom])⟩)
  have hstages := foldlM_scan_ok (l := p.keys) (b := (0 : ℚ))
    (f := fun (acc : ℚ) sid => do
      let stage ← dag.getStage sid
      let node ← topology.getNode (host sid).nodeId
      return acc + loadRatio stage node)
    (P := fun done (acc : ℚ) =>
      w.beta * acc = (done.map fun sid => stageCost dag w sid (host sid)).sum)
    (by simp) (by
    intro done sid rest acc hsplit hacc
    have hsid : sid ∈ dag.stages := (h.mem_iff sid).mp (by
      rw [Dict.mem_iff_mem_keys, hsplit]; simp)
    obtain ⟨stage, hget, hstage, -⟩ := getStage_of_mem hsid
    simp only [hget, hc.getNode (h.mem_nodes sid hsid), bind, Except.bind]
    refine ⟨_, rfl, ?_⟩
    rw [List.map_append, List.sum_append, ← hacc]
    simp [stageCost, hstage]
    ring)
  obtain ⟨⟨l, d⟩, hl, hlsum⟩ := hedges
  obtain ⟨u, hu, husum⟩ := hstages
  unfold placementCost
  rw [hl, h.entries_eq, List.foldlM_map]
  simp only [bind, Except.bind] at hu ⊢
  rw [hu]
  have hkeys := (h.keys_perm.map fun sid => stageCost dag w sid (host sid)).sum_eq
  rw [hkeys] at husum
  simp only [hostsCost, ← hlsum, ← husum, pure, Except.pure]
  congr 1
  ring

end NeuralPubSub
