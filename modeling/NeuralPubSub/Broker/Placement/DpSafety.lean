-- SUMMARY: When the placement of a tree DAG respects the joint capacities and the edge constraints after redistribution.
import NeuralPubSub.Broker.Placement.Redistribution

open Base

/-!
# Safety of the exact solver

`find_placement` on a tree DAG returns the first optimum after a run of moves.
The dynamic program tests each stage alone against a node, and the moves test
nodes without the edges of the stage they move; the results here say for which
inputs the returned placement passes the capacity and the edge part of
`checkFeasibility` all the same.
-/

namespace NeuralPubSub

variable {dag : PipelineDAG} {topology : NetworkTopology} {governance : GovernancePolicy}
  {w : Weights} {host final : StageId → ExecutionUnit} {moves : List Move}

/-- A placement of a tree DAG is the first optimum after a run of moves. -/
theorem findPlacement_run (hbuilt : dag.Built) (htree : dag.isTree = true)
    (hc : topology.Complete) {p : Placement}
    (hp : findPlacement dag topology governance w = .ok p) :
    ∃ host moves final, FirstOptimum dag topology governance w host ∧
      PassRun dag topology governance host moves final ∧ Hosts dag topology final p ∧
      ∀ m ∈ moves, ColocatedSibling dag host m.stage := by
  have hw := hbuilt.wellFormed
  obtain ⟨order, horder, hperm, htopo⟩ := hw.topologicalSort_eq
  obtain ⟨sink, hsink, -⟩ := PipelineDAG.exists_sink_of_isTree htree
  have hne : dag.stages.keys.length ≠ 0 := by
    intro h
    have hmem : sink ∈ dag.sinks := by simp [hsink]
    rw [PipelineDAG.sinks, List.length_eq_zero_iff.mp h] at hmem
    simp at hmem
  rw [findPlacement, if_neg hne, if_pos htree, dpPlacement, horder] at hp
  obtain ⟨value, -, ⟨herr, -⟩ | ⟨q, host, hq, hhosts, hsolved⟩⟩ :=
    dpAssignment_spec governance w hw htree hc hperm htopo hsink
  · simp only [bind, Except.bind, herr] at hp
    cases hp
  · obtain ⟨p', s, moves, now, hok, hs, hpass⟩ :=
      redistribute_run governance hw htree hperm hhosts
    simp only [bind, Except.bind, hq, hok] at hp
    obtain rfl := Except.ok.inj hp
    exact ⟨host, moves, now, hsolved.firstOptimum hw htree hc hperm htopo hsink, hpass.run,
      hs ▸ hpass.onHosts.hosts, hpass.colocated⟩

/-- A tree DAG with an admissible assignment gets a placement. -/
theorem findPlacement_of_admissible (hbuilt : dag.Built) (htree : dag.isTree = true)
    (hc : topology.Complete) (hhost : Admissible dag topology governance host) :
    ∃ p, findPlacement dag topology governance w = .ok p := by
  have hw := hbuilt.wellFormed
  obtain ⟨order, horder, hperm, htopo⟩ := hw.topologicalSort_eq
  obtain ⟨sink, hsink, -⟩ := PipelineDAG.exists_sink_of_isTree htree
  obtain ⟨q, host', -, hq, hhosts, -⟩ :=
    dpAssignment_of_admissible w hw htree hc hperm htopo hsink hhost
  obtain ⟨p, -, -, -, hok, -⟩ := redistribute_run governance hw htree hperm hhosts
  have hdp : dpPlacement dag topology governance w = .ok p := by
    simp only [dpPlacement, horder, bind, Except.bind, hq, hok]
  unfold findPlacement
  split
  · exact ⟨_, rfl⟩
  · exact ⟨p, hdp⟩

/-- Over a complete topology the solver raises nothing but `RuntimeError`. -/
theorem findPlacement_returns (hbuilt : dag.Built) (hc : topology.Complete)
    (governance : GovernancePolicy) (w : Weights) :
    (∃ p, findPlacement dag topology governance w = .ok p) ∨
    ∃ msg, findPlacement dag topology governance w = .error (.runtime msg) := by
  have hw := hbuilt.wellFormed
  unfold findPlacement
  by_cases hempty : dag.stages.keys.length = 0
  · rw [if_pos hempty]
    exact .inl ⟨_, rfl⟩
  rw [if_neg hempty]
  by_cases htree : dag.isTree = true
  · rw [if_pos htree]
    obtain ⟨order, horder, hperm, htopo⟩ := hw.topologicalSort_eq
    obtain ⟨sink, hsink, -⟩ := PipelineDAG.exists_sink_of_isTree htree
    rw [dpPlacement, horder]
    obtain ⟨value, -, ⟨herr, -⟩ | ⟨q, host, hq, hhosts, -⟩⟩ :=
      dpAssignment_spec governance w hw htree hc hperm htopo hsink
    · simp only [bind, Except.bind, herr]
      exact .inr ⟨_, rfl⟩
    · obtain ⟨p, -, -, -, hok, -⟩ := redistribute_run governance hw htree hperm hhosts
      simp only [bind, Except.bind, hq, hok]
      exact .inl ⟨_, rfl⟩
  · rw [if_neg htree]
    exact greedyPlacement_returns hw hc governance w

/-! ## Capacity -/

namespace PassRun

/-- The moves of a run are moves of stages of the DAG. -/
theorem final_eq_or (h : PassRun dag topology governance host moves final) (sid : StageId) :
    final sid = host sid ∨ ∃ m ∈ moves, m.stage = sid ∧ final sid = m.target := by
  induction h with
  | nil => exact .inl rfl
  | @cons m _ _ _ _ ih =>
    rcases ih with ih | ⟨m', hm', hstage, hfinal⟩
    · by_cases hs : sid = m.stage
      · refine .inr ⟨m, by simp, hs.symm, ?_⟩
        rw [ih, Move.after, hs, Function.update_self]
      · exact .inl (by rw [ih, Move.after, Function.update_of_ne hs])
    · exact .inr ⟨m', by simp [hm'], hstage, hfinal⟩

/-- A node that is not overloaded stays so: a move puts a stage only where there
is room. -/
theorem capacity_kept (h : PassRun dag topology governance host moves final)
    (hc : topology.Complete) (hd : dag.NonnegDemands)
    (hstages : ∀ m ∈ moves, m.stage ∈ dag.stages) {node : ExecutionUnit}
    (hnode : node ∈ topology.nodes)
    (hcap : hostedLoad dag host dag.stages.keys node.nodeId ≤ node.residualCapacity + tolerance) :
    hostedLoad dag final dag.stages.keys node.nodeId ≤ node.residualCapacity + tolerance := by
  induction h with
  | nil => exact hcap
  | @cons m moves _ hm _ ih =>
    refine ih (fun m' hm' => hstages m' (by simp [hm'])) ?_
    rw [Move.after, hostedLoad_update (hstages m (by simp))]
    have hdem := hd.demand_nonneg m.stage
    by_cases h₁ : node.nodeId = m.target.nodeId
    · obtain rfl := hc.eq_of_nodeId_eq hnode hm.mem h₁
      rw [if_pos rfl, if_neg hm.ne, sub_zero]
      exact hm.room
    · rw [if_neg h₁, add_zero]
      split <;> linarith

/-- A node that a move chose is not overloaded at the end. -/
theorem capacity_of_target (h : PassRun dag topology governance host moves final)
    (hc : topology.Complete) (hd : dag.NonnegDemands)
    (hstages : ∀ m ∈ moves, m.stage ∈ dag.stages) {m : Move} (hm : m ∈ moves) :
    hostedLoad dag final dag.stages.keys m.target.nodeId ≤
      m.target.residualCapacity + tolerance := by
  obtain ⟨pre, post, rfl⟩ := List.append_of_mem hm
  obtain ⟨-, hleast, hrest⟩ := h.split
  refine hrest.capacity_kept hc hd (fun m' hm' => hstages m' (by simp [hm'])) hleast.mem ?_
  rw [Move.after, hostedLoad_update (hstages m (by simp)), if_pos rfl, if_neg hleast.ne,
    sub_zero]
  exact hleast.room

/-- Hosts that respect the capacities do so after a run. -/
theorem capacityRespected (h : PassRun dag topology governance host moves final)
    (hc : topology.Complete) (hd : dag.NonnegDemands)
    (hstages : ∀ m ∈ moves, m.stage ∈ dag.stages)
    (hnodes : ∀ sid ∈ dag.stages, host sid ∈ topology.nodes) (hfits : CapacityRespected dag host) :
    CapacityRespected dag final := by
  intro sid hsid
  rcases h.final_eq_or sid with heq | ⟨m, hm, -, heq⟩
  · rw [heq]
    exact h.capacity_kept hc hd hstages (hnodes sid hsid) (hfits sid hsid)
  · rw [heq]
    exact h.capacity_of_target hc hd hstages hm

end PassRun

theorem ColocatedSibling.mem_stages (hw : dag.WellFormed) {sid : StageId}
    (h : ColocatedSibling dag host sid) : sid ∈ dag.stages := by
  obtain ⟨x, hx, -⟩ := h
  exact hw.predecessor_mem (hw.mem_predecessors.mp hx)

/-- The capacity part of `checkFeasibility` accepts. -/
def CapacityAccepted (dag : PipelineDAG) (topology : NetworkTopology) (p : Placement) : Prop :=
  (do capacityViolations topology (← nodeLoads p dag)) = .ok []

theorem capacityAccepted_iff (hc : topology.Complete) {p : Placement}
    (hp : Hosts dag topology final p) :
    CapacityAccepted dag topology p ↔ CapacityRespected dag final := by
  obtain ⟨loads, hloads, hmem, hload⟩ := nodeLoads_spec hp
  obtain ⟨vs, hvs, hnil⟩ := capacityViolations_spec hc hp hmem hload
  rw [CapacityAccepted, hloads, ← hnil]
  change capacityViolations topology loads = .ok [] ↔ _
  rw [hvs, Except.ok.injEq]

/-- The demand of all the stages that are feasible on the node one at a time. -/
def suitedLoad (dag : PipelineDAG) (governance : GovernancePolicy) (node : ExecutionUnit) : ℚ :=
  ((dag.stages.keys.filter fun sid =>
    (dag.stage? sid).any (isNodeFeasibleSimple · node governance)).map dag.demand).sum

/-- No admissible assignment overloads a node with room for all the stages that suit it. -/
theorem Admissible.capacityRespected (h : Admissible dag topology governance host)
    (hc : topology.Complete) (hd : dag.NonnegDemands)
    (hroom : ∀ node ∈ topology.nodes,
      suitedLoad dag governance node ≤ node.residualCapacity + tolerance) :
    CapacityRespected dag host := by
  intro sid hsid
  refine le_trans ?_ (hroom _ (h.mem_nodes sid hsid))
  have hsuits : ∀ x ∈ dag.stages.keys, (host x).nodeId = (host sid).nodeId →
      (dag.stage? x).any (isNodeFeasibleSimple · (host sid) governance) = true := by
    intro x hx hid
    obtain ⟨stage, hstage⟩ := Dict.exists_get?_of_mem (Dict.mem_iff_mem_keys.mpr hx)
    have hsame := hc.eq_of_nodeId_eq (h.mem_nodes x (Dict.mem_iff_mem_keys.mpr hx))
      (h.mem_nodes sid hsid) hid
    rw [PipelineDAG.stage?, hstage, ← hsame]
    exact h.stages x stage hstage
  have hsub : (dag.stages.keys.filter fun x => (host x).nodeId = (host sid).nodeId).Sublist
      (dag.stages.keys.filter fun x =>
        (dag.stage? x).any (isNodeFeasibleSimple · (host sid) governance)) := by
    have heq : dag.stages.keys.filter (fun x => (host x).nodeId = (host sid).nodeId) =
        (dag.stages.keys.filter fun x =>
          (dag.stage? x).any (isNodeFeasibleSimple · (host sid) governance)).filter
            fun x => (host x).nodeId = (host sid).nodeId := by
      rw [List.filter_filter]
      refine List.filter_congr fun x hx => ?_
      by_cases hid : (host x).nodeId = (host sid).nodeId
      · simp [hid, hsuits x hx hid]
      · simp [hid]
    rw [heq]
    exact List.filter_sublist
  refine (hsub.map dag.demand).sum_le_sum fun d hmem => ?_
  obtain ⟨x, -, rfl⟩ := List.mem_map.mp hmem
  exact hd.demand_nonneg x

/-- The placement of a tree DAG passes the capacity check when no admissible assignment
overloads a node. -/
theorem findPlacement_capacityAccepted (hbuilt : dag.Built) (htree : dag.isTree = true)
    (hc : topology.Complete) (hd : dag.NonnegDemands)
    (hfits : ∀ host, Admissible dag topology governance host → CapacityRespected dag host)
    {p : Placement} (hp : findPlacement dag topology governance w = .ok p) :
    CapacityAccepted dag topology p := by
  obtain ⟨host, moves, final, hfirst, hrun, hhosts, hcolocated⟩ :=
    findPlacement_run hbuilt htree hc hp
  have hstages : ∀ m ∈ moves, m.stage ∈ dag.stages := fun m hm =>
    (hcolocated m hm).mem_stages hbuilt.wellFormed
  rw [capacityAccepted_iff hc hhosts]
  exact hrun.capacityRespected hc hd hstages hfirst.admissible.mem_nodes
    (hfits host hfirst.admissible)

private def pairDag : PipelineDAG :=
  .ofLists [⟨"a", "sense", 3 / 5, 1, none, none, none⟩, ⟨"b", "fuse", 3 / 5, 1, none, none, none⟩]
      [⟨"a", "b", 10⟩]

private def loneTopology (capacity : ℚ) : NetworkTopology where
  nodes := [⟨"n1", "d1", "s1", capacity, 0, none⟩]
  latencyMatrix := .empty

private def pairPlacement : Placement := .ofList [("b", "n1"), ("a", "n1")]

/-- Two stages on the only node, which has room for both. -/
theorem findPlacement_capacityAccepted_pair :
    findPlacement pairDag (loneTopology 2) {} {} = .ok pairPlacement ∧
    CapacityAccepted pairDag (loneTopology 2) pairPlacement := by
  have hp : findPlacement pairDag (loneTopology 2) {} {} = .ok pairPlacement := by decide +kernel
  have hc : (loneTopology 2).Complete := by decide +kernel
  have hd : pairDag.NonnegDemands := by decide +kernel
  exact ⟨hp, findPlacement_capacityAccepted (PipelineDAG.built_ofLists _ _) (by decide) hc hd
    (fun host hadm => hadm.capacityRespected hc hd (by decide +kernel)) hp⟩

/-- Two stages that fit a node one at a time are put on it together. -/
theorem not_capacityAccepted :
    ¬ ∀ (dag : PipelineDAG) (topology : NetworkTopology) (governance : GovernancePolicy)
      (w : Weights) (p : Placement), dag.Built → dag.isTree = true → topology.Complete →
        dag.NonnegDemands → findPlacement dag topology governance w = .ok p →
        CapacityAccepted dag topology p := by
  intro h
  have hp := h pairDag (loneTopology 1) {} {} pairPlacement (PipelineDAG.built_ofLists _ _)
    (by decide) (by decide +kernel) (by decide +kernel) (by decide +kernel)
  unfold CapacityAccepted at hp
  revert hp
  decide +kernel

/-! ## Edges -/

/-- The edge part of `checkFeasibility` accepts. -/
def EdgesAccepted (dag : PipelineDAG) (topology : NetworkTopology) (governance : GovernancePolicy)
    (p : Placement) : Prop :=
  collect dag.edges (edgeViolations p topology governance) = .ok []

variable (governance) in
theorem edgesAccepted_iff (hw : dag.WellFormed) (hc : topology.Complete) {p : Placement}
    (hp : Hosts dag topology final p) :
    EdgesAccepted dag topology governance p ↔ EdgesRespected dag topology governance final := by
  obtain ⟨vs, hvs, hnil⟩ := edgeViolations_spec governance hw hc hp
  rw [EdgesAccepted, hvs, Except.ok.injEq, hnil]

/-- The node is feasible for the stage on its own. -/
def Suits (dag : PipelineDAG) (governance : GovernancePolicy) (sid : StageId)
    (node : ExecutionUnit) : Prop :=
  ∀ stage, dag.stage? sid = some stage → isNodeFeasibleSimple stage node governance = true

variable (dag topology governance) in
/-- `R` holds of the edge between any two nodes that are feasible for its ends. -/
def HoldsAnywhere (R : Edge → ExecutionUnit → ExecutionUnit → Prop) (e : Edge) : Prop :=
  ∀ x ∈ topology.nodes, ∀ y ∈ topology.nodes,
    Suits dag governance e.sourceId x → Suits dag governance e.targetId y → R e x y

/-- Every host of a run suits its stage. -/
theorem PassRun.suits (h : PassRun dag topology governance host moves final)
    (hsuits : ∀ sid, Suits dag governance sid (host sid)) (sid : StageId) :
    Suits dag governance sid (final sid) := by
  rcases h.final_eq_or sid with heq | ⟨m, hm, rfl, heq⟩
  · rw [heq]
    exact hsuits sid
  · rw [heq]
    obtain ⟨pre, post, rfl⟩ := List.append_of_mem hm
    exact h.split.2.1.feasible

/-- A run keeps what holds along an edge, when that does not depend on the hosts of an edge
that it touches. -/
theorem PassRun.edge_kept (h : PassRun dag topology governance host moves final)
    (hw : dag.WellFormed) (hnodes : ∀ sid ∈ dag.stages, host sid ∈ topology.nodes)
    (hsuits : ∀ sid, Suits dag governance sid (host sid))
    {R : Edge → ExecutionUnit → ExecutionUnit → Prop} {e : Edge} (he : e ∈ dag.edges)
    (hedge : R e (host e.sourceId) (host e.targetId))
    (hmoved : ∀ m ∈ moves, e.sourceId = m.stage ∨ e.targetId = m.stage →
      HoldsAnywhere dag topology governance R e) :
    R e (final e.sourceId) (final e.targetId) := by
  by_cases htouched : ∃ m ∈ moves, e.sourceId = m.stage ∨ e.targetId = m.stage
  · obtain ⟨m, hm, hend⟩ := htouched
    exact hmoved m hm hend _ (h.mem_nodes hnodes _ (hw.source_mem e he)) _
      (h.mem_nodes hnodes _ (hw.target_mem e he)) (h.suits hsuits _) (h.suits hsuits _)
  · have hsource : ∀ m ∈ moves, m.stage ≠ e.sourceId := fun m hm heq =>
      htouched ⟨m, hm, .inl heq.symm⟩
    have htarget : ∀ m ∈ moves, m.stage ≠ e.targetId := fun m hm heq =>
      htouched ⟨m, hm, .inr heq.symm⟩
    rw [h.host_eq hsource, h.host_eq htarget]
    exact hedge

/-- The placement of a tree DAG passes the edge checks when the edges of every stage that
an admissible assignment puts on the node of a sibling are allowed between any two nodes
that are feasible for their ends. -/
theorem findPlacement_edgesAccepted (hbuilt : dag.Built) (htree : dag.isTree = true)
    (hc : topology.Complete)
    (hfree : ∀ host, Admissible dag topology governance host → ∀ sid, ColocatedSibling dag host sid →
      ∀ e ∈ dag.edges, e.sourceId = sid ∨ e.targetId = sid →
        HoldsAnywhere dag topology governance (EdgeAllowed topology governance) e)
    {p : Placement} (hp : findPlacement dag topology governance w = .ok p) :
    EdgesAccepted dag topology governance p := by
  have hw := hbuilt.wellFormed
  obtain ⟨host, moves, final, hfirst, hrun, hhosts, hcolocated⟩ :=
    findPlacement_run hbuilt htree hc hp
  have hadm := hfirst.admissible
  rw [edgesAccepted_iff governance hw hc hhosts]
  exact fun e he => hrun.edge_kept hw hadm.mem_nodes hadm.stages he (hadm.edges e he) fun m hm =>
    hfree host hadm m.stage (hcolocated m hm) e he

private def joinDag (bound : ℚ) : PipelineDAG :=
  .ofLists [⟨"a", "sense", 1, 1, none, none, none⟩, ⟨"b", "sense", 1, 1, none, none, none⟩,
    ⟨"c", "fuse", 1, 1, none, none, none⟩] [⟨"a", "c", bound⟩, ⟨"b", "c", bound⟩]

private def twinTopology : NetworkTopology where
  nodes := [⟨"n1", "d1", "s1", 10, 0, none⟩, ⟨"n2", "d1", "s1", 10, 0, none⟩]
  latencyMatrix := .ofList [(("n1", "n2"), 5)]

private def joinPlacement : Placement := .ofList [("c", "n1"), ("a", "n1"), ("b", "n2")]

/-- The link between the two nodes is within the bound of both edges. -/
theorem findPlacement_edgesAccepted_join :
    findPlacement (joinDag 10) twinTopology {} {} = .ok joinPlacement ∧
    EdgesAccepted (joinDag 10) twinTopology {} joinPlacement := by
  have hp : findPlacement (joinDag 10) twinTopology {} {} = .ok joinPlacement := by decide +kernel
  refine ⟨hp, findPlacement_edgesAccepted (PipelineDAG.built_ofLists _ _) (by decide)
    (by decide +kernel) (fun _ _ _ _ e he _ x hx y hy _ _ => ?_) hp⟩
  have hall : ∀ e ∈ (joinDag 10).edges, ∀ x ∈ twinTopology.nodes, ∀ y ∈ twinTopology.nodes,
      twinTopology.latencyOf x.nodeId y.nodeId ≤ e.latencyBound + tolerance ∧
        GovernancePolicy.trusts {} x.domainId y.domainId = true := by
    decide +kernel
  exact hall e he x hx y hy

/-- Of two co-located sources one is moved to the other node, over a link slower
than the bound of its edge. -/
theorem not_edgesAccepted :
    ¬ ∀ (dag : PipelineDAG) (topology : NetworkTopology) (governance : GovernancePolicy)
      (w : Weights) (p : Placement), dag.Built → dag.isTree = true → topology.Complete →
        dag.NonnegDemands → findPlacement dag topology governance w = .ok p →
        EdgesAccepted dag topology governance p := by
  intro h
  have hp := h (joinDag 1) twinTopology {} {} joinPlacement (PipelineDAG.built_ofLists _ _)
    (by decide) (by decide +kernel) (by decide +kernel) (by decide +kernel)
  unfold EdgesAccepted at hp
  revert hp
  decide +kernel

end NeuralPubSub
