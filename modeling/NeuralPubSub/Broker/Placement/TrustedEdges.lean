-- SUMMARY: The trust that a placement needs along its edges, and which solver guarantees it.
import NeuralPubSub.Broker.Placement.Completion

open Base

/-!
# Trust along the edges

The greedy solver tests the trust of every edge it completes, whatever latencies
the topology lacks. The dynamic program does so too, but the redistribution pass
that follows it does not.
-/

namespace NeuralPubSub

/-- The domains of the two ends of every edge trust each other. -/
def TrustedEdges (dag : PipelineDAG) (topology : NetworkTopology) (governance : GovernancePolicy)
    (p : Placement) : Prop :=
  ∀ e ∈ dag.edges, ∀ x ∈ topology.nodes, ∀ y ∈ topology.nodes,
    p.get? e.sourceId = some x.nodeId → p.get? e.targetId = some y.nodeId →
      governance.trusts x.domainId y.domainId = true

variable {dag : PipelineDAG} {topology : NetworkTopology} {governance : GovernancePolicy}
  {w : Weights}

theorem trustedEdges_iff (hw : dag.WellFormed) (hids : (topology.nodes.map (·.nodeId)).Nodup)
    {host : StageId → ExecutionUnit} {p : Placement} (h : Hosts dag topology host p) :
    TrustedEdges dag topology governance p ↔ ∀ e ∈ dag.edges,
      governance.trusts (host e.sourceId).domainId (host e.targetId).domainId = true := by
  constructor
  · intro htrusted e he
    have hsource := hw.source_mem e he
    have htarget := hw.target_mem e he
    exact htrusted e he _ (h.mem_nodes _ hsource) _ (h.mem_nodes _ htarget) (h.get? _ hsource)
      (h.get? _ htarget)
  · intro hhosts e he x hx y hy hsource htarget
    have hx' := (h.get? _ (hw.source_mem e he)).symm.trans hsource
    have hy' := (h.get? _ (hw.target_mem e he)).symm.trans htarget
    rw [← List.inj_on_of_nodup_map hids (h.mem_nodes _ (hw.source_mem e he)) hx
        (Option.some.inj hx'),
      ← List.inj_on_of_nodup_map hids (h.mem_nodes _ (hw.target_mem e he)) hy (Option.some.inj hy')]
    exact hhosts e he

/-! ## The greedy solver -/

/-- A node that passes the per-stage test is within the bounds of the edges from the
predecessors placed so far, and trusted by them. -/
theorem tests_of_isNodeFeasible {stage : Stage} {node : ExecutionUnit} {p : Placement}
    {ledger : Dict NodeId ℚ}
    (h : isNodeFeasible stage node dag topology governance p ledger = .ok true) :
    (dag.predecessors stage.id).allM (fun predId =>
      ifPlaced p predId fun predNodeId =>
        latencyWithin topology (dag.getEdge predId stage.id) predNodeId node.nodeId) = .ok true ∧
    (dag.predecessors stage.id).allM (fun predId =>
      ifPlaced p predId fun predNodeId =>
        return governance.trusts (← topology.getNode predNodeId).domainId node.domainId) =
      .ok true := by
  unfold isNodeFeasible at h
  simp only [bind, Except.bind] at h ⊢
  split at h
  · cases h
  split at h
  · cases h
  split at h
  · cases h
  next inTime hinTime =>
    split at h
    · cases h
    next hin =>
      split at h
      · cases h
      split at h
      · cases h
      split at h
      · cases h
      next trusted htrusted =>
        refine ⟨?_, ?_⟩
        · cases inTime with
          | true => exact hinTime
          | false => simp at hin
        · cases trusted with
          | false => cases h
          | true => exact htrusted

theorem trusts_of_isNodeFeasible {stage : Stage} {node : ExecutionUnit} {p : Placement}
    {ledger : Dict NodeId ℚ}
    (h : isNodeFeasible stage node dag topology governance p ledger = .ok true) {u : StageId}
    (hu : u ∈ dag.predecessors stage.id) {x : ExecutionUnit}
    (hids : (topology.nodes.map (·.nodeId)).Nodup) (hx : x ∈ topology.nodes)
    (hplaced : p.get? u = some x.nodeId) : governance.trusts x.domainId node.domainId = true := by
  have hone := of_allM_eq_true (tests_of_isNodeFeasible h).2 u hu
  rw [ifPlaced, hplaced] at hone
  simp only [NetworkTopology.getNode, topology.get?_nodeMap hids hx] at hone
  exact Except.ok.inj hone

/-- An iteration that does not raise puts the stage on a node that passes the per-stage test. -/
theorem greedyStep_eq_ok {sid : StageId} {s s' : Placement × Dict NodeId ℚ}
    (h : greedyStep dag topology governance w s sid = .ok s') :
    ∃ stage, dag.getStage sid = .ok stage ∧ ∃ node ∈ topology.nodes,
      isNodeFeasible stage node dag topology governance s.1 s.2 = .ok true ∧
      s'.1 = s.1.insert sid node.nodeId := by
  unfold greedyStep at h
  rcases bind_eq_ok_iff.mp h with ⟨stage, hget, h⟩
  rcases bind_eq_ok_iff.mp h with ⟨best, hbest, h⟩
  split at h
  · cases h
  · next node hnode =>
    cases h
    rcases firstMinM_some hbest hnode with ⟨hmem, c, hc, hlt⟩
    refine ⟨stage, hget, node, hmem, ?_, rfl⟩
    rcases bind_eq_ok_iff.mp hc with ⟨ok, hok, hc⟩
    cases ok with
    | true => exact hok
    | false =>
      cases hc
      exact absurd hlt (lt_irrefl _)

/-- What every iteration keeps holds of the placement that the loop returns. -/
theorem greedyPlacement_rule {P : List StageId → Placement → Prop} (hw : dag.WellFormed)
    {p : Placement} (hp : greedyPlacement dag topology governance w = .ok p) (hinit : P [] .empty)
    (hstep : ∀ {order done rest sid s s'}, order.Nodup → Graph.TopoOrdered dag.successors order →
      order = done ++ sid :: rest → P done s.1 →
      greedyStep dag topology governance w s sid = .ok s' → P (done ++ [sid]) s'.1) :
    ∃ order, order.Perm dag.stages.keys ∧ P order p := by
  obtain ⟨order, horder, hperm, htopo⟩ := hw.topologicalSort_eq
  have hnodup : order.Nodup := hperm.nodup_iff.mpr dag.stages.keys_nodup
  have hloop := foldlM_scan (f := greedyStep dag topology governance w) (l := order)
    (b := (.empty, .empty)) (P := fun done s => P done s.1) (Q := fun _ => True) hinit (by
      intro done sid rest s hsplit h
      cases hnext : greedyStep dag topology governance w s sid with
      | ok s' => exact .inl ⟨s', rfl, hstep hnodup htopo hsplit h hnext⟩
      | error e => exact .inr ⟨e, rfl, trivial⟩)
  unfold greedyPlacement at hp
  rw [horder] at hp
  cases hloop with
  | inl hok =>
    obtain ⟨s, hs, h⟩ := hok
    simp only [bind, Except.bind, hs] at hp
    cases hp
    exact ⟨order, hperm, h⟩
  | inr herror =>
    obtain ⟨e, he, -⟩ := herror
    simp only [bind, Except.bind, he] at hp
    cases hp

variable (dag topology governance) in
/-- The per-stage test asks `R` of the edges from the predecessors placed so far. -/
def TestsEdges (R : Edge → ExecutionUnit → ExecutionUnit → Prop) : Prop :=
  ∀ {stage : Stage} {node : ExecutionUnit} {p : Placement} {ledger : Dict NodeId ℚ},
    isNodeFeasible stage node dag topology governance p ledger = .ok true → node ∈ topology.nodes →
    ∀ e ∈ dag.edges, e.targetId = stage.id → ∀ x ∈ topology.nodes,
      p.get? e.sourceId = some x.nodeId → R e x node

/-- What the loop over the stages keeps: only visited stages are placed, and `R` holds of the
edges between them. -/
structure EdgesSoFar (R : Edge → ExecutionUnit → ExecutionUnit → Prop) (dag : PipelineDAG)
    (topology : NetworkTopology) (done : List StageId) (p : Placement) : Prop where
  visited : ∀ sid ∈ p, sid ∈ done
  edges : ∀ e ∈ dag.edges, ∀ x ∈ topology.nodes, ∀ y ∈ topology.nodes,
    p.get? e.sourceId = some x.nodeId → p.get? e.targetId = some y.nodeId → R e x y

variable {R : Edge → ExecutionUnit → ExecutionUnit → Prop}

theorem EdgesSoFar.step (hw : dag.WellFormed) (hids : (topology.nodes.map (·.nodeId)).Nodup)
    (htests : TestsEdges dag topology governance R)
    {order done rest : List StageId} {sid : StageId} {s s' : Placement × Dict NodeId ℚ}
    (hnodup : order.Nodup) (htopo : Graph.TopoOrdered dag.successors order)
    (horder : order = done ++ sid :: rest) (h : EdgesSoFar R dag topology done s.1)
    (hstep : greedyStep dag topology governance w s sid = .ok s') :
    EdgesSoFar R dag topology (done ++ [sid]) s'.1 := by
  obtain ⟨stage, hget, node, hmem, hfeasible, hplaced⟩ := greedyStep_eq_ok hstep
  have hid : stage.id = sid := hw.stageId sid stage (subscript_eq_ok_iff.mp hget)
  have hnew : sid ∉ done := by
    rw [horder] at hnodup
    exact fun hm => (List.nodup_append.mp hnodup).2.2 sid hm sid (by simp) rfl
  rw [hplaced]
  constructor
  · intro x hx
    cases Dict.mem_insert.mp hx with
    | inl heq => simp [heq]
    | inr hold => exact List.mem_append_left _ (h.visited x hold)
  · intro e he x hx y hy hsource htarget
    have hsucc := hw.mem_successors.mpr ⟨e, he, rfl, rfl⟩
    rw [Dict.get?_insert] at hsource htarget
    split at htarget
    · next heq =>
      -- the edge ends at the stage just placed
      have hy' := List.inj_on_of_nodup_map hids hmem hy (Option.some.inj htarget)
      rw [if_neg] at hsource
      · rw [← hy']
        exact htests hfeasible hmem e he (heq.trans hid.symm) x hx hsource
      · rw [← heq]
        exact hw.acyclic.ne_of_adj hsucc
    · next hne =>
      have htargetDone := h.visited _ (Dict.mem_of_get?_eq_some htarget)
      rw [if_neg] at hsource
      · exact h.edges e he x hx y hy hsource htarget
      · -- the stage just placed has no successors among the earlier ones
        intro heq
        rw [heq] at hsucc
        exact htopo.succ_not_mem hnodup horder hsucc htargetDone

/-- What the per-stage test asks of the edges holds along every edge of the placement. -/
theorem greedyPlacement_edges (hw : dag.WellFormed) (hids : (topology.nodes.map (·.nodeId)).Nodup)
    (htests : TestsEdges dag topology governance R) {p : Placement}
    (hp : greedyPlacement dag topology governance w = .ok p) :
    ∀ e ∈ dag.edges, ∀ x ∈ topology.nodes, ∀ y ∈ topology.nodes,
      p.get? e.sourceId = some x.nodeId → p.get? e.targetId = some y.nodeId → R e x y := by
  obtain ⟨order, -, hedges⟩ := greedyPlacement_rule (P := EdgesSoFar R dag topology)
    hw hp ⟨by simp, fun e _ x _ y _ hsource => by simp at hsource⟩
    fun hnodup htopo hsplit h hstep => h.step hw hids htests hnodup htopo hsplit hstep
  exact hedges.edges

/-- The trust that a policy asks of an edge between two nodes. -/
def EdgeTrusted (governance : GovernancePolicy) (_ : Edge) (x y : ExecutionUnit) : Prop :=
  governance.trusts x.domainId y.domainId = true

theorem testsEdges_trusted (hw : dag.WellFormed) (hids : (topology.nodes.map (·.nodeId)).Nodup) :
    TestsEdges dag topology governance (EdgeTrusted governance) := by
  intro stage node p ledger hfeasible _ e he htarget x hx hplaced
  refine trusts_of_isNodeFeasible hfeasible ?_ hids hx hplaced
  rw [hw.mem_predecessors, hw.mem_successors]
  exact ⟨e, he, rfl, htarget⟩

theorem greedyPlacement_trusted (hw : dag.WellFormed) (hids : (topology.nodes.map (·.nodeId)).Nodup)
    {p : Placement} (hp : greedyPlacement dag topology governance w = .ok p) :
    TrustedEdges dag topology governance p :=
  greedyPlacement_edges hw hids (testsEdges_trusted hw hids) hp

/-- Between two stages that only one edge joins, the per-stage test compares the latency with
the bound of that edge. -/
theorem testsEdges_inTime (hw : dag.WellFormed) (hs : dag.SimpleEdges) (hc : topology.Complete) :
    TestsEdges dag topology governance fun e x y =>
      topology.latencyOf x.nodeId y.nodeId ≤ e.latencyBound + tolerance := by
  intro stage node p ledger hfeasible hnode e he htarget x hx hplaced
  have hpred : e.sourceId ∈ dag.predecessors stage.id := by
    rw [hw.mem_predecessors, hw.mem_successors]
    exact ⟨e, he, rfl, htarget⟩
  have hone := of_allM_eq_true (tests_of_isNodeFeasible hfeasible).1 _ hpred
  rw [ifPlaced, hplaced, ← htarget, hw.getEdge_of_mem hs he] at hone
  simp only [latencyWithin, hc.latency_eq hx hnode, bind, Except.bind] at hone
  simpa using Except.ok.inj hone

/-! ## The exact solver -/

theorem PassRun.of_completed {host final : StageId → ExecutionUnit} {moves : List Move}
    (h : PassRun dag topology.completed governance host moves final) :
    PassRun dag topology governance host moves final := by
  induction h with
  | nil host => exact .nil host
  | cons hm _ ih =>
    have hleast : LeastLoaded dag topology governance _ _ _ :=
      ⟨⟨hm.mem, hm.ne, hm.feasible, hm.room⟩, fun other hother =>
        hm.least other ⟨hother.mem, hother.ne, hother.feasible, hother.room⟩⟩
    exact .cons hleast ih

/-- A placement of a tree DAG comes from hosts that suit the stages and are trusted along the
edges, by moves of co-located siblings. -/
theorem findPlacement_moves (hbuilt : dag.Built) (htree : dag.isTree = true)
    (hc : topology.completed.Complete) {p : Placement}
    (hp : findPlacement dag topology governance w = .ok p) :
    ∃ host moves final, PassRun dag topology governance host moves final ∧
      Hosts dag topology final p ∧ (∀ sid ∈ dag.stages, host sid ∈ topology.nodes) ∧
      (∀ sid, Suits dag governance sid (host sid)) ∧
      (∀ e ∈ dag.edges, EdgeTrusted governance e (host e.sourceId) (host e.targetId)) ∧
      ∀ m ∈ moves, ColocatedSibling dag host m.stage := by
  obtain ⟨host, moves, final, hfirst, hrun, hhosts, hcolocated⟩ :=
    findPlacement_run hbuilt htree hc (findPlacement_completed htree hp)
  have hadm := hfirst.admissible
  exact ⟨host, moves, final, hrun.of_completed, ⟨hhosts.mem_iff, hhosts.get?, hhosts.mem_nodes⟩,
    hadm.mem_nodes, hadm.stages, fun e he => (hadm.edges e he).2, hcolocated⟩

/-- The stage shares a successor with another stage. -/
def PipelineDAG.Sibling (dag : PipelineDAG) (sid : StageId) : Prop :=
  ∃ x, sid ∈ dag.predecessors x ∧ ∃ u ∈ dag.predecessors x, u ≠ sid

theorem ColocatedSibling.sibling {host : StageId → ExecutionUnit} {sid : StageId}
    (h : ColocatedSibling dag host sid) : dag.Sibling sid := by
  obtain ⟨x, hsid, u, hu, hne, -⟩ := h
  exact ⟨x, hsid, u, hu, hne⟩

/-- No stage has two predecessors. -/
def PipelineDAG.NoFanIn (dag : PipelineDAG) : Prop := ∀ sid, (dag.predecessors sid).length ≤ 1

/-- Without fan-in there are no siblings, and so no one to move. -/
theorem PipelineDAG.NoFanIn.not_sibling (h : dag.NoFanIn) (sid : StageId) : ¬ dag.Sibling sid := by
  rintro ⟨x, hsid, u, hu, hne⟩
  have hone := h x
  match hpreds : dag.predecessors x with
  | [] => rw [hpreds] at hu; cases hu
  | [v] =>
    rw [hpreds] at hsid hu
    exact hne ((List.mem_singleton.mp hu).trans (List.mem_singleton.mp hsid).symm)
  | _ :: _ :: _ =>
    rw [hpreds] at hone
    simp at hone

theorem TrustedEdges.mono {merged : GovernancePolicy} {p : Placement}
    (h : TrustedEdges dag topology governance p)
    (hle : ∀ x ∈ topology.nodes, ∀ y ∈ topology.nodes,
      governance.trusts x.domainId y.domainId = true → merged.trusts x.domainId y.domainId = true) :
    TrustedEdges dag topology merged p := fun e he x hx y hy hsource htarget =>
  hle x hx y hy (h e he x hx y hy hsource htarget)

/-- The solver guarantees the trust of a policy that is no stricter than its own, where the
edges of the siblings of a tree DAG are trusted between any two nodes that are feasible for
their ends: those the redistribution pass moves without a look at the trust. -/
theorem findPlacement_trusted (hbuilt : dag.Built) (hc : topology.completed.Complete)
    {merged : GovernancePolicy}
    (hle : ∀ x ∈ topology.nodes, ∀ y ∈ topology.nodes,
      governance.trusts x.domainId y.domainId = true → merged.trusts x.domainId y.domainId = true)
    (hfree : dag.isTree = true → ∀ sid, dag.Sibling sid →
      ∀ e ∈ dag.edges, e.sourceId = sid ∨ e.targetId = sid →
        HoldsAnywhere dag topology governance (EdgeTrusted merged) e) {p : Placement}
    (hp : findPlacement dag topology governance w = .ok p) :
    TrustedEdges dag topology merged p := by
  have hw := hbuilt.wellFormed
  have hids : (topology.nodes.map (·.nodeId)).Nodup := hc.nodupIds
  by_cases htree : dag.isTree = true
  · obtain ⟨host, moves, final, hrun, hhosts, hnodes, hsuits, hedges, hcolocated⟩ :=
      findPlacement_moves hbuilt htree hc hp
    rw [trustedEdges_iff hw hids hhosts]
    intro e he
    have hedge : EdgeTrusted merged e (host e.sourceId) (host e.targetId) :=
      hle _ (hnodes _ (hw.source_mem e he)) _ (hnodes _ (hw.target_mem e he)) (hedges e he)
    exact hrun.edge_kept hw hnodes hsuits he hedge fun m hm =>
      hfree htree m.stage (hcolocated m hm).sibling e he
  · rw [findPlacement, if_neg htree] at hp
    split at hp
    · cases hp
      exact fun e _ x _ y _ hsource => by simp at hsource
    · exact (greedyPlacement_trusted hw hids hp).mono hle

end NeuralPubSub
