-- SUMMARY: The latency-greedy placement does not depend on the order in which the nodes are registered.
import NeuralPubSub.Broker.Placement.Heuristics

open Base

/-!
# Registration order

The loop over the nodes keeps the least pair of latency and node id, in the
lexicographic order. The least element of a set does not depend on the order of
a list of its elements, so the solver gives the same answer for every order of
the nodes, an exception included.
-/

namespace NeuralPubSub

variable {dag : PipelineDAG} {topology : NetworkTopology} {governance : GovernancePolicy}

/-! ## The least pair -/

/-- What the loop holds once it has seen candidates with the keys of `S`. -/
def HoldsLeast (S : Set (ℚ ×ₗ NodeId)) (best : WithTop ℚ × Option NodeId) : Prop :=
  (S = ∅ ∧ best = (⊤, none)) ∨
    ∃ k, IsLeast S k ∧ best = (WithTop.some (ofLex k).1, some (ofLex k).2)

theorem HoldsLeast.unique {S : Set (ℚ ×ₗ NodeId)} {best best' : WithTop ℚ × Option NodeId}
    (h : HoldsLeast S best) (h' : HoldsLeast S best') : best = best' := by
  rcases h with ⟨hempty, rfl⟩ | ⟨k, hk, rfl⟩
  · rcases h' with ⟨-, rfl⟩ | ⟨k', hk', -⟩
    · rfl
    · rw [hempty] at hk'
      exact absurd hk'.1 (Set.notMem_empty k')
  · rcases h' with ⟨hempty, -⟩ | ⟨k', hk', rfl⟩
    · rw [hempty] at hk
      exact absurd hk.1 (Set.notMem_empty k)
    · rw [hk.unique hk']

/-- One more candidate. -/
theorem HoldsLeast.insert {S : Set (ℚ ×ₗ NodeId)} {best : WithTop ℚ × Option NodeId}
    (h : HoldsLeast S best) (lat : ℚ) (nid : NodeId) :
    HoldsLeast (insert (toLex (lat, nid)) S)
      (if (lat : WithTop ℚ) < best.1 ∨ lat = best.1 ∧ best.2.all (nid < ·) then (lat, some nid)
        else best) := by
  rcases h with ⟨rfl, rfl⟩ | ⟨k, hk, rfl⟩
  · rw [if_pos (.inl (WithTop.coe_lt_top lat))]
    exact .inr ⟨toLex (lat, nid), by simp [IsLeast, lowerBounds], rfl⟩
  · have hlt : ((lat : WithTop ℚ) < WithTop.some (ofLex k).1 ∨
        (lat : WithTop ℚ) = WithTop.some (ofLex k).1 ∧ (some (ofLex k).2).all (nid < ·) = true) ↔
        toLex (lat, nid) < k := by
      rw [Prod.Lex.lt_iff]
      simp
    simp only [hlt]
    split
    · next hless =>
      refine .inr ⟨toLex (lat, nid), ⟨Set.mem_insert _ _, fun k' hk' => ?_⟩, rfl⟩
      cases hk' with
      | inl heq => exact heq ▸ le_rfl
      | inr hmem => exact hless.le.trans (hk.2 hmem)
    · next hless =>
      refine .inr ⟨k, ⟨Set.mem_insert_of_mem _ hk.1, fun k' hk' => ?_⟩, rfl⟩
      cases hk' with
      | inl heq => exact heq ▸ not_lt.mp hless
      | inr hmem => exact hk.2 hmem

/-! ## The choice -/

/-- Every pair of nodes has a latency, which need not be symmetric. -/
def NetworkTopology.HasLatencies (t : NetworkTopology) : Prop :=
  ∀ a ∈ t.nodes, ∀ b ∈ t.nodes, ∃ l, t.latency a.nodeId b.nodeId = .ok l

instance (t : NetworkTopology) : Decidable t.HasLatencies :=
  decidable_of_iff
    (∀ a ∈ t.nodes, ∀ b ∈ t.nodes, (t.latency a.nodeId b.nodeId).toOption.isSome = true) (by
      refine forall₂_congr fun a _ => forall₂_congr fun b _ => ?_
      cases t.latency a.nodeId b.nodeId <;> simp [Except.toOption])

/-- The keys of the candidates of a stage. -/
def candidateKeys (nodes : List ExecutionUnit) (test : ExecutionUnit → Bool)
    (lat : ExecutionUnit → ℚ) : Set (ℚ ×ₗ NodeId) :=
  {k | ∃ node ∈ nodes, test node = true ∧ toLex (lat node, node.nodeId) = k}

theorem candidateKeys_perm {nodes nodes' : List ExecutionUnit} (h : nodes'.Perm nodes)
    (test : ExecutionUnit → Bool) (lat : ExecutionUnit → ℚ) :
    candidateKeys nodes' test lat = candidateKeys nodes test lat := by
  simp only [candidateKeys, h.mem_iff]

theorem candidateKeys_concat (nodes : List ExecutionUnit) (node : ExecutionUnit)
    (test : ExecutionUnit → Bool) (lat : ExecutionUnit → ℚ) :
    candidateKeys (nodes ++ [node]) test lat =
      if test node then insert (toLex (lat node, node.nodeId)) (candidateKeys nodes test lat)
      else candidateKeys nodes test lat := by
  ext k
  simp only [candidateKeys, List.mem_append, List.mem_singleton, or_and_right, exists_or,
    exists_eq_left]
  split
  · next htest =>
    simp only [htest, true_and]
    exact or_comm.trans (or_congr_left eq_comm)
  · next htest => simp [htest]

theorem latencySum_total (hlat : topology.HasLatencies) {p : Placement} (hp : OnNodes topology p)
    (preds : List StageId) {node : ExecutionUnit} (hnode : node ∈ topology.nodes) :
    ∃ l, latencySum topology p preds node.nodeId = .ok l := by
  have hloop : ∃ l, latencySum topology p preds node.nodeId = .ok l ∧ True := by
    apply foldlM_scan_ok (P := fun (_ : List StageId) (_ : ℚ) => True) trivial
    intro _ predId _ latSum _ _
    cases hget : p.get? predId with
    | none => exact ⟨latSum, rfl, trivial⟩
    | some predNodeId =>
      rcases hp predId predNodeId hget with ⟨pred, hpred, rfl⟩
      rcases hlat pred hpred node hnode with ⟨l, hl⟩
      refine ⟨latSum + l, ?_, trivial⟩
      simp only [hl]
      rfl
  rcases hloop with ⟨l, hl, -⟩
  exact ⟨l, hl⟩

variable (governance) in
/-- The loop over the nodes never raises, and ends with the least key. -/
theorem foldlM_considerNode (hlat : topology.HasLatencies) {s : Placement × Dict NodeId ℚ}
    (hp : OnNodes topology s.1) (preds : List StageId) (stage : Stage)
    {nodes : List ExecutionUnit} (hnodes : ∀ node ∈ nodes, node ∈ topology.nodes) :
    ∃ best, nodes.foldlM (considerNode topology governance preds s stage) (⊤, none) = .ok best ∧
      HoldsLeast (candidateKeys nodes (canTake governance s.2 stage) fun node =>
        (latencySum topology s.1 preds node.nodeId).toOption.getD 0 +
          ownComputeTime node stage.stageType) best := by
  refine foldlM_scan_ok (P := fun done best => HoldsLeast (candidateKeys done _ _) best)
    (.inl ⟨by simp [candidateKeys], rfl⟩) ?_
  intro done node rest best hl hbest
  have hmem : node ∈ topology.nodes := hnodes node (by simp [hl])
  rcases latencySum_total hlat hp preds hmem with ⟨netSum, hsum⟩
  rw [candidateKeys_concat]
  unfold considerNode
  cases htest : canTake governance s.2 stage node with
  | false => exact ⟨best, rfl, hbest⟩
  | true =>
    have hinsert := hbest.insert (netSum + ownComputeTime node stage.stageType) node.nodeId
    rw [if_pos rfl, hsum]
    refine ⟨_, ?_, hinsert⟩
    rw [Bool.not_true, if_neg Bool.false_ne_true]
    dsimp only [bind, Except.bind]
    split_ifs <;> rfl

/-- The choice and the exception are the same for every order of the nodes. -/
theorem chooseLowestLatency_perm (hlat : topology.HasLatencies) {nodes : List ExecutionUnit}
    (hperm : nodes.Perm topology.nodes) {s : Placement × Dict NodeId ℚ}
    (hp : OnNodes topology s.1) (sid : StageId) (stage : Stage) :
    chooseLowestLatency dag { topology with nodes := nodes } governance s sid stage =
      chooseLowestLatency dag topology governance s sid stage := by
  rcases foldlM_considerNode governance hlat hp (dag.predecessors sid) stage
    (fun node hnode => hnode) with ⟨best, hbest, hleast⟩
  rcases foldlM_considerNode governance hlat hp (dag.predecessors sid) stage
    (fun node hnode => hperm.mem_iff.mp hnode) with ⟨best', hbest', hleast'⟩
  rw [candidateKeys_perm hperm] at hleast'
  cases hleast.unique hleast'
  -- the latencies are those of the same matrix
  have hsame : nodes.foldlM (considerNode { topology with nodes := nodes } governance
      (dag.predecessors sid) s stage) (⊤, none) = .ok best := hbest'
  unfold chooseLowestLatency
  rw [hbest, hsame]

theorem OnNodes.placeStage {s s' : Placement × Dict NodeId ℚ} (hp : OnNodes topology s.1)
    {sid : StageId}
    (hstep : placeStage dag (chooseLowestLatency dag topology governance) s sid = .ok s') :
    OnNodes topology s'.1 := by
  rcases placeStage_eq_ok hstep with ⟨stage, nid, -, hnid, rfl⟩
  rcases testsChoice_chooseLowestLatency s sid stage nid hnid with ⟨node, hnode, hid, -⟩
  intro sid' nid' hget
  rw [Dict.get?_insert] at hget
  split at hget
  · cases hget
    exact ⟨node, hnode, hid⟩
  · exact hp sid' nid' hget

/-- Latency-greedy placement returns the same placement, or raises the same exception, for
every order in which the nodes are registered. -/
theorem latencyGreedyPlacement_perm (dag : PipelineDAG) (governance : GovernancePolicy)
    (hlat : topology.HasLatencies) {nodes : List ExecutionUnit}
    (hperm : nodes.Perm topology.nodes) :
    latencyGreedyPlacement dag { topology with nodes := nodes } governance =
      latencyGreedyPlacement dag topology governance := by
  have hloop : ∀ order : List StageId,
      order.foldlM (placeStage dag
        (chooseLowestLatency dag { topology with nodes := nodes } governance)) (.empty, .empty) =
      order.foldlM (placeStage dag (chooseLowestLatency dag topology governance))
        (.empty, .empty) := by
    intro order
    apply foldlM_congr_reached (P := fun s => OnNodes topology s.1)
    · intro _ _ hget
      cases hget
    · intro s sid hp
      unfold placeStage
      cases hstage : dag.getStage sid with
      | error e => rfl
      | ok stage =>
        simp only [bind, Except.bind]
        rw [chooseLowestLatency_perm hlat hperm hp]
    · intro s sid s' hp hs
      exact hp.placeStage hs
  unfold latencyGreedyPlacement placeStages
  cases horder : dag.topologicalSort with
  | error e => rfl
  | ok order =>
    simp only [bind, Except.bind]
    rw [hloop order]

private def tieDag : PipelineDAG :=
  .ofLists [⟨"a", "sense", 1, 1, none, none, none⟩, ⟨"b", "fuse", 1, 1, none, none, none⟩]
      [⟨"a", "b", 10⟩]

private def tieTopology : NetworkTopology where
  nodes := [⟨"n2", "d1", "s1", 1, 0, none⟩, ⟨"n1", "d1", "s1", 1, 0, none⟩]
  latencyMatrix := .ofList [(("n1", "n2"), 5)]

/-- Two nodes at equal latency, registered either way round. -/
theorem latencyGreedyPlacement_perm_tie :
    latencyGreedyPlacement tieDag
      { tieTopology with
        nodes := [⟨"n1", "d1", "s1", 1, 0, none⟩, ⟨"n2", "d1", "s1", 1, 0, none⟩] } {} =
      latencyGreedyPlacement tieDag tieTopology {} := by
  apply latencyGreedyPlacement_perm
  · decide +kernel
  · decide +kernel

end NeuralPubSub
