-- SUMMARY: Placement over a topology with missing latencies, and over the same topology with the gaps filled.
import NeuralPubSub.Base.Refines
import NeuralPubSub.Broker.Placement.DpSafety

open Base

/-!
# Missing latencies

The solver raises `KeyError` when it looks up a latency that the matrix lacks. A
run that does not raise one has looked at stored latencies only, so it returns
the same over a complete topology that stores more of them.
-/

namespace NeuralPubSub

/-! ## Filling the gaps -/

namespace NetworkTopology

/-- The topology with another latency matrix. -/
def withMatrix (t : NetworkTopology) (matrix : Dict (NodeId × NodeId) ℚ) : NetworkTopology :=
  { t with latencyMatrix := matrix }

/-- Neither order of the pair has a latency. -/
def Lacks (t : NetworkTopology) (pair : NodeId × NodeId) : Prop :=
  pair ∉ t.latencyMatrix ∧ pair.swap ∉ t.latencyMatrix

instance (t : NetworkTopology) (pair : NodeId × NodeId) : Decidable (t.Lacks pair) :=
  inferInstanceAs (Decidable (_ ∧ _))

/-- The pairs of nodes that lack a latency. -/
def gaps (t : NetworkTopology) : List (NodeId × NodeId) :=
  (t.nodes.flatMap fun a => t.nodes.map fun b => (a.nodeId, b.nodeId)).filter (t.Lacks ·)

/-- The topology with zero for every latency that it lacks. -/
def completed (t : NetworkTopology) : NetworkTopology :=
  t.withMatrix (.ofList (t.gaps.map (·, 0) ++ t.latencyMatrix.entries))

variable {t : NetworkTopology}

theorem mem_gaps {a b : ExecutionUnit} (ha : a ∈ t.nodes) (hb : b ∈ t.nodes)
    (h : t.Lacks (a.nodeId, b.nodeId)) : (a.nodeId, b.nodeId) ∈ t.gaps := by
  refine List.mem_filter.mpr ⟨?_, decide_eq_true h⟩
  exact List.mem_flatMap.mpr ⟨a, ha, List.mem_map_of_mem hb⟩

theorem lacks_of_mem_gaps {pair : NodeId × NodeId} (h : pair ∈ t.gaps) : t.Lacks pair :=
  of_decide_eq_true (List.mem_filter.mp h).2

theorem get?_completed (pair : NodeId × NodeId) : t.completed.latencyMatrix.get? pair =
    (t.latencyMatrix.get? pair).or (if pair ∈ t.gaps then some 0 else none) := by
  have hgaps : (Dict.ofList (t.gaps.map fun pair => (pair, (0 : ℚ)))).get? pair =
      if pair ∈ t.gaps then some 0 else none := by
    split
    · next hmem =>
      have hkey : pair ∈ Dict.ofList (t.gaps.map fun pair => (pair, (0 : ℚ))) := by
        rw [Dict.mem_ofList, List.map_map]
        exact List.mem_map.mpr ⟨pair, hmem, rfl⟩
      obtain ⟨l, hl⟩ := Dict.exists_get?_of_mem hkey
      obtain ⟨pair', -, heq⟩ := List.mem_map.mp (Dict.mem_of_get?_ofList hl)
      cases heq
      exact hl
    · next hnot =>
      rw [Dict.get?_eq_none_iff, Dict.mem_ofList, List.map_map]
      intro hkey
      obtain ⟨pair', hmem, rfl⟩ := List.mem_map.mp hkey
      exact hnot hmem
  rw [completed, withMatrix, Dict.get?_ofList_append, Dict.ofList_entries, hgaps]

/-- A latency that is there stays as it is. -/
theorem latency_completed {a b : NodeId} {l : ℚ} (h : t.latency a b = .ok l) :
    t.completed.latency a b = .ok l := by
  unfold NetworkTopology.latency at h ⊢
  split at h
  · next heq => rw [if_pos heq, h]
  · next hne =>
    rw [if_neg hne, get?_completed, get?_completed]
    cases hab : t.latencyMatrix.get? (a, b) with
    | some l' =>
      rw [hab] at h
      exact h
    | none =>
      rw [hab] at h
      cases hba : t.latencyMatrix.get? (b, a) with
      | none =>
        rw [hba] at h
        cases h
      | some l' =>
        rw [hba] at h
        have hstored : (b, a) ∈ t.latencyMatrix := Dict.mem_of_get?_eq_some hba
        rw [if_neg fun hgap => (lacks_of_mem_gaps hgap).2 hstored]
        exact h

/-- A topology whose latencies do not depend on the order of the nodes is complete
once the gaps are filled. -/
theorem completed_complete (hids : (t.nodes.map (·.nodeId)).Nodup)
    (hcomm : ∀ a ∈ t.nodes, ∀ b ∈ t.nodes, ∀ l, t.latency a.nodeId b.nodeId = .ok l →
      t.latency b.nodeId a.nodeId = .ok l) : t.completed.Complete := by
  refine ⟨hids, fun a ha b hb => ?_⟩
  cases hab : t.latency a.nodeId b.nodeId with
  | ok l => exact ⟨l, latency_completed hab, latency_completed (hcomm a ha b hb l hab)⟩
  | error e =>
    -- both orders are missing, so both are filled
    have hne : a.nodeId ≠ b.nodeId := by
      intro heq
      rw [latency, if_pos heq] at hab
      cases hab
    have hlacks : t.Lacks (a.nodeId, b.nodeId) := by
      rw [latency, if_neg hne] at hab
      constructor
      · intro hmem
        obtain ⟨l, hl⟩ := Dict.exists_get?_of_mem hmem
        rw [hl] at hab
        cases hab
      · intro hmem
        obtain ⟨l, hl⟩ := Dict.exists_get?_of_mem hmem
        rw [show t.latencyMatrix.get? (b.nodeId, a.nodeId) = some l from hl] at hab
        cases hget : t.latencyMatrix.get? (a.nodeId, b.nodeId) with
        | some l' =>
          rw [hget] at hab
          cases hab
        | none =>
          rw [hget] at hab
          cases hab
    have hfilled : ∀ {x y : ExecutionUnit}, x ∈ t.nodes → y ∈ t.nodes → x.nodeId ≠ y.nodeId →
        t.Lacks (x.nodeId, y.nodeId) → t.completed.latency x.nodeId y.nodeId = .ok 0 := by
      intro x y hx hy hxy hnone
      rw [latency, if_neg hxy, get?_completed, Dict.get?_eq_none_iff.mpr hnone.1,
        if_pos (mem_gaps hx hy hnone)]
      rfl
    exact ⟨0, hfilled ha hb hne hlacks, hfilled hb ha hne.symm ⟨hlacks.2, hlacks.1⟩⟩

end NetworkTopology

/-! ## The solver over another matrix -/

section Refinement

variable {dag : PipelineDAG} {topology : NetworkTopology} {governance : GovernancePolicy}
  {w : Weights} {E : PyError → Prop} {matrix : Dict (NodeId × NodeId) ℚ}

theorem bestPredecessorNode_refines {predRow : List (WithTop ℚ)} (edge? : Option Edge) {nid : NodeId}
    (node : ExecutionUnit)
    (h : ∀ m ∈ topology.nodeIds.zipIdx, predRow.getD m.2 ⊤ ≠ ⊤ →
      Refines E (topology.latency nid m.1) ((topology.withMatrix matrix).latency nid m.1)) :
    Refines E (bestPredecessorNode topology governance w predRow edge? nid node)
      (bestPredecessorNode (topology.withMatrix matrix) governance w predRow edge? nid node) := by
  apply Refines.firstMinM
  intro m hm
  simp only
  split
  · exact Refines.refl _
  · next hfinite => exact (h m hm hfinite).bind fun _ _ => Refines.refl _

theorem combinePredecessors_refines {tables : DpTables} {stageId : StageId} {nid : NodeId}
    {node : ExecutionUnit} {preds : List StageId}
    (h : ∀ predId ∈ preds, ∀ predRow, tables.dp.get? predId = some predRow →
      ∀ m ∈ topology.nodeIds.zipIdx, predRow.getD m.2 ⊤ ≠ ⊤ →
        Refines E (topology.latency nid m.1) ((topology.withMatrix matrix).latency nid m.1))
    (total : WithTop ℚ) (childChoices : Dict StageId ℕ) :
    Refines E
      (combinePredecessors dag topology governance w tables stageId nid node preds total childChoices)
      (combinePredecessors dag (topology.withMatrix matrix) governance w tables stageId nid node preds
        total childChoices) := by
  induction preds generalizing total childChoices with
  | nil => exact Refines.refl _
  | cons predId preds ih =>
    unfold combinePredecessors
    apply (Refines.refl (subscript tables.dp predId)).bind
    intro predRow hrow
    apply (bestPredecessorNode_refines (dag.getEdge predId stageId) node
      (h predId List.mem_cons_self predRow (subscript_eq_ok_iff.mp hrow))).bind
    intro best _
    split
    · exact Refines.refl _
    · exact ih (fun predId hpred => h predId (List.mem_cons_of_mem _ hpred)) _ _

theorem dpCell_refines {tables : DpTables} {stageId : StageId} {stage : Stage} {nid : NodeId}
    (h : ∀ node, topology.getNode nid = .ok node → isNodeFeasibleSimple stage node governance = true →
      ∀ predId ∈ dag.predecessors stageId, ∀ predRow, tables.dp.get? predId = some predRow →
        ∀ m ∈ topology.nodeIds.zipIdx, predRow.getD m.2 ⊤ ≠ ⊤ →
          Refines E (topology.latency nid m.1) ((topology.withMatrix matrix).latency nid m.1)) :
    Refines E (dpCell dag topology governance w tables stageId stage nid)
      (dpCell dag (topology.withMatrix matrix) governance w tables stageId stage nid) := by
  unfold dpCell
  apply (Refines.refl (topology.getNode nid)).bind
  intro node hnode
  simp only
  split
  · exact Refines.refl _
  · next hfeasible =>
    exact combinePredecessors_refines (h node hnode (by simpa using hfeasible)) _ _

theorem dpStage_refines {tables : DpTables} {stageId : StageId}
    (h : ∀ stage, dag.stage? stageId = some stage → ∀ nid ∈ topology.nodeIds, ∀ node,
      topology.getNode nid = .ok node → isNodeFeasibleSimple stage node governance = true →
      ∀ predId ∈ dag.predecessors stageId, ∀ predRow, tables.dp.get? predId = some predRow →
        ∀ m ∈ topology.nodeIds.zipIdx, predRow.getD m.2 ⊤ ≠ ⊤ →
          Refines E (topology.latency nid m.1) ((topology.withMatrix matrix).latency nid m.1)) :
    Refines E (dpStage dag topology governance w tables stageId)
      (dpStage dag (topology.withMatrix matrix) governance w tables stageId) := by
  unfold dpStage
  apply (Refines.refl (dag.getStage stageId)).bind
  intro stage hstage
  have hstage' : dag.stage? stageId = some stage := subscript_eq_ok_iff.mp hstage
  apply (Refines.mapM fun nid hnid => dpCell_refines (h stage hstage' nid hnid)).bind
  intro row _
  exact Refines.refl _

end Refinement

/-! ## The solver over the completed topology -/

section Completed

variable {dag : PipelineDAG} {topology : NetworkTopology} {governance : GovernancePolicy}
  {w : Weights}

def IsKeyError (e : PyError) : Prop := ∃ msg, e = .key msg

theorem latency_refines (a b : NodeId) :
    Refines IsKeyError (topology.latency a b) (topology.completed.latency a b) := by
  cases hab : topology.latency a b with
  | ok l =>
    rw [NetworkTopology.latency_completed hab]
    exact Refines.refl _
  | error e =>
    refine Refines.of_error ?_ _
    unfold NetworkTopology.latency at hab
    split at hab
    · cases hab
    · split at hab
      · cases hab
      · split at hab
        · cases hab
        · cases hab
          exact ⟨_, rfl⟩

theorem dpPlacement_refines :
    Refines IsKeyError (dpPlacement dag topology governance w)
      (dpPlacement dag topology.completed governance w) := by
  unfold dpPlacement dpAssignment
  apply (Refines.refl dag.topologicalSort).bind
  intro order _
  refine Refines.bind (Refines.bind (Refines.foldlM (fun tables stageId _ => ?_) _) ?_) ?_
  · exact dpStage_refines fun _ _ _ _ _ _ _ _ _ _ _ _ _ _ => latency_refines _ _
  · intro tables _
    exact Refines.refl _
  · intro placement _
    exact Refines.refl _

/-- A placement of a tree DAG is also that over the completed topology. -/
theorem findPlacement_completed (htree : dag.isTree = true) {p : Placement}
    (hp : findPlacement dag topology governance w = .ok p) :
    findPlacement dag topology.completed governance w = .ok p := by
  unfold findPlacement at hp ⊢
  rw [if_pos htree] at hp ⊢
  split at hp
  · next hempty => rw [if_pos hempty, hp]
  · next hne =>
    rw [if_neg hne]
    exact dpPlacement_refines.ok hp

variable (topology governance) in
/-- Every latency is there that an edge needs between nodes for its two stages. -/
def Reaches (dag : PipelineDAG) : Prop :=
  ∀ u v su sv, u ∈ dag.predecessors v → dag.stage? u = some su → dag.stage? v = some sv →
    ∀ x ∈ topology.nodes, ∀ y ∈ topology.nodes, isNodeFeasibleSimple su x governance = true →
      isNodeFeasibleSimple sv y governance = true → ∃ l, topology.latency y.nodeId x.nodeId = .ok l

/-- Only nodes that are feasible for a stage have a finite entry in its row. -/
theorem Filled.feasible_of_ne_top {done : List StageId} {tables : DpTables}
    {value : StageId → ExecutionUnit → WithTop ℚ} {choice : StageId → ExecutionUnit → Dict StageId ℕ}
    (h : Filled dag topology governance w done tables value choice) {u : StageId} (hu : u ∈ done)
    {stage : Stage} (hstage : dag.stage? u = some stage) {node : ExecutionUnit}
    (hnode : node ∈ topology.nodes) (hfinite : value u node ≠ ⊤) :
    isNodeFeasibleSimple stage node governance = true := by
  rw [h.isTable u hu node (List.mem_toFinset.mpr hnode), WithTop.add_ne_top] at hfinite
  by_contra hnot
  apply hfinite.1
  simp [placementProblem, hstage, hnot]

theorem dpTables_completed (hw : dag.WellFormed) (hc : topology.completed.Complete)
    (hle : ∀ sid ∈ dag.stages, (dag.successors sid).length ≤ 1)
    (hreach : Reaches topology governance dag) {order : List StageId}
    (hperm : order.Perm dag.stages.keys) (htopo : Graph.TopoOrdered dag.successors order) :
    ∀ rest done tables, order = done ++ rest →
      (∃ value choice, Filled dag topology.completed governance w done tables value choice) →
      rest.foldlM (dpStage dag topology governance w) tables =
        rest.foldlM (dpStage dag topology.completed governance w) tables := by
  intro rest
  induction rest with
  | nil => intros; rfl
  | cons v rest ih =>
    intro done tables horder hfilled
    obtain ⟨tables', hstep, hfilled'⟩ := Filled.step hw hc hle hperm htopo horder hfilled
    obtain ⟨value, choice, hfilled⟩ := hfilled
    have hsame : Refines (fun _ => False) (dpStage dag topology governance w tables v)
        (dpStage dag topology.completed governance w tables v) := by
      refine dpStage_refines fun stage hstage nid hnid node hnode hfeasible u hu predRow hrow m hm
        hfinite => ?_
      have hdone : u ∈ done := htopo done v rest horder u (hw.mem_predecessors.mp hu)
      obtain rfl := Option.some.inj ((hfilled.dpRow u hdone).symm.trans hrow)
      obtain ⟨su, -, hsu, -⟩ := getStage_of_mem
        (hw.predecessor_mem (hw.mem_predecessors.mp hu))
      -- the two nodes that the ids name
      obtain ⟨y, hy, rfl⟩ := List.mem_map.mp hnid
      have hnode' := hc.getNode hy
      obtain rfl := Except.ok.inj (hnode.symm.trans hnode')
      obtain ⟨i, hi, hmi⟩ := List.mem_iff_getElem.mp hm
      obtain ⟨x, hx, hxid, hvalue⟩ : ∃ x ∈ topology.nodes, x.nodeId = m.1 ∧ value u x ≠ ⊤ := by
        rw [List.getElem_zipIdx] at hmi
        subst hmi
        have hlen : i < topology.nodes.length := by
          simpa [NetworkTopology.nodeIds] using hi
        refine ⟨topology.nodes[i], List.getElem_mem hlen, by simp [NetworkTopology.nodeIds], ?_⟩
        have hnodes : topology.completed.nodes = topology.nodes := rfl
        simpa [hnodes, List.getD_eq_getElem?_getD, hlen] using hfinite
      obtain ⟨l, hl⟩ := hreach u v su stage hu hsu hstage x hx node hy
        (hfilled.feasible_of_ne_top hdone hsu hx hvalue) hfeasible
      left
      rw [← hxid]
      exact hl.trans (NetworkTopology.latency_completed hl).symm
    have heq : dpStage dag topology governance w tables v = .ok tables' := by
      cases hsame with
      | inl heq => exact heq.trans hstep
      | inr herror => exact absurd herror.choose_spec.2 id
    rw [List.foldlM_cons, List.foldlM_cons, heq, hstep]
    exact ih (done ++ [v]) tables' (by simp [horder]) hfilled'

/-- Where no latency that it needs is missing, the solver does not notice the gaps. -/
theorem findPlacement_eq_completed (hbuilt : dag.Built) (htree : dag.isTree = true)
    (hc : topology.completed.Complete) (hreach : Reaches topology governance dag) :
    findPlacement dag topology governance w = findPlacement dag topology.completed governance w := by
  have hw := hbuilt.wellFormed
  have hle := (PipelineDAG.isTree_iff.mp htree).1
  obtain ⟨order, horder, hperm, htopo⟩ := hw.topologicalSort_eq
  have htables := dpTables_completed (w := w) hw hc hle hreach hperm htopo order [] {} rfl
    ⟨fun _ _ => ⊤, fun _ _ => .empty, by simp, by simp, fun _ hv => absurd hv (by simp), by simp⟩
  have hassignment : dpAssignment dag topology governance w order =
      dpAssignment dag topology.completed governance w order := by
    unfold dpAssignment
    rw [htables]
    rfl
  unfold findPlacement dpPlacement
  rw [horder]
  simp only [bind, Except.bind, hassignment]
  rw [if_pos htree, if_pos htree]
  rfl

end Completed
end NeuralPubSub
