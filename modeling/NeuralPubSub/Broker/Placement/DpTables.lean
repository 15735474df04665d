-- SUMMARY: The dynamic programming tables form a Bellman table of the placement problem.
import NeuralPubSub.Base.TreeDp
import NeuralPubSub.Broker.Placement.Dp

open Base

/-!
# The dynamic programming tables

The placement of a tree DAG is a `TreeProblem` rooted at the sink. The tables
that `_dp_placement` fills along a topological order satisfy its Bellman
equation, and record for each stage and node the first best node of each
predecessor.
-/

namespace NeuralPubSub

instance (topology : NetworkTopology) (governance : GovernancePolicy) (edge : Edge)
    (src tgt : ExecutionUnit) : Decidable (EdgeAllowed topology governance edge src tgt) :=
  inferInstanceAs (Decidable (_ ∧ _))

/-! ## The problem -/

/-- Placing a tree DAG, as an assignment problem over the tree of predecessors. -/
def placementProblem (dag : PipelineDAG) (topology : NetworkTopology)
    (governance : GovernancePolicy) (w : Weights) : TreeProblem StageId ExecutionUnit ℚ where
  children := dag.predecessors
  hosts := topology.nodes.toFinset
  nodeCost sid node :=
    if (dag.stage? sid).any (isNodeFeasibleSimple · node governance) then stageCost dag w sid node
    else ⊤
  edgeCost u v src tgt :=
    if (dag.getEdge u v).any (EdgeAllowed topology governance · src tgt) then
      edgeCost topology w src tgt
    else ⊤

variable {dag : PipelineDAG} {topology : NetworkTopology} {governance : GovernancePolicy}
  {w : Weights}

/-- A tree DAG has one sink, and every other stage has one successor. -/
theorem PipelineDAG.exists_sink_of_isTree (ht : dag.isTree = true) :
    ∃ sink, dag.sinks = [sink] ∧ ∀ u ∈ dag.stages, u ≠ sink → ∃ v, dag.successors u = [v] := by
  obtain ⟨hle, hone⟩ := PipelineDAG.isTree_iff.mp ht
  obtain ⟨sink, hsink⟩ := List.length_eq_one_iff.mp hone
  refine ⟨sink, hsink, fun u hu hne => ?_⟩
  have hnil : dag.successors u ≠ [] := by
    intro h
    have : u ∈ dag.sinks := by
      simp [PipelineDAG.sinks, h, ← Dict.mem_iff_mem_keys, hu]
    rw [hsink] at this
    exact hne (List.mem_singleton.mp this)
  have := hle u hu
  exact List.length_eq_one_iff.mp (by have := List.length_pos_iff.mpr hnil; omega)

theorem PipelineDAG.WellFormed.predecessors_nodup (hw : dag.WellFormed)
    (hle : ∀ sid ∈ dag.stages, (dag.successors sid).length ≤ 1) (v : StageId) :
    (dag.predecessors v).Nodup := by
  rw [List.nodup_iff_count_le_one]
  intro u
  by_cases hu : u ∈ dag.stages
  · -- an edge from `u` to `v` is counted among the successors of `u` as well
    refine le_trans ?_ (hle u hu)
    rw [hw.predecessors_eq, hw.successors_eq, List.length_map, List.count, List.countP_map,
      List.countP_filter, ← List.countP_eq_length_filter]
    exact List.countP_mono_left (by simp; intros; assumption)
  · rw [List.count_eq_zero_of_not_mem]
    · exact Nat.zero_le 1
    · exact fun hmem => hu (hw.predecessor_mem (hw.mem_predecessors.mp hmem))

variable (topology governance w) in
/-- Along a topological order a tree DAG is a tree rooted at its sink. -/
theorem placementProblem_isTree (hw : dag.WellFormed) (ht : dag.isTree = true)
    {order : List StageId} (hperm : order.Perm dag.stages.keys)
    (htopo : Graph.TopoOrdered dag.successors order) {sink : StageId} (hsink : dag.sinks = [sink]) :
    (placementProblem dag topology governance w).IsTree order sink := by
  have hle := (PipelineDAG.isTree_iff.mp ht).1
  have hnodup : order.Nodup := hperm.nodup_iff.mpr dag.stages.keys_nodup
  have hmem : ∀ {u}, u ∈ order ↔ u ∈ dag.stages := hperm.mem_iff
  have hsinkMem : sink ∈ dag.stages ∧ dag.successors sink = [] := by
    have : sink ∈ dag.sinks := by simp [hsink]
    simpa [PipelineDAG.sinks, Dict.mem_iff_mem_keys] using this
  have hunique : ∀ {u v v'}, v ∈ dag.successors u → v' ∈ dag.successors u → v = v' := by
    intro u v v' hv hv'
    obtain ⟨x, hx⟩ := List.length_eq_one_iff.mp (le_antisymm (hle u (hw.predecessor_mem hv))
      (List.length_pos_of_mem hv))
    rw [hx, List.mem_singleton] at hv hv'
    rw [hv, hv']
  refine ⟨hnodup, (List.perm_ext_iff_of_nodup hnodup ?_).mpr fun u => ?_, ?_⟩
  · rw [List.nodup_cons]
    constructor
    · intro h
      obtain ⟨v, -, hv⟩ := List.mem_flatMap.mp h
      have := hw.mem_predecessors.mp hv
      rw [hsinkMem.2] at this
      exact List.not_mem_nil this
    · rw [List.nodup_flatMap]
      refine ⟨fun v _ => hw.predecessors_nodup hle v, hnodup.imp fun hne u hu hu' => ?_⟩
      exact hne (hunique (hw.mem_predecessors.mp hu) (hw.mem_predecessors.mp hu'))
  · rw [hmem, List.mem_cons, List.mem_flatMap]
    constructor
    · intro hu
      by_cases hs : u = sink
      · exact .inl hs
      · obtain ⟨sink', hsink', hsucc⟩ := PipelineDAG.exists_sink_of_isTree ht
        obtain rfl : sink = sink' := by simpa [hsink] using hsink'
        obtain ⟨v, hv⟩ := hsucc u hu hs
        have huv : v ∈ dag.successors u := by simp [hv]
        exact .inr ⟨v, hmem.mpr (hw.successor_mem huv), hw.mem_predecessors.mpr huv⟩
    · rintro (rfl | ⟨v, -, hv⟩)
      · exact hsinkMem.1
      · exact hw.predecessor_mem (hw.mem_predecessors.mp hv)
  · exact fun pre v post h u hu => htopo pre v post h u (hw.mem_predecessors.mp hu)

/-! ## One cell -/

section Cell

variable (dag topology governance w) in
/-- Index `i` is the first that is best for `u`, given that its successor `v` is on `node`. -/
def FirstBest (value : StageId → ExecutionUnit → WithTop ℚ) (u v : StageId) (node : ExecutionUnit)
    (i : ℕ) : Prop :=
  let P := placementProblem dag topology governance w
  ∃ m, topology.nodes[i]? = some m ∧ value u m + P.edgeCost u v m node = P.best value u v node ∧
    ∀ j < i, ∀ m', topology.nodes[j]? = some m' →
      P.best value u v node < value u m' + P.edgeCost u v m' node

variable {value : StageId → ExecutionUnit → WithTop ℚ}

theorem placementProblem_edgeCost {u v : StageId} {edge : Edge} (h : dag.getEdge u v = some edge)
    (src tgt : ExecutionUnit) :
    (placementProblem dag topology governance w).edgeCost u v src tgt =
      if EdgeAllowed topology governance edge src tgt then
        (edgeCost topology w src tgt : WithTop ℚ) else ⊤ := by
  simp [placementProblem, h]

variable (governance w) in
theorem bestPredecessorNode_spec (value : StageId → ExecutionUnit → WithTop ℚ) (hc : topology.Complete) {u v : StageId} {edge : Edge}
    (hedge : dag.getEdge u v = some edge) {node : ExecutionUnit} (hnode : node ∈ topology.nodes) :
    ∃ best, bestPredecessorNode topology governance w (topology.nodes.map (value u))
        (dag.getEdge u v) node.nodeId node = .ok best ∧
      best.1 = (placementProblem dag topology governance w).best value u v node ∧
      (best.2 = none → best.1 = ⊤) ∧
      ∀ x, best.2 = some x → best.1 ≠ ⊤ ∧ FirstBest dag topology governance w value u v node x.2 := by
  set P := placementProblem dag topology governance w with hP
  -- an entry of the enumeration stands for a node
  have hentry : ∀ x ∈ topology.nodeIds.zipIdx, ∃ m, topology.nodes[x.2]? = some m ∧
      m.nodeId = x.1 ∧ m ∈ topology.nodes := by
    rintro ⟨nid, i⟩ hx
    rw [List.mem_zipIdx_iff_getElem?, NetworkTopology.nodeIds, List.getElem?_map] at hx
    obtain ⟨m, hm, hid⟩ := Option.map_eq_some_iff.mp hx
    exact ⟨m, hm, hid, List.mem_of_getElem? hm⟩
  have hindex : ∀ i m, topology.nodes[i]? = some m → (m.nodeId, i) ∈ topology.nodeIds.zipIdx := by
    intro i m hm
    rw [List.mem_zipIdx_iff_getElem?, NetworkTopology.nodeIds, List.getElem?_map, hm]
    rfl
  obtain ⟨best, hbest, hmin⟩ := firstMinM_spec (l := topology.nodeIds.zipIdx)
    (f := fun x : NodeId × ℕ => do
      let predCost := (topology.nodes.map (value u)).getD x.2 ⊤
      if predCost = ⊤ then return ⊤
      let lat ← topology.latency node.nodeId x.1
      if (dag.getEdge u v).any (fun edge => lat > edge.latencyBound + tolerance) then return ⊤
      let predDomain := (← topology.getNode x.1).domainId
      if ! governance.trusts predDomain node.domainId then return ⊤
      let cross := if predDomain ≠ node.domainId then 1 else 0
      return predCost + (w.alpha * lat : ℚ) + (w.gamma * cross : ℚ))
    (g := fun x => topology.nodes[x.2]?.elim ⊤ fun m => value u m + P.edgeCost u v m node) (by
    intro x hx
    obtain ⟨m, hm, hid, hmem⟩ := hentry x hx
    have hrow : (topology.nodes.map (value u)).getD x.2 ⊤ = value u m := by
      simp [List.getD_eq_getElem?_getD, hm]
    simp only [hrow, hm, Option.elim_some, ← hid, hc.latency_eq hnode hmem, hc.getNode hmem,
      hc.latencyOf_comm hnode hmem, hedge, Option.any_some, hP, placementProblem_edgeCost hedge,
      bind, Except.bind, pure, Except.pure]
    by_cases htop : value u m = ⊤
    · simp [htop]
    · by_cases hlat : topology.latencyOf m.nodeId node.nodeId ≤ edge.latencyBound + tolerance
      · by_cases htrust : governance.trusts m.domainId node.domainId = true
        · have hallowed : EdgeAllowed topology governance edge m node := ⟨hlat, htrust⟩
          simp [htop, not_lt.mpr hlat, htrust, hallowed, edgeCost, crossing]
          rw [add_assoc]
        · simp [htop, not_lt.mpr hlat, htrust, EdgeAllowed]
      · simp [htop, not_le.mp hlat, EdgeAllowed, hlat])
  have hinf : best.1 = P.best value u v node := by
    refine hmin.eq_inf (fun x hx => ?_) (fun m hm => ?_)
    · obtain ⟨m, hm, -, hmem⟩ := hentry x hx
      exact ⟨m, List.mem_toFinset.mpr hmem, by simp [hm]⟩
    · obtain ⟨i, hi, rfl⟩ := List.mem_iff_getElem.mp (List.mem_toFinset.mp hm)
      have hget : topology.nodes[i]? = some topology.nodes[i] := List.getElem?_eq_getElem hi
      exact ⟨_, hindex i _ hget, by simp [hget]⟩
  refine ⟨best, hbest, hinf, hmin.eq_top, fun x hx => ?_⟩
  obtain ⟨heq, hlt, pre, post, hsplit, hpre⟩ := hmin.attained x hx
  obtain ⟨m, hm, -, hmem⟩ := hentry x (by simp [hsplit])
  refine ⟨heq ▸ hlt.ne, m, hm, ?_, fun j hj m' hm' => ?_⟩
  · rw [← hinf, heq, hm]
    rfl
  · have := hpre _ (mem_of_zipIdx_split hsplit hj (y := m'.nodeId) (by
      simp [NetworkTopology.nodeIds, hm']))
    rwa [← heq, hinf, hm'] at this

variable (governance w) in
/-- What the loop over the predecessors computes: the sum of their best costs,
and, while that is finite, a first best index for each of them. -/
theorem combinePredecessors_spec (hc : topology.Complete) {tables : DpTables} {v : StageId}
    {node : ExecutionUnit} (hnode : node ∈ topology.nodes) (preds : List StageId)
    (total : WithTop ℚ) (childChoices : Dict StageId ℕ)
    (hrows : ∀ u ∈ preds, tables.dp.get? u = some (topology.nodes.map (value u)))
    (hedges : ∀ u ∈ preds, ∃ edge, dag.getEdge u v = some edge)
    (hnodup : (childChoices.keys ++ preds).Nodup) :
    ∃ t c, combinePredecessors dag topology governance w tables v node.nodeId node preds total
        childChoices = .ok (t, c) ∧
      t = total + (preds.map fun u =>
        (placementProblem dag topology governance w).best value u v node).sum ∧
      (t ≠ ⊤ → c.keys = childChoices.keys ++ preds ∧
        (∀ u ∈ childChoices.keys, c.get? u = childChoices.get? u) ∧
        ∀ u ∈ preds, ∃ i, c.get? u = some i ∧
          FirstBest dag topology governance w value u v node i) := by
  induction preds generalizing total childChoices with
  | nil => exact ⟨total, childChoices, rfl, by simp, by simp⟩
  | cons u preds ih =>
    obtain ⟨edge, hedge⟩ := hedges u (by simp)
    obtain ⟨best, hbest, hinf, hnone, hsome⟩ :=
      bestPredecessorNode_spec governance w value hc hedge hnode
    have hnew : u ∉ childChoices := fun hm =>
      (List.nodup_append.mp hnodup).2.2 u hm u (by simp) rfl
    unfold combinePredecessors
    rw [subscript_eq_ok_iff.mpr (hrows u (by simp))]
    simp only [bind, Except.bind, hbest]
    cases hb : best.2 with
    | none =>
      refine ⟨⊤, .empty, rfl, ?_, fun h => absurd rfl h⟩
      simp [← hinf, hnone hb]
    | some m =>
      obtain ⟨-, hfirst⟩ := hsome m hb
      have hkeys := Dict.keys_insert_of_not_mem m.2 hnew
      obtain ⟨t, c, hok, ht, hpicks⟩ := ih (total + best.1) (childChoices.insert u m.2)
        (fun x hx => hrows x (by simp [hx])) (fun x hx => hedges x (by simp [hx]))
        (by simpa [hkeys] using hnodup)
      refine ⟨t, c, hok, by rw [ht, hinf, List.map_cons, List.sum_cons, add_assoc], fun hne => ?_⟩
      obtain ⟨hck, hold, hothers⟩ := hpicks hne
      rw [hkeys] at hck hold
      refine ⟨by simpa using hck, fun x hx => ?_, fun x hx => ?_⟩
      · rw [hold x (by simp [hx]), Dict.get?_insert_of_ne]
        rintro rfl
        exact hnew hx
      · rcases List.mem_cons.mp hx with rfl | hx
        · exact ⟨m.2, by rw [hold x (by simp), Dict.get?_insert_self], hfirst⟩
        · exact hothers x hx

end Cell

/-! ## The whole table -/

section Tables

variable (dag topology governance w) in
/-- The tables after the loop has filled the stages of `done`, as functions of a
stage and a node. -/
structure Filled (done : List StageId) (tables : DpTables)
    (value : StageId → ExecutionUnit → WithTop ℚ)
    (choice : StageId → ExecutionUnit → Dict StageId ℕ) : Prop where
  dpRow : ∀ v ∈ done, tables.dp.get? v = some (topology.nodes.map (value v))
  choiceRow : ∀ v ∈ done, tables.choice.get? v = some (topology.nodes.map (choice v))
  isTable : (placementProblem dag topology governance w).IsTable done value
  picks : ∀ v ∈ done, ∀ node ∈ topology.nodes, value v node ≠ ⊤ →
    (choice v node).keys = dag.predecessors v ∧ ∀ u ∈ dag.predecessors v,
      ∃ i, (choice v node).get? u = some i ∧
        FirstBest dag topology governance w value u v node i

/-- The best values of a stage depend on the values of that stage only. -/
theorem best_congr {P : TreeProblem StageId ExecutionUnit ℚ}
    {value value' : StageId → ExecutionUnit → WithTop ℚ} {u : StageId}
    (h : value' u = value u) (v : StageId) (node : ExecutionUnit) :
    P.best value' u v node = P.best value u v node := by
  simp only [TreeProblem.best, h]

theorem FirstBest.congr {value value' : StageId → ExecutionUnit → WithTop ℚ} {u v : StageId}
    {node : ExecutionUnit} {i : ℕ} (h : value' u = value u)
    (hf : FirstBest dag topology governance w value u v node i) :
    FirstBest dag topology governance w value' u v node i := by
  unfold FirstBest
  simp only [best_congr h, h]
  exact hf

variable (governance w) in
theorem dpCell_spec (hw : dag.WellFormed) (hc : topology.Complete)
    (hle : ∀ sid ∈ dag.stages, (dag.successors sid).length ≤ 1) {tables : DpTables}
    {value : StageId → ExecutionUnit → WithTop ℚ} {v : StageId} {stage : Stage}
    (hstage : dag.stage? v = some stage)
    (hrows : ∀ u ∈ dag.predecessors v, tables.dp.get? u = some (topology.nodes.map (value u)))
    {node : ExecutionUnit} (hnode : node ∈ topology.nodes) :
    ∃ t c, dpCell dag topology governance w tables v stage node.nodeId = .ok (t, c) ∧
      t = (placementProblem dag topology governance w).nodeCost v node +
        ((dag.predecessors v).map fun u =>
          (placementProblem dag topology governance w).best value u v node).sum ∧
      (t ≠ ⊤ → c.keys = dag.predecessors v ∧ ∀ u ∈ dag.predecessors v,
        ∃ i, c.get? u = some i ∧ FirstBest dag topology governance w value u v node i) := by
  have hcost : (placementProblem dag topology governance w).nodeCost v node =
      if isNodeFeasibleSimple stage node governance then
        ((w.beta * loadRatio stage node : ℚ) : WithTop ℚ) else ⊤ := by
    simp [placementProblem, hstage, stageCost]
  unfold dpCell
  simp only [hc.getNode hnode, bind, Except.bind]
  cases hfeas : isNodeFeasibleSimple stage node governance with
  | false => exact ⟨⊤, .empty, rfl, by simp [hcost, hfeas], fun h => absurd rfl h⟩
  | true =>
    have hedges : ∀ u ∈ dag.predecessors v, ∃ edge, dag.getEdge u v = some edge := by
      intro u hu
      obtain ⟨e, he, hsrc, htgt⟩ := hw.mem_successors.mp (hw.mem_predecessors.mp hu)
      have hmem : e ∈ dag.edges.filter fun e => e.sourceId = u ∧ e.targetId = v :=
        List.mem_filter.mpr ⟨he, by simp [hsrc, htgt]⟩
      rw [hw.getEdge_eq]
      exact ⟨_, List.getLast?_eq_some_getLast (List.ne_nil_of_mem hmem)⟩
    obtain ⟨t, c, hok, ht, hpicks⟩ := combinePredecessors_spec governance w
      hc hnode (dag.predecessors v) ((w.beta * loadRatio stage node : ℚ) : WithTop ℚ) .empty hrows
      hedges (by simpa using hw.predecessors_nodup hle v)
    refine ⟨t, c, hok, by simp [ht, hcost, hfeas], fun hne => ?_⟩
    obtain ⟨hkeys, -, hall⟩ := hpicks hne
    exact ⟨by simpa using hkeys, hall⟩

/-- Filling the entries of one more stage. -/
theorem Filled.step (hw : dag.WellFormed) (hc : topology.Complete)
    (hle : ∀ sid ∈ dag.stages, (dag.successors sid).length ≤ 1) {order done rest : List StageId}
    {v : StageId} (hperm : order.Perm dag.stages.keys)
    (htopo : Graph.TopoOrdered dag.successors order) (horder : order = done ++ v :: rest)
    {tables : DpTables}
    (h : ∃ value choice, Filled dag topology governance w done tables value choice) :
    ∃ tables', dpStage dag topology governance w tables v = .ok tables' ∧
      ∃ value choice, Filled dag topology governance w (done ++ [v]) tables' value choice := by
  obtain ⟨value, choice, hdp, hchoice, htable, hpicks⟩ := h
  have hv : v ∈ dag.stages := hperm.mem_iff.mp (by simp [horder])
  obtain ⟨stage, hget, hstage, -⟩ := getStage_of_mem hv
  have hnew : v ∉ done := by
    have hnodup := hperm.nodup_iff.mpr dag.stages.keys_nodup
    rw [horder] at hnodup
    exact fun hm => (List.nodup_append.mp hnodup).2.2 v hm v (by simp) rfl
  have hpred : ∀ u ∈ dag.predecessors v, u ∈ done := fun u hu =>
    htopo done v rest horder u (hw.mem_predecessors.mp hu)
  have hpreds : ∀ x ∈ done, ∀ u ∈ dag.predecessors x, u ∈ done := by
    intro x hx u hu
    obtain ⟨pre, post, rfl⟩ := List.append_of_mem hx
    have := htopo pre x (post ++ v :: rest) (by simp [horder]) u (hw.mem_predecessors.mp hu)
    simp [this]
  -- the row of `v`, entry by entry
  let cell : ExecutionUnit → WithTop ℚ × Dict StageId ℕ := fun node =>
    (dpCell dag topology governance w tables v stage node.nodeId).toOption.getD (⊤, .empty)
  have hcell : ∀ node ∈ topology.nodes,
      dpCell dag topology governance w tables v stage node.nodeId = .ok (cell node) ∧
      (cell node).1 = (placementProblem dag topology governance w).nodeCost v node +
        ((dag.predecessors v).map fun u =>
          (placementProblem dag topology governance w).best value u v node).sum ∧
      ((cell node).1 ≠ ⊤ → (cell node).2.keys = dag.predecessors v ∧ ∀ u ∈ dag.predecessors v,
        ∃ i, (cell node).2.get? u = some i ∧
          FirstBest dag topology governance w value u v node i) := by
    intro node hnode
    obtain ⟨t, c, hok, hspec⟩ := dpCell_spec governance w hw hc hle hstage
      (fun u hu => hdp u (hpred u hu)) hnode
    have hcell : cell node = (t, c) := by simp only [cell, hok]; rfl
    rw [hcell]
    exact ⟨hok, hspec⟩
  have hrow : topology.nodeIds.mapM (dpCell dag topology governance w tables v stage) =
      .ok (topology.nodes.map cell) := by
    rw [NetworkTopology.nodeIds, List.mapM_map]
    exact mapM_eq_ok fun node hnode => (hcell node hnode).1
  let value' := Function.update value v fun node => (cell node).1
  let choice' := Function.update choice v fun node => (cell node).2
  have hne : ∀ x ∈ done, x ≠ v := fun x hx h => hnew (h ▸ hx)
  have hold : ∀ x ∈ done, value' x = value x ∧ choice' x = choice x := fun x hx =>
    ⟨Function.update_of_ne (hne x hx) _ _, Function.update_of_ne (hne x hx) _ _⟩
  have hself : value' v = (fun node => (cell node).1) ∧ choice' v = fun node => (cell node).2 :=
    ⟨Function.update_self .., Function.update_self ..⟩
  unfold dpStage
  simp only [hget, hrow, bind, Except.bind]
  refine ⟨_, rfl, value', choice', ?_, ?_, ?_, ?_⟩
  · intro x hx
    rcases List.mem_append.mp hx with hx | hx
    · rw [Dict.get?_insert_of_ne _ _ (hne x hx), hdp x hx, (hold x hx).1]
    · obtain rfl := List.mem_singleton.mp hx
      rw [Dict.get?_insert_self, hself.1, List.map_map]
      rfl
  · intro x hx
    rcases List.mem_append.mp hx with hx | hx
    · rw [Dict.get?_insert_of_ne _ _ (hne x hx), hchoice x hx, (hold x hx).2]
    · obtain rfl := List.mem_singleton.mp hx
      rw [Dict.get?_insert_self, hself.2, List.map_map]
      rfl
  · intro x hx node hnode
    rcases List.mem_append.mp hx with hx | hx
    · rw [(hold x hx).1, htable x hx node hnode]
      congr 2
      exact List.map_congr_left fun u hu => (best_congr (hold u (hpreds x hx u hu)).1 x node).symm
    · obtain rfl := List.mem_singleton.mp hx
      rw [hself.1]
      refine (hcell node (List.mem_toFinset.mp hnode)).2.1.trans ?_
      congr 2
      exact List.map_congr_left fun u hu => (best_congr (hold u (hpred u hu)).1 x node).symm
  · intro x hx node hnode hfin
    rcases List.mem_append.mp hx with hx | hx
    · rw [(hold x hx).1] at hfin
      obtain ⟨hkeys, hall⟩ := hpicks x hx node hnode hfin
      rw [(hold x hx).2]
      refine ⟨hkeys, fun u hu => ?_⟩
      obtain ⟨i, hi, hf⟩ := hall u hu
      exact ⟨i, hi, hf.congr (hold u (hpreds x hx u hu)).1⟩
    · obtain rfl := List.mem_singleton.mp hx
      rw [hself.1] at hfin
      obtain ⟨hkeys, hall⟩ := (hcell node hnode).2.2 hfin
      rw [hself.2]
      refine ⟨hkeys, fun u hu => ?_⟩
      obtain ⟨i, hi, hf⟩ := hall u hu
      exact ⟨i, hi, hf.congr (hold u (hpred u hu)).1⟩

variable (governance w) in
/-- The loop fills the whole table without raising. -/
theorem dpTables_spec (hw : dag.WellFormed) (hc : topology.Complete)
    (hle : ∀ sid ∈ dag.stages, (dag.successors sid).length ≤ 1) {order : List StageId}
    (hperm : order.Perm dag.stages.keys) (htopo : Graph.TopoOrdered dag.successors order) :
    ∃ tables, order.foldlM (dpStage dag topology governance w) {} = .ok tables ∧
      ∃ value choice, Filled dag topology governance w order tables value choice :=
  foldlM_scan_ok
    (P := fun done tables =>
      ∃ value choice, Filled dag topology governance w done tables value choice)
    ⟨fun _ _ => ⊤, fun _ _ => .empty, by simp, by simp, fun _ hv => absurd hv (by simp), by simp⟩
    fun _ _ _ _ hsplit hfilled => Filled.step hw hc hle hperm htopo hsplit hfilled

end Tables

end NeuralPubSub
