-- SUMMARY: The assignment traced from the dynamic programming tables is admissible and of least cost.
import NeuralPubSub.Broker.Placement.DpTables

open Base

/-!
# Optimality of the dynamic program

The trace reads off the tables an assignment that follows the first minimisers,
so by the general theory of Bellman tables it has the least cost, and no
admissible assignment exists when the sink's row is infinite throughout.
-/

namespace NeuralPubSub

variable {dag : PipelineDAG} {topology : NetworkTopology} {governance : GovernancePolicy}
  {w : Weights}

/-! ## The trace -/

section Trace

variable {choice : Dict StageId (List (Dict StageId ℕ))} {host : StageId → ExecutionUnit}
  {order : List StageId}

variable (dag topology) in
/-- The recorded indices of a stage's predecessors name their hosts. -/
def ChoicesName (choice : Dict StageId (List (Dict StageId ℕ))) (host : StageId → ExecutionUnit)
    (order : List StageId) : Prop :=
  ∀ v ∈ order, ∀ i, topology.nodes[i]? = some (host v) →
    let c := (choice.getD v []).getD i .empty
    c.keys = dag.predecessors v ∧ ∀ u ∈ dag.predecessors v,
      ∃ j, c.get? u = some j ∧ topology.nodes[j]? = some (host u)

/-- What a placement gains by tracing from stages of the order. -/
structure Traced (topology : NetworkTopology) (host : StageId → ExecutionUnit)
    (order : List StageId) (before after : Placement) : Prop where
  keep : ∀ x ∈ before, x ∈ after
  sound : ∀ x nid, after.get? x = some nid →
    before.get? x = some nid ∨ x ∈ order ∧ nid = (host x).nodeId

theorem Traced.refl (p : Placement) : Traced topology host order p p :=
  ⟨fun _ h => h, fun _ _ h => .inl h⟩

theorem Traced.trans {p q r : Placement} (h : Traced topology host order p q)
    (h' : Traced topology host order q r) : Traced topology host order p r where
  keep x hx := h'.keep x (h.keep x hx)
  sound x nid hx := (h'.sound x nid hx).elim (h.sound x nid) .inr

/-- Tracing from a stage places it and everything below it. The fuel bounds the
position of the stage, since predecessors stand earlier in the order. -/
theorem trace_spec (hw : dag.WellFormed) (htopo : Graph.TopoOrdered dag.successors order)
    (hchoices : ChoicesName dag topology choice host order) (fuel : ℕ) (v : StageId) (i : ℕ)
    (p : Placement) (done rest : List StageId) (horder : order = done ++ v :: rest)
    (hfuel : done.length < fuel) (hi : topology.nodes[i]? = some (host v)) :
    Traced topology host order p (trace topology.nodeIds choice fuel v i p) ∧
      ∀ x, Relation.ReflTransGen (fun a b => b ∈ dag.predecessors a) v x →
        x ∈ trace topology.nodeIds choice fuel v i p := by
  induction fuel generalizing v i p done rest with
  | zero => omega
  | succ fuel ih =>
    have hv : v ∈ order := by simp [horder]
    obtain ⟨hkeys, hnames⟩ := hchoices v hv i hi
    have hid : topology.nodeIds.getD i "" = (host v).nodeId := by
      simp [NetworkTopology.nodeIds, List.getD_eq_getElem?_getD, hi]
    rw [trace, hid]
    set c := (choice.getD v []).getD i .empty
    have hplace : Traced topology host order p (p.insert v (host v).nodeId) := by
      refine ⟨fun x hx => Dict.mem_insert.mpr (.inr hx), fun x nid hx => ?_⟩
      rw [Dict.get?_insert] at hx
      split at hx
      · next h => exact .inr ⟨h ▸ hv, h ▸ (Option.some.inj hx).symm⟩
      · exact .inl hx
    -- the loop over the recorded predecessors
    have hloop := foldl_scan (l := c.entries) (b := p.insert v (host v).nodeId)
      (f := fun placement e => trace topology.nodeIds choice fuel e.1 e.2 placement)
      (P := fun es q => Traced topology host order (p.insert v (host v).nodeId) q ∧
        ∀ e ∈ es, ∀ x, Relation.ReflTransGen (fun a b => b ∈ dag.predecessors a) e.1 x → x ∈ q)
      ⟨.refl _, by simp⟩ (by
      rintro es ⟨u, j⟩ es' q hsplit ⟨hq, hcover⟩
      have he : (u, j) ∈ c.entries := by simp [hsplit]
      have hu : u ∈ dag.predecessors v := hkeys ▸ Dict.mem_of_mem_entries he
      obtain ⟨j', hj', hnode⟩ := hnames u hu
      obtain rfl : j' = j :=
        Option.some.inj (hj'.symm.trans (Dict.get?_eq_some_iff.mpr he))
      have hmem := htopo done v rest horder u (hw.mem_predecessors.mp hu)
      obtain ⟨pre, post, rfl⟩ := List.append_of_mem hmem
      obtain ⟨htr, hbelow⟩ := ih u j' q pre (post ++ v :: rest) (by simp [horder])
        (by simp at hfuel; omega) hnode
      refine ⟨hq.trans htr, fun e he x hx => ?_⟩
      rcases List.mem_append.mp he with he | he
      · exact htr.keep x (hcover e he x hx)
      · obtain rfl := List.mem_singleton.mp he
        exact hbelow x hx)
    refine ⟨hplace.trans hloop.1, fun x hx => ?_⟩
    rcases Relation.ReflTransGen.cases_head hx with rfl | ⟨u, hu, hux⟩
    · exact hloop.1.keep _ (Dict.mem_insert.mpr (.inl rfl))
    · obtain ⟨j, hj, -⟩ := hnames u hu
      exact hloop.2 (u, j) (Dict.get?_eq_some_iff.mp hj) x hux

/-- Traced from the sink, a placement gives every stage its host. -/
theorem trace_hosts (hw : dag.WellFormed) (htree : dag.isTree = true)
    (hperm : order.Perm dag.stages.keys) (htopo : Graph.TopoOrdered dag.successors order)
    {sink : StageId} (hsink : dag.sinks = [sink])
    (hchoices : ChoicesName dag topology choice host order)
    (hnodes : ∀ v ∈ order, host v ∈ topology.nodes) {i : ℕ}
    (hi : topology.nodes[i]? = some (host sink)) :
    Hosts dag topology host
      (trace topology.nodeIds choice dag.stages.keys.length sink i .empty) := by
  have ht := placementProblem_isTree topology {} {} hw htree
    hperm htopo hsink
  obtain ⟨done, rest, horder⟩ := List.append_of_mem ht.root_mem
  obtain ⟨htraced, hbelow⟩ := trace_spec hw htopo hchoices dag.stages.keys.length sink i .empty
    done rest horder (by rw [← hperm.length_eq, horder]; simp) hi
  have hall : ∀ x ∈ order, Relation.ReflTransGen (fun a b => b ∈ dag.predecessors a) sink x :=
    ht.induction_down .refl fun v _ hv u hu => hv.tail hu
  have hsound : ∀ x nid, (trace topology.nodeIds choice dag.stages.keys.length sink i .empty).get? x
      = some nid → x ∈ order ∧ nid = (host x).nodeId := fun x nid hx =>
    (htraced.sound x nid hx).resolve_left (by simp)
  refine ⟨fun x => ⟨fun hx => ?_, fun hx => hbelow x (hall x (hperm.mem_iff.mpr hx))⟩,
    fun x hx => ?_, fun x hx => hnodes x (hperm.mem_iff.mpr hx)⟩
  · obtain ⟨nid, hnid⟩ := Dict.exists_get?_of_mem hx
    exact hperm.mem_iff.mp (hsound x nid hnid).1
  · obtain ⟨nid, hnid⟩ := Dict.exists_get?_of_mem (hbelow x (hall x (hperm.mem_iff.mpr hx)))
    rw [hnid, (hsound x nid hnid).2]

end Trace

/-! ## Admissible assignments -/

variable (dag topology governance) in
/-- Per-stage feasibility without extra load, and the constraints of every edge. -/
structure Admissible (host : StageId → ExecutionUnit) : Prop where
  mem_nodes : ∀ sid ∈ dag.stages, host sid ∈ topology.nodes
  stages : ∀ sid stage, dag.stage? sid = some stage →
    isNodeFeasibleSimple stage (host sid) governance = true
  edges : EdgesRespected dag topology governance host

variable (dag topology governance) in
def AdmissibleAssignment (p : Placement) : Prop :=
  ∃ host, Hosts dag topology host p ∧ Admissible dag topology governance host

/-- A tree DAG has at most one edge per ordered pair of stages. -/
theorem simpleEdges_of_isTree (hw : dag.WellFormed) (ht : dag.isTree = true) : dag.SimpleEdges := by
  have hle := (PipelineDAG.isTree_iff.mp ht).1
  rw [PipelineDAG.SimpleEdges, List.nodup_iff_count_le_one]
  rintro ⟨u, v⟩
  by_cases hu : u ∈ dag.stages
  · refine le_trans ?_ (hle u hu)
    rw [hw.successors_eq, List.length_map, List.count, List.countP_map,
      ← List.countP_eq_length_filter]
    exact List.countP_mono_left fun e _ h => by simp_all
  · rw [List.count_eq_zero_of_not_mem]
    · exact Nat.zero_le 1
    · intro hmem
      obtain ⟨e, he, heq⟩ := List.mem_map.mp hmem
      exact hu ((Prod.mk.inj heq).1 ▸ hw.source_mem e he)

theorem coe_list_sum {α : Type} (l : List α) (f : α → ℚ) :
    (((l.map f).sum : ℚ) : WithTop ℚ) = (l.map fun x => (f x : WithTop ℚ)).sum := by
  induction l with
  | nil => rfl
  | cons x l ih => simp [ih]

/-- Summing over the predecessors of every stage is summing over the edges. -/
theorem sum_predecessors (hw : dag.WellFormed) (hs : dag.SimpleEdges) {order : List StageId}
    (hperm : order.Perm dag.stages.keys) (f : StageId → StageId → ℚ) :
    (order.map fun v => ((dag.predecessors v).map fun u => f u v).sum).sum =
      (dag.edges.map fun e => f e.sourceId e.targetId).sum := by
  have hnodup : order.Nodup := hperm.nodup_iff.mpr dag.stages.keys_nodup
  have hedges : dag.edges.Nodup := hs.of_map _
  have hfiber : ∀ v, ((dag.predecessors v).map fun u => f u v).sum =
      ∑ e ∈ dag.edges.toFinset with e.targetId = v, f e.sourceId e.targetId := by
    intro v
    have hset : dag.edges.toFinset.filter (fun e => e.targetId = v) =
        (dag.edges.filter fun e => e.targetId = v).toFinset := by
      ext e
      simp
    rw [hset, List.sum_toFinset _ (hedges.filter _), hw.predecessors_eq, List.map_map]
    refine congrArg List.sum (List.map_congr_left fun e he => ?_)
    have : e.targetId = v := by simpa using (List.mem_filter.mp he).2
    simp [this]
  simp only [hfiber]
  rw [← List.sum_toFinset _ hnodup, ← List.sum_toFinset _ hedges]
  refine Finset.sum_fiberwise_of_maps_to (fun e he => ?_) _
  exact List.mem_toFinset.mpr (hperm.mem_iff.mpr (hw.target_mem e (List.mem_toFinset.mp he)))

variable (governance w) in
/-- The problem's total cost is finite for admissible hosts only, and is then
the placement cost. -/
theorem totalCost_spec (hw : dag.WellFormed) (ht : dag.isTree = true) {order : List StageId}
    (hperm : order.Perm dag.stages.keys) {host : StageId → ExecutionUnit}
    (hnodes : ∀ sid ∈ dag.stages, host sid ∈ topology.nodes) :
    ((placementProblem dag topology governance w).totalCost order host ≠ ⊤ ↔
      Admissible dag topology governance host) ∧
    (Admissible dag topology governance host →
      (placementProblem dag topology governance w).totalCost order host =
        hostsCost dag topology w host) := by
  set P := placementProblem dag topology governance w with hP
  have hs := simpleEdges_of_isTree hw ht
  have hedge : ∀ {u v}, u ∈ dag.predecessors v → ∃ e ∈ dag.edges, e.sourceId = u ∧ e.targetId = v ∧
      dag.getEdge u v = some e := by
    intro u v hu
    obtain ⟨e, he, rfl, rfl⟩ := hw.mem_successors.mp (hw.mem_predecessors.mp hu)
    exact ⟨e, he, rfl, rfl, hw.getEdge_of_mem hs he⟩
  have hnode : ∀ v, P.nodeCost v (host v) = if (dag.stage? v).any
      (isNodeFeasibleSimple · (host v) governance) then
        (stageCost dag w v (host v) : WithTop ℚ) else ⊤ := fun _ => rfl
  constructor
  · rw [TreeProblem.totalCost, TreeProblem.sum_ne_top]
    simp only [WithTop.add_ne_top, TreeProblem.sum_ne_top]
    constructor
    · intro h
      refine ⟨hnodes, fun sid stage hstage => ?_, fun e he => ?_⟩
      · have := (h sid (hperm.mem_iff.mpr (Dict.mem_of_get?_eq_some hstage))).1
        rw [hnode, hstage] at this
        by_contra hinf
        simp [hinf] at this
      · have hu : e.sourceId ∈ dag.predecessors e.targetId :=
          hw.mem_predecessors.mpr (hw.mem_successors.mpr ⟨e, he, rfl, rfl⟩)
        have := (h e.targetId (hperm.mem_iff.mpr (hw.target_mem e he))).2 e.sourceId hu
        rw [hP, placementProblem_edgeCost (hw.getEdge_of_mem hs he)] at this
        by_contra hna
        simp [hna] at this
    · intro h v hv
      obtain ⟨stage, hstage⟩ := Dict.exists_get?_of_mem (hperm.mem_iff.mp hv)
      refine ⟨?_, fun u hu => ?_⟩
      · rw [hnode, show dag.stage? v = some stage from hstage]
        simp [h.stages v stage hstage]
      · obtain ⟨e, he, rfl, rfl, hget⟩ := hedge hu
        rw [hP, placementProblem_edgeCost hget, if_pos (h.edges e he)]
        exact WithTop.coe_ne_top
  · intro h
    have hterm : ∀ v ∈ order, P.nodeCost v (host v) +
        ((P.children v).map fun u => P.edgeCost u v (host u) (host v)).sum =
        ((stageCost dag w v (host v) + ((dag.predecessors v).map fun u =>
          edgeCost topology w (host u) (host v)).sum : ℚ) : WithTop ℚ) := by
      intro v hv
      obtain ⟨stage, hstage⟩ := Dict.exists_get?_of_mem (hperm.mem_iff.mp hv)
      rw [WithTop.coe_add, coe_list_sum, hnode, show dag.stage? v = some stage from hstage]
      simp only [Option.any_some, h.stages v stage hstage, if_true]
      congr 2
      refine List.map_congr_left fun u hu => ?_
      obtain ⟨e, he, rfl, rfl, hget⟩ := hedge hu
      rw [hP, placementProblem_edgeCost hget, if_pos (h.edges e he)]
    rw [TreeProblem.totalCost, List.map_congr_left hterm, ← coe_list_sum, hostsCost]
    congr 1
    rw [← sum_predecessors hw hs hperm fun u v => edgeCost topology w (host u) (host v),
      ← (hperm.map _).sum_eq, ← List.sum_map_add]
    exact congrArg List.sum (List.map_congr_left fun v _ => add_comm _ _)

/-! ## Optimality -/

/-- What the solver hands to the redistribution pass: the hosts `host`, read off
the table `value` along first minimisers. -/
structure Solved (dag : PipelineDAG) (topology : NetworkTopology) (governance : GovernancePolicy)
    (w : Weights) (order : List StageId) (sink : StageId)
    (value : StageId → ExecutionUnit → WithTop ℚ) (host : StageId → ExecutionUnit) : Prop where
  isTable : (placementProblem dag topology governance w).IsTable order value
  mem_nodes : ∀ sid ∈ dag.stages, host sid ∈ topology.nodes
  root_ne_top : value sink (host sink) ≠ ⊤
  root_first : ∃ i : ℕ, topology.nodes[i]? = some (host sink) ∧
    (∀ node ∈ topology.nodes, value sink (host sink) ≤ value sink node) ∧
    ∀ j < i, ∀ node, topology.nodes[j]? = some node → value sink (host sink) < value sink node
  first : ∀ v ∈ order, ∀ u ∈ dag.predecessors v, ∃ i : ℕ, topology.nodes[i]? = some (host u) ∧
    FirstBest dag topology governance w value u v (host v) i

variable (governance w) in
/-- The solver raises when the sink's row is infinite throughout, and otherwise
traces hosts that follow the first minimisers. -/
theorem dpAssignment_spec (hw : dag.WellFormed) (htree : dag.isTree = true)
    (hc : topology.Complete) {order : List StageId} (hperm : order.Perm dag.stages.keys)
    (htopo : Graph.TopoOrdered dag.successors order) {sink : StageId} (hsink : dag.sinks = [sink]) :
    ∃ value, (placementProblem dag topology governance w).IsTable order value ∧
      ((dpAssignment dag topology governance w order =
          .error (.runtime "No feasible DP placement found for the tree DAG.") ∧
        ∀ node ∈ topology.nodes, value sink node = ⊤) ∨
      ∃ p host, dpAssignment dag topology governance w order = .ok p ∧
        Hosts dag topology host p ∧
        Solved dag topology governance w order sink value host) := by
  have hle := (PipelineDAG.isTree_iff.mp htree).1
  have ht := placementProblem_isTree topology governance w hw
    htree hperm htopo hsink
  obtain ⟨tables, htables, value, choice, hfilled⟩ := dpTables_spec governance w hw hc hle hperm htopo
  refine ⟨value, hfilled.isTable, ?_⟩
  have hrow := hfilled.dpRow sink ht.root_mem
  obtain ⟨best, hbest, hmin⟩ := firstMinM_spec (ε := PyError)
    (f := fun ni => return (topology.nodes.map (value sink)).getD ni ⊤)
    (g := fun ni => (topology.nodes.map (value sink)).getD ni ⊤)
    (l := List.range topology.nodeIds.length) fun _ _ => rfl
  have hget : ∀ i node, topology.nodes[i]? = some node →
      i ∈ List.range topology.nodeIds.length ∧
      (topology.nodes.map (value sink)).getD i ⊤ = value sink node := by
    intro i node hi
    refine ⟨?_, by simp [List.getD_eq_getElem?_getD, hi]⟩
    simpa [NetworkTopology.nodeIds] using (List.getElem?_eq_some_iff.mp hi).1
  unfold dpAssignment
  simp only [htables, hsink, subscript_eq_ok_iff.mpr hrow, hbest, bind, Except.bind]
  cases hb : best.2 with
  | none =>
    refine .inl ⟨rfl, fun node hnode => ?_⟩
    obtain ⟨i, hi, rfl⟩ := List.mem_iff_getElem.mp hnode
    obtain ⟨hmem, hval⟩ := hget i _ (List.getElem?_eq_getElem hi)
    exact hval ▸ hmin.eq_top_of_none hb hmem
  | some ni =>
    obtain ⟨heq, hlt, pre, post, hsplit, hpre⟩ := hmin.attained ni hb
    have hni : ni < topology.nodes.length := by
      simpa [NetworkTopology.nodeIds] using hmin.mem hb
    set root := topology.nodes[ni] with hroot
    have hgetRoot : topology.nodes[ni]? = some root := List.getElem?_eq_getElem hni
    have hvalRoot := (hget ni root hgetRoot).2
    rw [hvalRoot] at heq hlt hpre
    -- the hosts, read off the recorded indices from the sink upwards
    obtain ⟨host, hhostRoot, hnext⟩ := ht.exists_assignment root fun v node u =>
      (((choice v node).get? u).bind (topology.nodes[·]?)).getD node
    have hpick : ∀ v ∈ order, host v ∈ topology.nodes → value v (host v) ≠ ⊤ →
        (choice v (host v)).keys = dag.predecessors v ∧ ∀ u ∈ dag.predecessors v,
          ∃ i, (choice v (host v)).get? u = some i ∧ topology.nodes[i]? = some (host u) ∧
            FirstBest dag topology governance w value u v (host v) i := by
      intro v hv hmem hfin
      obtain ⟨hkeys, hall⟩ := hfilled.picks v hv (host v) hmem hfin
      refine ⟨hkeys, fun u hu => ?_⟩
      obtain ⟨i, hi, hfirst⟩ := hall u hu
      obtain ⟨m, hm, hrest⟩ := hfirst
      have hhost : host u = m := by rw [hnext v hv u hu, hi]; simp [hm]
      exact ⟨i, hi, by rw [hhost, hm], m, hm, hrest⟩
    have hfin : ∀ v ∈ order, host v ∈ topology.nodes ∧ value v (host v) ≠ ⊤ := by
      refine ht.induction_down ?_ fun v hv hhost u hu => ?_
      · rw [hhostRoot]
        exact ⟨List.getElem_mem hni, hlt.ne⟩
      · obtain ⟨hmem, hne⟩ := hhost
        obtain ⟨i, -, hi, m, hm, hbest, -⟩ := (hpick v hv hmem hne).2 u hu
        obtain rfl := Option.some.inj (hi.symm.trans hm)
        rw [hfilled.isTable v hv _ (List.mem_toFinset.mpr hmem), WithTop.add_ne_top] at hne
        have hfinite := TreeProblem.sum_ne_top.mp hne.2 u hu
        rw [← hbest, WithTop.add_ne_top] at hfinite
        exact ⟨List.mem_of_getElem? hm, hfinite.1⟩
    have hchoices : ChoicesName dag topology tables.choice host order := by
      intro v hv i hi
      have hlookup : (tables.choice.getD v []).getD i .empty = choice v (host v) := by
        rw [Dict.getD, hfilled.choiceRow v hv]
        simp [List.getD_eq_getElem?_getD, hi]
      simp only [hlookup]
      obtain ⟨hkeys, hall⟩ := hpick v hv (hfin v hv).1 (hfin v hv).2
      refine ⟨hkeys, fun u hu => ?_⟩
      obtain ⟨j, hj, hnode, -⟩ := hall u hu
      exact ⟨j, hj, hnode⟩
    refine .inr ⟨_, host, rfl, trace_hosts hw htree hperm htopo hsink hchoices
      (fun v hv => (hfin v hv).1) (by rw [hhostRoot, hgetRoot]), hfilled.isTable,
      fun v hv => (hfin v (hperm.mem_iff.mpr hv)).1, (hfin sink ht.root_mem).2,
      ⟨ni, by rw [hhostRoot, hgetRoot], fun node hnode => ?_, fun j hj node hnode => ?_⟩,
      fun v hv u hu => ?_⟩
    · obtain ⟨i, hi, rfl⟩ := List.mem_iff_getElem.mp hnode
      obtain ⟨hmem, hval⟩ := hget i _ (List.getElem?_eq_getElem hi)
      have := hmin.le i hmem
      rwa [hval, heq, ← hhostRoot] at this
    · have hmem : j ∈ pre := by
        have hsorted := (List.pairwise_lt_range (n := topology.nodeIds.length))
        have hrange := (hget j node hnode).1
        rw [hsplit] at hsorted hrange
        have hpost := (List.pairwise_cons.mp (List.pairwise_append.mp hsorted).2.1).1
        rcases List.mem_append.mp hrange with hmem | hmem
        · exact hmem
        · rcases List.mem_cons.mp hmem with rfl | hmem
          · exact absurd hj (lt_irrefl _)
          · exact absurd hj (hpost j hmem).not_gt
      have := hpre j hmem
      rwa [(hget j node hnode).2, ← hhostRoot] at this
    · obtain ⟨i, -, hi, hfirst⟩ := (hpick v hv (hfin v hv).1 (hfin v hv).2).2 u hu
      exact ⟨i, hi, hfirst⟩

namespace Solved

variable {order : List StageId} {sink : StageId} {value : StageId → ExecutionUnit → WithTop ℚ}
  {host : StageId → ExecutionUnit}

theorem follows (h : Solved dag topology governance w order sink value host) :
    (placementProblem dag topology governance w).Follows order value host := by
  intro v hv u hu
  obtain ⟨i, hi, m, hm, hbest, -⟩ := h.first v hv u hu
  obtain rfl := Option.some.inj (hi.symm.trans hm)
  exact hbest

theorem mem_hosts (h : Solved dag topology governance w order sink value host)
    (hperm : order.Perm dag.stages.keys) :
    ∀ v ∈ order, host v ∈ (placementProblem dag topology governance w).hosts := fun v hv =>
  List.mem_toFinset.mpr (h.mem_nodes v (hperm.mem_iff.mp hv))

/-- The solved hosts are admissible, at the cost the table has at the sink. -/
theorem admissible (h : Solved dag topology governance w order sink value host)
    (hw : dag.WellFormed) (htree : dag.isTree = true) (hperm : order.Perm dag.stages.keys)
    (htopo : Graph.TopoOrdered dag.successors order) (hsink : dag.sinks = [sink]) :
    Admissible dag topology governance host ∧
      value sink (host sink) = hostsCost dag topology w host := by
  have ht := placementProblem_isTree topology governance w hw
    htree hperm htopo hsink
  have htotal := h.isTable.root_eq_totalCost ht (h.mem_hosts hperm) h.follows h.root_ne_top
  obtain ⟨hfinite, hcost⟩ := totalCost_spec governance w hw htree hperm
    h.mem_nodes
  have hadm := hfinite.mp (htotal ▸ h.root_ne_top)
  exact ⟨hadm, htotal.trans (hcost hadm)⟩

/-- No admissible hosts cost less than the solved ones. -/
theorem hostsCost_le (h : Solved dag topology governance w order sink value host)
    (hw : dag.WellFormed) (htree : dag.isTree = true) (hperm : order.Perm dag.stages.keys)
    (htopo : Graph.TopoOrdered dag.successors order) (hsink : dag.sinks = [sink])
    {other : StageId → ExecutionUnit} (hother : Admissible dag topology governance other) :
    hostsCost dag topology w host ≤ hostsCost dag topology w other := by
  have ht := placementProblem_isTree topology governance w hw
    htree hperm htopo hsink
  obtain ⟨i, -, hmin, -⟩ := h.root_first
  have hle := h.isTable.root_le_totalCost (a := other) ht fun v hv =>
    List.mem_toFinset.mpr (hother.mem_nodes v (hperm.mem_iff.mp hv))
  rw [(totalCost_spec governance w hw htree hperm hother.mem_nodes).2 hother] at hle
  have hroot := hmin (other sink) (hother.mem_nodes sink (hperm.mem_iff.mp ht.root_mem))
  rw [(h.admissible hw htree hperm htopo hsink).2] at hroot
  exact WithTop.coe_le_coe.mp (hroot.trans hle)

end Solved

variable (dag topology governance w) in
/-- The first of the cheapest admissible hosts: among them, each stage is on the
earliest node that the host of its successor leaves open. -/
structure FirstOptimum (host : StageId → ExecutionUnit) : Prop where
  admissible : Admissible dag topology governance host
  le : ∀ other, Admissible dag topology governance other →
    hostsCost dag topology w host ≤ hostsCost dag topology w other
  first : ∀ other, Admissible dag topology governance other →
    hostsCost dag topology w other ≤ hostsCost dag topology w host →
    ∀ v ∈ dag.stages, (∀ x ∈ dag.successors v, other x = host x) →
      topology.nodes.idxOf (host v) ≤ topology.nodes.idxOf (other v)

theorem NetworkTopology.Complete.nodes_nodup (hc : topology.Complete) : topology.nodes.Nodup :=
  hc.nodupIds.of_map _

theorem NetworkTopology.Complete.idxOf_eq (hc : topology.Complete) {i : ℕ} {node : ExecutionUnit}
    (h : topology.nodes[i]? = some node) : topology.nodes.idxOf node = i := by
  obtain ⟨hi, rfl⟩ := List.getElem?_eq_some_iff.mp h
  exact hc.nodes_nodup.idxOf_getElem i hi

/-- The solver traces the first optimum. -/
theorem Solved.firstOptimum {order : List StageId} {sink : StageId}
    {value : StageId → ExecutionUnit → WithTop ℚ} {host : StageId → ExecutionUnit}
    (h : Solved dag topology governance w order sink value host) (hw : dag.WellFormed)
    (htree : dag.isTree = true) (hc : topology.Complete) (hperm : order.Perm dag.stages.keys)
    (htopo : Graph.TopoOrdered dag.successors order) (hsink : dag.sinks = [sink]) :
    FirstOptimum dag topology governance w host := by
  obtain ⟨hadm, hcost⟩ := h.admissible hw htree hperm htopo hsink
  refine ⟨hadm, fun other => h.hostsCost_le hw htree hperm htopo hsink, ?_⟩
  intro other hother hle v hv hsucc
  have ht := placementProblem_isTree topology governance w hw htree hperm htopo hsink
  have hmem : ∀ v ∈ order, other v ∈ (placementProblem dag topology governance w).hosts :=
    fun v hv => List.mem_toFinset.mpr (hother.mem_nodes v (hperm.mem_iff.mp hv))
  obtain ⟨hfinite, htotal⟩ := totalCost_spec governance w hw htree hperm hother.mem_nodes
  -- the other hosts cost as much, so they follow the minimisers as well
  have hroot : value sink (other sink) ≤ value sink (host sink) := by
    refine (h.isTable.root_le_totalCost ht hmem).trans ?_
    rw [htotal hother, hcost]
    exact WithTop.coe_le_coe.mpr hle
  obtain ⟨i, hi, hmin, hfirst⟩ := h.root_first
  have hfollows := h.isTable.follows_of_totalCost_le ht hmem (hfinite.mpr hother) (by
    rw [htotal hother]
    refine (WithTop.coe_le_coe.mpr hle).trans ?_
    rw [← hcost]
    exact hmin _ (hother.mem_nodes sink (hperm.mem_iff.mp ht.root_mem)))
  have hget : topology.nodes[topology.nodes.idxOf (other v)]? = some (other v) :=
    List.getElem?_idxOf (hother.mem_nodes v hv)
  rcases ht.eq_root_or_child (hperm.mem_iff.mpr hv) with rfl | ⟨x, hx, hvx⟩
  · rw [hc.idxOf_eq hi]
    by_contra hlt
    exact absurd hroot (hfirst _ (not_le.mp hlt) _ hget).not_ge
  · obtain ⟨i, hi, m, hm, hbest, hbefore⟩ := h.first x hx v hvx
    rw [hc.idxOf_eq hi]
    by_contra hlt
    have hlt := hbefore _ (not_le.mp hlt) _ hget
    have heq := hfollows x hx v hvx
    rw [hsucc x (hw.mem_predecessors.mp hvx)] at heq
    exact absurd heq hlt.ne'

/-- The first optimum is determined by the problem. -/
theorem FirstOptimum.unique (hw : dag.WellFormed) (htree : dag.isTree = true)
    {host host' : StageId → ExecutionUnit} (h : FirstOptimum dag topology governance w host)
    (h' : FirstOptimum dag topology governance w host') : ∀ v ∈ dag.stages, host v = host' v := by
  obtain ⟨order, -, hperm, htopo⟩ := hw.topologicalSort_eq
  obtain ⟨sink, hsink, hsucc⟩ := PipelineDAG.exists_sink_of_isTree htree
  have ht := placementProblem_isTree topology governance w hw htree hperm htopo hsink
  have hstep : ∀ v ∈ dag.stages, (∀ x ∈ dag.successors v, host x = host' x) →
      host v = host' v := by
    intro v hv hagree
    have hle := h.first host' h'.admissible (h'.le host h.admissible) v hv fun x hx =>
      (hagree x hx).symm
    have hge := h'.first host h.admissible (h.le host' h'.admissible) v hv hagree
    have hi := List.getElem?_idxOf (h.admissible.mem_nodes v hv)
    rw [hle.antisymm hge, List.getElem?_idxOf (h'.admissible.mem_nodes v hv)] at hi
    exact (Option.some.inj hi).symm
  have hsinkNil : dag.successors sink = [] := by
    have : sink ∈ dag.sinks := by simp [hsink]
    simpa [PipelineDAG.sinks] using (List.mem_filter.mp this).2
  have hall : ∀ v ∈ order, host v = host' v := by
    refine ht.induction_down (hstep sink (hperm.mem_iff.mp ht.root_mem) (by simp [hsinkNil])) ?_
    intro v _ hv u hu
    have huv := hw.mem_predecessors.mp hu
    refine hstep u (hw.predecessor_mem huv) fun x hx => ?_
    have hone := (PipelineDAG.isTree_iff.mp htree).1 u (hw.predecessor_mem huv)
    obtain ⟨z, hz⟩ := List.length_eq_one_iff.mp (le_antisymm hone (List.length_pos_of_mem huv))
    rw [hz, List.mem_singleton] at hx huv
    rw [hx, ← huv, hv]
  exact fun v hv => hall v (hperm.mem_iff.mpr hv)

variable (w) in
/-- The solver finds an assignment whenever there is an admissible one. -/
theorem dpAssignment_of_admissible (hw : dag.WellFormed) (htree : dag.isTree = true)
    (hc : topology.Complete) {order : List StageId} (hperm : order.Perm dag.stages.keys)
    (htopo : Graph.TopoOrdered dag.successors order) {sink : StageId} (hsink : dag.sinks = [sink])
    {other : StageId → ExecutionUnit} (hother : Admissible dag topology governance other) :
    ∃ p host value, dpAssignment dag topology governance w order = .ok p ∧
      Hosts dag topology host p ∧ Solved dag topology governance w order sink value host := by
  have ht := placementProblem_isTree topology governance w hw htree hperm htopo hsink
  obtain ⟨value, htable, ⟨-, htop⟩ | ⟨p, host, hok, hhosts, hsolved⟩⟩ :=
    dpAssignment_spec governance w hw htree hc hperm htopo hsink
  · -- the sink's row would be infinite, but the other assignment bounds it
    have hle := htable.root_le_totalCost (a := other) ht fun v hv =>
      List.mem_toFinset.mpr (hother.mem_nodes v (hperm.mem_iff.mp hv))
    rw [htop _ (hother.mem_nodes sink (hperm.mem_iff.mp ht.root_mem)), top_le_iff] at hle
    exact absurd hle ((totalCost_spec governance w hw htree hperm hother.mem_nodes).1.mpr hother)
  · exact ⟨p, host, value, hok, hhosts, hsolved⟩

/-- The assignment traced before redistribution maps each stage exactly once, is
admissible and of least placement cost, and the solver raises exactly when there
is no admissible assignment. -/
theorem dpAssignment_optimal {order : List StageId} (hbuilt : dag.Built)
    (htree : dag.isTree = true) (hc : topology.Complete) (horder : dag.topologicalSort = .ok order)
    (governance : GovernancePolicy) (w : Weights) :
    (∀ p, dpAssignment dag topology governance w order = .ok p →
      p.keys.Perm dag.stages.keys ∧ AdmissibleAssignment dag topology governance p ∧
      ∃ cost, placementCost p dag topology w = .ok cost ∧
        ∀ p', AdmissibleAssignment dag topology governance p' →
          ∃ cost', placementCost p' dag topology w = .ok cost' ∧ cost ≤ cost') ∧
    (∀ e, dpAssignment dag topology governance w order = .error e →
      e = .runtime "No feasible DP placement found for the tree DAG.") ∧
    ((∃ e, dpAssignment dag topology governance w order = .error e) ↔
      ¬ ∃ p, AdmissibleAssignment dag topology governance p) := by
  have hw := hbuilt.wellFormed
  obtain ⟨order', horder', hperm, htopo⟩ := hw.topologicalSort_eq
  obtain rfl := Except.ok.inj (horder.symm.trans horder')
  obtain ⟨sink, hsink, -⟩ := PipelineDAG.exists_sink_of_isTree htree
  obtain ⟨value, -, ⟨herr, -⟩ | ⟨p, host, hok, hhosts, hsolved⟩⟩ :=
    dpAssignment_spec governance w hw htree hc hperm htopo hsink
  · rw [herr]
    refine ⟨fun _ h => (by cases h), fun _ h => (Except.error.inj h).symm, fun _ => ?_,
      fun _ => ⟨_, rfl⟩⟩
    rintro ⟨p, host, -, hadm⟩
    obtain ⟨q, -, -, hok, -⟩ := dpAssignment_of_admissible w hw htree hc hperm htopo hsink hadm
    cases herr.symm.trans hok
  · obtain ⟨hadm, -⟩ := hsolved.admissible hw htree hperm htopo hsink
    rw [hok]
    refine ⟨fun q hq => ?_, fun _ h => (by cases h), fun ⟨_, h⟩ => (by cases h),
      fun h => absurd ⟨p, host, hhosts, hadm⟩ h⟩
    obtain rfl := Except.ok.inj hq
    refine ⟨hhosts.keys_perm, ⟨host, hhosts, hadm⟩, _, placementCost_spec w hw hc hhosts, ?_⟩
    rintro p' ⟨other, hothers, hother⟩
    exact ⟨_, placementCost_spec w hw hc hothers,
      hsolved.hostsCost_le hw htree hperm htopo hsink hother⟩

private def chainDag : PipelineDAG :=
  .ofLists [⟨"a", "sense", 1, 1, none, some "d2", none⟩, ⟨"b", "filter", 1, 1, none, none, none⟩,
    ⟨"c", "report", 1, 1, some "s1", none, none⟩] [⟨"a", "b", 10⟩, ⟨"b", "c", 10⟩]

private def linkTopology : NetworkTopology where
  nodes := [⟨"n1", "d1", "s1", 10, 0, none⟩, ⟨"n2", "d2", "s2", 20, 0, none⟩]
  latencyMatrix := .ofList [(("n1", "n2"), 5)]

private def linkGovernance : GovernancePolicy := { trustLevels := .ofList [(("d1", "d2"), 1)] }

/-- A chain whose ends need different nodes crosses between them once. -/
theorem dpAssignment_optimal_chain :
    ∃ order p, chainDag.topologicalSort = .ok order ∧
      dpAssignment chainDag linkTopology linkGovernance {} order = .ok p ∧
      ∃ cost, placementCost p chainDag linkTopology {} = .ok cost ∧
        ∀ p', AdmissibleAssignment chainDag linkTopology linkGovernance p' →
          ∃ cost', placementCost p' chainDag linkTopology {} = .ok cost' ∧ cost ≤ cost' := by
  have horder : chainDag.topologicalSort = .ok ["a", "b", "c"] := by decide
  have hp : dpAssignment chainDag linkTopology linkGovernance {} ["a", "b", "c"] =
      .ok (.ofList [("c", "n1"), ("b", "n2"), ("a", "n2")]) := by decide +kernel
  exact ⟨_, _, horder, hp, ((dpAssignment_optimal (PipelineDAG.built_ofLists _ _) (by decide)
    (by decide +kernel) horder linkGovernance {}).1 _ hp).2.2⟩

end NeuralPubSub
