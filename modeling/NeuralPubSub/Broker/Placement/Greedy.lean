-- SUMMARY: Greedy placement, and the agreement of the incremental per-stage check with the whole check.
import NeuralPubSub.Broker.Placement.Cost
import NeuralPubSub.Broker.Placement.EdgeBounds

open Base

/-!
# Greedy placement

`_greedy_placement` visits the stages in topological order, tests each node with
`_is_node_feasible` against what has been placed so far, and commits the cheapest.
The per-stage test with its ledger of committed load, run along any topological
order, accepts an assignment exactly when `checkFeasibility` does.
-/

namespace NeuralPubSub

/-! ## The solver -/

/-- The cost of placing one more stage on `node`, counting the edges to its
predecessors that are already placed. -/
def incrementalCost (dag : PipelineDAG) (topology : NetworkTopology) (w : Weights)
    (placement : Placement) (stageId : StageId) (stage : Stage) (node : ExecutionUnit) :
    Except PyError ℚ := do
  let inc ← (dag.predecessors stageId).foldlM (fun (inc : ℚ × ℕ) predId =>
    match placement.get? predId with
    | none => return inc
    | some predNodeId => do
      let latencyInc := inc.1 + (← topology.latency predNodeId node.nodeId)
      if (← topology.getNode predNodeId).domainId ≠ node.domainId then return (latencyInc, inc.2 + 1)
      else return (latencyInc, inc.2)) (0, 0)
  return w.alpha * inc.1 + w.beta * loadRatio stage node + w.gamma * inc.2

/-- One iteration of the loop over the stages: the placement and the load
committed to each node. -/
def greedyStep (dag : PipelineDAG) (topology : NetworkTopology) (governance : GovernancePolicy)
    (w : Weights) (s : Placement × Dict NodeId ℚ) (stageId : StageId) :
    Except PyError (Placement × Dict NodeId ℚ) := do
  let (placement, additionalLoad) := s
  let stage ← dag.getStage stageId
  let best ← firstMinM (fun node : ExecutionUnit => do
    if ← isNodeFeasible stage node dag topology governance placement additionalLoad then
      return ((← incrementalCost dag topology w placement stageId stage node : ℚ) : WithTop ℚ)
    else return ⊤) topology.nodes
  match best.2 with
  | none => .error (.runtime (s!"No feasible node found for stage '{stageId}'. " ++
      "Check capacity, slice, governance, and latency constraints."))
  | some node =>
    return (placement.insert stageId node.nodeId, additionalLoad.insert node.nodeId
      (additionalLoad.getD node.nodeId 0 + stage.computationalDemand))

def greedyPlacement (dag : PipelineDAG) (topology : NetworkTopology) (governance : GovernancePolicy)
    (w : Weights) : Except PyError Placement := do
  let order ← dag.topologicalSort
  let s ← order.foldlM (greedyStep dag topology governance w) (.empty, .empty)
  return s.1

/-! ## The incremental check -/

/-- Visit the stages of `order` and test each on the node `assignment` gives it,
against the stages visited so far and the load they commit. -/
def acceptsAlong (assignment : Placement) (dag : PipelineDAG) (topology : NetworkTopology)
    (governance : GovernancePolicy) : List StageId → Placement → Dict NodeId ℚ →
    Except PyError Bool
  | [], _, _ => return true
  | sid :: rest, placement, additionalLoad => do
    let stage ← dag.getStage sid
    let nid ← subscript assignment sid
    let node ← topology.getNode nid
    if ← isNodeFeasible stage node dag topology governance placement additionalLoad then
      acceptsAlong assignment dag topology governance rest (placement.insert sid nid)
        (additionalLoad.insert nid (additionalLoad.getD nid 0 + stage.computationalDemand))
    else return false

section Incremental

variable {dag : PipelineDAG} {topology : NetworkTopology} {governance : GovernancePolicy}
  {host : StageId → ExecutionUnit}

/-- The placement and the ledger after the stages of `done` were put on their hosts. -/
structure PlacedAlong (dag : PipelineDAG) (topology : NetworkTopology)
    (host : StageId → ExecutionUnit) (done : List StageId) (s : Placement × Dict NodeId ℚ) :
    Prop where
  get? : ∀ sid, s.1.get? sid = if sid ∈ done then some (host sid).nodeId else none
  mem_nodes : ∀ sid ∈ done, host sid ∈ topology.nodes
  load : ∀ nid, s.2.getD nid 0 = hostedLoad dag host done nid

theorem placedAlong_nil : PlacedAlong dag topology host [] (.empty, .empty) where
  get? := by simp
  mem_nodes := by simp
  load := by simp [Dict.getD]

theorem PlacedAlong.concat {done : List StageId} {s : Placement × Dict NodeId ℚ} {sid : StageId}
    {stage : Stage} (h : PlacedAlong dag topology host done s) (hstage : dag.stage? sid = some stage)
    (hnode : host sid ∈ topology.nodes) :
    PlacedAlong dag topology host (done ++ [sid]) (s.1.insert sid (host sid).nodeId,
      s.2.insert (host sid).nodeId
        (s.2.getD (host sid).nodeId 0 + stage.computationalDemand)) where
  get? sid' := by
    simp only [Dict.get?_insert, h.get?, List.mem_append, List.mem_singleton]
    by_cases hs : sid' = sid <;> simp [hs]
  mem_nodes sid' hs := by
    rcases List.mem_append.mp hs with hs | hs
    · exact h.mem_nodes sid' hs
    · exact List.mem_singleton.mp hs ▸ hnode
  load nid := by
    rw [Dict.getD_insert, hostedLoad_append, hostedLoad_singleton, h.load, h.load,
      PipelineDAG.demand_of_stage? hstage]
    by_cases hn : nid = (host sid).nodeId
    · rw [if_pos hn, if_pos hn.symm, hn]
    · rw [if_neg hn, if_neg (Ne.symm hn), add_zero]

/-- What the per-stage test asks of a node once the stages of `done` are placed. -/
structure FeasibleNext (dag : PipelineDAG) (topology : NetworkTopology)
    (governance : GovernancePolicy) (host : StageId → ExecutionUnit) (done : List StageId)
    (sid : StageId) (stage : Stage) (node : ExecutionUnit) : Prop where
  capacity : hostedLoad dag host done node.nodeId + stage.computationalDemand ≤
    node.residualCapacity + tolerance
  allowed : stage.allowedOn node
  edges : ∀ e ∈ dag.edges, e.targetId = sid → EdgeAllowed topology governance e (host e.sourceId) node

theorem PlacedAlong.congr {host' : StageId → ExecutionUnit} {done : List StageId}
    {s : Placement × Dict NodeId ℚ} (h : PlacedAlong dag topology host done s)
    (hsame : ∀ sid ∈ done, host' sid = host sid) : PlacedAlong dag topology host' done s where
  get? sid := by
    rw [h.get?]
    split
    · next hs => rw [hsame sid hs]
    · rfl
  mem_nodes sid hs := hsame sid hs ▸ h.mem_nodes sid hs
  load nid := (h.load nid).trans (hostedLoad_congr dag (fun sid hs => (hsame sid hs).symm) nid)

theorem FeasibleNext.congr {host' : StageId → ExecutionUnit} {done : List StageId} {sid : StageId}
    {stage : Stage} {node : ExecutionUnit}
    (h : FeasibleNext dag topology governance host done sid stage node)
    (hsame : ∀ x ∈ done, host' x = host x)
    (hsources : ∀ e ∈ dag.edges, e.targetId = sid → e.sourceId ∈ done) :
    FeasibleNext dag topology governance host' done sid stage node where
  capacity := hostedLoad_congr dag hsame node.nodeId ▸ h.capacity
  allowed := h.allowed
  edges e he htgt := hsame _ (hsources e he htgt) ▸ h.edges e he htgt

/-- At most one edge per ordered pair of stages. -/
def PipelineDAG.SimpleEdges (dag : PipelineDAG) : Prop :=
  (dag.edges.map fun e => (e.sourceId, e.targetId)).Nodup

instance (dag : PipelineDAG) : Decidable dag.SimpleEdges :=
  inferInstanceAs (Decidable (List.Nodup _))

theorem PipelineDAG.SimpleEdges.uniqueBounds {dag : PipelineDAG} (hs : dag.SimpleEdges) :
    PipelineDAG.UniqueBounds dag.edges := by
  intro e he e' he' hsource htarget
  rw [List.inj_on_of_nodup_map hs he he' (Prod.ext hsource htarget)]

theorem PipelineDAG.WellFormed.getEdge_of_mem {dag : PipelineDAG} (hw : dag.WellFormed)
    (hs : dag.SimpleEdges) {e : Edge} (he : e ∈ dag.edges) :
    dag.getEdge e.sourceId e.targetId = some e :=
  hw.getEdge_of_unique he hs.uniqueBounds

variable (governance) in
/-- The per-stage test accepts a node exactly when the stage can go there next. -/
theorem isNodeFeasible_spec (hw : dag.WellFormed) (hs : dag.SimpleEdges) (hc : topology.Complete)
    (hd : dag.NonnegDemands) {order done rest : List StageId} {sid : StageId} {stage : Stage}
    {node : ExecutionUnit} {s : Placement × Dict NodeId ℚ}
    (hperm : order.Perm dag.stages.keys) (htopo : Graph.TopoOrdered dag.successors order)
    (horder : order = done ++ sid :: rest) (hplaced : PlacedAlong dag topology host done s)
    (hstage : dag.stage? sid = some stage) (hnode : node ∈ topology.nodes) :
    ∃ b, isNodeFeasible stage node dag topology governance s.1 s.2 = .ok b ∧
      (b = true ↔ FeasibleNext dag topology governance host done sid stage node) := by
  obtain ⟨p, ledger⟩ := s
  have hid : stage.id = sid := hw.stageId sid stage hstage
  have hnodup : order.Nodup := hperm.nodup_iff.mpr dag.stages.keys_nodup
  -- all predecessors are placed, and no successor is
  have hpred : ∀ u ∈ dag.predecessors sid, p.get? u = some (host u).nodeId ∧
      host u ∈ topology.nodes := by
    intro u hu
    have hmem : u ∈ done := htopo done sid rest horder u (hw.mem_predecessors.mp hu)
    exact ⟨(hplaced.get? u).trans (if_pos hmem), hplaced.mem_nodes u hmem⟩
  have hsucc : ∀ v ∈ dag.successors sid, p.get? v = none := fun v hv =>
    (hplaced.get? v).trans (if_neg (htopo.succ_not_mem hnodup horder hv))
  have hload : ledger.getD node.nodeId 0 = hostedLoad dag host done node.nodeId :=
    hplaced.load node.nodeId
  have hcommitted : 0 ≤ hostedLoad dag host done node.nodeId := hostedLoad_nonneg hd host done _
  obtain ⟨inTime, hinTime, hinTime_iff⟩ := allM_spec (l := dag.predecessors sid)
    (f := fun predId => ifPlaced p predId fun predNodeId =>
      latencyWithin topology (dag.getEdge predId sid) predNodeId node.nodeId)
    (P := fun u => ∀ e ∈ dag.edges, e.sourceId = u → e.targetId = sid →
      topology.latencyOf (host u).nodeId node.nodeId ≤ e.latencyBound + tolerance) (by
    intro u hu
    obtain ⟨e, he, rfl, htgt⟩ := hw.mem_successors.mp (hw.mem_predecessors.mp hu)
    obtain ⟨hget, hmem⟩ := hpred _ hu
    rw [ifPlaced, hget, ← htgt, hw.getEdge_of_mem hs he]
    simp only [latencyWithin, hc.latency_eq hmem hnode, bind, Except.bind]
    refine ⟨_, rfl, ?_⟩
    have honly : ∀ e' ∈ dag.edges, e'.sourceId = e.sourceId → e'.targetId = e.targetId → e' = e :=
      fun e' he' hsrc ht => List.inj_on_of_nodup_map hs he' he (by simp [hsrc, ht])
    simp only [Bool.not_eq_true', decide_eq_false_iff_not, gt_iff_lt, not_lt]
    exact ⟨fun hle e' he' hsrc ht => honly e' he' hsrc ht ▸ hle, fun hall => hall e he rfl rfl⟩)
  obtain ⟨trusted, htrusted, htrusted_iff⟩ := allM_spec (l := dag.predecessors sid)
    (f := fun predId => ifPlaced p predId fun predNodeId =>
      return governance.trusts (← topology.getNode predNodeId).domainId node.domainId)
    (P := fun u => governance.trusts (host u).domainId node.domainId = true) (by
    intro u hu
    obtain ⟨hget, hmem⟩ := hpred u hu
    rw [ifPlaced, hget]
    simp only [hc.getNode hmem]
    exact ⟨_, rfl, Iff.rfl⟩)
  have hsuccs : ∀ test : StageId → NodeId → Except PyError Bool,
      (dag.successors sid).allM (fun succId => ifPlaced p succId (test succId)) = .ok true :=
    fun test => allM_eq_true fun v hv => by rw [ifPlaced, hsucc v hv]; rfl
  have hedges : (∀ e ∈ dag.edges, e.targetId = sid →
      EdgeAllowed topology governance e (host e.sourceId) node) ↔ inTime = true ∧ trusted = true := by
    simp only [hinTime_iff, htrusted_iff, EdgeAllowed, hw.mem_predecessors, hw.mem_successors]
    grind
  have hsimple := isNodeFeasibleSimple_iff stage node governance
  unfold isNodeFeasible
  simp only [hid, hload, hinTime, htrusted, hsuccs]
  cases hsim : isNodeFeasibleSimple stage node governance with
  | false =>
    refine ⟨false, rfl, iff_of_false (by simp) fun h => ?_⟩
    have : isNodeFeasibleSimple stage node governance = true :=
      hsimple.mpr ⟨by linarith [h.capacity], h.allowed⟩
    simp [hsim] at this
  | true =>
    obtain ⟨hcap, hallowed⟩ := hsimple.mp hsim
    simp only [Bool.not_true, Bool.false_eq_true, if_false]
    -- a ledger entry of zero leaves the capacity test to the simple check
    by_cases hover : hostedLoad dag host done node.nodeId > 0 ∧ stage.computationalDemand >
        node.residualCapacity - hostedLoad dag host done node.nodeId + tolerance
    · rw [if_pos hover]
      refine ⟨false, rfl, iff_of_false (by simp) fun h => ?_⟩
      linarith [h.capacity, hover.2]
    · rw [if_neg hover]
      have hnext : hostedLoad dag host done node.nodeId + stage.computationalDemand ≤
          node.residualCapacity + tolerance := by
        by_contra hgt
        rcases hcommitted.eq_or_lt with hzero | hpos
        · linarith
        · exact hover ⟨hpos, by linarith⟩
      refine ⟨inTime && trusted, ?_, ?_⟩
      · cases inTime <;> cases trusted <;> rfl
      · rw [Bool.and_eq_true, ← hedges]
        exact ⟨fun he => ⟨hnext, hallowed, he⟩, fun h => h.edges⟩

/-! ## Equivalence of the two checks -/

/-- Every stage of `done` could go to its host when its turn came. -/
def StepsFeasible (dag : PipelineDAG) (topology : NetworkTopology) (governance : GovernancePolicy)
    (host : StageId → ExecutionUnit) (done : List StageId) : Prop :=
  ∀ pre sid post stage, done = pre ++ sid :: post → dag.stage? sid = some stage →
    FeasibleNext dag topology governance host pre sid stage (host sid)

variable (governance) in
theorem acceptsAlong_spec (hw : dag.WellFormed) (hs : dag.SimpleEdges) (hc : topology.Complete)
    (hd : dag.NonnegDemands) {order : List StageId} {assignment : Placement}
    (hperm : order.Perm dag.stages.keys) (htopo : Graph.TopoOrdered dag.successors order)
    (hhosts : Hosts dag topology host assignment) (rest done : List StageId)
    (s : Placement × Dict NodeId ℚ) (horder : order = done ++ rest)
    (hplaced : PlacedAlong dag topology host done s) :
    ∃ b, acceptsAlong assignment dag topology governance rest s.1 s.2 = .ok b ∧
      (b = true ↔ ∀ pre sid post stage, rest = pre ++ sid :: post → dag.stage? sid = some stage →
        FeasibleNext dag topology governance host (done ++ pre) sid stage (host sid)) := by
  induction rest generalizing done s with
  | nil => exact ⟨true, rfl, by simp⟩
  | cons sid rest ih =>
    have hsid : sid ∈ dag.stages := hperm.mem_iff.mp (by simp [horder])
    obtain ⟨stage, hget, hstage, -⟩ := getStage_of_mem hsid
    have hnode := hhosts.mem_nodes sid hsid
    obtain ⟨b, hb, hfeas⟩ := isNodeFeasible_spec governance hw hs hc hd hperm htopo
      horder hplaced hstage hnode
    -- the first stage of `rest` is tested after `done`, the others after `done ++ [sid]`
    have hcons : (∀ pre sid' post stage', sid :: rest = pre ++ sid' :: post →
          dag.stage? sid' = some stage' →
          FeasibleNext dag topology governance host (done ++ pre) sid' stage' (host sid')) ↔
        FeasibleNext dag topology governance host done sid stage (host sid) ∧
        ∀ pre sid' post stage', rest = pre ++ sid' :: post → dag.stage? sid' = some stage' →
          FeasibleNext dag topology governance host (done ++ [sid] ++ pre) sid' stage' (host sid') := by
      constructor
      · refine fun h => ⟨by simpa using h [] sid rest stage rfl hstage, ?_⟩
        intro pre sid' post stage' hrest hstage'
        simpa using h (sid :: pre) sid' post stage' (by simp [hrest]) hstage'
      · rintro ⟨hfirst, hothers⟩ pre sid' post stage' hsplit hstage'
        cases pre with
        | nil =>
          obtain ⟨rfl, rfl⟩ := List.cons.inj hsplit
          obtain rfl := Option.some.inj (hstage.symm.trans hstage')
          simpa using hfirst
        | cons x pre =>
          obtain ⟨rfl, hrest⟩ := List.cons.inj hsplit
          simpa using hothers pre sid' post stage' hrest hstage'
    rw [hcons, ← hfeas, acceptsAlong, hget, subscript_eq_ok_iff.mpr (hhosts.get? sid hsid)]
    simp only [bind, Except.bind, hc.getNode hnode, hb]
    cases b with
    | false => exact ⟨false, rfl, by simp⟩
    | true =>
      obtain ⟨c, hc', hrest⟩ := ih (done ++ [sid]) _ (by simpa using horder)
        (hplaced.concat hstage hnode)
      exact ⟨c, hc', by simpa using hrest⟩

/-- The last element that satisfies `P`. -/
private theorem exists_last {l : List StageId} {P : StageId → Prop} (h : ∃ x ∈ l, P x) :
    ∃ pre x post, l = pre ++ x :: post ∧ P x ∧ ∀ y ∈ post, ¬ P y := by
  induction l with
  | nil => simp at h
  | cons a l ih =>
    by_cases hl : ∃ x ∈ l, P x
    · obtain ⟨pre, x, post, rfl, hx, hpost⟩ := ih hl
      exact ⟨a :: pre, x, post, rfl, hx, hpost⟩
    · obtain ⟨x, hx, hP⟩ := h
      rcases List.mem_cons.mp hx with rfl | hx
      · exact ⟨[], x, l, rfl, hP, fun y hy hPy => hl ⟨y, hy, hPy⟩⟩
      · exact absurd ⟨x, hx, hP⟩ hl

/-- Step by step feasibility along a whole order is feasibility. -/
theorem stepsFeasible_iff (hw : dag.WellFormed) (hc : topology.Complete) (hd : dag.NonnegDemands)
    {order : List StageId} (hperm : order.Perm dag.stages.keys)
    (hnodes : ∀ sid ∈ dag.stages, host sid ∈ topology.nodes) :
    StepsFeasible dag topology governance host order ↔ Feasible dag topology governance host := by
  have hmem : ∀ sid, sid ∈ order → ∃ stage, dag.stage? sid = some stage := fun _ h =>
    Dict.exists_get?_of_mem (hperm.mem_iff.mp h)
  constructor
  · intro h
    refine ⟨fun sid hsid => ?_, fun e he => ?_, fun sid stage hstage => ?_⟩
    · -- the last stage put on the node sees the load of all others there
      obtain ⟨pre, last, post, horder, hlast, hpost⟩ := exists_last (l := order)
        (P := fun x => (host x).nodeId = (host sid).nodeId) ⟨sid, hperm.mem_iff.mpr hsid, rfl⟩
      obtain ⟨stage, hstage⟩ := hmem last (by simp [horder])
      have hlastMem : last ∈ dag.stages := Dict.mem_of_get?_eq_some hstage
      have hsame : host last = host sid :=
        hc.eq_of_nodeId_eq (hnodes last hlastMem) (hnodes sid hsid) hlast
      have hcap := (h pre last post stage horder hstage).capacity
      have hpost0 : hostedLoad dag host post (host sid).nodeId = 0 := by
        unfold hostedLoad
        rw [List.filter_eq_nil_iff.mpr (by simpa using hpost)]
        rfl
      rw [← hostedLoad_perm dag host hperm, horder, List.append_cons, hostedLoad_append,
        hostedLoad_append, hostedLoad_singleton, if_pos hlast, hpost0,
        PipelineDAG.demand_of_stage? hstage]
      rw [hsame] at hcap
      linarith
    · obtain ⟨pre, post, horder⟩ := List.append_of_mem (hperm.mem_iff.mpr (hw.target_mem e he))
      obtain ⟨stage, hstage⟩ := hmem e.targetId (by simp [horder])
      exact (h pre e.targetId post stage horder hstage).edges e he rfl
    · obtain ⟨pre, post, horder⟩ :=
        List.append_of_mem (hperm.mem_iff.mpr (Dict.mem_of_get?_eq_some hstage))
      exact (h pre sid post stage horder hstage).allowed
  · intro h pre sid post stage horder hstage
    refine ⟨?_, h.allowed sid stage hstage, fun e he htgt => htgt ▸ h.edges e he⟩
    have hcap := h.capacity sid (Dict.mem_of_get?_eq_some hstage)
    have hpost : 0 ≤ hostedLoad dag host post (host sid).nodeId := hostedLoad_nonneg hd host post _
    rw [← hostedLoad_perm dag host hperm, horder, List.append_cons, hostedLoad_append,
      hostedLoad_append, hostedLoad_singleton, if_pos rfl,
      PipelineDAG.demand_of_stage? hstage] at hcap
    linarith

/-! ## Greedy placement is feasible -/

/-- What holds once the loop over the stages has placed `done`. -/
structure GreedyInv (dag : PipelineDAG) (topology : NetworkTopology)
    (governance : GovernancePolicy) (done : List StageId) (s : Placement × Dict NodeId ℚ) :
    Prop where
  keys : s.1.keys = done
  exists_host : ∃ host, PlacedAlong dag topology host done s ∧
    StepsFeasible dag topology governance host done

/-- Every stage placed so far is on a node of the topology. -/
def OnNodes (topology : NetworkTopology) (p : Placement) : Prop :=
  ∀ sid nid, p.get? sid = some nid → ∃ node ∈ topology.nodes, node.nodeId = nid

theorem PlacedAlong.onNodes {done : List StageId} {s : Placement × Dict NodeId ℚ}
    (h : PlacedAlong dag topology host done s) : OnNodes topology s.1 := by
  intro sid nid hget
  rw [h.get? sid] at hget
  split at hget
  · next hmem => exact ⟨host sid, h.mem_nodes sid hmem, Option.some.inj hget⟩
  · cases hget

theorem incrementalCost_total (hc : topology.Complete) (w : Weights) {p : Placement}
    (hp : OnNodes topology p) (sid : StageId) (stage : Stage) {node : ExecutionUnit}
    (hnode : node ∈ topology.nodes) :
    ∃ c, incrementalCost dag topology w p sid stage node = .ok c := by
  obtain ⟨inc, hinc, -⟩ := foldlM_scan_ok (l := dag.predecessors sid) (b := ((0, 0) : ℚ × ℕ))
    (f := fun (inc : ℚ × ℕ) predId =>
      match p.get? predId with
      | none => return inc
      | some predNodeId => do
        let latencyInc := inc.1 + (← topology.latency predNodeId node.nodeId)
        if (← topology.getNode predNodeId).domainId ≠ node.domainId then
          return (latencyInc, inc.2 + 1)
        else return (latencyInc, inc.2))
    (P := fun _ _ => True) trivial (by
    intro _ u _ inc _ _
    cases hu : p.get? u with
    | none => exact ⟨inc, rfl, trivial⟩
    | some nid =>
      obtain ⟨pred, hpred, rfl⟩ := hp u nid hu
      simp only [hc.latency_eq hpred hnode, hc.getNode hpred, bind, Except.bind]
      split <;> exact ⟨_, rfl, trivial⟩)
  unfold incrementalCost
  rw [hinc]
  exact ⟨_, rfl⟩

/-- One iteration commits a stage to a node it can go to, or raises. -/
theorem GreedyInv.step (hw : dag.WellFormed) (hs : dag.SimpleEdges) (hc : topology.Complete)
    (hd : dag.NonnegDemands) (w : Weights) {order done rest : List StageId} {sid : StageId}
    {s : Placement × Dict NodeId ℚ} (hperm : order.Perm dag.stages.keys)
    (htopo : Graph.TopoOrdered dag.successors order) (horder : order = done ++ sid :: rest)
    (h : GreedyInv dag topology governance done s) :
    (∃ s', greedyStep dag topology governance w s sid = .ok s' ∧
      GreedyInv dag topology governance (done ++ [sid]) s') ∨
    ∃ e, greedyStep dag topology governance w s sid = .error e := by
  obtain ⟨hkeys, host, hplaced, hsteps⟩ := h
  have hsid : sid ∈ dag.stages := hperm.mem_iff.mp (by simp [horder])
  obtain ⟨stage, hget, hstage, -⟩ := getStage_of_mem hsid
  have hnew : sid ∉ done := by
    have hnodup := hperm.nodup_iff.mpr dag.stages.keys_nodup
    rw [horder] at hnodup
    exact fun hm => (List.nodup_append.mp hnodup).2.2 sid hm sid (by simp) rfl
  -- each candidate has a cost, which is `⊤` unless the stage can go there
  have hcost : ∀ node ∈ topology.nodes, ∃ c : WithTop ℚ, (do
      if ← isNodeFeasible stage node dag topology governance s.1 s.2 then
        return ((← incrementalCost dag topology w s.1 sid stage node : ℚ) : WithTop ℚ)
      else return ⊤ : Except PyError (WithTop ℚ)) = .ok c ∧
      (c < ⊤ → FeasibleNext dag topology governance host done sid stage node) := by
    intro node hnode
    obtain ⟨b, hb, hfeas⟩ := isNodeFeasible_spec governance hw hs hc hd hperm htopo
      horder hplaced hstage hnode
    obtain ⟨c, hc'⟩ : ∃ c, incrementalCost dag topology w s.1 sid stage node = .ok c :=
      incrementalCost_total hc w hplaced.onNodes sid stage hnode
    rw [hb]
    cases b with
    | false => exact ⟨⊤, rfl, fun h => absurd h (lt_irrefl _)⟩
    | true => exact ⟨c, by simp only [bind, Except.bind, hc']; rfl, fun _ => hfeas.mp rfl⟩
  obtain ⟨best, hbest, hattained⟩ := firstMinM_total fun node hnode =>
    (hcost node hnode).imp fun _ h => h.1
  unfold greedyStep
  simp only [hget, bind, Except.bind] at hbest ⊢
  rw [hbest]
  cases hnode : best.2 with
  | none => simp only [hnode]; exact .inr ⟨_, rfl⟩
  | some node =>
    obtain ⟨hmem, c, hc', hlt⟩ := hattained node hnode
    obtain ⟨c', hc'', hfeas⟩ := hcost node hmem
    obtain rfl := Except.ok.inj (hc'.symm.trans hc'')
    have hold : ∀ x ∈ done, Function.update host sid node x = host x := fun x hx =>
      Function.update_of_ne (by rintro rfl; exact hnew hx) _ _
    have hself : Function.update host sid node sid = node := Function.update_self ..
    have hsources : ∀ pre x post, order = pre ++ x :: post →
        ∀ e ∈ dag.edges, e.targetId = x → e.sourceId ∈ pre := fun pre x post hsplit e he htgt =>
      htopo pre x post hsplit e.sourceId (hw.mem_successors.mpr ⟨e, he, rfl, htgt⟩)
    have hplaced' := (hplaced.congr hold).concat hstage (by rw [hself]; exact hmem)
    rw [hself] at hplaced'
    simp only [hnode]
    refine .inl ⟨_, rfl, ?_, Function.update host sid node, hplaced', ?_⟩
    · rw [Dict.keys_insert_of_not_mem _ (by rw [Dict.mem_iff_mem_keys, hkeys]; exact hnew), hkeys]
    · intro pre x post stage' hsplit hstage'
      rcases List.eq_nil_or_concat post with rfl | ⟨post, y, rfl⟩
      · -- the stage just committed
        obtain ⟨rfl, hx⟩ := List.append_inj' hsplit rfl
        obtain rfl : sid = x := by simpa using hx
        obtain rfl := Option.some.inj (hstage.symm.trans hstage')
        rw [hself]
        exact (hfeas hlt).congr hold (hsources done sid rest horder)
      · -- an earlier stage
        rw [List.concat_eq_append, ← List.cons_append, ← List.append_assoc] at hsplit
        have hdone : done = pre ++ x :: post := (List.append_inj' hsplit rfl).1
        have hx : Function.update host sid node x = host x := hold x (by simp [hdone])
        rw [hx]
        exact (hsteps pre x post stage' hdone hstage').congr
          (fun z hz => hold z (by simp [hdone, hz]))
          (hsources pre x (post ++ sid :: rest) (by simp [horder, hdone]))

theorem GreedyInv.hosts {order : List StageId} {s : Placement × Dict NodeId ℚ}
    (h : GreedyInv dag topology governance order s) (hperm : order.Perm dag.stages.keys) :
    ∃ host, Hosts dag topology host s.1 ∧ StepsFeasible dag topology governance host order := by
  obtain ⟨hkeys, host, hplaced, hsteps⟩ := h
  refine ⟨host, ⟨fun sid => ?_, fun sid hsid => ?_, fun sid hsid => ?_⟩, hsteps⟩
  · rw [Dict.mem_iff_mem_keys, hkeys]
    exact hperm.mem_iff
  · exact (hplaced.get? sid).trans (if_pos (hperm.mem_iff.mpr hsid))
  · exact hplaced.mem_nodes sid (hperm.mem_iff.mpr hsid)

/-! ## Greedy placement raises no lookup error -/

theorem latencyWithin_total (hc : topology.Complete) (edge? : Option Edge) {a b : ExecutionUnit}
    (ha : a ∈ topology.nodes) (hb : b ∈ topology.nodes) :
    ∃ ok, latencyWithin topology edge? a.nodeId b.nodeId = .ok ok := by
  cases edge? with
  | none => exact ⟨true, rfl⟩
  | some edge =>
    rw [latencyWithin, hc.latency_eq ha hb]
    exact ⟨_, rfl⟩

theorem ifPlaced_total {p : Placement} (hp : OnNodes topology p) (sid : StageId)
    {f : NodeId → Except PyError Bool} (h : ∀ node ∈ topology.nodes, ∃ ok, f node.nodeId = .ok ok) :
    ∃ ok, ifPlaced p sid f = .ok ok := by
  unfold ifPlaced
  cases hget : p.get? sid with
  | none => exact ⟨true, rfl⟩
  | some nid =>
    obtain ⟨node, hnode, rfl⟩ := hp sid nid hget
    exact h node hnode

variable (governance) in
theorem isNodeFeasible_total (hc : topology.Complete) {p : Placement} (hp : OnNodes topology p)
    (stage : Stage) (ledger : Dict NodeId ℚ) {node : ExecutionUnit} (hnode : node ∈ topology.nodes) :
    ∃ ok, isNodeFeasible stage node dag topology governance p ledger = .ok ok := by
  obtain ⟨predsInTime, hpredsInTime⟩ := allM_total (l := dag.predecessors stage.id) fun predId _ =>
    ifPlaced_total hp predId (f := fun predNodeId =>
      latencyWithin topology (dag.getEdge predId stage.id) predNodeId node.nodeId)
      fun pred hpred => latencyWithin_total hc _ hpred hnode
  obtain ⟨succsInTime, hsuccsInTime⟩ := allM_total (l := dag.successors stage.id) fun succId _ =>
    ifPlaced_total hp succId (f := fun succNodeId =>
      latencyWithin topology (dag.getEdge stage.id succId) node.nodeId succNodeId)
      fun succ hsucc => latencyWithin_total hc _ hnode hsucc
  have htrusted : ∀ (ids : List StageId) (trusts : DomainId → Bool), ∃ ok,
      ids.allM (fun sid => ifPlaced p sid fun nid => do
        return trusts (← topology.getNode nid).domainId) = .ok ok := by
    intro ids trusts
    refine allM_total fun sid _ => ifPlaced_total hp sid fun other hother => ?_
    rw [hc.getNode hother]
    exact ⟨_, rfl⟩
  obtain ⟨predsTrusted, hpredsTrusted⟩ := htrusted (dag.predecessors stage.id) fun domainId =>
    governance.trusts domainId node.domainId
  obtain ⟨succsTrusted, hsuccsTrusted⟩ := htrusted (dag.successors stage.id) fun domainId =>
    governance.trusts node.domainId domainId
  unfold isNodeFeasible
  simp only [bind, Except.bind] at hpredsTrusted hsuccsTrusted ⊢
  simp only [hpredsInTime, hsuccsInTime, hpredsTrusted, hsuccsTrusted]
  split
  · exact ⟨false, rfl⟩
  · split
    · exact ⟨false, rfl⟩
    · cases predsInTime <;> cases succsInTime <;> cases predsTrusted <;> exact ⟨_, rfl⟩

/-- One iteration places the stage on a node or raises a `RuntimeError`. -/
theorem greedyStep_returns (hc : topology.Complete) (governance : GovernancePolicy) (w : Weights)
    {s : Placement × Dict NodeId ℚ} (hp : OnNodes topology s.1) {sid : StageId}
    (hsid : sid ∈ dag.stages) :
    (∃ s', greedyStep dag topology governance w s sid = .ok s' ∧ OnNodes topology s'.1) ∨
    ∃ e, greedyStep dag topology governance w s sid = .error e ∧ ∃ msg, e = .runtime msg := by
  obtain ⟨stage, hget, -, -⟩ := getStage_of_mem hsid
  have hcost : ∀ node ∈ topology.nodes, ∃ c : WithTop ℚ, (do
      if ← isNodeFeasible stage node dag topology governance s.1 s.2 then
        return ((← incrementalCost dag topology w s.1 sid stage node : ℚ) : WithTop ℚ)
      else return ⊤ : Except PyError (WithTop ℚ)) = .ok c := by
    intro node hnode
    obtain ⟨ok, hok⟩ : ∃ ok, isNodeFeasible stage node dag topology governance s.1 s.2 = .ok ok :=
      isNodeFeasible_total governance hc hp stage s.2 hnode
    obtain ⟨c, hcost⟩ : ∃ c, incrementalCost dag topology w s.1 sid stage node = .ok c :=
      incrementalCost_total hc w hp sid stage hnode
    rw [hok]
    cases ok with
    | false => exact ⟨⊤, rfl⟩
    | true =>
      simp only [bind, Except.bind, hcost]
      exact ⟨c, rfl⟩
  obtain ⟨best, hbest, hattained⟩ := firstMinM_total hcost
  unfold greedyStep
  simp only [hget, bind, Except.bind] at hbest ⊢
  rw [hbest]
  cases hnode : best.2 with
  | none =>
    simp only [hnode]
    exact .inr ⟨_, rfl, _, rfl⟩
  | some node =>
    simp only [hnode]
    refine .inl ⟨_, rfl, ?_⟩
    intro x nid hx
    rw [Dict.get?_insert] at hx
    split at hx
    · exact ⟨node, (hattained node hnode).1, Option.some.inj hx⟩
    · exact hp x nid hx

theorem greedyPlacement_returns (hw : dag.WellFormed) (hc : topology.Complete)
    (governance : GovernancePolicy) (w : Weights) :
    (∃ p, greedyPlacement dag topology governance w = .ok p) ∨
    ∃ msg, greedyPlacement dag topology governance w = .error (.runtime msg) := by
  obtain ⟨order, horder, hperm, -⟩ := hw.topologicalSort_eq
  have hloop := foldlM_scan (f := greedyStep dag topology governance w) (l := order)
    (b := (.empty, .empty)) (P := fun _ s => OnNodes topology s.1)
    (Q := fun e => ∃ msg, e = PyError.runtime msg) (fun sid nid hget => by cases hget)
    fun done sid rest s hsplit hp =>
      greedyStep_returns hc governance w hp (hperm.mem_iff.mp (by simp [hsplit]))
  unfold greedyPlacement
  rw [horder]
  cases hloop with
  | inl hok =>
    obtain ⟨s, hs, -⟩ := hok
    simp only [bind, Except.bind, hs]
    exact .inl ⟨_, rfl⟩
  | inr herror =>
    obtain ⟨e, he, msg, rfl⟩ := herror
    simp only [bind, Except.bind, he]
    exact .inr ⟨msg, rfl⟩

end Incremental

/-- Along any topological order, the incremental check accepts every stage of a
total assignment exactly when the whole check does; so greedy placement covers
each stage exactly once and passes the whole check. -/
theorem acceptsAlong_iff_checkFeasibility {dag : PipelineDAG} {topology : NetworkTopology}
    (hbuilt : dag.Built) (hs : dag.SimpleEdges) (hc : topology.Complete) (hd : dag.NonnegDemands)
    (governance : GovernancePolicy) :
    (∀ (order : List StageId) (assignment : Placement), order.Perm dag.stages.keys →
      Graph.TopoOrdered dag.successors order → TotalAssignment dag topology assignment →
      (acceptsAlong assignment dag topology governance order .empty .empty = .ok true ↔
        checkFeasibility assignment dag topology governance = .ok (true, []))) ∧
    (∀ (w : Weights) (p : Placement), greedyPlacement dag topology governance w = .ok p →
      p.keys.Perm dag.stages.keys ∧ checkFeasibility p dag topology governance = .ok (true, [])) := by
  have hw := hbuilt.wellFormed
  constructor
  · intro order assignment hperm htopo htotal
    obtain ⟨host, hhosts⟩ := htotal.exists_hosts
    obtain ⟨b, hb, hsteps⟩ := acceptsAlong_spec governance hw hs hc hd hperm htopo
      hhosts order [] _ rfl placedAlong_nil
    rw [checkFeasibility_spec hw hc hhosts, ← stepsFeasible_iff hw hc hd hperm hhosts.mem_nodes, hb]
    simpa [StepsFeasible] using hsteps
  · intro w p hp
    obtain ⟨order, horder, hperm, htopo⟩ := hw.topologicalSort_eq
    have hloop := foldlM_scan (f := greedyStep dag topology governance w) (l := order)
      (b := (.empty, .empty)) (P := GreedyInv dag topology governance) (Q := fun _ => True)
      ⟨rfl, fun _ => ⟨"", "", "", 0, 0, none⟩, placedAlong_nil, by simp [StepsFeasible]⟩
      fun done sid rest s hsplit hinv => (hinv.step hw hs hc hd w hperm htopo hsplit).imp id
        fun ⟨e, he⟩ => ⟨e, he, trivial⟩
    unfold greedyPlacement at hp
    rw [horder] at hp
    rcases hloop with ⟨s, hs', hinv⟩ | ⟨e, he, -⟩
    · simp only [bind, Except.bind, hs'] at hp
      obtain rfl := Except.ok.inj hp
      obtain ⟨host, hhosts, hsteps⟩ := hinv.hosts hperm
      exact ⟨hhosts.keys_perm, (checkFeasibility_spec hw hc hhosts).mpr
        ((stepsFeasible_iff hw hc hd hperm hhosts.mem_nodes).mp hsteps)⟩
    · simp only [bind, Except.bind, he] at hp
      cases hp

private def forkDag : PipelineDAG :=
  .ofLists [⟨"src", "sense", 1 / 2, 1, none, none, none⟩,
      ⟨"left", "filter", 1 / 2, 1, none, some "d1", none⟩,
      ⟨"right", "filter", 1 / 2, 1, some "s2", none, none⟩]
    [⟨"src", "left", 10⟩, ⟨"src", "right", 10⟩]

private def forkTopology : NetworkTopology where
  nodes := [⟨"n1", "d1", "s1", 1, 0, none⟩, ⟨"n2", "d2", "s2", 1, 0, none⟩]
  latencyMatrix := .ofList [(("n1", "n2"), 5)]

private def forkGovernance : GovernancePolicy := { trustLevels := .ofList [(("d1", "d2"), 1)] }

/-- A fork whose two branches need different nodes: greedy placement puts the
source with the left branch. -/
theorem greedyPlacement_fork :
    ∃ p, greedyPlacement forkDag forkTopology forkGovernance {} = .ok p ∧
      p.keys.Perm forkDag.stages.keys ∧
      checkFeasibility p forkDag forkTopology forkGovernance = .ok (true, []) := by
  have hp : greedyPlacement forkDag forkTopology forkGovernance {} =
      .ok (.ofList [("src", "n1"), ("left", "n1"), ("right", "n2")]) := by decide +kernel
  exact ⟨_, hp, (acceptsAlong_iff_checkFeasibility (PipelineDAG.built_ofLists _ _) (by decide)
    (by decide +kernel) (by decide +kernel) forkGovernance).2 {} _ hp⟩

end NeuralPubSub
