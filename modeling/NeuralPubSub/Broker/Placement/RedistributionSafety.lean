-- SUMMARY: The states of the redistribution pass: an exact ledger, complete placements, and no new overload.
import NeuralPubSub.Broker.Placement.DpSafety

open Base

/-!
# Safety of the redistribution pass

Whatever the latencies, a placement that the dynamic program hands to the pass
gives every stage one node. Between two attempts to move a stage the ledger is
the demand placed, and no node carries more than before or than it has room for.
-/

namespace NeuralPubSub

variable {dag : PipelineDAG} {topology : NetworkTopology} {governance : GovernancePolicy}
  {w : Weights}

/-! ## What reaches the pass -/

/-- The recorded choices of the predecessors, for a candidate of finite cost. -/
def ChoicesRecorded (topology : NetworkTopology) (cost : StageId → NodeId → WithTop ℚ)
    (preds : List StageId) (choice : Dict StageId ℕ) : Prop :=
  choice.keys = preds ∧ ∀ u ∈ preds, ∃ j m, choice.get? u = some j ∧
    topology.nodeIds[j]? = some m ∧ cost u m ≠ ⊤

theorem bestPredecessorNode_some {predCost : NodeId → WithTop ℚ} {edge? : Option Edge}
    {nid : NodeId} {node : ExecutionUnit} {best : WithTop ℚ × Option (NodeId × ℕ)} {m : NodeId × ℕ}
    (hok : bestPredecessorNode topology governance w (topology.nodeIds.map predCost) edge? nid
      node = .ok best) (hbest : best.2 = some m) :
    topology.nodeIds[m.2]? = some m.1 ∧ predCost m.1 ≠ ⊤ := by
  rcases firstMinM_some hok hbest with ⟨hmem, c, hc, hlt⟩
  have hget : topology.nodeIds[m.2]? = some m.1 := by
    simpa [List.mem_zipIdx_iff_getElem?] using hmem
  refine ⟨hget, fun htop => ?_⟩
  have hcost : (topology.nodeIds.map predCost).getD m.2 ⊤ = ⊤ := by
    simp [List.getD_eq_getElem?_getD, hget, htop]
  simp only [hcost, if_true] at hc
  cases hc
  exact lt_irrefl _ hlt

theorem combinePredecessors_recorded {tables : DpTables} {cost : StageId → NodeId → WithTop ℚ}
    {stageId : StageId} {nid : NodeId} {node : ExecutionUnit} {preds before : List StageId}
    (hrows : ∀ u ∈ preds, tables.dp.get? u = some (topology.nodeIds.map (cost u)))
    (hnodup : (before ++ preds).Nodup) {total : WithTop ℚ} {choice : Dict StageId ℕ}
    (hchoice : ChoicesRecorded topology cost before choice) {t : WithTop ℚ} {c : Dict StageId ℕ}
    (hok : combinePredecessors dag topology governance w tables stageId nid node preds total
      choice = .ok (t, c)) (ht : t ≠ ⊤) : ChoicesRecorded topology cost (before ++ preds) c := by
  induction preds generalizing before total choice with
  | nil =>
    cases hok
    rwa [List.append_nil]
  | cons u preds ih =>
    simp only [combinePredecessors, subscript_eq_ok_iff.mpr (hrows u (by simp)), bind,
      Except.bind] at hok
    split at hok
    · cases hok
    · next best hbest =>
      split at hok
      · cases hok
        exact absurd rfl ht
      · next m hm =>
        have hpick := bestPredecessorNode_some hbest hm
        have hnew : u ∉ choice := by
          rw [Dict.mem_iff_mem_keys, hchoice.1]
          exact fun hu => (List.nodup_append.mp hnodup).2.2 u hu u (by simp) rfl
        rw [List.append_cons]
        apply ih (fun v hv => hrows v (by simp [hv])) (by simpa using hnodup) _ hok
        refine ⟨by rw [Dict.keys_insert_of_not_mem _ hnew, hchoice.1], fun v hv => ?_⟩
        rw [Dict.get?_insert]
        split
        · next heq =>
          subst heq
          exact ⟨m.2, m.1, rfl, hpick⟩
        · next hne => exact hchoice.2 v (by simpa [hne] using hv)

theorem dpCell_recorded {stageId : StageId} (hpreds : (dag.predecessors stageId).Nodup)
    {tables : DpTables} {cost : StageId → NodeId → WithTop ℚ}
    (hrows : ∀ u ∈ dag.predecessors stageId,
      tables.dp.get? u = some (topology.nodeIds.map (cost u)))
    {stage : Stage} {nid : NodeId} {cell : WithTop ℚ × Dict StageId ℕ}
    (hok : dpCell dag topology governance w tables stageId stage nid = .ok cell)
    (hcost : cell.1 ≠ ⊤) : ChoicesRecorded topology cost (dag.predecessors stageId) cell.2 := by
  unfold dpCell at hok
  rcases bind_eq_ok_iff.mp hok with ⟨node, -, hok⟩
  split at hok
  · cases hok
    exact absurd rfl hcost
  · have hempty : ChoicesRecorded topology cost [] (.empty : Dict StageId ℕ) := ⟨rfl, by simp⟩
    have hpreds' : ([] ++ dag.predecessors stageId).Nodup := hpreds
    exact combinePredecessors_recorded hrows hpreds' hempty hok hcost

variable (dag topology) in
/-- Tables whose finite entries record a candidate of finite cost for each predecessor. -/
structure Sound (done : List StageId) (tables : DpTables)
    (cost : StageId → NodeId → WithTop ℚ) (choice : StageId → NodeId → Dict StageId ℕ) : Prop where
  dpRow : ∀ v ∈ done, tables.dp.get? v = some (topology.nodeIds.map (cost v))
  choiceRow : ∀ v ∈ done, tables.choice.get? v = some (topology.nodeIds.map (choice v))
  recorded : ∀ v ∈ done, ∀ nid ∈ topology.nodeIds, cost v nid ≠ ⊤ →
    ChoicesRecorded topology cost (dag.predecessors v) (choice v nid)

theorem Sound.step {done : List StageId} {tables tables' : DpTables} {v : StageId}
    (h : ∃ cost choice, Sound dag topology done tables cost choice) (hnew : v ∉ done)
    (hpreds : (dag.predecessors v).Nodup) (hbefore : ∀ u ∈ dag.predecessors v, u ∈ done)
    (hclosed : ∀ x ∈ done, ∀ u ∈ dag.predecessors x, u ∈ done)
    (hok : dpStage dag topology governance w tables v = .ok tables') :
    ∃ cost choice, Sound dag topology (done ++ [v]) tables' cost choice := by
  rcases h with ⟨cost, choice, h⟩
  unfold dpStage at hok
  rcases bind_eq_ok_iff.mp hok with ⟨stage, hstage, hok⟩
  rcases bind_eq_ok_iff.mp hok with ⟨row, hrow, hok⟩
  cases hok
  have hcells := eq_map_of_mapM_eq_ok hrow
  generalize hcell : (fun nid => (dpCell dag topology governance w tables v stage nid).toOption.getD
    default) = cell at hcells
  have hne : ∀ x ∈ done, x ≠ v := fun x hx heq => hnew (heq ▸ hx)
  have hsame : ∀ x ∈ done, ∀ {β : Type} (f : StageId → NodeId → β) (g : NodeId → β),
      Function.update f v g x = f x := fun x hx _ f g => Function.update_of_ne (hne x hx) _ _
  have hrecorded : ∀ preds c, (∀ u ∈ preds, u ∈ done) → ChoicesRecorded topology cost preds c →
      ChoicesRecorded topology (Function.update cost v fun nid => (cell nid).1) preds c := by
    intro preds c hsub hc
    refine ⟨hc.1, fun u hu => ?_⟩
    rw [hsame u (hsub u hu)]
    exact hc.2 u hu
  refine ⟨Function.update cost v fun nid => (cell nid).1,
    Function.update choice v fun nid => (cell nid).2, ?_, ?_, ?_⟩
  · intro x hx
    cases List.mem_append.mp hx with
    | inl hx =>
      rw [Dict.get?_insert_of_ne _ _ (hne x hx), hsame x hx]
      exact h.dpRow x hx
    | inr hx =>
      cases List.mem_singleton.mp hx
      rw [Dict.get?_insert_self, Function.update_self, hcells.1, List.map_map]
      rfl
  · intro x hx
    cases List.mem_append.mp hx with
    | inl hx =>
      rw [Dict.get?_insert_of_ne _ _ (hne x hx), hsame x hx]
      exact h.choiceRow x hx
    | inr hx =>
      cases List.mem_singleton.mp hx
      rw [Dict.get?_insert_self, Function.update_self, hcells.1, List.map_map]
      rfl
  · intro x hx nid hnid hfin
    cases List.mem_append.mp hx with
    | inl hx =>
      rw [hsame x hx] at hfin ⊢
      exact hrecorded _ _ (hclosed x hx) (h.recorded x hx nid hnid hfin)
    | inr hx =>
      cases List.mem_singleton.mp hx
      rw [Function.update_self] at hfin ⊢
      apply hrecorded _ _ hbefore
      rcases hcells.2 nid hnid with ⟨c, hc⟩
      have hvalue : cell nid = c := by
        simp only [← hcell, hc]
        rfl
      rw [hvalue] at hfin ⊢
      exact dpCell_recorded hpreds (fun u hu => h.dpRow u (hbefore u hu)) hc hfin

theorem sound_tables (hw : dag.WellFormed) (htree : dag.isTree = true) {order : List StageId}
    (hperm : order.Perm dag.stages.keys) (htopo : Graph.TopoOrdered dag.successors order)
    {tables : DpTables} (hok : order.foldlM (dpStage dag topology governance w) {} = .ok tables) :
    ∃ cost choice, Sound dag topology order tables cost choice := by
  have hnodup : order.Nodup := hperm.nodup_iff.mpr dag.stages.keys_nodup
  have hle := (PipelineDAG.isTree_iff.mp htree).1
  refine foldlM_scan_returned
    (P := fun done tables => ∃ cost choice, Sound dag topology done tables cost choice)
    ⟨fun _ _ => ⊤, fun _ _ => .empty, by simp, by simp, by simp⟩ ?_ hok
  intro done v rest tables tables' hl hsound hstep
  rw [hl, List.nodup_append] at hnodup
  refine Sound.step hsound (fun hv => hnodup.2.2 v hv v (by simp) rfl) (hw.predecessors_nodup hle v)
    (fun u hu => htopo done v rest hl u (hw.mem_predecessors.mp hu)) ?_ hstep
  intro x hx u hu
  rcases List.append_of_mem hx with ⟨pre, post, rfl⟩
  have hbefore := htopo pre x (post ++ v :: rest) (by simp [hl]) u (hw.mem_predecessors.mp hu)
  exact List.mem_append_left _ hbefore

/-- The dynamic program places every stage on one node, whatever the latencies. -/
theorem dpAssignment_hosts (hw : dag.WellFormed) (htree : dag.isTree = true) {order : List StageId}
    (hperm : order.Perm dag.stages.keys) (htopo : Graph.TopoOrdered dag.successors order)
    {p : Placement} (hp : dpAssignment dag topology governance w order = .ok p) :
    ∃ host, Hosts dag topology host p := by
  rcases PipelineDAG.exists_sink_of_isTree htree with ⟨sink, hsink, -⟩
  have ht := placementProblem_isTree topology governance w hw htree hperm htopo hsink
  unfold dpAssignment at hp
  rcases bind_eq_ok_iff.mp hp with ⟨tables, htables, hp⟩
  rcases sound_tables hw htree hperm htopo htables with ⟨cost, choice, hsound⟩
  have hrow := hsound.dpRow sink ht.root_mem
  simp only [hsink, subscript_eq_ok_iff.mpr hrow, bind, Except.bind] at hp
  split at hp
  · cases hp
  · next best hbest =>
    split at hp
    · cases hp
    · next ni hni =>
      cases hp
      rcases firstMinM_some hbest hni with ⟨hmem, c, hc, hlt⟩
      have hlen : ni < topology.nodes.length := by simpa [NetworkTopology.nodeIds] using hmem
      generalize hroot : topology.nodes[ni] = root
      have hget : topology.nodes[ni]? = some root := by rw [List.getElem?_eq_getElem hlen, hroot]
      have hrootCost : cost sink root.nodeId ≠ ⊤ := by
        cases hc
        simpa [List.getD_eq_getElem?_getD, NetworkTopology.nodeIds, hget] using hlt.ne
      -- the hosts, read off the recorded indices from the sink upwards
      rcases ht.exists_assignment root fun v node u =>
        (((choice v node.nodeId).get? u).bind (topology.nodes[·]?)).getD node with
        ⟨host, hhost, hnext⟩
      have hpick : ∀ v ∈ order, host v ∈ topology.nodes → cost v (host v).nodeId ≠ ⊤ →
          (choice v (host v).nodeId).keys = dag.predecessors v ∧
          ∀ u ∈ dag.predecessors v, ∃ j, (choice v (host v).nodeId).get? u = some j ∧
            topology.nodes[j]? = some (host u) ∧ cost u (host u).nodeId ≠ ⊤ := by
        intro v hv hmem hne
        have hrecorded := hsound.recorded v hv (host v).nodeId (List.mem_map_of_mem hmem) hne
        refine ⟨hrecorded.1, fun u hu => ?_⟩
        rcases hrecorded.2 u hu with ⟨j, m, hj, hm, hfinite⟩
        rw [NetworkTopology.nodeIds, List.getElem?_map, Option.map_eq_some_iff] at hm
        rcases hm with ⟨node, hnode, rfl⟩
        have hhostU : host u = node := by
          rw [hnext v hv u hu, hj]
          simp [hnode]
        exact ⟨j, hj, by rw [hhostU, hnode], by rwa [hhostU]⟩
      have hfin : ∀ v ∈ order, host v ∈ topology.nodes ∧ cost v (host v).nodeId ≠ ⊤ := by
        refine ht.induction_down ?_ fun v hv hhostV u hu => ?_
        · rw [hhost]
          exact ⟨List.mem_of_getElem? hget, hrootCost⟩
        · rcases (hpick v hv hhostV.1 hhostV.2).2 u hu with ⟨j, -, hnode, hfinite⟩
          exact ⟨List.mem_of_getElem? hnode, hfinite⟩
      have hchoices : ChoicesName dag topology tables.choice host order := by
        intro v hv i hi
        have hlookup : (tables.choice.getD v []).getD i .empty = choice v (host v).nodeId := by
          rw [Dict.getD, hsound.choiceRow v hv]
          simp [List.getD_eq_getElem?_getD, NetworkTopology.nodeIds, hi]
        have hnames := hpick v hv (hfin v hv).1 (hfin v hv).2
        simp only [hlookup]
        refine ⟨hnames.1, fun u hu => ?_⟩
        rcases hnames.2 u hu with ⟨j, hj, hnode, -⟩
        exact ⟨j, hj, hnode⟩
      exact ⟨host, trace_hosts hw htree hperm htopo hsink hchoices (fun v hv => (hfin v hv).1)
        (by rw [hhost, hget])⟩

/-! ## The states of the pass -/

section States

variable (dag topology governance)

/-- One attempt to move a stage. -/
def Attempt (s s' : Placement × Dict NodeId ℚ) : Prop :=
  ∃ nid sid, redistributeSibling dag topology governance nid s sid = .ok s'

/-- The states inside `redistributeGroup`, before and after each attempt. -/
def GroupState (s : Placement × Dict NodeId ℚ) (group : NodeId × List StageId)
    (s' : Placement × Dict NodeId ℚ) : Prop :=
  1 < group.2.length ∧ ∃ keyed : List (ℚ × StageId),
    (group.2.mapM fun sid => return (-(← dag.getStage sid).computationalDemand, sid)) = .ok keyed ∧
    LoopState (fun _ _ _ => False) (redistributeSibling dag topology governance group.1)
      ((keyed.insertionSort fun a b => a.1 ≤ b.1).map Prod.snd).tail s s'

/-- The states inside `redistributeStage`. -/
def StageState (s : Placement × Dict NodeId ℚ) (stageId : StageId)
    (s' : Placement × Dict NodeId ℚ) : Prop :=
  2 ≤ (dag.predecessors stageId).length ∧ ∃ nodeToPreds,
    groupByNode s.1 (dag.predecessors stageId) = .ok nodeToPreds ∧
    LoopState (GroupState dag topology governance) (redistributeGroup dag topology governance)
      nodeToPreds.entries s s'

/-- The states of `redistribute`, from the first to the last. -/
def PassState (order : List StageId) (p : Placement) (s : Placement × Dict NodeId ℚ) : Prop :=
  ∃ committedLoad, nodeLoads p dag = .ok committedLoad ∧
    LoopState (StageState dag topology governance) (redistributeStage dag topology governance)
      order (p, committedLoad) s

/-- The demand that a placement puts on a node. -/
def placedDemand (p : Placement) (nid : NodeId) : ℚ :=
  ((p.entries.filter fun e => e.2 = nid).map fun e => dag.demand e.1).sum

end States

theorem redistributeSibling_reaches (nid : NodeId) (s : Placement × Dict NodeId ℚ) (sid : StageId)
    (s' : Placement × Dict NodeId ℚ)
    (h : redistributeSibling dag topology governance nid s sid = .ok s') :
    Relation.ReflTransGen (Attempt dag topology governance) s s' :=
  .single ⟨nid, sid, h⟩

theorem redistributeGroup_reaches (s : Placement × Dict NodeId ℚ) (group : NodeId × List StageId)
    (s' : Placement × Dict NodeId ℚ)
    (h : redistributeGroup dag topology governance s group = .ok s') :
    Relation.ReflTransGen (Attempt dag topology governance) s s' := by
  unfold redistributeGroup at h
  split at h
  · cases h
    exact .refl
  · simp only [bind, Except.bind] at h
    split at h
    · cases h
    · exact foldlM_reaches (redistributeSibling_reaches group.1) h

theorem redistributeStage_reaches (s : Placement × Dict NodeId ℚ) (stageId : StageId)
    (s' : Placement × Dict NodeId ℚ)
    (h : redistributeStage dag topology governance s stageId = .ok s') :
    Relation.ReflTransGen (Attempt dag topology governance) s s' := by
  unfold redistributeStage at h
  simp only at h
  split at h
  · cases h
    exact .refl
  · simp only [bind, Except.bind] at h
    split at h
    · cases h
    · exact foldlM_reaches redistributeGroup_reaches h

theorem PassState.reaches {order : List StageId} {p : Placement} {s : Placement × Dict NodeId ℚ}
    (h : PassState dag topology governance order p s) :
    ∃ committedLoad, nodeLoads p dag = .ok committedLoad ∧
      Relation.ReflTransGen (Attempt dag topology governance) (p, committedLoad) s := by
  rcases h with ⟨committedLoad, hloads, hloop⟩
  refine ⟨committedLoad, hloads, hloop.reaches redistributeStage_reaches ?_⟩
  intro s stageId s' hstage
  rcases hstage.2 with ⟨groups, -, hgroups⟩
  refine hgroups.reaches redistributeGroup_reaches ?_
  intro s group s' hgroup
  rcases hgroup.2 with ⟨keyed, -, hsiblings⟩
  exact hsiblings.reaches (redistributeSibling_reaches group.1) fun _ _ _ h => h.elim

/-! ## What an attempt does -/

theorem placedDemand_eq_hostedLoad {host : StageId → ExecutionUnit} {p : Placement}
    (h : Hosts dag topology host p) (nid : NodeId) :
    placedDemand dag p nid = hostedLoad dag host dag.stages.keys nid := by
  rw [← hostedLoad_perm dag host h.keys_perm, placedDemand, h.entries_eq, hostedLoad,
    List.filter_map, List.map_map]
  rfl

/-- The attempt leaves the state alone, or moves the stage to a feasible node with room. -/
theorem redistributeSibling_cases {host : StageId → ExecutionUnit}
    {s s' : Placement × Dict NodeId ℚ} (h : OnHosts dag topology host s) {nid : NodeId}
    {sid : StageId} (hok : redistributeSibling dag topology governance nid s sid = .ok s') :
    s' = s ∨ ∃ stage node, dag.stage? sid = some stage ∧ node ∈ topology.nodes ∧
      isNodeFeasibleSimple stage node governance = true ∧
      hostedLoad dag host dag.stages.keys node.nodeId + dag.demand sid ≤
        node.residualCapacity + tolerance ∧
      OnHosts dag topology (Function.update host sid node) s' := by
  rcases s with ⟨p, committed⟩
  unfold redistributeSibling at hok
  rcases bind_eq_ok_iff.mp hok with ⟨stage, hget, hok⟩
  have hstage : dag.stage? sid = some stage := subscript_eq_ok_iff.mp hget
  have hsid : sid ∈ dag.stages := Dict.mem_of_get?_eq_some hstage
  have hdemand := PipelineDAG.demand_of_stage? hstage
  rcases bind_eq_ok_iff.mp hok with ⟨best, hbest, hok⟩
  split at hok
  · cases hok
    exact .inl rfl
  · next node hnode =>
    rcases firstMinM_some hbest hnode with ⟨hmem, c, hc, hlt⟩
    rcases h.move hsid hmem with ⟨oldNid, old, hplaced, hold, hmoved⟩
    rw [hdemand] at hmoved
    simp only [hplaced, hold, bind, Except.bind] at hok
    cases hok
    have hload : committed.getD node.nodeId 0 = hostedLoad dag host dag.stages.keys node.nodeId :=
      h.load node.nodeId
    -- the chosen node has passed the three tests of the loop
    simp only [hload] at hc
    split at hc
    · cases hc
      exact absurd hlt (lt_irrefl _)
    · split at hc
      · cases hc
        exact absurd hlt (lt_irrefl _)
      · next hfeasible =>
        split at hc
        · cases hc
          exact absurd hlt (lt_irrefl _)
        · next hroom =>
          refine .inr ⟨stage, node, hstage, hmem, by simpa using hfeasible, ?_, hmoved⟩
          rw [hdemand, ExecutionUnit.residualCapacity]
          linarith

variable (dag topology governance) in
/-- What holds throughout the pass, with the hosts before it and now. -/
structure Kept (host now : StageId → ExecutionUnit) (s : Placement × Dict NodeId ℚ) : Prop where
  onHosts : OnHosts dag topology now s
  moved : ∀ sid stage, dag.stage? sid = some stage →
    now sid = host sid ∨ isNodeFeasibleSimple stage (now sid) governance = true
  load : ∀ nid, hostedLoad dag now dag.stages.keys nid ≤ hostedLoad dag host dag.stages.keys nid ∨
    ∃ node ∈ topology.nodes, node.nodeId = nid ∧
      hostedLoad dag now dag.stages.keys nid ≤ node.residualCapacity + tolerance

theorem Kept.attempt {host now : StageId → ExecutionUnit} {s s' : Placement × Dict NodeId ℚ}
    (h : Kept dag topology governance host now s) (hd : dag.NonnegDemands)
    (hattempt : Attempt dag topology governance s s') :
    ∃ now', Kept dag topology governance host now' s' := by
  rcases hattempt with ⟨nid, sid, hok⟩
  cases redistributeSibling_cases h.onHosts hok with
  | inl heq => exact ⟨now, heq ▸ h⟩
  | inr hmove =>
    rcases hmove with ⟨stage, node, hstage, hnode, hfeasible, hroom, honHosts⟩
    have hsid : sid ∈ dag.stages := Dict.mem_of_get?_eq_some hstage
    have hdemand := hd.demand_nonneg sid
    refine ⟨Function.update now sid node, honHosts, fun x stage' hstage' => ?_, fun nid' => ?_⟩
    · by_cases hx : x = sid
      · subst hx
        cases hstage.symm.trans hstage'
        rw [Function.update_self]
        exact .inr hfeasible
      · rw [Function.update_of_ne hx]
        exact h.moved x stage' hstage'
    · rw [hostedLoad_update hsid]
      have hreleased : (0 : ℚ) ≤ if nid' = (now sid).nodeId then dag.demand sid else 0 := by
        split
        · exact hdemand
        · exact le_refl 0
      by_cases hx : nid' = node.nodeId
      · subst hx
        rw [if_pos rfl]
        exact .inr ⟨node, hnode, rfl, by linarith⟩
      · rw [if_neg hx, add_zero]
        cases h.load nid' with
        | inl hle => exact .inl (by linarith)
        | inr hfits =>
          rcases hfits with ⟨other, hother, hid, hle⟩
          exact .inr ⟨other, hother, hid, by linarith⟩

theorem PassState.kept {host : StageId → ExecutionUnit} {order : List StageId} {p : Placement}
    {s : Placement × Dict NodeId ℚ} (hd : dag.NonnegDemands) (hhosts : Hosts dag topology host p)
    (h : PassState dag topology governance order p s) :
    ∃ now, Kept dag topology governance host now s := by
  rcases OnHosts.init hhosts with ⟨loads, hloads, hinit⟩
  rcases h.reaches with ⟨loads', hloads', hrun⟩
  cases hloads.symm.trans hloads'
  clear h
  induction hrun with
  | refl => exact ⟨host, hinit, fun _ _ _ => .inl rfl, fun _ => .inl le_rfl⟩
  | tail _ hattempt ih =>
    rcases ih with ⟨now, hnow⟩
    exact hnow.attempt hd hattempt

/-! ## The pass -/

/-- Throughout the redistribution pass the ledger is the demand placed on each node, every
stage is on one node, a stage that has been moved is on a node that is feasible for it, and a
node that carries more than before has room for it. -/
theorem redistribute_capacitySafe (hbuilt : dag.Built) (htree : dag.isTree = true)
    (hd : dag.NonnegDemands) {order : List StageId} (horder : dag.topologicalSort = .ok order)
    {p : Placement} (hp : dpAssignment dag topology governance w order = .ok p) :
    (∃ p' committedLoad, redistribute dag topology governance order p = .ok p' ∧
      PassState dag topology governance order p (p', committedLoad)) ∧
    ∀ s, PassState dag topology governance order p s →
      (∀ nid, s.2.getD nid 0 = placedDemand dag s.1 nid) ∧
      (∀ sid, sid ∈ s.1 ↔ sid ∈ dag.stages) ∧
      (∀ sid stage nid nid', dag.stage? sid = some stage → p.get? sid = some nid →
        s.1.get? sid = some nid' → nid' ≠ nid → ∃ node ∈ topology.nodes, node.nodeId = nid' ∧
          isNodeFeasibleSimple stage node governance = true) ∧
      (∀ nid, placedDemand dag s.1 nid ≤ placedDemand dag p nid ∨
        ∃ node ∈ topology.nodes, node.nodeId = nid ∧
          placedDemand dag s.1 nid ≤ node.residualCapacity + tolerance) ∧
      ∀ node ∈ topology.nodes,
        (∀ other ∈ topology.nodes, other.nodeId = node.nodeId → other = node) →
        placedDemand dag s.1 node.nodeId ≤
          max (placedDemand dag p node.nodeId) (node.residualCapacity + tolerance) := by
  have hw := hbuilt.wellFormed
  rcases hw.topologicalSort_eq with ⟨order', horder', hperm, htopo⟩
  cases horder.symm.trans horder'
  rcases dpAssignment_hosts hw htree hperm htopo hp with ⟨host, hhosts⟩
  refine ⟨?_, fun s hs => ?_⟩
  · rcases redistribute_run governance hw htree hperm hhosts with ⟨p', -, -, -, hok, -⟩
    rcases OnHosts.init hhosts with ⟨loads, hloads, -⟩
    cases hpass : order.foldlM (redistributeStage dag topology governance) (p, loads) with
    | error e =>
      simp only [redistribute, hloads, hpass, bind, Except.bind] at hok
      cases hok
    | ok s =>
      refine ⟨s.1, s.2, ?_, loads, hloads, .between (List.prefix_refl order) hpass⟩
      simp only [redistribute, hloads, hpass, bind, Except.bind]
      rfl
  · rcases hs.kept hd hhosts with ⟨now, hnow⟩
    have hload : ∀ nid, placedDemand dag s.1 nid ≤ placedDemand dag p nid ∨
        ∃ node ∈ topology.nodes, node.nodeId = nid ∧
          placedDemand dag s.1 nid ≤ node.residualCapacity + tolerance := by
      intro nid
      rw [placedDemand_eq_hostedLoad hnow.onHosts.hosts, placedDemand_eq_hostedLoad hhosts]
      exact hnow.load nid
    refine ⟨fun nid => ?_, hnow.onHosts.hosts.mem_iff, ?_, hload, fun node hnode hunique => ?_⟩
    · rw [placedDemand_eq_hostedLoad hnow.onHosts.hosts]
      exact hnow.onHosts.load nid
    · intro sid stage nid nid' hstage hbefore hafter hne
      have hsid : sid ∈ dag.stages := Dict.mem_of_get?_eq_some hstage
      rw [hhosts.get? sid hsid, Option.some.injEq] at hbefore
      rw [hnow.onHosts.hosts.get? sid hsid, Option.some.injEq] at hafter
      refine ⟨now sid, hnow.onHosts.hosts.mem_nodes sid hsid, hafter, ?_⟩
      apply (hnow.moved sid stage hstage).resolve_left
      intro heq
      exact hne (by rw [← hbefore, ← hafter, heq])
    · cases hload node.nodeId with
      | inl hle => exact le_max_of_le_left hle
      | inr hfits =>
        rcases hfits with ⟨other, hother, hid, hle⟩
        rw [hunique other hother hid] at hle
        exact le_max_of_le_right hle

private def meshDag : PipelineDAG :=
  .ofLists [⟨"a", "sense", 1, 1, none, none, none⟩, ⟨"b", "sense", 1, 1, none, none, none⟩,
    ⟨"c", "fuse", 1, 1, none, none, none⟩] [⟨"a", "c", 10⟩, ⟨"b", "c", 10⟩]

private def meshTopology : NetworkTopology where
  nodes := [⟨"n1", "d1", "s1", 2, 0, none⟩, ⟨"n2", "d1", "s1", 1, 0, none⟩]
  latencyMatrix := .ofList [(("n1", "n2"), 5)]

/-- All three stages start on one node with room for two, and one source is moved. -/
theorem redistribute_capacitySafe_mesh :
    dpAssignment meshDag meshTopology {} {} ["a", "b", "c"] =
      .ok (.ofList [("c", "n1"), ("a", "n1"), ("b", "n1")]) ∧
    ∀ s, PassState meshDag meshTopology {} ["a", "b", "c"]
        (.ofList [("c", "n1"), ("a", "n1"), ("b", "n1")]) s →
      ∀ nid, s.2.getD nid 0 = placedDemand meshDag s.1 nid := by
  have hp : dpAssignment meshDag meshTopology {} {} ["a", "b", "c"] =
      .ok (.ofList [("c", "n1"), ("a", "n1"), ("b", "n1")]) := by decide +kernel
  refine ⟨hp, fun s hs => ?_⟩
  exact ((redistribute_capacitySafe (PipelineDAG.built_ofLists _ _) (by decide) (by decide +kernel)
    (by decide +kernel) hp).2 s hs).1

end NeuralPubSub
