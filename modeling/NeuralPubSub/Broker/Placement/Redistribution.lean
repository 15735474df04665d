-- SUMMARY: The redistribution pass as a run of moves, and what the moves do to loads and edges.
import NeuralPubSub.Broker.Placement.DpOptimality

open Base

/-!
# Redistribution

The pass after the dynamic program moves co-located predecessors of a stage to
other nodes. Over hosts it is a run of moves, each to the least-loaded node that
is feasible for the stage on its own and has room; `redistribute_run` connects
the loop nest of the source to such a run.
-/

namespace NeuralPubSub

variable {dag : PipelineDAG} {topology : NetworkTopology} {governance : GovernancePolicy}
  {w : Weights}

/-! ## Moves -/

variable (dag topology governance) in
/-- A node the pass may move a stage to. -/
structure Alternative (host : StageId → ExecutionUnit) (sid : StageId) (node : ExecutionUnit) :
    Prop where
  mem : node ∈ topology.nodes
  ne : node.nodeId ≠ (host sid).nodeId
  feasible : ∀ stage, dag.stage? sid = some stage → isNodeFeasibleSimple stage node governance = true
  room : hostedLoad dag host dag.stages.keys node.nodeId + dag.demand sid ≤
    node.residualCapacity + tolerance

variable (dag topology governance) in
/-- The alternative the pass picks. -/
structure LeastLoaded (host : StageId → ExecutionUnit) (sid : StageId) (node : ExecutionUnit) :
    Prop extends Alternative dag topology governance host sid node where
  least : ∀ other, Alternative dag topology governance host sid other →
    hostedLoad dag host dag.stages.keys node.nodeId ≤
      hostedLoad dag host dag.stages.keys other.nodeId

/-- A move, with the hosts before it. -/
structure Move where
  before : StageId → ExecutionUnit
  stage : StageId
  target : ExecutionUnit

def Move.after (m : Move) : StageId → ExecutionUnit := Function.update m.before m.stage m.target

variable (dag topology governance) in
/-- The moves lead from the first hosts to the last. -/
inductive PassRun : (StageId → ExecutionUnit) → List Move → (StageId → ExecutionUnit) → Prop
  | nil (host : StageId → ExecutionUnit) : PassRun host [] host
  | cons {m : Move} {moves : List Move} {final : StageId → ExecutionUnit} :
    LeastLoaded dag topology governance m.before m.stage m.target →
    PassRun m.after moves final → PassRun m.before (m :: moves) final

namespace PassRun

variable {host mid final : StageId → ExecutionUnit} {moves moves' : List Move}

theorem trans (h : PassRun dag topology governance host moves mid)
    (h' : PassRun dag topology governance mid moves' final) :
    PassRun dag topology governance host (moves ++ moves') final := by
  induction h with
  | nil => exact h'
  | cons hm _ ih => exact .cons hm (ih h')

theorem concat (h : PassRun dag topology governance host moves mid) {sid : StageId}
    {node : ExecutionUnit} (hm : LeastLoaded dag topology governance mid sid node) :
    PassRun dag topology governance host (moves ++ [⟨mid, sid, node⟩])
      (Function.update mid sid node) :=
  h.trans (.cons (m := ⟨mid, sid, node⟩) hm (.nil _))

theorem append_inv (h : PassRun dag topology governance host (moves ++ moves') final) :
    ∃ mid, PassRun dag topology governance host moves mid ∧
      PassRun dag topology governance mid moves' final := by
  induction moves generalizing host with
  | nil => exact ⟨host, .nil host, h⟩
  | cons m moves ih =>
    cases h with
    | cons hm h =>
      obtain ⟨mid, hleft, hright⟩ := ih h
      exact ⟨mid, .cons hm hleft, hright⟩

/-- A move of the run, with the runs before and after it. -/
theorem split {m : Move} (h : PassRun dag topology governance host (moves ++ m :: moves') final) :
    PassRun dag topology governance host moves m.before ∧
      LeastLoaded dag topology governance m.before m.stage m.target ∧
      PassRun dag topology governance m.after moves' final := by
  obtain ⟨mid, hleft, hright⟩ := h.append_inv
  cases hright with
  | cons hm hrest => exact ⟨hleft, hm, hrest⟩

/-- A stage that no move touches keeps its host. -/
theorem host_eq (h : PassRun dag topology governance host moves final) {sid : StageId}
    (hsid : ∀ m ∈ moves, m.stage ≠ sid) : final sid = host sid := by
  induction h with
  | nil => rfl
  | cons _ _ ih =>
    rw [ih fun m hm => hsid m (by simp [hm])]
    exact Function.update_of_ne (hsid _ (by simp)).symm _ _

theorem mem_nodes (h : PassRun dag topology governance host moves final)
    (hnodes : ∀ sid ∈ dag.stages, host sid ∈ topology.nodes) :
    ∀ sid ∈ dag.stages, final sid ∈ topology.nodes := by
  induction h with
  | nil => exact hnodes
  | @cons m _ _ hm _ ih =>
    refine ih fun sid hsid => ?_
    by_cases hs : sid = m.stage
    · rw [hs, Move.after, Function.update_self]
      exact hm.mem
    · rw [Move.after, Function.update_of_ne hs]
      exact hnodes sid hsid

end PassRun

/-! ## The ledger -/

variable (dag topology) in
/-- The placement and the committed load agree with the hosts. -/
structure OnHosts (host : StageId → ExecutionUnit) (s : Placement × Dict NodeId ℚ) : Prop where
  hosts : Hosts dag topology host s.1
  committed : ∀ sid ∈ dag.stages, (host sid).nodeId ∈ s.2
  load : ∀ nid, s.2.getD nid 0 = hostedLoad dag host dag.stages.keys nid

/-- What moving one stage does to the loads. -/
theorem hostedLoad_update {host : StageId → ExecutionUnit} {sid : StageId} (hsid : sid ∈ dag.stages)
    (node : ExecutionUnit) (nid : NodeId) :
    hostedLoad dag (Function.update host sid node) dag.stages.keys nid =
      hostedLoad dag host dag.stages.keys nid +
        (if nid = node.nodeId then dag.demand sid else 0) -
        (if nid = (host sid).nodeId then dag.demand sid else 0) := by
  obtain ⟨pre, post, hkeys⟩ := List.append_of_mem (Dict.mem_iff_mem_keys.mp hsid)
  have hnodup := dag.stages.keys_nodup
  rw [hkeys, List.nodup_append, List.nodup_cons] at hnodup
  have hpre : ∀ x ∈ pre, Function.update host sid node x = host x := fun x hx =>
    Function.update_of_ne (hnodup.2.2 x hx sid (by simp)) _ _
  have hpost : ∀ x ∈ post, Function.update host sid node x = host x := fun x hx =>
    Function.update_of_ne (by rintro rfl; exact hnodup.2.1.1 hx) _ _
  rw [hkeys, List.append_cons]
  simp only [hostedLoad_append, hostedLoad_congr dag hpre, hostedLoad_congr dag hpost,
    hostedLoad_singleton, Function.update_self, eq_comm (a := nid)]
  ring

theorem OnHosts.init {host : StageId → ExecutionUnit} {p : Placement}
    (h : Hosts dag topology host p) :
    ∃ loads, nodeLoads p dag = .ok loads ∧ OnHosts dag topology host (p, loads) := by
  obtain ⟨loads, hok, hmem, hload⟩ := nodeLoads_spec h
  exact ⟨loads, hok, h, fun sid hsid => (hmem _).mpr ⟨sid, hsid, rfl⟩, hload⟩

/-- Placing a stage on another node, and taking its demand along in the ledger. -/
theorem OnHosts.move {host : StageId → ExecutionUnit} {p : Placement} {committed : Dict NodeId ℚ}
    (h : OnHosts dag topology host (p, committed)) {sid : StageId} (hsid : sid ∈ dag.stages)
    {node : ExecutionUnit} (hnode : node ∈ topology.nodes) :
    ∃ oldNid old, subscript p sid = .ok oldNid ∧ subscript committed oldNid = .ok old ∧
      let released := committed.insert oldNid (old - dag.demand sid)
      OnHosts dag topology (Function.update host sid node) (p.insert sid node.nodeId,
        released.insert node.nodeId (released.getD node.nodeId 0 + dag.demand sid)) := by
  obtain ⟨old, hold⟩ := Dict.exists_get?_of_mem (h.committed sid hsid)
  have hload : ∀ nid, committed.getD nid 0 = hostedLoad dag host dag.stages.keys nid := h.load
  have hold' : old = hostedLoad dag host dag.stages.keys (host sid).nodeId := by
    rw [← hload, Dict.getD, hold]; rfl
  refine ⟨(host sid).nodeId, old, subscript_eq_ok_iff.mpr (h.hosts.get? sid hsid),
    subscript_eq_ok_iff.mpr hold, ⟨fun x => ?_, fun x hx => ?_, fun x hx => ?_⟩, fun x hx => ?_,
    fun nid => ?_⟩
  · rw [Dict.mem_insert, h.hosts.mem_iff]
    exact or_iff_right_of_imp fun hx => hx ▸ hsid
  · rw [Dict.get?_insert]
    by_cases hxs : x = sid
    · rw [if_pos hxs, hxs, Function.update_self]
    · rw [if_neg hxs, Function.update_of_ne hxs, h.hosts.get? x hx]
  · by_cases hxs : x = sid
    · rw [hxs, Function.update_self]
      exact hnode
    · rw [Function.update_of_ne hxs]
      exact h.hosts.mem_nodes x hx
  · rw [Dict.mem_insert, Dict.mem_insert]
    by_cases hxs : x = sid
    · exact .inl (by rw [hxs, Function.update_self])
    · rw [Function.update_of_ne hxs]
      exact .inr (.inr (h.committed x hx))
  · rw [hostedLoad_update hsid, Dict.getD_insert, Dict.getD_insert, Dict.getD_insert, hload, hload,
      hold']
    by_cases h₁ : nid = node.nodeId
    · subst h₁
      rw [if_pos rfl, if_pos rfl]
      split
      · next h₂ => rw [h₂]; ring
      · ring
    · rw [if_neg h₁, if_neg h₁]
      split
      · next h₂ => rw [h₂]; ring
      · ring

variable (governance) in
/-- One attempt to move a sibling: it stays when there is no alternative. -/
theorem redistributeSibling_spec {host : StageId → ExecutionUnit} {s : Placement × Dict NodeId ℚ}
    (h : OnHosts dag topology host s) {sid : StageId} (hsid : sid ∈ dag.stages) :
    (∃ node, LeastLoaded dag topology governance host sid node ∧
      ∃ s', redistributeSibling dag topology governance (host sid).nodeId s sid = .ok s' ∧
        OnHosts dag topology (Function.update host sid node) s') ∨
    redistributeSibling dag topology governance (host sid).nodeId s sid = .ok s ∧
      ∀ node, ¬ Alternative dag topology governance host sid node := by
  obtain ⟨p, committed⟩ := s
  obtain ⟨stage, hget, hstage, hdemand⟩ := getStage_of_mem hsid
  have hload : ∀ nid, committed.getD nid 0 = hostedLoad dag host dag.stages.keys nid := h.load
  -- the candidates that the loop does not pass over are the alternatives
  let cost : ExecutionUnit → WithTop ℚ := fun node =>
    if node.nodeId = (host sid).nodeId then ⊤
    else if ! isNodeFeasibleSimple stage node governance then ⊤
    else if node.capacity - node.currentLoad - committed.getD node.nodeId 0 <
      stage.computationalDemand - tolerance then ⊤
    else (committed.getD node.nodeId 0 : ℚ)
  have hcost : ∀ node ∈ topology.nodes, (¬ Alternative dag topology governance host sid node ∧
      cost node = ⊤) ∨ (Alternative dag topology governance host sid node ∧
      cost node = (hostedLoad dag host dag.stages.keys node.nodeId : ℚ)) := by
    intro node hnode
    simp only [cost, hload]
    split_ifs with h₁ h₂ h₃
    · exact .inl ⟨fun ha => ha.ne h₁, rfl⟩
    · exact .inl ⟨fun ha => by simp [ha.feasible stage hstage] at h₂, rfl⟩
    · refine .inl ⟨fun ha => ?_, rfl⟩
      have := ha.room
      rw [hdemand, ExecutionUnit.residualCapacity] at this
      linarith
    · refine .inr ⟨⟨hnode, h₁, fun stage' hs => ?_, ?_⟩, rfl⟩
      · obtain rfl := Option.some.inj (hstage.symm.trans hs)
        simpa using h₂
      · rw [hdemand, ExecutionUnit.residualCapacity]
        linarith
  obtain ⟨best, hbest, hmin⟩ := firstMinM_spec (ε := PyError) (l := topology.nodes)
    (f := fun node : ExecutionUnit =>
      let current := committed.getD node.nodeId 0
      let residual := node.capacity - node.currentLoad - current
      if node.nodeId = (host sid).nodeId then return ⊤
      else if ! isNodeFeasibleSimple stage node governance then return ⊤
      else if residual < stage.computationalDemand - tolerance then return ⊤
      else return (current : WithTop ℚ)) (g := cost) fun node _ => by
        simp only [cost]
        split_ifs <;> rfl
  unfold redistributeSibling
  simp only [hget, bind, Except.bind, hbest]
  cases hb : best.2 with
  | none =>
    refine .inr ⟨rfl, fun node ha => ?_⟩
    rcases hcost node ha.mem with ⟨hna, -⟩ | ⟨-, hfin⟩
    · exact hna ha
    · rw [hmin.eq_top_of_none hb ha.mem] at hfin
      exact WithTop.top_ne_coe hfin
  | some node =>
    have hnode := hmin.mem hb
    obtain ⟨heq, hlt, -⟩ := hmin.attained node hb
    have halt : Alternative dag topology governance host sid node ∧
        cost node = (hostedLoad dag host dag.stages.keys node.nodeId : ℚ) :=
      (hcost node hnode).resolve_left fun hna => hlt.ne hna.2
    refine .inl ⟨node, ⟨halt.1, fun other ho => ?_⟩, ?_⟩
    · have hle := hmin.le other ho.mem
      rcases hcost other ho.mem with ⟨hna, -⟩ | ⟨-, hfin⟩
      · exact absurd ho hna
      · rw [heq, halt.2, hfin] at hle
        exact WithTop.coe_le_coe.mp hle
    · obtain ⟨oldNid, old, hplaced, hold, hmoved⟩ := h.move hsid hnode
      simp only [hplaced, hold]
      rw [← hdemand]
      exact ⟨_, rfl, hmoved⟩

/-! ## The loop nest -/

/-- The stage shares its host with another predecessor of the same stage. -/
def ColocatedSibling (dag : PipelineDAG) (host : StageId → ExecutionUnit) (sid : StageId) : Prop :=
  ∃ x, sid ∈ dag.predecessors x ∧
    ∃ u ∈ dag.predecessors x, u ≠ sid ∧ (host u).nodeId = (host sid).nodeId

variable (dag topology governance) in
/-- The pass after it has attempted to move the stages of `touched`. -/
structure Pass (host : StageId → ExecutionUnit) (touched : List StageId)
    (s : Placement × Dict NodeId ℚ) (moves : List Move) (now : StageId → ExecutionUnit) : Prop where
  run : PassRun dag topology governance host moves now
  onHosts : OnHosts dag topology now s
  touched : ∀ m ∈ moves, m.stage ∈ touched
  colocated : ∀ m ∈ moves, ColocatedSibling dag host m.stage

variable {host : StageId → ExecutionUnit} {touched : List StageId} {s : Placement × Dict NodeId ℚ}

theorem Pass.mono {moves : List Move} {now : StageId → ExecutionUnit}
    (h : Pass dag topology governance host touched s moves now) {touched' : List StageId}
    (hsub : touched ⊆ touched') : Pass dag topology governance host touched' s moves now :=
  { h with touched := fun m hm => hsub (h.touched m hm) }

/-- One attempt of the pass. -/
theorem Pass.attempt {sid : StageId}
    (h : ∃ moves now, Pass dag topology governance host touched s moves now)
    (hsid : sid ∈ dag.stages) (hnew : sid ∉ touched) (hcol : ColocatedSibling dag host sid) :
    ∃ s', redistributeSibling dag topology governance (host sid).nodeId s sid = .ok s' ∧
      ∃ moves now, Pass dag topology governance host (touched ++ [sid]) s' moves now := by
  obtain ⟨moves, now, h⟩ := h
  have hhost : now sid = host sid := h.run.host_eq fun m hm hs => hnew (hs ▸ h.touched m hm)
  rw [← hhost]
  rcases redistributeSibling_spec governance h.onHosts hsid with
    ⟨node, hleast, s', hok, hs'⟩ | ⟨hok, -⟩
  · refine ⟨s', hok, moves ++ [⟨now, sid, node⟩], _, h.run.concat hleast, hs', ?_, ?_⟩
    · intro m hm
      rcases List.mem_append.mp hm with hm | hm
      · exact List.mem_append_left _ (h.touched m hm)
      · simp [List.mem_singleton.mp hm]
    · intro m hm
      rcases List.mem_append.mp hm with hm | hm
      · exact h.colocated m hm
      · exact List.mem_singleton.mp hm ▸ hcol
  · exact ⟨s, hok, moves, now, h.mono (List.subset_append_left _ _)⟩

/-- The group of the predecessors of one stage that are on one node. -/
theorem redistributeGroup_spec (nid : NodeId) {l : List StageId} (x : StageId)
    (h : ∃ moves now, Pass dag topology governance host touched s moves now)
    (hnodup : l.Nodup) (hl : ∀ y ∈ l, y ∈ dag.stages ∧ y ∈ dag.predecessors x ∧
      (host y).nodeId = nid ∧ y ∉ touched) :
    ∃ s', redistributeGroup dag topology governance s (nid, l) = .ok s' ∧
      ∃ moves now, Pass dag topology governance host (touched ++ l) s' moves now := by
  unfold redistributeGroup
  by_cases hlen : l.length ≤ 1
  · rw [if_pos hlen]
    obtain ⟨moves, now, h⟩ := h
    exact ⟨s, rfl, moves, now, h.mono (List.subset_append_left _ _)⟩
  rw [if_neg hlen]
  have hkeyed : l.mapM (fun sid => do
      return (-(← dag.getStage sid).computationalDemand, sid) : StageId → Except PyError (ℚ × StageId)) =
      .ok (l.map fun sid => (-dag.demand sid, sid)) := by
    refine mapM_eq_ok fun y hy => ?_
    obtain ⟨stage, hget, -, hdemand⟩ := getStage_of_mem (hl y hy).1
    rw [hget, hdemand]
    rfl
  simp only [bind, Except.bind] at hkeyed ⊢
  rw [hkeyed]
  set colocated := ((l.map fun sid => (-dag.demand sid, sid)).insertionSort
    fun a b => a.1 ≤ b.1).map Prod.snd with hcolocated
  have hperm : colocated.Perm l := by
    have := ((l.map fun sid => (-dag.demand sid, sid)).perm_insertionSort
      fun a b => a.1 ≤ b.1).map Prod.snd
    simpa [Function.comp_def] using this
  cases hsorted : colocated with
  | nil =>
    rw [hsorted] at hperm
    simp [← hperm.length_eq] at hlen
  | cons first others =>
    rw [hsorted] at hperm
    have hnd : (first :: others).Nodup := hperm.nodup_iff.mpr hnodup
    rw [List.nodup_cons] at hnd
    obtain ⟨s', hs', moves, now, hpass⟩ := foldlM_scan_ok (l := others) (b := s)
      (f := redistributeSibling dag topology governance nid)
      (P := fun done s => ∃ moves now,
        Pass dag topology governance host (touched ++ done) s moves now)
      (by simpa using h) (by
      intro done y rest s hsplit hpass
      have hy : y ∈ l := hperm.mem_iff.mp (by simp [hsplit])
      obtain ⟨hstage, hpred, hnid, hfresh⟩ := hl y hy
      have hydone : y ∉ done := fun hm => by
        have := hnd.2
        rw [hsplit] at this
        exact (List.nodup_append.mp this).2.2 y hm y (by simp) rfl
      have hfirst : first ∈ l := hperm.mem_iff.mp (by simp)
      have hne : first ≠ y := fun h => hnd.1 (by simp [h, hsplit])
      have := Pass.attempt hpass hstage (by simp [hfresh, hydone])
        ⟨x, hpred, first, (hl first hfirst).2.1, hne, by rw [(hl first hfirst).2.2.1, hnid]⟩
      rwa [hnid, List.append_assoc] at this)
    refine ⟨s', ?_, moves, now, hpass.mono ?_⟩
    · change colocated.tail.foldlM (redistributeSibling dag topology governance nid) s = .ok s'
      rw [hsorted]
      exact hs'
    exact List.append_subset.mpr ⟨List.subset_append_left _ _, fun z hz =>
      List.mem_append_right _ (hperm.mem_iff.mp (List.mem_cons_of_mem _ hz))⟩

/-- Grouping by node: each group holds the predecessors on its node, in order. -/
theorem groupByNode_spec {p : Placement} {preds : List StageId}
    (hp : ∀ y ∈ preds, p.get? y = some (host y).nodeId) :
    ∃ groups, groupByNode p preds = .ok groups ∧
      ∀ nid, groups.getD nid [] = preds.filter fun y => (host y).nodeId = nid := by
  refine foldlM_scan_ok (P := fun done (groups : Dict NodeId (List StageId)) =>
    ∀ nid, groups.getD nid [] = done.filter fun y => (host y).nodeId = nid)
    (by simp [Dict.getD]) ?_
  intro done y rest groups hsplit hgroups
  rw [subscript_eq_ok_iff.mpr (hp y (by simp [hsplit]))]
  refine ⟨_, rfl, fun nid => ?_⟩
  rw [Dict.getD_insert, hgroups, hgroups, List.filter_append]
  by_cases hn : nid = (host y).nodeId
  · rw [if_pos hn, hn]
    simp
  · rw [if_neg hn]
    simp [Ne.symm hn]

/-- The groups of one stage, one after the other. -/
theorem redistributeStage_spec {x : StageId}
    (h : ∃ moves now, Pass dag topology governance host touched s moves now)
    (hpreds : (dag.predecessors x).Nodup)
    (hx : ∀ y ∈ dag.predecessors x, y ∈ dag.stages ∧ y ∉ touched) :
    ∃ s', redistributeStage dag topology governance s x = .ok s' ∧
      ∃ moves now,
        Pass dag topology governance host (touched ++ dag.predecessors x) s' moves now := by
  unfold redistributeStage
  by_cases hlen : (dag.predecessors x).length < 2
  · simp only [if_pos hlen]
    obtain ⟨moves, now, h⟩ := h
    exact ⟨s, rfl, moves, now, h.mono (List.subset_append_left _ _)⟩
  have hplaced : ∀ y ∈ dag.predecessors x, s.1.get? y = some (host y).nodeId := by
    obtain ⟨moves, now, h⟩ := h
    intro y hy
    obtain ⟨hstage, hfresh⟩ := hx y hy
    rw [h.onHosts.hosts.get? y hstage,
      h.run.host_eq fun m hm hs => hfresh (by rw [← hs]; exact h.touched m hm)]
  obtain ⟨groups, hgroups, hfilter⟩ := groupByNode_spec hplaced
  have hentry : ∀ nid l, (nid, l) ∈ groups.entries →
      l = (dag.predecessors x).filter fun y => (host y).nodeId = nid := by
    intro nid l he
    rw [← hfilter, Dict.getD, Dict.get?_eq_some_iff.mpr he]
    rfl
  simp only [if_neg hlen, hgroups, bind, Except.bind]
  obtain ⟨s', hs', moves, now, hpass⟩ := foldlM_scan_ok (l := groups.entries) (b := s)
    (f := redistributeGroup dag topology governance)
    (P := fun done s => ∃ moves now,
      Pass dag topology governance host (touched ++ done.flatMap Prod.snd) s moves now)
    (by simpa using h) (by
    rintro done ⟨nid, l⟩ rest s hsplit hpass
    have hl := hentry nid l (by simp [hsplit])
    have hsub : ∀ e ∈ done, ∀ z ∈ e.2, z ∈ dag.predecessors x ∧ (host z).nodeId = e.1 := by
      rintro ⟨nid', l'⟩ he z hz
      obtain rfl : l' = _ := hentry nid' l' (by simp [hsplit, he])
      simpa using hz
    have hmem : ∀ y ∈ l, y ∈ dag.predecessors x ∧ (host y).nodeId = nid := fun y hy => by
      rw [hl] at hy
      simpa using hy
    -- a stage of this group is in no earlier group, whose node is another
    have hfresh : ∀ y ∈ l, y ∉ done.flatMap Prod.snd := by
      intro y hy hm
      obtain ⟨⟨nid', l'⟩, he, hz⟩ := List.mem_flatMap.mp hm
      have hnid : nid' = nid := (hsub _ he y hz).2.symm.trans (hmem y hy).2
      have hkeys := groups.nodupKeys
      rw [hsplit, List.map_append, List.nodup_append] at hkeys
      exact hkeys.2.2 nid' (List.mem_map_of_mem (f := Prod.fst) he) nid (by simp) hnid
    have := redistributeGroup_spec nid (l := l) x hpass
      (hl ▸ hpreds.filter _) (fun y hy => by
        obtain ⟨hstage, hnew⟩ := hx y (hmem y hy).1
        refine ⟨hstage, (hmem y hy).1, (hmem y hy).2, ?_⟩
        rw [List.mem_append, not_or]
        exact ⟨hnew, hfresh y hy⟩)
    simpa [List.flatMap_append, List.append_assoc] using this)
  refine ⟨s', hs', moves, now, hpass.mono ?_⟩
  refine List.append_subset.mpr ⟨List.subset_append_left _ _, fun z hz => ?_⟩
  obtain ⟨⟨nid, l⟩, he, hz⟩ := List.mem_flatMap.mp hz
  rw [hentry nid l he] at hz
  exact List.mem_append_right _ (List.mem_filter.mp hz).1

variable (governance) in
/-- The pass never raises, and is a run of moves of co-located siblings. -/
theorem redistribute_run (hw : dag.WellFormed) (htree : dag.isTree = true) {order : List StageId}
    (hperm : order.Perm dag.stages.keys) {p : Placement} (hp : Hosts dag topology host p) :
    ∃ p' s moves now, redistribute dag topology governance order p = .ok p' ∧ s.1 = p' ∧
      Pass dag topology governance host (order.flatMap dag.predecessors) s moves now := by
  have hle := (PipelineDAG.isTree_iff.mp htree).1
  have hnodup : order.Nodup := hperm.nodup_iff.mpr dag.stages.keys_nodup
  have hunique : ∀ {y v v'}, y ∈ dag.predecessors v → y ∈ dag.predecessors v' → v = v' := by
    intro y v v' hv hv'
    rw [hw.mem_predecessors] at hv hv'
    obtain ⟨z, hz⟩ := List.length_eq_one_iff.mp (le_antisymm (hle y (hw.predecessor_mem hv))
      (List.length_pos_of_mem hv))
    rw [hz, List.mem_singleton] at hv hv'
    rw [hv, hv']
  obtain ⟨loads, hloads, honHosts⟩ := OnHosts.init hp
  obtain ⟨s, hs, moves, now, hpass⟩ := foldlM_scan_ok (l := order) (b := (p, loads))
    (f := redistributeStage dag topology governance)
    (P := fun done s => ∃ moves now,
      Pass dag topology governance host (done.flatMap dag.predecessors) s moves now)
    ⟨[], host, .nil host, honHosts, by simp, by simp⟩ (by
    intro done x rest s hsplit hpass
    have hxdone : x ∉ done := fun hm => by
      rw [hsplit] at hnodup
      exact (List.nodup_append.mp hnodup).2.2 x hm x (by simp) rfl
    have hother : ∀ v ∈ done, v ≠ x := fun v hv h => hxdone (h ▸ hv)
    have := redistributeStage_spec (x := x) hpass (hw.predecessors_nodup hle x) (by
      intro y hy
      refine ⟨hw.predecessor_mem (hw.mem_predecessors.mp hy), fun hm => ?_⟩
      obtain ⟨v, hv, hyv⟩ := List.mem_flatMap.mp hm
      exact hother v hv (hunique hyv hy))
    simpa [List.flatMap_append] using this)
  refine ⟨s.1, s, moves, now, ?_, rfl, hpass⟩
  unfold redistribute
  simp only [hloads, hs, bind, Except.bind]
  rfl

end NeuralPubSub
