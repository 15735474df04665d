-- SUMMARY: The placement constraints stated over host functions, and their agreement with the feasibility check.
import NeuralPubSub.Broker.Placement.Feasibility

open Base

/-!
# Placement constraints

What a placement means: a host for each stage. `Feasible` states the four
constraint families over hosts, and `checkFeasibility_iff` says that the whole
check accepts exactly the feasible placements.
-/

namespace NeuralPubSub

/-! ## Hosts -/

/-- `p` assigns to each stage of the DAG, and to nothing else, the node `host` names. -/
structure Hosts (dag : PipelineDAG) (topology : NetworkTopology) (host : StageId → ExecutionUnit)
    (p : Placement) : Prop where
  mem_iff : ∀ sid, sid ∈ p ↔ sid ∈ dag.stages
  get? : ∀ sid ∈ dag.stages, p.get? sid = some (host sid).nodeId
  mem_nodes : ∀ sid ∈ dag.stages, host sid ∈ topology.nodes

theorem Hosts.keys_perm {dag : PipelineDAG} {topology : NetworkTopology}
    {host : StageId → ExecutionUnit} {p : Placement} (h : Hosts dag topology host p) :
    p.keys.Perm dag.stages.keys :=
  (List.perm_ext_iff_of_nodup p.keys_nodup dag.stages.keys_nodup).mpr h.mem_iff

theorem Hosts.entries_eq {dag : PipelineDAG} {topology : NetworkTopology}
    {host : StageId → ExecutionUnit} {p : Placement} (h : Hosts dag topology host p) :
    p.entries = p.keys.map fun sid => (sid, (host sid).nodeId) := by
  rw [Dict.keys, List.map_map]
  refine (List.map_id' p.entries).symm.trans (List.map_congr_left ?_)
  rintro ⟨sid, nid⟩ he
  have hsid := (h.mem_iff sid).mp (Dict.mem_of_mem_entries he)
  have := (h.get? sid hsid).symm.trans (Dict.get?_eq_some_iff.mpr he)
  simp_all

/-- A total assignment of the stages of the DAG to nodes of the topology. -/
structure TotalAssignment (dag : PipelineDAG) (topology : NetworkTopology) (p : Placement) :
    Prop where
  mem_iff : ∀ sid, sid ∈ p ↔ sid ∈ dag.stages
  node : ∀ sid nid, p.get? sid = some nid → ∃ n ∈ topology.nodes, n.nodeId = nid

theorem TotalAssignment.exists_hosts {dag : PipelineDAG} {topology : NetworkTopology}
    {p : Placement} (h : TotalAssignment dag topology p) : ∃ host, Hosts dag topology host p := by
  have hhost : ∀ sid, ∃ n : ExecutionUnit, sid ∈ dag.stages →
      p.get? sid = some n.nodeId ∧ n ∈ topology.nodes := by
    intro sid
    by_cases hsid : sid ∈ dag.stages
    · obtain ⟨nid, hnid⟩ := Dict.exists_get?_of_mem ((h.mem_iff sid).mpr hsid)
      obtain ⟨n, hn, rfl⟩ := h.node sid nid hnid
      exact ⟨n, fun _ => ⟨hnid, hn⟩⟩
    · exact ⟨⟨"", "", "", 0, 0, none⟩, fun hs => absurd hs hsid⟩
  choose host hhost using hhost
  exact ⟨host, h.mem_iff, fun sid hs => (hhost sid hs).1, fun sid hs => (hhost sid hs).2⟩

/-- The computational demand of a stage of the DAG. -/
def PipelineDAG.demand (dag : PipelineDAG) (sid : StageId) : ℚ :=
  (dag.stage? sid).elim 0 (·.computationalDemand)

theorem PipelineDAG.demand_of_stage? {dag : PipelineDAG} {sid : StageId} {stage : Stage}
    (h : dag.stage? sid = some stage) : dag.demand sid = stage.computationalDemand := by
  rw [PipelineDAG.demand, h]
  rfl

/-- The demand that the stages in `l` put on a node. -/
def hostedLoad (dag : PipelineDAG) (host : StageId → ExecutionUnit) (l : List StageId)
    (nid : NodeId) : ℚ :=
  ((l.filter fun sid => (host sid).nodeId = nid).map dag.demand).sum

@[simp] theorem hostedLoad_nil (dag : PipelineDAG) (host : StageId → ExecutionUnit) (nid : NodeId) :
    hostedLoad dag host [] nid = 0 := rfl

theorem hostedLoad_append (dag : PipelineDAG) (host : StageId → ExecutionUnit)
    (l l' : List StageId) (nid : NodeId) :
    hostedLoad dag host (l ++ l') nid = hostedLoad dag host l nid + hostedLoad dag host l' nid := by
  simp [hostedLoad]

theorem hostedLoad_singleton (dag : PipelineDAG) (host : StageId → ExecutionUnit) (sid : StageId)
    (nid : NodeId) :
    hostedLoad dag host [sid] nid = if (host sid).nodeId = nid then dag.demand sid else 0 := by
  unfold hostedLoad
  split <;> simp_all

theorem hostedLoad_perm (dag : PipelineDAG) (host : StageId → ExecutionUnit) {l l' : List StageId}
    (h : l.Perm l') (nid : NodeId) : hostedLoad dag host l nid = hostedLoad dag host l' nid :=
  ((h.filter _).map _).sum_eq

theorem hostedLoad_congr (dag : PipelineDAG) {host host' : StageId → ExecutionUnit}
    {l : List StageId} (h : ∀ sid ∈ l, host sid = host' sid) (nid : NodeId) :
    hostedLoad dag host l nid = hostedLoad dag host' l nid := by
  unfold hostedLoad
  rw [List.filter_congr fun sid hsid => by rw [h sid hsid]]

def PipelineDAG.NonnegDemands (dag : PipelineDAG) : Prop :=
  ∀ sid stage, dag.stage? sid = some stage → 0 ≤ stage.computationalDemand

instance (dag : PipelineDAG) : Decidable dag.NonnegDemands :=
  decidable_of_iff (∀ e ∈ dag.stages.entries, 0 ≤ e.2.computationalDemand)
    ⟨fun h sid stage hs => h (sid, stage) (Dict.get?_eq_some_iff.mp hs),
      fun h e he => h e.1 e.2 (Dict.get?_eq_some_iff.mpr he)⟩

theorem PipelineDAG.NonnegDemands.demand_nonneg {dag : PipelineDAG} (h : dag.NonnegDemands)
    (sid : StageId) : 0 ≤ dag.demand sid := by
  unfold PipelineDAG.demand
  cases hs : dag.stage? sid with
  | none => exact le_refl _
  | some stage => exact h sid stage hs

theorem hostedLoad_nonneg {dag : PipelineDAG} (h : dag.NonnegDemands)
    (host : StageId → ExecutionUnit) (l : List StageId) (nid : NodeId) :
    0 ≤ hostedLoad dag host l nid := by
  refine List.sum_nonneg fun d hd => ?_
  obtain ⟨sid, -, rfl⟩ := List.mem_map.mp hd
  exact h.demand_nonneg sid

/-! ## Constraints -/

/-- The edge keeps its latency bound, and its endpoints trust each other. -/
def EdgeAllowed (topology : NetworkTopology) (governance : GovernancePolicy) (edge : Edge)
    (src tgt : ExecutionUnit) : Prop :=
  topology.latencyOf src.nodeId tgt.nodeId ≤ edge.latencyBound + tolerance ∧
    governance.trusts src.domainId tgt.domainId = true

/-- Slice and sovereignty, the constraints on one stage and its host. -/
def Stage.allowedOn (stage : Stage) (node : ExecutionUnit) : Prop :=
  sliceMatches node.sliceId stage.sliceRequirement = true ∧ stage.outsideDomain node.domainId = false

def CapacityRespected (dag : PipelineDAG) (host : StageId → ExecutionUnit) : Prop :=
  ∀ sid ∈ dag.stages, hostedLoad dag host dag.stages.keys (host sid).nodeId ≤
    (host sid).residualCapacity + tolerance

def EdgesRespected (dag : PipelineDAG) (topology : NetworkTopology) (governance : GovernancePolicy)
    (host : StageId → ExecutionUnit) : Prop :=
  ∀ e ∈ dag.edges, EdgeAllowed topology governance e (host e.sourceId) (host e.targetId)

/-- All constraint classes hold of the hosts. -/
structure Feasible (dag : PipelineDAG) (topology : NetworkTopology) (governance : GovernancePolicy)
    (host : StageId → ExecutionUnit) : Prop where
  capacity : CapacityRespected dag host
  edges : EdgesRespected dag topology governance host
  allowed : ∀ sid stage, dag.stage? sid = some stage → stage.allowedOn (host sid)

theorem isNodeFeasibleSimple_iff (stage : Stage) (node : ExecutionUnit)
    (governance : GovernancePolicy) :
    isNodeFeasibleSimple stage node governance = true ↔
      stage.computationalDemand ≤ node.residualCapacity + tolerance ∧ stage.allowedOn node := by
  unfold isNodeFeasibleSimple Stage.allowedOn
  split_ifs <;> simp_all

/-! ## The whole check accepts the feasible placements -/

section Check

variable {dag : PipelineDAG} {topology : NetworkTopology} {governance : GovernancePolicy}
  {host : StageId → ExecutionUnit} {p : Placement}

/-- A collection is empty when every element passes. -/
theorem collect_spec {α : Type} {l : List α} {f : α → Except PyError (List Violation)}
    {P : α → Prop} (h : ∀ x ∈ l, ∃ vs, f x = .ok vs ∧ (vs = [] ↔ P x)) :
    ∃ vs, collect l f = .ok vs ∧ (vs = [] ↔ ∀ x ∈ l, P x) := by
  induction l with
  | nil => exact ⟨[], rfl, by simp⟩
  | cons x l ih =>
    obtain ⟨vs, hvs, hP⟩ := h x (by simp)
    obtain ⟨ws, hws, hall⟩ := ih fun y hy => h y (by simp [hy])
    refine ⟨vs ++ ws, ?_, by simp [hP, hall]⟩
    unfold collect at hws ⊢
    rw [List.mapM_cons, hvs]
    cases hm : l.mapM f with
    | error e => rw [hm] at hws; cases hws
    | ok wss =>
      rw [hm] at hws
      cases hws
      rfl

/-- Looking up a stage of the DAG never raises. -/
theorem getStage_of_mem {sid : StageId} (h : sid ∈ dag.stages) :
    ∃ stage, dag.getStage sid = .ok stage ∧ dag.stage? sid = some stage ∧
      dag.demand sid = stage.computationalDemand := by
  obtain ⟨stage, hstage⟩ := Dict.exists_get?_of_mem h
  have hget : dag.stage? sid = some stage := hstage
  exact ⟨stage, subscript_eq_ok_iff.mpr hstage, hget, PipelineDAG.demand_of_stage? hget⟩

theorem getStage_error_iff {sid : StageId} :
    (∃ e, dag.getStage sid = .error e) ↔ sid ∉ dag.stages.keys.toFinset := by
  unfold PipelineDAG.getStage subscript
  rw [List.mem_toFinset, ← Dict.mem_iff_mem_keys, ← Dict.get?_eq_none_iff]
  cases dag.stages.get? sid <;> simp

/-- The load table holds the load of each node that hosts a stage. -/
theorem nodeLoads_spec (h : Hosts dag topology host p) :
    ∃ loads, nodeLoads p dag = .ok loads ∧
      (∀ nid, nid ∈ loads ↔ ∃ sid ∈ dag.stages, (host sid).nodeId = nid) ∧
      ∀ nid, loads.getD nid 0 = hostedLoad dag host dag.stages.keys nid := by
  have hloop : ∃ loads, nodeLoads p dag = .ok loads ∧
      (∀ nid, nid ∈ loads ↔ ∃ sid ∈ p.keys, (host sid).nodeId = nid) ∧
      ∀ nid, loads.getD nid 0 = hostedLoad dag host p.keys nid := by
    unfold nodeLoads
    rw [h.entries_eq, List.foldlM_map]
    refine foldlM_scan_ok (P := fun done (loads : Dict NodeId ℚ) =>
      (∀ nid, nid ∈ loads ↔ ∃ sid ∈ done, (host sid).nodeId = nid) ∧
      ∀ nid, loads.getD nid 0 = hostedLoad dag host done nid) (by simp [Dict.getD]) ?_
    rintro done sid rest loads hkeys ⟨hmem, hload⟩
    have hsid : sid ∈ dag.stages := (h.mem_iff sid).mp (by
      rw [Dict.mem_iff_mem_keys, hkeys]; simp)
    obtain ⟨stage, hsub, -, hdemand⟩ := getStage_of_mem hsid
    refine ⟨_, by rw [hsub]; rfl, ?_, ?_⟩
    · intro nid
      rw [Dict.mem_insert, hmem]
      simp only [List.mem_append, List.mem_singleton, or_and_right, exists_or, exists_eq_left]
      rw [or_comm, eq_comm (a := nid)]
    · intro nid
      rw [Dict.getD_insert, hostedLoad_append, hostedLoad_singleton, hload, hload, hdemand]
      by_cases hn : nid = (host sid).nodeId
      · rw [if_pos hn, if_pos hn.symm, hn]
      · rw [if_neg hn, if_neg (Ne.symm hn), add_zero]
  obtain ⟨loads, hok, hmem, hload⟩ := hloop
  refine ⟨loads, hok, fun nid => ?_, fun nid => ?_⟩
  · rw [hmem]
    simp only [← Dict.mem_iff_mem_keys, h.mem_iff]
  · rw [hload, hostedLoad_perm dag host h.keys_perm]

theorem capacityViolations_spec (hc : topology.Complete) (h : Hosts dag topology host p)
    {loads : Dict NodeId ℚ}
    (hmem : ∀ nid, nid ∈ loads ↔ ∃ sid ∈ dag.stages, (host sid).nodeId = nid)
    (hload : ∀ nid, loads.getD nid 0 = hostedLoad dag host dag.stages.keys nid) :
    ∃ vs, capacityViolations topology loads = .ok vs ∧ (vs = [] ↔ CapacityRespected dag host) := by
  have hentry : ∀ e ∈ loads.entries, ∃ sid ∈ dag.stages, e = ((host sid).nodeId,
      hostedLoad dag host dag.stages.keys (host sid).nodeId) := by
    rintro ⟨nid, load⟩ he
    obtain ⟨sid, hsid, rfl⟩ := (hmem nid).mp (Dict.mem_of_mem_entries he)
    refine ⟨sid, hsid, ?_⟩
    rw [← hload, Dict.getD, Dict.get?_eq_some_iff.mpr he]
    rfl
  have hcollect := collect_spec (l := loads.entries) (f := fun e => do
      let node ← topology.getNode e.1
      if e.2 > node.residualCapacity + tolerance then
        return [.overloaded e.1 e.2 node.residualCapacity]
      else return [])
    (P := fun e => ∀ node ∈ topology.nodes, node.nodeId = e.1 →
      e.2 ≤ node.residualCapacity + tolerance) (by
    intro e he
    obtain ⟨sid, hsid, rfl⟩ := hentry e he
    have hnode := h.mem_nodes sid hsid
    have hP : (∀ node ∈ topology.nodes, node.nodeId = (host sid).nodeId →
        hostedLoad dag host dag.stages.keys (host sid).nodeId ≤ node.residualCapacity + tolerance) ↔
        hostedLoad dag host dag.stages.keys (host sid).nodeId ≤
          (host sid).residualCapacity + tolerance :=
      ⟨fun hall => hall _ hnode rfl,
        fun hle node hn hid => hc.eq_of_nodeId_eq hn hnode hid ▸ hle⟩
    dsimp only
    rw [hP, hc.getNode hnode]
    simp only [bind, Except.bind]
    split
    · next hover => exact ⟨_, rfl, by simpa using hover⟩
    · next hover => exact ⟨_, rfl, by simpa using hover⟩)
  obtain ⟨vs, hvs, hnil⟩ := hcollect
  refine ⟨vs, hvs, hnil.trans ⟨fun hall sid hsid => ?_, fun hcap e he => ?_⟩⟩
  · obtain ⟨load, hget⟩ := Dict.exists_get?_of_mem ((hmem _).mpr ⟨sid, hsid, rfl⟩)
    have := hall _ (Dict.get?_eq_some_iff.mp hget) (host sid) (h.mem_nodes sid hsid) rfl
    rwa [← hload, Dict.getD, hget]
  · obtain ⟨sid, hsid, rfl⟩ := hentry e he
    exact fun node hn hid =>
      hc.eq_of_nodeId_eq hn (h.mem_nodes sid hsid) hid ▸ hcap sid hsid

variable (governance) in
theorem edgeViolations_spec (hw : dag.WellFormed) (hc : topology.Complete)
    (h : Hosts dag topology host p) :
    ∃ vs, collect dag.edges (edgeViolations p topology governance) = .ok vs ∧
      (vs = [] ↔ EdgesRespected dag topology governance host) := by
  refine collect_spec fun e he => ?_
  have hs := hw.source_mem e he
  have ht := hw.target_mem e he
  have hsn := h.mem_nodes _ hs
  have htn := h.mem_nodes _ ht
  unfold edgeViolations
  rw [h.get? _ hs, h.get? _ ht]
  dsimp only
  rw [hc.latency_eq hsn htn, hc.getNode hsn, hc.getNode htn]
  refine ⟨_, rfl, ?_⟩
  simp only [List.append_eq_nil_iff, EdgeAllowed, GovernancePolicy.trusts]
  split_ifs <;> simp_all

variable (governance) in
/-- What the sovereignty and slice passes report for one stage. -/
theorem stageViolations_spec (hc : topology.Complete) (h : Hosts dag topology host p) :
    (∃ vs, collect p.entries (governanceViolations dag topology governance) = .ok vs ∧
      (vs = [] ↔ ∀ sid stage, dag.stage? sid = some stage →
        stage.outsideDomain (host sid).domainId = false)) ∧
    (∃ vs, collect p.entries (sliceViolations dag topology) = .ok vs ∧
      (vs = [] ↔ ∀ sid stage, dag.stage? sid = some stage →
        sliceMatches (host sid).sliceId stage.sliceRequirement = true)) := by
  -- both passes run over the entries, and each entry is a stage with its host
  have hentries : ∀ (P : Stage → ExecutionUnit → Prop),
      (∀ e ∈ p.entries, ∀ stage node, dag.stage? e.1 = some stage → host e.1 = node →
        P stage node) ↔ ∀ sid stage, dag.stage? sid = some stage → P stage (host sid) := by
    intro P
    constructor
    · intro hall sid stage hstage
      have hsid := Dict.mem_of_get?_eq_some hstage
      exact hall _ (Dict.get?_eq_some_iff.mp (h.get? sid hsid)) stage _ hstage rfl
    · intro hall e _ stage node hstage hnode
      exact hnode ▸ hall e.1 stage hstage
  have hlookup : ∀ e ∈ p.entries, ∃ stage, dag.getStage e.1 = .ok stage ∧
      dag.stage? e.1 = some stage ∧ topology.getNode e.2 = .ok (host e.1) := by
    rintro ⟨sid, nid⟩ he
    have hsid := (h.mem_iff sid).mp (Dict.mem_of_mem_entries he)
    obtain ⟨stage, hsub, hget, -⟩ := getStage_of_mem hsid
    have hnid : (host sid).nodeId = nid :=
      Option.some.inj ((h.get? sid hsid).symm.trans (Dict.get?_eq_some_iff.mpr he))
    exact ⟨stage, hsub, hget, hnid ▸ hc.getNode (h.mem_nodes sid hsid)⟩
  constructor
  · rw [← hentries fun stage node => stage.outsideDomain node.domainId = false]
    refine collect_spec fun e he => ?_
    obtain ⟨stage, hsub, hget, hnode⟩ := hlookup e he
    unfold governanceViolations
    rw [hsub, hnode]
    refine ⟨_, rfl, ?_⟩
    rw [hget]
    unfold Stage.outsideDomain
    cases hd : stage.dataSovereigntyDomain with
    | none => simp [hd]
    | some required =>
      by_cases hdom : required = (host e.1).domainId
      · simp [hd, hdom]
      · simp [hd, hdom, Ne.symm hdom]
  · rw [← hentries fun stage node => sliceMatches node.sliceId stage.sliceRequirement = true]
    refine collect_spec fun e he => ?_
    obtain ⟨stage, hsub, hget, hnode⟩ := hlookup e he
    unfold sliceViolations
    rw [hsub, hnode]
    simp only [bind, Except.bind]
    split
    · next hs => exact ⟨_, rfl, by simp [hget, hs]⟩
    · next hs => exact ⟨_, rfl, by simp [hget, hs]⟩

/-- The whole check returns, and it finds a violation unless the hosts are feasible. -/
theorem checkFeasibility_returns (governance : GovernancePolicy) (hw : dag.WellFormed)
    (hc : topology.Complete) (h : Hosts dag topology host p) :
    ∃ vs, checkFeasibility p dag topology governance = .ok (vs.length = 0, vs) ∧
      (vs = [] ↔ Feasible dag topology governance host) := by
  obtain ⟨loads, hloads, hmem, hload⟩ := nodeLoads_spec h
  obtain ⟨vs₁, h₁, hcap⟩ := capacityViolations_spec hc h hmem hload
  obtain ⟨vs₂, h₂, hedge⟩ := edgeViolations_spec governance hw hc h
  obtain ⟨⟨vs₃, h₃, hdom⟩, vs₄, h₄, hslice⟩ := stageViolations_spec governance hc h
  refine ⟨vs₁ ++ vs₂ ++ vs₃ ++ vs₄, ?_, ?_⟩
  · unfold checkFeasibility
    rw [hloads, h₂, h₃, h₄]
    simp only [bind, Except.bind, h₁]
    rfl
  · have hall : Feasible dag topology governance host ↔
        (CapacityRespected dag host ∧ EdgesRespected dag topology governance host) ∧
        (∀ sid stage, dag.stage? sid = some stage →
          stage.outsideDomain (host sid).domainId = false) ∧
        (∀ sid stage, dag.stage? sid = some stage →
          sliceMatches (host sid).sliceId stage.sliceRequirement = true) :=
      ⟨fun hf => ⟨⟨hf.capacity, hf.edges⟩, fun sid s hs => (hf.allowed sid s hs).2,
          fun sid s hs => (hf.allowed sid s hs).1⟩,
        fun ⟨⟨hcap, hedge⟩, hd, hs⟩ => ⟨hcap, hedge, fun sid s h => ⟨hs sid s h, hd sid s h⟩⟩⟩
    rw [hall, ← hcap, ← hedge, ← hdom, ← hslice]
    simp [and_assoc]

/-- The whole check accepts exactly the feasible placements. -/
theorem checkFeasibility_spec (hw : dag.WellFormed) (hc : topology.Complete)
    (h : Hosts dag topology host p) :
    checkFeasibility p dag topology governance = .ok (true, []) ↔
      Feasible dag topology governance host := by
  obtain ⟨vs, heq, hvs⟩ := checkFeasibility_returns governance hw hc h
  rw [heq, ← hvs]
  simp

end Check

end NeuralPubSub
