-- SUMMARY: The heuristic baseline placements: locality, latency-greedy and spillover, and what each guarantees.
import NeuralPubSub.Broker.Placement.Greedy

open Base

/-!
# Heuristic baselines

`locality_placement`, `latency_greedy_placement` and `spillover_placement`. Each
goes through the stages in topological order with a ledger of its own, and
differs from the others in how it chooses the worker of a stage.
-/

namespace NeuralPubSub

variable (dag : PipelineDAG) (topology : NetworkTopology) (governance : GovernancePolicy)

/-! ## The common loop -/

/-- The test of all three: room beside the load committed so far, and the feasibility of the
stage on its own. -/
def canTake (additionalLoad : Dict NodeId ℚ) (stage : Stage) (worker : ExecutionUnit) : Bool :=
  let committed := additionalLoad.getD worker.nodeId 0
  let residual := worker.residualCapacity - committed
  residual ≥ stage.computationalDemand - tolerance && isNodeFeasibleSimple stage worker governance

/-- One iteration: `choose` finds the worker of the stage, or raises. -/
def placeStage
    (choose : Placement × Dict NodeId ℚ → StageId → Stage → Except PyError NodeId)
    (s : Placement × Dict NodeId ℚ) (stageId : StageId) :
    Except PyError (Placement × Dict NodeId ℚ) := do
  let stage ← dag.getStage stageId
  let nid ← choose s stageId stage
  return (s.1.insert stageId nid, s.2.insert nid (s.2.getD nid 0 + stage.computationalDemand))

def placeStages
    (choose : Placement × Dict NodeId ℚ → StageId → Stage → Except PyError NodeId) :
    Except PyError Placement := do
  let order ← dag.topologicalSort
  let s ← order.foldlM (placeStage dag choose) (.empty, .empty)
  return s.1

/-! ## The three solvers -/

def localWorkers (localDomain : DomainId) : List ExecutionUnit :=
  topology.nodes.filter fun n => n.domainId = localDomain

def remoteWorkers (localDomain : DomainId) : List ExecutionUnit :=
  topology.nodes.filter fun n => n.domainId ≠ localDomain

def chooseLocal (localDomain : DomainId) (s : Placement × Dict NodeId ℚ) (stageId : StageId)
    (stage : Stage) : Except PyError NodeId :=
  match (localWorkers topology localDomain).find? (canTake governance s.2 stage) with
  | some worker => .ok worker.nodeId
  | none =>
    .error (.runtime s!"No feasible local worker for stage '{stageId}' in domain '{localDomain}'.")

def localityPlacement (localDomain : DomainId) : Except PyError Placement :=
  if localWorkers topology localDomain = [] then
    .error (.runtime s!"No workers in local domain '{localDomain}' for locality placement.")
  else placeStages dag (chooseLocal topology governance localDomain)

def chooseSpillover (localDomain : DomainId) (s : Placement × Dict NodeId ℚ) (stageId : StageId)
    (stage : Stage) : Except PyError NodeId :=
  match (localWorkers topology localDomain).find? (canTake governance s.2 stage) with
  | some worker => .ok worker.nodeId
  | none =>
    match (remoteWorkers topology localDomain).find? (canTake governance s.2 stage) with
    | some worker => .ok worker.nodeId
    | none =>
      .error (.runtime s!"No feasible worker for stage '{stageId}' in spillover placement.")

def spilloverPlacement (localDomain : DomainId) : Except PyError Placement :=
  placeStages dag (chooseSpillover topology governance localDomain)

/-- The latencies from the predecessors placed so far. -/
def latencySum (placement : Placement) (preds : List StageId) (nid : NodeId) : Except PyError ℚ :=
  preds.foldlM (fun latSum predId =>
    match placement.get? predId with
    | some predNodeId => return latSum + (← topology.latency predNodeId nid)
    | none => return latSum) 0

/-- The worker's own compute time for the stage type, if available. -/
def ownComputeTime (node : ExecutionUnit) (stageType : String) : ℚ :=
  (node.computeTimes.bind fun times => times.get? stageType).getD 0

/-- One candidate of the loop over the nodes; ties go to the lower node id. -/
def considerNode (preds : List StageId) (s : Placement × Dict NodeId ℚ) (stage : Stage)
    (best : WithTop ℚ × Option NodeId) (node : ExecutionUnit) :
    Except PyError (WithTop ℚ × Option NodeId) := do
  if ! canTake governance s.2 stage node then return best
  let netSum ← latencySum topology s.1 preds node.nodeId
  let latSum := netSum + ownComputeTime node stage.stageType
  if (latSum : WithTop ℚ) < best.1 ∨ latSum = best.1 ∧ best.2.all (node.nodeId < ·) then
    return (latSum, some node.nodeId)
  else return best

def chooseLowestLatency (s : Placement × Dict NodeId ℚ) (stageId : StageId) (stage : Stage) :
    Except PyError NodeId := do
  let best ← topology.nodes.foldlM
    (considerNode topology governance (dag.predecessors stageId) s stage) (⊤, none)
  match best.2 with
  | some bestNode => return bestNode
  | none =>
    .error (.runtime s!"No feasible worker for stage '{stageId}' in latency-greedy placement.")

def latencyGreedyPlacement : Except PyError Placement :=
  placeStages dag (chooseLowestLatency dag topology governance)

/-! ## What the loop guarantees -/

variable {dag topology governance} {localDomain : DomainId}

theorem canTake_iff {additionalLoad : Dict NodeId ℚ} {stage : Stage} {worker : ExecutionUnit} :
    canTake governance additionalLoad stage worker = true ↔
      additionalLoad.getD worker.nodeId 0 + stage.computationalDemand ≤
        worker.residualCapacity + tolerance ∧
      isNodeFeasibleSimple stage worker governance = true := by
  simp only [canTake, Bool.and_eq_true, decide_eq_true_eq]
  refine and_congr_left fun _ => ?_
  constructor <;> intro h <;> linarith

variable (topology governance) in
/-- The worker that is chosen passes the test. -/
def TestsChoice
    (choose : Placement × Dict NodeId ℚ → StageId → Stage → Except PyError NodeId) : Prop :=
  ∀ s stageId stage nid, choose s stageId stage = .ok nid →
    ∃ node ∈ topology.nodes, node.nodeId = nid ∧ canTake governance s.2 stage node = true

variable (dag topology governance) in
/-- The loop has put the stages of `done` on their hosts, each as `choose` would have it. -/
structure ChosenAlong
    (choose : Placement × Dict NodeId ℚ → StageId → Stage → Except PyError NodeId)
    (host : StageId → ExecutionUnit) (done : List StageId) (s : Placement × Dict NodeId ℚ) :
    Prop where
  placed : PlacedAlong dag topology host done s
  keys : s.1.keys = done
  chosen : ∀ pre sid post, done = pre ++ sid :: post → ∃ t stage,
    dag.stage? sid = some stage ∧ pre.foldlM (placeStage dag choose) (.empty, .empty) = .ok t ∧
    PlacedAlong dag topology host pre t ∧ choose t sid stage = .ok (host sid).nodeId ∧
    canTake governance t.2 stage (host sid) = true

variable {choose : Placement × Dict NodeId ℚ → StageId → Stage → Except PyError NodeId}

theorem placeStage_eq_ok {s s' : Placement × Dict NodeId ℚ} {sid : StageId}
    (h : placeStage dag choose s sid = .ok s') :
    ∃ stage nid, dag.stage? sid = some stage ∧ choose s sid stage = .ok nid ∧
      s' = (s.1.insert sid nid, s.2.insert nid (s.2.getD nid 0 + stage.computationalDemand)) := by
  rcases bind_eq_ok_iff.mp h with ⟨stage, hget, h⟩
  rcases bind_eq_ok_iff.mp h with ⟨nid, hnid, h⟩
  cases h
  exact ⟨stage, nid, subscript_eq_ok_iff.mp hget, hnid, rfl⟩

theorem ChosenAlong.concat {done : List StageId} {s s' : Placement × Dict NodeId ℚ}
    (htests : TestsChoice topology governance choose)
    (h : ∃ host, ChosenAlong dag topology governance choose host done s)
    (hrun : done.foldlM (placeStage dag choose) (.empty, .empty) = .ok s) {sid : StageId}
    (hnew : sid ∉ done) (hstep : placeStage dag choose s sid = .ok s') :
    ∃ host, ChosenAlong dag topology governance choose host (done ++ [sid]) s' := by
  rcases h with ⟨host, h⟩
  rcases placeStage_eq_ok hstep with ⟨stage, nid, hstage, hnid, rfl⟩
  rcases htests s sid stage nid hnid with ⟨node, hnode, rfl, htest⟩
  have hsame : ∀ x ∈ done, Function.update host sid node x = host x := by
    intro x hx
    apply Function.update_of_ne
    rintro rfl
    exact hnew hx
  have hself : Function.update host sid node sid = node := Function.update_self ..
  have hplaced := h.placed.congr hsame
  refine ⟨Function.update host sid node, ?_, ?_, ?_⟩
  · have hconcat := hplaced.concat hstage (hself.symm ▸ hnode)
    rwa [hself] at hconcat
  · have hkey : sid ∉ s.1 := by rwa [Dict.mem_iff_mem_keys, h.keys]
    rw [Dict.keys_insert_of_not_mem _ hkey, h.keys]
  · intro pre x post hl
    rcases exists_split_concat (P := fun pre' => pre' = pre) |>.mp ⟨pre, post, hl, rfl⟩ with
      ⟨pre', post', hdone, rfl⟩ | ⟨rfl, rfl⟩
    · rcases h.chosen pre' x post' hdone with ⟨t, stage', hstage', ht, htplaced, hchoose, htest'⟩
      have hx : x ∈ done := by simp [hdone]
      refine ⟨t, stage', hstage', ht, ?_, ?_⟩
      · exact htplaced.congr fun y hy => hsame y (by simp [hdone, hy])
      · rw [hsame x hx]
        exact ⟨hchoose, htest'⟩
    · rw [hself]
      exact ⟨s, stage, hstage, hrun, hplaced, hnid, htest⟩

/-- What a solver has done once it has returned. -/
theorem placeStages_chosen (hbuilt : dag.Built) (htests : TestsChoice topology governance choose)
    {p : Placement} (hp : placeStages dag choose = .ok p) :
    ∃ order s host, dag.topologicalSort = .ok order ∧ order.Perm dag.stages.keys ∧
      order.foldlM (placeStage dag choose) (.empty, .empty) = .ok s ∧ s.1 = p ∧
      ChosenAlong dag topology governance choose host order s := by
  rcases hbuilt.wellFormed.topologicalSort_eq with ⟨order, horder, hperm, -⟩
  have hnodup : order.Nodup := hperm.nodup_iff.mpr dag.stages.keys_nodup
  unfold placeStages at hp
  rw [horder] at hp
  rcases bind_eq_ok_iff.mp hp with ⟨order', horder', hp⟩
  cases horder'
  rcases bind_eq_ok_iff.mp hp with ⟨s, hs, hp⟩
  cases hp
  have hscan := foldlM_scan_returned
    (P := fun done s => done.foldlM (placeStage dag choose) (.empty, .empty) = .ok s ∧
      ∃ host, ChosenAlong dag topology governance choose host done s)
    ⟨rfl, fun _ => ⟨"", "", "", 0, 0, none⟩, placedAlong_nil, rfl, by simp⟩ ?_ hs
  · rcases hscan.2 with ⟨host, hchosen⟩
    exact ⟨order, s, host, horder, hperm, hs, rfl, hchosen⟩
  · intro done sid rest s s' hl hdone hstep
    rw [hl, List.nodup_append] at hnodup
    refine ⟨?_, ChosenAlong.concat htests hdone.2 hdone.1 ?_ hstep⟩
    · rw [List.foldlM_append, hdone.1]
      exact bind_eq_ok_iff.mpr ⟨s, rfl, bind_eq_ok_iff.mpr ⟨s', hstep, rfl⟩⟩
    · exact fun hmem => hnodup.2.2 sid hmem sid (by simp) rfl

theorem ChosenAlong.hosts {host : StageId → ExecutionUnit} {order : List StageId}
    {s : Placement × Dict NodeId ℚ}
    (h : ChosenAlong dag topology governance choose host order s)
    (hperm : order.Perm dag.stages.keys) : Hosts dag topology host s.1 where
  mem_iff sid := by
    rw [Dict.mem_iff_mem_keys, h.keys, hperm.mem_iff]
    rfl
  get? sid hsid := by rw [h.placed.get?, if_pos (hperm.mem_iff.mpr hsid)]
  mem_nodes sid hsid := h.placed.mem_nodes sid (hperm.mem_iff.mpr hsid)

theorem ChosenAlong.allowed {host : StageId → ExecutionUnit} {order : List StageId}
    {s : Placement × Dict NodeId ℚ}
    (h : ChosenAlong dag topology governance choose host order s)
    (hperm : order.Perm dag.stages.keys) {sid : StageId} {stage : Stage}
    (hstage : dag.stage? sid = some stage) : stage.allowedOn (host sid) := by
  have hsid : sid ∈ order := hperm.mem_iff.mpr (Dict.mem_of_get?_eq_some hstage)
  rcases List.append_of_mem hsid with ⟨pre, post, hl⟩
  rcases h.chosen pre sid post hl with ⟨t, stage', hstage', -, -, -, htest⟩
  cases hstage.symm.trans hstage'
  exact ((isNodeFeasibleSimple_iff _ _ _).mp (canTake_iff.mp htest).2).2

/-- The last stage put on a node had room there, and no later stage adds to its load. -/
theorem ChosenAlong.capacity (hids : (topology.nodes.map (·.nodeId)).Nodup)
    {host : StageId → ExecutionUnit} {order : List StageId} {s : Placement × Dict NodeId ℚ}
    (h : ChosenAlong dag topology governance choose host order s) {sid : StageId}
    (hsid : sid ∈ order) : hostedLoad dag host order (host sid).nodeId ≤
      (host sid).residualCapacity + tolerance := by
  have hprefix : ∀ pre post, order = pre ++ post → ∀ x ∈ pre,
      hostedLoad dag host pre (host x).nodeId ≤ (host x).residualCapacity + tolerance := by
    intro pre
    induction pre using List.reverseRecOn with
    | nil => simp
    | append_singleton pre y ih =>
      intro post hl x hx
      have hl' : order = pre ++ y :: post := by simpa using hl
      rcases h.chosen pre y post hl' with ⟨t, stage, hstage, -, hplaced, -, htest⟩
      have hroom := (canTake_iff.mp htest).1
      rw [hplaced.load, ← PipelineDAG.demand_of_stage? hstage] at hroom
      rw [hostedLoad_append, hostedLoad_singleton]
      have hxNode := h.placed.mem_nodes x (by rw [hl]; exact List.mem_append_left _ hx)
      have hyNode := h.placed.mem_nodes y (by simp [hl'])
      by_cases hid : (host y).nodeId = (host x).nodeId
      · have heq : host y = host x := List.inj_on_of_nodup_map hids hyNode hxNode hid
        rw [if_pos hid, ← heq]
        exact hroom
      · have hne : x ≠ y := fun heq => hid (by rw [heq])
        rw [if_neg hid, add_zero]
        exact ih (y :: post) hl' x (by simpa [hne] using hx)
  exact hprefix order [] (by simp) sid hsid

/-! ## What the solvers guarantee -/

variable (topology governance localDomain) in
theorem mem_localWorkers {node : ExecutionUnit} :
    node ∈ localWorkers topology localDomain ↔
      node ∈ topology.nodes ∧ node.domainId = localDomain := by
  simp [localWorkers]

theorem chooseLocal_eq_ok {s : Placement × Dict NodeId ℚ} {sid : StageId} {stage : Stage}
    {nid : NodeId} (h : chooseLocal topology governance localDomain s sid stage = .ok nid) :
    ∃ node ∈ topology.nodes, node.domainId = localDomain ∧ node.nodeId = nid ∧
      canTake governance s.2 stage node = true := by
  unfold chooseLocal at h
  split at h
  · next worker hfind =>
    cases h
    have hmem := (mem_localWorkers topology localDomain).mp (List.mem_of_find?_eq_some hfind)
    exact ⟨worker, hmem.1, hmem.2, rfl, List.find?_some hfind⟩
  · cases h

theorem domainId_of_chooseLocal (hids : (topology.nodes.map (·.nodeId)).Nodup)
    {s : Placement × Dict NodeId ℚ} {sid : StageId} {stage : Stage} {node : ExecutionUnit}
    (h : chooseLocal topology governance localDomain s sid stage = .ok node.nodeId)
    (hnode : node ∈ topology.nodes) : node.domainId = localDomain := by
  rcases chooseLocal_eq_ok h with ⟨other, hother, hlocal, hid, -⟩
  rw [← List.inj_on_of_nodup_map hids hother hnode hid]
  exact hlocal

/-- A remote worker is chosen only when no local one passes the test. -/
theorem chooseSpillover_eq_ok {s : Placement × Dict NodeId ℚ} {sid : StageId} {stage : Stage}
    {nid : NodeId} (h : chooseSpillover topology governance localDomain s sid stage = .ok nid) :
    chooseLocal topology governance localDomain s sid stage = .ok nid ∨
    (∀ node ∈ topology.nodes, node.domainId = localDomain →
      canTake governance s.2 stage node ≠ true) ∧
    ∃ node ∈ topology.nodes, node.domainId ≠ localDomain ∧ node.nodeId = nid ∧
      canTake governance s.2 stage node = true := by
  unfold chooseSpillover at h
  unfold chooseLocal
  split at h
  · exact .inl h
  · next hnone =>
    split at h
    · next worker hfind =>
      cases h
      refine .inr ⟨fun node hnode hlocal => ?_, worker, ?_, ?_, rfl, List.find?_some hfind⟩
      · exact List.find?_eq_none.mp hnone node
          ((mem_localWorkers topology localDomain).mpr ⟨hnode, hlocal⟩)
      · exact (List.mem_filter.mp (List.mem_of_find?_eq_some hfind)).1
      · simpa using (List.mem_filter.mp (List.mem_of_find?_eq_some hfind)).2
    · cases h

theorem testsChoice_chooseLocal : TestsChoice topology governance
    (chooseLocal topology governance localDomain) := by
  intro s sid stage nid h
  rcases chooseLocal_eq_ok h with ⟨node, hnode, -, hid, htest⟩
  exact ⟨node, hnode, hid, htest⟩

theorem testsChoice_chooseSpillover : TestsChoice topology governance
    (chooseSpillover topology governance localDomain) := by
  intro s sid stage nid h
  cases chooseSpillover_eq_ok h with
  | inl hlocal => exact testsChoice_chooseLocal s sid stage nid hlocal
  | inr hremote =>
    rcases hremote.2 with ⟨node, hnode, -, hid, htest⟩
    exact ⟨node, hnode, hid, htest⟩

theorem testsChoice_chooseLowestLatency : TestsChoice topology governance
    (chooseLowestLatency dag topology governance) := by
  intro s sid stage nid h
  rcases bind_eq_ok_iff.mp h with ⟨best, hbest, h⟩
  have hscan := foldlM_scan_returned
    (P := fun (_ : List ExecutionUnit) (best : WithTop ℚ × Option NodeId) =>
      ∀ nid, best.2 = some nid → ∃ node ∈ topology.nodes,
        node.nodeId = nid ∧ canTake governance s.2 stage node = true)
    (by simp) ?_ hbest
  · split at h
    · next bestNode hnid =>
      cases h
      exact hscan _ hnid
    · cases h
  · intro done node rest best best' hl hP hstep
    unfold considerNode at hstep
    split at hstep
    · cases hstep
      exact hP
    · next htest =>
      rcases bind_eq_ok_iff.mp hstep with ⟨netSum, -, hstep⟩
      simp only at hstep
      split at hstep
      · cases hstep
        intro nid' hnid'
        cases hnid'
        exact ⟨node, by simp [hl], rfl, by simpa using htest⟩
      · cases hstep
        exact hP

variable (dag topology) in
/-- A placement of every stage, on nodes that allow them and have room for all they take. -/
structure SoundPlacement (host : StageId → ExecutionUnit) (p : Placement) : Prop where
  hosts : Hosts dag topology host p
  allowed : ∀ sid stage, dag.stage? sid = some stage → stage.allowedOn (host sid)
  capacity : CapacityRespected dag host

theorem ChosenAlong.sound (hids : (topology.nodes.map (·.nodeId)).Nodup)
    {host : StageId → ExecutionUnit} {order : List StageId} {s : Placement × Dict NodeId ℚ}
    (h : ChosenAlong dag topology governance choose host order s)
    (hperm : order.Perm dag.stages.keys) : SoundPlacement dag topology host s.1 where
  hosts := h.hosts hperm
  allowed _ _ hstage := h.allowed hperm hstage
  capacity sid hsid := by
    rw [← hostedLoad_perm dag host hperm]
    exact h.capacity hids (hperm.mem_iff.mpr hsid)

theorem localityPlacement_hosts (hbuilt : dag.Built)
    (hids : (topology.nodes.map (·.nodeId)).Nodup) {p : Placement}
    (hp : localityPlacement dag topology governance localDomain = .ok p) :
    ∃ host, SoundPlacement dag topology host p ∧
      ∀ sid ∈ dag.stages, (host sid).domainId = localDomain := by
  unfold localityPlacement at hp
  split at hp
  · cases hp
  · rcases placeStages_chosen hbuilt testsChoice_chooseLocal hp with
      ⟨order, s, host, -, hperm, -, rfl, hchosen⟩
    refine ⟨host, hchosen.sound hids hperm, fun sid hsid => ?_⟩
    rcases List.append_of_mem (hperm.mem_iff.mpr hsid) with ⟨pre, post, hl⟩
    rcases hchosen.chosen pre sid post hl with ⟨t, stage, -, -, -, hlocal, -⟩
    exact domainId_of_chooseLocal hids hlocal ((hchosen.hosts hperm).mem_nodes sid hsid)

/-- The placements of the three solvers are sound. Locality uses local nodes only, and
spillover a remote one only for a stage that no local node could take at its turn. -/
theorem heuristics_sound (hbuilt : dag.Built) (hids : (topology.nodes.map (·.nodeId)).Nodup)
    (governance : GovernancePolicy) (localDomain : DomainId) (p : Placement) :
    (localityPlacement dag topology governance localDomain = .ok p →
      ∃ host, SoundPlacement dag topology host p ∧
        ∀ sid ∈ dag.stages, (host sid).domainId = localDomain) ∧
    (latencyGreedyPlacement dag topology governance = .ok p →
      ∃ host, SoundPlacement dag topology host p) ∧
    (spilloverPlacement dag topology governance localDomain = .ok p →
      ∃ host order, SoundPlacement dag topology host p ∧ dag.topologicalSort = .ok order ∧
        ∀ done sid rest stage, order = done ++ sid :: rest → dag.stage? sid = some stage →
          (host sid).domainId ≠ localDomain → ∀ worker ∈ topology.nodes,
            worker.domainId = localDomain →
            ¬ (isNodeFeasibleSimple stage worker governance = true ∧
              hostedLoad dag host done worker.nodeId + stage.computationalDemand ≤
                worker.residualCapacity + tolerance)) := by
  refine ⟨localityPlacement_hosts hbuilt hids, fun hp => ?_, fun hp => ?_⟩
  · rcases placeStages_chosen hbuilt testsChoice_chooseLowestLatency hp with
      ⟨order, s, host, -, hperm, -, rfl, hchosen⟩
    exact ⟨host, hchosen.sound hids hperm⟩
  · rcases placeStages_chosen hbuilt testsChoice_chooseSpillover hp with
      ⟨order, s, host, horder, hperm, -, rfl, hchosen⟩
    refine ⟨host, order, hchosen.sound hids hperm, horder, ?_⟩
    intro done sid rest stage hl hstage hremote worker hworker hlocal hfits
    rcases hchosen.chosen done sid rest hl with ⟨t, stage', hstage', -, hplaced, hchoose, -⟩
    cases hstage.symm.trans hstage'
    have hsid : sid ∈ dag.stages := Dict.mem_of_get?_eq_some hstage
    cases chooseSpillover_eq_ok hchoose with
    | inl hlocal' =>
      apply hremote
      exact domainId_of_chooseLocal hids hlocal' ((hchosen.hosts hperm).mem_nodes sid hsid)
    | inr hnone =>
      apply hnone.1 worker hworker hlocal
      rw [canTake_iff, hplaced.load]
      exact ⟨hfits.2, hfits.1⟩

private def spillDag : PipelineDAG :=
  .ofLists [⟨"a", "sense", 1, 1, none, none, none⟩, ⟨"b", "fuse", 1, 1, none, none, none⟩]
      [⟨"a", "b", 10⟩]

private def spillTopology : NetworkTopology where
  nodes := [⟨"n1", "d1", "s1", 1, 0, none⟩, ⟨"n2", "d2", "s1", 2, 0, none⟩]
  latencyMatrix := .ofList [(("n1", "n2"), 5)]

/-- The second stage finds the local node full and goes to the other domain. -/
theorem heuristics_sound_spill :
    spilloverPlacement spillDag spillTopology {} "d1" = .ok (.ofList [("a", "n1"), ("b", "n2")]) ∧
    ∃ host, SoundPlacement spillDag spillTopology host (.ofList [("a", "n1"), ("b", "n2")]) := by
  have hp : spilloverPlacement spillDag spillTopology {} "d1" =
      .ok (.ofList [("a", "n1"), ("b", "n2")]) := by decide +kernel
  refine ⟨hp, ?_⟩
  rcases (heuristics_sound (PipelineDAG.built_ofLists _ _) (by decide +kernel) {} "d1"
    (.ofList [("a", "n1"), ("b", "n2")])).2.2 hp with ⟨host, -, hsound, -⟩
  exact ⟨host, hsound⟩

/-! ## Spillover refines locality -/

/-- Where locality finds a worker, spillover takes the same. -/
theorem chooseSpillover_of_chooseLocal {s : Placement × Dict NodeId ℚ} {sid : StageId}
    {stage : Stage} {nid : NodeId}
    (h : chooseLocal topology governance localDomain s sid stage = .ok nid) :
    chooseSpillover topology governance localDomain s sid stage = .ok nid := by
  unfold chooseLocal at h
  unfold chooseSpillover
  split at h
  · exact h
  · cases h

/-- Two loops agree as far as the second chooses what the first has chosen. -/
theorem foldlM_placeStage_congr
    {choose' : Placement × Dict NodeId ℚ → StageId → Stage → Except PyError NodeId}
    {order : List StageId} {s : Placement × Dict NodeId ℚ}
    (hrun : order.foldlM (placeStage dag choose) (.empty, .empty) = .ok s)
    (hsame : ∀ pre sid post t stage nid, order = pre ++ sid :: post →
      pre.foldlM (placeStage dag choose) (.empty, .empty) = .ok t →
      dag.stage? sid = some stage → choose t sid stage = .ok nid → choose' t sid stage = .ok nid) :
    order.foldlM (placeStage dag choose') (.empty, .empty) = .ok s := by
  have hextend : ∀ {c} {done : List StageId} {sid : StageId} {t t' : Placement × Dict NodeId ℚ},
      done.foldlM (placeStage dag c) (.empty, .empty) = .ok t → placeStage dag c t sid = .ok t' →
      (done ++ [sid]).foldlM (placeStage dag c) (.empty, .empty) = .ok t' := by
    intro c done sid t t' hdone hstep
    rw [List.foldlM_append, hdone]
    exact bind_eq_ok_iff.mpr ⟨t, rfl, bind_eq_ok_iff.mpr ⟨t', hstep, rfl⟩⟩
  refine (foldlM_scan_returned
    (P := fun done t => done.foldlM (placeStage dag choose) (.empty, .empty) = .ok t ∧
      done.foldlM (placeStage dag choose') (.empty, .empty) = .ok t) ⟨rfl, rfl⟩ ?_ hrun).2
  intro done sid rest t t' hl hdone hstep
  refine ⟨hextend hdone.1 hstep, hextend hdone.2 ?_⟩
  rcases placeStage_eq_ok hstep with ⟨stage, nid, hstage, hnid, rfl⟩
  have hnid' := hsame done sid rest t stage nid hl hdone.1 hstage hnid
  exact bind_eq_ok_iff.mpr ⟨stage, subscript_eq_ok_iff.mpr hstage,
    bind_eq_ok_iff.mpr ⟨nid, hnid', rfl⟩⟩

theorem placeStages_eq_ok_iff {order : List StageId} (horder : dag.topologicalSort = .ok order)
    {p : Placement} : placeStages dag choose = .ok p ↔
      ∃ s, order.foldlM (placeStage dag choose) (.empty, .empty) = .ok s ∧ s.1 = p := by
  unfold placeStages
  rw [horder, bind_eq_ok_iff]
  constructor
  · rintro ⟨_, ⟨⟩, h⟩
    rcases bind_eq_ok_iff.mp h with ⟨s, hs, ⟨⟩⟩
    exact ⟨s, hs, rfl⟩
  · rintro ⟨s, hs, rfl⟩
    exact ⟨order, rfl, bind_eq_ok_iff.mpr ⟨s, hs, rfl⟩⟩

/-- Locality returns a placement exactly when spillover returns it and it stays within the
local domain. -/
theorem localityPlacement_eq_ok_iff (hbuilt : dag.Built) (hstages : dag.stages.keys ≠ [])
    (hids : (topology.nodes.map (·.nodeId)).Nodup) (p : Placement) :
    localityPlacement dag topology governance localDomain = .ok p ↔
      spilloverPlacement dag topology governance localDomain = .ok p ∧
      ∀ sid nid, p.get? sid = some nid →
        ∃ node ∈ topology.nodes, node.nodeId = nid ∧ node.domainId = localDomain := by
  constructor
  · intro hp
    have hsound := localityPlacement_hosts hbuilt hids hp
    unfold localityPlacement at hp
    split at hp
    · cases hp
    · rcases placeStages_chosen hbuilt testsChoice_chooseLocal hp with
        ⟨order, s, -, horder, -, hrun, hs, -⟩
      refine ⟨(placeStages_eq_ok_iff horder).mpr ⟨s, ?_, hs⟩, fun sid nid hget => ?_⟩
      · exact foldlM_placeStage_congr hrun fun _ _ _ _ _ _ _ _ _ => chooseSpillover_of_chooseLocal
      · rcases hsound with ⟨host, hplaced, hlocal⟩
        have hsid := (hplaced.hosts.mem_iff sid).mp (Dict.mem_of_get?_eq_some hget)
        have hhost := (hplaced.hosts.get? sid hsid).symm.trans hget
        exact ⟨host sid, hplaced.hosts.mem_nodes sid hsid, Option.some.inj hhost, hlocal sid hsid⟩
  · rintro ⟨hp, hlocal⟩
    rcases placeStages_chosen hbuilt testsChoice_chooseSpillover hp with
      ⟨order, s, host, horder, hperm, hrun, hs, hchosen⟩
    have hhosts := hchosen.hosts hperm
    -- every choice of the run is one of locality
    have hchoices : ∀ pre sid post t stage nid, order = pre ++ sid :: post →
        pre.foldlM (placeStage dag (chooseSpillover topology governance localDomain))
          (.empty, .empty) = .ok t →
        dag.stage? sid = some stage →
        chooseSpillover topology governance localDomain t sid stage = .ok nid →
        chooseLocal topology governance localDomain t sid stage = .ok nid := by
      intro pre sid post t stage nid hl ht hstage hnid
      rcases hchosen.chosen pre sid post hl with ⟨t', stage', hstage', ht', -, hchoose, -⟩
      cases hstage.symm.trans hstage'
      cases ht.symm.trans ht'
      cases hnid.symm.trans hchoose
      cases chooseSpillover_eq_ok hnid with
      | inl hfound => exact hfound
      | inr hremote =>
        have hget := hhosts.get? sid (Dict.mem_of_get?_eq_some hstage)
        rw [hs] at hget
        rcases hremote.2 with ⟨node, hnode, hother, hid, -⟩
        rcases hlocal sid _ hget with ⟨node', hnode', hid', hlocal'⟩
        rw [List.inj_on_of_nodup_map hids hnode hnode' (hid.trans hid'.symm)] at hother
        exact absurd hlocal' hother
    have hworkers : localWorkers topology localDomain ≠ [] := by
      cases hcases : order with
      | nil => exact absurd (List.nil_perm.mp (hcases ▸ hperm)) hstages
      | cons first rest =>
        rcases hchosen.chosen [] first rest hcases with ⟨t, stage, hstage, ht, -, hchoose, -⟩
        rcases chooseLocal_eq_ok (hchoices [] first rest t stage _ hcases ht hstage hchoose) with
          ⟨node, hnode, hlocal, -⟩
        exact List.ne_nil_of_mem ((mem_localWorkers topology localDomain).mpr ⟨hnode, hlocal⟩)
    unfold localityPlacement
    rw [if_neg hworkers, placeStages_eq_ok_iff horder]
    exact ⟨s, foldlM_placeStage_congr hrun hchoices, hs⟩

private def nearDag : PipelineDAG :=
  .ofLists [⟨"a", "sense", 1, 1, none, none, none⟩, ⟨"b", "filter", 1, 1, none, none, none⟩,
      ⟨"c", "fuse", 1, 1, none, none, none⟩] [⟨"a", "b", 10⟩, ⟨"b", "c", 10⟩]

private def nearTopology : NetworkTopology where
  nodes := [⟨"n1", "d1", "s1", 2, 0, none⟩, ⟨"n2", "d2", "s1", 4, 0, none⟩,
    ⟨"n3", "d1", "s1", 1, 0, none⟩]
  latencyMatrix := .empty

/-- The third stage finds `n1` full and takes the other local node. -/
theorem localityPlacement_near :
    localityPlacement nearDag nearTopology {} "d1" =
      .ok (.ofList [("a", "n1"), ("b", "n1"), ("c", "n3")]) := by
  apply (localityPlacement_eq_ok_iff (PipelineDAG.built_ofLists _ _) (by decide)
    (by decide +kernel) _).mpr
  refine ⟨by decide +kernel, fun sid nid hget => ?_⟩
  have hhost := Dict.mem_of_get?_ofList hget
  simp only [List.mem_cons, Prod.mk.injEq, List.not_mem_nil, or_false] at hhost
  have hlocal : nid = "n1" ∨ nid = "n3" := by tauto
  rcases hlocal with rfl | rfl
  · exact ⟨⟨"n1", "d1", "s1", 2, 0, none⟩, by decide +kernel, rfl, rfl⟩
  · exact ⟨⟨"n3", "d1", "s1", 1, 0, none⟩, by decide +kernel, rfl, rfl⟩

end NeuralPubSub
