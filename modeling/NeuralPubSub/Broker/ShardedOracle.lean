-- SUMMARY: The sharded oracle: merging the shards' topologies, and when the merged decision is the centralised one.
import NeuralPubSub.Broker.Neural
import NeuralPubSub.Broker.Placement.DpSafety

open Base

/-!
# The sharded oracle

`src/broker/sharded_oracle_broker.py`, and the cross-shard latencies that
`NeuralBroker` supplies. The coordinator merges its own topology with the
snapshots of its peers and solves the placement over the merged one.
-/

namespace NeuralPubSub

/-! ## Merging -/

/-- The loop over the nodes of one shard. -/
def mergeNodes (mergedNodes : List ExecutionUnit) (topo : NetworkTopology) :
    Except PyError (List ExecutionUnit) :=
  topo.nodes.foldlM (fun mergedNodes node =>
    if node.nodeId ∈ mergedNodes.map (·.nodeId) then
      .error (.value s!"node_id collision across shards: '{node.nodeId}'")
    else return mergedNodes ++ [node]) mergedNodes

/-- `merge_topologies`. -/
def mergeTopologies (topologies : List NetworkTopology)
    (crossLatencies : Dict (NodeId × NodeId) ℚ) : Except PyError NetworkTopology := do
  let mergedNodes ← topologies.foldlM mergeNodes []
  let mergedLat := topologies.flatMap (·.latencyMatrix.entries) ++ crossLatencies.entries
  return { nodes := mergedNodes, latencyMatrix := .ofList mergedLat }

/-! ## Snapshots -/

/-- An entry of `nodes`; the last two keys may be missing. -/
structure SnapshotNode where
  nodeId : NodeId
  domainId : DomainId
  sliceId : SliceId
  capacity : ℚ
  currentLoad : Option ℚ := none
  computeTimes : Option (Dict String ℚ) := none

/-- An entry of `latency_matrix`. -/
structure SnapshotLatency where
  a : NodeId
  b : NodeId
  ms : ℚ

/-- An entry of `worker_urls`. -/
structure SnapshotUrl where
  nodeId : NodeId
  url : String

/-- The body of `GET /sharded-oracle/state`. -/
structure StateSnapshot where
  nodes : List SnapshotNode := []
  latencyMatrix : List SnapshotLatency := []
  workerUrls : List SnapshotUrl := []

def topologyToSnapshot (topo : NetworkTopology) (workerUrls : Dict NodeId String) :
    StateSnapshot where
  nodes := topo.nodes.map fun n =>
    { nodeId := n.nodeId
      domainId := n.domainId
      sliceId := n.sliceId
      capacity := n.capacity
      currentLoad := some n.currentLoad
      computeTimes := n.computeTimes }
  latencyMatrix := topo.latencyMatrix.entries.map fun e => { a := e.1.1, b := e.1.2, ms := e.2 }
  workerUrls := workerUrls.entries.map fun e => { nodeId := e.1, url := e.2 }

def snapshotToTopology (snap : StateSnapshot) : NetworkTopology where
  nodes := snap.nodes.map fun n =>
    { nodeId := n.nodeId
      domainId := n.domainId
      sliceId := n.sliceId
      capacity := n.capacity
      currentLoad := n.currentLoad.getD 0
      computeTimes := n.computeTimes }
  latencyMatrix := .ofList (snap.latencyMatrix.map fun e => ((e.a, e.b), e.ms))

def snapshotToWorkerUrls (snap : StateSnapshot) : Dict NodeId String :=
  .ofList (snap.workerUrls.map fun e => (e.nodeId, e.url))

/-- The coordinator reads off a snapshot what the state owner put into it. -/
theorem snapshot_round_trip (topo : NetworkTopology) (workerUrls : Dict NodeId String) :
    snapshotToTopology (topologyToSnapshot topo workerUrls) = topo ∧
      snapshotToWorkerUrls (topologyToSnapshot topo workerUrls) = workerUrls := by
  constructor
  · simp [snapshotToTopology, topologyToSnapshot, Function.comp_def]
  · simp [snapshotToWorkerUrls, topologyToSnapshot, Function.comp_def]

/-! ## Deciding -/

def decideGlobally (dag : PipelineDAG) (localTopology : NetworkTopology)
    (peerTopologies : List NetworkTopology) (crossLatencies : Dict (NodeId × NodeId) ℚ)
    (governance : GovernancePolicy) (w : Weights) : Except PyError Placement := do
  let mergedTopology ← mergeTopologies (localTopology :: peerTopologies) crossLatencies
  findPlacement dag mergedTopology governance w

namespace NeuralBroker

/-- The entry for a pair of nodes of different shards. -/
def crossEntry (a b : ExecutionUnit) : (NodeId × NodeId) × ℚ := ((a.nodeId, b.nodeId), 50)

/-- The pairs of peer-owned nodes that lie in different domains. -/
def peerPairs : List ExecutionUnit → List ((NodeId × NodeId) × ℚ)
  | [] => []
  | a :: rest =>
    (rest.filter fun b => a.domainId ≠ b.domainId).map (crossEntry a) ++ peerPairs rest

/-- `_cross_latencies`: 50 ms between every two nodes of different domains of which
a peer owns one. -/
def crossLatencies (topology : NetworkTopology) (peerTopologies : List NetworkTopology) :
    Dict (NodeId × NodeId) ℚ :=
  let peerNodes := peerTopologies.flatMap (·.nodes)
  .ofList ((topology.nodes.flatMap fun a =>
    (peerNodes.filter fun b => a.domainId ≠ b.domainId).map (crossEntry a)) ++ peerPairs peerNodes)

/-- The topology of a broker with these workers, in the order of their registration. -/
def topologyOf (workers : List WorkerInfo) : NetworkTopology :=
  (rebuildTopology { workers := .ofList (workers.map fun w => (w.nodeId, w)) }).topology

/-- What the coordinator of the shard `own` decides with the snapshots of its peers. -/
def shardedDecision (own : List WorkerInfo) (peers : List (List WorkerInfo)) (dag : PipelineDAG)
    (governance : GovernancePolicy) (w : Weights) : Except PyError Placement :=
  let snapshots := peers.map fun shard =>
    topologyToSnapshot (topologyOf shard) (.ofList (shard.map fun w => (w.nodeId, w.url)))
  let peerTopologies := snapshots.map snapshotToTopology
  decideGlobally dag (topologyOf own) peerTopologies (crossLatencies (topologyOf own) peerTopologies)
    governance w

/-- What one broker decides that holds all the workers. -/
def centralDecision (workers : List WorkerInfo) (dag : PipelineDAG) (governance : GovernancePolicy)
    (w : Weights) : Except PyError Placement :=
  findPlacement dag (topologyOf workers) governance w

end NeuralBroker

/-! ## The latencies of a broker's own workers -/

/-- What `_rebuild_topology` takes the latency of two workers to be. -/
def domainLatency (a b : ExecutionUnit) : ℚ := if a.domainId = b.domainId then 2 else 20

theorem domainLatency_le (a b : ExecutionUnit) : domainLatency a b ≤ 20 := by
  unfold domainLatency
  split <;> norm_num

theorem domainLatency_comm (a b : ExecutionUnit) : domainLatency a b = domainLatency b a := by
  simp [domainLatency, eq_comm]

/-- The matrix holds each pair of nodes once, in the order of the nodes. -/
def NetworkTopology.Meshed (t : NetworkTopology) : Prop :=
  ∀ e, e ∈ t.latencyMatrix.entries ↔
    ∃ a b, [a, b].Sublist t.nodes ∧ e = ((a.nodeId, b.nodeId), domainLatency a b)

namespace NeuralBroker

theorem mem_latencyPairs {workers : List WorkerInfo} {e : (NodeId × NodeId) × ℚ} :
    e ∈ latencyPairs workers ↔ ∃ a b, [a, b].Sublist (workers.map executionUnit) ∧
      e = ((a.nodeId, b.nodeId), domainLatency a b) := by
  induction workers with
  | nil => simp [latencyPairs]
  | cons w rest ih =>
    simp only [latencyPairs, List.mem_append, List.mem_map, ih, List.map_cons, List.sublist_cons_iff]
    constructor
    · rintro (⟨v, hv, rfl⟩ | ⟨a, b, hsub, rfl⟩)
      · refine ⟨executionUnit w, executionUnit v, .inr ⟨_, rfl, ?_⟩, rfl⟩
        exact List.singleton_sublist.mpr (List.mem_map_of_mem hv)
      · exact ⟨a, b, .inl hsub, rfl⟩
    · rintro ⟨a, b, hsub | ⟨r, heq, hsub⟩, rfl⟩
      · exact .inr ⟨a, b, hsub, rfl⟩
      · cases heq
        obtain ⟨v, hv, rfl⟩ := List.mem_map.mp (List.singleton_sublist.mp hsub)
        exact .inl ⟨v, hv, rfl⟩

theorem latencyPairs_nodup {workers : List WorkerInfo} (h : (workers.map (·.nodeId)).Nodup) :
    ((latencyPairs workers).map Prod.fst).Nodup := by
  induction workers with
  | nil => exact List.nodup_nil
  | cons w rest ih =>
    simp only [List.map_cons, List.nodup_cons] at h
    rw [latencyPairs, List.map_append, List.nodup_append]
    refine ⟨?_, ih h.2, ?_⟩
    · rw [List.map_map]
      have hinj : (rest.map (·.nodeId)).map (w.nodeId, ·) =
          rest.map (Prod.fst ∘ fun b => ((w.nodeId, b.nodeId),
            if w.domainId = b.domainId then (2 : ℚ) else 20)) := by
        simp [Function.comp_def]
      rw [← hinj]
      exact h.2.map fun x y hxy => (Prod.mk.inj hxy).2
    · rintro k hk k' hk' rfl
      obtain ⟨e, he, rfl⟩ := List.mem_map.mp hk
      obtain ⟨v, -, rfl⟩ := List.mem_map.mp he
      obtain ⟨e', he', heq⟩ := List.mem_map.mp hk'
      obtain ⟨a, b, hsub, rfl⟩ := mem_latencyPairs.mp he'
      have ha : a ∈ rest.map executionUnit := hsub.subset (by simp)
      obtain ⟨u, hu, rfl⟩ := List.mem_map.mp ha
      exact h.1 (List.mem_map.mpr ⟨u, hu, congrArg Prod.fst heq⟩)

variable {workers : List WorkerInfo}

theorem topologyOf_eq (h : (workers.map (·.nodeId)).Nodup) : topologyOf workers =
    { nodes := workers.map executionUnit, latencyMatrix := .ofList (latencyPairs workers) } := by
  have hkeys : ((workers.map fun w => (w.nodeId, w)).map Prod.fst).Nodup := by
    simpa [Function.comp_def] using h
  have hvalues : (Dict.ofList (workers.map fun w => (w.nodeId, w))).values = workers := by
    rw [Dict.values, Dict.entries_ofList _ hkeys]
    simp [Function.comp_def]
  simp only [topologyOf, rebuildTopology, hvalues]

theorem topologyOf_meshed (h : (workers.map (·.nodeId)).Nodup) : (topologyOf workers).Meshed := by
  intro e
  rw [topologyOf_eq h, Dict.entries_ofList _ (latencyPairs_nodup h)]
  exact mem_latencyPairs

end NeuralBroker

/-! ## Complete matrices -/

/-- A matrix that holds each pair in one order or the other, at a value that does
not depend on the order, makes the topology complete. -/
theorem NetworkTopology.complete_of_pairs {t : NetworkTopology}
    (hids : (t.nodes.map (·.nodeId)).Nodup) {value : ExecutionUnit → ExecutionUnit → ℚ}
    (hcomm : ∀ a b, value a b = value b a)
    (hvalue : ∀ a ∈ t.nodes, ∀ b ∈ t.nodes, ∀ l,
      t.latencyMatrix.get? (a.nodeId, b.nodeId) = some l → l = value a b)
    (hcover : ∀ a ∈ t.nodes, ∀ b ∈ t.nodes, a ≠ b →
      (a.nodeId, b.nodeId) ∈ t.latencyMatrix ∨ (b.nodeId, a.nodeId) ∈ t.latencyMatrix) :
    t.Complete ∧ ∀ a ∈ t.nodes, ∀ b ∈ t.nodes, a ≠ b → t.latencyOf a.nodeId b.nodeId = value a b := by
  have hlatency : ∀ a ∈ t.nodes, ∀ b ∈ t.nodes, a ≠ b →
      t.latency a.nodeId b.nodeId = .ok (value a b) := by
    intro a ha b hb hne
    have hid : a.nodeId ≠ b.nodeId := fun heq => hne (List.inj_on_of_nodup_map hids ha hb heq)
    rw [NetworkTopology.latency, if_neg hid]
    cases hab : t.latencyMatrix.get? (a.nodeId, b.nodeId) with
    | some l => rw [hvalue a ha b hb l hab]
    | none =>
      cases hba : t.latencyMatrix.get? (b.nodeId, a.nodeId) with
      | some l => rw [hvalue b hb a ha l hba, hcomm]
      | none =>
        cases hcover a ha b hb hne with
        | inl hmem => exact absurd hmem (Dict.get?_eq_none_iff.mp hab)
        | inr hmem => exact absurd hmem (Dict.get?_eq_none_iff.mp hba)
  refine ⟨⟨hids, ?_⟩, ?_⟩
  · intro a ha b hb
    by_cases heq : a = b
    · subst heq
      exact ⟨0, by simp [NetworkTopology.latency], by simp [NetworkTopology.latency]⟩
    · exact ⟨value a b, hlatency a ha b hb heq, hcomm b a ▸ hlatency b hb a ha (Ne.symm heq)⟩
  · intro a ha b hb hne
    rw [NetworkTopology.latencyOf, hlatency a ha b hb hne]
    rfl

theorem NetworkTopology.Meshed.complete {t : NetworkTopology} (h : t.Meshed)
    (hids : (t.nodes.map (·.nodeId)).Nodup) :
    t.Complete ∧
      ∀ a ∈ t.nodes, ∀ b ∈ t.nodes, a ≠ b → t.latencyOf a.nodeId b.nodeId = domainLatency a b := by
  apply t.complete_of_pairs hids domainLatency_comm
  · intro a ha b hb l hl
    obtain ⟨a', b', hsub, heq⟩ := (h _).mp (Dict.get?_eq_some_iff.mp hl)
    simp only [Prod.mk.injEq] at heq
    obtain rfl := List.inj_on_of_nodup_map hids ha (hsub.subset (by simp)) heq.1.1
    obtain rfl := List.inj_on_of_nodup_map hids hb (hsub.subset (by simp)) heq.1.2
    exact heq.2
  · intro a ha b hb hne
    exact (pair_sublist_or ha hb hne).imp
      (fun hsub => Dict.mem_of_mem_entries ((h _).mpr ⟨a, b, hsub, rfl⟩))
      fun hsub => Dict.mem_of_mem_entries ((h _).mpr ⟨b, a, hsub, rfl⟩)

/-! ## The merged topology -/

/-- A shard's nodes are appended, or one of them has the id of an earlier node. -/
theorem mergeNodes_cases {merged : List ExecutionUnit} {topo : NetworkTopology}
    (h : (merged.map (·.nodeId)).Nodup) :
    (∃ nodes, mergeNodes merged topo = .ok nodes ∧
      nodes = merged ++ topo.nodes ∧ (nodes.map (·.nodeId)).Nodup) ∨
    (∃ e, mergeNodes merged topo = .error e ∧
      (∃ msg, e = .value msg) ∧ ¬ ((merged ++ topo.nodes).map (·.nodeId)).Nodup) := by
  unfold mergeNodes
  apply foldlM_scan
    (P := fun done (nodes : List ExecutionUnit) =>
      nodes = merged ++ done ∧ (nodes.map (·.nodeId)).Nodup)
    (Q := fun e => (∃ msg, e = PyError.value msg) ∧ ¬ ((merged ++ topo.nodes).map (·.nodeId)).Nodup)
  · exact ⟨(List.append_nil _).symm, h⟩
  · rintro done node rest _ hsplit ⟨rfl, hdone⟩
    by_cases hseen : node.nodeId ∈ (merged ++ done).map (·.nodeId)
    · right
      refine ⟨_, if_pos hseen, ⟨_, rfl⟩, fun hnodup => ?_⟩
      rw [hsplit, ← List.append_assoc, List.map_append, List.map_cons] at hnodup
      exact (List.nodup_append.mp hnodup).2.2 _ hseen _ (by simp) rfl
    · left
      refine ⟨_, if_neg hseen, List.append_assoc .., ?_⟩
      rw [List.map_append]
      exact hdone.append (List.nodup_singleton _) (by simpa using hseen)

/-- Merging appends the nodes of all shards, or two of them have one id. -/
theorem mergeTopologies_cases (topologies : List NetworkTopology)
    (crossLatencies : Dict (NodeId × NodeId) ℚ) :
    (mergeTopologies topologies crossLatencies = .ok
      { nodes := topologies.flatMap (·.nodes)
        latencyMatrix :=
          .ofList (topologies.flatMap (·.latencyMatrix.entries) ++ crossLatencies.entries) } ∧
      ((topologies.flatMap (·.nodes)).map (·.nodeId)).Nodup) ∨
    ((∃ msg, mergeTopologies topologies crossLatencies = .error (.value msg)) ∧
      ¬ ((topologies.flatMap (·.nodes)).map (·.nodeId)).Nodup) := by
  have hloop := foldlM_scan (f := mergeNodes) (b := []) (l := topologies)
    (P := fun (done : List NetworkTopology) nodes =>
      nodes = done.flatMap (·.nodes) ∧ (nodes.map (·.nodeId)).Nodup)
    (Q := fun e => (∃ msg, e = PyError.value msg) ∧
      ¬ ((topologies.flatMap (·.nodes)).map (·.nodeId)).Nodup)
    ⟨rfl, List.nodup_nil⟩ (by
      rintro done topo rest _ hsplit ⟨rfl, hdone⟩
      cases @mergeNodes_cases _ topo hdone with
      | inl hok =>
        obtain ⟨nodes, hnodes, rfl, hnodup⟩ := hok
        exact .inl ⟨_, hnodes, by simp, hnodup⟩
      | inr herror =>
        obtain ⟨e, he, hvalue, hnodup⟩ := herror
        refine .inr ⟨e, he, hvalue, fun hall => hnodup ?_⟩
        rw [hsplit, List.flatMap_append, List.flatMap_cons, ← List.append_assoc,
          List.map_append] at hall
        exact (List.nodup_append.mp hall).1)
  cases hloop with
  | inl hok =>
    obtain ⟨nodes, hnodes, rfl, hnodup⟩ := hok
    left
    refine ⟨?_, hnodup⟩
    simp only [mergeTopologies, hnodes, bind, Except.bind, pure, Except.pure]
  | inr herror =>
    obtain ⟨e, he, ⟨msg, rfl⟩, hnodup⟩ := herror
    right
    refine ⟨⟨msg, ?_⟩, hnodup⟩
    simp only [mergeTopologies, he, bind, Except.bind]

/-- Without a collision of ids merging appends the nodes. -/
theorem mergeTopologies_eq {topologies : List NetworkTopology}
    {crossLatencies : Dict (NodeId × NodeId) ℚ}
    (h : ((topologies.flatMap (·.nodes)).map (·.nodeId)).Nodup) :
    mergeTopologies topologies crossLatencies = .ok
      { nodes := topologies.flatMap (·.nodes)
        latencyMatrix :=
          .ofList (topologies.flatMap (·.latencyMatrix.entries) ++ crossLatencies.entries) } := by
  cases mergeTopologies_cases topologies crossLatencies with
  | inl hok => exact hok.1
  | inr herror => exact absurd h herror.2

namespace NeuralBroker

theorem mem_peerPairs {nodes : List ExecutionUnit} {e : (NodeId × NodeId) × ℚ} :
    e ∈ peerPairs nodes ↔
      ∃ a b, [a, b].Sublist nodes ∧ a.domainId ≠ b.domainId ∧ e = crossEntry a b := by
  induction nodes with
  | nil => simp [peerPairs]
  | cons x rest ih =>
    simp only [peerPairs, List.mem_append, List.mem_map, List.mem_filter, decide_eq_true_eq, ih,
      List.sublist_cons_iff]
    constructor
    · rintro (⟨y, ⟨hy, hne⟩, rfl⟩ | ⟨a, b, hsub, hne, rfl⟩)
      · exact ⟨x, y, .inr ⟨_, rfl, List.singleton_sublist.mpr hy⟩, hne, rfl⟩
      · exact ⟨a, b, .inl hsub, hne, rfl⟩
    · rintro ⟨a, b, hsub | ⟨r, heq, hsub⟩, hne, rfl⟩
      · exact .inr ⟨a, b, hsub, hne, rfl⟩
      · cases heq
        exact .inl ⟨b, ⟨List.singleton_sublist.mp hsub, hne⟩, rfl⟩

section Merged

variable {own : NetworkTopology} {peers : List NetworkTopology}

/-- Two nodes of different domains of which a peer owns one. -/
def Crosses (peers : List NetworkTopology) (a b : ExecutionUnit) : Prop :=
  a.domainId ≠ b.domainId ∧ (a ∈ peers.flatMap (·.nodes) ∨ b ∈ peers.flatMap (·.nodes))

instance (a b : ExecutionUnit) : Decidable (Crosses peers a b) :=
  inferInstanceAs (Decidable (_ ∧ (_ ∨ _)))

theorem mem_crossLatencies {k : NodeId × NodeId} {l : ℚ}
    (h : (crossLatencies own peers).get? k = some l) :
    l = 50 ∧ ∃ a b, a ∈ own.nodes ++ peers.flatMap (·.nodes) ∧ b ∈ peers.flatMap (·.nodes) ∧
      a.domainId ≠ b.domainId ∧ k = (a.nodeId, b.nodeId) := by
  have hmem := Dict.mem_of_get?_ofList h
  simp only [List.mem_append, List.mem_flatMap, List.mem_map, List.mem_filter,
    decide_eq_true_eq, mem_peerPairs] at hmem
  obtain ⟨a, ha, b, ⟨⟨t, ht, hb⟩, hne⟩, heq⟩ | ⟨a, b, hsub, hne, heq⟩ := hmem
  · cases heq
    exact ⟨rfl, a, b, by simp [ha], List.mem_flatMap.mpr ⟨t, ht, hb⟩, hne, rfl⟩
  · cases heq
    exact ⟨rfl, a, b, List.mem_append_right _ (hsub.subset (by simp)), hsub.subset (by simp), hne,
      rfl⟩

theorem cross_mem_of_own {a b : ExecutionUnit} (ha : a ∈ own.nodes)
    (hb : b ∈ peers.flatMap (·.nodes)) (hne : a.domainId ≠ b.domainId) :
    (a.nodeId, b.nodeId) ∈ crossLatencies own peers := by
  refine Dict.mem_ofList.mpr (List.mem_map_of_mem (a := crossEntry a b) (List.mem_append_left _ ?_))
  simp only [List.mem_flatMap, List.mem_map, List.mem_filter, decide_eq_true_eq]
  exact ⟨a, ha, b, ⟨List.mem_flatMap.mp hb, hne⟩, rfl⟩

theorem cross_mem_of_peers {a b : ExecutionUnit} (hsub : [a, b].Sublist (peers.flatMap (·.nodes)))
    (hne : a.domainId ≠ b.domainId) : (a.nodeId, b.nodeId) ∈ crossLatencies own peers :=
  Dict.mem_ofList.mpr (List.mem_map_of_mem (a := crossEntry a b)
    (List.mem_append_right _ (mem_peerPairs.mpr ⟨a, b, hsub, hne, rfl⟩)))

/-- The shards: their nodes are pairwise different and their domains disjoint. -/
structure Sharded (own : NetworkTopology) (peers : List NetworkTopology) : Prop where
  meshed : ∀ t ∈ own :: peers, t.Meshed
  nodupIds : (((own :: peers).flatMap (·.nodes)).map (·.nodeId)).Nodup
  domains : (own :: peers).Pairwise fun s t =>
    ∀ a ∈ s.nodes, ∀ b ∈ t.nodes, a.domainId ≠ b.domainId

/-- The merged topology of disjoint shards. -/
def mergedTopology (own : NetworkTopology) (peers : List NetworkTopology) : NetworkTopology where
  nodes := (own :: peers).flatMap (·.nodes)
  latencyMatrix := .ofList ((own :: peers).flatMap (·.latencyMatrix.entries) ++
    (crossLatencies own peers).entries)

/-- The latency of two nodes after merging. -/
def mergedLatency (peers : List NetworkTopology) (a b : ExecutionUnit) : ℚ :=
  if Crosses peers a b then 50 else domainLatency a b

theorem mergedLatency_comm (a b : ExecutionUnit) :
    mergedLatency peers a b = mergedLatency peers b a := by
  have hiff : Crosses peers a b ↔ Crosses peers b a := by
    unfold Crosses
    rw [or_comm, ne_comm]
  rw [mergedLatency, mergedLatency, domainLatency_comm a b]
  exact if_congr hiff rfl rfl

/-- A node of the coordinator shares its domain with no peer-owned node. -/
theorem Sharded.own_ne_peer (h : Sharded own peers) {a b : ExecutionUnit} (ha : a ∈ own.nodes)
    (hb : b ∈ peers.flatMap (·.nodes)) : a.domainId ≠ b.domainId := by
  obtain ⟨t, ht, hb⟩ := List.mem_flatMap.mp hb
  exact (List.pairwise_cons.mp h.domains).1 t ht a ha b hb

theorem Sharded.complete (h : Sharded own peers) : (mergedTopology own peers).Complete ∧
    ∀ a ∈ (mergedTopology own peers).nodes, ∀ b ∈ (mergedTopology own peers).nodes, a ≠ b →
      (mergedTopology own peers).latencyOf a.nodeId b.nodeId = mergedLatency peers a b := by
  have hsame : ∀ {a b : ExecutionUnit}, a ∈ (mergedTopology own peers).nodes →
      b ∈ (mergedTopology own peers).nodes → a.nodeId = b.nodeId → a = b :=
    fun ha hb heq => List.inj_on_of_nodup_map h.nodupIds ha hb heq
  have hnodes : (mergedTopology own peers).nodes = own.nodes ++ peers.flatMap (·.nodes) := rfl
  -- what a shard stores and the cross latencies leave alone does not cross
  have hshard : ∀ t ∈ own :: peers, ∀ a b, [a, b].Sublist t.nodes →
      (a.nodeId, b.nodeId) ∉ crossLatencies own peers → ¬ Crosses peers a b := by
    rintro t ht a b hsub hnone ⟨hne, hpeer⟩
    cases ht with
    | head =>
      have ha : a ∈ own.nodes := hsub.subset (by simp)
      have hb : b ∈ own.nodes := hsub.subset (by simp)
      cases hpeer with
      | inl hpeer => exact h.own_ne_peer ha hpeer rfl
      | inr hpeer => exact h.own_ne_peer hb hpeer rfl
    | tail _ ht =>
      have hflat : t.nodes.Sublist (peers.flatMap (·.nodes)) := by
        rw [List.flatMap]
        exact List.sublist_flatten_of_mem (List.mem_map_of_mem ht)
      exact hnone (cross_mem_of_peers (hsub.trans hflat) hne)
  apply (mergedTopology own peers).complete_of_pairs h.nodupIds mergedLatency_comm
  · intro a ha b hb l hl
    rw [mergedTopology, Dict.get?_ofList_append, Dict.ofList_entries] at hl
    cases hcross : (crossLatencies own peers).get? (a.nodeId, b.nodeId) with
    | some l' =>
      rw [hcross] at hl
      cases hl
      obtain ⟨rfl, a', b', ha', hb', hne, heq⟩ := mem_crossLatencies hcross
      simp only [Prod.mk.injEq] at heq
      obtain rfl := hsame ha (hnodes ▸ ha') heq.1
      obtain rfl := hsame hb (hnodes ▸ List.mem_append_right _ hb') heq.2
      rw [mergedLatency, if_pos ⟨hne, .inr hb'⟩]
    | none =>
      rw [hcross, Option.none_or] at hl
      obtain ⟨t, ht, he⟩ := List.mem_flatMap.mp (Dict.mem_of_get?_ofList hl)
      obtain ⟨a', b', hsub, heq⟩ := (h.meshed t ht _).mp he
      have hmem : ∀ x ∈ t.nodes, x ∈ (mergedTopology own peers).nodes :=
        fun x hx => List.mem_flatMap.mpr ⟨t, ht, hx⟩
      simp only [Prod.mk.injEq] at heq
      obtain rfl := hsame ha (hmem _ (hsub.subset (by simp))) heq.1.1
      obtain rfl := hsame hb (hmem _ (hsub.subset (by simp))) heq.1.2
      rw [mergedLatency, if_neg (hshard t ht a b hsub (Dict.get?_eq_none_iff.mp hcross)), heq.2]
  · intro a ha b hb hne
    have hcross : ∀ {x y : ExecutionUnit}, (x.nodeId, y.nodeId) ∈ crossLatencies own peers →
        (x.nodeId, y.nodeId) ∈ (mergedTopology own peers).latencyMatrix := by
      intro x y hmem
      rw [mergedTopology, Dict.mem_ofList, List.map_append]
      exact List.mem_append_right _ hmem
    have hstored : ∀ t ∈ own :: peers, a ∈ t.nodes → b ∈ t.nodes →
        (a.nodeId, b.nodeId) ∈ (mergedTopology own peers).latencyMatrix ∨
          (b.nodeId, a.nodeId) ∈ (mergedTopology own peers).latencyMatrix := by
      intro t ht ha hb
      have hentry : ∀ x y, [x, y].Sublist t.nodes →
          (x.nodeId, y.nodeId) ∈ (mergedTopology own peers).latencyMatrix := by
        intro x y hsub
        have he := List.mem_flatMap (f := fun t : NetworkTopology => t.latencyMatrix.entries).mpr
          ⟨t, ht, (h.meshed t ht _).mpr ⟨x, y, hsub, rfl⟩⟩
        rw [mergedTopology, Dict.mem_ofList, List.map_append]
        exact List.mem_append_left _ (List.mem_map_of_mem (f := Prod.fst) he)
      exact (pair_sublist_or ha hb hne).imp (hentry a b) (hentry b a)
    rw [hnodes] at ha hb
    cases List.mem_append.mp ha with
    | inl ha =>
      cases List.mem_append.mp hb with
      | inl hb => exact hstored own (by simp) ha hb
      | inr hb => exact .inl (hcross (cross_mem_of_own ha hb (h.own_ne_peer ha hb)))
    | inr ha =>
      cases List.mem_append.mp hb with
      | inl hb => exact .inr (hcross (cross_mem_of_own hb ha (h.own_ne_peer hb ha)))
      | inr hb =>
        by_cases hdom : a.domainId = b.domainId
        · -- peers that share a domain are the same peer
          obtain ⟨t, ht, ha⟩ := List.mem_flatMap.mp ha
          obtain ⟨t', ht', hb⟩ := List.mem_flatMap.mp hb
          obtain rfl : t = t' := by
            by_contra hne
            have hdomains := (List.pairwise_cons.mp h.domains).2
            cases pair_sublist_or ht ht' hne with
            | inl hsub => exact hdomains.forall_sublist hsub a ha b hb hdom
            | inr hsub => exact hdomains.forall_sublist hsub b hb a ha hdom.symm
          exact hstored t (List.mem_cons_of_mem _ ht) ha hb
        · exact (pair_sublist_or ha hb hne).imp (fun hsub => hcross (cross_mem_of_peers hsub hdom))
            fun hsub => hcross (cross_mem_of_peers hsub (Ne.symm hdom))

end Merged

/-! ## The two decisions -/

section Decisions

variable {own : List WorkerInfo} {peers : List (List WorkerInfo)} {dag : PipelineDAG}
  {governance : GovernancePolicy} {w : Weights}

/-- The workers of disjoint shards, partitioned by domain. -/
structure Partitioned (own : List WorkerInfo) (peers : List (List WorkerInfo)) : Prop where
  nodupIds : ((own ++ peers.flatten).map (·.nodeId)).Nodup
  domains : (own :: peers).Pairwise fun s t => ∀ a ∈ s, ∀ b ∈ t, a.domainId ≠ b.domainId

theorem Partitioned.nodup (h : Partitioned own peers) :
    ∀ shard ∈ own :: peers, (shard.map (·.nodeId)).Nodup := by
  intro shard hshard
  have hsub : shard.Sublist (own :: peers).flatten := List.sublist_flatten_of_mem hshard
  exact (hsub.map (·.nodeId)).nodup h.nodupIds

theorem Partitioned.nodes_eq (h : Partitioned own peers) {shard : List WorkerInfo}
    (hshard : shard ∈ own :: peers) : (topologyOf shard).nodes = shard.map executionUnit := by
  rw [topologyOf_eq (h.nodup shard hshard)]

theorem Partitioned.peerNodes_eq (h : Partitioned own peers) :
    (peers.map topologyOf).flatMap (·.nodes) = peers.flatten.map executionUnit := by
  rw [List.flatMap_map, List.flatMap,
    List.map_congr_left fun s hs => h.nodes_eq (List.mem_cons_of_mem _ hs)]
  exact (List.map_flatten ..).symm

/-- The nodes of all shards are those of a broker with all the workers. -/
theorem Partitioned.flatMap_nodes (h : Partitioned own peers) :
    (topologyOf own :: peers.map topologyOf).flatMap (·.nodes) =
      (own ++ peers.flatten).map executionUnit := by
  rw [List.flatMap_cons, h.peerNodes_eq, h.nodes_eq (by simp), List.map_append]

theorem Partitioned.sharded (h : Partitioned own peers) :
    Sharded (topologyOf own) (peers.map topologyOf) where
  meshed := by
    intro t ht
    rw [← List.map_cons] at ht
    obtain ⟨shard, hshard, rfl⟩ := List.mem_map.mp ht
    exact topologyOf_meshed (h.nodup shard hshard)
  nodupIds := by
    have hids : ((own ++ peers.flatten).map executionUnit).map (·.nodeId) =
        (own ++ peers.flatten).map (·.nodeId) := by
      rw [List.map_map]
      rfl
    rw [h.flatMap_nodes, hids]
    exact h.nodupIds
  domains := by
    rw [← List.map_cons, List.pairwise_map]
    refine h.domains.imp_of_mem ?_
    intro s t hs ht hst a ha b hb
    rw [h.nodes_eq hs] at ha
    rw [h.nodes_eq ht] at hb
    obtain ⟨u, hu, rfl⟩ := List.mem_map.mp ha
    obtain ⟨v, hv, rfl⟩ := List.mem_map.mp hb
    exact hst u hu v hv

/-- The shards come back from their snapshots as they were. -/
theorem map_snapshots (peers : List (List WorkerInfo)) :
    (peers.map fun shard => topologyToSnapshot (topologyOf shard)
      (.ofList (shard.map fun w => (w.nodeId, w.url)))).map snapshotToTopology =
      peers.map topologyOf := by
  rw [List.map_map]
  exact List.map_congr_left fun shard _ => (snapshot_round_trip _ _).1

theorem shardedDecision_eq (h : Partitioned own peers) :
    shardedDecision own peers dag governance w =
      findPlacement dag (mergedTopology (topologyOf own) (peers.map topologyOf)) governance w := by
  unfold shardedDecision decideGlobally
  simp only [map_snapshots, mergeTopologies_eq h.sharded.nodupIds, bind, Except.bind]
  rfl

/-! ### Agreement -/

theorem peerPairs_eq_nil {nodes : List ExecutionUnit}
    (h : ∀ a ∈ nodes, ∀ b ∈ nodes, a.domainId = b.domainId) : peerPairs nodes = [] := by
  refine List.eq_nil_iff_forall_not_mem.mpr fun e he => ?_
  obtain ⟨a, b, hsub, hne, -⟩ := mem_peerPairs.mp he
  exact hne (h a (hsub.subset (by simp)) b (hsub.subset (by simp)))

/-- If at most one shard has workers, its pairs are all the pairs. -/
theorem flatMap_latencyPairs {shards : List (List WorkerInfo)}
    (h : shards.Pairwise fun s t => s = [] ∨ t = []) :
    shards.flatMap latencyPairs = latencyPairs shards.flatten := by
  induction shards with
  | nil => rfl
  | cons s rest ih =>
    obtain ⟨hs, hrest⟩ := List.pairwise_cons.mp h
    rw [List.flatMap_cons, List.flatten_cons, ih hrest]
    cases s with
    | nil => rfl
    | cons a s =>
      have hnil : rest.flatten = [] :=
        List.flatten_eq_nil_iff.mpr fun t ht => (hs t ht).resolve_left (List.cons_ne_nil a s)
      rw [hnil, List.append_nil]
      exact List.append_nil _

/-- A peer-owned worker is in the domain of all workers: then the merged topology
is the one that a single broker builds. -/
theorem mergedTopology_eq (h : Partitioned own peers)
    (hone : ∀ b ∈ peers.flatten, ∀ a ∈ own ++ peers.flatten, a.domainId = b.domainId) :
    mergedTopology (topologyOf own) (peers.map topologyOf) = topologyOf (own ++ peers.flatten) := by
  have hdomain : ∀ b ∈ peers.flatten.map executionUnit,
      ∀ a ∈ (own ++ peers.flatten).map executionUnit, a.domainId = b.domainId := by
    intro b hb a ha
    obtain ⟨v, hv, rfl⟩ := List.mem_map.mp hb
    obtain ⟨u, hu, rfl⟩ := List.mem_map.mp ha
    exact hone v hv u hu
  have hcross : (crossLatencies (topologyOf own) (peers.map topologyOf)).entries = [] := by
    have hpairs : peerPairs (peers.flatten.map executionUnit) = [] :=
      peerPairs_eq_nil fun a ha b hb => hdomain b hb a (by simp_all)
    have hown : ((topologyOf own).nodes.flatMap fun a =>
        ((peers.flatten.map executionUnit).filter fun b => a.domainId ≠ b.domainId).map
          (crossEntry a)) = [] := by
      refine List.flatMap_eq_nil_iff.mpr fun a ha => List.map_eq_nil_iff.mpr ?_
      refine List.filter_eq_nil_iff.mpr fun b hb => ?_
      rw [h.nodes_eq (by simp)] at ha
      simpa using hdomain b hb a (by simp_all)
    rw [crossLatencies, h.peerNodes_eq, hpairs, hown]
    rfl
  have hempty : (own :: peers).Pairwise fun s t => s = [] ∨ t = [] := by
    have hdisjoint : ∀ s, (∀ a ∈ s, a ∈ own ++ peers.flatten) → ∀ t ∈ peers,
        (∀ a ∈ s, ∀ b ∈ t, a.domainId ≠ b.domainId) → s = [] ∨ t = [] := by
      intro s hs t ht hne
      cases s with
      | nil => exact .inl rfl
      | cons a s =>
        right
        refine List.eq_nil_iff_forall_not_mem.mpr fun b hb => hne a (by simp) b hb ?_
        exact hone b (List.mem_flatten_of_mem ht hb) a (hs a (by simp))
    obtain ⟨hown, hpeers⟩ := List.pairwise_cons.mp h.domains
    refine List.pairwise_cons.mpr ⟨fun t ht => ?_, hpeers.imp_of_mem fun hs ht => ?_⟩
    · exact hdisjoint own (fun a ha => by simp [ha]) t ht (hown t ht)
    · exact hdisjoint _ (fun a ha => List.mem_append_right _ (List.mem_flatten_of_mem hs ha)) _ ht
  have hentries : (topologyOf own :: peers.map topologyOf).flatMap (·.latencyMatrix.entries) =
      latencyPairs (own ++ peers.flatten) := by
    rw [← List.map_cons, List.flatMap_map]
    have hshard : ∀ s ∈ own :: peers, (topologyOf s).latencyMatrix.entries = latencyPairs s := by
      intro s hs
      rw [topologyOf_eq (h.nodup s hs), Dict.entries_ofList _ (latencyPairs_nodup (h.nodup s hs))]
    rw [List.flatMap, List.map_congr_left hshard]
    exact flatMap_latencyPairs hempty
  rw [mergedTopology, h.flatMap_nodes, hentries, hcross, List.append_nil, topologyOf_eq h.nodupIds]

/-! ### Disagreement -/

/-- Two stages of which one must run in the domain `da` and the other in `db`, at
most 30 ms apart. -/
def spanDag (da db : DomainId) (demandA demandB : ℚ) : PipelineDAG :=
  .ofLists
    [⟨"a", "sense", demandA, 1, none, some da, none⟩, ⟨"b", "fuse", demandB, 1, none, some db, none⟩]
    [⟨"a", "b", 30⟩]

/-- The two domains trust each other. -/
def spanGovernance (da db : DomainId) : GovernancePolicy := { trustLevels := .ofList [((da, db), 1)] }

theorem spanDag_stages (da db : DomainId) (demandA demandB : ℚ) :
    (spanDag da db demandA demandB).stages.entries =
      [("a", ⟨"a", "sense", demandA, 1, none, some da, none⟩),
        ("b", ⟨"b", "fuse", demandB, 1, none, some db, none⟩)] :=
  rfl

theorem spanDag_edges (da db : DomainId) (demandA demandB : ℚ) :
    (spanDag da db demandA demandB).edges = [⟨"a", "b", 30⟩] := rfl

theorem spanDag_built (da db : DomainId) (demandA demandB : ℚ) :
    (spanDag da db demandA demandB).Built := PipelineDAG.built_ofLists _ _

theorem spanDag_isTree (da db : DomainId) (demandA demandB : ℚ) :
    (spanDag da db demandA demandB).isTree = true := rfl

section Span

variable {topology : NetworkTopology} {da db : DomainId} {demandA demandB : ℚ}

/-- The stage runs in its sovereignty domain on a node with room for it. -/
theorem spanStage_feasible {id stageType : String} {demand : ℚ} {domainId : DomainId}
    {node : ExecutionUnit} :
    isNodeFeasibleSimple ⟨id, stageType, demand, 1, none, some domainId, none⟩ node governance = true ↔
      demand ≤ node.residualCapacity + tolerance ∧ domainId = node.domainId := by
  rw [isNodeFeasibleSimple_iff]
  simp [Stage.allowedOn, sliceMatches, Stage.outsideDomain]

theorem spanDag_placed (hc : topology.Complete) {x y : ExecutionUnit} (hx : x ∈ topology.nodes)
    (hy : y ∈ topology.nodes) (hxa : demandA ≤ x.residualCapacity + tolerance)
    (hyb : demandB ≤ y.residualCapacity + tolerance)
    (hnear : topology.latencyOf x.nodeId y.nodeId ≤ 30 + tolerance) :
    ∃ p, findPlacement (spanDag x.domainId y.domainId demandA demandB) topology
      (spanGovernance x.domainId y.domainId) w = .ok p := by
  have hadm : Admissible (spanDag x.domainId y.domainId demandA demandB) topology
      (spanGovernance x.domainId y.domainId) fun sid => if sid = "a" then x else y := by
    constructor
    · intro sid _
      split
      · exact hx
      · exact hy
    · intro sid stage hstage
      have hmem := Dict.get?_eq_some_iff.mp hstage
      rw [spanDag_stages] at hmem
      simp only [List.mem_cons, List.not_mem_nil, or_false, Prod.mk.injEq] at hmem
      rcases hmem with ⟨rfl, rfl⟩ | ⟨rfl, rfl⟩
      · exact spanStage_feasible.mpr ⟨hxa, rfl⟩
      · exact spanStage_feasible.mpr ⟨hyb, rfl⟩
    · intro e he
      rw [spanDag_edges] at he
      cases List.mem_singleton.mp he
      refine ⟨hnear, ?_⟩
      simp [GovernancePolicy.trusts, GovernancePolicy.getTrust, spanGovernance, Dict.ofList]
  exact findPlacement_of_admissible (spanDag_built ..) (spanDag_isTree ..) hc hadm

theorem spanDag_not_placed (hc : topology.Complete)
    (hfar : ∀ x ∈ topology.nodes, ∀ y ∈ topology.nodes, x.domainId = da → y.domainId = db →
      30 + tolerance < topology.latencyOf x.nodeId y.nodeId) (p : Placement) :
    findPlacement (spanDag da db demandA demandB) topology governance w ≠ .ok p := by
  intro hp
  obtain ⟨host, -, -, hfirst, -⟩ :=
    findPlacement_run (spanDag_built ..) (spanDag_isTree ..) hc hp
  have hadm := hfirst.admissible
  have ha := hadm.stages "a" ⟨"a", "sense", demandA, 1, none, some da, none⟩ rfl
  have hb := hadm.stages "b" ⟨"b", "fuse", demandB, 1, none, some db, none⟩ rfl
  have hedge := hadm.edges ⟨"a", "b", 30⟩ (by simp [spanDag_edges])
  have hin : "a" ∈ (spanDag da db demandA demandB).stages ∧
      "b" ∈ (spanDag da db demandA demandB).stages := by
    simp [Dict.mem_iff_mem_keys, Dict.keys, spanDag_stages]
  exact absurd hedge.1 (not_le.mpr (hfar _ (hadm.mem_nodes "a" hin.1) _
    (hadm.mem_nodes "b" hin.2) (spanStage_feasible.mp ha).2.symm (spanStage_feasible.mp hb).2.symm))

end Span

/-- The same placement, or both decisions raise. -/
def SameDecision (x y : Except PyError Placement) : Prop := x.toOption = y.toOption

/-- Where a peer owns a worker whose domain is not that of another worker, the
matrices of the two routes differ by 30 ms, and some DAG tells them apart. -/
theorem shardedDecision_differs (h : Partitioned own peers) (w : Weights) {a b : WorkerInfo}
    (ha : a ∈ own ++ peers.flatten) (hb : b ∈ peers.flatten) (hne : a.domainId ≠ b.domainId) :
    ∃ governance dag, dag.Built ∧ ¬ SameDecision (shardedDecision own peers dag governance w)
      (centralDecision (own ++ peers.flatten) dag governance w) := by
  obtain ⟨hc, hmerged⟩ := h.sharded.complete
  obtain ⟨hcentral, hdomain⟩ := (topologyOf_meshed h.nodupIds).complete
    (by rw [topologyOf_eq h.nodupIds, List.map_map]; exact h.nodupIds)
  have hcentralNodes : (topologyOf (own ++ peers.flatten)).nodes =
      (own ++ peers.flatten).map executionUnit := by rw [topologyOf_eq h.nodupIds]
  have hx : executionUnit a ∈ (topologyOf (own ++ peers.flatten)).nodes :=
    hcentralNodes ▸ List.mem_map_of_mem ha
  have hy : executionUnit b ∈ (topologyOf (own ++ peers.flatten)).nodes :=
    hcentralNodes ▸ List.mem_map_of_mem (List.mem_append_right _ hb)
  have hpos : 0 ≤ tolerance := by norm_num [tolerance]
  -- the single broker places it on the two workers
  obtain ⟨p, hp⟩ := spanDag_placed (w := w) hcentral hx hy (le_add_of_nonneg_right hpos)
    (le_add_of_nonneg_right hpos) (by
      rw [hdomain _ hx _ hy fun heq => hne (congrArg ExecutionUnit.domainId heq)]
      linarith [domainLatency_le (executionUnit a) (executionUnit b)])
  refine ⟨spanGovernance a.domainId b.domainId, spanDag a.domainId b.domainId
    (executionUnit a).residualCapacity (executionUnit b).residualCapacity, spanDag_built ..,
    fun hsame => ?_⟩
  have hok : centralDecision (own ++ peers.flatten) (spanDag a.domainId b.domainId
      (executionUnit a).residualCapacity (executionUnit b).residualCapacity)
      (spanGovernance a.domainId b.domainId) w = .ok p := hp
  rw [SameDecision, hok, shardedDecision_eq h] at hsame
  -- the coordinator finds every two nodes of these domains 50 ms apart
  have hfar : ∀ x ∈ (mergedTopology (topologyOf own) (peers.map topologyOf)).nodes,
      ∀ y ∈ (mergedTopology (topologyOf own) (peers.map topologyOf)).nodes,
      x.domainId = a.domainId → y.domainId = b.domainId → 30 + tolerance <
        (mergedTopology (topologyOf own) (peers.map topologyOf)).latencyOf x.nodeId y.nodeId := by
    intro x hxm y hym hxa hyb
    have hdom : x.domainId ≠ y.domainId := hxa ▸ hyb ▸ hne
    have hpeer : y ∈ (peers.map topologyOf).flatMap (·.nodes) :=
      (List.mem_append.mp hym).resolve_left fun hown =>
        h.sharded.own_ne_peer hown (h.peerNodes_eq ▸ List.mem_map_of_mem hb) hyb
    rw [hmerged x hxm y hym fun heq => hdom (congrArg ExecutionUnit.domainId heq), mergedLatency,
      if_pos ⟨hdom, .inr hpeer⟩]
    norm_num [tolerance]
  cases hmerge : findPlacement (spanDag a.domainId b.domainId (executionUnit a).residualCapacity
      (executionUnit b).residualCapacity) (mergedTopology (topologyOf own) (peers.map topologyOf))
      (spanGovernance a.domainId b.domainId) w with
  | error e =>
    rw [hmerge] at hsame
    cases hsame
  | ok q => exact spanDag_not_placed hc hfar q hmerge

/-- The coordinator decides as one broker with all the workers would, for every
policy and every DAG, exactly when no peer-owned worker is in another domain than
some other worker. -/
theorem shardedDecision_eq_central_iff (h : Partitioned own peers) (w : Weights) :
    (∀ governance dag, dag.Built → SameDecision (shardedDecision own peers dag governance w)
      (centralDecision (own ++ peers.flatten) dag governance w)) ↔
    ∀ b ∈ peers.flatten, ∀ a ∈ own ++ peers.flatten, a.domainId = b.domainId := by
  constructor
  · intro hsame b hb a ha
    by_contra hne
    obtain ⟨governance, dag, hbuilt, hdiffers⟩ := shardedDecision_differs h w ha hb hne
    exact hdiffers (hsame governance dag hbuilt)
  · intro hone governance dag _
    rw [SameDecision, shardedDecision_eq h, mergedTopology_eq h hone, centralDecision]

end Decisions

private def edgeWorker : WorkerInfo := ⟨"w1", "d1", "s1", 4, "http://w1", 1, 0⟩

private def edgeWorker' : WorkerInfo := ⟨"w2", "d1", "s1", 4, "http://w2", 0, 0⟩

private def cloudWorker : WorkerInfo := ⟨"w3", "d2", "s1", 4, "http://w3", 0, 0⟩

/-- The peer has no workers yet. -/
theorem shardedDecision_eq_central_edge :
    SameDecision
      (shardedDecision [edgeWorker, edgeWorker'] [[]] (spanDag "d1" "d1" 1 1) {} {})
      (centralDecision [edgeWorker, edgeWorker'] (spanDag "d1" "d1" 1 1) {} {}) :=
  (@shardedDecision_eq_central_iff [edgeWorker, edgeWorker'] [[]]
    ⟨by decide, by decide⟩ {}).mpr (by decide) {} _ (spanDag_built ..)

/-- A peer owns a worker in another domain: the coordinator refuses a pipeline that
the single broker places. -/
theorem not_sameDecision :
    Partitioned [edgeWorker] [[cloudWorker]] ∧
    (shardedDecision [edgeWorker] [[cloudWorker]] (spanDag "d1" "d2" 1 1)
        (spanGovernance "d1" "d2") {}).toOption = none ∧
      (centralDecision ([edgeWorker] ++ [[cloudWorker]].flatten) (spanDag "d1" "d2" 1 1)
        (spanGovernance "d1" "d2") {}).toOption = some (.ofList [("b", "w3"), ("a", "w1")]) :=
  ⟨⟨by decide, by decide⟩, by decide +kernel, by decide +kernel⟩

end NeuralBroker
end NeuralPubSub
