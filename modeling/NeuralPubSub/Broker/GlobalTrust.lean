-- SUMMARY: When the coordinator's placement keeps the trust that every shard's policy asks for.
import NeuralPubSub.Broker.MergedGovernance
import NeuralPubSub.Broker.Placement.TrustedEdges
import NeuralPubSub.Broker.ShardCoverage

open Base

/-!
# Trust in the global decision

The coordinator decides under its own policy: a snapshot carries no policy, and
no caller of `decide_globally` uses `merge_governance`. A pair of domains that
only the coordinator trusts is open to every pipeline.
-/

namespace NeuralPubSub
namespace NeuralBroker

section Shards

variable {own : List WorkerInfo} {peers : List (List WorkerInfo)} {governance merged : GovernancePolicy}
  {dag : PipelineDAG} {w : Weights} {p : Placement}

/-- The topology the coordinator decides on, without ids that collide. -/
def globalTopology (own : List WorkerInfo) (peers : List (List WorkerInfo)) : NetworkTopology :=
  handedTopology (topologyOf own) (topologyOf own) (peers.map topologyOf)

/-- Each registry files a worker under its own id. -/
def Registries (own : List WorkerInfo) (peers : List (List WorkerInfo)) : Prop :=
  ∀ shard ∈ own :: peers, (shard.map (·.nodeId)).Nodup

theorem Registries.nodes (h : Registries own peers) : (globalTopology own peers).nodes =
    (own ++ peers.flatten).map executionUnit := by
  have hnodes : ∀ shard ∈ own :: peers, (topologyOf shard).nodes = shard.map executionUnit :=
    fun shard hshard => by rw [topologyOf_eq (h shard hshard)]
  show (topologyOf own).nodes ++ (peers.map topologyOf).flatMap (·.nodes) = _
  rw [hnodes own List.mem_cons_self, List.flatMap_map, List.flatMap,
    List.map_congr_left fun shard hshard => hnodes shard (List.mem_cons_of_mem _ hshard),
    List.map_append]
  exact congrArg _ (List.map_flatten ..).symm

theorem Registries.ids (h : Registries own peers) :
    ((topologyOf own :: peers.map topologyOf).flatMap (·.nodes)).map (·.nodeId) =
      (own ++ peers.flatten).map (·.nodeId) := by
  have hnodes := h.nodes
  rw [globalTopology, handedTopology] at hnodes
  rw [show (topologyOf own :: peers.map topologyOf).flatMap (·.nodes) = _ from hnodes, List.map_map]
  rfl

theorem Registries.liveShards (h : Registries own peers)
    (hids : ((own ++ peers.flatten).map (·.nodeId)).Nodup) :
    LiveShards (topologyOf own) (topologyOf own) (peers.map topologyOf) where
  meshed := by
    intro t ht
    rw [← List.map_cons] at ht
    obtain ⟨shard, hshard, rfl⟩ := List.mem_map.mp ht
    exact topologyOf_meshed (h shard hshard)
  nodupIds := by
    rw [flatMap_ids, h.ids]
    exact hids
  foreign := by
    intro a ha v hv hid
    have hnodup := h.ids ▸ hids
    rw [List.flatMap_cons, List.map_append] at hnodup
    exact (List.nodup_append.mp hnodup).2.2 _ (List.mem_map_of_mem ha) _ (List.mem_map_of_mem hv) hid

/-- The decision solves over the global topology, or reports a collision of ids. -/
theorem shardedDecision_cases (h : Registries own peers) (dag : PipelineDAG)
    (governance : GovernancePolicy) (w : Weights) :
    (((own ++ peers.flatten).map (·.nodeId)).Nodup ∧ shardedDecision own peers dag governance w =
      findPlacement dag (globalTopology own peers) governance w) ∨
    (¬ ((own ++ peers.flatten).map (·.nodeId)).Nodup ∧
      ∃ msg, shardedDecision own peers dag governance w = .error (.value msg)) := by
  unfold shardedDecision decideGlobally
  simp only [map_snapshots]
  cases mergeTopologies_cases (topologyOf own :: peers.map topologyOf)
      (crossLatencies (topologyOf own) (peers.map topologyOf)) with
  | inl hok =>
    left
    rw [hok.1]
    exact ⟨h.ids ▸ hok.2, rfl⟩
  | inr herror =>
    right
    obtain ⟨⟨msg, hmsg⟩, hcollide⟩ := herror
    rw [hmsg]
    exact ⟨h.ids ▸ hcollide, msg, rfl⟩

theorem globalTopology_complete (h : Registries own peers)
    (hids : ((own ++ peers.flatten).map (·.nodeId)).Nodup) :
    (globalTopology own peers).completed.Complete := by
  have hlive := h.liveShards hids
  exact NetworkTopology.completed_complete hlive.nodup_nodes fun a ha b hb l hl =>
    hlive.latency_comm ha hb hl

/-- Two nodes of different domains have a latency. -/
theorem globalTopology_latency (h : Registries own peers)
    (hids : ((own ++ peers.flatten).map (·.nodeId)).Nodup) {a b : ExecutionUnit}
    (ha : a ∈ (globalTopology own peers).nodes) (hb : b ∈ (globalTopology own peers).nodes)
    (hne : a.domainId ≠ b.domainId) :
    ∃ l ≤ 50, (globalTopology own peers).latency a.nodeId b.nodeId = .ok l := by
  have hlive := h.liveShards hids
  have hid : a.nodeId ≠ b.nodeId := fun heq =>
    hne (congrArg ExecutionUnit.domainId (hlive.eq_of_nodeId ha hb heq))
  refine ⟨handedLatency (topologyOf own) (peers.map topologyOf) a b, ?_, ?_⟩
  · unfold handedLatency
    split
    · exact le_refl _
    · linarith [domainLatency_le a b]
  · apply hlive.latency_eq ha hb hid
    exact hlive.covered_pair ha hb hid (fun ha _ => ⟨a, ha, rfl, hne⟩)
      (fun hb _ => ⟨b, hb, rfl, hne.symm⟩) fun _ _ _ _ _ => hne

/-! ## A pipeline across two domains -/

/-- Two stages of which one must run in the domain `da` and the other in `db`, as far
apart as two shards may be. -/
def crossingDag (da db : DomainId) (demandA demandB : ℚ) : PipelineDAG :=
  .ofLists
    [⟨"a", "sense", demandA, 1, none, some da, none⟩, ⟨"b", "fuse", demandB, 1, none, some db, none⟩]
    [⟨"a", "b", 50⟩]

theorem crossingDag_built (da db : DomainId) (demandA demandB : ℚ) :
    (crossingDag da db demandA demandB).Built := PipelineDAG.built_ofLists _ _

theorem crossingDag_source (da db : DomainId) (demandA demandB : ℚ) :
    (crossingDag da db demandA demandB).stage? "a" =
      some ⟨"a", "sense", demandA, 1, none, some da, none⟩ := rfl

theorem crossingDag_target (da db : DomainId) (demandA demandB : ℚ) :
    (crossingDag da db demandA demandB).stage? "b" =
      some ⟨"b", "fuse", demandB, 1, none, some db, none⟩ := rfl

theorem crossingDag_stage {da db : DomainId} {demandA demandB : ℚ} {sid : StageId} {stage : Stage}
    (h : (crossingDag da db demandA demandB).stage? sid = some stage) : sid = "a" ∨ sid = "b" := by
  have hkey := Dict.mem_of_get?_eq_some h
  rw [Dict.mem_iff_mem_keys,
    show (crossingDag da db demandA demandB).stages.keys = ["a", "b"] from rfl] at hkey
  simpa using hkey

theorem crossingDag_predecessors {da db : DomainId} {demandA demandB : ℚ} {u v : StageId}
    (h : u ∈ (crossingDag da db demandA demandB).predecessors v) : u = "a" ∧ v = "b" := by
  have hw := (crossingDag_built da db demandA demandB).wellFormed
  obtain ⟨e, he, rfl, rfl⟩ := hw.mem_successors.mp (hw.mem_predecessors.mp h)
  cases List.mem_singleton.mp he
  exact ⟨rfl, rfl⟩

theorem crossingDag_noFanIn (da db : DomainId) (demandA demandB : ℚ) :
    (crossingDag da db demandA demandB).NoFanIn := by
  intro sid
  have hw := (crossingDag_built da db demandA demandB).wellFormed
  rw [hw.predecessors_eq, List.length_map]
  exact List.length_filter_le ..

theorem crossingDag_placed (h : Registries own peers)
    (hids : ((own ++ peers.flatten).map (·.nodeId)).Nodup) {a b : WorkerInfo}
    (ha : a ∈ own ++ peers.flatten) (hb : b ∈ own ++ peers.flatten) (hne : a.domainId ≠ b.domainId)
    (htrust : governance.trusts a.domainId b.domainId = true) (w : Weights) :
    ∃ demandA demandB p,
      shardedDecision own peers (crossingDag a.domainId b.domainId demandA demandB) governance w =
        .ok p := by
  have hx : executionUnit a ∈ (globalTopology own peers).nodes := h.nodes ▸ List.mem_map_of_mem ha
  have hy : executionUnit b ∈ (globalTopology own peers).nodes := h.nodes ▸ List.mem_map_of_mem hb
  have hc := globalTopology_complete h hids
  have hpos : 0 ≤ tolerance := by norm_num [tolerance]
  refine ⟨(executionUnit a).residualCapacity, (executionUnit b).residualCapacity, ?_⟩
  set dag := crossingDag a.domainId b.domainId (executionUnit a).residualCapacity
    (executionUnit b).residualCapacity with hdag
  have hadm : Admissible dag (globalTopology own peers).completed governance
      fun sid => if sid = "a" then executionUnit a else executionUnit b := by
    constructor
    · intro sid _
      split
      · exact hx
      · exact hy
    · intro sid stage hstage
      rcases crossingDag_stage hstage with rfl | rfl
      · obtain rfl := Option.some.inj ((crossingDag_source ..).symm.trans hstage)
        exact spanStage_feasible.mpr ⟨le_add_of_nonneg_right hpos, rfl⟩
      · obtain rfl := Option.some.inj ((crossingDag_target ..).symm.trans hstage)
        exact spanStage_feasible.mpr ⟨le_add_of_nonneg_right hpos, rfl⟩
    · intro e he
      cases List.mem_singleton.mp he
      refine ⟨?_, htrust⟩
      obtain ⟨l, hl, hlat⟩ := globalTopology_latency h hids hx hy hne
      show (globalTopology own peers).completed.latencyOf (executionUnit a).nodeId
        (executionUnit b).nodeId ≤ 50 + tolerance
      rw [NetworkTopology.latencyOf, NetworkTopology.latency_completed hlat]
      exact hl.trans (le_add_of_nonneg_right hpos)
  -- the two stages look at latencies between the two domains only
  have hreach : Reaches (globalTopology own peers) governance dag := by
    intro u v su sv hu hsu hsv x hx y hy hfx hfy
    obtain ⟨rfl, rfl⟩ := crossingDag_predecessors hu
    obtain rfl := Option.some.inj ((crossingDag_source ..).symm.trans hsu)
    obtain rfl := Option.some.inj ((crossingDag_target ..).symm.trans hsv)
    obtain ⟨l, -, hl⟩ := globalTopology_latency h hids hy hx (by
      rw [← (spanStage_feasible.mp hfx).2, ← (spanStage_feasible.mp hfy).2]
      exact hne.symm)
    exact ⟨l, hl⟩
  obtain ⟨p, hp⟩ := findPlacement_of_admissible (w := w) (crossingDag_built ..) rfl hc hadm
  refine ⟨p, ?_⟩
  cases shardedDecision_cases h dag governance w with
  | inl hok => rw [hok.2, findPlacement_eq_completed (crossingDag_built ..) rfl hc hreach, hp]
  | inr herror => exact absurd hids herror.1

/-- A policy that its placement satisfies trusts the two domains. -/
theorem crossingDag_trusted (h : Registries own peers) {da db : DomainId} {demandA demandB : ℚ}
    (hp : shardedDecision own peers (crossingDag da db demandA demandB) governance w = .ok p)
    (htrusted : TrustedEdges (crossingDag da db demandA demandB) (globalTopology own peers) merged p) :
    merged.trusts da db = true := by
  have hw := (crossingDag_built da db demandA demandB).wellFormed
  cases shardedDecision_cases h (crossingDag da db demandA demandB) governance w with
  | inr herror =>
    obtain ⟨-, msg, hmsg⟩ := herror
    cases hmsg.symm.trans hp
  | inl hok =>
    obtain ⟨hids, heq⟩ := hok
    rw [heq] at hp
    have hc := globalTopology_complete h hids
    obtain ⟨host, moves, final, hfirst, hrun, hhosts, hcolocated⟩ :=
      findPlacement_run (crossingDag_built da db demandA demandB) rfl hc
        (findPlacement_completed rfl hp)
    cases moves with
    | cons m moves =>
      exact absurd (hcolocated m List.mem_cons_self).sibling
        ((crossingDag_noFanIn da db demandA demandB).not_sibling m.stage)
    | nil =>
      cases hrun
      have hhosts' : Hosts (crossingDag da db demandA demandB) (globalTopology own peers) host p :=
        ⟨hhosts.mem_iff, hhosts.get?, hhosts.mem_nodes⟩
      have hids' : ((globalTopology own peers).nodes.map (·.nodeId)).Nodup := hc.nodupIds
      have hedge := (trustedEdges_iff hw hids' hhosts').mp htrusted ⟨"a", "b", 50⟩
        List.mem_cons_self
      have hsource := hfirst.admissible.stages "a" _ (crossingDag_source da db demandA demandB)
      have htarget := hfirst.admissible.stages "b" _ (crossingDag_target da db demandA demandB)
      rw [(spanStage_feasible.mp hsource).2, (spanStage_feasible.mp htarget).2]
      exact hedge

/-! ## The policies -/

/-- What the coordinator's policy trusts between domains of workers, the merged policy of
all shards trusts as well. -/
def NoLooser (own : List WorkerInfo) (peers : List (List WorkerInfo))
    (governance : GovernancePolicy) (others : List GovernancePolicy) : Prop :=
  ∀ a ∈ own ++ peers.flatten, ∀ b ∈ own ++ peers.flatten,
    governance.trusts a.domainId b.domainId = true →
      (mergeGovernance (governance :: others)).trusts a.domainId b.domainId = true

variable {others : List GovernancePolicy}

theorem NoLooser.nodes (hle : NoLooser own peers governance others) (h : Registries own peers) :
    ∀ x ∈ (globalTopology own peers).nodes, ∀ y ∈ (globalTopology own peers).nodes,
      governance.trusts x.domainId y.domainId = true →
        (mergeGovernance (governance :: others)).trusts x.domainId y.domainId = true := by
  rw [h.nodes]
  intro x hx y hy
  obtain ⟨a, ha, rfl⟩ := List.mem_map.mp hx
  obtain ⟨b, hb, rfl⟩ := List.mem_map.mp hy
  exact hle a ha b hb

/-- The decision satisfies a merged policy that is no stricter than the coordinator's, where
the edges of siblings are trusted whatever the nodes. -/
theorem NoLooser.trusted (hle : NoLooser own peers governance others) (h : Registries own peers)
    (hbuilt : dag.Built)
    (hfree : dag.isTree = true → ∀ sid, dag.Sibling sid →
      ∀ e ∈ dag.edges, e.sourceId = sid ∨ e.targetId = sid →
        HoldsAnywhere dag (globalTopology own peers) governance
          (EdgeTrusted (mergeGovernance (governance :: others))) e)
    (hp : shardedDecision own peers dag governance w = .ok p) :
    TrustedEdges dag (globalTopology own peers) (mergeGovernance (governance :: others)) p := by
  cases shardedDecision_cases h dag governance w with
  | inr herror =>
    obtain ⟨-, msg, hmsg⟩ := herror
    cases hmsg.symm.trans hp
  | inl hok =>
    obtain ⟨hids, heq⟩ := hok
    exact findPlacement_trusted hbuilt (globalTopology_complete h hids) (hle.nodes h) hfree
      (heq ▸ hp)

/-- The placements of pipelines without fan-in satisfy the merged policy exactly when it is
no stricter than the coordinator's, or the shards cannot be merged at all. -/
theorem trusted_iff_noLooser (h : Registries own peers) :
    (∀ dag p, dag.Built → dag.NoFanIn → shardedDecision own peers dag governance w = .ok p →
      TrustedEdges dag (globalTopology own peers) (mergeGovernance (governance :: others)) p) ↔
    ¬ ((own ++ peers.flatten).map (·.nodeId)).Nodup ∨ NoLooser own peers governance others := by
  constructor
  · intro htrusted
    by_cases hids : ((own ++ peers.flatten).map (·.nodeId)).Nodup
    · right
      intro a ha b hb htrust
      by_cases heq : a.domainId = b.domainId
      · simp [GovernancePolicy.trusts, heq]
      · obtain ⟨demandA, demandB, p, hp⟩ := crossingDag_placed h hids ha hb heq htrust w
        exact crossingDag_trusted h hp
          (htrusted _ p (crossingDag_built ..) (crossingDag_noFanIn _ _ _ _) hp)
    · exact .inl hids
  · intro hle dag p hbuilt hfanIn hp
    cases hle with
    | inl hcollide =>
      cases shardedDecision_cases h dag governance w with
      | inl hok => exact absurd hok.1 hcollide
      | inr herror =>
        obtain ⟨-, msg, hmsg⟩ := herror
        cases hmsg.symm.trans hp
    | inr hle =>
      exact hle.trusted h hbuilt (fun _ sid hsid => absurd hsid (hfanIn.not_sibling sid)) hp

/-- The placements of pipelines without fan-in satisfy the merged policy exactly when it is no
stricter than the coordinator's, or the shards cannot be merged; and then so does the placement
of every pipeline that is no tree, or whose siblings have their edges trusted between any two
nodes feasible for the ends. -/
theorem globalDecision_trusted (h : Registries own peers) (governance : GovernancePolicy)
    (others : List GovernancePolicy) (w : Weights) :
    ((∀ dag p, dag.Built → dag.NoFanIn → shardedDecision own peers dag governance w = .ok p →
      TrustedEdges dag (globalTopology own peers) (mergeGovernance (governance :: others)) p) ↔
      ¬ ((own ++ peers.flatten).map (·.nodeId)).Nodup ∨ NoLooser own peers governance others) ∧
    (NoLooser own peers governance others → ∀ dag p, dag.Built →
      (dag.isTree = true → ∀ sid, dag.Sibling sid →
        ∀ e ∈ dag.edges, e.sourceId = sid ∨ e.targetId = sid →
          HoldsAnywhere dag (globalTopology own peers) governance
            (EdgeTrusted (mergeGovernance (governance :: others))) e) →
      shardedDecision own peers dag governance w = .ok p →
      TrustedEdges dag (globalTopology own peers) (mergeGovernance (governance :: others)) p) :=
  ⟨trusted_iff_noLooser h, fun hle _ _ hbuilt hfree hp => hle.trusted h hbuilt hfree hp⟩

end Shards

private def shardWorker (nodeId : NodeId) (domainId : DomainId) : WorkerInfo :=
  ⟨nodeId, domainId, "flat", 4, "http://" ++ nodeId, 0, 0⟩

private def openPolicy : GovernancePolicy := { trustLevels := .ofList [(("d1", "d2"), 9 / 10)] }

private def closedPolicy : GovernancePolicy := { trustLevels := .ofList [(("d1", "d2"), 0)] }

private theorem registries_shardWorkers :
    Registries [shardWorker "w1" "d1"] [[shardWorker "w2" "d2"]] := by
  unfold Registries
  decide

/-- Two sources that any worker may run, joined in `d2`. -/
private def joiningDag : PipelineDAG :=
  .ofLists [⟨"a", "sense", 1, 1, none, none, none⟩, ⟨"b", "sense", 1, 1, none, none, none⟩,
    ⟨"c", "fuse", 1, 1, none, some "d2", none⟩] [⟨"a", "c", 50⟩, ⟨"b", "c", 50⟩]

private theorem noLooser_open :
    NoLooser [shardWorker "w1" "d1"] [[shardWorker "w2" "d2"]] openPolicy [openPolicy] := by
  unfold NoLooser
  decide +kernel

/-- Both shards trust each other, and the pipelines go across: the one without fan-in, and
the join, of whose sources the redistribution pass moves one to the coordinator's shard. -/
theorem globalDecision_trusted_open :
    TrustedEdges (crossingDag "d1" "d2" 1 1)
      (globalTopology [shardWorker "w1" "d1"] [[shardWorker "w2" "d2"]])
      (mergeGovernance [openPolicy, openPolicy]) (.ofList [("b", "w2"), ("a", "w1")]) ∧
    TrustedEdges joiningDag (globalTopology [shardWorker "w1" "d1"] [[shardWorker "w2" "d2"]])
      (mergeGovernance [openPolicy, openPolicy])
      (.ofList [("c", "w2"), ("a", "w2"), ("b", "w1")]) := by
  obtain ⟨hiff, htrusted⟩ := globalDecision_trusted registries_shardWorkers openPolicy [openPolicy] {}
  refine ⟨hiff.mpr (.inr noLooser_open) _ _ (crossingDag_built ..) (crossingDag_noFanIn _ _ _ _)
    (by decide +kernel), htrusted noLooser_open joiningDag _ (PipelineDAG.built_ofLists _ _)
    (fun _ sid _ e he _ x hx y hy _ _ => ?_) (by decide +kernel)⟩
  have hall : ∀ x ∈ (globalTopology [shardWorker "w1" "d1"] [[shardWorker "w2" "d2"]]).nodes,
      ∀ y ∈ (globalTopology [shardWorker "w1" "d1"] [[shardWorker "w2" "d2"]]).nodes,
        (mergeGovernance [openPolicy, openPolicy]).trusts x.domainId y.domainId = true := by
    decide +kernel
  exact hall x hx y hy

/-- The peer's policy does not trust the coordinator's domain: the coordinator places the
pipeline across all the same. -/
theorem not_trustedEdges :
    shardedDecision [shardWorker "w1" "d1"] [[shardWorker "w2" "d2"]] (crossingDag "d1" "d2" 1 1)
      openPolicy {} = .ok (.ofList [("b", "w2"), ("a", "w1")]) ∧
    (mergeGovernance [openPolicy, closedPolicy]).trusts "d1" "d2" = false ∧
    ¬ ∀ (own : List WorkerInfo) (peers : List (List WorkerInfo)) (governance : GovernancePolicy)
      (others : List GovernancePolicy) (w : Weights) (dag : PipelineDAG) (p : Placement),
        Registries own peers → dag.Built → shardedDecision own peers dag governance w = .ok p →
        TrustedEdges dag (globalTopology own peers) (mergeGovernance (governance :: others)) p := by
  have hp : shardedDecision [shardWorker "w1" "d1"] [[shardWorker "w2" "d2"]]
      (crossingDag "d1" "d2" 1 1) openPolicy {} = .ok (.ofList [("b", "w2"), ("a", "w1")]) := by
    decide +kernel
  refine ⟨hp, by decide +kernel, fun hall => ?_⟩
  have htrusted := hall _ _ openPolicy [closedPolicy] {} _ _ registries_shardWorkers
    (crossingDag_built ..) hp ⟨"a", "b", 50⟩ (by decide)
    (executionUnit (shardWorker "w1" "d1")) (by decide +kernel)
    (executionUnit (shardWorker "w2" "d2")) (by decide +kernel) (by decide +kernel)
    (by decide +kernel)
  revert htrusted
  decide +kernel

end NeuralBroker
end NeuralPubSub
