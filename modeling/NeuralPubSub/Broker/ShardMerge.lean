-- SUMMARY: What encoding, decoding and merging the shards' topologies keeps: nodes, latencies and the decision.
import NeuralPubSub.Broker.ShardedOracle

open Base

/-!
# Merging without loss

`merge_topologies` over shards with disjoint ids is a disjoint union: a latency
is the one that its shard stores, or the one given for the two shards. The
solver sees the concatenation, whatever went over the wire.
-/

namespace NeuralPubSub

/-! ## Disjoint shards -/

/-- The ids of the nodes. -/
def NetworkTopology.ids (t : NetworkTopology) : List NodeId := t.nodes.map (·.nodeId)

theorem NetworkTopology.mem_ids {t : NetworkTopology} {a : ExecutionUnit} (h : a ∈ t.nodes) :
    a.nodeId ∈ t.ids := List.mem_map_of_mem h

/-- Both nodes of the pair are in the shard. -/
def NetworkTopology.Holds (t : NetworkTopology) (pair : NodeId × NodeId) : Prop :=
  pair.1 ∈ t.ids ∧ pair.2 ∈ t.ids

instance (t : NetworkTopology) (pair : NodeId × NodeId) : Decidable (t.Holds pair) :=
  inferInstanceAs (Decidable (_ ∧ _))

/-- Shards with disjoint ids, each matrix over its own nodes, and latencies of pairs
that no shard holds. -/
structure DisjointShards (shards : List NetworkTopology) (cross : Dict (NodeId × NodeId) ℚ) :
    Prop where
  nodupIds : (shards.flatMap (·.ids)).Nodup
  own : ∀ t ∈ shards, ∀ pair ∈ t.latencyMatrix.keys, t.Holds pair
  cross : ∀ pair ∈ cross.keys, ∀ t ∈ shards, ¬ t.Holds pair

/-- Two shards have a node of the same id. -/
def Collide (shards : List NetworkTopology) : Prop :=
  ∃ s t, [s, t].Sublist shards ∧ ∃ nodeId, nodeId ∈ s.ids ∧ nodeId ∈ t.ids

/-- The shards one after the other. -/
structure Concatenates (shards : List NetworkTopology) (cross : Dict (NodeId × NodeId) ℚ)
    (merged : NetworkTopology) : Prop where
  nodes : merged.nodes = shards.flatMap (·.nodes)
  latencies : merged.latencyMatrix.entries =
    shards.flatMap (·.latencyMatrix.entries) ++ cross.entries

/-- What the merged topology keeps of the shards. -/
structure Lossless (shards : List NetworkTopology) (cross : Dict (NodeId × NodeId) ℚ)
    (merged : NetworkTopology) : Prop where
  nodes : merged.nodes = shards.flatMap (·.nodes)
  nodupIds : merged.ids.Nodup
  same : ∀ t ∈ shards, ∀ a ∈ t.nodes, ∀ b ∈ t.nodes,
    merged.latency a.nodeId b.nodeId = t.latency a.nodeId b.nodeId
  across : ∀ a ∈ merged.nodes, ∀ b ∈ merged.nodes, (∀ t ∈ shards, a ∈ t.nodes → b ∉ t.nodes) →
    (merged.latency a.nodeId b.nodeId).toOption =
      (cross.get? (a.nodeId, b.nodeId)).or (cross.get? (b.nodeId, a.nodeId))

section Shards

variable {shards : List NetworkTopology} {cross : Dict (NodeId × NodeId) ℚ}
  {merged t : NetworkTopology}

theorem flatMap_ids : shards.flatMap (·.ids) = (shards.flatMap (·.nodes)).map (·.nodeId) := by
  rw [List.map_flatMap]
  rfl

/-- The shard of a node is determined by the node's id. -/
theorem eq_of_mem_ids (h : (shards.flatMap (·.ids)).Nodup) {s : NetworkTopology} (hs : s ∈ shards)
    (ht : t ∈ shards) {nodeId : NodeId} (hids : nodeId ∈ s.ids) (hidt : nodeId ∈ t.ids) : s = t := by
  by_contra hne
  have hpairs := (List.nodup_flatMap.mp h).2
  cases pair_sublist_or hs ht hne with
  | inl hsub => exact hpairs.forall_sublist hsub hids hidt
  | inr hsub => exact hpairs.forall_sublist hsub hidt hids

/-! ## Collisions -/

theorem nodup_iff_not_collide (hunique : ∀ t ∈ shards, t.ids.Nodup) :
    (shards.flatMap (·.ids)).Nodup ↔ ¬ Collide shards := by
  rw [List.nodup_flatMap, List.pairwise_iff_forall_sublist]
  constructor
  · rintro ⟨-, hpairs⟩ ⟨s, t, hsub, nodeId, hs, ht⟩
    exact hpairs hsub hs ht
  · intro hnone
    refine ⟨hunique, ?_⟩
    intro s t hsub nodeId hs ht
    exact hnone ⟨s, t, hsub, nodeId, hs, ht⟩

theorem mergeTopologies_collides_iff (hunique : ∀ t ∈ shards, t.ids.Nodup) :
    (∃ msg, mergeTopologies shards cross = .error (.value msg)) ↔ Collide shards := by
  have hnodup := nodup_iff_not_collide hunique
  rw [flatMap_ids] at hnodup
  cases mergeTopologies_cases shards cross with
  | inl hok =>
    refine iff_of_false ?_ (hnodup.mp hok.2)
    rintro ⟨msg, hmsg⟩
    rw [hok.1] at hmsg
    cases hmsg
  | inr herror => exact iff_of_true herror.1 (not_not.mp fun hnone => herror.2 (hnodup.mpr hnone))

/-! ## The merged topology -/

namespace DisjointShards

/-- No pair has two latencies. -/
theorem nodupPairs (h : DisjointShards shards cross) :
    ((shards.flatMap (·.latencyMatrix.entries) ++ cross.entries).map Prod.fst).Nodup := by
  rw [List.map_append, List.map_flatMap]
  apply List.Nodup.append
  · refine List.nodup_flatMap.mpr ⟨fun t _ => t.latencyMatrix.keys_nodup, ?_⟩
    refine (List.nodup_flatMap.mp h.nodupIds).2.imp_of_mem ?_
    intro s t hs ht hdisjoint pair hps hpt
    exact hdisjoint (h.own s hs pair hps).1 (h.own t ht pair hpt).1
  · exact cross.keys_nodup
  · intro pair hpair hcross
    obtain ⟨t, ht, hkey⟩ := List.mem_flatMap.mp hpair
    exact h.cross pair hcross t ht (h.own t ht pair hkey)

theorem exists_concatenates (h : DisjointShards shards cross) :
    ∃ merged, mergeTopologies shards cross = .ok merged ∧ Concatenates shards cross merged := by
  refine ⟨_, mergeTopologies_eq (flatMap_ids ▸ h.nodupIds), rfl, ?_⟩
  exact Dict.entries_ofList _ h.nodupPairs

theorem get?_own (h : DisjointShards shards cross) (hm : Concatenates shards cross merged)
    (ht : t ∈ shards) {p : NodeId × NodeId} (hpair : t.Holds p) :
    merged.latencyMatrix.get? p = t.latencyMatrix.get? p := by
  apply Option.ext
  intro l
  rw [Dict.get?_eq_some_iff, Dict.get?_eq_some_iff, hm.latencies, List.mem_append]
  constructor
  · intro hmem
    cases hmem with
    | inl hstored =>
      obtain ⟨s, hs, hentry⟩ := List.mem_flatMap.mp hstored
      have hholds := h.own s hs p (Dict.mem_of_mem_entries hentry)
      exact eq_of_mem_ids h.nodupIds hs ht hholds.1 hpair.1 ▸ hentry
    | inr hcross => exact absurd hpair (h.cross p (Dict.mem_of_mem_entries hcross) t ht)
  · intro hentry
    exact .inl (List.mem_flatMap.mpr ⟨t, ht, hentry⟩)

theorem get?_cross (h : DisjointShards shards cross) (hm : Concatenates shards cross merged)
    {p : NodeId × NodeId} (hpair : ∀ t ∈ shards, ¬ t.Holds p) :
    merged.latencyMatrix.get? p = cross.get? p := by
  apply Option.ext
  intro l
  rw [Dict.get?_eq_some_iff, Dict.get?_eq_some_iff, hm.latencies, List.mem_append]
  constructor
  · intro hmem
    cases hmem with
    | inl hstored =>
      obtain ⟨s, hs, hentry⟩ := List.mem_flatMap.mp hstored
      exact absurd (h.own s hs p (Dict.mem_of_mem_entries hentry)) (hpair s hs)
    | inr hcross => exact hcross
  · exact .inr

theorem lossless (h : DisjointShards shards cross) (hm : Concatenates shards cross merged) :
    Lossless shards cross merged where
  nodes := hm.nodes
  nodupIds := by
    rw [NetworkTopology.ids, hm.nodes, ← flatMap_ids]
    exact h.nodupIds
  same := by
    intro t ht a ha b hb
    have hab := h.get?_own (p := (a.nodeId, b.nodeId)) hm ht ⟨NetworkTopology.mem_ids ha, NetworkTopology.mem_ids hb⟩
    have hba := h.get?_own (p := (b.nodeId, a.nodeId)) hm ht ⟨NetworkTopology.mem_ids hb, NetworkTopology.mem_ids ha⟩
    rw [NetworkTopology.latency, NetworkTopology.latency, hab, hba]
  across := by
    intro a ha b hb hapart
    rw [hm.nodes] at ha hb
    obtain ⟨s, hs, ha⟩ := List.mem_flatMap.mp ha
    obtain ⟨t, ht, hb⟩ := List.mem_flatMap.mp hb
    -- a shard that holds both ids is the shard of both nodes
    have hnone : ∀ u ∈ shards, ¬ (a.nodeId ∈ u.ids ∧ b.nodeId ∈ u.ids) := by
      rintro u hu ⟨hua, hub⟩
      have hsu := eq_of_mem_ids h.nodupIds hs hu (NetworkTopology.mem_ids ha) hua
      have htu := eq_of_mem_ids h.nodupIds ht hu (NetworkTopology.mem_ids hb) hub
      exact hapart u hu (hsu ▸ ha) (htu ▸ hb)
    have hne : a.nodeId ≠ b.nodeId := fun heq =>
      hnone s hs ⟨NetworkTopology.mem_ids ha, heq ▸ NetworkTopology.mem_ids ha⟩
    have hab := h.get?_cross (p := (a.nodeId, b.nodeId)) hm hnone
    have hba := h.get?_cross (p := (b.nodeId, a.nodeId)) hm fun u hu hholds =>
      hnone u hu hholds.symm
    rw [NetworkTopology.latency, if_neg hne, hab, hba]
    cases cross.get? (a.nodeId, b.nodeId) with
    | some l => rfl
    | none =>
      cases cross.get? (b.nodeId, a.nodeId) with
      | some l => rfl
      | none => rfl

end DisjointShards

/-- There is one concatenation. -/
theorem Concatenates.unique (h : Concatenates shards cross merged) (h' : Concatenates shards cross t) :
    merged = t := by
  cases merged
  cases t
  congr 1
  · exact h.nodes.trans h'.nodes.symm
  · exact Dict.ext (h.latencies.trans h'.latencies.symm)

end Shards

/-! ## Over the wire -/

/-- The topologies that the coordinator decodes from what its peers encoded. -/
def wirePeers (peers : List (NetworkTopology × Dict NodeId String)) : List NetworkTopology :=
  peers.map fun peer => snapshotToTopology (topologyToSnapshot peer.1 peer.2)

theorem wirePeers_eq (peers : List (NetworkTopology × Dict NodeId String)) :
    wirePeers peers = peers.map Prod.fst :=
  List.map_congr_left fun peer _ => (snapshot_round_trip peer.1 peer.2).1

theorem decideGlobally_wirePeers {own : NetworkTopology}
    {peers : List (NetworkTopology × Dict NodeId String)} {cross : Dict (NodeId × NodeId) ℚ}
    (h : DisjointShards (own :: peers.map Prod.fst) cross) {merged : NetworkTopology}
    (hm : Concatenates (own :: peers.map Prod.fst) cross merged) (dag : PipelineDAG)
    (governance : GovernancePolicy) (w : Weights) :
    decideGlobally dag own (wirePeers peers) cross governance w =
      findPlacement dag merged governance w := by
  obtain ⟨t, ht, hconcat⟩ := h.exists_concatenates
  rw [decideGlobally, wirePeers_eq, ht, hconcat.unique hm]
  rfl

/-- Snapshots and merging lose nothing, a collision of ids is reported, and the
decision over the wire is the one over the concatenated shards. -/
theorem shards_lossless :
    (∀ topo workerUrls, snapshotToTopology (topologyToSnapshot topo workerUrls) = topo ∧
      snapshotToWorkerUrls (topologyToSnapshot topo workerUrls) = workerUrls) ∧
    (∀ shards cross, DisjointShards shards cross →
      ∃ merged, mergeTopologies shards cross = .ok merged ∧ Lossless shards cross merged) ∧
    (∀ shards cross, (∀ t ∈ shards, t.ids.Nodup) →
      ((∃ msg, mergeTopologies shards cross = .error (.value msg)) ↔ Collide shards)) ∧
    ∀ own peers cross, DisjointShards (own :: peers.map Prod.fst) cross →
      ∃ merged, Concatenates (own :: peers.map Prod.fst) cross merged ∧
        ∀ dag governance w, decideGlobally dag own (wirePeers peers) cross governance w =
          findPlacement dag merged governance w := by
  refine ⟨snapshot_round_trip, ?_, fun _ _ => mergeTopologies_collides_iff, ?_⟩
  · intro shards cross h
    obtain ⟨merged, hmerged, hconcat⟩ := h.exists_concatenates
    exact ⟨merged, hmerged, h.lossless hconcat⟩
  · intro own peers cross h
    obtain ⟨merged, -, hconcat⟩ := h.exists_concatenates
    exact ⟨merged, hconcat, decideGlobally_wirePeers h hconcat⟩

private def wardShard : NetworkTopology where
  nodes := [⟨"w1", "d1", "s1", 4, 1, none⟩, ⟨"w2", "d1", "s2", 2, 0, some (.ofList [("ocr", 5)])⟩]
  latencyMatrix := .ofList [(("w2", "w1"), 2)]

private def cloudShard : NetworkTopology where
  nodes := [⟨"w3", "d1", "flat", 8, 0, none⟩]
  latencyMatrix := .empty

private def wanLatencies : Dict (NodeId × NodeId) ℚ := .ofList [(("w3", "w1"), 50)]

/-- One pair of different shards has a latency, the other has none. -/
theorem shards_lossless_ward :
    (∃ merged, mergeTopologies [wardShard, cloudShard] wanLatencies = .ok merged ∧
      Lossless [wardShard, cloudShard] wanLatencies merged) ∧
    ((∃ msg, mergeTopologies [wardShard, cloudShard, wardShard] wanLatencies = .error (.value msg)) ↔
      Collide [wardShard, cloudShard, wardShard]) ∧
    ∃ merged, Concatenates [wardShard, cloudShard] wanLatencies merged ∧
      ∀ dag governance w, decideGlobally dag wardShard (wirePeers [(cloudShard, .empty)]) wanLatencies
        governance w = findPlacement dag merged governance w := by
  have hdisjoint : DisjointShards [wardShard, cloudShard] wanLatencies :=
    ⟨by decide, by decide, by decide⟩
  refine ⟨shards_lossless.2.1 _ _ hdisjoint, ?_, ?_⟩
  · exact shards_lossless.2.2.1 [wardShard, cloudShard, wardShard] wanLatencies (by decide)
  · exact shards_lossless.2.2.2 wardShard [(cloudShard, .empty)] wanLatencies hdisjoint

end NeuralPubSub
