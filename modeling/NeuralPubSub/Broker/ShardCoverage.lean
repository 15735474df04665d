-- SUMMARY: When the topology that the coordinator decides on has a latency for every two nodes.
import NeuralPubSub.Broker.RegistryAgreement
import NeuralPubSub.Broker.ShardMerge

open Base

/-!
# Coverage of the merged topology

The coordinator takes its own topology before it asks its peers for theirs, and
reads it again for the cross-shard latencies once they have answered. The rule
for those goes by domain: two nodes of one domain get none, and neither does a
node that has left in between.
-/

namespace NeuralPubSub

/-- Every two nodes have a latency, in one order or the other. -/
def NetworkTopology.Covered (t : NetworkTopology) : Prop :=
  ∀ a ∈ t.nodes, ∀ b ∈ t.nodes, a.nodeId ≠ b.nodeId →
    (a.nodeId, b.nodeId) ∈ t.latencyMatrix ∨ (b.nodeId, a.nodeId) ∈ t.latencyMatrix

namespace NeuralBroker

/-! ## The topology handed to the solver -/

/-- The merge of `own` and the snapshots of the peers, with the cross latencies of
the topology that is `live` when they have arrived. -/
def handedTopology (own live : NetworkTopology) (peers : List NetworkTopology) : NetworkTopology where
  nodes := (own :: peers).flatMap (·.nodes)
  latencyMatrix := .ofList ((own :: peers).flatMap (·.latencyMatrix.entries) ++
    (crossLatencies live peers).entries)

/-- Shards with disjoint ids, where the live nodes are not the peers' either. -/
structure LiveShards (own live : NetworkTopology) (peers : List NetworkTopology) : Prop where
  meshed : ∀ t ∈ own :: peers, t.Meshed
  nodupIds : ((own :: peers).flatMap (·.ids)).Nodup
  foreign : ∀ a ∈ live.nodes, ∀ v ∈ peers.flatMap (·.nodes), a.nodeId ≠ v.nodeId

section Coverage

variable {own live : NetworkTopology} {peers : List NetworkTopology}

variable (live peers) in
/-- The latency of two nodes, where there is one. -/
def handedLatency (a b : ExecutionUnit) : ℚ :=
  if (a.nodeId, b.nodeId) ∈ crossLatencies live peers ∨
    (b.nodeId, a.nodeId) ∈ crossLatencies live peers then 50 else domainLatency a b

theorem handedLatency_comm (a b : ExecutionUnit) :
    handedLatency live peers a b = handedLatency live peers b a := by
  rw [handedLatency, handedLatency, domainLatency_comm a b]
  exact if_congr or_comm rfl rfl

namespace LiveShards

theorem nodup_nodes (h : LiveShards own live peers) :
    ((own.nodes ++ peers.flatMap (·.nodes)).map (·.nodeId)).Nodup := by
  have hids := h.nodupIds
  rw [flatMap_ids] at hids
  exact hids

theorem eq_of_nodeId (h : LiveShards own live peers) {a b : ExecutionUnit}
    (ha : a ∈ own.nodes ++ peers.flatMap (·.nodes)) (hb : b ∈ own.nodes ++ peers.flatMap (·.nodes))
    (hid : a.nodeId = b.nodeId) : a = b :=
  List.inj_on_of_nodup_map h.nodup_nodes ha hb hid

theorem own_not_peer (h : LiveShards own live peers) {a : ExecutionUnit} (ha : a ∈ own.nodes) :
    a ∉ peers.flatMap (·.nodes) := by
  have hids := h.nodup_nodes
  rw [List.map_append] at hids
  intro hpeer
  exact (List.nodup_append.mp hids).2.2 _ (List.mem_map_of_mem ha) _ (List.mem_map_of_mem hpeer) rfl

theorem mem_nodes {t : NetworkTopology} (ht : t ∈ own :: peers) {a : ExecutionUnit}
    (ha : a ∈ t.nodes) : a ∈ own.nodes ++ peers.flatMap (·.nodes) := by
  rw [← List.flatMap_cons]
  exact List.mem_flatMap.mpr ⟨t, ht, ha⟩

/-- What a shard stores for two ids, it stores for two of its nodes. -/
theorem stored (h : LiveShards own live peers) {a b : ExecutionUnit}
    (ha : a ∈ own.nodes ++ peers.flatMap (·.nodes)) (hb : b ∈ own.nodes ++ peers.flatMap (·.nodes))
    {t : NetworkTopology} (ht : t ∈ own :: peers) {l : ℚ}
    (hentry : ((a.nodeId, b.nodeId), l) ∈ t.latencyMatrix.entries) :
    [a, b].Sublist t.nodes ∧ l = domainLatency a b := by
  obtain ⟨x, y, hsub, heq⟩ := (h.meshed t ht _).mp hentry
  simp only [Prod.mk.injEq] at heq
  obtain ⟨⟨hax, hby⟩, hl⟩ := heq
  cases h.eq_of_nodeId ha (mem_nodes ht (hsub.subset (by simp))) hax
  cases h.eq_of_nodeId hb (mem_nodes ht (hsub.subset (by simp))) hby
  exact ⟨hsub, hl⟩

/-- A cross latency is that of a live node and a peer-owned one, or of two peer-owned nodes. -/
theorem crossed (h : LiveShards own live peers) {a b : ExecutionUnit}
    (ha : a ∈ own.nodes ++ peers.flatMap (·.nodes)) (hb : b ∈ own.nodes ++ peers.flatMap (·.nodes))
    (hmem : (a.nodeId, b.nodeId) ∈ crossLatencies live peers) :
    b ∈ peers.flatMap (·.nodes) ∧
      ((∃ x ∈ live.nodes, x.nodeId = a.nodeId ∧ x.domainId ≠ b.domainId) ∨
        a ∈ peers.flatMap (·.nodes) ∧ a.domainId ≠ b.domainId) := by
  obtain ⟨l, hl⟩ := Dict.exists_get?_of_mem hmem
  obtain ⟨-, x, y, hx, hy, hne, heq⟩ := mem_crossLatencies hl
  simp only [Prod.mk.injEq] at heq
  obtain ⟨hax, hby⟩ := heq
  cases h.eq_of_nodeId hb (List.mem_append_right _ hy) hby
  refine ⟨hy, ?_⟩
  cases List.mem_append.mp hx with
  | inl hlive => exact .inl ⟨x, hlive, hax.symm, hne⟩
  | inr hpeer =>
    cases h.eq_of_nodeId ha (List.mem_append_right _ hpeer) hax
    exact .inr ⟨hpeer, hne⟩

theorem mem_handed {k : NodeId × NodeId} : k ∈ (handedTopology own live peers).latencyMatrix ↔
    (∃ t ∈ own :: peers, ∃ l, (k, l) ∈ t.latencyMatrix.entries) ∨ k ∈ crossLatencies live peers := by
  rw [handedTopology, Dict.mem_ofList, List.map_append, List.mem_append]
  refine or_congr ?_ Iff.rfl
  constructor
  · intro hk
    obtain ⟨⟨k, l⟩, hentry, rfl⟩ := List.mem_map.mp hk
    obtain ⟨t, ht, hentry⟩ := List.mem_flatMap.mp hentry
    exact ⟨t, ht, l, hentry⟩
  · rintro ⟨t, ht, l, hentry⟩
    have hmem := (List.mem_flatMap (f := fun t : NetworkTopology => t.latencyMatrix.entries)).mpr
      ⟨t, ht, hentry⟩
    exact List.mem_map_of_mem (f := Prod.fst) hmem

theorem mem_handed_of_shard (h : LiveShards own live peers) {t : NetworkTopology}
    (ht : t ∈ own :: peers) {a b : ExecutionUnit} (ha : a ∈ t.nodes) (hb : b ∈ t.nodes)
    (hne : a ≠ b) : (a.nodeId, b.nodeId) ∈ (handedTopology own live peers).latencyMatrix ∨
      (b.nodeId, a.nodeId) ∈ (handedTopology own live peers).latencyMatrix := by
  have hentry : ∀ x y, [x, y].Sublist t.nodes →
      (x.nodeId, y.nodeId) ∈ (handedTopology own live peers).latencyMatrix := by
    intro x y hsub
    exact mem_handed.mpr (.inl ⟨t, ht, domainLatency x y, (h.meshed t ht _).mpr ⟨x, y, hsub, rfl⟩⟩)
  exact (pair_sublist_or ha hb hne).imp (hentry a b) (hentry b a)

/-- An own node and a peer-owned one have a latency when the node, as it is live, is in
another domain. -/
theorem crossed_own (h : LiveShards own live peers) {a v : ExecutionUnit} (ha : a ∈ own.nodes)
    (hv : v ∈ peers.flatMap (·.nodes)) :
    ((a.nodeId, v.nodeId) ∈ (handedTopology own live peers).latencyMatrix ∨
      (v.nodeId, a.nodeId) ∈ (handedTopology own live peers).latencyMatrix) ↔
    ∃ x ∈ live.nodes, x.nodeId = a.nodeId ∧ x.domainId ≠ v.domainId := by
  have ha' := List.mem_append_left (peers.flatMap (·.nodes)) ha
  have hv' := List.mem_append_right own.nodes hv
  have happart : ∀ t ∈ own :: peers, a ∈ t.nodes → v ∉ t.nodes := by
    intro t ht hat hvt
    cases ht with
    | head => exact h.own_not_peer hvt hv
    | tail _ ht => exact h.own_not_peer ha (List.mem_flatMap.mpr ⟨t, ht, hat⟩)
  rw [mem_handed, mem_handed]
  constructor
  · rintro ((⟨t, ht, l, hentry⟩ | hcross) | (⟨t, ht, l, hentry⟩ | hcross))
    · have hsub := (h.stored ha' hv' ht hentry).1
      exact absurd (hsub.subset (by simp)) (happart t ht (hsub.subset (by simp)))
    · cases (h.crossed ha' hv' hcross).2 with
      | inl hlive => exact hlive
      | inr hpeer => exact absurd hpeer.1 (h.own_not_peer ha)
    · have hsub := (h.stored hv' ha' ht hentry).1
      exact absurd (hsub.subset (by simp)) (happart t ht (hsub.subset (by simp)))
    · exact absurd (h.crossed hv' ha' hcross).1 (h.own_not_peer ha)
  · rintro ⟨x, hx, hid, hne⟩
    exact .inl (.inr (hid ▸ cross_mem_of_own hx hv hne))

/-- Two nodes of different peers have a latency when their domains differ. -/
theorem crossed_peers (h : LiveShards own live peers) {s t : NetworkTopology}
    (hsub : [s, t].Sublist peers) {u v : ExecutionUnit} (hu : u ∈ s.nodes) (hv : v ∈ t.nodes) :
    ((u.nodeId, v.nodeId) ∈ (handedTopology own live peers).latencyMatrix ∨
      (v.nodeId, u.nodeId) ∈ (handedTopology own live peers).latencyMatrix) ↔
    u.domainId ≠ v.domainId := by
  have hs : s ∈ peers := hsub.subset (by simp)
  have ht : t ∈ peers := hsub.subset (by simp)
  have hup : u ∈ peers.flatMap (·.nodes) := List.mem_flatMap.mpr ⟨s, hs, hu⟩
  have hvp : v ∈ peers.flatMap (·.nodes) := List.mem_flatMap.mpr ⟨t, ht, hv⟩
  have hu' := List.mem_append_right own.nodes hup
  have hv' := List.mem_append_right own.nodes hvp
  have hdisjoint : s.ids.Disjoint t.ids :=
    (List.nodup_flatMap.mp h.nodupIds).2.forall_sublist (hsub.cons own)
  -- a shard that holds both would be the shard of each
  have happart : ∀ r ∈ own :: peers, u ∈ r.nodes → v ∉ r.nodes := by
    intro r hr hur hvr
    have hsr := eq_of_mem_ids h.nodupIds (List.mem_cons_of_mem _ hs) hr
      (NetworkTopology.mem_ids hu) (NetworkTopology.mem_ids hur)
    exact hdisjoint (hsr ▸ NetworkTopology.mem_ids hvr) (NetworkTopology.mem_ids hv)
  rw [mem_handed, mem_handed]
  constructor
  · rintro ((⟨r, hr, l, hentry⟩ | hcross) | (⟨r, hr, l, hentry⟩ | hcross))
    · have hpair := (h.stored hu' hv' hr hentry).1
      exact absurd (hpair.subset (by simp)) (happart r hr (hpair.subset (by simp)))
    · cases (h.crossed hu' hv' hcross).2 with
      | inl hlive =>
        obtain ⟨x, hx, hid, -⟩ := hlive
        exact absurd hid (h.foreign x hx u hup)
      | inr hpeer => exact hpeer.2
    · have hpair := (h.stored hv' hu' hr hentry).1
      exact absurd (hpair.subset (by simp)) (happart r hr (hpair.subset (by simp)))
    · cases (h.crossed hv' hu' hcross).2 with
      | inl hlive =>
        obtain ⟨x, hx, hid, -⟩ := hlive
        exact absurd hid (h.foreign x hx v hvp)
      | inr hpeer => exact hpeer.2.symm
  · intro hne
    have hne' : u ≠ v := fun heq => hne (congrArg ExecutionUnit.domainId heq)
    exact (pair_sublist_or hup hvp hne').imp (fun hpair => .inr (cross_mem_of_peers hpair hne))
      fun hpair => .inr (cross_mem_of_peers hpair (Ne.symm hne))

/-- Two nodes have a latency when an own one is live in another domain than a peer-owned
one, and peer-owned ones of different peers are in different domains. -/
theorem covered_pair (h : LiveShards own live peers) {a b : ExecutionUnit}
    (ha : a ∈ own.nodes ++ peers.flatMap (·.nodes)) (hb : b ∈ own.nodes ++ peers.flatMap (·.nodes))
    (hid : a.nodeId ≠ b.nodeId)
    (hab : a ∈ own.nodes → b ∈ peers.flatMap (·.nodes) →
      ∃ x ∈ live.nodes, x.nodeId = a.nodeId ∧ x.domainId ≠ b.domainId)
    (hba : b ∈ own.nodes → a ∈ peers.flatMap (·.nodes) →
      ∃ x ∈ live.nodes, x.nodeId = b.nodeId ∧ x.domainId ≠ a.domainId)
    (hpeers : ∀ s t, ([s, t].Sublist peers ∨ [t, s].Sublist peers) → a ∈ s.nodes → b ∈ t.nodes →
      a.domainId ≠ b.domainId) :
    (a.nodeId, b.nodeId) ∈ (handedTopology own live peers).latencyMatrix ∨
      (b.nodeId, a.nodeId) ∈ (handedTopology own live peers).latencyMatrix := by
  have hne : a ≠ b := fun heq => hid (congrArg ExecutionUnit.nodeId heq)
  cases List.mem_append.mp ha with
  | inl ha =>
    cases List.mem_append.mp hb with
    | inl hb => exact h.mem_handed_of_shard (by simp) ha hb hne
    | inr hb => exact (h.crossed_own ha hb).mpr (hab ha hb)
  | inr ha =>
    cases List.mem_append.mp hb with
    | inl hb => exact ((h.crossed_own hb ha).mpr (hba hb ha)).symm
    | inr hb =>
      obtain ⟨s, hs, ha⟩ := List.mem_flatMap.mp ha
      obtain ⟨t, ht, hb⟩ := List.mem_flatMap.mp hb
      by_cases heq : s = t
      · exact h.mem_handed_of_shard (List.mem_cons_of_mem _ ht) (heq ▸ ha) hb hne
      · cases pair_sublist_or hs ht heq with
        | inl hsub => exact (h.crossed_peers hsub ha hb).mpr (hpeers s t (.inl hsub) ha hb)
        | inr hsub =>
          exact ((h.crossed_peers hsub hb ha).mpr (Ne.symm (hpeers s t (.inr hsub) ha hb))).symm

/-- The topology is covered when every own node is live in another domain than each
peer-owned one, and the peers share no domains. -/
theorem covered_iff (h : LiveShards own live peers) : (handedTopology own live peers).Covered ↔
    (∀ a ∈ own.nodes, ∀ v ∈ peers.flatMap (·.nodes),
      ∃ x ∈ live.nodes, x.nodeId = a.nodeId ∧ x.domainId ≠ v.domainId) ∧
    peers.Pairwise fun s t => ∀ u ∈ s.nodes, ∀ v ∈ t.nodes, u.domainId ≠ v.domainId := by
  have hnodes : (handedTopology own live peers).nodes = own.nodes ++ peers.flatMap (·.nodes) := rfl
  rw [List.pairwise_iff_forall_sublist]
  constructor
  · intro hcovered
    constructor
    · intro a ha v hv
      have hne : a ≠ v := fun heq => h.own_not_peer ha (heq ▸ hv)
      have ha' := List.mem_append_left (peers.flatMap (·.nodes)) ha
      have hv' := List.mem_append_right own.nodes hv
      exact (h.crossed_own ha hv).mp (hcovered a (hnodes ▸ ha') v (hnodes ▸ hv') fun hid =>
        hne (h.eq_of_nodeId ha' hv' hid))
    · intro s t hsub u hu v hv
      have hdisjoint : s.ids.Disjoint t.ids :=
        (List.nodup_flatMap.mp h.nodupIds).2.forall_sublist (hsub.cons own)
      have hid : u.nodeId ≠ v.nodeId := fun heq =>
        hdisjoint (NetworkTopology.mem_ids hu) (heq ▸ NetworkTopology.mem_ids hv)
      have hmem : ∀ r ∈ peers, ∀ x ∈ r.nodes, x ∈ (handedTopology own live peers).nodes :=
        fun r hr x hx => mem_nodes (List.mem_cons_of_mem _ hr) hx
      exact (h.crossed_peers hsub hu hv).mp
        (hcovered u (hmem s (hsub.subset (by simp)) u hu) v (hmem t (hsub.subset (by simp)) v hv) hid)
  · rintro ⟨hown, hpeers⟩ a ha b hb hid
    refine h.covered_pair ha hb hid (fun ha hb => hown a ha b hb) (fun hb ha => hown b hb a ha) ?_
    intro s t hsub ha hb
    cases hsub with
    | inl hsub => exact hpeers hsub a ha b hb
    | inr hsub => exact (hpeers hsub b hb a ha).symm

/-- What is stored for two nodes is one value, whatever their order. -/
theorem stored_eq (h : LiveShards own live peers) {a b : ExecutionUnit}
    (ha : a ∈ own.nodes ++ peers.flatMap (·.nodes)) (hb : b ∈ own.nodes ++ peers.flatMap (·.nodes))
    {l : ℚ}
    (hl : (handedTopology own live peers).latencyMatrix.get? (a.nodeId, b.nodeId) = some l) :
    l = handedLatency live peers a b := by
  rw [handedTopology, Dict.get?_ofList_append, Dict.ofList_entries] at hl
  cases hcross : (crossLatencies live peers).get? (a.nodeId, b.nodeId) with
  | some l' =>
    rw [hcross] at hl
    cases hl
    rw [handedLatency, if_pos (.inl (Dict.mem_of_get?_eq_some hcross))]
    exact (mem_crossLatencies hcross).1
  | none =>
    rw [hcross, Option.none_or] at hl
    obtain ⟨t, ht, hentry⟩ := List.mem_flatMap.mp (Dict.mem_of_get?_ofList hl)
    obtain ⟨hsub, hlat⟩ := h.stored ha hb ht hentry
    have hnone : (a.nodeId, b.nodeId) ∉ crossLatencies live peers :=
      Dict.get?_eq_none_iff.mp hcross
    refine hlat.trans (if_neg ?_).symm
    rintro (hab | hba)
    · exact hnone hab
    · -- then both belong to one peer, which would have put them in this order as well
      obtain ⟨hap, hlive | ⟨hbp, hne⟩⟩ := h.crossed hb ha hba
      · obtain ⟨x, hx, hid, -⟩ := hlive
        have hbt : b ∈ t.nodes := hsub.subset (by simp)
        cases ht with
        | head => exact h.own_not_peer (hsub.subset (by simp)) hap
        | tail _ ht => exact h.foreign x hx b (List.mem_flatMap.mpr ⟨t, ht, hbt⟩) hid
      · cases ht with
        | head => exact h.own_not_peer (hsub.subset (by simp)) hap
        | tail _ ht =>
          have hflat : t.nodes.Sublist (peers.flatMap (·.nodes)) := by
            rw [List.flatMap]
            exact List.sublist_flatten_of_mem (List.mem_map_of_mem ht)
          exact hnone (cross_mem_of_peers (hsub.trans hflat) (Ne.symm hne))

/-- A latency that is there is `handedLatency`. -/
theorem latency_eq (h : LiveShards own live peers) {a b : ExecutionUnit}
    (ha : a ∈ own.nodes ++ peers.flatMap (·.nodes)) (hb : b ∈ own.nodes ++ peers.flatMap (·.nodes))
    (hid : a.nodeId ≠ b.nodeId)
    (hstored : (a.nodeId, b.nodeId) ∈ (handedTopology own live peers).latencyMatrix ∨
      (b.nodeId, a.nodeId) ∈ (handedTopology own live peers).latencyMatrix) :
    (handedTopology own live peers).latency a.nodeId b.nodeId = .ok (handedLatency live peers a b) := by
  rw [NetworkTopology.latency, if_neg hid]
  cases hab : (handedTopology own live peers).latencyMatrix.get? (a.nodeId, b.nodeId) with
  | some l => rw [h.stored_eq ha hb hab]
  | none =>
    have hmem := hstored.resolve_left (Dict.get?_eq_none_iff.mp hab)
    obtain ⟨l, hl⟩ := Dict.exists_get?_of_mem hmem
    rw [hl, h.stored_eq hb ha hl, handedLatency_comm]

theorem latency_comm (h : LiveShards own live peers) {a b : ExecutionUnit}
    (ha : a ∈ own.nodes ++ peers.flatMap (·.nodes)) (hb : b ∈ own.nodes ++ peers.flatMap (·.nodes))
    {l : ℚ} (hl : (handedTopology own live peers).latency a.nodeId b.nodeId = .ok l) :
    (handedTopology own live peers).latency b.nodeId a.nodeId = .ok l := by
  by_cases hid : a.nodeId = b.nodeId
  · rw [hid] at hl ⊢
    exact hl
  · have hstored : (a.nodeId, b.nodeId) ∈ (handedTopology own live peers).latencyMatrix ∨
        (b.nodeId, a.nodeId) ∈ (handedTopology own live peers).latencyMatrix := by
      rw [NetworkTopology.latency, if_neg hid] at hl
      by_contra hnone
      rw [not_or] at hnone
      rw [Dict.get?_eq_none_iff.mpr hnone.1, Dict.get?_eq_none_iff.mpr hnone.2] at hl
      cases hl
    rw [h.latency_eq ha hb hid hstored] at hl
    rw [h.latency_eq hb ha (Ne.symm hid) hstored.symm, handedLatency_comm, hl]

/-- A covered topology is complete: the order of a pair does not matter. -/
theorem complete (h : LiveShards own live peers) (hcovered : (handedTopology own live peers).Covered) :
    (handedTopology own live peers).Complete := by
  refine (NetworkTopology.complete_of_pairs h.nodup_nodes (@handedLatency_comm live peers) ?_ ?_).1
  · intro a ha b hb l hl
    exact h.stored_eq ha hb hl
  · intro a ha b hb hne
    exact hcovered a ha b hb fun hid => hne (h.eq_of_nodeId ha hb hid)

end LiveShards

end Coverage

/-! ## While the coordinator waits -/

/-- What may happen to the registry while the coordinator waits for its peers. -/
inductive RegistryEvent where
  | register (req : RegisterRequest)
  | deregister (nodeId : NodeId)

def RegistryEvent.call : RegistryEvent → Call
  | .register req => .register req
  | .deregister nodeId => .deregister nodeId

/-- The broker after the handler of the event has run. -/
def handleEvent (cfg : BrokerConfig) (b : Broker) (e : RegistryEvent) : Broker :=
  ((body cfg e.call).alone ⟨b, [], []⟩).2.state

/-- The domain of a registered worker. -/
def domainOf (b : Broker) (nodeId : NodeId) : Option DomainId :=
  (b.workers.get? nodeId).map (·.domainId)

/-- The domain in which a worker is registered after the events: that of its last
registration, unless it has left since. -/
def domainAfter (nodeId : NodeId) (domainId? : Option DomainId) (events : List RegistryEvent) :
    Option DomainId :=
  events.foldl (fun domainId? e =>
    match e with
    | .register req => if nodeId = req.nodeId then some req.domainId else domainId?
    | .deregister left => if nodeId = left then none else domainId?) domainId?

/-- The topology lists the registered workers in their domains, at whatever load. -/
structure Charted (b : Broker) : Prop where
  named : Named b
  listed : ∃ workers : List WorkerInfo, b.topology = topologyOf workers ∧
    workers.map (fun w => (w.nodeId, w.domainId)) =
      b.workers.values.map fun w => (w.nodeId, w.domainId)

section Events

variable {cfg : BrokerConfig} {b : Broker}

theorem Named.charted (h : Named b) : Charted (rebuildTopology b) where
  named := h
  listed := by
    refine ⟨b.workers.values, ?_, rfl⟩
    rw [topologyOf_eq (h.values_ids ▸ b.workers.keys_nodup)]
    rfl

theorem workers_failPipelinesOn (nodeId : NodeId) (b : Broker) :
    (failPipelinesOn nodeId b).workers = b.workers ∧
      (failPipelinesOn nodeId b).topology = b.topology := by
  apply foldl_scan (P := fun _ (b' : Broker) => b'.workers = b.workers ∧ b'.topology = b.topology)
  · exact ⟨rfl, rfl⟩
  · intro done pid rest b' _ h
    exact h

theorem handleEvent_register (req : RegisterRequest) : handleEvent cfg b (.register req) =
    rebuildTopology { b with workers := b.workers.insert req.nodeId (req.workerInfo req.bidCostMs) } :=
  rfl

theorem handleEvent_deregister (nodeId : NodeId) : handleEvent cfg b (.deregister nodeId) =
    if nodeId ∉ b.workers then b
    else failPipelinesOn nodeId (rebuildTopology { b with workers := b.workers.erase nodeId }) := by
  simp only [handleEvent, RegistryEvent.call, body, deregister, Co.alone_bind, Co.alone_read]
  split
  · rfl
  · rfl

theorem Charted.after (h : Charted b) (e : RegistryEvent) : Charted (handleEvent cfg b e) := by
  cases e with
  | register req =>
    rw [handleEvent_register]
    exact (@Named.insert _ h.named req.nodeId (req.workerInfo req.bidCostMs) rfl).charted
  | deregister nodeId =>
    rw [handleEvent_deregister]
    split
    · exact h
    · have hleft := (h.named.erase nodeId).charted
      obtain ⟨hworkers, htopology⟩ := workers_failPipelinesOn nodeId
        (rebuildTopology { b with workers := b.workers.erase nodeId })
      constructor
      · unfold Named
        rw [hworkers]
        exact hleft.named
      · rw [hworkers, htopology]
        exact hleft.listed

theorem domainOf_handleEvent (nodeId : NodeId) (e : RegistryEvent) :
    domainOf (handleEvent cfg b e) nodeId = domainAfter nodeId (domainOf b nodeId) [e] := by
  cases e with
  | register req =>
    rw [handleEvent_register, domainOf, rebuildTopology, Dict.get?_insert]
    simp only [domainAfter, List.foldl_cons, List.foldl_nil]
    split <;> rfl
  | deregister left =>
    rw [handleEvent_deregister]
    simp only [domainAfter, List.foldl_cons, List.foldl_nil]
    split
    · next hnot =>
      split
      · next heq =>
        rw [domainOf, heq, Dict.get?_eq_none_iff.mpr hnot]
        rfl
      · rfl
    · rw [domainOf, (workers_failPipelinesOn ..).1, rebuildTopology, Dict.get?_erase]
      split <;> rfl

variable (cfg) in
theorem Charted.afterAll (h : Charted b) (events : List RegistryEvent) :
    Charted (events.foldl (handleEvent cfg) b) := by
  induction events generalizing b with
  | nil => exact h
  | cons e events ih => exact ih (h.after e)

variable (cfg) in
theorem domainOf_events (nodeId : NodeId) (events : List RegistryEvent) :
    domainOf (events.foldl (handleEvent cfg) b) nodeId =
      domainAfter nodeId (domainOf b nodeId) events := by
  induction events generalizing b with
  | nil => rfl
  | cons e events ih =>
    rw [List.foldl_cons, ih, domainOf_handleEvent]
    rfl

theorem registered_of_domainAfter {nodeId : NodeId} {d? : Option DomainId}
    {events : List RegistryEvent} {d : DomainId} (h : domainAfter nodeId d? events = some d) :
    d?.isSome ∨ ∃ req, RegistryEvent.register req ∈ events ∧ req.nodeId = nodeId := by
  induction events generalizing d? with
  | nil =>
    left
    rw [show d? = some d from h]
    rfl
  | cons e events ih =>
    cases ih h with
    | inr hlater =>
      obtain ⟨req, hreq, hid⟩ := hlater
      exact .inr ⟨req, List.mem_cons_of_mem _ hreq, hid⟩
    | inl hsome =>
      cases e with
      | register req =>
        by_cases hid : nodeId = req.nodeId
        · exact .inr ⟨req, List.mem_cons_self, hid.symm⟩
        · exact .inl (by simpa [hid] using hsome)
      | deregister left =>
        by_cases hid : nodeId = left
        · simp [hid] at hsome
        · exact .inl (by simpa [hid] using hsome)

theorem topologyOf_ids {workers : List WorkerInfo} (h : (workers.map (·.nodeId)).Nodup) :
    (topologyOf workers).ids = workers.map (·.nodeId) := by
  rw [NetworkTopology.ids, topologyOf_eq h, List.map_map]
  rfl

theorem Charted.nodupIds (h : Charted b) {workers : List WorkerInfo}
    (hlisted : workers.map (fun w => (w.nodeId, w.domainId)) =
      b.workers.values.map fun w => (w.nodeId, w.domainId)) :
    workers.map (·.nodeId) = b.workers.keys := by
  have hids := congrArg (List.map Prod.fst) hlisted
  rw [List.map_map, List.map_map] at hids
  exact hids.trans h.named.values_ids

theorem Charted.ids (h : Charted b) : b.topology.ids = b.workers.keys := by
  obtain ⟨workers, htopology, hlisted⟩ := h.listed
  have hids := h.nodupIds hlisted
  rw [htopology, topologyOf_ids (hids ▸ b.workers.keys_nodup), hids]

theorem Charted.meshed (h : Charted b) : b.topology.Meshed := by
  obtain ⟨workers, htopology, hlisted⟩ := h.listed
  rw [htopology]
  exact topologyOf_meshed (h.nodupIds hlisted ▸ b.workers.keys_nodup)

/-- The nodes of the topology, by id and domain. -/
theorem Charted.mem_nodes_iff (h : Charted b) {nodeId : NodeId} {d : DomainId} :
    (∃ x ∈ b.topology.nodes, x.nodeId = nodeId ∧ x.domainId = d) ↔ domainOf b nodeId = some d := by
  obtain ⟨workers, htopology, hlisted⟩ := h.listed
  have hmem : (nodeId, d) ∈ workers.map (fun w => (w.nodeId, w.domainId)) ↔
      (nodeId, d) ∈ b.workers.values.map fun w => (w.nodeId, w.domainId) := by rw [hlisted]
  rw [htopology, topologyOf_eq (h.nodupIds hlisted ▸ b.workers.keys_nodup), domainOf,
    Option.map_eq_some_iff]
  simp only [List.mem_map, Prod.mk.injEq] at hmem ⊢
  constructor
  · rintro ⟨-, ⟨worker, hworker, rfl⟩, hid, hd⟩
    obtain ⟨w, hw, hwid, hwd⟩ := hmem.mp ⟨worker, hworker, hid, hd⟩
    obtain ⟨⟨key, w⟩, hentry, rfl⟩ := List.mem_map.mp hw
    have hget := Dict.get?_eq_some_iff.mpr hentry
    have hkey : w.nodeId = key := h.named key w hget
    exact ⟨w, hwid ▸ hkey ▸ hget, hwd⟩
  · rintro ⟨w, hget, hd⟩
    obtain ⟨worker, hworker, hid, hwd⟩ := hmem.mpr
      ⟨w, List.mem_map_of_mem (Dict.get?_eq_some_iff.mp hget), h.named nodeId w hget, hd⟩
    exact ⟨executionUnit worker, ⟨worker, hworker, rfl⟩, hid, hwd⟩

end Events

/-! ## The decision -/

/-- The snapshots of peers with these workers, as the coordinator reads them. -/
def fetchedTopologies (peers : List (List WorkerInfo)) : List NetworkTopology :=
  wirePeers (peers.map fun shard =>
    (topologyOf shard, .ofList (shard.map fun w => (w.nodeId, w.url))))

/-- The placement step of `publish` on the coordinator, with the topology it took
before it asked its peers and the one that is live when they have answered. It is
`none` when there are no nodes or no feasible placement. -/
def placeOnCoordinator (dag : PipelineDAG) (topoSnapshot live : NetworkTopology)
    (peers : List NetworkTopology) (governance : GovernancePolicy) (w : Weights) :
    Except PyError (Option Placement) :=
  if topoSnapshot.nodes = [] then return none
  else
    match decideGlobally dag topoSnapshot peers (crossLatencies live peers) governance w with
    | .ok placement => return some placement
    | .error (.runtime _) => return none
    | .error e => .error e

/-- The solver gets a covered topology, and the step raises nothing. -/
structure DecidesSafely (topoSnapshot live : NetworkTopology) (peers : List NetworkTopology) :
    Prop where
  covered : topoSnapshot.nodes ≠ [] → ∃ merged,
    mergeTopologies (topoSnapshot :: peers) (crossLatencies live peers) = .ok merged ∧ merged.Covered
  returns : ∀ dag governance w, dag.Built →
    ∃ placement?, placeOnCoordinator dag topoSnapshot live peers governance w = .ok placement?

section Decision

variable {cfg : BrokerConfig} {b : Broker} {events : List RegistryEvent}
  {peers : List (List WorkerInfo)}

theorem fetchedTopologies_eq : fetchedTopologies peers = peers.map topologyOf := by
  rw [fetchedTopologies, wirePeers_eq, List.map_map]
  rfl

theorem fetched_nodes (h : ∀ shard ∈ peers, (shard.map (·.nodeId)).Nodup) :
    (fetchedTopologies peers).flatMap (·.nodes) = peers.flatten.map executionUnit := by
  rw [fetchedTopologies_eq, List.flatMap_map, List.flatMap,
    List.map_congr_left fun shard hshard => by rw [topologyOf_eq (h shard hshard)]]
  exact (List.map_flatten ..).symm

/-- The worker ids of the coordinator and of its peers are all different, when it takes
its topology and while it waits. -/
structure DisjointIds (b : Broker) (peers : List (List WorkerInfo)) (events : List RegistryEvent) :
    Prop where
  nodup : (b.workers.keys ++ peers.flatten.map (·.nodeId)).Nodup
  foreign : ∀ req, RegistryEvent.register req ∈ events → req.nodeId ∉ peers.flatten.map (·.nodeId)

theorem DisjointIds.shard_nodup (h : DisjointIds b peers events) :
    ∀ shard ∈ peers, (shard.map (·.nodeId)).Nodup := by
  intro shard hshard
  have hsub : shard.Sublist peers.flatten := List.sublist_flatten_of_mem hshard
  exact (hsub.map (·.nodeId)).nodup (List.nodup_append.mp h.nodup).2.1

variable (cfg) in
theorem DisjointIds.liveShards (h : DisjointIds b peers events) (hb : Charted b) :
    LiveShards b.topology (events.foldl (handleEvent cfg) b).topology (fetchedTopologies peers) where
  meshed := by
    intro t ht
    cases ht with
    | head => exact hb.meshed
    | tail _ ht =>
      rw [fetchedTopologies_eq] at ht
      obtain ⟨shard, hshard, rfl⟩ := List.mem_map.mp ht
      exact topologyOf_meshed (h.shard_nodup shard hshard)
  nodupIds := by
    rw [List.flatMap_cons, hb.ids, flatMap_ids, fetched_nodes h.shard_nodup, List.map_map]
    exact h.nodup
  foreign := by
    intro x hx v hv hid
    rw [fetched_nodes h.shard_nodup] at hv
    obtain ⟨worker, hworker, rfl⟩ := List.mem_map.mp hv
    have hpeer : worker.nodeId ∈ peers.flatten.map (·.nodeId) := List.mem_map_of_mem hworker
    have hlive := (hb.afterAll cfg events).mem_nodes_iff.mp ⟨x, hx, hid, rfl⟩
    rw [domainOf_events] at hlive
    cases registered_of_domainAfter hlive with
    | inl hsome =>
      rw [domainOf, Option.isSome_map, Dict.get?_isSome_iff] at hsome
      exact (List.nodup_append.mp h.nodup).2.2 _ hsome _ hpeer rfl
    | inr hreq =>
      obtain ⟨req, hreq, hname⟩ := hreq
      exact h.foreign req hreq (hname ▸ hpeer)

/-- Every worker that the coordinator took is still registered when it decides, in
another domain than each peer-owned worker, and no two peers share a domain. -/
structure DomainsApart (b : Broker) (peers : List (List WorkerInfo)) (events : List RegistryEvent) :
    Prop where
  own : ∀ nodeId ∈ b.workers.keys, ∀ v ∈ peers.flatten,
    ∃ d, domainAfter nodeId (domainOf b nodeId) events = some d ∧ d ≠ v.domainId
  peers : peers.Pairwise fun s t => ∀ u ∈ s, ∀ v ∈ t, u.domainId ≠ v.domainId

variable (cfg) in
theorem covered_iff_domainsApart (h : DisjointIds b peers events) (hb : Charted b) :
    (handedTopology b.topology (events.foldl (handleEvent cfg) b).topology
      (fetchedTopologies peers)).Covered ↔ DomainsApart b peers events := by
  rw [(h.liveShards cfg hb).covered_iff, fetched_nodes h.shard_nodup]
  have hown : (∀ a ∈ b.topology.nodes, ∀ v ∈ peers.flatten.map executionUnit,
      ∃ x ∈ (events.foldl (handleEvent cfg) b).topology.nodes,
        x.nodeId = a.nodeId ∧ x.domainId ≠ v.domainId) ↔
      ∀ nodeId ∈ b.workers.keys, ∀ v ∈ peers.flatten,
        ∃ d, domainAfter nodeId (domainOf b nodeId) events = some d ∧ d ≠ v.domainId := by
    have hlive : ∀ nodeId d', (∃ x ∈ (events.foldl (handleEvent cfg) b).topology.nodes,
        x.nodeId = nodeId ∧ x.domainId ≠ d') ↔
        ∃ d, domainAfter nodeId (domainOf b nodeId) events = some d ∧ d ≠ d' := by
      intro nodeId d'
      constructor
      · rintro ⟨x, hx, hid, hne⟩
        refine ⟨x.domainId, ?_, hne⟩
        rw [← domainOf_events]
        exact (hb.afterAll cfg events).mem_nodes_iff.mp ⟨x, hx, hid, rfl⟩
      · rintro ⟨d, hd, hne⟩
        rw [← domainOf_events cfg] at hd
        obtain ⟨x, hx, hid, rfl⟩ := (hb.afterAll cfg events).mem_nodes_iff.mpr hd
        exact ⟨x, hx, hid, hne⟩
    rw [← hb.ids]
    simp only [NetworkTopology.ids, List.forall_mem_map, hlive]
    rfl
  have hpeers : ((fetchedTopologies peers).Pairwise fun s t =>
      ∀ u ∈ s.nodes, ∀ v ∈ t.nodes, u.domainId ≠ v.domainId) ↔
      peers.Pairwise fun s t => ∀ u ∈ s, ∀ v ∈ t, u.domainId ≠ v.domainId := by
    rw [fetchedTopologies_eq, List.pairwise_map]
    refine List.Pairwise.iff_of_mem fun hs ht => ?_
    rw [topologyOf_eq (h.shard_nodup _ hs), topologyOf_eq (h.shard_nodup _ ht)]
    simp only [List.forall_mem_map]
    rfl
  rw [hown, hpeers]
  exact ⟨fun hboth => ⟨hboth.1, hboth.2⟩, fun hapart => ⟨hapart.own, hapart.peers⟩⟩

variable (cfg) in
theorem merge_handed (h : DisjointIds b peers events) (hb : Charted b) :
    mergeTopologies (b.topology :: fetchedTopologies peers)
      (crossLatencies (events.foldl (handleEvent cfg) b).topology (fetchedTopologies peers)) =
    .ok (handedTopology b.topology (events.foldl (handleEvent cfg) b).topology
      (fetchedTopologies peers)) :=
  mergeTopologies_eq (flatMap_ids ▸ (h.liveShards cfg hb).nodupIds)

/-- The decision of the coordinator is safe exactly when the domains are apart. -/
theorem decidesSafely_iff (hb : Charted b) (h : DisjointIds b peers events) :
    DecidesSafely b.topology (events.foldl (handleEvent cfg) b).topology (fetchedTopologies peers) ↔
      b.workers.keys = [] ∨ DomainsApart b peers events := by
  have hempty : b.topology.nodes = [] ↔ b.workers.keys = [] := by
    rw [← hb.ids, NetworkTopology.ids, List.map_eq_nil_iff]
  constructor
  · intro hsafe
    by_cases hnone : b.workers.keys = []
    · exact .inl hnone
    · obtain ⟨merged, hmerged, hcovered⟩ := hsafe.covered fun hnil => hnone (hempty.mp hnil)
      rw [merge_handed cfg h hb] at hmerged
      cases hmerged
      exact .inr ((covered_iff_domainsApart cfg h hb).mp hcovered)
  · intro hapart
    cases hapart with
    | inl hnone =>
      refine ⟨fun hne => absurd (hempty.mpr hnone) hne, fun dag governance w _ => ⟨none, ?_⟩⟩
      exact if_pos (hempty.mpr hnone)
    | inr hapart =>
      have hcovered := (covered_iff_domainsApart cfg h hb).mpr hapart
      refine ⟨fun _ => ⟨_, merge_handed cfg h hb, hcovered⟩, fun dag governance w hbuilt => ?_⟩
      unfold placeOnCoordinator
      split
      · exact ⟨none, rfl⟩
      · rw [decideGlobally, merge_handed cfg h hb]
        cases findPlacement_returns hbuilt ((h.liveShards cfg hb).complete hcovered) governance w with
        | inl hok =>
          obtain ⟨p, hp⟩ := hok
          exact ⟨some p, by simp only [bind, Except.bind, hp]; rfl⟩
        | inr herror =>
          obtain ⟨msg, hmsg⟩ := herror
          exact ⟨none, by simp only [bind, Except.bind, hmsg]; rfl⟩

end Decision

private def siteWorker (nodeId : NodeId) (domainId : DomainId) : WorkerInfo :=
  ⟨nodeId, domainId, "flat", 4, "http://" ++ nodeId, 0, 0⟩

private def siteBroker : Broker :=
  rebuildTopology { workers := .ofList [("w1", siteWorker "w1" "d1")] }

private theorem charted_siteBroker : Charted siteBroker := by
  apply Named.charted
  intro nodeId worker hget
  have hentry := Dict.get?_eq_some_iff.mp hget
  cases List.mem_singleton.mp hentry
  rfl

private def siteMove : RegisterRequest where
  nodeId := "w1"
  domainId := "d3"
  sliceId := "flat"
  capacity := 4

private def siteConfig : BrokerConfig where
  domainId := "d1"
  brokerId := "b1"

/-- A worker moves to a third domain while the coordinator waits. -/
theorem decidesSafely_iff_site :
    DecidesSafely siteBroker.topology
      ([RegistryEvent.deregister "w1", .register siteMove].foldl
        (handleEvent siteConfig) siteBroker).topology
      (fetchedTopologies [[siteWorker "w2" "d2", siteWorker "w3" "d1"]]) ↔
    siteBroker.workers.keys = [] ∨ DomainsApart siteBroker
      [[siteWorker "w2" "d2", siteWorker "w3" "d1"]]
      [.deregister "w1", .register siteMove] :=
  decidesSafely_iff charted_siteBroker ⟨by decide, by simp [siteWorker, siteMove]⟩

/-- The peer owns a worker of the coordinator's domain, or the coordinator's worker leaves
while it waits: the decision raises `KeyError`. -/
theorem not_decidesSafely :
    (DisjointIds siteBroker [[siteWorker "w2" "d1"]] [] ∧
      placeOnCoordinator (spanDag "d1" "d1" 1 1) siteBroker.topology siteBroker.topology
        (fetchedTopologies [[siteWorker "w2" "d1"]]) {} {} =
        .error (.key "No latency entry for (w1, w2).")) ∧
    (DisjointIds siteBroker [[siteWorker "w2" "d2"]] [.deregister "w1"] ∧
      placeOnCoordinator (spanDag "d1" "d2" 1 1) siteBroker.topology
        (handleEvent siteConfig siteBroker (.deregister "w1")).topology
        (fetchedTopologies [[siteWorker "w2" "d2"]]) {} {} =
        .error (.key "No latency entry for (w2, w1).")) ∧
    ¬ ∀ (cfg : BrokerConfig) (b : Broker) (events : List RegistryEvent)
      (peers : List (List WorkerInfo)), Charted b → DisjointIds b peers events →
        DecidesSafely b.topology (events.foldl (handleEvent cfg) b).topology
          (fetchedTopologies peers) := by
  have hids : DisjointIds siteBroker [[siteWorker "w2" "d1"]] [] :=
    ⟨by decide, fun req hreq => by cases hreq⟩
  have hkey : placeOnCoordinator (spanDag "d1" "d1" 1 1) siteBroker.topology siteBroker.topology
      (fetchedTopologies [[siteWorker "w2" "d1"]]) {} {} =
      .error (.key "No latency entry for (w1, w2).") := by decide +kernel
  refine ⟨⟨hids, hkey⟩, ⟨⟨by decide, by simp⟩, by decide +kernel⟩, fun hall => ?_⟩
  obtain ⟨p, hp⟩ := (hall siteConfig siteBroker [] _ charted_siteBroker hids).returns
    (spanDag "d1" "d1" 1 1) {} {} (spanDag_built ..)
  cases hkey.symm.trans hp

end NeuralBroker
end NeuralPubSub
