-- SUMMARY: The registry and the topology of a neural broker agree as long as no health probe brings a new load.
import NeuralPubSub.Broker.Handlers

open Base

/-!
# Registry and topology

`NeuralBroker` keeps its workers twice: in the registry, and as the nodes of the
topology that placement decides on. Most updates change both sides or rebuild
the topology; the load that a health probe reports goes to the registry only.
-/

namespace NeuralPubSub
namespace NeuralBroker

/-! ## Agreement -/

/-- The registry and the topology hold the same worker ids, with the same data
for each of them. -/
structure RegistryAgrees (b : Broker) : Prop where
  ids : ∀ nodeId, nodeId ∈ b.workers ↔ nodeId ∈ b.topology.nodes.map (·.nodeId)
  data : ∀ eu ∈ b.topology.nodes, ∀ worker, b.workers.get? eu.nodeId = some worker →
    eu.domainId = worker.domainId ∧ eu.sliceId = worker.sliceId ∧
      eu.capacity = worker.capacity ∧ eu.currentLoad = worker.currentLoad

/-- Every entry of the registry is filed under its own id. -/
def Named (b : Broker) : Prop :=
  ∀ nodeId worker, b.workers.get? nodeId = some worker → worker.nodeId = nodeId

theorem Named.values_ids {b : Broker} (h : Named b) :
    b.workers.values.map (·.nodeId) = b.workers.keys := by
  rw [Dict.values, Dict.keys, List.map_map]
  refine List.map_congr_left fun e he => ?_
  exact h e.1 e.2 (Dict.get?_eq_some_iff.mpr he)

/-- The topology lists the workers of the registry, in the same order. -/
structure Mirrored (b : Broker) : Prop where
  named : Named b
  nodes : b.topology.nodes = b.workers.values.map executionUnit

theorem Mirrored.registryAgrees {b : Broker} (h : Mirrored b) : RegistryAgrees b where
  ids nodeId := by
    rw [h.nodes, List.map_map, ← Dict.get?_isSome_iff]
    constructor
    · intro hmem
      obtain ⟨worker, hworker⟩ := Option.isSome_iff_exists.mp hmem
      apply List.mem_map.mpr
      exact ⟨worker, List.mem_map_of_mem (Dict.get?_eq_some_iff.mp hworker), h.named _ _ hworker⟩
    · intro hmem
      obtain ⟨worker, hworker, rfl⟩ := List.mem_map.mp hmem
      obtain ⟨⟨key, _⟩, hentry, rfl⟩ := List.mem_map.mp hworker
      have hget := Dict.get?_eq_some_iff.mpr hentry
      have hname := h.named _ _ hget
      simp [executionUnit, hname, hget]
  data eu heu worker hworker := by
    rw [h.nodes] at heu
    obtain ⟨worker', hworker', rfl⟩ := List.mem_map.mp heu
    obtain ⟨⟨key, _⟩, hentry, rfl⟩ := List.mem_map.mp hworker'
    have hget := Dict.get?_eq_some_iff.mpr hentry
    have hname := h.named _ _ hget
    rw [show (executionUnit _).nodeId = key from hname, hget] at hworker
    obtain rfl := Option.some.inj hworker
    exact ⟨rfl, rfl, rfl, rfl⟩

/-! ## Updates that keep the agreement -/

theorem Named.rebuild {b : Broker} (h : Named b) : Mirrored (rebuildTopology b) := ⟨h, rfl⟩

theorem Named.insert {b : Broker} (h : Named b) {nodeId : NodeId} {worker : WorkerInfo}
    (hworker : worker.nodeId = nodeId) :
    Named { b with workers := b.workers.insert nodeId worker } := by
  intro n w hget
  rw [Dict.get?_insert] at hget
  split at hget
  · next heq =>
    obtain rfl := Option.some.inj hget
    rw [heq, hworker]
  · exact h n w hget

theorem Named.erase {b : Broker} (h : Named b) (nodeId : NodeId) :
    Named { b with workers := b.workers.erase nodeId } := by
  intro n w hget
  rw [Dict.get?_erase] at hget
  split at hget
  · cases hget
  · exact h n w hget

/-- Giving a node another load commutes with giving the worker that load. -/
theorem setNodeLoad_entries (nodeId : NodeId) (load : ℚ) :
    ∀ entries : List (NodeId × WorkerInfo), (∀ e ∈ entries, e.2.nodeId = e.1) →
      ∀ worker, Dict.lookupEntry nodeId entries = some worker →
      setNodeLoad nodeId load ((entries.map Prod.snd).map executionUnit) =
        ((Dict.insertEntry nodeId { worker with currentLoad := load } entries).map Prod.snd).map
          executionUnit
  | [], _, _, h => by cases h
  | (key, first) :: entries, hnamed, worker, h => by
    have hfirst : first.nodeId = key := hnamed (key, first) (by simp)
    by_cases hkey : key = nodeId
    · rw [Dict.lookupEntry, if_pos hkey] at h
      obtain rfl := Option.some.inj h
      simp [setNodeLoad, Dict.insertEntry, executionUnit, hfirst, hkey]
    · rw [Dict.lookupEntry, if_neg hkey] at h
      have ih := setNodeLoad_entries nodeId load entries (fun e he => hnamed e (by simp [he])) worker h
      have hunit : (executionUnit first).nodeId ≠ nodeId := by
        rw [show (executionUnit first).nodeId = key from hfirst]
        exact hkey
      simp only [List.map_cons, setNodeLoad, if_neg hunit, Dict.insertEntry, if_neg hkey, ih]

theorem Mirrored.load {b : Broker} (h : Mirrored b) (nodeId : NodeId) (delta : ℚ) :
    Mirrored (updateWorkerLoad nodeId delta b) := by
  unfold updateWorkerLoad
  cases hworker : b.workers.get? nodeId with
  | none => exact h
  | some worker =>
    refine ⟨Named.insert h.named (h.named nodeId worker hworker), ?_⟩
    have hentries : ∀ e ∈ b.workers.entries, e.2.nodeId = e.1 := fun e he =>
      h.named e.1 e.2 (Dict.get?_eq_some_iff.mpr he)
    have hset := setNodeLoad_entries nodeId (max 0 (worker.currentLoad + delta)) b.workers.entries
      hentries worker hworker
    show setNodeLoad _ _ b.topology.nodes = _
    rw [h.nodes]
    exact hset

/-- What the handlers of a neural broker keep. -/
structure MirrorInv (sc : BrokerScene) : Prop where
  pending : OnlyDispatches sc
  mirrored : Mirrored sc.state

theorem MirrorInv.of_eq {sc : BrokerScene} (hI : MirrorInv sc) {b : Broker}
    (h : b.workers = sc.state.workers ∧ b.topology = sc.state.topology) :
    MirrorInv (sc.withState b) := by
  have hnamed : Named b := by
    unfold Named
    rw [h.1]
    exact hI.mirrored.named
  refine ⟨hI.pending, hnamed, ?_⟩
  show b.topology.nodes = b.workers.values.map executionUnit
  rw [h.1, h.2]
  exact hI.mirrored.nodes

theorem tolerates_mirrorInv (cfg : BrokerConfig) : Tolerates .neural cfg MirrorInv where
  aside hI h := hI.of_eq ⟨h.workers, h.topology⟩
  registry hI h := by
    refine ⟨hI.pending, ?_⟩
    cases h with
    | register req bidCostMs =>
      have hname : (req.workerInfo bidCostMs).nodeId = req.nodeId := rfl
      exact (hI.mirrored.named.insert hname).rebuild
    | remove nodeId => exact (hI.mirrored.named.erase nodeId).rebuild
    | load nodeId delta _ => exact hI.mirrored.load nodeId delta
  emit _ hI := ⟨hI.pending, hI.mirrored⟩
  admitted _ hI _ _ := ⟨hI.pending, hI.mirrored.named, hI.mirrored.nodes⟩
  recorded _ hI _ := ⟨hI.pending, hI.mirrored.named, hI.mirrored.nodes⟩
  scheduled hI _ _ := by
    exact ⟨hI.pending.scheduled _ _, hI.mirrored.named, hI.mirrored.nodes⟩
  finalised hI _ _ _ _ := ⟨hI.pending, hI.mirrored.named, hI.mirrored.nodes⟩

/-! ## Health check rounds -/

/-- Every probe that brings a load of a registered worker brings the recorded one. -/
def ProbesInSync (results : List ProbeResult) (b : Broker) : Prop :=
  ∀ probe ∈ results, probe.healthy = true → ∀ load ∈ probe.reportedLoad,
    ∀ worker ∈ b.workers.get? probe.nodeId, worker.currentLoad = load

/-- The first dead worker of the round that is registered or hosts stages of an
active pipeline is a registered one: its removal rebuilds the topology before any
stage is placed again. -/
def RoundRebuilds (cfg : BrokerConfig) (results : List ProbeResult) (b : Broker) : Prop :=
  ∃ nodeId ∈ (roundOutcome .neural cfg results b).1.find? fun n =>
    n ∈ b.workers ∨ b.affectedPipelines n ≠ [], nodeId ∈ b.workers

/-- A call that leaves the registry and the topology in agreement. -/
def CallAgrees (cfg : BrokerConfig) (sc : BrokerScene) : Call → Prop
  | .healthCheck results => ProbesInSync results sc.state ∨ RoundRebuilds cfg results sc.state
  | _ => True

instance (results : List ProbeResult) (b : Broker) : Decidable (ProbesInSync results b) :=
  inferInstanceAs (Decidable (∀ probe ∈ results, _))

instance (cfg : BrokerConfig) (results : List ProbeResult) (b : Broker) :
    Decidable (RoundRebuilds cfg results b) :=
  inferInstanceAs (Decidable (∃ nodeId ∈ List.find? _ _, _))

instance (cfg : BrokerConfig) (sc : BrokerScene) : ∀ c, Decidable (CallAgrees cfg sc c)
  | .healthCheck results => inferInstanceAs (Decidable (ProbesInSync results sc.state ∨ _))
  | .publish _ | .register _ | .deregister _ | .result _ | .dispatchStage _ _ | .cachePeerWorkers _
  | .tick _ => isTrue trivial

theorem roundOutcome_inSync {cfg : BrokerConfig} {results : List ProbeResult} {b : Broker}
    (h : ProbesInSync results b) :
    (roundOutcome .neural cfg results b).2.workers = b.workers ∧
      (roundOutcome .neural cfg results b).2.topology = b.topology := by
  refine foldl_scan (P := fun _ (acc : List NodeId × Broker) =>
    acc.2.workers = b.workers ∧ acc.2.topology = b.topology) ⟨rfl, rfl⟩ ?_
  rintro done probe rest ⟨dead, b'⟩ hsplit ⟨hworkers, htopology⟩
  dsimp only
  split
  · next hhealthy =>
    show (NeuralBroker.syncLoad probe _).workers = _ ∧ (NeuralBroker.syncLoad probe _).topology = _
    unfold NeuralBroker.syncLoad
    cases hload : probe.reportedLoad with
    | none => exact ⟨hworkers, htopology⟩
    | some load =>
      refine ⟨?_, htopology⟩
      dsimp only
      rw [hworkers]
      apply Dict.modify_eq_self
      intro worker hworker
      rw [← h probe (by simp [hsplit]) hhealthy load hload worker hworker]
  · exact ⟨hworkers, htopology⟩

/-- A round keeps the workers and what they are filed under, whatever it syncs. -/
theorem roundOutcome_named {cfg : BrokerConfig} {results : List ProbeResult} {b : Broker}
    (h : Named b) : Named (roundOutcome .neural cfg results b).2 ∧
      ∀ nodeId, nodeId ∈ (roundOutcome .neural cfg results b).2.workers ↔ nodeId ∈ b.workers := by
  refine foldl_scan (P := fun _ (acc : List NodeId × Broker) =>
    Named acc.2 ∧ ∀ nodeId, nodeId ∈ acc.2.workers ↔ nodeId ∈ b.workers) ⟨h, fun _ => Iff.rfl⟩ ?_
  rintro _ probe _ ⟨dead, b'⟩ _ ⟨hnamed, hmem⟩
  dsimp only
  split
  · show Named (NeuralBroker.syncLoad probe _) ∧
      ∀ nodeId, nodeId ∈ (NeuralBroker.syncLoad probe _).workers ↔ _
    unfold NeuralBroker.syncLoad
    cases probe.reportedLoad with
    | none => exact ⟨hnamed, hmem⟩
    | some load =>
      refine ⟨fun n w hget => ?_, fun nodeId => by simpa using hmem nodeId⟩
      rw [Dict.get?_modify] at hget
      split at hget
      · next heq =>
        obtain ⟨worker, hworker, rfl⟩ := Option.map_eq_some_iff.mp hget
        rw [heq]
        exact hnamed _ worker hworker
      · exact hnamed n w hget
  · exact ⟨hnamed, hmem⟩

section Round

variable {r : Wake Broker Call WorkerMessage PyError Response} {cfg : BrokerConfig}
  {sc : BrokerScene}

/-- The broker without a worker that has been declared dead. -/
def dropWorker (nodeId : NodeId) (b : Broker) : Broker :=
  if nodeId ∈ b.workers then
    rebuildTopology { b with
      workers := b.workers.erase nodeId, workerFailures := b.workerFailures.erase nodeId }
  else { b with workerFailures := b.workerFailures.erase nodeId }

theorem wp_removeDeadWorker_iff {nodeId : NodeId} {Q : Unit → BrokerScene → Prop}
    {E : PyError → BrokerScene → Prop} :
    (removeDeadWorker rebuildTopology (replaceFailedStages cfg) nodeId).wp r MirrorInv E Q sc ↔
      (replaceFailedStages cfg nodeId).wp r MirrorInv E Q (sc.withState (dropWorker nodeId sc.state)) :=
  Iff.rfl

/-- Removing a registered worker brings the topology up to date. -/
theorem wp_removeDeadWorker {nodeId : NodeId}
    (hpending : OnlyDispatches sc) (hnamed : Named sc.state)
    (hnode : nodeId ∈ sc.state.workers) :
    (removeDeadWorker rebuildTopology (replaceFailedStages cfg) nodeId).wp r MirrorInv
      (fun _ => MirrorInv) (fun _ => MirrorInv) sc := by
  have h := (tolerates_mirrorInv cfg).endures
  rw [wp_removeDeadWorker_iff]
  apply h.preserves_replaceFailedStages h.preserves_neuralReplan
  rw [dropWorker, if_pos hnode]
  have herase : Named { sc.state with
      workers := sc.state.workers.erase nodeId
      workerFailures := sc.state.workerFailures.erase nodeId } := hnamed.erase nodeId
  exact ⟨hpending, herase.rebuild⟩

theorem wp_removeDead {pre post : List NodeId} {nodeId : NodeId}
    (hpending : OnlyDispatches sc) (hnamed : Named sc.state)
    (hnode : nodeId ∈ sc.state.workers)
    (hpre : ∀ n ∈ pre, n ∉ sc.state.workers ∧ sc.state.affectedPipelines n = []) :
    (Co.forEach (pre ++ nodeId :: post)
      (removeDeadWorker rebuildTopology (replaceFailedStages cfg))).wp r MirrorInv
        (fun _ => MirrorInv) (fun _ => MirrorInv) sc := by
  have h := (tolerates_mirrorInv cfg).endures
  induction pre generalizing sc with
  | nil =>
    rw [List.nil_append, Co.forEach_cons, Co.wp_monad_bind]
    apply Co.wp_mono (fun _ _ hI => hI) _ (wp_removeDeadWorker hpending hnamed hnode)
    exact fun _ sc' hI => h.preserves_removeDead
      (h.preserves_replaceFailedStages h.preserves_neuralReplan) post sc' hI
  | cons n pre ih =>
    -- a worker that is not registered and hosts nothing leaves only its failure count
    obtain ⟨hn, haffected⟩ := hpre n (by simp)
    rw [List.cons_append, Co.forEach_cons, Co.wp_monad_bind, wp_removeDeadWorker_iff, dropWorker,
      if_neg hn, replaceFailedStages, NeuralPubSub.replaceFailedStages, Co.wp_monad_bind, Co.wp_read]
    have hnone : ({ sc.state with workerFailures := sc.state.workerFailures.erase n } :
        Broker).affectedPipelines n = [] := haffected
    rw [Scene.state_withState, hnone, Co.forEach_nil, Co.wp_pure]
    exact ih hpending hnamed hnode fun n' hn' => hpre n' (by simp [hn'])

/-- The probes of a round leave the pipelines alone. -/
theorem roundOutcome_affected (results : List ProbeResult) (b : Broker) (nodeId : NodeId) :
    (roundOutcome .neural cfg results b).2.affectedPipelines nodeId = b.affectedPipelines nodeId := by
  obtain ⟨hpipelines, hactive, -⟩ := roundOutcome_frame .neural cfg results b
  unfold Broker.affectedPipelines
  rw [hpipelines, hactive]

theorem wp_healthCheck {results : List ProbeResult} (hI : MirrorInv sc)
    (hround : RoundRebuilds cfg results sc.state) :
    (brokerBody .neural cfg (.healthCheck results)).wp r MirrorInv (fun _ => MirrorInv)
      (fun _ => MirrorInv) sc := by
  obtain ⟨nodeId, hfind, hnode⟩ := hround
  obtain ⟨-, pre, post, hdead, hpre⟩ := List.find?_eq_some_iff_append.mp hfind
  obtain ⟨hnamed, hmem⟩ := @roundOutcome_named cfg results _ hI.mirrored.named
  show ((healthCheck cfg results) >>= fun _ => pure Response.none).wp _ _ _ _ _
  unfold healthCheck NeuralPubSub.healthCheck
  rw [Co.wp_monad_bind, Co.wp_monad_bind, Co.wp_update]
  have hdead' : (trackProbes cfg.healthCheckMaxFailures syncLoad results sc.state).1 =
      pre ++ nodeId :: post := hdead
  rw [hdead']
  have hpre' : ∀ n ∈ pre, n ∉ (roundOutcome .neural cfg results sc.state).2.workers ∧
      (roundOutcome .neural cfg results sc.state).2.affectedPipelines n = [] := by
    intro n hn
    have hidle := hpre n hn
    simp only [Bool.not_eq_true', decide_eq_false_iff_not, not_or, not_not] at hidle
    exact ⟨mt (hmem n).mp hidle.1, (roundOutcome_affected ..).trans hidle.2⟩
  have hprobed : OnlyDispatches (sc.withState (roundOutcome .neural cfg results sc.state).2) :=
    hI.pending
  exact wp_removeDead hprobed hnamed ((hmem nodeId).mpr hnode) hpre'

end Round

theorem keeps_mirrorInv (cfg : BrokerConfig) :
    ((faultyRules .neural cfg).provided (CallAgrees cfg)).Keeps MirrorInv := by
  have h := tolerates_mirrorInv cfg
  refine Rules.keeps_of_wp (fun sc c e hI => ⟨hI.pending, hI.mirrored⟩) (fun sc c hI hcall => ?_)
    (fun sc c pre post hp hI _ => ?_)
  · have hstarted : MirrorInv (sc.start c) := ⟨hI.pending, hI.mirrored⟩
    have hnew : ∀ req, c = .publish req → req.pipelineId ∉ (sc.start c).state.pipelines := by
      rintro req rfl
      exact hcall.1
    cases c with
    | healthCheck results =>
      rcases hcall.2 with hsync | hround
      · apply h.wp_brokerBody hstarted (by simp) hnew
        rintro _ ⟨rfl⟩
        exact hstarted.of_eq (roundOutcome_inSync hsync)
      · exact wp_healthCheck hstarted hround
    | publish | register | deregister | result | dispatchStage | cachePeerWorkers | tick =>
      exact h.wp_brokerBody hstarted (by simp) hnew fun results hc => by cases hc
  · -- only dispatches of stages are ever scheduled
    obtain ⟨pid, sid, rfl⟩ := hI.pending c (by simp [hp])
    have hstarted : MirrorInv ((sc.withPending (pre ++ post)).start (.dispatchStage pid sid)) :=
      ⟨hI.pending.dequeued hp _, hI.mirrored⟩
    refine h.wp_brokerBody (c := .dispatchStage pid sid) hstarted (by simp) ?_ ?_
    · intro req hc
      cases hc
    · intro results hc
      cases hc

/-! ## Agreement in every run -/

/-- In a run whose health check rounds bring no new load, or remove a worker before
placement looks at the topology again, the registry and the topology agree in
every state between the handlers. -/
theorem registryAgrees_of_rounds (cfg : BrokerConfig) {w w' : BrokerWorld}
    (hw : Mirrored w.state) (hpending : w.pending = []) (htasks : w.tasks = [])
    (hr : ((faultyRules .neural cfg).provided (CallAgrees cfg)).Reachable w w') :
    RegistryAgrees w'.state := by
  have hI : MirrorInv w.scene := ⟨by simp [OnlyDispatches, World.scene, hpending], hw⟩
  exact ((keeps_mirrorInv cfg).reachable hI htasks hr).mirrored.registryAgrees

private def emptyWorld : BrokerWorld where
  state := {}

private def joinRequest : RegisterRequest where
  nodeId := "w1"
  domainId := "d1"
  sliceId := "s1"
  capacity := 4

private def syncConfig : BrokerConfig where
  domainId := "d1"
  brokerId := "b1"

private theorem mirrored_emptyWorld : Mirrored emptyWorld.state := ⟨fun _ _ h => (by cases h), rfl⟩

theorem registryAgrees_of_rounds_probe :
    ∃ w', ((faultyRules .neural syncConfig).provided (CallAgrees syncConfig)).performAll
        [.call (.register joinRequest), .call (.healthCheck [⟨"w1", true, some 0⟩])] emptyWorld =
          some w' ∧ RegistryAgrees w'.state := by
  have hrun : (((faultyRules .neural syncConfig).provided (CallAgrees syncConfig)).performAll
      [.call (.register joinRequest), .call (.healthCheck [⟨"w1", true, some 0⟩])]
        emptyWorld).isSome = true := by decide +kernel
  obtain ⟨w', hw'⟩ := Option.isSome_iff_exists.mp hrun
  exact ⟨w', hw', registryAgrees_of_rounds syncConfig mirrored_emptyWorld rfl rfl
    (Rules.reachable_of_performAll _ hw')⟩

/-- A worker registers, and the next round takes over the load of 3 that it
reports: the topology still says 0. -/
theorem not_registryAgrees :
    ¬ ∀ (cfg : BrokerConfig) (w w' : BrokerWorld), Mirrored w.state → w.pending = [] →
      w.tasks = [] → (faultyRules .neural cfg).Reachable w w' → RegistryAgrees w'.state := by
  intro h
  have hrun : ∃ w', (faultyRules .neural syncConfig).performAll [.call (.register joinRequest),
      .call (.healthCheck [⟨"w1", true, some 3⟩])] emptyWorld = some w' ∧
        ∃ eu ∈ w'.state.topology.nodes, ∃ worker ∈ w'.state.workers.get? eu.nodeId,
          eu.currentLoad ≠ worker.currentLoad := by decide +kernel
  obtain ⟨w', hw', eu, heu, worker, hworker, hne⟩ := hrun
  have hagree := h syncConfig _ _ mirrored_emptyWorld rfl rfl (Rules.reachable_of_performAll _ hw')
  exact hne (hagree.data eu heu worker hworker).2.2.2

end NeuralBroker
end NeuralPubSub
