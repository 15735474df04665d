-- SUMMARY: When the static and the neural broker keep the same workers registered.
import NeuralPubSub.Broker.Handlers

open Base

/-!
# Fair comparison

The static broker is the baseline of the neural broker and is meant to differ
from it in the placement of stages only. Here both see the same registrations,
probe outcomes and failed sends, one after the other. A worker leaves either
registry when enough probes in a row have failed; but a failed send evicts it
from the static broker at once, while the neural broker only counts the failure,
also that of a worker which has left while the send was on its way.
-/

namespace NeuralPubSub

/-! ## Events -/

/-- What happens to the workers of a broker. -/
inductive FleetEvent where
  | register (req : RegisterRequest)
  /-- One round of the health check loop. -/
  | probes (results : List ProbeResult)
  /-- The send of a stage to the worker fails. The worker may have left since it began. -/
  | sendFailure (nodeId : NodeId)
  deriving DecidableEq

/-- The registry entry of a registration; only the neural broker takes the bid over. -/
def registryEntry : BrokerKind → RegisterRequest → WorkerInfo
  | .base, req | .static, req => req.workerInfo 0
  | .neural, req => req.workerInfo req.bidCostMs

/-- The part of `_remove_dead_worker` before the re-placement. -/
def dropDead (kind : BrokerKind) (nodeId : NodeId) (b : Broker) : Broker :=
  let b := { b with workerFailures := b.workerFailures.erase nodeId }
  if nodeId ∈ b.workers then onWorkerChange kind { b with workers := b.workers.erase nodeId } else b

/-- What the broker does to the worker of a failed send. -/
def blameWorker : BrokerKind → NodeId → Broker → Broker
  | .base, _, b => b
  | .static, nodeId, b => StaticBroker.evict nodeId b
  | .neural, nodeId, b => { b with
      workerFailures := b.workerFailures.insert nodeId (b.workerFailures.getD nodeId 0 + 1) }

/-- The broker after the event, up to what recovery does to its pipelines. -/
def observe (kind : BrokerKind) (cfg : BrokerConfig) (b : Broker) : FleetEvent → Broker
  | .register req =>
    onWorkerChange kind { b with workers := b.workers.insert req.nodeId (registryEntry kind req) }
  | .probes results =>
    let (dead, b) := roundOutcome kind cfg results b
    dead.foldl (fun b nodeId => dropDead kind nodeId b) b
  | .sendFailure nodeId => blameWorker kind nodeId b

/-! ## The events in the handlers -/

/-- What an event changes: the registered ids and the failure counts. -/
def Broker.fleet (b : Broker) : List NodeId × Dict NodeId Nat := (b.workers.keys, b.workerFailures)

theorem mem_workers_of_fleet {b b' : Broker} (h : b'.fleet = b.fleet) (nodeId : NodeId) :
    nodeId ∈ b'.workers ↔ nodeId ∈ b.workers := by
  rw [Dict.mem_iff_mem_keys, Dict.mem_iff_mem_keys]
  exact iff_of_eq (congrArg (nodeId ∈ ·) (congrArg Prod.fst h))

section Handlers

variable {r : Wake Broker Call WorkerMessage PyError Response} {cfg : BrokerConfig}
  {fleet : List NodeId × Dict NodeId Nat}

theorem fleet_updatePipeline (pid : PipelineId) (f : PipelineState → PipelineState) :
    (Co.modify (·.updatePipeline pid f) : BrokerM Unit).Preserves r
      fun sc => sc.state.fleet = fleet := fun _ hI => hI

theorem fleet_failAndComplete (pid : PipelineId) (error : String) :
    (failAndComplete pid error).Preserves r fun sc => sc.state.fleet = fleet := fun _ hI => hI

theorem fleet_updateWorkerLoad (nodeId : NodeId) (delta : ℚ) (b : Broker) :
    (NeuralBroker.updateWorkerLoad nodeId delta b).fleet = b.fleet := by
  apply Prod.ext
  · exact NeuralBroker.keys_updateWorkerLoad nodeId delta b
  · unfold NeuralBroker.updateWorkerLoad
    split <;> rfl

theorem fleet_dispatchExhausted (pid : PipelineId) (error : String) :
    (dispatchExhausted pid error).Preserves r fun sc => sc.state.fleet = fleet := fun _ hI => hI

theorem fleet_dispatchReadyStages (pid : PipelineId) :
    (dispatchReadyStages cfg pid).Preserves r fun sc => sc.state.fleet = fleet := by
  intro sc hI
  cases hps : sc.state.pipelines.get? pid with
  | none => simpa [dispatchReadyStages, getPipeline, subscript, hps] using hI
  | some ps =>
    exact wp_dispatchReadyStages hps (fun _ => hI) (fun _ _ _ _ => hI) (fun _ _ _ => hI)
      fun _ _ _ => ⟨hI, fun _ hI' _ _ => ⟨hI', fun _ => hI'⟩⟩

theorem fleet_pickWorker (slice : Option SliceId) (b : Broker) :
    (StaticBroker.pickWorker cfg slice b).2.fleet = b.fleet := by
  unfold StaticBroker.pickWorker
  split
  · rfl
  · dsimp only
    split <;> split <;> rfl

theorem fleet_staticReplan (pid : PipelineId) (stages : List StageId) :
    (StaticBroker.replan cfg pid stages).Preserves r fun sc => sc.state.fleet = fleet :=
  Withstands.carries_staticReplan (fun _ h => h) (fun pid _ _ => fleet_updatePipeline pid _)
    (fun _ slice hI => (fleet_pickWorker slice _).trans hI) pid stages

theorem fleet_neuralReplan (pid : PipelineId) (stages : List StageId) :
    (NeuralBroker.replan cfg pid stages).Preserves r fun sc => sc.state.fleet = fleet :=
  Withstands.carries_neuralReplan (fun _ h => h) (fun pid _ _ => fleet_updatePipeline pid _) pid stages

/-- Re-placement leaves the workers alone. -/
theorem fleet_replaceFailedStages {replan : PipelineId → List StageId → BrokerM Bool}
    (hreplan : ∀ pid stages, (replan pid stages).Preserves r fun sc => sc.state.fleet = fleet)
    (deadNodeId : NodeId) : (replaceFailedStages cfg replan deadNodeId).Preserves r
      fun sc => sc.state.fleet = fleet := by
  refine (Co.preserves_read _).bind fun _ => Co.preserves_forEach fun pid _ =>
    (Withstands.preserves_getPipeline pid).bind fun ps => ?_
  split
  · exact Co.preserves_pure ()
  · refine Co.Preserves.bind ?_ fun replaced => ?_
    · unfold replaceUnlessNone
      split
      · exact Co.preserves_pure true
      · exact hreplan pid _
    · cases replaced with
      | true => exact fleet_dispatchReadyStages pid
      | false => exact fleet_failAndComplete pid _

/-- A registration, in the handler. -/
theorem perform_register {kind : BrokerKind} {w w' : BrokerWorld} {req : RegisterRequest}
    (hw : w.perform (brokerBody kind cfg) (.call (.register req)) = some w') :
    w'.state = observe kind cfg w.state (.register req) := by
  obtain rfl := Option.some.inj hw
  cases kind <;> rfl

/-- What the recovery of the broker does once a dead worker has left the registry. -/
def recover : BrokerKind → BrokerConfig → NodeId → BrokerM Unit
  | .base, _, _ => pure ()
  | .static, cfg, nodeId => StaticBroker.replaceFailedStages cfg nodeId
  | .neural, cfg, nodeId => NeuralBroker.replaceFailedStages cfg nodeId

/-- The program leaves the fleet as given wherever it waits or ends, if no other handler
changes it meanwhile. -/
def LeavesFleet (r : Wake Broker Call WorkerMessage PyError Response) (c : BrokerM Unit)
    (sc : BrokerScene) (fleet : List NodeId × Dict NodeId Nat) : Prop :=
  c.wp r (fun sc' => sc'.state.fleet = fleet) (fun _ sc' => sc'.state.fleet = fleet)
    (fun _ sc' => sc'.state.fleet = fleet) sc

theorem leavesFleet_removeDeadWorker (kind : BrokerKind) (nodeId : NodeId) (sc : BrokerScene) :
    LeavesFleet r (removeDeadWorker (onWorkerChange kind) (recover kind cfg) nodeId) sc
      (dropDead kind nodeId sc.state).fleet := by
  have hrecover : (recover kind cfg nodeId).Preserves r
      fun sc' => sc'.state.fleet = (dropDead kind nodeId sc.state).fleet := by
    cases kind with
    | base => exact Co.preserves_pure ()
    | static => exact fleet_replaceFailedStages fleet_staticReplan nodeId
    | neural => exact fleet_replaceFailedStages fleet_neuralReplan nodeId
  exact hrecover (sc.withState (dropDead kind nodeId sc.state)) rfl

theorem leavesFleet_staticRedispatch (pid : PipelineId) (sid : StageId) (nodeId : NodeId)
    (payload : ExecuteRequest) (sc : BrokerScene) :
    LeavesFleet r (StaticBroker.redispatch cfg pid sid nodeId payload) sc
      (observe .static cfg sc.state (.sendFailure nodeId)).fleet := by
  refine Co.Preserves.bind (fleet_staticReplan pid [sid]) (fun replaced => ?_)
    (sc.withState (blameWorker .static nodeId sc.state)) rfl
  cases replaced with
  | false => exact fleet_dispatchExhausted pid _
  | true =>
    refine (Withstands.preserves_getPipeline pid).bind fun ps => (Co.preserves_ofExcept _).bind
      fun _ => (Co.preserves_read _).bind fun newWorker => ?_
    cases newWorker with
    | none => exact fleet_dispatchExhausted pid _
    | some newWorker =>
      refine (Co.preserves_request fun _ hI => hI).bind fun reply => ?_
      cases reply with
      | ok u => exact Co.preserves_pure ()
      | error exc => exact fleet_dispatchExhausted pid _

theorem leavesFleet_neuralRedispatch (pid : PipelineId) (sid : StageId) (nodeId : NodeId)
    (stage : Stage) (payload : ExecuteRequest) (exc : PyError) (sc : BrokerScene) :
    LeavesFleet r (NeuralBroker.redispatch cfg pid sid nodeId stage payload exc) sc
      (observe .neural cfg sc.state (.sendFailure nodeId)).fleet := by
  have hexhausted : ∀ error fleet, (do
      Co.modify (NeuralBroker.updateWorkerLoad nodeId (-stage.computationalDemand))
      dispatchExhausted pid error : BrokerM Unit).Preserves r fun sc => sc.state.fleet = fleet :=
    fun error fleet => (Co.preserves_modify fun sc hI => (fleet_updateWorkerLoad ..).trans hI).bind
      fun _ => fleet_dispatchExhausted pid error
  refine Co.Preserves.bind (fleet_neuralReplan pid [sid]) (fun replaced => ?_)
    (sc.withState (blameWorker .neural nodeId sc.state)) rfl
  cases replaced with
  | false => exact hexhausted _ _
  | true =>
    refine (Withstands.preserves_getPipeline pid).bind fun ps => (Co.preserves_ofExcept _).bind
      fun _ => (Co.preserves_read _).bind fun newWorker => ?_
    cases newWorker with
    | none => exact hexhausted _ _
    | some newWorker =>
      refine (Co.preserves_request fun _ hI => hI).bind fun reply => ?_
      cases reply with
      | ok u => exact Co.preserves_pure ()
      | error exc => exact hexhausted _ _

/-- The events are what the handlers do to the fleet: the registration at once; the round of
probes by its count of the failures and by the removal of each dead worker in turn; the failed
send, whether or not the worker is still registered, by the part of the dispatch that follows
it. -/
theorem fleet_observe (cfg : BrokerConfig) (r : Wake Broker Call WorkerMessage PyError Response) :
    (∀ kind (w w' : BrokerWorld) req,
      w.perform (brokerBody kind cfg) (.call (.register req)) = some w' →
        w'.state = observe kind cfg w.state (.register req)) ∧
    (∀ kind, kind ≠ .base → ∀ results, brokerBody kind cfg (.healthCheck results) = (do
      let dead ← Co.update (roundOutcome kind cfg results)
      Co.forEach dead (removeDeadWorker (onWorkerChange kind) (recover kind cfg))
      return .none)) ∧
    (∀ kind nodeId sc,
      LeavesFleet r (removeDeadWorker (onWorkerChange kind) (recover kind cfg) nodeId) sc
        (dropDead kind nodeId sc.state).fleet) ∧
    (∀ pid sid nodeId payload sc,
      LeavesFleet r (StaticBroker.redispatch cfg pid sid nodeId payload) sc
        (observe .static cfg sc.state (.sendFailure nodeId)).fleet) ∧
    ∀ pid sid nodeId stage payload exc sc,
      LeavesFleet r (NeuralBroker.redispatch cfg pid sid nodeId stage payload exc) sc
        (observe .neural cfg sc.state (.sendFailure nodeId)).fleet := by
  refine ⟨fun kind w w' req => perform_register, fun kind hkind results => ?_,
    leavesFleet_removeDeadWorker, leavesFleet_staticRedispatch, leavesFleet_neuralRedispatch⟩
  cases kind with
  | base => exact absurd rfl hkind
  | static => rfl
  | neural => rfl

end Handlers

/-! ## Both brokers -/

/-- The same workers are registered. -/
def SameWorkers (s b : Broker) : Prop := ∀ nodeId, nodeId ∈ s.workers ↔ nodeId ∈ b.workers

/-- The same workers are registered, and each of them has failed as often in a row. -/
structure SameFleet (s b : Broker) : Prop where
  workers : SameWorkers s b
  failures : ∀ nodeId ∈ s.workers,
    s.workerFailures.getD nodeId 0 = b.workerFailures.getD nodeId 0

section Lockstep

variable {kind kind' : BrokerKind} {cfg cfg' : BrokerConfig} {s b : Broker}

@[simp] theorem workers_onWorkerChange (kind : BrokerKind) (b : Broker) :
    (onWorkerChange kind b).workers = b.workers := by
  cases kind <;> rfl

@[simp] theorem workerFailures_onWorkerChange (kind : BrokerKind) (b : Broker) :
    (onWorkerChange kind b).workerFailures = b.workerFailures := by
  cases kind <;> rfl

theorem fleet_syncLoad (kind : BrokerKind) (probe : ProbeResult) (b : Broker) :
    (syncLoad kind probe b).fleet = b.fleet := by
  cases kind with
  | base => rfl
  | static => rfl
  | neural =>
    show (NeuralBroker.syncLoad probe b).fleet = b.fleet
    unfold NeuralBroker.syncLoad
    cases probe.reportedLoad with
    | none => rfl
    | some load => exact Prod.ext (Dict.keys_modify ..) rfl

theorem SameFleet.congr {s' b' : Broker} (h : SameFleet s b) (hs : s'.fleet = s.fleet)
    (hb : b'.fleet = b.fleet) : SameFleet s' b' := by
  constructor
  · intro nodeId
    rw [mem_workers_of_fleet hs, mem_workers_of_fleet hb]
    exact h.workers nodeId
  · intro nodeId hnode
    rw [show s'.workerFailures = s.workerFailures from congrArg Prod.snd hs,
      show b'.workerFailures = b.workerFailures from congrArg Prod.snd hb]
    exact h.failures nodeId ((mem_workers_of_fleet hs nodeId).mp hnode)

theorem SameFleet.register (h : SameFleet s b) {req : RegisterRequest}
    (hcount : req.nodeId ∈ s.workers ∨
      s.workerFailures.getD req.nodeId 0 = b.workerFailures.getD req.nodeId 0) :
    SameFleet (observe kind cfg s (.register req)) (observe kind' cfg' b (.register req)) := by
  constructor
  · intro nodeId
    simp [observe, h.workers nodeId]
  · intro nodeId hnode
    simp only [observe, workers_onWorkerChange, Dict.mem_insert] at hnode
    simp only [observe, workerFailures_onWorkerChange]
    rcases hnode with rfl | hold
    · exact hcount.elim (h.failures _) id
    · exact h.failures nodeId hold

/-- What the removal of the dead workers does to the registry and the counts. -/
theorem foldl_dropDead (kind : BrokerKind) (dead : List NodeId) (b : Broker) (n : NodeId) :
    (n ∈ (dead.foldl (fun b nodeId => dropDead kind nodeId b) b).workers ↔ n ∈ b.workers ∧ n ∉ dead) ∧
    (n ∉ dead → (dead.foldl (fun b nodeId => dropDead kind nodeId b) b).workerFailures.getD n 0 =
      b.workerFailures.getD n 0) := by
  induction dead generalizing b with
  | nil => simp
  | cons nodeId dead ih =>
    obtain ⟨hworkers, hfailures⟩ := ih (dropDead kind nodeId b)
    have hfirst : n ∈ (dropDead kind nodeId b).workers ↔ n ∈ b.workers ∧ n ≠ nodeId := by
      unfold dropDead
      dsimp only
      split
      · simp [and_comm]
      · next hnot =>
        exact ⟨fun hn => ⟨hn, fun heq => hnot (heq ▸ hn)⟩, And.left⟩
    have hcount : n ≠ nodeId → (dropDead kind nodeId b).workerFailures.getD n 0 =
        b.workerFailures.getD n 0 := by
      intro hne
      unfold dropDead
      dsimp only
      split <;> simp [Dict.getD, Dict.get?_erase, hne]
    rw [List.foldl_cons, hworkers, hfirst, List.mem_cons, not_or, and_assoc]
    exact ⟨Iff.rfl, fun hn => (hfailures hn.2).trans (hcount hn.1)⟩

variable (kind kind') in
/-- A round of probes finds the same registered workers dead. -/
theorem SameFleet.roundOutcome (h : SameFleet s b)
    (hmax : cfg.healthCheckMaxFailures = cfg'.healthCheckMaxFailures) (results : List ProbeResult) :
    (∀ n ∈ (roundOutcome kind cfg results s).2.workers,
      n ∈ (roundOutcome kind cfg results s).1 ↔ n ∈ (roundOutcome kind' cfg' results b).1) ∧
    SameFleet (roundOutcome kind cfg results s).2 (roundOutcome kind' cfg' results b).2 := by
  unfold NeuralPubSub.roundOutcome trackProbes
  refine List.foldl_rel (r := fun (x y : List NodeId × Broker) =>
    (∀ n ∈ x.2.workers, n ∈ x.1 ↔ n ∈ y.1) ∧ SameFleet x.2 y.2) ⟨fun _ _ => Iff.rfl, h⟩ ?_
  rintro probe - ⟨dead, s⟩ ⟨dead', b⟩ ⟨hdead, hfleet⟩
  cases probe.healthy with
  | true =>
    have hreset : SameFleet { s with workerFailures := s.workerFailures.erase probe.nodeId }
        { b with workerFailures := b.workerFailures.erase probe.nodeId } := by
      refine ⟨hfleet.workers, fun n hn => ?_⟩
      have hcount := hfleet.failures n hn
      simp only [Dict.getD, Dict.get?_erase] at hcount ⊢
      split
      · rfl
      · exact hcount
    have hkeys := mem_workers_of_fleet (fleet_syncLoad kind probe
      { s with workerFailures := s.workerFailures.erase probe.nodeId })
    exact ⟨fun n hn => hdead n ((hkeys n).mp hn),
      hreset.congr (fleet_syncLoad ..) (fleet_syncLoad ..)⟩
  | false =>
    simp only [Bool.false_eq_true, if_false]
    constructor
    · intro n hn
      have hold := hdead n hn
      by_cases heq : n = probe.nodeId
      · subst heq
        rw [hfleet.failures _ hn, hmax]
        split <;> simp [hold]
      · split <;> split <;> simp [hold, heq]
    · refine ⟨hfleet.workers, fun n hn => ?_⟩
      simp only [Dict.getD_insert]
      split
      · next heq => rw [← heq, hfleet.failures n hn]
      · exact hfleet.failures n hn

theorem SameFleet.probes (h : SameFleet s b)
    (hmax : cfg.healthCheckMaxFailures = cfg'.healthCheckMaxFailures) (results : List ProbeResult) :
    SameFleet (observe kind cfg s (.probes results)) (observe kind' cfg' b (.probes results)) := by
  obtain ⟨hdead, hfleet⟩ := h.roundOutcome kind kind' hmax results
  constructor
  · intro n
    simp only [observe, foldl_dropDead]
    constructor
    · exact fun hn => ⟨(hfleet.workers n).mp hn.1, mt (hdead n hn.1).mpr hn.2⟩
    · exact fun hn =>
        ⟨(hfleet.workers n).mpr hn.1, mt (hdead n ((hfleet.workers n).mpr hn.1)).mp hn.2⟩
  · intro n hn
    simp only [observe, foldl_dropDead] at hn
    simp only [observe]
    rw [(foldl_dropDead ..).2 hn.2, (foldl_dropDead ..).2 (mt (hdead n hn.1).mpr hn.2)]
    exact hfleet.failures n hn.1

/-- A failed send to a worker that has left changes no registry, and the count of that
worker in the neural broker only. -/
theorem SameFleet.lateFailure (h : SameFleet s b) {nodeId : NodeId} (hnode : nodeId ∉ s.workers) :
    SameFleet (observe .static cfg s (.sendFailure nodeId))
      (observe .neural cfg' b (.sendFailure nodeId)) := by
  rw [observe, blameWorker, StaticBroker.evict, if_neg hnode]
  refine ⟨h.workers, fun n hn => ?_⟩
  have hne : n ≠ nodeId := fun heq => hnode (heq ▸ hn)
  rw [observe, blameWorker, Dict.getD_insert, if_neg hne]
  exact h.failures n hn

end Lockstep

/-- The send to a registered worker fails. -/
def FailsSend (b : Broker) (e : FleetEvent) : Prop := ∃ nodeId ∈ b.workers, e = .sendFailure nodeId

/-- No send to a registered worker fails, and no worker joins for which the two brokers have
counted different numbers of failures. -/
def FairEvent (s b : Broker) : FleetEvent → Prop
  | .register req => req.nodeId ∈ s.workers ∨
      s.workerFailures.getD req.nodeId 0 = b.workerFailures.getD req.nodeId 0
  | .probes _ => True
  | .sendFailure nodeId => nodeId ∉ s.workers

instance (s b : Broker) : DecidablePred (FairEvent s b)
  | .register _ => inferInstanceAs (Decidable (_ ∨ _))
  | .probes _ => isTrue trivial
  | .sendFailure _ => inferInstanceAs (Decidable (_ ∉ _))

/-- Static and neural broker have the same workers registered after every event when each
event is fair; and only when no send to a registered worker fails. -/
theorem sameWorkers_of_fair {s b : Broker} (cfg cfg' : BrokerConfig)
    (hmax : cfg.healthCheckMaxFailures = cfg'.healthCheckMaxFailures) (h : SameFleet s b)
    (events : List FleetEvent) :
    ((∀ pre e post, events = pre ++ e :: post →
        FairEvent (pre.foldl (observe .static cfg) s) (pre.foldl (observe .neural cfg') b) e) →
      ∀ pre, pre <+: events →
        SameWorkers (pre.foldl (observe .static cfg) s) (pre.foldl (observe .neural cfg') b)) ∧
    ((∀ pre, pre <+: events →
        SameWorkers (pre.foldl (observe .static cfg) s) (pre.foldl (observe .neural cfg') b)) →
      ∀ pre e post, events = pre ++ e :: post →
        ¬ FailsSend (pre.foldl (observe .static cfg) s) e) := by
  constructor
  · intro hfair pre hpre
    have hstep : ∀ s b e, SameFleet s b → FairEvent s b e →
        SameFleet (observe .static cfg s e) (observe .neural cfg' b e) := by
      intro s b e h hfair
      cases e with
      | register req => exact h.register hfair
      | probes results => exact h.probes hmax results
      | sendFailure nodeId => exact h.lateFailure hfair
    exact (foldl_lockstep hstep h hfair pre hpre).workers
  · rintro hsame pre e post rfl ⟨nodeId, hnode, rfl⟩
    have hnode' := (hsame pre (List.prefix_append ..) nodeId).mp hnode
    -- the static broker has evicted the worker, the neural broker has not
    have hafter := hsame (pre ++ [.sendFailure nodeId]) (by simp) nodeId
    rw [List.foldl_append, List.foldl_append] at hafter
    have hevicted : nodeId ∉ (observe .static cfg (pre.foldl (observe .static cfg) s)
        (.sendFailure nodeId)).workers := by
      rw [observe, blameWorker, StaticBroker.evict, if_pos hnode]
      simp [StaticBroker.rebuildCycle]
    exact hevicted (hafter.mpr hnode')

private def arenaConfig : BrokerConfig := { domainId := "d1", brokerId := "b1" }

private def arenaRequest : RegisterRequest where
  nodeId := "w1"
  domainId := "d1"
  sliceId := "s1"
  capacity := 4

/-- A worker that answers no probe leaves both registries at the same round, and a send to
it fails afterwards; another one stays. -/
private def arenaEvents : List FleetEvent :=
  [.register arenaRequest, .register { arenaRequest with nodeId := "w2" },
    .probes [⟨"w1", false, none⟩, ⟨"w2", false, none⟩],
    .probes [⟨"w1", false, none⟩, ⟨"w2", true, some 1⟩],
    .probes [⟨"w1", false, none⟩, ⟨"w2", true, none⟩], .sendFailure "w1",
    .probes [⟨"w2", false, none⟩]]

theorem sameWorkers_of_fair_arena :
    SameWorkers (arenaEvents.foldl (observe .static arenaConfig) {})
      (arenaEvents.foldl (observe .neural arenaConfig) {}) := by
  have hsame : SameFleet {} {} := ⟨fun _ => Iff.rfl, fun _ _ => rfl⟩
  refine (sameWorkers_of_fair arenaConfig arenaConfig rfl hsame arenaEvents).1 ?_ _
    (List.prefix_refl _)
  have hall : ∀ k : Fin arenaEvents.length,
      FairEvent ((arenaEvents.take k).foldl (observe .static arenaConfig) {})
        ((arenaEvents.take k).foldl (observe .neural arenaConfig) {}) (arenaEvents.get k) := by
    decide +kernel
  intro pre e post hsplit
  have hk := hall ⟨pre.length, by simp [hsplit]⟩
  simpa [hsplit] using hk

/-- One failed send evicts the worker from the static broker only. -/
theorem not_sameWorkers :
    ¬ ∀ (cfg cfg' : BrokerConfig) (s b : Broker) (events : List FleetEvent),
      cfg.healthCheckMaxFailures = cfg'.healthCheckMaxFailures → SameFleet s b →
        SameWorkers (events.foldl (observe .static cfg) s)
          (events.foldl (observe .neural cfg') b) := by
  intro h
  have hsame := h arenaConfig arenaConfig {} {} [.register arenaRequest, .sendFailure "w1"] rfl
    ⟨fun _ => Iff.rfl, fun _ _ => rfl⟩ "w1"
  revert hsame
  decide +kernel

end NeuralPubSub
