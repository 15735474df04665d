-- SUMMARY: The atomic steps of a broker, and that every run of its handlers, however they interleave, is a run of these steps.
import NeuralPubSub.Broker.Handlers

open Base

/-!
# Atomic steps

The handlers suspend in the middle of their work, so a run of a broker is an
interleaving of pieces of handlers. Here the broker is a transition system: a
step is one atomic update, with everything that the handler which makes it knows
at that moment. Every run of the event loop refines this system, so a condition
that every step keeps holds in every reachable state.
-/

namespace NeuralPubSub

/-! ## The choices of a broker -/

/-- The type that a result record carries before its pipeline is looked up. -/
def receivedType : BrokerKind → String
  | .base | .static => "unknown"
  | .neural => "__pending__"

/-- The bid that a registration leaves in the registry. -/
def registeredBid : BrokerKind → RegisterRequest → ℚ
  | .base | .static => fun _ => 0
  | .neural => (·.bidCostMs)

/-- Where a dispatch sends a stage that is placed on the node, and whether a peer owns it. -/
def dispatchUrl : BrokerKind → NodeId → Broker → Option (String × Bool)
  | .base | .static => fun nodeId b => (b.workers.get? nodeId).map fun worker => (worker.url, false)
  | .neural => NeuralBroker.dispatchUrl

/-- What a dispatch reserves on the node. -/
def reserveLoad : BrokerKind → NodeId → Stage → Broker → Broker
  | .base | .static => fun _ _ b => b
  | .neural => fun nodeId stage => NeuralBroker.updateWorkerLoad nodeId stage.computationalDemand

/-- The URL that a peer-owned worker posts its result to. -/
def peerResultUrl (cfg : BrokerConfig) (peerDispatch : Bool) : Option String :=
  if peerDispatch then some (rstripSlash (NeuralBroker.selfUrl cfg)) else none

/-- The broker may re-place the stage on the node, and goes on as `b'`. -/
def Chosen (cfg : BrokerConfig) (b : Broker) (dag : PipelineDAG) (sid : StageId) (nodeId : NodeId)
    (b' : Broker) : BrokerKind → Prop
  | .base => False
  | .static => ∃ stage, dag.getStage sid = .ok stage ∧
    StaticBroker.pickWorker cfg stage.sliceRequirement b = (.ok nodeId, b')
  | .neural => b' = b ∧ ∃ placement,
    findPlacement dag b.topology cfg.governance cfg.weights = .ok placement ∧
      placement.get? sid = some nodeId

/-- The record of a dispatch. -/
def dispatchRecord (ps : PipelineState) (sid : StageId) (nodeId : NodeId) (now : ℚ) :
    TimestampRecord where
  pipelineId := ps.pipelineId
  stageId := sid
  event := .dispatched
  timestamp := now
  nodeId := nodeId
  pipelineType := ps.pipelineType

/-! ## Updates -/

namespace Broker

/-- Take in a placed pipeline, with the two records of its publication. -/
def enrol (cfg : BrokerConfig) (req : PlacedPipeline) (b : Broker) : Broker :=
  ({ b with
    pipelines := b.pipelines.insert req.pipelineId
      { pipelineId := req.pipelineId, pipelineType := req.pipelineType
        dag := req.dag, placement := req.placement }
    activePipelines := b.activePipelines ++ [req.pipelineId] }.record
      (pipelineRecord cfg req .created b.clock)).record
        (pipelineRecord cfg req .placementComplete b.clock)

/-- Take in the result of a stage of an active pipeline. -/
def takeResult (req : StageResultRequest) (pipelineType : String) (b : Broker) : Broker :=
  ((b.updatePipeline req.pipelineId (·.recordResult req)).record
    (stageRecord req .stageStart req.startTime pipelineType)).record
      (stageRecord req .stageEnd req.endTime pipelineType)

/-- Deliver a completed pipeline. -/
def deliver (req : StageResultRequest) (pipelineType : String) (b : Broker) : Broker :=
  ((b.record (stageRecord req .delivered b.clock pipelineType)).completePipeline
    { pipelineId := req.pipelineId, success := true }).popPipeline req.pipelineId

/-- Fail a pipeline and report it. -/
def abort (pipelineId : PipelineId) (error : String) (b : Broker) : Broker :=
  (b.failPipeline pipelineId error).completePipeline
    { pipelineId := pipelineId, success := false, error := some error }

/-- Every pipeline is filed under its own id. -/
def PipelinesNamed (b : Broker) : Prop :=
  ∀ pid ps, b.pipelines.get? pid = some ps → ps.pipelineId = pid

end Broker

/-! ## Steps -/

/-- One atomic update of a broker. -/
inductive BrokerStep (kind : BrokerKind) (cfg : BrokerConfig) (sc : BrokerScene) : BrokerScene → Prop
  /-- A call comes from outside. -/
  | called (c : Call) (external : ∀ pid sid, c ≠ .dispatchStage pid sid) :
    BrokerStep kind cfg sc (sc.start c)
  /-- A stage that was scheduled is taken up. -/
  | takenUp {c : Call} {pre post : List Call} (pending : sc.pending = pre ++ c :: post) :
    BrokerStep kind cfg sc ((sc.withPending (pre ++ post)).start c)
  | answered (c : Call) (answer : Except PyError Response) : BrokerStep kind cfg sc (sc.answer c answer)
  | admitted {req : PlacedPipeline} (call : Call.publish req ∈ sc.started)
    (fresh : req.pipelineId ∉ sc.state.pipelines) :
    BrokerStep kind cfg sc (sc.withState (sc.state.enrol cfg req))
  | scanned {pid : PipelineId} {ps : PipelineState} (found : sc.state.pipelines.get? pid = some ps)
    (running : ps.failed = false) :
    BrokerStep kind cfg sc (sc.withState (sc.state.updatePipeline pid fun _ =>
      (sc.state.readyScan cfg ps).ps))
  | scheduled {pid : PipelineId} {ps : PipelineState} (found : sc.state.pipelines.get? pid = some ps)
    (running : ps.failed = false) :
    BrokerStep kind cfg sc ((sc.withState (sc.state.markReady cfg pid ps)).schedule
      ((sc.state.readyScan cfg ps).ready.map (.dispatchStage pid)))
  | received {req : StageResultRequest} (call : Call.result req ∈ sc.started) :
    BrokerStep kind cfg sc (sc.withState (sc.state.record
      (stageRecord req .stageResultReceived sc.state.clock (receivedType kind))))
  | recorded {req : StageResultRequest} {ps : PipelineState} (call : Call.result req ∈ sc.started)
    (active : sc.state.activePipeline? req.pipelineId = some ps) :
    BrokerStep kind cfg sc (sc.withState (sc.state.takeResult req ps.pipelineType))
  | delivered {req : StageResultRequest} {ps : PipelineState} (call : Call.result req ∈ sc.started)
    (active : sc.state.activePipeline? req.pipelineId = some ps) (running : ps.failed = false)
    (complete : ps.completedStages = ps.allStages) :
    BrokerStep kind cfg sc (sc.withState (sc.state.deliver req ps.pipelineType))
  /-- A pipeline that has failed is reported by the result that finds it so. -/
  | closed {req : StageResultRequest} {ps : PipelineState} (call : Call.result req ∈ sc.started)
    (active : sc.state.activePipeline? req.pipelineId = some ps) (failed : ps.failed = true) :
    BrokerStep kind cfg sc (sc.withState ((sc.state.completePipeline
      { pipelineId := req.pipelineId, success := false, error := ps.error }).popPipeline
        req.pipelineId))
  | aborted (pid : PipelineId) (error : String) :
    BrokerStep kind cfg sc (sc.withState (sc.state.abort pid error))
  | dropped (pid : PipelineId) (error : String) :
    BrokerStep kind cfg sc (sc.withState (sc.state.failPipeline pid error))
  | sent {pid : PipelineId} {ps : PipelineState} {sid : StageId} {nodeId : NodeId} {url : String}
    {peerDispatch : Bool} {stage : Stage} (call : Call.dispatchStage pid sid ∈ sc.started)
    (found : sc.state.pipelines.get? pid = some ps) (placed : ps.placement.get? sid = some nodeId)
    (target : dispatchUrl kind nodeId sc.state = some (url, peerDispatch))
    (known : ps.dag.getStage sid = .ok stage) :
    BrokerStep kind cfg sc ((sc.withState (reserveLoad kind nodeId stage
      (sc.state.record (dispatchRecord ps sid nodeId sc.state.clock)))).emit
        (workerMessage cfg nodeId url
          (executeRequest cfg ps sid stage (peerResultUrl cfg peerDispatch))))
  /-- The payload of a send that failed goes to the new host of the stage. -/
  | resent {pid : PipelineId} {ps : PipelineState} {sid : StageId} {nodeId : NodeId}
    {worker : WorkerInfo} {m : WorkerMessage} (found : sc.state.pipelines.get? pid = some ps)
    (placed : ps.placement.get? sid = some nodeId)
    (registered : sc.state.workers.get? nodeId = some worker) (earlier : m ∈ sc.sent)
    (pipeline : m.payload.pipelineId = pid) (stage : m.payload.stageId = sid) :
    BrokerStep kind cfg sc (sc.emit (workerMessage cfg nodeId worker.url m.payload))
  | rehosted {pid : PipelineId} {ps : PipelineState} {sid : StageId} {nodeId : NodeId} {b : Broker}
    (found : sc.state.pipelines.get? pid = some ps)
    (chosen : Chosen cfg sc.state ps.dag sid nodeId b kind) :
    BrokerStep kind cfg sc (sc.withState (b.updatePipeline pid fun ps =>
      { ps with placement := ps.placement.insert sid nodeId }))
  | registered {req : RegisterRequest} (call : Call.register req ∈ sc.started) :
    BrokerStep kind cfg sc (sc.withState (onWorkerChange kind { sc.state with
      workers := sc.state.workers.insert req.nodeId (req.workerInfo (registeredBid kind req)) }))
  | removed (nodeId : NodeId) :
    BrokerStep kind cfg sc (sc.withState (onWorkerChange kind { sc.state with
      workers := sc.state.workers.erase nodeId }))
  | departed (nodeId : NodeId) :
    BrokerStep kind cfg sc (sc.withState (NeuralBroker.failPipelinesOn nodeId sc.state))
  | loaded (nodeId : NodeId) (delta : ℚ) (neural : kind = .neural) :
    BrokerStep kind cfg sc (sc.withState (NeuralBroker.updateWorkerLoad nodeId delta sc.state))
  | probed {results : List ProbeResult} (call : Call.healthCheck results ∈ sc.started) :
    BrokerStep kind cfg sc (sc.withState (roundOutcome kind cfg results sc.state).2)
  | counted (failures : Dict NodeId Nat) :
    BrokerStep kind cfg sc (sc.withState { sc.state with workerFailures := failures })
  | ticked {time : ℚ} (call : Call.tick time ∈ sc.started) :
    BrokerStep kind cfg sc (sc.withState { sc.state with clock := time })
  | cached {urls : Dict NodeId String} (call : Call.cachePeerWorkers urls ∈ sc.started) :
    BrokerStep kind cfg sc (sc.withState { sc.state with shardedPeerWorkerUrls := urls })

/-- What has happened stays in the record. -/
theorem BrokerStep.before {kind : BrokerKind} {cfg : BrokerConfig} {sc sc' : BrokerScene}
    (h : BrokerStep kind cfg sc sc') : sc.Before sc' := by
  cases h with
  | called | takenUp => exact ⟨List.prefix_append _ _, List.prefix_refl _, List.prefix_refl _⟩
  | answered => exact ⟨List.prefix_refl _, List.prefix_refl _, List.prefix_append _ _⟩
  | sent | resent => exact ⟨List.prefix_refl _, List.prefix_append _ _, List.prefix_refl _⟩
  | _ => exact ⟨List.prefix_refl _, List.prefix_refl _, List.prefix_refl _⟩

/-- What every broker is in between its steps: a pipeline is filed under its own id,
and only dispatches wait to be taken up. -/
structure InOrder (sc : BrokerScene) : Prop where
  named : sc.state.PipelinesNamed
  pending : OnlyDispatches sc

/-- A condition that every step of the broker keeps, whether or not a call from outside
does. -/
structure Follows (kind : BrokerKind) (cfg : BrokerConfig) (I : BrokerScene → Prop) : Prop where
  step : ∀ {sc sc'}, I sc → BrokerStep kind cfg sc sc' → sc'.started = sc.started → I sc'
  takenUp : ∀ {sc c pre post}, I sc → sc.pending = pre ++ c :: post →
    I ((sc.withPending (pre ++ post)).start c)
  inOrder : ∀ {sc}, I sc → InOrder sc

/-! ## Every handler makes steps -/

namespace Follows

variable {kind : BrokerKind} {r : Wake Broker Call WorkerMessage PyError Response}
  {cfg : BrokerConfig} {I J : BrokerScene → Prop}

/-- What has been sent stays sent. -/
theorem earlier (h : Follows kind cfg I) (m : WorkerMessage) :
    Follows kind cfg fun sc => I sc ∧ m ∈ sc.sent where
  step hI hstep started := ⟨h.step hI.1 hstep started, hstep.before.sent.subset hI.2⟩
  takenUp hI hp := ⟨h.takenUp hI.1 hp, hI.2⟩
  inOrder hI := h.inOrder hI.1

theorem preserves_step (h : Follows kind cfg I) {f : Broker → Broker}
    (hf : ∀ sc : BrokerScene, BrokerStep kind cfg sc (sc.withState (f sc.state))) :
    (Co.modify f : BrokerM Unit).Preserves r I :=
  Co.preserves_modify fun sc hI => h.step hI (hf sc) rfl

theorem preserves_failAndComplete (h : Follows kind cfg I) (pid : PipelineId) (error : String) :
    (failAndComplete pid error).Preserves r I := by
  intro sc hI
  have haborted := h.step hI (.aborted pid error) rfl
  exact haborted

theorem preserves_dispatchExhausted (h : Follows kind cfg I) (pid : PipelineId) (error : String) :
    (dispatchExhausted pid error).Preserves r I :=
  h.preserves_step fun _ => .dropped pid error

theorem preserves_dispatchReadyStages (h : Follows kind cfg I) (pid : PipelineId) :
    (dispatchReadyStages cfg pid).Preserves r I := by
  intro sc hI
  cases hps : sc.state.pipelines.get? pid with
  | none => simpa [dispatchReadyStages, getPipeline, subscript, hps] using hI
  | some ps =>
    have hscan : ps.failed = false → I (sc.withState
        (sc.state.updatePipeline pid fun _ => (sc.state.readyScan cfg ps).ps)) := fun hrunning =>
      h.step hI (.scanned hps hrunning) rfl
    refine wp_dispatchReadyStages hps (fun _ => hI) (fun hrunning result _ _ => ?_)
      (fun hrunning _ _ => hscan hrunning)
      fun hrunning _ _ => ⟨h.step hI (.scheduled hps hrunning) rfl,
        fun sc' hI' _ _ => ⟨hI', fun _ => hI'⟩⟩
    exact h.preserves_failAndComplete (r := r) pid (funnelError result) _ (hscan hrunning)

/-! ### Publishing and results -/

theorem wp_registerPipeline (h : Follows kind cfg I) {sc : BrokerScene} {req : PlacedPipeline}
    (hI : I sc) (hcall : Call.publish req ∈ sc.started)
    (hfresh : req.pipelineId ∉ sc.state.pipelines) :
    (registerPipeline cfg req).wp r I (fun _ => I) (fun _ => I) sc := by
  have hadmitted := h.step hI (.admitted hcall hfresh) rfl
  exact hadmitted

theorem wp_publish (h : Follows kind cfg I) {sc : BrokerScene} {req : PlacedPipeline}
    (hI : I sc) (hcall : Call.publish req ∈ sc.started)
    (hfresh : req.pipelineId ∉ sc.state.pipelines) :
    (BaseBroker.publish cfg req).wp r I (fun _ => I) (fun _ => I) sc := by
  unfold BaseBroker.publish
  rw [Co.wp_monad_bind]
  apply Co.wp_mono (fun _ _ h => h) _ (h.wp_registerPipeline hI hcall hfresh)
  intro _ sc' hI'
  exact ((h.preserves_dispatchReadyStages _).bind fun _ => (Co.preserves_read _).bind fun _ =>
    Co.preserves_pure _) sc' hI'

theorem wp_neuralPublish (h : Follows kind cfg I) {sc : BrokerScene} {req : PlacedPipeline}
    (hI : I sc) (hcall : Call.publish req ∈ sc.started)
    (hfresh : req.pipelineId ∉ sc.state.pipelines) :
    (NeuralBroker.publish cfg req).wp r I (fun _ => I) (fun _ => I) sc := by
  unfold NeuralBroker.publish
  rw [Co.wp_monad_bind]
  apply Co.wp_mono (fun _ _ h => h) _ (h.wp_registerPipeline hI hcall hfresh)
  intro _ sc' hI'
  exact ((Co.preserves_ofExcept _).bind fun _ => (h.preserves_dispatchReadyStages _).bind fun _ =>
    (Co.preserves_read _).bind fun _ => Co.preserves_pure _) sc' hI'

/-- The end of the two result handlers, for a pipeline that is still active. -/
theorem wp_completeOrAdvance (h : Follows kind cfg I) {sc : BrokerScene}
    {req : StageResultRequest} (hI : I sc) (hcall : Call.result req ∈ sc.started)
    (hactive : req.pipelineId ∈ sc.state.activePipelines) :
    (completeOrAdvance cfg req).wp r I (fun _ => I) (fun _ => I) sc := by
  unfold completeOrAdvance
  cases hps : sc.state.pipelines.get? req.pipelineId with
  | none => simpa [getPipeline, subscript, hps] using hI
  | some ps =>
    have hfound : sc.state.activePipeline? req.pipelineId = some ps := by
      rw [Broker.activePipeline?, if_pos hactive, hps]
    rw [Co.wp_monad_bind, wp_getPipeline hps]
    split
    · next hfailed =>
      have hclosed := h.step hI (.closed hcall hfound hfailed) rfl
      exact hclosed
    · next hfailed =>
      split
      · next hall =>
        have hdelivered := h.step hI (.delivered hcall hfound (by simpa using hfailed) hall) rfl
        exact hdelivered
      · exact ((h.preserves_dispatchReadyStages _).bind fun _ => Co.preserves_pure _) sc hI

theorem wp_handleResult (h : Follows kind cfg I) (hkind : receivedType kind = "unknown")
    {sc : BrokerScene} {req : StageResultRequest} (hI : I sc)
    (hcall : Call.result req ∈ sc.started) :
    (BaseBroker.handleResult cfg req).wp r I (fun _ => I) (fun _ => I) sc := by
  have hreceived := h.step hI (.received hcall) rfl
  rw [hkind] at hreceived
  unfold BaseBroker.handleResult
  simp only [Co.wp_monad_bind, Co.wp_read, Co.wp_modify]
  cases hactive : (sc.state.record (stageRecord req .stageResultReceived sc.state.clock
      "unknown")).activePipeline? req.pipelineId with
  | none => simpa [hactive] using hreceived
  | some ps =>
    simp only [Scene.state_withState, hactive, Co.wp_monad_bind, Co.wp_modify]
    have hrecorded := h.step hreceived (.recorded hcall hactive) rfl
    exact h.wp_completeOrAdvance hrecorded hcall (Withstands.active_of_activePipeline? hactive).1

theorem wp_neuralResult (h : Follows .neural cfg I) {sc : BrokerScene} {req : StageResultRequest}
    (hI : I sc) (hcall : Call.result req ∈ sc.started) :
    (NeuralBroker.result cfg req).wp r I (fun _ => I) (fun _ => I) sc := by
  have hreceived := h.step hI (.received hcall) rfl
  unfold NeuralBroker.result
  simp only [Co.wp_monad_bind, Co.wp_read, Co.wp_modify]
  cases hactive : (sc.state.record (stageRecord req .stageResultReceived sc.state.clock
      "__pending__")).activePipeline? req.pipelineId with
  | none =>
    rw [show receivedType .neural = "__pending__" from rfl] at hreceived
    simpa [hactive] using hreceived
  | some ps =>
    simp only [Scene.state_withState, hactive, Co.wp_monad_bind, Co.wp_modify, Co.wp_ofExcept]
    have hrecorded := h.step hreceived (.recorded hcall hactive) rfl
    cases ps.dag.getStage req.stageId with
    | error e => exact hrecorded
    | ok stage =>
      have hreleased := h.step hrecorded (.loaded req.nodeId (-stage.computationalDemand) rfl) rfl
      apply h.wp_completeOrAdvance hreleased hcall
      simpa [Broker.takeResult] using (Withstands.active_of_activePipeline? hactive).1

/-! ### Re-placement -/

/-- What the loop of the neural re-placement keeps: it never waits, so the
topology and the DAG are those that the solver saw. -/
def Resolving (J : BrokerScene → Prop) (pid : PipelineId) (topology : NetworkTopology)
    (dag : PipelineDAG) (sc : BrokerScene) : Prop :=
  J sc ∧ sc.state.topology = topology ∧
    ∃ ps, sc.state.pipelines.get? pid = some ps ∧ ps.dag = dag

theorem wp_rehostAll (h : Follows .neural cfg J) (hJ : ∀ sc, J sc → I sc) {pid : PipelineId}
    {topology : NetworkTopology} {dag : PipelineDAG} {placement : Placement}
    (hplacement : findPlacement dag topology cfg.governance cfg.weights = .ok placement)
    (stages : List StageId) {sc : BrokerScene} (hsc : Resolving J pid topology dag sc) :
    (Co.forEach stages fun sid => do
      let nodeId ← Co.ofExcept (subscript placement sid)
      Co.modify (·.updatePipeline pid fun ps =>
        { ps with placement := ps.placement.insert sid nodeId }) : BrokerM Unit).wp r I
          (fun _ => I) (fun _ => Resolving J pid topology dag) sc := by
  refine Co.wp_forEach ?_ hsc
  rintro sid - sc' ⟨hJ', htopology, ps', hps', hdag⟩
  simp only [Co.wp_monad_bind, Co.wp_ofExcept, Co.wp_modify]
  cases hsid : subscript placement sid with
  | error e => exact hJ _ hJ'
  | ok nodeId =>
    have hchosen : Chosen cfg sc'.state ps'.dag sid nodeId sc'.state .neural := by
      refine ⟨rfl, placement, ?_, subscript_eq_ok_iff.mp hsid⟩
      rw [htopology, hdag, hplacement]
    refine ⟨h.step hJ' (.rehosted hps' hchosen) rfl, htopology,
      { ps' with placement := ps'.placement.insert sid nodeId }, ?_, hdag⟩
    simp [Broker.get?_updatePipeline, hps']

theorem carries_neuralReplan (h : Follows .neural cfg J) (hJ : ∀ sc, J sc → I sc)
    (pid : PipelineId) (stages : List StageId) :
    (NeuralBroker.replan cfg pid stages).Carries r I J := by
  intro sc hsc
  unfold NeuralBroker.replan
  simp only [Co.wp_monad_bind, Co.wp_read]
  split
  · exact hsc
  · cases hps : sc.state.pipelines.get? pid with
    | none => simpa [getPipeline, subscript, hps] using hJ sc hsc
    | some ps =>
      rw [Co.wp_monad_bind, wp_getPipeline hps]
      split
      · next placement hplacement =>
        rw [Co.wp_monad_bind]
        exact Co.wp_mono (fun _ _ h => h) (fun _ _ hloop => hloop.1)
          (h.wp_rehostAll hJ hplacement stages ⟨hsc, rfl, ps, hps, rfl⟩)
      · exact hsc
      · exact hJ sc hsc

/-- A pick that finds no worker changes nothing, and says so. -/
theorem pickWorker_of_error {sliceRequirement : Option SliceId} {b b' : Broker} {e : PyError}
    (h : StaticBroker.pickWorker cfg sliceRequirement b = (.error e, b')) :
    b' = b ∧ ∃ msg, e = .runtime msg := by
  unfold StaticBroker.pickWorker at h
  dsimp only at h
  repeat' split at h
  all_goals simp only [Prod.mk.injEq, Except.error.injEq, reduceCtorEq, false_and] at h
  all_goals exact ⟨h.2.symm, _, h.1.symm⟩

theorem carries_replaceStage (h : Follows .static cfg J) (hJ : ∀ sc, J sc → I sc)
    (pid : PipelineId) (sid : StageId) : (StaticBroker.replaceStage cfg pid sid).Carries r I J := by
  intro sc hsc
  unfold StaticBroker.replaceStage
  cases hps : sc.state.pipelines.get? pid with
  | none => simpa [getPipeline, subscript, hps] using hJ sc hsc
  | some ps =>
    rw [Co.wp_monad_bind, wp_getPipeline hps, Co.wp_monad_bind, Co.wp_ofExcept]
    cases hstage : ps.dag.getStage sid with
    | error e => exact hJ sc hsc
    | ok stage =>
      simp only [Co.wp_monad_bind, Co.wp_update]
      cases hpick : StaticBroker.pickWorker cfg stage.sliceRequirement sc.state with
      | mk picked b =>
        cases picked with
        | ok nodeId =>
          have hrehosted := h.step hsc (.rehosted hps ⟨stage, hstage, hpick⟩) rfl
          exact hrehosted
        | error e =>
          obtain ⟨rfl, msg, rfl⟩ := pickWorker_of_error hpick
          exact hsc

theorem carries_replaceAll (h : Follows .static cfg J) (hJ : ∀ sc, J sc → I sc)
    (pid : PipelineId) (stages : List StageId) :
    (StaticBroker.replaceAll cfg pid stages).Carries r I J := by
  induction stages with
  | nil => exact Co.carries_pure true
  | cons sid rest ih =>
    refine (h.carries_replaceStage hJ pid sid).bind fun placed => ?_
    cases placed with
    | false => exact Co.carries_pure false
    | true => exact ih

theorem carries_staticReplan (h : Follows .static cfg J) (hJ : ∀ sc, J sc → I sc)
    (pid : PipelineId) (stages : List StageId) :
    (StaticBroker.replan cfg pid stages).Carries r I J := by
  refine (Co.carries_read _).bind fun workers => ?_
  split
  · exact Co.carries_pure false
  · exact h.carries_replaceAll hJ pid stages

theorem preserves_replaceStagesOf (h : Follows kind cfg I)
    {replan : PipelineId → List StageId → BrokerM Bool}
    (hreplan : ∀ pid stages, (replan pid stages).Preserves r I) (deadNodeId : NodeId)
    (pid : PipelineId) : (replaceStagesOf cfg replan deadNodeId pid).Preserves r I := by
  refine (Withstands.preserves_getPipeline pid).bind fun ps => ?_
  split
  · exact Co.preserves_pure ()
  · refine Co.Preserves.bind ?_ fun replaced => ?_
    · unfold replaceUnlessNone
      split
      · exact Co.preserves_pure true
      · exact hreplan pid _
    · cases replaced with
      | true => exact h.preserves_dispatchReadyStages pid
      | false => exact h.preserves_failAndComplete pid _

theorem preserves_replaceFailedStages (h : Follows kind cfg I)
    {replan : PipelineId → List StageId → BrokerM Bool}
    (hreplan : ∀ pid stages, (replan pid stages).Preserves r I) (deadNodeId : NodeId) :
    (replaceFailedStages cfg replan deadNodeId).Preserves r I :=
  (Co.preserves_read _).bind fun _ => Co.preserves_forEach fun pid _ =>
    h.preserves_replaceStagesOf hreplan deadNodeId pid

theorem preserves_removeDeadWorker (h : Follows kind cfg I) {replace : NodeId → BrokerM Unit}
    (hreplace : ∀ nodeId, (replace nodeId).Preserves r I) (nodeId : NodeId) :
    (removeDeadWorker (onWorkerChange kind) replace nodeId).Preserves r I := by
  refine (h.preserves_step fun _ => .counted _).bind fun _ =>
    (Co.preserves_modify fun sc hI => ?_).bind fun _ => hreplace nodeId
  split
  · exact h.step hI (.removed nodeId) rfl
  · exact hI

/-! ### Dispatch -/

theorem wp_baseDispatchStage (h : Follows .base cfg I) {sc : BrokerScene} {pid : PipelineId}
    {sid : StageId} (hI : I sc) (hcall : Call.dispatchStage pid sid ∈ sc.started) :
    (BaseBroker.dispatchStage cfg pid sid).wp r I (fun _ => I) (fun _ => I) sc := by
  unfold BaseBroker.dispatchStage
  cases hps : sc.state.pipelines.get? pid with
  | none => simpa [getPipeline, subscript, hps] using hI
  | some ps =>
    rw [Co.wp_monad_bind, wp_getPipeline hps, Co.wp_monad_bind, Co.wp_ofExcept]
    cases hplaced : subscript ps.placement sid with
    | error e => exact hI
    | ok nodeId =>
      simp only [Co.wp_monad_bind, Co.wp_read]
      cases hworker : sc.state.workers.get? nodeId with
      | none => exact h.preserves_failAndComplete pid _ sc hI
      | some worker =>
        simp only [Co.wp_monad_bind, Co.wp_ofExcept]
        cases hstage : ps.dag.getStage sid with
        | error e => exact hI
        | ok stage =>
          have htarget : dispatchUrl .base nodeId sc.state = some (worker.url, false) := by
            simp [dispatchUrl, hworker]
          have hsent := h.step hI
            (.sent hcall hps (subscript_eq_ok_iff.mp hplaced) htarget hstage) rfl
          refine ⟨hsent, fun reply sc' hI' _ _ => ?_⟩
          cases reply with
          | ok u => exact hI'
          | error exc =>
            exact h.preserves_failAndComplete (r := r) pid _ sc' hI'

/-- The end of both recoveries of a failed send: the payload goes to the new host
of the stage, or the dispatch is given up. -/
theorem wp_resend (h : Follows kind cfg I) {exhausted : BrokerM Unit}
    (hexhausted : exhausted.Preserves r I) {sc : BrokerScene} (hI : I sc) {m : WorkerMessage}
    (hm : m ∈ sc.sent) {pid : PipelineId} {sid : StageId} (hpid : m.payload.pipelineId = pid)
    (hsid : m.payload.stageId = sid) : Co.wp r I (fun _ => I) (do
      let ps ← getPipeline pid
      let newNodeId ← Co.ofExcept (subscript ps.placement sid)
      match ← Co.read (·.workers.get? newNodeId) with
      | none => exhausted
      | some newWorker =>
        match ← Co.request (workerMessage cfg newNodeId newWorker.url m.payload) with
        | .ok () => return ()
        | .error _ => exhausted : BrokerM Unit) (fun _ => I) sc := by
  cases hps : sc.state.pipelines.get? pid with
  | none => simpa [getPipeline, subscript, hps] using hI
  | some ps =>
    rw [Co.wp_monad_bind, wp_getPipeline hps, Co.wp_monad_bind, Co.wp_ofExcept]
    cases hplaced : subscript ps.placement sid with
    | error e => exact hI
    | ok nodeId =>
      simp only [Co.wp_monad_bind, Co.wp_read]
      cases hworker : sc.state.workers.get? nodeId with
      | none => exact hexhausted sc hI
      | some worker =>
        have hresent := h.step hI
          (.resent hps (subscript_eq_ok_iff.mp hplaced) hworker hm hpid hsid) rfl
        refine ⟨hresent, fun reply sc' hI' _ _ => ?_⟩
        cases reply with
        | ok u => exact hI'
        | error exc => exact hexhausted sc' hI'

theorem wp_staticRedispatch (h : Follows .static cfg I) {sc : BrokerScene} (hI : I sc)
    (pid : PipelineId) (sid : StageId) (nodeId : NodeId) {m : WorkerMessage} (hm : m ∈ sc.sent)
    (hpid : m.payload.pipelineId = pid) (hsid : m.payload.stageId = sid) :
    (StaticBroker.redispatch cfg pid sid nodeId m.payload).wp r I (fun _ => I) (fun _ => I) sc := by
  have hevicted : I (sc.withState (StaticBroker.evict nodeId sc.state)) := by
    unfold StaticBroker.evict
    split
    · have hremoved := h.step (h.step hI (.removed nodeId) rfl)
        (.counted (sc.state.workerFailures.erase nodeId)) rfl
      exact hremoved
    · exact hI
  unfold StaticBroker.redispatch
  rw [Co.wp_monad_bind, Co.wp_modify, Co.wp_monad_bind]
  refine Co.wp_mono (fun _ _ h => h) ?_
    ((h.earlier m).carries_staticReplan (fun _ hJ => hJ.1) pid [sid] _ ⟨hevicted, hm⟩)
  rintro replaced sc' ⟨hI', hm'⟩
  cases replaced with
  | false => exact h.preserves_dispatchExhausted pid _ sc' hI'
  | true => exact h.wp_resend (h.preserves_dispatchExhausted pid _) hI' hm' hpid hsid

theorem wp_neuralRedispatch (h : Follows .neural cfg I) {sc : BrokerScene} (hI : I sc)
    (pid : PipelineId) (sid : StageId) (nodeId : NodeId) (stage : Stage) (exc : PyError)
    {m : WorkerMessage} (hm : m ∈ sc.sent) (hpid : m.payload.pipelineId = pid)
    (hsid : m.payload.stageId = sid) :
    (NeuralBroker.redispatch cfg pid sid nodeId stage m.payload exc).wp r I (fun _ => I)
      (fun _ => I) sc := by
  have hexhausted : ∀ error, (do
      Co.modify (NeuralBroker.updateWorkerLoad nodeId (-stage.computationalDemand))
      dispatchExhausted pid error : BrokerM Unit).Preserves r I := fun error =>
    (h.preserves_step fun _ => .loaded nodeId _ rfl).bind fun _ =>
      h.preserves_dispatchExhausted pid error
  have hcounted := h.step hI (.counted (sc.state.workerFailures.insert nodeId
    (sc.state.workerFailures.getD nodeId 0 + 1))) rfl
  unfold NeuralBroker.redispatch
  rw [Co.wp_monad_bind, Co.wp_modify, Co.wp_monad_bind]
  refine Co.wp_mono (fun _ _ h => h) ?_
    ((h.earlier m).carries_neuralReplan (fun _ hJ => hJ.1) pid [sid] _ ⟨hcounted, hm⟩)
  rintro replaced sc' ⟨hI', hm'⟩
  cases replaced with
  | false => exact hexhausted _ sc' hI'
  | true => exact h.wp_resend (hexhausted _) hI' hm' hpid hsid

theorem wp_staticDispatchStage (h : Follows .static cfg I) {sc : BrokerScene} {pid : PipelineId}
    {sid : StageId} (hI : I sc) (hcall : Call.dispatchStage pid sid ∈ sc.started) :
    (StaticBroker.dispatchStage cfg pid sid).wp r I (fun _ => I) (fun _ => I) sc := by
  unfold StaticBroker.dispatchStage
  cases hps : sc.state.pipelines.get? pid with
  | none => simpa [getPipeline, subscript, hps] using hI
  | some ps =>
    rw [Co.wp_monad_bind, wp_getPipeline hps, Co.wp_monad_bind, Co.wp_ofExcept]
    cases hplaced : subscript ps.placement sid with
    | error e => exact hI
    | ok nodeId =>
      simp only [Co.wp_monad_bind, Co.wp_read]
      cases hworker : sc.state.workers.get? nodeId with
      | none => exact h.preserves_failAndComplete pid _ sc hI
      | some worker =>
        simp only [Co.wp_monad_bind, Co.wp_ofExcept]
        cases hstage : ps.dag.getStage sid with
        | error e => exact hI
        | ok stage =>
          have htarget : dispatchUrl .static nodeId sc.state = some (worker.url, false) := by
            simp [dispatchUrl, hworker]
          have hsent := h.step hI
            (.sent hcall hps (subscript_eq_ok_iff.mp hplaced) htarget hstage) rfl
          refine ⟨hsent, fun reply sc' hI' hbefore _ => ?_⟩
          cases reply with
          | ok u => exact hI'
          | error exc =>
            have hname := (h.inOrder hI).named pid ps hps
            have hm := hbefore.sent.subset (List.mem_append_right _ (List.mem_singleton_self _))
            have hredispatched := h.wp_staticRedispatch (r := r) hI' pid sid
              nodeId hm (by simpa [executeRequest] using hname) (by simp [executeRequest])
            rwa [payload_workerMessage] at hredispatched

theorem wp_neuralDispatchStage (h : Follows .neural cfg I) {sc : BrokerScene} {pid : PipelineId}
    {sid : StageId} (hI : I sc) (hcall : Call.dispatchStage pid sid ∈ sc.started) :
    (NeuralBroker.dispatchStage cfg pid sid).wp r I (fun _ => I) (fun _ => I) sc := by
  unfold NeuralBroker.dispatchStage
  cases hps : sc.state.pipelines.get? pid with
  | none => simpa [getPipeline, subscript, hps] using hI
  | some ps =>
    rw [Co.wp_monad_bind, wp_getPipeline hps, Co.wp_monad_bind, Co.wp_ofExcept]
    cases hplaced : subscript ps.placement sid with
    | error e => exact hI
    | ok nodeId =>
      simp only [Co.wp_monad_bind, Co.wp_read]
      cases htarget : NeuralBroker.dispatchUrl nodeId sc.state with
      | none => exact h.preserves_dispatchExhausted pid _ sc hI
      | some target =>
        obtain ⟨url, peerDispatch⟩ := target
        simp only [Co.wp_monad_bind, Co.wp_ofExcept]
        cases hstage : ps.dag.getStage sid with
        | error e => exact hI
        | ok stage =>
          have hsent := h.step hI
            (.sent hcall hps (subscript_eq_ok_iff.mp hplaced) htarget hstage) rfl
          refine ⟨hsent, fun reply sc' hI' hbefore _ => ?_⟩
          cases reply with
          | ok u => exact hI'
          | error exc =>
            have hname := (h.inOrder hI).named pid ps hps
            have hm := hbefore.sent.subset (List.mem_append_right _ (List.mem_singleton_self _))
            have hredispatched := h.wp_neuralRedispatch (r := r) hI' pid sid
              nodeId stage exc hm (by simpa [executeRequest] using hname) (by simp [executeRequest])
            rwa [payload_workerMessage] at hredispatched

/-! ### All handlers -/

theorem wp_return {x : BrokerM Unit} {sc : BrokerScene}
    (hx : x.wp r I (fun _ => I) (fun _ => I) sc) :
    (x >>= fun _ => pure Response.none).wp r I (fun _ => I) (fun _ => I) sc := by
  rw [Co.wp_monad_bind]
  exact hx

theorem preserves_register (h : Follows kind cfg I) {sc : BrokerScene} {req : RegisterRequest}
    (hI : I sc) (hcall : Call.register req ∈ sc.started) (hbid : registeredBid kind req = 0) :
    (BaseBroker.register (onWorkerChange kind) req).wp r I (fun _ => I) (fun _ => I) sc := by
  have hregistered := h.step hI (.registered hcall) rfl
  rw [hbid] at hregistered
  exact hregistered

theorem preserves_deregister (h : Follows kind cfg I) (nodeId : NodeId) :
    (BaseBroker.deregister (onWorkerChange kind) nodeId).Preserves r I := by
  refine (Co.preserves_read _).bind fun workers => ?_
  split
  · exact Co.preserves_raise _
  · intro sc hI
    have hremoved := h.step hI (.removed nodeId) rfl
    exact hremoved

theorem preserves_neuralDeregister (h : Follows .neural cfg I) (nodeId : NodeId) :
    (NeuralBroker.deregister nodeId).Preserves r I := by
  refine (Co.preserves_read _).bind fun workers => ?_
  split
  · exact Co.preserves_raise _
  · intro sc hI
    have hdeparted := h.step (h.step hI (.removed nodeId) rfl) (.departed nodeId) rfl
    exact hdeparted

/-- What follows the probes of a health check round. -/
theorem wp_healthCheck (h : Follows kind cfg I) {replace : NodeId → BrokerM Unit}
    (hreplace : ∀ nodeId, (replace nodeId).Preserves r I) {results : List ProbeResult}
    {sc : BrokerScene} (hI : I sc) (hcall : Call.healthCheck results ∈ sc.started) :
    (healthCheck (onWorkerChange kind) replace cfg.healthCheckMaxFailures (syncLoad kind)
      results).wp r I (fun _ => I) (fun _ => I) sc := by
  unfold healthCheck
  rw [Co.wp_monad_bind, Co.wp_update]
  exact (Co.preserves_forEach fun nodeId _ => h.preserves_removeDeadWorker hreplace nodeId) _
    (h.step hI (.probed hcall) rfl)

/-- Every handler is a sequence of steps, if the id of a publish is new. -/
theorem wp_brokerBody (h : Follows kind cfg I) {sc : BrokerScene} {c : Call} (hI : I sc)
    (hc : c ∈ sc.started)
    (hfresh : ∀ req, c = .publish req → req.pipelineId ∉ sc.state.pipelines) :
    (brokerBody kind cfg c).wp r I (fun _ => I) (fun _ => I) sc := by
  cases c with
  | publish req =>
    cases kind with
    | base | static => exact h.wp_publish hI hc (hfresh req rfl)
    | neural => exact h.wp_neuralPublish hI hc (hfresh req rfl)
  | register req =>
    cases kind with
    | base | static => exact h.preserves_register hI hc rfl
    | neural =>
      have hregistered := h.step hI (.registered hc) rfl
      exact hregistered
  | deregister nodeId =>
    cases kind with
    | base | static => exact h.preserves_deregister nodeId sc hI
    | neural => exact h.preserves_neuralDeregister nodeId sc hI
  | result req =>
    cases kind with
    | base | static => exact h.wp_handleResult rfl hI hc
    | neural => exact h.wp_neuralResult hI hc
  | dispatchStage pid sid =>
    cases kind with
    | base => exact wp_return (h.wp_baseDispatchStage hI hc)
    | static => exact wp_return (h.wp_staticDispatchStage hI hc)
    | neural => exact wp_return (h.wp_neuralDispatchStage hI hc)
  | healthCheck results =>
    cases kind with
    | base => exact hI
    | static =>
      exact wp_return (h.wp_healthCheck (h.preserves_replaceFailedStages
        (h.carries_staticReplan fun _ hsc => hsc)) hI hc)
    | neural =>
      exact wp_return (h.wp_healthCheck (h.preserves_replaceFailedStages
        (h.carries_neuralReplan fun _ hsc => hsc)) hI hc)
  | cachePeerWorkers urls =>
    cases kind with
    | base | static => exact hI
    | neural =>
      have hcached := h.step hI (.cached hc) rfl
      exact hcached
  | tick time =>
    have hticked := h.step hI (.ticked hc) rfl
    cases kind with
    | base | static | neural => exact hticked

/-- A condition that every step keeps, and that the calls of an environment keep, holds
wherever the handlers wait. -/
theorem keeps (h : Follows kind cfg I) {p : BrokerScene → Call → Prop}
    (hcalled : ∀ {sc c}, I sc → (∀ pid sid, c ≠ .dispatchStage pid sid) → p sc c → I (sc.start c)) :
    ((faultyRules kind cfg).provided p).Keeps I := by
  refine Rules.keeps_of_wp (fun sc c e hI => h.step hI (.answered c e) rfl) ?_ ?_
  · intro sc c hI hc
    have hexternal : ∀ pid sid, c ≠ .dispatchStage pid sid := by
      rintro pid sid rfl
      exact hc.1
    refine h.wp_brokerBody (hcalled hI hexternal hc.2) (List.mem_append_right _ (by simp)) ?_
    rintro req rfl
    exact hc.1
  · intro sc c pre post hp hI _
    refine h.wp_brokerBody (h.takenUp hI hp) (List.mem_append_right _ (by simp)) ?_
    rintro req rfl
    obtain ⟨_, _, hdispatch⟩ := (h.inOrder hI).pending (.publish req) (by simp [hp])
    cases hdispatch

end Follows

end NeuralPubSub
