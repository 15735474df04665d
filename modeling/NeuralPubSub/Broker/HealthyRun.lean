-- SUMMARY: Runs without failures: every pipeline advances, is never stuck, and completes with its last result.
import NeuralPubSub.Broker.Placement.Constraints
import NeuralPubSub.Broker.Safety

open Base

/-!
# Healthy runs

Every send succeeds, each stage that was sent reports one success, in any order,
and the workers of a placement stay. `HealthyInv` ties the sets of each pipeline
to the calls, the messages and the results so far, for all three brokers.
-/

namespace NeuralPubSub

/-! ## The environment -/

/-- A dispatch to the node finds a worker: one that is registered or, for the
neural broker, one that a peer owns and whose URL is cached. -/
def Broker.Serves (kind : BrokerKind) (b : Broker) (nodeId : NodeId) : Prop :=
  nodeId ∈ b.workers ∨ kind = .neural ∧ nodeId ∈ b.shardedPeerWorkerUrls

instance (kind : BrokerKind) (b : Broker) (nodeId : NodeId) : Decidable (b.Serves kind nodeId) :=
  inferInstanceAs (Decidable (_ ∨ _))

/-- The nodes that the placements of the pipelines use. -/
def Broker.usedNodes (b : Broker) : List NodeId :=
  b.pipelines.values.flatMap (·.placement.values)

/-- The request places each stage of a DAG that is not empty on a worker that the
broker can dispatch to. The nodes belong to the topology that the neural broker
checks the placement against. -/
structure Served (kind : BrokerKind) (b : Broker) (req : PlacedPipeline) : Prop where
  nonempty : req.dag.stages.keys ≠ []
  stages : ∀ sid ∈ req.dag.stages.keys, ∃ nodeId ∈ req.placement.get? sid, b.Serves kind nodeId
  checked : kind = .neural → req.feasibilityTopology.Complete ∧ ∀ e ∈ req.placement.entries,
    e.1 ∈ req.dag.stages ∧ e.2 ∈ req.feasibilityTopology.nodes.map (·.nodeId)

instance (kind : BrokerKind) (b : Broker) (req : PlacedPipeline) : Decidable (Served kind b req) :=
  decidable_of_iff (req.dag.stages.keys ≠ [] ∧
      (∀ sid ∈ req.dag.stages.keys, ∃ nodeId ∈ req.placement.get? sid, b.Serves kind nodeId) ∧
      (kind = .neural → req.feasibilityTopology.Complete ∧ ∀ e ∈ req.placement.entries,
        e.1 ∈ req.dag.stages ∧ e.2 ∈ req.feasibilityTopology.nodes.map (·.nodeId)))
    ⟨fun h => ⟨h.1, h.2.1, h.2.2⟩, fun h => ⟨h.nonempty, h.stages, h.checked⟩⟩

/-- The predecessors of each fan-in stage are on workers of the broker's own registry. -/
def LocalFanIns (b : Broker) (req : PlacedPipeline) : Prop :=
  ∀ sid ∈ req.dag.stages.keys, 1 < (req.dag.predecessors sid).length →
    ∀ p ∈ req.dag.predecessors sid, ∀ nodeId ∈ req.placement.get? p, nodeId ∈ b.workers

instance (b : Broker) (req : PlacedPipeline) : Decidable (LocalFanIns b req) :=
  inferInstanceAs (Decidable (∀ sid ∈ _, _))

/-- Pipelines with served placements come in, each stage that was sent reports one
success, sends succeed, no worker dies, and none that a placement uses leaves. -/
def healthyRules (kind : BrokerKind) (cfg : BrokerConfig) :
    Rules Broker Call WorkerMessage PyError Response where
  body := brokerBody kind cfg
  mayCall sc c := match c with
    | .publish req => req.pipelineId ∉ sc.state.pipelines ∧ Served kind sc.state req
    | .result req => req.success = true ∧
        (req.pipelineId, req.stageId) ∈ (outstanding sc).map (·.key)
    | .deregister nodeId => nodeId ∉ sc.state.usedNodes
    | .healthCheck results => kind = .base ∨ (roundOutcome kind cfg results sc.state).1 = []
    | .cachePeerWorkers urls => ∀ nodeId ∈ sc.state.usedNodes, nodeId ∈ sc.state.workers ∨ nodeId ∈ urls
    | .register _ | .tick _ => True
    | .dispatchStage _ _ => False
  mayReply _ _ e := e = .ok ()

/-- Healthy runs in which the fan-ins of every published pipeline are local. -/
def localRules (kind : BrokerKind) (cfg : BrokerConfig) :
    Rules Broker Call WorkerMessage PyError Response :=
  (healthyRules kind cfg).provided fun sc c => match c with
    | .publish req => LocalFanIns sc.state req
    | _ => True

instance (kind : BrokerKind) (cfg : BrokerConfig) : (healthyRules kind cfg).DecidableRules where
  mayCall sc
    | .publish req =>
      inferInstanceAs (Decidable (req.pipelineId ∉ sc.state.pipelines ∧ Served kind sc.state req))
    | .result req => inferInstanceAs (Decidable (req.success = true ∧ _ ∈ _))
    | .deregister nodeId => inferInstanceAs (Decidable (nodeId ∉ sc.state.usedNodes))
    | .healthCheck _ => inferInstanceAs (Decidable (kind = .base ∨ _ = _))
    | .cachePeerWorkers _ => inferInstanceAs (Decidable (∀ nodeId ∈ sc.state.usedNodes, _ ∨ _))
    | .register _ | .tick _ => isTrue trivial
    | .dispatchStage _ _ => isFalse id
  mayReply _ _ e := inferInstanceAs (Decidable (e = .ok ()))
  mayStart _ _ := isTrue trivial
  mayJoin _ _ _ := isTrue trivial

instance (sc : BrokerScene) : ∀ c : Call, Decidable (match c with
    | .publish req => LocalFanIns sc.state req
    | _ => True)
  | .publish req => inferInstanceAs (Decidable (LocalFanIns sc.state req))
  | .register _ | .deregister _ | .result _ | .dispatchStage _ _ | .healthCheck _
  | .cachePeerWorkers _ | .tick _ => isTrue trivial

instance (kind : BrokerKind) (cfg : BrokerConfig) : (localRules kind cfg).DecidableRules :=
  inferInstanceAs (Rules.DecidableRules (Rules.provided _ _))

/-- The DAG that a call brings. -/
def Call.dag? : Call → Option PipelineDAG
  | .publish req => some req.dag
  | .register _ | .deregister _ | .result _ | .dispatchStage _ _ | .healthCheck _
  | .cachePeerWorkers _ | .tick _ => none

/-- The DAG of a publish request comes from the builder. -/
def Call.BuiltDag (c : Call) : Prop := ∀ dag ∈ c.dag?, dag.Built

/-! ## What a healthy run keeps -/

/-- How many results of the pipeline have come in. -/
def resultCount (sc : BrokerScene) (pipelineId : PipelineId) : Nat :=
  sc.started.countP fun c => c.resultKey?.map Prod.fst = some pipelineId

/-- How often a result has been answered with the completion of the pipeline. -/
def completeAnswers (sc : BrokerScene) (pipelineId : PipelineId) : Nat :=
  sc.answered.countP fun a => a.2 = .ok (.pipelineComplete pipelineId)

/-- The parts of a pipeline agree with each other and with what has happened. -/
structure Healthy (kind : BrokerKind) (sc : BrokerScene) (pid : PipelineId) (ps : PipelineState) :
    Prop where
  named : ps.pipelineId = pid
  wellFormed : ps.dag.WellFormed
  nonempty : ps.dag.stages.keys ≠ []
  failed : ps.failed = false
  skipped : ps.skippedStages = ∅
  isPartial : ps.isPartial = false
  waitStart : ps.funnelWaitStart = none
  hosted : ∀ sid ∈ ps.dag.stages.keys, ∃ nodeId ∈ ps.placement.get? sid, sc.state.Serves kind nodeId
  fanIns : ∀ sid ∈ ps.dag.stages.keys, 1 < (ps.dag.predecessors sid).length →
    ∀ p ∈ ps.dag.predecessors sid, ∀ nodeId ∈ ps.placement.get? p, nodeId ∈ sc.state.workers
  dispatched : ∀ sid, sid ∈ ps.dispatchedStages ↔ 0 < scheduleCount sc pid sid
  inputs : ∀ sid ∈ ps.dispatchedStages, sid ∈ ps.allStages ∧ ps.InputsComplete sid
  completed : ∀ sid, sid ∈ ps.completedStages ↔ some (pid, sid) ∈ sc.started.map Call.resultKey?
  count : resultCount sc pid = ps.completedStages.card

/-- Every stage with all its inputs has been dispatched. -/
def Closed (ps : PipelineState) : Prop :=
  ∀ sid ∈ ps.allStages, ps.InputsComplete sid → sid ∈ ps.dispatchedStages

/-- The pipeline is active, and nothing has been recorded or answered about its end. -/
structure Running (sc : BrokerScene) (pid : PipelineId) : Prop where
  active : pid ∈ sc.state.activePipelines
  completions : sc.state.metrics.completionsOf pid = []
  answers : completeAnswers sc pid = 0

/-- The success of the pipeline has been recorded once and answered once. -/
structure Finished (sc : BrokerScene) (pid : PipelineId) : Prop where
  inactive : pid ∉ sc.state.activePipelines
  completions : sc.state.metrics.completionsOf pid = [{ pipelineId := pid, success := true }]
  answers : completeAnswers sc pid = 1

/-- The id is unknown, or its pipeline has been advanced as far as it can be. -/
structure Settled (kind : BrokerKind) (sc : BrokerScene) (pid : PipelineId) : Prop where
  unknown : pid ∉ sc.state.pipelines →
    sc.state.metrics.completionsOf pid = [] ∧ completeAnswers sc pid = 0
  healthy : ∀ ps, sc.state.pipelines.get? pid = some ps → Healthy kind sc pid ps
  closed : ∀ ps, sc.state.pipelines.get? pid = some ps → Closed ps
  status : ∀ ps, sc.state.pipelines.get? pid = some ps →
    ps.completedStages ≠ ps.allStages ∧ Running sc pid ∨
      ps.completedStages = ps.allStages ∧ Finished sc pid

/-- A stage is sent when its dispatch has been started, and reports after that. -/
structure StageTrace (sc : BrokerScene) : Prop where
  sent : ∀ m ∈ sc.sent, .dispatchStage m.key.1 m.key.2 ∈ sc.started
  delivered : ∀ pid sid, .dispatchStage pid sid ∈ sc.started → (pid, sid) ∈ sc.sent.map (·.key)
  reported : ∀ key, some key ∈ sc.started.map Call.resultKey? → key ∈ sc.sent.map (·.key)

/-- What holds whenever the handlers of a healthy run wait; within a handler, the
pipeline in focus may still have to be advanced. -/
structure HealthyInv (kind : BrokerKind) (focus : Option PipelineId) (sc : BrokerScene) : Prop
    extends StageTrace sc where
  settled : ∀ pid, focus ≠ some pid → Settled kind sc pid
  advancing : ∀ pid, focus = some pid →
    ∃ ps, sc.state.pipelines.get? pid = some ps ∧ Healthy kind sc pid ps ∧ Running sc pid

/-! ## Frames -/

/-- The pipeline is the same in both states, and its workers are still there. -/
structure SamePipeline (kind : BrokerKind) (pid : PipelineId) (b b' : Broker) : Prop where
  pipeline : b'.pipelines.get? pid = b.pipelines.get? pid
  active : pid ∈ b'.activePipelines ↔ pid ∈ b.activePipelines
  completions : b'.metrics.completionsOf pid = b.metrics.completionsOf pid
  workers : ∀ nodeId ∈ b.usedNodes, nodeId ∈ b.workers → nodeId ∈ b'.workers
  serves : ∀ nodeId ∈ b.usedNodes, b.Serves kind nodeId → b'.Serves kind nodeId

/-- The same has been scheduled, reported and answered for the pipeline. -/
structure SameRecord (pid : PipelineId) (sc sc' : BrokerScene) : Prop where
  scheduled : ∀ sid, 0 < scheduleCount sc' pid sid ↔ 0 < scheduleCount sc pid sid
  reported : ∀ sid, some (pid, sid) ∈ sc'.started.map Call.resultKey? ↔
    some (pid, sid) ∈ sc.started.map Call.resultKey?
  count : resultCount sc' pid = resultCount sc pid
  answers : completeAnswers sc' pid = completeAnswers sc pid

section Frame

variable {kind : BrokerKind} {pid : PipelineId} {b b' : Broker} {sc sc' sc'' : BrokerScene}

theorem SamePipeline.refl (kind : BrokerKind) (pid : PipelineId) (b : Broker) :
    SamePipeline kind pid b b :=
  ⟨rfl, Iff.rfl, rfl, fun _ _ h => h, fun _ _ h => h⟩

theorem SamePipeline.of_eq (hp : b'.pipelines = b.pipelines)
    (ha : b'.activePipelines = b.activePipelines)
    (hc : b'.metrics.completions = b.metrics.completions)
    (hw : ∀ nodeId ∈ b.usedNodes, nodeId ∈ b.workers → nodeId ∈ b'.workers)
    (hs : ∀ nodeId ∈ b.usedNodes, b.Serves kind nodeId → b'.Serves kind nodeId) :
    SamePipeline kind pid b b' where
  pipeline := by rw [hp]
  active := by rw [ha]
  completions := by
    rw [MetricsCollector.completionsOf, hc]
    rfl
  workers := hw
  serves := hs

/-- An update of one pipeline leaves the others alone. -/
theorem samePipeline_update {pid' : PipelineId} (hne : pid' ≠ pid) (b : Broker)
    (f : PipelineState → PipelineState) : SamePipeline kind pid' b (b.updatePipeline pid f) where
  pipeline := by rw [Broker.get?_updatePipeline, if_neg hne]
  active := Iff.rfl
  completions := rfl
  workers _ _ h := h
  serves _ _ h := h

/-- A registry that keeps the workers in use still serves them. -/
theorem serves_of_workers (hw : ∀ nodeId ∈ b.usedNodes, nodeId ∈ b.workers → nodeId ∈ b'.workers)
    (hu : b'.shardedPeerWorkerUrls = b.shardedPeerWorkerUrls) :
    ∀ nodeId ∈ b.usedNodes, b.Serves kind nodeId → b'.Serves kind nodeId :=
  fun nodeId hused hserves => hserves.imp (hw nodeId hused) fun h => ⟨h.1, hu ▸ h.2⟩

theorem SameRecord.trans (h : SameRecord pid sc sc') (h' : SameRecord pid sc' sc'') :
    SameRecord pid sc sc'' where
  scheduled sid := (h'.scheduled sid).trans (h.scheduled sid)
  reported sid := (h'.reported sid).trans (h.reported sid)
  count := h'.count.trans h.count
  answers := h'.answers.trans h.answers

theorem sameRecord_withState (pid : PipelineId) (sc : BrokerScene) (b : Broker) :
    SameRecord pid sc (sc.withState b) :=
  ⟨fun _ => Iff.rfl, fun _ => Iff.rfl, rfl, rfl⟩

theorem sameRecord_emit (pid : PipelineId) (sc : BrokerScene) (m : WorkerMessage) :
    SameRecord pid sc (sc.emit m) :=
  ⟨fun _ => Iff.rfl, fun _ => Iff.rfl, rfl, rfl⟩

/-- A call that neither dispatches nor reports a stage of the pipeline. -/
theorem sameRecord_start {c : Call} (hd : ∀ sid, c ≠ .dispatchStage pid sid)
    (hr : c.resultKey?.map Prod.fst ≠ some pid) : SameRecord pid sc (sc.start c) where
  scheduled sid := by simp [scheduleCount, dispatchCount, List.count_append, hd sid]
  reported sid := by
    have hne : some (pid, sid) ≠ c.resultKey? := fun heq => hr (by rw [← heq]; rfl)
    simp [hne]
  count := by simp [resultCount, List.countP_append, hr]
  answers := rfl

theorem sameRecord_dequeued {pid' : PipelineId} {sid' : StageId} {pre post : List Call}
    (hp : sc.pending = pre ++ .dispatchStage pid' sid' :: post) :
    SameRecord pid sc ((sc.withPending (pre ++ post)).start (.dispatchStage pid' sid')) where
  scheduled sid := by rw [SafetyInv.scheduleCount_dequeued hp]
  reported sid := by simp [Call.resultKey?]
  count := by simp [resultCount, Call.resultKey?]
  answers := rfl

theorem sameRecord_schedule {calls : List Call} (h : ∀ sid, .dispatchStage pid sid ∉ calls) :
    SameRecord pid sc (sc.schedule calls) where
  scheduled sid := by simp [scheduleCount, dispatchCount, List.count_eq_zero.mpr (h sid)]
  reported sid := Iff.rfl
  count := rfl
  answers := rfl

theorem sameRecord_answer (c : Call) {e : Except PyError Response}
    (he : e ≠ .ok (.pipelineComplete pid)) : SameRecord pid sc (sc.answer c e) where
  scheduled sid := Iff.rfl
  reported sid := Iff.rfl
  count := rfl
  answers := by simp [completeAnswers, he]

theorem mem_usedNodes {ps : PipelineState} {sid : StageId} {nodeId : NodeId}
    (hps : b.pipelines.get? pid = some ps) (hnode : ps.placement.get? sid = some nodeId) :
    nodeId ∈ b.usedNodes :=
  List.mem_flatMap.mpr ⟨ps, List.mem_map.mpr ⟨(pid, ps), Dict.get?_eq_some_iff.mp hps, rfl⟩,
    List.mem_map.mpr ⟨(sid, nodeId), Dict.get?_eq_some_iff.mp hnode, rfl⟩⟩

theorem Healthy.same {ps : PipelineState} (h : Healthy kind sc pid ps)
    (hps : sc.state.pipelines.get? pid = some ps)
    (hb : SamePipeline kind pid sc.state sc'.state) (hr : SameRecord pid sc sc') :
    Healthy kind sc' pid ps :=
  { h with
    hosted := fun sid hsid => (h.hosted sid hsid).imp fun nodeId hn =>
      ⟨hn.1, hb.serves nodeId (mem_usedNodes hps hn.1) hn.2⟩
    fanIns := fun sid hsid hlen p hp nodeId hn =>
      hb.workers nodeId (mem_usedNodes hps hn) (h.fanIns sid hsid hlen p hp nodeId hn)
    dispatched := fun sid => (h.dispatched sid).trans (hr.scheduled sid).symm
    completed := fun sid => (h.completed sid).trans (hr.reported sid).symm
    count := hr.count.trans h.count }

theorem Running.same (h : Running sc pid) (hb : SamePipeline kind pid sc.state sc'.state)
    (hr : SameRecord pid sc sc') : Running sc' pid where
  active := hb.active.mpr h.active
  completions := hb.completions.trans h.completions
  answers := hr.answers.trans h.answers

theorem Finished.same (h : Finished sc pid) (hb : SamePipeline kind pid sc.state sc'.state)
    (hr : SameRecord pid sc sc') : Finished sc' pid where
  inactive := mt hb.active.mp h.inactive
  completions := hb.completions.trans h.completions
  answers := hr.answers.trans h.answers

theorem Settled.same (h : Settled kind sc pid) (hb : SamePipeline kind pid sc.state sc'.state)
    (hr : SameRecord pid sc sc') : Settled kind sc' pid where
  unknown hnew := by
    have hold := h.unknown fun hm => by
      rw [← Dict.get?_isSome_iff, hb.pipeline, Dict.get?_isSome_iff] at hnew
      exact hnew hm
    exact ⟨hb.completions.trans hold.1, hr.answers.trans hold.2⟩
  healthy ps hps := by
    rw [hb.pipeline] at hps
    exact (h.healthy ps hps).same hps hb hr
  closed ps hps := h.closed ps (hb.pipeline ▸ hps)
  status ps hps := (h.status ps (hb.pipeline ▸ hps)).imp
    (.imp id fun hrun => hrun.same hb hr) (.imp id fun hfin => hfin.same hb hr)

end Frame

/-! ## What the handlers do -/

namespace HealthyInv

variable {kind : BrokerKind} {focus : Option PipelineId} {pid : PipelineId} {sc sc' : BrokerScene}

theorem same (h : HealthyInv kind focus sc) (ht : StageTrace sc')
    (hb : ∀ pid, SamePipeline kind pid sc.state sc'.state) (hr : ∀ pid, SameRecord pid sc sc') :
    HealthyInv kind focus sc' := by
  refine ⟨ht, fun pid hf => (h.settled pid hf).same (hb pid) (hr pid), fun pid hf => ?_⟩
  obtain ⟨ps, hps, hhealthy, hrunning⟩ := h.advancing pid hf
  exact ⟨ps, (hb pid).pipeline.trans hps, hhealthy.same hps (hb pid) (hr pid),
    hrunning.same (hb pid) (hr pid)⟩

theorem withState (h : HealthyInv kind focus sc) {b : Broker}
    (hb : ∀ pid, SamePipeline kind pid sc.state b) : HealthyInv kind focus (sc.withState b) :=
  h.same ⟨h.sent, h.delivered, h.reported⟩ hb fun pid => sameRecord_withState pid sc b

theorem record (h : HealthyInv kind focus sc) (r : TimestampRecord) :
    HealthyInv kind focus (sc.withState (sc.state.record r)) :=
  h.withState fun _ => .of_eq rfl rfl rfl (fun _ _ h => h) fun _ _ h => h

theorem loaded (h : HealthyInv kind focus sc) (nodeId : NodeId) (delta : ℚ) :
    HealthyInv kind focus (sc.withState (NeuralBroker.updateWorkerLoad nodeId delta sc.state)) := by
  have hworkers : ∀ n ∈ sc.state.usedNodes, n ∈ sc.state.workers →
      n ∈ (NeuralBroker.updateWorkerLoad nodeId delta sc.state).workers := fun n _ hn =>
    (NeuralBroker.mem_workers_updateWorkerLoad nodeId delta sc.state n).mpr hn
  exact h.withState fun _ => .of_eq (by simp) (by simp) (by simp) hworkers
    (serves_of_workers hworkers (by simp))

/-- A call that neither dispatches a stage nor reports one. -/
theorem start (h : HealthyInv kind focus sc) {c : Call} (hc : ∀ pid sid, c ≠ .dispatchStage pid sid)
    (hresult : c.resultKey? = none) : HealthyInv kind focus (sc.start c) := by
  refine h.same ⟨fun m hm => List.mem_append_left _ (h.sent m hm), fun pid sid hd => ?_,
    fun key hk => ?_⟩ (fun pid => .refl kind pid _) fun pid => sameRecord_start (hc pid) ?_
  · apply h.delivered pid sid
    simpa [Ne.symm (hc pid sid)] using hd
  · apply h.reported key
    simpa [hresult] using hk
  · simp [hresult]

/-- Any answer but that of a completion. -/
theorem answer (h : HealthyInv kind focus sc) (c : Call) {e : Except PyError Response}
    (he : ∀ pid, e ≠ .ok (.pipelineComplete pid)) : HealthyInv kind focus (sc.answer c e) :=
  h.same ⟨h.sent, h.delivered, h.reported⟩ (fun pid => .refl kind pid _)
    fun pid => sameRecord_answer c (he pid)

/-- A scheduled dispatch is started and sends its stage. -/
theorem dispatched (h : HealthyInv kind focus sc) {sid : StageId} {pre post : List Call}
    (hp : sc.pending = pre ++ .dispatchStage pid sid :: post) {m : WorkerMessage}
    (hm : m.key = (pid, sid)) :
    HealthyInv kind focus (((sc.withPending (pre ++ post)).start (.dispatchStage pid sid)).emit m) := by
  refine h.same ⟨fun m' hm' => ?_, fun pid' sid' hd => ?_, fun key hk => ?_⟩
    (fun pid' => .refl kind pid' _)
    fun pid' => (sameRecord_dequeued hp).trans (sameRecord_emit ..)
  · rcases List.mem_append.mp hm' with hm' | hm'
    · exact List.mem_append_left _ (h.sent m' hm')
    · obtain rfl := List.mem_singleton.mp hm'
      rw [hm]
      exact List.mem_append_right _ (by simp)
  · rw [Scene.sent_emit, List.map_append]
    rcases List.mem_append.mp hd with hd | hd
    · exact List.mem_append_left _ (h.delivered pid' sid' hd)
    · rw [List.mem_singleton, Call.dispatchStage.injEq] at hd
      apply List.mem_append_right
      simp [hm, hd.1, hd.2]
  · rw [Scene.sent_emit, List.map_append]
    apply List.mem_append_left
    apply h.reported key
    simpa [Call.resultKey?] using hk

/-- A new pipeline is admitted, which comes into focus. -/
theorem admitted (h : HealthyInv kind none sc) (hsafety : SafetyInv sc) {req : PlacedPipeline}
    (hnew : req.pipelineId ∉ sc.state.pipelines) (hdag : req.dag.WellFormed)
    (hserved : Served kind sc.state req) (hlocal : LocalFanIns sc.state req) :
    HealthyInv kind (some req.pipelineId) (sc.withState { sc.state with
      pipelines := sc.state.pipelines.insert req.pipelineId
        { pipelineId := req.pipelineId, pipelineType := req.pipelineType
          dag := req.dag, placement := req.placement }
      activePipelines := sc.state.activePipelines ++ [req.pipelineId] }) := by
  -- nothing has been scheduled or reported under the new id
  have hscheduled : ∀ sid, ¬ 0 < scheduleCount sc req.pipelineId sid := fun sid hpos => by
    obtain ⟨ps, hps, -⟩ := hsafety.marked req.pipelineId sid hpos
    exact hnew (Dict.mem_of_get?_eq_some hps)
  have hreported : ∀ sid, some (req.pipelineId, sid) ∉ sc.started.map Call.resultKey? :=
    fun sid hr => by
      obtain ⟨m, hm, hkey⟩ := List.mem_map.mp (h.reported _ hr)
      have hd := h.sent m hm
      rw [hkey] at hd
      apply hscheduled sid
      exact Nat.lt_of_lt_of_le (List.count_pos_iff.mpr hd) (Nat.le_add_left _ _)
  have hcount : resultCount sc req.pipelineId = 0 := by
    unfold resultCount
    rw [List.countP_eq_zero]
    intro c hc heq
    obtain ⟨key, hkey, hpid⟩ := Option.map_eq_some_iff.mp (of_decide_eq_true heq)
    apply hreported key.2
    exact List.mem_map.mpr ⟨c, hc, by rw [hkey, ← hpid]⟩
  have hold := (h.settled req.pipelineId (by simp)).unknown hnew
  refine ⟨⟨h.sent, h.delivered, h.reported⟩, fun pid hf => ?_, fun pid hf => ?_⟩
  · have hne : pid ≠ req.pipelineId := fun heq => hf (heq ▸ rfl)
    refine (h.settled pid (by simp)).same ⟨?_, by simp [hne], rfl, fun _ _ h => h, fun _ _ h => h⟩
      (sameRecord_withState ..)
    exact Dict.get?_insert_of_ne _ _ hne
  · obtain rfl := Option.some.inj hf
    refine ⟨_, Dict.get?_insert_self .., ?_, List.mem_append_right _ (by simp), hold.1, hold.2⟩
    exact {
      named := rfl
      wellFormed := hdag
      nonempty := hserved.nonempty
      failed := rfl
      skipped := rfl
      isPartial := rfl
      waitStart := rfl
      hosted := hserved.stages
      fanIns := hlocal
      dispatched := fun sid => iff_of_false (Finset.notMem_empty _) (hscheduled sid)
      inputs := by simp
      completed := fun sid => iff_of_false (Finset.notMem_empty _) (hreported sid)
      count := hcount }

/-- A stage that has reported was dispatched. -/
theorem mem_dispatched_of_reported (h : HealthyInv kind focus sc) {ps : PipelineState}
    (hps : Healthy kind sc pid ps) {sid : StageId} (hr : (pid, sid) ∈ sc.sent.map (·.key)) :
    sid ∈ ps.dispatchedStages := by
  obtain ⟨m, hm, hkey⟩ := List.mem_map.mp hr
  have hd := h.sent m hm
  rw [hkey] at hd
  apply (hps.dispatched sid).mpr
  exact Nat.lt_of_lt_of_le (List.count_pos_iff.mpr hd) (Nat.le_add_left _ _)

theorem completed_subset (h : HealthyInv kind focus sc) {ps : PipelineState}
    (hps : Healthy kind sc pid ps) : ps.completedStages ⊆ ps.dispatchedStages := by
  intro sid hsid
  exact h.mem_dispatched_of_reported hps (h.reported _ ((hps.completed sid).mp hsid))

end HealthyInv

theorem Healthy.dispatched_subset {kind : BrokerKind} {sc : BrokerScene} {pid : PipelineId}
    {ps : PipelineState} (h : Healthy kind sc pid ps) : ps.dispatchedStages ⊆ ps.allStages :=
  fun sid hsid => (h.inputs sid hsid).1

/-- A stage of the pipeline reports for the first time. -/
theorem Healthy.recorded {kind : BrokerKind} {sc : BrokerScene} {req : StageResultRequest}
    {ps : PipelineState} (h : Healthy kind sc req.pipelineId ps) (hsuccess : req.success = true)
    (hnot : req.stageId ∉ ps.completedStages) :
    Healthy kind ((sc.start (.result req)).withState
      (sc.state.updatePipeline req.pipelineId (·.recordResult req))) req.pipelineId
        (ps.recordResult req) := by
  have hresult : ps.recordResult req =
      { ps with completedStages := insert req.stageId ps.completedStages } := by
    rw [PipelineState.recordResult, if_pos hsuccess]
  have hscheduled : ∀ sid, scheduleCount (sc.start (.result req)) req.pipelineId sid =
      scheduleCount sc req.pipelineId sid := fun sid => by
    simp [scheduleCount, dispatchCount, List.count_append]
  have hcount : resultCount (sc.start (.result req)) req.pipelineId =
      resultCount sc req.pipelineId + 1 := by
    simp [resultCount, Call.resultKey?, List.countP_append]
  rw [hresult]
  exact { h with
    hosted := h.hosted
    fanIns := h.fanIns
    dispatched := fun sid => (h.dispatched sid).trans (by
      rw [← hscheduled]
      exact Iff.rfl)
    inputs := fun sid hsid => (h.inputs sid hsid).imp id fun hin p hp =>
      Finset.mem_insert_of_mem (hin p hp)
    completed := fun sid => by
      rw [Finset.mem_insert, h.completed sid, or_comm]
      simp [Call.resultKey?]
    count := by
      rw [Finset.card_insert_of_notMem hnot, ← h.count]
      exact hcount }

/-- Ready stages of the pipeline are marked and scheduled. -/
theorem Healthy.scheduled {kind : BrokerKind} {cfg : BrokerConfig} {sc : BrokerScene}
    {pid : PipelineId} {ps : PipelineState} (h : Healthy kind sc pid ps) {ready : List StageId}
    (hready : ∀ sid ∈ ready, sid ∈ ps.dag.stages.keys ∧ ps.InputsComplete sid) :
    Healthy kind ((sc.withState (sc.state.markReady cfg pid ps)).schedule
      (ready.map (.dispatchStage pid))) pid
        { ps with dispatchedStages := ps.dispatchedStages ∪ ready.toFinset } :=
  { h with
    hosted := h.hosted
    fanIns := h.fanIns
    dispatched := fun sid => by
      rw [Finset.mem_union, h.dispatched, List.mem_toFinset, ← scheduleCount_pos_iff,
        ← scheduleCount_pos_iff]
      simp only [Scene.pending_schedule, Scene.started_schedule, Scene.pending_withState,
        Scene.started_withState, List.mem_append, List.mem_map, Call.dispatchStage.injEq]
      grind
    inputs := fun sid hsid => by
      rcases Finset.mem_union.mp hsid with hsid | hsid
      · exact h.inputs sid hsid
      · exact (hready sid (List.mem_toFinset.mp hsid)).imp List.mem_toFinset.mpr id
    completed := h.completed
    count := h.count }

/-- No fan-in waits for a stage on a dead worker. -/
theorem Healthy.not_stalled {kind : BrokerKind} {sc : BrokerScene} {pid : PipelineId}
    {ps : PipelineState} (h : Healthy kind sc pid ps) (sid : StageId) :
    ¬ ps.StalledFanIn (sc.state.deadWorkers ps) sid := by
  rintro ⟨hlen, hdead⟩
  obtain ⟨p, hp⟩ := Finset.nonempty_iff_ne_empty.mpr hdead
  obtain ⟨hpred, -, hon⟩ := PipelineState.mem_deadPreds.mp hp
  have hsid : sid ∈ ps.dag.stages :=
    h.wellFormed.successor_mem (h.wellFormed.mem_predecessors.mp hpred)
  unfold PipelineState.onDeadWorker at hon
  obtain ⟨nodeId, hnode, hmem⟩ := (Option.any_eq_true _ _).mp hon
  have hregistered := h.fanIns sid hsid hlen p hpred nodeId hnode
  simp only [Broker.deadWorkers, decide_eq_true_eq, Finset.mem_sdiff, List.mem_toFinset] at hmem
  exact hmem.2 hregistered

/-- Once the pending stages with all their inputs are dispatched, nothing is left behind. -/
theorem Healthy.closed {kind : BrokerKind} {sc : BrokerScene} {pid : PipelineId}
    {ps : PipelineState} (h : Healthy kind sc pid ps)
    (hcompleted : ps.completedStages ⊆ ps.dispatchedStages) {ready : List StageId}
    (hready : ∀ sid, sid ∈ ps.dag.stages.keys ∧ ps.Pending sid ∧ ps.InputsComplete sid →
      sid ∈ ready) :
    Closed { ps with dispatchedStages := ps.dispatchedStages ∪ ready.toFinset } := by
  intro sid hsid hinputs
  show sid ∈ ps.dispatchedStages ∪ ready.toFinset
  rw [Finset.mem_union, List.mem_toFinset]
  by_contra hnot
  rw [not_or] at hnot
  apply hnot.2
  apply hready sid
  refine ⟨List.mem_toFinset.mp hsid, ⟨fun hc => hnot.1 (hcompleted hc), hnot.1, ?_⟩, hinputs⟩
  rw [h.skipped]
  exact Finset.notMem_empty _

namespace HealthyInv

variable {kind : BrokerKind} {focus : Option PipelineId} {pid : PipelineId} {sc : BrokerScene}

/-- The result of a stage that was sent: its pipeline is active and comes into
focus with one more completed stage. -/
theorem recorded (h : HealthyInv kind none sc) (hsafety : SafetyInv sc) {req : StageResultRequest}
    (hsuccess : req.success = true)
    (hout : (req.pipelineId, req.stageId) ∈ (outstanding sc).map (·.key)) :
    ∃ ps, sc.state.pipelines.get? req.pipelineId = some ps ∧
      req.pipelineId ∈ sc.state.activePipelines ∧ req.stageId ∈ ps.dag.stages ∧
        HealthyInv kind (some req.pipelineId) ((sc.start (.result req)).withState
          (sc.state.updatePipeline req.pipelineId (·.recordResult req))) := by
  obtain ⟨m, hm, hkey⟩ := List.mem_map.mp hout
  obtain ⟨hsent, hunreported⟩ := mem_outstanding.mp hm
  rw [hkey] at hunreported
  have hd := h.sent m hsent
  rw [hkey] at hd
  obtain ⟨ps, hps, -⟩ := hsafety.marked req.pipelineId req.stageId
    (Nat.lt_of_lt_of_le (List.count_pos_iff.mpr hd) (Nat.le_add_left _ _))
  have hsettled := h.settled req.pipelineId (by simp)
  have hold := hsettled.healthy ps hps
  have hmem : req.stageId ∈ ps.allStages :=
    hold.dispatched_subset (h.mem_dispatched_of_reported hold (List.mem_map.mpr ⟨m, hsent, hkey⟩))
  have hnot : req.stageId ∉ ps.completedStages := fun hc => hunreported ((hold.completed _).mp hc)
  have hrunning : Running sc req.pipelineId := by
    rcases hsettled.status ps hps with ⟨-, hrunning⟩ | ⟨hall, -⟩
    · exact hrunning
    · exact absurd (hall ▸ hmem) hnot
  refine ⟨ps, hps, hrunning.active, List.mem_toFinset.mp hmem, ⟨fun m hm => ?_, fun pid sid hd => ?_,
    fun key hk => ?_⟩, fun pid hf => ?_, fun pid hf => ?_⟩
  · exact List.mem_append_left _ (h.sent m hm)
  · apply h.delivered pid sid
    simpa using hd
  · rw [Scene.started_withState, Scene.started_start, List.map_append] at hk
    rcases List.mem_append.mp hk with hk | hk
    · exact h.reported key hk
    · rw [List.map_singleton, List.mem_singleton, Call.resultKey?, Option.some.injEq] at hk
      exact hk ▸ List.mem_map.mpr ⟨m, hsent, hkey⟩
  · have hne : pid ≠ req.pipelineId := fun heq => hf (heq ▸ rfl)
    have hstarted : SameRecord pid sc (sc.start (.result req)) :=
      sameRecord_start (by simp) (by simp [Call.resultKey?, Ne.symm hne])
    exact (h.settled pid (by simp)).same (samePipeline_update hne sc.state _)
      (hstarted.trans (sameRecord_withState ..))
  · obtain rfl := Option.some.inj hf
    refine ⟨ps.recordResult req, ?_, hold.recorded hsuccess hnot, hrunning.active,
      hrunning.completions, hrunning.answers⟩
    rw [Scene.state_withState, Broker.get?_updatePipeline, if_pos rfl, hps]
    rfl

/-- Where nothing is ready, every stage with its inputs has been dispatched. -/
theorem settle (h : HealthyInv kind (some pid) sc) {ps : PipelineState}
    (hps : sc.state.pipelines.get? pid = some ps) (hne : ps.completedStages ≠ ps.allStages)
    (hready : ∀ sid, ¬ (sid ∈ ps.dag.stages.keys ∧ ps.Pending sid ∧ ps.InputsComplete sid)) :
    HealthyInv kind none sc := by
  obtain ⟨ps', hps', hold, hrunning⟩ := h.advancing pid rfl
  obtain rfl := Option.some.inj (hps.symm.trans hps')
  have hclosed : Closed { ps with
      dispatchedStages := ps.dispatchedStages ∪ ([] : List StageId).toFinset } :=
    hold.closed (h.completed_subset hold) fun sid hsid => absurd hsid (hready sid)
  rw [List.toFinset_nil, Finset.union_empty] at hclosed
  refine ⟨h.toStageTrace, fun pid' _ => ?_, by simp⟩
  cases decEq pid' pid with
  | isFalse hother => exact h.settled pid' fun hf => hother (Option.some.inj hf).symm
  | isTrue heq =>
    subst heq
    have hunique : ∀ ps', sc.state.pipelines.get? pid' = some ps' → ps' = ps := fun ps' hps' =>
      (Option.some.inj (hps.symm.trans hps')).symm
    refine ⟨fun hnew => absurd (Dict.mem_of_get?_eq_some hps) hnew, fun ps' hps' => ?_,
      fun ps' hps' => ?_, fun ps' hps' => ?_⟩
    · exact hunique ps' hps' ▸ hold
    · exact hunique ps' hps' ▸ hclosed
    · exact hunique ps' hps' ▸ .inl ⟨hne, hrunning⟩

/-- The ready stages of the pipeline in focus are marked and scheduled. -/
theorem scheduled (h : HealthyInv kind (some pid) sc) (cfg : BrokerConfig) {ps : PipelineState}
    (hps : sc.state.pipelines.get? pid = some ps) (hne : ps.completedStages ≠ ps.allStages) :
    HealthyInv kind none ((sc.withState (sc.state.markReady cfg pid ps)).schedule
      ((sc.state.readyScan cfg ps).ready.map (.dispatchStage pid))) := by
  obtain ⟨ps', hps', hold, hrunning⟩ := h.advancing pid rfl
  obtain rfl := Option.some.inj (hps.symm.trans hps')
  have hscan : (sc.state.readyScan cfg ps).ps = ps :=
    (findReadyStages_of_not_stalled hold.not_stalled).1
  have hready : ∀ sid, sid ∈ (sc.state.readyScan cfg ps).ready ↔
      sid ∈ ps.dag.stages.keys ∧ ps.Pending sid ∧ ps.InputsComplete sid :=
    mem_ready_of_not_stalled hold.not_stalled
  have hget : ∀ pid', (sc.state.markReady cfg pid ps).pipelines.get? pid' =
      if pid' = pid then some { ps with dispatchedStages := ps.dispatchedStages ∪
        (sc.state.readyScan cfg ps).ready.toFinset } else sc.state.pipelines.get? pid' := fun pid' => by
    rw [Broker.get?_markReady cfg _ hps, hscan]
  refine ⟨⟨h.sent, h.delivered, h.reported⟩, fun pid' _ => ?_, by simp⟩
  cases decEq pid' pid with
  | isFalse hother =>
    have hcalls : SameRecord pid' (sc.withState (sc.state.markReady cfg pid ps))
        ((sc.withState (sc.state.markReady cfg pid ps)).schedule
          ((sc.state.readyScan cfg ps).ready.map (.dispatchStage pid))) :=
      sameRecord_schedule fun sid hm => by simp [Ne.symm hother] at hm
    apply (h.settled pid' fun hf => hother (Option.some.inj hf).symm).same _
      ((sameRecord_withState ..).trans hcalls)
    exact ⟨by simp [hget, hother], Iff.rfl, rfl, fun _ _ h => h, fun _ _ h => h⟩
  | isTrue heq =>
    subst heq
    have hnew : Healthy kind ((sc.withState (sc.state.markReady cfg pid' ps)).schedule
        ((sc.state.readyScan cfg ps).ready.map (.dispatchStage pid'))) pid' { ps with
          dispatchedStages := ps.dispatchedStages ∪ (sc.state.readyScan cfg ps).ready.toFinset } :=
      hold.scheduled fun sid hsid => ((hready sid).mp hsid).imp id And.right
    have hclosed := hold.closed (h.completed_subset hold) fun sid => (hready sid).mpr
    have hget := hget pid'
    rw [if_pos rfl] at hget
    have hunique : ∀ ps', (sc.state.markReady cfg pid' ps).pipelines.get? pid' = some ps' →
        ps' = _ := fun ps' hps' => (Option.some.inj (hget.symm.trans hps')).symm
    refine ⟨fun hnot => absurd (Dict.mem_of_get?_eq_some hget) hnot, fun ps' hps' => ?_,
      fun ps' hps' => ?_, fun ps' hps' => ?_⟩
    · exact hunique ps' hps' ▸ hnew
    · exact hunique ps' hps' ▸ hclosed
    · rw [hunique ps' hps']
      exact .inl ⟨hne, hrunning.active, hrunning.completions, hrunning.answers⟩

/-- The last result: the success is recorded and answered. -/
theorem finish (h : HealthyInv kind (some pid) sc) {ps : PipelineState}
    (hps : sc.state.pipelines.get? pid = some ps) (hall : ps.completedStages = ps.allStages)
    (c : Call) : HealthyInv kind none ((sc.withState ((sc.state.completePipeline
      { pipelineId := pid, success := true }).popPipeline pid)).answer c
        (.ok (.pipelineComplete pid))) := by
  obtain ⟨ps', hps', hold, hrunning⟩ := h.advancing pid rfl
  obtain rfl := Option.some.inj (hps.symm.trans hps')
  have hcompletions : ∀ pid', ((sc.state.completePipeline { pipelineId := pid, success := true
      }).popPipeline pid).metrics.completionsOf pid' = if pid = pid' then
        sc.state.metrics.completionsOf pid' ++ [{ pipelineId := pid, success := true }]
      else sc.state.metrics.completionsOf pid' :=
    fun pid' => MetricsCollector.completionsOf_completePipeline ..
  refine ⟨⟨h.sent, h.delivered, h.reported⟩, fun pid' _ => ?_, by simp⟩
  cases decEq pid' pid with
  | isFalse hother =>
    have hanswer : SameRecord pid' (sc.withState ((sc.state.completePipeline
        { pipelineId := pid, success := true }).popPipeline pid)) _ :=
      sameRecord_answer c (e := .ok (.pipelineComplete pid)) (by simp [Ne.symm hother])
    apply (h.settled pid' fun hf => hother (Option.some.inj hf).symm).same _
      ((sameRecord_withState ..).trans hanswer)
    exact ⟨rfl, by simp [hother], by simpa [Ne.symm hother] using hcompletions pid', fun _ _ h => h,
      fun _ _ h => h⟩
  | isTrue heq =>
    subst heq
    have hunique : ∀ ps', sc.state.pipelines.get? pid' = some ps' → ps' = ps := fun ps' hps' =>
      (Option.some.inj (hps.symm.trans hps')).symm
    refine ⟨fun hnew => absurd (Dict.mem_of_get?_eq_some hps) hnew, fun ps' hps' => ?_,
      fun ps' hps' sid hsid _ => ?_, fun ps' hps' => ?_⟩
    · obtain rfl := hunique ps' hps'
      exact { hold with
        hosted := hold.hosted
        fanIns := hold.fanIns
        dispatched := hold.dispatched
        completed := hold.completed
        count := hold.count }
    · obtain rfl := hunique ps' hps'
      exact h.completed_subset hold (hall ▸ hsid)
    · obtain rfl := hunique ps' hps'
      refine .inr ⟨hall, by simp, ?_, ?_⟩
      · rw [Scene.state_answer, Scene.state_withState, hcompletions, if_pos rfl,
          hrunning.completions]
        rfl
      · have hbefore := hrunning.answers
        unfold completeAnswers at hbefore ⊢
        simp [List.countP_append, hbefore]

/-! ### The handlers -/

variable {r : Wake Broker Call WorkerMessage PyError Response} {cfg : BrokerConfig}

/-- The pipeline in focus is advanced. -/
theorem wp_dispatchReadyStages (h : HealthyInv kind (some pid) sc) {ps : PipelineState}
    (hps : sc.state.pipelines.get? pid = some ps) (hne : ps.completedStages ≠ ps.allStages) :
    (dispatchReadyStages cfg pid).wp r (HealthyInv kind none) (fun _ => HealthyInv kind none)
      (fun _ => HealthyInv kind none) sc := by
  obtain ⟨ps', hps', hold, -⟩ := h.advancing pid rfl
  obtain rfl := Option.some.inj (hps.symm.trans hps')
  obtain ⟨hscan, hresult⟩ : (sc.state.readyScan cfg ps).ps = ps ∧
      (sc.state.readyScan cfg ps).funnelResult = none :=
    findReadyStages_of_not_stalled hold.not_stalled
  have hready : ∀ sid, sid ∈ (sc.state.readyScan cfg ps).ready ↔
      sid ∈ ps.dag.stages.keys ∧ ps.Pending sid ∧ ps.InputsComplete sid :=
    mem_ready_of_not_stalled hold.not_stalled
  apply NeuralPubSub.wp_dispatchReadyStages hps
  · intro hfailed
    exact absurd (hold.failed.symm.trans hfailed) (by simp)
  · intro _ result hsome _
    exact absurd (hresult.symm.trans hsome) (by simp)
  · intro _ _ hnil
    have hnothing : ∀ sid, ¬ (sid ∈ ps.dag.stages.keys ∧ ps.Pending sid ∧ ps.InputsComplete sid) :=
      fun sid hsid => by
        have hmem : sid ∈ (sc.state.readyScan cfg ps).ready := (hready sid).mpr hsid
        simp [hnil] at hmem
    have hsame : sc.state.updatePipeline pid (fun _ => (sc.state.readyScan cfg ps).ps) = sc.state := by
      have hmodify : sc.state.pipelines.modify pid (fun _ => (sc.state.readyScan cfg ps).ps) =
          sc.state.pipelines := by
        apply Dict.modify_eq_self
        intro ps' hps'
        obtain rfl := Option.some.inj (hps.symm.trans hps')
        exact hscan
      unfold Broker.updatePipeline
      rw [hmodify]
    rw [hsame]
    exact h.settle hps hne hnothing
  · intro _ _ _
    exact ⟨h.scheduled cfg hps hne, fun sc' h' _ _ => ⟨h', fun _ => h'⟩⟩

/-- What a call may leave behind when it is answered. -/
def Answered (kind : BrokerKind) (c : Call) (e : Except PyError Response) (sc : BrokerScene) : Prop :=
  HealthyInv kind none (sc.answer c e)

theorem wp_completeOrAdvance (h : HealthyInv kind (some pid) sc) {req : StageResultRequest}
    (hreq : req.pipelineId = pid) (c : Call) :
    (completeOrAdvance cfg req).wp r (HealthyInv kind none) (fun e => Answered kind c (.error e))
      (fun a => Answered kind c (.ok a)) sc := by
  subst hreq
  obtain ⟨ps, hps, hold, -⟩ := h.advancing req.pipelineId rfl
  unfold completeOrAdvance
  rw [Co.wp_monad_bind, wp_getPipeline hps, hold.failed]
  cases decEq ps.completedStages ps.allStages with
  | isTrue hall =>
    simp only [Bool.false_eq_true, if_false, if_pos hall]
    have hrecorded := h.record (stageRecord req .delivered sc.state.clock ps.pipelineType)
    have hfinished := hrecorded.finish hps hall c
    exact hfinished
  | isFalse hne =>
    simp only [Bool.false_eq_true, if_false, if_neg hne, Co.wp_monad_bind, Co.wp_pure]
    apply Co.wp_mono _ _ (h.wp_dispatchReadyStages hps hne)
    · intro e sc' h'
      exact h'.answer c (by simp)
    · intro _ sc' h'
      exact h'.answer c (by simp)

/-- A new pipeline has been registered. -/
theorem registered (h : HealthyInv kind none sc) (hsafety : SafetyInv sc) {req : PlacedPipeline}
    (hnew : req.pipelineId ∉ sc.state.pipelines) (hdag : req.dag.WellFormed)
    (hserved : Served kind sc.state req) (hlocal : LocalFanIns sc.state req) :
    (registerPipeline cfg req).wp r (HealthyInv kind none) (fun _ => HealthyInv kind none)
      (fun _ sc' => HealthyInv kind (some req.pipelineId) sc' ∧
        sc'.state.pipelines.get? req.pipelineId = some
          { pipelineId := req.pipelineId, pipelineType := req.pipelineType
            dag := req.dag, placement := req.placement }) sc := by
  unfold registerPipeline
  simp only [Co.wp_monad_bind, Co.wp_modify, Co.wp_read]
  have hadmitted := h.admitted hsafety hnew hdag hserved hlocal
  have hcreated := hadmitted.record (pipelineRecord cfg req .created sc.state.clock)
  have hplaced := hcreated.record (pipelineRecord cfg req .placementComplete sc.state.clock)
  exact ⟨hplaced, Dict.get?_insert_self ..⟩

/-- A pipeline that was just registered is not complete. -/
theorem not_complete {req : PlacedPipeline} (h : req.dag.stages.keys ≠ []) :
    ({ pipelineId := req.pipelineId, pipelineType := req.pipelineType
       dag := req.dag, placement := req.placement } : PipelineState).completedStages ≠
      PipelineState.allStages
        { pipelineId := req.pipelineId, pipelineType := req.pipelineType
          dag := req.dag, placement := req.placement } := by
  intro heq
  apply h
  exact (List.toFinset_eq_empty_iff _).mp heq.symm

theorem wp_publish (h : HealthyInv kind none sc) (hsafety : SafetyInv sc) {req : PlacedPipeline}
    (hnew : req.pipelineId ∉ sc.state.pipelines) (hdag : req.dag.WellFormed)
    (hserved : Served kind sc.state req) (hlocal : LocalFanIns sc.state req) :
    (BaseBroker.publish cfg req).wp r (HealthyInv kind none)
      (fun e => Answered kind (.publish req) (.error e))
      (fun a => Answered kind (.publish req) (.ok a)) sc := by
  unfold BaseBroker.publish
  rw [Co.wp_monad_bind]
  apply Co.wp_mono _ _ (h.registered hsafety hnew hdag hserved hlocal)
  · intro e sc' h'
    exact h'.answer _ (by simp)
  · rintro _ sc' ⟨h', hps⟩
    rw [Co.wp_monad_bind]
    apply Co.wp_mono _ _ (h'.wp_dispatchReadyStages hps (not_complete hserved.nonempty))
    · intro e sc' h'
      exact h'.answer _ (by simp)
    · intro _ sc' h'
      exact h'.answer _ (by simp)

theorem wp_neuralPublish (h : HealthyInv .neural none sc) (hsafety : SafetyInv sc)
    {req : PlacedPipeline} (hnew : req.pipelineId ∉ sc.state.pipelines) (hdag : req.dag.WellFormed)
    (hserved : Served .neural sc.state req) (hlocal : LocalFanIns sc.state req) :
    (NeuralBroker.publish cfg req).wp r (HealthyInv .neural none)
      (fun e => Answered .neural (.publish req) (.error e))
      (fun a => Answered .neural (.publish req) (.ok a)) sc := by
  obtain ⟨hcomplete, hplaced⟩ := hserved.checked rfl
  have htotal : TotalAssignment req.dag req.feasibilityTopology req.placement := by
    constructor
    · intro sid
      constructor
      · intro hmem
        obtain ⟨nodeId, hnode⟩ := Dict.exists_get?_of_mem hmem
        exact (hplaced _ (Dict.get?_eq_some_iff.mp hnode)).1
      · intro hmem
        obtain ⟨nodeId, hnode, -⟩ := hserved.stages sid hmem
        exact Dict.mem_of_get?_eq_some hnode
    · intro sid nodeId hnode
      exact List.mem_map.mp (hplaced _ (Dict.get?_eq_some_iff.mp hnode)).2
  obtain ⟨host, hhosts⟩ := htotal.exists_hosts
  obtain ⟨vs, hcheck, -⟩ := checkFeasibility_returns cfg.governance hdag hcomplete hhosts
  unfold NeuralBroker.publish
  rw [Co.wp_monad_bind]
  apply Co.wp_mono _ _ (h.registered hsafety hnew hdag hserved hlocal)
  · intro e sc' h'
    exact h'.answer _ (by simp)
  · rintro _ sc' ⟨h', hps⟩
    rw [Co.wp_monad_bind, Co.wp_ofExcept, hcheck, Co.wp_monad_bind]
    apply Co.wp_mono _ _ (h'.wp_dispatchReadyStages hps (not_complete hserved.nonempty))
    · intro e sc' h'
      exact h'.answer _ (by simp)
    · intro _ sc' h'
      exact h'.answer _ (by simp)

theorem wp_handleResult (h : HealthyInv kind none sc) (hsafety : SafetyInv sc)
    {req : StageResultRequest} (hsuccess : req.success = true)
    (hout : (req.pipelineId, req.stageId) ∈ (outstanding sc).map (·.key)) :
    (BaseBroker.handleResult cfg req).wp r (HealthyInv kind none)
      (fun e => Answered kind (.result req) (.error e))
      (fun a => Answered kind (.result req) (.ok a)) (sc.start (.result req)) := by
  obtain ⟨ps, hps, hactive, -, hrecorded⟩ := h.recorded hsafety hsuccess hout
  have hfind : (sc.state.record (stageRecord req .stageResultReceived sc.state.clock
      "unknown")).activePipeline? req.pipelineId = some ps := by
    simpa [Broker.activePipeline?, hactive] using hps
  unfold BaseBroker.handleResult
  simp only [Co.wp_monad_bind, Co.wp_read, Co.wp_modify, Scene.state_withState, Scene.state_start,
    hfind]
  have hstart := hrecorded.record (stageRecord req .stageResultReceived sc.state.clock "unknown")
  have hbegun := hstart.record (stageRecord req .stageStart req.startTime ps.pipelineType)
  have hended := hbegun.record (stageRecord req .stageEnd req.endTime ps.pipelineType)
  have hresult : (completeOrAdvance cfg req).wp r _ _ _ _ :=
    hended.wp_completeOrAdvance rfl (.result req)
  exact hresult

theorem wp_neuralResult (h : HealthyInv .neural none sc) (hsafety : SafetyInv sc)
    {req : StageResultRequest} (hsuccess : req.success = true)
    (hout : (req.pipelineId, req.stageId) ∈ (outstanding sc).map (·.key)) :
    (NeuralBroker.result cfg req).wp r (HealthyInv .neural none)
      (fun e => Answered .neural (.result req) (.error e))
      (fun a => Answered .neural (.result req) (.ok a)) (sc.start (.result req)) := by
  obtain ⟨ps, hps, hactive, hstage, hrecorded⟩ := h.recorded hsafety hsuccess hout
  obtain ⟨stage, hget, -⟩ := getStage_of_mem hstage
  have hfind : (sc.state.record (stageRecord req .stageResultReceived sc.state.clock
      "__pending__")).activePipeline? req.pipelineId = some ps := by
    simpa [Broker.activePipeline?, hactive] using hps
  unfold NeuralBroker.result
  simp only [Co.wp_monad_bind, Co.wp_read, Co.wp_modify, Scene.state_withState, Scene.state_start,
    hfind, Co.wp_ofExcept, hget]
  have hstart := hrecorded.record (stageRecord req .stageResultReceived sc.state.clock "__pending__")
  have hbegun := hstart.record (stageRecord req .stageStart req.startTime ps.pipelineType)
  have hended := hbegun.record (stageRecord req .stageEnd req.endTime ps.pipelineType)
  have hloaded := hended.loaded req.nodeId (-stage.computationalDemand)
  have hresult : (completeOrAdvance cfg req).wp r _ _ _ _ :=
    hloaded.wp_completeOrAdvance rfl (.result req)
  exact hresult

/-- What a scheduled dispatch finds. -/
theorem dispatch_lookup (h : HealthyInv kind none sc) (hsafety : SafetyInv sc) {sid : StageId}
    (hpending : .dispatchStage pid sid ∈ sc.pending) :
    ∃ ps nodeId stage, sc.state.pipelines.get? pid = some ps ∧ ps.pipelineId = pid ∧
      subscript ps.placement sid = .ok nodeId ∧ sc.state.Serves kind nodeId ∧
        ps.dag.getStage sid = .ok stage := by
  obtain ⟨ps, hps, hmarked⟩ := hsafety.marked pid sid (scheduleCount_pos_iff.mp (.inl hpending))
  have hold := (h.settled pid (by simp)).healthy ps hps
  have hsid := List.mem_toFinset.mp (hold.dispatched_subset hmarked)
  obtain ⟨nodeId, hnode, hserves⟩ := hold.hosted sid hsid
  obtain ⟨stage, hstage, -⟩ := getStage_of_mem hsid
  exact ⟨ps, nodeId, stage, hps, hold.named, subscript_eq_ok_iff.mpr hnode, hserves, hstage⟩

theorem wp_baseDispatchStage (h : HealthyInv .base none sc) (hsafety : SafetyInv sc)
    (hreply : ∀ sc m e, r.reply sc m e → e = .ok ()) {sid : StageId} {pre post : List Call}
    (hp : sc.pending = pre ++ .dispatchStage pid sid :: post) :
    (BaseBroker.dispatchStage cfg pid sid).wp r (HealthyInv .base none)
      (fun _ => HealthyInv .base none) (fun _ => HealthyInv .base none)
        ((sc.withPending (pre ++ post)).start (.dispatchStage pid sid)) := by
  have hpending : .dispatchStage pid sid ∈ sc.pending := by simp [hp]
  obtain ⟨ps, nodeId, stage, hps, hnamed, hnode, hserves, hstage⟩ :=
    h.dispatch_lookup hsafety hpending
  obtain ⟨worker, hworker⟩ := Dict.exists_get?_of_mem (hserves.resolve_right (by simp))
  have hget : ((sc.withPending (pre ++ post)).start (.dispatchStage pid sid)).state.pipelines.get? pid =
      some ps := hps
  unfold BaseBroker.dispatchStage
  rw [Co.wp_monad_bind, wp_getPipeline hget]
  simp only [Co.wp_monad_bind, Co.wp_ofExcept, Co.wp_read, Co.wp_modify, Co.wp_request, hnode,
    Scene.state_start, Scene.state_withPending, hworker, hstage]
  constructor
  · have hsent := (h.dispatched hp (m := workerMessage cfg nodeId worker.url
      (executeRequest cfg ps sid stage none)) (by simp [hnamed])).record
        { pipelineId := ps.pipelineId, stageId := sid, event := .dispatched
          timestamp := sc.state.clock, nodeId := nodeId, pipelineType := ps.pipelineType }
    exact hsent
  · intro e sc' h' _ hr
    obtain rfl := hreply _ _ _ hr
    exact h'

theorem wp_staticDispatchStage (h : HealthyInv .static none sc) (hsafety : SafetyInv sc)
    (hreply : ∀ sc m e, r.reply sc m e → e = .ok ()) {sid : StageId} {pre post : List Call}
    (hp : sc.pending = pre ++ .dispatchStage pid sid :: post) :
    (StaticBroker.dispatchStage cfg pid sid).wp r (HealthyInv .static none)
      (fun _ => HealthyInv .static none) (fun _ => HealthyInv .static none)
        ((sc.withPending (pre ++ post)).start (.dispatchStage pid sid)) := by
  have hpending : .dispatchStage pid sid ∈ sc.pending := by simp [hp]
  obtain ⟨ps, nodeId, stage, hps, hnamed, hnode, hserves, hstage⟩ :=
    h.dispatch_lookup hsafety hpending
  obtain ⟨worker, hworker⟩ := Dict.exists_get?_of_mem (hserves.resolve_right (by simp))
  have hget : ((sc.withPending (pre ++ post)).start (.dispatchStage pid sid)).state.pipelines.get? pid =
      some ps := hps
  unfold StaticBroker.dispatchStage
  rw [Co.wp_monad_bind, wp_getPipeline hget]
  simp only [Co.wp_monad_bind, Co.wp_ofExcept, Co.wp_read, Co.wp_modify, Co.wp_request, hnode,
    Scene.state_start, Scene.state_withPending, hworker, hstage]
  constructor
  · have hsent := (h.dispatched hp (m := workerMessage cfg nodeId worker.url
      (executeRequest cfg ps sid stage none)) (by simp [hnamed])).record
        { pipelineId := ps.pipelineId, stageId := sid, event := .dispatched
          timestamp := sc.state.clock, nodeId := nodeId, pipelineType := ps.pipelineType }
    exact hsent
  · intro e sc' h' _ hr
    obtain rfl := hreply _ _ _ hr
    exact h'

theorem wp_neuralDispatchStage (h : HealthyInv .neural none sc) (hsafety : SafetyInv sc)
    (hreply : ∀ sc m e, r.reply sc m e → e = .ok ()) {sid : StageId} {pre post : List Call}
    (hp : sc.pending = pre ++ .dispatchStage pid sid :: post) :
    (NeuralBroker.dispatchStage cfg pid sid).wp r (HealthyInv .neural none)
      (fun _ => HealthyInv .neural none) (fun _ => HealthyInv .neural none)
        ((sc.withPending (pre ++ post)).start (.dispatchStage pid sid)) := by
  have hpending : .dispatchStage pid sid ∈ sc.pending := by simp [hp]
  obtain ⟨ps, nodeId, stage, hps, hnamed, hnode, hserves, hstage⟩ :=
    h.dispatch_lookup hsafety hpending
  have hurl : ∃ url, NeuralBroker.dispatchUrl nodeId sc.state = some url := by
    unfold NeuralBroker.dispatchUrl
    cases hworker : sc.state.workers.get? nodeId with
    | some worker => exact ⟨_, rfl⟩
    | none =>
      rcases hserves with hmem | ⟨-, hpeer⟩
      · rw [← Dict.get?_isSome_iff, hworker] at hmem
        cases hmem
      · obtain ⟨url, hurl⟩ := Dict.exists_get?_of_mem hpeer
        exact ⟨_, by rw [hurl]; rfl⟩
  obtain ⟨⟨url, peerDispatch⟩, hurl⟩ := hurl
  have hget : ((sc.withPending (pre ++ post)).start (.dispatchStage pid sid)).state.pipelines.get? pid =
      some ps := hps
  unfold NeuralBroker.dispatchStage
  rw [Co.wp_monad_bind, wp_getPipeline hget]
  simp only [Co.wp_monad_bind, Co.wp_ofExcept, Co.wp_read, Co.wp_modify, Co.wp_request, hnode,
    Scene.state_start, Scene.state_withPending, hurl, hstage]
  constructor
  · have hsent := ((h.dispatched hp (m := workerMessage cfg nodeId url (executeRequest cfg ps sid
      stage (if peerDispatch then some (rstripSlash (NeuralBroker.selfUrl cfg)) else none)))
        (by simp [hnamed])).record
        { pipelineId := ps.pipelineId, stageId := sid, event := .dispatched
          timestamp := sc.state.clock, nodeId := nodeId
          pipelineType := ps.pipelineType }).loaded nodeId stage.computationalDemand
    exact hsent
  · intro e sc' h' _ hr
    obtain rfl := hreply _ _ _ hr
    exact h'

theorem registry (h : HealthyInv kind focus sc) {b : Broker}
    (hp : b.pipelines = sc.state.pipelines) (ha : b.activePipelines = sc.state.activePipelines)
    (hm : b.metrics = sc.state.metrics) (hu : b.shardedPeerWorkerUrls = sc.state.shardedPeerWorkerUrls)
    (hw : ∀ nodeId ∈ sc.state.usedNodes, nodeId ∈ sc.state.workers → nodeId ∈ b.workers) :
    HealthyInv kind focus (sc.withState b) :=
  h.withState fun _ => .of_eq hp ha (by rw [hm]) hw (serves_of_workers hw hu)

theorem insertWorker (h : HealthyInv kind focus sc) (kind' : BrokerKind) (nodeId : NodeId)
    (worker : WorkerInfo) : HealthyInv kind focus (sc.withState (onWorkerChange kind'
      { sc.state with workers := sc.state.workers.insert nodeId worker })) := by
  have hw : ∀ n ∈ sc.state.usedNodes, n ∈ sc.state.workers →
      n ∈ sc.state.workers.insert nodeId worker := fun n _ hn => Dict.mem_insert.mpr (.inr hn)
  cases kind' with
  | base => exact h.registry rfl rfl rfl rfl hw
  | static => exact h.registry rfl rfl rfl rfl hw
  | neural => exact h.registry rfl rfl rfl rfl hw

theorem eraseWorker (h : HealthyInv kind focus sc) (kind' : BrokerKind) {nodeId : NodeId}
    (hunused : nodeId ∉ sc.state.usedNodes) : HealthyInv kind focus (sc.withState
      (onWorkerChange kind' { sc.state with workers := sc.state.workers.erase nodeId })) := by
  have hw : ∀ n ∈ sc.state.usedNodes, n ∈ sc.state.workers → n ∈ sc.state.workers.erase nodeId :=
    fun n hused hn => Dict.mem_erase.mpr ⟨fun heq => hunused (heq ▸ hused), hn⟩
  cases kind' with
  | base => exact h.registry rfl rfl rfl rfl hw
  | static => exact h.registry rfl rfl rfl rfl hw
  | neural => exact h.registry rfl rfl rfl rfl hw

/-- No pipeline uses the node, so none is failed. -/
theorem failPipelinesOn_of_unused {b : Broker} {nodeId : NodeId} (hunused : nodeId ∉ b.usedNodes) :
    NeuralBroker.failPipelinesOn nodeId b = b := by
  refine foldl_scan (P := fun _ b' => b' = b) rfl ?_
  rintro _ pid _ b' _ rfl
  have hmodify : b'.pipelines.modify pid (fun ps =>
      if nodeId ∈ ps.placement.values ∧ ¬ ps.failed then
        let error := s!"Worker '{nodeId}' deregistered while pipeline " ++
          s!"'{ps.pipelineId}' was in flight."
        { ps with failed := true, error := some error }
      else ps) = b'.pipelines := by
    apply Dict.modify_eq_self
    intro ps hps
    apply if_neg
    rintro ⟨hmem, -⟩
    apply hunused
    exact List.mem_flatMap.mpr ⟨ps, List.mem_map.mpr ⟨(pid, ps), Dict.get?_eq_some_iff.mp hps, rfl⟩, hmem⟩
  show b'.updatePipeline pid _ = b'
  unfold Broker.updatePipeline
  rw [hmodify]

theorem synced (h : HealthyInv kind focus sc) (probe : ProbeResult) :
    HealthyInv kind focus (sc.withState (syncLoad kind probe sc.state)) := by
  cases kind with
  | base | static => exact h
  | neural =>
    show HealthyInv _ _ (sc.withState (NeuralBroker.syncLoad probe sc.state))
    unfold NeuralBroker.syncLoad
    split
    · exact h
    · exact h.registry rfl rfl rfl rfl fun n _ hn => Dict.mem_modify.mpr hn

/-- The probes of a round change loads and failure counts only. -/
theorem probed (h : HealthyInv kind focus sc) (results : List ProbeResult) :
    HealthyInv kind focus (sc.withState (roundOutcome kind cfg results sc.state).2) := by
  refine foldl_scan (P := fun _ (acc : List NodeId × Broker) =>
    HealthyInv kind focus (sc.withState acc.2)) h ?_
  rintro _ probe _ ⟨dead, b⟩ _ hb
  have hcounted : ∀ failures, HealthyInv kind focus
      (sc.withState { b with workerFailures := failures }) := fun failures =>
    hb.registry rfl rfl rfl rfl fun _ _ h => h
  dsimp only
  split
  · exact (hcounted (b.workerFailures.erase probe.nodeId)).synced probe
  · exact hcounted _

theorem cached (h : HealthyInv kind focus sc) {urls : Dict NodeId String}
    (hurls : ∀ nodeId ∈ sc.state.usedNodes, nodeId ∈ sc.state.workers ∨ nodeId ∈ urls) :
    HealthyInv kind focus (sc.withState { sc.state with shardedPeerWorkerUrls := urls }) :=
  h.withState fun _ => .of_eq rfl rfl rfl (fun _ _ h => h) fun nodeId hused hserves =>
    (hurls nodeId hused).elim .inl fun hurl => hserves.imp id fun h => ⟨h.1, hurl⟩

theorem wp_deregister (h : HealthyInv kind none sc) {nodeId : NodeId}
    (hunused : nodeId ∉ sc.state.usedNodes) (c : Call) :
    (BaseBroker.deregister (onWorkerChange kind) nodeId).wp r (HealthyInv kind none)
      (fun e => Answered kind c (.error e)) (fun a => Answered kind c (.ok a)) sc := by
  unfold BaseBroker.deregister
  rw [Co.wp_monad_bind, Co.wp_read]
  split
  · exact h.answer c (by simp)
  · have herased := (h.eraseWorker kind hunused).answer c (e := .ok (.deregistered nodeId)) (by simp)
    exact herased

theorem wp_neuralDeregister (h : HealthyInv .neural none sc) {nodeId : NodeId}
    (hunused : nodeId ∉ sc.state.usedNodes) (c : Call) :
    (NeuralBroker.deregister nodeId).wp r (HealthyInv .neural none)
      (fun e => Answered .neural c (.error e)) (fun a => Answered .neural c (.ok a)) sc := by
  unfold NeuralBroker.deregister
  rw [Co.wp_monad_bind, Co.wp_read]
  split
  · exact h.answer c (by simp)
  · simp only [Co.wp_monad_bind, Co.wp_modify, Co.wp_pure, Scene.state_withState,
      Scene.withState_withState]
    rw [failPipelinesOn_of_unused (by exact hunused)]
    have herased := (h.eraseWorker .neural hunused).answer c (e := .ok (.deregistered nodeId)) (by simp)
    exact herased

/-- A round in which no worker reaches the limit. -/
theorem wp_healthCheck (h : HealthyInv kind none sc) {results : List ProbeResult}
    {replace : NodeId → BrokerM Unit} (hdead : (roundOutcome kind cfg results sc.state).1 = [])
    (c : Call) :
    (do
      healthCheck (onWorkerChange kind) replace cfg.healthCheckMaxFailures (syncLoad kind) results
      return Response.none : BrokerM Response).wp r (HealthyInv kind none)
        (fun e => Answered kind c (.error e)) (fun a => Answered kind c (.ok a)) sc := by
  unfold roundOutcome at hdead
  unfold healthCheck
  simp only [Co.wp_monad_bind, Co.wp_update, hdead, Co.forEach_nil, Co.wp_pure]
  have hround : HealthyInv kind none (sc.withState (roundOutcome kind cfg results sc.state).2) :=
    h.probed results
  have hprobed := hround.answer c (e := .ok .none) (by simp)
  exact hprobed

/-- A dispatch answers nothing. -/
theorem wp_return {x : BrokerM Unit} {sc' : BrokerScene}
    (hx : x.wp r (HealthyInv kind none) (fun _ => HealthyInv kind none) (fun _ => HealthyInv kind none)
      sc') (c : Call) :
    (do
      x
      return Response.none : BrokerM Response).wp r (HealthyInv kind none)
        (fun e => Answered kind c (.error e)) (fun a => Answered kind c (.ok a)) sc' := by
  rw [Co.wp_monad_bind]
  apply Co.wp_mono _ _ hx
  · intro e sc'' h''
    exact h''.answer c (by simp)
  · intro _ sc'' h''
    exact h''.answer c (by simp)

end HealthyInv

/-- Healthy runs with local fan-ins, in which the published DAGs come from the builder. -/
def builtRules (kind : BrokerKind) (cfg : BrokerConfig) :
    Rules Broker Call WorkerMessage PyError Response :=
  (localRules kind cfg).provided fun _ c => c.BuiltDag

theorem keeps_healthyInv (kind : BrokerKind) (cfg : BrokerConfig) :
    ((builtRules kind cfg).given SafetyInv).Keeps (HealthyInv kind none) where
  call sc c h hc := by
    obtain ⟨⟨⟨hcall, hlocal⟩, hbuilt⟩, hsafety⟩ := hc
    cases c with
    | publish req =>
      have hstarted := h.start (c := .publish req) (by simp) rfl
      have hsafe := hsafety.started (c := .publish req) (by simp)
      cases kind with
      | base => exact hstarted.wp_publish hsafe hcall.1 (hbuilt _ rfl).wellFormed hcall.2 hlocal
      | static => exact hstarted.wp_publish hsafe hcall.1 (hbuilt _ rfl).wellFormed hcall.2 hlocal
      | neural => exact hstarted.wp_neuralPublish hsafe hcall.1 (hbuilt _ rfl).wellFormed hcall.2 hlocal
    | register req =>
      have hstarted := h.start (c := .register req) (by simp) rfl
      have hanswered : ∀ worker : WorkerInfo, HealthyInv kind none (((sc.start (.register req)).withState
          (onWorkerChange kind { sc.state with
            workers := sc.state.workers.insert req.nodeId worker })).answer (.register req)
              (.ok (.registered req.nodeId))) := fun worker =>
        (hstarted.insertWorker kind req.nodeId worker).answer _ (by simp)
      cases kind with
      | base => exact hanswered (req.workerInfo 0)
      | static => exact hanswered (req.workerInfo 0)
      | neural => exact hanswered (req.workerInfo req.bidCostMs)
    | deregister nodeId =>
      have hstarted := h.start (c := .deregister nodeId) (by simp) rfl
      cases kind with
      | base => exact hstarted.wp_deregister hcall _
      | static => exact hstarted.wp_deregister hcall _
      | neural => exact hstarted.wp_neuralDeregister hcall _
    | result req =>
      cases kind with
      | base => exact h.wp_handleResult hsafety hcall.1 hcall.2
      | static => exact h.wp_handleResult hsafety hcall.1 hcall.2
      | neural => exact h.wp_neuralResult hsafety hcall.1 hcall.2
    | dispatchStage pid sid => exact hcall.elim
    | healthCheck results =>
      have hstarted := h.start (c := .healthCheck results) (by simp) rfl
      cases kind with
      | base => exact hstarted.answer _ (by simp)
      | static => exact hstarted.wp_healthCheck (hcall.resolve_left (by simp)) _
      | neural => exact hstarted.wp_healthCheck (hcall.resolve_left (by simp)) _
    | cachePeerWorkers urls =>
      have hstarted := h.start (c := .cachePeerWorkers urls) (by simp) rfl
      have hcached := (hstarted.cached hcall).answer (.cachePeerWorkers urls) (e := .ok .none) (by simp)
      cases kind with
      | base => exact hstarted.answer _ (by simp)
      | static => exact hstarted.answer _ (by simp)
      | neural => exact hcached
    | tick time =>
      have hstarted := h.start (c := .tick time) (by simp) rfl
      have hticked := (hstarted.registry (b := { sc.state with clock := time }) rfl rfl rfl rfl
        fun _ _ h => h).answer (.tick time) (e := .ok .none) (by simp)
      cases kind with
      | base => exact hticked
      | static => exact hticked
      | neural => exact hticked
  start sc c pre post hp h hs := by
    obtain ⟨pid, sid, rfl⟩ := hs.2.pending c (by simp [hp])
    have hreply : ∀ sc' m e, (((builtRules kind cfg).given SafetyInv).wake (.dispatchStage pid sid)
        sc.state).reply sc' m e → e = .ok () := fun _ _ _ hr => hr.1
    cases kind with
    | base => exact HealthyInv.wp_return (h.wp_baseDispatchStage hs.2 hreply hp) _
    | static => exact HealthyInv.wp_return (h.wp_staticDispatchStage hs.2 hreply hp) _
    | neural => exact HealthyInv.wp_return (h.wp_neuralDispatchStage hs.2 hreply hp) _

/-! ## Healthy runs -/

/-- What a run has done for a pipeline: every stage is dispatched at most once and
after all its inputs; while the pipeline is active, a stage is in flight; and the
last result, and no other, finishes it. -/
structure RunsHealthily (sc : BrokerScene) (pid : PipelineId) (ps : PipelineState) : Prop where
  once : ∀ sid, dispatchCount sc pid sid ≤ 1
  precedence : ∀ sid, .dispatchStage pid sid ∈ sc.pending ∨ .dispatchStage pid sid ∈ sc.started →
    sid ∈ ps.allStages ∧ ps.InputsComplete sid
  inFlight : pid ∈ sc.state.activePipelines → ∃ sid ∈ ps.dispatchedStages, sid ∉ ps.completedStages ∧
    (.dispatchStage pid sid ∈ sc.pending ∨ (pid, sid) ∈ (outstanding sc).map (·.key))
  bound : resultCount sc pid ≤ ps.allStages.card
  early : resultCount sc pid < ps.allStages.card → Running sc pid
  last : resultCount sc pid = ps.allStages.card →
    Finished sc pid ∧ ∀ sid ∈ ps.allStages, dispatchCount sc pid sid = 1

/-- The funnel policy has not been asked about the pipeline, whose wait the first
question would start, and a dispatch round would not ask it. -/
structure Untouched (cfg : BrokerConfig) (b : Broker) (ps : PipelineState) : Prop where
  waitStart : ps.funnelWaitStart = none
  skipped : ps.skippedStages = ∅
  isPartial : ps.isPartial = false
  failed : ps.failed = false
  funnelResult : (b.readyScan cfg ps).funnelResult = none

instance (cfg : BrokerConfig) (b : Broker) (ps : PipelineState) : Decidable (Untouched cfg b ps) :=
  decidable_of_iff (ps.funnelWaitStart = none ∧ ps.skippedStages = ∅ ∧ ps.isPartial = false ∧
      ps.failed = false ∧ (b.readyScan cfg ps).funnelResult = none)
    ⟨fun h => ⟨h.1, h.2.1, h.2.2.1, h.2.2.2.1, h.2.2.2.2⟩,
      fun h => ⟨h.waitStart, h.skipped, h.isPartial, h.failed, h.funnelResult⟩⟩

/-- A stage whose inputs have completed while it has not is in flight. -/
theorem HealthyInv.exists_inFlight {kind : BrokerKind} {sc : BrokerScene} {pid : PipelineId}
    {ps : PipelineState} (h : HealthyInv kind none sc)
    (hps : sc.state.pipelines.get? pid = some ps) (hne : ps.completedStages ≠ ps.allStages) :
    ∃ sid ∈ ps.dispatchedStages, sid ∉ ps.completedStages ∧
      (.dispatchStage pid sid ∈ sc.pending ∨ (pid, sid) ∈ (outstanding sc).map (·.key)) := by
  have hsettled := h.settled pid (by simp)
  have hold := hsettled.healthy ps hps
  have hsub : ps.completedStages ⊆ ps.allStages :=
    (h.completed_subset hold).trans hold.dispatched_subset
  have hmissing : (ps.allStages \ ps.completedStages).Nonempty := by
    rw [Finset.sdiff_nonempty]
    exact fun hall => hne (hsub.antisymm hall)
  obtain ⟨sid, hsid, hsource⟩ := hold.wellFormed.acyclic.exists_source hmissing
  obtain ⟨hstage, hnot⟩ := Finset.mem_sdiff.mp hsid
  have hinputs : ps.InputsComplete sid := fun p hp => by
    by_contra hpc
    have hadj := hold.wellFormed.mem_predecessors.mp hp
    have hmem := hold.wellFormed.predecessor_mem hadj
    exact hsource p (Finset.mem_sdiff.mpr ⟨List.mem_toFinset.mpr hmem, hpc⟩) hadj
  have hdispatched := hsettled.closed ps hps sid hstage hinputs
  refine ⟨sid, hdispatched, hnot, ?_⟩
  apply (scheduleCount_pos_iff.mpr ((hold.dispatched sid).mp hdispatched)).imp id
  intro hstarted
  obtain ⟨m, hm, hkey⟩ := List.mem_map.mp (h.delivered pid sid hstarted)
  refine List.mem_map.mpr ⟨m, mem_outstanding.mpr ⟨hm, ?_⟩, hkey⟩
  rw [hkey]
  exact mt (hold.completed sid).mpr hnot

theorem HealthyInv.runs {kind : BrokerKind} {sc : BrokerScene} {pid : PipelineId}
    {ps : PipelineState} (h : HealthyInv kind none sc) (hsafety : SafetyInv sc)
    (hps : sc.state.pipelines.get? pid = some ps) : RunsHealthily sc pid ps := by
  have hsettled := h.settled pid (by simp)
  have hold := hsettled.healthy ps hps
  have hstatus := hsettled.status ps hps
  have hsub : ps.completedStages ⊆ ps.allStages :=
    (h.completed_subset hold).trans hold.dispatched_subset
  have honce : ∀ sid, dispatchCount sc pid sid ≤ 1 := fun sid =>
    (Nat.le_add_left _ _).trans (hsafety.scheduled pid sid)
  refine ⟨honce, fun sid hsid => ?_, fun hactive => ?_, ?_, fun hlt => ?_, fun heq => ?_⟩
  · exact hold.inputs sid ((hold.dispatched sid).mpr (scheduleCount_pos_iff.mp hsid))
  · rcases hstatus with ⟨hne, -⟩ | ⟨-, hfinished⟩
    · exact h.exists_inFlight hps hne
    · exact absurd hactive hfinished.inactive
  · rw [hold.count]
    exact Finset.card_le_card hsub
  · rcases hstatus with ⟨-, hrunning⟩ | ⟨hall, -⟩
    · exact hrunning
    · rw [hold.count, hall] at hlt
      exact absurd hlt (lt_irrefl _)
  · have hall : ps.completedStages = ps.allStages :=
      Finset.eq_of_subset_of_card_le hsub (by rw [← heq, hold.count])
    have hfinished : Finished sc pid := by
      rcases hstatus with ⟨hne, -⟩ | ⟨-, hfinished⟩
      · exact absurd hall hne
      · exact hfinished
    refine ⟨hfinished, fun sid hsid => ?_⟩
    -- a stage that has reported was sent, and so dispatched
    have hreported := (hold.completed sid).mp (hall ▸ hsid)
    obtain ⟨m, hm, hkey⟩ := List.mem_map.mp (h.reported _ hreported)
    have hstarted := h.sent m hm
    rw [hkey] at hstarted
    exact le_antisymm (honce sid) (List.count_pos_iff.mpr hstarted)

theorem HealthyInv.untouched {kind : BrokerKind} {sc : BrokerScene} {pid : PipelineId}
    {ps : PipelineState} (h : HealthyInv kind none sc) (cfg : BrokerConfig)
    (hps : sc.state.pipelines.get? pid = some ps) : Untouched cfg sc.state ps := by
  have hold := (h.settled pid (by simp)).healthy ps hps
  exact ⟨hold.waitStart, hold.skipped, hold.isPartial, hold.failed,
    (findReadyStages_of_not_stalled hold.not_stalled).2⟩

theorem Fresh.healthyInv {w : BrokerWorld} (h : Fresh w) (hsent : w.sent = []) (kind : BrokerKind) :
    HealthyInv kind none w.scene where
  sent := by simp [World.scene, hsent]
  delivered := by simp [World.scene, h.started]
  reported := by simp [World.scene, h.started]
  settled pid _ := by
    have hnone : ∀ ps, w.scene.state.pipelines.get? pid ≠ some ps := by
      simp [World.scene, h.pipelines]
    exact ⟨fun _ => ⟨by simp [MetricsCollector.completionsOf, World.scene, h.completions],
        by simp [completeAnswers, World.scene, h.finished]⟩,
      fun ps hps => absurd hps (hnone ps), fun ps hps => absurd hps (hnone ps),
      fun ps hps => absurd hps (hnone ps)⟩
  advancing := by simp

theorem builtRules_within (kind : BrokerKind) (cfg : BrokerConfig) (I : BrokerScene → Prop) :
    (builtRules kind cfg).Within (faultyRules kind cfg) I where
  body := rfl
  call sc c _ hc := by
    cases c with
    | publish req => exact hc.1.1.1
    | dispatchStage pid sid => exact hc.1.1
    | register | deregister | result | healthCheck | cachePeerWorkers | tick => trivial
  reply _ _ _ _ _ := trivial
  start _ _ _ _ := trivial
  join _ _ _ _ _ := trivial

/-- What holds in every scene of a healthy run with local fan-ins. -/
theorem reachable_healthyInv {kind : BrokerKind} {cfg : BrokerConfig}
    {r : Rules Broker Call WorkerMessage PyError Response} {w w' : BrokerWorld} (hw : Fresh w)
    (hsent : w.sent = []) (hwithin : ∀ I, r.Within (builtRules kind cfg) I) (hr : r.Reachable w w') :
    SafetyInv w'.scene ∧ HealthyInv kind none w'.scene := by
  have hsafety := ((keeps_safetyInv kind cfg).within (builtRules_within kind cfg _)).within
    (hwithin SafetyInv)
  have hhealthy := (keeps_healthyInv kind cfg).within (hwithin SafetyInv).given
  exact (hsafety.and hhealthy).reachable ⟨hw.safetyInv, hw.healthyInv hsent kind⟩ hw.tasks hr

/-- Without peers a served placement has local fan-ins. -/
theorem Served.localFanIns {kind : BrokerKind} {b : Broker} {req : PlacedPipeline}
    (hkind : kind ≠ .neural) (h : Served kind b req) (hdag : req.dag.WellFormed) :
    LocalFanIns b req := by
  intro sid _ _ p hp nodeId hnode
  have hstage := hdag.predecessor_mem (hdag.mem_predecessors.mp hp)
  obtain ⟨nodeId', hnode', hserves⟩ := h.stages p hstage
  obtain rfl := Option.some.inj (hnode.symm.trans hnode')
  exact hserves.resolve_right fun hpeer => hkind hpeer.1

namespace BaseBroker

/-- Every pipeline of a healthy run is dispatched in precedence order, never gets
stuck, and is finished by its last result, whatever order the results take. -/
theorem runsHealthily (cfg : BrokerConfig) {w w' : BrokerWorld} (hw : Fresh w) (hsent : w.sent = [])
    (hr : (healthyRules .base cfg).Reachable w w') (hbuilt : ∀ c ∈ w'.started, c.BuiltDag)
    {pid : PipelineId} {ps : PipelineState} (hps : w'.state.pipelines.get? pid = some ps) :
    RunsHealthily w'.scene pid ps := by
  have hwithin : ∀ I, ((healthyRules .base cfg).provided fun _ c => c.BuiltDag).Within
      (builtRules .base cfg) I := fun I => by
    refine ⟨rfl, fun sc c _ hc => ⟨⟨hc.1, ?_⟩, hc.2⟩, fun _ _ _ _ h => h, fun _ _ _ h => h,
      fun _ _ _ _ h => h⟩
    cases c with
    | publish req => exact hc.1.2.localFanIns (by simp) (hc.2 _ rfl).wellFormed
    | register | deregister | result | dispatchStage | healthCheck | cachePeerWorkers | tick =>
      trivial
  obtain ⟨hsafety, hhealthy⟩ := reachable_healthyInv hw hsent hwithin (hr.provided hbuilt)
  exact hhealthy.runs hsafety hps

private def relayDag : PipelineDAG :=
  .ofLists [⟨"a", "sense", 1, 1, none, none, none⟩, ⟨"b", "filter", 1, 1, none, none, none⟩,
      ⟨"c", "scale", 1, 1, none, none, none⟩, ⟨"d", "fuse", 1, 1, none, none, none⟩]
    [⟨"a", "b", 10⟩, ⟨"a", "c", 10⟩, ⟨"b", "d", 10⟩, ⟨"c", "d", 10⟩]

private def relayRequest : PlacedPipeline :=
  ⟨"p", "diamond", relayDag, .ofList [("a", "w1"), ("b", "w1"), ("c", "w2"), ("d", "w2")],
    ⟨[], .empty⟩⟩

private def relayWorld : BrokerWorld where
  state := { workers := .ofList [("w1", ⟨"w1", "d1", "s1", 4, "http://w1", 0, 0⟩),
    ("w2", ⟨"w2", "d1", "s1", 4, "http://w2", 0, 0⟩)] }

/-- A diamond whose branches complete out of order. -/
private def relayMoves : List (Base.Move Call PyError) :=
  [.call (.publish relayRequest), .start 1, .call (.result ⟨"p", "a", "w1", 0, 1, true, none⟩),
    .reply 1 (.ok ()), .start 3, .start 4, .call (.result ⟨"p", "c", "w2", 1, 2, true, none⟩),
    .call (.result ⟨"p", "b", "w1", 1, 3, true, none⟩), .start 7,
    .call (.result ⟨"p", "d", "w2", 3, 4, true, none⟩)]

theorem runsHealthily_diamond :
    ∃ w' ps, (healthyRules .base { domainId := "d1", brokerId := "b1" }).performAll relayMoves
        relayWorld = some w' ∧ w'.state.pipelines.get? "p" = some ps ∧
      resultCount w'.scene "p" = ps.allStages.card ∧ RunsHealthily w'.scene "p" ps := by
  have hrun : ∃ w', (healthyRules .base { domainId := "d1", brokerId := "b1" }).performAll relayMoves
      relayWorld = some w' ∧ (∀ c ∈ w'.started, ∀ dag ∈ c.dag?, dag = relayDag) ∧
      ∃ ps ∈ w'.state.pipelines.get? "p", resultCount w'.scene "p" = ps.allStages.card := by
    decide +kernel
  obtain ⟨w', hw', hdags, ps, hps, hcount⟩ := hrun
  have hbuilt : ∀ c ∈ w'.started, c.BuiltDag := fun c hc dag hdag =>
    hdags c hc dag hdag ▸ PipelineDAG.built_ofLists _ _
  exact ⟨w', ps, hw', hps, hcount, runsHealthily _ ⟨rfl, rfl, rfl, rfl, rfl, rfl, rfl⟩ rfl
    (Rules.reachable_of_performAll _ hw') hbuilt hps⟩

end BaseBroker

namespace NeuralBroker

/-- With local fan-ins, no pipeline of a healthy run is touched by the funnel policy,
whatever its mode, and each runs to its end on own and peer-owned workers. -/
theorem untouched_of_localFanIns (cfg : BrokerConfig) {w w' : BrokerWorld} (hw : Fresh w)
    (hsent : w.sent = []) (hr : (localRules .neural cfg).Reachable w w')
    (hbuilt : ∀ c ∈ w'.started, c.BuiltDag) {pid : PipelineId} {ps : PipelineState}
    (hps : w'.state.pipelines.get? pid = some ps) :
    Untouched cfg w'.state ps ∧ RunsHealthily w'.scene pid ps := by
  obtain ⟨hsafety, hhealthy⟩ := reachable_healthyInv hw hsent (r := builtRules .neural cfg)
    (fun _ => ⟨rfl, fun _ _ _ h => h, fun _ _ _ _ h => h, fun _ _ _ h => h, fun _ _ _ _ h => h⟩)
    (hr.provided hbuilt)
  exact ⟨hhealthy.untouched cfg hps, hhealthy.runs hsafety hps⟩

private def ferryDag : PipelineDAG :=
  .ofLists [⟨"a", "sense", 1, 1, none, none, none⟩, ⟨"b", "filter", 1, 1, none, none, none⟩]
      [⟨"a", "b", 10⟩]

private def ferryTopology : NetworkTopology :=
  ⟨[⟨"w1", "d1", "s1", 4, 0, none⟩, ⟨"w2", "d2", "s1", 4, 0, none⟩],
    .ofList [(("w1", "w2"), 5), (("w1", "w1"), 0), (("w2", "w2"), 0)]⟩

private def ferryConfig : BrokerConfig := { domainId := "d1", brokerId := "b1" }

/-- The coordinator owns `w1`; a peer owns `w2`. -/
private def ferryWorld : BrokerWorld where
  state :=
    { workers := .ofList [("w1", ⟨"w1", "d1", "s1", 4, "http://w1", 0, 0⟩)]
      shardedPeerWorkerUrls := .ofList [("w2", "http://w2")] }

/-- The second stage of a chain runs on the worker of a peer. -/
private def ferryMoves : List (Base.Move Call PyError) :=
  [.call (.publish ⟨"p", "chain", ferryDag, .ofList [("a", "w1"), ("b", "w2")], ferryTopology⟩),
    .start 1, .call (.result ⟨"p", "a", "w1", 0, 1, true, none⟩), .start 3,
    .call (.result ⟨"p", "b", "w2", 1, 2, true, none⟩)]

theorem untouched_of_localFanIns_ferry :
    ∃ w' ps, (localRules .neural ferryConfig).performAll ferryMoves ferryWorld = some w' ∧
      w'.state.pipelines.get? "p" = some ps ∧ resultCount w'.scene "p" = ps.allStages.card ∧
        Untouched ferryConfig w'.state ps ∧ RunsHealthily w'.scene "p" ps := by
  have hrun : ∃ w', (localRules .neural ferryConfig).performAll ferryMoves ferryWorld = some w' ∧
      (∀ c ∈ w'.started, ∀ dag ∈ c.dag?, dag = ferryDag) ∧
      ∃ ps ∈ w'.state.pipelines.get? "p", resultCount w'.scene "p" = ps.allStages.card := by
    decide +kernel
  obtain ⟨w', hw', hdags, ps, hps, hcount⟩ := hrun
  have hbuilt : ∀ c ∈ w'.started, c.BuiltDag := fun c hc dag hdag =>
    hdags c hc dag hdag ▸ PipelineDAG.built_ofLists _ _
  exact ⟨w', ps, hw', hps, hcount, untouched_of_localFanIns ferryConfig
    ⟨rfl, rfl, rfl, rfl, rfl, rfl, rfl⟩ rfl (Rules.reachable_of_performAll _ hw') hbuilt hps⟩

private def gatherDag : PipelineDAG :=
  .ofLists [⟨"a", "sense", 1, 1, none, none, none⟩, ⟨"b", "sense", 1, 1, none, none, none⟩,
      ⟨"f", "fuse", 1, 1, none, none, none⟩] [⟨"a", "f", 10⟩, ⟨"b", "f", 10⟩]

private def gatherMoves : List (Base.Move Call PyError) :=
  [.call (.publish ⟨"p", "funnel", gatherDag, .ofList [("a", "w1"), ("b", "w2"), ("f", "w1")],
    ferryTopology⟩)]

/-- One input of a fan-in is on the live worker of a peer: the first dispatch round
takes that worker for dead and asks the funnel policy. -/
theorem not_untouched :
    ¬ ∀ (cfg : BrokerConfig) (w w' : BrokerWorld), Fresh w → w.sent = [] →
      (healthyRules .neural cfg).Reachable w w' → (∀ c ∈ w'.started, c.BuiltDag) →
        ∀ pid ps, w'.state.pipelines.get? pid = some ps → Untouched cfg w'.state ps := by
  intro h
  have hrun : ∃ w', (healthyRules .neural ferryConfig).performAll gatherMoves ferryWorld = some w' ∧
      (∀ c ∈ w'.started, ∀ dag ∈ c.dag?, dag = gatherDag) ∧
      ∃ ps ∈ w'.state.pipelines.get? "p", ¬ Untouched ferryConfig w'.state ps := by
    decide +kernel
  obtain ⟨w', hw', hdags, ps, hps, hnot⟩ := hrun
  apply hnot
  apply h ferryConfig ferryWorld w' ⟨rfl, rfl, rfl, rfl, rfl, rfl, rfl⟩ rfl
    (Rules.reachable_of_performAll _ hw') _ "p" ps hps
  exact fun c hc dag hdag => hdags c hc dag hdag ▸ PipelineDAG.built_ofLists _ _

end NeuralBroker

end NeuralPubSub
