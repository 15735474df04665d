-- SUMMARY: The handlers of the three brokers as sequences of a few kinds of updates, and the conditions that all of them keep.
import NeuralPubSub.Broker.Neural
import NeuralPubSub.Broker.Static

open Base

/-!
# Handlers and their updates

`Endures` lists the updates that the handlers are made of, with what each of
them may rely on. `Withstands` lumps together those that advance no pipeline, and
`Tolerates` adds the one that depends on what a worker reports. A condition that
tolerates every update is preserved by every handler of the broker, whatever
happens while the handler waits.
-/

namespace NeuralPubSub

/-! ## The event loop of a broker -/

inductive BrokerKind where
  | base
  | static
  | neural
  deriving DecidableEq, Repr

def brokerBody (kind : BrokerKind) (cfg : BrokerConfig) : Call → BrokerM Response :=
  match kind with
  | .base => BaseBroker.body cfg
  | .static => StaticBroker.body cfg
  | .neural => NeuralBroker.body cfg

/-- Any call from outside at any time, except that `uuid4` never returns an id
twice and that only the broker itself dispatches stages; any reply to a send. -/
def faultyRules (kind : BrokerKind) (cfg : BrokerConfig) :
    Rules Broker Call WorkerMessage PyError Response where
  body := brokerBody kind cfg
  mayCall sc c := match c with
    | .publish req => req.pipelineId ∉ sc.state.pipelines
    | .dispatchStage _ _ => False
    | _ => True
  mayReply _ _ _ := True

instance (kind : BrokerKind) (cfg : BrokerConfig) : (faultyRules kind cfg).DecidableRules where
  mayCall sc
    | .publish req => inferInstanceAs (Decidable (req.pipelineId ∉ sc.state.pipelines))
    | .dispatchStage _ _ => isFalse id
    | .register _ | .deregister _ | .result _ | .healthCheck _ | .cachePeerWorkers _ | .tick _ =>
      isTrue trivial
  mayReply _ _ _ := isTrue trivial
  mayStart _ _ := isTrue trivial
  mayJoin _ _ _ := isTrue trivial

/-- What a change of the registry updates besides it. -/
def onWorkerChange : BrokerKind → Broker → Broker
  | .base => id
  | .static => StaticBroker.rebuildCycle
  | .neural => NeuralBroker.rebuildTopology

/-- What a probe that reports a load updates. -/
def syncLoad : BrokerKind → ProbeResult → Broker → Broker
  | .base | .static => fun _ b => b
  | .neural => NeuralBroker.syncLoad

/-- The workers that a health check round declares dead, and the broker after it
has counted the failures and taken over the loads. -/
def roundOutcome (kind : BrokerKind) (cfg : BrokerConfig) (results : List ProbeResult) (b : Broker) :
    List NodeId × Broker :=
  trackProbes cfg.healthCheckMaxFailures (syncLoad kind) results b

/-- The probes leave the pipelines alone, and change what the workers report only. -/
theorem roundOutcome_frame (kind : BrokerKind) (cfg : BrokerConfig) (results : List ProbeResult)
    (b : Broker) : (roundOutcome kind cfg results b).2.pipelines = b.pipelines ∧
      (roundOutcome kind cfg results b).2.activePipelines = b.activePipelines ∧
      (roundOutcome kind cfg results b).2.workers.keys = b.workers.keys := by
  refine foldl_scan (P := fun _ (acc : List NodeId × Broker) =>
    acc.2.pipelines = b.pipelines ∧ acc.2.activePipelines = b.activePipelines ∧
      acc.2.workers.keys = b.workers.keys) ⟨rfl, rfl, rfl⟩ ?_
  rintro _ probe _ ⟨dead, b'⟩ _ hb
  dsimp only
  split
  · cases kind with
    | base | static => exact hb
    | neural =>
      simp only [syncLoad, NeuralBroker.syncLoad]
      cases probe.reportedLoad with
      | none => exact hb
      | some load => exact ⟨hb.1, hb.2.1, (Dict.keys_modify ..).trans hb.2.2⟩
  · exact hb

/-- Only dispatches of stages wait to be started. -/
def OnlyDispatches (sc : BrokerScene) : Prop :=
  ∀ c ∈ sc.pending, ∃ pid sid, c = .dispatchStage pid sid

theorem OnlyDispatches.scheduled {sc : BrokerScene} (h : OnlyDispatches sc) (pid : PipelineId)
    (ready : List StageId) : OnlyDispatches (sc.schedule (ready.map (.dispatchStage pid))) := by
  intro c hc
  rcases List.mem_append.mp hc with hc | hc
  · exact h c hc
  · obtain ⟨sid, -, rfl⟩ := List.mem_map.mp hc
    exact ⟨pid, sid, rfl⟩

theorem OnlyDispatches.dequeued {sc : BrokerScene} (h : OnlyDispatches sc) {c : Call}
    {pre post : List Call} (hp : sc.pending = pre ++ c :: post) (started : Call) :
    OnlyDispatches ((sc.withPending (pre ++ post)).start started) := by
  intro c' hc'
  apply h c'
  rw [hp]
  exact (List.mem_append.mp hc').elim (fun hm => by simp [hm]) fun hm => by simp [hm]

/-! ## Quiet updates -/

/-- The part of a pipeline that no quiet update touches. -/
def PipelineState.progress (ps : PipelineState) : PipelineDAG × Finset StageId × Finset StageId :=
  (ps.dag, ps.completedStages, ps.dispatchedStages)

/-- A scan leaves the progress of the pipeline alone. -/
theorem ReadyScan.Frame.progress {ps ps' : PipelineState} (h : ReadyScan.Frame ps ps') :
    ps'.progress = ps.progress := by
  obtain ⟨skipped, isPartial, waitStart, rfl⟩ := h
  rfl

namespace Broker

/-- An update that neither admits, advances nor successfully completes a pipeline. -/
structure Quiet (b b' : Broker) : Prop where
  progress : ∀ pipelineId, (b'.pipelines.get? pipelineId).map (·.progress) =
    (b.pipelines.get? pipelineId).map (·.progress)
  active : ∀ pipelineId ∈ b'.activePipelines, pipelineId ∈ b.activePipelines
  completions : ∃ cs, b'.metrics.completions = b.metrics.completions ++ cs ∧
    ∀ c ∈ cs, c.success = false

theorem Quiet.trans {b b' b'' : Broker} (h : b.Quiet b') (h' : b'.Quiet b'') : b.Quiet b'' where
  progress pid := (h'.progress pid).trans (h.progress pid)
  active pid hp := h.active pid (h'.active pid hp)
  completions := by
    obtain ⟨cs, hcs, hfail⟩ := h.completions
    obtain ⟨cs', hcs', hfail'⟩ := h'.completions
    refine ⟨cs ++ cs', by rw [hcs', hcs, List.append_assoc], fun c hc => ?_⟩
    exact (List.mem_append.mp hc).elim (hfail c) (hfail' c)

/-- Whatever leaves the pipelines and their completions alone is quiet. -/
theorem Quiet.of_eq {b b' : Broker} (hp : b'.pipelines = b.pipelines)
    (ha : b'.activePipelines = b.activePipelines)
    (hc : b'.metrics.completions = b.metrics.completions) : b.Quiet b' where
  progress pid := by rw [hp]
  active pid h := ha ▸ h
  completions := ⟨[], by simp [hc], by simp⟩

/-- A quiet update that leaves the registry and the topology alone too. -/
structure Aside (b b' : Broker) : Prop extends b.Quiet b' where
  workers : b'.workers = b.workers
  topology : b'.topology = b.topology

theorem Aside.of_eq {b b' : Broker} (hp : b'.pipelines = b.pipelines)
    (ha : b'.activePipelines = b.activePipelines)
    (hc : b'.metrics.completions = b.metrics.completions) (hw : b'.workers = b.workers)
    (ht : b'.topology = b.topology) : b.Aside b' :=
  { Quiet.of_eq hp ha hc with workers := hw, topology := ht }

theorem Aside.trans {b b' b'' : Broker} (h : b.Aside b') (h' : b'.Aside b'') : b.Aside b'' :=
  { h.toQuiet.trans h'.toQuiet with
    workers := h'.workers.trans h.workers
    topology := h'.topology.trans h.topology }

theorem aside_completePipeline (b : Broker) {c : Completion} (h : c.success = false) :
    b.Aside (b.completePipeline c) where
  progress _ := rfl
  active _ h := h
  completions := ⟨[c], rfl, by simpa using h⟩
  workers := rfl
  topology := rfl

theorem aside_popPipeline (b : Broker) (pid : PipelineId) : b.Aside (b.popPipeline pid) where
  progress _ := rfl
  active _ h := (List.mem_filter.mp h).1
  completions := ⟨[], by simp [popPipeline], by simp⟩
  workers := rfl
  topology := rfl

theorem aside_updatePipeline (b : Broker) (pid : PipelineId) {f : PipelineState → PipelineState}
    (h : ∀ ps, b.pipelines.get? pid = some ps → (f ps).progress = ps.progress) :
    b.Aside (b.updatePipeline pid f) where
  progress pid' := by
    rw [get?_updatePipeline]
    split
    · next heq =>
      subst heq
      cases hps : b.pipelines.get? pid' with
      | none => rfl
      | some ps => simp [h ps hps]
    · rfl
  active _ h := h
  completions := ⟨[], by simp [updatePipeline], by simp⟩
  workers := rfl
  topology := rfl

end Broker

/-! ## Side updates -/

/-- The updates that neither change the registry nor admit, advance or complete a
pipeline, one by one. -/
inductive SideUpdate (cfg : BrokerConfig) (b : Broker) : Broker → Prop
  | still {b' : Broker} : b'.pipelines = b.pipelines → b'.activePipelines = b.activePipelines →
    b'.metrics.completions = b.metrics.completions → b'.workers = b.workers →
    b'.topology = b.topology → SideUpdate cfg b b'
  | failed (pid : PipelineId) (error : String) : SideUpdate cfg b (b.failPipeline pid error)
  | reported {c : Completion} : c.success = false → SideUpdate cfg b (b.completePipeline c)
  | closed {pid : PipelineId} {ps : PipelineState} : b.pipelines.get? pid = some ps →
    ps.failed = true → SideUpdate cfg b (b.popPipeline pid)
  | rehosted (pid : PipelineId) (sid : StageId) (nodeId : NodeId) : SideUpdate cfg b
    (b.updatePipeline pid fun ps => { ps with placement := ps.placement.insert sid nodeId })
  | departed (nodeId : NodeId) : SideUpdate cfg b (NeuralBroker.failPipelinesOn nodeId b)
  | scanned {pid : PipelineId} {ps : PipelineState} : b.pipelines.get? pid = some ps →
    ps.failed = false → SideUpdate cfg b (b.updatePipeline pid fun _ => (b.readyScan cfg ps).ps)

/-- A pick moves a cycle on at most. -/
theorem SideUpdate.pickWorker (cfg : BrokerConfig) (sliceRequirement : Option SliceId) (b : Broker) :
    SideUpdate cfg b (StaticBroker.pickWorker cfg sliceRequirement b).2 := by
  unfold StaticBroker.pickWorker
  split
  · exact .still rfl rfl rfl rfl rfl
  · dsimp only
    split <;> split <;> exact .still rfl rfl rfl rfl rfl

theorem aside_failPipelinesOn (nodeId : NodeId) (b : Broker) :
    b.Aside (NeuralBroker.failPipelinesOn nodeId b) := by
  refine foldl_scan (P := fun _ b' => b.Aside b') (.of_eq rfl rfl rfl rfl rfl) ?_
  intro _ pid _ b' _ hb
  apply hb.trans
  apply Broker.aside_updatePipeline
  intro ps _
  split <;> rfl

theorem SideUpdate.aside {cfg : BrokerConfig} {b b' : Broker} (h : SideUpdate cfg b b') :
    b.Aside b' := by
  cases h with
  | still hp ha hc hw ht => exact .of_eq hp ha hc hw ht
  | failed pid error =>
    apply Broker.Aside.trans _ (Broker.aside_popPipeline _ pid)
    exact b.aside_updatePipeline pid fun _ _ => rfl
  | reported hc => exact b.aside_completePipeline hc
  | @closed pid _ _ _ => exact b.aside_popPipeline pid
  | rehosted pid sid nodeId => exact b.aside_updatePipeline pid fun _ _ => rfl
  | departed nodeId => exact aside_failPipelinesOn nodeId b
  | @scanned pid ps hps _ =>
    -- the scan leaves the DAG and the sets of the pipeline alone
    apply b.aside_updatePipeline
    intro ps' hps'
    obtain rfl := Option.some.inj (hps.symm.trans hps')
    exact (findReadyStages_frame ..).progress

/-! ## Tolerated updates -/

/-- The updates of the registry that the handlers make. -/
inductive RegistryUpdate (kind : BrokerKind) (b : Broker) : Broker → Prop
  | register (req : RegisterRequest) (bidCostMs : ℚ) : RegistryUpdate kind b
    (onWorkerChange kind { b with workers := b.workers.insert req.nodeId (req.workerInfo bidCostMs) })
  | remove (nodeId : NodeId) : RegistryUpdate kind b
    (onWorkerChange kind { b with workers := b.workers.erase nodeId })
  | load (nodeId : NodeId) (delta : ℚ) : kind = .neural →
    RegistryUpdate kind b (NeuralBroker.updateWorkerLoad nodeId delta b)

/-- A condition that every update of a handler keeps, up to what results record. -/
structure Withstands (kind : BrokerKind) (cfg : BrokerConfig) (I : BrokerScene → Prop) : Prop where
  aside : ∀ {sc b}, I sc → sc.state.Aside b → I (sc.withState b)
  registry : ∀ {sc b}, I sc → RegistryUpdate kind sc.state b → I (sc.withState b)
  emit : ∀ {sc} m, I sc → I (sc.emit m)
  admitted : ∀ {sc} (req : PlacedPipeline), I sc → Call.publish req ∈ sc.started →
    req.pipelineId ∉ sc.state.pipelines →
    I (sc.withState { sc.state with
      pipelines := sc.state.pipelines.insert req.pipelineId
        { pipelineId := req.pipelineId, pipelineType := req.pipelineType
          dag := req.dag, placement := req.placement }
      activePipelines := sc.state.activePipelines ++ [req.pipelineId] })
  scheduled : ∀ {sc pid ps}, I sc → sc.state.pipelines.get? pid = some ps → ps.failed = false →
    I ((sc.withState (sc.state.markReady cfg pid ps)).schedule
      ((sc.state.readyScan cfg ps).ready.map (.dispatchStage pid)))
  finalised : ∀ {sc pid ps}, I sc → sc.state.pipelines.get? pid = some ps →
    pid ∈ sc.state.activePipelines → ps.failed = false → ps.completedStages = ps.allStages →
    I (sc.withState ((sc.state.completePipeline { pipelineId := pid, success := true }).popPipeline
      pid))

/-- A condition that every update of a handler keeps, one by one, up to what results
record. -/
structure Endures (kind : BrokerKind) (cfg : BrokerConfig) (I : BrokerScene → Prop) : Prop where
  side : ∀ {sc b}, I sc → SideUpdate cfg sc.state b → I (sc.withState b)
  registry : ∀ {sc b}, I sc → RegistryUpdate kind sc.state b → I (sc.withState b)
  emit : ∀ {sc} m, I sc → I (sc.emit m)
  admitted : ∀ {sc} (req : PlacedPipeline), I sc → Call.publish req ∈ sc.started →
    req.pipelineId ∉ sc.state.pipelines →
    I (sc.withState { sc.state with
      pipelines := sc.state.pipelines.insert req.pipelineId
        { pipelineId := req.pipelineId, pipelineType := req.pipelineType
          dag := req.dag, placement := req.placement }
      activePipelines := sc.state.activePipelines ++ [req.pipelineId] })
  scheduled : ∀ {sc pid ps}, I sc → sc.state.pipelines.get? pid = some ps → ps.failed = false →
    I ((sc.withState (sc.state.markReady cfg pid ps)).schedule
      ((sc.state.readyScan cfg ps).ready.map (.dispatchStage pid)))
  finalised : ∀ {sc pid ps}, I sc → sc.state.pipelines.get? pid = some ps →
    pid ∈ sc.state.activePipelines → ps.failed = false → ps.completedStages = ps.allStages →
    I (sc.withState ((sc.state.completePipeline { pipelineId := pid, success := true }).popPipeline
      pid))

theorem Withstands.endures {kind : BrokerKind} {cfg : BrokerConfig} {I : BrokerScene → Prop}
    (h : Withstands kind cfg I) : Endures kind cfg I where
  side hI hb := h.aside hI hb.aside
  registry := h.registry
  emit := h.emit
  admitted := h.admitted
  scheduled := h.scheduled
  finalised := h.finalised

/-- A condition that every update of a handler keeps. -/
structure Tolerates (kind : BrokerKind) (cfg : BrokerConfig) (I : BrokerScene → Prop) : Prop
    extends Withstands kind cfg I where
  recorded : ∀ {sc} (req : StageResultRequest), I sc → Call.result req ∈ sc.started →
    I (sc.withState (sc.state.updatePipeline req.pipelineId (·.recordResult req)))

/-! ## Every handler preserves what it endures -/

namespace Withstands

theorem preserves_getPipeline {r : Wake Broker Call WorkerMessage PyError Response}
    {I : BrokerScene → Prop} (pid : PipelineId) : (getPipeline pid).Preserves r I :=
  (Co.preserves_read _).bind fun _ => Co.preserves_ofExcept _

theorem carries_getPipeline {r : Wake Broker Call WorkerMessage PyError Response}
    {I J : BrokerScene → Prop} (hJ : ∀ sc, J sc → I sc) (pid : PipelineId) :
    (getPipeline pid).Carries r I J :=
  (Co.carries_read _).bind fun _ => Co.carries_ofExcept hJ _

/-- An active pipeline is one that the broker finds. -/
theorem active_of_activePipeline? {b : Broker} {pid : PipelineId} {ps : PipelineState}
    (h : b.activePipeline? pid = some ps) :
    pid ∈ b.activePipelines ∧ b.pipelines.get? pid = some ps := by
  unfold Broker.activePipeline? at h
  split at h
  · next hactive => exact ⟨hactive, h⟩
  · cases h

/-! ### Re-placement -/

section Replan
variable {r : Wake Broker Call WorkerMessage PyError Response} {cfg : BrokerConfig}
  {I J : BrokerScene → Prop} (hJ : ∀ sc, J sc → I sc)
  (hrehost : ∀ pid sid nodeId, (Co.modify (·.updatePipeline pid fun ps =>
    { ps with placement := ps.placement.insert sid nodeId }) : BrokerM Unit).Carries r I J)
  (hpick : ∀ sc slice, J sc → J (sc.withState (StaticBroker.pickWorker cfg slice sc.state).2))

include hJ hrehost

/-- A re-placement gives stages other hosts, and the static one picks workers for them. -/
theorem carries_neuralReplan (pid : PipelineId) (stages : List StageId) :
    (NeuralBroker.replan cfg pid stages).Carries r I J := by
  refine (Co.carries_read _).bind fun topology => ?_
  split
  · exact Co.carries_pure false
  · refine (carries_getPipeline hJ pid).bind fun ps => ?_
    split
    · exact (Co.carries_forEach fun sid _ => (Co.carries_ofExcept hJ _).bind fun nodeId =>
        hrehost pid sid nodeId).bind fun _ => Co.carries_pure true
    · exact Co.carries_pure false
    · exact Co.carries_raise hJ _

include hpick

theorem carries_replaceStage (pid : PipelineId) (sid : StageId) :
    (StaticBroker.replaceStage cfg pid sid).Carries r I J := by
  refine (carries_getPipeline hJ pid).bind fun ps => (Co.carries_ofExcept hJ _).bind fun stage =>
    (Co.carries_update fun sc h => hpick sc _ h).bind fun picked => ?_
  cases picked with
  | ok nodeId => exact (hrehost pid sid nodeId).bind fun _ => Co.carries_pure true
  | error e =>
    cases e with
    | runtime msg => exact Co.carries_pure false
    | index | key | type | value | overflow | zeroDivision | http | transport =>
      exact Co.carries_raise hJ _

theorem carries_replaceAll (pid : PipelineId) (stages : List StageId) :
    (StaticBroker.replaceAll cfg pid stages).Carries r I J := by
  induction stages with
  | nil => exact Co.carries_pure true
  | cons sid rest ih =>
    refine (carries_replaceStage hJ hrehost hpick pid sid).bind fun placed => ?_
    cases placed with
    | false => exact Co.carries_pure false
    | true => exact ih

theorem carries_staticReplan (pid : PipelineId) (stages : List StageId) :
    (StaticBroker.replan cfg pid stages).Carries r I J := by
  refine (Co.carries_read _).bind fun workers => ?_
  split
  · exact Co.carries_pure false
  · exact carries_replaceAll hJ hrehost hpick pid stages

end Replan

end Withstands

namespace Endures

open Withstands

variable {kind : BrokerKind} {r : Wake Broker Call WorkerMessage PyError Response}
  {cfg : BrokerConfig} {I : BrokerScene → Prop}

theorem preserves_side (h : Endures kind cfg I) {f : Broker → Broker}
    (hf : ∀ b : Broker, SideUpdate cfg b (f b)) : (Co.modify f : BrokerM Unit).Preserves r I :=
  Co.preserves_modify fun sc hI => h.side hI (hf sc.state)

theorem record (h : Endures kind cfg I) {sc : BrokerScene} (hI : I sc) (r : TimestampRecord) :
    I (sc.withState (sc.state.record r)) :=
  h.side hI (.still rfl rfl rfl rfl rfl)

theorem preserves_record (h : Endures kind cfg I) (record : TimestampRecord) :
    (Co.modify (·.record record) : BrokerM Unit).Preserves r I :=
  h.preserves_side fun _ => .still rfl rfl rfl rfl rfl

theorem preserves_registry (h : Endures kind cfg I) {f : Broker → Broker}
    (hf : ∀ b : Broker, RegistryUpdate kind b (f b)) : (Co.modify f : BrokerM Unit).Preserves r I :=
  Co.preserves_modify fun sc hI => h.registry hI (hf sc.state)

theorem preserves_load (h : Endures .neural cfg I) (nodeId : NodeId) (delta : ℚ) :
    (Co.modify (NeuralBroker.updateWorkerLoad nodeId delta) : BrokerM Unit).Preserves r I :=
  h.preserves_registry fun _ => .load nodeId delta rfl

theorem preserves_failPipeline (h : Endures kind cfg I) (pid : PipelineId) (error : String) :
    (Co.modify (·.failPipeline pid error) : BrokerM Unit).Preserves r I :=
  h.preserves_side fun _ => .failed pid error

theorem preserves_failAndComplete (h : Endures kind cfg I) (pid : PipelineId) (error : String) :
    (failAndComplete pid error).Preserves r I :=
  (h.preserves_failPipeline pid error).bind fun _ =>
    h.preserves_side fun _ => .reported rfl

theorem preserves_dispatchExhausted (h : Endures kind cfg I) (pid : PipelineId) (error : String) :
    (dispatchExhausted pid error).Preserves r I :=
  h.preserves_failPipeline pid error

theorem preserves_dispatchReadyStages (h : Endures kind cfg I) (pid : PipelineId) :
    (dispatchReadyStages cfg pid).Preserves r I := by
  intro sc hI
  cases hps : sc.state.pipelines.get? pid with
  | none => simpa [dispatchReadyStages, getPipeline, subscript, hps] using hI
  | some ps =>
    have hscan : ps.failed = false → I (sc.withState
        (sc.state.updatePipeline pid fun _ => (sc.state.readyScan cfg ps).ps)) := fun hfailed =>
      h.side hI (.scanned hps hfailed)
    refine wp_dispatchReadyStages hps (fun _ => hI) (fun hfailed result _ _ => ?_)
      (fun hfailed _ _ => hscan hfailed)
      fun hfailed _ _ => ⟨h.scheduled hI hps hfailed, fun sc' hI' _ _ => ⟨hI', fun _ => hI'⟩⟩
    exact h.preserves_failAndComplete (r := r) pid (funnelError result) _ (hscan hfailed)

/-- Finalising or advancing a pipeline that is active. -/
theorem wp_completeOrAdvance (h : Endures kind cfg I) {sc : BrokerScene}
    {req : StageResultRequest} (hI : I sc) (hactive : req.pipelineId ∈ sc.state.activePipelines) :
    (completeOrAdvance cfg req).wp r I (fun _ => I) (fun _ => I) sc := by
  unfold completeOrAdvance
  cases hps : sc.state.pipelines.get? req.pipelineId with
  | none => simpa [getPipeline, subscript, hps] using hI
  | some ps =>
    rw [Co.wp_monad_bind, wp_getPipeline hps]
    split
    · next hfailed =>
      have hcomplete := h.side hI (.reported
        (c := { pipelineId := req.pipelineId, success := false, error := ps.error }) rfl)
      have hpop := h.side hcomplete (.closed hps hfailed)
      exact hpop
    · next hfailed =>
      split
      · next hall =>
        have hrecord := h.record hI (stageRecord req .delivered sc.state.clock ps.pipelineType)
        have hfinal := h.finalised hrecord hps hactive (by simpa using hfailed) hall
        exact hfinal
      · exact ((h.preserves_dispatchReadyStages _).bind fun _ => Co.preserves_pure _) sc hI

theorem wp_registerPipeline (h : Endures kind cfg I) {sc : BrokerScene} {req : PlacedPipeline}
    (hI : I sc) (hreq : Call.publish req ∈ sc.started)
    (hnew : req.pipelineId ∉ sc.state.pipelines) :
    (registerPipeline cfg req).wp r I (fun _ => I) (fun _ => I) sc := by
  unfold registerPipeline
  simp only [Co.wp_monad_bind, Co.wp_modify, Co.wp_read]
  have hcreated := h.record (h.admitted req hI hreq hnew)
    (pipelineRecord cfg req .created sc.state.clock)
  have hplaced := h.record hcreated (pipelineRecord cfg req .placementComplete sc.state.clock)
  exact hplaced

theorem wp_publish (h : Endures kind cfg I) {sc : BrokerScene} {req : PlacedPipeline}
    (hI : I sc) (hreq : Call.publish req ∈ sc.started)
    (hnew : req.pipelineId ∉ sc.state.pipelines) :
    (BaseBroker.publish cfg req).wp r I (fun _ => I) (fun _ => I) sc := by
  unfold BaseBroker.publish
  rw [Co.wp_monad_bind]
  apply Co.wp_mono (fun _ _ h => h) _ (h.wp_registerPipeline hI hreq hnew)
  intro _ sc' hI'
  exact ((h.preserves_dispatchReadyStages _).bind fun _ => (Co.preserves_read _).bind fun _ =>
    Co.preserves_pure _) sc' hI'

theorem wp_neuralPublish (h : Endures kind cfg I) {sc : BrokerScene} {req : PlacedPipeline}
    (hI : I sc) (hreq : Call.publish req ∈ sc.started)
    (hnew : req.pipelineId ∉ sc.state.pipelines) :
    (NeuralBroker.publish cfg req).wp r I (fun _ => I) (fun _ => I) sc := by
  unfold NeuralBroker.publish
  rw [Co.wp_monad_bind]
  apply Co.wp_mono (fun _ _ h => h) _ (h.wp_registerPipeline hI hreq hnew)
  intro _ sc' hI'
  exact ((Co.preserves_ofExcept _).bind fun _ => (h.preserves_dispatchReadyStages _).bind fun _ =>
    (Co.preserves_read _).bind fun _ => Co.preserves_pure _) sc' hI'

/-- The records of a result and the sets of the pipeline, up to the point where
the two result handlers differ. -/
theorem recordedResult (h : Endures kind cfg I) {sc : BrokerScene} {req : StageResultRequest}
    (hrecorded : I (sc.withState (sc.state.updatePipeline req.pipelineId (·.recordResult req))))
    (receivedType pipelineType : String) :
    I (sc.withState ((((sc.state.record (stageRecord req .stageResultReceived sc.state.clock
      receivedType)).updatePipeline req.pipelineId (·.recordResult req)).record
        (stageRecord req .stageStart req.startTime pipelineType)).record
          (stageRecord req .stageEnd req.endTime pipelineType))) := by
  have hreceived := h.record hrecorded
    (stageRecord req .stageResultReceived sc.state.clock receivedType)
  have hstart := h.record hreceived (stageRecord req .stageStart req.startTime pipelineType)
  have hend := h.record hstart (stageRecord req .stageEnd req.endTime pipelineType)
  exact hend

theorem wp_handleResult (h : Endures kind cfg I) {sc : BrokerScene} {req : StageResultRequest}
    (hI : I sc) (hrecorded : ∀ ps, sc.state.activePipeline? req.pipelineId = some ps →
      I (sc.withState (sc.state.updatePipeline req.pipelineId (·.recordResult req)))) :
    (BaseBroker.handleResult cfg req).wp r I (fun _ => I) (fun _ => I) sc := by
  have hreceived := h.record hI (stageRecord req .stageResultReceived sc.state.clock "unknown")
  unfold BaseBroker.handleResult
  simp only [Co.wp_monad_bind, Co.wp_read, Co.wp_modify]
  cases hactive : (sc.state.record (stageRecord req .stageResultReceived sc.state.clock
      "unknown")).activePipeline? req.pipelineId with
  | none => simpa [hactive] using hreceived
  | some ps =>
    simp only [Scene.state_withState, hactive, Co.wp_monad_bind, Co.wp_modify]
    exact h.wp_completeOrAdvance (h.recordedResult (hrecorded ps hactive) "unknown" ps.pipelineType)
      (active_of_activePipeline? hactive).1

theorem wp_neuralResult (h : Endures .neural cfg I) {sc : BrokerScene} {req : StageResultRequest}
    (hI : I sc) (hrecorded : ∀ ps, sc.state.activePipeline? req.pipelineId = some ps →
      I (sc.withState (sc.state.updatePipeline req.pipelineId (·.recordResult req)))) :
    (NeuralBroker.result cfg req).wp r I (fun _ => I) (fun _ => I) sc := by
  have hreceived := h.record hI
    (stageRecord req .stageResultReceived sc.state.clock "__pending__")
  unfold NeuralBroker.result
  simp only [Co.wp_monad_bind, Co.wp_read, Co.wp_modify]
  cases hactive : (sc.state.record (stageRecord req .stageResultReceived sc.state.clock
      "__pending__")).activePipeline? req.pipelineId with
  | none => simpa [hactive] using hreceived
  | some ps =>
    simp only [Scene.state_withState, hactive, Co.wp_monad_bind, Co.wp_modify, Co.wp_ofExcept]
    have hI := h.recordedResult (hrecorded ps hactive) "__pending__" ps.pipelineType
    cases ps.dag.getStage req.stageId with
    | error e => exact hI
    | ok stage =>
      apply h.wp_completeOrAdvance (h.registry hI (.load _ _ rfl))
      simpa using (active_of_activePipeline? hactive).1

/-! ### Dispatch and recovery -/

theorem preserves_baseDispatchStage (h : Endures kind cfg I) (pid : PipelineId) (sid : StageId) :
    (BaseBroker.dispatchStage cfg pid sid).Preserves r I := by
  refine (preserves_getPipeline pid).bind fun ps => (Co.preserves_ofExcept _).bind fun nodeId =>
    (Co.preserves_read _).bind fun worker => ?_
  cases worker with
  | none => exact h.preserves_failAndComplete pid _
  | some worker =>
    refine (Co.preserves_ofExcept _).bind fun stage => (Co.preserves_read _).bind fun now =>
      (h.preserves_record _).bind fun _ =>
        (Co.preserves_request fun _ hI => h.emit _ hI).bind fun reply => ?_
    cases reply with
    | ok u => exact Co.preserves_pure ()
    | error exc => exact h.preserves_failAndComplete pid _

/-- Giving a stage another host. -/
theorem preserves_rehost (h : Endures kind cfg I) (pid : PipelineId) (sid : StageId)
    (nodeId : NodeId) : (Co.modify (·.updatePipeline pid fun ps =>
      { ps with placement := ps.placement.insert sid nodeId }) : BrokerM Unit).Preserves r I :=
  h.preserves_side fun _ => .rehosted pid sid nodeId

theorem preserves_staticReplan (h : Endures kind cfg I) (pid : PipelineId)
    (stages : List StageId) : (StaticBroker.replan cfg pid stages).Preserves r I :=
  Withstands.carries_staticReplan (fun _ hI => hI) h.preserves_rehost
    (fun _ _ hI => h.side hI (.pickWorker ..)) pid stages

theorem preserves_neuralReplan (h : Endures kind cfg I) (pid : PipelineId)
    (stages : List StageId) : (NeuralBroker.replan cfg pid stages).Preserves r I :=
  Withstands.carries_neuralReplan (fun _ hI => hI) h.preserves_rehost pid stages

theorem preserves_replaceStagesOf (h : Endures kind cfg I)
    {replan : PipelineId → List StageId → BrokerM Bool}
    (hreplan : ∀ pid stages, (replan pid stages).Preserves r I) (deadNodeId : NodeId)
    (pid : PipelineId) : (replaceStagesOf cfg replan deadNodeId pid).Preserves r I := by
  refine (preserves_getPipeline pid).bind fun ps => ?_
  split
  · exact Co.preserves_pure ()
  · refine Co.Preserves.bind ?_ fun replaced => ?_
    · unfold replaceUnlessNone
      split
      · exact Co.preserves_pure true
      · exact hreplan pid _
    · cases replaced with
      | true => exact h.preserves_dispatchReadyStages pid
      | false => exact h.preserves_failAndComplete pid _

theorem preserves_replaceFailedStages (h : Endures kind cfg I)
    {replan : PipelineId → List StageId → BrokerM Bool}
    (hreplan : ∀ pid stages, (replan pid stages).Preserves r I) (deadNodeId : NodeId) :
    (replaceFailedStages cfg replan deadNodeId).Preserves r I :=
  (Co.preserves_read _).bind fun _ => Co.preserves_forEach fun pid _ =>
    h.preserves_replaceStagesOf hreplan deadNodeId pid

theorem preserves_removeDeadWorker (h : Endures kind cfg I) {replace : NodeId → BrokerM Unit}
    (hreplace : ∀ nodeId, (replace nodeId).Preserves r I) (nodeId : NodeId) :
    (removeDeadWorker (onWorkerChange kind) replace nodeId).Preserves r I := by
  refine (h.preserves_side fun b => by exact .still rfl rfl rfl rfl rfl).bind fun _ =>
    (Co.preserves_modify fun sc hI => ?_).bind fun _ => hreplace nodeId
  split
  · exact h.registry hI (.remove nodeId)
  · exact hI

theorem preserves_staticRedispatch (h : Endures .static cfg I) (pid : PipelineId) (sid : StageId)
    (nodeId : NodeId) (payload : ExecuteRequest) :
    (StaticBroker.redispatch cfg pid sid nodeId payload).Preserves r I := by
  have hevict : (Co.modify (StaticBroker.evict nodeId) : BrokerM Unit).Preserves r I := by
    apply Co.preserves_modify
    intro sc hI
    unfold StaticBroker.evict
    split
    · have hremove := h.side (b := { onWorkerChange .static { sc.state with
          workers := sc.state.workers.erase nodeId } with
          workerFailures := sc.state.workerFailures.erase nodeId })
        (h.registry hI (.remove nodeId)) (.still rfl rfl rfl rfl rfl)
      exact hremove
    · exact hI
  refine hevict.bind fun _ => (h.preserves_staticReplan pid [sid]).bind fun replaced => ?_
  cases replaced with
  | false => exact h.preserves_dispatchExhausted pid _
  | true =>
    refine (preserves_getPipeline pid).bind fun ps => (Co.preserves_ofExcept _).bind fun _ =>
      (Co.preserves_read _).bind fun newWorker => ?_
    cases newWorker with
    | none => exact h.preserves_dispatchExhausted pid _
    | some newWorker =>
      refine (Co.preserves_request fun _ hI => h.emit _ hI).bind fun reply => ?_
      cases reply with
      | ok u => exact Co.preserves_pure ()
      | error exc => exact h.preserves_dispatchExhausted pid _

theorem preserves_staticDispatchStage (h : Endures .static cfg I) (pid : PipelineId)
    (sid : StageId) : (StaticBroker.dispatchStage cfg pid sid).Preserves r I := by
  refine (preserves_getPipeline pid).bind fun ps => (Co.preserves_ofExcept _).bind fun nodeId =>
    (Co.preserves_read _).bind fun worker => ?_
  cases worker with
  | none => exact h.preserves_failAndComplete pid _
  | some worker =>
    refine (Co.preserves_ofExcept _).bind fun stage => (Co.preserves_read _).bind fun now =>
      (h.preserves_record _).bind fun _ =>
        (Co.preserves_request fun _ hI => h.emit _ hI).bind fun reply => ?_
    cases reply with
    | ok u => exact Co.preserves_pure ()
    | error exc => exact h.preserves_staticRedispatch pid sid nodeId _

theorem preserves_neuralRedispatch (h : Endures .neural cfg I) (pid : PipelineId) (sid : StageId)
    (nodeId : NodeId) (stage : Stage) (payload : ExecuteRequest) (exc : PyError) :
    (NeuralBroker.redispatch cfg pid sid nodeId stage payload exc).Preserves r I := by
  have hexhausted : ∀ error, (do
      Co.modify (NeuralBroker.updateWorkerLoad nodeId (-stage.computationalDemand))
      dispatchExhausted pid error : BrokerM Unit).Preserves r I := fun error =>
    (h.preserves_load nodeId _).bind fun _ => h.preserves_dispatchExhausted pid error
  refine (h.preserves_side fun b => by exact .still rfl rfl rfl rfl rfl).bind fun _ =>
    (h.preserves_neuralReplan pid [sid]).bind fun replaced => ?_
  cases replaced with
  | false => exact hexhausted _
  | true =>
    refine (preserves_getPipeline pid).bind fun ps => (Co.preserves_ofExcept _).bind fun _ =>
      (Co.preserves_read _).bind fun newWorker => ?_
    cases newWorker with
    | none => exact hexhausted _
    | some newWorker =>
      refine (Co.preserves_request fun _ hI => h.emit _ hI).bind fun reply => ?_
      cases reply with
      | ok u => exact Co.preserves_pure ()
      | error exc => exact hexhausted _

theorem preserves_neuralDispatchStage (h : Endures .neural cfg I) (pid : PipelineId)
    (sid : StageId) : (NeuralBroker.dispatchStage cfg pid sid).Preserves r I := by
  refine (preserves_getPipeline pid).bind fun ps => (Co.preserves_ofExcept _).bind fun nodeId =>
    (Co.preserves_read _).bind fun url => ?_
  cases url with
  | none => exact h.preserves_dispatchExhausted pid _
  | some url =>
    refine (Co.preserves_ofExcept _).bind fun stage => (Co.preserves_read _).bind fun now =>
      (h.preserves_record _).bind fun _ =>
        (h.preserves_load nodeId _).bind fun _ =>
          (Co.preserves_request fun _ hI => h.emit _ hI).bind fun reply => ?_
    cases reply with
    | ok u => exact Co.preserves_pure ()
    | error exc => exact h.preserves_neuralRedispatch pid sid nodeId stage _ exc

/-! ### Registration -/

theorem preserves_register (h : Endures kind cfg I) (req : RegisterRequest) :
    (BaseBroker.register (onWorkerChange kind) req).Preserves r I := by
  intro sc hI
  have hregister := h.registry hI (.register req 0)
  exact hregister

theorem preserves_neuralRegister (h : Endures .neural cfg I) (req : RegisterRequest) :
    (NeuralBroker.register req).Preserves r I := by
  intro sc hI
  have hregister := h.registry hI (.register req req.bidCostMs)
  exact hregister

theorem preserves_deregister (h : Endures kind cfg I) (nodeId : NodeId) :
    (BaseBroker.deregister (onWorkerChange kind) nodeId).Preserves r I := by
  refine (Co.preserves_read _).bind fun workers => ?_
  split
  · exact Co.preserves_raise _
  · intro sc hI
    have hremove := h.registry hI (.remove nodeId)
    exact hremove

theorem preserves_neuralDeregister (h : Endures .neural cfg I) (nodeId : NodeId) :
    (NeuralBroker.deregister nodeId).Preserves r I := by
  refine (Co.preserves_read _).bind fun workers => ?_
  split
  · exact Co.preserves_raise _
  · intro sc hI
    have hremove := h.side (h.registry hI (.remove nodeId)) (.departed nodeId)
    exact hremove

/-! ### All handlers -/

theorem preserves_return {x : BrokerM Unit} (hx : x.Preserves r I) :
    (x >>= fun _ => pure Response.none).Preserves r I :=
  hx.bind fun _ => Co.preserves_pure _

theorem preserves_removeDead (h : Endures kind cfg I) {replace : NodeId → BrokerM Unit}
    (hreplace : ∀ nodeId, (replace nodeId).Preserves r I) (dead : List NodeId) :
    (Co.forEach dead (removeDeadWorker (onWorkerChange kind) replace)).Preserves r I :=
  Co.preserves_forEach fun nodeId _ => h.preserves_removeDeadWorker hreplace nodeId

/-- Every handler preserves the condition, if the id of a publish is new and the
condition survives what a result records and the probes of a health check. -/
theorem wp_brokerBody (h : Endures kind cfg I) {sc : BrokerScene} {c : Call} (hI : I sc)
    (hc : c ∈ sc.started)
    (hpublish : ∀ req, c = .publish req → req.pipelineId ∉ sc.state.pipelines)
    (hresult : ∀ req, c = .result req → ∀ ps, sc.state.activePipeline? req.pipelineId = some ps →
      I (sc.withState (sc.state.updatePipeline req.pipelineId (·.recordResult req))))
    (hround : ∀ results, c = .healthCheck results →
      I (sc.withState (roundOutcome kind cfg results sc.state).2)) :
    (brokerBody kind cfg c).wp r I (fun _ => I) (fun _ => I) sc := by
  have htick : ∀ time : ℚ, (Co.modify fun b => { b with clock := time } : BrokerM Unit).Preserves
      r I := fun time => h.preserves_side fun b => by exact .still rfl rfl rfl rfl rfl
  cases kind with
  | base =>
    cases c with
    | publish req => exact h.wp_publish hI hc (hpublish req rfl)
    | register req => exact h.preserves_register req sc hI
    | deregister nodeId => exact h.preserves_deregister nodeId sc hI
    | result req => exact h.wp_handleResult hI (hresult req rfl)
    | dispatchStage pid sid => exact preserves_return (h.preserves_baseDispatchStage pid sid) sc hI
    | healthCheck results => exact hI
    | cachePeerWorkers urls => exact hI
    | tick time => exact preserves_return (htick time) sc hI
  | static =>
    cases c with
    | publish req => exact h.wp_publish hI hc (hpublish req rfl)
    | register req => exact h.preserves_register req sc hI
    | deregister nodeId => exact h.preserves_deregister nodeId sc hI
    | result req => exact h.wp_handleResult hI (hresult req rfl)
    | dispatchStage pid sid => exact preserves_return (h.preserves_staticDispatchStage pid sid) sc hI
    | healthCheck results =>
      exact preserves_return (h.preserves_removeDead
        (h.preserves_replaceFailedStages h.preserves_staticReplan) _) _ (hround results rfl)
    | cachePeerWorkers urls => exact hI
    | tick time => exact preserves_return (htick time) sc hI
  | neural =>
    cases c with
    | publish req => exact h.wp_neuralPublish hI hc (hpublish req rfl)
    | register req => exact h.preserves_neuralRegister req sc hI
    | deregister nodeId => exact h.preserves_neuralDeregister nodeId sc hI
    | result req => exact h.wp_neuralResult hI (hresult req rfl)
    | dispatchStage pid sid => exact preserves_return (h.preserves_neuralDispatchStage pid sid) sc hI
    | healthCheck results =>
      exact preserves_return (h.preserves_removeDead
        (h.preserves_replaceFailedStages h.preserves_neuralReplan) _) _ (hround results rfl)
    | cachePeerWorkers urls =>
      exact preserves_return
        (h.preserves_side fun b => by exact .still rfl rfl rfl rfl rfl) sc hI
    | tick time => exact preserves_return (htick time) sc hI

end Endures

/-- The same for a condition that withstands the updates. -/
theorem Withstands.wp_brokerBody {kind : BrokerKind}
    {r : Wake Broker Call WorkerMessage PyError Response} {cfg : BrokerConfig}
    {I : BrokerScene → Prop} (h : Withstands kind cfg I) {sc : BrokerScene} {c : Call} (hI : I sc)
    (hc : c ∈ sc.started)
    (hpublish : ∀ req, c = .publish req → req.pipelineId ∉ sc.state.pipelines)
    (hresult : ∀ req, c = .result req → ∀ ps, sc.state.activePipeline? req.pipelineId = some ps →
      I (sc.withState (sc.state.updatePipeline req.pipelineId (·.recordResult req))))
    (hround : ∀ results, c = .healthCheck results →
      I (sc.withState (roundOutcome kind cfg results sc.state).2)) :
    (brokerBody kind cfg c).wp r I (fun _ => I) (fun _ => I) sc :=
  h.endures.wp_brokerBody hI hc hpublish hresult hround

/-- The same for a condition that survives every result. -/
theorem Tolerates.wp_brokerBody {kind : BrokerKind} {r : Wake Broker Call WorkerMessage PyError Response}
    {cfg : BrokerConfig} {I : BrokerScene → Prop} (h : Tolerates kind cfg I) {sc : BrokerScene}
    {c : Call} (hI : I sc) (hc : c ∈ sc.started)
    (hpublish : ∀ req, c = .publish req → req.pipelineId ∉ sc.state.pipelines)
    (hround : ∀ results, c = .healthCheck results →
      I (sc.withState (roundOutcome kind cfg results sc.state).2)) :
    (brokerBody kind cfg c).wp r I (fun _ => I) (fun _ => I) sc := by
  apply h.toWithstands.wp_brokerBody hI hc hpublish _ hround
  rintro req rfl _ _
  exact h.recorded req hI hc

end NeuralPubSub
