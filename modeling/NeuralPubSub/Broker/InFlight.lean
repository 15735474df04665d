-- SUMMARY: When every active pipeline of a broker has a stage in flight.
import NeuralPubSub.Broker.DispatchLoad
import NeuralPubSub.Broker.Handover

open Base

/-!
# Pipelines in flight

An active pipeline goes on when a result comes in, so it has to have a stage in flight:
one that was sent to a worker that has not left, or to a worker of a peer, or whose
dispatch is scheduled. A worker that leaves takes its results with it, and a result may
be the last one there was.
-/

namespace NeuralPubSub

/-! ## Stages that are under way -/

/-- The call names a worker of a peer at the URL to which the message goes. -/
def Call.NamesPeerAt (cfg : BrokerConfig) (m : WorkerMessage) : Call → Prop
  | .cachePeerWorkers urls => ∃ e ∈ urls.entries, m = workerMessage cfg e.1 e.2 m.payload
  | .publish _ | .register _ | .deregister _ | .result _ | .dispatchStage _ _ | .healthCheck _
  | .tick _ => False

instance (cfg : BrokerConfig) (m : WorkerMessage) : ∀ c : Call, Decidable (c.NamesPeerAt cfg m)
  | .cachePeerWorkers urls => inferInstanceAs (Decidable (∃ e ∈ urls.entries, _))
  | .publish _ | .register _ | .deregister _ | .result _ | .dispatchStage _ _ | .healthCheck _
  | .tick _ => isFalse id

/-- The node that the call registers. -/
def Call.registers? : Call → Option NodeId
  | .register req => some req.nodeId
  | .publish _ | .deregister _ | .result _ | .dispatchStage _ _ | .healthCheck _
  | .cachePeerWorkers _ | .tick _ => none

/-- The stage was last sent to a worker of a peer. -/
def SentToPeer (cfg : BrokerConfig) (sc : BrokerScene) (pipelineId : PipelineId)
    (stageId : StageId) : Prop :=
  ∃ m ∈ lastSent sc pipelineId stageId, ∃ c ∈ sc.started, c.NamesPeerAt cfg m

instance (cfg : BrokerConfig) (sc : BrokerScene) (pid : PipelineId) (sid : StageId) :
    Decidable (SentToPeer cfg sc pid sid) :=
  inferInstanceAs (Decidable (∃ m ∈ lastSent sc pid sid, _))

/-- The peers still list the workers that have an open stage. -/
def ListsSentTo (cfg : BrokerConfig) (sc : BrokerScene) (urls : Dict NodeId String) : Prop :=
  ∀ pid ∈ sc.state.activePipelines, ∀ ps, sc.state.pipelines.get? pid = some ps →
    ∀ sid ∈ ps.dispatchedStages, sid ∉ ps.completedStages → SentToPeer cfg sc pid sid →
      ∃ m ∈ lastSent sc pid sid, (Call.cachePeerWorkers urls).NamesPeerAt cfg m

instance (cfg : BrokerConfig) (sc : BrokerScene) (urls : Dict NodeId String) :
    Decidable (ListsSentTo cfg sc urls) :=
  inferInstanceAs (Decidable (∀ pid ∈ sc.state.activePipelines,
    ∀ ps ∈ sc.state.pipelines.get? pid, ∀ sid ∈ ps.dispatchedStages, sid ∉ ps.completedStages →
      SentToPeer cfg sc pid sid → ∃ m ∈ lastSent sc pid sid, _))

theorem SentToPeer.start {cfg : BrokerConfig} {sc : BrokerScene} {pid : PipelineId} {sid : StageId}
    (h : SentToPeer cfg sc pid sid) (c : Call) : SentToPeer cfg (sc.start c) pid sid := by
  obtain ⟨m, hm, c', hcall, hnames⟩ := h
  exact ⟨m, hm, c', List.mem_append_left _ hcall, hnames⟩

theorem SentToPeer.emit {cfg : BrokerConfig} {sc : BrokerScene} {pid : PipelineId} {sid : StageId}
    (h : SentToPeer cfg sc pid sid) {m : WorkerMessage} (hkey : m.key ≠ (pid, sid)) :
    SentToPeer cfg (sc.emit m) pid sid := by
  obtain ⟨m', hm', hcall⟩ := h
  exact ⟨m', by rwa [lastSent_emit, if_neg hkey], hcall⟩

theorem sentToPeer_emit {cfg : BrokerConfig} {sc : BrokerScene} {nodeId : NodeId} {url : String}
    {urls : Dict NodeId String} (hcall : .cachePeerWorkers urls ∈ sc.started)
    (hurl : urls.get? nodeId = some url) (payload : ExecuteRequest) :
    SentToPeer cfg (sc.emit (workerMessage cfg nodeId url payload)) payload.pipelineId
      payload.stageId := by
  have hkey : (workerMessage cfg nodeId url payload).key =
      (payload.pipelineId, payload.stageId) := by rw [WorkerMessage.key, payload_workerMessage]
  refine ⟨workerMessage cfg nodeId url payload, ?_, .cachePeerWorkers urls, hcall, (nodeId, url),
    Dict.get?_eq_some_iff.mp hurl, ?_⟩
  · rw [lastSent_emit, if_pos hkey]
    rfl
  · rw [payload_workerMessage]

/-- The URL is that of a registered worker, or one that a peer has given out. -/
def Reached (sc : BrokerScene) (nodeId : NodeId) (url : String) : Prop :=
  (∃ worker, sc.state.workers.get? nodeId = some worker ∧ worker.url = url ∧
    Enlisted sc.started nodeId worker) ∨
      ∃ urls, Call.cachePeerWorkers urls ∈ sc.started ∧ urls.get? nodeId = some url

/-- The stages handed over. The registry does not tell what becomes of those that a
peer's worker has, and of those whose dispatch is scheduled. -/
def underway (cfg : BrokerConfig) (sc : BrokerScene) : Handover where
  sent := SentTo cfg sc
  due pid sid := .dispatchStage pid sid ∈ sc.pending ∨ SentToPeer cfg sc pid sid

/-- Who was sent what can be decided. -/
class Handover.Decided (o : Handover) where
  sent : ∀ pid sid nodeId, Decidable (o.sent pid sid nodeId)
  due : ∀ pid sid, Decidable (o.due pid sid)

instance (cfg : BrokerConfig) (sc : BrokerScene) : (underway cfg sc).Decided where
  sent pid sid nodeId := inferInstanceAs (Decidable (SentTo cfg sc pid sid nodeId))
  due pid sid := inferInstanceAs (Decidable (_ ∈ sc.pending ∨ SentToPeer cfg sc pid sid))

instance (o : Handover) [d : o.Decided] (pid : PipelineId) (sid : StageId) :
    (o.sending pid sid).Decided where
  sent := d.sent
  due p s :=
    have := d.due p s
    inferInstanceAs (Decidable ((p, s) = (pid, sid) ∨ o.due p s))

/-! ## Pipelines in flight -/

namespace Broker

variable {o o' : Handover} {P Q : NodeId → Prop} {b b' : Broker} {pid : PipelineId}
  {ps ps' : PipelineState}

/-- A stage of the pipeline has been dispatched and not completed, and is under way.
`P` singles out the workers that count. -/
def InFlight (o : Handover) (P : NodeId → Prop) (b : Broker) (pid : PipelineId)
    (ps : PipelineState) : Prop :=
  ∃ sid ∈ ps.dispatchedStages, sid ∉ ps.completedStages ∧
    (o.due pid sid ∨ ∃ nodeId, nodeId ∈ b.workers ∧ P nodeId ∧ o.sent pid sid nodeId)

/-- Every active pipeline is in flight. -/
def AllInFlight (o : Handover) (P : NodeId → Prop) (b : Broker) : Prop :=
  ∀ pid ∈ b.activePipelines, ∀ ps, b.pipelines.get? pid = some ps → b.InFlight o P pid ps

/-- Every stage of a pipeline has a host. -/
def PlacedInFull (b : Broker) : Prop :=
  ∀ pid ps, b.pipelines.get? pid = some ps → ∀ sid ∈ ps.allStages, sid ∈ ps.placement

/-- Every other active pipeline is in flight. -/
def OthersInFlight (o : Handover) (P : NodeId → Prop) (b : Broker) (pid : PipelineId) : Prop :=
  ∀ p ∈ b.activePipelines, p ≠ pid → ∀ ps, b.pipelines.get? p = some ps → b.InFlight o P p ps

instance (o : Handover) [o.Decided] [DecidablePred P] (b : Broker) (pid : PipelineId)
    (ps : PipelineState) : Decidable (b.InFlight o P pid ps) :=
  have := Handover.Decided.sent (o := o)
  have := Handover.Decided.due (o := o)
  decidable_of_iff (∃ sid ∈ ps.dispatchedStages, sid ∉ ps.completedStages ∧
    (o.due pid sid ∨ ∃ nodeId ∈ b.workers.keys, P nodeId ∧ o.sent pid sid nodeId))
    (by simp only [← Dict.mem_iff_mem_keys]; exact Iff.rfl)

instance (o : Handover) [o.Decided] [DecidablePred P] (b : Broker) :
    Decidable (b.AllInFlight o P) :=
  inferInstanceAs (Decidable (∀ pid ∈ b.activePipelines, ∀ ps ∈ b.pipelines.get? pid,
    b.InFlight o P pid ps))

theorem InFlight.mono (h : b.InFlight o P pid ps) (hprogress : ps'.progress = ps.progress)
    (hsent : ∀ sid nodeId, o.sent pid sid nodeId → o'.sent pid sid nodeId)
    (hdue : ∀ sid, o.due pid sid → o'.due pid sid)
    (hworkers : ∀ nodeId ∈ b.workers, P nodeId → nodeId ∈ b'.workers ∧ Q nodeId) :
    b'.InFlight o' Q pid ps' := by
  simp only [PipelineState.progress, Prod.mk.injEq] at hprogress
  obtain ⟨sid, hdispatched, hopen, hunderway⟩ := h
  refine ⟨sid, hprogress.2.2 ▸ hdispatched, hprogress.2.1 ▸ hopen, hunderway.imp (hdue sid) ?_⟩
  rintro ⟨nodeId, hnode, hP, hs⟩
  obtain ⟨hnode', hQ⟩ := hworkers nodeId hnode hP
  exact ⟨nodeId, hnode', hQ, hsent sid nodeId hs⟩

theorem AllInFlight.mono (h : b.AllInFlight o P)
    (hsent : ∀ pid sid nodeId, o.sent pid sid nodeId → o'.sent pid sid nodeId)
    (hdue : ∀ pid sid, o.due pid sid → o'.due pid sid) (hPQ : ∀ nodeId, P nodeId → Q nodeId) :
    b.AllInFlight o' Q := fun pid hpid ps hps =>
  (h pid hpid ps hps).mono rfl (hsent pid) (hdue pid) fun nodeId hnode hP => ⟨hnode, hPQ nodeId hP⟩

theorem AllInFlight.others (h : b.AllInFlight o P) (pid : PipelineId) : b.OthersInFlight o P pid :=
  fun p hp _ => h p hp

/-- A quiet update after which the workers that count are still registered. -/
theorem InFlight.quiet (hq : b.Quiet b') (hps' : b'.pipelines.get? pid = some ps')
    (hworkers : ∀ nodeId ∈ b.workers, P nodeId → nodeId ∈ b'.workers)
    (h : ∀ ps, b.pipelines.get? pid = some ps → b.InFlight o P pid ps) : b'.InFlight o P pid ps' := by
  have hprogress := hq.progress pid
  rw [hps', Option.map_some, eq_comm, Option.map_eq_some_iff] at hprogress
  obtain ⟨ps, hps, heq⟩ := hprogress
  exact (h ps hps).mono heq.symm (fun _ _ hs => hs) (fun _ hd => hd) fun nodeId hnode hP =>
    ⟨hworkers nodeId hnode hP, hP⟩

theorem OthersInFlight.quiet (h : b.OthersInFlight o P pid) (hq : b.Quiet b')
    (hworkers : ∀ nodeId ∈ b.workers, P nodeId → nodeId ∈ b'.workers) :
    b'.OthersInFlight o P pid := fun p hp hne _ hps' =>
  InFlight.quiet hq hps' hworkers (h p (hq.active p hp) hne)

theorem AllInFlight.quiet (h : b.AllInFlight o P) (hq : b.Quiet b')
    (hworkers : ∀ nodeId ∈ b.workers, P nodeId → nodeId ∈ b'.workers) : b'.AllInFlight o P :=
  fun p hp _ hps' => InFlight.quiet hq hps' hworkers (h p (hq.active p hp))

theorem AllInFlight.aside (h : b.AllInFlight o P) (ha : b.Aside b') : b'.AllInFlight o P :=
  h.quiet ha.toQuiet fun _ hnode _ => ha.workers ▸ hnode

theorem AllInFlight.admitted (h : b.AllInFlight o P) (req : PlacedPipeline) :
    OthersInFlight o P { b with
      pipelines := b.pipelines.insert req.pipelineId
        { pipelineId := req.pipelineId, pipelineType := req.pipelineType
          dag := req.dag, placement := req.placement }
      activePipelines := b.activePipelines ++ [req.pipelineId] } req.pipelineId := by
  intro p hp hne ps hps
  rw [Dict.get?_insert_of_ne _ _ hne] at hps
  exact h p ((List.mem_append.mp hp).resolve_right (by simpa using hne)) ps hps

/-- A worker that does not count may leave. -/
theorem AllInFlight.erase (kind : BrokerKind) (h : b.AllInFlight o P) {nodeId : NodeId}
    (hgone : ¬ P nodeId) :
    (onWorkerChange kind { b with workers := b.workers.erase nodeId }).AllInFlight o P := by
  refine h.quiet (RegistryUpdate.remove nodeId).quiet fun n hn hP => ?_
  have hkept : n ∈ b.workers.erase nodeId := Dict.mem_erase.mpr ⟨fun heq => hgone (heq ▸ hP), hn⟩
  cases kind <;> exact hkept

/-- What changes about one pipeline does not concern the others. -/
theorem OthersInFlight.update (h : b.OthersInFlight o P pid) (f : PipelineState → PipelineState) :
    (b.updatePipeline pid f).OthersInFlight o P pid := by
  intro p hp hne ps hps
  rw [get?_updatePipeline, if_neg hne] at hps
  exact h p hp hne ps hps

theorem OthersInFlight.any (h : b.OthersInFlight o P pid) :
    b.OthersInFlight o (fun _ => True) pid := fun p hp hne ps hps =>
  (h p hp hne ps hps).mono rfl (fun _ _ hs => hs) (fun _ hd => hd) fun _ hnode _ => ⟨hnode, trivial⟩

/-- With its own pipeline in flight. -/
theorem OthersInFlight.all (h : b.OthersInFlight o P pid)
    (hsent : ∀ p sid nodeId, p ≠ pid → o.sent p sid nodeId → o'.sent p sid nodeId)
    (hdue : ∀ p sid, p ≠ pid → o.due p sid → o'.due p sid)
    (hone : pid ∈ b.activePipelines → ∀ ps, b.pipelines.get? pid = some ps →
      b.InFlight o' P pid ps) : b.AllInFlight o' P := by
  intro p hp ps hps
  by_cases heq : p = pid
  · subst heq
    exact hone hp ps hps
  · exact (h p hp heq ps hps).mono rfl (fun sid nodeId => hsent p sid nodeId heq)
      (fun sid => hdue p sid heq) fun nodeId hnode hP => ⟨hnode, hP⟩

/-- There is nothing to show of a pipeline that does not exist. -/
theorem OthersInFlight.of_none (h : b.OthersInFlight o P pid) (hnone : b.pipelines.get? pid = none) :
    b.AllInFlight o P := by
  refine h.all (fun _ _ _ _ hs => hs) (fun _ _ _ hd => hd) fun _ ps hps => ?_
  rw [hnone] at hps
  cases hps

/-- Or without it, when it leaves. -/
theorem OthersInFlight.popped (h : b.OthersInFlight o P pid)
    (hdue : ∀ p sid, p ≠ pid → o.due p sid → o'.due p sid) (hsent : o'.sent = o.sent) :
    (b.popPipeline pid).AllInFlight o' P := by
  have hquiet := h.quiet (b.aside_popPipeline pid).toQuiet fun _ hnode _ => hnode
  refine hquiet.all (fun p sid nodeId _ hs => hsent ▸ hs) hdue fun hactive => ?_
  exact absurd hactive (by simp)

theorem OthersInFlight.failPipeline (h : b.OthersInFlight o P pid)
    (hdue : ∀ p sid, p ≠ pid → o.due p sid → o'.due p sid) (hsent : o'.sent = o.sent)
    (error : String) : (b.failPipeline pid error).AllInFlight o' P :=
  (h.update _).popped hdue hsent

end Broker

/-! ## A dispatch round -/

/-- A stage waits for nothing but to be started: all its inputs are there, or those that are
not are on dead workers and the fan-in goes on without them. -/
def PipelineState.Startable (cfg : FunnelConfig) (dead : Finset NodeId) (ps : PipelineState) :
    Prop :=
  ∃ sid ∈ ps.allStages, ps.Pending sid ∧
    (ps.InputsComplete sid ∨ cfg.mode = .proceed ∧ ps.StalledFanIn dead sid)

instance (cfg : FunnelConfig) (dead : Finset NodeId) (ps : PipelineState) :
    Decidable (ps.Startable cfg dead) :=
  inferInstanceAs (Decidable (∃ sid ∈ ps.allStages, _))

/-- A scan finds a stage to start: that one, or a fan-in that has it skipped. -/
theorem ready_ne_nil_iff (cfg : FunnelConfig) (dead : Finset NodeId) (now : ℚ) (ps : PipelineState) :
    (findReadyStages cfg dead now ps).ready ≠ [] ↔ ps.Startable cfg dead := by
  constructor
  · intro hne
    obtain ⟨sid, hready⟩ := List.exists_mem_of_ne_nil _ hne
    have hmem : ∀ pre post, ps.dag.stages.keys = pre ++ sid :: post → sid ∈ ps.allStages :=
      fun pre post hsplit => List.mem_toFinset.mpr (by simp [hsplit])
    rcases (mem_ready_iff cfg dead now ps sid).mp hready with
      ⟨⟨hpending, pre, post, hsplit, -⟩, hinputs⟩ | ⟨hmode, ⟨hpending, pre, post, hsplit, -⟩, hstalled⟩
    · exact ⟨sid, hmem pre post hsplit, hpending, .inl hinputs⟩
    · exact ⟨sid, hmem pre post hsplit, hpending, .inr ⟨hmode, hstalled⟩⟩
  · rintro ⟨sid, hmem, hpending, hstart⟩
    obtain ⟨pre, post, hsplit⟩ := List.append_of_mem (List.mem_toFinset.mp hmem)
    by_cases hskipped : sid ∈ ps.skippedAfter cfg dead pre
    · rcases (ReadyScan.mem_skippedAfter_iff cfg dead ps pre sid).mp hskipped with
        hold | ⟨fanIn, hmode, ⟨hwaiting, front, back, hfront, hkept⟩, hstalled, -⟩
      · exact absurd hold hpending.2.2
      · have hstarts : ps.StartsPartial cfg dead fanIn := by
          refine ⟨hmode, ⟨hwaiting, front, back ++ sid :: post, ?_, hkept⟩, hstalled⟩
          rw [hsplit, hfront]
          simp
        exact List.ne_nil_of_mem ((mem_ready_iff cfg dead now ps fanIn).mpr (.inr hstarts))
    · have hmeets : ps.Meets cfg dead ps.dag.stages.keys sid :=
        ⟨hpending, pre, post, hsplit, hskipped⟩
      refine List.ne_nil_of_mem ((mem_ready_iff cfg dead now ps sid).mpr ?_)
      exact hstart.imp (fun hinputs => ⟨hmeets, hinputs⟩) fun ⟨hmode, hstalled⟩ =>
        ⟨hmode, hmeets, hstalled⟩

/-- A pipeline all of whose stages so far have completed, and that has skipped none, can
go on unless it is complete. -/
theorem PipelineState.startable_of_settled (cfg : FunnelConfig) (dead : Finset NodeId)
    {ps : PipelineState} (hdag : ps.dag.WellFormed) (hskipped : ps.skippedStages = ∅)
    (hdispatched : ps.dispatchedStages ⊆ ps.completedStages)
    (hopen : ¬ ps.allStages ⊆ ps.completedStages) : ps.Startable cfg dead := by
  classical
  obtain ⟨sid, hsid, hnot⟩ := Finset.not_subset.mp hopen
  obtain ⟨first, hfirst, hsource⟩ := hdag.acyclic.exists_source
    ⟨sid, Finset.mem_sdiff.mpr ⟨hsid, hnot⟩⟩
  obtain ⟨hmem, hcompleted⟩ := Finset.mem_sdiff.mp hfirst
  refine ⟨first, hmem, ⟨hcompleted, fun hd => hcompleted (hdispatched hd), by simp [hskipped]⟩,
    .inl fun p hp => ?_⟩
  by_contra hp'
  have hpred : p ∈ ps.allStages \ ps.completedStages := by
    refine Finset.mem_sdiff.mpr ⟨?_, hp'⟩
    exact List.mem_toFinset.mpr (Dict.mem_iff_mem_keys.mp
      (hdag.predecessor_mem (hdag.mem_predecessors.mp hp)))
  exact hsource p hpred (hdag.mem_predecessors.mp hp)

/-! ## Handlers that keep every active pipeline in flight -/

open Broker

/-- Every active pipeline is in flight with workers that count. -/
abbrev UnderwayFrom (cfg : BrokerConfig) (P : NodeId → Prop) (sc : BrokerScene) : Prop :=
  sc.state.AllInFlight (underway cfg sc) P

/-- No pipeline is active with nothing in flight. -/
def NoneIdle (cfg : BrokerConfig) (sc : BrokerScene) : Prop := UnderwayFrom cfg (fun _ => True) sc

instance (cfg : BrokerConfig) (sc : BrokerScene) : Decidable (NoneIdle cfg sc) :=
  inferInstanceAs (Decidable (sc.state.AllInFlight (underway cfg sc) fun _ => True))

/-- What is left of the pipeline once the result is in: another stage is in flight, or one
can start, or nothing has been skipped and every other stage so far has completed. -/
def GoesOn (cfg : BrokerConfig) (sc : BrokerScene) (req : StageResultRequest) : Prop :=
  ∀ ps, sc.state.activePipeline? req.pipelineId = some ps → ps.failed = false → req.success = true →
    sc.state.InFlight (underway cfg sc) (fun _ => True) req.pipelineId (ps.recordResult req) ∨
      (ps.recordResult req).Startable cfg.funnel (sc.state.deadWorkers ps) ∨
      ps.skippedStages = ∅ ∧ ps.completedStages ⊆ ps.allStages ∧
        ps.dispatchedStages ⊆ insert req.stageId ps.completedStages

instance (cfg : BrokerConfig) (sc : BrokerScene) (req : StageResultRequest) :
    Decidable (GoesOn cfg sc req) :=
  inferInstanceAs (Decidable (∀ ps ∈ sc.state.activePipeline? req.pipelineId, _ → _ → _ ∨ _ ∨ _))

theorem GoesOn.start {cfg : BrokerConfig} {sc : BrokerScene} {req : StageResultRequest}
    (h : GoesOn cfg sc req) (c : Call) : GoesOn cfg (sc.start c) req := by
  intro ps hactive hfailed hsuccess
  refine (h ps hactive hfailed hsuccess).imp (fun hflight => ?_) id
  exact hflight.mono rfl (fun _ _ hs => hs.start c)
    (fun _ hd => hd.imp id fun hpeer => hpeer.start c) fun _ hnode hP => ⟨hnode, hP⟩

/-- A static broker removes the worker that a send to it has failed for. Every active
pipeline is in flight without that worker, or by the stage that is to be sent again. -/
def RetriesAll (cfg : BrokerConfig) (sc : BrokerScene) (m : WorkerMessage) : Prop :=
  ∀ c ∈ sc.started, ∀ nodeId ∈ c.registers?, c.RegistersAt cfg nodeId m →
    sc.state.AllInFlight ((underway cfg sc).sending m.key.1 m.key.2) (· ≠ nodeId)

instance (cfg : BrokerConfig) (sc : BrokerScene) (m : WorkerMessage) :
    Decidable (RetriesAll cfg sc m) :=
  inferInstanceAs (Decidable (∀ c ∈ sc.started, ∀ nodeId ∈ c.registers?, _ → _))

namespace NoneIdle

section Handlers

variable {r : Wake Broker Call WorkerMessage PyError Response} {kind : BrokerKind}
  {cfg : BrokerConfig} {P : NodeId → Prop} {sc : BrokerScene} {pid : PipelineId}

theorem of_underway (sc : BrokerScene) (h : UnderwayFrom cfg P sc) : NoneIdle cfg sc :=
  h.mono (fun _ _ _ hs => hs) (fun _ _ hd => hd) fun _ _ => trivial

theorem underway_start (h : UnderwayFrom cfg P sc) (c : Call) : UnderwayFrom cfg P (sc.start c) :=
  h.mono (fun _ _ _ hs => hs.start c) (fun _ _ hd => hd.imp id fun hpeer => hpeer.start c)
    fun _ hP => hP

/-- What was due and is taken up is about to be sent. -/
theorem takenUp (h : NoneIdle cfg sc) {pre post : List Call} {sid : StageId}
    (hp : sc.pending = pre ++ .dispatchStage pid sid :: post) :
    sc.state.AllInFlight ((underway cfg ((sc.withPending (pre ++ post)).start
      (.dispatchStage pid sid))).sending pid sid) fun _ => True := by
  refine AllInFlight.mono h (fun p s n hs => hs.start (.dispatchStage pid sid))
    (fun p s hdue => ?_) fun _ hP => hP
  rcases hdue with hpending | hpeer
  · rw [hp] at hpending
    rcases List.mem_append.mp hpending with hpre | hpost
    · exact .inr (.inl (List.mem_append_left _ hpre))
    · rcases List.mem_cons.mp hpost with heq | hpost
      · obtain ⟨rfl, rfl⟩ := Call.dispatchStage.inj heq
        exact .inl rfl
      · exact .inr (.inl (List.mem_append_right _ hpost))
  · exact .inr (.inr (hpeer.start (.dispatchStage pid sid)))

theorem carries_side {f : Broker → Broker} (h : ∀ b : Broker, SideUpdate cfg b (f b)) :
    (Co.modify f : BrokerM Unit).Carries r (NoneIdle cfg) (UnderwayFrom cfg P) :=
  Co.carries_modify fun sc hI => AllInFlight.aside hI (h sc.state).aside

theorem carries_failAndComplete (pid : PipelineId) (error : String) :
    (failAndComplete pid error).Carries r (NoneIdle cfg) (UnderwayFrom cfg P) :=
  (carries_side fun _ => .failed pid error).bind fun _ => carries_side fun _ => .reported rfl

/-- The pipeline leaves, and with it what was to be sent. -/
theorem failAndComplete_of_others {sid : StageId}
    (h : sc.state.OthersInFlight ((underway cfg sc).sending pid sid) (fun _ => True) pid)
    (error : String) : (failAndComplete pid error).wp r (NoneIdle cfg) (fun _ => NoneIdle cfg)
      (fun _ => NoneIdle cfg) sc := by
  have hleft : (sc.state.failPipeline pid error).AllInFlight (underway cfg sc) fun _ => True :=
    h.failPipeline (fun p s hp hd => hd.resolve_left fun heq => hp (Prod.mk.inj heq).1) rfl error
  exact hleft.aside (Broker.aside_completePipeline _ rfl)

/-! ### Dispatch rounds -/

/-- A round leaves its pipeline in flight if it was so before, or finds a stage to start. -/
theorem wp_dispatchReadyStages_underway
    (hjoin : ∀ sc, NoneIdle cfg sc → r.join sc → UnderwayFrom cfg P sc)
    (hothers : sc.state.OthersInFlight (underway cfg sc) P pid)
    (hone : ∀ ps, sc.state.pipelines.get? pid = some ps → pid ∈ sc.state.activePipelines →
      sc.state.InFlight (underway cfg sc) P pid ps ∨
        ps.failed = false ∧ ps.Startable cfg.funnel (sc.state.deadWorkers ps)) :
    (dispatchReadyStages cfg pid).wp r (NoneIdle cfg) (fun _ => NoneIdle cfg)
      (fun _ => UnderwayFrom cfg P) sc := by
  cases hps : sc.state.pipelines.get? pid with
  | none =>
    simpa [dispatchReadyStages, getPipeline, subscript, hps] using
      of_underway _ (hothers.of_none hps)
  | some ps =>
    have hinflight : (ps.failed = false → ¬ ps.Startable cfg.funnel (sc.state.deadWorkers ps)) →
        UnderwayFrom cfg P sc := by
      intro hnot
      refine hothers.all (fun _ _ _ _ hs => hs) (fun _ _ _ hd => hd) fun hp ps' hps' => ?_
      obtain rfl := Option.some.inj (hps.symm.trans hps')
      exact (hone ps hps hp).resolve_right fun hstart => hnot hstart.1 hstart.2
    refine wp_dispatchReadyStages hps (fun hfailed => ?_) (fun hnot result _ _ => ?_)
      (fun hnot _ hnil => ?_) fun hnot _ hready =>
        ⟨?_, fun sc' hI _ hj => ⟨hjoin sc' hI hj, fun _ => hI⟩⟩
    · exact hinflight fun hnot => by simp [hfailed] at hnot
    · have hfail := (hothers.update fun _ => (sc.state.readyScan cfg ps).ps).failPipeline
        (fun _ _ _ hd => hd) rfl (funnelError result)
      exact hfail.aside (Broker.aside_completePipeline _ rfl)
    · have hkept := hinflight fun _ hstart => (ready_ne_nil_iff ..).mpr hstart hnil
      have hscanned : SideUpdate cfg sc.state _ := .scanned hps hnot
      exact hkept.aside hscanned.aside
    · obtain ⟨first, hfirst⟩ := List.exists_mem_of_ne_nil _ hready
      have hmarked : (sc.state.markReady cfg pid ps).OthersInFlight (underway cfg sc)
          (fun _ => True) pid := ((hothers.update _).update _).any
      refine hmarked.all (fun _ _ _ _ hs => hs) (fun _ _ _ hd => hd.imp (List.mem_append_left _) id)
        fun _ ps' hps' => ?_
      rw [get?_markReady cfg _ hps, if_pos rfl] at hps'
      obtain rfl := Option.some.inj hps'
      refine ⟨first, Finset.mem_union_right _ (List.mem_toFinset.mpr hfirst), ?_, .inl (.inl ?_)⟩
      · have hcompleted : (sc.state.readyScan cfg ps).ps.completedStages = ps.completedStages :=
          (Prod.mk.inj (Prod.mk.inj (findReadyStages_frame ..).progress).2).1
        rw [hcompleted]
        exact (pending_of_mem_ready hfirst).1
      · exact List.mem_append_right _ (List.mem_map_of_mem hfirst)

theorem carries_dispatchReadyStages
    (hjoin : ∀ sc, NoneIdle cfg sc → r.join sc → UnderwayFrom cfg P sc) (pid : PipelineId) :
    (dispatchReadyStages cfg pid).Carries r (NoneIdle cfg) (UnderwayFrom cfg P) := fun _ h =>
  wp_dispatchReadyStages_underway hjoin (AllInFlight.others h pid) fun ps hps hp =>
    .inl (h pid hp ps hps)

/-! ### Recovery -/

/-- Moving stages in the placement sends nothing and takes nobody's stage away. -/
theorem carries_rehost (pid : PipelineId) (sid : StageId) (nodeId : NodeId) :
    (Co.modify (·.updatePipeline pid fun ps =>
      { ps with placement := ps.placement.insert sid nodeId }) : BrokerM Unit).Carries r
        (NoneIdle cfg) (UnderwayFrom cfg P) :=
  carries_side fun _ => .rehosted pid sid nodeId

theorem carries_staticReplan (pid : PipelineId) (stages : List StageId) :
    (StaticBroker.replan cfg pid stages).Carries r (NoneIdle cfg) (UnderwayFrom cfg P) :=
  Withstands.carries_staticReplan of_underway carries_rehost (fun sc slice h =>
    AllInFlight.aside h (SideUpdate.pickWorker cfg slice sc.state).aside) pid stages

theorem carries_neuralReplan (pid : PipelineId) (stages : List StageId) :
    (NeuralBroker.replan cfg pid stages).Carries r (NoneIdle cfg) (UnderwayFrom cfg P) :=
  Withstands.carries_neuralReplan of_underway carries_rehost pid stages

section Round

variable {replan : PipelineId → List StageId → BrokerM Bool}
  (hreplan : ∀ pid stages, (replan pid stages).Carries r (NoneIdle cfg) (UnderwayFrom cfg P))
  (hjoin : ∀ sc, NoneIdle cfg sc → r.join sc → UnderwayFrom cfg P sc)

include hreplan hjoin

theorem carries_replaceStagesOf (deadNodeId : NodeId) (pid : PipelineId) :
    (replaceStagesOf cfg replan deadNodeId pid).Carries r (NoneIdle cfg) (UnderwayFrom cfg P) := by
  refine (Withstands.carries_getPipeline of_underway pid).bind fun ps => ?_
  split
  · exact Co.carries_pure ()
  · refine Co.Carries.bind ?_ fun replaced => ?_
    · unfold replaceUnlessNone
      split
      · exact Co.carries_pure true
      · exact hreplan pid _
    · cases replaced with
      | true => exact carries_dispatchReadyStages hjoin pid
      | false => exact carries_failAndComplete pid _

/-- A worker that does not count is removed, and its stages move. -/
theorem carries_removeDeadWorker (kind : BrokerKind) {nodeId : NodeId} (hgone : ¬ P nodeId) :
    (removeDeadWorker (onWorkerChange kind) (replaceFailedStages cfg replan) nodeId).Carries r
      (NoneIdle cfg) (UnderwayFrom cfg P) := by
  refine (carries_side fun b => by exact .still rfl rfl rfl rfl rfl).bind fun _ =>
    (Co.carries_modify fun sc h => ?_).bind fun _ => (Co.carries_read _).bind fun _ =>
      Co.carries_forEach fun pid _ => carries_replaceStagesOf hreplan hjoin nodeId pid
  split
  · exact AllInFlight.erase kind h hgone
  · exact h

end Round

/-- A round in which every active pipeline is in flight with workers that survive it. -/
theorem wp_round {replan : PipelineId → List StageId → BrokerM Bool} {results : List ProbeResult}
    (hreplan : ∀ pid stages, (replan pid stages).Carries r (NoneIdle cfg)
      (UnderwayFrom cfg (SurvivesRound kind cfg results sc.state)))
    (hround : UnderwayFrom cfg (SurvivesRound kind cfg results sc.state) sc)
    (hjoin : ∀ sc', NoneIdle cfg sc' → r.join sc' →
      UnderwayFrom cfg (SurvivesRound kind cfg results sc.state) sc') :
    (Co.forEach (roundOutcome kind cfg results sc.state).1 (removeDeadWorker (onWorkerChange kind)
      (replaceFailedStages cfg replan))).wp r (NoneIdle cfg) (fun _ => NoneIdle cfg)
        (fun _ => NoneIdle cfg) (sc.withState (roundOutcome kind cfg results sc.state).2) := by
  have hprobed : UnderwayFrom cfg (SurvivesRound kind cfg results sc.state)
      (sc.withState (roundOutcome kind cfg results sc.state).2) :=
    AllInFlight.quiet hround (quiet_roundOutcome kind cfg results sc.state) fun nodeId hnode _ => by
      rw [Scene.state_withState, Dict.mem_iff_mem_keys,
        (roundOutcome_frame kind cfg results sc.state).2.2]
      exact hnode
  have hdead := Co.carries_forEach (fun nodeId hnode =>
    carries_removeDeadWorker hreplan hjoin kind fun hsurvives => hsurvives hnode) _ hprobed
  exact Co.wp_mono (fun _ _ hI => hI) (fun _ => of_underway) hdead

/-! ### Registration -/

theorem registered (h : NoneIdle cfg sc) (kind : BrokerKind) (req : RegisterRequest) (bid : ℚ) :
    NoneIdle cfg (sc.withState (onWorkerChange kind { sc.state with
      workers := sc.state.workers.insert req.nodeId (req.workerInfo bid) })) := by
  refine AllInFlight.quiet h (RegistryUpdate.register req bid).quiet fun n hn _ => ?_
  cases kind <;> exact Dict.mem_insert.mpr (.inr hn)

theorem preserves_register (kind : BrokerKind) (req : RegisterRequest) :
    (BaseBroker.register (onWorkerChange kind) req).Preserves r (NoneIdle cfg) := fun _ hI =>
  registered hI kind req 0

theorem preserves_neuralRegister (req : RegisterRequest) :
    (NeuralBroker.register req).Preserves r (NoneIdle cfg) := fun _ hI =>
  registered hI .neural req req.bidCostMs

/-- A worker leaves of which every active pipeline is independent. -/
theorem wp_deregister (kind : BrokerKind) {nodeId : NodeId} (hI : NoneIdle cfg sc)
    (hleft : nodeId ∈ sc.state.workers → UnderwayFrom cfg (· ≠ nodeId) sc) :
    (BaseBroker.deregister (onWorkerChange kind) nodeId).wp r (NoneIdle cfg)
      (fun _ => NoneIdle cfg) (fun _ => NoneIdle cfg) sc := by
  unfold BaseBroker.deregister
  rw [Co.wp_monad_bind, Co.wp_read]
  split
  · exact hI
  · next hmem =>
    exact of_underway _ (AllInFlight.erase kind (hleft (not_not.mp hmem)) (not_not.mpr rfl))

theorem wp_neuralDeregister {nodeId : NodeId} (hI : NoneIdle cfg sc)
    (hleft : nodeId ∈ sc.state.workers → UnderwayFrom cfg (· ≠ nodeId) sc) :
    (NeuralBroker.deregister nodeId).wp r (NoneIdle cfg) (fun _ => NoneIdle cfg)
      (fun _ => NoneIdle cfg) sc := by
  unfold NeuralBroker.deregister
  rw [Co.wp_monad_bind, Co.wp_read]
  split
  · exact hI
  · next hmem =>
    have hgone := AllInFlight.erase .neural (hleft (not_not.mp hmem)) (not_not.mpr rfl)
    exact of_underway _ (hgone.aside (aside_failPipelinesOn nodeId _))

/-! ### Publishing and results -/

/-- A new pipeline has a stage to start. -/
theorem wp_registerPipeline {req : PlacedPipeline} {E : PyError → BrokerScene → Prop}
    {Q : Unit → BrokerScene → Prop} (hI : NoneIdle cfg sc) (hdag : req.dag.WellFormed)
    (hne : req.dag.stages.keys ≠ [])
    (hQ : ∀ sc' : BrokerScene,
      sc'.state.OthersInFlight (underway cfg sc') (fun _ => True) req.pipelineId →
      (∀ ps, sc'.state.pipelines.get? req.pipelineId = some ps →
        ps.failed = false ∧ ∀ dead, ps.Startable cfg.funnel dead) → Q () sc') :
    (registerPipeline cfg req).wp r (NoneIdle cfg) E Q sc := by
  unfold registerPipeline
  simp only [Co.wp_monad_bind, Co.wp_modify, Co.wp_read]
  refine hQ _ (AllInFlight.admitted hI req) fun ps hps => ?_
  have hget : (sc.state.pipelines.insert req.pipelineId _).get? req.pipelineId = some ps := hps
  obtain rfl := Option.some.inj ((Dict.get?_insert_self ..).symm.trans hget)
  refine ⟨rfl, fun dead => PipelineState.startable_of_settled _ dead hdag rfl (by simp) ?_⟩
  obtain ⟨sid, hsid⟩ := List.exists_mem_of_ne_nil _ hne
  exact fun hsub => Finset.notMem_empty sid (hsub (List.mem_toFinset.mpr hsid))

theorem wp_publish {req : PlacedPipeline} (hI : NoneIdle cfg sc) (hdag : req.dag.WellFormed)
    (hne : req.dag.stages.keys ≠ []) : (BaseBroker.publish cfg req).wp r (NoneIdle cfg)
      (fun _ => NoneIdle cfg) (fun _ => NoneIdle cfg) sc := by
  unfold BaseBroker.publish
  rw [Co.wp_monad_bind]
  refine wp_registerPipeline hI hdag hne fun sc' hothers hnew => ?_
  rw [Co.wp_monad_bind]
  refine Co.wp_mono (fun _ _ h => h) (fun _ _ h => h) (wp_dispatchReadyStages_underway
    (fun _ h _ => h) hothers fun ps hps _ => .inr ⟨(hnew ps hps).1, (hnew ps hps).2 _⟩)

theorem wp_neuralPublish {req : PlacedPipeline} (hI : NoneIdle cfg sc) (hdag : req.dag.WellFormed)
    (hne : req.dag.stages.keys ≠ []) {checked : Bool × List Violation}
    (hchecked : checkFeasibility req.placement req.dag req.feasibilityTopology cfg.governance =
      .ok checked) : (NeuralBroker.publish cfg req).wp r (NoneIdle cfg)
        (fun _ => NoneIdle cfg) (fun _ => NoneIdle cfg) sc := by
  unfold NeuralBroker.publish
  rw [Co.wp_monad_bind]
  refine wp_registerPipeline hI hdag hne fun sc' hothers hnew => ?_
  rw [Co.wp_monad_bind, Co.wp_ofExcept, hchecked, Co.wp_monad_bind]
  refine Co.wp_mono (fun _ _ h => h) (fun _ _ h => h) (wp_dispatchReadyStages_underway
    (fun _ h _ => h) hothers fun ps hps _ => .inr ⟨(hnew ps hps).1, (hnew ps hps).2 _⟩)

/-- A pipeline that has not failed and is not complete goes on. -/
theorem wp_completeOrAdvance {req : StageResultRequest}
    (hothers : sc.state.OthersInFlight (underway cfg sc) (fun _ => True) req.pipelineId)
    (hone : ∀ ps, sc.state.pipelines.get? req.pipelineId = some ps → ps.failed = false →
      ps.completedStages ≠ ps.allStages →
        sc.state.InFlight (underway cfg sc) (fun _ => True) req.pipelineId ps ∨
          ps.Startable cfg.funnel (sc.state.deadWorkers ps)) :
    (completeOrAdvance cfg req).wp r (NoneIdle cfg) (fun _ => NoneIdle cfg)
      (fun _ => NoneIdle cfg) sc := by
  unfold completeOrAdvance
  cases hps : sc.state.pipelines.get? req.pipelineId with
  | none =>
    have hall : NoneIdle cfg sc := hothers.of_none hps
    simpa [getPipeline, subscript, hps] using hall
  | some ps =>
    rw [Co.wp_monad_bind, wp_getPipeline hps]
    split
    · exact OthersInFlight.popped hothers (fun _ _ _ hd => hd) rfl
    · next hfailed =>
      split
      · exact OthersInFlight.popped hothers (fun _ _ _ hd => hd) rfl
      · next hopen =>
        rw [Co.wp_monad_bind]
        refine Co.wp_mono (fun _ _ h => h) (fun _ _ h => h) (wp_dispatchReadyStages_underway
          (fun _ h _ => h) hothers fun ps' hps' _ => ?_)
        obtain rfl := Option.some.inj (hps.symm.trans hps')
        have hrunning : ps.failed = false := by simpa using hfailed
        exact (hone ps hps hrunning hopen).imp id fun hstart => ⟨hrunning, hstart⟩

/-- The recorded pipeline goes on unless it is complete. -/
theorem goesOn_recorded {req : StageResultRequest} {ps : PipelineState} (hI : NoneIdle cfg sc)
    (hknown : DispatchesKnown sc.state) (hdag : ps.dag.WellFormed) (hgoes : GoesOn cfg sc req)
    (hactive : sc.state.activePipeline? req.pipelineId = some ps)
    (hfailed : (ps.recordResult req).failed = false)
    (hopen : (ps.recordResult req).completedStages ≠ (ps.recordResult req).allStages) :
    sc.state.InFlight (underway cfg sc) (fun _ => True) req.pipelineId (ps.recordResult req) ∨
      (ps.recordResult req).Startable cfg.funnel (sc.state.deadWorkers ps) := by
  obtain ⟨hmem, hps⟩ := Withstands.active_of_activePipeline? hactive
  have hsuccess : req.success = true := by
    by_contra hnot
    simp [PipelineState.recordResult, hnot] at hfailed
  have hrecorded : ps.recordResult req =
      { ps with completedStages := insert req.stageId ps.completedStages } := if_pos hsuccess
  rw [hrecorded] at hfailed hopen
  rcases hgoes ps hactive hfailed hsuccess with hflight | hstart | ⟨hskipped, hsub, hdispatched⟩
  · exact .inl hflight
  · exact .inr hstart
  · right
    rw [hrecorded]
    refine PipelineState.startable_of_settled _ _ hdag hskipped hdispatched fun hall => hopen ?_
    -- the stage that was in flight is the one that reports
    obtain ⟨sid, hsid, hnot, -⟩ := hI req.pipelineId hmem ps hps
    obtain rfl := (Finset.mem_insert.mp (hdispatched hsid)).resolve_right hnot
    exact (Finset.insert_subset (hknown _ ps hps hsid) hsub).antisymm hall

/-- What follows once the result is recorded, and the load of its worker released. -/
theorem wp_completeRecorded {req : StageResultRequest} {ps : PipelineState} {sc' : BrokerScene}
    (hI : NoneIdle cfg sc) (hknown : DispatchesKnown sc.state) (hdag : ps.dag.WellFormed)
    (hgoes : GoesOn cfg sc req) (hactive : sc.state.activePipeline? req.pipelineId = some ps)
    (hunderway : underway cfg sc' = underway cfg sc)
    (hpipelines : sc'.state.pipelines =
      (sc.state.updatePipeline req.pipelineId (·.recordResult req)).pipelines)
    (hids : sc'.state.activePipelines = sc.state.activePipelines)
    (hkeys : sc'.state.workers.keys = sc.state.workers.keys) :
    (completeOrAdvance cfg req).wp r (NoneIdle cfg) (fun _ => NoneIdle cfg)
      (fun _ => NoneIdle cfg) sc' := by
  have hworkers : ∀ nodeId ∈ sc.state.workers, True → nodeId ∈ sc'.state.workers ∧ True := by
    intro nodeId hnode _
    rw [Dict.mem_iff_mem_keys, hkeys]
    exact ⟨hnode, trivial⟩
  apply wp_completeOrAdvance
  · intro p hp hne ps' hps'
    rw [hpipelines, get?_updatePipeline, if_neg hne] at hps'
    rw [hunderway]
    exact (hI p (hids ▸ hp) ps' hps').mono rfl (fun _ _ hs => hs) (fun _ hd => hd) hworkers
  · intro ps' hps' hfailed hopen
    rw [hpipelines, get?_updatePipeline, if_pos rfl,
      (Withstands.active_of_activePipeline? hactive).2] at hps'
    obtain rfl : ps.recordResult req = ps' := Option.some.inj hps'
    have hdead : sc'.state.deadWorkers (ps.recordResult req) = sc.state.deadWorkers ps := by
      have hplacement : (ps.recordResult req).placement = ps.placement := by
        unfold PipelineState.recordResult
        split <;> rfl
      rw [Broker.deadWorkers, hplacement, hkeys]
      rfl
    rw [hunderway, hdead]
    refine (goesOn_recorded hI hknown hdag hgoes hactive hfailed hopen).imp (fun hflight => ?_) id
    exact hflight.mono rfl (fun _ _ hs => hs) (fun _ hd => hd) hworkers

theorem wp_handleResult {req : StageResultRequest} (hI : NoneIdle cfg sc)
    (hknown : DispatchesKnown sc.state)
    (hdags : ∀ pid ps, sc.state.pipelines.get? pid = some ps → ps.dag.WellFormed)
    (hgoes : GoesOn cfg sc req) : (BaseBroker.handleResult cfg req).wp r (NoneIdle cfg)
      (fun _ => NoneIdle cfg) (fun _ => NoneIdle cfg) sc := by
  unfold BaseBroker.handleResult
  simp only [Co.wp_monad_bind, Co.wp_read, Co.wp_modify]
  cases hactive : (sc.state.record (stageRecord req .stageResultReceived sc.state.clock
      "unknown")).activePipeline? req.pipelineId with
  | none =>
    simp only [Scene.state_withState, hactive]
    exact hI
  | some ps =>
    simp only [Scene.state_withState, hactive, Co.wp_monad_bind, Co.wp_modify]
    have hps := (Withstands.active_of_activePipeline? hactive).2
    exact wp_completeRecorded hI hknown (hdags _ ps hps) hgoes hactive rfl rfl rfl rfl

theorem wp_neuralResult {req : StageResultRequest} (hI : NoneIdle cfg sc)
    (hknown : DispatchesKnown sc.state)
    (hdags : ∀ pid ps, sc.state.pipelines.get? pid = some ps → ps.dag.WellFormed)
    (hgoes : GoesOn cfg sc req) : (NeuralBroker.result cfg req).wp r (NoneIdle cfg)
      (fun _ => NoneIdle cfg) (fun _ => NoneIdle cfg) sc := by
  unfold NeuralBroker.result
  simp only [Co.wp_monad_bind, Co.wp_read, Co.wp_modify]
  cases hactive : (sc.state.record (stageRecord req .stageResultReceived sc.state.clock
      "__pending__")).activePipeline? req.pipelineId with
  | none =>
    simp only [Scene.state_withState, hactive]
    exact hI
  | some ps =>
    simp only [Scene.state_withState, hactive, Co.wp_monad_bind, Co.wp_modify, Co.wp_ofExcept]
    have hps : sc.state.pipelines.get? req.pipelineId = some ps :=
      (Withstands.active_of_activePipeline? hactive).2
    cases hstage : ps.dag.getStage req.stageId with
    | ok stage =>
      refine wp_completeRecorded hI hknown (hdags _ ps hps) hgoes hactive rfl ?_ ?_ ?_
      · exact NeuralBroker.pipelines_updateWorkerLoad ..
      · exact NeuralBroker.activePipelines_updateWorkerLoad ..
      · exact NeuralBroker.keys_updateWorkerLoad ..
    | error e =>
      -- no stage of the pipeline has been completed, and so what was in flight is
      have hunknown : req.stageId ∉ ps.allStages := getStage_error_iff.mp ⟨e, hstage⟩
      have hrecorded : (sc.state.updatePipeline req.pipelineId (·.recordResult req)).AllInFlight
          (underway cfg sc) fun _ => True := by
        refine ((AllInFlight.others hI req.pipelineId).update _).all (fun _ _ _ _ hs => hs)
          (fun _ _ _ hd => hd) fun hp ps' hps' => ?_
        rw [get?_updatePipeline, if_pos rfl, hps] at hps'
        obtain rfl : ps.recordResult req = ps' := Option.some.inj hps'
        obtain ⟨sid, hsid, hopen, hunderway⟩ := hI req.pipelineId hp ps hps
        have hne : sid ≠ req.stageId := fun heq => hunknown (heq ▸ hknown _ ps hps hsid)
        unfold PipelineState.recordResult
        split
        · refine ⟨sid, hsid, fun hcompleted => ?_, hunderway⟩
          exact (Finset.mem_insert.mp hcompleted).elim hne hopen
        · exact ⟨sid, hsid, hopen, hunderway⟩
      exact hrecorded

/-! ### Dispatch -/

theorem aboutToSend {sid : StageId} (h : NoneIdle cfg sc) :
    sc.state.AllInFlight ((underway cfg sc).sending pid sid) fun _ => True :=
  AllInFlight.mono h (fun _ _ _ hs => hs) (fun _ _ hd => .inr hd) fun _ hP => hP

/-- Nobody is idle once the stage that is about to be sent is sent. -/
theorem of_emit {sid : StageId} {nodeId : NodeId} {url : String} {b : Broker}
    {payload : ExecuteRequest} (hkey : (payload.pipelineId, payload.stageId) = (pid, sid))
    (hI : sc.state.AllInFlight ((underway cfg sc).sending pid sid) fun _ => True)
    (hreached : Reached sc nodeId url) (hpipelines : b.pipelines = sc.state.pipelines)
    (hactive : b.activePipelines = sc.state.activePipelines)
    (hworkers : ∀ n ∈ sc.state.workers, n ∈ b.workers) :
    NoneIdle cfg ((sc.withState b).emit (workerMessage cfg nodeId url payload)) := by
  obtain ⟨rfl, rfl⟩ := Prod.mk.inj hkey
  intro p hp ps hps
  rw [Scene.state_emit, Scene.state_withState, hactive] at hp
  rw [Scene.state_emit, Scene.state_withState, hpipelines] at hps
  obtain ⟨x, hdispatched, hopen, hunderway⟩ := hI p hp ps hps
  refine ⟨x, hdispatched, hopen, ?_⟩
  by_cases heq : (p, x) = (payload.pipelineId, payload.stageId)
  · obtain ⟨rfl, rfl⟩ := Prod.mk.inj heq
    rcases hreached with ⟨worker, hworker, rfl, henlisted⟩ | ⟨urls, hcall, hurl⟩
    · exact .inr ⟨nodeId, hworkers nodeId (Dict.mem_of_get?_eq_some hworker), trivial,
        @sentTo_emit cfg (sc.withState b) nodeId worker henlisted payload⟩
    · exact .inl (.inr (@sentToPeer_emit cfg (sc.withState b) nodeId url urls hcall hurl payload))
  · have hne : (workerMessage cfg nodeId url payload).key ≠ (p, x) := by
      rw [WorkerMessage.key, payload_workerMessage]
      exact Ne.symm heq
    rcases hunderway with hdue | ⟨n, hn, -, hsent⟩
    · exact .inl ((hdue.resolve_left heq).imp id fun hpeer =>
        @SentToPeer.emit cfg (sc.withState b) p x hpeer _ hne)
    · exact .inr ⟨n, hworkers n hn, trivial, @SentTo.emit cfg (sc.withState b) p x n hsent _ hne⟩

/-- The stage about to be sent is none that anybody waits for. -/
theorem of_not_dispatched {sid : StageId}
    (hI : sc.state.AllInFlight ((underway cfg sc).sending pid sid) fun _ => True)
    (hnot : ∀ ps, sc.state.pipelines.get? pid = some ps → sid ∉ ps.dispatchedStages) :
    NoneIdle cfg sc := by
  intro p hp ps hps
  obtain ⟨x, hdispatched, hopen, hunderway⟩ := hI p hp ps hps
  refine ⟨x, hdispatched, hopen, hunderway.imp (fun hdue => hdue.resolve_left fun heq => ?_) id⟩
  obtain ⟨rfl, rfl⟩ := Prod.mk.inj heq
  exact hnot ps hps hdispatched

/-- The head of a dispatch, which finds the host of the stage. -/
theorem wp_placed {sid : StageId} {f : PipelineState → NodeId → BrokerM Unit}
    (hI : sc.state.AllInFlight ((underway cfg sc).sending pid sid) fun _ => True)
    (hknown : DispatchesKnown sc.state) (hplaced : sc.state.PlacedInFull)
    (hf : ∀ ps nodeId, sc.state.pipelines.get? pid = some ps → ps.placement.get? sid = some nodeId →
      (∀ e, ps.dag.getStage sid = .error e → NoneIdle cfg sc) →
      (f ps nodeId).wp r (NoneIdle cfg) (fun _ => NoneIdle cfg) (fun _ => NoneIdle cfg) sc) :
    (do
      let ps ← getPipeline pid
      let nodeId ← Co.ofExcept (subscript ps.placement sid)
      f ps nodeId).wp r (NoneIdle cfg) (fun _ => NoneIdle cfg) (fun _ => NoneIdle cfg) sc := by
  cases hps : sc.state.pipelines.get? pid with
  | none =>
    have hidle : NoneIdle cfg sc := of_not_dispatched hI fun ps hps' => by
      rw [hps] at hps'
      cases hps'
    simpa [getPipeline, subscript, hps] using hidle
  | some ps =>
    have hidle : sid ∉ ps.allStages → NoneIdle cfg sc := by
      intro hunknown
      refine of_not_dispatched hI fun ps' hps' hdispatched => ?_
      obtain rfl := Option.some.inj (hps.symm.trans hps')
      exact hunknown (hknown pid ps hps hdispatched)
    rw [Co.wp_monad_bind, wp_getPipeline hps, Co.wp_monad_bind, Co.wp_ofExcept]
    cases hhost : ps.placement.get? sid with
    | none =>
      simp only [subscript, hhost]
      refine hidle fun hmem => ?_
      obtain ⟨nodeId, hget⟩ := Dict.exists_get?_of_mem (hplaced pid ps hps sid hmem)
      rw [hget] at hhost
      cases hhost
    | some nodeId =>
      simp only [subscript, hhost]
      exact hf ps nodeId hps hhost fun e herror => hidle (getStage_error_iff.mp ⟨e, herror⟩)

theorem wp_baseDispatchStage {sid : StageId} (hscheduled : Scheduled sc pid sid)
    (hplaced : sc.state.PlacedInFull)
    (hI : sc.state.AllInFlight ((underway cfg sc).sending pid sid) fun _ => True) :
    (BaseBroker.dispatchStage cfg pid sid).wp r (NoneIdle cfg) (fun _ => NoneIdle cfg)
      (fun _ => NoneIdle cfg) sc := by
  unfold BaseBroker.dispatchStage
  refine wp_placed hI hscheduled.known hplaced fun ps nodeId hps _ hunknown => ?_
  rw [Co.wp_monad_bind, Co.wp_read]
  cases hworker : sc.state.workers.get? nodeId with
  | none => exact failAndComplete_of_others (hI.others pid) _
  | some worker =>
    simp only [Co.wp_monad_bind, Co.wp_ofExcept, Co.wp_read, Co.wp_modify]
    cases hstage : ps.dag.getStage sid with
    | error e => exact hunknown e hstage
    | ok stage =>
      simp only [Co.wp_request]
      refine ⟨?_, fun reply sc' hI' _ _ => ?_⟩
      · refine of_emit (congrArg (·, sid) (hscheduled.named pid ps hps)) hI
          (.inl ⟨worker, hworker, rfl, hscheduled.enlisted nodeId worker hworker⟩) rfl rfl
          fun _ hn => hn
      · cases reply with
        | ok u => exact hI'
        | error exc => exact carries_failAndComplete pid _ sc' hI'

/-- The pipeline is given up after a retry has failed. -/
theorem wp_exhausted {sid : StageId}
    (hothers : sc.state.OthersInFlight ((underway cfg sc).sending pid sid) (fun _ => True) pid)
    (error : String) : (dispatchExhausted pid error).wp r (NoneIdle cfg) (fun _ => NoneIdle cfg)
      (fun _ => NoneIdle cfg) sc :=
  hothers.failPipeline (fun _ _ hp hd => hd.resolve_left fun heq => hp (Prod.mk.inj heq).1) rfl
    error

/-- A static retry picks a worker for the stage, or finds none. -/
theorem wp_staticReplanOne {sid : StageId} {Q : Bool → BrokerScene → Prop}
    (hI : sc.state.AllInFlight ((underway cfg sc).sending pid sid) fun _ => True)
    (hknown : DispatchesKnown sc.state) (hfalse : Q false sc)
    (htrue : ∀ b ps nodeId, sc.state.Aside b → b.pipelines.get? pid = some ps →
      ps.placement.get? sid = some nodeId → Q true (sc.withState b)) :
    (StaticBroker.replan cfg pid [sid]).wp r (NoneIdle cfg) (fun _ => NoneIdle cfg) Q sc := by
  unfold StaticBroker.replan
  rw [Co.wp_monad_bind, Co.wp_read]
  split
  · exact hfalse
  · unfold StaticBroker.replaceAll StaticBroker.replaceStage
    cases hps : sc.state.pipelines.get? pid with
    | none =>
      have hidle : NoneIdle cfg sc := of_not_dispatched hI fun ps hps' => by
        rw [hps] at hps'
        cases hps'
      simpa [getPipeline, subscript, hps] using hidle
    | some ps =>
      rw [Co.wp_monad_bind, Co.wp_monad_bind, wp_getPipeline hps, Co.wp_monad_bind, Co.wp_ofExcept]
      cases hstage : ps.dag.getStage sid with
      | error e =>
        refine of_not_dispatched hI fun ps' hps' hdispatched => ?_
        obtain rfl := Option.some.inj (hps.symm.trans hps')
        exact getStage_error_iff.mp ⟨e, hstage⟩ (hknown pid ps hps hdispatched)
      | ok stage =>
        simp only [Co.wp_monad_bind, Co.wp_update]
        have hpicked := (SideUpdate.pickWorker cfg stage.sliceRequirement sc.state).aside
        cases hpick : StaticBroker.pickWorker cfg stage.sliceRequirement sc.state with
        | mk picked b =>
          rw [hpick] at hpicked
          cases picked with
          | error e =>
            obtain ⟨rfl, msg, rfl⟩ := Follows.pickWorker_of_error hpick
            exact hfalse
          | ok nodeId =>
            have hchosen : Chosen cfg sc.state ps.dag sid nodeId b .static := ⟨stage, hstage, hpick⟩
            have hmoved : SideUpdate cfg b (b.updatePipeline pid fun ps =>
              { ps with placement := ps.placement.insert sid nodeId }) := .rehosted pid sid nodeId
            have hget : (b.updatePipeline pid fun ps =>
                { ps with placement := ps.placement.insert sid nodeId }).pipelines.get? pid =
                  some { ps with placement := ps.placement.insert sid nodeId } := by
              rw [get?_updatePipeline, if_pos rfl, hchosen.frame.1, hps]
              rfl
            exact htrue _ _ nodeId (hpicked.trans hmoved.aside) hget (Dict.get?_insert_self ..)

/-- The stage goes to its new host, if that is registered. -/
theorem wp_resend {sid : StageId} {payload : ExecuteRequest} {exhausted : BrokerM Unit}
    (hkey : (payload.pipelineId, payload.stageId) = (pid, sid))
    (hI : sc.state.AllInFlight ((underway cfg sc).sending pid sid) fun _ => True)
    (henlisted : AllEnlisted sc)
    (hlost : (∀ ps, sc.state.pipelines.get? pid = some ps → ps.placement.get? sid = none) →
      NoneIdle cfg sc)
    (hexhausted : ∀ sc' : BrokerScene, sc'.state.OthersInFlight ((underway cfg sc').sending pid sid)
      (fun _ => True) pid → exhausted.wp r (NoneIdle cfg) (fun _ => NoneIdle cfg)
        (fun _ => NoneIdle cfg) sc') :
    (do
      let ps ← getPipeline pid
      let newNodeId ← Co.ofExcept (subscript ps.placement sid)
      match ← Co.read (·.workers.get? newNodeId) with
      | none => exhausted
      | some newWorker =>
        match ← Co.request (workerMessage cfg newNodeId newWorker.url payload) with
        | .ok () => return ()
        | .error _ => exhausted : BrokerM Unit).wp r (NoneIdle cfg) (fun _ => NoneIdle cfg)
          (fun _ => NoneIdle cfg) sc := by
  cases hps : sc.state.pipelines.get? pid with
  | none =>
    have hidle := hlost fun ps hps' => by
      rw [hps] at hps'
      cases hps'
    simpa [getPipeline, subscript, hps] using hidle
  | some ps =>
    rw [Co.wp_monad_bind, wp_getPipeline hps, Co.wp_monad_bind, Co.wp_ofExcept]
    cases hhost : ps.placement.get? sid with
    | none =>
      simp only [subscript, hhost]
      exact hlost fun ps' hps' => Option.some.inj (hps.symm.trans hps') ▸ hhost
    | some newNodeId =>
      simp only [subscript, hhost, Co.wp_monad_bind, Co.wp_read]
      cases hworker : sc.state.workers.get? newNodeId with
      | none => exact hexhausted sc (hI.others pid)
      | some newWorker =>
        simp only [Co.wp_monad_bind, Co.wp_request]
        refine ⟨?_, fun reply sc' hI' _ _ => ?_⟩
        · exact of_emit hkey hI
            (.inl ⟨newWorker, hworker, rfl, henlisted newNodeId newWorker hworker⟩) rfl rfl
            fun _ hn => hn
        · cases reply with
          | ok u => exact hI'
          | error e => exact hexhausted sc' (hI'.aboutToSend.others pid)

theorem wp_staticRedispatch {sid : StageId} {nodeId : NodeId} {payload : ExecuteRequest}
    (hkey : (payload.pipelineId, payload.stageId) = (pid, sid))
    (hI : sc.state.AllInFlight ((underway cfg sc).sending pid sid) (· ≠ nodeId))
    (hknown : DispatchesKnown sc.state) (henlisted : AllEnlisted sc) :
    (StaticBroker.redispatch cfg pid sid nodeId payload).wp r (NoneIdle cfg)
      (fun _ => NoneIdle cfg) (fun _ => NoneIdle cfg) sc := by
  have hevicted : (StaticBroker.evict nodeId sc.state).AllInFlight
      ((underway cfg sc).sending pid sid) fun _ => True := by
    have hgone : (StaticBroker.evict nodeId sc.state).AllInFlight
        ((underway cfg sc).sending pid sid) (· ≠ nodeId) := by
      unfold StaticBroker.evict
      split
      · exact AllInFlight.erase .static hI (not_not.mpr rfl)
      · exact hI
    exact hgone.mono (fun _ _ _ hs => hs) (fun _ _ hd => hd) fun _ _ => trivial
  have hpipelines : (StaticBroker.evict nodeId sc.state).pipelines = sc.state.pipelines := by
    unfold StaticBroker.evict
    split <;> rfl
  have hleft : ∀ n worker, (StaticBroker.evict nodeId sc.state).workers.get? n = some worker →
      sc.state.workers.get? n = some worker := by
    intro n worker hget
    unfold StaticBroker.evict at hget
    split at hget
    · have herased : (sc.state.workers.erase nodeId).get? n = some worker := hget
      rw [Dict.get?_erase] at herased
      split at herased
      · cases herased
      · exact herased
    · exact hget
  unfold StaticBroker.redispatch
  rw [Co.wp_monad_bind, Co.wp_modify, Co.wp_monad_bind]
  refine @wp_staticReplanOne r cfg (sc.withState _) pid sid _ hevicted ?_ ?_
    fun b ps newNodeId haside hps hhost => ?_
  · intro p ps hps
    exact hknown p ps (hpipelines ▸ hps)
  · exact wp_exhausted (hevicted.others pid) _
  · refine wp_resend hkey (hevicted.aside haside) (fun n worker hget => ?_) (fun hlost => ?_)
      fun sc' hothers => wp_exhausted hothers _
    · rw [Scene.state_withState, haside.workers] at hget
      exact henlisted n worker (hleft n worker hget)
    · rw [hlost ps hps] at hhost
      cases hhost

theorem wp_staticDispatchStage {sid : StageId}
    (hreply : ∀ sc m e, r.reply sc m (.error e) → AllEnlisted sc ∧ DispatchesKnown sc.state ∧
      RetriesAll cfg sc m)
    (hscheduled : Scheduled sc pid sid) (hplaced : sc.state.PlacedInFull)
    (hI : sc.state.AllInFlight ((underway cfg sc).sending pid sid) fun _ => True) :
    (StaticBroker.dispatchStage cfg pid sid).wp r (NoneIdle cfg) (fun _ => NoneIdle cfg)
      (fun _ => NoneIdle cfg) sc := by
  unfold StaticBroker.dispatchStage
  refine wp_placed hI hscheduled.known hplaced fun ps nodeId hps _ hunknown => ?_
  rw [Co.wp_monad_bind, Co.wp_read]
  cases hworker : sc.state.workers.get? nodeId with
  | none => exact failAndComplete_of_others (hI.others pid) _
  | some worker =>
    simp only [Co.wp_monad_bind, Co.wp_ofExcept, Co.wp_read, Co.wp_modify]
    cases hstage : ps.dag.getStage sid with
    | error e => exact hunknown e hstage
    | ok stage =>
      have henlisted := hscheduled.enlisted nodeId worker hworker
      have hkey : ((executeRequest cfg ps sid stage none).pipelineId,
          (executeRequest cfg ps sid stage none).stageId) = (pid, sid) :=
        congrArg (·, sid) (hscheduled.named pid ps hps)
      simp only [Co.wp_request]
      refine ⟨of_emit hkey hI (.inl ⟨worker, hworker, rfl, henlisted⟩) rfl rfl fun _ hn => hn, ?_⟩
      intro reply sc' hI' hbefore hr
      cases reply with
      | ok u => exact hI'
      | error exc =>
        obtain ⟨hall, hknown, hretries⟩ := hreply _ _ _ hr
        obtain ⟨-, req, hcall, hid, -, -, hurl⟩ := henlisted
        have hwithout := hretries (.register req) (hbefore.started.subset hcall) nodeId (hid ▸ rfl)
          ⟨hid, by rw [payload_workerMessage, hurl]⟩
        rw [WorkerMessage.key, payload_workerMessage, hkey] at hwithout
        exact wp_staticRedispatch hkey hwithout hknown hall

theorem wp_neuralRedispatch {sid : StageId} {payload : ExecuteRequest}
    (hkey : (payload.pipelineId, payload.stageId) = (pid, sid)) (hI : NoneIdle cfg sc)
    (henlisted : AllEnlisted sc) (nodeId : NodeId) (stage : Stage) (exc : PyError) :
    (NeuralBroker.redispatch cfg pid sid nodeId stage payload exc).wp r (NoneIdle cfg)
      (fun _ => NoneIdle cfg) (fun _ => NoneIdle cfg) sc := by
  have hexhausted : ∀ error (sc' : BrokerScene),
      sc'.state.OthersInFlight ((underway cfg sc').sending pid sid) (fun _ => True) pid →
        (do
          Co.modify (NeuralBroker.updateWorkerLoad nodeId (-stage.computationalDemand))
          dispatchExhausted pid error : BrokerM Unit).wp r (NoneIdle cfg) (fun _ => NoneIdle cfg)
            (fun _ => NoneIdle cfg) sc' := by
    intro error sc' hothers
    rw [Co.wp_monad_bind, Co.wp_modify]
    have hquiet := RegistryUpdate.quiet
      (.load nodeId (-stage.computationalDemand) rfl : RegistryUpdate .neural sc'.state _)
    have hreleased := hothers.quiet hquiet fun n hn _ =>
      (NeuralBroker.mem_workers_updateWorkerLoad ..).mpr hn
    exact wp_exhausted hreleased error
  have hreplan : (NeuralBroker.replan cfg pid [sid]).Carries r (NoneIdle cfg) fun sc =>
      NoneIdle cfg sc ∧ AllEnlisted sc := by
    refine Withstands.carries_neuralReplan (fun _ h => h.1) (fun p s n => ?_) pid [sid]
    refine Co.carries_modify fun sc' h => ⟨AllInFlight.aside h.1 ?_, h.2⟩
    exact (SideUpdate.rehosted p s n : SideUpdate cfg sc'.state _).aside
  unfold NeuralBroker.redispatch
  rw [Co.wp_monad_bind, Co.wp_modify, Co.wp_monad_bind]
  refine Co.wp_mono (fun _ _ h => h) ?_ (hreplan _ ⟨hI, henlisted⟩)
  rintro replaced sc' ⟨hI', hall⟩
  cases replaced with
  | false => exact hexhausted _ sc' (hI'.aboutToSend.others pid)
  | true => exact wp_resend hkey hI'.aboutToSend hall (fun _ => hI') (hexhausted _)

theorem wp_neuralDispatchStage {sid : StageId}
    (hreply : ∀ sc m e, r.reply sc m e → AllEnlisted sc) (hscheduled : Scheduled sc pid sid)
    (hplaced : sc.state.PlacedInFull)
    (hpeers : ∀ nodeId url, sc.state.shardedPeerWorkerUrls.get? nodeId = some url →
      ∃ urls, Call.cachePeerWorkers urls ∈ sc.started ∧ urls.get? nodeId = some url)
    (hI : sc.state.AllInFlight ((underway cfg sc).sending pid sid) fun _ => True) :
    (NeuralBroker.dispatchStage cfg pid sid).wp r (NoneIdle cfg) (fun _ => NoneIdle cfg)
      (fun _ => NoneIdle cfg) sc := by
  unfold NeuralBroker.dispatchStage
  refine wp_placed hI hscheduled.known hplaced fun ps nodeId hps _ hunknown => ?_
  rw [Co.wp_monad_bind, Co.wp_read]
  split
  · exact wp_exhausted (hI.others pid) _
  · next url peerDispatch hurl =>
    simp only [Co.wp_monad_bind, Co.wp_ofExcept, Co.wp_read, Co.wp_modify]
    cases hstage : ps.dag.getStage sid with
    | error e => exact hunknown e hstage
    | ok stage =>
      have hkey : ∀ resultUrl, ((executeRequest cfg ps sid stage resultUrl).pipelineId,
          (executeRequest cfg ps sid stage resultUrl).stageId) = (pid, sid) := fun _ =>
        congrArg (·, sid) (hscheduled.named pid ps hps)
      have hreached : Reached sc nodeId url := by
        rw [NeuralBroker.dispatchUrl] at hurl
        split at hurl
        · next worker hworker =>
          exact .inl ⟨worker, hworker, (Prod.mk.inj (Option.some.inj hurl)).1,
            hscheduled.enlisted nodeId worker hworker⟩
        · obtain ⟨url', hget, heq⟩ := Option.map_eq_some_iff.mp hurl
          obtain ⟨rfl, -⟩ := Prod.mk.inj heq
          exact .inr (hpeers nodeId url' hget)
      simp only [Co.wp_request]
      refine ⟨?_, fun reply sc' hI' _ hr => ?_⟩
      · exact of_emit (hkey _) (b := NeuralBroker.updateWorkerLoad nodeId stage.computationalDemand
          (sc.state.record (dispatchRecord ps sid nodeId sc.state.clock))) hI hreached (by simp)
          (by simp) fun n hn => (NeuralBroker.mem_workers_updateWorkerLoad ..).mpr hn
      · cases reply with
        | ok u => exact hI'
        | error exc => exact wp_neuralRedispatch (hkey _) hI' (hreply _ _ _ hr) nodeId stage exc

end Handlers
end NoneIdle

/-! ## Placements -/

section Placements

variable {kind : BrokerKind} {cfg : BrokerConfig} {sc sc' : BrokerScene}

/-- The request places every stage. -/
def PlacedPipeline.PlacesAll (req : PlacedPipeline) : Prop :=
  ∀ sid ∈ req.dag.stages.keys, sid ∈ req.placement

/-- A stage never loses its host. -/
theorem BrokerStep.placedInFull (hstep : BrokerStep kind cfg sc sc') (h : sc.state.PlacedInFull)
    (hcalls : ∀ req, Call.publish req ∈ sc.started → req.PlacesAll) : sc'.state.PlacedInFull := by
  rcases hstep.plan_cases with ⟨req, call, hstate⟩ |
    ⟨pid, ps, sid, nodeId, b, found, chosen, hstate⟩ | hplans
  · intro pid ps hps
    rw [hstate, Broker.enrol, Broker.pipelines_record, Broker.pipelines_record,
      Dict.get?_insert] at hps
    split at hps
    · obtain rfl := Option.some.inj hps
      exact fun sid hsid => hcalls req call sid (List.mem_toFinset.mp hsid)
    · exact h pid ps hps
  · intro pid' ps' hps'
    rw [hstate, Broker.get?_updatePipeline, chosen.frame.1] at hps'
    split at hps'
    · next heq =>
      subst heq
      rw [found] at hps'
      obtain rfl := Option.some.inj hps'
      exact fun sid' hsid' => Dict.mem_insert.mpr (.inr (h _ ps found sid' hsid'))
    · exact h pid' ps' hps'
  · intro pid ps' hps'
    obtain ⟨ps, hps, heq⟩ := hplans.found hps'
    obtain ⟨hdag, hplacement⟩ := Prod.mk.inj heq
    rw [PipelineState.allStages, hdag, hplacement]
    exact h pid ps hps

theorem BrokerRun.placedInFull (hrun : BrokerRun kind cfg sc sc') (h : sc.state.PlacedInFull)
    (hcalls : ∀ req, Call.publish req ∈ sc'.started → req.PlacesAll) : sc'.state.PlacedInFull := by
  induction hrun with
  | refl => exact h
  | tail _ hstep ih =>
    have hearlier := fun req hcall => hcalls req (hstep.before.started.subset hcall)
    exact hstep.placedInFull (ih hearlier) hearlier

end Placements
end NeuralPubSub
