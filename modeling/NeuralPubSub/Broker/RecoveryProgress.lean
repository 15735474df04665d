-- SUMMARY: When the recovery from a dead worker sends the stages that can run to their new workers.
import NeuralPubSub.Broker.FailedPipelines
import NeuralPubSub.Broker.Replacement

open Base

/-!
# Progress of a recovery

Once the stages of a dead worker have new hosts, `_replace_failed_stages` leaves it
to a dispatch round to send them. The round takes the stages that it has not sent
before.
-/

namespace NeuralPubSub
namespace NeuralBroker

/-! ## One pipeline of a recovery -/

/-- A scheduled call, run to its end where its sends succeed. -/
def runCall (cfg : BrokerConfig) (c : Call) (b : Broker) :
    Outcome Broker WorkerMessage PyError Response :=
  (body cfg c).unhindered (fun _ b => { result := .ok Response.none, state := b }) b

/-- What `_replace_failed_stages` does to one pipeline where its sends succeed. -/
def recoverPipeline (cfg : BrokerConfig) (deadNodeId : NodeId) (pid : PipelineId) (b : Broker) :
    Outcome Broker WorkerMessage PyError Unit :=
  (replaceStagesOf cfg (replan cfg) deadNodeId pid).unhindered (runCall cfg) b

/-- The re-placement of the pipeline succeeds. -/
def Replaces (cfg : BrokerConfig) (deadNodeId : NodeId) (pid : PipelineId) (ps : PipelineState)
    (b : Broker) : Prop :=
  ((replaceUnlessNone (replan cfg) pid (stagesToReplace cfg ps deadNodeId)).alone ⟨b, [], []⟩).1 =
    some (.ok true)

/-- The stage is on the dead worker, is to be done and could run. -/
def Runnable (ps : PipelineState) (deadNodeId : NodeId) (sid : StageId) : Prop :=
  sid ∈ ps.allStages ∧ sid ∈ ps.incompleteOn deadNodeId ∧ ps.InputsComplete sid

/-- The stage has been sent to the registered worker that the pipeline has it on. -/
def SentToHost (cfg : BrokerConfig) (pid : PipelineId) (ps : PipelineState) (b : Broker)
    (o : Outcome Broker WorkerMessage PyError Unit) (sid : StageId) : Prop :=
  ∃ ps' nodeId worker payload, o.state.pipelines.get? pid = some ps' ∧
    ps'.placement.get? sid = some nodeId ∧ b.workers.get? nodeId = some worker ∧
      workerMessage cfg nodeId worker.url payload ∈ o.sent ∧
        payload.pipelineId = ps.pipelineId ∧ payload.stageId = sid

/-- The recovery sends every stage that could run to its new worker. -/
def SendsRunnable (cfg : BrokerConfig) (deadNodeId : NodeId) (pid : PipelineId) (ps : PipelineState)
    (b : Broker) : Prop :=
  ∀ sid, Runnable ps deadNodeId sid →
    SentToHost cfg pid ps b (recoverPipeline cfg deadNodeId pid b) sid

/-- The funnel policy gives up on a fan-in that waits for yet another dead worker. -/
def FunnelStops (cfg : BrokerConfig) (deadNodeId : NodeId) (ps : PipelineState) (b : Broker) :
    Prop :=
  ps.FunnelFails cfg.funnel b.clock ∧ ∃ sid ∈ ps.dag.stages.keys,
    ps.Pending sid ∧ ps.StalledFanIn ((b.deadWorkers ps).erase deadNodeId) sid

/-! ## The merged placement -/

section Merge

variable {cfg : BrokerConfig} {b : Broker} {pid : PipelineId} {stages : List StageId}

/-- A re-placement changes the pipelines only. -/
theorem replan_frame {out : Except PyError Bool} {s' : Solo Broker WorkerMessage PyError}
    (h : (replan cfg pid stages).alone ⟨b, [], []⟩ = (some out, s')) :
    s'.state.workers = b.workers ∧ s'.state.clock = b.clock := by
  let wake : Wake Broker Call WorkerMessage PyError Response := ⟨fun _ _ _ => True, fun _ => True⟩
  let Same : BrokerScene → Prop := fun sc =>
    sc.state.workers = b.workers ∧ sc.state.clock = b.clock
  have hkeeps : (replan cfg pid stages).Preserves wake Same :=
    Withstands.carries_neuralReplan (fun _ h => h)
      (fun _ _ _ => Co.preserves_modify fun _ hsame => hsame) pid stages
  let begun : BrokerScene := { state := b }
  have hend : Same (begun.withState s'.state) := hkeeps.of_alone ⟨rfl, rfl⟩ h
  exact hend

/-- The placement has new, registered hosts for the stages of the dead worker, and the
old hosts for the others. -/
structure Moved (ps : PipelineState) (deadNodeId : NodeId) (b : Broker) (p' : Placement) :
    Prop where
  moved : ∀ sid ∈ ps.incompleteOn deadNodeId, ∃ nodeId ∈ b.workers, p'.get? sid = some nodeId
  kept : ∀ sid, sid ∉ ps.incompleteOn deadNodeId → p'.get? sid = ps.placement.get? sid

/-- What a re-placement that succeeds leaves behind. -/
theorem Replaces.moved {ps : PipelineState} {deadNodeId : NodeId}
    (h : Replaces cfg deadNodeId pid ps b) (hmirrored : Mirrored b) (hc : b.topology.Complete)
    (hps : b.pipelines.get? pid = some ps) (hbuilt : ps.dag.Built)
    (hbypass : cfg.funnel.bypassReplace = false) (hne : ps.incompleteOn deadNodeId ≠ []) :
    ∃ b' p', (replaceUnlessNone (replan cfg) pid (stagesToReplace cfg ps deadNodeId)).unhindered
        (runCall cfg) b = { result := .ok true, state := b' } ∧
      b'.pipelines.get? pid = some { ps with placement := p' } ∧ b'.workers = b.workers ∧
        b'.clock = b.clock ∧ Moved ps deadNodeId b p' := by
  unfold Replaces replaceUnlessNone stagesToReplace at *
  simp only [hbypass, Bool.false_eq_true, if_false, hne] at h ⊢
  generalize hrun : (replan cfg pid (ps.incompleteOn deadNodeId)).alone ⟨b, [], []⟩ = r at h
  obtain ⟨out, s'⟩ := r
  obtain rfl : out = some (.ok true) := h
  obtain ⟨q, hq, hmem, p', hp', hget⟩ := replan_run hps hrun
  obtain ⟨hworkers, hclock⟩ := replan_frame hrun
  refine ⟨s'.state, p', Co.unhindered_of_alone hrun, hp', hworkers, hclock, ?_, ?_⟩
  · intro sid hsid
    obtain ⟨x, hx, hhost, -⟩ := findPlacement_stageFits hbuilt hc hq sid (hmem sid hsid)
    refine ⟨x.nodeId, (hmirrored.registryAgrees.ids _).mpr (List.mem_map_of_mem hx), ?_⟩
    rw [hget, spliced, if_pos hsid, hhost]
  · intro sid hsid
    rw [hget, spliced, if_neg hsid]

theorem onDeadWorker_iff_mem {ps : PipelineState} {dead : Finset NodeId} {sid : StageId} :
    ps.onDeadWorker dead sid = true ↔ ∃ nodeId, ps.placement.get? sid = some nodeId ∧
      nodeId ∈ dead := by
  unfold PipelineState.onDeadWorker
  rw [Option.any_eq_true]
  simp only [decide_eq_true_eq]

/-- A host is dead if it is not registered. -/
theorem mem_deadWorkers_iff {ps : PipelineState} {sid : StageId} {nodeId : NodeId}
    (hhost : ps.placement.get? sid = some nodeId) :
    nodeId ∈ b.deadWorkers ps ↔ nodeId ∉ b.workers := by
  have hvalue : nodeId ∈ ps.placement.values :=
    List.mem_map_of_mem (Dict.get?_eq_some_iff.mp hhost)
  simp [Broker.deadWorkers, hvalue, Dict.mem_iff_mem_keys]

theorem onDeadWorker_iff {ps : PipelineState} {sid : StageId} :
    ps.onDeadWorker (b.deadWorkers ps) sid = true ↔
      ∃ nodeId, ps.placement.get? sid = some nodeId ∧ nodeId ∉ b.workers := by
  rw [onDeadWorker_iff_mem]
  exact exists_congr fun nodeId => and_congr_right mem_deadWorkers_iff

/-- After the move only the other dead workers hold inputs back. -/
theorem Moved.deadPreds_eq {ps : PipelineState} {deadNodeId : NodeId} {p' : Placement}
    (h : Moved ps deadNodeId b p') {b' : Broker} (hworkers : b'.workers = b.workers)
    (sid : StageId) :
    ({ ps with placement := p' } : PipelineState).deadPreds
        (b'.deadWorkers { ps with placement := p' }) sid =
      ps.deadPreds ((b.deadWorkers ps).erase deadNodeId) sid := by
  ext p
  rw [PipelineState.mem_deadPreds, PipelineState.mem_deadPreds]
  refine and_congr_right fun _ => and_congr_right fun hopen => ?_
  rw [onDeadWorker_iff, hworkers]
  have hold : ps.onDeadWorker ((b.deadWorkers ps).erase deadNodeId) p = true ↔
      ∃ nodeId, ps.placement.get? p = some nodeId ∧ nodeId ≠ deadNodeId ∧ nodeId ∉ b.workers := by
    rw [onDeadWorker_iff_mem]
    refine exists_congr fun nodeId => and_congr_right fun hhost => ?_
    rw [Finset.mem_erase, mem_deadWorkers_iff hhost]
  rw [hold]
  by_cases hmoves : p ∈ ps.incompleteOn deadNodeId
  · obtain ⟨nodeId, hnode, hhost⟩ := h.moved p hmoves
    have hwas := (mem_incompleteOn_iff.mp hmoves).1
    show (∃ n, p'.get? p = some n ∧ n ∉ b.workers) ↔ _
    rw [hhost, hwas]
    simp [hnode]
  · show (∃ n, p'.get? p = some n ∧ n ∉ b.workers) ↔ _
    rw [h.kept p hmoves]
    refine exists_congr fun nodeId => and_congr_right fun hhost => ?_
    refine ⟨fun hgone => ⟨?_, hgone⟩, fun hgone => hgone.2⟩
    rintro rfl
    exact hmoves (mem_incompleteOn_iff.mpr ⟨hhost, hopen⟩)

end Merge

/-! ## The dispatch round -/

section Dispatch

variable {cfg : BrokerConfig} {b s : Broker} {pid : PipelineId} {ps : PipelineState} {sid : StageId}

/-- What a dispatch leaves behind once it has sent the stage. -/
def afterDispatch (ps : PipelineState) (sid : StageId) (nodeId : NodeId) (stage : Stage)
    (b : Broker) : Broker :=
  updateWorkerLoad nodeId stage.computationalDemand (b.record
    { pipelineId := ps.pipelineId, stageId := sid, event := .dispatched, timestamp := b.clock
      nodeId := nodeId, pipelineType := ps.pipelineType })

theorem runCall_dispatchStage {nodeId : NodeId} {worker : WorkerInfo} {stage : Stage}
    (h : b.pipelines.get? pid = some ps) (hhost : ps.placement.get? sid = some nodeId)
    (hworker : b.workers.get? nodeId = some worker) (hstage : ps.dag.getStage sid = .ok stage) :
    runCall cfg (.dispatchStage pid sid) b =
      { result := .ok .none, state := afterDispatch ps sid nodeId stage b
        sent := [workerMessage cfg nodeId worker.url (executeRequest cfg ps sid stage none)] } := by
  have hps : subscript b.pipelines pid = .ok ps := subscript_eq_ok_iff.mpr h
  have hnode : subscript ps.placement sid = .ok nodeId := subscript_eq_ok_iff.mpr hhost
  have hurl : dispatchUrl nodeId b = some (worker.url, false) := by
    rw [dispatchUrl, hworker]
  simp [runCall, body, dispatchStage, getPipeline, Co.unhindered_bind, hps, hnode, hurl, hstage,
    Outcome.after, afterDispatch]

/-- Everything a dispatch can do where its send succeeds. -/
theorem runCall_dispatchStage_cases (h : b.pipelines.get? pid = some ps) :
    ((runCall cfg (.dispatchStage pid sid) b).sent = [] ∧
      ((runCall cfg (.dispatchStage pid sid) b).state = b ∨ ∃ error,
        (runCall cfg (.dispatchStage pid sid) b).state = b.failPipeline pid error)) ∨
    ∃ nodeId url stage resultUrl,
      (runCall cfg (.dispatchStage pid sid) b).state = afterDispatch ps sid nodeId stage b ∧
      (runCall cfg (.dispatchStage pid sid) b).sent =
        [workerMessage cfg nodeId url (executeRequest cfg ps sid stage resultUrl)] := by
  have hps : subscript b.pipelines pid = .ok ps := subscript_eq_ok_iff.mpr h
  unfold runCall body dispatchStage
  simp only [getPipeline, Co.unhindered_bind, Co.unhindered_read, Co.unhindered_ofExcept, hps,
    Outcome.andThen_ok, Outcome.after_nil]
  cases subscript ps.placement sid with
  | error e => exact .inl ⟨rfl, .inl rfl⟩
  | ok nodeId =>
    simp only [Outcome.andThen_ok, Outcome.after_nil]
    cases dispatchUrl nodeId b with
    | none => exact .inl ⟨rfl, .inr ⟨_, rfl⟩⟩
    | some target =>
      obtain ⟨url, peerDispatch⟩ := target
      simp only [Co.unhindered_bind, Co.unhindered_ofExcept]
      cases ps.dag.getStage sid with
      | error e => exact .inl ⟨rfl, .inl rfl⟩
      | ok stage => exact .inr ⟨nodeId, url, stage, _, rfl, rfl⟩

theorem url_updateWorkerLoad (nodeId : NodeId) (delta : ℚ) (b : Broker) (n : NodeId) :
    ((updateWorkerLoad nodeId delta b).workers.get? n).map (·.url) =
      (b.workers.get? n).map (·.url) := by
  unfold updateWorkerLoad
  cases hw : b.workers.get? nodeId with
  | none => rfl
  | some worker =>
    simp only [Dict.get?_insert]
    split
    · next heq => rw [heq, hw]; rfl
    · rfl

/-- The round leaves the stages of the pipeline where they are, and the workers too. -/
structure Underway (pid : PipelineId) (ps : PipelineState) (b s : Broker) : Prop where
  pipeline : ∃ ps', s.pipelines.get? pid = some ps' ∧ ps'.pipelineId = ps.pipelineId ∧
    ps'.pipelineType = ps.pipelineType ∧ ps'.dag = ps.dag ∧ ps'.placement = ps.placement
  urls : ∀ nodeId, (s.workers.get? nodeId).map (·.url) = (b.workers.get? nodeId).map (·.url)

theorem underway_markReady (h : b.pipelines.get? pid = some ps) :
    Underway pid ps b (b.markReady cfg pid ps) := by
  obtain ⟨skipped, isPartial, waitStart, hscan⟩ :=
    findReadyStages_frame cfg.funnel (b.deadWorkers ps) b.clock ps
  refine ⟨⟨_, by rw [Broker.get?_markReady cfg b h, if_pos rfl], ?_⟩, fun _ => rfl⟩
  show (b.readyScan cfg ps).ps.pipelineId = _ ∧ (b.readyScan cfg ps).ps.pipelineType = _ ∧
    (b.readyScan cfg ps).ps.dag = _ ∧ (b.readyScan cfg ps).ps.placement = _
  rw [Broker.readyScan, hscan]
  exact ⟨rfl, rfl, rfl, rfl⟩

theorem Underway.dispatchStage (h : Underway pid ps b s) :
    Underway pid ps b (runCall cfg (.dispatchStage pid sid) s).state := by
  obtain ⟨ps', hps', hfields⟩ := h.pipeline
  rcases runCall_dispatchStage_cases hps' with ⟨-, hstate | ⟨error, hstate⟩⟩ |
    ⟨nodeId, url, stage, resultUrl, hstate, -⟩
  · rw [hstate]
    exact h
  · rw [hstate]
    refine ⟨⟨{ ps' with failed := true, error := some error }, ?_, hfields⟩, h.urls⟩
    rw [Broker.get?_failPipeline, if_pos rfl, hps']
    rfl
  · rw [hstate]
    refine ⟨⟨ps', ?_, hfields⟩, fun n => ?_⟩
    · rw [afterDispatch, pipelines_updateWorkerLoad]
      exact hps'
    · rw [afterDispatch, url_updateWorkerLoad]
      exact h.urls n

/-- A stage is sent only by its own dispatch. -/
theorem Underway.stageId_of_mem_sent (h : Underway pid ps b s) {m : WorkerMessage}
    (hm : m ∈ (runCall cfg (.dispatchStage pid sid) s).sent) : m.payload.stageId = sid := by
  obtain ⟨ps', hps', -⟩ := h.pipeline
  rcases runCall_dispatchStage_cases hps' with ⟨hsent, -⟩ |
    ⟨nodeId, url, stage, resultUrl, -, hsent⟩
  · rw [hsent] at hm
    cases hm
  · rw [hsent] at hm
    obtain rfl := List.mem_singleton.mp hm
    rw [payload_workerMessage]
    rfl

theorem Underway.sends (h : Underway pid ps b s) {nodeId : NodeId} {worker : WorkerInfo}
    {stage : Stage} (hhost : ps.placement.get? sid = some nodeId)
    (hworker : b.workers.get? nodeId = some worker) (hstage : ps.dag.getStage sid = .ok stage) :
    workerMessage cfg nodeId worker.url (executeRequest cfg ps sid stage none) ∈
      (runCall cfg (.dispatchStage pid sid) s).sent := by
  obtain ⟨ps', hps', hid, htype, hdag, hplacement⟩ := h.pipeline
  have hurl := h.urls nodeId
  rw [hworker] at hurl
  obtain ⟨worker', hworker', hurl⟩ := Option.map_eq_some_iff.mp hurl
  rw [runCall_dispatchStage hps' (hplacement ▸ hhost) hworker' (hdag ▸ hstage), hurl]
  simp [executeRequest, hid, htype]

/-- A round that gives up or finds nothing ready sends nothing. -/
theorem sent_dispatchReadyStages_idle (h : b.pipelines.get? pid = some ps)
    (hidle : (∃ r, (b.readyScan cfg ps).funnelResult = some r ∧ r.pipelineFailed = true) ∨
      (b.readyScan cfg ps).ready = []) :
    ((dispatchReadyStages cfg pid).unhindered (runCall cfg) b).sent = [] := by
  have hps : subscript b.pipelines pid = .ok ps := subscript_eq_ok_iff.mpr h
  have hscan : findReadyStages cfg.funnel (b.deadWorkers ps) b.clock ps = b.readyScan cfg ps := rfl
  unfold dispatchReadyStages
  simp only [getPipeline, Co.unhindered_bind, Co.unhindered_read, Co.unhindered_ofExcept, hps,
    Outcome.andThen_ok, Outcome.after_nil]
  cases ps.failed with
  | true => rfl
  | false =>
    simp only [Bool.false_eq_true, if_false, Co.unhindered_bind, Co.unhindered_read,
      Co.unhindered_modify, Outcome.andThen_ok, Outcome.after_nil, hscan]
    cases hres : (b.readyScan cfg ps).funnelResult.filter (·.pipelineFailed) with
    | some result => rfl
    | none =>
      rcases hidle with ⟨r, hr, hfail⟩ | hnil
      · rw [hr, Option.filter_some, if_pos hfail] at hres
        cases hres
      · simp [hnil]

/-- Otherwise the round runs the dispatches of the ready stages. -/
theorem dispatchReadyStages_ready (h : b.pipelines.get? pid = some ps) (hfailed : ps.failed = false)
    (hgo : ¬ ∃ r, (b.readyScan cfg ps).funnelResult = some r ∧ r.pipelineFailed = true)
    (hready : (b.readyScan cfg ps).ready ≠ []) :
    (dispatchReadyStages cfg pid).unhindered (runCall cfg) b =
      Co.runCalls (runCall cfg) ((b.readyScan cfg ps).ready.map (.dispatchStage pid))
        (b.markReady cfg pid ps) := by
  have hps : subscript b.pipelines pid = .ok ps := subscript_eq_ok_iff.mpr h
  have hscan : findReadyStages cfg.funnel (b.deadWorkers ps) b.clock ps = b.readyScan cfg ps := rfl
  have hnone : (b.readyScan cfg ps).funnelResult.filter (·.pipelineFailed) = none := by
    apply Option.eq_none_iff_forall_ne_some.mpr
    intro r hr
    exact hgo ⟨r, (Option.filter_eq_some_iff.mp hr)⟩
  unfold dispatchReadyStages
  simp [getPipeline, Co.unhindered_bind, hps, hfailed, hscan, hnone, hready, Broker.markReady]

/-- The round sends a stage that is ready, and only such stages. -/
theorem sent_dispatchReadyStages_iff (cfg : BrokerConfig) (h : b.pipelines.get? pid = some ps)
    (hfailed : ps.failed = false) {nodeId : NodeId} {worker : WorkerInfo} {stage : Stage}
    (hhost : ps.placement.get? sid = some nodeId) (hworker : b.workers.get? nodeId = some worker)
    (hstage : ps.dag.getStage sid = .ok stage) :
    SentToHost cfg pid ps b ((dispatchReadyStages cfg pid).unhindered (runCall cfg) b) sid ↔
      sid ∈ (b.readyScan cfg ps).ready ∧
        ¬ ∃ r, (b.readyScan cfg ps).funnelResult = some r ∧ r.pipelineFailed = true := by
  have hbegins := @underway_markReady cfg b pid ps h
  have hstep : ∀ c ∈ (b.readyScan cfg ps).ready.map (Call.dispatchStage pid), ∀ s,
      Underway pid ps b s → Underway pid ps b (runCall cfg c s).state := by
    intro c hc s hs
    obtain ⟨sid', -, rfl⟩ := List.mem_map.mp hc
    exact hs.dispatchStage
  constructor
  · rintro ⟨ps', node, worker', payload, -, -, -, hsent, -, hstageId⟩
    have hbusy : ¬ ((∃ r, (b.readyScan cfg ps).funnelResult = some r ∧ r.pipelineFailed = true) ∨
        (b.readyScan cfg ps).ready = []) := by
      intro hidle
      rw [sent_dispatchReadyStages_idle h hidle] at hsent
      cases hsent
    obtain ⟨hgo, hready⟩ := not_or.mp hbusy
    refine ⟨?_, hgo⟩
    rw [dispatchReadyStages_ready h hfailed hgo hready] at hsent
    obtain ⟨c, hc, s, hs, hsent⟩ := Co.mem_sent_runCalls hbegins hstep hsent
    obtain ⟨sid', hsid', rfl⟩ := List.mem_map.mp hc
    have hown := hs.stageId_of_mem_sent hsent
    rw [payload_workerMessage, hstageId] at hown
    exact hown ▸ hsid'
  · rintro ⟨hmem, hgo⟩
    rw [dispatchReadyStages_ready h hfailed hgo (List.ne_nil_of_mem hmem)]
    obtain ⟨ps', hps', -, -, -, hplacement⟩ := (Co.runCalls_invariant hbegins hstep).pipeline
    refine ⟨ps', nodeId, worker, executeRequest cfg ps sid stage none, hps', hplacement ▸ hhost,
      hworker, ?_, rfl, rfl⟩
    exact Co.mem_sent_of_mem hbegins hstep (List.mem_map_of_mem hmem)
      fun s hs => hs.sends hhost hworker hstage

end Dispatch

/-! ## The recovery -/

section Recovery

variable {cfg : BrokerConfig} {b b' : Broker} {pid : PipelineId} {ps : PipelineState}
  {deadNodeId : NodeId} {p' : Placement} {sid : StageId}

theorem Moved.stalledFanIn_iff (h : Moved ps deadNodeId b p') (hworkers : b'.workers = b.workers) :
    ({ ps with placement := p' } : PipelineState).StalledFanIn
        (b'.deadWorkers { ps with placement := p' }) sid ↔
      ps.StalledFanIn ((b.deadWorkers ps).erase deadNodeId) sid := by
  unfold PipelineState.StalledFanIn
  rw [h.deadPreds_eq hworkers]

/-- The round after the move gives up exactly where the funnel policy does. -/
theorem Moved.gives_up_iff (h : Moved ps deadNodeId b p') (hworkers : b'.workers = b.workers)
    (hclock : b'.clock = b.clock) :
    (∃ r, (b'.readyScan cfg { ps with placement := p' }).funnelResult = some r ∧
      r.pipelineFailed = true) ↔ FunnelStops cfg deadNodeId ps b := by
  rw [Broker.readyScan, (ReadyScan.findReadyStages_inv ..).failed, hclock]
  refine and_congr_right fun _ => exists_congr fun sid => ?_
  exact and_congr_right fun _ => and_congr_right fun _ => h.stalledFanIn_iff hworkers

/-- The scan after the move finds a stage that could run unless it counts as sent or skipped. -/
theorem Moved.mem_ready_iff (h : Moved ps deadNodeId b p') (hworkers : b'.workers = b.workers)
    (hrun : Runnable ps deadNodeId sid) :
    sid ∈ (b'.readyScan cfg { ps with placement := p' }).ready ↔
      sid ∉ ps.dispatchedStages ∧ sid ∉ ps.skippedStages := by
  obtain ⟨hmem, hon, hinputs⟩ := hrun
  rw [Broker.readyScan, NeuralPubSub.mem_ready_iff]
  constructor
  · rintro (⟨⟨hpending, -⟩, -⟩ | ⟨-, ⟨hpending, -⟩, -⟩) <;> exact hpending.2
  · intro hopen
    apply Or.inl
    obtain ⟨pre, post, hsplit⟩ := List.append_of_mem (List.mem_toFinset.mp hmem)
    refine ⟨⟨⟨(mem_incompleteOn_iff.mp hon).2, hopen⟩, pre, post, hsplit, ?_⟩, hinputs⟩
    intro hskipped
    rcases (ReadyScan.mem_skippedAfter_iff ..).mp hskipped with hold | ⟨sid', -, -, -, hdead⟩
    · exact hopen.2 hold
    · -- its host is registered, so that no fan-in waits for it in vain
      obtain ⟨nodeId, hnode, hhost⟩ := h.moved sid hon
      obtain ⟨nodeId', hhost', hgone⟩ :=
        onDeadWorker_iff.mp (PipelineState.mem_deadPreds.mp hdead).2.2
      obtain rfl := Option.some.inj (hhost.symm.trans hhost')
      exact hgone (hworkers ▸ hnode)

/-- For every broker whose topology mirrors its registry and every pipeline that has not
failed: if its re-placement succeeds and no send fails, then the recovery sends every stage
that could run to its new worker exactly when none of these stages counts as dispatched or
skipped, and the funnel policy gives up on no fan-in. -/
theorem recovery_sendsRunnable_iff (hmirrored : Mirrored b) (hc : b.topology.Complete)
    (hps : b.pipelines.get? pid = some ps) (hfailed : ps.failed = false) (hbuilt : ps.dag.Built)
    (hbypass : cfg.funnel.bypassReplace = false) (hreplaces : Replaces cfg deadNodeId pid ps b) :
    SendsRunnable cfg deadNodeId pid ps b ↔ ∀ sid, Runnable ps deadNodeId sid →
      sid ∉ ps.dispatchedStages ∧ sid ∉ ps.skippedStages ∧ ¬ FunnelStops cfg deadNodeId ps b := by
  refine forall_congr' fun sid => forall_congr' fun hrun => ?_
  have hne : ps.incompleteOn deadNodeId ≠ [] := List.ne_nil_of_mem hrun.2.1
  obtain ⟨b', p', hreplaced, hps', hworkers, hclock, hmoved⟩ :=
    hreplaces.moved hmirrored hc hps hbuilt hbypass hne
  obtain ⟨nodeId, hnode, hhost⟩ := hmoved.moved sid hrun.2.1
  obtain ⟨worker, hworker⟩ := Option.isSome_iff_exists.mp (Dict.get?_isSome_iff.mpr hnode)
  obtain ⟨stage, hstage⟩ := Option.isSome_iff_exists.mp
    (Dict.get?_isSome_iff.mpr (Dict.mem_iff_mem_keys.mpr (List.mem_toFinset.mp hrun.1)))
  have hround : recoverPipeline cfg deadNodeId pid b =
      (dispatchReadyStages cfg pid).unhindered (runCall cfg) b' := by
    have hsub : subscript b.pipelines pid = .ok ps := subscript_eq_ok_iff.mpr hps
    simp [recoverPipeline, replaceStagesOf, getPipeline, Co.unhindered_bind, hsub, hne, hreplaced]
  rw [hround, ← and_assoc, ← hmoved.mem_ready_iff hworkers hrun,
    ← hmoved.gives_up_iff hworkers hclock]
  have hiff := sent_dispatchReadyStages_iff cfg hps' hfailed hhost (hworkers ▸ hworker)
    (subscript_eq_ok_iff.mpr hstage)
  unfold SentToHost at hiff ⊢
  rw [hworkers] at hiff
  exact hiff

end Recovery

private def orphanConfig : BrokerConfig := { domainId := "d1", brokerId := "b1" }

private def orphanDag : PipelineDAG :=
  .ofLists [⟨"a", "sense", 1, 1, none, none, none⟩, ⟨"b", "fuse", 1, 1, none, none, none⟩]
      [⟨"a", "b", 30⟩]

private def orphanFleet : Broker := rebuildTopology
  { workers := .ofList [("w1", ⟨"w1", "d1", "flat", 4, "http://w1", 0, 0⟩),
      ("w2", ⟨"w2", "d1", "flat", 4, "http://w2", 0, 0⟩)] }

/-- The broker once it has published the pipeline with `a` on `w1`. -/
private def orphanPublished : Broker :=
  (runCall orphanConfig (.publish
    { pipelineId := "p", pipelineType := "chain", dag := orphanDag
      placement := .ofList [("a", "w1"), ("b", "w2")]
      feasibilityTopology := orphanFleet.topology }) orphanFleet).state

/-- The broker once it has removed `w1`. -/
private def withoutHost (b : Broker) : Broker :=
  rebuildTopology { b with workers := b.workers.erase "w1" }

/-- The pipeline before its first stage counts as dispatched. -/
private def orphanPipeline : PipelineState where
  pipelineId := "p"
  pipelineType := "chain"
  dag := orphanDag
  placement := .ofList [("a", "w1"), ("b", "w2")]

private def orphanFresh : Broker := withoutHost
  { orphanFleet with pipelines := .ofList [("p", orphanPipeline)], activePipelines := ["p"] }

private theorem mirrored_withoutHost {b : Broker} (h : ∀ e ∈ b.workers.entries, e.2.nodeId = e.1) :
    Mirrored (withoutHost b) := by
  have hnamed : Named b := fun nodeId worker hget => h _ (Dict.get?_eq_some_iff.mp hget)
  exact (hnamed.erase "w1").rebuild

/-- The broker that has sent `a` to `w1` and then removes `w1`. -/
private def orphanSent : Broker :=
  withoutHost (runCall orphanConfig (.dispatchStage "p" "a") orphanPublished).state

/-- Before `a` has been sent the recovery sends it. -/
theorem recovery_sendsRunnable_iff_unsent :
    Runnable orphanPipeline "w1" "a" ∧
      (SendsRunnable orphanConfig "w1" "p" orphanPipeline orphanFresh ↔
        ∀ sid, Runnable orphanPipeline "w1" sid → sid ∉ orphanPipeline.dispatchedStages ∧
          sid ∉ orphanPipeline.skippedStages ∧
            ¬ FunnelStops orphanConfig "w1" orphanPipeline orphanFresh) := by
  have hrunnable : Runnable orphanPipeline "w1" "a" := by
    unfold Runnable PipelineState.InputsComplete
    decide +kernel
  have hreplaces : Replaces orphanConfig "w1" "p" orphanPipeline orphanFresh := by
    unfold Replaces
    decide +kernel
  exact ⟨hrunnable, recovery_sendsRunnable_iff (mirrored_withoutHost (by decide +kernel))
    (by decide +kernel) (by decide +kernel) rfl (PipelineDAG.built_ofLists _ _) rfl hreplaces⟩

/-- `w1` dies while it has `a`. The pipeline has `a` on `w2` then, and nothing is sent. -/
theorem not_sendsRunnable :
    ¬ ∀ (cfg : BrokerConfig) (b : Broker) (pid : PipelineId) (ps : PipelineState)
      (deadNodeId : NodeId), Mirrored b → b.topology.Complete → pid ∈ b.activePipelines →
      b.pipelines.get? pid = some ps → ps.failed = false → ps.dag.Built →
      cfg.funnel.bypassReplace = false → Replaces cfg deadNodeId pid ps b →
      SendsRunnable cfg deadNodeId pid ps b := by
  intro h
  have hreplaces : Replaces orphanConfig "w1" "p"
      { orphanPipeline with dispatchedStages := {"a"} } orphanSent := by
    unfold Replaces
    decide +kernel
  have hrunnable : Runnable { orphanPipeline with dispatchedStages := {"a"} } "w1" "a" := by
    unfold Runnable PipelineState.InputsComplete
    decide +kernel
  have hsends := h orphanConfig orphanSent "p" { orphanPipeline with dispatchedStages := {"a"} }
    "w1" (mirrored_withoutHost (by decide +kernel)) (by decide +kernel) (by decide +kernel)
    (by decide +kernel) rfl (PipelineDAG.built_ofLists _ _) rfl hreplaces
  obtain ⟨ps', nodeId, worker, payload, -, -, -, hmem, -⟩ := hsends "a" hrunnable
  have hsilent : (recoverPipeline orphanConfig "w1" "p" orphanSent).sent = [] := by decide +kernel
  rw [hsilent] at hmem
  cases hmem

end NeuralBroker
end NeuralPubSub
