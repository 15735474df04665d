-- SUMMARY: Every broker of a deployment is a workflow engine.
import NeuralPubSub.Base.Workflow
import NeuralPubSub.Federation.Deployment

open Base

/-!
# Brokers as workflow engines

What the brokers are for: the engine of `Base.Workflow` takes in DAGs, hands out
stages in the order of the DAGs and reports those that are done. Registries, loads,
placements, re-sends and traces are not part of it. A step of a broker is no step
of its engine, or up to three of them.
-/

namespace NeuralPubSub

/-- The stages of a DAG, and what they await. -/
def PipelineDAG.workflow (dag : PipelineDAG) (mode : FunnelMode) : Workflow StageId where
  tasks := {sid | sid ∈ dag.stages}
  awaits := dag.Awaits mode

/-- The stage of the pipeline has completed. -/
def Broker.HasCompleted (b : Broker) (k : PipelineId × StageId) : Prop :=
  ∃ ps, b.pipelines.get? k.1 = some ps ∧ k.2 ∈ ps.completedStages

/-- The engine that the broker is. -/
def engineOf (cfg : BrokerConfig) (sc : BrokerScene) : Engine PipelineId StageId where
  jobs pid := (sc.state.pipelines.get? pid).map fun ps => ps.dag.workflow cfg.funnel.mode
  handedOut := {k | k ∈ handedOut sc}
  completed := {k | sc.state.HasCompleted k}
  succeeded := {pid | sc.state.Succeeded pid}

section Step

variable {kind : BrokerKind} {cfg : BrokerConfig} {sc sc' : BrokerScene}

/-! ## What a step changes -/

/-- A message hands out a stage that is due, or one that has been handed out before. -/
theorem BrokerStep.sent_cases (hstep : BrokerStep kind cfg sc sc') (horder : InOrder sc) :
    sc'.sent = sc.sent ∨ ∃ m, sc'.sent = sc.sent ++ [m] ∧ (m.key ∈ handedOut sc ∨
      .dispatchStage m.key.1 m.key.2 ∈ sc.started ∧ ∃ ps,
        sc.state.pipelines.get? m.key.1 = some ps ∧ m.key.2 ∈ ps.dag.stages) := by
  cases hstep with
  | @sent pid ps sid nodeId url peerDispatch stage call found placed target known =>
    refine .inr ⟨_, rfl, .inr ?_⟩
    rw [key_workerMessage, horder.named pid ps found]
    exact ⟨call, ps, found, Dict.mem_of_get?_eq_some (subscript_eq_ok_iff.mp known)⟩
  | @resent pid ps sid nodeId worker m found placed registered earlier =>
    refine .inr ⟨_, rfl, .inl ?_⟩
    rw [WorkerMessage.key, payload_workerMessage]
    exact List.mem_map_of_mem earlier
  | _ => exact .inl rfl

/-- Only a delivery reports a success. -/
theorem BrokerStep.succeeded_cases (hstep : BrokerStep kind cfg sc sc') :
    (∀ pid, sc'.state.Succeeded pid → sc.state.Succeeded pid) ∨
      ∃ req ps, sc.state.activePipeline? req.pipelineId = some ps ∧
        ps.completedStages = ps.allStages ∧
        sc' = sc.withState (sc.state.deliver req ps.pipelineType) := by
  have hquiet : sc'.state.metrics = sc.state.metrics →
      ∀ pid, sc'.state.Succeeded pid → sc.state.Succeeded pid := by
    intro hmetrics pid h
    rwa [Broker.Succeeded, hmetrics] at h
  have hfailed : ∀ c : Completion, c.success = false →
      sc'.state.metrics.completions = sc.state.metrics.completions ++ [c] →
      ∀ pid, sc'.state.Succeeded pid → sc.state.Succeeded pid := by
    rintro c hc hcompletions pid ⟨c', hc', hpid, hsuccess⟩
    rw [hcompletions] at hc'
    rcases List.mem_append.mp hc' with hc' | hc'
    · exact ⟨c', hc', hpid, hsuccess⟩
    · obtain rfl := List.mem_singleton.mp hc'
      rw [hc] at hsuccess
      cases hsuccess
  cases hstep with
  | called | takenUp | answered | resent | scanned | scheduled | dropped | counted | ticked
  | cached => exact .inl (hquiet rfl)
  | admitted | received | recorded => exact .inl fun _ h => h
  | @delivered req ps call active running complete => exact .inr ⟨req, ps, active, complete, rfl⟩
  | closed | aborted => exact .inl (hfailed _ rfl rfl)
  | @sent pid ps sid nodeId url peerDispatch stage =>
    obtain ⟨-, -, hmetrics⟩ := reserveLoad_frame kind nodeId stage
      (sc.state.record (dispatchRecord ps sid nodeId sc.state.clock))
    refine .inl fun pid h => ?_
    rwa [Broker.Succeeded, Scene.state_emit, Scene.state_withState, hmetrics] at h
  | rehosted found chosen => exact .inl (hquiet chosen.frame.2.2.1)
  | registered | removed => exact .inl (hquiet (onWorkerChange_frame kind _).2.2)
  | departed nodeId => exact .inl (hquiet (metrics_failPipelinesOn nodeId sc.state))
  | loaded nodeId delta => exact .inl (hquiet (by simp))
  | @probed results => exact .inl (hquiet (roundOutcome_metrics kind cfg results sc.state))

/-! ## The steps of the engine -/

theorem jobs_engineOf {pid : PipelineId} {ps : PipelineState}
    (hps : sc.state.pipelines.get? pid = some ps) :
    (engineOf cfg sc).jobs pid = some (ps.dag.workflow cfg.funnel.mode) := by
  simp only [engineOf, hps, Option.map_some]

theorem jobs_of_dag (hdag : sc.state.Agrees PipelineState.dag sc'.state) :
    (engineOf cfg sc').jobs = (engineOf cfg sc).jobs := by
  funext pid
  have hview := congrArg (Option.map (PipelineDAG.workflow · cfg.funnel.mode)) (hdag pid)
  rwa [Option.map_map, Option.map_map] at hview

theorem hasCompleted_of_done {b b' : Broker} (hdone : b.Agrees PipelineState.done b')
    (k : PipelineId × StageId) : b'.HasCompleted k ↔ b.HasCompleted k := by
  have hiff : ∀ b : Broker, b.HasCompleted k ↔
      ∃ d, (b.pipelines.get? k.1).map PipelineState.done = some d ∧ k.2 ∈ d.2 := by
    intro b
    simp [Broker.HasCompleted, PipelineState.done]
  rw [hiff, hiff, hdone k.1]

theorem hasCompleted_enrol {b : Broker} {req : PlacedPipeline} (hfresh : req.pipelineId ∉ b.pipelines)
    (k : PipelineId × StageId) : (b.enrol cfg req).HasCompleted k ↔ b.HasCompleted k := by
  rw [Broker.HasCompleted, Broker.enrol, Broker.pipelines_record, Broker.pipelines_record,
    Dict.get?_insert]
  split
  · next heq =>
    rw [Broker.HasCompleted, heq, Dict.get?_eq_none_iff.mpr hfresh]
    simp
  · rfl

theorem hasCompleted_takeResult {b : Broker} {req : StageResultRequest} {ps : PipelineState}
    (hps : b.pipelines.get? req.pipelineId = some ps) (pipelineType : String)
    (k : PipelineId × StageId) : (b.takeResult req pipelineType).HasCompleted k ↔
      req.success = true ∧ k = (req.pipelineId, req.stageId) ∨ b.HasCompleted k := by
  obtain ⟨pid, sid⟩ := k
  rw [Broker.HasCompleted, Broker.takeResult, Broker.pipelines_record, Broker.pipelines_record,
    Broker.get?_updatePipeline]
  by_cases heq : pid = req.pipelineId
  · subst heq
    cases hsuccess : req.success <;>
      simp [Broker.HasCompleted, hps, PipelineState.recordResult, hsuccess]
  · simp [Broker.HasCompleted, heq]

theorem succeeded_deliver {b : Broker} {req : StageResultRequest} (pipelineType : String)
    (pid : PipelineId) : (b.deliver req pipelineType).Succeeded pid ↔
      pid = req.pipelineId ∨ b.Succeeded pid := by
  have hcompletions : (b.deliver req pipelineType).metrics.completions =
      b.metrics.completions ++ [{ pipelineId := req.pipelineId, success := true }] := rfl
  simp only [Broker.Succeeded, hcompletions, List.mem_append, List.mem_singleton]
  constructor
  · rintro ⟨c, hc | rfl, hpid, hsuccess⟩
    · exact .inr ⟨c, hc, hpid, hsuccess⟩
    · exact .inl hpid.symm
  · rintro (rfl | ⟨c, hc, hpid, hsuccess⟩)
    · exact ⟨_, .inr rfl, rfl, rfl⟩
    · exact ⟨c, .inl hc, hpid, hsuccess⟩

/-- New pipelines and results are steps of the engine. -/
theorem run_pipelines (h : Causal cfg sc) (hstep : BrokerStep kind cfg sc sc') :
    Engine.Run (engineOf cfg sc) ⟨(engineOf cfg sc').jobs, (engineOf cfg sc).handedOut,
      (engineOf cfg sc').completed, (engineOf cfg sc).succeeded⟩ := by
  rcases hstep.done_cases with hdone | ⟨req, fresh, rfl⟩ | ⟨req, ps, call, active, rfl⟩
  · have hdag : sc.state.Agrees PipelineState.dag sc'.state := by
      intro pid
      have hview := congrArg (Option.map Prod.fst) (hdone pid)
      rwa [Option.map_map, Option.map_map] at hview
    have hcompleted : (engineOf cfg sc').completed = (engineOf cfg sc).completed :=
      Set.ext fun k => hasCompleted_of_done hdone k
    rw [jobs_of_dag hdag, hcompleted]
  · have hjobs : (engineOf cfg (sc.withState (sc.state.enrol cfg req))).jobs =
        Function.update (engineOf cfg sc).jobs req.pipelineId
          (some (req.dag.workflow cfg.funnel.mode)) := by
      funext pid
      rw [Function.update_apply, engineOf]
      simp only [Scene.state_withState, Broker.enrol, Broker.pipelines_record, Dict.get?_insert]
      split
      · rfl
      · rfl
    have hcompleted : (engineOf cfg (sc.withState (sc.state.enrol cfg req))).completed =
        (engineOf cfg sc).completed := Set.ext fun k => hasCompleted_enrol fresh k
    have hfresh : (engineOf cfg sc).jobs req.pipelineId = none := by
      simp only [engineOf, Dict.get?_eq_none_iff.mpr fresh, Option.map_none]
    rw [hjobs, hcompleted]
    exact .single (.admits _ hfresh)
  · obtain ⟨-, hps⟩ := Withstands.active_of_activePipeline? active
    have hdag : sc.state.Agrees PipelineState.dag (sc.state.takeResult req ps.pipelineType) :=
      (Broker.Agrees.update _ _ fun ps _ => recordResult_dag ps req).trans (.of_eq rfl)
    have hcompleted := hasCompleted_takeResult hps ps.pipelineType
    rw [jobs_of_dag hdag]
    cases hsuccess : req.success with
    | false =>
      have hsame : (engineOf cfg (sc.withState
          (sc.state.takeResult req ps.pipelineType))).completed = (engineOf cfg sc).completed :=
        Set.ext fun k => (hcompleted k).trans (or_iff_right (by simp [hsuccess]))
      rw [hsame]
    | true =>
      have hinsert : (engineOf cfg (sc.withState
          (sc.state.takeResult req ps.pipelineType))).completed =
            insert (req.pipelineId, req.stageId) (engineOf cfg sc).completed :=
        Set.ext fun k => (hcompleted k).trans (or_congr_left (and_iff_right hsuccess))
      rw [hinsert]
      exact .single (.completes (h.reported req call hsuccess))

/-- So is a message for a stage that is handed out for the first time. -/
theorem run_handedOut (h : Causal cfg sc) (hstep : BrokerStep kind cfg sc sc') :
    Engine.Run ⟨(engineOf cfg sc').jobs, (engineOf cfg sc).handedOut,
        (engineOf cfg sc').completed, (engineOf cfg sc).succeeded⟩
      ⟨(engineOf cfg sc').jobs, (engineOf cfg sc').handedOut, (engineOf cfg sc').completed,
        (engineOf cfg sc).succeeded⟩ := by
  rcases hstep.sent_cases h.toInOrder with hsent | ⟨m, hsent, hm⟩
  · have hhanded : (engineOf cfg sc').handedOut = (engineOf cfg sc).handedOut := by
      simp only [engineOf, handedOut, hsent]
    rw [hhanded]
  · have hhanded : (engineOf cfg sc').handedOut = insert m.key (engineOf cfg sc).handedOut := by
      ext k
      simp [engineOf, handedOut, hsent, or_comm]
    rw [hhanded]
    rcases hm with hold | ⟨call, ps, hps, htask⟩
    · have hmem : m.key ∈ (engineOf cfg sc).handedOut := hold
      rw [Set.insert_eq_of_mem hmem]
    · obtain ⟨ps', hps', hready⟩ := h.dispatched_later hstep.later (.inr call)
      have hdag : ps'.dag = ps.dag := by
        obtain ⟨ps'', hps'', hforward⟩ := hstep.later.pipelines _ ps hps
        obtain rfl := Option.some.inj (hps'.symm.trans hps'')
        exact hforward.dag
      have hjob : (engineOf cfg sc').jobs m.key.1 = some (ps'.dag.workflow cfg.funnel.mode) :=
        jobs_engineOf hps'
      exact .single (.handsOut hjob (hdag ▸ htask) fun a ha => ⟨ps', hps', hready a ha⟩)

/-- And so is the delivery of a pipeline. -/
theorem run_succeeded (hstep : BrokerStep kind cfg sc sc') :
    Engine.Run ⟨(engineOf cfg sc').jobs, (engineOf cfg sc').handedOut,
      (engineOf cfg sc').completed, (engineOf cfg sc).succeeded⟩ (engineOf cfg sc') := by
  have hlasting : ∀ pid, sc.state.Succeeded pid → sc'.state.Succeeded pid := by
    rintro pid ⟨c, hc, hreport⟩
    exact ⟨c, hstep.later.completions.subset hc, hreport⟩
  rcases hstep.succeeded_cases with hquiet | ⟨req, ps, active, hcomplete, rfl⟩
  · have hsucceeded : (engineOf cfg sc').succeeded = (engineOf cfg sc).succeeded :=
      Set.ext fun pid => ⟨hquiet pid, hlasting pid⟩
    rw [← hsucceeded]
  · obtain ⟨-, hps⟩ := Withstands.active_of_activePipeline? active
    let delivered := engineOf cfg (sc.withState (sc.state.deliver req ps.pipelineType))
    have hsucceeded : delivered.succeeded =
        insert req.pipelineId (engineOf cfg sc).succeeded :=
      Set.ext fun pid => succeeded_deliver ps.pipelineType pid
    have hjob : delivered.jobs req.pipelineId = some (ps.dag.workflow cfg.funnel.mode) :=
      jobs_engineOf hps
    have hall : ∀ t ∈ (ps.dag.workflow cfg.funnel.mode).tasks,
        (req.pipelineId, t) ∈ delivered.completed := by
      intro t ht
      refine ⟨ps, hps, ?_⟩
      rw [hcomplete]
      exact List.mem_toFinset.mpr (Dict.mem_iff_mem_keys.mp ht)
    have hreport : Engine.Step ⟨delivered.jobs, delivered.handedOut, delivered.completed,
        (engineOf cfg sc).succeeded⟩ ⟨delivered.jobs, delivered.handedOut, delivered.completed,
          insert req.pipelineId (engineOf cfg sc).succeeded⟩ := .reports hjob hall
    rw [← hsucceeded] at hreport
    exact .single hreport

/-- A step of the broker is a run of its engine. -/
theorem BrokerStep.run_engine (hstep : BrokerStep kind cfg sc sc') (h : Causal cfg sc) :
    Engine.Run (engineOf cfg sc) (engineOf cfg sc') :=
  (run_pipelines h hstep).trans ((run_handedOut h hstep).trans (run_succeeded hstep))

/-- The broker is in causal order, and where it is its engine gets by its own steps. -/
structure Driven (cfg : BrokerConfig) (sc : BrokerScene) : Prop where
  causal : Causal cfg sc
  run : Engine.Run {} (engineOf cfg sc)

theorem follows_driven (kind : BrokerKind) (cfg : BrokerConfig) : Follows kind cfg (Driven cfg) where
  step h hstep hstarted := ⟨h.causal.step hstep hstarted, h.run.trans (hstep.run_engine h.causal)⟩
  takenUp h hpending := ⟨h.causal.takenUp hpending, h.run⟩
  inOrder h := h.causal.toInOrder

end Step

/-! ## Runs -/

theorem Fresh.engine_initial {w : BrokerWorld} (h : Fresh w) (hsent : w.sent = []) (cfg : BrokerConfig) :
    engineOf cfg w.scene = {} := by
  have hpipelines : w.scene.state.pipelines = .empty := h.pipelines
  have hcompletions : w.scene.state.metrics.completions = [] := h.completions
  have hnone : w.scene.sent = [] := hsent
  ext <;> simp [engineOf, Broker.HasCompleted, Broker.Succeeded, handedOut, hpipelines,
    hcompletions, hnone]

/-- A run of a broker whose workers report what they have been handed is a run of its engine. -/
theorem Fresh.run_engine {kind : BrokerKind} {cfg : BrokerConfig} {w w' : BrokerWorld}
    (hw : Fresh w) (hnone : w.sent = []) (hr : (workerRules kind cfg).Reachable w w') :
    Engine.Run {} (engineOf cfg w'.scene) := by
  have hkeeps : (workerRules kind cfg).Keeps (Driven cfg) := by
    refine (follows_driven kind cfg).keeps fun h hexternal hreports => ⟨?_, h.run⟩
    refine h.causal.called hexternal ?_
    rintro req rfl
    exact hreports
  have hstart : Driven cfg w.scene :=
    ⟨hw.causal hnone cfg, by rw [hw.engine_initial hnone]⟩
  exact (hkeeps.reachable hstart hw.tasks hr).run

/-- Every broker of a deployment refines a workflow engine. Whatever the faults and the
network do, what it has taken in, handed out, seen completed and reported is what an
engine reaches by its own steps: each stage went out when all that it awaits had
completed, only stages that were out have completed, and a reported pipeline is done. -/
theorem brokers_refineEngine {ι : Type} [DecidableEq ι] (D : Deployment ι) {start : ι → BrokerWorld}
    (hstart : ∀ i, Booted (start i))
    {n : Network ι Broker Call WorkerMessage PyError Response ResultPost}
    (hrun : D.protocol.Run { worlds := start } n) (i : ι) :
    Engine.Run {} (engineOf (D.cfg i) (n.worlds i).scene) ∧
      (engineOf (D.cfg i) (n.worlds i).scene).Valid := by
  have hparty := ((D.contract hstart).run hrun).1 i
  have hengine := (hstart i).toFresh.run_engine (hstart i).sent (D.workerRules_of_admits hparty)
  exact ⟨hengine, hengine.valid Engine.valid_initial⟩

theorem brokers_refineEngine_border :
    ∃ n, borderDeployment.protocol.Run { worlds := fun _ => { state := {} } } n ∧
      "p" ∈ (engineOf (borderDeployment.cfg true) (n.worlds true).scene).succeeded ∧
      Engine.Run {} (engineOf (borderDeployment.cfg true) (n.worlds true).scene) ∧
      (engineOf (borderDeployment.cfg true) (n.worlds true).scene).Valid := by
  obtain ⟨n, hrun, -, -, hsucceeded⟩ := border_run
  exact ⟨n, hrun, hsucceeded,
    brokers_refineEngine borderDeployment (fun _ => booted_initial) hrun true⟩

end NeuralPubSub
