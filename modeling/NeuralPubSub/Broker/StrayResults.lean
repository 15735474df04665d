-- SUMMARY: What a result for a stage that its pipeline does not have leaves behind, and the runs without such results.
import NeuralPubSub.Broker.Safety

open Base

/-!
# Stray results

Both result handlers record a success before anything looks the stage up. The
neural broker then raises and the base broker goes on; either way the id stays
among the completed stages, which from then on differ from those of the DAG.
-/

namespace NeuralPubSub

/-! ## Strays -/

/-- Only stages of the DAG have completed. -/
def NoStrays (b : Broker) : Prop :=
  ∀ pid ps, b.pipelines.get? pid = some ps → ps.completedStages ⊆ ps.allStages

/-- The pipeline is going to be finalised once all its stages have completed. -/
def CanComplete (b : Broker) (pid : PipelineId) : Prop :=
  ∃ ps, b.activePipeline? pid = some ps ∧ ps.failed = false ∧ ps.completedStages ⊆ ps.allStages

/-- A stage that the DAG does not have counts as completed. -/
def HasStray (b : Broker) (pid : PipelineId) : Prop :=
  ∃ ps, b.pipelines.get? pid = some ps ∧ ¬ ps.completedStages ⊆ ps.allStages

/-- What the handling of an invalid result must leave alone. -/
structure HandledAtomically (b b' : Broker) (pid : PipelineId) : Prop where
  completed : (b'.pipelines.get? pid).map (·.completedStages) =
    (b.pipelines.get? pid).map (·.completedStages)
  workers : b'.workers = b.workers
  canComplete : CanComplete b pid → CanComplete b' pid

/-- A success that is reported for an active pipeline names one of its stages. -/
def NamesStage (sc : BrokerScene) : Call → Prop
  | .result req => req.success = true → ∀ ps ∈ sc.state.activePipeline? req.pipelineId,
      req.stageId ∈ ps.allStages
  | _ => True

instance (sc : BrokerScene) : ∀ c, Decidable (NamesStage sc c)
  | .result req => inferInstanceAs (Decidable (req.success = true → _))
  | .publish _ | .register _ | .deregister _ | .dispatchStage _ _ | .healthCheck _
  | .cachePeerWorkers _ | .tick _ => isTrue trivial

theorem recordResult_dag (ps : PipelineState) (req : StageResultRequest) :
    (ps.recordResult req).dag = ps.dag := by
  unfold PipelineState.recordResult
  split <;> rfl

theorem recordResult_completed (ps : PipelineState) (req : StageResultRequest) :
    (ps.recordResult req).completedStages =
      if req.success then insert req.stageId ps.completedStages else ps.completedStages := by
  unfold PipelineState.recordResult
  split <;> rfl

theorem recordResult_failed (ps : PipelineState) (req : StageResultRequest) :
    (ps.recordResult req).failed = if req.success then ps.failed else true := by
  unfold PipelineState.recordResult
  split <;> rfl

/-! ## One stray result -/

section Stray

variable {r : Wake Broker Call WorkerMessage PyError Response} {cfg : BrokerConfig}
  {sc : BrokerScene} {req : StageResultRequest} {ps : PipelineState}

/-- The broker `b'` has recorded the result, and has not released any load. -/
structure Recorded (b : Broker) (req : StageResultRequest) (ps : PipelineState) (b' : Broker) :
    Prop where
  workers : b'.workers = b.workers
  pipeline : ∃ ps', b'.pipelines.get? req.pipelineId = some ps' ∧ ps'.dag = ps.dag ∧
    ps'.completedStages = (ps.recordResult req).completedStages ∧
      ((ps.recordResult req).failed = true → ps'.failed = true)

theorem Recorded.update {b b' : Broker} (h : Recorded b req ps b')
    {f : PipelineState → PipelineState}
    (hf : ∀ ps', b'.pipelines.get? req.pipelineId = some ps' → (f ps').dag = ps'.dag ∧
      (f ps').completedStages = ps'.completedStages ∧ (ps'.failed = true → (f ps').failed = true)) :
    Recorded b req ps (b'.updatePipeline req.pipelineId f) := by
  refine ⟨h.workers, ?_⟩
  obtain ⟨ps', hps', hdag, hcompleted, hfailed⟩ := h.pipeline
  obtain ⟨hfdag, hfcompleted, hffailed⟩ := hf ps' hps'
  refine ⟨f ps', ?_, hfdag.trans hdag, hfcompleted.trans hcompleted, fun hp => hffailed (hfailed hp)⟩
  rw [Broker.get?_updatePipeline, if_pos rfl, hps']
  rfl

/-- A dispatch round leaves the record alone. -/
theorem wp_dispatchReadyStages_recorded {b : Broker} (h : Recorded b req ps sc.state) :
    (dispatchReadyStages cfg req.pipelineId).wp r (fun sc' => Recorded b req ps sc'.state)
      (fun _ sc' => Recorded b req ps sc'.state) (fun _ sc' => Recorded b req ps sc'.state) sc := by
  obtain ⟨ps', hps', -⟩ := h.pipeline
  have hscan : Recorded b req ps
      (sc.state.updatePipeline req.pipelineId fun _ => (sc.state.readyScan cfg ps').ps) := by
    apply h.update
    intro ps'' hps''
    obtain rfl := Option.some.inj (hps'.symm.trans hps'')
    obtain ⟨_, _, _, hframe⟩ := findReadyStages_frame cfg.funnel (sc.state.deadWorkers ps')
      sc.state.clock ps'
    rw [Broker.readyScan, hframe]
    exact ⟨rfl, rfl, id⟩
  refine wp_dispatchReadyStages hps' (fun _ => h) (fun _ result _ _ => ?_) (fun _ _ _ => hscan)
    fun _ _ _ => ⟨?_, fun sc' h' _ _ => ⟨h', fun _ => h'⟩⟩
  · have hfail := hscan.update (f := fun ps => { ps with
      failed := true, error := some (funnelError result) }) fun _ _ => ⟨rfl, rfl, fun _ => rfl⟩
    exact ⟨hfail.workers, hfail.pipeline⟩
  · have hmark := hscan.update (f := fun ps => { ps with
      dispatchedStages := ps.dispatchedStages ∪ (sc.state.readyScan cfg ps').ready.toFinset })
        fun _ _ => ⟨rfl, rfl, id⟩
    exact hmark

theorem wp_completeOrAdvance_recorded {b : Broker} (h : Recorded b req ps sc.state) :
    (completeOrAdvance cfg req).wp r (fun sc' => Recorded b req ps sc'.state)
      (fun _ sc' => Recorded b req ps sc'.state) (fun _ sc' => Recorded b req ps sc'.state) sc := by
  obtain ⟨ps', hps', -⟩ := h.pipeline
  unfold completeOrAdvance
  rw [Co.wp_monad_bind, wp_getPipeline hps']
  split
  · exact ⟨h.workers, h.pipeline⟩
  · split
    · exact ⟨h.workers, h.pipeline⟩
    · rw [Co.wp_monad_bind]
      exact Co.wp_mono (fun _ _ h => h) (fun _ _ h => h) (wp_dispatchReadyStages_recorded h)

theorem recorded_recordResult (hps : sc.state.pipelines.get? req.pipelineId = some ps)
    (receivedType pipelineType : String) : Recorded sc.state req ps
      ((((sc.state.record (stageRecord req .stageResultReceived sc.state.clock
        receivedType)).updatePipeline req.pipelineId (·.recordResult req)).record
          (stageRecord req .stageStart req.startTime pipelineType)).record
            (stageRecord req .stageEnd req.endTime pipelineType)) := by
  refine ⟨rfl, ps.recordResult req, ?_, recordResult_dag ps req, rfl, id⟩
  show (sc.state.updatePipeline req.pipelineId (·.recordResult req)).pipelines.get? _ = _
  rw [Broker.get?_updatePipeline, if_pos rfl, hps]
  rfl

/-- The handlers record a stray result and release nothing. -/
theorem wp_strayResult (kind : BrokerKind) (hactive : sc.state.activePipeline? req.pipelineId = some ps)
    (hstray : req.stageId ∉ ps.allStages) :
    (brokerBody kind cfg (.result req)).wp r (fun sc' => Recorded sc.state req ps sc'.state)
      (fun _ sc' => Recorded sc.state req ps sc'.state)
      (fun _ sc' => Recorded sc.state req ps sc'.state) sc := by
  obtain ⟨-, hps⟩ := Withstands.active_of_activePipeline? hactive
  have hsame : ∀ t, (sc.state.record t).activePipeline? req.pipelineId = some ps := fun _ => hactive
  have hbase : (BaseBroker.handleResult cfg req).wp r (fun sc' => Recorded sc.state req ps sc'.state)
      (fun _ sc' => Recorded sc.state req ps sc'.state)
      (fun _ sc' => Recorded sc.state req ps sc'.state) sc := by
    unfold BaseBroker.handleResult
    simp only [Co.wp_monad_bind, Co.wp_read, Co.wp_modify, Scene.state_withState, hsame]
    exact wp_completeOrAdvance_recorded (recorded_recordResult hps "unknown" ps.pipelineType)
  cases kind with
  | base => exact hbase
  | static => exact hbase
  | neural =>
    show (NeuralBroker.result cfg req).wp _ _ _ _ _
    unfold NeuralBroker.result
    obtain ⟨e, he⟩ := getStage_error_iff.mpr hstray
    simp only [Co.wp_monad_bind, Co.wp_read, Co.wp_modify, Scene.state_withState, hsame,
      Co.wp_ofExcept, he]
    exact recorded_recordResult hps "__pending__" ps.pipelineType

theorem Recorded.handledAtomically_iff {b b' : Broker} (h : Recorded b req ps b')
    (hactive : b.activePipeline? req.pipelineId = some ps) (hstray : req.stageId ∉ ps.allStages) :
    HandledAtomically b b' req.pipelineId ↔
      (req.success = false ∨ req.stageId ∈ ps.completedStages) ∧
        ¬ CanComplete b req.pipelineId := by
  obtain ⟨-, hps⟩ := Withstands.active_of_activePipeline? hactive
  obtain ⟨ps', hps', hdag, hcompleted, hfailed⟩ := h.pipeline
  rw [recordResult_completed] at hcompleted
  rw [recordResult_failed] at hfailed
  -- whatever the report says, the pipeline cannot complete any more
  have hnever : ¬ CanComplete b' req.pipelineId := by
    rintro ⟨ps'', hactive'', hnot, hsub⟩
    obtain ⟨-, hps''⟩ := Withstands.active_of_activePipeline? hactive''
    obtain rfl := Option.some.inj (hps'.symm.trans hps'')
    cases hs : req.success with
    | false =>
      rw [hs] at hfailed
      rw [hfailed rfl] at hnot
      cases hnot
    | true =>
      rw [hcompleted, hs, if_pos rfl, PipelineState.allStages, hdag] at hsub
      exact hstray (hsub (Finset.mem_insert_self _ _))
  have hsets : (b'.pipelines.get? req.pipelineId).map (·.completedStages) =
      (b.pipelines.get? req.pipelineId).map (·.completedStages) ↔
        req.success = false ∨ req.stageId ∈ ps.completedStages := by
    rw [hps', hps, Option.map_some, Option.map_some, Option.some.injEq, hcompleted]
    cases req.success <;> simp
  constructor
  · exact fun hatomic => ⟨hsets.mp hatomic.completed, fun hcan => hnever (hatomic.canComplete hcan)⟩
  · exact fun hcond => ⟨hsets.mpr hcond.1, h.workers, fun hcan => absurd hcan hcond.2⟩

end Stray

/-- One handling of a stray result, up to its end or its first wait. -/
theorem recorded_of_strayResult (kind : BrokerKind) (cfg : BrokerConfig) {w w' : BrokerWorld}
    {req : StageResultRequest} {ps : PipelineState}
    (hactive : w.state.activePipeline? req.pipelineId = some ps)
    (hstray : req.stageId ∉ ps.allStages)
    (hw : w.perform (brokerBody kind cfg) (.call (.result req)) = some w') :
    Recorded w.state req ps w'.state := by
  have hsafe : (faultyRules kind cfg).Safe (fun sc' => Recorded w.state req ps sc'.state)
      (.result req) w.state (brokerBody kind cfg (.result req)) (w.scene.start (.result req)) := by
    have hstarted : (w.scene.start (.result req)).state.activePipeline? req.pipelineId = some ps :=
      hactive
    exact wp_strayResult kind hstarted hstray
  exact hsafe.scene_call hw

/-! ## Runs without stray results -/

/-- A quiet update keeps the DAG and what completed of every pipeline. -/
theorem Broker.Quiet.completed {b b' : Broker} (h : b.Quiet b') {pid : PipelineId}
    {ps' : PipelineState} (hps' : b'.pipelines.get? pid = some ps') :
    ∃ ps, b.pipelines.get? pid = some ps ∧ ps'.dag = ps.dag ∧
      ps'.completedStages = ps.completedStages := by
  have hp := h.progress pid
  rw [hps', Option.map_some, eq_comm, Option.map_eq_some_iff] at hp
  obtain ⟨ps, hps, hprogress⟩ := hp
  simp only [PipelineState.progress, Prod.mk.injEq] at hprogress
  exact ⟨ps, hps, hprogress.1.symm, hprogress.2.1.symm⟩

/-- So does the marking of the stages that a round schedules. -/
theorem markReady_completed {cfg : BrokerConfig} {b : Broker} {pid : PipelineId} {ps : PipelineState}
    (hps : b.pipelines.get? pid = some ps) {pid' : PipelineId} {ps' : PipelineState}
    (hps' : (b.markReady cfg pid ps).pipelines.get? pid' = some ps') :
    ∃ ps₀, b.pipelines.get? pid' = some ps₀ ∧ ps'.dag = ps₀.dag ∧
      ps'.completedStages = ps₀.completedStages := by
  rw [Broker.get?_markReady cfg b hps] at hps'
  split at hps'
  · next heq =>
    obtain rfl := Option.some.inj hps'
    obtain ⟨_, _, _, hframe⟩ := findReadyStages_frame cfg.funnel (b.deadWorkers ps) b.clock ps
    rw [Broker.readyScan, hframe]
    exact ⟨ps, heq ▸ hps, rfl, rfl⟩
  · exact ⟨ps', hps', rfl, rfl⟩

theorem keeps_noStrays (kind : BrokerKind) (cfg : BrokerConfig) :
    ((faultyRules kind cfg).provided NamesStage).Keeps fun sc =>
      OnlyDispatches sc ∧ NoStrays sc.state := by
  apply keeps_of_quiet
  · intro b b' hb hquiet pid ps' hps'
    obtain ⟨ps, hps, hdag, hcompleted⟩ := hquiet.completed hps'
    rw [hcompleted, PipelineState.allStages, hdag]
    exact hb pid ps hps
  · intro b req hb _ pid ps hps
    rw [Dict.get?_insert] at hps
    split at hps
    · obtain rfl := Option.some.inj hps
      exact Finset.empty_subset _
    · exact hb pid ps hps
  · intro b pid ps hb hps pid' ps' hps'
    obtain ⟨ps₀, hps₀, hdag, hcompleted⟩ := markReady_completed hps hps'
    rw [hcompleted, PipelineState.allStages, hdag]
    exact hb pid' ps₀ hps₀
  · exact fun _ _ _ hb _ _ => hb
  · intro sc req ps hb hnames hactive pid ps' hps'
    rw [Broker.get?_updatePipeline] at hps'
    split at hps'
    · obtain ⟨-, hps⟩ := Withstands.active_of_activePipeline? hactive
      rw [hps, Option.map_some] at hps'
      obtain rfl := Option.some.inj hps'
      rw [recordResult_completed, PipelineState.allStages, recordResult_dag]
      have hold := hb req.pipelineId ps hps
      split
      · next hs => exact Finset.insert_subset (hnames hs ps hactive) hold
      · exact hold
    · exact hb pid ps' hps'

/-- No pipeline with a stray is recorded as a success. -/
def StraysUnfinished (b : Broker) : Prop := ∀ pid, HasStray b pid → successCount b pid = 0

theorem successCount_active {sc : BrokerScene} (h : SafetyInv sc) {pid : PipelineId}
    (hactive : pid ∈ sc.state.activePipelines) : successCount sc.state pid = 0 := by
  apply List.countP_eq_zero.mpr
  intro c hc hsuccess
  simp only [decide_eq_true_eq] at hsuccess
  obtain ⟨hs, rfl⟩ := hsuccess
  exact (h.success c hc hs).1 hactive

theorem keeps_straysUnfinished (kind : BrokerKind) (cfg : BrokerConfig) :
    ((faultyRules kind cfg).provided fun sc _ => SafetyInv sc).Keeps fun sc =>
      OnlyDispatches sc ∧ StraysUnfinished sc.state := by
  apply keeps_of_quiet
  · rintro b b' hb hquiet pid ⟨ps', hps', hstray⟩
    obtain ⟨ps, hps, hdag, hcompleted⟩ := hquiet.completed hps'
    rw [hcompleted, PipelineState.allStages, hdag] at hstray
    obtain ⟨cs, hcs, hfail⟩ := hquiet.completions
    have hzero : cs.countP (fun c => c.success ∧ c.pipelineId = pid) = 0 :=
      List.countP_eq_zero.mpr fun c hc => by simp [hfail c hc]
    rw [successCount, hcs, List.countP_append, hzero]
    exact hb pid ⟨ps, hps, hstray⟩
  · rintro b req hb _ pid ⟨ps, hps, hstray⟩
    rw [Dict.get?_insert] at hps
    split at hps
    · obtain rfl := Option.some.inj hps
      exact absurd (Finset.empty_subset _) hstray
    · exact hb pid ⟨ps, hps, hstray⟩
  · rintro b pid ps hb hps pid' ⟨ps', hps', hstray⟩
    obtain ⟨ps₀, hps₀, hdag, hcompleted⟩ := markReady_completed hps hps'
    rw [hcompleted, PipelineState.allStages, hdag] at hstray
    exact hb pid' ⟨ps₀, hps₀, hstray⟩
  · rintro b pid ps hb hps hall pid' ⟨ps', hps', hstray⟩
    -- a pipeline that is finalised has no stray
    have hne : pid ≠ pid' := by
      rintro rfl
      obtain rfl := Option.some.inj (hps.symm.trans hps')
      exact hstray hall.subset
    have hother : [({ pipelineId := pid, success := true } : Completion)].countP
        (fun c => c.success ∧ c.pipelineId = pid') = 0 := by simp [hne]
    rw [successCount, Broker.metrics_popPipeline, Broker.completions_completePipeline,
      List.countP_append, hother]
    exact hb pid' ⟨ps', hps', hstray⟩
  · rintro sc req ps hb hsafe hactive pid ⟨ps', hps', hstray⟩
    rw [Broker.get?_updatePipeline] at hps'
    split at hps'
    · next heq =>
      subst heq
      exact successCount_active hsafe (Withstands.active_of_activePipeline? hactive).1
    · exact hb pid ⟨ps', hps', hstray⟩

/-! ## The last result of a pipeline -/

section Last

variable {r : Wake Broker Call WorkerMessage PyError Response} {cfg : BrokerConfig}
  {sc : BrokerScene} {req : StageResultRequest} {ps : PipelineState}

/-- The pipeline has left the active ones and has been recorded as a success. -/
def FinishedWell (pid : PipelineId) (sc : BrokerScene) : Prop :=
  pid ∉ sc.state.activePipelines ∧
    { pipelineId := pid, success := true } ∈ sc.state.metrics.completions

theorem wp_completeOrAdvance_last {ps' : PipelineState}
    (hps' : sc.state.pipelines.get? req.pipelineId = some ps') (hfailed : ps'.failed = false)
    (hall : ps'.completedStages = ps'.allStages) :
    (completeOrAdvance cfg req).wp r (FinishedWell req.pipelineId)
      (fun _ => FinishedWell req.pipelineId) (fun _ => FinishedWell req.pipelineId) sc := by
  unfold completeOrAdvance
  rw [Co.wp_monad_bind, wp_getPipeline hps', if_neg (by simp [hfailed]), if_pos hall]
  constructor
  · simp
  · simp

/-- The result of the last stage finalises a pipeline. -/
theorem wp_lastResult (kind : BrokerKind) (hactive : sc.state.activePipeline? req.pipelineId = some ps)
    (hfailed : ps.failed = false) (hsuccess : req.success = true)
    (hmem : req.stageId ∈ ps.allStages) (hsub : ps.completedStages ⊆ ps.allStages)
    (hlast : ps.allStages ⊆ insert req.stageId ps.completedStages) :
    (brokerBody kind cfg (.result req)).wp r (FinishedWell req.pipelineId)
      (fun _ => FinishedWell req.pipelineId) (fun _ => FinishedWell req.pipelineId) sc := by
  obtain ⟨-, hps⟩ := Withstands.active_of_activePipeline? hactive
  have hsame : ∀ t, (sc.state.record t).activePipeline? req.pipelineId = some ps := fun _ => hactive
  have hget : (sc.state.updatePipeline req.pipelineId (·.recordResult req)).pipelines.get?
      req.pipelineId = some (ps.recordResult req) := by
    simp [Broker.get?_updatePipeline, hps]
  have hfailed' : (ps.recordResult req).failed = false := by
    rw [recordResult_failed, if_pos hsuccess, hfailed]
  have hall : (ps.recordResult req).completedStages = (ps.recordResult req).allStages := by
    rw [recordResult_completed, if_pos hsuccess, PipelineState.allStages, recordResult_dag]
    exact (Finset.insert_subset hmem hsub).antisymm hlast
  have hbase : (BaseBroker.handleResult cfg req).wp r (FinishedWell req.pipelineId)
      (fun _ => FinishedWell req.pipelineId) (fun _ => FinishedWell req.pipelineId) sc := by
    unfold BaseBroker.handleResult
    simp only [Co.wp_monad_bind, Co.wp_read, Co.wp_modify, Scene.state_withState, hsame]
    exact wp_completeOrAdvance_last hget hfailed' hall
  cases kind with
  | base => exact hbase
  | static => exact hbase
  | neural =>
    show (NeuralBroker.result cfg req).wp _ _ _ _ _
    unfold NeuralBroker.result
    simp only [Co.wp_monad_bind, Co.wp_read, Co.wp_modify, Scene.state_withState, hsame,
      Co.wp_ofExcept]
    cases hstage : ps.dag.getStage req.stageId with
    | error e => exact absurd hmem (getStage_error_iff.mp ⟨e, hstage⟩)
    | ok stage =>
      apply wp_completeOrAdvance_last _ hfailed' hall
      rw [Scene.state_withState, NeuralBroker.pipelines_updateWorkerLoad]
      exact hget

end Last

/-! ## Every run -/

/-- A stray result is handled atomically exactly when it leaves the completed stages
alone and the pipeline could not complete anyway. Where successes name stages of
their pipelines, only stages of the DAG complete and the last one finalises the
pipeline; and a pipeline with a stray is never recorded as a success. -/
theorem strayResult_handledAtomically_iff (kind : BrokerKind) (cfg : BrokerConfig)
    {w w' : BrokerWorld} (hw : Fresh w) (hr : (faultyRules kind cfg).Reachable w w') :
    (∀ req ps w'', w'.state.activePipeline? req.pipelineId = some ps → req.stageId ∉ ps.allStages →
      w'.perform (brokerBody kind cfg) (.call (.result req)) = some w'' →
        (HandledAtomically w'.state w''.state req.pipelineId ↔
          (req.success = false ∨ req.stageId ∈ ps.completedStages) ∧
            ¬ CanComplete w'.state req.pipelineId)) ∧
    (((faultyRules kind cfg).provided NamesStage).Reachable w w' → NoStrays w'.state) ∧
    (∀ req ps w'', w'.state.activePipeline? req.pipelineId = some ps →
      CanComplete w'.state req.pipelineId → req.success = true → req.stageId ∈ ps.allStages →
      ps.allStages ⊆ insert req.stageId ps.completedStages →
      w'.perform (brokerBody kind cfg) (.call (.result req)) = some w'' →
        FinishedWell req.pipelineId w''.scene) ∧
    ∀ pid, HasStray w'.state pid → successCount w'.state pid = 0 := by
  have hdispatches : OnlyDispatches w.scene := by simp [OnlyDispatches, World.scene, hw.pending]
  refine ⟨?_, ?_, ?_, ?_⟩
  · intro req ps w'' hactive hstray hperform
    exact (recorded_of_strayResult kind cfg hactive hstray hperform).handledAtomically_iff hactive hstray
  · intro hnamed
    have hfresh : NoStrays w.scene.state := by
      intro pid ps hps
      rw [show w.scene.state.pipelines = .empty from hw.pipelines] at hps
      cases hps
    exact ((keeps_noStrays kind cfg).reachable ⟨hdispatches, hfresh⟩ hw.tasks hnamed).2
  · rintro req ps w'' hactive ⟨ps', hactive', hfailed, hsub⟩ hsuccess hmem hlast hperform
    obtain rfl := Option.some.inj (hactive.symm.trans hactive')
    have hsafe : (faultyRules kind cfg).Safe (FinishedWell req.pipelineId) (.result req) w'.state
        (brokerBody kind cfg (.result req)) (w'.scene.start (.result req)) := by
      have hstarted : (w'.scene.start (.result req)).state.activePipeline? req.pipelineId = some ps :=
        hactive
      exact wp_lastResult kind hstarted hfailed hsuccess hmem hsub hlast
    exact hsafe.scene_call hperform
  · have hwithin : ((faultyRules kind cfg).given SafetyInv).Within
        ((faultyRules kind cfg).provided fun sc _ => SafetyInv sc)
          (fun sc => OnlyDispatches sc ∧ StraysUnfinished sc.state) :=
      ⟨rfl, fun _ _ _ h => h, fun _ _ _ _ h => h.1, fun _ _ _ h => h.1, fun _ _ _ _ h => h.1⟩
    have hkeeps := (keeps_safetyInv kind cfg).and ((keeps_straysUnfinished kind cfg).within hwithin)
    have hfresh : StraysUnfinished w.scene.state := by
      rintro pid ⟨ps, hps, -⟩
      rw [show w.scene.state.pipelines = .empty from hw.pipelines] at hps
      cases hps
    exact (hkeeps.reachable ⟨hw.safetyInv, hdispatches, hfresh⟩ hw.tasks hr).2.2

private def sorterConfig : BrokerConfig := { domainId := "d1", brokerId := "b1" }

private def sorterWorld : BrokerWorld where
  state := { workers := .ofList [("w1", ⟨"w1", "d1", "s1", 4, "http://w1", 0, 0⟩)] }

private theorem fresh_sorterWorld : Fresh sorterWorld := ⟨rfl, rfl, rfl, rfl, rfl, rfl, rfl⟩

private def sorterTopology : NetworkTopology := ⟨[⟨"w1", "d1", "s1", 4, 0, none⟩], .empty⟩

/-- A pipeline of one stage, and a success that names another one. -/
private def sorterMoves : List (Base.Move Call PyError) :=
  [.call (.publish ⟨"p", "single", .ofLists [⟨"a", "sense", 1, 1, none, none, none⟩] [],
    .ofList [("a", "w1")], sorterTopology⟩), .start 1]

private def strayRequest : StageResultRequest := ⟨"p", "z", "w1", 0, 1, true, none⟩

private def failedRequest : StageResultRequest := { strayRequest with success := false }

/-- The unknown stage is reported as failed twice: the pipeline has failed by the
second time. -/
theorem strayResult_handledAtomically_iff_twice :
    ∃ w' ps w'', (faultyRules .neural sorterConfig).performAll
        (sorterMoves ++ [.call (.result failedRequest)]) sorterWorld = some w' ∧
      w'.state.activePipeline? "p" = some ps ∧
      w'.perform (brokerBody .neural sorterConfig) (.call (.result failedRequest)) = some w'' ∧
      (HandledAtomically w'.state w''.state "p" ↔
        (failedRequest.success = false ∨ "z" ∈ ps.completedStages) ∧
          ¬ CanComplete w'.state "p") := by
  have hrun : ∃ w', (faultyRules .neural sorterConfig).performAll
      (sorterMoves ++ [.call (.result failedRequest)]) sorterWorld = some w' ∧
        ∃ ps, w'.state.activePipeline? "p" = some ps ∧ "z" ∉ ps.allStages ∧
          (w'.perform (brokerBody .neural sorterConfig)
            (.call (.result failedRequest))).isSome := by
    decide +kernel
  obtain ⟨w', hw', ps, hactive, hstray, hsome⟩ := hrun
  obtain ⟨w'', hw''⟩ := Option.isSome_iff_exists.mp hsome
  exact ⟨w', ps, w'', hw', hactive, hw'', (strayResult_handledAtomically_iff .neural sorterConfig
    fresh_sorterWorld (Rules.reachable_of_performAll _ hw')).1 _ ps w'' hactive hstray hw''⟩

/-- Each broker takes the unknown stage for completed. -/
theorem not_handledAtomically :
    ¬ ∃ kind : BrokerKind, ∀ (cfg : BrokerConfig) (w w' w'' : BrokerWorld), Fresh w →
      (faultyRules kind cfg).Reachable w w' → ∀ req ps,
        w'.state.activePipeline? req.pipelineId = some ps → req.stageId ∉ ps.allStages →
        w'.perform (brokerBody kind cfg) (.call (.result req)) = some w'' →
          HandledAtomically w'.state w''.state req.pipelineId := by
  rintro ⟨kind, h⟩
  have hrun : ∃ w', (faultyRules kind sorterConfig).performAll sorterMoves sorterWorld = some w' ∧
      ∃ ps, w'.state.activePipeline? "p" = some ps ∧ "z" ∉ ps.allStages ∧
        ∃ w'', w'.perform (brokerBody kind sorterConfig) (.call (.result strayRequest)) = some w'' ∧
          (w''.state.pipelines.get? "p").map (·.completedStages) ≠
            (w'.state.pipelines.get? "p").map (·.completedStages) := by
    cases kind <;> decide +kernel
  obtain ⟨w', hw', ps, hactive, hstray, w'', hw'', hne⟩ := hrun
  exact hne (h sorterConfig sorterWorld w' w'' fresh_sorterWorld
    (Rules.reachable_of_performAll _ hw') strayRequest ps hactive hstray hw'').completed

end NeuralPubSub
