-- SUMMARY: When the neural broker may handle a stage result a second time without effect.
import NeuralPubSub.Broker.DispatchLoad
import NeuralPubSub.Broker.Safety

open Base

/-!
# Repeated results

A worker posts a result again when its first post times out. The handler of the
neural broker does not ask whether it has seen the result before: it releases
the load, records the stage and runs a dispatch round again.
-/

namespace NeuralPubSub
namespace NeuralBroker

/-! ## What a repetition must leave alone -/

/-- The loads, the sets of each pipeline, the active pipelines, the scheduled
dispatches and the messages are the same. -/
structure NoEffect (sc sc' : BrokerScene) : Prop where
  loads : ∀ n, sc'.state.loadOf n = sc.state.loadOf n
  progress : ∀ pid, (sc'.state.pipelines.get? pid).map (·.progress) =
    (sc.state.pipelines.get? pid).map (·.progress)
  active : sc'.state.activePipelines = sc.state.activePipelines
  pending : sc'.pending = sc.pending
  sent : sc'.sent = sc.sent

/-- A dispatch round would start a stage, or give up on missing inputs. -/
def RoundActs (cfg : BrokerConfig) (b : Broker) (ps : PipelineState) : Prop :=
  (∃ sid, ps.StartsComplete cfg.funnel (b.deadWorkers ps) sid ∨
    ps.StartsPartial cfg.funnel (b.deadWorkers ps) sid) ∨
  ps.FunnelFails cfg.funnel b.clock ∧
    ∃ sid ∈ ps.dag.stages.keys, ps.Pending sid ∧ ps.StalledFanIn (b.deadWorkers ps) sid

/-- Releasing the demand leaves the load where it is. -/
def ReleasesNothing (load demand : ℚ) : Prop := demand = 0 ∧ 0 ≤ load ∨ load = 0 ∧ 0 ≤ demand

/-- The pipeline is no longer active; or the success of the stage has been recorded
already and, unless the DAG has no such stage, the worker has nothing to
release, the pipeline neither ends nor has ended, and no dispatch round acts. -/
def RepeatsIdly (cfg : BrokerConfig) (b : Broker) (req : StageResultRequest) : Prop :=
  ∀ ps ∈ b.activePipeline? req.pipelineId,
    (req.success = true → req.stageId ∈ ps.completedStages) ∧
    ∀ stage ∈ ps.dag.stage? req.stageId,
      (∀ load ∈ b.loadOf req.nodeId, ReleasesNothing load stage.computationalDemand) ∧
      req.success = true ∧ ps.failed = false ∧ ps.completedStages ≠ ps.allStages ∧
        ¬ RoundActs cfg b ps

theorem max_sub_eq_self_iff {load demand : ℚ} :
    max 0 (load + -demand) = load ↔ ReleasesNothing load demand := by
  unfold ReleasesNothing
  grind

theorem not_roundActs_iff {cfg : BrokerConfig} {b : Broker} {ps : PipelineState} :
    ¬ RoundActs cfg b ps ↔ (b.readyScan cfg ps).ready = [] ∧
      (b.readyScan cfg ps).funnelResult.filter (·.pipelineFailed) = none := by
  have hready : (b.readyScan cfg ps).ready = [] ↔
      ¬ ∃ sid, ps.StartsComplete cfg.funnel (b.deadWorkers ps) sid ∨
        ps.StartsPartial cfg.funnel (b.deadWorkers ps) sid := by
    rw [List.eq_nil_iff_forall_not_mem, not_exists]
    exact forall_congr' fun sid => not_congr (mem_ready_iff ..)
  have hpolicy : (b.readyScan cfg ps).funnelResult.filter (·.pipelineFailed) = none ↔
      ¬ (ps.FunnelFails cfg.funnel b.clock ∧
        ∃ sid ∈ ps.dag.stages.keys, ps.Pending sid ∧ ps.StalledFanIn (b.deadWorkers ps) sid) := by
    rw [← (ReadyScan.findReadyStages_inv cfg.funnel (b.deadWorkers ps) b.clock ps).failed]
    simp [Option.filter_eq_none_iff, Broker.readyScan]
  unfold RoundActs
  rw [not_or, hready, hpolicy]

instance (load demand : ℚ) : Decidable (ReleasesNothing load demand) :=
  inferInstanceAs (Decidable (_ ∨ _))

instance (cfg : BrokerConfig) (b : Broker) (ps : PipelineState) : Decidable (¬ RoundActs cfg b ps) :=
  decidable_of_iff _ not_roundActs_iff.symm

instance (cfg : BrokerConfig) (b : Broker) (req : StageResultRequest) :
    Decidable (RepeatsIdly cfg b req) :=
  inferInstanceAs (Decidable (∀ ps ∈ b.activePipeline? req.pipelineId, _ ∧
    ∀ stage ∈ ps.dag.stage? req.stageId, _))

/-! ## The effect of one result -/

theorem recordResult_progress {ps : PipelineState} {req : StageResultRequest} :
    (ps.recordResult req).progress = ps.progress ↔
      (req.success = true → req.stageId ∈ ps.completedStages) := by
  unfold PipelineState.recordResult PipelineState.progress
  cases req.success <;> simp

theorem recordResult_not_failed {ps : PipelineState} {req : StageResultRequest}
    (h : (ps.recordResult req).failed = false) : req.success = true ∧ ps.failed = false := by
  unfold PipelineState.recordResult at h
  cases hs : req.success with
  | true => simpa [hs] using h
  | false => simp [hs] at h

/-- A result whose success has been recorded already does not change the pipeline. -/
theorem recordResult_eq_self {ps : PipelineState} {req : StageResultRequest}
    (hs : req.success = true) (hc : req.stageId ∈ ps.completedStages) :
    ps.recordResult req = ps := by
  unfold PipelineState.recordResult
  rw [if_pos hs, Finset.insert_eq_of_mem hc]

section Effect

variable {r : Wake Broker Call WorkerMessage PyError Response} {cfg : BrokerConfig}
  {sc : BrokerScene} {req : StageResultRequest} {ps : PipelineState}

/-- A handler that has left the active pipelines alone and scheduled nothing has no
effect when the load stays and the success was recorded before. -/
theorem noEffect_iff {b : Broker} {f : ℚ → ℚ} (hps : sc.state.pipelines.get? req.pipelineId = some ps)
    (hactive : b.activePipelines = sc.state.activePipelines)
    (hloads : ChangesOnly sc.state b req.nodeId f)
    (hprogress : ∀ pid, (b.pipelines.get? pid).map (·.progress) =
      ((sc.state.updatePipeline req.pipelineId (·.recordResult req)).pipelines.get? pid).map
        (·.progress)) :
    NoEffect sc (sc.withState b) ↔ (req.success = true → req.stageId ∈ ps.completedStages) ∧
      ∀ load ∈ sc.state.loadOf req.nodeId, f load = load := by
  simp only [Broker.get?_updatePipeline] at hprogress
  constructor
  · intro h
    constructor
    · have hp := (hprogress req.pipelineId).symm.trans (h.progress req.pipelineId)
      rw [if_pos rfl, hps] at hp
      exact recordResult_progress.mp (Option.some.inj hp)
    · intro load hload
      have hn := (hloads req.nodeId).symm.trans (h.loads req.nodeId)
      rw [if_pos rfl, hload] at hn
      exact Option.some.inj hn
  · rintro ⟨hrecorded, hload⟩
    refine ⟨fun n => ?_, fun pid => ?_, hactive, rfl, rfl⟩
    · rw [Scene.state_withState, hloads n]
      split
      · next heq =>
        subst heq
        cases hl : sc.state.loadOf req.nodeId with
        | none => rfl
        | some load => simp [hload load hl]
      · rfl
    · rw [Scene.state_withState, hprogress pid]
      split
      · next heq =>
        subst heq
        simp [hps, recordResult_progress.mpr hrecorded]
      · rfl

theorem noEffect_congr {b b' : Broker} (hworkers : b'.workers = b.workers)
    (hactive : b'.activePipelines = b.activePipelines)
    (hprogress : ∀ pid, (b'.pipelines.get? pid).map (·.progress) =
      (b.pipelines.get? pid).map (·.progress)) :
    NoEffect sc (sc.withState b') ↔ NoEffect sc (sc.withState b) := by
  have hloads : ∀ n, b'.loadOf n = b.loadOf n := fun n => loadOf_congr hworkers n
  constructor
  · exact fun h => ⟨fun n => (hloads n).symm.trans (h.loads n),
      fun pid => (hprogress pid).symm.trans (h.progress pid), hactive.symm.trans h.active, rfl, rfl⟩
  · exact fun h => ⟨fun n => (hloads n).trans (h.loads n),
      fun pid => (hprogress pid).trans (h.progress pid), hactive.trans h.active, rfl, rfl⟩

/-- A handler that takes a pipeline out of the active ones has an effect. -/
theorem not_noEffect_of_popped {b : Broker} (hactive : req.pipelineId ∈ sc.state.activePipelines)
    (hpop : req.pipelineId ∉ b.activePipelines) : ¬ NoEffect sc (sc.withState b) :=
  fun h => hpop (h.active.symm ▸ hactive)

/-- So has one that schedules a stage. -/
theorem not_noEffect_of_scheduled {b : Broker} {calls : List Call} (hcalls : calls ≠ []) :
    ¬ NoEffect sc ((sc.withState b).schedule calls) :=
  fun h => hcalls (by simpa using h.pending)

/-! ## The handler -/

theorem repeatsIdly_iff_of_stage {stage : Stage}
    (hactive : sc.state.activePipeline? req.pipelineId = some ps)
    (hstage : ps.dag.stage? req.stageId = some stage) :
    RepeatsIdly cfg sc.state req ↔ (req.success = true → req.stageId ∈ ps.completedStages) ∧
      (∀ load ∈ sc.state.loadOf req.nodeId, ReleasesNothing load stage.computationalDemand) ∧
      req.success = true ∧ ps.failed = false ∧ ps.completedStages ≠ ps.allStages ∧
        ¬ RoundActs cfg sc.state ps := by
  unfold RepeatsIdly
  simp [hactive, hstage]

/-- Whether a round acts depends on the registered ids and the clock only. -/
theorem roundActs_congr {b b' : Broker} (hkeys : b'.workers.keys = b.workers.keys)
    (hclock : b'.clock = b.clock) : RoundActs cfg b' ps ↔ RoundActs cfg b ps := by
  unfold RoundActs Broker.deadWorkers
  rw [hkeys, hclock]

/-- The last part of the handler, once the result has been recorded and the load
released. -/
theorem wp_completeOrAdvance {b : Broker} {stage : Stage}
    (hactive : sc.state.activePipeline? req.pipelineId = some ps)
    (hstage : ps.dag.stage? req.stageId = some stage)
    (hget : b.pipelines.get? req.pipelineId = some (ps.recordResult req))
    (hkeys : b.workers.keys = sc.state.workers.keys) (hclock : b.clock = sc.state.clock)
    (hidle : NoEffect sc (sc.withState b) ↔
      (req.success = true → req.stageId ∈ ps.completedStages) ∧
        ∀ load ∈ sc.state.loadOf req.nodeId, ReleasesNothing load stage.computationalDemand) :
    (completeOrAdvance cfg req).wp r
      (fun sc' => NoEffect sc sc' ↔ RepeatsIdly cfg sc.state req)
      (fun _ sc' => NoEffect sc sc' ↔ RepeatsIdly cfg sc.state req)
      (fun _ sc' => NoEffect sc sc' ↔ RepeatsIdly cfg sc.state req) (sc.withState b) := by
  obtain ⟨hmem, -⟩ := Withstands.active_of_activePipeline? hactive
  -- a repetition without effect finds the pipeline as the first handling left it
  have hself : RepeatsIdly cfg sc.state req → ps.recordResult req = ps ∧ ps.failed = false ∧
      ps.completedStages ≠ ps.allStages ∧ ¬ RoundActs cfg b ps := by
    rw [repeatsIdly_iff_of_stage hactive hstage, roundActs_congr hkeys hclock]
    rintro ⟨hrecorded, -, hs, hrest⟩
    exact ⟨recordResult_eq_self hs (hrecorded hs), hrest⟩
  have hpopped : ∀ b' : Broker, req.pipelineId ∉ b'.activePipelines →
      ¬ RepeatsIdly cfg sc.state req →
        (NoEffect sc (sc.withState b') ↔ RepeatsIdly cfg sc.state req) :=
    fun b' hpop hnot => iff_of_false (not_noEffect_of_popped hmem hpop) hnot
  unfold completeOrAdvance
  rw [Co.wp_monad_bind, wp_getPipeline hget]
  split
  · next hfailed =>
    apply hpopped
    · simp
    · intro h
      obtain ⟨hps, hf, -⟩ := hself h
      simp [hps, hf] at hfailed
  · split
    · next hall =>
      apply hpopped
      · simp
      · intro h
        obtain ⟨hps, -, hne, -⟩ := hself h
        rw [hps] at hall
        exact hne hall
    · next hfailed hall =>
      simp only [Co.wp_monad_bind, Co.wp_pure]
      refine wp_dispatchReadyStages hget (fun hf => absurd hf hfailed) ?_ ?_ ?_
      · intro _ result hresult hfail
        apply hpopped
        · simp
        · intro h
          obtain ⟨hps, -, -, hround⟩ := hself h
          obtain ⟨-, hnone⟩ := not_roundActs_iff.mp hround
          rw [hps] at hresult
          exact Option.filter_eq_none_iff.mp hnone result hresult hfail
      · intro hf hnone hnil
        have hscan : NoEffect sc (sc.withState (b.updatePipeline req.pipelineId fun _ =>
            (b.readyScan cfg (ps.recordResult req)).ps)) ↔ NoEffect sc (sc.withState b) := by
          refine noEffect_congr rfl rfl (b.aside_updatePipeline req.pipelineId ?_).progress
          intro ps' hps'
          obtain rfl := Option.some.inj (hget.symm.trans hps')
          exact (findReadyStages_frame ..).progress
        rw [Scene.withState_withState]
        apply hscan.trans
        rw [hidle, repeatsIdly_iff_of_stage hactive hstage, ← roundActs_congr hkeys hclock]
        apply and_congr_right
        intro hrecorded
        apply (and_iff_left _).symm
        obtain ⟨hs, hpf⟩ := recordResult_not_failed hf
        rw [recordResult_eq_self hs (hrecorded hs)] at hall hnone hnil
        exact ⟨hs, hpf, hall, not_roundActs_iff.mpr ⟨hnil, hnone⟩⟩
      · intro _ _ hne
        have hscheduled : NoEffect sc (((sc.withState b).withState (b.markReady cfg req.pipelineId
            (ps.recordResult req))).schedule ((b.readyScan cfg (ps.recordResult req)).ready.map
              (.dispatchStage req.pipelineId))) ↔ RepeatsIdly cfg sc.state req := by
          apply iff_of_false
          · exact not_noEffect_of_scheduled (by simpa using hne)
          · intro h
            obtain ⟨hps, -, -, hround⟩ := hself h
            rw [hps] at hne
            exact hne (not_roundActs_iff.mp hround).1
        exact ⟨hscheduled, fun sc' h _ _ => ⟨h, fun _ => h⟩⟩

/-- The state in which the handler looks the stage up. -/
def recorded (req : StageResultRequest) (ps : PipelineState) (b : Broker) : Broker :=
  (((b.record (stageRecord req .stageResultReceived b.clock "__pending__")).updatePipeline
    req.pipelineId (·.recordResult req)).record
      (stageRecord req .stageStart req.startTime ps.pipelineType)).record
        (stageRecord req .stageEnd req.endTime ps.pipelineType)

theorem changesOnly_of_workers {b b' : Broker} {nodeId : NodeId} (h : b'.workers = b.workers) :
    ChangesOnly b b' nodeId id := by
  intro n
  rw [loadOf_congr h]
  split
  · next heq => simp [heq]
  · rfl

theorem wp_result : (result cfg req).wp r
    (fun sc' => NoEffect sc sc' ↔ RepeatsIdly cfg sc.state req)
    (fun _ sc' => NoEffect sc sc' ↔ RepeatsIdly cfg sc.state req)
    (fun _ sc' => NoEffect sc sc' ↔ RepeatsIdly cfg sc.state req) sc := by
  unfold result
  simp only [Co.wp_monad_bind, Co.wp_read, Co.wp_modify, Scene.state_withState]
  have hsame : (sc.state.record (stageRecord req .stageResultReceived sc.state.clock
      "__pending__")).activePipeline? req.pipelineId = sc.state.activePipeline? req.pipelineId := rfl
  rw [hsame]
  cases hactive : sc.state.activePipeline? req.pipelineId with
  | none =>
    have hidle : RepeatsIdly cfg sc.state req := by simp [RepeatsIdly, hactive]
    exact iff_of_true ⟨fun _ => rfl, fun _ => rfl, rfl, rfl, rfl⟩ hidle
  | some ps =>
    obtain ⟨-, hps⟩ := Withstands.active_of_activePipeline? hactive
    simp only [Co.wp_monad_bind, Co.wp_modify, Co.wp_ofExcept, Scene.state_withState,
      Scene.withState_withState]
    have hget : (sc.state.updatePipeline req.pipelineId (·.recordResult req)).pipelines.get?
        req.pipelineId = some (ps.recordResult req) := by
      simp [Broker.get?_updatePipeline, hps]
    have hloads : ChangesOnly sc.state (recorded req ps sc.state) req.nodeId id :=
      changesOnly_of_workers rfl
    cases hstage : ps.dag.getStage req.stageId with
    | error e =>
      have hnone : ps.dag.stage? req.stageId = none := by
        cases h : ps.dag.stage? req.stageId with
        | none => rfl
        | some stage => cases hstage.symm.trans (subscript_eq_ok_iff.mpr h)
      have hidle := noEffect_iff (b := recorded req ps sc.state) hps rfl hloads fun _ => rfl
      apply hidle.trans
      simp [RepeatsIdly, hactive, hnone]
    | ok stage =>
      let b := updateWorkerLoad req.nodeId (-stage.computationalDemand) (recorded req ps sc.state)
      have hrelease : ChangesOnly sc.state b req.nodeId _ :=
        hloads.trans (changesOnly_updateWorkerLoad req.nodeId (-stage.computationalDemand) _)
      have hpipelines : b.pipelines = (recorded req ps sc.state).pipelines :=
        pipelines_updateWorkerLoad ..
      have hactives : b.activePipelines = sc.state.activePipelines :=
        activePipelines_updateWorkerLoad ..
      have hidle := noEffect_iff (b := b) hps hactives hrelease fun pid => by rw [hpipelines]; rfl
      apply wp_completeOrAdvance (b := b) hactive (subscript_eq_ok_iff.mp hstage)
      · rw [hpipelines]
        exact hget
      · exact keys_updateWorkerLoad ..
      · exact clock_updateWorkerLoad ..
      · apply hidle.trans
        simp only [id, max_sub_eq_self_iff]

end Effect

/-! ## Repetitions in every run -/

theorem noEffect_start_iff {sc sc' : BrokerScene} {c : Call} :
    NoEffect (sc.start c) sc' ↔ NoEffect sc sc' :=
  ⟨fun h => ⟨h.loads, h.progress, h.active, h.pending, h.sent⟩,
    fun h => ⟨h.loads, h.progress, h.active, h.pending, h.sent⟩⟩

theorem noEffect_answer_iff {sc sc' : BrokerScene} {c : Call} {e : Except PyError Response} :
    NoEffect sc (sc'.answer c e) ↔ NoEffect sc sc' :=
  ⟨fun h => ⟨h.loads, h.progress, h.active, h.pending, h.sent⟩,
    fun h => ⟨h.loads, h.progress, h.active, h.pending, h.sent⟩⟩

/-- One handling of a result, up to its end or its first wait. -/
theorem noEffect_iff_of_result (cfg : BrokerConfig) {w w' : BrokerWorld} {req : StageResultRequest}
    (hw : w.perform (brokerBody .neural cfg) (.call (.result req)) = some w') :
    NoEffect w.scene w'.scene ↔ RepeatsIdly cfg w.state req := by
  have hsafe : (faultyRules .neural cfg).Safe
      (fun sc' => NoEffect w.scene sc' ↔ RepeatsIdly cfg w.state req) (.result req) w.state
        (brokerBody .neural cfg (.result req)) (w.scene.start (.result req)) := by
    have hwp := @wp_result ((faultyRules .neural cfg).wake (.result req) w.state) cfg
      (w.scene.start (.result req)) req
    simp only [noEffect_start_iff] at hwp
    unfold Rules.Safe
    simp only [noEffect_answer_iff]
    exact hwp
  exact hsafe.scene_call hw

/-- In every run, a result that is handled a second time leaves the loads, the sets
of every pipeline and the active pipelines alone and sends nothing, exactly when
it repeats idly; and no stage is scheduled twice. -/
theorem repeatedResult_noEffect_iff (cfg : BrokerConfig) {w w₁ w₂ w₃ w₄ : BrokerWorld}
    (hw : Fresh w) (hr : (faultyRules .neural cfg).Reachable w w₁) (req : StageResultRequest)
    (hfirst : w₁.perform (brokerBody .neural cfg) (.call (.result req)) = some w₂)
    (hbetween : (faultyRules .neural cfg).Reachable w₂ w₃)
    (hsecond : w₃.perform (brokerBody .neural cfg) (.call (.result req)) = some w₄) :
    (NoEffect w₃.scene w₄.scene ↔ RepeatsIdly cfg w₃.state req) ∧
      ∀ pid sid, scheduleCount w₄.scene pid sid ≤ 1 := by
  refine ⟨noEffect_iff_of_result cfg hsecond, ?_⟩
  have hpermits : ∀ v : BrokerWorld, (faultyRules .neural cfg).Permits v (.call (.result req)) :=
    fun _ => trivial
  have hrun := (hr.step (hpermits w₁) hfirst).trans hbetween
  have hI := (keeps_safetyInv .neural cfg).reachable hw.safetyInv hw.tasks
    (hrun.step (hpermits w₃) hsecond)
  exact hI.scheduled

private def echoConfig : BrokerConfig := { domainId := "d1", brokerId := "b1" }

private def echoTopology : NetworkTopology :=
  ⟨[⟨"w1", "d1", "s1", 4, 0, none⟩, ⟨"w2", "d1", "s1", 4, 0, none⟩], .ofList [(("w1", "w2"), 2)]⟩

private def echoWorld : BrokerWorld where
  state := { workers := .ofList [("w1", ⟨"w1", "d1", "s1", 4, "http://w1", 0, 0⟩),
    ("w2", ⟨"w2", "d1", "s1", 4, "http://w2", 0, 0⟩)] }

private theorem fresh_echoWorld : Fresh echoWorld := ⟨rfl, rfl, rfl, rfl, rfl, rfl, rfl⟩

private def echoResult : StageResultRequest := ⟨"p", "a", "w1", 0, 1, true, none⟩

/-- The first stage of a chain is sent. -/
private def echoMoves (hostOfB : NodeId) : List (Base.Move Call PyError) :=
  [.call (.publish ⟨"p", "chain", .ofLists [⟨"a", "sense", 1, 1, none, none, none⟩,
      ⟨"b", "filter", 1, 1, none, none, none⟩] [⟨"a", "b", 10⟩],
        .ofList [("a", "w1"), ("b", hostOfB)], echoTopology⟩), .start 1, .reply 1 (.ok ())]

/-- The first stage of a chain reports twice, the second time while its successor runs on
another worker: the pipeline is active and the repetition changes nothing. -/
theorem repeatedResult_noEffect_iff_single :
    ∃ w₁ w₂ w₃ w₄ : BrokerWorld,
      (faultyRules .neural echoConfig).performAll (echoMoves "w2") echoWorld = some w₁ ∧
      w₁.perform (brokerBody .neural echoConfig) (.call (.result echoResult)) = some w₂ ∧
      (faultyRules .neural echoConfig).performAll [.start 3, .reply 3 (.ok ()), .call (.tick 5)] w₂ =
        some w₃ ∧
      w₃.perform (brokerBody .neural echoConfig) (.call (.result echoResult)) = some w₄ ∧
      "p" ∈ w₃.state.activePipelines ∧ NoEffect w₃.scene w₄.scene ∧
        ∀ pid sid, scheduleCount w₄.scene pid sid ≤ 1 := by
  have hrun : ∃ w₁,
      (faultyRules .neural echoConfig).performAll (echoMoves "w2") echoWorld = some w₁ ∧
      ∃ w₂, w₁.perform (brokerBody .neural echoConfig) (.call (.result echoResult)) = some w₂ ∧
        ∃ w₃, (faultyRules .neural echoConfig).performAll
            [.start 3, .reply 3 (.ok ()), .call (.tick 5)] w₂ = some w₃ ∧
          ∃ w₄, w₃.perform (brokerBody .neural echoConfig) (.call (.result echoResult)) = some w₄ ∧
            "p" ∈ w₃.state.activePipelines ∧
              RepeatsIdly echoConfig w₃.state echoResult := by decide +kernel
  obtain ⟨w₁, hw₁, w₂, hw₂, w₃, hw₃, w₄, hw₄, hmem, hidly⟩ := hrun
  obtain ⟨hiff, hcounts⟩ := repeatedResult_noEffect_iff echoConfig fresh_echoWorld
    (Rules.reachable_of_performAll _ hw₁) echoResult hw₂ (Rules.reachable_of_performAll _ hw₃) hw₄
  exact ⟨w₁, w₂, w₃, w₄, hw₁, hw₂, hw₃, hw₄, hmem, hiff.mpr hidly, hcounts⟩

/-- The first stage of a chain reports twice, the second time while its successor
runs on the same worker: the repetition releases the load of the successor. -/
theorem not_repeatedResult_noEffect :
    ¬ ∀ (cfg : BrokerConfig) (w w₁ w₂ w₃ w₄ : BrokerWorld) (req : StageResultRequest), Fresh w →
      (faultyRules .neural cfg).Reachable w w₁ →
      w₁.perform (brokerBody .neural cfg) (.call (.result req)) = some w₂ →
      (faultyRules .neural cfg).Reachable w₂ w₃ →
      w₃.perform (brokerBody .neural cfg) (.call (.result req)) = some w₄ →
        NoEffect w₃.scene w₄.scene := by
  intro h
  have hrun : ∃ w₁,
      (faultyRules .neural echoConfig).performAll (echoMoves "w1") echoWorld = some w₁ ∧
      ∃ w₂, w₁.perform (brokerBody .neural echoConfig) (.call (.result echoResult)) = some w₂ ∧
        ∃ w₃, (faultyRules .neural echoConfig).performAll [.start 3] w₂ = some w₃ ∧
          ∃ w₄, w₃.perform (brokerBody .neural echoConfig) (.call (.result echoResult)) = some w₄ ∧
            w₄.state.loadOf "w1" ≠ w₃.state.loadOf "w1" := by decide +kernel
  obtain ⟨w₁, hw₁, w₂, hw₂, w₃, hw₃, w₄, hw₄, hne⟩ := hrun
  have hsame := h echoConfig echoWorld w₁ w₂ w₃ w₄ echoResult fresh_echoWorld
    (Rules.reachable_of_performAll _ hw₁) hw₂ (Rules.reachable_of_performAll _ hw₃) hw₄
  exact hne (hsame.loads "w1")

end NeuralBroker
end NeuralPubSub
