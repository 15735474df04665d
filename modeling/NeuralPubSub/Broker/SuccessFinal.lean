-- SUMMARY: When a recorded success of the base broker is final, although its sends may still fail afterwards.
import NeuralPubSub.Broker.Safety

open Base

/-!
# Success is final

A dispatch of the base broker waits for the answer of its send while the result
handler may already complete the pipeline. When the send then fails, the
dispatch fails the pipeline whatever it has become. Here the sends of a pipeline
are only allowed to fail before its success has been recorded.
-/

namespace NeuralPubSub

/-- `complete_pipeline` has been called with `success=True`. -/
def Broker.Succeeded (b : Broker) (pipelineId : PipelineId) : Prop :=
  ∃ c ∈ b.metrics.completions, c.pipelineId = pipelineId ∧ c.success = true

instance (b : Broker) (pipelineId : PipelineId) : Decidable (b.Succeeded pipelineId) :=
  inferInstanceAs (Decidable (∃ c ∈ _, _))

namespace BaseBroker

/-! ## The environment -/

/-- The host of a stage of a pipeline that has succeeded is still registered. -/
def MayDispatch (b : Broker) (pipelineId : PipelineId) (stageId : StageId) : Prop :=
  b.Succeeded pipelineId → ∀ ps ∈ b.pipelines.get? pipelineId, ∀ nodeId ∈ ps.placement.get? stageId,
    nodeId ∈ b.workers

/-- Any faults, except that a pipeline that has succeeded sees neither a failed
send nor the dispatch of a stage whose host has left. -/
def lateFaultRules (cfg : BrokerConfig) : Rules Broker Call WorkerMessage PyError Response :=
  { faultyRules .base cfg with
    mayReply := fun sc m e => e ≠ .ok () → ¬ sc.state.Succeeded m.payload.pipelineId
    mayStart := fun sc c => match c with
      | .dispatchStage pipelineId stageId => MayDispatch sc.state pipelineId stageId
      | _ => True }

instance (b : Broker) (pipelineId : PipelineId) (stageId : StageId) :
    Decidable (MayDispatch b pipelineId stageId) :=
  inferInstanceAs (Decidable (_ → _))

instance (cfg : BrokerConfig) : (lateFaultRules cfg).DecidableRules where
  mayCall := Rules.DecidableRules.mayCall (r := faultyRules .base cfg)
  mayReply sc m e := inferInstanceAs (Decidable (e ≠ .ok () → ¬ sc.state.Succeeded m.payload.pipelineId))
  mayStart sc
    | .dispatchStage pid sid => inferInstanceAs (Decidable (MayDispatch sc.state pid sid))
    | .publish _ | .register _ | .deregister _ | .result _ | .healthCheck _ | .cachePeerWorkers _
    | .tick _ => isTrue trivial
  mayJoin _ _ _ := isTrue trivial

/-! ## The invariant -/

/-- The client or worker has been told that the pipeline is complete. -/
def AnsweredComplete (sc : BrokerScene) (pipelineId : PipelineId) : Prop :=
  ∃ c, (c, .ok (.pipelineComplete pipelineId)) ∈ sc.answered

/-- What the broker shows of a pipeline that has succeeded. -/
structure Settled (b : Broker) (pipelineId : PipelineId) : Prop where
  known : pipelineId ∈ b.pipelines
  inactive : pipelineId ∉ b.activePipelines
  only : b.metrics.completionsOf pipelineId = [{ pipelineId := pipelineId, success := true }]
  outcome : b.metrics.outcome pipelineId = some (true, none, false)

/-- A pipeline that is not known yet, or still active. -/
def Open (b : Broker) (pipelineId : PipelineId) : Prop :=
  pipelineId ∉ b.pipelines ∨ pipelineId ∈ b.activePipelines

/-- What holds whenever the handlers of a base broker wait. -/
structure FinalInv (sc : BrokerScene) : Prop where
  pending : OnlyDispatches sc
  named : ∀ pid ps, sc.state.pipelines.get? pid = some ps → ps.pipelineId = pid
  dispatched : ∀ pid sid, .dispatchStage pid sid ∈ sc.pending ++ sc.started →
    pid ∈ sc.state.pipelines
  opened : ∀ pid, Open sc.state pid → sc.state.metrics.completionsOf pid = []
  settled : ∀ pid, sc.state.Succeeded pid → Settled sc.state pid
  answered : ∀ pid, sc.state.Succeeded pid ↔ AnsweredComplete sc pid

/-! ## Updates -/

/-- An update that records no completion, admits no pipeline and activates none. -/
structure Steady (b b' : Broker) : Prop where
  completions : b'.metrics.completions = b.metrics.completions
  outcome : ∀ pid x, b.metrics.outcome pid = some x → b'.metrics.outcome pid = some x
  active : ∀ pid ∈ b'.activePipelines, pid ∈ b.activePipelines
  known : ∀ pid, pid ∈ b'.pipelines ↔ pid ∈ b.pipelines
  named : ∀ pid ps', b'.pipelines.get? pid = some ps' →
    ∃ ps, b.pipelines.get? pid = some ps ∧ ps'.pipelineId = ps.pipelineId

theorem Steady.of_eq {b b' : Broker} (hm : b'.metrics = b.metrics)
    (ha : b'.activePipelines = b.activePipelines) (hp : b'.pipelines = b.pipelines) :
    Steady b b' where
  completions := by rw [hm]
  outcome := by
    rw [hm]
    exact fun _ _ h => h
  active := by
    rw [ha]
    exact fun _ h => h
  known pid := by rw [hp]
  named pid ps' h := ⟨ps', hp ▸ h, rfl⟩

theorem steady_record (b : Broker) (r : TimestampRecord) : Steady b (b.record r) where
  completions := rfl
  outcome _ _ h := MetricsCollector.outcome_record r h
  active _ h := h
  known _ := Iff.rfl
  named _ ps' h := ⟨ps', h, rfl⟩

theorem steady_updatePipeline (b : Broker) (pid : PipelineId) {f : PipelineState → PipelineState}
    (h : ∀ ps, b.pipelines.get? pid = some ps → (f ps).pipelineId = ps.pipelineId) :
    Steady b (b.updatePipeline pid f) where
  completions := rfl
  outcome _ _ h := h
  active _ h := h
  known _ := Dict.mem_modify
  named pid' ps' hps' := by
    rw [Broker.get?_updatePipeline] at hps'
    split at hps'
    · next heq =>
      obtain ⟨ps, hps, rfl⟩ := Option.map_eq_some_iff.mp hps'
      exact ⟨ps, heq ▸ hps, h ps hps⟩
    · exact ⟨ps', hps', rfl⟩

namespace FinalInv

variable {sc : BrokerScene}

theorem steady (h : FinalInv sc) {b : Broker} (hb : Steady sc.state b) :
    FinalInv (sc.withState b) := by
  have hsucceeded : ∀ pid, b.Succeeded pid ↔ sc.state.Succeeded pid := fun pid => by
    unfold Broker.Succeeded
    rw [hb.completions]
  have hcompletions : ∀ pid, b.metrics.completionsOf pid = sc.state.metrics.completionsOf pid :=
    fun pid => by rw [MetricsCollector.completionsOf, hb.completions]; rfl
  constructor
  · exact h.pending
  · intro pid ps' hps'
    obtain ⟨ps, hps, hid⟩ := hb.named pid ps' hps'
    rw [hid, h.named pid ps hps]
  · exact fun pid sid hd => (hb.known pid).mpr (h.dispatched pid sid hd)
  · intro pid hopen
    rw [Scene.state_withState, hcompletions]
    exact h.opened pid (hopen.imp (mt (hb.known pid).mpr) (hb.active pid))
  · intro pid hs
    have hold := h.settled pid ((hsucceeded pid).mp hs)
    exact ⟨(hb.known pid).mpr hold.known, mt (hb.active pid) hold.inactive,
      (hcompletions pid).trans hold.only, hb.outcome pid _ hold.outcome⟩
  · intro pid
    exact (hsucceeded pid).trans (h.answered pid)

/-- A failure is recorded of a pipeline that has not succeeded, which leaves the
active ones. -/
theorem failed (h : FinalInv sc) {pid : PipelineId} (hknown : pid ∈ sc.state.pipelines)
    (hnot : ¬ sc.state.Succeeded pid) {c : Completion} (hc : c.pipelineId = pid)
    (hfail : c.success = false) :
    FinalInv (sc.withState ((sc.state.completePipeline c).popPipeline pid)) := by
  subst hc
  have hsucceeded : ∀ pid, ((sc.state.completePipeline c).popPipeline c.pipelineId).Succeeded pid ↔
      sc.state.Succeeded pid := fun pid => by
    unfold Broker.Succeeded
    simp [hfail]
  refine ⟨h.pending, h.named, h.dispatched, fun pid hopen => ?_, fun pid hs => ?_, fun pid => ?_⟩
  · have hne : c.pipelineId ≠ pid := by
      rintro rfl
      rcases hopen with hopen | hopen
      · exact hopen hknown
      · simp at hopen
    have hold := h.opened pid (hopen.imp id fun hm => (List.mem_filter.mp hm).1)
    show (sc.state.metrics.completePipeline c).completionsOf pid = []
    rw [MetricsCollector.completionsOf_completePipeline, if_neg hne, hold]
  · have hs := (hsucceeded pid).mp hs
    have hne : c.pipelineId ≠ pid := by
      rintro rfl
      exact hnot hs
    have hold := h.settled pid hs
    refine ⟨hold.known, fun hm => hold.inactive (List.mem_filter.mp hm).1, ?_, ?_⟩
    · show (sc.state.metrics.completePipeline c).completionsOf pid = _
      rw [MetricsCollector.completionsOf_completePipeline, if_neg hne, hold.only]
    · show (sc.state.metrics.completePipeline c).outcome pid = _
      rw [MetricsCollector.outcome_completePipeline, if_neg (Ne.symm hne), hold.outcome]
  · exact (hsucceeded pid).trans (h.answered pid)

/-- The success of an active pipeline is recorded and answered. -/
theorem finalised (h : FinalInv sc) {pid : PipelineId} (hknown : pid ∈ sc.state.pipelines)
    (hactive : pid ∈ sc.state.activePipelines) (call : Call) :
    FinalInv ((sc.withState ((sc.state.completePipeline
      { pipelineId := pid, success := true }).popPipeline pid)).answer call
        (.ok (.pipelineComplete pid))) := by
  have hsucceeded : ∀ pid', ((sc.state.completePipeline
      { pipelineId := pid, success := true }).popPipeline pid).Succeeded pid' ↔
        sc.state.Succeeded pid' ∨ pid' = pid := fun pid' => by
    unfold Broker.Succeeded
    simp only [Broker.metrics_popPipeline, Broker.completions_completePipeline, List.mem_append,
      List.mem_singleton, or_and_right, exists_or, exists_eq_left, and_true]
    exact or_congr_right eq_comm
  have hanswered : ∀ pid', AnsweredComplete ((sc.withState ((sc.state.completePipeline
      { pipelineId := pid, success := true }).popPipeline pid)).answer call
        (.ok (.pipelineComplete pid))) pid' ↔ AnsweredComplete sc pid' ∨ pid' = pid := fun pid' => by
    simp [AnsweredComplete, exists_or]
  refine ⟨h.pending, h.named, h.dispatched, fun pid' hopen => ?_, fun pid' hs => ?_, fun pid' => ?_⟩
  · have hne : pid ≠ pid' := by
      rintro rfl
      rcases hopen with hopen | hopen
      · exact hopen hknown
      · simp at hopen
    have hold := h.opened pid' (hopen.imp id fun hm => (List.mem_filter.mp hm).1)
    show (sc.state.metrics.completePipeline _).completionsOf pid' = []
    rw [MetricsCollector.completionsOf_completePipeline, if_neg hne, hold]
  · by_cases hne : pid' = pid
    · subst hne
      refine ⟨hknown, by simp, ?_, ?_⟩
      · show (sc.state.metrics.completePipeline _).completionsOf pid' = _
        rw [MetricsCollector.completionsOf_completePipeline, if_pos rfl, h.opened pid' (.inr hactive)]
        rfl
      · show (sc.state.metrics.completePipeline _).outcome pid' = _
        rw [MetricsCollector.outcome_completePipeline, if_pos rfl]
    · have hold := h.settled pid' (((hsucceeded pid').mp hs).resolve_right hne)
      refine ⟨hold.known, fun hm => hold.inactive (List.mem_filter.mp hm).1, ?_, ?_⟩
      · show (sc.state.metrics.completePipeline _).completionsOf pid' = _
        rw [MetricsCollector.completionsOf_completePipeline, if_neg (Ne.symm hne), hold.only]
      · show (sc.state.metrics.completePipeline _).outcome pid' = _
        rw [MetricsCollector.outcome_completePipeline, if_neg hne, hold.outcome]
  · rw [hanswered]
    exact (hsucceeded pid').trans (or_congr_left (h.answered pid'))

theorem not_succeeded (h : FinalInv sc) {pid : PipelineId} (hopen : Open sc.state pid) :
    ¬ sc.state.Succeeded pid := by
  intro hs
  have hold := h.settled pid hs
  exact hopen.elim (fun hn => hn hold.known) hold.inactive

/-- A new pipeline is admitted. -/
theorem admitted (h : FinalInv sc) {req : PlacedPipeline}
    (hnew : req.pipelineId ∉ sc.state.pipelines) {ps : PipelineState}
    (hps : ps.pipelineId = req.pipelineId) :
    FinalInv (sc.withState { sc.state with
      pipelines := sc.state.pipelines.insert req.pipelineId ps
      activePipelines := sc.state.activePipelines ++ [req.pipelineId] }) := by
  refine ⟨h.pending, fun pid ps' hps' => ?_, fun pid sid hd => ?_, fun pid hopen => ?_,
    fun pid hs => ?_, h.answered⟩
  · rw [Scene.state_withState, Dict.get?_insert] at hps'
    split at hps'
    · next heq =>
      obtain rfl := Option.some.inj hps'
      rw [hps, heq]
    · exact h.named pid ps' hps'
  · exact Dict.mem_insert.mpr (.inr (h.dispatched pid sid hd))
  · by_cases heq : pid = req.pipelineId
    · exact h.opened pid (.inl (heq ▸ hnew))
    · apply h.opened
      simpa [Open, heq] using hopen
  · have hold := h.settled pid hs
    have hne : pid ≠ req.pipelineId := fun heq => hnew (heq ▸ hold.known)
    exact ⟨Dict.mem_insert.mpr (.inr hold.known), by simpa [hne] using hold.inactive, hold.only,
      hold.outcome⟩

theorem emit (h : FinalInv sc) (m : WorkerMessage) : FinalInv (sc.emit m) :=
  ⟨h.pending, h.named, h.dispatched, h.opened, h.settled, h.answered⟩

/-- Any answer but that of a completion. -/
theorem answer (h : FinalInv sc) (c : Call) {e : Except PyError Response}
    (he : ∀ pid, e ≠ .ok (.pipelineComplete pid)) : FinalInv (sc.answer c e) := by
  refine ⟨h.pending, h.named, h.dispatched, h.opened, h.settled, fun pid => ?_⟩
  have hne := Ne.symm (he pid)
  rw [show (sc.answer c e).state.Succeeded pid ↔ AnsweredComplete sc pid from h.answered pid]
  simp [AnsweredComplete, hne]

theorem scheduled (h : FinalInv sc) {pid : PipelineId} (hknown : pid ∈ sc.state.pipelines)
    (ready : List StageId) : FinalInv (sc.schedule (ready.map (.dispatchStage pid))) := by
  refine ⟨h.pending.scheduled pid ready, h.named, fun pid' sid hd => ?_, h.opened, h.settled,
    h.answered⟩
  simp only [Scene.pending_schedule, Scene.started_schedule, List.mem_append, List.mem_map,
    Call.dispatchStage.injEq] at hd
  rcases hd with (hd | ⟨_, -, rfl, -⟩) | hd
  · exact h.dispatched pid' sid (List.mem_append_left _ hd)
  · exact hknown
  · exact h.dispatched pid' sid (List.mem_append_right _ hd)

theorem started (h : FinalInv sc) {c : Call} (hc : ∀ pid sid, c ≠ .dispatchStage pid sid) :
    FinalInv (sc.start c) := by
  refine ⟨h.pending, h.named, fun pid sid hd => h.dispatched pid sid ?_, h.opened, h.settled,
    h.answered⟩
  have hne := Ne.symm (hc pid sid)
  simpa [hne] using hd

theorem dequeued (h : FinalInv sc) {c : Call} {pre post : List Call}
    (hp : sc.pending = pre ++ c :: post) : FinalInv ((sc.withPending (pre ++ post)).start c) := by
  refine ⟨h.pending.dequeued hp c, h.named, fun pid sid hd => h.dispatched pid sid ?_, h.opened,
    h.settled, h.answered⟩
  rw [hp]
  simp only [Scene.pending_start, Scene.pending_withPending, Scene.started_start,
    Scene.started_withPending, List.mem_append, List.mem_cons, List.not_mem_nil, or_false] at hd ⊢
  grind

end FinalInv

/-! ## Handlers -/

section Handlers

variable {r : Wake Broker Call WorkerMessage PyError Response} {cfg : BrokerConfig}
  {sc : BrokerScene}

/-- Failing a pipeline that has not succeeded. -/
theorem wp_failAndComplete (h : FinalInv sc) {pid : PipelineId} (hknown : pid ∈ sc.state.pipelines)
    (hnot : ¬ sc.state.Succeeded pid) (error : String) :
    (failAndComplete pid error).wp r FinalInv (fun _ => FinalInv) (fun _ => FinalInv) sc := by
  have hmarked := h.steady (steady_updatePipeline sc.state pid
    (f := fun ps => { ps with failed := true, error := some error }) fun _ _ => rfl)
  have hfailed := hmarked.failed (c := { pipelineId := pid, success := false, error := some error })
    (Dict.mem_modify.mpr hknown) hnot rfl rfl
  exact hfailed

/-- A dispatch round of a pipeline that is active. -/
theorem wp_dispatchReady (h : FinalInv sc) {pid : PipelineId} (hknown : pid ∈ sc.state.pipelines)
    (hactive : pid ∈ sc.state.activePipelines) :
    (dispatchReadyStages cfg pid).wp r FinalInv (fun _ => FinalInv) (fun _ => FinalInv) sc := by
  obtain ⟨ps, hps⟩ := Dict.exists_get?_of_mem hknown
  have hid : ∀ dispatched : Finset StageId, ({ (sc.state.readyScan cfg ps).ps with
      dispatchedStages := dispatched } : PipelineState).pipelineId = ps.pipelineId := by
    obtain ⟨_, _, _, hframe⟩ := findReadyStages_frame cfg.funnel (sc.state.deadWorkers ps)
      sc.state.clock ps
    intro dispatched
    show (findReadyStages _ _ _ _).ps.pipelineId = _
    rw [hframe]
  have hscan : FinalInv (sc.withState
      (sc.state.updatePipeline pid fun _ => (sc.state.readyScan cfg ps).ps)) := by
    apply h.steady
    apply steady_updatePipeline
    intro ps' hps'
    obtain rfl := Option.some.inj (hps.symm.trans hps')
    exact hid (sc.state.readyScan cfg ps).ps.dispatchedStages
  refine wp_dispatchReadyStages hps (fun _ => h) (fun _ result _ _ => ?_) (fun _ _ _ => hscan)
    fun _ _ _ => ⟨?_, fun sc' hI' _ _ => ⟨hI', fun _ => hI'⟩⟩
  · apply wp_failAndComplete (r := r) hscan (Dict.mem_modify.mpr hknown)
    exact h.not_succeeded (.inr hactive)
  · have hmarked := hscan.steady (steady_updatePipeline _ pid (f := fun ps' => { ps' with
      dispatchedStages := ps'.dispatchedStages ∪ (sc.state.readyScan cfg ps).ready.toFinset })
        fun _ _ => rfl)
    have hscheduled := hmarked.scheduled
      (Dict.mem_modify.mpr (Dict.mem_modify.mpr hknown)) (sc.state.readyScan cfg ps).ready
    exact hscheduled

/-- The dispatch of a stage fails its pipeline only before that has succeeded. -/
theorem wp_dispatchStage {since : Broker} {c : Call} {pid : PipelineId} {sid : StageId}
    (h : FinalInv sc) (hstarted : .dispatchStage pid sid ∈ sc.started)
    (hmay : MayDispatch sc.state pid sid) :
    (dispatchStage cfg pid sid).wp ((lateFaultRules cfg).wake c since) FinalInv (fun _ => FinalInv)
      (fun _ => FinalInv) sc := by
  have hknown := h.dispatched pid sid (List.mem_append_right _ hstarted)
  obtain ⟨ps, hps⟩ := Dict.exists_get?_of_mem hknown
  unfold dispatchStage
  rw [Co.wp_monad_bind, wp_getPipeline hps, Co.wp_monad_bind, Co.wp_ofExcept]
  cases hnode : subscript ps.placement sid with
  | error e => exact h
  | ok nodeId =>
    simp only [Co.wp_monad_bind, Co.wp_read]
    cases hworker : sc.state.workers.get? nodeId with
    | none =>
      apply wp_failAndComplete h hknown
      intro hs
      have hmem := hmay hs ps hps nodeId (subscript_eq_ok_iff.mp hnode)
      exact Dict.get?_eq_none_iff.mp hworker hmem
    | some worker =>
      simp only [Co.wp_monad_bind, Co.wp_ofExcept]
      cases ps.dag.getStage sid with
      | error e => exact h
      | ok stage =>
        simp only [Co.wp_read, Co.wp_modify, Co.wp_request]
        refine ⟨(h.steady (steady_record _ _)).emit _, fun e sc' hI' hb hreply => ?_⟩
        cases e with
        | ok u => exact hI'
        | error exc =>
          -- the send fails before the pipeline has succeeded
          have hpid := h.named pid ps hps
          have hnot : ¬ sc'.state.Succeeded pid := by
            have := hreply (by simp)
            rwa [payload_workerMessage, show (executeRequest cfg ps sid stage none).pipelineId = pid
              from hpid] at this
          have hdispatched : .dispatchStage pid sid ∈ sc'.started := hb.started.subset hstarted
          have hknown' := hI'.dispatched pid sid (List.mem_append_right _ hdispatched)
          exact wp_failAndComplete hI' hknown' hnot _

theorem wp_publish (h : FinalInv sc) {req : PlacedPipeline}
    (hnew : req.pipelineId ∉ sc.state.pipelines) :
    (publish cfg req).wp r FinalInv (fun _ => FinalInv)
      (fun a sc => FinalInv sc ∧ ∀ pid, a ≠ .pipelineComplete pid) sc := by
  let ps : PipelineState :=
    { pipelineId := req.pipelineId, pipelineType := req.pipelineType
      dag := req.dag, placement := req.placement }
  have hadmitted := @FinalInv.admitted sc h req hnew ps rfl
  have hcreated := hadmitted.steady (steady_record _
    (pipelineRecord cfg req .created sc.state.clock))
  have hplaced := hcreated.steady (steady_record _
    (pipelineRecord cfg req .placementComplete sc.state.clock))
  unfold publish registerPipeline
  simp only [Co.wp_monad_bind, Co.wp_modify, Co.wp_read]
  refine Co.wp_mono (fun _ _ hI => hI) (fun _ _ hI => ⟨hI, by simp⟩)
    (wp_dispatchReady hplaced ?_ ?_)
  · exact Dict.mem_insert.mpr (.inl rfl)
  · exact List.mem_append_right _ (by simp)

/-- Finalising or advancing an active pipeline. -/
theorem wp_completeOrAdvance (h : FinalInv sc) {req : StageResultRequest} {c : Call}
    (hknown : req.pipelineId ∈ sc.state.pipelines)
    (hactive : req.pipelineId ∈ sc.state.activePipelines) :
    (completeOrAdvance cfg req).wp r FinalInv (fun e sc => FinalInv (sc.answer c (.error e)))
      (fun a sc => FinalInv (sc.answer c (.ok a))) sc := by
  obtain ⟨ps, hps⟩ := Dict.exists_get?_of_mem hknown
  unfold completeOrAdvance
  rw [Co.wp_monad_bind, wp_getPipeline hps]
  split
  · have hfailed := h.failed hknown (h.not_succeeded (.inr hactive))
      (c := { pipelineId := req.pipelineId, success := false, error := ps.error }) rfl rfl
    simp only [Co.wp_monad_bind, Co.wp_modify, Co.wp_pure]
    exact hfailed.answer c (by simp)
  · split
    · have hrecord := h.steady (steady_record sc.state
        (stageRecord req .delivered sc.state.clock ps.pipelineType))
      simp only [Co.wp_monad_bind, Co.wp_read, Co.wp_modify, Co.wp_pure]
      have hfinal := hrecord.finalised hknown hactive c
      exact hfinal
    · rw [Co.wp_monad_bind]
      refine Co.wp_mono (fun _ _ hI => hI.answer c (by simp)) (fun _ _ hI => ?_)
        (wp_dispatchReady h hknown hactive)
      rw [Co.wp_pure]
      exact hI.answer c (by simp)

theorem wp_handleResult (h : FinalInv sc) {req : StageResultRequest} {c : Call} :
    (handleResult cfg req).wp r FinalInv (fun e sc => FinalInv (sc.answer c (.error e)))
      (fun a sc => FinalInv (sc.answer c (.ok a))) sc := by
  have hreceived := h.steady (steady_record sc.state
    (stageRecord req .stageResultReceived sc.state.clock "unknown"))
  unfold handleResult
  simp only [Co.wp_monad_bind, Co.wp_read, Co.wp_modify]
  cases hactive : (sc.state.record (stageRecord req .stageResultReceived sc.state.clock
      "unknown")).activePipeline? req.pipelineId with
  | none =>
    simp only [Scene.state_withState, hactive, Co.wp_pure]
    exact hreceived.answer c (by simp)
  | some ps =>
    obtain ⟨hmem, hps⟩ := Withstands.active_of_activePipeline? hactive
    have hknown : req.pipelineId ∈ sc.state.pipelines := Dict.mem_of_get?_eq_some hps
    simp only [Scene.state_withState, hactive, Co.wp_monad_bind, Co.wp_modify]
    have hrecorded := hreceived.steady (steady_updatePipeline _ req.pipelineId
      (f := (·.recordResult req)) fun ps' _ => by unfold PipelineState.recordResult; split <;> rfl)
    have hstart := hrecorded.steady (steady_record _
      (stageRecord req .stageStart req.startTime ps.pipelineType))
    have hend := hstart.steady (steady_record _
      (stageRecord req .stageEnd req.endTime ps.pipelineType))
    exact wp_completeOrAdvance hend (Dict.mem_modify.mpr hknown) hmem

end Handlers

/-! ## Every run -/

theorem keeps_finalInv (cfg : BrokerConfig) : (lateFaultRules cfg).Keeps FinalInv where
  call sc c hI hcall := by
    have hsteady : ∀ {b : Broker} {e : Except PyError Response}, Steady sc.state b →
        (∀ pid, e ≠ .ok (.pipelineComplete pid)) → (∀ pid sid, c ≠ .dispatchStage pid sid) →
          FinalInv (((sc.start c).withState b).answer c e) :=
      fun hb he hc => FinalInv.answer (FinalInv.steady (hI.started hc) hb) c he
    cases c with
    | publish req =>
      have hstarted := hI.started (c := .publish req) (by simp)
      apply Co.wp_mono (fun _ _ h => h.answer _ (by simp)) _ (wp_publish hstarted hcall)
      exact fun a _ h => h.1.answer _ fun pid he => h.2 pid (Except.ok.inj he)
    | register req => exact hsteady (.of_eq rfl rfl rfl) (by simp) (by simp)
    | deregister nodeId =>
      show (deregister id nodeId).wp _ _ _ _ _
      unfold deregister
      rw [Co.wp_monad_bind, Co.wp_read]
      split
      · exact hsteady (.of_eq rfl rfl rfl) (by simp) (by simp)
      · exact hsteady (.of_eq rfl rfl rfl) (by simp) (by simp)
    | result req => exact wp_handleResult (hI.started (c := .result req) (by simp))
    | dispatchStage pid sid => cases hcall
    | healthCheck results => exact hsteady (.of_eq rfl rfl rfl) (by simp) (by simp)
    | cachePeerWorkers urls => exact hsteady (.of_eq rfl rfl rfl) (by simp) (by simp)
    | tick time => exact hsteady (.of_eq rfl rfl rfl) (by simp) (by simp)
  start sc c pre post hp hI hmay := by
    obtain ⟨pid, sid, rfl⟩ := hI.pending c (by simp [hp])
    show (dispatchStage cfg pid sid >>= fun _ => pure Response.none).wp _ _ _ _ _
    rw [Co.wp_monad_bind]
    apply Co.wp_mono (fun _ _ h => h.answer _ (by simp)) _
      (wp_dispatchStage (hI.dequeued hp) (by simp) hmay)
    intro _ sc' h
    rw [Co.wp_pure]
    exact h.answer _ (by simp)

theorem finalInv_of_fresh {w : BrokerWorld} (h : Fresh w) : FinalInv w.scene := by
  have hnot : ∀ pid, ¬ w.state.Succeeded pid := fun pid => by simp [Broker.Succeeded, h.completions]
  refine ⟨?_, ?_, ?_, ?_, ?_, ?_⟩
  · simp [OnlyDispatches, World.scene, h.pending]
  · intro pid ps hps
    rw [show w.scene.state.pipelines = .empty from h.pipelines] at hps
    cases hps
  · simp [World.scene, h.pending, h.started]
  · intro pid _
    show w.state.metrics.completionsOf pid = []
    rw [MetricsCollector.completionsOf, h.completions]
    rfl
  · exact fun pid hs => absurd hs (hnot pid)
  · intro pid
    apply iff_of_false (hnot pid)
    simp [AnsweredComplete, World.scene, h.finished]

/-- In a run in which a pipeline that has succeeded sees neither a failed send nor
a dispatch to a host that has left, a recorded success is never changed again. -/
theorem completionsOf_of_succeeded (cfg : BrokerConfig) {w w₁ w₂ : BrokerWorld} (hw : Fresh w)
    (hr₁ : (lateFaultRules cfg).Reachable w w₁) (hr₂ : (lateFaultRules cfg).Reachable w₁ w₂)
    {pid : PipelineId} (hs : w₁.state.Succeeded pid) :
    w₂.state.metrics.completionsOf pid = w₁.state.metrics.completionsOf pid ∧
      w₂.state.metrics.outcome pid = w₁.state.metrics.outcome pid ∧
        w₂.state.metrics.outcome pid = some (true, none, false) := by
  have hI₁ := (keeps_finalInv cfg).reachable (finalInv_of_fresh hw) hw.tasks hr₁
  have hI₂ := (keeps_finalInv cfg).reachable (finalInv_of_fresh hw) hw.tasks (hr₁.trans hr₂)
  -- the answer that reported the completion stays in the record
  have hs₂ : w₂.state.Succeeded pid := by
    obtain ⟨c, hc⟩ := (hI₁.answered pid).mp hs
    exact (hI₂.answered pid).mpr ⟨c, hr₂.before.answered.subset hc⟩
  have h₁ := hI₁.settled pid hs
  have h₂ := hI₂.settled pid hs₂
  exact ⟨h₂.only.trans h₁.only.symm, h₂.outcome.trans h₁.outcome.symm, h₂.outcome⟩

private def soloRequest : PlacedPipeline where
  pipelineId := "p"
  pipelineType := "single"
  dag := .ofLists [⟨"a", "sense", 1, 1, none, none, none⟩] []
  placement := .ofList [("a", "w1")]

private def soloConfig : BrokerConfig := { domainId := "d1", brokerId := "b1" }

/-- The only stage is sent to its worker, which posts the result before it answers
the send. -/
private def soloMoves : List (Base.Move Call PyError) :=
  [.call (.register ⟨"w1", "d1", "s1", 4, "", 0, "127.0.0.1"⟩), .call (.publish soloRequest),
    .start 2, .call (.result ⟨"p", "a", "w1", 0, 1, true, none⟩)]

private def idleWorld : BrokerWorld where
  state := {}

private theorem fresh_idleWorld : Fresh idleWorld := ⟨rfl, rfl, rfl, rfl, rfl, rfl, rfl⟩

theorem completionsOf_of_succeeded_solo :
    ∃ w₁ w₂, (lateFaultRules soloConfig).performAll soloMoves idleWorld = some w₁ ∧
      (lateFaultRules soloConfig).performAll [.reply 2 (.ok ())] w₁ = some w₂ ∧
        w₂.state.metrics.completionsOf "p" = w₁.state.metrics.completionsOf "p" ∧
          w₂.state.metrics.outcome "p" = w₁.state.metrics.outcome "p" ∧
            w₂.state.metrics.outcome "p" = some (true, none, false) := by
  have hrun : ∃ w₁, (lateFaultRules soloConfig).performAll soloMoves idleWorld = some w₁ ∧
      w₁.state.Succeeded "p" ∧
        ((lateFaultRules soloConfig).performAll [.reply 2 (.ok ())] w₁).isSome := by
    decide +kernel
  obtain ⟨w₁, hw₁, hs, hsome⟩ := hrun
  obtain ⟨w₂, hw₂⟩ := Option.isSome_iff_exists.mp hsome
  exact ⟨w₁, w₂, hw₁, hw₂, completionsOf_of_succeeded soloConfig fresh_idleWorld
    (Rules.reachable_of_performAll _ hw₁) (Rules.reachable_of_performAll _ hw₂) hs⟩

/-- The send of the only stage times out after its result has completed the
pipeline: the trace changes from success to failure. -/
theorem not_completionsOf_of_succeeded :
    ¬ ∀ (cfg : BrokerConfig) (w w₁ w₂ : BrokerWorld), Fresh w →
      (faultyRules .base cfg).Reachable w w₁ → (faultyRules .base cfg).Reachable w₁ w₂ →
        ∀ pid, w₁.state.Succeeded pid →
          w₂.state.metrics.outcome pid = w₁.state.metrics.outcome pid := by
  intro h
  have hrun : ∃ w₁, (faultyRules .base soloConfig).performAll soloMoves idleWorld = some w₁ ∧
      w₁.state.Succeeded "p" ∧ ∃ w₂, (faultyRules .base soloConfig).performAll
        [.reply 2 (.error (.transport "timeout"))] w₁ = some w₂ ∧
          w₂.state.metrics.outcome "p" ≠ w₁.state.metrics.outcome "p" := by
    decide +kernel
  obtain ⟨w₁, hw₁, hs, w₂, hw₂, hne⟩ := hrun
  exact hne (h soloConfig idleWorld w₁ w₂ fresh_idleWorld (Rules.reachable_of_performAll _ hw₁)
    (Rules.reachable_of_performAll _ hw₂) "p" hs)

end BaseBroker
end NeuralPubSub
