-- SUMMARY: What the traces of a broker record: latencies that add up, and of every reported success when it was created, what ran and when it was delivered.
import NeuralPubSub.Broker.Isolation
import NeuralPubSub.Measurement.Latency

open Base

/-!
# Traces

The events that the handlers record about the pipelines of a run, whatever fails
and however often a worker reports.
-/

namespace NeuralPubSub

/-! ## Events of a pipeline -/

namespace MetricsCollector

variable (m : MetricsCollector) (pid : PipelineId)

/-- The events of one kind that are recorded for the pipeline. -/
def events (event : TimestampEvent) : List TimestampRecord :=
  match m.traces.get? pid with
  | some trace => trace.recordsForEvent event
  | none => []

/-- The trace of the pipeline shows a success. -/
def showsSuccess : Bool := (m.traces.get? pid).any (·.success)

variable {m pid}

theorem events_eq {trace : PipelineTrace} (h : m.traces.get? pid = some trace)
    (event : TimestampEvent) : m.events pid event = trace.recordsForEvent event := by
  rw [events, h]

theorem showsSuccess_eq {trace : PipelineTrace} (h : m.traces.get? pid = some trace) :
    m.showsSuccess pid = trace.success := by
  simp [showsSuccess, h]

/-- A record is one more event of its kind for its pipeline. -/
theorem events_record (m : MetricsCollector) (r : TimestampRecord) (pid : PipelineId)
    (event : TimestampEvent) : (m.record r).events pid event =
      if pid = r.pipelineId ∧ r.event = event then m.events pid event ++ [r]
      else m.events pid event := by
  unfold events record
  rw [Dict.get?_insert]
  by_cases hpid : pid = r.pipelineId
  · subst hpid
    cases htrace : m.traces.get? r.pipelineId with
    | none =>
      by_cases hevent : r.event = event
      · simp [Dict.getD, htrace, PipelineTrace.recordsForEvent, hevent]
      · simp [Dict.getD, htrace, PipelineTrace.recordsForEvent, hevent]
    | some trace =>
      by_cases hevent : r.event = event
      · simp [Dict.getD, htrace, PipelineTrace.recordsForEvent, hevent]
      · simp [Dict.getD, htrace, PipelineTrace.recordsForEvent, hevent]
  · simp [hpid]

theorem events_pipelineRecord (m : MetricsCollector) (cfg : BrokerConfig) (req : PlacedPipeline)
    (event : TimestampEvent) (now : ℚ) (pid : PipelineId) (event' : TimestampEvent) :
    (m.record (pipelineRecord cfg req event now)).events pid event' =
      if pid = req.pipelineId ∧ event = event' then
        m.events pid event' ++ [pipelineRecord cfg req event now]
      else m.events pid event' := events_record ..

theorem events_stageRecord (m : MetricsCollector) (req : StageResultRequest) (event : TimestampEvent)
    (time : ℚ) (pipelineType : String) (pid : PipelineId) (event' : TimestampEvent) :
    (m.record (stageRecord req event time pipelineType)).events pid event' =
      if pid = req.pipelineId ∧ event = event' then
        m.events pid event' ++ [stageRecord req event time pipelineType]
      else m.events pid event' := events_record ..

@[simp] theorem showsSuccess_record (m : MetricsCollector) (r : TimestampRecord) (pid : PipelineId) :
    (m.record r).showsSuccess pid = m.showsSuccess pid := by
  unfold showsSuccess record
  rw [Dict.get?_insert]
  split
  · next heq =>
    subst heq
    cases htrace : m.traces.get? r.pipelineId <;> simp [Dict.getD, htrace]
  · rfl

@[simp] theorem events_completePipeline (m : MetricsCollector) (c : Completion) (pid : PipelineId)
    (event : TimestampEvent) : (m.completePipeline c).events pid event = m.events pid event := by
  unfold events completePipeline
  rw [Dict.get?_insert]
  by_cases hpid : pid = c.pipelineId
  · subst hpid
    cases htrace : m.traces.get? c.pipelineId <;>
      simp [Dict.getD, htrace, PipelineTrace.recordsForEvent]
  · rw [if_neg hpid]

theorem showsSuccess_completePipeline (m : MetricsCollector) (c : Completion) (pid : PipelineId) :
    (m.completePipeline c).showsSuccess pid =
      if pid = c.pipelineId then c.success else m.showsSuccess pid := by
  unfold showsSuccess completePipeline
  rw [Dict.get?_insert]
  split
  · rfl
  · rfl

end MetricsCollector

/-! ## What a run keeps -/

/-- The part of a pipeline that tells what is left to do. -/
def PipelineState.done (ps : PipelineState) : PipelineDAG × Finset StageId :=
  (ps.dag, ps.completedStages)

theorem steadyView_done : SteadyView PipelineState.done := ⟨fun _ _ _ _ => rfl, fun _ _ => rfl⟩

/-- What the traces say of the pipelines. -/
structure FullyTraced (b : Broker) : Prop where
  paired : ∀ pid, ∀ r ∈ b.metrics.events pid .stageStart,
    ∃ r' ∈ b.metrics.events pid .stageEnd, r'.stageId = r.stageId
  created : ∀ pid ∈ b.pipelines, (b.metrics.events pid .created).length = 1
  uncreated : ∀ pid, pid ∉ b.pipelines →
    b.metrics.events pid .created = [] ∧ b.metrics.events pid .delivered = []
  undelivered : ∀ pid ∈ b.activePipelines, b.metrics.events pid .delivered = []
  deliveredOnce : ∀ pid, (b.metrics.events pid .delivered).length ≤ 1
  completed : ∀ pid ps, b.pipelines.get? pid = some ps → ∀ sid ∈ ps.completedStages,
    ∃ r ∈ b.metrics.events pid .stageStart, r.stageId = sid
  success : ∀ pid, b.metrics.showsSuccess pid = true → b.metrics.events pid .delivered ≠ [] ∧
    ∃ ps, b.pipelines.get? pid = some ps ∧ ps.allStages ⊆ ps.completedStages

theorem metrics_failPipelinesOn (nodeId : NodeId) (b : Broker) :
    (NeuralBroker.failPipelinesOn nodeId b).metrics = b.metrics := by
  refine foldl_scan (P := fun _ (b' : Broker) => b'.metrics = b.metrics) rfl ?_
  exact fun _ _ _ _ _ hb => hb

/-- The events that the invariant is about. -/
def Followed (event : TimestampEvent) : Prop :=
  event ≠ .dispatched ∧ event ≠ .placementComplete ∧ event ≠ .stageResultReceived

namespace FullyTraced

variable {b b' : Broker}

/-- An update that neither admits nor advances a pipeline, and records nothing that is followed. -/
theorem of_quiet (h : FullyTraced b) (hdone : b.Agrees PipelineState.done b')
    (hactive : ∀ pid ∈ b'.activePipelines, pid ∈ b.activePipelines)
    (hevents : ∀ pid event, Followed event → b'.metrics.events pid event = b.metrics.events pid event)
    (hsuccess : ∀ pid, b'.metrics.showsSuccess pid = true → b.metrics.showsSuccess pid = true) :
    FullyTraced b' where
  paired pid := by
    rw [hevents pid .stageStart (by simp [Followed]), hevents pid .stageEnd (by simp [Followed])]
    exact h.paired pid
  created pid hpid := by
    rw [hevents pid .created (by simp [Followed])]
    exact h.created pid ((hdone.mem_iff pid).mp hpid)
  uncreated pid hpid := by
    rw [hevents pid .created (by simp [Followed]), hevents pid .delivered (by simp [Followed])]
    exact h.uncreated pid fun hmem => hpid ((hdone.mem_iff pid).mpr hmem)
  undelivered pid hpid := by
    rw [hevents pid .delivered (by simp [Followed])]
    exact h.undelivered pid (hactive pid hpid)
  deliveredOnce pid := by
    rw [hevents pid .delivered (by simp [Followed])]
    exact h.deliveredOnce pid
  completed pid ps' hps' := by
    obtain ⟨ps, hps, heq⟩ := hdone.found hps'
    rw [hevents pid .stageStart (by simp [Followed]), (Prod.mk.inj heq).2]
    exact h.completed pid ps hps
  success pid hpid := by
    obtain ⟨hdelivered, ps, hps, hall⟩ := h.success pid (hsuccess pid hpid)
    obtain ⟨ps', hps', heq⟩ : ∃ ps', b'.pipelines.get? pid = some ps' ∧ ps'.done = ps.done := by
      have hview := hdone pid
      rw [hps] at hview
      exact Option.map_eq_some_iff.mp hview
    obtain ⟨hdag, hcompleted⟩ := Prod.mk.inj heq
    refine ⟨?_, ps', hps', ?_⟩
    · rw [hevents pid .delivered (by simp [Followed])]
      exact hdelivered
    · rw [PipelineState.allStages, hdag, hcompleted]
      exact hall

/-- The same for an update that leaves the metrics alone. -/
theorem of_metrics (h : FullyTraced b) (hdone : b.Agrees PipelineState.done b')
    (hactive : ∀ pid ∈ b'.activePipelines, pid ∈ b.activePipelines)
    (hmetrics : b'.metrics = b.metrics) : FullyTraced b' :=
  h.of_quiet hdone hactive (fun _ _ _ => by rw [hmetrics]) fun _ hpid => hmetrics ▸ hpid

/-- An event that is not followed. -/
theorem record (h : FullyTraced b) {r : TimestampRecord} (hr : ¬ Followed r.event) :
    FullyTraced (b.record r) := by
  refine h.of_quiet (.of_eq rfl) (fun _ hpid => hpid) (fun pid event hevent => ?_) fun pid hpid => ?_
  · rw [Broker.record, MetricsCollector.events_record, if_neg]
    rintro ⟨-, rfl⟩
    exact hr hevent
  · simpa [Broker.record] using hpid

/-- The report of a failure. -/
theorem failure (h : FullyTraced b) {c : Completion} (hc : c.success = false) :
    FullyTraced (b.completePipeline c) := by
  refine h.of_quiet (.of_eq rfl) (fun _ hpid => hpid) (fun pid event _ => by
    simp [Broker.completePipeline]) fun pid hpid => ?_
  rw [Broker.completePipeline, MetricsCollector.showsSuccess_completePipeline] at hpid
  split at hpid
  · rw [hc] at hpid
    cases hpid
  · exact hpid

theorem enrol (h : FullyTraced b) (cfg : BrokerConfig) {req : PlacedPipeline}
    (hfresh : req.pipelineId ∉ b.pipelines) : FullyTraced (b.enrol cfg req) := by
  -- the creation is the only event that is followed, and the first one of its kind
  have hevents : ∀ pid event, Followed event → (b.enrol cfg req).metrics.events pid event =
      if pid = req.pipelineId ∧ .created = event then
        [pipelineRecord cfg req .created b.clock] else b.metrics.events pid event := by
    intro pid event hevent
    have hplacement : TimestampEvent.placementComplete ≠ event := fun heq => hevent.2.1 heq.symm
    have hrecords : (b.enrol cfg req).metrics.events pid event =
        ((b.metrics.record (pipelineRecord cfg req .created b.clock)).record
          (pipelineRecord cfg req .placementComplete b.clock)).events pid event := rfl
    rw [hrecords, MetricsCollector.events_pipelineRecord, if_neg fun heq => hplacement heq.2,
      MetricsCollector.events_pipelineRecord]
    by_cases heq : pid = req.pipelineId ∧ .created = event
    · rw [if_pos heq, if_pos heq]
      obtain ⟨rfl, rfl⟩ := heq
      rw [(h.uncreated _ hfresh).1, List.nil_append]
    · rw [if_neg heq, if_neg heq]
  have hother : ∀ pid event, Followed event → event ≠ .created →
      (b.enrol cfg req).metrics.events pid event = b.metrics.events pid event := by
    intro pid event hevent hne
    rw [hevents pid event hevent, if_neg fun heq => hne heq.2.symm]
  have hdelivered := fun pid => hother pid .delivered (by simp [Followed]) nofun
  have hmem : ∀ pid, pid ∈ (b.enrol cfg req).pipelines ↔ pid = req.pipelineId ∨ pid ∈ b.pipelines :=
    fun pid => Dict.mem_insert
  constructor
  · intro pid
    rw [hother pid .stageStart (by simp [Followed]) nofun, hother pid .stageEnd (by simp [Followed]) nofun]
    exact h.paired pid
  · intro pid hpid
    rw [hevents pid .created (by simp [Followed])]
    split
    · rfl
    · next hne => exact h.created pid (((hmem pid).mp hpid).resolve_left fun heq => hne ⟨heq, rfl⟩)
  · intro pid hpid
    obtain ⟨hne, hnew⟩ := not_or.mp fun hor => hpid ((hmem pid).mpr hor)
    rw [hevents pid .created (by simp [Followed]), if_neg fun heq => hne heq.1, hdelivered pid]
    exact h.uncreated pid hnew
  · intro pid hpid
    rw [hdelivered pid]
    rcases List.mem_append.mp hpid with hpid | hpid
    · exact h.undelivered pid hpid
    · obtain rfl := List.mem_singleton.mp hpid
      exact (h.uncreated _ hfresh).2
  · intro pid
    rw [hdelivered pid]
    exact h.deliveredOnce pid
  · intro pid ps hps sid hsid
    rw [hother pid .stageStart (by simp [Followed]) nofun]
    rw [Broker.enrol, Broker.pipelines_record, Broker.pipelines_record, Dict.get?_insert] at hps
    split at hps
    · obtain rfl := Option.some.inj hps
      cases Finset.notMem_empty sid hsid
    · exact h.completed pid ps hps sid hsid
  · intro pid hpid
    have hsuccess : b.metrics.showsSuccess pid = true := by
      simpa [Broker.enrol, Broker.record] using hpid
    obtain ⟨hne, ps, hps, hall⟩ := h.success pid hsuccess
    refine ⟨by rwa [hdelivered pid], ps, ?_, hall⟩
    have hold : pid ≠ req.pipelineId := by
      rintro rfl
      exact hfresh (Dict.mem_of_get?_eq_some hps)
    rw [Broker.enrol, Broker.pipelines_record, Broker.pipelines_record, Dict.get?_insert,
      if_neg hold, hps]

theorem takeResult (h : FullyTraced b) {req : StageResultRequest} (pipelineType : String) :
    FullyTraced (b.takeResult req pipelineType) := by
  -- one start and one end, both of the stage that the result names
  have hrecords : ∀ pid event, (b.takeResult req pipelineType).metrics.events pid event =
      ((b.metrics.record (stageRecord req .stageStart req.startTime pipelineType)).record
        (stageRecord req .stageEnd req.endTime pipelineType)).events pid event := fun _ _ => rfl
  have hother : ∀ pid event, event ≠ .stageStart → event ≠ .stageEnd →
      (b.takeResult req pipelineType).metrics.events pid event = b.metrics.events pid event := by
    intro pid event hstart hend
    rw [hrecords, MetricsCollector.events_stageRecord, if_neg fun heq => hend heq.2.symm,
      MetricsCollector.events_stageRecord, if_neg fun heq => hstart heq.2.symm]
  have hstarts : ∀ pid, (b.takeResult req pipelineType).metrics.events pid .stageStart =
      if pid = req.pipelineId then
        b.metrics.events pid .stageStart ++ [stageRecord req .stageStart req.startTime pipelineType]
      else b.metrics.events pid .stageStart := by
    intro pid
    have hend : ¬ (pid = req.pipelineId ∧ TimestampEvent.stageEnd = .stageStart) :=
      fun heq => nomatch heq.2
    rw [hrecords, MetricsCollector.events_stageRecord, if_neg hend,
      MetricsCollector.events_stageRecord]
    simp only [and_true]
  have hends : ∀ pid, (b.takeResult req pipelineType).metrics.events pid .stageEnd =
      if pid = req.pipelineId then
        b.metrics.events pid .stageEnd ++ [stageRecord req .stageEnd req.endTime pipelineType]
      else b.metrics.events pid .stageEnd := by
    intro pid
    have hstart : ¬ (pid = req.pipelineId ∧ TimestampEvent.stageStart = .stageEnd) :=
      fun heq => nomatch heq.2
    rw [hrecords, MetricsCollector.events_stageRecord, MetricsCollector.events_stageRecord,
      if_neg hstart]
    simp only [and_true]
  have hdelivered := fun pid => hother pid .delivered nofun nofun
  have hadvances : b.Advances (b.takeResult req pipelineType) :=
    (Broker.Advances.update _ _ fun ps _ => .recordResult ps _).trans (.of_eq rfl rfl rfl)
  have hmem : ∀ pid, pid ∈ b.pipelines → pid ∈ (b.takeResult req pipelineType).pipelines := by
    intro pid hpid
    obtain ⟨ps, hps⟩ := Dict.exists_get?_of_mem hpid
    obtain ⟨ps', hps', -⟩ := hadvances.pipelines pid ps hps
    exact Dict.mem_of_get?_eq_some hps'
  constructor
  · intro pid r hr
    rw [hends]
    rw [hstarts] at hr
    split at hr
    · next heq =>
      rw [if_pos heq]
      rcases List.mem_append.mp hr with hr | hr
      · obtain ⟨r', hr', hstage⟩ := h.paired pid r hr
        exact ⟨r', List.mem_append_left _ hr', hstage⟩
      · obtain rfl := List.mem_singleton.mp hr
        exact ⟨_, List.mem_append_right _ (List.mem_singleton_self _), rfl⟩
    · next hne =>
      rw [if_neg hne]
      exact h.paired pid r hr
  · intro pid hpid
    rw [hother pid .created nofun nofun]
    exact h.created pid (hadvances.known pid hpid)
  · intro pid hpid
    rw [hother pid .created nofun nofun, hdelivered]
    exact h.uncreated pid fun hold => hpid (hmem pid hold)
  · intro pid hpid
    rw [hdelivered]
    exact h.undelivered pid hpid
  · intro pid
    rw [hdelivered]
    exact h.deliveredOnce pid
  · intro pid ps' hps' sid hsid
    rw [hstarts]
    rw [Broker.takeResult, Broker.pipelines_record, Broker.pipelines_record,
      Broker.get?_updatePipeline] at hps'
    split at hps'
    · next heq =>
      subst heq
      rw [if_pos rfl]
      obtain ⟨ps, hps, rfl⟩ := Option.map_eq_some_iff.mp hps'
      have hor : sid = req.stageId ∨ sid ∈ ps.completedStages := by
        unfold PipelineState.recordResult at hsid
        split at hsid
        · exact Finset.mem_insert.mp hsid
        · exact .inr hsid
      rcases hor with rfl | hold
      · exact ⟨_, List.mem_append_right _ (List.mem_singleton_self _), rfl⟩
      · obtain ⟨r, hr, hstage⟩ := h.completed _ ps hps sid hold
        exact ⟨r, List.mem_append_left _ hr, hstage⟩
    · next hne =>
      rw [if_neg hne]
      exact h.completed pid ps' hps' sid hsid
  · intro pid hpid
    have hsuccess : b.metrics.showsSuccess pid = true := by
      simpa [Broker.takeResult, Broker.record] using hpid
    obtain ⟨hne, ps, hps, hall⟩ := h.success pid hsuccess
    obtain ⟨ps', hps', hforward⟩ := hadvances.pipelines pid ps hps
    refine ⟨by rwa [hdelivered], ps', hps', ?_⟩
    rw [PipelineState.allStages, hforward.dag]
    exact hall.trans hforward.completed

theorem deliver (h : FullyTraced b) {req : StageResultRequest} {ps : PipelineState}
    (hactive : b.activePipeline? req.pipelineId = some ps)
    (hcomplete : ps.completedStages = ps.allStages) (pipelineType : String) :
    FullyTraced (b.deliver req pipelineType) := by
  obtain ⟨hlisted, hps⟩ := Withstands.active_of_activePipeline? hactive
  have hevents : ∀ pid event, (b.deliver req pipelineType).metrics.events pid event =
      if pid = req.pipelineId ∧ .delivered = event then
        [stageRecord req .delivered b.clock pipelineType] else b.metrics.events pid event := by
    intro pid event
    have hrecords : (b.deliver req pipelineType).metrics.events pid event =
        (b.metrics.record (stageRecord req .delivered b.clock pipelineType)).events pid event :=
      MetricsCollector.events_completePipeline _ _ _ _
    rw [hrecords, MetricsCollector.events_stageRecord]
    by_cases heq : pid = req.pipelineId ∧ .delivered = event
    · rw [if_pos heq, if_pos heq]
      obtain ⟨rfl, rfl⟩ := heq
      rw [h.undelivered _ hlisted, List.nil_append]
    · rw [if_neg heq, if_neg heq]
  have hother : ∀ pid event, event ≠ .delivered →
      (b.deliver req pipelineType).metrics.events pid event = b.metrics.events pid event := by
    intro pid event hne
    rw [hevents, if_neg fun heq => hne heq.2.symm]
  have hkept : ∀ pid, pid ≠ req.pipelineId →
      (b.deliver req pipelineType).metrics.events pid .delivered = b.metrics.events pid .delivered := by
    intro pid hne
    rw [hevents, if_neg fun heq => hne heq.1]
  constructor
  · intro pid
    rw [hother pid .stageStart nofun, hother pid .stageEnd nofun]
    exact h.paired pid
  · intro pid hpid
    rw [hother pid .created nofun]
    exact h.created pid hpid
  · intro pid hpid
    have hne : pid ≠ req.pipelineId := by
      rintro rfl
      exact hpid (Dict.mem_of_get?_eq_some hps)
    rw [hother pid .created nofun, hkept pid hne]
    exact h.uncreated pid hpid
  · intro pid hpid
    obtain ⟨hold, hne⟩ := List.mem_filter.mp hpid
    rw [hkept pid (by simpa using hne)]
    exact h.undelivered pid hold
  · intro pid
    rw [hevents]
    split
    · exact le_refl 1
    · exact h.deliveredOnce pid
  · intro pid ps' hps'
    rw [hother pid .stageStart nofun]
    exact h.completed pid ps' hps'
  · intro pid hpid
    by_cases hne : pid = req.pipelineId
    · subst hne
      refine ⟨?_, ps, hps, hcomplete.ge⟩
      rw [hevents, if_pos ⟨rfl, rfl⟩]
      exact List.cons_ne_nil _ _
    · have hsuccess : b.metrics.showsSuccess pid = true := by
        simpa [Broker.deliver, Broker.record, Broker.completePipeline, Broker.popPipeline,
          MetricsCollector.showsSuccess_completePipeline, hne] using hpid
      rw [hkept pid hne]
      exact h.success pid hsuccess

/-- Every step keeps the traces in order. -/
theorem step {kind : BrokerKind} {cfg : BrokerConfig} {sc sc' : BrokerScene}
    (h : FullyTraced sc.state) (hstep : BrokerStep kind cfg sc sc') : FullyTraced sc'.state := by
  cases hstep with
  | called | takenUp | answered | resent => exact h
  | admitted call fresh => exact h.enrol cfg fresh
  | scanned found running =>
    exact h.of_metrics (.scan steadyView_done cfg _ found) (fun _ hpid => hpid) rfl
  | scheduled found running =>
    refine h.of_metrics ((Broker.Agrees.scan steadyView_done cfg _ found).trans ?_)
      (fun _ hpid => hpid) rfl
    exact .update _ _ fun _ _ => rfl
  | received call => exact h.record (by simp [Followed, stageRecord])
  | recorded call active => exact h.takeResult _
  | delivered call active running complete => exact h.deliver active complete _
  | @closed req ps call active failed =>
    have hreported := h.failure
      (c := { pipelineId := req.pipelineId, success := false, error := ps.error }) rfl
    exact hreported.of_metrics (.of_eq rfl) (fun _ hpid => (List.mem_filter.mp hpid).1) rfl
  | aborted pid error =>
    have hfailed : FullyTraced (sc.state.failPipeline pid error) :=
      h.of_metrics (.fail steadyView_done _ pid error) (fun _ hpid => (List.mem_filter.mp hpid).1) rfl
    exact hfailed.failure rfl
  | dropped pid error =>
    exact h.of_metrics (.fail steadyView_done _ pid error)
      (fun _ hpid => (List.mem_filter.mp hpid).1) rfl
  | @sent pid ps sid nodeId url peerDispatch stage =>
    have hdispatched : FullyTraced
        (sc.state.record (dispatchRecord ps sid nodeId sc.state.clock)) :=
      h.record (by simp [Followed, dispatchRecord])
    obtain ⟨hp, ha, hm⟩ := reserveLoad_frame kind nodeId stage
      (sc.state.record (dispatchRecord ps sid nodeId sc.state.clock))
    exact hdispatched.of_metrics (.of_eq hp) (fun _ hpid => ha ▸ hpid) hm
  | @rehosted pid ps sid nodeId b found chosen =>
    obtain ⟨hp, ha, hm, -⟩ := chosen.frame
    refine h.of_metrics ((Broker.Agrees.of_eq hp).trans (.update _ pid fun _ _ => rfl))
      (fun _ hpid => ?_) hm
    rw [← ha]
    exact hpid
  | registered | removed =>
    obtain ⟨hp, ha, hm⟩ := onWorkerChange_frame kind _
    exact h.of_metrics (.of_eq hp) (fun _ hpid => ha ▸ hpid) hm
  | departed nodeId =>
    exact h.of_metrics (.departed steadyView_done nodeId _)
      (fun _ hpid => (Broker.Advances.departed nodeId sc.state).active _ hpid)
      (metrics_failPipelinesOn nodeId sc.state)
  | loaded nodeId delta =>
    exact h.of_metrics (.of_eq (by simp)) (fun _ hpid => by simpa using hpid) (by simp)
  | @probed results =>
    obtain ⟨hp, ha, -⟩ := roundOutcome_frame kind cfg results sc.state
    exact h.of_metrics (.of_eq hp) (fun _ hpid => ha ▸ hpid) (roundOutcome_metrics ..)
  | counted | ticked | cached => exact h.of_metrics (.of_eq rfl) (fun _ hpid => hpid) rfl

end FullyTraced

theorem Booted.fullyTraced {w : BrokerWorld} (h : Booted w) : FullyTraced w.state := by
  have hevents : ∀ pid event, w.state.metrics.events pid event = [] := by
    intro pid event
    rw [MetricsCollector.events, h.traces]
    rfl
  have hsuccess : ∀ pid, w.state.metrics.showsSuccess pid = false := by
    intro pid
    rw [MetricsCollector.showsSuccess, h.traces]
    rfl
  have hpipelines : ∀ pid, pid ∉ w.state.pipelines := by
    rw [h.pipelines]
    exact fun _ => nofun
  refine ⟨?_, fun pid hpid => absurd hpid (hpipelines pid), ?_, ?_, ?_, ?_, ?_⟩
  · simp [hevents]
  · simp [hevents]
  · simp [hevents]
  · simp [hevents]
  · exact fun pid ps hps => absurd (Dict.mem_of_get?_eq_some hps) (hpipelines pid)
  · simp [hsuccess]

theorem BrokerRun.fullyTraced {kind : BrokerKind} {cfg : BrokerConfig} {sc sc' : BrokerScene}
    (hrun : BrokerRun kind cfg sc sc') (h : FullyTraced sc.state) : FullyTraced sc'.state := by
  induction hrun with
  | refl => exact h
  | tail _ hstep ih => exact ih.step hstep

/-- In every trace each stage that has started has ended. -/
theorem FullyTraced.closed {b : Broker} (h : FullyTraced b) {pid : PipelineId}
    {trace : PipelineTrace} (htrace : b.metrics.traces.get? pid = some trace) : trace.Closed := by
  intro sid hsid
  obtain ⟨r, hr, rfl⟩ := PipelineTrace.mem_starts.mp hsid
  rw [← MetricsCollector.events_eq htrace] at hr
  obtain ⟨r', hr', hstage⟩ := h.paired pid r hr
  rw [MetricsCollector.events_eq htrace] at hr'
  exact PipelineTrace.mem_ends.mpr ⟨r', hr', hstage⟩

/-! ## Latencies -/

/-- In every run, whatever fails and whatever a worker reports how often, the latencies
of every trace add up: compute time and network time together are the time from the
first start to the end of the stage that has started last. Where stages overlap, a
network time is negative. -/
theorem traces_sum_latencies {kind : BrokerKind} {cfg : BrokerConfig} {w w' : BrokerWorld}
    (hw : Booted w) (hr : (faultyRules kind cfg).Reachable w w') {pid : PipelineId}
    {trace : PipelineTrace} (htrace : w'.state.metrics.traces.get? pid = some trace)
    {first last : StageId} (hfirst : trace.orderedStages.head? = some first)
    (hlast : trace.orderedStages.getLast? = some last) :
    trace.stageLatenciesMs.values.sum + trace.networkLatenciesMs.values.sum =
      (trace.ends.getD last 0 - trace.starts.getD first 0) * 1000 := by
  have hrun := brokerRun_of_reachable hw.inOrder hw.tasks hr
  exact ((hrun.fullyTraced hw.fullyTraced).closed htrace).sum_latencies hfirst hlast

/-- A success that is reported is that of a pipeline that was published, and whose stages
have all completed. -/
theorem BrokerRun.published_of_success {kind : BrokerKind} {cfg : BrokerConfig}
    {sc₀ sc : BrokerScene} (hrun : BrokerRun kind cfg sc₀ sc) (htraced : FullyTraced sc₀.state)
    (hnone : sc₀.state.pipelines = .empty) {pid : PipelineId} {trace : PipelineTrace}
    (htrace : sc.state.metrics.traces.get? pid = some trace) (hsuccess : trace.success = true) :
    ∃ req ps, Call.publish req ∈ sc.started ∧ req.pipelineId = pid ∧
      sc.state.pipelines.get? pid = some ps ∧ ∀ sid ∈ req.dag.stages, sid ∈ ps.completedStages := by
  have hshown : sc.state.metrics.showsSuccess pid = true := by
    rw [MetricsCollector.showsSuccess_eq htrace, hsuccess]
  obtain ⟨-, ps, hps, hall⟩ := (hrun.fullyTraced htraced).success pid hshown
  have hnew : pid ∉ sc₀.state.pipelines := by
    rw [hnone]
    exact nofun
  obtain ⟨req, hcall, hid, hforward⟩ := hrun.published hnew hps
  refine ⟨req, ps, hcall, hid, hps, fun sid hsid => hall ?_⟩
  rw [PipelineState.allStages, hforward.dag]
  exact List.mem_toFinset.mpr hsid

/-- A reported success is fully traced: the pipeline was published, its trace has one
creation and one delivery, which give its end-to-end latency, and a latency for every
stage of the DAG. -/
theorem success_isTraced {kind : BrokerKind} {cfg : BrokerConfig} {w w' : BrokerWorld}
    (hw : Booted w) (hr : (faultyRules kind cfg).Reachable w w') {pid : PipelineId}
    {trace : PipelineTrace} (htrace : w'.state.metrics.traces.get? pid = some trace)
    (hsuccess : trace.success = true) :
    ∃ req created delivered, Call.publish req ∈ w'.started ∧ req.pipelineId = pid ∧
      trace.recordsForEvent .created = [created] ∧
      trace.recordsForEvent .delivered = [delivered] ∧
      trace.endToEndLatencyMs = some ((delivered.timestamp - created.timestamp) * 1000) ∧
      ∀ sid ∈ req.dag.stages, sid ∈ trace.stageLatenciesMs := by
  have hrun := brokerRun_of_reachable hw.inOrder hw.tasks hr
  have htraced : FullyTraced w'.state := hrun.fullyTraced hw.fullyTraced
  have hshown : w'.state.metrics.showsSuccess pid = true := by
    rw [MetricsCollector.showsSuccess_eq htrace, hsuccess]
  obtain ⟨hdelivered, -⟩ := htraced.success pid hshown
  obtain ⟨req, ps, hcall, hid, hps, hall⟩ :=
    hrun.published_of_success hw.fullyTraced hw.pipelines htrace hsuccess
  have hcreated := htraced.created pid (Dict.mem_of_get?_eq_some hps)
  have honce := htraced.deliveredOnce pid
  rw [MetricsCollector.events_eq htrace] at hdelivered hcreated honce
  obtain ⟨created, hcreated⟩ := List.length_eq_one_iff.mp hcreated
  obtain ⟨delivered, hdelivered⟩ := List.length_eq_one_iff.mp
    (le_antisymm honce (List.length_pos_iff.mpr hdelivered))
  refine ⟨req, created, delivered, hcall, hid, hcreated, hdelivered, ?_, fun sid hsid => ?_⟩
  · rw [PipelineTrace.endToEndLatencyMs, PipelineTrace.firstTs, PipelineTrace.lastTs, hcreated,
      hdelivered]
    rfl
  · obtain ⟨r, hr, heq⟩ := htraced.completed pid ps hps sid (hall sid hsid)
    rw [MetricsCollector.events_eq htrace] at hr
    exact (htraced.closed htrace).mem_stageLatenciesMs (PipelineTrace.mem_starts.mpr ⟨r, hr, heq⟩)

/-! ## A pipeline of two stages -/

private def courierConfig : BrokerConfig := { domainId := "d1", brokerId := "b1" }

private def courierMoves : List (Base.Move Call PyError) :=
  [.call (.register ⟨"w1", "d1", "embb", 4, "http://w1", 0, ""⟩), .call (.tick 1),
    .call (.publish ⟨"p", "chain",
      .ofLists [⟨"a", "sense", 1, 1, none, none, none⟩, ⟨"b", "filter", 1, 1, none, none, none⟩]
          [⟨"a", "b", 10⟩],
      .ofList [("a", "w1"), ("b", "w1")], ⟨[⟨"w1", "d1", "embb", 4, 0, none⟩], .empty⟩⟩), .start 3,
    .reply 3 (.ok ()), .call (.result ⟨"p", "a", "w1", 2, 3, true, none⟩), .start 5,
    .call (.tick 9), .call (.result ⟨"p", "b", "w1", 5, 8, true, none⟩)]

theorem traces_sum_latencies_courier :
    ∃ w' trace, (faultyRules .neural courierConfig).performAll courierMoves { state := {} } = some w' ∧
      w'.state.metrics.traces.get? "p" = some trace ∧
      trace.stageLatenciesMs.values.sum + trace.networkLatenciesMs.values.sum =
        (trace.ends.getD "b" 0 - trace.starts.getD "a" 0) * 1000 := by
  have hrun : ∃ w', (faultyRules .neural courierConfig).performAll courierMoves { state := {} } =
      some w' ∧ ∃ trace, w'.state.metrics.traces.get? "p" = some trace ∧
        trace.orderedStages.head? = some "a" ∧ trace.orderedStages.getLast? = some "b" := by
    decide +kernel
  obtain ⟨w', hw', trace, htrace, hfirst, hlast⟩ := hrun
  exact ⟨w', trace, hw', htrace, traces_sum_latencies booted_initial
    (Rules.reachable_of_performAll _ hw') htrace hfirst hlast⟩

theorem success_isTraced_courier :
    ∃ w' trace, (faultyRules .neural courierConfig).performAll courierMoves { state := {} } = some w' ∧
      w'.state.metrics.traces.get? "p" = some trace ∧ trace.success = true ∧
      ∃ req created delivered, Call.publish req ∈ w'.started ∧ req.pipelineId = "p" ∧
        trace.recordsForEvent .created = [created] ∧
        trace.recordsForEvent .delivered = [delivered] ∧
        trace.endToEndLatencyMs = some ((delivered.timestamp - created.timestamp) * 1000) ∧
        ∀ sid ∈ req.dag.stages, sid ∈ trace.stageLatenciesMs := by
  have hrun : ∃ w', (faultyRules .neural courierConfig).performAll courierMoves { state := {} } =
      some w' ∧ ∃ trace, w'.state.metrics.traces.get? "p" = some trace ∧ trace.success = true := by
    decide +kernel
  obtain ⟨w', hw', trace, htrace, hsuccess⟩ := hrun
  exact ⟨w', trace, hw', htrace, hsuccess, success_isTraced booted_initial
    (Rules.reachable_of_performAll _ hw') htrace hsuccess⟩

end NeuralPubSub
