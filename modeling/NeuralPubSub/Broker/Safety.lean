-- SUMMARY: Safety of the pipeline state machine under arbitrary faults, for the three brokers.
import NeuralPubSub.Broker.Handlers

open Base

/-!
# Safety under faults

The environment may publish pipelines, post any result at any time, fail any
send, register, deregister and lose workers. `SafetyInv` relates the sets of
each pipeline to the calls started so far, and every handler keeps it.
-/

namespace NeuralPubSub

/-! ## What is counted -/

/-- The stage has reported a successful result for the pipeline. -/
def Reported (sc : BrokerScene) (pipelineId : PipelineId) (stageId : StageId) : Prop :=
  ∃ req, Call.result req ∈ sc.started ∧ req.pipelineId = pipelineId ∧ req.stageId = stageId ∧
    req.success = true

theorem Reported.start {sc : BrokerScene} {pid : PipelineId} {sid : StageId}
    (h : Reported sc pid sid) (c : Call) : Reported (sc.start c) pid sid :=
  h.imp fun _ h => ⟨List.mem_append_left _ h.1, h.2⟩

/-- How often `_dispatch_stage` has been entered for the stage. -/
def dispatchCount (sc : BrokerScene) (pipelineId : PipelineId) (stageId : StageId) : Nat :=
  sc.started.count (.dispatchStage pipelineId stageId)

/-- How often `complete_pipeline` has been called with `success=True`. -/
def successCount (b : Broker) (pipelineId : PipelineId) : Nat :=
  b.metrics.completions.countP fun c => c.success ∧ c.pipelineId = pipelineId

/-! ## Stages in flight -/

/-- The stage that a message hands over. -/
def WorkerMessage.key (m : WorkerMessage) : PipelineId × StageId :=
  (m.payload.pipelineId, m.payload.stageId)

@[simp] theorem key_workerMessage (cfg : BrokerConfig) (nodeId : NodeId) (url : String)
    (ps : PipelineState) (sid : StageId) (stage : Stage) (resultUrl : Option String) :
    (workerMessage cfg nodeId url (executeRequest cfg ps sid stage resultUrl)).key =
      (ps.pipelineId, sid) := by
  simp [WorkerMessage.key, executeRequest]

/-- The stage that a result reports. -/
def Call.resultKey? : Call → Option (PipelineId × StageId)
  | .result req => some (req.pipelineId, req.stageId)
  | .publish _ | .register _ | .deregister _ | .dispatchStage _ _ | .healthCheck _
  | .cachePeerWorkers _ | .tick _ => none

/-- The messages whose stages have not reported. -/
def outstanding (sc : BrokerScene) : List WorkerMessage :=
  sc.sent.filter fun m => some m.key ∉ sc.started.map Call.resultKey?

theorem mem_outstanding {sc : BrokerScene} {m : WorkerMessage} :
    m ∈ outstanding sc ↔ m ∈ sc.sent ∧ some m.key ∉ sc.started.map Call.resultKey? := by
  simp [outstanding]

/-! ## The invariant -/

/-- How often the stage has been scheduled for dispatch, started or not. -/
def scheduleCount (sc : BrokerScene) (pipelineId : PipelineId) (stageId : StageId) : Nat :=
  sc.pending.count (.dispatchStage pipelineId stageId) + dispatchCount sc pipelineId stageId

theorem scheduleCount_pos_iff {sc : BrokerScene} {pid : PipelineId} {sid : StageId} :
    .dispatchStage pid sid ∈ sc.pending ∨ .dispatchStage pid sid ∈ sc.started ↔
      0 < scheduleCount sc pid sid := by
  unfold scheduleCount dispatchCount
  rw [← List.count_pos_iff, ← List.count_pos_iff]
  omega

/-- What holds whenever the handlers of a broker wait. -/
structure SafetyInv (sc : BrokerScene) : Prop where
  pending : ∀ c ∈ sc.pending, ∃ pid sid, c = .dispatchStage pid sid
  scheduled : ∀ pid sid, scheduleCount sc pid sid ≤ 1
  marked : ∀ pid sid, 0 < scheduleCount sc pid sid →
    ∃ ps, sc.state.pipelines.get? pid = some ps ∧ sid ∈ ps.dispatchedStages
  reported : ∀ pid ps, sc.state.pipelines.get? pid = some ps →
    ∀ sid ∈ ps.completedStages, Reported sc pid sid
  active : ∀ pid ∈ sc.state.activePipelines, pid ∈ sc.state.pipelines
  success : ∀ c ∈ sc.state.metrics.completions, c.success = true →
    c.pipelineId ∉ sc.state.activePipelines ∧
      ∃ ps, sc.state.pipelines.get? c.pipelineId = some ps ∧
        ∀ sid ∈ ps.allStages, Reported sc c.pipelineId sid
  once : ∀ pid, successCount sc.state pid ≤ 1

namespace SafetyInv

variable {sc : BrokerScene}

theorem quiet (h : SafetyInv sc) {b : Broker} (hq : sc.state.Quiet b) :
    SafetyInv (sc.withState b) := by
  obtain ⟨cs, hcs, hfail⟩ := hq.completions
  have hkeys : ∀ pid, pid ∈ b.pipelines ↔ pid ∈ sc.state.pipelines := fun pid => by
    have := congrArg Option.isSome (hq.progress pid)
    rw [Option.isSome_map, Option.isSome_map] at this
    rw [← Dict.get?_isSome_iff, ← Dict.get?_isSome_iff, this]
  -- a pipeline after the update comes from one with the same progress
  have hback : ∀ pid ps', b.pipelines.get? pid = some ps' →
      ∃ ps, sc.state.pipelines.get? pid = some ps ∧ ps'.progress = ps.progress := fun pid ps' hps' => by
    have := hq.progress pid
    rw [hps', Option.map_some, eq_comm, Option.map_eq_some_iff] at this
    exact this.imp fun ps h => ⟨h.1, h.2.symm⟩
  have hforth : ∀ pid ps, sc.state.pipelines.get? pid = some ps →
      ∃ ps', b.pipelines.get? pid = some ps' ∧ ps'.progress = ps.progress := fun pid ps hps => by
    have := hq.progress pid
    rw [hps, Option.map_some, Option.map_eq_some_iff] at this
    exact this
  constructor
  · exact h.pending
  · exact h.scheduled
  · intro pid sid hpos
    obtain ⟨ps, hps, hsid⟩ := h.marked pid sid hpos
    obtain ⟨ps', hps', hprog⟩ := hforth pid ps hps
    simp only [PipelineState.progress, Prod.mk.injEq] at hprog
    exact ⟨ps', hps', hprog.2.2 ▸ hsid⟩
  · intro pid ps' hps' sid hsid
    obtain ⟨ps, hps, hprog⟩ := hback pid ps' hps'
    simp only [PipelineState.progress, Prod.mk.injEq] at hprog
    exact h.reported pid ps hps sid (hprog.2.1 ▸ hsid)
  · exact fun pid hp => (hkeys pid).mpr (h.active pid (hq.active pid hp))
  · intro c hc hsucc
    have hc : c ∈ sc.state.metrics.completions := by
      simp only [Scene.state_withState, hcs, List.mem_append] at hc
      exact hc.resolve_right fun hc => by simp [hfail c hc] at hsucc
    obtain ⟨hact, ps, hps, hall⟩ := h.success c hc hsucc
    refine ⟨fun hm => hact (hq.active _ hm), ?_⟩
    obtain ⟨ps', hps', hprog⟩ := hforth _ ps hps
    simp only [PipelineState.progress, Prod.mk.injEq] at hprog
    exact ⟨ps', hps', fun sid hsid => hall sid (by rwa [PipelineState.allStages, ← hprog.1])⟩
  · intro pid
    have hzero : cs.countP (fun c => c.success ∧ c.pipelineId = pid) = 0 :=
      List.countP_eq_zero.mpr fun c hc => by simp [hfail c hc]
    have := h.once pid
    simpa only [successCount, Scene.state_withState, hcs, List.countP_append, hzero,
      Nat.add_zero] using this

/-- A call that dispatches no stage leaves the counts alone. -/
theorem started (h : SafetyInv sc) {c : Call} (hc : ∀ pid sid, c ≠ .dispatchStage pid sid) :
    SafetyInv (sc.start c) := by
  have hcount : ∀ pid sid, scheduleCount (sc.start c) pid sid = scheduleCount sc pid sid :=
    fun pid sid => by simp [scheduleCount, dispatchCount, List.count_append, hc pid sid]
  exact ⟨h.pending, fun pid sid => (hcount pid sid).symm ▸ h.scheduled pid sid,
    fun pid sid hpos => h.marked pid sid (hcount pid sid ▸ hpos),
    fun pid ps hps sid hsid => (h.reported pid ps hps sid hsid).start c, h.active,
    fun c' hc' hs => (h.success c' hc' hs).imp id fun ⟨ps, hps, hall⟩ =>
      ⟨ps, hps, fun sid hsid => (hall sid hsid).start c⟩, h.once⟩

theorem scheduleCount_dequeued {c : Call} {pre post : List Call} (hp : sc.pending = pre ++ c :: post)
    (pid : PipelineId) (sid : StageId) :
    scheduleCount ((sc.withPending (pre ++ post)).start c) pid sid = scheduleCount sc pid sid := by
  simp only [scheduleCount, dispatchCount, hp, List.count_append, List.count_cons,
    Scene.pending_start, Scene.pending_withPending, Scene.started_start,
    Scene.started_withPending, List.count_nil]
  omega

/-- Starting a scheduled call moves it from one count to the other. -/
theorem dequeued (h : SafetyInv sc) {c : Call} {pre post : List Call}
    (hp : sc.pending = pre ++ c :: post) : SafetyInv ((sc.withPending (pre ++ post)).start c) := by
  have hcount := scheduleCount_dequeued hp
  have hpending : ∀ c' ∈ pre ++ post, c' ∈ sc.pending := fun c' hc' => by
    rw [hp]
    exact (List.mem_append.mp hc').elim (fun hm => by simp [hm]) fun hm => by simp [hm]
  exact ⟨fun c' hc' => h.pending c' (hpending c' hc'),
    fun pid sid => (hcount pid sid).symm ▸ h.scheduled pid sid,
    fun pid sid hpos => h.marked pid sid (hcount pid sid ▸ hpos),
    fun pid ps hps sid hsid => (h.reported pid ps hps sid hsid).start c, h.active,
    fun c' hc' hs => (h.success c' hc' hs).imp id fun ⟨ps, hps, hall⟩ =>
      ⟨ps, hps, fun sid hsid => (hall sid hsid).start c⟩, h.once⟩

theorem emit (h : SafetyInv sc) (m : WorkerMessage) : SafetyInv (sc.emit m) :=
  ⟨h.pending, h.scheduled, h.marked, h.reported, h.active, h.success, h.once⟩

theorem answer (h : SafetyInv sc) (c : Call) (e : Except PyError Response) :
    SafetyInv (sc.answer c e) :=
  ⟨h.pending, h.scheduled, h.marked, h.reported, h.active, h.success, h.once⟩

/-- A new pipeline has reported nothing and dispatched nothing. -/
theorem admitted (h : SafetyInv sc) {req : PlacedPipeline}
    (hnew : req.pipelineId ∉ sc.state.pipelines) {ps : PipelineState}
    (hps : ps.completedStages = ∅) :
    SafetyInv (sc.withState { sc.state with
      pipelines := sc.state.pipelines.insert req.pipelineId ps
      activePipelines := sc.state.activePipelines ++ [req.pipelineId] }) := by
  have hne : ∀ {pid}, pid ∈ sc.state.pipelines → pid ≠ req.pipelineId :=
    fun hpid heq => hnew (heq ▸ hpid)
  have hold : ∀ {pid ps'}, sc.state.pipelines.get? pid = some ps' →
      (sc.state.pipelines.insert req.pipelineId ps).get? pid = some ps' := fun hps' => by
    rw [Dict.get?_insert_of_ne _ _ (hne (Dict.mem_of_get?_eq_some hps')), hps']
  refine ⟨h.pending, h.scheduled, fun pid sid hpos => ?_, fun pid ps' hps' sid hsid => ?_,
    fun pid hpid => ?_, fun c hc hs => ?_, h.once⟩
  · obtain ⟨ps', hps', hsid⟩ := h.marked pid sid hpos
    exact ⟨ps', hold hps', hsid⟩
  · simp only [Scene.state_withState, Dict.get?_insert] at hps'
    split at hps'
    · obtain rfl := Option.some.inj hps'
      simp [hps] at hsid
    · exact h.reported pid ps' hps' sid hsid
  · rcases List.mem_append.mp hpid with hpid | hpid
    · exact Dict.mem_insert.mpr (.inr (h.active pid hpid))
    · exact Dict.mem_insert.mpr (.inl (List.mem_singleton.mp hpid))
  · obtain ⟨hact, ps', hps', hall⟩ := h.success c hc hs
    refine ⟨fun hm => ?_, ps', hold hps', hall⟩
    rcases List.mem_append.mp hm with hm | hm
    · exact hact hm
    · exact hne (Dict.mem_of_get?_eq_some hps') (List.mem_singleton.mp hm)

/-- An update of one pipeline that schedules calls: it keeps the DAG and the
marks, completes what has been reported, and marks what it schedules. -/
theorem update (h : SafetyInv sc) {pid : PipelineId} {f : PipelineState → PipelineState}
    {calls : List Call} (hcalls : ∀ c ∈ calls, ∃ pid sid, c = .dispatchStage pid sid) (hdag : ∀ ps, (f ps).dag = ps.dag)
    (hmarks : ∀ ps, ps.dispatchedStages ⊆ (f ps).dispatchedStages)
    (hcompleted : ∀ ps, sc.state.pipelines.get? pid = some ps → ∀ sid ∈ (f ps).completedStages,
      sid ∈ ps.completedStages ∨ Reported sc pid sid)
    (honce : ∀ pid' sid, scheduleCount sc pid' sid + calls.count (.dispatchStage pid' sid) ≤ 1)
    (hmarked : ∀ pid' sid, 0 < calls.count (.dispatchStage pid' sid) →
      pid' = pid ∧ ∃ ps, sc.state.pipelines.get? pid = some ps ∧ sid ∈ (f ps).dispatchedStages) :
    SafetyInv ((sc.withState (sc.state.updatePipeline pid f)).schedule calls) := by
  have hget : ∀ pid', (sc.state.updatePipeline pid f).pipelines.get? pid' =
      if pid' = pid then (sc.state.pipelines.get? pid).map f else sc.state.pipelines.get? pid' :=
    fun pid' => Dict.get?_modify ..
  have hcount : ∀ pid' sid, scheduleCount ((sc.withState (sc.state.updatePipeline pid f)).schedule
      calls) pid' sid = scheduleCount sc pid' sid + calls.count (.dispatchStage pid' sid) :=
    fun pid' sid => by
      simp only [scheduleCount, dispatchCount, Scene.pending_schedule, Scene.pending_withState,
        Scene.started_schedule, Scene.started_withState, List.count_append]
      omega
  have hold : ∀ pid' ps, sc.state.pipelines.get? pid' = some ps →
      ∃ ps', (sc.state.updatePipeline pid f).pipelines.get? pid' = some ps' ∧ ps'.dag = ps.dag ∧
        ps.dispatchedStages ⊆ ps'.dispatchedStages := fun pid' ps hps => by
    rw [hget]
    split
    · next heq => exact ⟨f ps, by rw [← heq, hps]; rfl, hdag ps, hmarks ps⟩
    · exact ⟨ps, hps, rfl, Finset.Subset.refl _⟩
  refine ⟨fun c hc => (List.mem_append.mp hc).elim (h.pending c) (hcalls c),
    fun pid' sid => (hcount pid' sid).symm ▸ honce pid' sid, fun pid' sid hpos => ?_,
    fun pid' ps' hps' sid hsid => ?_, fun pid' hpid => ?_, fun c hc hs => ?_, h.once⟩
  · rw [hcount] at hpos
    rcases Nat.eq_zero_or_pos (scheduleCount sc pid' sid) with hzero | hbefore
    · obtain ⟨rfl, ps, hps, hsid⟩ := hmarked pid' sid (by omega)
      exact ⟨f ps, by simp [hget, hps], hsid⟩
    · obtain ⟨ps, hps, hsid⟩ := h.marked pid' sid hbefore
      obtain ⟨ps', hps', -, hsub⟩ := hold pid' ps hps
      exact ⟨ps', hps', hsub hsid⟩
  · rw [Scene.state_schedule, Scene.state_withState, hget] at hps'
    split at hps'
    · next heq =>
      subst heq
      obtain ⟨ps, hps, rfl⟩ := Option.map_eq_some_iff.mp hps'
      exact (hcompleted ps hps sid hsid).elim (h.reported pid' ps hps sid) id
    · exact h.reported pid' ps' hps' sid hsid
  · exact Dict.mem_modify.mpr (h.active pid' hpid)
  · obtain ⟨hact, ps, hps, hall⟩ := h.success c hc hs
    obtain ⟨ps', hps', hdag', -⟩ := hold _ ps hps
    exact ⟨hact, ps', hps', fun sid hsid => hall sid (by rwa [PipelineState.allStages, ← hdag'])⟩

/-- A result that has come in is recorded. -/
theorem recorded (h : SafetyInv sc) {req : StageResultRequest} (hreq : Call.result req ∈ sc.started) :
    SafetyInv (sc.withState (sc.state.updatePipeline req.pipelineId (·.recordResult req))) := by
  have hfields : ∀ ps : PipelineState, (ps.recordResult req).dag = ps.dag ∧
      (ps.recordResult req).dispatchedStages = ps.dispatchedStages := fun ps => by
    unfold PipelineState.recordResult
    split <;> exact ⟨rfl, rfl⟩
  have hupdate := @update sc h req.pipelineId (·.recordResult req) [] (by simp)
    (fun ps => (hfields ps).1) (fun ps => (hfields ps).2 ▸ Finset.Subset.refl _)
    (fun ps _ sid hsid => by
      unfold PipelineState.recordResult at hsid
      split at hsid
      · next hsucc =>
        rcases Finset.mem_insert.mp hsid with rfl | hsid
        · exact .inr ⟨req, hreq, rfl, rfl, hsucc⟩
        · exact .inl hsid
      · exact .inl hsid)
    (fun pid sid => by simpa using h.scheduled pid sid) (by simp)
  rwa [Scene.schedule_nil] at hupdate

/-- Stages that are not marked as dispatched are marked and scheduled, each once. -/
theorem scheduledReady (h : SafetyInv sc) {pid : PipelineId} {ps : PipelineState}
    (hps : sc.state.pipelines.get? pid = some ps) {ready : List StageId} (hnodup : ready.Nodup)
    (hnew : ∀ sid ∈ ready, sid ∉ ps.dispatchedStages) :
    SafetyInv ((sc.withState (sc.state.updatePipeline pid fun ps =>
      { ps with dispatchedStages := ps.dispatchedStages ∪ ready.toFinset })).schedule
        (ready.map (.dispatchStage pid))) := by
  have hcalls : ∀ pid' sid, 0 < (ready.map (Call.dispatchStage pid)).count (.dispatchStage pid' sid) →
      pid' = pid ∧ sid ∈ ready := fun pid' sid hpos => by
    obtain ⟨x, hx, heq⟩ := List.mem_map.mp (List.count_pos_iff.mp hpos)
    simp only [Call.dispatchStage.injEq] at heq
    exact ⟨heq.1.symm, heq.2 ▸ hx⟩
  refine h.update (by simp) (fun _ => rfl) (fun _ => Finset.subset_union_left) (fun _ _ _ => .inl)
    (fun pid' sid => ?_) (fun pid' sid hpos => ?_)
  · have hcallsNodup : (ready.map (Call.dispatchStage pid)).Nodup :=
      hnodup.map fun a b hab => (Call.dispatchStage.inj hab).2
    have hone := List.nodup_iff_count_le_one.mp hcallsNodup (.dispatchStage pid' sid)
    rcases Nat.eq_zero_or_pos (List.count (.dispatchStage pid' sid)
      (ready.map (Call.dispatchStage pid))) with hzero | hpos
    · rw [hzero]
      exact h.scheduled pid' sid
    · -- a stage scheduled before would be marked
      obtain ⟨rfl, hsid⟩ := hcalls pid' sid hpos
      have hbefore : scheduleCount sc pid' sid = 0 := by
        by_contra hne
        obtain ⟨ps', hps', hmem⟩ := h.marked pid' sid (Nat.pos_of_ne_zero hne)
        obtain rfl := Option.some.inj (hps.symm.trans hps')
        exact hnew sid hsid hmem
      omega
  · obtain ⟨rfl, hsid⟩ := hcalls pid' sid hpos
    exact ⟨rfl, ps, hps, Finset.mem_union_right _ (List.mem_toFinset.mpr hsid)⟩

/-- A pipeline all of whose stages have completed is finalised. -/
theorem finalised (h : SafetyInv sc) {pid : PipelineId} {ps : PipelineState}
    (hps : sc.state.pipelines.get? pid = some ps) (hactive : pid ∈ sc.state.activePipelines)
    (hall : ps.completedStages = ps.allStages) {c : Completion} (hc : c.pipelineId = pid) :
    SafetyInv (sc.withState ((sc.state.completePipeline c).popPipeline pid)) := by
  subst hc
  have hfirst : ∀ c' ∈ sc.state.metrics.completions, c'.success = true →
      c'.pipelineId ≠ c.pipelineId := fun c' hc' hs heq => (h.success c' hc' hs).1 (heq ▸ hactive)
  refine ⟨h.pending, h.scheduled, h.marked, h.reported, fun pid' hpid => h.active pid' (List.mem_filter.mp hpid).1,
    fun c' hc' hs => ?_, fun pid' => ?_⟩
  · rcases List.mem_append.mp hc' with hc' | hc'
    · obtain ⟨hact, hrest⟩ := h.success c' hc' hs
      exact ⟨fun hm => hact (List.mem_filter.mp hm).1, hrest⟩
    · obtain rfl := List.mem_singleton.mp hc'
      refine ⟨fun hm => by simpa using (List.mem_filter.mp hm).2, ps, hps, fun sid hsid => ?_⟩
      exact h.reported _ ps hps sid (hall ▸ hsid)
  · simp only [successCount, Broker.popPipeline, Broker.completePipeline, Scene.state_withState,
      MetricsCollector.completions_completePipeline, List.countP_append]
    have hold := h.once pid'
    by_cases hpid : pid' = c.pipelineId
    · have hzero : sc.state.metrics.completions.countP
          (fun c' => c'.success ∧ c'.pipelineId = pid') = 0 :=
        List.countP_eq_zero.mpr fun c' hc' => by
          have := hfirst c' hc'
          simp_all
      rw [hzero, Nat.zero_add]
      exact List.countP_le_length
    · have hzero : [c].countP (fun c' => c'.success ∧ c'.pipelineId = pid') = 0 :=
        List.countP_eq_zero.mpr fun c' hc' => by
          obtain rfl := List.mem_singleton.mp hc'
          simp [Ne.symm hpid]
      rw [hzero]
      exact hold

end SafetyInv

/-- Updates of the registry are quiet. -/
theorem RegistryUpdate.quiet {kind : BrokerKind} {b b' : Broker} (h : RegistryUpdate kind b b') :
    b.Quiet b' := by
  cases h with
  | register req bidCostMs => cases kind <;> exact .of_eq rfl rfl rfl
  | remove nodeId => cases kind <;> exact .of_eq rfl rfl rfl
  | load nodeId delta hkind => exact .of_eq (by simp) (by simp) (by simp)

/-- So are the probes of a health check round. -/
theorem quiet_roundOutcome (kind : BrokerKind) (cfg : BrokerConfig) (results : List ProbeResult)
    (b : Broker) : b.Quiet (roundOutcome kind cfg results b).2 := by
  have hsync : ∀ probe (b : Broker), b.Quiet (syncLoad kind probe b) := fun probe b => by
    cases kind with
    | base | static => exact .of_eq rfl rfl rfl
    | neural =>
      show b.Quiet (NeuralBroker.syncLoad probe b)
      unfold NeuralBroker.syncLoad
      split <;> exact .of_eq rfl rfl rfl
  refine foldl_scan (P := fun _ (acc : List NodeId × Broker) => b.Quiet acc.2) (.of_eq rfl rfl rfl) ?_
  rintro _ probe _ ⟨dead, b'⟩ _ hb
  dsimp only
  split
  · have herase : b'.Quiet { b' with workerFailures := b'.workerFailures.erase probe.nodeId } :=
      .of_eq rfl rfl rfl
    exact hb.trans (herase.trans (hsync probe _))
  · exact hb.trans (.of_eq rfl rfl rfl)

/-- Every update of a handler keeps the invariant. -/
theorem tolerates_safetyInv (kind : BrokerKind) (cfg : BrokerConfig) :
    Tolerates kind cfg SafetyInv where
  aside hI h := hI.quiet h.toQuiet
  registry hI h := hI.quiet h.quiet
  emit m hI := hI.emit m
  admitted req hI _ hnew := hI.admitted hnew rfl
  recorded req hI hreq := hI.recorded hreq
  scheduled {sc pid ps} hI hps _ := by
    have hscan : SafetyInv (sc.withState
        (sc.state.updatePipeline pid fun _ => (sc.state.readyScan cfg ps).ps)) := by
      apply hI.quiet
      apply Broker.Aside.toQuiet
      apply Broker.aside_updatePipeline
      intro ps' hps'
      obtain rfl := Option.some.inj (hps.symm.trans hps')
      exact (findReadyStages_frame ..).progress
    have hget : (sc.withState (sc.state.updatePipeline pid fun _ =>
        (sc.state.readyScan cfg ps).ps)).state.pipelines.get? pid =
          some (sc.state.readyScan cfg ps).ps := by
      simp [Broker.get?_updatePipeline, hps]
    refine hscan.scheduledReady hget (ready_nodup ..) fun sid hsid => ?_
    have hdisp : (sc.state.readyScan cfg ps).ps.dispatchedStages = ps.dispatchedStages :=
      congrArg (fun p => p.2.2) (findReadyStages_frame cfg.funnel (sc.state.deadWorkers ps)
        sc.state.clock ps).progress
    exact fun hm => (pending_of_mem_ready hsid).2.1 (hdisp ▸ hm)
  finalised hI hps hactive _ hall := hI.finalised hps hactive hall rfl

theorem keeps_safetyInv (kind : BrokerKind) (cfg : BrokerConfig) :
    (faultyRules kind cfg).Keeps SafetyInv := by
  have h := tolerates_safetyInv kind cfg
  refine Rules.keeps_of_wp (fun sc c e hI => hI.answer c e) (fun sc c hI hcall => ?_)
    (fun sc c pre post hp hI _ => ?_)
  · have hstarted : SafetyInv (sc.start c) := hI.started fun pid sid hc => by
      subst hc
      exact hcall
    refine h.wp_brokerBody hstarted (by simp) (fun req hc => ?_) fun results _ =>
      hstarted.quiet (quiet_roundOutcome ..)
    subst hc
    exact hcall
  · have hstarted := hI.dequeued hp
    refine h.wp_brokerBody hstarted (by simp) (fun req hc => ?_) fun results _ =>
      hstarted.quiet (quiet_roundOutcome ..)
    obtain ⟨pid, sid, hd⟩ := hI.pending c (by simp [hp])
    rw [hd] at hc
    cases hc

/-- A condition on the broker that no quiet update touches is kept in every run, if
it survives what is admitted, marked, finalised and, where the environment may
post it, recorded. -/
theorem keeps_of_quiet {kind : BrokerKind} {cfg : BrokerConfig} {P : Broker → Prop}
    {p : BrokerScene → Call → Prop} (hquiet : ∀ b b', P b → b.Quiet b' → P b')
    (hadmitted : ∀ b (req : PlacedPipeline), P b → req.pipelineId ∉ b.pipelines → P { b with
      pipelines := b.pipelines.insert req.pipelineId
        { pipelineId := req.pipelineId, pipelineType := req.pipelineType
          dag := req.dag, placement := req.placement }
      activePipelines := b.activePipelines ++ [req.pipelineId] })
    (hmarked : ∀ b pid ps, P b → b.pipelines.get? pid = some ps → P (b.markReady cfg pid ps))
    (hfinalised : ∀ b pid ps, P b → b.pipelines.get? pid = some ps →
      ps.completedStages = ps.allStages →
      P ((b.completePipeline { pipelineId := pid, success := true }).popPipeline pid))
    (hrecorded : ∀ sc req ps, P sc.state → p sc (.result req) →
      sc.state.activePipeline? req.pipelineId = some ps →
      P (sc.state.updatePipeline req.pipelineId (·.recordResult req))) :
    ((faultyRules kind cfg).provided p).Keeps fun sc => OnlyDispatches sc ∧ P sc.state := by
  have h : Withstands kind cfg fun sc => OnlyDispatches sc ∧ P sc.state :=
    { aside := fun hI hb => ⟨hI.1, hquiet _ _ hI.2 hb.toQuiet⟩
      registry := fun hI hb => ⟨hI.1, hquiet _ _ hI.2 hb.quiet⟩
      emit := fun _ hI => hI
      admitted := fun req hI _ hnew => ⟨hI.1, hadmitted _ req hI.2 hnew⟩
      scheduled := fun hI hps _ => ⟨hI.1.scheduled _ _, hmarked _ _ _ hI.2 hps⟩
      finalised := fun hI hps _ _ hall => ⟨hI.1, hfinalised _ _ _ hI.2 hps hall⟩ }
  refine Rules.keeps_of_wp (fun _ _ _ hI => hI) (fun sc c hI hcall => ?_)
    (fun sc c pre post hp hI _ => ?_)
  · have hstarted : OnlyDispatches (sc.start c) ∧ P (sc.start c).state := hI
    refine h.wp_brokerBody hstarted (by simp) ?_ ?_ fun results _ =>
      ⟨hI.1, hquiet _ _ hI.2 (quiet_roundOutcome ..)⟩
    · rintro req rfl
      exact hcall.1
    · rintro req rfl ps hactive
      exact ⟨hI.1, hrecorded sc req ps hI.2 hcall.2 hactive⟩
  · obtain ⟨pid, sid, rfl⟩ := hI.1 c (by simp [hp])
    have hstarted : OnlyDispatches ((sc.withPending (pre ++ post)).start (.dispatchStage pid sid)) ∧
        P sc.state := ⟨hI.1.dequeued hp _, hI.2⟩
    refine h.wp_brokerBody (c := .dispatchStage pid sid) hstarted (by simp) ?_ ?_ ?_
    · intro req hc
      cases hc
    · intro req hc
      cases hc
    · intro results hc
      cases hc

/-! ## Published pipelines -/

/-- Every pipeline has the DAG that a publish request gave it. -/
def Published (sc : BrokerScene) : Prop :=
  ∀ pid ps, sc.state.pipelines.get? pid = some ps →
    ∃ req, Call.publish req ∈ sc.started ∧ req.pipelineId = pid ∧ ps.dag = req.dag

namespace Published

variable {sc sc' : BrokerScene}

theorem of_dags (h : Published sc) (hstarted : sc.started ⊆ sc'.started)
    (hdags : ∀ pid ps', sc'.state.pipelines.get? pid = some ps' →
      ∃ ps, sc.state.pipelines.get? pid = some ps ∧ ps'.dag = ps.dag) : Published sc' := by
  intro pid ps' hps'
  obtain ⟨ps, hps, hdag⟩ := hdags pid ps' hps'
  obtain ⟨req, hreq, hid, hreqdag⟩ := h pid ps hps
  exact ⟨req, hstarted hreq, hid, hdag.trans hreqdag⟩

theorem quiet (h : Published sc) {b : Broker} (hb : sc.state.Quiet b) :
    Published (sc.withState b) := by
  refine h.of_dags (List.Subset.refl _) fun pid ps' hps' => ?_
  have hp := hb.progress pid
  rw [show b.pipelines.get? pid = some ps' from hps', Option.map_some, eq_comm,
    Option.map_eq_some_iff] at hp
  exact hp.imp fun ps h => ⟨h.1, (congrArg Prod.fst h.2).symm⟩

theorem updatePipeline (h : Published sc) (pid : PipelineId) {f : PipelineState → PipelineState}
    (hf : ∀ ps, (f ps).dag = ps.dag) : Published (sc.withState (sc.state.updatePipeline pid f)) := by
  refine h.of_dags (List.Subset.refl _) fun pid' ps' hps' => ?_
  rw [Scene.state_withState, Broker.get?_updatePipeline] at hps'
  split at hps'
  · next heq =>
    obtain ⟨ps, hps, rfl⟩ := Option.map_eq_some_iff.mp hps'
    exact ⟨ps, heq ▸ hps, hf ps⟩
  · exact ⟨ps', hps', rfl⟩

end Published

theorem tolerates_published (kind : BrokerKind) (cfg : BrokerConfig) :
    Tolerates kind cfg Published where
  aside hI h := hI.quiet h.toQuiet
  registry hI h := hI.quiet h.quiet
  emit _ hI := hI
  admitted {sc} req hI hreq _ := by
    intro pid ps hps
    rw [Scene.state_withState, Dict.get?_insert] at hps
    split at hps
    · next heq =>
      obtain rfl := Option.some.inj hps
      exact ⟨req, hreq, heq.symm, rfl⟩
    · exact hI pid ps hps
  recorded req hI _ := hI.updatePipeline req.pipelineId fun ps => by
    unfold PipelineState.recordResult
    split <;> rfl
  scheduled {sc pid ps} hI hps _ := by
    refine hI.of_dags (List.Subset.refl _) fun pid' ps' hps' => ?_
    rw [Scene.state_schedule, Scene.state_withState, Broker.get?_markReady cfg _ hps] at hps'
    split at hps'
    · next heq =>
      obtain rfl := Option.some.inj hps'
      exact ⟨ps, heq ▸ hps, congrArg Prod.fst (findReadyStages_frame cfg.funnel
        (sc.state.deadWorkers ps) sc.state.clock ps).progress⟩
    · exact ⟨ps', hps', rfl⟩
  finalised hI _ _ _ _ := hI

theorem keeps_published (kind : BrokerKind) (cfg : BrokerConfig) :
    ((faultyRules kind cfg).given SafetyInv).Keeps Published := by
  have h := tolerates_published kind cfg
  refine Rules.keeps_of_wp (fun sc c e hI => hI) (fun sc c hI hcall => ?_)
    (fun sc c pre post hp hI hstart => ?_)
  · have hstarted : Published (sc.start c) :=
      hI.of_dags (List.subset_append_left _ _) fun pid ps hps => ⟨ps, hps, rfl⟩
    refine h.wp_brokerBody hstarted (by simp) ?_ fun results _ =>
      hstarted.quiet (quiet_roundOutcome ..)
    rintro req rfl
    exact hcall.1
  · obtain ⟨pid, sid, rfl⟩ := hstart.2.pending c (by simp [hp])
    have hstarted : Published ((sc.withPending (pre ++ post)).start (.dispatchStage pid sid)) :=
      hI.of_dags (List.subset_append_left _ _) fun pid ps hps => ⟨ps, hps, rfl⟩
    refine h.wp_brokerBody (c := .dispatchStage pid sid) hstarted (by simp) ?_ ?_
    · intro req hc
      cases hc
    · intro results hc
      cases hc

/-! ## Safety -/

/-- A world with a broker in which nothing has happened yet: any registry, any
topology, no pipeline and no completion. -/
structure Fresh (w : BrokerWorld) : Prop where
  pipelines : w.state.pipelines = .empty
  active : w.state.activePipelines = []
  completions : w.state.metrics.completions = []
  pending : w.pending = []
  tasks : w.tasks = []
  started : w.started = []
  finished : w.finished = []

theorem Fresh.safetyInv {w : BrokerWorld} (h : Fresh w) : SafetyInv w.scene where
  pending := by simp [World.scene, h.pending]
  scheduled := by simp [scheduleCount, dispatchCount, World.scene, h.pending, h.started]
  marked := by simp [scheduleCount, dispatchCount, World.scene, h.pending, h.started]
  reported := by simp [World.scene, h.pipelines]
  active := by simp [World.scene, h.active]
  success := by simp [World.scene, h.completions]
  once := by simp [successCount, World.scene, h.completions]

/-- Under arbitrary faults no stage is dispatched twice, and a pipeline is recorded
as successful at most once, after each of its stages has reported success. -/
theorem dispatch_once_and_success_reported (kind : BrokerKind) (cfg : BrokerConfig)
    {w w' : BrokerWorld} (hw : Fresh w) (hr : (faultyRules kind cfg).Reachable w w') :
    (∀ pid sid, dispatchCount w'.scene pid sid ≤ 1) ∧
    (∀ pid, successCount w'.state pid ≤ 1) ∧
    ∀ c ∈ w'.state.metrics.completions, c.success = true →
      ∃ ps, w'.state.pipelines.get? c.pipelineId = some ps ∧
        ∀ sid ∈ ps.allStages, Reported w'.scene c.pipelineId sid := by
  have hI := (keeps_safetyInv kind cfg).reachable hw.safetyInv hw.tasks hr
  refine ⟨fun pid sid => ?_, hI.once, fun c hc hs => (hI.success c hc hs).2⟩
  have := hI.scheduled pid sid
  unfold scheduleCount at this
  omega

private def probeDag : PipelineDAG :=
  .ofLists [⟨"a", "sense", 1, 1, none, none, none⟩, ⟨"b", "filter", 1, 1, none, none, none⟩]
      [⟨"a", "b", 10⟩]

/-- A broker with one worker. -/
private def probeWorld : BrokerWorld where
  state := { workers := .ofList [("w1", ⟨"w1", "d1", "s1", 4, "http://w1", 0, 0⟩)] }

/-- A chain of two stages whose first result comes in twice and whose sends fail
or stay without a reply. -/
private def probeMoves : List (Base.Move Call PyError) :=
  [.call (.publish ⟨"p", "chain", probeDag, .ofList [("a", "w1"), ("b", "w1")], ⟨[], .empty⟩⟩),
    .start 1, .call (.result ⟨"p", "a", "w1", 0, 1, true, none⟩), .start 3,
    .call (.result ⟨"p", "a", "w1", 0, 1, true, none⟩),
    .call (.result ⟨"p", "b", "w1", 1, 2, true, none⟩),
    .reply 1 (.error (.transport "timeout"))]

theorem dispatch_once_and_success_reported_chain :
    ∃ w', (faultyRules .base { domainId := "d1", brokerId := "b1" }).performAll probeMoves
        probeWorld = some w' ∧
      (∀ pid sid, dispatchCount w'.scene pid sid ≤ 1) ∧
      (∀ pid, successCount w'.state pid ≤ 1) ∧
      ∀ c ∈ w'.state.metrics.completions, c.success = true →
        ∃ ps, w'.state.pipelines.get? c.pipelineId = some ps ∧
          ∀ sid ∈ ps.allStages, Reported w'.scene c.pipelineId sid := by
  have hrun : ((faultyRules .base { domainId := "d1", brokerId := "b1" }).performAll probeMoves
      probeWorld).isSome = true := by decide +kernel
  obtain ⟨w', hw'⟩ := Option.isSome_iff_exists.mp hrun
  exact ⟨w', hw', dispatch_once_and_success_reported .base _ ⟨rfl, rfl, rfl, rfl, rfl, rfl, rfl⟩
    (Rules.reachable_of_performAll _ hw')⟩

end NeuralPubSub
