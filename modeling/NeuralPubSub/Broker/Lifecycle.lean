-- SUMMARY: The life of a pipeline over whole runs: it is admitted once, moves forward only and never comes back.
import NeuralPubSub.Broker.Safety
import NeuralPubSub.Broker.Steps

open Base

/-!
# The life of a pipeline

What a single step can do to the pipelines, and what follows for a run: every run
of the event loop is a run of steps, and over such a run a pipeline keeps its DAG,
loses no progress and is not active again once it has left.
-/

namespace NeuralPubSub

/-! ## Pipelines only move forward -/

/-- A later state of the same pipeline. -/
structure PipelineState.Forward (ps ps' : PipelineState) : Prop where
  pipelineId : ps'.pipelineId = ps.pipelineId
  pipelineType : ps'.pipelineType = ps.pipelineType
  dag : ps'.dag = ps.dag
  completed : ps.completedStages ⊆ ps'.completedStages
  dispatched : ps.dispatchedStages ⊆ ps'.dispatchedStages
  skipped : ps.skippedStages ⊆ ps'.skippedStages
  failed : ps.failed = true → ps'.failed = true
  isPartial : ps.isPartial = true → ps'.isPartial = true

namespace PipelineState.Forward

variable {ps ps' ps'' : PipelineState}

theorem refl (ps : PipelineState) : ps.Forward ps :=
  ⟨rfl, rfl, rfl, subset_rfl, subset_rfl, subset_rfl, id, id⟩

theorem trans (h : ps.Forward ps') (h' : ps'.Forward ps'') : ps.Forward ps'' where
  pipelineId := h'.pipelineId.trans h.pipelineId
  pipelineType := h'.pipelineType.trans h.pipelineType
  dag := h'.dag.trans h.dag
  completed := h.completed.trans h'.completed
  dispatched := h.dispatched.trans h'.dispatched
  skipped := h.skipped.trans h'.skipped
  failed hf := h'.failed (h.failed hf)
  isPartial hp := h'.isPartial (h.isPartial hp)

theorem scan (cfg : FunnelConfig) (dead : Finset NodeId) (now : ℚ) (ps : PipelineState) :
    ps.Forward (findReadyStages cfg dead now ps).ps := by
  have hinv := ReadyScan.findReadyStages_inv cfg dead now ps
  have hskipped : ps.skippedStages ⊆ (findReadyStages cfg dead now ps).ps.skippedStages :=
    fun sid hsid => (mem_skippedStages_iff cfg dead now ps sid).mpr (.inl hsid)
  have hpartial := fun h => hinv.isPartial.mpr (.inl h)
  obtain ⟨skipped, isPartial, waitStart, hps⟩ := findReadyStages_frame cfg dead now ps
  rw [hps] at hskipped hpartial ⊢
  exact ⟨rfl, rfl, rfl, subset_rfl, subset_rfl, hskipped, id, hpartial⟩

theorem recordResult (ps : PipelineState) (req : StageResultRequest) :
    ps.Forward (ps.recordResult req) := by
  unfold PipelineState.recordResult
  split
  · exact ⟨rfl, rfl, rfl, Finset.subset_insert _ _, subset_rfl, subset_rfl, id, id⟩
  · exact ⟨rfl, rfl, rfl, subset_rfl, subset_rfl, subset_rfl, fun _ => rfl, id⟩

end PipelineState.Forward

namespace Broker

/-- A later state of the broker that has taken in no pipeline in between. -/
structure Advances (b b' : Broker) : Prop where
  pipelines : ∀ pid ps, b.pipelines.get? pid = some ps →
    ∃ ps', b'.pipelines.get? pid = some ps' ∧ ps.Forward ps'
  known : ∀ pid, pid ∈ b'.pipelines → pid ∈ b.pipelines
  active : ∀ pid ∈ b'.activePipelines, pid ∈ b.activePipelines
  completions : b.metrics.completions <+: b'.metrics.completions

namespace Advances

variable {b b' b'' : Broker}

theorem of_eq (hp : b'.pipelines = b.pipelines) (ha : b'.activePipelines = b.activePipelines)
    (hc : b'.metrics.completions = b.metrics.completions) : b.Advances b' where
  pipelines _ ps hps := ⟨ps, hp ▸ hps, .refl ps⟩
  known _ h := hp ▸ h
  active _ h := ha ▸ h
  completions := hc ▸ List.prefix_refl _

theorem trans (h : b.Advances b') (h' : b'.Advances b'') : b.Advances b'' where
  pipelines pid ps hps := by
    obtain ⟨ps', hps', hforward⟩ := h.pipelines pid ps hps
    obtain ⟨ps'', hps'', hforward'⟩ := h'.pipelines pid ps' hps'
    exact ⟨ps'', hps'', hforward.trans hforward'⟩
  known pid hpid := h.known pid (h'.known pid hpid)
  active pid hpid := h.active pid (h'.active pid hpid)
  completions := h.completions.trans h'.completions

theorem update (b : Broker) (pid : PipelineId) {f : PipelineState → PipelineState}
    (hf : ∀ ps, b.pipelines.get? pid = some ps → ps.Forward (f ps)) :
    b.Advances (b.updatePipeline pid f) where
  pipelines pid' ps hps := by
    rw [get?_updatePipeline]
    split
    · next heq =>
      subst heq
      exact ⟨f ps, by simp [hps], hf ps hps⟩
    · exact ⟨ps, hps, .refl ps⟩
  known pid' h := by
    obtain ⟨ps, hps⟩ := Dict.get?_isSome_iff.mpr h |> Option.isSome_iff_exists.mp
    rw [get?_updatePipeline] at hps
    split at hps
    · next heq =>
      subst heq
      obtain ⟨ps₀, hps₀, -⟩ := Option.map_eq_some_iff.mp hps
      exact Dict.mem_of_get?_eq_some hps₀
    · exact Dict.mem_of_get?_eq_some hps
  active _ h := h
  completions := List.prefix_refl _

theorem pop (b : Broker) (pid : PipelineId) : b.Advances (b.popPipeline pid) where
  pipelines _ ps hps := ⟨ps, hps, .refl ps⟩
  known _ h := h
  active _ h := (List.mem_filter.mp h).1
  completions := List.prefix_refl _

theorem complete (b : Broker) (c : Completion) : b.Advances (b.completePipeline c) where
  pipelines _ ps hps := ⟨ps, hps, .refl ps⟩
  known _ h := h
  active _ h := h
  completions := List.prefix_append _ _

theorem fail (b : Broker) (pid : PipelineId) (error : String) :
    b.Advances (b.failPipeline pid error) := by
  have hfailed : b.Advances
      (b.updatePipeline pid fun ps => { ps with failed := true, error := some error }) :=
    update b pid fun _ _ => ⟨rfl, rfl, rfl, subset_rfl, subset_rfl, subset_rfl, fun _ => rfl, id⟩
  exact hfailed.trans (pop _ pid)

theorem departed (nodeId : NodeId) (b : Broker) :
    b.Advances (NeuralBroker.failPipelinesOn nodeId b) := by
  refine foldl_scan (P := fun _ b' => b.Advances b') (.of_eq rfl rfl rfl) ?_
  intro _ pid _ b' _ hb
  apply hb.trans
  apply update
  intro ps _
  split
  · exact ⟨rfl, rfl, rfl, subset_rfl, subset_rfl, subset_rfl, fun _ => rfl, id⟩
  · exact .refl ps

end Advances
end Broker

/-! ## Parts of a pipeline that an update leaves alone -/

/-- A part of a pipeline that neither a scan nor a failure touches. -/
structure SteadyView {α : Type} (view : PipelineState → α) : Prop where
  scan : ∀ ps skipped isPartial waitStart, view { ps with
    skippedStages := skipped, isPartial := isPartial, funnelWaitStart := waitStart } = view ps
  fail : ∀ ps error, view { ps with failed := true, error := error } = view ps

namespace Broker

/-- The same pipelines, and the same view of each. -/
def Agrees {α : Type} (view : PipelineState → α) (b b' : Broker) : Prop :=
  ∀ pid, (b'.pipelines.get? pid).map view = (b.pipelines.get? pid).map view

namespace Agrees

variable {α : Type} {view : PipelineState → α} {b b' b'' : Broker}

theorem of_eq (h : b'.pipelines = b.pipelines) : b.Agrees view b' := fun _ => by rw [h]

theorem trans (h : b.Agrees view b') (h' : b'.Agrees view b'') : b.Agrees view b'' :=
  fun pid => (h' pid).trans (h pid)

theorem found (h : b.Agrees view b') {pid : PipelineId} {ps' : PipelineState}
    (hps' : b'.pipelines.get? pid = some ps') :
    ∃ ps, b.pipelines.get? pid = some ps ∧ view ps' = view ps := by
  have hview := h pid
  rw [hps'] at hview
  obtain ⟨ps, hps, heq⟩ := Option.map_eq_some_iff.mp hview.symm
  exact ⟨ps, hps, heq.symm⟩

theorem mem_iff (h : b.Agrees view b') (pid : PipelineId) : pid ∈ b'.pipelines ↔ pid ∈ b.pipelines := by
  have hsome := congrArg Option.isSome (h pid)
  rw [Option.isSome_map, Option.isSome_map] at hsome
  rw [← Dict.get?_isSome_iff, ← Dict.get?_isSome_iff, hsome]

theorem update (b : Broker) (pid : PipelineId) {f : PipelineState → PipelineState}
    (hf : ∀ ps, b.pipelines.get? pid = some ps → view (f ps) = view ps) :
    b.Agrees view (b.updatePipeline pid f) := by
  intro pid'
  rw [get?_updatePipeline]
  split
  · next heq =>
    subst heq
    cases hps : b.pipelines.get? pid' with
    | none => rfl
    | some ps => simp [hf ps hps]
  · rfl

theorem scan (hview : SteadyView view) (cfg : BrokerConfig) (b : Broker) {pid : PipelineId}
    {ps : PipelineState} (hps : b.pipelines.get? pid = some ps) :
    b.Agrees view (b.updatePipeline pid fun _ => (b.readyScan cfg ps).ps) := by
  apply update
  intro ps' hps'
  obtain rfl := Option.some.inj (hps.symm.trans hps')
  obtain ⟨skipped, isPartial, waitStart, hscan⟩ :=
    findReadyStages_frame cfg.funnel (b.deadWorkers ps) b.clock ps
  rw [Broker.readyScan, hscan]
  exact hview.scan ps skipped isPartial waitStart

theorem fail (hview : SteadyView view) (b : Broker) (pid : PipelineId) (error : String) :
    b.Agrees view (b.failPipeline pid error) := by
  have hfailed : b.Agrees view
      (b.updatePipeline pid fun ps => { ps with failed := true, error := some error }) :=
    update b pid fun ps _ => hview.fail ps (some error)
  exact hfailed.trans (of_eq rfl)

theorem departed (hview : SteadyView view) (nodeId : NodeId) (b : Broker) :
    b.Agrees view (NeuralBroker.failPipelinesOn nodeId b) := by
  refine foldl_scan (P := fun _ b' => b.Agrees view b') (.of_eq rfl) ?_
  intro _ pid _ b' _ hb
  apply hb.trans
  apply update
  intro ps _
  split
  · exact hview.fail ps _
  · rfl

end Agrees
end Broker

theorem onWorkerChange_frame (kind : BrokerKind) (b : Broker) :
    (onWorkerChange kind b).pipelines = b.pipelines ∧
      (onWorkerChange kind b).activePipelines = b.activePipelines ∧
      (onWorkerChange kind b).metrics = b.metrics := by
  cases kind <;> exact ⟨rfl, rfl, rfl⟩

theorem reserveLoad_frame (kind : BrokerKind) (nodeId : NodeId) (stage : Stage) (b : Broker) :
    (reserveLoad kind nodeId stage b).pipelines = b.pipelines ∧
      (reserveLoad kind nodeId stage b).activePipelines = b.activePipelines ∧
      (reserveLoad kind nodeId stage b).metrics = b.metrics := by
  cases kind <;> simp [reserveLoad]

/-- A re-placement moves a cycle on at most. -/
theorem Chosen.frame {kind : BrokerKind} {cfg : BrokerConfig} {b b' : Broker} {dag : PipelineDAG}
    {sid : StageId} {nodeId : NodeId} (h : Chosen cfg b dag sid nodeId b' kind) :
    b'.pipelines = b.pipelines ∧ b'.activePipelines = b.activePipelines ∧
      b'.metrics = b.metrics ∧ b'.workers = b.workers ∧ b'.topology = b.topology ∧
      b'.shardedPeerWorkerUrls = b.shardedPeerWorkerUrls ∧ b'.clock = b.clock := by
  cases kind with
  | base => cases h
  | neural =>
    obtain ⟨rfl, -⟩ := h
    exact ⟨rfl, rfl, rfl, rfl, rfl, rfl, rfl⟩
  | static =>
    obtain ⟨stage, -, hpick⟩ := h
    obtain rfl : (StaticBroker.pickWorker cfg stage.sliceRequirement b).2 = b' := by rw [hpick]
    unfold StaticBroker.pickWorker
    dsimp only
    repeat' split
    all_goals exact ⟨rfl, rfl, rfl, rfl, rfl, rfl, rfl⟩

theorem roundOutcome_metrics (kind : BrokerKind) (cfg : BrokerConfig) (results : List ProbeResult)
    (b : Broker) : (roundOutcome kind cfg results b).2.metrics = b.metrics := by
  refine foldl_scan (P := fun _ (acc : List NodeId × Broker) => acc.2.metrics = b.metrics) rfl ?_
  rintro _ probe _ ⟨dead, b'⟩ _ hb
  dsimp only
  split
  · cases kind with
    | base | static => exact hb
    | neural =>
      simp only [syncLoad, NeuralBroker.syncLoad]
      cases probe.reportedLoad <;> exact hb
  · exact hb

/-! ## What a step does to the pipelines -/

section Step

variable {kind : BrokerKind} {cfg : BrokerConfig} {sc sc' : BrokerScene}

/-- A step takes in a pipeline that is new, or moves those it finds forward. -/
theorem BrokerStep.admits_or_advances (h : BrokerStep kind cfg sc sc') :
    (∃ req, Call.publish req ∈ sc.started ∧ req.pipelineId ∉ sc.state.pipelines ∧
      sc'.state = sc.state.enrol cfg req) ∨ sc.state.Advances sc'.state := by
  cases h with
  | called | takenUp | answered => exact .inr (.of_eq rfl rfl rfl)
  | admitted call fresh => exact .inl ⟨_, call, fresh, rfl⟩
  | @scanned pid ps found running =>
    refine .inr (.update _ pid fun ps' hps' => ?_)
    obtain rfl := Option.some.inj (found.symm.trans hps')
    exact .scan ..
  | @scheduled pid ps found running =>
    refine .inr (Broker.Advances.trans (.update _ pid fun ps' hps' => ?_)
      (.update _ pid fun ps' _ => ?_))
    · obtain rfl := Option.some.inj (found.symm.trans hps')
      exact .scan ..
    · exact ⟨rfl, rfl, rfl, subset_rfl, Finset.subset_union_left, subset_rfl, id, id⟩
  | received | counted | ticked | cached => exact .inr (.of_eq rfl rfl rfl)
  | recorded => exact .inr ((Broker.Advances.update _ _ fun ps _ => .recordResult ps _).trans
      (.of_eq rfl rfl rfl))
  | @delivered req ps =>
    have hrecorded : sc.state.Advances (sc.state.record
      (stageRecord req .delivered sc.state.clock ps.pipelineType)) := .of_eq rfl rfl rfl
    exact .inr (hrecorded.trans ((Broker.Advances.complete _ _).trans (.pop _ req.pipelineId)))
  | @closed req ps => exact .inr ((Broker.Advances.complete _ _).trans (.pop _ req.pipelineId))
  | aborted pid error => exact .inr ((Broker.Advances.fail _ pid error).trans (.complete _ _))
  | dropped pid error => exact .inr (.fail _ pid error)
  | @sent pid ps sid nodeId url peerDispatch stage =>
    obtain ⟨hp, ha, hm⟩ := reserveLoad_frame kind nodeId stage
      (sc.state.record (dispatchRecord ps sid nodeId sc.state.clock))
    have hcompletions := congrArg MetricsCollector.completions hm
    exact .inr (.of_eq hp ha hcompletions)
  | resent => exact .inr (.of_eq rfl rfl rfl)
  | @rehosted pid ps sid nodeId b found chosen =>
    obtain ⟨hp, ha, hm, -⟩ := chosen.frame
    refine .inr (Broker.Advances.trans (.of_eq hp ha (congrArg _ hm)) (.update _ pid fun _ _ => ?_))
    exact ⟨rfl, rfl, rfl, subset_rfl, subset_rfl, subset_rfl, id, id⟩
  | registered | removed =>
    obtain ⟨hp, ha, hm⟩ := onWorkerChange_frame kind _
    exact .inr (.of_eq hp ha (congrArg _ hm))
  | departed nodeId => exact .inr (.departed nodeId _)
  | loaded nodeId delta => exact .inr (.of_eq (by simp) (by simp) (by simp))
  | @probed results =>
    obtain ⟨hp, ha, -⟩ := roundOutcome_frame kind cfg results sc.state
    exact .inr (.of_eq hp ha (congrArg _ (roundOutcome_metrics ..)))

theorem InOrder.step (h : InOrder sc) (hstep : BrokerStep kind cfg sc sc') : InOrder sc' where
  named pid ps' hps' := by
    rcases hstep.admits_or_advances with ⟨req, -, -, hstate⟩ | hadvances
    · rw [hstate] at hps'
      rw [Broker.enrol, Broker.pipelines_record, Broker.pipelines_record, Dict.get?_insert] at hps'
      split at hps'
      · next heq =>
        obtain rfl := Option.some.inj hps'
        exact heq.symm
      · exact h.named pid ps' hps'
    · have hknown := hadvances.known pid (Dict.mem_of_get?_eq_some hps')
      obtain ⟨ps, hps⟩ := Option.isSome_iff_exists.mp (Dict.get?_isSome_iff.mpr hknown)
      obtain ⟨ps'', hps'', hforward⟩ := hadvances.pipelines pid ps hps
      obtain rfl := Option.some.inj (hps'.symm.trans hps'')
      rw [hforward.pipelineId, h.named pid ps hps]
  pending := by
    cases hstep with
    | takenUp hpending => exact h.pending.dequeued hpending _
    | scheduled => exact h.pending.scheduled _ _
    | _ => exact h.pending

end Step

/-! ## Runs -/

/-- A run of atomic steps. -/
abbrev BrokerRun (kind : BrokerKind) (cfg : BrokerConfig) : BrokerScene → BrokerScene → Prop :=
  Relation.ReflTransGen (BrokerStep kind cfg)

/-- A later state of the broker: the pipelines there were before have moved forward,
and none of those that had left is active again. -/
structure Broker.Later (b b' : Broker) : Prop where
  pipelines : ∀ pid ps, b.pipelines.get? pid = some ps →
    ∃ ps', b'.pipelines.get? pid = some ps' ∧ ps.Forward ps'
  inactive : ∀ pid ∈ b.pipelines, pid ∉ b.activePipelines → pid ∉ b'.activePipelines
  completions : b.metrics.completions <+: b'.metrics.completions

/-- The stage is marked for dispatch. -/
def Broker.Marked (b : Broker) (pipelineId : PipelineId) (stageId : StageId) : Prop :=
  ∃ ps, b.pipelines.get? pipelineId = some ps ∧ stageId ∈ ps.dispatchedStages

/-- The pipeline as a publish request brings it in. -/
def PlacedPipeline.initial (req : PlacedPipeline) : PipelineState where
  pipelineId := req.pipelineId
  pipelineType := req.pipelineType
  dag := req.dag
  placement := req.placement

namespace Broker.Later

variable {b b' b'' : Broker}

theorem refl (b : Broker) : b.Later b :=
  ⟨fun _ ps hps => ⟨ps, hps, .refl ps⟩, fun _ _ h => h, List.prefix_refl _⟩

theorem trans (h : b.Later b') (h' : b'.Later b'') : b.Later b'' where
  pipelines pid ps hps := by
    obtain ⟨ps', hps', hforward⟩ := h.pipelines pid ps hps
    obtain ⟨ps'', hps'', hforward'⟩ := h'.pipelines pid ps' hps'
    exact ⟨ps'', hps'', hforward.trans hforward'⟩
  inactive pid hpid hleft := by
    obtain ⟨ps, hps⟩ := Option.isSome_iff_exists.mp (Dict.get?_isSome_iff.mpr hpid)
    obtain ⟨ps', hps', -⟩ := h.pipelines pid ps hps
    exact h'.inactive pid (Dict.mem_of_get?_eq_some hps') (h.inactive pid hpid hleft)
  completions := h.completions.trans h'.completions

theorem of_advances (h : b.Advances b') : b.Later b' :=
  ⟨h.pipelines, fun pid _ hleft hactive => hleft (h.active pid hactive), h.completions⟩

/-- A new pipeline touches none of the others. -/
theorem enrol (cfg : BrokerConfig) {req : PlacedPipeline} (hfresh : req.pipelineId ∉ b.pipelines) :
    b.Later (b.enrol cfg req) where
  pipelines pid ps hps := by
    have hne : pid ≠ req.pipelineId := by
      rintro rfl
      exact hfresh (Dict.mem_of_get?_eq_some hps)
    refine ⟨ps, ?_, .refl ps⟩
    rw [Broker.enrol, pipelines_record, pipelines_record, Dict.get?_insert, if_neg hne, hps]
  inactive pid hpid hleft := by
    have hne : pid ≠ req.pipelineId := by
      rintro rfl
      exact hfresh hpid
    simpa [Broker.enrol, hne] using hleft
  completions := List.prefix_refl _

end Broker.Later

section Run

variable {kind : BrokerKind} {cfg : BrokerConfig} {sc sc' : BrokerScene}

theorem BrokerStep.later (h : BrokerStep kind cfg sc sc') : sc.state.Later sc'.state := by
  rcases h.admits_or_advances with ⟨req, -, hfresh, hstate⟩ | hadvances
  · rw [hstate]
    exact .enrol cfg hfresh
  · exact .of_advances hadvances

theorem BrokerRun.before (h : BrokerRun kind cfg sc sc') : sc.Before sc' := by
  induction h with
  | refl => exact .refl _
  | tail _ hstep ih => exact ih.trans hstep.before

theorem BrokerRun.later (h : BrokerRun kind cfg sc sc') : sc.state.Later sc'.state := by
  induction h with
  | refl => exact .refl _
  | tail _ hstep ih => exact ih.trans hstep.later

theorem BrokerRun.inOrder (h : BrokerRun kind cfg sc sc') (hsc : InOrder sc) : InOrder sc' := by
  induction h with
  | refl => exact hsc
  | tail _ hstep ih => exact ih.step hstep

/-- A step schedules a stage once at most, and then it was not marked before. -/
theorem BrokerStep.marks (h : BrokerStep kind cfg sc sc') (pid : PipelineId) (sid : StageId) :
    scheduleCount sc' pid sid = scheduleCount sc pid sid ∨
      ¬ sc.state.Marked pid sid ∧ sc'.state.Marked pid sid ∧
        scheduleCount sc' pid sid = scheduleCount sc pid sid + 1 := by
  cases h with
  | called c external => exact .inl (by simp [scheduleCount, dispatchCount, List.count_append, external])
  | takenUp hpending => exact .inl (SafetyInv.scheduleCount_dequeued hpending pid sid)
  | @scheduled pid' ps found running =>
    have hsum : scheduleCount ((sc.withState (sc.state.markReady cfg pid' ps)).schedule
        ((sc.state.readyScan cfg ps).ready.map (.dispatchStage pid'))) pid sid =
        scheduleCount sc pid sid +
          ((sc.state.readyScan cfg ps).ready.map (Call.dispatchStage pid')).count
            (.dispatchStage pid sid) := by
      simp only [scheduleCount, dispatchCount, Scene.pending_schedule, Scene.pending_withState,
        Scene.started_schedule, Scene.started_withState, List.count_append]
      omega
    by_cases hready : Call.dispatchStage pid sid ∈
        (sc.state.readyScan cfg ps).ready.map (Call.dispatchStage pid')
    · obtain ⟨x, hx, heq⟩ := List.mem_map.mp hready
      obtain ⟨rfl, rfl⟩ := Call.dispatchStage.inj heq
      have hnodup : ((sc.state.readyScan cfg ps).ready.map (Call.dispatchStage pid')).Nodup :=
        (ready_nodup ..).map fun a b hab => (Call.dispatchStage.inj hab).2
      have hget := (Broker.get?_markReady cfg sc.state found pid').trans (if_pos rfl)
      refine .inr ⟨?_, ⟨_, hget, ?_⟩, ?_⟩
      · rintro ⟨ps', hps', hmarked⟩
        obtain rfl := Option.some.inj (found.symm.trans hps')
        exact (pending_of_mem_ready hx).2.1 hmarked
      · exact Finset.mem_union_right _ (List.mem_toFinset.mpr hx)
      · rw [hsum, List.count_eq_one_of_mem hnodup hready]
    · exact .inl (by rw [hsum, List.count_eq_zero_of_not_mem hready, Nat.add_zero])
  | _ => exact .inl rfl

theorem Broker.Later.marked {b b' : Broker} (h : b.Later b') {pid : PipelineId} {sid : StageId} :
    b.Marked pid sid → b'.Marked pid sid := by
  rintro ⟨ps, hps, hsid⟩
  obtain ⟨ps', hps', hforward⟩ := h.pipelines pid ps hps
  exact ⟨ps', hps', hforward.dispatched hsid⟩

/-- A run schedules a stage once at most, and then it was not marked before. -/
theorem BrokerRun.marks (h : BrokerRun kind cfg sc sc') (pid : PipelineId) (sid : StageId) :
    scheduleCount sc' pid sid = scheduleCount sc pid sid ∨
      ¬ sc.state.Marked pid sid ∧ sc'.state.Marked pid sid ∧
        scheduleCount sc' pid sid = scheduleCount sc pid sid + 1 := by
  induction h with
  | refl => exact .inl rfl
  | @tail sc₁ sc₂ hrun hstep ih =>
    rcases hstep.marks pid sid with hsame | ⟨hnew, hmarked, hcount⟩
    · rw [hsame]
      exact ih.imp id fun ⟨hnew, hmarked, hcount⟩ => ⟨hnew, hstep.later.marked hmarked, hcount⟩
    · rcases ih with hsame | ⟨-, hmarked₁, -⟩
      · exact .inr ⟨fun hm => hnew ((BrokerRun.later hrun).marked hm), hmarked, by rw [hcount, hsame]⟩
      · exact absurd hmarked₁ hnew

/-- A pipeline that a run has taken in comes from a publish request. -/
theorem BrokerRun.published (h : BrokerRun kind cfg sc sc') {pid : PipelineId} {ps : PipelineState}
    (hnew : pid ∉ sc.state.pipelines) (hps : sc'.state.pipelines.get? pid = some ps) :
    ∃ req, Call.publish req ∈ sc'.started ∧ req.pipelineId = pid ∧ req.initial.Forward ps := by
  induction h generalizing ps with
  | refl => exact absurd (Dict.mem_of_get?_eq_some hps) hnew
  | @tail sc₁ sc₂ _ hstep ih =>
    have hstarted := hstep.before.started.subset
    rcases hstep.admits_or_advances with ⟨req, hcall, -, hstate⟩ | hadvances
    · rw [hstate, Broker.enrol, Broker.pipelines_record, Broker.pipelines_record,
        Dict.get?_insert] at hps
      split at hps
      · next heq =>
        obtain rfl := Option.some.inj hps
        exact ⟨req, hstarted hcall, heq.symm, .refl _⟩
      · obtain ⟨req, hcall, hid, hforward⟩ := ih hps
        exact ⟨req, hstarted hcall, hid, hforward⟩
    · have hknown := hadvances.known pid (Dict.mem_of_get?_eq_some hps)
      obtain ⟨ps₁, hps₁⟩ := Option.isSome_iff_exists.mp (Dict.get?_isSome_iff.mpr hknown)
      obtain ⟨ps₂, hps₂, hforward⟩ := hadvances.pipelines pid ps₁ hps₁
      obtain rfl := Option.some.inj (hps.symm.trans hps₂)
      obtain ⟨req, hcall, hid, hforward'⟩ := ih hps₁
      exact ⟨req, hstarted hcall, hid, hforward'.trans hforward⟩

end Run

/-! ## Refinement -/

/-- Being reached by steps is a condition that every step keeps. -/
theorem follows_brokerRun {kind : BrokerKind} {cfg : BrokerConfig} {sc₀ : BrokerScene}
    (h : InOrder sc₀) : Follows kind cfg (BrokerRun kind cfg sc₀) where
  step hrun hstep _ := hrun.tail hstep
  takenUp hrun hp := hrun.tail (.takenUp hp)
  inOrder hrun := hrun.inOrder h

/-- Every run of the event loop, however its handlers interleave and whatever fails,
is a run of atomic steps. -/
theorem brokerRun_of_reachable {kind : BrokerKind} {cfg : BrokerConfig} {w w' : BrokerWorld}
    (horder : InOrder w.scene) (htasks : w.tasks = [])
    (hr : (faultyRules kind cfg).Reachable w w') : BrokerRun kind cfg w.scene w'.scene := by
  have hfollows : Follows kind cfg (BrokerRun kind cfg w.scene) := follows_brokerRun horder
  have hkeeps := hfollows.keeps (p := fun _ _ => True) fun hrun hexternal _ =>
    hrun.tail (.called _ hexternal)
  exact hkeeps.reachable .refl htasks (hr.provided fun _ _ => trivial)

theorem Fresh.inOrder {w : BrokerWorld} (h : Fresh w) : InOrder w.scene where
  named pid ps hps := by
    rw [show w.scene.state = w.state from rfl, h.pipelines] at hps
    cases hps
  pending := by simp [OnlyDispatches, World.scene, h.pending]

/-- Every run of the event loop, however its handlers interleave and whatever fails,
is a run of atomic steps. Over it a pipeline keeps its identity and its DAG, loses no
completed, dispatched or skipped stage, stays failed once it has failed and is not
active again once it has left; no completion is taken back; a stage is scheduled once
at most, and not at all once it is marked; and a pipeline that is new was published. -/
theorem pipelines_moveForward {kind : BrokerKind} {cfg : BrokerConfig} {w w' : BrokerWorld}
    (horder : InOrder w.scene) (htasks : w.tasks = [])
    (hr : (faultyRules kind cfg).Reachable w w') :
    BrokerRun kind cfg w.scene w'.scene ∧ w.state.Later w'.state ∧
      (∀ pid sid, scheduleCount w'.scene pid sid = scheduleCount w.scene pid sid ∨
        ¬ w.state.Marked pid sid ∧ w'.state.Marked pid sid ∧
          scheduleCount w'.scene pid sid = scheduleCount w.scene pid sid + 1) ∧
      ∀ pid ps, pid ∉ w.state.pipelines → w'.state.pipelines.get? pid = some ps →
        ∃ req, Call.publish req ∈ w'.started ∧ req.pipelineId = pid ∧ req.initial.Forward ps := by
  have hrun := brokerRun_of_reachable horder htasks hr
  exact ⟨hrun, hrun.later, hrun.marks, fun _ _ hnew hps => hrun.published hnew hps⟩

private def relayConfig : BrokerConfig := { domainId := "d1", brokerId := "b1" }

private def relayWorkers : Dict NodeId WorkerInfo :=
  .ofList [("w1", ⟨"w1", "d1", "s1", 4, "http://w1", 0, 0⟩),
    ("w2", ⟨"w2", "d1", "s1", 4, "http://w2", 0, 0⟩)]

private def relayWorld : BrokerWorld where
  state := StaticBroker.rebuildCycle { workers := relayWorkers }

private theorem fresh_relayWorld : Fresh relayWorld := ⟨rfl, rfl, rfl, rfl, rfl, rfl, rfl⟩

/-- The first stage of a chain moves to another worker when its send fails; the second
one is still placed on the evicted worker, so that the pipeline fails. -/
theorem pipelines_moveForward_relay :
    ∃ w', (faultyRules .static relayConfig).performAll [.call (.publish ⟨"p", "chain",
        .ofLists [⟨"a", "sense", 1, 1, none, none, none⟩, ⟨"b", "filter", 1, 1, none, none, none⟩]
            [⟨"a", "b", 10⟩],
          .ofList [("a", "w1"), ("b", "w1")], ⟨[], .empty⟩⟩), .start 1,
        .reply 1 (.error (.transport "refused")), .reply 1 (.ok ()),
        .call (.result ⟨"p", "a", "w2", 1, 2, true, none⟩), .start 3] relayWorld = some w' ∧
      (w'.state.pipelines.get? "p").any (·.failed) ∧
      BrokerRun .static relayConfig relayWorld.scene w'.scene ∧ relayWorld.state.Later w'.state ∧
      (∀ pid sid, scheduleCount w'.scene pid sid = scheduleCount relayWorld.scene pid sid ∨
        ¬ relayWorld.state.Marked pid sid ∧ w'.state.Marked pid sid ∧
          scheduleCount w'.scene pid sid = scheduleCount relayWorld.scene pid sid + 1) ∧
      ∀ pid ps, pid ∉ relayWorld.state.pipelines → w'.state.pipelines.get? pid = some ps →
        ∃ req, Call.publish req ∈ w'.started ∧ req.pipelineId = pid ∧ req.initial.Forward ps := by
  have hrun : ∃ w', (faultyRules .static relayConfig).performAll [.call (.publish ⟨"p", "chain",
        .ofLists [⟨"a", "sense", 1, 1, none, none, none⟩, ⟨"b", "filter", 1, 1, none, none, none⟩]
            [⟨"a", "b", 10⟩],
          .ofList [("a", "w1"), ("b", "w1")], ⟨[], .empty⟩⟩), .start 1,
        .reply 1 (.error (.transport "refused")), .reply 1 (.ok ()),
        .call (.result ⟨"p", "a", "w2", 1, 2, true, none⟩), .start 3] relayWorld = some w' ∧
      (w'.state.pipelines.get? "p").any (·.failed) := by decide +kernel
  obtain ⟨w', hw', hfailed⟩ := hrun
  exact ⟨w', hw', hfailed, pipelines_moveForward fresh_relayWorld.inOrder rfl
    (Rules.reachable_of_performAll _ hw')⟩

end NeuralPubSub
