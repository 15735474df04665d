-- SUMMARY: When a pipeline that has skipped stages is finalised, in runs of the three brokers.
import NeuralPubSub.Broker.HealthyRun
import NeuralPubSub.Broker.InFlight

open Base

/-!
# Skipped stages

In `proceed` mode a fan-in starts without the inputs that sit on dead workers, and
these are skipped. Whether a pipeline is done is decided elsewhere, where a result
comes in, and there by the completed stages alone. A pipeline that is not done has a
stage in flight, in runs in which workers leave nothing behind.
-/

namespace NeuralPubSub

/-! ## Pipelines with nothing left to wait for -/

/-- Every stage that has not been skipped has completed. -/
def PipelineState.UnskippedDone (ps : PipelineState) : Prop :=
  ∀ sid ∈ ps.allStages, sid ∉ ps.skippedStages → sid ∈ ps.completedStages

instance (ps : PipelineState) : Decidable ps.UnskippedDone :=
  inferInstanceAs (Decidable (∀ sid ∈ ps.allStages, _))

/-- A stage is neither skipped nor completed. -/
theorem PipelineState.not_unskippedDone_iff {ps : PipelineState} : ¬ ps.UnskippedDone ↔
    ∃ sid ∈ ps.allStages, sid ∉ ps.skippedStages ∧ sid ∉ ps.completedStages := by
  simp [UnskippedDone]

namespace Broker

/-- The pipeline has been completed with success, flagged as partial if it has skipped
a stage, and is no longer active. -/
def Finalised (b : Broker) (pid : PipelineId) (ps : PipelineState) : Prop :=
  pid ∉ b.activePipelines ∧ ∃ c ∈ b.metrics.completions, c.pipelineId = pid ∧ c.success = true ∧
    (c.isPartial = true ↔ ps.skippedStages ≠ ∅)

/-- Every pipeline that has not failed is finalised once all but its skipped stages have
completed. -/
def FinalisesUnskipped (b : Broker) : Prop :=
  ∀ pid ps, b.pipelines.get? pid = some ps → ps.failed = false → ps.UnskippedDone →
    b.Finalised pid ps

instance (b : Broker) (pid : PipelineId) (ps : PipelineState) : Decidable (b.Finalised pid ps) :=
  inferInstanceAs (Decidable (_ ∧ _))

/-! ### The invariant -/

/-- A pipeline that has succeeded with all its stages. -/
structure Whole (b : Broker) (pid : PipelineId) (ps : PipelineState) : Prop where
  completed : ps.completedStages = ps.allStages
  skipped : ps.skippedStages = ∅
  recorded : { pipelineId := pid, success := true } ∈ b.metrics.completions

/-- A pipeline that has not failed is active with a stage to wait for, or has succeeded
with all its stages. -/
structure Settled (b : Broker) (pid : PipelineId) (ps : PipelineState) : Prop where
  wellFormed : ps.dag.WellFormed
  open_or_whole : ps.failed = false →
    pid ∈ b.activePipelines ∧ ¬ ps.UnskippedDone ∨ pid ∉ b.activePipelines ∧ b.Whole pid ps

def NoneStuck (b : Broker) : Prop :=
  ∀ pid ps, b.pipelines.get? pid = some ps → b.Settled pid ps

theorem NoneStuck.finalisesUnskipped {b : Broker} (h : b.NoneStuck) : b.FinalisesUnskipped := by
  intro pid ps hps hfailed hdone
  cases (h pid ps hps).open_or_whole hfailed with
  | inl hopen => exact absurd hdone hopen.2
  | inr hwhole =>
    refine ⟨hwhole.1, _, hwhole.2.recorded, rfl, rfl, ?_⟩
    simp [hwhole.2.skipped]

/-! ### One lemma per kind of update -/

section Updates

variable {b b' : Broker} {pid : PipelineId}

/-- A pipeline that an update leaves alone. -/
theorem Settled.mono {ps : PipelineState} (h : b.Settled pid ps)
    (hactive : pid ∈ b'.activePipelines ↔ pid ∈ b.activePipelines)
    (hcompletions : b.metrics.completions ⊆ b'.metrics.completions) : b'.Settled pid ps := by
  refine ⟨h.wellFormed, fun hfailed => ?_⟩
  rw [hactive]
  refine (h.open_or_whole hfailed).imp id fun hwhole => ⟨hwhole.1, ?_⟩
  exact ⟨hwhole.2.completed, hwhole.2.skipped, hcompletions hwhole.2.recorded⟩

theorem NoneStuck.of_eq (h : b.NoneStuck) (hpipelines : b'.pipelines = b.pipelines)
    (hactive : b'.activePipelines = b.activePipelines)
    (hcompletions : b.metrics.completions ⊆ b'.metrics.completions) : b'.NoneStuck := by
  intro p ps hps
  rw [hpipelines] at hps
  exact (h p ps hps).mono (by rw [hactive]) hcompletions

/-- What an update of one pipeline has to show of it. -/
theorem NoneStuck.touch (h : b.NoneStuck) (pid : PipelineId)
    (hothers : ∀ p, p ≠ pid → b'.pipelines.get? p = b.pipelines.get? p)
    (hactive : ∀ p, p ≠ pid → (p ∈ b'.activePipelines ↔ p ∈ b.activePipelines))
    (hcompletions : b.metrics.completions ⊆ b'.metrics.completions)
    (hone : ∀ ps, b'.pipelines.get? pid = some ps → b'.Settled pid ps) : b'.NoneStuck := by
  intro p ps hps
  by_cases heq : p = pid
  · subst heq
    exact hone ps hps
  · rw [hothers p heq] at hps
    exact (h p ps hps).mono (hactive p heq) hcompletions

/-- A pipeline that has failed may leave. -/
theorem NoneStuck.closed (h : b.NoneStuck) {ps : PipelineState}
    (hps : b.pipelines.get? pid = some ps) (hfailed : ps.failed = true) :
    (b.popPipeline pid).NoneStuck := by
  refine h.touch pid (fun _ _ => rfl) (fun p hp => by simp [hp]) (List.Subset.refl _) ?_
  intro ps' hps'
  obtain rfl := Option.some.inj (hps.symm.trans hps')
  exact ⟨(h pid ps hps).wellFormed, fun hnot => by simp [hfailed] at hnot⟩

/-- What an update of a pipeline keeps when it advances nothing. -/
structure Retains (ps ps' : PipelineState) : Prop where
  dag : ps'.dag = ps.dag
  completed : ps'.completedStages = ps.completedStages
  failed : ps'.failed = false → ps.failed = false
  undone : ¬ ps.UnskippedDone → ¬ ps'.UnskippedDone
  skipped : ps.completedStages = ps.allStages → ps'.skippedStages = ps.skippedStages

theorem Retains.of_eq {ps ps' : PipelineState} (hdag : ps'.dag = ps.dag)
    (hcompleted : ps'.completedStages = ps.completedStages)
    (hfailed : ps'.failed = false → ps.failed = false)
    (hskipped : ps'.skippedStages = ps.skippedStages) : Retains ps ps' where
  dag := hdag
  completed := hcompleted
  failed := hfailed
  undone := by
    rw [PipelineState.UnskippedDone, PipelineState.UnskippedDone, PipelineState.allStages,
      PipelineState.allStages, hdag, hcompleted, hskipped]
    exact id
  skipped _ := hskipped

theorem Settled.retained {ps ps' : PipelineState} (h : b.Settled pid ps) (hr : Retains ps ps')
    (hactive : b'.activePipelines = b.activePipelines)
    (hcompletions : b'.metrics.completions = b.metrics.completions) : b'.Settled pid ps' := by
  refine ⟨hr.dag ▸ h.wellFormed, fun hfailed => ?_⟩
  rw [hactive]
  refine (h.open_or_whole (hr.failed hfailed)).imp (.imp id hr.undone) (.imp id fun hwhole => ?_)
  constructor
  · rw [hr.completed, hwhole.completed, PipelineState.allStages, PipelineState.allStages, hr.dag]
  · rw [hr.skipped hwhole.completed, hwhole.skipped]
  · rw [hcompletions]
    exact hwhole.recorded

theorem NoneStuck.update (h : b.NoneStuck) {f : PipelineState → PipelineState}
    (hf : ∀ ps, b.pipelines.get? pid = some ps → Retains ps (f ps)) :
    (b.updatePipeline pid f).NoneStuck := by
  refine h.touch pid ?_ (fun _ _ => Iff.rfl) (List.Subset.refl _) ?_
  · intro p hp
    rw [get?_updatePipeline, if_neg hp]
  · intro ps' hps'
    rw [get?_updatePipeline, if_pos rfl] at hps'
    obtain ⟨ps, hps, rfl⟩ := Option.map_eq_some_iff.mp hps'
    exact (h pid ps hps).retained (hf ps hps) rfl rfl

theorem NoneStuck.failed (h : b.NoneStuck) (pid : PipelineId) (error : String) :
    (b.failPipeline pid error).NoneStuck := by
  refine h.touch pid ?_ (fun p hp => by simp [hp]) (List.Subset.refl _) ?_
  · intro p hp
    rw [get?_failPipeline, if_neg hp]
  · intro ps' hps'
    rw [get?_failPipeline, if_pos rfl] at hps'
    obtain ⟨ps, hps, rfl⟩ := Option.map_eq_some_iff.mp hps'
    exact ⟨(h pid ps hps).wellFormed, fun hnot => by simp at hnot⟩

theorem NoneStuck.departed (h : b.NoneStuck) (nodeId : NodeId) :
    (NeuralBroker.failPipelinesOn nodeId b).NoneStuck := by
  refine foldl_scan (P := fun _ (b' : Broker) => b'.NoneStuck) h ?_
  intro _ p _ b' _ h'
  apply h'.update
  intro ps _
  split
  · exact .of_eq rfl rfl (by simp) rfl
  · exact .of_eq rfl rfl id rfl

end Updates
end Broker

/-! ## Dispatch rounds -/

/-- A round that skips stages starts a fan-in that it does not skip: one without
another such fan-in behind it. -/
theorem retains_findReadyStages {ps : PipelineState} (hdag : ps.dag.WellFormed) (cfg : FunnelConfig)
    (dead : Finset NodeId) (now : ℚ) : Broker.Retains ps (findReadyStages cfg dead now ps).ps := by
  classical
  have hskipped := mem_skippedStages_iff cfg dead now ps
  obtain ⟨skipped, isPartial, waitStart, hframe⟩ := findReadyStages_frame cfg dead now ps
  have hkey : ∀ sid, ps.StartsPartial cfg dead sid → sid ∈ ps.allStages ∧ ps.Pending sid := by
    rintro sid ⟨-, ⟨hpending, pre, post, hsplit, -⟩, -⟩
    exact ⟨List.mem_toFinset.mpr (by rw [hsplit]; simp), hpending⟩
  by_cases hnone : ∀ sid, ¬ ps.StartsPartial cfg dead sid
  · have hsame : (findReadyStages cfg dead now ps).ps.skippedStages = ps.skippedStages := by
      ext sid
      rw [hskipped]
      simp [hnone]
    rw [hframe] at hsame ⊢
    exact .of_eq rfl rfl id hsame
  · have hsome : (ps.allStages.filter (ps.StartsPartial cfg dead)).Nonempty := by
      obtain ⟨sid, hsid⟩ := not_forall_not.mp hnone
      exact ⟨sid, Finset.mem_filter.mpr ⟨(hkey sid hsid).1, hsid⟩⟩
    obtain ⟨last, hlast, hsink⟩ := hdag.acyclic.exists_sink hsome
    obtain ⟨hmem, hstarts⟩ := Finset.mem_filter.mp hlast
    have hpending := (hkey last hstarts).2
    have hkept : last ∉ (findReadyStages cfg dead now ps).ps.skippedStages := by
      intro hskip
      rcases (hskipped last).mp hskip with hold | ⟨sid, hsid, hdead⟩
      · exact hpending.2.2 hold
      · obtain ⟨hpred, -⟩ := PipelineState.mem_deadPreds.mp hdead
        apply hsink sid (Finset.mem_filter.mpr ⟨(hkey sid hsid).1, hsid⟩)
        exact hdag.mem_predecessors.mp hpred
    rw [hframe] at hkept ⊢
    refine ⟨rfl, rfl, id, fun _ => ?_, fun hall => ?_⟩
    · exact PipelineState.not_unskippedDone_iff.mpr ⟨last, hmem, hkept, hpending.1⟩
    · exact absurd (hall ▸ hmem) hpending.1

namespace Broker

variable {b : Broker} {pid : PipelineId} {ps : PipelineState}

theorem NoneStuck.scanned (h : b.NoneStuck) (cfg : BrokerConfig)
    (hps : b.pipelines.get? pid = some ps) :
    (b.updatePipeline pid fun _ => (b.readyScan cfg ps).ps).NoneStuck := by
  apply h.update
  intro ps' hps'
  obtain rfl := Option.some.inj (hps.symm.trans hps')
  exact retains_findReadyStages (h pid ps hps).wellFormed ..

theorem NoneStuck.marked (h : b.NoneStuck) (cfg : BrokerConfig)
    (hps : b.pipelines.get? pid = some ps) : (b.markReady cfg pid ps).NoneStuck := by
  apply (h.scanned cfg hps).update
  intro ps' _
  exact .of_eq rfl rfl id rfl

/-- A new pipeline with a stage waits for it. -/
theorem NoneStuck.admitted (h : b.NoneStuck) {req : PlacedPipeline} (hdag : req.dag.WellFormed)
    (hne : req.dag.stages.keys ≠ []) : NoneStuck { b with
      pipelines := b.pipelines.insert req.pipelineId
        { pipelineId := req.pipelineId, pipelineType := req.pipelineType
          dag := req.dag, placement := req.placement }
      activePipelines := b.activePipelines ++ [req.pipelineId] } := by
  refine h.touch req.pipelineId ?_ ?_ (List.Subset.refl _) ?_
  · exact fun p hp => Dict.get?_insert_of_ne _ _ hp
  · exact fun p hp => by simp [hp]
  · intro ps hps
    obtain rfl := Option.some.inj ((Dict.get?_insert_self ..).symm.trans hps)
    refine ⟨hdag, fun _ => .inl ⟨by simp, ?_⟩⟩
    obtain ⟨sid, hsid⟩ := List.exists_mem_of_ne_nil _ hne
    apply PipelineState.not_unskippedDone_iff.mpr
    exact ⟨sid, List.mem_toFinset.mpr hsid, by simp, by simp⟩

/-- Nothing is finalised while a stage is still to complete. -/
theorem NoneStuck.not_complete (h : b.NoneStuck) (hps : b.pipelines.get? pid = some ps)
    (hactive : pid ∈ b.activePipelines) (hfailed : ps.failed = false) :
    ps.completedStages ≠ ps.allStages := by
  intro hall
  cases (h pid ps hps).open_or_whole hfailed with
  | inl hopen => exact hopen.2 fun sid hsid _ => hall ▸ hsid
  | inr hwhole => exact hwhole.1 hactive

/-! ## Results -/

/-- A result that leaves only skipped stages comes to a pipeline that has skipped none,
and that has recorded no stage of another pipeline. -/
def CompletesWhole (b : Broker) (req : StageResultRequest) : Prop :=
  ∀ ps, b.activePipeline? req.pipelineId = some ps → ps.failed = false → req.success = true →
    (∀ sid ∈ ps.allStages,
      sid ∈ ps.skippedStages ∨ sid ∈ ps.completedStages ∨ sid = req.stageId) →
    ps.skippedStages = ∅ ∧ ps.completedStages ⊆ ps.allStages

instance (b : Broker) (req : StageResultRequest) : Decidable (b.CompletesWhole req) :=
  inferInstanceAs (Decidable (∀ ps ∈ b.activePipeline? req.pipelineId, _ → _ → _ → _ ∧ _))

/-- A result leaves its pipeline with a stage to wait for, or completes it as a whole. -/
theorem NoneStuck.recorded (h : b.NoneStuck) {req : StageResultRequest}
    (hwhole : b.CompletesWhole req) (hactive : b.activePipeline? req.pipelineId = some ps) :
    (b.updatePipeline req.pipelineId (·.recordResult req)).NoneStuck ∨
      req.success = true ∧ ps.failed = false ∧ ps.skippedStages = ∅ ∧
        insert req.stageId ps.completedStages = ps.allStages := by
  obtain ⟨hmem, hps⟩ := Withstands.active_of_activePipeline? hactive
  have hsettled := h req.pipelineId ps hps
  have htouch : (b.updatePipeline req.pipelineId (·.recordResult req)).Settled req.pipelineId
      (ps.recordResult req) → (b.updatePipeline req.pipelineId (·.recordResult req)).NoneStuck := by
    intro hone
    refine h.touch req.pipelineId ?_ (fun _ _ => Iff.rfl) (List.Subset.refl _) ?_
    · intro p hp
      rw [get?_updatePipeline, if_neg hp]
    · intro ps' hps'
      rw [get?_updatePipeline, if_pos rfl, hps] at hps'
      exact Option.some.inj hps' ▸ hone
  cases hsuccess : req.success with
  | false =>
    left
    apply htouch
    have hrecorded : (ps.recordResult req).dag = ps.dag ∧ (ps.recordResult req).failed = true := by
      simp [PipelineState.recordResult, hsuccess]
    exact ⟨hrecorded.1 ▸ hsettled.wellFormed, fun hnot => by simp [hrecorded.2] at hnot⟩
  | true =>
    have hrecorded : ps.recordResult req =
        { ps with completedStages := insert req.stageId ps.completedStages } := if_pos hsuccess
    rw [hrecorded] at htouch
    cases hfailed : ps.failed with
    | true => exact .inl (htouch ⟨hsettled.wellFormed, fun hnot => by simp [hfailed] at hnot⟩)
    | false =>
      by_cases hdone : ({ ps with
          completedStages := insert req.stageId ps.completedStages } : PipelineState).UnskippedDone
      · right
        have hleft : ∀ sid ∈ ps.allStages,
            sid ∈ ps.skippedStages ∨ sid ∈ ps.completedStages ∨ sid = req.stageId := by
          intro sid hsid
          have := hdone sid hsid
          grind
        obtain ⟨hskipped, hsub⟩ := hwhole ps hactive hfailed hsuccess hleft
        have hall : ps.allStages ⊆ insert req.stageId ps.completedStages := fun sid hsid =>
          hdone sid hsid (by simp [hskipped])
        -- before the result a stage was missing, so the result names a stage of the pipeline
        have hstage : req.stageId ∈ ps.allStages := by
          by_contra hnot
          apply h.not_complete hps hmem hfailed
          apply hsub.antisymm
          intro sid hsid
          exact (Finset.mem_insert.mp (hall hsid)).resolve_left fun heq => hnot (heq ▸ hsid)
        exact ⟨rfl, rfl, hskipped, (Finset.insert_subset hstage hsub).antisymm hall⟩
      · exact .inl (htouch ⟨hsettled.wellFormed, fun _ => .inl ⟨hmem, hdone⟩⟩)

end Broker

/-! ## Handlers -/

/-- What holds whenever the handlers of a broker wait. -/
structure SettledInv (sc : BrokerScene) : Prop where
  pending : OnlyDispatches sc
  published : ∀ req, Call.publish req ∈ sc.started →
    req.dag.WellFormed ∧ req.dag.stages.keys ≠ []
  settled : sc.state.NoneStuck

theorem endures_settledInv (kind : BrokerKind) (cfg : BrokerConfig) :
    Endures kind cfg SettledInv where
  side {sc b} hI hb := by
    refine ⟨hI.pending, hI.published, ?_⟩
    cases hb with
    | still hp ha hc => exact hI.settled.of_eq hp ha fun c hmem => hc ▸ hmem
    | failed pid error => exact hI.settled.failed pid error
    | reported hc => exact hI.settled.of_eq rfl rfl (by simp)
    | closed hps hfailed => exact hI.settled.closed hps hfailed
    | rehosted pid sid nodeId => exact hI.settled.update fun ps _ => .of_eq rfl rfl id rfl
    | departed nodeId => exact hI.settled.departed nodeId
    | scanned hps hfailed => exact hI.settled.scanned cfg hps
  registry {sc b} hI hb := by
    refine ⟨hI.pending, hI.published, ?_⟩
    cases hb with
    | register req bidCostMs =>
      cases kind <;> exact hI.settled.of_eq rfl rfl (List.Subset.refl _)
    | remove nodeId => cases kind <;> exact hI.settled.of_eq rfl rfl (List.Subset.refl _)
    | load nodeId delta hkind => exact hI.settled.of_eq (by simp) (by simp) (by simp)
  emit _ hI := ⟨hI.pending, hI.published, hI.settled⟩
  admitted req hI hreq hnew := by
    obtain ⟨hdag, hne⟩ := hI.published req hreq
    exact ⟨hI.pending, hI.published, hI.settled.admitted hdag hne⟩
  scheduled hI hps hfailed :=
    ⟨hI.pending.scheduled _ _, hI.published, hI.settled.marked cfg hps⟩
  finalised hI hps hactive hfailed hall :=
    absurd hall (hI.settled.not_complete hps hactive hfailed)

section Handlers

variable {r : Wake Broker Call WorkerMessage PyError Response} {cfg : BrokerConfig}
  {sc : BrokerScene} {req : StageResultRequest} {ps : PipelineState}

/-- What finalising a pipeline does. -/
theorem wp_completeOrAdvance_of_complete {I : BrokerScene → Prop} {E : PyError → BrokerScene → Prop}
    {Q : Response → BrokerScene → Prop} (hps : sc.state.pipelines.get? req.pipelineId = some ps)
    (hfailed : ps.failed = false) (hall : ps.completedStages = ps.allStages) :
    (completeOrAdvance cfg req).wp r I E Q sc ↔ Q (.pipelineComplete req.pipelineId) (sc.withState
      (((sc.state.record (stageRecord req .delivered sc.state.clock ps.pipelineType)).completePipeline
        { pipelineId := req.pipelineId, success := true }).popPipeline req.pipelineId)) := by
  unfold completeOrAdvance
  rw [Co.wp_monad_bind, wp_getPipeline hps, hfailed, if_neg (by simp), if_pos hall]
  exact Iff.rfl

/-- A pipeline that the result has completed as a whole is finalised. -/
theorem wp_completeOrAdvance_whole {sc₀ : BrokerScene} (hI : SettledInv sc₀)
    (hpending : sc.pending = sc₀.pending) (hstarted : sc.started = sc₀.started)
    (hps : sc₀.state.pipelines.get? req.pipelineId = some ps) (hsuccess : req.success = true)
    (hfailed : ps.failed = false) (hskipped : ps.skippedStages = ∅)
    (hall : insert req.stageId ps.completedStages = ps.allStages)
    (hpipelines : sc.state.pipelines =
      (sc₀.state.updatePipeline req.pipelineId (·.recordResult req)).pipelines)
    (hactive : sc.state.activePipelines = sc₀.state.activePipelines)
    (hcompletions : sc.state.metrics.completions = sc₀.state.metrics.completions) :
    (completeOrAdvance cfg req).wp r SettledInv (fun _ => SettledInv) (fun _ => SettledInv) sc := by
  have hrecorded : ps.recordResult req =
      { ps with completedStages := insert req.stageId ps.completedStages } := if_pos hsuccess
  have hget : sc.state.pipelines.get? req.pipelineId = some (ps.recordResult req) := by
    rw [hpipelines, Broker.get?_updatePipeline, if_pos rfl, hps]
    rfl
  have hdone : (ps.recordResult req).completedStages = (ps.recordResult req).allStages := by
    rw [hrecorded]
    exact hall
  rw [wp_completeOrAdvance_of_complete hget (by rw [hrecorded]; exact hfailed) hdone]
  refine ⟨?_, ?_, hI.settled.touch req.pipelineId ?_ ?_ ?_ ?_⟩
  · intro c hc
    exact hI.pending c (hpending ▸ hc)
  · intro req' hreq'
    exact hI.published req' (hstarted ▸ hreq')
  · intro p hp
    show sc.state.pipelines.get? p = _
    rw [hpipelines, Broker.get?_updatePipeline, if_neg hp]
  · intro p hp
    simp [hactive, hp]
  · simp [hcompletions]
  · intro ps' hps'
    obtain rfl := Option.some.inj (hget.symm.trans hps')
    refine ⟨?_, fun _ => .inr ⟨by simp, hdone, ?_, by simp⟩⟩
    · rw [hrecorded]
      exact (hI.settled req.pipelineId ps hps).wellFormed
    · rw [hrecorded]
      exact hskipped

/-- A successful result that brings the last stage in, with none skipped. -/
def BringsLast (b : Broker) (req : StageResultRequest) (ps : PipelineState) : Prop :=
  b.activePipeline? req.pipelineId = some ps ∧ req.success = true ∧ ps.failed = false ∧
    ps.skippedStages = ∅ ∧ insert req.stageId ps.completedStages = ps.allStages

theorem SettledInv.recorded_of_not_last (hI : SettledInv sc) (hwhole : sc.state.CompletesWhole req)
    (hnot : ¬ ∃ ps, BringsLast sc.state req ps) {ps : PipelineState}
    (hactive : sc.state.activePipeline? req.pipelineId = some ps) :
    SettledInv (sc.withState (sc.state.updatePipeline req.pipelineId (·.recordResult req))) := by
  refine ⟨hI.pending, hI.published, ?_⟩
  apply (hI.settled.recorded hwhole hactive).resolve_right
  intro hrest
  exact hnot ⟨ps, hactive, hrest⟩

theorem wp_handleResult_settled (hI : SettledInv sc)
    (hwhole : sc.state.CompletesWhole req) :
    (BaseBroker.handleResult cfg req).wp r SettledInv (fun _ => SettledInv) (fun _ => SettledInv)
      sc := by
  have h := endures_settledInv .base cfg
  by_cases hcomplete : ∃ ps, BringsLast sc.state req ps
  · obtain ⟨ps, hactive, hsuccess, hfailed, hskipped, hall⟩ := hcomplete
    have hps := (Withstands.active_of_activePipeline? hactive).2
    unfold BaseBroker.handleResult
    simp only [Co.wp_monad_bind, Co.wp_read, Co.wp_modify]
    rw [show (sc.withState (sc.state.record _)).state.activePipeline? req.pipelineId = some ps
      from hactive]
    exact wp_completeOrAdvance_whole hI rfl rfl hps hsuccess hfailed hskipped hall rfl rfl rfl
  · apply h.wp_handleResult hI
    intro ps hactive
    exact hI.recorded_of_not_last hwhole hcomplete hactive

theorem wp_neuralResult_settled (hI : SettledInv sc) (hwhole : sc.state.CompletesWhole req) :
    (NeuralBroker.result cfg req).wp r SettledInv (fun _ => SettledInv) (fun _ => SettledInv)
      sc := by
  have h := endures_settledInv .neural cfg
  by_cases hcomplete : ∃ ps, BringsLast sc.state req ps
  · obtain ⟨ps, hactive, hsuccess, hfailed, hskipped, hall⟩ := hcomplete
    have hps := (Withstands.active_of_activePipeline? hactive).2
    have hstage : req.stageId ∈ ps.allStages := hall ▸ Finset.mem_insert_self ..
    obtain ⟨stage, hget, -⟩ := getStage_of_mem (List.mem_toFinset.mp hstage)
    unfold NeuralBroker.result
    simp only [Co.wp_monad_bind, Co.wp_read, Co.wp_modify]
    rw [show (sc.withState (sc.state.record _)).state.activePipeline? req.pipelineId = some ps
      from hactive]
    simp only [Co.wp_monad_bind, Co.wp_ofExcept, hget, Co.wp_modify]
    refine wp_completeOrAdvance_whole hI ?_ ?_ hps hsuccess hfailed hskipped hall ?_ ?_ ?_
    · rfl
    · rfl
    · exact NeuralBroker.pipelines_updateWorkerLoad ..
    · exact NeuralBroker.activePipelines_updateWorkerLoad ..
    · exact congrArg (·.completions) (NeuralBroker.metrics_updateWorkerLoad ..)
  · apply h.wp_neuralResult hI
    intro ps hactive
    exact hI.recorded_of_not_last hwhole hcomplete hactive

end Handlers

/-! ## Runs -/

/-- The publish requests and results that leave no pipeline stuck. -/
def KeepsWhole (b : Broker) : Call → Prop
  | .publish req => req.dag.stages.keys ≠ []
  | .result req => b.CompletesWhole req
  | _ => True

instance (b : Broker) : ∀ c, Decidable (KeepsWhole b c)
  | .publish req => inferInstanceAs (Decidable (req.dag.stages.keys ≠ []))
  | .result req => inferInstanceAs (Decidable (b.CompletesWhole req))
  | .register _ | .deregister _ | .dispatchStage _ _ | .healthCheck _ | .cachePeerWorkers _
  | .tick _ => isTrue trivial

/-- Runs under arbitrary faults in which each result that leaves only skipped stages
comes to a pipeline that has skipped none. -/
def wholeRules (kind : BrokerKind) (cfg : BrokerConfig) :
    Rules Broker Call WorkerMessage PyError Response :=
  (faultyRules kind cfg).provided fun sc => KeepsWhole sc.state

instance (kind : BrokerKind) (cfg : BrokerConfig) : (wholeRules kind cfg).DecidableRules :=
  inferInstanceAs (Rules.DecidableRules (Rules.provided _ _))

theorem keeps_settledInv (kind : BrokerKind) (cfg : BrokerConfig) :
    ((wholeRules kind cfg).provided fun _ c => c.BuiltDag).Keeps SettledInv := by
  have h := endures_settledInv kind cfg
  refine Rules.keeps_of_wp (fun _ _ _ hI => ⟨hI.pending, hI.published, hI.settled⟩)
    (fun sc c hI hcall => ?_) (fun sc c pre post hp hI _ => ?_)
  · obtain ⟨⟨hfaulty, hwhole⟩, hbuilt⟩ := hcall
    have hstarted : SettledInv (sc.start c) := by
      refine ⟨hI.pending, fun req hreq => ?_, hI.settled⟩
      rcases List.mem_append.mp hreq with hold | hnew
      · exact hI.published req hold
      · obtain rfl := List.mem_singleton.mp hnew
        exact ⟨(hbuilt req.dag rfl).wellFormed, hwhole⟩
    have hothers : (∀ req, c ≠ .result req) → (brokerBody kind cfg c).wp (r := Rules.wake
        ((wholeRules kind cfg).provided fun _ c => c.BuiltDag) c sc.state) SettledInv
          (fun _ => SettledInv) (fun _ => SettledInv) (sc.start c) := by
      intro hc
      refine h.wp_brokerBody hstarted (by simp) ?_ (fun req heq => absurd heq (hc req)) ?_
      · rintro req rfl
        exact hfaulty
      · intro results _
        obtain ⟨hpipelines, hactive, -⟩ := roundOutcome_frame kind cfg results sc.state
        obtain ⟨cs, hcs, -⟩ := (quiet_roundOutcome kind cfg results sc.state).completions
        have hprobed : (roundOutcome kind cfg results sc.state).2.NoneStuck := by
          apply hI.settled.of_eq hpipelines hactive
          rw [hcs]
          exact List.subset_append_left _ _
        exact ⟨hI.pending, hstarted.published, hprobed⟩
    cases c with
    | result req =>
      cases kind with
      | base => exact wp_handleResult_settled hstarted hwhole
      | static => exact wp_handleResult_settled hstarted hwhole
      | neural => exact wp_neuralResult_settled hstarted hwhole
    | publish | register | deregister | dispatchStage | healthCheck | cachePeerWorkers | tick =>
      exact hothers (by simp)
  · obtain ⟨pid, sid, rfl⟩ := hI.pending c (by simp [hp])
    refine h.wp_brokerBody (c := .dispatchStage pid sid) ⟨hI.pending.dequeued hp _, ?_, hI.settled⟩
      (by simp) ?_ ?_ ?_
    · intro req hreq
      exact hI.published req ((List.mem_append.mp hreq).resolve_right (by simp))
    · intro req hc
      cases hc
    · intro req hc
      cases hc
    · intro results hc
      cases hc

/-- In every run in which the last stage that is not skipped completes only where none
is skipped, every pipeline is finalised once its stages that are not skipped have
completed. -/
theorem finalised_of_reachable (kind : BrokerKind) (cfg : BrokerConfig)
    {w w' : BrokerWorld} (hw : Fresh w) (hr : (wholeRules kind cfg).Reachable w w')
    (hbuilt : ∀ c ∈ w'.started, c.BuiltDag) : w'.state.FinalisesUnskipped := by
  have hinit : SettledInv w.scene := by
    refine ⟨?_, ?_, ?_⟩
    · intro c hc
      simp [World.scene, hw.pending] at hc
    · intro req hreq
      simp [World.scene, hw.started] at hreq
    · intro pid ps hps
      simp [World.scene, hw.pipelines] at hps
  have hI := (keeps_settledInv kind cfg).reachable hinit hw.tasks (hr.provided hbuilt)
  exact hI.settled.finalisesUnskipped

/-! ## Runs that leave no pipeline idle -/

/-- The calls after which every active pipeline is in flight. -/
def KeepsUnderway (kind : BrokerKind) (cfg : BrokerConfig) (sc : BrokerScene) : Call → Prop
  | .publish req => req.PlacesAll ∧ (kind = .neural → (checkFeasibility req.placement req.dag
    req.feasibilityTopology cfg.governance).isOk = true)
  | .deregister nodeId => nodeId ∈ sc.state.workers → UnderwayFrom cfg (· ≠ nodeId) sc
  | .healthCheck results => kind ≠ .base →
    UnderwayFrom cfg (SurvivesRound kind cfg results sc.state) sc
  | .result req => GoesOn cfg sc req
  | .register req => OwesNothing cfg sc req.nodeId
  | .cachePeerWorkers urls => ListsSentTo cfg sc urls
  | .dispatchStage _ _ | .tick _ => True

instance (kind : BrokerKind) (cfg : BrokerConfig) (sc : BrokerScene) :
    ∀ c, Decidable (KeepsUnderway kind cfg sc c)
  | .publish req => inferInstanceAs (Decidable ((∀ sid ∈ req.dag.stages.keys, sid ∈ req.placement) ∧
    (kind = .neural → _)))
  | .deregister nodeId => inferInstanceAs (Decidable (nodeId ∈ sc.state.workers →
    sc.state.AllInFlight (underway cfg sc) (· ≠ nodeId)))
  | .healthCheck results => inferInstanceAs (Decidable (kind ≠ .base →
    sc.state.AllInFlight (underway cfg sc) (SurvivesRound kind cfg results sc.state)))
  | .result req => inferInstanceAs (Decidable (GoesOn cfg sc req))
  | .register req => inferInstanceAs (Decidable (OwesNothing cfg sc req.nodeId))
  | .cachePeerWorkers urls => inferInstanceAs (Decidable (ListsSentTo cfg sc urls))
  | .dispatchStage _ _ | .tick _ => isTrue trivial

/-- Moreover a worker leaves only where every active pipeline is in flight without it, one
that registers has nothing to report, and a result leaves its pipeline with something to go
on with. -/
def settledRules (kind : BrokerKind) (cfg : BrokerConfig) :
    Rules Broker Call WorkerMessage PyError Response :=
  { (wholeRules kind cfg).provided (KeepsUnderway kind cfg) with
    mayReply := fun sc m reply => kind = .static → reply.isOk = false → RetriesAll cfg sc m
    mayJoin := fun c since sc => match c with
      | .healthCheck results => kind ≠ .base →
        UnderwayFrom cfg (SurvivesRound kind cfg results since) sc
      | _ => True }

instance (kind : BrokerKind) (cfg : BrokerConfig) : (settledRules kind cfg).DecidableRules where
  mayCall := Rules.DecidableRules.mayCall
    (r := (wholeRules kind cfg).provided (KeepsUnderway kind cfg))
  mayReply sc m reply := inferInstanceAs (Decidable (kind = .static → reply.isOk = false →
    RetriesAll cfg sc m))
  mayStart _ _ := isTrue trivial
  mayJoin c since sc := match c with
    | .healthCheck results => inferInstanceAs (Decidable (kind ≠ .base →
      sc.state.AllInFlight (underway cfg sc) (SurvivesRound kind cfg results since)))
    | .publish _ | .register _ | .deregister _ | .result _ | .dispatchStage _ _
    | .cachePeerWorkers _ | .tick _ => isTrue trivial

/-- What has been published is sound and placed in full. -/
def PublishedInFull (sc : BrokerScene) : Prop :=
  ∀ req, Call.publish req ∈ sc.started → req.dag.WellFormed ∧ req.PlacesAll

theorem keeps_publishedInFull (kind : BrokerKind) (cfg : BrokerConfig) {w : BrokerWorld}
    (hw : Booted w) {p : BrokerScene → Call → Prop}
    (hp : ∀ sc req, p sc (.publish req) → req.dag.WellFormed ∧ req.PlacesAll) :
    ((faultyRules kind cfg).provided p).Keeps fun sc =>
      BrokerRun kind cfg w.scene sc ∧ PublishedInFull sc := by
  have hfollows : Follows kind cfg fun sc =>
      BrokerRun kind cfg w.scene sc ∧ PublishedInFull sc := by
    constructor
    · exact fun h hstep hstarted => ⟨h.1.tail hstep, fun req hreq => h.2 req (hstarted ▸ hreq)⟩
    · intro sc c pre post h hpending
      refine ⟨h.1.tail (.takenUp hpending), fun req hreq => ?_⟩
      rcases List.mem_append.mp hreq with hold | hnew
      · exact h.2 req hold
      · obtain ⟨pid, sid, rfl⟩ := (h.1.inOrder hw.inOrder).pending c (by simp [hpending])
        cases List.mem_singleton.mp hnew
    · exact fun h => h.1.inOrder hw.inOrder
  refine hfollows.keeps fun h hexternal hcall =>
    ⟨h.1.tail (.called _ hexternal), fun req hreq => ?_⟩
  rcases List.mem_append.mp hreq with hold | hnew
  · exact h.2 req hold
  · obtain rfl := List.mem_singleton.mp hnew
    exact hp _ req hcall

/-- What the handlers of a run may rely on: the past of the broker, and its publish requests. -/
def Underlying (kind : BrokerKind) (cfg : BrokerConfig) (w : BrokerWorld) (sc : BrokerScene) :
    Prop :=
  Stepped kind cfg w sc ∧ BrokerRun kind cfg w.scene sc ∧ PublishedInFull sc

theorem Underlying.placedInFull {kind : BrokerKind} {cfg : BrokerConfig} {w : BrokerWorld}
    (hw : Booted w) {sc : BrokerScene} (h : Underlying kind cfg w sc) : sc.state.PlacedInFull := by
  refine h.2.1.placedInFull (fun pid ps hps => ?_) fun req hcall => (h.2.2 req hcall).2
  rw [show w.scene.state.pipelines = .empty from hw.pipelines] at hps
  cases hps

theorem Underlying.wellFormed {kind : BrokerKind} {cfg : BrokerConfig} {w : BrokerWorld}
    (hw : Booted w) {sc : BrokerScene} (h : Underlying kind cfg w sc) :
    ∀ pid ps, sc.state.pipelines.get? pid = some ps → ps.dag.WellFormed := by
  intro pid ps hps
  have hnew : pid ∉ w.scene.state.pipelines := by
    rw [show w.scene.state.pipelines = .empty from hw.pipelines]
    exact Dict.not_mem_empty
  obtain ⟨req, hcall, -, hforward⟩ := h.2.1.published hnew hps
  rw [hforward.dag]
  exact (h.2.2 req hcall).1

theorem keeps_noneIdle (kind : BrokerKind) (cfg : BrokerConfig) {w : BrokerWorld} (hw : Booted w) :
    ((settledRules kind cfg).provided fun _ c => c.BuiltDag).Keeps fun sc =>
      Underlying kind cfg w sc ∧ NoneIdle cfg sc := by
  let p : BrokerScene → Call → Prop := fun sc c => KeepsUnderway kind cfg sc c ∧ c.BuiltDag
  have hpublish : ∀ sc req, p sc (.publish req) → req.dag.WellFormed ∧ req.PlacesAll :=
    fun _ req h => ⟨(h.2 req.dag rfl).wellFormed, h.1.1⟩
  have hwithin : ∀ I, ((settledRules kind cfg).provided fun _ c => c.BuiltDag).Within
      ((faultyRules kind cfg).provided p) I := fun _ =>
    ⟨rfl, fun _ _ _ h => ⟨h.1.1.1, h.1.2, h.2⟩, fun _ _ _ _ _ => trivial, fun _ _ _ h => h,
      fun _ _ _ _ _ => trivial⟩
  have hunderlying := ((keeps_stepped kind cfg hw p).within (hwithin _)).and
    (((keeps_publishedInFull kind cfg hw hpublish).within (hwithin _)).within
      ⟨rfl, fun _ _ _ h => h.1, fun _ _ _ _ h => h.1, fun _ _ _ h => h.1, fun _ _ _ _ h => h.1⟩)
  refine hunderlying.and (Rules.keeps_of_wp (fun _ _ _ hI => hI) (fun sc c hI hcall => ?_)
    (fun sc c pre post hpending hI hstart => ?_))
  · obtain ⟨⟨⟨⟨hfaulty, hwhole⟩, hkeeps⟩, hbuilt⟩, hpast⟩ := hcall
    have hdags := Underlying.wellFormed hw hpast
    have hstarted : NoneIdle cfg (sc.start c) := NoneIdle.underway_start hI c
    cases c with
    | publish req =>
      have hdag := (hbuilt req.dag rfl).wellFormed
      cases kind with
      | base | static => exact NoneIdle.wp_publish hstarted hdag hwhole
      | neural =>
        have hok := hkeeps.2 rfl
        cases hchecked : checkFeasibility req.placement req.dag req.feasibilityTopology
            cfg.governance with
        | error e =>
          rw [hchecked] at hok
          cases hok
        | ok checked => exact NoneIdle.wp_neuralPublish hstarted hdag hwhole hchecked
    | register req =>
      cases kind with
      | base => exact NoneIdle.preserves_register .base req _ hstarted
      | static => exact NoneIdle.preserves_register .static req _ hstarted
      | neural => exact NoneIdle.preserves_neuralRegister req _ hstarted
    | deregister nodeId =>
      have hleft : nodeId ∈ (sc.start (.deregister nodeId)).state.workers →
          UnderwayFrom cfg (· ≠ nodeId) (sc.start (.deregister nodeId)) := fun hmem =>
        NoneIdle.underway_start (hkeeps hmem) _
      cases kind with
      | base => exact NoneIdle.wp_deregister .base hstarted hleft
      | static => exact NoneIdle.wp_deregister .static hstarted hleft
      | neural => exact NoneIdle.wp_neuralDeregister hstarted hleft
    | result req =>
      have hknown : DispatchesKnown sc.state := hpast.1.2.2
      have hgoes := GoesOn.start hkeeps (.result req)
      cases kind with
      | base | static => exact NoneIdle.wp_handleResult hstarted hknown hdags hgoes
      | neural => exact NoneIdle.wp_neuralResult hstarted hknown hdags hgoes
    | dispatchStage pid sid => exact hfaulty.elim
    | healthCheck results =>
      have hround : kind ≠ .base → UnderwayFrom cfg (SurvivesRound kind cfg results sc.state)
          (sc.start (.healthCheck results)) := fun hkind => NoneIdle.underway_start (hkeeps hkind) _
      cases kind with
      | base => exact hstarted
      | static =>
        show (StaticBroker.healthCheck cfg results >>= fun _ => pure Response.none).wp _ _ _ _ _
        rw [Co.wp_monad_bind]
        exact NoneIdle.wp_round NoneIdle.carries_staticReplan (hround (by simp))
          fun sc' _ hjoin => hjoin.1 (by simp)
      | neural =>
        show (NeuralBroker.healthCheck cfg results >>= fun _ => pure Response.none).wp _ _ _ _ _
        rw [Co.wp_monad_bind]
        exact NoneIdle.wp_round NoneIdle.carries_neuralReplan (hround (by simp))
          fun sc' _ hjoin => hjoin.1 (by simp)
    | cachePeerWorkers urls => cases kind <;> exact hstarted
    | tick time => cases kind <;> exact hstarted
  · obtain ⟨pid, sid, rfl⟩ := hstart.2.1.2.1 c (by simp [hpending])
    have hscheduled := hstart.2.1.scheduled hw hpending
    have hplaced : sc.state.PlacedInFull := Underlying.placedInFull hw hstart.2
    have htaken := hI.takenUp hpending
    cases kind with
    | base =>
      show (BaseBroker.dispatchStage cfg pid sid >>= fun _ => pure Response.none).wp _ _ _ _ _
      rw [Co.wp_monad_bind]
      exact NoneIdle.wp_baseDispatchStage hscheduled hplaced htaken
    | static =>
      show (StaticBroker.dispatchStage cfg pid sid >>= fun _ => pure Response.none).wp _ _ _ _ _
      rw [Co.wp_monad_bind]
      refine NoneIdle.wp_staticDispatchStage (fun sc' m e hr => ?_) hscheduled hplaced htaken
      exact ⟨hr.2.1.enlisted hw, hr.2.1.2.2, hr.1 rfl rfl⟩
    | neural =>
      show (NeuralBroker.dispatchStage cfg pid sid >>= fun _ => pure Response.none).wp _ _ _ _ _
      rw [Co.wp_monad_bind]
      refine NoneIdle.wp_neuralDispatchStage (fun sc' m e hr => hr.2.1.enlisted hw) hscheduled
        hplaced (fun nodeId url hget => ?_) htaken
      obtain ⟨urls, hcall, hurl⟩ := (hstart.2.1.1.stationed hw.stationed).peers nodeId url hget
      exact ⟨urls, List.mem_append_left _ hcall, hurl⟩

private def proceedConfig : BrokerConfig where
  domainId := "d1"
  brokerId := "b1"
  healthCheckMaxFailures := 1
  funnel := { mode := .proceed, bypassReplace := true }

private def proceedDag : PipelineDAG :=
  .ofLists [⟨"a", "sense", 1, 1, none, none, none⟩, ⟨"b", "sense", 1, 1, none, none, none⟩,
      ⟨"f", "fuse", 1, 1, none, none, none⟩] [⟨"a", "f", 10⟩, ⟨"b", "f", 10⟩]

private def proceedTopology : NetworkTopology :=
  ⟨[⟨"w1", "d1", "s1", 4, 0, none⟩, ⟨"w2", "d1", "s1", 4, 0, none⟩], .ofList [(("w1", "w2"), 2)]⟩

/-- The inputs of a fan-in are sent, and what follows happens before they report. -/
private def proceedMoves (events : List (Base.Move Call PyError)) : List (Base.Move Call PyError) :=
  [.call (.register ⟨"w1", "d1", "s1", 4, "http://w1", 0, "w1"⟩),
    .call (.register ⟨"w2", "d1", "s1", 4, "http://w2", 0, "w2"⟩),
    .call (.publish ⟨"p", "funnel", proceedDag, .ofList [("a", "w1"), ("b", "w2"), ("f", "w2")],
      proceedTopology⟩), .start 3, .start 4, .reply 3 (.ok ()), .reply 4 (.ok ())] ++ events

/-- The worker of one input reports and dies, then the other input reports, and the fan-in. -/
private def calmEvents : List (Base.Move Call PyError) :=
  [.call (.result ⟨"p", "a", "w1", 0, 1, true, none⟩), .call (.healthCheck [⟨"w1", false, none⟩]),
    .call (.result ⟨"p", "b", "w2", 0, 1, true, none⟩), .start 8, .reply 8 (.ok ()),
    .call (.result ⟨"p", "f", "w2", 1, 2, true, none⟩)]

/-- The worker of one input dies, the fan-in proceeds, and all other stages report. -/
private def lossEvents : List (Base.Move Call PyError) :=
  [.call (.healthCheck [⟨"w1", false, none⟩]), .start 6, .reply 6 (.ok ()),
    .call (.result ⟨"p", "b", "w2", 0, 1, true, none⟩),
    .call (.result ⟨"p", "f", "w2", 1, 2, true, none⟩), .join 2, .join 5]

end NeuralPubSub
