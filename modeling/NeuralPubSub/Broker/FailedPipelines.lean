-- SUMMARY: When the failed pipelines of a neural broker still have a result to wait for.
import NeuralPubSub.Broker.DispatchLoad
import NeuralPubSub.Broker.Handover

open Base

/-!
# Failed pipelines

A failed pipeline leaves `_active_pipelines` with its next result. The handlers
that fail a pipeline themselves remove it at once, except for the one that removes
a worker from the registry; and a worker that departs takes its results with it.
A result is outstanding from the worker that the stage was last sent to, wherever
a re-placement has moved the stage since.
-/

namespace NeuralPubSub

/-! ## Pipelines that wait for a result -/

namespace Broker

variable {o o' : Handover} {P Q : NodeId → Prop} {b b' : Broker} {pid : PipelineId}
  {ps : PipelineState}

/-- A result of the pipeline is outstanding from a registered worker: a stage that has
been dispatched and not completed was sent to it, or is placed on it and about to be sent.
`P` singles out the workers that count. -/
def Awaited (o : Handover) (P : NodeId → Prop) (b : Broker) (pid : PipelineId)
    (ps : PipelineState) : Prop :=
  ∃ sid ∈ ps.dispatchedStages, sid ∉ ps.completedStages ∧
    ∃ nodeId, nodeId ∈ b.workers ∧ P nodeId ∧
      (o.sent pid sid nodeId ∨ o.due pid sid ∧ ps.placement.get? sid = some nodeId)

/-- Every failed pipeline that is active is awaited. -/
def FailedAwaited (o : Handover) (P : NodeId → Prop) (b : Broker) : Prop :=
  ∀ pid ∈ b.activePipelines, ∀ ps, b.pipelines.get? pid = some ps → ps.failed = true →
    b.Awaited o P pid ps

instance (cfg : BrokerConfig) (sc : BrokerScene) [DecidablePred P] (b : Broker) (pid : PipelineId)
    (ps : PipelineState) : Decidable (b.Awaited (handover cfg sc) P pid ps) :=
  decidable_of_iff (∃ sid ∈ ps.dispatchedStages, sid ∉ ps.completedStages ∧
    ∃ nodeId ∈ b.workers.keys, P nodeId ∧ (SentTo cfg sc pid sid nodeId ∨
      .dispatchStage pid sid ∈ sc.pending ∧ ps.placement.get? sid = some nodeId))
    (by simp only [← Dict.mem_iff_mem_keys]; exact Iff.rfl)

instance (cfg : BrokerConfig) (sc : BrokerScene) [DecidablePred P] (b : Broker) :
    Decidable (b.FailedAwaited (handover cfg sc) P) :=
  inferInstanceAs (Decidable (∀ pid ∈ b.activePipelines, ∀ ps ∈ b.pipelines.get? pid,
    ps.failed = true → b.Awaited (handover cfg sc) P pid ps))

theorem Awaited.mono (h : b.Awaited o P pid ps)
    (hsent : ∀ sid nodeId, o.sent pid sid nodeId → o'.sent pid sid nodeId)
    (hdue : ∀ sid, o.due pid sid → o'.due pid sid) (hPQ : ∀ nodeId, P nodeId → Q nodeId)
    (hworkers : ∀ nodeId ∈ b.workers, P nodeId → nodeId ∈ b'.workers) :
    b'.Awaited o' Q pid ps := by
  obtain ⟨sid, hdispatched, hopen, nodeId, hnode, hP, hhanded⟩ := h
  exact ⟨sid, hdispatched, hopen, nodeId, hworkers nodeId hnode hP, hPQ nodeId hP,
    hhanded.imp (hsent sid nodeId) fun ⟨hd, hhost⟩ => ⟨hdue sid hd, hhost⟩⟩

theorem FailedAwaited.mono (h : b.FailedAwaited o P)
    (hsent : ∀ pid sid nodeId, o.sent pid sid nodeId → o'.sent pid sid nodeId)
    (hdue : ∀ pid sid, o.due pid sid → o'.due pid sid) (hPQ : ∀ nodeId, P nodeId → Q nodeId) :
    b.FailedAwaited o' Q := fun pid hpid ps hps hfailed =>
  (h pid hpid ps hps hfailed).mono (hsent pid) (hdue pid) hPQ fun _ hnode _ => hnode

/-! ### One lemma per kind of update -/

/-- Whatever leaves the pipelines alone, and the workers that count. -/
theorem FailedAwaited.of_eq (h : b.FailedAwaited o P) (hpipelines : b'.pipelines = b.pipelines)
    (hactive : ∀ pid ∈ b'.activePipelines, pid ∈ b.activePipelines)
    (hworkers : ∀ nodeId ∈ b.workers, P nodeId → nodeId ∈ b'.workers) :
    b'.FailedAwaited o P := by
  intro pid hpid ps hps hfailed
  rw [hpipelines] at hps
  exact (h pid (hactive pid hpid) ps hps hfailed).mono (fun _ _ hs => hs) (fun _ hd => hd)
    (fun _ hP => hP) hworkers

/-- An update of one pipeline. -/
structure OnlyTouches (pid : PipelineId) (b b' : Broker) : Prop where
  others : ∀ p, p ≠ pid → b'.pipelines.get? p = b.pipelines.get? p
  active : ∀ p ∈ b'.activePipelines, p ≠ pid → p ∈ b.activePipelines
  workers : ∀ nodeId ∈ b.workers, nodeId ∈ b'.workers

theorem OnlyTouches.refl (b : Broker) : OnlyTouches pid b b :=
  ⟨fun _ _ => rfl, fun _ hp _ => hp, fun _ hnode => hnode⟩

theorem OnlyTouches.trans {b'' : Broker} (h : OnlyTouches pid b b') (h' : OnlyTouches pid b' b'') :
    OnlyTouches pid b b'' where
  others p hp := (h'.others p hp).trans (h.others p hp)
  active p hp hne := h.active p (h'.active p hp hne) hne
  workers nodeId hnode := h'.workers nodeId (h.workers nodeId hnode)

theorem onlyTouches_of_eq (hpipelines : b'.pipelines = b.pipelines)
    (hactive : ∀ pid ∈ b'.activePipelines, pid ∈ b.activePipelines)
    (hworkers : ∀ nodeId ∈ b.workers, nodeId ∈ b'.workers) : OnlyTouches pid b b' :=
  ⟨fun _ _ => by rw [hpipelines], fun p hp _ => hactive p hp, hworkers⟩

theorem onlyTouches_updatePipeline (f : PipelineState → PipelineState) :
    OnlyTouches pid b (b.updatePipeline pid f) where
  others p hp := by rw [get?_updatePipeline, if_neg hp]
  active _ hp _ := hp
  workers _ hnode := hnode

/-- What an update of one pipeline has to keep, and what may change about the stages
handed over: that pipeline, if it is active and failed. -/
theorem FailedAwaited.touch (h : b.FailedAwaited o P) (ht : OnlyTouches pid b b')
    (hsent : ∀ p sid nodeId, p ≠ pid → o.sent p sid nodeId → o'.sent p sid nodeId)
    (hdue : ∀ p sid, p ≠ pid → o.due p sid → o'.due p sid)
    (hone : pid ∈ b'.activePipelines → ∀ ps, b'.pipelines.get? pid = some ps → ps.failed = true →
      b'.Awaited o' P pid ps) : b'.FailedAwaited o' P := by
  intro p hp ps hps hfailed
  by_cases heq : p = pid
  · subst heq
    exact hone hp ps hps hfailed
  · rw [ht.others p heq] at hps
    exact (h p (ht.active p hp heq) ps hps hfailed).mono (fun sid nodeId => hsent p sid nodeId heq)
      (fun sid => hdue p sid heq) (fun _ hP => hP) fun nodeId hnode _ => ht.workers nodeId hnode

/-- An update of one pipeline, while no stage is handed over. -/
theorem FailedAwaited.update (h : b.FailedAwaited o P) (ht : OnlyTouches pid b b')
    (hone : pid ∈ b'.activePipelines → ∀ ps, b'.pipelines.get? pid = some ps → ps.failed = true →
      b'.Awaited o P pid ps) : b'.FailedAwaited o P :=
  h.touch ht (fun _ _ _ _ hs => hs) (fun _ _ _ hd => hd) hone

theorem FailedAwaited.popped (h : b.FailedAwaited o P) (ht : OnlyTouches pid b b')
    (hdue : ∀ p sid, p ≠ pid → o.due p sid → o'.due p sid) (hsent : o'.sent = o.sent) :
    (b'.popPipeline pid).FailedAwaited o' P := by
  have hpop : OnlyTouches pid b' (b'.popPipeline pid) :=
    onlyTouches_of_eq rfl (fun p hp => (List.mem_filter.mp hp).1) fun _ hnode => hnode
  apply h.touch (ht.trans hpop) (fun p sid nodeId _ hs => hsent ▸ hs) hdue
  intro hactive
  exact absurd hactive (by simp)

theorem FailedAwaited.failPipeline (h : b.FailedAwaited o P) (ht : OnlyTouches pid b b')
    (hdue : ∀ p sid, p ≠ pid → o.due p sid → o'.due p sid) (hsent : o'.sent = o.sent)
    (error : String) : (b'.failPipeline pid error).FailedAwaited o' P :=
  h.popped (ht.trans (onlyTouches_updatePipeline _)) hdue hsent

/-- A worker that does not count may leave. -/
theorem FailedAwaited.erase (h : b.FailedAwaited o P) {nodeId : NodeId} (hgone : ¬ P nodeId) :
    (NeuralBroker.rebuildTopology { b with workers := b.workers.erase nodeId }).FailedAwaited o P := by
  refine h.of_eq rfl (fun _ hp => hp) fun n hn hP => ?_
  refine Dict.mem_erase.mpr ⟨?_, hn⟩
  rintro rfl
  exact hgone hP

theorem FailedAwaited.updateWorkerLoad (h : b.FailedAwaited o P) (nodeId : NodeId) (delta : ℚ) :
    (NeuralBroker.updateWorkerLoad nodeId delta b).FailedAwaited o P :=
  h.of_eq (by simp) (by simp) fun n hn _ =>
    (NeuralBroker.mem_workers_updateWorkerLoad nodeId delta b n).mpr hn

theorem onlyTouches_updateWorkerLoad (nodeId : NodeId) (delta : ℚ) :
    OnlyTouches pid b (NeuralBroker.updateWorkerLoad nodeId delta b) :=
  onlyTouches_of_eq (by simp) (by simp) fun n hn =>
    (NeuralBroker.mem_workers_updateWorkerLoad nodeId delta b n).mpr hn

/-- The stage moves to a registered worker. -/
theorem FailedAwaited.rehost (h : b.FailedAwaited o fun _ => True) (sid : StageId) {nodeId : NodeId}
    (hnode : nodeId ∈ b.workers) :
    (NeuralBroker.rehost pid sid nodeId b).FailedAwaited o fun _ => True := by
  apply FailedAwaited.update h (onlyTouches_updatePipeline _)
  intro hactive ps hps hfailed
  rw [get?_updatePipeline, if_pos rfl] at hps
  obtain ⟨ps, hold, rfl⟩ := Option.map_eq_some_iff.mp hps
  obtain ⟨x, hdispatched, hopen, host, hworker, -, hsent | ⟨hdue, hhost⟩⟩ :=
    h pid hactive ps hold hfailed
  · exact ⟨x, hdispatched, hopen, host, hworker, trivial, .inl hsent⟩
  · by_cases heq : x = sid
    · exact ⟨x, hdispatched, hopen, nodeId, hnode, trivial,
        .inr ⟨hdue, by rw [heq, Dict.get?_insert_self]⟩⟩
    · refine ⟨x, hdispatched, hopen, host, hworker, trivial, .inr ⟨hdue, ?_⟩⟩
      rw [Dict.get?_insert_of_ne _ _ heq]
      exact hhost

/-- A pipeline has not failed when it is admitted. -/
theorem FailedAwaited.admitted (h : b.FailedAwaited o P) (req : PlacedPipeline) :
    FailedAwaited o P { b with
      pipelines := b.pipelines.insert req.pipelineId
        { pipelineId := req.pipelineId, pipelineType := req.pipelineType
          dag := req.dag, placement := req.placement }
      activePipelines := b.activePipelines ++ [req.pipelineId] } := by
  have htouch : ∀ ps, OnlyTouches req.pipelineId b { b with
      pipelines := b.pipelines.insert req.pipelineId ps
      activePipelines := b.activePipelines ++ [req.pipelineId] } := fun ps =>
    { others := fun p hp => Dict.get?_insert_of_ne _ _ hp
      active := fun p hp hne => (List.mem_append.mp hp).resolve_right (by simpa using hne)
      workers := fun _ hnode => hnode }
  refine FailedAwaited.update h (htouch _) fun _ ps hps hfailed => ?_
  obtain rfl := Option.some.inj ((Dict.get?_insert_self ..).symm.trans hps)
  cases hfailed

end Broker

/-! ## Handlers that keep every failed pipeline awaited -/

namespace NeuralBroker

open Broker

/-- No failed pipeline lingers among the active ones without an outstanding result. -/
def NoneLingers (cfg : BrokerConfig) (sc : BrokerScene) : Prop :=
  sc.state.FailedAwaited (handover cfg sc) fun _ => True

instance (cfg : BrokerConfig) (sc : BrokerScene) : Decidable (NoneLingers cfg sc) :=
  inferInstanceAs (Decidable (sc.state.FailedAwaited (handover cfg sc) fun _ => True))

section Handlers

variable {r : Wake Broker Call WorkerMessage PyError Response} {cfg : BrokerConfig}
  {P : NodeId → Prop} {sc : BrokerScene}

/-- Every failed pipeline waits for a worker that counts. -/
abbrev AwaitedFrom (cfg : BrokerConfig) (P : NodeId → Prop) (sc : BrokerScene) : Prop :=
  sc.state.FailedAwaited (handover cfg sc) P

theorem noneLingers_of_awaited (sc : BrokerScene) (h : AwaitedFrom cfg P sc) : NoneLingers cfg sc :=
  h.mono (fun _ _ _ hs => hs) (fun _ _ hd => hd) fun _ _ => trivial

theorem NoneLingers.start (h : NoneLingers cfg sc) (c : Call) : NoneLingers cfg (sc.start c) :=
  FailedAwaited.mono h (fun _ _ _ hs => hs.start c) (fun _ _ hd => hd) fun _ hP => hP

theorem NoneLingers.schedule (h : NoneLingers cfg sc) (calls : List Call) :
    NoneLingers cfg (sc.schedule calls) :=
  FailedAwaited.mono h (fun _ _ _ hs => hs) (fun _ _ hd => List.mem_append_left _ hd) fun _ hP => hP

theorem carries_failAndComplete (pid : PipelineId) (error : String) :
    (failAndComplete pid error).Carries r (NoneLingers cfg) (AwaitedFrom cfg P) := by
  intro sc h
  have hfail := h.failPipeline (@OnlyTouches.refl pid sc.state) (fun _ _ _ hd => hd) rfl error
  exact hfail

/-- A dispatch round of a pipeline that has not failed. -/
theorem carries_dispatchReadyStages
    (hjoin : ∀ sc, NoneLingers cfg sc → r.join sc → AwaitedFrom cfg P sc) (pid : PipelineId) :
    (dispatchReadyStages cfg pid).Carries r (NoneLingers cfg) (AwaitedFrom cfg P) := by
  intro sc h
  cases hps : sc.state.pipelines.get? pid with
  | none =>
    simpa [dispatchReadyStages, getPipeline, subscript, hps] using noneLingers_of_awaited _ h
  | some ps =>
    have hscan : OnlyTouches pid sc.state
        (sc.state.updatePipeline pid fun _ => (sc.state.readyScan cfg ps).ps) :=
      onlyTouches_updatePipeline _
    have hfailed : (sc.state.readyScan cfg ps).ps.failed = ps.failed := by
      obtain ⟨_, _, _, heq⟩ := findReadyStages_frame cfg.funnel (sc.state.deadWorkers ps)
        sc.state.clock ps
      rw [Broker.readyScan, heq]
    refine wp_dispatchReadyStages hps (fun _ => h) (fun _ result _ _ => ?_) (fun hnot _ _ => ?_)
      fun hnot _ _ => ?_
    · have hfail := h.failPipeline hscan (fun _ _ _ hd => hd) rfl (funnelError result)
      exact hfail
    · refine h.update hscan fun _ ps' hps' hf => ?_
      rw [Scene.state_withState, get?_updatePipeline, if_pos rfl, hps] at hps'
      obtain rfl := Option.some.inj hps'
      rw [hfailed, hnot] at hf
      cases hf
    · refine ⟨?_, fun sc' hI _ hj => ⟨hjoin sc' hI hj, fun _ => hI⟩⟩
      have hmark : OnlyTouches pid sc.state (sc.state.markReady cfg pid ps) :=
        hscan.trans (onlyTouches_updatePipeline _)
      have hmarked : AwaitedFrom cfg P (sc.withState (sc.state.markReady cfg pid ps)) := by
        refine h.update hmark fun _ ps' hps' hf => ?_
        rw [Scene.state_withState, get?_markReady cfg _ hps, if_pos rfl] at hps'
        obtain rfl := Option.some.inj hps'
        rw [show _ = _ from hfailed, hnot] at hf
        cases hf
      exact (noneLingers_of_awaited _ hmarked).schedule _

/-! ### Recovery -/

/-- Stages that are on a worker that does not count move without harm. -/
theorem wp_replan_gone {pid : PipelineId} {ps : PipelineState} {stages : List StageId}
    {deadNodeId : NodeId} (h : AwaitedFrom cfg P sc) (hps : sc.state.pipelines.get? pid = some ps)
    (hstages : ∀ sid ∈ stages, ps.placement.get? sid = some deadNodeId) (hgone : ¬ P deadNodeId) :
    (replan cfg pid stages).wp r (NoneLingers cfg) (fun _ => NoneLingers cfg)
      (fun _ => AwaitedFrom cfg P) sc := by
  -- whoever waits for a stage that is about to be sent waits for one that stays
  let staying : BrokerScene → Handover := fun sc =>
    ⟨SentTo cfg sc, fun p sid => .dispatchStage p sid ∈ sc.pending ∧ (p = pid → sid ∉ stages)⟩
  have hall : ∀ sc : BrokerScene, sc.state.FailedAwaited (staying sc) P → AwaitedFrom cfg P sc :=
    fun sc h' => h'.mono (fun _ _ _ hs => hs) (fun _ _ hd => hd.1) fun _ hP => hP
  have hstays : sc.state.FailedAwaited (staying sc) P := by
    intro p hp ps' hps' hfailed
    obtain ⟨sid, hdispatched, hopen, nodeId, hnode, hcounts, hsent | ⟨hdue, hhost⟩⟩ :=
      h p hp ps' hps' hfailed
    · exact ⟨sid, hdispatched, hopen, nodeId, hnode, hcounts, .inl hsent⟩
    · refine ⟨sid, hdispatched, hopen, nodeId, hnode, hcounts, .inr ⟨⟨hdue, ?_⟩, hhost⟩⟩
      rintro rfl hsid
      obtain rfl := Option.some.inj (hps.symm.trans hps')
      obtain rfl := Option.some.inj ((hstages sid hsid).symm.trans hhost)
      exact hgone hcounts
  have hmove : ∀ sid ∈ stages, ∀ nodeId, (Co.modify (·.updatePipeline pid fun ps =>
      { ps with placement := ps.placement.insert sid nodeId }) : BrokerM Unit).Carries r
        (NoneLingers cfg) fun sc => sc.state.FailedAwaited (staying sc) P := by
    intro sid hsid nodeId
    apply Co.carries_modify
    intro sc' h'
    refine h'.update (onlyTouches_updatePipeline _) fun hactive ps' hps' hfailed => ?_
    rw [Scene.state_withState, get?_updatePipeline, if_pos rfl] at hps'
    obtain ⟨ps, hold, rfl⟩ := Option.map_eq_some_iff.mp hps'
    obtain ⟨x, hdispatched, hopen, host, hnode, hcounts, hsent | ⟨hdue, hhost⟩⟩ :=
      h' pid hactive ps hold hfailed
    · exact ⟨x, hdispatched, hopen, host, hnode, hcounts, .inl hsent⟩
    · refine ⟨x, hdispatched, hopen, host, hnode, hcounts, .inr ⟨hdue, ?_⟩⟩
      rw [Dict.get?_insert_of_ne]
      · exact hhost
      · rintro rfl
        exact hdue.2 rfl hsid
  unfold replan
  rw [Co.wp_monad_bind, Co.wp_read]
  split
  · exact h
  · rw [Co.wp_monad_bind, wp_getPipeline hps]
    split
    · rw [Co.wp_monad_bind]
      apply Co.wp_mono (fun _ _ hI => hI) (fun _ sc' h' => hall sc' h')
      exact Co.carries_forEach (fun sid hsid =>
        (Co.carries_ofExcept (fun sc' h' => noneLingers_of_awaited sc' (hall sc' h')) _).bind
          fun nodeId => hmove sid hsid nodeId) sc hstays
    · exact h
    · exact noneLingers_of_awaited _ h

theorem mem_incompleteOn_iff {ps : PipelineState} {nodeId : NodeId} {sid : StageId} :
    sid ∈ ps.incompleteOn nodeId ↔
      ps.placement.get? sid = some nodeId ∧ sid ∉ ps.completedStages := by
  rw [Dict.get?_eq_some_iff]
  constructor
  · intro h
    obtain ⟨⟨sid, host⟩, hentry, rfl⟩ := List.mem_map.mp h
    obtain ⟨hmem, hcond⟩ := List.mem_filter.mp hentry
    simp only [decide_eq_true_eq] at hcond
    obtain rfl := hcond.1
    exact ⟨hmem, hcond.2⟩
  · rintro ⟨hentry, hopen⟩
    have hmem : (sid, nodeId) ∈ ps.placement.entries.filter
        fun e => e.2 = nodeId ∧ e.1 ∉ ps.completedStages :=
      List.mem_filter.mpr ⟨hentry, by simpa using hopen⟩
    exact List.mem_map_of_mem hmem

theorem mem_incompleteOn_of_mem_stagesToReplace {ps : PipelineState} {nodeId : NodeId} {sid : StageId}
    (h : sid ∈ stagesToReplace cfg ps nodeId) : sid ∈ ps.incompleteOn nodeId := by
  unfold stagesToReplace at h
  split at h
  · exact (List.mem_filter.mp h).1
  · exact h

theorem carries_replaceStagesOf
    (hjoin : ∀ sc, NoneLingers cfg sc → r.join sc → AwaitedFrom cfg P sc) {deadNodeId : NodeId}
    (hgone : ¬ P deadNodeId) (pid : PipelineId) :
    (replaceStagesOf cfg (replan cfg) deadNodeId pid).Carries r (NoneLingers cfg)
      (AwaitedFrom cfg P) := by
  intro sc h
  cases hps : sc.state.pipelines.get? pid with
  | none => simpa [replaceStagesOf, getPipeline, subscript, hps] using noneLingers_of_awaited _ h
  | some ps =>
    unfold replaceStagesOf
    rw [Co.wp_monad_bind, wp_getPipeline hps]
    split
    · exact h
    · rw [Co.wp_monad_bind]
      have hreplaced : (replaceUnlessNone (replan cfg) pid (stagesToReplace cfg ps deadNodeId)).wp r
          (NoneLingers cfg) (fun _ => NoneLingers cfg) (fun _ => AwaitedFrom cfg P) sc := by
        unfold replaceUnlessNone
        split
        · exact h
        · exact wp_replan_gone h hps (fun sid hsid => (mem_incompleteOn_iff.mp
            (mem_incompleteOn_of_mem_stagesToReplace hsid)).1) hgone
      apply Co.wp_mono (fun _ _ hI => hI) _ hreplaced
      intro replaced sc' h'
      cases replaced with
      | true => exact carries_dispatchReadyStages hjoin pid sc' h'
      | false => exact carries_failAndComplete pid _ sc' h'

/-- A worker that does not count is removed, and its stages move. -/
theorem carries_removeDeadWorker
    (hjoin : ∀ sc, NoneLingers cfg sc → r.join sc → AwaitedFrom cfg P sc) {nodeId : NodeId}
    (hgone : ¬ P nodeId) :
    (removeDeadWorker rebuildTopology (replaceFailedStages cfg) nodeId).Carries r (NoneLingers cfg)
      (AwaitedFrom cfg P) := by
  refine (Co.carries_modify fun sc h => ?_).bind fun _ => (Co.carries_modify fun sc h => ?_).bind
    fun _ => (Co.carries_read _).bind fun _ =>
      Co.carries_forEach fun pid _ => carries_replaceStagesOf hjoin hgone pid
  · exact h.of_eq rfl (fun _ hp => hp) fun _ hnode _ => hnode
  · split
    · exact h.erase hgone
    · exact h

/-! ### Dispatch -/

theorem preserves_dispatchReadyStages (pid : PipelineId) :
    (dispatchReadyStages cfg pid).Preserves r (NoneLingers cfg) :=
  carries_dispatchReadyStages (fun _ h _ => h) pid

/-- The pipeline leaves, and with it what was due. -/
theorem noneLingers_failPipeline {pid : PipelineId} {sid : StageId} {b : Broker}
    (hI : sc.state.FailedAwaited ((handover cfg sc).sending pid sid) fun _ => True)
    (ht : OnlyTouches pid sc.state b) (error : String) :
    NoneLingers cfg (sc.withState (b.failPipeline pid error)) := by
  have hleft : (b.failPipeline pid error).FailedAwaited (handover cfg sc) fun _ => True := by
    refine FailedAwaited.failPipeline hI ht (fun p s hp hdue => ?_) (by rfl) error
    exact hdue.resolve_left fun heq => hp (Prod.mk.inj heq).1
  exact hleft

/-- Nobody lingers after the stage, if it is awaited, has been handed over. -/
theorem noneLingers_of_dispatching {sc' : BrokerScene} {pid : PipelineId} {sid : StageId}
    (hI : sc.state.FailedAwaited ((handover cfg sc).sending pid sid) fun _ => True)
    (ht : OnlyTouches pid sc.state sc'.state)
    (hpipelines : sc'.state.pipelines.get? pid = sc.state.pipelines.get? pid)
    (hactive : pid ∈ sc'.state.activePipelines → pid ∈ sc.state.activePipelines)
    (hpending : sc'.pending = sc.pending)
    (hothers : ∀ p s n, (p, s) ≠ (pid, sid) → SentTo cfg sc p s n → SentTo cfg sc' p s n)
    (hown : ∀ ps, sc.state.pipelines.get? pid = some ps → sid ∈ ps.dispatchedStages →
      ∀ n ∈ sc.state.workers, SentTo cfg sc pid sid n ∨ ps.placement.get? sid = some n →
        ∃ n' ∈ sc'.state.workers, SentTo cfg sc' pid sid n') : NoneLingers cfg sc' := by
  refine FailedAwaited.touch hI ht (fun p s n hp => hothers p s n fun heq => hp (Prod.mk.inj heq).1)
    (fun p s hp hdue => ?_) fun hp ps hps hfailed => ?_
  · rw [handover, hpending]
    exact hdue.resolve_left fun heq => hp (Prod.mk.inj heq).1
  · rw [hpipelines] at hps
    obtain ⟨x, hdispatched, hopen, n, hnode, -, hhanded⟩ := hI pid (hactive hp) ps hps hfailed
    by_cases heq : x = sid
    · subst heq
      obtain ⟨n', hnode', hsent⟩ := hown ps hps hdispatched n hnode (hhanded.imp id (·.2))
      exact ⟨x, hdispatched, hopen, n', hnode', trivial, .inl hsent⟩
    · have hne : (pid, x) ≠ (pid, sid) := fun hkey => heq (Prod.mk.inj hkey).2
      refine ⟨x, hdispatched, hopen, n, ht.workers n hnode, trivial, ?_⟩
      rw [handover, hpending]
      exact hhanded.imp (hothers pid x n hne) fun ⟨hdue, hhost⟩ => ⟨hdue.resolve_left hne, hhost⟩

/-- The stage goes to a registered worker, if anybody waits for it. -/
theorem noneLingers_emit {pid : PipelineId} {sid : StageId} {nodeId : NodeId} {url : String}
    {b : Broker} {payload : ExecuteRequest} (hkey : (payload.pipelineId, payload.stageId) = (pid, sid))
    (hI : sc.state.FailedAwaited ((handover cfg sc).sending pid sid) fun _ => True)
    (hpipelines : b.pipelines = sc.state.pipelines)
    (hactive : b.activePipelines = sc.state.activePipelines)
    (hworkers : ∀ n ∈ sc.state.workers, n ∈ b.workers)
    (hown : ∀ ps, sc.state.pipelines.get? pid = some ps → ∀ n ∈ sc.state.workers,
      SentTo cfg sc pid sid n ∨ ps.placement.get? sid = some n →
        ∃ worker, sc.state.workers.get? nodeId = some worker ∧ worker.url = url ∧
          Enlisted sc.started nodeId worker) :
    NoneLingers cfg ((sc.withState b).emit (workerMessage cfg nodeId url payload)) := by
  obtain ⟨rfl, rfl⟩ := Prod.mk.inj hkey
  have ht : OnlyTouches payload.pipelineId sc.state b :=
    onlyTouches_of_eq hpipelines (fun p hp => hactive ▸ hp) hworkers
  refine noneLingers_of_dispatching hI ht ?_ (fun hp => hactive ▸ hp) rfl
    (fun p s n hne hsent => ?_) fun ps hps _ n hn hor => ?_
  · rw [Scene.state_emit, Scene.state_withState, hpipelines]
  · have hkeep : SentTo cfg (sc.withState b) p s n := hsent
    apply hkeep.emit
    rw [WorkerMessage.key, payload_workerMessage]
    exact hne.symm
  · obtain ⟨worker, hworker, rfl, henlisted⟩ := hown ps hps n hn hor
    exact ⟨nodeId, hworkers nodeId (Dict.mem_of_get?_eq_some hworker),
      @sentTo_emit cfg (sc.withState b) nodeId worker henlisted payload⟩

theorem NoneLingers.aboutToSend (h : NoneLingers cfg sc) (pid : PipelineId) (sid : StageId) :
    sc.state.FailedAwaited ((handover cfg sc).sending pid sid) fun _ => True :=
  FailedAwaited.mono h (fun _ _ _ hs => hs) (fun _ _ hd => .inr hd) fun _ hP => hP

theorem preserves_exhausted (nodeId : NodeId) (delta : ℚ) (pid : PipelineId) (error : String) :
    (do
      Co.modify (updateWorkerLoad nodeId delta)
      dispatchExhausted pid error : BrokerM Unit).Preserves r (NoneLingers cfg) := fun _ hI =>
  noneLingers_failPipeline (NoneLingers.aboutToSend hI pid "")
    (onlyTouches_updateWorkerLoad nodeId delta) error

/-- A retry moves the stage, or changes nothing. -/
theorem wp_replan_one {pid : PipelineId} {sid : StageId} {Q : Bool → BrokerScene → Prop}
    (hI : NoneLingers cfg sc) (hfalse : Q false sc)
    (htrue : ∀ ps nodeId, sc.state.pipelines.get? pid = some ps →
      Q true (sc.withState (rehost pid sid nodeId sc.state))) :
    (replan cfg pid [sid]).wp r (NoneLingers cfg) (fun _ => NoneLingers cfg) Q sc := by
  cases hps : sc.state.pipelines.get? pid with
  | none =>
    unfold replan
    rw [Co.wp_monad_bind, Co.wp_read]
    split
    · exact hfalse
    · simpa [getPipeline, subscript, hps] using hI
  | some ps =>
    have halone := @alone_replan cfg pid ps sid ⟨sc.state, [], []⟩ hps
    cases hretry : retryHost cfg sc.state ps sid with
    | error e =>
      rw [hretry] at halone
      exact Co.wp_of_alone halone (fun _ h => by cases h) fun _ _ => hI
    | ok nodeId? =>
      rw [hretry] at halone
      cases nodeId? with
      | none =>
        apply Co.wp_of_alone halone _ fun _ h => by cases h
        intro a ha
        obtain rfl := Except.ok.inj ha
        exact hfalse
      | some nodeId =>
        apply Co.wp_of_alone halone _ fun _ h => by cases h
        intro a ha
        obtain rfl := Except.ok.inj ha
        exact htrue ps nodeId hps

theorem wp_redispatch_clear {pid : PipelineId} {sid : StageId} {payload : ExecuteRequest}
    (hkey : (payload.pipelineId, payload.stageId) = (pid, sid)) (hI : NoneLingers cfg sc)
    (henlisted : AllEnlisted sc) (nodeId : NodeId) (stage : Stage) (exc : PyError) :
    (redispatch cfg pid sid nodeId stage payload exc).wp r (NoneLingers cfg)
      (fun _ => NoneLingers cfg) (fun _ => NoneLingers cfg) sc := by
  unfold redispatch
  rw [Co.wp_monad_bind]
  refine Co.wp_mono (Q := fun _ sc => NoneLingers cfg sc ∧ AllEnlisted sc) (fun _ _ h => h) ?_
    ⟨hI, henlisted⟩
  rintro - counted ⟨hcounted, hall⟩
  rw [Co.wp_monad_bind]
  apply wp_replan_one hcounted
  · exact preserves_exhausted nodeId _ pid _ counted hcounted
  · intro ps newNodeId hps
    have hmoved : (counted.withState (rehost pid sid newNodeId counted.state)).state.pipelines.get?
        pid = some { ps with placement := ps.placement.insert sid newNodeId } := by
      rw [Scene.state_withState, rehost, get?_updatePipeline, if_pos rfl, hps]
      rfl
    have hsub : subscript (ps.placement.insert sid newNodeId) sid = .ok newNodeId :=
      subscript_eq_ok_iff.mpr (Dict.get?_insert_self ..)
    simp only [if_true]
    rw [Co.wp_monad_bind, wp_getPipeline hmoved, Co.wp_monad_bind, Co.wp_ofExcept, hsub]
    simp only [Co.wp_monad_bind, Co.wp_read]
    cases hworker : (rehost pid sid newNodeId counted.state).workers.get? newNodeId with
    | none =>
      -- the new host is gone as well, and the pipeline leaves
      simp only [Scene.state_withState, hworker]
      have htouch : OnlyTouches pid counted.state (rehost pid sid newNodeId counted.state) :=
        onlyTouches_updatePipeline _
      exact noneLingers_failPipeline (NoneLingers.aboutToSend hcounted pid sid)
        (htouch.trans (onlyTouches_updateWorkerLoad nodeId (-stage.computationalDemand))) _
    | some newWorker =>
      have hnode : newNodeId ∈ counted.state.workers := Dict.mem_of_get?_eq_some hworker
      have hrehosted : NoneLingers cfg (counted.withState (rehost pid sid newNodeId counted.state)) :=
        FailedAwaited.rehost hcounted sid hnode
      have hsent := noneLingers_emit (b := rehost pid sid newNodeId counted.state) hkey
        (hrehosted.aboutToSend pid sid) rfl rfl (fun _ hn => hn)
        fun _ _ _ _ _ => ⟨newWorker, hworker, rfl, hall newNodeId newWorker hworker⟩
      simp only [Scene.state_withState, hworker, Co.wp_monad_bind, Co.wp_request]
      refine ⟨hsent, ?_⟩
      intro reply sc' hI' _ _
      cases reply with
      | ok u => exact hI'
      | error e => exact preserves_exhausted nodeId _ pid _ sc' hI'

theorem wp_dispatchStage_clear (hreply : ∀ sc m e, r.reply sc m e → AllEnlisted sc)
    {pid : PipelineId} {sid : StageId} (hscheduled : Scheduled sc pid sid)
    (hI : sc.state.FailedAwaited ((handover cfg sc).sending pid sid) fun _ => True) :
    (dispatchStage cfg pid sid).wp r (NoneLingers cfg) (fun _ => NoneLingers cfg)
      (fun _ => NoneLingers cfg) sc := by
  have hunsent : ∀ n, ¬ SentTo cfg sc pid sid n := by
    rintro n ⟨m, hm, -⟩
    rw [hscheduled.unsent] at hm
    cases hm
  -- a stage that nobody waits for may stay where it is
  have hidle : (∀ ps, sc.state.pipelines.get? pid = some ps → sid ∈ ps.dispatchedStages →
      ∀ n ∈ sc.state.workers, ps.placement.get? sid ≠ some n) → NoneLingers cfg sc := by
    intro hunplaced
    refine noneLingers_of_dispatching hI (.refl _) rfl (fun hp => hp) rfl (fun _ _ _ _ hs => hs) ?_
    intro ps hps hsid n hnode hor
    rcases hor with hsent | hhost
    · exact absurd hsent (hunsent n)
    · exact absurd hhost (hunplaced ps hps hsid n hnode)
  unfold dispatchStage
  cases hps : sc.state.pipelines.get? pid with
  | none =>
    have hclear := hidle fun ps hps' => by
      rw [hps] at hps'
      cases hps'
    simpa [getPipeline, subscript, hps] using hclear
  | some ps =>
    rw [Co.wp_monad_bind, wp_getPipeline hps, Co.wp_monad_bind, Co.wp_ofExcept]
    cases hhost : ps.placement.get? sid with
    | none =>
      simp only [subscript, hhost]
      apply hidle
      intro ps' hps' _ n _ hplaced
      obtain rfl := Option.some.inj (hps.symm.trans hps')
      rw [hhost] at hplaced
      cases hplaced
    | some nodeId =>
      simp only [subscript, hhost, Co.wp_monad_bind, Co.wp_read]
      split
      · exact noneLingers_failPipeline hI (.refl _) _
      · next url peerDispatch hurl =>
        simp only [Co.wp_monad_bind, Co.wp_ofExcept, Co.wp_read, Co.wp_modify]
        cases hstage : ps.dag.getStage sid with
        | error e =>
          apply hidle
          intro ps' hps' hsid
          obtain rfl := Option.some.inj (hps.symm.trans hps')
          exact absurd (hscheduled.known pid ps hps hsid) (getStage_error_iff.mp ⟨e, hstage⟩)
        | ok stage =>
          have hkey : ∀ resultUrl, ((executeRequest cfg ps sid stage resultUrl).pipelineId,
              (executeRequest cfg ps sid stage resultUrl).stageId) = (pid, sid) := fun _ =>
            congrArg (·, sid) (hscheduled.named pid ps hps)
          have hown : ∀ ps, sc.state.pipelines.get? pid = some ps → ∀ n ∈ sc.state.workers,
              SentTo cfg sc pid sid n ∨ ps.placement.get? sid = some n →
                ∃ worker, sc.state.workers.get? nodeId = some worker ∧ worker.url = url ∧
                  Enlisted sc.started nodeId worker := by
            intro ps' hps' n hn hor
            obtain rfl := Option.some.inj (hps.symm.trans hps')
            obtain rfl := Option.some.inj (hhost.symm.trans (hor.resolve_left (hunsent n)))
            obtain ⟨worker, hworker⟩ := Dict.exists_get?_of_mem hn
            rw [dispatchUrl, hworker] at hurl
            exact ⟨worker, hworker, (Prod.mk.inj (Option.some.inj hurl)).1,
              hscheduled.enlisted nodeId worker hworker⟩
          simp only [Co.wp_request]
          refine ⟨?_, ?_⟩
          · apply noneLingers_emit (hkey _) (b := updateWorkerLoad nodeId stage.computationalDemand
              (sc.state.record (dispatchRecord ps sid nodeId sc.state.clock))) hI (by simp) (by simp)
              (fun n hn => (mem_workers_updateWorkerLoad ..).mpr hn) hown
          · intro reply sc' hI' _ hr
            cases reply with
            | ok u => exact hI'
            | error exc => exact wp_redispatch_clear (hkey _) hI' (hreply _ _ _ hr) nodeId stage exc

/-! ### Publishing and results -/

theorem wp_publish_clear {req : PlacedPipeline} (hI : NoneLingers cfg sc) :
    (publish cfg req).wp r (NoneLingers cfg) (fun _ => NoneLingers cfg) (fun _ => NoneLingers cfg)
      sc := by
  have hregistered : (registerPipeline cfg req).wp r (NoneLingers cfg) (fun _ => NoneLingers cfg)
      (fun _ => NoneLingers cfg) sc := by
    unfold registerPipeline
    simp only [Co.wp_monad_bind, Co.wp_modify, Co.wp_read]
    have hadmitted := FailedAwaited.admitted hI req
    exact hadmitted
  unfold publish
  rw [Co.wp_monad_bind]
  apply Co.wp_mono (fun _ _ h => h) _ hregistered
  intro _ sc' hI'
  exact ((Co.preserves_ofExcept _).bind fun _ => (preserves_dispatchReadyStages _).bind fun _ =>
    (Co.preserves_read _).bind fun _ => Co.preserves_pure _) sc' hI'

/-- Recording a result touches its pipeline only, which leaves if it has failed. -/
theorem wp_completeOrAdvance_clear {b : Broker} {req : StageResultRequest}
    (hI : b.FailedAwaited (handover cfg sc) fun _ => True)
    (htouch : OnlyTouches req.pipelineId b sc.state) :
    (completeOrAdvance cfg req).wp r (NoneLingers cfg) (fun _ => NoneLingers cfg)
      (fun _ => NoneLingers cfg) sc := by
  unfold completeOrAdvance
  have hpopped : ∀ b', OnlyTouches req.pipelineId sc.state b' →
      NoneLingers cfg (sc.withState (b'.popPipeline req.pipelineId)) := fun b' h =>
    hI.popped (htouch.trans h) (fun _ _ _ hd => hd) rfl
  have hkept : (∀ ps, sc.state.pipelines.get? req.pipelineId = some ps → ¬ ps.failed) →
      NoneLingers cfg sc := by
    intro hnot
    exact hI.update htouch fun _ ps hps hfailed => absurd hfailed (hnot ps hps)
  cases hps : sc.state.pipelines.get? req.pipelineId with
  | none =>
    simp only [getPipeline, subscript, hps, Co.wp_monad_bind, Co.wp_read, Co.wp_ofExcept]
    refine hkept fun ps' hps' => ?_
    rw [hps] at hps'
    cases hps'
  | some ps =>
    rw [Co.wp_monad_bind, wp_getPipeline hps]
    split
    · have hpop := hpopped (sc.state.completePipeline
        { pipelineId := req.pipelineId, success := false, error := ps.error })
          (onlyTouches_of_eq rfl (fun _ hp => hp) fun _ hnode => hnode)
      exact hpop
    · next hfailed =>
      split
      · have hpop := hpopped ((sc.state.record
          (stageRecord req .delivered sc.state.clock ps.pipelineType)).completePipeline
            { pipelineId := req.pipelineId, success := true })
          (onlyTouches_of_eq rfl (fun _ hp => hp) fun _ hnode => hnode)
        exact hpop
      · have hclear : NoneLingers cfg sc := by
          refine hkept fun ps' hps' => ?_
          obtain rfl := Option.some.inj (hps.symm.trans hps')
          exact hfailed
        exact ((preserves_dispatchReadyStages _).bind fun _ => Co.preserves_pure _) sc hclear

/-- A result leaves its pipeline unawaited only if it reports a failure and names no
stage of the pipeline. -/
theorem wp_result_clear {req : StageResultRequest} (hI : NoneLingers cfg sc)
    (hknown : DispatchesKnown sc.state)
    (hstray : ∀ ps, sc.state.activePipeline? req.pipelineId = some ps → req.success = false →
      req.stageId ∉ ps.allStages →
        sc.state.Awaited (handover cfg sc) (fun _ => True) req.pipelineId ps) :
    (result cfg req).wp r (NoneLingers cfg) (fun _ => NoneLingers cfg) (fun _ => NoneLingers cfg)
      sc := by
  unfold result
  simp only [Co.wp_monad_bind, Co.wp_read, Co.wp_modify]
  cases hactive : (sc.state.record (stageRecord req .stageResultReceived sc.state.clock
      "__pending__")).activePipeline? req.pipelineId with
  | none =>
    simp only [Scene.state_withState, hactive]
    exact hI
  | some ps =>
    simp only [Scene.state_withState, hactive, Co.wp_monad_bind, Co.wp_modify, Co.wp_ofExcept]
    have hps : sc.state.pipelines.get? req.pipelineId = some ps :=
      (Withstands.active_of_activePipeline? hactive).2
    have htouch : OnlyTouches req.pipelineId sc.state
        (sc.state.updatePipeline req.pipelineId (·.recordResult req)) := onlyTouches_updatePipeline _
    cases hstage : ps.dag.getStage req.stageId with
    | ok stage =>
      refine wp_completeOrAdvance_clear (b := sc.state) hI ?_
      apply OnlyTouches.trans _ (onlyTouches_updateWorkerLoad ..)
      exact htouch.trans (onlyTouches_of_eq rfl (fun _ hp => hp) fun _ hnode => hnode)
    | error e =>
      have hunknown : req.stageId ∉ ps.allStages := getStage_error_iff.mp ⟨e, hstage⟩
      have hrecorded : (sc.state.updatePipeline req.pipelineId (·.recordResult req)).FailedAwaited
          (handover cfg sc) fun _ => True := by
        refine FailedAwaited.update hI htouch fun hp ps' hps' hfailed => ?_
        rw [get?_updatePipeline, if_pos rfl, hps] at hps'
        obtain rfl : ps.recordResult req = ps' := Option.some.inj hps'
        cases hsuccess : req.success with
        | true =>
          have hsame : ps.recordResult req =
              { ps with completedStages := insert req.stageId ps.completedStages } := if_pos hsuccess
          rw [hsame] at hfailed ⊢
          -- the stage that is awaited is one of the pipeline, and so another one
          obtain ⟨sid, hdispatched, hopen, hhanded⟩ := hI req.pipelineId hp ps hps hfailed
          refine ⟨sid, hdispatched, ?_, hhanded⟩
          intro hcompleted
          cases Finset.mem_insert.mp hcompleted with
          | inl heq => exact hunknown (heq ▸ hknown _ ps hps hdispatched)
          | inr hold => exact hopen hold
        | false =>
          obtain ⟨sid, hdispatched, hopen, hhanded⟩ := hstray ps hactive hsuccess hunknown
          have hsame : (ps.recordResult req).dispatchedStages = ps.dispatchedStages ∧
              (ps.recordResult req).completedStages = ps.completedStages ∧
              (ps.recordResult req).placement = ps.placement := by
            simp [PipelineState.recordResult, hsuccess]
          refine ⟨sid, hsame.1 ▸ hdispatched, hsame.2.1 ▸ hopen, ?_⟩
          rw [hsame.2.2]
          exact hhanded
      exact hrecorded

/-! ### Departures -/

/-- What a deregistration does to a pipeline. -/
def departed (nodeId : NodeId) (ps : PipelineState) : PipelineState :=
  if nodeId ∈ ps.placement.values ∧ ¬ ps.failed then
    let error := s!"Worker '{nodeId}' deregistered while pipeline " ++
      s!"'{ps.pipelineId}' was in flight."
    { ps with failed := true, error := some error }
  else ps

theorem departed_departed (nodeId : NodeId) (ps : PipelineState) :
    departed nodeId (departed nodeId ps) = departed nodeId ps := by
  unfold departed
  split
  · simp
  · rfl

theorem departed_failed_iff (nodeId : NodeId) (ps : PipelineState) :
    (departed nodeId ps).failed = true ↔ ps.failed = true ∨ nodeId ∈ ps.placement.values := by
  unfold departed
  split
  · next h => simp [h.1]
  · next h =>
    constructor
    · exact .inl
    · exact fun hor => hor.elim id fun hmem => by simpa [hmem] using h

theorem awaited_departed_iff {o : Handover} {b : Broker} {pid : PipelineId} {ps : PipelineState}
    (nodeId : NodeId) : b.Awaited o P pid (departed nodeId ps) ↔ b.Awaited o P pid ps := by
  unfold departed
  split <;> exact Iff.rfl

theorem get?_failPipelinesOn (nodeId : NodeId) (b : Broker) (pid : PipelineId) :
    (failPipelinesOn nodeId b).pipelines.get? pid = (b.pipelines.get? pid).map fun ps =>
      if pid ∈ b.activePipelines then departed nodeId ps else ps := by
  refine foldl_scan (P := fun done (b' : Broker) => b'.pipelines.get? pid =
    (b.pipelines.get? pid).map fun ps => if pid ∈ done then departed nodeId ps else ps) (by simp) ?_
  intro done p rest b' _ h
  show (b'.updatePipeline p (departed nodeId)).pipelines.get? pid = _
  rw [get?_updatePipeline]
  by_cases heq : pid = p
  · rw [if_pos heq, ← heq, h, Option.map_map]
    congr 1
    funext ps
    by_cases hdone : pid ∈ done
    · simp [hdone, departed_departed]
    · simp [hdone]
  · rw [if_neg heq, h]
    simp [heq]

theorem failPipelinesOn_frame (nodeId : NodeId) (b : Broker) :
    (failPipelinesOn nodeId b).activePipelines = b.activePipelines ∧
      (failPipelinesOn nodeId b).workers = b.workers := by
  apply foldl_scan (P := fun _ (b' : Broker) =>
    b'.activePipelines = b.activePipelines ∧ b'.workers = b.workers)
  · exact ⟨rfl, rfl⟩
  · intro done pid rest b' _ h
    exact h

/-- Nobody is removed, and whoever uses the node is marked as failed. -/
theorem failedAwaited_failPipelinesOn_iff {o : Handover} (nodeId : NodeId) (b : Broker) :
    (failPipelinesOn nodeId b).FailedAwaited o P ↔ ∀ pid ∈ b.activePipelines, ∀ ps,
      b.pipelines.get? pid = some ps → ps.failed = true ∨ nodeId ∈ ps.placement.values →
        b.Awaited o P pid ps := by
  obtain ⟨hactive, hworkers⟩ := failPipelinesOn_frame nodeId b
  have hawaited : ∀ pid ps, (failPipelinesOn nodeId b).Awaited o P pid (departed nodeId ps) ↔
      b.Awaited o P pid ps := by
    intro pid ps
    rw [awaited_departed_iff, Awaited, Awaited, hworkers]
  unfold FailedAwaited
  rw [hactive]
  refine forall₂_congr fun pid hpid => ?_
  simp only [get?_failPipelinesOn, if_pos hpid]
  constructor
  · intro h ps hps hor
    exact (hawaited pid ps).mp (h (departed nodeId ps) (by rw [hps]; rfl)
      ((departed_failed_iff nodeId ps).mpr hor))
  · intro h ps' hps' hfailed
    obtain ⟨ps, hps, rfl⟩ := Option.map_eq_some_iff.mp hps'
    exact (hawaited pid ps).mpr (h ps hps ((departed_failed_iff nodeId ps).mp hfailed))

/-- Every pipeline that has failed or uses the node waits for another worker. -/
def DeparturesAwaited (o : Handover) (nodeId : NodeId) (b : Broker) : Prop :=
  ∀ pid ∈ b.activePipelines, ∀ ps, b.pipelines.get? pid = some ps →
    ps.failed = true ∨ nodeId ∈ ps.placement.values → b.Awaited o (· ≠ nodeId) pid ps

/-- What a deregistration needs for nobody to linger after it. -/
theorem noneLingers_departed_iff (cfg : BrokerConfig) (sc : BrokerScene) (nodeId : NodeId) :
    NoneLingers cfg (sc.withState (failPipelinesOn nodeId (rebuildTopology { sc.state with
      workers := sc.state.workers.erase nodeId }))) ↔
        DeparturesAwaited (handover cfg sc) nodeId sc.state := by
  refine (failedAwaited_failPipelinesOn_iff nodeId _).trans ?_
  refine forall₅_congr fun pid _ ps _ _ => ?_
  refine exists_congr fun sid => and_congr_right fun _ => and_congr_right fun _ =>
    exists_congr fun host => ?_
  have hmem : host ∈ sc.state.workers.erase nodeId ↔ host ≠ nodeId ∧ host ∈ sc.state.workers :=
    Dict.mem_erase
  rw [true_and, ← and_assoc, and_comm (a := host ∈ sc.state.workers), ← hmem]
  exact Iff.rfl

theorem wp_deregister_clear {nodeId : NodeId} (hI : NoneLingers cfg sc)
    (hleft : nodeId ∈ sc.state.workers →
      DeparturesAwaited (handover cfg sc) nodeId sc.state) :
    (deregister nodeId).wp r (NoneLingers cfg) (fun _ => NoneLingers cfg) (fun _ => NoneLingers cfg)
      sc := by
  unfold deregister
  rw [Co.wp_monad_bind, Co.wp_read]
  split
  · exact hI
  · next hmem => exact (noneLingers_departed_iff cfg sc nodeId).mpr (hleft (not_not.mp hmem))

theorem preserves_register (req : RegisterRequest) : (register req).Preserves r (NoneLingers cfg) :=
  fun _ hI => FailedAwaited.of_eq hI rfl (fun _ hp => hp) fun _ hnode _ =>
    Dict.mem_insert.mpr (.inr hnode)

/-- A round of which every failed pipeline waits for a worker that survives it. -/
theorem wp_healthCheck_clear {results : List ProbeResult}
    (hround : AwaitedFrom cfg (SurvivesRound .neural cfg results sc.state) sc)
    (hjoin : ∀ sc', NoneLingers cfg sc' → r.join sc' →
      AwaitedFrom cfg (SurvivesRound .neural cfg results sc.state) sc') :
    (healthCheck cfg results).wp r (NoneLingers cfg) (fun _ => NoneLingers cfg)
      (fun _ => NoneLingers cfg) sc := by
  obtain ⟨hpipelines, hactive, hkeys⟩ := roundOutcome_frame .neural cfg results sc.state
  have hprobed := hround.of_eq hpipelines (fun _ hp => hactive ▸ hp) fun nodeId hnode _ => by
    rw [Dict.mem_iff_mem_keys, hkeys]
    exact hnode
  have hdead : (Co.forEach (roundOutcome .neural cfg results sc.state).1
      (removeDeadWorker rebuildTopology (replaceFailedStages cfg))).wp r (NoneLingers cfg)
        (fun _ => NoneLingers cfg) (fun _ => AwaitedFrom cfg (SurvivesRound .neural cfg results sc.state))
        (sc.withState (roundOutcome .neural cfg results sc.state).2) :=
    Co.carries_forEach (fun nodeId hnode =>
      carries_removeDeadWorker hjoin fun hsurvives => hsurvives hnode) _ hprobed
  exact Co.wp_mono (fun _ _ hI => hI) (fun _ sc' h => noneLingers_of_awaited sc' h) hdead

end Handlers

/-! ## Runs -/

/-- The departures and the stray results that leave every failed pipeline awaited, and the
registrations of workers from which nothing is outstanding. -/
def KeepsAwaited (cfg : BrokerConfig) (sc : BrokerScene) : Call → Prop
  | .register req => OwesNothing cfg sc req.nodeId
  | .deregister nodeId => nodeId ∈ sc.state.workers →
    DeparturesAwaited (handover cfg sc) nodeId sc.state
  | .healthCheck results => AwaitedFrom cfg (SurvivesRound .neural cfg results sc.state) sc
  | .result req => ∀ ps, sc.state.activePipeline? req.pipelineId = some ps → req.success = false →
    req.stageId ∉ ps.allStages →
      sc.state.Awaited (handover cfg sc) (fun _ => True) req.pipelineId ps
  | _ => True

instance (cfg : BrokerConfig) (sc : BrokerScene) : ∀ c, Decidable (KeepsAwaited cfg sc c)
  | .register req => inferInstanceAs (Decidable (OwesNothing cfg sc req.nodeId))
  | .deregister nodeId => inferInstanceAs (Decidable (nodeId ∈ sc.state.workers →
    ∀ pid ∈ sc.state.activePipelines, ∀ ps ∈ sc.state.pipelines.get? pid,
      ps.failed = true ∨ nodeId ∈ ps.placement.values →
        sc.state.Awaited (handover cfg sc) (· ≠ nodeId) pid ps))
  | .healthCheck results => inferInstanceAs (Decidable
    (sc.state.FailedAwaited (handover cfg sc) (SurvivesRound .neural cfg results sc.state)))
  | .result req => inferInstanceAs (Decidable (∀ ps ∈ sc.state.activePipeline? req.pipelineId,
    req.success = false → req.stageId ∉ ps.allStages →
      sc.state.Awaited (handover cfg sc) (fun _ => True) req.pipelineId ps))
  | .publish _ | .dispatchStage _ _ | .cachePeerWorkers _ | .tick _ => isTrue trivial

/-- Runs under arbitrary faults in which a worker leaves, or a failed result with an
unknown stage comes in, only where the pipelines it concerns have another result to wait
for, and none registers that has a result to report. A health check round that has waited
goes on with the workers it found dead. -/
def awaitedRules (cfg : BrokerConfig) : Rules Broker Call WorkerMessage PyError Response :=
  { (faultyRules .neural cfg).provided (KeepsAwaited cfg) with
    mayJoin := fun c since sc => match c with
      | .healthCheck results => AwaitedFrom cfg (SurvivesRound .neural cfg results since) sc
      | _ => True }

instance (cfg : BrokerConfig) : (awaitedRules cfg).DecidableRules where
  mayCall := Rules.DecidableRules.mayCall (r := (faultyRules .neural cfg).provided (KeepsAwaited cfg))
  mayReply _ _ _ := isTrue trivial
  mayStart _ _ := isTrue trivial
  mayJoin
    | .healthCheck results, since, sc => inferInstanceAs (Decidable
      (sc.state.FailedAwaited (handover cfg sc) (SurvivesRound .neural cfg results since)))
    | .publish _, _, _ | .register _, _, _ | .deregister _, _, _ | .result _, _, _
    | .dispatchStage _ _, _, _ | .cachePeerWorkers _, _, _ | .tick _, _, _ => isTrue trivial

/-- What was due and is taken up is about to be sent. -/
theorem NoneLingers.takenUp {cfg : BrokerConfig} {sc : BrokerScene} (h : NoneLingers cfg sc)
    {pre post : List Call} {pid : PipelineId} {sid : StageId}
    (hp : sc.pending = pre ++ .dispatchStage pid sid :: post) :
    sc.state.FailedAwaited ((handover cfg ((sc.withPending (pre ++ post)).start
      (.dispatchStage pid sid))).sending pid sid) fun _ => True := by
  refine FailedAwaited.mono h (fun p s n hs => hs.start (.dispatchStage pid sid))
    (fun p s hdue => ?_) fun _ hP => hP
  rw [handover, hp] at hdue
  rcases List.mem_append.mp hdue with hpre | hpost
  · exact .inr (List.mem_append_left _ hpre)
  · rcases List.mem_cons.mp hpost with heq | hpost
    · obtain ⟨rfl, rfl⟩ := Call.dispatchStage.inj heq
      exact .inl rfl
    · exact .inr (List.mem_append_right _ hpost)

theorem keeps_noneLingers (cfg : BrokerConfig) {w : BrokerWorld} (hw : Booted w) :
    (awaitedRules cfg).Keeps fun sc => Stepped .neural cfg w sc ∧ NoneLingers cfg sc := by
  have hwithin : (awaitedRules cfg).Within ((faultyRules .neural cfg).provided (KeepsAwaited cfg))
      (Stepped .neural cfg w) :=
    ⟨rfl, fun _ _ _ h => h, fun _ _ _ _ h => h, fun _ _ _ h => h, fun _ _ _ _ _ => trivial⟩
  refine ((keeps_stepped .neural cfg hw _).within hwithin).and ?_
  refine Rules.keeps_of_wp (fun _ _ _ hI => hI) (fun sc c hI hcall => ?_)
    (fun sc c pre post hp hI hstart => ?_)
  · obtain ⟨⟨hcall, hkeeps⟩, hstepped⟩ := hcall
    have hstarted : NoneLingers cfg (sc.start c) := hI.start c
    -- who is awaited before the call is awaited when it has started
    have hawaited : ∀ {P : NodeId → Prop} {pid ps}, sc.state.Awaited (handover cfg sc) P pid ps →
        sc.state.Awaited (handover cfg (sc.start c)) P pid ps := fun h =>
      h.mono (fun _ _ hs => hs.start c) (fun _ hd => hd) (fun _ hP => hP) fun _ hnode _ => hnode
    cases c with
    | publish req => exact wp_publish_clear hstarted
    | register req => exact preserves_register req _ hstarted
    | deregister nodeId =>
      exact wp_deregister_clear hstarted fun hmem pid hpid ps hps hor =>
        hawaited (hkeeps hmem pid hpid ps hps hor)
    | result req =>
      exact wp_result_clear hstarted hstepped.2.2 fun ps hactive hsuccess hunknown =>
        hawaited (hkeeps ps hactive hsuccess hunknown)
    | dispatchStage pid sid => exact hcall.elim
    | healthCheck results =>
      show (healthCheck cfg results >>= fun _ => pure Response.none).wp _ _ _ _ _
      rw [Co.wp_monad_bind]
      exact wp_healthCheck_clear (fun pid hpid ps hps hfailed =>
        hawaited (hkeeps pid hpid ps hps hfailed)) fun sc' _ hjoin => hjoin.1
    | cachePeerWorkers urls => exact hstarted
    | tick time => exact hstarted
  · obtain ⟨pid, sid, rfl⟩ := hstart.2.2.1 c (by simp [hp])
    show (dispatchStage cfg pid sid >>= fun _ => pure Response.none).wp _ _ _ _ _
    rw [Co.wp_monad_bind]
    have hreply : ∀ sc' m e, ((awaitedRules cfg).given (Stepped .neural cfg w)).mayReply sc' m e →
        AllEnlisted sc' := fun _ _ _ h => h.2.enlisted hw
    exact wp_dispatchStage_clear hreply (hstart.2.scheduled hw hp) (hI.takenUp hp)

private def leaverConfig : BrokerConfig := { domainId := "d1", brokerId := "b1" }

private def leaverDag : PipelineDAG :=
  .ofLists [⟨"a", "sense", 1, 1, none, none, none⟩, ⟨"b", "sense", 1, 1, none, none, none⟩] []

private def leaverTopology : NetworkTopology :=
  ⟨[⟨"w1", "d1", "s1", 4, 0, none⟩, ⟨"w2", "d1", "s1", 4, 0, none⟩], .ofList [(("w1", "w2"), 2)]⟩

/-- Two stages are sent, and `w1` deregisters before either has reported. -/
private def leaverMoves (hostOfB : NodeId) : List (Base.Move Call PyError) :=
  [.call (.register ⟨"w1", "d1", "s1", 4, "http://w1", 0, "w1"⟩),
    .call (.register ⟨"w2", "d1", "s1", 4, "http://w2", 0, "w2"⟩),
    .call (.publish ⟨"p", "pair", leaverDag, .ofList [("a", "w1"), ("b", hostOfB)], leaverTopology⟩),
    .start 3, .start 4, .reply 3 (.ok ()), .reply 4 (.ok ()), .join 2, .call (.deregister "w1")]

end NeuralBroker
end NeuralPubSub
