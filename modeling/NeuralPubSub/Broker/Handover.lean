-- SUMMARY: The stages that a broker has handed over to its workers, read off the messages it has sent.
import NeuralPubSub.Broker.Isolation

open Base

/-!
# Stages handed over

A stage is handed over by a message. Recovery may move the stage in the placement
later and send nothing, or send the message again to another worker: who is to report
the stage is the worker that the last message went to.
-/

namespace NeuralPubSub

/-! ## Stages that were sent -/

/-- The last message that hands the stage over. -/
def lastSent (sc : BrokerScene) (pipelineId : PipelineId) (stageId : StageId) :
    Option WorkerMessage :=
  (sc.sent.filter (·.key = (pipelineId, stageId))).getLast?

/-- The call registers the node at the URL to which the message goes. -/
def Call.RegistersAt (cfg : BrokerConfig) (nodeId : NodeId) (m : WorkerMessage) : Call → Prop
  | .register req =>
    req.nodeId = nodeId ∧ m = workerMessage cfg nodeId (req.workerInfo 0).url m.payload
  | .publish _ | .deregister _ | .result _ | .dispatchStage _ _ | .healthCheck _
  | .cachePeerWorkers _ | .tick _ => False

instance (cfg : BrokerConfig) (nodeId : NodeId) (m : WorkerMessage) :
    ∀ c : Call, Decidable (c.RegistersAt cfg nodeId m)
  | .register req => inferInstanceAs (Decidable (req.nodeId = nodeId ∧ _))
  | .publish _ | .deregister _ | .result _ | .dispatchStage _ _ | .healthCheck _
  | .cachePeerWorkers _ | .tick _ => isFalse id

/-- The stage was last sent to the node, at a URL under which it has registered. -/
def SentTo (cfg : BrokerConfig) (sc : BrokerScene) (pipelineId : PipelineId) (stageId : StageId)
    (nodeId : NodeId) : Prop :=
  ∃ m ∈ lastSent sc pipelineId stageId, ∃ c ∈ sc.started, c.RegistersAt cfg nodeId m

instance (cfg : BrokerConfig) (sc : BrokerScene) (pid : PipelineId) (sid : StageId)
    (nodeId : NodeId) : Decidable (SentTo cfg sc pid sid nodeId) :=
  inferInstanceAs (Decidable (∃ m ∈ lastSent sc pid sid, _))

/-- No active pipeline has a stage open that the node was sent last. A node that registers
again may have forgotten what it was sent. -/
def OwesNothing (cfg : BrokerConfig) (sc : BrokerScene) (nodeId : NodeId) : Prop :=
  ∀ pid ∈ sc.state.activePipelines, ∀ ps, sc.state.pipelines.get? pid = some ps →
    ∀ sid ∈ ps.dispatchedStages, sid ∉ ps.completedStages → ¬ SentTo cfg sc pid sid nodeId

instance (cfg : BrokerConfig) (sc : BrokerScene) (nodeId : NodeId) :
    Decidable (OwesNothing cfg sc nodeId) :=
  inferInstanceAs (Decidable (∀ pid ∈ sc.state.activePipelines, ∀ ps ∈ sc.state.pipelines.get? pid,
    ∀ sid ∈ ps.dispatchedStages, sid ∉ ps.completedStages → ¬ SentTo cfg sc pid sid nodeId))

theorem lastSent_emit (sc : BrokerScene) (m : WorkerMessage) (pid : PipelineId) (sid : StageId) :
    lastSent (sc.emit m) pid sid = if m.key = (pid, sid) then some m else lastSent sc pid sid := by
  unfold lastSent
  rw [Scene.sent_emit, List.filter_append]
  split
  · next hkey => simp [hkey]
  · next hkey => simp [hkey]

theorem sentTo_emit {cfg : BrokerConfig} {sc : BrokerScene} {nodeId : NodeId} {worker : WorkerInfo}
    (h : Enlisted sc.started nodeId worker) (payload : ExecuteRequest) :
    SentTo cfg (sc.emit (workerMessage cfg nodeId worker.url payload)) payload.pipelineId
      payload.stageId nodeId := by
  obtain ⟨-, req, hcall, hid, -, -, hurl⟩ := h
  have hkey : (workerMessage cfg nodeId worker.url payload).key =
      (payload.pipelineId, payload.stageId) := by rw [WorkerMessage.key, payload_workerMessage]
  refine ⟨workerMessage cfg nodeId worker.url payload, ?_, .register req, hcall, hid, ?_⟩
  · rw [lastSent_emit, if_pos hkey]
    rfl
  · rw [payload_workerMessage, hurl]

theorem SentTo.emit {cfg : BrokerConfig} {sc : BrokerScene} {pid : PipelineId} {sid : StageId}
    {nodeId : NodeId} (h : SentTo cfg sc pid sid nodeId) {m : WorkerMessage}
    (hkey : m.key ≠ (pid, sid)) : SentTo cfg (sc.emit m) pid sid nodeId := by
  obtain ⟨m', hm', hcall⟩ := h
  exact ⟨m', by rwa [lastSent_emit, if_neg hkey], hcall⟩

theorem SentTo.start {cfg : BrokerConfig} {sc : BrokerScene} {pid : PipelineId} {sid : StageId}
    {nodeId : NodeId} (h : SentTo cfg sc pid sid nodeId) (c : Call) :
    SentTo cfg (sc.start c) pid sid nodeId := by
  obtain ⟨m, hm, c', hcall, hregisters⟩ := h
  exact ⟨m, hm, c', List.mem_append_left _ hcall, hregisters⟩

section Run

variable {kind : BrokerKind} {cfg : BrokerConfig} {sc sc' : BrokerScene}

/-- Only a dispatch of the stage hands it over. -/
theorem BrokerStep.taken_up (h : BrokerStep kind cfg sc sc') (horder : InOrder sc)
    (hsent : ∀ m ∈ sc.sent, .dispatchStage m.key.1 m.key.2 ∈ sc.started) :
    ∀ m ∈ sc'.sent, .dispatchStage m.key.1 m.key.2 ∈ sc'.started := by
  have hstarted := h.before.started.subset
  cases h with
  | @sent pid ps sid _ _ _ _ call found =>
    intro m hm
    rcases List.mem_append.mp hm with hold | hnew
    · exact hsent m hold
    · obtain rfl := List.mem_singleton.mp hnew
      rw [key_workerMessage, horder.named pid ps found]
      exact call
  | @resent _ _ _ nodeId worker m₀ _ _ _ earlier =>
    intro m hm
    rcases List.mem_append.mp hm with hold | hnew
    · exact hsent m hold
    · obtain rfl := List.mem_singleton.mp hnew
      rw [WorkerMessage.key, payload_workerMessage]
      exact hsent m₀ earlier
  | _ => exact fun m hm => hstarted (hsent m hm)

theorem BrokerRun.taken_up (h : BrokerRun kind cfg sc sc') (horder : InOrder sc)
    (hsent : ∀ m ∈ sc.sent, .dispatchStage m.key.1 m.key.2 ∈ sc.started) :
    ∀ m ∈ sc'.sent, .dispatchStage m.key.1 m.key.2 ∈ sc'.started := by
  induction h with
  | refl => exact hsent
  | tail hrun hstep ih => exact hstep.taken_up (BrokerRun.inOrder hrun horder) ih

/-- A stage whose dispatch is scheduled has not been sent. -/
theorem BrokerRun.lastSent_eq_none {w : BrokerWorld} (hw : Booted w)
    (hrun : BrokerRun kind cfg w.scene sc) {pid : PipelineId} {sid : StageId}
    (hpending : .dispatchStage pid sid ∈ sc.pending) : lastSent sc pid sid = none := by
  have hzero : scheduleCount w.scene pid sid = 0 := by
    simp [scheduleCount, dispatchCount, World.scene, hw.pending, hw.started]
  have honce : scheduleCount sc pid sid ≤ 1 := by
    rcases hrun.marks pid sid with hsame | ⟨-, -, hcount⟩ <;> omega
  have hwaiting : 0 < sc.pending.count (.dispatchStage pid sid) := List.count_pos_iff.mpr hpending
  have hnot : .dispatchStage pid sid ∉ sc.started := by
    intro hstarted
    have htaken : 0 < sc.started.count (.dispatchStage pid sid) := List.count_pos_iff.mpr hstarted
    rw [scheduleCount, dispatchCount] at honce
    omega
  have htaken := hrun.taken_up hw.inOrder (by simp [World.scene, hw.sent])
  rw [lastSent, List.getLast?_eq_none_iff, List.filter_eq_nil_iff]
  intro m hm hkey
  rw [decide_eq_true_eq] at hkey
  have hcall := htaken m hm
  rw [hkey] at hcall
  exact hnot hcall

end Run

/-- Which stages were sent to whom, and which are about to be sent. -/
structure Handover where
  sent : PipelineId → StageId → NodeId → Prop
  due : PipelineId → StageId → Prop

/-- The same, while the handler that dispatches the stage is about to send it. -/
def Handover.sending (o : Handover) (pipelineId : PipelineId) (stageId : StageId) : Handover :=
  { o with due := fun pid sid => (pid, sid) = (pipelineId, stageId) ∨ o.due pid sid }

/-- The stages sent so far, and those whose dispatch is scheduled. -/
def handover (cfg : BrokerConfig) (sc : BrokerScene) : Handover where
  sent := SentTo cfg sc
  due pid sid := .dispatchStage pid sid ∈ sc.pending

/-! ## What handlers may rely on -/

/-- What the handlers may rely on: every registered worker has registered. -/
def AllEnlisted (sc : BrokerScene) : Prop :=
  ∀ nodeId worker, sc.state.workers.get? nodeId = some worker → Enlisted sc.started nodeId worker

/-- Only stages of the pipeline are dispatched. -/
def DispatchesKnown (b : Broker) : Prop :=
  ∀ pid ps, b.pipelines.get? pid = some ps → ps.dispatchedStages ⊆ ps.allStages

/-- What holds when the handler of a scheduled stage starts: the stage has not been sent. -/
structure Scheduled (sc : BrokerScene) (pipelineId : PipelineId) (stageId : StageId) : Prop where
  enlisted : AllEnlisted sc
  named : sc.state.PipelinesNamed
  known : DispatchesKnown sc.state
  unsent : lastSent sc pipelineId stageId = none

/-- The worker is not among those that the round has found dead. -/
def SurvivesRound (kind : BrokerKind) (cfg : BrokerConfig) (results : List ProbeResult)
    (since : Broker) (nodeId : NodeId) : Prop :=
  nodeId ∉ (roundOutcome kind cfg results since).1

instance (kind : BrokerKind) (cfg : BrokerConfig) (results : List ProbeResult) (since : Broker) :
    DecidablePred (SurvivesRound kind cfg results since) := fun nodeId =>
  inferInstanceAs (Decidable (nodeId ∉ (roundOutcome kind cfg results since).1))

/-! ## Runs -/

section Runs

open Broker

theorem keeps_dispatchesKnown (kind : BrokerKind) (cfg : BrokerConfig)
    (p : BrokerScene → Call → Prop) :
    ((faultyRules kind cfg).provided p).Keeps
      fun sc => OnlyDispatches sc ∧ DispatchesKnown sc.state := by
  apply keeps_of_quiet
  · intro b b' h hq pid ps' hps'
    have hprogress := hq.progress pid
    rw [hps', Option.map_some, eq_comm, Option.map_eq_some_iff] at hprogress
    obtain ⟨ps, hps, heq⟩ := hprogress
    simp only [PipelineState.progress, Prod.mk.injEq] at heq
    have hold := h pid ps hps
    rw [PipelineState.allStages, heq.1, heq.2.2] at hold
    exact hold
  · intro b req h _ pid ps hps
    rw [Dict.get?_insert] at hps
    split at hps
    · obtain rfl := Option.some.inj hps
      exact Finset.empty_subset _
    · exact h pid ps hps
  · intro b pid ps h hps pid' ps' hps'
    rw [get?_markReady cfg b hps] at hps'
    split at hps'
    · obtain rfl := Option.some.inj hps'
      obtain ⟨_, _, _, heq⟩ := findReadyStages_frame cfg.funnel (b.deadWorkers ps) b.clock ps
      have hold := h pid ps hps
      apply Finset.union_subset
      · rw [readyScan, heq]
        exact hold
      · intro sid hsid
        have hkey := (ready_sublist cfg.funnel (b.deadWorkers ps) b.clock ps).subset
          (List.mem_toFinset.mp hsid)
        rw [readyScan, heq]
        exact List.mem_toFinset.mpr hkey
    · exact h pid' ps' hps'
  · exact fun b pid ps h _ _ => h
  · intro sc req ps h _ _ pid ps' hps'
    rw [get?_updatePipeline] at hps'
    split at hps'
    · next heq =>
      obtain ⟨ps, hps, rfl⟩ := Option.map_eq_some_iff.mp hps'
      have hold := h req.pipelineId ps hps
      unfold PipelineState.recordResult
      split <;> exact hold
    · exact h pid ps' hps'

/-- What a broker that has booted keeps whatever leaves. -/
def Stepped (kind : BrokerKind) (cfg : BrokerConfig) (w : BrokerWorld) (sc : BrokerScene) : Prop :=
  BrokerRun kind cfg w.scene sc ∧ OnlyDispatches sc ∧ DispatchesKnown sc.state

theorem keeps_stepped (kind : BrokerKind) (cfg : BrokerConfig) {w : BrokerWorld} (hw : Booted w)
    (p : BrokerScene → Call → Prop) :
    ((faultyRules kind cfg).provided p).Keeps (Stepped kind cfg w) := by
  have hfollows : Follows kind cfg (BrokerRun kind cfg w.scene) := follows_brokerRun hw.inOrder
  have hrun := hfollows.keeps (p := p) fun hrun hexternal _ => hrun.tail (.called _ hexternal)
  refine hrun.and ((keeps_dispatchesKnown kind cfg p).within ?_)
  exact ⟨rfl, fun _ _ _ h => h.1, fun _ _ _ _ h => h.1, fun _ _ _ h => h.1, fun _ _ _ _ h => h.1⟩

theorem Booted.stepped {kind : BrokerKind} {w : BrokerWorld} (hw : Booted w) (cfg : BrokerConfig) :
    Stepped kind cfg w w.scene := by
  refine ⟨.refl, hw.inOrder.pending, fun pid ps hps => ?_⟩
  rw [show w.scene.state.pipelines = .empty from hw.pipelines] at hps
  cases hps

theorem Stepped.enlisted {kind : BrokerKind} {cfg : BrokerConfig} {w : BrokerWorld} (hw : Booted w)
    {sc : BrokerScene} (h : Stepped kind cfg w sc) : AllEnlisted sc :=
  (h.1.stationed hw.stationed).workers

/-- A handler that takes up a scheduled stage finds it unsent. -/
theorem Stepped.scheduled {kind : BrokerKind} {cfg : BrokerConfig} {w : BrokerWorld} (hw : Booted w)
    {sc : BrokerScene} (h : Stepped kind cfg w sc) {pre post : List Call} {pid : PipelineId}
    {sid : StageId} (hp : sc.pending = pre ++ .dispatchStage pid sid :: post) :
    Scheduled ((sc.withPending (pre ++ post)).start (.dispatchStage pid sid)) pid sid where
  enlisted nodeId worker hworker :=
    (h.enlisted hw nodeId worker hworker).mono (List.subset_append_left _ _)
  named := (h.1.inOrder hw.inOrder).named
  known := h.2.2
  unsent := h.1.lastSent_eq_none hw (by simp [hp])

end Runs
end NeuralPubSub
