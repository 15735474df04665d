-- SUMMARY: Dispatch follows the DAG: over whole runs a stage goes out only after all that it waits for has come back.
import NeuralPubSub.Base.CausalOrder
import NeuralPubSub.Broker.Traces

open Base

/-!
# Causality

A stage is dispatched when its inputs are there, but the handlers interleave, sends
are repeated and results come in any order. Over a whole run the messages are still
causally ordered: before a stage goes out, all its ancestors have gone out and
have come back. The one exception is a fan-in that proceeds without some inputs.
-/

namespace NeuralPubSub

/-- The stage `s` is not started before `a` has completed. A fan-in may go on without
an input if the funnel mode is `proceed`. -/
def PipelineDAG.Awaits (dag : PipelineDAG) (mode : FunnelMode) (a s : StageId) : Prop :=
  a ∈ dag.predecessors s ∧ (mode = .proceed → (dag.predecessors s).length ≤ 1)

/-- The same for the stages of the pipelines that the broker has taken in. -/
def Broker.Needs (cfg : BrokerConfig) (b : Broker) (a k : PipelineId × StageId) : Prop :=
  a.1 = k.1 ∧ ∃ ps, b.pipelines.get? k.1 = some ps ∧ ps.dag.Awaits cfg.funnel.mode a.2 k.2

/-- A stage that awaits others is ready only when they have completed. -/
theorem completed_of_mem_ready {cfg : FunnelConfig} {dead : Finset NodeId} {now : ℚ}
    {ps : PipelineState} {a s : StageId} (hready : s ∈ (findReadyStages cfg dead now ps).ready)
    (ha : ps.dag.Awaits cfg.mode a s) : a ∈ ps.completedStages := by
  obtain ⟨hpred, hlocal⟩ := ha
  rcases (mem_ready_iff cfg dead now ps s).mp hready with ⟨-, hinputs⟩ | ⟨hmode, -, hstalled⟩
  · exact hinputs a hpred
  · have hone := hlocal hmode
    have hmany := hstalled.1
    omega

/-! ## The invariant -/

/-- The stages that have been handed to a worker, in the order of the messages. -/
def handedOut (sc : BrokerScene) : List (PipelineId × StageId) := sc.sent.map WorkerMessage.key

/-- What the order of the messages rests on. -/
structure Causal (cfg : BrokerConfig) (sc : BrokerScene) : Prop extends InOrder sc where
  reported : ∀ req, Call.result req ∈ sc.started → req.success = true →
    (req.pipelineId, req.stageId) ∈ handedOut sc
  completed : ∀ pid ps, sc.state.pipelines.get? pid = some ps → ∀ sid ∈ ps.completedStages,
    (pid, sid) ∈ handedOut sc
  dispatched : ∀ pid sid, .dispatchStage pid sid ∈ sc.pending ∨ .dispatchStage pid sid ∈ sc.started →
    ∃ ps, sc.state.pipelines.get? pid = some ps ∧
      ∀ a, ps.dag.Awaits cfg.funnel.mode a sid → a ∈ ps.completedStages
  entered : ∀ k ∈ handedOut sc, .dispatchStage k.1 k.2 ∈ sc.started
  ordered : CausallyOrdered (sc.state.Needs cfg) WorkerMessage.key sc.sent

section Step

variable {kind : BrokerKind} {cfg : BrokerConfig} {sc sc' : BrokerScene}

/-- Only a new pipeline and a result change what is left to do. -/
theorem BrokerStep.done_cases (hstep : BrokerStep kind cfg sc sc') :
    sc.state.Agrees PipelineState.done sc'.state ∨
      (∃ req, req.pipelineId ∉ sc.state.pipelines ∧ sc' = sc.withState (sc.state.enrol cfg req)) ∨
      ∃ req ps, Call.result req ∈ sc.started ∧
        sc.state.activePipeline? req.pipelineId = some ps ∧
        sc' = sc.withState (sc.state.takeResult req ps.pipelineType) := by
  cases hstep with
  | called | takenUp | answered | resent | received | delivered | closed | counted | ticked
  | cached => exact .inl (.of_eq rfl)
  | @admitted req call fresh => exact .inr (.inl ⟨req, fresh, rfl⟩)
  | @recorded req ps call active => exact .inr (.inr ⟨req, ps, call, active, rfl⟩)
  | scanned found running => exact .inl (.scan steadyView_done cfg _ found)
  | scheduled found running =>
    refine .inl ((Broker.Agrees.scan steadyView_done cfg _ found).trans ?_)
    exact .update _ _ fun _ _ => rfl
  | aborted pid error => exact .inl (.fail steadyView_done _ pid error)
  | dropped pid error => exact .inl (.fail steadyView_done _ pid error)
  | @sent pid ps sid nodeId url peerDispatch stage =>
    exact .inl (.of_eq (reserveLoad_frame kind nodeId stage _).1)
  | rehosted found chosen =>
    exact .inl ((Broker.Agrees.of_eq chosen.frame.1).trans (.update _ _ fun _ _ => rfl))
  | registered | removed => exact .inl (.of_eq (onWorkerChange_frame kind _).1)
  | departed nodeId => exact .inl (.departed steadyView_done nodeId _)
  | loaded nodeId delta => exact .inl (.of_eq (by simp))
  | @probed results => exact .inl (.of_eq (roundOutcome_frame kind cfg results sc.state).1)

/-- A stage that a step completes is one that a worker has reported. -/
theorem BrokerStep.completed_of (hstep : BrokerStep kind cfg sc sc') {pid : PipelineId}
    {ps' : PipelineState} (hps' : sc'.state.pipelines.get? pid = some ps') {sid : StageId}
    (hsid : sid ∈ ps'.completedStages) :
    (∃ ps, sc.state.pipelines.get? pid = some ps ∧ sid ∈ ps.completedStages) ∨
      ∃ req, Call.result req ∈ sc.started ∧ req.success = true ∧ req.pipelineId = pid ∧
        req.stageId = sid := by
  rcases hstep.done_cases with hdone | ⟨req, fresh, rfl⟩ | ⟨req, ps, call, active, rfl⟩
  · obtain ⟨ps, hps, heq⟩ := hdone.found hps'
    exact .inl ⟨ps, hps, (Prod.mk.inj heq).2 ▸ hsid⟩
  · rw [Scene.state_withState, Broker.enrol, Broker.pipelines_record, Broker.pipelines_record,
      Dict.get?_insert] at hps'
    split at hps'
    · obtain rfl := Option.some.inj hps'
      cases hsid
    · exact .inl ⟨ps', hps', hsid⟩
  · obtain ⟨-, hps⟩ := Withstands.active_of_activePipeline? active
    rw [Scene.state_withState, Broker.takeResult, Broker.pipelines_record, Broker.pipelines_record,
      Broker.get?_updatePipeline] at hps'
    split at hps'
    · next heq =>
      subst heq
      rw [hps, Option.map_some, Option.some.injEq] at hps'
      subst hps'
      rw [PipelineState.recordResult] at hsid
      split at hsid
      · next hsuccess =>
        rcases Finset.mem_insert.mp hsid with rfl | hold
        · exact .inr ⟨req, call, hsuccess, rfl, rfl⟩
        · exact .inl ⟨ps, hps, hold⟩
      · exact .inl ⟨ps, hps, hsid⟩
    · exact .inl ⟨ps', hps', hsid⟩

/-- What has completed in a run, a worker has reported. -/
theorem BrokerRun.reported_of_completed (hrun : BrokerRun kind cfg sc sc')
    (hnone : sc.state.pipelines = .empty) {pid : PipelineId} {ps : PipelineState}
    (hps : sc'.state.pipelines.get? pid = some ps) {sid : StageId}
    (hsid : sid ∈ ps.completedStages) :
    ∃ req, Call.result req ∈ sc'.started ∧ req.success = true ∧ req.pipelineId = pid ∧
      req.stageId = sid := by
  induction hrun generalizing ps with
  | refl =>
    rw [hnone] at hps
    cases hps
  | tail _ hstep ih =>
    have hstarted := hstep.before.started.subset
    rcases hstep.completed_of hps hsid with ⟨ps, hps, hsid⟩ | ⟨req, hcall, hreq⟩
    · obtain ⟨req, hcall, hreq⟩ := ih hps hsid
      exact ⟨req, hstarted hcall, hreq⟩
    · exact ⟨req, hstarted hcall, hreq⟩

namespace Causal

/-- What a stage needs has completed by the time its dispatch is scheduled. -/
theorem needs_completed (h : Causal cfg sc) {a k : PipelineId × StageId}
    (hk : .dispatchStage k.1 k.2 ∈ sc.pending ∨ .dispatchStage k.1 k.2 ∈ sc.started)
    (hneeds : sc.state.Needs cfg a k) :
    ∃ ps, sc.state.pipelines.get? k.1 = some ps ∧ a.2 ∈ ps.completedStages := by
  obtain ⟨-, ps, hps, hawaits⟩ := hneeds
  obtain ⟨ps', hps', hdone⟩ := h.dispatched k.1 k.2 hk
  obtain rfl := Option.some.inj (hps.symm.trans hps')
  exact ⟨ps, hps, hdone a.2 hawaits⟩

theorem needs_handedOut (h : Causal cfg sc) {a k : PipelineId × StageId}
    (hk : .dispatchStage k.1 k.2 ∈ sc.pending ∨ .dispatchStage k.1 k.2 ∈ sc.started)
    (hneeds : sc.state.Needs cfg a k) : a ∈ handedOut sc := by
  obtain ⟨ps, hps, hdone⟩ := h.needs_completed hk hneeds
  have ha := h.completed k.1 ps hps a.2 hdone
  rwa [← hneeds.1] at ha

/-- A dispatch that has been scheduled finds its pipeline in every later state. -/
theorem dispatched_later (h : Causal cfg sc) (hlater : sc.state.Later sc'.state)
    {pid : PipelineId} {sid : StageId}
    (hk : .dispatchStage pid sid ∈ sc.pending ∨ .dispatchStage pid sid ∈ sc.started) :
    ∃ ps, sc'.state.pipelines.get? pid = some ps ∧
      ∀ a, ps.dag.Awaits cfg.funnel.mode a sid → a ∈ ps.completedStages := by
  obtain ⟨ps, hps, hdone⟩ := h.dispatched pid sid hk
  obtain ⟨ps', hps', hforward⟩ := hlater.pipelines pid ps hps
  refine ⟨ps', hps', fun a ha => hforward.completed (hdone a ?_)⟩
  rwa [hforward.dag] at ha

/-- A stage that is dispatched needs later what it needed before. -/
theorem needs_of_later (h : Causal cfg sc) (hlater : sc.state.Later sc'.state)
    {a k : PipelineId × StageId} (hk : .dispatchStage k.1 k.2 ∈ sc.started)
    (hneeds : sc'.state.Needs cfg a k) : sc.state.Needs cfg a k := by
  obtain ⟨hid, ps', hps', hawaits⟩ := hneeds
  obtain ⟨ps, hps, -⟩ := h.dispatched k.1 k.2 (.inr hk)
  obtain ⟨ps'', hps'', hforward⟩ := hlater.pipelines k.1 ps hps
  obtain rfl := Option.some.inj (hps'.symm.trans hps'')
  rw [hforward.dag] at hawaits
  exact ⟨hid, ps, hps, hawaits⟩

/-- A step that starts no call. What it sends is for a stage whose dispatch has been
entered, and what it schedules has its inputs. -/
theorem unstarted (h : Causal cfg sc) (hstep : BrokerStep kind cfg sc sc')
    (hstarted : sc'.started = sc.started)
    (hsent : sc'.sent = sc.sent ∨ ∃ m, sc'.sent = sc.sent ++ [m] ∧
      .dispatchStage m.key.1 m.key.2 ∈ sc.started)
    (hpending : ∀ pid sid, .dispatchStage pid sid ∈ sc'.pending →
      .dispatchStage pid sid ∈ sc.pending ∨ ∃ ps, sc'.state.pipelines.get? pid = some ps ∧
        ∀ a, ps.dag.Awaits cfg.funnel.mode a sid → a ∈ ps.completedStages) :
    Causal cfg sc' := by
  have hlater := hstep.later
  have hhanded : handedOut sc ⊆ handedOut sc' := List.map_subset _ hstep.before.sent.subset
  refine ⟨h.toInOrder.step hstep, ?reported, ?completed, ?dispatched, ?entered, ?ordered⟩
  case reported =>
    rw [hstarted]
    exact fun req hcall hsuccess => hhanded (h.reported req hcall hsuccess)
  case completed =>
    intro pid ps' hps' sid hsid
    rcases hstep.completed_of hps' hsid with ⟨ps, hps, hold⟩ | ⟨req, hcall, hsuccess, rfl, rfl⟩
    · exact hhanded (h.completed pid ps hps sid hold)
    · exact hhanded (h.reported req hcall hsuccess)
  case dispatched =>
    intro pid sid hk
    rw [hstarted] at hk
    rcases hk with hk | hk
    · rcases hpending pid sid hk with hold | hnew
      · exact h.dispatched_later hlater (.inl hold)
      · exact hnew
    · exact h.dispatched_later hlater (.inr hk)
  case entered =>
    intro k hk
    rw [hstarted]
    rcases hsent with hsent | ⟨m, hsent, hm⟩
    · rw [handedOut, hsent] at hk
      exact h.entered k hk
    · rw [handedOut, hsent, List.map_append] at hk
      rcases List.mem_append.mp hk with hk | hk
      · exact h.entered k hk
      · obtain rfl := List.mem_singleton.mp hk
        exact hm
  case ordered =>
    have hordered : CausallyOrdered (sc'.state.Needs cfg) WorkerMessage.key sc.sent :=
      h.ordered.mono fun m hm _ hneeds =>
        h.needs_of_later hlater (h.entered m.key (List.mem_map_of_mem hm)) hneeds
    rcases hsent with hsent | ⟨m, hsent, hm⟩
    · rw [hsent]
      exact hordered
    · rw [hsent]
      exact hordered.concat fun _ hneeds =>
        h.needs_handedOut (.inr hm) (h.needs_of_later hlater hm hneeds)

/-- Every step of the broker keeps the order. -/
theorem step (h : Causal cfg sc) (hstep : BrokerStep kind cfg sc sc')
    (hstarted : sc'.started = sc.started) : Causal cfg sc' := by
  refine h.unstarted hstep hstarted ?_ ?_
  · cases hstep with
    | @sent pid ps sid nodeId url peerDispatch stage call found placed target known =>
      refine .inr ⟨_, rfl, ?_⟩
      rw [key_workerMessage, h.named pid ps found]
      exact call
    | @resent pid ps sid nodeId worker m found placed registered earlier pipeline stage =>
      refine .inr ⟨_, rfl, ?_⟩
      rw [WorkerMessage.key, payload_workerMessage]
      exact h.entered m.key (List.mem_map_of_mem earlier)
    | _ => exact .inl rfl
  · intro pid sid hk
    cases hstep with
    | takenUp => simp at hstarted
    | @scheduled pid' ps found running =>
      rcases List.mem_append.mp hk with hk | hk
      · exact .inl hk
      · obtain ⟨s, hready, heq⟩ := List.mem_map.mp hk
        obtain ⟨rfl, rfl⟩ : pid' = pid ∧ s = sid := by simpa using heq
        have hps := Broker.get?_markReady cfg sc.state found pid'
        rw [if_pos rfl] at hps
        refine .inr ⟨_, hps, fun a ha => ?_⟩
        have hforward : ps.Forward (sc.state.readyScan cfg ps).ps := .scan ..
        have hawaits : ps.dag.Awaits cfg.funnel.mode a s := hforward.dag ▸ ha
        exact hforward.completed (completed_of_mem_ready hready hawaits)
    | _ => exact .inl hk

/-- A call from outside, a result only of a stage that has been handed out. -/
theorem called (h : Causal cfg sc) {c : Call} (hexternal : ∀ pid sid, c ≠ .dispatchStage pid sid)
    (hreports : ∀ req, c = .result req → req.success = true →
      (req.pipelineId, req.stageId) ∈ handedOut sc) : Causal cfg (sc.start c) where
  named := h.named
  pending := h.pending
  reported req hcall hsuccess := by
    rcases List.mem_append.mp hcall with hcall | hcall
    · exact h.reported req hcall hsuccess
    · exact hreports req (List.mem_singleton.mp hcall).symm hsuccess
  completed := h.completed
  dispatched pid sid hk := by
    rcases hk with hk | hk
    · exact h.dispatched pid sid (.inl hk)
    · rcases List.mem_append.mp hk with hk | hk
      · exact h.dispatched pid sid (.inr hk)
      · exact absurd (List.mem_singleton.mp hk).symm (hexternal pid sid)
  entered k hk := List.mem_append_left _ (h.entered k hk)
  ordered := h.ordered

/-- A scheduled dispatch is taken up. -/
theorem takenUp (h : Causal cfg sc) {c : Call} {pre post : List Call}
    (hpending : sc.pending = pre ++ c :: post) :
    Causal cfg ((sc.withPending (pre ++ post)).start c) where
  named := h.named
  pending := h.toInOrder.pending.dequeued hpending _
  reported req hcall hsuccess := by
    rcases List.mem_append.mp hcall with hcall | hcall
    · exact h.reported req hcall hsuccess
    · obtain ⟨pid, sid, hdispatch⟩ := h.toInOrder.pending c (by simp [hpending])
      rw [hdispatch] at hcall
      cases List.mem_singleton.mp hcall
  completed := h.completed
  dispatched pid sid hk := by
    have hold : .dispatchStage pid sid ∈ sc.pending ∨ .dispatchStage pid sid ∈ sc.started := by
      rw [hpending]
      simp only [Scene.pending_start, Scene.pending_withPending, Scene.started_start,
        Scene.started_withPending, List.mem_append, List.mem_cons] at hk ⊢
      tauto
    exact h.dispatched pid sid hold
  entered k hk := List.mem_append_left _ (h.entered k hk)
  ordered := h.ordered

end Causal
end Step

theorem follows_causal (kind : BrokerKind) (cfg : BrokerConfig) : Follows kind cfg (Causal cfg) where
  step h hstep hstarted := h.step hstep hstarted
  takenUp h hpending := h.takenUp hpending
  inOrder h := h.toInOrder

/-! ## Runs -/

/-- A worker reports the success of a stage only if it was handed to one. -/
def ReportsHandedOut (sc : BrokerScene) : Call → Prop
  | .result req => req.success = true → (req.pipelineId, req.stageId) ∈ handedOut sc
  | _ => True

instance (sc : BrokerScene) : ∀ c, Decidable (ReportsHandedOut sc c)
  | .result _ => inferInstanceAs (Decidable (_ → _))
  | .publish _ | .register _ | .deregister _ | .dispatchStage _ _ | .healthCheck _
  | .cachePeerWorkers _ | .tick _ => isTrue trivial

/-- Runs under arbitrary faults in which the workers report what they have been handed. -/
def workerRules (kind : BrokerKind) (cfg : BrokerConfig) :
    Rules Broker Call WorkerMessage PyError Response :=
  (faultyRules kind cfg).provided ReportsHandedOut

instance (kind : BrokerKind) (cfg : BrokerConfig) : (workerRules kind cfg).DecidableRules :=
  inferInstanceAs (Rules.DecidableRules (Rules.provided _ _))

theorem Fresh.causal {w : BrokerWorld} (h : Fresh w) (hsent : w.sent = []) (cfg : BrokerConfig) :
    Causal cfg w.scene where
  toInOrder := h.inOrder
  reported := by simp [World.scene, h.started]
  completed pid ps hps := by
    rw [show w.scene.state = w.state from rfl, h.pipelines] at hps
    cases hps
  dispatched := by simp [World.scene, h.started, h.pending]
  entered := by simp [handedOut, World.scene, hsent]
  ordered := by
    rw [show w.scene.sent = [] from hsent]
    exact .nil

/-- In a run whose workers report only what they have been handed, the order holds
throughout. -/
theorem Fresh.causal_of_reachable {kind : BrokerKind} {cfg : BrokerConfig} {w w' : BrokerWorld}
    (hw : Fresh w) (hnone : w.sent = []) (hr : (workerRules kind cfg).Reachable w w') :
    Causal cfg w'.scene := by
  have hkeeps : (workerRules kind cfg).Keeps (Causal cfg) := by
    refine (follows_causal kind cfg).keeps fun h hexternal hreports => h.called hexternal ?_
    rintro req rfl
    exact hreports
  exact hkeeps.reachable (hw.causal hnone cfg) hw.tasks hr

/-- Dispatch follows the DAG. If workers report only what they have been handed, then in
every run, whatever fails and however the handlers interleave, each message is for a
stage of a pipeline in which all its ancestors have completed, and each of these
was handed out by an earlier message. Ancestors are counted along the edges that the
funnel mode does not let a fan-in go on without. -/
theorem dispatch_followsDag {kind : BrokerKind} {cfg : BrokerConfig} {w w' : BrokerWorld}
    (hw : Fresh w) (hnone : w.sent = []) (hr : (workerRules kind cfg).Reachable w w')
    {pre post : List WorkerMessage} {m : WorkerMessage} (hsent : w'.sent = pre ++ m :: post) :
    ∃ ps, w'.state.pipelines.get? m.payload.pipelineId = some ps ∧
      ∀ a, Relation.TransGen (ps.dag.Awaits cfg.funnel.mode) a m.payload.stageId →
        a ∈ ps.completedStages ∧ (m.payload.pipelineId, a) ∈ pre.map WorkerMessage.key := by
  have hcausal := hw.causal_of_reachable hnone hr
  have hm : m.key ∈ handedOut w'.scene := by
    rw [handedOut, show w'.scene.sent = pre ++ m :: post from hsent]
    simp
  obtain ⟨ps, hps, -⟩ := hcausal.dispatched _ _ (.inr (hcausal.entered m.key hm))
  refine ⟨ps, hps, fun a ha => ?_⟩
  have hneeds : ∀ x y, ps.dag.Awaits cfg.funnel.mode x y → w'.state.Needs cfg
      (m.payload.pipelineId, x) (m.payload.pipelineId, y) := fun x y hxy => ⟨rfl, ps, hps, hxy⟩
  have hbefore : ∀ x, Relation.TransGen (ps.dag.Awaits cfg.funnel.mode) x m.payload.stageId →
      (m.payload.pipelineId, x) ∈ pre.map WorkerMessage.key := fun x hx =>
    hcausal.ordered.transGen pre m post hsent _ (hx.lift _ hneeds)
  refine ⟨?_, hbefore a ha⟩
  -- the next stage on the way has been handed out, so that its own inputs were there
  obtain ⟨c, hac, hcm⟩ := Relation.TransGen.head'_iff.mp ha
  have hc : (m.payload.pipelineId, c) ∈ handedOut w'.scene := by
    rcases Relation.reflTransGen_iff_eq_or_transGen.mp hcm with heq | hcm
    · rw [← heq]
      exact hm
    · rw [handedOut, show w'.scene.sent = pre ++ m :: post from hsent, List.map_append]
      exact List.mem_append_left _ (hbefore c hcm)
  obtain ⟨ps', hps', hdone⟩ := hcausal.needs_completed (.inr (hcausal.entered _ hc))
    (hneeds a c hac)
  obtain rfl := Option.some.inj (hps.symm.trans hps')
  exact hdone

private def confluenceConfig : BrokerConfig := { domainId := "d1", brokerId := "b1" }

private def confluenceWorkers : Dict NodeId WorkerInfo :=
  .ofList [("w1", ⟨"w1", "d1", "s1", 4, "http://w1", 0, 0⟩),
    ("w2", ⟨"w2", "d1", "s1", 4, "http://w2", 0, 0⟩)]

private def confluenceWorld : BrokerWorld where
  state := StaticBroker.rebuildCycle { workers := confluenceWorkers }

private theorem fresh_confluenceWorld : Fresh confluenceWorld := ⟨rfl, rfl, rfl, rfl, rfl, rfl, rfl⟩

private def confluenceRequest : PlacedPipeline :=
  ⟨"p", "fusion", .ofLists [⟨"a", "sense", 1, 1, none, none, none⟩,
      ⟨"b", "sense", 1, 1, none, none, none⟩,
      ⟨"c", "fuse", 1, 1, none, none, none⟩, ⟨"d", "act", 1, 1, none, none, none⟩]
      [⟨"a", "c", 10⟩, ⟨"b", "c", 10⟩, ⟨"c", "d", 10⟩],
    .ofList [("a", "w1"), ("b", "w2"), ("c", "w2"), ("d", "w2")], ⟨[], .empty⟩⟩

/-- One of two inputs is sent twice, as its first send fails; the last stage comes after
all three others. -/
theorem dispatch_followsDag_confluence :
    ∃ w' pre m, (workerRules .static confluenceConfig).performAll
        [.call (.publish confluenceRequest), .start 1, .start 2,
          .reply 1 (.error (.transport "refused")), .reply 1 (.ok ()),
          .call (.result ⟨"p", "b", "w2", 1, 2, true, none⟩),
          .call (.result ⟨"p", "a", "w2", 1, 2, true, none⟩), .start 5,
          .call (.result ⟨"p", "c", "w2", 1, 2, true, none⟩), .start 7] confluenceWorld = some w' ∧
      w'.sent = pre ++ [m] ∧ m.key = ("p", "d") ∧
      ∃ ps, w'.state.pipelines.get? m.payload.pipelineId = some ps ∧
        ∀ a, Relation.TransGen (ps.dag.Awaits confluenceConfig.funnel.mode) a m.payload.stageId →
          a ∈ ps.completedStages ∧ (m.payload.pipelineId, a) ∈ pre.map WorkerMessage.key := by
  have hrun : ∃ w', (workerRules .static confluenceConfig).performAll
        [.call (.publish confluenceRequest), .start 1, .start 2,
          .reply 1 (.error (.transport "refused")), .reply 1 (.ok ()),
          .call (.result ⟨"p", "b", "w2", 1, 2, true, none⟩),
          .call (.result ⟨"p", "a", "w2", 1, 2, true, none⟩), .start 5,
          .call (.result ⟨"p", "c", "w2", 1, 2, true, none⟩), .start 7] confluenceWorld = some w' ∧
      w'.sent.map WorkerMessage.key =
        [("p", "a"), ("p", "b"), ("p", "a"), ("p", "c"), ("p", "d")] := by decide +kernel
  obtain ⟨w', hw', hkeys⟩ := hrun
  obtain hnil | ⟨pre, m, hsent⟩ := w'.sent.eq_nil_or_concat
  · simp [hnil] at hkeys
  · have hlast : m.key = ("p", "d") := by
      simpa [hsent] using congrArg List.getLast? hkeys
    rw [List.concat_eq_append] at hsent
    exact ⟨w', pre, m, hw', hsent, hlast, dispatch_followsDag fresh_confluenceWorld rfl
      (Rules.reachable_of_performAll _ hw') hsent⟩

end NeuralPubSub
