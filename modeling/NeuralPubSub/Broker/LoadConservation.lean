-- SUMMARY: When the loads of the neural broker are back at their initial values once every dispatched stage has reported.
import NeuralPubSub.Broker.RepeatedResult

open Base

/-!
# Load conservation

In an undisturbed run no worker comes or goes, every send succeeds and each
stage that was sent reports once. The ledger then carries the demand of every
stage in flight, as long as each result that has something to release finds its
pipeline active.
-/

namespace NeuralPubSub

/-! ## Hosts -/

/-- The node that the placement names for the stage. -/
def Broker.hostOf (b : Broker) (key : PipelineId × StageId) : Option NodeId :=
  (b.pipelines.get? key.1).bind (·.placement.get? key.2)

namespace NeuralBroker

/-! ## The environment -/

/-- Publishes of any pipelines, sends that succeed, and one result for each stage
that was sent, a success or a failure, from the worker that runs it. -/
def undisturbedRules (cfg : BrokerConfig) :
    Rules Broker Call WorkerMessage PyError Response where
  body := brokerBody .neural cfg
  mayCall sc c := match c with
    | .publish req => req.pipelineId ∉ sc.state.pipelines
    | .result req => (req.pipelineId, req.stageId) ∈ (outstanding sc).map (·.key) ∧
        sc.state.hostOf (req.pipelineId, req.stageId) = some req.nodeId
    | .cachePeerWorkers _ | .tick _ => True
    | .register _ | .deregister _ | .dispatchStage _ _ | .healthCheck _ => False
  mayReply _ _ e := e = .ok ()

/-- Reserving the demand is not cut off at zero. -/
def ReservesExactly (b : Broker) : Call → Prop
  | .dispatchStage pipelineId stageId =>
    ∀ ps ∈ b.pipelines.get? pipelineId, ∀ nodeId ∈ ps.placement.get? stageId,
      ∀ stage ∈ ps.dag.stage? stageId, ∀ load ∈ b.loadOf nodeId,
        0 ≤ load + stage.computationalDemand
  | _ => True

/-- A result finds its pipeline active and its release is not cut off at zero, or
it has nothing to release. -/
def ReleasesExactly (b : Broker) : Call → Prop
  | .result req =>
    ∀ ps ∈ b.pipelines.get? req.pipelineId, ∀ load ∈ b.loadOf req.nodeId,
      if req.pipelineId ∈ b.activePipelines then 0 ≤ load - stageDemand ps req.stageId
      else stageDemand ps req.stageId = 0
  | _ => True

instance (b : Broker) : ∀ c, Decidable (ReservesExactly b c)
  | .dispatchStage pid sid =>
    inferInstanceAs (Decidable (∀ ps ∈ b.pipelines.get? pid, ∀ nodeId ∈ ps.placement.get? sid,
      ∀ stage ∈ ps.dag.stage? sid, ∀ load ∈ b.loadOf nodeId, 0 ≤ load + stage.computationalDemand))
  | .publish _ | .register _ | .deregister _ | .result _ | .healthCheck _ | .cachePeerWorkers _
  | .tick _ => isTrue trivial

instance (b : Broker) : ∀ c, Decidable (ReleasesExactly b c)
  | .result req =>
    inferInstanceAs (Decidable (∀ ps ∈ b.pipelines.get? req.pipelineId,
      ∀ load ∈ b.loadOf req.nodeId, if req.pipelineId ∈ b.activePipelines then
        0 ≤ load - stageDemand ps req.stageId else stageDemand ps req.stageId = 0))
  | .publish _ | .register _ | .deregister _ | .dispatchStage _ _ | .healthCheck _
  | .cachePeerWorkers _ | .tick _ => isTrue trivial

instance (cfg : BrokerConfig) : (undisturbedRules cfg).DecidableRules where
  mayCall sc
    | .publish req => inferInstanceAs (Decidable (req.pipelineId ∉ sc.state.pipelines))
    | .result req => inferInstanceAs (Decidable ((req.pipelineId, req.stageId) ∈
        (outstanding sc).map (·.key) ∧ sc.state.hostOf (req.pipelineId, req.stageId) = some req.nodeId))
    | .cachePeerWorkers _ | .tick _ => isTrue trivial
    | .register _ | .deregister _ | .dispatchStage _ _ | .healthCheck _ => isFalse id
  mayReply _ _ e := inferInstanceAs (Decidable (e = .ok ()))
  mayStart _ _ := isTrue trivial
  mayJoin _ _ _ := isTrue trivial

/-- An undisturbed run whose steps reserve and release exactly. -/
def exactRules (cfg : BrokerConfig) : Rules Broker Call WorkerMessage PyError Response :=
  { (undisturbedRules cfg).provided fun sc => ReleasesExactly sc.state with
    mayStart := fun sc => ReservesExactly sc.state }

instance (cfg : BrokerConfig) : (exactRules cfg).DecidableRules where
  mayCall := Rules.DecidableRules.mayCall
    (r := (undisturbedRules cfg).provided fun sc => ReleasesExactly sc.state)
  mayReply _ _ e := inferInstanceAs (Decidable (e = .ok ()))
  mayStart sc c := inferInstanceAs (Decidable (ReservesExactly sc.state c))
  mayJoin _ _ _ := isTrue trivial

/-! ## The books -/

/-- The demand in flight on a node. -/
def inFlight (sc : BrokerScene) (nodeId : NodeId) : ℚ :=
  ((outstanding sc).map fun m =>
    if sc.state.hostOf m.key = some nodeId then m.payload.computationalDemand else 0).sum

/-- What holds whenever the handlers of an undisturbed run wait, up to what the
ledger carries on top of the demand in flight. -/
structure Books (init : NodeId → Option ℚ) (extra : NodeId → ℚ) (sc : BrokerScene) : Prop where
  named : ∀ pid ps, sc.state.pipelines.get? pid = some ps → ps.pipelineId = pid
  dispatched : ∀ m ∈ sc.sent, .dispatchStage m.key.1 m.key.2 ∈ sc.started
  once : (sc.sent.map (·.key)).Nodup
  reported : ∀ key, some key ∈ sc.started.map Call.resultKey? → key ∈ sc.sent.map (·.key)
  known : ∀ m ∈ sc.sent, ∃ ps, sc.state.pipelines.get? m.key.1 = some ps ∧
    ∃ stage, ps.dag.stage? m.key.2 = some stage ∧
      m.payload.computationalDemand = stage.computationalDemand
  loads : ∀ n, sc.state.loadOf n = (init n).map (· + (inFlight sc n + extra n))

/-- The stages in flight are all that the ledger carries. -/
abbrev Balanced (init : NodeId → Option ℚ) (sc : BrokerScene) : Prop := Books init (fun _ => 0) sc

/-- The part of a pipeline that never changes in an undisturbed run. -/
def plan (ps : PipelineState) : PipelineId × PipelineDAG × Placement :=
  (ps.pipelineId, ps.dag, ps.placement)

/-- An update that leaves the ledger and the plans of the pipelines alone. -/
structure OffLedger (b b' : Broker) : Prop where
  workers : b'.workers = b.workers
  plans : ∀ pid, (b'.pipelines.get? pid).map plan = (b.pipelines.get? pid).map plan

theorem offLedger_of_eq {b b' : Broker} (hw : b'.workers = b.workers)
    (hp : b'.pipelines = b.pipelines) : OffLedger b b' :=
  ⟨hw, fun pid => by rw [hp]⟩

theorem offLedger_updatePipeline (b : Broker) (pid : PipelineId) {f : PipelineState → PipelineState}
    (h : ∀ ps, b.pipelines.get? pid = some ps → plan (f ps) = plan ps) :
    OffLedger b (b.updatePipeline pid f) where
  workers := rfl
  plans pid' := by
    rw [Broker.get?_updatePipeline]
    split
    · next heq =>
      subst heq
      cases hps : b.pipelines.get? pid' with
      | none => rfl
      | some ps => simp [h ps hps]
    · rfl

theorem offLedger_record (b : Broker) (r : TimestampRecord) : OffLedger b (b.record r) :=
  offLedger_of_eq rfl rfl

theorem offLedger_completePipeline (b : Broker) (c : Completion) :
    OffLedger b (b.completePipeline c) :=
  offLedger_of_eq rfl rfl

theorem offLedger_popPipeline (b : Broker) (pid : PipelineId) : OffLedger b (b.popPipeline pid) :=
  offLedger_of_eq rfl rfl

theorem OffLedger.trans {b b' b'' : Broker} (h : OffLedger b b') (h' : OffLedger b' b'') :
    OffLedger b b'' :=
  ⟨h'.workers.trans h.workers, fun pid => (h'.plans pid).trans (h.plans pid)⟩

theorem OffLedger.hostOf {b b' : Broker} (h : OffLedger b b') (key : PipelineId × StageId) :
    b'.hostOf key = b.hostOf key := by
  have hp := h.plans key.1
  unfold Broker.hostOf
  cases hps : b.pipelines.get? key.1 with
  | none =>
    rw [hps] at hp
    rw [Option.map_eq_none_iff.mp hp]
  | some ps =>
    rw [hps] at hp
    obtain ⟨ps', hps', heq⟩ := Option.map_eq_some_iff.mp hp
    rw [hps']
    simp only [plan, Prod.mk.injEq] at heq
    simp [heq.2.2]

namespace Books

variable {init : NodeId → Option ℚ} {extra : NodeId → ℚ} {sc : BrokerScene}

/-- Whatever leaves the messages, the reports and the hosts alone leaves the
demand in flight alone. -/
theorem inFlight_congr {sc' : BrokerScene} (hout : outstanding sc' = outstanding sc)
    (hhost : ∀ m ∈ sc.sent, sc'.state.hostOf m.key = sc.state.hostOf m.key) (n : NodeId) :
    inFlight sc' n = inFlight sc n := by
  unfold inFlight
  rw [hout]
  congr 1
  apply List.map_congr_left
  intro m hm
  rw [hhost m (mem_outstanding.mp hm).1]

theorem inFlight_withState {b : Broker}
    (hhost : ∀ m ∈ sc.sent, b.hostOf m.key = sc.state.hostOf m.key) (n : NodeId) :
    inFlight (sc.withState b) n = inFlight sc n :=
  @inFlight_congr sc (sc.withState b) rfl hhost n

theorem offLedger (h : Books init extra sc) {b : Broker} (hb : OffLedger sc.state b) :
    Books init extra (sc.withState b) := by
  have hback : ∀ pid ps', b.pipelines.get? pid = some ps' →
      ∃ ps, sc.state.pipelines.get? pid = some ps ∧ plan ps' = plan ps := fun pid ps' hps' => by
    have hp := hb.plans pid
    rw [hps', Option.map_some, eq_comm, Option.map_eq_some_iff] at hp
    exact hp.imp fun ps h => ⟨h.1, h.2.symm⟩
  have hforth : ∀ pid ps, sc.state.pipelines.get? pid = some ps →
      ∃ ps', b.pipelines.get? pid = some ps' ∧ plan ps' = plan ps := fun pid ps hps => by
    have hp := hb.plans pid
    rw [hps, Option.map_some, Option.map_eq_some_iff] at hp
    exact hp
  constructor
  · intro pid ps' hps'
    obtain ⟨ps, hps, hplan⟩ := hback pid ps' hps'
    rw [← h.named pid ps hps]
    exact congrArg Prod.fst hplan
  · exact h.dispatched
  · exact h.once
  · exact h.reported
  · intro m hm
    obtain ⟨ps, hps, stage, hstage, hdemand⟩ := h.known m hm
    obtain ⟨ps', hps', hplan⟩ := hforth _ ps hps
    have hdag : ps'.dag = ps.dag := congrArg (·.2.1) hplan
    exact ⟨ps', hps', stage, hdag ▸ hstage, hdemand⟩
  · intro n
    rw [inFlight_withState (fun m _ => hb.hostOf m.key), Scene.state_withState,
      loadOf_congr hb.workers]
    exact h.loads n

/-- A load update that is not cut off at zero. -/
theorem load (h : Books init extra sc) {nodeId : NodeId} {delta : ℚ}
    (hexact : ∀ load ∈ sc.state.loadOf nodeId, 0 ≤ load + delta) :
    Books init (fun n => extra n + if n = nodeId then delta else 0)
      (sc.withState (updateWorkerLoad nodeId delta sc.state)) := by
  have hpipelines := pipelines_updateWorkerLoad nodeId delta sc.state
  have hhost : ∀ key, (updateWorkerLoad nodeId delta sc.state).hostOf key = sc.state.hostOf key :=
    fun key => by rw [Broker.hostOf, hpipelines]; rfl
  refine ⟨?_, h.dispatched, h.once, h.reported, ?_, fun n => ?_⟩
  · rw [Scene.state_withState, hpipelines]
    exact h.named
  · rw [Scene.state_withState, hpipelines]
    exact h.known
  · rw [inFlight_withState (fun m _ => hhost m.key), Scene.state_withState,
      loadOf_updateWorkerLoad]
    split
    · next heq =>
      subst heq
      rw [h.loads n]
      cases hinit : init n with
      | none => rfl
      | some x =>
        have hload := h.loads n
        rw [hinit] at hload
        have hpos := hexact _ hload
        simp only [Option.map_some, Option.some.injEq]
        rw [max_eq_right hpos]
        ring
    · rw [h.loads n]
      simp

/-- A new pipeline is admitted. -/
theorem admitted (h : Books init extra sc) {req : PlacedPipeline}
    (hnew : req.pipelineId ∉ sc.state.pipelines) {ps : PipelineState}
    (hps : ps.pipelineId = req.pipelineId) :
    Books init extra (sc.withState { sc.state with
      pipelines := sc.state.pipelines.insert req.pipelineId ps
      activePipelines := sc.state.activePipelines ++ [req.pipelineId] }) := by
  -- the pipelines of the messages are there already
  have hne : ∀ m ∈ sc.sent, m.key.1 ≠ req.pipelineId := fun m hm heq => by
    obtain ⟨ps', hps', -⟩ := h.known m hm
    exact hnew (heq ▸ Dict.mem_of_get?_eq_some hps')
  refine ⟨fun pid ps' hps' => ?_, h.dispatched, h.once, h.reported, fun m hm => ?_, fun n => ?_⟩
  · rw [Scene.state_withState, Dict.get?_insert] at hps'
    split at hps'
    · next heq =>
      obtain rfl := Option.some.inj hps'
      rw [hps, heq]
    · exact h.named pid ps' hps'
  · rw [Scene.state_withState, Dict.get?_insert, if_neg (hne m hm)]
    exact h.known m hm
  · rw [inFlight_withState]
    · exact h.loads n
    · intro m hm
      simp only [Broker.hostOf, Dict.get?_insert, if_neg (hne m hm)]

theorem answer (h : Books init extra sc) (c : Call) (e : Except PyError Response) :
    Books init extra (sc.answer c e) :=
  ⟨h.named, h.dispatched, h.once, h.reported, h.known, h.loads⟩

theorem schedule (h : Books init extra sc) (calls : List Call) :
    Books init extra (sc.schedule calls) :=
  ⟨h.named, h.dispatched, h.once, h.reported, h.known, h.loads⟩

theorem withPending (h : Books init extra sc) (calls : List Call) :
    Books init extra (sc.withPending calls) :=
  ⟨h.named, h.dispatched, h.once, h.reported, h.known, h.loads⟩

/-- A call that reports no stage. -/
theorem start (h : Books init extra sc) {c : Call} (hc : c.resultKey? = none) :
    Books init extra (sc.start c) := by
  have hreports : ∀ key, some key ∈ (sc.start c).started.map Call.resultKey? ↔
      some key ∈ sc.started.map Call.resultKey? := fun key => by simp [hc]
  refine ⟨h.named, fun m hm => List.mem_append_left _ (h.dispatched m hm), h.once,
    fun key hkey => h.reported key ((hreports key).mp hkey), h.known, fun n => ?_⟩
  rw [@inFlight_congr sc (sc.start c) _ (fun _ _ => rfl) n]
  · exact h.loads n
  · unfold outstanding
    apply List.filter_congr
    intro m _
    rw [decide_eq_decide, hreports m.key]

/-- A message for a stage that none has been sent for: its demand is in flight now. -/
theorem emit (h : Books init extra sc) {m : WorkerMessage} {nodeId : NodeId} {ps : PipelineState}
    {stage : Stage} (hdispatched : .dispatchStage m.key.1 m.key.2 ∈ sc.started)
    (hnew : m.key ∉ sc.sent.map (·.key)) (hps : sc.state.pipelines.get? m.key.1 = some ps)
    (hstage : ps.dag.stage? m.key.2 = some stage)
    (hdemand : m.payload.computationalDemand = stage.computationalDemand)
    (hhost : sc.state.hostOf m.key = some nodeId) :
    Books init (fun n => extra n - if n = nodeId then stage.computationalDemand else 0)
      (sc.emit m) := by
  have hout : outstanding (sc.emit m) = outstanding sc ++ [m] := by
    have hreport : some m.key ∉ sc.started.map Call.resultKey? := fun hm => hnew (h.reported _ hm)
    unfold outstanding
    rw [Scene.sent_emit, Scene.started_emit, List.filter_append]
    congr 1
    exact List.filter_eq_self.mpr (by simpa using hreport)
  refine ⟨h.named, fun m' hm' => ?_, ?_, fun key hkey => ?_, fun m' hm' => ?_, fun n => ?_⟩
  · rcases List.mem_append.mp hm' with hm' | hm'
    · exact h.dispatched m' hm'
    · obtain rfl := List.mem_singleton.mp hm'
      exact hdispatched
  · rw [Scene.sent_emit, List.map_append]
    apply List.nodup_append.mpr
    exact ⟨h.once, by simp, by simpa using hnew⟩
  · rw [Scene.sent_emit, List.map_append]
    exact List.mem_append_left _ (h.reported key hkey)
  · rcases List.mem_append.mp hm' with hm' | hm'
    · exact h.known m' hm'
    · obtain rfl := List.mem_singleton.mp hm'
      exact ⟨ps, hps, stage, hstage, hdemand⟩
  · have hflight : inFlight (sc.emit m) n =
        inFlight sc n + if n = nodeId then stage.computationalDemand else 0 := by
      unfold inFlight
      rw [hout, List.map_append, List.sum_append]
      simp [hhost, hdemand, eq_comm]
    rw [hflight, add_add_sub_cancel]
    exact h.loads n

/-- A result takes the message for its stage off the outstanding ones. -/
theorem outstanding_start_result {req : StageResultRequest} (hnodup : (sc.sent.map (·.key)).Nodup)
    {m : WorkerMessage} (hm : m ∈ outstanding sc) (hkey : m.key = (req.pipelineId, req.stageId)) :
    outstanding (sc.start (.result req)) = (outstanding sc).erase m := by
  have hsub : (outstanding sc).Sublist sc.sent := List.filter_sublist
  have honce : ((outstanding sc).map (·.key)).Nodup := (hsub.map _).nodup hnodup
  rw [honce.of_map.erase_eq_filter]
  unfold outstanding
  rw [List.filter_filter]
  apply List.filter_congr
  intro m' hm'
  have hsame : m'.key = m.key ↔ m' = m :=
    ⟨fun heq => List.inj_on_of_nodup_map hnodup hm' (mem_outstanding.mp hm).1 heq, fun heq => heq ▸ rfl⟩
  simp only [Scene.started_start, List.map_append, List.mem_append, List.map_cons, List.map_nil,
    List.mem_singleton, Call.resultKey?, Option.some.injEq, ← hkey, hsame]
  grind

/-- A result: its demand is no longer in flight. -/
theorem report (h : Books init extra sc) {req : StageResultRequest}
    (hout : (req.pipelineId, req.stageId) ∈ (outstanding sc).map (·.key))
    (hhost : sc.state.hostOf (req.pipelineId, req.stageId) = some req.nodeId) :
    ∃ ps stage, sc.state.pipelines.get? req.pipelineId = some ps ∧
      ps.dag.stage? req.stageId = some stage ∧
      Books init (fun n => extra n + if n = req.nodeId then stage.computationalDemand else 0)
        (sc.start (.result req)) := by
  obtain ⟨m, hm, hkey⟩ := List.mem_map.mp hout
  have hsent := (mem_outstanding.mp hm).1
  obtain ⟨ps, hps, stage, hstage, hdemand⟩ := h.known m hsent
  rw [hkey] at hps hstage
  refine ⟨ps, stage, hps, hstage, h.named, fun m' hm' => List.mem_append_left _ (h.dispatched m' hm'),
    h.once, fun key hk => ?_, h.known, fun n => ?_⟩
  · rw [Scene.started_start, List.map_append] at hk
    rcases List.mem_append.mp hk with hk | hk
    · exact h.reported key hk
    · obtain rfl : key = (req.pipelineId, req.stageId) := by simpa [Call.resultKey?] using hk
      exact List.mem_map.mpr ⟨m, hsent, hkey⟩
  · have hflight : inFlight sc n = inFlight (sc.start (.result req)) n +
        if n = req.nodeId then stage.computationalDemand else 0 := by
      unfold inFlight
      rw [outstanding_start_result h.once hm hkey, add_comm]
      have hsum := List.sum_map_erase (fun m => if sc.state.hostOf m.key = some n then
        m.payload.computationalDemand else 0) hm
      rw [← hsum, hkey, hhost, hdemand]
      simp [eq_comm]
    rw [Scene.state_start, h.loads n, hflight, add_assoc, add_comm (ite _ _ _)]

/-! ## Handlers -/

section Handlers

variable {r : Wake Broker Call WorkerMessage PyError Response} {cfg : BrokerConfig}
  {init : NodeId → Option ℚ} {sc : BrokerScene}

theorem offLedger_failPipeline (b : Broker) (pid : PipelineId) (error : String) :
    OffLedger b (b.failPipeline pid error) :=
  (offLedger_updatePipeline b pid (f := fun ps => { ps with failed := true, error := some error })
    fun _ _ => rfl).trans (offLedger_popPipeline _ pid)

/-- A dispatch round leaves the ledger alone until its stages start. -/
theorem wp_dispatchReady (h : Balanced init sc) {pid : PipelineId} {ps : PipelineState}
    (hps : sc.state.pipelines.get? pid = some ps) :
    (dispatchReadyStages cfg pid).wp r (Balanced init) (fun _ => Balanced init)
      (fun _ => Balanced init) sc := by
  have hframe : ReadyScan.Frame ps (sc.state.readyScan cfg ps).ps := findReadyStages_frame ..
  have hscan : OffLedger sc.state
      (sc.state.updatePipeline pid fun _ => (sc.state.readyScan cfg ps).ps) := by
    apply offLedger_updatePipeline
    intro ps' hps'
    obtain rfl := Option.some.inj (hps.symm.trans hps')
    obtain ⟨_, _, _, hplan⟩ := hframe
    rw [hplan]
    rfl
  refine wp_dispatchReadyStages hps (fun _ => h) (fun _ result _ _ => ?_)
    (fun _ _ _ => h.offLedger hscan) fun _ _ _ => ⟨?_, fun sc' hI' _ _ => ⟨hI', fun _ => hI'⟩⟩
  · have hfail := hscan.trans (offLedger_failPipeline _ pid (funnelError result))
    have hcomplete := h.offLedger (hfail.trans (offLedger_completePipeline _
      { pipelineId := pid, success := false, error := some (funnelError result) }))
    exact hcomplete
  · have hmarked := hscan.trans (offLedger_updatePipeline _ pid (f := fun ps' => { ps' with
      dispatchedStages := ps'.dispatchedStages ∪ (sc.state.readyScan cfg ps).ready.toFinset })
        fun _ _ => rfl)
    have hscheduled := (h.offLedger hmarked).schedule
      ((sc.state.readyScan cfg ps).ready.map (.dispatchStage pid))
    exact hscheduled

theorem wp_publish (h : Balanced init sc) {req : PlacedPipeline}
    (hnew : req.pipelineId ∉ sc.state.pipelines) :
    (publish cfg req).wp r (Balanced init) (fun _ => Balanced init) (fun _ => Balanced init) sc := by
  let ps : PipelineState :=
    { pipelineId := req.pipelineId, pipelineType := req.pipelineType
      dag := req.dag, placement := req.placement }
  have hadmitted := @Books.admitted init _ sc h req hnew ps rfl
  have hcreated := hadmitted.offLedger (offLedger_record _
    (pipelineRecord cfg req .created sc.state.clock))
  have hplaced := hcreated.offLedger (offLedger_record _
    (pipelineRecord cfg req .placementComplete sc.state.clock))
  unfold publish registerPipeline
  simp only [Co.wp_monad_bind, Co.wp_modify, Co.wp_read, Co.wp_ofExcept]
  cases checkFeasibility req.placement req.dag req.feasibilityTopology cfg.governance with
  | error e => exact hplaced
  | ok feasible =>
    simp only [Co.wp_pure]
    apply wp_dispatchReady hplaced
    exact Dict.get?_insert_self ..

/-- A stage that none has been sent for is reserved and sent. -/
theorem wp_dispatchStage {pid : PipelineId} {sid : StageId} (h : Balanced init sc)
    (hstarted : .dispatchStage pid sid ∈ sc.started) (hnew : (pid, sid) ∉ sc.sent.map (·.key))
    (hexact : ReservesExactly sc.state (.dispatchStage pid sid))
    (hreply : ∀ sc' m e, r.reply sc' m e → e = .ok ()) :
    (dispatchStage cfg pid sid).wp r (Balanced init) (fun _ => Balanced init)
      (fun _ => Balanced init) sc := by
  unfold dispatchStage
  cases hps : sc.state.pipelines.get? pid with
  | none => simpa [getPipeline, subscript, hps] using h
  | some ps =>
    rw [Co.wp_monad_bind, wp_getPipeline hps, Co.wp_monad_bind, Co.wp_ofExcept]
    cases hnode : subscript ps.placement sid with
    | error e => exact h
    | ok nodeId =>
      have hnode := subscript_eq_ok_iff.mp hnode
      simp only [Co.wp_monad_bind, Co.wp_read]
      cases dispatchUrl nodeId sc.state with
      | none => exact h.offLedger (offLedger_failPipeline ..)
      | some target =>
        obtain ⟨url, peerDispatch⟩ := target
        simp only [Co.wp_monad_bind, Co.wp_ofExcept]
        cases hstage : ps.dag.getStage sid with
        | error e => exact h
        | ok stage =>
          have hstage := subscript_eq_ok_iff.mp hstage
          simp only [Co.wp_read, Co.wp_modify, Co.wp_request]
          have hpid := h.named pid ps hps
          have hrecorded := h.offLedger (offLedger_record sc.state
            { pipelineId := ps.pipelineId, stageId := sid, event := .dispatched
              timestamp := sc.state.clock, nodeId := nodeId, pipelineType := ps.pipelineType })
          have hreserved := hrecorded.load (hexact ps hps nodeId hnode stage hstage)
          generalize hm : workerMessage cfg nodeId url (executeRequest cfg ps sid stage
            (if peerDispatch = true then some (rstripSlash (selfUrl cfg)) else none)) = m
          have hkey : m.key = (pid, sid) := by rw [← hm, key_workerMessage, hpid]
          have hdemand : m.payload.computationalDemand = stage.computationalDemand := by
            simp [← hm, executeRequest]
          have hsent := @emit _ _ _ hreserved m nodeId ps stage
            (by rwa [hkey]) (by rwa [hkey]) (by simpa [hkey] using hps) (by rwa [hkey]) hdemand
            (by simp [hkey, Broker.hostOf, hps, hnode])
          simp only [zero_add, sub_self] at hsent
          refine ⟨hsent, fun e sc' hI' _ hr => ?_⟩
          obtain rfl := hreply _ _ _ hr
          exact hI'

theorem offLedger_recorded (req : StageResultRequest) (ps : PipelineState) (b : Broker) :
    OffLedger b (recorded req ps b) := by
  have hreceived := (offLedger_record b
    (stageRecord req .stageResultReceived b.clock "__pending__")).trans
      (offLedger_updatePipeline _ req.pipelineId (f := (·.recordResult req)) fun ps' _ => by
        unfold PipelineState.recordResult
        split <;> rfl)
  have hstart := hreceived.trans (offLedger_record _
    (stageRecord req .stageStart req.startTime ps.pipelineType))
  exact hstart.trans (offLedger_record _ (stageRecord req .stageEnd req.endTime ps.pipelineType))

/-- Finalising or advancing a pipeline leaves the ledger alone. -/
theorem wp_completeOrAdvance (h : Balanced init sc) {req : StageResultRequest} {ps : PipelineState}
    (hps : sc.state.pipelines.get? req.pipelineId = some ps) :
    (completeOrAdvance cfg req).wp r (Balanced init) (fun _ => Balanced init)
      (fun _ => Balanced init) sc := by
  unfold completeOrAdvance
  rw [Co.wp_monad_bind, wp_getPipeline hps]
  split
  · have hcomplete := h.offLedger ((offLedger_completePipeline sc.state
      { pipelineId := req.pipelineId, success := false, error := ps.error }).trans
        (offLedger_popPipeline _ req.pipelineId))
    exact hcomplete
  · split
    · have hrecord := h.offLedger (offLedger_record sc.state
        (stageRecord req .delivered sc.state.clock ps.pipelineType))
      have hcomplete := hrecord.offLedger ((offLedger_completePipeline _
        { pipelineId := req.pipelineId, success := true }).trans
          (offLedger_popPipeline _ req.pipelineId))
      exact hcomplete
    · rw [Co.wp_monad_bind]
      exact Co.wp_mono (fun _ _ h => h) (fun _ _ h => h) (h.wp_dispatchReady hps)

/-- What is left of a demand that no load carries. -/
theorem settle {nodeId : NodeId} {demand : ℚ}
    (h : Books init (fun n => 0 + if n = nodeId then demand else 0) sc)
    (hzero : ∀ load ∈ sc.state.loadOf nodeId, demand = 0) : Balanced init sc := by
  refine ⟨h.named, h.dispatched, h.once, h.reported, h.known, fun n => ?_⟩
  have hn := h.loads n
  by_cases heq : n = nodeId
  · subst heq
    cases hinit : init n with
    | none => simpa [hinit] using hn
    | some x =>
      rw [hinit] at hn
      simpa [hzero _ hn] using hn
  · simpa [heq] using hn

/-- The result of a stage that was sent releases its demand. -/
theorem wp_result {req : StageResultRequest} {ps : PipelineState} {stage : Stage}
    (h : Books init (fun n => 0 + if n = req.nodeId then stage.computationalDemand else 0) sc)
    (hps : sc.state.pipelines.get? req.pipelineId = some ps)
    (hstage : ps.dag.stage? req.stageId = some stage)
    (hexact : ReleasesExactly sc.state (.result req)) :
    (result cfg req).wp r (Balanced init) (fun _ => Balanced init) (fun _ => Balanced init) sc := by
  have hdemand : stageDemand ps req.stageId = stage.computationalDemand := by
    simp [stageDemand, hstage]
  unfold result
  simp only [Co.wp_monad_bind, Co.wp_read, Co.wp_modify, Scene.state_withState]
  have hreceived := h.offLedger (offLedger_record sc.state
    (stageRecord req .stageResultReceived sc.state.clock "__pending__"))
  have hlookup : (sc.state.record (stageRecord req .stageResultReceived sc.state.clock
      "__pending__")).activePipeline? req.pipelineId =
        if req.pipelineId ∈ sc.state.activePipelines then some ps else none := by
    simp [Broker.activePipeline?, hps]
  rw [hlookup]
  by_cases hactive : req.pipelineId ∈ sc.state.activePipelines
  · simp only [hactive, if_true, Co.wp_monad_bind, Co.wp_modify, Co.wp_ofExcept,
      Scene.state_withState, Scene.withState_withState, subscript_eq_ok_iff.mpr hstage,
      PipelineDAG.getStage]
    have hrecorded := h.offLedger (offLedger_recorded req ps sc.state)
    have hcut : ∀ load ∈ sc.state.loadOf req.nodeId, 0 ≤ load + -stage.computationalDemand := by
      intro load hload
      have hrelease := hexact ps hps load hload
      rwa [if_pos hactive, hdemand, sub_eq_add_neg] at hrelease
    have hreleased := hrecorded.load hcut
    have hzero : (fun n => 0 + (if n = req.nodeId then stage.computationalDemand else 0) +
        if n = req.nodeId then -stage.computationalDemand else 0) = fun _ => (0 : ℚ) := by
      funext n
      split <;> simp
    rw [hzero] at hreleased
    refine hreleased.wp_completeOrAdvance (?_ : _ = some (ps.recordResult req))
    simp [recorded, Broker.get?_updatePipeline, hps]
  · simp only [hactive, if_false]
    apply hreceived.settle
    intro load hload
    have hnone := hexact ps hps load hload
    rwa [if_neg hactive, hdemand] at hnone

end Handlers
end Books

/-! ## Every run -/

theorem keeps_balanced (cfg : BrokerConfig) (init : NodeId → Option ℚ) :
    ((exactRules cfg).given SafetyInv).Keeps (Balanced init) := by
  refine Rules.keeps_of_wp (fun sc c e h => h.answer c e) (fun sc c h hcall => ?_)
    (fun sc c pre post hp h hstart => ?_)
  · obtain ⟨⟨hmay, hexact⟩, -⟩ := hcall
    cases c with
    | publish req => exact (h.start rfl).wp_publish hmay
    | result req =>
      obtain ⟨ps, stage, hps, hstage, hbooks⟩ := h.report hmay.1 hmay.2
      exact hbooks.wp_result hps hstage hexact
    | cachePeerWorkers urls =>
      have hcached := (h.start (c := .cachePeerWorkers urls) rfl).offLedger
        (b := { sc.state with shardedPeerWorkerUrls := urls }) (offLedger_of_eq rfl rfl)
      exact hcached
    | tick time =>
      have hticked := (h.start (c := .tick time) rfl).offLedger
        (b := { sc.state with clock := time }) (offLedger_of_eq rfl rfl)
      exact hticked
    | register | deregister | dispatchStage | healthCheck => cases hmay
  · obtain ⟨hexact, hsafety⟩ := hstart
    obtain ⟨pid, sid, rfl⟩ := hsafety.pending c (by simp [hp])
    -- a stage that waits to be started has not been dispatched yet
    have hfresh : (pid, sid) ∉ sc.sent.map (·.key) := by
      intro hm
      obtain ⟨m, hm, hkey⟩ := List.mem_map.mp hm
      have hdispatched : .dispatchStage pid sid ∈ sc.started := by
        simpa [hkey] using h.dispatched m hm
      have hone := hsafety.scheduled pid sid
      have hpos := List.count_pos_iff.mpr hdispatched
      simp only [scheduleCount, dispatchCount, hp, List.count_append, List.count_cons_self] at hone
      omega
    have hstarted : Balanced init ((sc.withPending (pre ++ post)).start (.dispatchStage pid sid)) :=
      (h.withPending (pre ++ post)).start (c := .dispatchStage pid sid) rfl
    show (dispatchStage cfg pid sid >>= fun _ => pure Response.none).wp _ _ _ _ _
    rw [Co.wp_monad_bind]
    apply hstarted.wp_dispatchStage (by simp) hfresh hexact
    exact fun _ _ _ hreply => hreply.1

/-- The demand in flight is nothing when every stage that was sent has reported. -/
theorem inFlight_eq_zero {sc : BrokerScene} (h : outstanding sc = []) (n : NodeId) :
    inFlight sc n = 0 := by
  simp [inFlight, h]

theorem within_undisturbedRules (cfg : BrokerConfig) (p : BrokerScene → Call → Prop) :
    ((undisturbedRules cfg).provided p).Within (faultyRules .neural cfg) SafetyInv where
  body := rfl
  call sc c _ hcall := by
    cases c with
    | publish req => exact hcall.1
    | dispatchStage pid sid => exact hcall.1
    | register | deregister | result | healthCheck | cachePeerWorkers | tick => trivial
  reply _ _ _ _ _ := trivial
  start _ _ _ _ := trivial
  join _ _ _ _ _ := trivial

theorem within_exactRules (cfg : BrokerConfig) :
    (exactRules cfg).Within (faultyRules .neural cfg) SafetyInv :=
  have h := within_undisturbedRules cfg fun sc => ReleasesExactly sc.state
  ⟨rfl, h.call, h.reply, fun _ _ _ _ => trivial, h.join⟩

theorem balanced_of_fresh {w : BrokerWorld} (hw : Fresh w) (hsent : w.sent = []) :
    Balanced w.state.loadOf w.scene := by
  refine ⟨?_, ?_, ?_, ?_, ?_, fun n => ?_⟩
  · simp [World.scene, hw.pipelines]
  · simp [World.scene, hsent]
  · simp [World.scene, hsent]
  · simp [World.scene, hw.started]
  · simp [World.scene, hsent]
  · rw [inFlight_eq_zero (by simp [outstanding, World.scene, hsent])]
    show w.state.loadOf n = _
    simp

theorem Books.loadOf_eq {init : NodeId → Option ℚ} {sc : BrokerScene} (h : Balanced init sc)
    (hquiet : outstanding sc = []) (n : NodeId) : sc.state.loadOf n = init n := by
  rw [h.loads n, inFlight_eq_zero hquiet]
  simp

/-- In an undisturbed run whose steps reserve and release exactly, every load is
back at its initial value whenever no result is outstanding. -/
theorem loadOf_of_quiescent (cfg : BrokerConfig) {w w' : BrokerWorld} (hw : Fresh w)
    (hsent : w.sent = []) (hr : (exactRules cfg).Reachable w w') (hquiet : outstanding w'.scene = [])
    (n : NodeId) : w'.state.loadOf n = w.state.loadOf n := by
  have hkeeps := ((keeps_safetyInv .neural cfg).within (within_exactRules cfg)).and
    (keeps_balanced cfg w.state.loadOf)
  have hI := hkeeps.reachable ⟨hw.safetyInv, balanced_of_fresh hw hsent⟩ hw.tasks hr
  exact hI.2.loadOf_eq hquiet n

private def crewConfig : BrokerConfig := { domainId := "d1", brokerId := "b1" }

private def crewWorld : BrokerWorld where
  state := { workers := .ofList [("w1", ⟨"w1", "d1", "s1", 4, "http://w1", 0, 0⟩)] }

private theorem fresh_crewWorld : Fresh crewWorld := ⟨rfl, rfl, rfl, rfl, rfl, rfl, rfl⟩

/-- Two independent stages, both on `w1`. -/
private def crewRequest : PlacedPipeline where
  pipelineId := "p"
  pipelineType := "pair"
  dag := .ofLists
    [⟨"a", "sense", 1, 1, none, none, none⟩, ⟨"b", "sense", 1, 1, none, none, none⟩] []
  placement := .ofList [("a", "w1"), ("b", "w1")]
  feasibilityTopology := ⟨[⟨"w1", "d1", "s1", 4, 0, none⟩], .empty⟩

theorem loadOf_of_quiescent_pair :
    ∃ w', (exactRules crewConfig).performAll [.call (.publish crewRequest), .start 1, .start 2,
        .call (.result ⟨"p", "b", "w1", 0, 1, true, none⟩),
        .call (.result ⟨"p", "a", "w1", 0, 1, false, none⟩)] crewWorld = some w' ∧
      outstanding w'.scene = [] ∧ w'.state.loadOf "w1" = crewWorld.state.loadOf "w1" := by
  have hrun : ∃ w', (exactRules crewConfig).performAll [.call (.publish crewRequest), .start 1,
      .start 2, .call (.result ⟨"p", "b", "w1", 0, 1, true, none⟩),
      .call (.result ⟨"p", "a", "w1", 0, 1, false, none⟩)] crewWorld = some w' ∧
        outstanding w'.scene = [] := by decide +kernel
  obtain ⟨w', hw', hquiet⟩ := hrun
  exact ⟨w', hw', hquiet, loadOf_of_quiescent crewConfig fresh_crewWorld rfl
    (Rules.reachable_of_performAll _ hw') hquiet "w1"⟩

/-- The first of two stages that run on `w1` fails: the result of the other finds
the pipeline gone, and its load stays. -/
theorem not_loadOf_of_quiescent :
    ¬ ∀ (cfg : BrokerConfig) (w w' : BrokerWorld), Fresh w → w.sent = [] →
      (undisturbedRules cfg).Reachable w w' → outstanding w'.scene = [] →
        ∀ n, w'.state.loadOf n = w.state.loadOf n := by
  intro h
  have hrun : ∃ w', (undisturbedRules crewConfig).performAll [.call (.publish crewRequest),
      .start 1, .start 2, .call (.result ⟨"p", "a", "w1", 0, 1, false, none⟩),
      .call (.result ⟨"p", "b", "w1", 0, 1, true, none⟩)] crewWorld = some w' ∧
        outstanding w'.scene = [] ∧ w'.state.loadOf "w1" ≠ crewWorld.state.loadOf "w1" := by
    decide +kernel
  obtain ⟨w', hw', hquiet, hne⟩ := hrun
  exact hne (h crewConfig crewWorld w' fresh_crewWorld rfl (Rules.reachable_of_performAll _ hw')
    hquiet "w1")

/-! ## Non-negative loads -/

/-- Undisturbed runs in which no stage has a negative demand and every result finds
its pipeline active. -/
def activeRules (cfg : BrokerConfig) : Rules Broker Call WorkerMessage PyError Response :=
  (undisturbedRules cfg).provided fun sc c => match c with
    | .publish req => ∀ stage ∈ req.dag.stages.values, 0 ≤ stage.computationalDemand
    | .result req => req.pipelineId ∈ sc.state.activePipelines
    | _ => True

/-- No published stage has a negative demand. -/
def NonNegDemands (sc : BrokerScene) : Prop :=
  ∀ req, Call.publish req ∈ sc.started → ∀ stage ∈ req.dag.stages.values,
    0 ≤ stage.computationalDemand

theorem tolerates_nonNegDemands (cfg : BrokerConfig) : Tolerates .neural cfg NonNegDemands where
  aside hI _ := hI
  registry hI _ := hI
  emit _ hI := hI
  admitted _ hI _ _ := hI
  recorded _ hI _ := hI
  scheduled hI _ _ := hI
  finalised hI _ _ _ _ := hI

theorem keeps_nonNegDemands (cfg : BrokerConfig) :
    ((activeRules cfg).given SafetyInv).Keeps NonNegDemands := by
  have h := tolerates_nonNegDemands cfg
  refine Rules.keeps_of_wp (fun sc c e hI => hI) (fun sc c hI hcall => ?_)
    (fun sc c pre post hp hI hstart => ?_)
  · have hstarted : NonNegDemands (sc.start c) := fun req hreq => by
      rcases List.mem_append.mp hreq with hreq | hreq
      · exact hI req hreq
      · obtain rfl := List.mem_singleton.mp hreq
        exact hcall.1.2
    refine h.wp_brokerBody hstarted (by simp) ?_ fun results _ => hstarted
    rintro req rfl
    exact hcall.1.1
  · obtain ⟨pid, sid, rfl⟩ := hstart.2.pending c (by simp [hp])
    have hstarted : NonNegDemands ((sc.withPending (pre ++ post)).start (.dispatchStage pid sid)) :=
      fun req hreq => hI req (by simpa using hreq)
    refine h.wp_brokerBody (c := .dispatchStage pid sid) hstarted (by simp) ?_ fun results _ => hstarted
    intro req hc
    cases hc

section NonNeg

variable {init : NodeId → Option ℚ} {sc : BrokerScene}

theorem demand_nonneg (hpub : Published sc) (hnn : NonNegDemands sc) {pid : PipelineId}
    {sid : StageId} {ps : PipelineState} {stage : Stage}
    (hps : sc.state.pipelines.get? pid = some ps) (hstage : ps.dag.stage? sid = some stage) :
    0 ≤ stage.computationalDemand := by
  obtain ⟨req, hreq, -, hdag⟩ := hpub pid ps hps
  apply hnn req hreq
  rw [← hdag]
  exact List.mem_map.mpr ⟨(sid, stage), Dict.get?_eq_some_iff.mp hstage, rfl⟩

theorem inFlight_terms_nonneg (h : Balanced init sc) (hpub : Published sc) (hnn : NonNegDemands sc)
    (nodeId : NodeId) : ∀ x ∈ (outstanding sc).map fun m =>
      if sc.state.hostOf m.key = some nodeId then m.payload.computationalDemand else 0, 0 ≤ x := by
  intro x hx
  obtain ⟨m, hm, rfl⟩ := List.mem_map.mp hx
  split
  · obtain ⟨ps, hps, stage, hstage, hdemand⟩ := h.known m (mem_outstanding.mp hm).1
    rw [hdemand]
    exact demand_nonneg hpub hnn hps hstage
  · exact le_refl 0

theorem inFlight_nonneg (h : Balanced init sc) (hpub : Published sc) (hnn : NonNegDemands sc)
    (nodeId : NodeId) : 0 ≤ inFlight sc nodeId :=
  List.sum_nonneg (inFlight_terms_nonneg h hpub hnn nodeId)

/-- The demand of a stage in flight is part of the load of its host. -/
theorem le_inFlight (h : Balanced init sc) (hpub : Published sc) (hnn : NonNegDemands sc)
    {m : WorkerMessage} (hm : m ∈ outstanding sc) {nodeId : NodeId}
    (hhost : sc.state.hostOf m.key = some nodeId) :
    m.payload.computationalDemand ≤ inFlight sc nodeId := by
  apply List.single_le_sum (inFlight_terms_nonneg h hpub hnn nodeId)
  exact List.mem_map.mpr ⟨m, hm, by simp [hhost]⟩

end NonNeg

/-- Without negative loads and demands, nothing is cut off at zero. -/
theorem within_activeRules (cfg : BrokerConfig) {init : NodeId → Option ℚ}
    (hinit : ∀ n, ∀ load ∈ init n, 0 ≤ load) :
    ((activeRules cfg).given fun sc => (SafetyInv sc ∧ Published sc) ∧ NonNegDemands sc).Within
      ((exactRules cfg).given SafetyInv) (Balanced init) where
  body := rfl
  call sc c h hcall := by
    obtain ⟨⟨hmay, hactive⟩, ⟨hsafety, hpub⟩, hnn⟩ := hcall
    refine ⟨⟨hmay, ?_⟩, hsafety⟩
    cases c with
    | result req =>
      intro ps hps load hload
      rw [if_pos hactive]
      obtain ⟨m, hm, hkey⟩ := List.mem_map.mp hmay.1
      obtain ⟨ps', hps', stage, hstage, hdemand⟩ := h.known m (mem_outstanding.mp hm).1
      rw [hkey] at hps' hstage
      obtain rfl := Option.some.inj (hps'.symm.trans hps)
      have hle := le_inFlight h hpub hnn hm (hkey ▸ hmay.2)
      rw [h.loads req.nodeId] at hload
      obtain ⟨x, hx, rfl⟩ := Option.map_eq_some_iff.mp hload
      have hx := hinit _ x hx
      have hstageDemand : stageDemand ps' req.stageId = m.payload.computationalDemand := by
        rw [hdemand, stageDemand, hstage]
        rfl
      rw [hstageDemand]
      linarith
    | publish | register | deregister | dispatchStage | healthCheck | cachePeerWorkers | tick =>
      trivial
  reply _ _ _ _ hreply := ⟨hreply.1, hreply.2.1.1⟩
  start sc c h hstart := by
    obtain ⟨-, ⟨hsafety, hpub⟩, hnn⟩ := hstart
    refine ⟨?_, hsafety⟩
    cases c with
    | dispatchStage pid sid =>
      intro ps hps nodeId _ stage hstage load hload
      have hdemand := demand_nonneg hpub hnn hps hstage
      rw [h.loads nodeId] at hload
      obtain ⟨x, hx, rfl⟩ := Option.map_eq_some_iff.mp hload
      have hx := hinit _ x hx
      have hflight := inFlight_nonneg h hpub hnn nodeId
      simp only [add_zero]
      linarith
    | publish | register | deregister | result | healthCheck | cachePeerWorkers | tick => trivial
  join _ _ _ _ hjoin := ⟨hjoin.1, hjoin.2.1.1⟩

/-- The same for runs without negative loads and demands, in which every result
finds its pipeline active. -/
theorem loadOf_of_active (cfg : BrokerConfig) {w w' : BrokerWorld} (hw : Fresh w)
    (hsent : w.sent = []) (hinit : ∀ n, ∀ load ∈ w.state.loadOf n, 0 ≤ load)
    (hr : (activeRules cfg).Reachable w w') (hquiet : outstanding w'.scene = []) (n : NodeId) :
    w'.state.loadOf n = w.state.loadOf n := by
  have hwithin : (activeRules cfg).Within (faultyRules .neural cfg) SafetyInv :=
    within_undisturbedRules cfg _
  have hpublished := ((keeps_safetyInv .neural cfg).within hwithin).and
    ((keeps_published .neural cfg).within hwithin.given)
  have hnonNeg := hpublished.and ((keeps_nonNegDemands cfg).within
    (Rules.within_given_mono _ fun _ h => h.1))
  have hkeeps := hnonNeg.and ((keeps_balanced cfg w.state.loadOf).within
    (within_activeRules cfg hinit))
  have hstart : Published w.scene ∧ NonNegDemands w.scene := by
    simp [Published, NonNegDemands, World.scene, hw.pipelines, hw.started]
  have hI := hkeeps.reachable ⟨⟨⟨hw.safetyInv, hstart.1⟩, hstart.2⟩, balanced_of_fresh hw hsent⟩
    hw.tasks hr
  exact hI.2.loadOf_eq hquiet n

end NeuralBroker
end NeuralPubSub
