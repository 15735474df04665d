-- SUMMARY: What one dispatch does to the load ledger of the neural broker, over every outcome of its sends.
import NeuralPubSub.Broker.Neural

open Base

/-!
# The load of a dispatch

`_dispatch_stage` reserves the demand of the stage on its host before it sends
the stage, and may give the stage to another host after a failed send. Here the
dispatch runs on its own, with given outcomes of its two sends.
-/

namespace NeuralPubSub

/-- The load that the broker records for a worker, if it is registered. -/
def Broker.loadOf (b : Broker) (nodeId : NodeId) : Option ℚ :=
  (b.workers.get? nodeId).map (·.currentLoad)

namespace NeuralBroker

/-! ## The ledger -/

theorem loadOf_updateWorkerLoad (nodeId : NodeId) (delta : ℚ) (b : Broker) (n : NodeId) :
    (updateWorkerLoad nodeId delta b).loadOf n =
      if n = nodeId then (b.loadOf nodeId).map fun load => max 0 (load + delta)
      else b.loadOf n := by
  cases hw : b.workers.get? nodeId with
  | none =>
    have hsame : updateWorkerLoad nodeId delta b = b := by simp only [updateWorkerLoad, hw]
    rw [hsame]
    split
    · next heq => simp [Broker.loadOf, heq, hw]
    · rfl
  | some worker =>
    simp only [Broker.loadOf, updateWorkerLoad, hw, Dict.get?_insert]
    split <;> rfl

/-- The two ledgers differ at most on one worker, whose load goes through `f`. -/
def ChangesOnly (b b' : Broker) (nodeId : NodeId) (f : ℚ → ℚ) : Prop :=
  ∀ n, b'.loadOf n = if n = nodeId then (b.loadOf nodeId).map f else b.loadOf n

theorem changesOnly_updateWorkerLoad (nodeId : NodeId) (delta : ℚ) (b : Broker) :
    ChangesOnly b (updateWorkerLoad nodeId delta b) nodeId fun load => max 0 (load + delta) :=
  loadOf_updateWorkerLoad nodeId delta b

theorem ChangesOnly.trans {b b' b'' : Broker} {nodeId : NodeId} {f g : ℚ → ℚ}
    (h : ChangesOnly b b' nodeId f) (h' : ChangesOnly b' b'' nodeId g) :
    ChangesOnly b b'' nodeId fun load => g (f load) := by
  intro n
  rw [h' n, h nodeId, if_pos rfl, Option.map_map, h n]
  split <;> rfl

/-- The host that got the stage carries its demand in addition, and no other load
has changed. -/
def LoadExact (b b' : Broker) (demand : ℚ) (delivered : Option NodeId) : Prop :=
  ∀ n, b'.loadOf n =
    (b.loadOf n).map fun load => if delivered = some n then load + demand else load

namespace ChangesOnly

variable {b b' : Broker} {nodeId : NodeId} {f : ℚ → ℚ} {demand : ℚ}

theorem loadExact_none_iff (h : ChangesOnly b b' nodeId f) :
    LoadExact b b' demand none ↔ ∀ load ∈ b.loadOf nodeId, f load = load := by
  constructor
  · intro hexact load hload
    have hn := hexact nodeId
    rw [h nodeId, if_pos rfl, hload] at hn
    simpa using hn
  · intro hf n
    rw [h n]
    split
    · next heq =>
      subst heq
      cases hload : b.loadOf n with
      | none => rfl
      | some load => simp [hf load hload]
    · simp

theorem loadExact_self_iff (h : ChangesOnly b b' nodeId f) :
    LoadExact b b' demand (some nodeId) ↔ ∀ load ∈ b.loadOf nodeId, f load = load + demand := by
  constructor
  · intro hexact load hload
    have hn := hexact nodeId
    rw [h nodeId, if_pos rfl, hload] at hn
    simpa using hn
  · intro hf n
    rw [h n]
    split
    · next heq =>
      subst heq
      cases hload : b.loadOf n with
      | none => rfl
      | some load => simp [hf load hload]
    · next hne => simp [Ne.symm hne]

/-- The stage went to another registered worker than the one whose load changed. -/
theorem loadExact_other_iff (h : ChangesOnly b b' nodeId f) {n' : NodeId} (hne : n' ≠ nodeId)
    (hn' : n' ∈ b.workers) :
    LoadExact b b' demand (some n') ↔ demand = 0 ∧ ∀ load ∈ b.loadOf nodeId, f load = load := by
  constructor
  · intro hexact
    constructor
    · obtain ⟨worker, hworker⟩ := Dict.exists_get?_of_mem hn'
      have hn := hexact n'
      rw [h n', if_neg hne, Broker.loadOf, hworker] at hn
      simpa using hn
    · intro load hload
      have hn := hexact nodeId
      rw [h nodeId, if_pos rfl, hload] at hn
      simpa [hne] using hn
  · rintro ⟨rfl, hf⟩
    have hnone : LoadExact b b' 0 none := h.loadExact_none_iff.mpr hf
    intro n
    rw [hnone n]
    simp

end ChangesOnly

section Dispatch

variable {cfg : BrokerConfig} {b : Broker} {pid : PipelineId} {ps : PipelineState} {sid : StageId}
  {nodeId : NodeId} {url : String} {peerDispatch : Bool} {stage : Stage}

/-! ## The retry -/

/-- The host that the retry of a failed dispatch finds in the state `b`. -/
def retryHost (cfg : BrokerConfig) (b : Broker) (ps : PipelineState) (sid : StageId) :
    Except PyError (Option NodeId) :=
  if b.topology.nodes = [] then .ok none
  else
    match findPlacement ps.dag b.topology cfg.governance cfg.weights with
    | .ok newPlacement => (subscript newPlacement sid).map some
    | .error (.runtime _) => .ok none
    | .error e => .error e

/-- The pipelines after the stage has moved to another host. -/
def rehost (pid : PipelineId) (sid : StageId) (nodeId : NodeId) (b : Broker) : Broker :=
  b.updatePipeline pid fun ps => { ps with placement := ps.placement.insert sid nodeId }

theorem alone_replan {s : Solo Broker WorkerMessage PyError}
    (hps : s.state.pipelines.get? pid = some ps) :
    (replan cfg pid [sid]).alone s =
      match retryHost cfg s.state ps sid with
      | .ok none => (some (.ok false), s)
      | .ok (some n) => (some (.ok true), { s with state := rehost pid sid n s.state })
      | .error e => (some (.error e), s) := by
  have hsub : subscript s.state.pipelines pid = .ok ps := subscript_eq_ok_iff.mpr hps
  unfold replan retryHost
  by_cases hempty : s.state.topology.nodes = []
  · simp [hempty]
  · simp only [Co.alone_bind, Co.alone_read, hempty, if_false, getPipeline, hsub, Co.alone_ofExcept]
    cases hfind : findPlacement ps.dag s.state.topology cfg.governance cfg.weights with
    | ok newPlacement =>
      cases hn : subscript newPlacement sid with
      | ok n =>
        simp [hn, Except.map, rehost]
      | error e => simp [hn, Except.map]
    | error e =>
      cases e <;> simp

/-- The registered host that the retry of a failed dispatch goes to. -/
def retryTarget (cfg : BrokerConfig) (b : Broker) (ps : PipelineState) (sid : StageId) :
    Except PyError (Option NodeId) :=
  (retryHost cfg b ps sid).map fun nodeId => nodeId.filter (· ∈ b.workers)

/-! ## Delivery -/

/-- The host that a dispatch has delivered the stage to: the placement names the
host of the last send. -/
def deliveredTo (pid : PipelineId) (sid : StageId) (s : Solo Broker WorkerMessage PyError) :
    Option NodeId :=
  if ∃ e ∈ s.sends, e.2 = .ok () then
    (s.state.pipelines.get? pid).bind fun ps => ps.placement.get? sid
  else none

/-- Where the stage ends up after a failed first send, and a broker with the loads then. -/
def retryEffect (cfg : BrokerConfig) (b : Broker) (ps : PipelineState) (sid : StageId)
    (nodeId : NodeId) (demand : ℚ) (second : Except PyError Unit) : Option NodeId × Broker :=
  match retryTarget cfg b ps sid, second with
  | .error _, _ => (none, b)
  | .ok (some newNodeId), .ok _ => (some newNodeId, b)
  | _, _ => (none, updateWorkerLoad nodeId (-demand) b)

/-- Where the stage ends up, and a broker with the loads that the dispatch leaves. -/
def dispatchEffect (cfg : BrokerConfig) (b : Broker) (ps : PipelineState) (sid : StageId)
    (first second : Except PyError Unit) : Option NodeId × Broker :=
  match ps.placement.get? sid with
  | none => (none, b)
  | some nodeId =>
    match dispatchUrl nodeId b, ps.dag.stage? sid with
    | some _, some stage =>
      let reserved := updateWorkerLoad nodeId stage.computationalDemand b
      match first with
      | .ok _ => (some nodeId, reserved)
      | .error _ => retryEffect cfg reserved ps sid nodeId stage.computationalDemand second
    | _, _ => (none, b)

/-- The dispatch on its own, with the outcomes of its first and its second send. -/
def dispatchAlone (cfg : BrokerConfig) (b : Broker) (pid : PipelineId) (sid : StageId)
    (first second : Except PyError Unit) : Solo Broker WorkerMessage PyError :=
  ((dispatchStage cfg pid sid).alone ⟨b, [first, second], []⟩).2

/-- The dispatch has come to its end, and had this effect. -/
structure Leaves (pid : PipelineId) (sid : StageId) (effect : Option NodeId × Broker)
    (run : Option (Except PyError Unit) × Solo Broker WorkerMessage PyError) : Prop where
  ended : run.1 ≠ none
  delivered : deliveredTo pid sid run.2 = effect.1
  loads : ∀ n, run.2.state.loadOf n = effect.2.loadOf n

theorem loadOf_congr {b b' : Broker} (h : b.workers = b'.workers) (n : NodeId) :
    b.loadOf n = b'.loadOf n := by
  unfold Broker.loadOf
  rw [h]

theorem alone_getPipeline {s : Solo Broker WorkerMessage PyError}
    (hps : s.state.pipelines.get? pid = some ps) :
    (getPipeline pid).alone s = (some (.ok ps), s) := by
  have hsub : subscript s.state.pipelines pid = .ok ps := subscript_eq_ok_iff.mpr hps
  simp [getPipeline, hsub]

@[simp] theorem alone_dispatchExhausted (error : String) (s : Solo Broker WorkerMessage PyError) :
    (dispatchExhausted pid error).alone s =
      (some (.ok ()), { s with state := s.state.failPipeline pid error }) := rfl

/-- No send has succeeded, so nothing is delivered. -/
theorem deliveredTo_eq_none {s : Solo Broker WorkerMessage PyError}
    (h : ∀ e ∈ s.sends, e.2 ≠ .ok ()) : deliveredTo pid sid s = none := by
  unfold deliveredTo
  apply if_neg
  rintro ⟨e, he, hok⟩
  exact h e he hok

theorem leaves_exhausted {error : String} {replies : List (Except PyError Unit)}
    {sends : List (WorkerMessage × Except PyError Unit)} {b' : Broker}
    (hsends : ∀ e ∈ sends, e.2 ≠ .ok ()) (hb' : b'.workers = b.workers) :
    Leaves pid sid (none, updateWorkerLoad nodeId (-stage.computationalDemand) b)
      (some (.ok ()), ⟨(updateWorkerLoad nodeId (-stage.computationalDemand) b').failPipeline pid
        error, replies, sends⟩) where
  ended := by simp
  delivered := deliveredTo_eq_none hsends
  loads n := by
    calc _ = (updateWorkerLoad nodeId (-stage.computationalDemand) b').loadOf n := rfl
      _ = (updateWorkerLoad nodeId (-stage.computationalDemand) b).loadOf n := by
        simp only [loadOf_updateWorkerLoad, loadOf_congr hb']

/-- The part of the dispatch that follows a failed first send. -/
theorem alone_redispatch {payload : ExecuteRequest} {exc : PyError} {m : WorkerMessage}
    {second : Except PyError Unit} (hps : b.pipelines.get? pid = some ps) :
    Leaves pid sid (retryEffect cfg b ps sid nodeId stage.computationalDemand second)
      ((redispatch cfg pid sid nodeId stage payload exc).alone
        ⟨b, [second], [(m, .error exc)]⟩) := by
  have hretry : ∀ failures : Dict NodeId Nat,
      retryHost cfg { b with workerFailures := failures } ps sid = retryHost cfg b ps sid :=
    fun _ => rfl
  unfold redispatch retryEffect retryTarget
  simp only [Co.alone_bind, Co.alone_modify]
  rw [@alone_replan cfg pid ps sid _ hps]
  simp only [hretry]
  cases retryHost cfg b ps sid with
  | error e => exact ⟨by simp, deliveredTo_eq_none (by simp), fun _ => rfl⟩
  | ok host =>
    cases host with
    | none => exact leaves_exhausted (by simp) rfl
    | some n' =>
      have hplaced : (rehost pid sid n' { b with
          workerFailures := b.workerFailures.insert nodeId (b.workerFailures.getD nodeId 0 + 1) }
          ).pipelines.get? pid = some { ps with placement := ps.placement.insert sid n' } := by
        simp [rehost, Broker.get?_updatePipeline, hps]
      have hsub : subscript (ps.placement.insert sid n') sid = .ok n' :=
        subscript_eq_ok_iff.mpr (Dict.get?_insert_self ..)
      simp only [Except.map, if_true, Co.alone_bind, Co.alone_ofExcept, Co.alone_read]
      rw [alone_getPipeline hplaced]
      simp only [hsub, rehost, Broker.workers_updatePipeline]
      cases hworker : b.workers.get? n' with
      | none =>
        have hnone : n' ∉ b.workers := Dict.get?_eq_none_iff.mp hworker
        simp only [Option.filter_some, hnone, decide_false, Bool.false_eq_true, if_false]
        exact leaves_exhausted (by simp) rfl
      | some worker =>
        have hmem : n' ∈ b.workers := Dict.mem_of_get?_eq_some hworker
        simp only [Option.filter_some, hmem, decide_true, if_true, Co.alone_bind, Co.alone_request]
        cases second with
        | error e => exact leaves_exhausted (by simp) rfl
        | ok u =>
          have hafter : (rehost pid sid n' { b with
              workerFailures := b.workerFailures.insert nodeId (b.workerFailures.getD nodeId 0 + 1) }
              ).pipelines.get? pid = some { ps with placement := ps.placement.insert sid n' } := hplaced
          refine ⟨by simp, ?_, fun _ => rfl⟩
          simp only [deliveredTo, Co.alone_pure, rehost] at hafter ⊢
          simp [hafter]

/-- A timestamp record does not touch the ledger. -/
theorem updateWorkerLoad_record (nodeId : NodeId) (delta : ℚ) (b : Broker) (r : TimestampRecord) :
    updateWorkerLoad nodeId delta (b.record r) = (updateWorkerLoad nodeId delta b).record r := by
  unfold updateWorkerLoad
  rw [Broker.workers_record]
  cases b.workers.get? nodeId <;> rfl

theorem Leaves.of_record {r : TimestampRecord} {demand : ℚ} {second : Except PyError Unit}
    {run : Option (Except PyError Unit) × Solo Broker WorkerMessage PyError}
    (h : Leaves pid sid (retryEffect cfg (b.record r) ps sid nodeId demand second) run) :
    Leaves pid sid (retryEffect cfg b ps sid nodeId demand second) run := by
  have htarget : retryTarget cfg (b.record r) ps sid = retryTarget cfg b ps sid := rfl
  unfold retryEffect at h ⊢
  rw [htarget, updateWorkerLoad_record] at h
  generalize retryTarget cfg b ps sid = target at h ⊢
  rcases target with e | _ | n' <;> cases second <;>
    exact ⟨h.ended, h.delivered, h.loads⟩

/-- What the dispatch leaves when the pipeline exists. -/
theorem alone_dispatchStage (first second : Except PyError Unit)
    (hps : b.pipelines.get? pid = some ps) :
    Leaves pid sid (dispatchEffect cfg b ps sid first second)
      ((dispatchStage cfg pid sid).alone ⟨b, [first, second], []⟩) := by
  unfold dispatchStage dispatchEffect
  rw [Co.alone_bind, alone_getPipeline hps]
  simp only [Co.alone_bind, Co.alone_ofExcept, Co.alone_read]
  cases hnode : ps.placement.get? sid with
  | none =>
    simp only [subscript, hnode]
    exact ⟨by simp, deliveredTo_eq_none (by simp), fun _ => rfl⟩
  | some nodeId =>
    simp only [subscript, hnode]
    cases hurl : dispatchUrl nodeId b with
    | none => exact ⟨by simp, deliveredTo_eq_none (by simp), fun _ => rfl⟩
    | some target =>
      obtain ⟨url, peerDispatch⟩ := target
      simp only [Co.alone_bind, Co.alone_ofExcept, Co.alone_read, Co.alone_modify,
        PipelineDAG.getStage, PipelineDAG.stage?, subscript]
      cases ps.dag.stages.get? sid with
      | none => exact ⟨by simp, deliveredTo_eq_none (by simp), fun _ => rfl⟩
      | some stage =>
        cases first with
        | ok u =>
          refine ⟨by simp, ?_, fun n => ?_⟩
          · simp [deliveredTo, hps, hnode]
          · simp only [Co.alone_request, Co.alone_pure, loadOf_updateWorkerLoad]
            rfl
        | error exc =>
          simp only [updateWorkerLoad_record, Co.alone_request]
          exact Leaves.of_record (alone_redispatch (by simpa using hps))

/-! ## The load effect -/

/-- When a retry leaves the ledger right: it cuts no load off at zero, and where it
is delivered, it goes to the host that carries the reservation. -/
def RetryHolds (cfg : BrokerConfig) (b : Broker) (ps : PipelineState) (sid : StageId)
    (nodeId : NodeId) (demand : ℚ) (second : Except PyError Unit) : Prop :=
  match retryTarget cfg (updateWorkerLoad nodeId demand b) ps sid, second with
  | .error _, _ => ∀ load ∈ b.loadOf nodeId, max 0 (load + demand) = load
  | .ok (some newNodeId), .ok _ =>
    if newNodeId = nodeId then ∀ load ∈ b.loadOf nodeId, 0 ≤ load + demand
    else demand = 0 ∧ ∀ load ∈ b.loadOf nodeId, 0 ≤ load
  | _, _ => ∀ load ∈ b.loadOf nodeId, 0 ≤ load ∧ 0 ≤ load + demand

/-- When a dispatch leaves the ledger right. -/
def ReservationHolds (cfg : BrokerConfig) (b : Broker) (ps : PipelineState) (sid : StageId)
    (first second : Except PyError Unit) : Prop :=
  match ps.placement.get? sid with
  | none => True
  | some nodeId =>
    match dispatchUrl nodeId b, ps.dag.stage? sid with
    | some _, some stage =>
      match first with
      | .ok _ => ∀ load ∈ b.loadOf nodeId, 0 ≤ load + stage.computationalDemand
      | .error _ => RetryHolds cfg b ps sid nodeId stage.computationalDemand second
    | _, _ => True

/-- The demand of a stage of a pipeline. -/
def stageDemand (ps : PipelineState) (sid : StageId) : ℚ :=
  ((ps.dag.stage? sid).map (·.computationalDemand)).getD 0

theorem Leaves.loadExact_iff {effect : Option NodeId × Broker} {demand : ℚ}
    {run : Option (Except PyError Unit) × Solo Broker WorkerMessage PyError}
    (h : Leaves pid sid effect run) :
    LoadExact b run.2.state demand (deliveredTo pid sid run.2) ↔
      LoadExact b effect.2 demand effect.1 := by
  unfold LoadExact
  rw [h.delivered]
  exact forall_congr' fun n => by rw [h.loads n]

theorem mem_workers_of_retryTarget {n' : NodeId} (h : retryTarget cfg b ps sid = .ok (some n')) :
    n' ∈ b.workers := by
  unfold retryTarget at h
  cases hhost : retryHost cfg b ps sid with
  | error e =>
    rw [hhost] at h
    cases h
  | ok host =>
    rw [hhost] at h
    have hfilter : host.filter (· ∈ b.workers) = some n' := Except.ok.inj h
    simpa using (Option.filter_eq_some_iff.mp hfilter).2

theorem retryEffect_loadExact_iff (nodeId : NodeId) (demand : ℚ) (second : Except PyError Unit) :
    LoadExact b (retryEffect cfg (updateWorkerLoad nodeId demand b) ps sid nodeId demand second).2
        demand (retryEffect cfg (updateWorkerLoad nodeId demand b) ps sid nodeId demand second).1 ↔
      RetryHolds cfg b ps sid nodeId demand second := by
  have hreserve := changesOnly_updateWorkerLoad nodeId demand b
  have hrelease := hreserve.trans (changesOnly_updateWorkerLoad nodeId (-demand) _)
  have hundone : LoadExact b _ demand none ↔
      ∀ load ∈ b.loadOf nodeId, 0 ≤ load ∧ 0 ≤ load + demand :=
    hrelease.loadExact_none_iff.trans (forall₂_congr fun load _ => by grind)
  have hmem : ∀ n', retryTarget cfg (updateWorkerLoad nodeId demand b) ps sid = .ok (some n') →
      n' ∈ b.workers := fun n' h => (mem_workers_updateWorkerLoad ..).mp (mem_workers_of_retryTarget h)
  unfold RetryHolds retryEffect
  generalize retryTarget cfg (updateWorkerLoad nodeId demand b) ps sid = target at hmem ⊢
  cases target with
  | error e => exact hreserve.loadExact_none_iff
  | ok host =>
    cases host with
    | none => exact hundone
    | some n' =>
      cases second with
      | error exc => exact hundone
      | ok u =>
        dsimp only
        split
        · next heq =>
          subst heq
          apply hreserve.loadExact_self_iff.trans
          exact forall₂_congr fun load _ => by grind
        · next hne =>
          apply (hreserve.loadExact_other_iff hne (hmem n' rfl)).trans
          apply and_congr_right
          intro hzero
          exact forall₂_congr fun load _ => by grind

/-- A dispatch on its own, whatever its sends return, has exactly the load effect
of its delivery if and only if the reservation holds. -/
theorem dispatchStage_loadExact_iff (cfg : BrokerConfig) (b : Broker) (pid : PipelineId)
    (ps : PipelineState) (sid : StageId) (first second : Except PyError Unit)
    (hps : b.pipelines.get? pid = some ps) :
    LoadExact b (dispatchAlone cfg b pid sid first second).state (stageDemand ps sid)
        (deliveredTo pid sid (dispatchAlone cfg b pid sid first second)) ↔
      ReservationHolds cfg b ps sid first second := by
  unfold dispatchAlone
  rw [(alone_dispatchStage first second hps).loadExact_iff]
  -- where nothing is sent, nothing is delivered and nothing has changed
  have hsame : LoadExact b b (stageDemand ps sid) none ↔ True := by simp [LoadExact]
  unfold dispatchEffect ReservationHolds stageDemand
  cases ps.placement.get? sid with
  | none => exact hsame
  | some nodeId =>
    dsimp only
    cases dispatchUrl nodeId b with
    | none => exact hsame
    | some url =>
      cases ps.dag.stage? sid with
      | none => exact hsame
      | some stage =>
        cases first with
        | error exc => exact retryEffect_loadExact_iff nodeId stage.computationalDemand second
        | ok u =>
          apply (changesOnly_updateWorkerLoad nodeId _ b).loadExact_self_iff.trans
          exact forall₂_congr fun load _ => by grind

private def retryPipeline : PipelineState where
  pipelineId := "p"
  pipelineType := "single"
  dag := .ofLists [⟨"a", "sense", 1, 1, none, none, none⟩] []
  placement := .ofList [("a", "w1")]

/-- A broker with one stage placed on `w1`, which has room for it only once. -/
private def retryBroker : Broker := rebuildTopology
  { workers := .ofList [("w1", ⟨"w1", "d1", "s1", 1, "http://w1", 0, 0⟩),
      ("w2", ⟨"w2", "d1", "s1", 4, "http://w2", 0, 0⟩)]
    pipelines := .ofList [("p", retryPipeline)]
    activePipelines := ["p"] }

private def retryConfig : BrokerConfig := { domainId := "d1", brokerId := "b1" }

theorem dispatchStage_loadExact_iff_first :
    LoadExact retryBroker (dispatchAlone retryConfig retryBroker "p" "a" (.ok ()) (.ok ())).state
        (stageDemand retryPipeline "a")
        (deliveredTo "p" "a" (dispatchAlone retryConfig retryBroker "p" "a" (.ok ()) (.ok ()))) ↔
      ReservationHolds retryConfig retryBroker retryPipeline "a" (.ok ()) (.ok ()) :=
  dispatchStage_loadExact_iff _ _ _ _ _ _ _ (by decide +kernel)

/-- The send to `w1` fails and the retry on `w2` succeeds: `w1` keeps the
reservation, and `w2` gets none. -/
theorem not_loadExact :
    ¬ ∀ (cfg : BrokerConfig) (b : Broker) (pid : PipelineId) (ps : PipelineState) (sid : StageId)
      (first second : Except PyError Unit), b.pipelines.get? pid = some ps →
        LoadExact b (dispatchAlone cfg b pid sid first second).state (stageDemand ps sid)
          (deliveredTo pid sid (dispatchAlone cfg b pid sid first second)) := by
  intro h
  have hw1 := h retryConfig retryBroker "p" retryPipeline "a"
    (.error (.transport "timeout")) (.ok ()) (by decide +kernel) "w1"
  revert hw1
  decide +kernel

end Dispatch
end NeuralBroker
end NeuralPubSub
