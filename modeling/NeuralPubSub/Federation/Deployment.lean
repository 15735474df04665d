-- SUMMARY: Brokers and workers on one network: every result comes home to the broker that handed out its stage.
import NeuralPubSub.Base.Network
import NeuralPubSub.Broker.Causality
import NeuralPubSub.Broker.KafkaTransport
import NeuralPubSub.Broker.StrayResults
import NeuralPubSub.Broker.SuccessFinal

open Base

/-!
# Deployments

The brokers of a federation with the workers of `src/worker/worker.py`. A worker
registers with one broker and posts its results there, unless the assignment says
where the result goes: the coordinator of a sharded oracle hands out stages to the
workers of its peers. Messages may be lost, repeated and overtaken.
-/

namespace NeuralPubSub

/-! ## Workers -/

/-- `WorkerConfig`, as far as registration and execution read it. -/
structure WorkerConfig where
  nodeId : NodeId
  domainId : DomainId
  sliceId : SliceId
  capacity : ℚ
  brokerUrl : String
  processingSpeed : ℚ := 1
  bidCostMs : ℚ := 0
  callbackUrl : String := ""
  deriving DecidableEq, Repr

/-- A result on its way to the broker at a base URL. -/
structure ResultPost where
  url : String
  result : StageResultRequest
  deriving DecidableEq, Repr

/-- The stage that is reported. -/
def ResultPost.key (p : ResultPost) : PipelineId × StageId :=
  (p.result.pipelineId, p.result.stageId)

namespace WorkerConfig

/-- `registration_payload`, as the broker gets it from `clientHost`. -/
def registrationPayload (c : WorkerConfig) (clientHost : String) : RegisterRequest where
  nodeId := c.nodeId
  domainId := c.domainId
  sliceId := c.sliceId
  capacity := c.capacity
  url := c.callbackUrl
  bidCostMs := c.bidCostMs * c.processingSpeed
  clientHost := clientHost

/-- The result of `execute_stage`, run between the two times. `error` is the exception
of the execution. -/
def executeStage (c : WorkerConfig) (assignment : ExecuteRequest) (startTime endTime : ℚ)
    (error : Option String) : StageResultRequest where
  pipelineId := assignment.pipelineId
  stageId := assignment.stageId
  nodeId := c.nodeId
  startTime := startTime
  endTime := endTime
  success := error.isNone
  error := error

/-- The `target_url` of `_report_result`. -/
def targetUrl (c : WorkerConfig) (resultUrl : String) : String :=
  rstripSlash (if resultUrl = "" then c.brokerUrl else resultUrl)

/-- One attempt of `_report_result`, which makes two at most. -/
def reportResult (c : WorkerConfig) (assignment : ExecuteRequest) (result : StageResultRequest) :
    ResultPost :=
  ⟨c.targetUrl (assignment.resultUrl.getD ""), result⟩

end WorkerConfig

/-- A worker and the host its requests come from. -/
structure WorkerSite where
  config : WorkerConfig
  clientHost : String := "127.0.0.1"
  deriving DecidableEq, Repr

namespace WorkerSite

def registration (w : WorkerSite) : RegisterRequest := w.config.registrationPayload w.clientHost

/-- The base URL that a broker learns when the worker registers. -/
def address (w : WorkerSite) : String := (w.registration.workerInfo 0).url

/-- The message, or the post that the sidecar makes of it, reaches the worker. -/
def Receives (w : WorkerSite) (m : WorkerMessage) : Prop :=
  m.overHttp = .http s!"{rstripSlash w.address}/execute" m.payload

end WorkerSite

theorem rstripSlash_rstripSlash (url : String) :
    rstripSlash (rstripSlash url) = rstripSlash url := by
  simp [rstripSlash, List.dropWhile_idempotent]

/-- Different base URLs have different endpoints. -/
theorem executeUrl_inj {u v : String} (h : s!"{u}/execute" = s!"{v}/execute") : u = v := by
  have hlist := congrArg String.toList h
  simp only [String.toList_append, List.append_cancel_right_eq] at hlist
  exact String.toList_inj.mp hlist

/-- A worker gets what is sent to its own address only. -/
theorem WorkerSite.Receives.address {w : WorkerSite} {cfg : BrokerConfig} {nodeId : NodeId}
    {url : String} {payload : ExecuteRequest}
    (h : w.Receives (workerMessage cfg nodeId url payload)) :
    rstripSlash url = rstripSlash w.address := by
  rw [WorkerSite.Receives, overHttp_workerMessage] at h
  exact executeUrl_inj (WorkerMessage.http.inj h).1

/-! ## Deployments -/

/-- The parties of a federation. A broker is reached under its own URL, and no two
workers listen at the same one. -/
structure Deployment (ι : Type) where
  kind : ι → BrokerKind
  cfg : ι → BrokerConfig
  /-- The broker that answers at a base URL. -/
  host : String → Option ι
  workers : NodeId → Option WorkerSite
  hosted : ∀ i, host (rstripSlash (NeuralBroker.selfUrl (cfg i))) = some i
  selfUrl_ne : ∀ i, rstripSlash (NeuralBroker.selfUrl (cfg i)) ≠ ""
  named : ∀ n, ∀ w ∈ workers n, w.config.nodeId = n
  distinct : ∀ n n', ∀ w ∈ workers n, ∀ w' ∈ workers n',
    rstripSlash w.address = rstripSlash w'.address → n = n'

namespace Deployment

variable {ι : Type} (D : Deployment ι)

/-- The registration is made by a worker that has the broker as its own. -/
def Registers (i : ι) (req : RegisterRequest) : Prop :=
  ∃ w ∈ D.workers req.nodeId, w.registration = req ∧
    D.host (rstripSlash w.config.brokerUrl) = some i

/-- What the wire brings: registrations of the broker's own workers, and results that
were posted to it. -/
def Brings (wire : List ResultPost) (i : ι) : Call → Prop
  | .register req => D.Registers i req
  | .result req => ∃ p ∈ wire, p.result = req ∧ D.host p.url = some i
  | _ => True

instance [DecidableEq ι] (wire : List ResultPost) (i : ι) : ∀ c, Decidable (D.Brings wire i c)
  | .register req => inferInstanceAs (Decidable (∃ w ∈ D.workers req.nodeId, w.registration = req ∧
      D.host (rstripSlash w.config.brokerUrl) = some i))
  | .result req => inferInstanceAs (Decidable (∃ p ∈ wire, p.result = req ∧ D.host p.url = some i))
  | .publish _ | .deregister _ | .dispatchStage _ _ | .healthCheck _ | .cachePeerWorkers _
  | .tick _ => isTrue trivial

/-- A worker that has got a message of the broker posts a result. -/
def Posts (sc : BrokerScene) (p : ResultPost) : Prop :=
  ∃ m ∈ sc.sent, ∃ n, ∃ w ∈ D.workers n, w.Receives m ∧ ∃ startTime endTime error,
    p = w.config.reportResult m.payload (w.config.executeStage m.payload startTime endTime error)

/-- Brokers under arbitrary faults, and their workers. -/
def protocol : Protocol ι Broker Call WorkerMessage PyError Response ResultPost where
  rules i := faultyRules (D.kind i) (D.cfg i)
  brings := D.Brings
  emits _ := D.Posts

instance (i : ι) : (D.protocol.rules i).DecidableRules :=
  inferInstanceAs (faultyRules (D.kind i) (D.cfg i)).DecidableRules

instance [DecidableEq ι] (wire : List ResultPost) (i : ι) (c : Call) :
    Decidable (D.protocol.brings wire i c) :=
  inferInstanceAs (Decidable (D.Brings wire i c))

end Deployment

/-! ## What a broker's messages ask for -/

section Sent

variable {kind : BrokerKind} {cfg : BrokerConfig} {sc₀ sc : BrokerScene}

/-- The message hands out a stage of a pipeline. Its result comes back because it says
so, or because the worker has registered here. -/
structure Answerable (cfg : BrokerConfig) (sc : BrokerScene) (m : WorkerMessage) : Prop where
  known : ∃ ps stage, sc.state.pipelines.get? m.payload.pipelineId = some ps ∧
    ps.dag.getStage m.payload.stageId = .ok stage
  returns : m.payload.resultUrl = some (rstripSlash (NeuralBroker.selfUrl cfg)) ∨
    m.payload.resultUrl = none ∧ ∃ req, Call.register req ∈ sc.started ∧
      m = workerMessage cfg req.nodeId (req.workerInfo 0).url m.payload

theorem Answerable.later {sc' : BrokerScene} {m : WorkerMessage} (h : Answerable cfg sc m)
    (hstep : BrokerStep kind cfg sc sc') : Answerable cfg sc' m where
  known := by
    obtain ⟨ps, stage, hps, hstage⟩ := h.known
    obtain ⟨ps', hps', hforward⟩ := hstep.later.pipelines _ ps hps
    exact ⟨ps', stage, hps', by rw [hforward.dag, hstage]⟩
  returns := h.returns.imp id fun hlocal => ⟨hlocal.1, hlocal.2.imp fun _ hreq =>
    ⟨hstep.before.started.subset hreq.1, hreq.2⟩⟩

/-- A dispatch that stays with the broker goes to a worker of its registry. -/
theorem registered_of_dispatchUrl {nodeId : NodeId} {url : String} {b : Broker}
    (h : dispatchUrl kind nodeId b = some (url, false)) :
    ∃ worker, b.workers.get? nodeId = some worker ∧ worker.url = url := by
  cases kind with
  | base | static =>
    obtain ⟨worker, hworker, heq⟩ := Option.map_eq_some_iff.mp h
    exact ⟨worker, hworker, (Prod.mk.inj heq).1⟩
  | neural =>
    rw [dispatchUrl, NeuralBroker.dispatchUrl] at h
    split at h
    · next worker hworker => exact ⟨worker, hworker, (Prod.mk.inj (Option.some.inj h)).1⟩
    · obtain ⟨_, -, heq⟩ := Option.map_eq_some_iff.mp h
      cases (Prod.mk.inj heq).2

/-- A registered worker is reached under the URL of its registration. -/
theorem Stationed.registered (h : Stationed kind sc) {nodeId : NodeId} {worker : WorkerInfo}
    (hworker : sc.state.workers.get? nodeId = some worker) (cfg : BrokerConfig)
    (payload : ExecuteRequest) : ∃ req, Call.register req ∈ sc.started ∧
      workerMessage cfg nodeId worker.url payload =
        workerMessage cfg req.nodeId (req.workerInfo 0).url payload := by
  obtain ⟨-, req, hcall, hid, -, -, hurl⟩ := h.workers nodeId worker hworker
  exact ⟨req, hcall, by rw [hid, hurl]⟩

theorem BrokerRun.answerable (hrun : BrokerRun kind cfg sc₀ sc) (horder : InOrder sc₀)
    (h : Stationed kind sc₀) (hsent : sc₀.sent = []) : ∀ m ∈ sc.sent, Answerable cfg sc m := by
  induction hrun with
  | refl => simp [hsent]
  | @tail sc₁ sc₂ hrun hstep ih =>
    have horder₁ : InOrder sc₁ := BrokerRun.inOrder hrun horder
    have hstationed : Stationed kind sc₁ := BrokerRun.stationed hrun h
    have hold : ∀ m ∈ sc₁.sent, Answerable cfg sc₂ m := fun m hm => (ih m hm).later hstep
    have hlater := hstep.later
    intro m hm
    cases hstep with
    | @sent pid ps sid nodeId url peerDispatch stage call found placed target known =>
      rcases List.mem_append.mp hm with hm | hm
      · exact hold m hm
      · obtain rfl := List.mem_singleton.mp hm
        obtain ⟨ps', hps', hforward⟩ := hlater.pipelines pid ps found
        constructor
        · rw [payload_workerMessage]
          refine ⟨ps', stage, ?_, ?_⟩
          · rw [show (executeRequest cfg ps sid stage _).pipelineId = pid from
              horder₁.named pid ps found, hps']
          · rw [hforward.dag]
            exact known
        · rw [payload_workerMessage]
          cases peerDispatch with
          | true => exact .inl rfl
          | false =>
            obtain ⟨worker, hworker, rfl⟩ := registered_of_dispatchUrl target
            exact .inr ⟨rfl, hstationed.registered hworker cfg _⟩
    | @resent pid ps sid nodeId worker m₀ found placed registered earlier pipeline stage =>
      rcases List.mem_append.mp hm with hm | hm
      · exact hold m hm
      · obtain rfl := List.mem_singleton.mp hm
        have hm₀ := ih m₀ earlier
        constructor
        · rw [payload_workerMessage]
          exact hm₀.known
        · rw [payload_workerMessage]
          refine hm₀.returns.imp id fun hlocal => ⟨hlocal.1, ?_⟩
          exact hstationed.registered registered cfg _
    | _ => exact hold m hm

end Sent

/-- What the broker takes: registrations of its own workers, and results of workers that
have got a message of it. -/
def Deployment.Admits {ι : Type} (D : Deployment ι) (i : ι) (sc : BrokerScene) : Call → Prop
  | .register req => D.Registers i req
  | .result req => ∃ p, D.Posts sc p ∧ p.result = req
  | _ => True

namespace Deployment

variable {ι : Type} {D : Deployment ι} {i : ι} {sc sc' : BrokerScene}

theorem Posts.later {p : ResultPost} (h : D.Posts sc p) (hbefore : sc.Before sc') :
    D.Posts sc' p := by
  obtain ⟨m, hm, hpost⟩ := h
  exact ⟨m, hbefore.sent.subset hm, hpost⟩

/-- A worker reports the stage that it was handed. -/
theorem Posts.handedOut {p : ResultPost} (h : D.Posts sc p) : p.key ∈ handedOut sc := by
  obtain ⟨m, hm, n, w, -, -, startTime, endTime, error, rfl⟩ := h
  exact List.mem_map_of_mem hm

theorem Admits.later {c : Call} (h : D.Admits i sc c) (hbefore : sc.Before sc') :
    D.Admits i sc' c := by
  cases c with
  | register req => exact h
  | result req => exact h.imp fun _ hpost => ⟨hpost.1.later hbefore, hpost.2⟩
  | _ => trivial

/-- The broker is in order, and has taken nothing else. -/
structure Admitted (D : Deployment ι) (i : ι) (sc : BrokerScene) : Prop extends InOrder sc where
  calls : ∀ c ∈ sc.started, D.Admits i sc c

theorem follows_admitted (D : Deployment ι) (i : ι) :
    Follows (D.kind i) (D.cfg i) (D.Admitted i) where
  step h hstep hstarted := ⟨h.toInOrder.step hstep, fun c hc =>
    (h.calls c (hstarted ▸ hc)).later hstep.before⟩
  takenUp := by
    intro sc c pre post h hpending
    have hbefore := Scene.Before.takenUp sc (pre ++ post) c
    refine ⟨⟨h.named, h.toInOrder.pending.dequeued hpending _⟩, fun c' hc' => ?_⟩
    rcases List.mem_append.mp hc' with hc' | hc'
    · exact (h.calls c' hc').later hbefore
    · obtain rfl := List.mem_singleton.mp hc'
      obtain ⟨pid, sid, rfl⟩ := h.toInOrder.pending c' (by simp [hpending])
      trivial
  inOrder h := h.toInOrder

theorem keeps_admitted (D : Deployment ι) (i : ι) :
    ((faultyRules (D.kind i) (D.cfg i)).provided (D.Admits i)).Keeps (D.Admitted i) := by
  refine (D.follows_admitted i).keeps fun {sc c} h _ hadmits => ?_
  have hbefore := Scene.Before.start sc c
  refine ⟨⟨h.named, h.pending⟩, fun c' hc' => ?_⟩
  rcases List.mem_append.mp hc' with hc' | hc'
  · exact (h.calls c' hc').later hbefore
  · obtain rfl := List.mem_singleton.mp hc'
    exact hadmits.later hbefore

/-- A broker that takes nothing else hands out stages whose results come back to it. -/
theorem posts_home (hadmitted : D.Admitted i sc) (hsent : ∀ m ∈ sc.sent, Answerable (D.cfg i) sc m)
    {p : ResultPost} (hp : D.Posts sc p) : D.host p.url = some i := by
  obtain ⟨m, hm, n, w, hw, hreceives, startTime, endTime, error, rfl⟩ := hp
  rw [WorkerConfig.reportResult, WorkerConfig.targetUrl]
  rcases (hsent m hm).returns with hhome | ⟨hnone, req, hcall, hmessage⟩
  · rw [hhome, Option.getD_some, if_neg (D.selfUrl_ne i), rstripSlash_rstripSlash]
    exact D.hosted i
  · rw [hnone, Option.getD_none, if_pos rfl]
    obtain ⟨own, hown, hreq, hhost⟩ := hadmitted.calls _ hcall
    have haddress : rstripSlash own.address = rstripSlash w.address := by
      rw [hmessage, ← hreq] at hreceives
      exact hreceives.address
    obtain rfl := D.distinct n req.nodeId w hw own hown haddress.symm
    obtain rfl := Option.some.inj (hw.symm.trans hown)
    exact hhost

theorem admitted_of_reachable (D : Deployment ι) {w w' : BrokerWorld} (hw : Booted w)
    (hr : ((faultyRules (D.kind i) (D.cfg i)).provided (D.Admits i)).Reachable w w') :
    D.Admitted i w'.scene :=
  (D.keeps_admitted i).reachable ⟨hw.inOrder, by simp [World.scene, hw.started]⟩ hw.tasks hr

theorem answerable_of_reachable (D : Deployment ι) {w w' : BrokerWorld} (hw : Booted w)
    (hr : ((faultyRules (D.kind i) (D.cfg i)).provided (D.Admits i)).Reachable w w') :
    ∀ m ∈ w'.scene.sent, Answerable (D.cfg i) w'.scene m :=
  (brokerRun_of_reachable hw.inOrder hw.tasks hr.of_provided).answerable hw.inOrder hw.stationed
    hw.sent

/-- Workers that have got a message report only what they have been handed. -/
theorem workerRules_of_admits (D : Deployment ι) {w w' : BrokerWorld}
    (hr : ((faultyRules (D.kind i) (D.cfg i)).provided (D.Admits i)).Reachable w w') :
    (workerRules (D.kind i) (D.cfg i)).Reachable w w' := by
  refine hr.provided_mono fun sc c hadmits => ?_
  cases c with
  | result req =>
    obtain ⟨p, hposts, rfl⟩ := hadmits
    exact fun _ => hposts.handedOut
  | _ => trivial

/-- The workers send the results home, so that each broker gets what it admits. -/
def contract (D : Deployment ι) {start : ι → BrokerWorld} (hstart : ∀ i, Booted (start i)) :
    D.protocol.Contract start where
  assumes := D.Admits
  guarantees i sc p := D.host p.url = some i ∧ D.Posts sc p
  lasting h hbefore := ⟨h.1, h.2.later hbefore⟩
  emits := by
    intro i w p hr hp
    have hhome := posts_home (D.admitted_of_reachable (hstart i) hr)
      (D.answerable_of_reachable (hstart i) hr) hp
    exact ⟨hhome, hp⟩
  brings := by
    intro n i c hwire hbrings
    cases c with
    | register req => exact hbrings
    | result req =>
      obtain ⟨p, hp, rfl, hhost⟩ := hbrings
      obtain ⟨j, hhome, hposts⟩ := hwire p hp
      obtain rfl := Option.some.inj (hhost.symm.trans hhome)
      exact ⟨p, hposts, rfl⟩
    | _ => trivial

end Deployment

/-- Where every completed stage was handed out, only stages of the DAG complete. -/
theorem Causal.noStrays {cfg : BrokerConfig} {sc : BrokerScene} (h : Causal cfg sc)
    (hsent : ∀ m ∈ sc.sent, Answerable cfg sc m) : NoStrays sc.state := by
  intro pid ps hps sid hsid
  obtain ⟨m, hm, hkey⟩ := List.mem_map.mp (h.completed pid ps hps sid hsid)
  obtain ⟨rfl, rfl⟩ := Prod.mk.inj hkey
  obtain ⟨ps', stage, hps', hstage⟩ := (hsent m hm).known
  obtain rfl := Option.some.inj (hps.symm.trans hps')
  by_contra hstray
  obtain ⟨e, he⟩ := getStage_error_iff.mpr hstray
  rw [hstage] at he
  cases he

/-- Results come home. Let brokers under arbitrary faults and their workers run on one
network that loses, repeats and reorders messages, with stages handed out to workers
of peers. Then every result on the wire is addressed to the broker that handed out its
stage, and no broker takes any other result. So each broker alone runs as if its
workers reported nothing but what it handed out, and completes only stages of its DAGs. -/
theorem results_comeHome {ι : Type} [DecidableEq ι] (D : Deployment ι) {start : ι → BrokerWorld}
    (hstart : ∀ i, Booted (start i))
    {n : Network ι Broker Call WorkerMessage PyError Response ResultPost}
    (hrun : D.protocol.Run { worlds := start } n) :
    (∀ p ∈ n.wire, ∃ i, D.host p.url = some i ∧ p.key ∈ handedOut (n.worlds i).scene) ∧
      ∀ i, (workerRules (D.kind i) (D.cfg i)).Reachable (start i) (n.worlds i) ∧
        (∀ req, Call.result req ∈ (n.worlds i).started →
          (req.pipelineId, req.stageId) ∈ handedOut (n.worlds i).scene) ∧
        NoStrays (n.worlds i).state := by
  obtain ⟨hparties, hwire⟩ := (D.contract hstart).run hrun
  refine ⟨fun p hp => ?_, fun i => ?_⟩
  · obtain ⟨i, hhost, hposts⟩ := hwire p hp
    exact ⟨i, hhost, hposts.handedOut⟩
  · have hworkers := D.workerRules_of_admits (hparties i)
    have hcausal := (hstart i).toFresh.causal_of_reachable (hstart i).sent hworkers
    refine ⟨hworkers, fun req hreq => ?_,
      hcausal.noStrays (D.answerable_of_reachable (hstart i) (hparties i))⟩
    obtain ⟨p, hposts, rfl⟩ := (D.admitted_of_reachable (hstart i) (hparties i)).calls _ hreq
    exact hposts.handedOut

private def borderConfig : Bool → BrokerConfig
  | true => { domainId := "d1", brokerId := "b1", selfUrl := "http://b1/" }
  | false => { domainId := "d2", brokerId := "b2" }

private def borderWorker : WorkerSite :=
  { config := {
      nodeId := "w2", domainId := "d2", sliceId := "s1", capacity := 4
      brokerUrl := "http://b2:8080/", callbackUrl := "http://w2:9000" } }

/-- The coordinator `true`, and a peer with the only worker. -/
def borderDeployment : Deployment Bool where
  kind _ := .neural
  cfg := borderConfig
  host url :=
    if url = "http://b1" then some true
    else if url = "http://b2:8080" then some false
    else none
  workers n := if n = "w2" then some borderWorker else none
  hosted := by decide +kernel
  selfUrl_ne := by decide +kernel
  named n w hw := by
    split at hw
    · next heq =>
      obtain rfl := Option.some.inj hw
      exact heq.symm
    · cases hw
  distinct n n' w hw w' hw' _ := by
    split at hw
    · split at hw'
      · next heq heq' => rw [heq, heq']
      · cases hw'
    · cases hw

private def borderPipeline : PlacedPipeline :=
  ⟨"p", "chain", .ofLists [⟨"a", "sense", 1, 1, none, none, none⟩] [], .ofList [("a", "w2")],
    ⟨[⟨"w2", "d2", "s1", 4, 0, none⟩], .empty⟩⟩

private def borderPayload : ExecuteRequest :=
  ⟨"p", "a", "sense", 1, "b1", "chain", some "http://b1"⟩

def borderPost : ResultPost :=
  borderWorker.config.reportResult borderPayload
    (borderWorker.config.executeStage borderPayload 1 2 none)

/-- The coordinator hands a stage to the worker of its peer, and gets the result. -/
theorem border_run :
    ∃ n, borderDeployment.protocol.Run { worlds := fun _ => { state := {} } } n ∧
      n.wire = [borderPost] ∧
      (n.worlds true).state.metrics.showsSuccess "p" = true ∧
      (n.worlds true).state.Succeeded "p" := by
  have hregistered : ((borderDeployment.protocol.rulesAt [] false).performAll
      [.call (.register borderWorker.registration)] { state := {} }).isSome := by decide +kernel
  have hrun : ∃ w, (borderDeployment.protocol.rulesAt [] true).performAll
        [.call (.cachePeerWorkers (.ofList [("w2", borderWorker.address)])),
          .call (.publish borderPipeline), .start 2] { state := {} } = some w ∧
      w.sent = [.http "http://w2:9000/execute" borderPayload] ∧
      ∃ w', (borderDeployment.protocol.rulesAt [borderPost] true).performAll
          [.reply 2 (.ok ()), .call (.result borderPost.result)] w = some w' ∧
        w'.state.metrics.showsSuccess "p" = true ∧ w'.state.Succeeded "p" := by decide +kernel
  obtain ⟨v, hv⟩ := Option.isSome_iff_exists.mp hregistered
  obtain ⟨w, hw, hsent, w', hw', hsuccess⟩ := hrun
  let start : Bool → BrokerWorld := fun _ => { state := {} }
  let handed := Function.update (Function.update start false v) true w
  have hregister : borderDeployment.protocol.Run { worlds := start }
      { worlds := Function.update start false v } :=
    Protocol.run_of_reachable _ (i := false) (Rules.reachable_of_performAll _ hv)
  have hdispatch : borderDeployment.protocol.Run { worlds := Function.update start false v }
      { worlds := handed } :=
    Protocol.run_of_reachable _ (i := true) (Rules.reachable_of_performAll _ hw)
  have hposts : borderDeployment.Posts w.scene borderPost := by
    refine ⟨.http "http://w2:9000/execute" borderPayload, ?_, "w2", borderWorker, rfl, ?_,
      1, 2, none, rfl⟩
    · rw [show w.scene.sent = _ from hsent]
      exact List.mem_singleton_self _
    · unfold WorkerSite.Receives
      decide +kernel
  have hpost : borderDeployment.protocol.Step { worlds := handed }
      { worlds := handed, wire := [borderPost] } := .emitted true hposts
  have hresult : borderDeployment.protocol.Run { worlds := handed, wire := [borderPost] }
      { worlds := Function.update handed true w', wire := [borderPost] } :=
    Protocol.run_of_reachable _ (i := true) (Rules.reachable_of_performAll _ hw')
  exact ⟨_, ((hregister.trans hdispatch).tail hpost).trans hresult, rfl, hsuccess⟩

theorem results_comeHome_border :
    ∃ n, borderDeployment.protocol.Run { worlds := fun _ => { state := {} } } n ∧
      n.wire = [borderPost] ∧
      (∀ p ∈ n.wire, ∃ i, borderDeployment.host p.url = some i ∧
        p.key ∈ handedOut (n.worlds i).scene) ∧
      ∀ i, (workerRules (borderDeployment.kind i) (borderDeployment.cfg i)).Reachable
          { state := {} } (n.worlds i) ∧
        (∀ req, Call.result req ∈ (n.worlds i).started →
          (req.pipelineId, req.stageId) ∈ handedOut (n.worlds i).scene) ∧
        NoStrays (n.worlds i).state := by
  obtain ⟨n, hrun, hwire, -⟩ := border_run
  exact ⟨n, hrun, hwire, results_comeHome borderDeployment (fun _ => booted_initial) hrun⟩

/-! ## Executed stages -/

section Executed

variable {ι : Type} {D : Deployment ι} {i : ι} {sc : BrokerScene}

/-- A worker has run the stage without an exception on a message of the broker, which
has taken the result. -/
def Deployment.Executed (D : Deployment ι) (sc : BrokerScene) (pid : PipelineId) (sid : StageId) :
    Prop :=
  ∃ m ∈ sc.sent, m.key = (pid, sid) ∧ ∃ n, ∃ w ∈ D.workers n, w.Receives m ∧
    ∃ startTime endTime,
      Call.result (w.config.executeStage m.payload startTime endTime none) ∈ sc.started

/-- A success that the broker is told of is that of a worker. -/
theorem Deployment.Admitted.executed (h : D.Admitted i sc) {req : StageResultRequest}
    (hcall : Call.result req ∈ sc.started) (hsuccess : req.success = true) :
    D.Executed sc req.pipelineId req.stageId := by
  obtain ⟨p, ⟨m, hm, n, w, hw, hreceives, startTime, endTime, error, rfl⟩, rfl⟩ := h.calls _ hcall
  obtain rfl : error = none := Option.isNone_iff_eq_none.mp hsuccess
  exact ⟨m, hm, rfl, n, w, hw, hreceives, startTime, endTime, hcall⟩

/-- What a broker reports as a success has been done. In every run of the deployment a
pipeline with a successful trace was published at that broker, and every stage of its
DAG was run by a worker that had the stage from this broker. -/
theorem success_isExecuted [DecidableEq ι] (D : Deployment ι) {start : ι → BrokerWorld}
    (hstart : ∀ i, Booted (start i))
    {n : Network ι Broker Call WorkerMessage PyError Response ResultPost}
    (hrun : D.protocol.Run { worlds := start } n) {i : ι} {pid : PipelineId} {trace : PipelineTrace}
    (htrace : (n.worlds i).state.metrics.traces.get? pid = some trace)
    (hsuccess : trace.success = true) :
    ∃ req, Call.publish req ∈ (n.worlds i).started ∧ req.pipelineId = pid ∧
      ∀ sid ∈ req.dag.stages, D.Executed (n.worlds i).scene pid sid := by
  have hparty := ((D.contract hstart).run hrun).1 i
  have hadmitted := D.admitted_of_reachable (hstart i) hparty
  have hsteps := brokerRun_of_reachable (hstart i).inOrder (hstart i).tasks hparty.of_provided
  obtain ⟨req, ps, hcall, hid, hps, hall⟩ :=
    hsteps.published_of_success (hstart i).fullyTraced (hstart i).pipelines htrace hsuccess
  refine ⟨req, hcall, hid, fun sid hsid => ?_⟩
  obtain ⟨report, hreport, hsucceeded, rfl, rfl⟩ :=
    hsteps.reported_of_completed (hstart i).pipelines hps (hall sid hsid)
  exact hadmitted.executed hreport hsucceeded

theorem success_isExecuted_border :
    ∃ n trace, borderDeployment.protocol.Run { worlds := fun _ => { state := {} } } n ∧
      (n.worlds true).state.metrics.traces.get? "p" = some trace ∧ trace.success = true ∧
      ∃ req, Call.publish req ∈ (n.worlds true).started ∧ req.pipelineId = "p" ∧
        ∀ sid ∈ req.dag.stages, borderDeployment.Executed (n.worlds true).scene "p" sid := by
  obtain ⟨n, hrun, -, hshown, -⟩ := border_run
  obtain ⟨trace, htrace, hsuccess⟩ := (Option.any_eq_true ..).mp hshown
  exact ⟨n, trace, hrun, htrace, hsuccess,
    success_isExecuted borderDeployment (fun _ => booted_initial) hrun htrace hsuccess⟩

end Executed

end NeuralPubSub
