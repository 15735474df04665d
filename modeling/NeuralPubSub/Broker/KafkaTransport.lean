-- SUMMARY: The two transports compared: a broker that sends through Kafka and the sidecar does what one that posts does.
import NeuralPubSub.Base.MapMessages
import NeuralPubSub.Broker.Isolation
import NeuralPubSub.Broker.KafkaConsumer

open Base

/-!
# Two transports

A broker hands a stage to a worker with a post, or with a record on the topic of the
pipeline type, which the sidecar turns into the post. The handlers differ in the
message only, so both brokers have the same runs, and what the sidecar posts for a
broker is what the broker would have posted itself.
-/

namespace NeuralPubSub

/-! ## The broker -/

/-- The same broker with the transport `"http"`. -/
def BrokerConfig.overHttp (cfg : BrokerConfig) : BrokerConfig := { cfg with transport := .http }

/-- The post that a message comes down to. -/
def WorkerMessage.overHttp : WorkerMessage → WorkerMessage
  | .http url payload => .http url payload
  | .kafka _ _ targetUrl payload => .http s!"{rstripSlash targetUrl}/execute" payload

theorem overHttp_workerMessage (cfg : BrokerConfig) (nodeId : NodeId) (url : String)
    (payload : ExecuteRequest) :
    (workerMessage cfg nodeId url payload).overHttp = workerMessage cfg.overHttp nodeId url payload := by
  unfold workerMessage
  cases cfg.transport <;> rfl

/-- A program that sends the same messages over HTTP. -/
def Posts {α : Type} (c c' : BrokerM α) : Prop := c.mapMessages WorkerMessage.overHttp = c'

section Handlers

variable {α β : Type} {cfg : BrokerConfig}

theorem posts_bind {c c' : BrokerM α} {k k' : α → BrokerM β} (hc : Posts c c')
    (hk : ∀ a, Posts (k a) (k' a)) : Posts (c >>= k) (c' >>= k') := by
  rw [Posts, Co.mapMessages_bind, hc]
  exact congrArg _ (funext hk)

theorem posts_forEach {l : List α} {f f' : α → BrokerM Unit} (h : ∀ x, Posts (f x) (f' x)) :
    Posts (Co.forEach l f) (Co.forEach l f') := by
  rw [Posts, Co.mapMessages_forEach]
  exact congrArg _ (funext h)

theorem posts_request (nodeId : NodeId) (url : String) (payload : ExecuteRequest) :
    Posts (Co.request (workerMessage cfg nodeId url payload))
      (Co.request (workerMessage cfg.overHttp nodeId url payload)) := by
  rw [Posts, Co.mapMessages_request, overHttp_workerMessage]

theorem posts_ofExcept (x : Except PyError α) : Posts (Co.ofExcept x) (Co.ofExcept x) :=
  Co.mapMessages_ofExcept _ x

theorem posts_getPipeline (pid : PipelineId) : Posts (getPipeline pid) (getPipeline pid) :=
  posts_bind rfl fun _ => posts_ofExcept _

theorem posts_failAndComplete (pid : PipelineId) (error : String) :
    Posts (failAndComplete pid error) (failAndComplete pid error) :=
  posts_bind rfl fun _ => rfl

theorem posts_dispatchReadyStages (pid : PipelineId) :
    Posts (dispatchReadyStages cfg pid) (dispatchReadyStages cfg pid) := by
  refine posts_bind (posts_getPipeline pid) fun ps => ?_
  split
  · rfl
  · refine posts_bind rfl fun now => posts_bind rfl fun dead => posts_bind rfl fun _ => ?_
    split
    · exact posts_failAndComplete pid _
    · split
      · rfl
      · exact posts_bind rfl fun _ => Co.mapMessages_gatherAll _ _

theorem posts_completeOrAdvance (req : StageResultRequest) :
    Posts (completeOrAdvance cfg req) (completeOrAdvance cfg req) := by
  refine posts_bind (posts_getPipeline _) fun ps => ?_
  split
  · rfl
  · split
    · rfl
    · exact posts_bind (posts_dispatchReadyStages _) fun _ => rfl

/-! ### Recovery -/

theorem posts_replaceStagesOf {replan replan' : PipelineId → List StageId → BrokerM Bool}
    (hreplan : ∀ pid stages, Posts (replan pid stages) (replan' pid stages)) (nodeId : NodeId)
    (pid : PipelineId) :
    Posts (replaceStagesOf cfg replan nodeId pid) (replaceStagesOf cfg replan' nodeId pid) := by
  refine posts_bind (posts_getPipeline pid) fun ps => ?_
  split
  · rfl
  · refine posts_bind ?_ fun replaced => ?_
    · unfold replaceUnlessNone
      split
      · rfl
      · exact hreplan pid _
    · split
      · exact posts_dispatchReadyStages pid
      · exact posts_failAndComplete pid _

theorem posts_healthCheck {replan replan' : PipelineId → List StageId → BrokerM Bool}
    (hreplan : ∀ pid stages, Posts (replan pid stages) (replan' pid stages))
    (onChange : Broker → Broker) (limit : Nat) (sync : ProbeResult → Broker → Broker)
    (results : List ProbeResult) :
    Posts (healthCheck onChange (replaceFailedStages cfg replan) limit sync results)
      (healthCheck onChange (replaceFailedStages cfg replan') limit sync results) := by
  refine posts_bind rfl fun dead => posts_forEach fun nodeId => ?_
  refine posts_bind rfl fun _ => posts_bind rfl fun _ => ?_
  exact posts_bind rfl fun affected => posts_forEach (posts_replaceStagesOf hreplan nodeId)

theorem posts_replaceAll (pid : PipelineId) (stages : List StageId) :
    Posts (StaticBroker.replaceAll cfg pid stages) (StaticBroker.replaceAll cfg.overHttp pid stages) := by
  induction stages with
  | nil => rfl
  | cons sid rest ih =>
    refine posts_bind (posts_bind (posts_getPipeline pid) fun ps => ?_) fun replaced => ?_
    · refine posts_bind (posts_ofExcept _) fun stage => posts_bind rfl fun picked => ?_
      rcases picked with (_ | _ | _ | _ | _ | _ | _) | nodeId <;> rfl
    · split
      · exact ih
      · rfl

theorem posts_staticReplan (pid : PipelineId) (stages : List StageId) :
    Posts (StaticBroker.replan cfg pid stages) (StaticBroker.replan cfg.overHttp pid stages) := by
  refine posts_bind rfl fun keys => ?_
  split
  · rfl
  · exact posts_replaceAll pid stages

theorem posts_neuralReplan (pid : PipelineId) (stages : List StageId) :
    Posts (NeuralBroker.replan cfg pid stages) (NeuralBroker.replan cfg pid stages) := by
  refine posts_bind rfl fun topology => ?_
  split
  · rfl
  · refine posts_bind (posts_getPipeline pid) fun ps => ?_
    split
    · refine posts_bind (posts_forEach fun sid => ?_) fun _ => rfl
      exact posts_bind (posts_ofExcept _) fun nodeId => rfl
    · rfl
    · rfl

/-! ### Dispatch -/

theorem posts_staticDispatchStage (pid : PipelineId) (sid : StageId) :
    Posts (StaticBroker.dispatchStage cfg pid sid) (StaticBroker.dispatchStage cfg.overHttp pid sid) := by
  refine posts_bind (posts_getPipeline pid) fun ps => posts_bind (posts_ofExcept _) fun nodeId => ?_
  refine posts_bind rfl fun worker => ?_
  cases worker with
  | none => exact posts_failAndComplete pid _
  | some worker =>
    refine posts_bind (posts_ofExcept _) fun stage => posts_bind rfl fun now => posts_bind rfl fun _ => ?_
    refine posts_bind (posts_request nodeId worker.url _) fun reply => ?_
    cases reply with
    | ok => rfl
    | error exc =>
      refine posts_bind rfl fun _ => posts_bind (posts_staticReplan pid [sid]) fun replaced => ?_
      split
      · refine posts_bind (posts_getPipeline pid) fun ps' => ?_
        refine posts_bind (posts_ofExcept _) fun newNodeId => posts_bind rfl fun newWorker => ?_
        cases newWorker with
        | none => rfl
        | some newWorker =>
          refine posts_bind (posts_request newNodeId newWorker.url _) fun reply => ?_
          cases reply <;> rfl
      · rfl

theorem posts_neuralDispatchStage (pid : PipelineId) (sid : StageId) :
    Posts (NeuralBroker.dispatchStage cfg pid sid) (NeuralBroker.dispatchStage cfg.overHttp pid sid) := by
  refine posts_bind (posts_getPipeline pid) fun ps => posts_bind (posts_ofExcept _) fun nodeId => ?_
  refine posts_bind rfl fun target => ?_
  rcases target with _ | ⟨url, peerDispatch⟩
  · rfl
  · refine posts_bind (posts_ofExcept _) fun stage => posts_bind rfl fun now => posts_bind rfl fun _ => ?_
    refine posts_bind rfl fun _ => posts_bind (posts_request nodeId url _) fun reply => ?_
    cases reply with
    | ok => rfl
    | error exc =>
      refine posts_bind rfl fun _ => posts_bind (posts_neuralReplan pid [sid]) fun replaced => ?_
      split
      · refine posts_bind (posts_getPipeline pid) fun ps' => ?_
        refine posts_bind (posts_ofExcept _) fun newNodeId => posts_bind rfl fun newWorker => ?_
        cases newWorker with
        | none => rfl
        | some newWorker =>
          refine posts_bind (posts_request newNodeId newWorker.url _) fun reply => ?_
          cases reply <;> rfl
      · rfl

/-- Every handler sends the same messages over HTTP. The base broker alone tells in its
errors how it sends. -/
theorem posts_brokerBody {kind : BrokerKind} (hkind : kind ≠ .base) (c : Call) :
    Posts (brokerBody kind cfg c) (brokerBody kind cfg.overHttp c) := by
  cases kind with
  | base => exact absurd rfl hkind
  | static =>
    cases c with
    | publish req =>
      exact posts_bind rfl fun _ => posts_bind (posts_dispatchReadyStages _) fun _ => rfl
    | register | cachePeerWorkers | tick => rfl
    | deregister nodeId =>
      refine posts_bind rfl fun workers => ?_
      split <;> rfl
    | result req =>
      refine posts_bind rfl fun now => posts_bind rfl fun _ => posts_bind rfl fun active => ?_
      cases active with
      | none => rfl
      | some ps =>
        exact posts_bind rfl fun _ => posts_bind rfl fun _ => posts_bind rfl fun _ =>
          posts_completeOrAdvance req
    | dispatchStage pid sid => exact posts_bind (posts_staticDispatchStage pid sid) fun _ => rfl
    | healthCheck results =>
      have hround : Posts (StaticBroker.healthCheck cfg results)
          (StaticBroker.healthCheck cfg.overHttp results) := posts_healthCheck posts_staticReplan ..
      exact posts_bind hround fun _ => rfl
  | neural =>
    cases c with
    | publish req =>
      refine posts_bind rfl fun _ => posts_bind (posts_ofExcept _) fun _ => ?_
      exact posts_bind (posts_dispatchReadyStages _) fun _ => rfl
    | register | cachePeerWorkers | tick => rfl
    | deregister nodeId =>
      refine posts_bind rfl fun workers => ?_
      split <;> rfl
    | result req =>
      refine posts_bind rfl fun now => posts_bind rfl fun _ => posts_bind rfl fun active => ?_
      cases active with
      | none => rfl
      | some ps =>
        refine posts_bind rfl fun _ => posts_bind rfl fun _ => posts_bind rfl fun _ => ?_
        exact posts_bind (posts_ofExcept _) fun stage => posts_bind rfl fun _ =>
          posts_completeOrAdvance req
    | dispatchStage pid sid => exact posts_bind (posts_neuralDispatchStage pid sid) fun _ => rfl
    | healthCheck results =>
      have hround : Posts (NeuralBroker.healthCheck cfg results)
          (NeuralBroker.healthCheck cfg.overHttp results) := posts_healthCheck posts_neuralReplan ..
      exact posts_bind hround fun _ => rfl

end Handlers

/-! ## Runs -/

theorem sameBut_overHttp {kind : BrokerKind} (hkind : kind ≠ .base) (cfg : BrokerConfig) :
    Rules.SameBut WorkerMessage.overHttp (faultyRules kind cfg) (faultyRules kind cfg.overHttp) where
  body c := (posts_brokerBody hkind c).symm
  mayCall _ c := by cases c <;> rfl
  mayReply _ _ _ := Iff.rfl
  mayStart _ _ := Iff.rfl
  mayJoin _ _ _ := Iff.rfl

theorem Booted.overHttp {w : BrokerWorld} (h : Booted w) :
    w.mapMessages WorkerMessage.overHttp = w := by
  rcases w with ⟨state, pending, tasks, started, sent, finished, nextId⟩
  obtain rfl : sent = [] := h.sent
  obtain rfl : tasks = [] := h.tasks
  rfl

/-- A run through Kafka is, with the posts that its records stand for, a run over HTTP. -/
theorem Booted.reachable_overHttp {kind : BrokerKind} (hkind : kind ≠ .base) {cfg : BrokerConfig}
    {w w' : BrokerWorld} (hw : Booted w) (hr : (faultyRules kind cfg).Reachable w w') :
    (faultyRules kind cfg.overHttp).Reachable w (w'.mapMessages WorkerMessage.overHttp) := by
  have hposts := ((sameBut_overHttp hkind cfg).reachable_iff w _).mpr ⟨w', hr, rfl⟩
  rwa [hw.overHttp] at hposts

/-- The transport makes no difference to a static or a neural broker: the runs of the
broker that posts are the runs of the one that sends through Kafka, through the same
states and with the same calls, failures and answers, with a post for every record. -/
theorem reachable_overHttp_iff {kind : BrokerKind} (hkind : kind ≠ .base) {cfg : BrokerConfig}
    {w : BrokerWorld} (hw : Booted w) (v : BrokerWorld) :
    (faultyRules kind cfg.overHttp).Reachable w v ↔
      ∃ w', (faultyRules kind cfg).Reachable w w' ∧ v = w'.mapMessages WorkerMessage.overHttp := by
  have hiff := (sameBut_overHttp hkind cfg).reachable_iff w v
  rwa [hw.overHttp] at hiff

private def ferryDag : PipelineDAG := .ofLists [⟨"a", "sense", 1, 1, some "embb", none, none⟩] []

private def ferryConfig : BrokerConfig := { domainId := "d1", brokerId := "b1", transport := .kafka }

private def ferryCalls : List Call :=
  [.register ⟨"w1", "d1", "embb", 4, "http://w1/", 0, ""⟩,
    .publish ⟨"p", "sensor_fusion", ferryDag, .ofList [("a", "w1")], ⟨[], .empty⟩⟩]

private def ferryMoves : List (Base.Move Call PyError) := ferryCalls.map .call ++ [.start 2]

private def ferryPayload : ExecuteRequest := ⟨"p", "a", "sense", 1, "b1", "sensor_fusion", none⟩

/-- A stage that the broker has sent through Kafka. -/
theorem reachable_overHttp_iff_ferry :
    ∃ v, (faultyRules .static ferryConfig.overHttp).Reachable { state := {} } v ∧
      v.sent = [.http "http://w1/execute" ferryPayload] := by
  have hrun : ∃ w', (faultyRules .static ferryConfig).performAll ferryMoves { state := {} } = some w' ∧
      w'.sent.map WorkerMessage.overHttp = [.http "http://w1/execute" ferryPayload] := by
    decide +kernel
  obtain ⟨w', hw', hsent⟩ := hrun
  have hr := Rules.reachable_of_performAll _ hw'
  have hkind : BrokerKind.static ≠ .base := by decide
  exact ⟨_, (reachable_overHttp_iff hkind booted_initial _).mpr ⟨w', hr, rfl⟩, hsent⟩

/-! ## What the sidecar posts -/

/-- The record on the topic of the pipeline type, as the sidecar reads it. -/
def WorkerMessage.record? : WorkerMessage → Option (String × Assignment (NodeId × ExecuteRequest))
  | .http _ _ => none
  | .kafka topic targetWorker targetUrl payload =>
    some (topic, ⟨.text targetUrl, (targetWorker, payload)⟩)

/-- What the worker reads of a post. -/
def StagePost.message (p : StagePost (NodeId × ExecuteRequest)) : WorkerMessage :=
  .http p.executeUrl p.body.2

/-- The post that an assignment asks for. -/
def Assignment.message (a : Assignment (NodeId × ExecuteRequest)) : WorkerMessage :=
  let url := a.target?.getD ""
  .http s!"{rstripSlash url}/execute" a.body.2

@[simp] theorem target?_text {β : Type} (url : String) (body : β) :
    (⟨.text url, body⟩ : Assignment β).target?.getD "" = url := by
  simp only [Assignment.target?]
  split
  · next hempty => exact hempty.symm
  · rfl

/-- Kafka delivers nothing but what was sent on a topic that the sidecar subscribes to. It
may lose, repeat and reorder records. -/
def Delivers (sent : List WorkerMessage)
    (events : List (SidecarEvent (NodeId × ExecuteRequest))) : Prop :=
  ∀ a ∈ assignmentsOf events, ∃ m ∈ sent, ∃ topic ∈ experimentTopics, m.record? = some (topic, a)

/-- Whoever has told the broker of the node has given a URL. -/
theorem KnownAt.url_ne {started : List Call} {nodeId : NodeId} {url : String}
    (h : KnownAt started nodeId url)
    (hpeers : ∀ urls, Call.cachePeerWorkers urls ∈ started → "" ∉ urls.values) : url ≠ "" := by
  rcases h with ⟨req, -, -, rfl⟩ | ⟨urls, hcall, hget⟩
  · unfold RegisterRequest.workerInfo
    dsimp only
    split
    · intro hempty
      have hlength := congrArg String.length hempty
      simp only [String.length_append, String.length_empty, Nat.add_eq_zero_iff] at hlength
      exact absurd hlength.2 (by decide)
    · next hne => exact hne
  · rintro rfl
    exact hpeers urls hcall (List.mem_map.mpr ⟨_, Dict.get?_eq_some_iff.mp hget, rfl⟩)

section Sent

variable {kind : BrokerKind} {cfg : BrokerConfig} {sc₀ sc : BrokerScene}

/-- Every message goes to a node at a URL under which the broker has been told of it. -/
theorem BrokerRun.addressed (hrun : BrokerRun kind cfg sc₀ sc) (h : Stationed kind sc₀)
    (hsent : sc₀.sent = []) : ∀ m ∈ sc.sent, ∃ nodeId url,
      m = workerMessage cfg nodeId url m.payload ∧ KnownAt sc.started nodeId url := by
  induction hrun with
  | refl => simp [hsent]
  | @tail sc₁ sc₂ hrun hstep ih =>
    have hstationed : Stationed kind sc₁ := BrokerRun.stationed hrun h
    have hold : ∀ m ∈ sc₁.sent, ∃ nodeId url,
        m = workerMessage cfg nodeId url m.payload ∧ KnownAt sc₂.started nodeId url := by
      intro m hm
      obtain ⟨nodeId, url, hmessage, hknown⟩ := ih m hm
      exact ⟨nodeId, url, hmessage, hknown.mono hstep.before.started.subset⟩
    intro m hm
    cases hstep with
    | @sent pid ps sid nodeId url peerDispatch stage call found placed target known =>
      rcases List.mem_append.mp hm with hm | hm
      · exact hold m hm
      · obtain rfl := List.mem_singleton.mp hm
        exact ⟨nodeId, url, by rw [payload_workerMessage], hstationed.target target⟩
    | @resent pid ps sid nodeId worker m₀ found placed registered =>
      rcases List.mem_append.mp hm with hm | hm
      · exact hold m hm
      · obtain rfl := List.mem_singleton.mp hm
        exact ⟨nodeId, worker.url, by rw [payload_workerMessage],
          (hstationed.workers nodeId worker registered).known⟩
    | _ => exact hold m hm

end Sent

/-- What Kafka delivers of the messages sent is an assignment with the URL of its worker. -/
theorem record?_workerMessage {cfg : BrokerConfig} {nodeId : NodeId} {url topic : String}
    {payload : ExecuteRequest} {a : Assignment (NodeId × ExecuteRequest)}
    (h : (workerMessage cfg nodeId url payload).record? = some (topic, a)) :
    a = ⟨.text url, (nodeId, payload)⟩ ∧ topic = payload.pipelineType ∧
      (workerMessage cfg nodeId url payload).overHttp = a.message := by
  unfold workerMessage at h ⊢
  cases htransport : cfg.transport with
  | http =>
    rw [htransport] at h
    cases h
  | kafka =>
    rw [htransport] at h
    obtain ⟨rfl, rfl⟩ := Prod.mk.inj (Option.some.inj h)
    exact ⟨rfl, rfl, by simp only [Assignment.message, target?_text, WorkerMessage.overHttp]⟩

/-- What the sidecar posts is what the broker would have posted itself: each assignment
consumed becomes, in order, the post it asks for, and a broker in the same state that
sends over HTTP has sent that post. Pipelines of other types than those of the topics
are never posted. -/
theorem sidecar_postsAsBroker {kind : BrokerKind} (hkind : kind ≠ .base) {cfg : BrokerConfig}
    {w w' : BrokerWorld} (hw : Booted w) (hr : (faultyRules kind cfg).Reachable w w')
    (hpeers : ∀ urls, Call.cachePeerWorkers urls ∈ w'.started → "" ∉ urls.values)
    {maxConcurrent : Nat} {workers : Dict NodeId WorkerInfo}
    {events : List (SidecarEvent (NodeId × ExecuteRequest))}
    {s : Sidecar (NodeId × ExecuteRequest) maxConcurrent}
    (hs : events.foldlM Sidecar.perform (.start workers) = some s)
    (hdelivers : Delivers w'.sent events) :
    ∃ v, (faultyRules kind cfg.overHttp).Reachable w v ∧ v.state = w'.state ∧
      v.started = w'.started ∧ v.finished = w'.finished ∧
      s.posts.requested.map StagePost.message = (assignmentsOf events).map Assignment.message ∧
      ∀ p ∈ s.posts.requested, p.message ∈ v.sent ∧ p.body.2.pipelineType ∈ experimentTopics := by
  have hrun := brokerRun_of_reachable hw.inOrder hw.tasks hr
  have hstationed : Stationed kind w.scene := hw.stationed
  have hasked : ∀ a ∈ assignmentsOf events, a.target?.isSome = true ∧
      a.message ∈ w'.sent.map WorkerMessage.overHttp ∧
      a.body.2.pipelineType ∈ experimentTopics := by
    intro a ha
    obtain ⟨m, hm, topic, htopic, hrecord⟩ := hdelivers a ha
    obtain ⟨nodeId, url, hmessage, hknown⟩ := hrun.addressed hstationed hw.sent m hm
    rw [hmessage] at hrecord
    obtain ⟨rfl, rfl, hpost⟩ := record?_workerMessage hrecord
    refine ⟨?_, ?_, htopic⟩
    · simp [Assignment.target?, hknown.url_ne hpeers]
    · rw [← hpost, ← hmessage]
      exact List.mem_map_of_mem hm
  have hposts := (Sidecar.tracks_of_run hs).routed.trans
    (Sidecar.routes_of_targeted workers fun a ha => (hasked a ha).1)
  have hmessages : s.posts.requested.map StagePost.message =
      (assignmentsOf events).map Assignment.message := by
    have hmap := congrArg (List.map fun x : String × NodeId × ExecuteRequest =>
      WorkerMessage.http s!"{rstripSlash x.1}/execute" x.2.2) hposts
    rwa [List.map_map, List.map_map] at hmap
  refine ⟨_, hw.reachable_overHttp hkind hr, rfl, rfl, rfl, hmessages, fun p hp => ?_⟩
  have hpair : (p.targetUrl, p.body) ∈ (assignmentsOf events).map fun a =>
      (a.target?.getD "", a.body) := hposts ▸ List.mem_map.mpr ⟨p, hp, rfl⟩
  obtain ⟨a, ha, heq⟩ := List.mem_map.mp hpair
  obtain ⟨hurl, hbody⟩ := Prod.mk.inj heq
  obtain ⟨-, hsent, htype⟩ := hasked a ha
  have hmessage : p.message = a.message := by
    rw [StagePost.message, StagePost.executeUrl, Assignment.message, hurl, hbody]
  rw [hmessage, ← hbody]
  exact ⟨hsent, htype⟩

private def ferryEvents : List (SidecarEvent (NodeId × ExecuteRequest)) :=
  [.consume .sentinel, .consume (.assignment ⟨.text "http://w1/", ("w1", ferryPayload)⟩)]

/-- The sidecar posts the stage that the broker has sent through Kafka. -/
theorem sidecar_postsAsBroker_ferry :
    ∃ s : Sidecar (NodeId × ExecuteRequest),
      ferryEvents.foldlM Sidecar.perform (.start .empty) = some s ∧
      s.posts.requested.map StagePost.message = [.http "http://w1/execute" ferryPayload] := by
  have hrun : ∃ w', (faultyRules .static ferryConfig).performAll ferryMoves { state := {} } = some w' ∧
      w'.sent = [.kafka "sensor_fusion" "w1" "http://w1/" ferryPayload] ∧
      w'.started = ferryCalls ++ [.dispatchStage "p" "a"] := by decide +kernel
  obtain ⟨w', hw', hsent, hstarted⟩ := hrun
  have hpeers : ∀ urls, Call.cachePeerWorkers urls ∈ w'.started → "" ∉ urls.values := by
    simp [hstarted, ferryCalls]
  have hevents : ∃ s : Sidecar (NodeId × ExecuteRequest),
      ferryEvents.foldlM Sidecar.perform (.start .empty) = some s := by
    exact Option.isSome_iff_exists.mp (by decide +kernel)
  obtain ⟨s, hs⟩ := hevents
  have hdelivers : Delivers w'.sent ferryEvents := by
    intro a ha
    obtain rfl := List.mem_singleton.mp ha
    exact ⟨_, by rw [hsent]; exact List.mem_cons_self, "sensor_fusion", by decide, rfl⟩
  have hkind : BrokerKind.static ≠ .base := by decide
  obtain ⟨v, -, -, -, -, hmessages, -⟩ := sidecar_postsAsBroker hkind booted_initial
    (Rules.reachable_of_performAll _ hw') hpeers hs hdelivers
  exact ⟨s, hs, hmessages⟩

end NeuralPubSub
