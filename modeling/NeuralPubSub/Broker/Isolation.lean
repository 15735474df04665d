-- SUMMARY: Every message that a broker sends hands a stage of a published pipeline to a worker whose slice and domain allow it.
import NeuralPubSub.Broker.Lifecycle
import NeuralPubSub.Broker.Replacement
import NeuralPubSub.Broker.RoundRobin

open Base

/-!
# Slice isolation

A node belongs to one domain and one slice for good. Pipelines are published on
hosts that their stages may run on; the broker re-places stages when workers die
or sends fail. Here is where the work may end up, over every run.
-/

namespace NeuralPubSub

/-! ## Sites -/

/-- Domain and slice of each node. -/
abbrev Sites := NodeId → DomainId × SliceId

/-- The stage may run on the node. A static broker does not ask for the domain. -/
def Stage.MayRunOn (kind : BrokerKind) (sites : Sites) (stage : Stage) (nodeId : NodeId) : Prop :=
  sliceMatches (sites nodeId).2 stage.sliceRequirement = true ∧
    (kind ≠ .static → stage.outsideDomain (sites nodeId).1 = false)

/-- The calls that a run may start with: registrations that agree with the sites, and
pipelines that are built as `PipelineDAG` builds them and published on hosts that their
stages may run on. -/
def Call.RespectsSites (kind : BrokerKind) (sites : Sites) : Call → Prop
  | .register req => (req.domainId, req.sliceId) = sites req.nodeId
  | .publish req => req.dag.Built ∧ ∀ sid nodeId stage, req.placement.get? sid = some nodeId →
    req.dag.getStage sid = .ok stage → stage.MayRunOn kind sites nodeId
  | _ => True

/-- The workers register for the sites that they have. -/
def RegisteredAt (sites : Sites) (started : List Call) : Prop :=
  ∀ req, Call.register req ∈ started → (req.domainId, req.sliceId) = sites req.nodeId

theorem registeredAt_of_calls {kind : BrokerKind} {sites : Sites} {started : List Call}
    (hcalls : ∀ c ∈ started, c.RespectsSites kind sites) : RegisteredAt sites started :=
  fun _ hcall => hcalls _ hcall

/-- Someone has told the broker where to reach the node: the worker itself, when it
registered, or a peer that owns it. -/
def KnownAt (started : List Call) (nodeId : NodeId) (url : String) : Prop :=
  (∃ req, Call.register req ∈ started ∧ req.nodeId = nodeId ∧ url = (req.workerInfo 0).url) ∨
    ∃ urls, Call.cachePeerWorkers urls ∈ started ∧ urls.get? nodeId = some url

/-- The message hands a stage of a published pipeline to a node that may run it. -/
def Entrusts (kind : BrokerKind) (cfg : BrokerConfig) (sites : Sites) (started : List Call)
    (m : WorkerMessage) : Prop :=
  ∃ req stage nodeId url, Call.publish req ∈ started ∧
    req.dag.getStage m.payload.stageId = .ok stage ∧
    m.payload = executeRequest cfg req.initial m.payload.stageId stage m.payload.resultUrl ∧
    (m.payload.resultUrl = none ∨
      m.payload.resultUrl = some (rstripSlash (NeuralBroker.selfUrl cfg))) ∧
    m = workerMessage cfg nodeId url m.payload ∧ KnownAt started nodeId url ∧
    stage.MayRunOn kind sites nodeId

/-! ## What a run keeps -/

/-- The worker is as a registration describes it, but for its load. -/
def Enlisted (started : List Call) (nodeId : NodeId) (worker : WorkerInfo) : Prop :=
  worker.nodeId = nodeId ∧ ∃ req, Call.register req ∈ started ∧ req.nodeId = nodeId ∧
    worker.domainId = req.domainId ∧ worker.sliceId = req.sliceId ∧
      worker.url = (req.workerInfo 0).url

/-- The workers come from registrations, the topology shows the workers, and the cycles
give eligible ones. -/
structure Stationed (kind : BrokerKind) (sc : BrokerScene) : Prop where
  workers : ∀ nodeId worker, sc.state.workers.get? nodeId = some worker →
    Enlisted sc.started nodeId worker
  peers : ∀ nodeId url, sc.state.shardedPeerWorkerUrls.get? nodeId = some url →
    ∃ urls, Call.cachePeerWorkers urls ∈ sc.started ∧ urls.get? nodeId = some url
  topology : kind = .neural → sc.state.topology.Complete ∧ ∀ x ∈ sc.state.topology.nodes,
    ∃ worker, sc.state.workers.get? x.nodeId = some worker ∧ x.domainId = worker.domainId ∧
      x.sliceId = worker.sliceId
  cycles : kind = .static → StaticBroker.CyclesValid sc.state

/-- Moreover every stage of a pipeline is placed where it may run. -/
structure Sited (kind : BrokerKind) (sites : Sites) (sc : BrokerScene) : Prop
    extends Stationed kind sc where
  placements : ∀ pid ps, sc.state.pipelines.get? pid = some ps → ps.dag.Built ∧
    ∀ sid nodeId stage, ps.placement.get? sid = some nodeId → ps.dag.getStage sid = .ok stage →
      stage.MayRunOn kind sites nodeId

section Sites

variable {kind : BrokerKind} {cfg : BrokerConfig} {sites : Sites} {sc sc' : BrokerScene}

theorem KnownAt.mono {started started' : List Call} {nodeId : NodeId} {url : String}
    (h : KnownAt started nodeId url) (hsub : started ⊆ started') :
    KnownAt started' nodeId url := by
  rcases h with ⟨req, hcall, hid, hurl⟩ | ⟨urls, hcall, hget⟩
  · exact .inl ⟨req, hsub hcall, hid, hurl⟩
  · exact .inr ⟨urls, hsub hcall, hget⟩

theorem Enlisted.mono {started started' : List Call} {nodeId : NodeId} {worker : WorkerInfo}
    (h : Enlisted started nodeId worker) (hsub : started ⊆ started') :
    Enlisted started' nodeId worker := by
  obtain ⟨hname, req, hcall, hrest⟩ := h
  exact ⟨hname, req, hsub hcall, hrest⟩

theorem Enlisted.known {started : List Call} {nodeId : NodeId} {worker : WorkerInfo}
    (h : Enlisted started nodeId worker) : KnownAt started nodeId worker.url := by
  obtain ⟨-, req, hcall, hid, -, -, hurl⟩ := h
  exact .inl ⟨req, hcall, hid, hurl⟩

theorem Enlisted.site {started : List Call} {nodeId : NodeId} {worker : WorkerInfo}
    (h : Enlisted started nodeId worker) (hsites : RegisteredAt sites started) :
    (worker.domainId, worker.sliceId) = sites nodeId := by
  obtain ⟨-, req, hcall, rfl, hdomain, hslice, -⟩ := h
  rw [hdomain, hslice]
  exact hsites req hcall

theorem Entrusts.mono {started started' : List Call} {m : WorkerMessage}
    (h : Entrusts kind cfg sites started m) (hsub : started ⊆ started') :
    Entrusts kind cfg sites started' m := by
  obtain ⟨req, stage, nodeId, url, hcall, hstage, hpayload, hresult, hm, hknown, hmay⟩ := h
  exact ⟨req, stage, nodeId, url, hsub hcall, hstage, hpayload, hresult, hm, hknown.mono hsub, hmay⟩

/-! ### Sites of workers -/

/-- All of a worker but its load and its price. -/
def WorkerInfo.station (w : WorkerInfo) : NodeId × DomainId × SliceId × String :=
  (w.nodeId, w.domainId, w.sliceId, w.url)

/-- Every worker stays where it is. -/
def SameStations (workers workers' : Dict NodeId WorkerInfo) : Prop :=
  ∀ nodeId, (workers'.get? nodeId).map WorkerInfo.station =
    (workers.get? nodeId).map WorkerInfo.station

theorem SameStations.refl (workers : Dict NodeId WorkerInfo) : SameStations workers workers :=
  fun _ => rfl

theorem SameStations.symm {workers workers' : Dict NodeId WorkerInfo}
    (h : SameStations workers workers') : SameStations workers' workers := fun n => (h n).symm

theorem SameStations.trans {workers workers' workers'' : Dict NodeId WorkerInfo}
    (h : SameStations workers workers') (h' : SameStations workers' workers'') :
    SameStations workers workers'' := fun n => (h' n).trans (h n)

theorem SameStations.found {workers workers' : Dict NodeId WorkerInfo}
    (h : SameStations workers workers') {nodeId : NodeId} {worker' : WorkerInfo}
    (hget : workers'.get? nodeId = some worker') :
    ∃ worker, workers.get? nodeId = some worker ∧ worker'.station = worker.station := by
  have hstation := h nodeId
  rw [hget, Option.map_some, eq_comm, Option.map_eq_some_iff] at hstation
  obtain ⟨worker, hworker, heq⟩ := hstation
  exact ⟨worker, hworker, heq.symm⟩

/-- A worker with another load. -/
theorem SameStations.load (workers : Dict NodeId WorkerInfo) (nodeId : NodeId) (load : ℚ) :
    SameStations workers (workers.modify nodeId fun w => { w with currentLoad := load }) := by
  intro n
  rw [Dict.get?_modify]
  split
  · next heq =>
    rw [heq, Option.map_map]
    rfl
  · rfl

theorem Enlisted.congr {started : List Call} {nodeId : NodeId} {worker worker' : WorkerInfo}
    (h : Enlisted started nodeId worker) (heq : worker'.station = worker.station) :
    Enlisted started nodeId worker' := by
  simp only [WorkerInfo.station, Prod.mk.injEq] at heq
  obtain ⟨hname, req, hcall, hid, hdomain, hslice, hurl⟩ := h
  exact ⟨heq.1.trans hname, req, hcall, hid, heq.2.1.trans hdomain, heq.2.2.1.trans hslice,
    heq.2.2.2.trans hurl⟩

theorem NeuralBroker.setNodeLoad_sites (nodeId : NodeId) (load : ℚ) (nodes : List ExecutionUnit) :
    (NeuralBroker.setNodeLoad nodeId load nodes).map (fun x => (x.nodeId, x.domainId, x.sliceId)) =
      nodes.map fun x => (x.nodeId, x.domainId, x.sliceId) := by
  induction nodes with
  | nil => rfl
  | cons x rest ih =>
    rw [NeuralBroker.setNodeLoad]
    split
    · rfl
    · simp [ih]

/-- Complete latencies are about the ids only. -/
theorem NetworkTopology.Complete.of_ids {t : NetworkTopology} (h : t.Complete)
    {nodes : List ExecutionUnit} (hids : nodes.map (·.nodeId) = t.nodes.map (·.nodeId)) :
    ({ t with nodes := nodes } : NetworkTopology).Complete := by
  have hnode : ∀ x ∈ nodes, ∃ x₀ ∈ t.nodes, x₀.nodeId = x.nodeId := by
    intro x hx
    have hmem : x.nodeId ∈ t.nodes.map (·.nodeId) := hids ▸ List.mem_map_of_mem hx
    exact List.mem_map.mp hmem
  refine ⟨hids ▸ h.nodupIds, fun x hx y hy => ?_⟩
  obtain ⟨x₀, hx₀, hxid⟩ := hnode x hx
  obtain ⟨y₀, hy₀, hyid⟩ := hnode y hy
  rw [← hxid, ← hyid]
  exact h.latency x₀ hx₀ y₀ hy₀

theorem roundOutcome_stations (kind : BrokerKind) (cfg : BrokerConfig) (results : List ProbeResult)
    (b : Broker) : (roundOutcome kind cfg results b).2.shardedPeerWorkerUrls = b.shardedPeerWorkerUrls ∧
      (roundOutcome kind cfg results b).2.topology = b.topology ∧
      (roundOutcome kind cfg results b).2.sliceCycles = b.sliceCycles ∧
      (kind ≠ .neural → (roundOutcome kind cfg results b).2.workers = b.workers) ∧
      SameStations b.workers (roundOutcome kind cfg results b).2.workers := by
  refine foldl_scan (P := fun _ (acc : List NodeId × Broker) =>
    acc.2.shardedPeerWorkerUrls = b.shardedPeerWorkerUrls ∧ acc.2.topology = b.topology ∧
      acc.2.sliceCycles = b.sliceCycles ∧ (kind ≠ .neural → acc.2.workers = b.workers) ∧
        SameStations b.workers acc.2.workers)
    ⟨rfl, rfl, rfl, fun _ => rfl, .refl _⟩ ?_
  rintro _ probe _ ⟨dead, b'⟩ _ hb
  dsimp only
  split
  · cases kind with
    | base | static => exact hb
    | neural =>
      simp only [syncLoad, NeuralBroker.syncLoad]
      cases probe.reportedLoad with
      | none => exact hb
      | some load =>
        obtain ⟨hpeers, htopology, hcycles, -, hsame⟩ := hb
        exact ⟨hpeers, htopology, hcycles, fun hne => absurd rfl hne,
          hsame.trans (.load b'.workers probe.nodeId load)⟩
  · exact hb

/-- The fields of a broker that tell where stages may go. -/
structure Broker.SameSites (b b' : Broker) : Prop where
  workers : b'.workers = b.workers
  peers : b'.shardedPeerWorkerUrls = b.shardedPeerWorkerUrls
  topology : b'.topology = b.topology
  cycles : b'.sliceCycles = b.sliceCycles

theorem Broker.SameSites.refl (b : Broker) : b.SameSites b := ⟨rfl, rfl, rfl, rfl⟩

theorem NeuralBroker.failPipelinesOn_sameSites (nodeId : NodeId) (b : Broker) :
    b.SameSites (NeuralBroker.failPipelinesOn nodeId b) := by
  refine foldl_scan (P := fun _ b' => b.SameSites b') (.refl b) ?_
  intro _ pid _ b' _ hb
  exact ⟨hb.workers, hb.peers, hb.topology, hb.cycles⟩

namespace Stationed

/-- A step that touches no worker. -/
theorem of_same (h : Stationed kind sc) (hstarted : sc.started ⊆ sc'.started)
    (hsame : sc.state.SameSites sc'.state) : Stationed kind sc' where
  workers nodeId worker hget := by
    rw [hsame.workers] at hget
    exact (h.workers nodeId worker hget).mono hstarted
  peers nodeId url hget := by
    rw [hsame.peers] at hget
    obtain ⟨urls, hcall, hurl⟩ := h.peers nodeId url hget
    exact ⟨urls, hstarted hcall, hurl⟩
  topology hkind := by
    rw [hsame.topology, hsame.workers]
    exact h.topology hkind
  cycles hkind := (h.cycles hkind).congr hsame.workers hsame.cycles

/-- A change of the registry, with what it rebuilds. -/
theorem reregister (h : Stationed kind sc) {workers : Dict NodeId WorkerInfo}
    (hworkers : ∀ nodeId worker, workers.get? nodeId = some worker →
      Enlisted sc.started nodeId worker) :
    Stationed kind (sc.withState (onWorkerChange kind { sc.state with workers := workers })) := by
  have hnamed : NeuralBroker.Named { sc.state with workers := workers } :=
    fun nodeId worker hget => (hworkers nodeId worker hget).1
  constructor
  · cases kind <;> exact hworkers
  · cases kind <;> exact h.peers
  · rintro rfl
    refine ⟨hnamed.complete.1, fun x hx => ?_⟩
    obtain ⟨worker, hworker, rfl⟩ := List.mem_map.mp hx
    obtain ⟨e, he, rfl⟩ := List.mem_map.mp hworker
    have hget : workers.get? e.1 = some e.2 := Dict.get?_eq_some_iff.mpr he
    have hid : e.2.nodeId = e.1 := hnamed e.1 e.2 hget
    refine ⟨e.2, ?_, rfl, rfl⟩
    show workers.get? e.2.nodeId = some e.2
    rw [hid, hget]
  · rintro rfl
    exact StaticBroker.cyclesValid_rebuildCycle _

/-- New loads move nobody. -/
theorem reload (h : Stationed kind sc) {b : Broker} (hsame : SameStations sc.state.workers b.workers)
    (hpeers : b.shardedPeerWorkerUrls = sc.state.shardedPeerWorkerUrls)
    (hmatrix : b.topology.latencyMatrix = sc.state.topology.latencyMatrix)
    (hsites : b.topology.nodes.map (fun x => (x.nodeId, x.domainId, x.sliceId)) =
      sc.state.topology.nodes.map fun x => (x.nodeId, x.domainId, x.sliceId))
    (hcycles : kind = .static → StaticBroker.CyclesValid b) : Stationed kind (sc.withState b) where
  workers nodeId worker' hget := by
    obtain ⟨worker, hworker, heq⟩ := hsame.found hget
    exact (h.workers nodeId worker hworker).congr heq
  peers nodeId url hget := h.peers nodeId url (hpeers ▸ hget)
  topology hkind := by
    obtain ⟨hcomplete, hnodes⟩ := h.topology hkind
    have hids := congrArg (List.map Prod.fst) hsites
    rw [List.map_map, List.map_map] at hids
    refine ⟨?_, fun x hx => ?_⟩
    · have hkept := hcomplete.of_ids hids
      rw [← hmatrix] at hkept
      exact hkept
    · obtain ⟨x₀, hx₀, heq⟩ := List.mem_map.mp (hsites ▸ List.mem_map_of_mem hx)
      obtain ⟨hid, hdomain, hslice⟩ : x₀.nodeId = x.nodeId ∧ x₀.domainId = x.domainId ∧
        x₀.sliceId = x.sliceId := by simpa using heq
      obtain ⟨worker, hworker, hdomain', hslice'⟩ := hnodes x₀ hx₀
      obtain ⟨worker', hworker', hstation⟩ := hsame.symm.found hworker
      simp only [WorkerInfo.station, Prod.mk.injEq] at hstation
      refine ⟨worker', hid ▸ hworker', ?_, ?_⟩
      · rw [← hdomain, hdomain', hstation.2.1]
      · rw [← hslice, hslice', hstation.2.2.1]
  cycles := hcycles

theorem loaded (h : Stationed .neural sc) (nodeId : NodeId) (delta : ℚ) :
    Stationed .neural (sc.withState (NeuralBroker.updateWorkerLoad nodeId delta sc.state)) := by
  unfold NeuralBroker.updateWorkerLoad
  cases hworker : sc.state.workers.get? nodeId with
  | none => exact h
  | some worker =>
    have hsame := SameStations.load sc.state.workers nodeId (max 0 (worker.currentLoad + delta))
    rw [Dict.modify_eq_insert hworker] at hsame
    exact h.reload hsame rfl rfl (NeuralBroker.setNodeLoad_sites nodeId _ _) nofun

theorem probed (h : Stationed kind sc) (cfg : BrokerConfig) (results : List ProbeResult) :
    Stationed kind (sc.withState (roundOutcome kind cfg results sc.state).2) := by
  obtain ⟨hpeers, htopology, hcycles, hkept, hsame⟩ := roundOutcome_stations kind cfg results sc.state
  refine h.reload hsame hpeers (by rw [htopology]) (by rw [htopology]) ?_
  rintro rfl
  exact (h.cycles rfl).congr (hkept nofun) hcycles

end Stationed

/-- A worker that the static broker picks may run the stage. -/
theorem StaticBroker.pickWorker_eligible {b b' : Broker} {s : Option SliceId} {nodeId : NodeId}
    (hcycles : CyclesValid b) (h : pickWorker cfg s b = (.ok nodeId, b')) :
    Eligible b s nodeId ∧ CyclesValid b' := by
  cases hstrategy : cfg.placementStrategy with
  | roundRobin =>
    have hvalid := hcycles.pickWorker hstrategy s
    rw [h] at hvalid
    refine ⟨?_, hvalid⟩
    rcases pickWorker_cases hstrategy hcycles s with ⟨⟨text, herror⟩, -⟩ | ⟨nodeId', hok, heligible⟩
    · rw [h] at herror
      cases herror
    · rw [h] at hok
      obtain rfl := Except.ok.inj hok
      exact heligible
  | random =>
    unfold pickWorker at h
    rw [hstrategy] at h
    split at h
    · cases h
    · dsimp only at h
      split at h
      · cases h
      · next hdrawn =>
        obtain ⟨hnode, rfl⟩ := Prod.mk.inj h
        obtain rfl := Except.ok.inj hnode
        exact ⟨mem_eligibleWorkers.mp (List.mem_of_getElem? hdrawn), hcycles.congr rfl rfl⟩

/-- Every step keeps the workers at their stations. -/
theorem Stationed.step (h : Stationed kind sc) (hstep : BrokerStep kind cfg sc sc') :
    Stationed kind sc' := by
  have hstarted := hstep.before.started.subset
  cases hstep with
  | called | takenUp | answered => exact h.of_same hstarted (.refl _)
  | admitted | scanned | scheduled | received | recorded | delivered | closed | aborted | dropped
  | counted | ticked => exact h.of_same hstarted ⟨rfl, rfl, rfl, rfl⟩
  | @sent pid ps sid nodeId url peerDispatch stage =>
    have hrecorded : Stationed kind (sc.withState
        (sc.state.record (dispatchRecord ps sid nodeId sc.state.clock))) :=
      h.of_same (List.Subset.refl _) ⟨rfl, rfl, rfl, rfl⟩
    cases kind with
    | base | static => exact hrecorded.of_same (List.Subset.refl _) (.refl _)
    | neural =>
      exact (hrecorded.loaded nodeId stage.computationalDemand).of_same (List.Subset.refl _) (.refl _)
  | resent => exact h.of_same hstarted (.refl _)
  | @rehosted pid ps sid nodeId b found chosen =>
    obtain ⟨-, -, -, hworkers, htopology, hpeers, -⟩ := chosen.frame
    constructor
    · rw [Scene.state_withState, Broker.workers_updatePipeline, hworkers]
      exact h.workers
    · rw [Scene.state_withState, Broker.peers_updatePipeline, hpeers]
      exact h.peers
    · rw [Scene.state_withState, Broker.workers_updatePipeline, Broker.topology_updatePipeline,
        htopology, hworkers]
      exact h.topology
    · rintro rfl
      obtain ⟨stage, -, hpick⟩ := chosen
      exact (StaticBroker.pickWorker_eligible (h.cycles rfl) hpick).2
  | @registered req call =>
    apply h.reregister
    intro n worker hget
    rw [Dict.get?_insert] at hget
    split at hget
    · next heq =>
      subst heq
      obtain rfl := Option.some.inj hget
      exact ⟨rfl, req, call, rfl, rfl, rfl, rfl⟩
    · exact h.workers n worker hget
  | removed nodeId =>
    apply h.reregister
    intro n worker hget
    rw [Dict.get?_erase] at hget
    split at hget
    · cases hget
    · exact h.workers n worker hget
  | departed nodeId => exact h.of_same hstarted (NeuralBroker.failPipelinesOn_sameSites nodeId _)
  | loaded nodeId delta neural =>
    subst neural
    exact h.loaded nodeId delta
  | @probed results => exact h.probed cfg results
  | @cached urls call =>
    exact ⟨h.workers, fun nodeId url hget => ⟨urls, call, hget⟩, h.topology, h.cycles⟩

theorem BrokerRun.stationed {sc₀ : BrokerScene} (hrun : BrokerRun kind cfg sc₀ sc)
    (h : Stationed kind sc₀) : Stationed kind sc := by
  induction hrun with
  | refl => exact h
  | tail _ hstep ih => exact ih.step hstep

/-! ### Placements -/

/-- The part of a pipeline that tells where its stages go. -/
def PipelineState.plan (ps : PipelineState) : PipelineDAG × Placement := (ps.dag, ps.placement)

theorem steadyView_plan : SteadyView PipelineState.plan := ⟨fun _ _ _ _ => rfl, fun _ _ => rfl⟩

/-- A node that slice and sovereignty of a stage allow is one that it may run on. -/
theorem Stationed.mayRunOn (h : Stationed .neural sc) (hsites : RegisteredAt sites sc.started) {dag : PipelineDAG} {sid : StageId}
    {nodeId : NodeId} (hfits : StageFits dag sc.state.topology sid (some nodeId)) {stage : Stage}
    (hstage : dag.getStage sid = .ok stage) : stage.MayRunOn .neural sites nodeId := by
  obtain ⟨x, hx, hhost, hallowed⟩ := hfits
  obtain rfl := Option.some.inj hhost
  obtain ⟨worker, hworker, hdomain, hslice⟩ := (h.topology rfl).2 x hx
  have hsite := (h.workers x.nodeId worker hworker).site hsites
  rw [← hdomain, ← hslice] at hsite
  obtain ⟨hmatches, hinside⟩ := hallowed stage (subscript_eq_ok_iff.mp hstage)
  rw [Stage.MayRunOn, ← hsite]
  exact ⟨hmatches, fun _ => hinside⟩

theorem StaticBroker.Eligible.mayRunOn (h : Stationed .static sc)
    (hsites : RegisteredAt sites sc.started) {stage : Stage} {nodeId : NodeId}
    (heligible : Eligible sc.state stage.sliceRequirement nodeId) :
    stage.MayRunOn .static sites nodeId := by
  obtain ⟨worker, hworker, hslice⟩ := heligible
  have hsite := (h.workers nodeId worker hworker).site hsites
  refine ⟨?_, fun hne => absurd rfl hne⟩
  rw [← hsite]
  exact hslice

/-- A host that the broker chooses for a stage may run it. -/
theorem Sited.chosen (h : Sited kind sites sc) (hsites : RegisteredAt sites sc.started) {pid : PipelineId} {ps : PipelineState}
    (hps : sc.state.pipelines.get? pid = some ps) {sid : StageId} {nodeId : NodeId} {b : Broker}
    (hchosen : Chosen cfg sc.state ps.dag sid nodeId b kind) {stage : Stage}
    (hstage : ps.dag.getStage sid = .ok stage) : stage.MayRunOn kind sites nodeId := by
  cases kind with
  | base => cases hchosen
  | static =>
    obtain ⟨stage', hstage', hpick⟩ := hchosen
    obtain rfl := Except.ok.inj (hstage.symm.trans hstage')
    exact (StaticBroker.pickWorker_eligible (h.cycles rfl) hpick).1.mayRunOn h.toStationed hsites
  | neural =>
    obtain ⟨-, placement, hplacement, hget⟩ := hchosen
    have hfits := findPlacement_stageFits (h.placements pid ps hps).1 (h.topology rfl).1 hplacement
      sid (Dict.mem_of_get?_eq_some hget)
    rw [hget] at hfits
    exact h.toStationed.mayRunOn hsites hfits hstage

/-- A step that changes no placement. -/
theorem Sited.of_plans (h : Sited kind sites sc) (hstationed : Stationed kind sc')
    (hplans : sc.state.Agrees PipelineState.plan sc'.state) : Sited kind sites sc' where
  toStationed := hstationed
  placements pid ps' hps' := by
    obtain ⟨ps, hps, heq⟩ := hplans.found hps'
    obtain ⟨hdag, hplacement⟩ := Prod.mk.inj heq
    rw [hdag, hplacement]
    exact h.placements pid ps hps

/-- A step takes in a placed pipeline, gives a stage another host, or leaves the
placements alone. -/
theorem BrokerStep.plan_cases (hstep : BrokerStep kind cfg sc sc') :
    (∃ req, Call.publish req ∈ sc.started ∧ sc'.state = sc.state.enrol cfg req) ∨
    (∃ pid ps sid nodeId b, sc.state.pipelines.get? pid = some ps ∧
      Chosen cfg sc.state ps.dag sid nodeId b kind ∧ sc'.state = b.updatePipeline pid fun ps =>
        { ps with placement := ps.placement.insert sid nodeId }) ∨
    sc.state.Agrees PipelineState.plan sc'.state := by
  cases hstep with
  | admitted call => exact .inl ⟨_, call, rfl⟩
  | rehosted found chosen => exact .inr (.inl ⟨_, _, _, _, _, found, chosen, rfl⟩)
  | scanned found running => exact .inr (.inr (.scan steadyView_plan cfg _ found))
  | scheduled found running =>
    refine .inr (.inr ((Broker.Agrees.scan steadyView_plan cfg _ found).trans ?_))
    exact .update _ _ fun _ _ => rfl
  | recorded =>
    refine .inr (.inr ((Broker.Agrees.update _ _ fun ps _ => ?_).trans (.of_eq rfl)))
    unfold PipelineState.recordResult
    split <;> rfl
  | aborted pid error =>
    exact .inr (.inr ((Broker.Agrees.fail steadyView_plan _ pid error).trans (.of_eq rfl)))
  | dropped pid error => exact .inr (.inr (.fail steadyView_plan _ pid error))
  | departed nodeId => exact .inr (.inr (.departed steadyView_plan nodeId _))
  | @sent pid ps sid nodeId url peerDispatch stage =>
    have hframe := (reserveLoad_frame kind nodeId stage
      (sc.state.record (dispatchRecord ps sid nodeId sc.state.clock))).1
    exact .inr (.inr (.of_eq hframe))
  | loaded nodeId delta neural =>
    have hframe := NeuralBroker.pipelines_updateWorkerLoad nodeId delta sc.state
    exact .inr (.inr (.of_eq hframe))
  | probed => exact .inr (.inr (.of_eq (roundOutcome_frame kind cfg _ sc.state).1))
  | registered | removed => exact .inr (.inr (.of_eq (onWorkerChange_frame kind _).1))
  | called | takenUp | answered | received | delivered | closed | resent | counted | ticked | cached =>
    exact .inr (.inr (.of_eq rfl))

/-- Every step keeps the sites, as long as the calls respect them. -/
theorem Sited.step (h : Sited kind sites sc) (hstep : BrokerStep kind cfg sc sc')
    (hcalls : ∀ c ∈ sc'.started, c.RespectsSites kind sites) : Sited kind sites sc' := by
  have hsub := hstep.before.started.subset
  have hstationed := h.toStationed.step hstep
  rcases hstep.plan_cases with ⟨req, call, hstate⟩ |
    ⟨pid, ps, sid, nodeId, b, found, chosen, hstate⟩ | hplans
  · refine ⟨hstationed, fun pid ps hps => ?_⟩
    rw [hstate, Broker.enrol, Broker.pipelines_record, Broker.pipelines_record,
      Dict.get?_insert] at hps
    split at hps
    · obtain rfl := Option.some.inj hps
      exact hcalls _ (hsub call)
    · exact h.placements pid ps hps
  · refine ⟨hstationed, fun pid' ps' hps' => ?_⟩
    rw [hstate, Broker.get?_updatePipeline, chosen.frame.1] at hps'
    split at hps'
    · next heq =>
      subst heq
      rw [found] at hps'
      obtain rfl := Option.some.inj hps'
      refine ⟨(h.placements _ ps found).1, fun sid' nodeId' stage hget hstage => ?_⟩
      rw [Dict.get?_insert] at hget
      split at hget
      · next heq =>
        subst heq
        obtain rfl := Option.some.inj hget
        have hsites := registeredAt_of_calls fun c hc => hcalls c (hsub hc)
        exact h.chosen hsites found chosen hstage
      · exact (h.placements _ ps found).2 sid' nodeId' stage hget hstage
    · exact h.placements pid' ps' hps'
  · exact h.of_plans hstationed hplans

/-! ## Messages -/

/-- A broker as it starts: no worker has registered and nothing has happened. -/
structure Booted (w : BrokerWorld) : Prop extends Fresh w where
  workers : w.state.workers = .empty
  peers : w.state.shardedPeerWorkerUrls = .empty
  topology : w.state.topology = ⟨[], .empty⟩
  cycles : w.state.sliceCycles = .empty
  sent : w.sent = []
  traces : w.state.metrics.traces = .empty

theorem booted_initial : Booted { state := {} } :=
  ⟨⟨rfl, rfl, rfl, rfl, rfl, rfl, rfl⟩, rfl, rfl, rfl, rfl, rfl, rfl⟩

theorem Booted.stationed {w : BrokerWorld} (h : Booted w) : Stationed kind w.scene where
  workers nodeId worker hget := by
    rw [show w.scene.state.workers = .empty from h.workers] at hget
    cases hget
  peers nodeId url hget := by
    rw [show w.scene.state.shardedPeerWorkerUrls = .empty from h.peers] at hget
    cases hget
  topology _ := by
    rw [show w.scene.state.topology = ⟨[], .empty⟩ from h.topology]
    exact ⟨⟨List.nodup_nil, nofun⟩, nofun⟩
  cycles _ := by
    have hcycle : ∀ s, StaticBroker.currentCycle w.scene.state s =
        StaticBroker.eligibleWorkers w.scene.state s := by
      intro s
      rw [StaticBroker.currentCycle, show w.scene.state.sliceCycles = .empty from h.cycles]
      rfl
    exact fun s => hcycle s ▸ .refl _

theorem Booted.sited {w : BrokerWorld} (h : Booted w) : Sited kind sites w.scene where
  toStationed := h.stationed
  placements pid ps hps := by
    rw [show w.scene.state.pipelines = .empty from h.pipelines] at hps
    cases hps

/-- A URL that a dispatch finds for a node. -/
theorem Stationed.target (h : Stationed kind sc) {nodeId : NodeId} {url : String}
    {peerDispatch : Bool} (htarget : dispatchUrl kind nodeId sc.state = some (url, peerDispatch)) :
    KnownAt sc.started nodeId url := by
  have hown : ∀ worker, sc.state.workers.get? nodeId = some worker → worker.url = url →
      KnownAt sc.started nodeId url := by
    rintro worker hworker rfl
    exact (h.workers nodeId worker hworker).known
  cases kind with
  | base | static =>
    obtain ⟨worker, hworker, heq⟩ := Option.map_eq_some_iff.mp htarget
    exact hown worker hworker (Prod.mk.inj heq).1
  | neural =>
    rw [dispatchUrl, NeuralBroker.dispatchUrl] at htarget
    split at htarget
    · next worker hworker =>
      obtain ⟨heq, -⟩ := Prod.mk.inj (Option.some.inj htarget)
      exact hown worker hworker heq
    · obtain ⟨url', hurl, heq⟩ := Option.map_eq_some_iff.mp htarget
      obtain ⟨rfl, -⟩ := Prod.mk.inj heq
      exact .inr (h.peers nodeId url' hurl)

/-- The payload for a stage says the same throughout the life of the pipeline. -/
theorem PipelineState.Forward.executeRequest_eq {ps ps' : PipelineState} (h : ps.Forward ps')
    (cfg : BrokerConfig) (sid : StageId) (stage : Stage) (resultUrl : Option String) :
    executeRequest cfg ps' sid stage resultUrl = executeRequest cfg ps sid stage resultUrl := by
  rw [executeRequest, executeRequest, h.pipelineId, h.pipelineType]

/-- The message hands over a stage of the pipeline that the broker knows under its id. -/
def HandsOver (kind : BrokerKind) (cfg : BrokerConfig) (sites : Sites) (sc : BrokerScene)
    (m : WorkerMessage) : Prop :=
  ∃ ps stage nodeId url, sc.state.pipelines.get? m.payload.pipelineId = some ps ∧
    ps.dag.getStage m.payload.stageId = .ok stage ∧
    m.payload = executeRequest cfg ps m.payload.stageId stage m.payload.resultUrl ∧
    (m.payload.resultUrl = none ∨
      m.payload.resultUrl = some (rstripSlash (NeuralBroker.selfUrl cfg))) ∧
    m = workerMessage cfg nodeId url m.payload ∧ KnownAt sc.started nodeId url ∧
    stage.MayRunOn kind sites nodeId

theorem HandsOver.later {m : WorkerMessage} (h : HandsOver kind cfg sites sc m)
    (hstarted : sc.started ⊆ sc'.started) (hlater : sc.state.Later sc'.state) :
    HandsOver kind cfg sites sc' m := by
  obtain ⟨ps, stage, nodeId, url, hps, hstage, hpayload, hresult, hm, hknown, hmay⟩ := h
  obtain ⟨ps', hps', hforward⟩ := hlater.pipelines _ ps hps
  refine ⟨ps', stage, nodeId, url, hps', ?_, ?_, hresult, hm, hknown.mono hstarted, hmay⟩
  · rw [hforward.dag, hstage]
  · rw [hforward.executeRequest_eq, ← hpayload]

/-- What a step sends hands over a stage. -/
theorem Sited.handsOver (h : Sited kind sites sc) (horder : InOrder sc)
    (hsent : ∀ m ∈ sc.sent, HandsOver kind cfg sites sc m) (hstep : BrokerStep kind cfg sc sc') :
    ∀ m ∈ sc'.sent, HandsOver kind cfg sites sc' m := by
  have hold : ∀ m ∈ sc.sent, HandsOver kind cfg sites sc' m := fun m hm =>
    (hsent m hm).later hstep.before.started.subset hstep.later
  have hlater := hstep.later
  cases hstep with
  | @sent pid ps sid nodeId url peerDispatch stage call found placed target known =>
    intro m hm
    rcases List.mem_append.mp hm with hm | hm
    · exact hold m hm
    · obtain rfl := List.mem_singleton.mp hm
      obtain ⟨ps', hps', hforward⟩ := hlater.pipelines pid ps found
      have hmay := (h.placements pid ps found).2 sid nodeId stage placed known
      have hid : ps.pipelineId = pid := horder.named pid ps found
      rw [HandsOver, payload_workerMessage]
      refine ⟨ps', stage, nodeId, url, ?_, ?_, ?_, ?_, rfl, h.toStationed.target target, hmay⟩
      · rw [show (executeRequest cfg ps sid stage _).pipelineId = pid from hid, hps']
      · rw [hforward.dag]
        exact known
      · rw [hforward.executeRequest_eq]
        rfl
      · cases peerDispatch with
        | false => exact .inl rfl
        | true => exact .inr rfl
  | @resent pid ps sid nodeId worker m₀ found placed registered earlier pipeline stage =>
    intro m hm
    rcases List.mem_append.mp hm with hm | hm
    · exact hold m hm
    · obtain rfl := List.mem_singleton.mp hm
      obtain ⟨ps₀, stage₀, _, _, hps₀, hstage₀, hpayload, hresult, -, -, -⟩ := hsent m₀ earlier
      subst pipeline stage
      obtain rfl := Option.some.inj (found.symm.trans hps₀)
      have hmay := (h.placements _ ps found).2 _ nodeId stage₀ placed hstage₀
      rw [HandsOver, payload_workerMessage]
      exact ⟨ps, stage₀, nodeId, worker.url, found, hstage₀, hpayload, hresult, rfl,
        (h.workers nodeId worker registered).known, hmay⟩
  | _ => exact hold

/-- What a run from the start keeps. -/
theorem BrokerRun.sited {sc₀ : BrokerScene} (hrun : BrokerRun kind cfg sc₀ sc)
    (horder : InOrder sc₀) (hsited : Sited kind sites sc₀) (hsent : sc₀.sent = [])
    (hcalls : ∀ c ∈ sc.started, c.RespectsSites kind sites) :
    Sited kind sites sc ∧ ∀ m ∈ sc.sent, HandsOver kind cfg sites sc m := by
  induction hrun with
  | refl => exact ⟨hsited, by simp [hsent]⟩
  | @tail sc₁ sc₂ hrun hstep ih =>
    obtain ⟨hsited₁, hsent₁⟩ := ih fun c hc => hcalls c (hstep.before.started.subset hc)
    have horder₁ : InOrder sc₁ := BrokerRun.inOrder hrun horder
    exact ⟨hsited₁.step hstep hcalls, hsited₁.handsOver horder₁ hsent₁ hstep⟩

/-- Every message of a run from the start hands over a stage of a published pipeline. -/
theorem BrokerRun.entrusts {sc₀ : BrokerScene} (hrun : BrokerRun kind cfg sc₀ sc)
    (horder : InOrder sc₀) (hsited : Sited kind sites sc₀) (hsent : sc₀.sent = [])
    (hnone : sc₀.state.pipelines = .empty) (hcalls : ∀ c ∈ sc.started, c.RespectsSites kind sites) :
    ∀ m ∈ sc.sent, Entrusts kind cfg sites sc.started m := by
  obtain ⟨-, hsent⟩ := hrun.sited horder hsited hsent hcalls
  intro m hm
  obtain ⟨ps, stage, nodeId, url, hps, hstage, hpayload, hresult, hmessage, hknown, hmay⟩ := hsent m hm
  have hnew : m.payload.pipelineId ∉ sc₀.state.pipelines := by
    rw [hnone]
    exact nofun
  obtain ⟨req, hcall, -, hforward⟩ := hrun.published hnew hps
  refine ⟨req, stage, nodeId, url, hcall, ?_, ?_, hresult, hmessage, hknown, hmay⟩
  · rw [← show ps.dag = req.dag from hforward.dag, hstage]
  · rw [← hforward.executeRequest_eq, ← hpayload]

end Sites

/-- Slice isolation: if every worker registers for the site that it has, and pipelines
are published on hosts that their stages may run on, then in every run, whatever fails,
every message is for a stage of a published pipeline, says of the stage what the DAG
says, and goes to a node that may run the stage, at a URL that its owner has given. -/
theorem messages_entrusted {kind : BrokerKind} {cfg : BrokerConfig} {sites : Sites}
    {w w' : BrokerWorld} (hw : Booted w) (hr : (faultyRules kind cfg).Reachable w w')
    (hcalls : ∀ c ∈ w'.started, c.RespectsSites kind sites) :
    ∀ m ∈ w'.sent, Entrusts kind cfg sites w'.started m := by
  have hrun := brokerRun_of_reachable hw.inOrder hw.tasks hr
  exact hrun.entrusts hw.inOrder hw.sited hw.sent hw.pipelines hcalls

private def sliceSites : Sites
  | "w2" => ("d1", "urllc")
  | _ => ("d1", "embb")

private def sliceDag : PipelineDAG :=
  .ofLists [⟨"a", "sense", 1, 1, some "embb", some "d1", none⟩] []

private def sliceTopology : NetworkTopology := ⟨[⟨"w1", "d1", "embb", 4, 0, none⟩], .empty⟩

private def sliceConfig : BrokerConfig :=
  { domainId := "d1", brokerId := "b1", healthCheckMaxFailures := 1 }

private def sliceRequest : PlacedPipeline :=
  ⟨"p", "single", sliceDag, .ofList [("a", "w1")], sliceTopology⟩

private def sliceCalls : List Call :=
  [.register ⟨"w1", "d1", "embb", 4, "http://w1", 0, ""⟩,
    .register ⟨"w2", "d1", "urllc", 4, "http://w2", 0, ""⟩,
    .register ⟨"w3", "d1", "embb", 4, "http://w3", 0, ""⟩, .publish sliceRequest]

private def sliceMoves : List (Base.Move Call PyError) :=
  sliceCalls.map .call ++ [.start 4, .call (.healthCheck [⟨"w1", false, none⟩]),
    .reply 4 (.error (.transport "refused"))]

private theorem respectsSites_sliceCalls :
    ∀ c ∈ sliceCalls ++ [.dispatchStage "p" "a", .healthCheck [⟨"w1", false, none⟩]],
      c.RespectsSites .neural sliceSites := by
  have hplaced : ∀ e ∈ sliceRequest.placement.entries, ∀ stage ∈ (sliceDag.getStage e.1).toOption,
      sliceMatches (sliceSites e.2).2 stage.sliceRequirement = true ∧
        stage.outsideDomain (sliceSites e.2).1 = false := by decide +kernel
  simp only [sliceCalls, List.cons_append, List.nil_append, List.forall_mem_cons]
  refine ⟨rfl, rfl, rfl, ⟨PipelineDAG.built_ofLists _ _, fun sid nodeId stage hget hstage => ?_⟩,
    trivial, trivial, nofun⟩
  have hmay := hplaced (sid, nodeId) (Dict.get?_eq_some_iff.mp hget) stage
    (by rw [show sliceDag.getStage sid = .ok stage from hstage]; rfl)
  exact ⟨hmay.1, fun _ => hmay.2⟩

/-- The worker dies while the send is under way: the stage goes to the other worker
of the slice. -/
theorem messages_entrusted_resent :
    ∃ w', (faultyRules .neural sliceConfig).performAll sliceMoves { state := {} } = some w' ∧
      w'.sent.length = 2 ∧
      ∀ m ∈ w'.sent, Entrusts .neural sliceConfig sliceSites w'.started m := by
  have hrun : ∃ w', (faultyRules .neural sliceConfig).performAll sliceMoves { state := {} } = some w' ∧
      w'.sent.length = 2 ∧ w'.started =
        sliceCalls ++ [.dispatchStage "p" "a", .healthCheck [⟨"w1", false, none⟩]] := by
    decide +kernel
  obtain ⟨w', hw', hlength, hstarted⟩ := hrun
  refine ⟨w', hw', hlength, messages_entrusted booted_initial
    (Rules.reachable_of_performAll _ hw') ?_⟩
  rw [hstarted]
  exact respectsSites_sliceCalls

end NeuralPubSub
