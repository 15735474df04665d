-- SUMMARY: A publish request from its receipt to its placement: what the broker builds, where it places it, and when it answers with an error.
import NeuralPubSub.Base.Collect
import NeuralPubSub.Broker.Isolation
import NeuralPubSub.Broker.Placement.Congestion
import NeuralPubSub.Broker.Placement.LatencyOrder
import NeuralPubSub.Broker.Placement.MarketLedger
import NeuralPubSub.Broker.ShardedOracle
import NeuralPubSub.Pipeline.Patterns

open Base

/-!
# Publish requests

The handler of `POST /publish` up to the point where it registers the pipeline:
the DAG is built from the type, its stages are placed in the mode of the broker,
and what cannot be placed becomes an HTTP error. From there on a request is a
`PlacedPipeline`.
-/

namespace NeuralPubSub

/-! ## Data of the local domain -/

/-- `"__local__"` stands for the domain of the broker. -/
def Stage.resolveLocal (domainId : DomainId) (stage : Stage) : Stage :=
  if stage.dataSovereigntyDomain = some "__local__" then
    { stage with dataSovereigntyDomain := some domainId }
  else stage

namespace PipelineDAG

/-- The loop over the stages; the graph is left as it is. -/
def resolveLocal (domainId : DomainId) (d : PipelineDAG) : PipelineDAG :=
  d.mapStages (Stage.resolveLocal domainId)

variable {domainId : DomainId} {d : PipelineDAG}

@[simp] theorem id_resolveLocal (stage : Stage) : (stage.resolveLocal domainId).id = stage.id := by
  unfold Stage.resolveLocal
  split <;> rfl

theorem stage?_resolveLocal (sid : StageId) :
    (d.resolveLocal domainId).stage? sid = (d.stage? sid).map (Stage.resolveLocal domainId) :=
  stage?_mapStages sid

/-- The builder would have made the resolved DAG from the resolved stages. -/
theorem Built.resolveLocal (h : d.Built) (domainId : DomainId) : (d.resolveLocal domainId).Built :=
  h.mapStages fun _ => id_resolveLocal _

end PipelineDAG

/-! ## Placement modes -/

/-- `placement_mode`; any other text means the first. -/
inductive PlacementMode where
  | neural
  | market
  | shardedOracle
  | locality
  | latency
  | spillover
  deriving DecidableEq, Repr

/-- What publishing reads besides the registry: settings that no other handler
reads, and what the peers have told the broker. -/
structure PublishContext where
  placementMode : PlacementMode := .neural
  wanCostMs : ℚ := 0
  marketLoadAware : Bool := false
  dynamicBidding : Bool := false
  /-- `is_coordinator_role()`. -/
  coordinator : Bool := false
  hasPeers : Bool := false
  /-- `_known_stage_types`, in the order of the set. -/
  stageTypes : List String := []
  peerPrices : PriceTable := .empty
  peerTopologies : List NetworkTopology := []
  /-- `_cross_latencies`, once the peers have answered. -/
  crossLatencies : Dict (NodeId × NodeId) ℚ := .empty

namespace NeuralBroker

/-- The prices of the peers, for the domains that have no price here. -/
def mergePeerPrices (prices peerPrices : PriceTable) : PriceTable :=
  peerPrices.entries.foldl (fun prices e =>
    if e.1 ∈ prices then prices else prices.insert e.1 e.2) prices

/-- `_dispatch_placement_on`; `none` when market mode rejects the pipeline. -/
def dispatchPlacementOn (cfg : BrokerConfig) (ctx : PublishContext) (dag : PipelineDAG)
    (topology : NetworkTopology) (governance : GovernancePolicy)
    (workers : Dict NodeId WorkerInfo) : Except PyError (Option Placement) :=
  match ctx.placementMode with
  | .market => do
    let prices ← computeClearingPricesFrom ctx.dynamicBidding ctx.stageTypes workers
    return marketModePlacement dag topology governance (mergePeerPrices prices ctx.peerPrices)
      ctx.wanCostMs cfg.domainId ctx.marketLoadAware
  | .shardedOracle =>
    if ctx.coordinator then
      some <$> decideGlobally dag topology ctx.peerTopologies ctx.crossLatencies governance cfg.weights
    else some <$> findPlacement dag topology governance cfg.weights
  | .locality => some <$> localityPlacement dag topology governance cfg.domainId
  | .latency => some <$> latencyGreedyPlacement dag topology governance
  | .spillover => some <$> spilloverPlacement dag topology governance cfg.domainId
  | .neural => some <$> findPlacement dag topology governance cfg.weights

/-- What the handler raises for a pipeline that is placed neither here nor by a peer. -/
def notPlaced (ctx : PublishContext) (config : PublishConfig) (localError : Option String) : PyError :=
  if ctx.hasPeers ∧ ¬ config.IsForwarded then
    let reason := localError.getD "None"
    .http 503 s!"Local placement failed ({reason}); federation forwarding also failed."
  -- without a detail the framework puts in the phrase of the status
  else .http 503 (localError.getD "Service Unavailable")

/-- The topology that the placement is checked against afterwards. -/
def feasibilityTopology (ctx : PublishContext) (topology : NetworkTopology) :
    Except PyError NetworkTopology :=
  if ctx.placementMode = .shardedOracle ∧ ctx.coordinator ∧ ctx.peerTopologies ≠ [] then
    mergeTopologies (topology :: ctx.peerTopologies) ctx.crossLatencies
  else .ok topology

/-- The handler of `POST /publish` up to the registration of the pipeline, where no
peer takes the request. -/
def placeRequest (num : Numerals) (cfg : BrokerConfig) (ctx : PublishContext)
    (pipelineId : PipelineId) (pipelineType : String) (config : PublishConfig) (b : Broker) :
    Except PyError PlacedPipeline :=
  match buildDag num pipelineType config with
  | .error (.value msg) => .error (.http 422 msg)
  | .error e => .error e
  | .ok template =>
    let dag := template.resolveLocal cfg.domainId
    if b.topology.nodes = [] then
      .error (notPlaced ctx config (some "No workers registered; cannot compute placement."))
    else
      match dispatchPlacementOn cfg ctx dag b.topology cfg.governance b.workers with
      | .error (.runtime msg) => .error (notPlaced ctx config (some msg))
      | .error e => .error e
      | .ok none => .error (notPlaced ctx config none)
      | .ok (some placement) => do
        let feasibilityTopology ← feasibilityTopology ctx b.topology
        return ⟨pipelineId, pipelineType, dag, placement, feasibilityTopology⟩

end NeuralBroker

namespace StaticBroker

/-- The loop of `_compute_placement` over the stages still to be placed. -/
def placeInOrder (cfg : BrokerConfig) (dag : PipelineDAG) :
    List StageId → Placement → Broker → Except PyError Placement × Broker
  | [], placement, b => (.ok placement, b)
  | stageId :: rest, placement, b =>
    match dag.getStage stageId with
    | .error e => (.error e, b)
    | .ok stage =>
      match pickWorker cfg stage.sliceRequirement b with
      | (.error e, b') => (.error e, b')
      | (.ok nodeId, b') => placeInOrder cfg dag rest (placement.insert stageId nodeId) b'

/-- `_compute_placement`. -/
def computePlacement (cfg : BrokerConfig) (dag : PipelineDAG) (b : Broker) :
    Except PyError Placement × Broker :=
  match dag.topologicalSort with
  | .error e => (.error e, b)
  | .ok order => placeInOrder cfg dag order .empty b

/-- The handler of `POST /publish` up to the registration of the pipeline. -/
def placeRequest (num : Numerals) (cfg : BrokerConfig) (pipelineId : PipelineId)
    (pipelineType : String) (config : PublishConfig) (b : Broker) :
    Except PyError PlacedPipeline × Broker :=
  match buildDag num pipelineType config with
  | .error (.value msg) => (.error (.http 422 msg), b)
  | .error e => (.error e, b)
  | .ok dag =>
    if b.workers.keys = [] then (.error (.http 503 "No workers registered."), b)
    else
      match computePlacement cfg dag b with
      | (.error e, b') => (.error e, b')
      | (.ok placement, b') => (.ok ⟨pipelineId, pipelineType, dag, placement, ⟨[], .empty⟩⟩, b')

end StaticBroker

/-! ## What the solvers return -/

section Solvers

variable {dag : PipelineDAG} {topology : NetworkTopology} {governance : GovernancePolicy}

/-- The solver raises `RuntimeError`, or places every stage on a node that slice and
sovereignty allow. -/
def Solves (dag : PipelineDAG) (topology : NetworkTopology) (result : Except PyError Placement) :
    Prop :=
  (∃ msg, result = .error (.runtime msg)) ∨
    ∃ p, result = .ok p ∧ TotalAssignment dag topology p ∧
      ∀ sid ∈ p, StageFits dag topology sid (p.get? sid)

theorem greedyPlacement_mem_iff (hw : dag.WellFormed) {w : Weights} {p : Placement}
    (hp : greedyPlacement dag topology governance w = .ok p) (sid : StageId) :
    sid ∈ p ↔ sid ∈ dag.stages := by
  obtain ⟨order, hperm, hplaced⟩ := greedyPlacement_rule
    (P := fun done p => ∀ sid, sid ∈ p ↔ sid ∈ done) hw hp (by simp) (by
      intro order done rest x s s' _ _ _ h hstep y
      obtain ⟨stage, -, node, -, -, hinsert⟩ := greedyStep_eq_ok hstep
      rw [hinsert, Dict.mem_insert, h, List.mem_append, List.mem_singleton, or_comm])
  rw [hplaced, hperm.mem_iff, Dict.mem_iff_mem_keys]

theorem StageFits.node {sid : StageId} {nodeId : NodeId}
    (h : StageFits dag topology sid (some nodeId)) : ∃ n ∈ topology.nodes, n.nodeId = nodeId := by
  obtain ⟨x, hx, hhost, -⟩ := h
  exact ⟨x, hx, (Option.some.inj hhost).symm⟩

theorem solves_of_fits {result : Except PyError Placement}
    (hreturns : (∃ p, result = .ok p) ∨ ∃ msg, result = .error (.runtime msg))
    (hfits : ∀ p, result = .ok p → (∀ sid, sid ∈ p ↔ sid ∈ dag.stages) ∧
      ∀ sid ∈ p, StageFits dag topology sid (p.get? sid)) : Solves dag topology result := by
  rcases hreturns with ⟨p, hp⟩ | herror
  · obtain ⟨hmem, hplaced⟩ := hfits p hp
    refine .inr ⟨p, hp, ⟨hmem, fun sid nodeId hget => ?_⟩, hplaced⟩
    have hfit := hplaced sid (Dict.mem_of_get?_eq_some hget)
    rw [hget] at hfit
    exact hfit.node
  · exact .inl herror

variable (governance) in
theorem solves_findPlacement (hbuilt : dag.Built) (hc : topology.Complete) (w : Weights) :
    Solves dag topology (findPlacement dag topology governance w) := by
  refine solves_of_fits (findPlacement_returns hbuilt hc governance w) fun p hp => ⟨fun sid => ?_, ?_⟩
  · by_cases htree : dag.isTree = true
    · obtain ⟨host, moves, final, -, -, hhosts, -⟩ := findPlacement_run hbuilt htree hc hp
      exact hhosts.mem_iff sid
    · rw [findPlacement, if_neg htree] at hp
      split at hp
      · next hempty =>
        obtain rfl := Except.ok.inj hp
        rw [Dict.mem_iff_mem_keys, Dict.mem_iff_mem_keys (d := dag.stages),
          List.length_eq_zero_iff.mp hempty]
        rfl
      · exact greedyPlacement_mem_iff hbuilt.wellFormed hp sid
  · exact findPlacement_stageFits hbuilt hc hp

/-- The common loop of the heuristics, for a choice that raises only `RuntimeError`. -/
theorem solves_placeStages
    {choose : Placement × Dict NodeId ℚ → StageId → Stage → Except PyError NodeId}
    (hbuilt : dag.Built) (htests : TestsChoice topology governance choose)
    (hchoose : ∀ s sid stage, OnNodes topology s.1 →
      (∃ nid, choose s sid stage = .ok nid) ∨ ∃ msg, choose s sid stage = .error (.runtime msg)) :
    Solves dag topology (placeStages dag choose) := by
  obtain ⟨order, horder, hperm, -⟩ := hbuilt.wellFormed.topologicalSort_eq
  have hloop := foldlM_scan (f := placeStage dag choose) (l := order) (b := (.empty, .empty))
    (P := fun _ s => OnNodes topology s.1) (Q := fun e => ∃ msg, e = PyError.runtime msg)
    (fun sid nid hget => by cases hget) (by
      intro done sid rest s hsplit hnodes
      obtain ⟨stage, hget, -, -⟩ := getStage_of_mem (hperm.mem_iff.mp (by simp [hsplit] : sid ∈ order))
      rcases hchoose s sid stage hnodes with ⟨nid, hnid⟩ | ⟨msg, hmsg⟩
      · refine .inl ⟨_, by simp only [placeStage, hget, hnid, bind, Except.bind]; rfl, ?_⟩
        obtain ⟨node, hnode, hid, -⟩ := htests s sid stage nid hnid
        intro x nid' hx
        rw [Dict.get?_insert] at hx
        split at hx
        · exact ⟨node, hnode, hid.trans (Option.some.inj hx)⟩
        · exact hnodes x nid' hx
      · exact .inr ⟨_, by simp only [placeStage, hget, hmsg, bind, Except.bind], msg, rfl⟩)
  refine solves_of_fits ?_ fun p hp => ?_
  · unfold placeStages
    rw [horder]
    rcases hloop with ⟨s, hs, -⟩ | ⟨e, he, msg, rfl⟩
    · simp only [bind, Except.bind, hs]
      exact .inl ⟨_, rfl⟩
    · simp only [bind, Except.bind, he]
      exact .inr ⟨msg, rfl⟩
  · obtain ⟨order', s, host, -, hperm', -, rfl, hchosen⟩ := placeStages_chosen hbuilt htests hp
    have hhosts := hchosen.hosts hperm'
    refine ⟨hhosts.mem_iff, fun sid hsid => ?_⟩
    have hmem := (hhosts.mem_iff sid).mp hsid
    rw [hhosts.get? sid hmem]
    exact ⟨host sid, hhosts.mem_nodes sid hmem, rfl, fun stage => hchosen.allowed hperm'⟩

theorem chooseLocal_returns (localDomain : DomainId) (s : Placement × Dict NodeId ℚ) (sid : StageId)
    (stage : Stage) : (∃ nid, chooseLocal topology governance localDomain s sid stage = .ok nid) ∨
      ∃ msg, chooseLocal topology governance localDomain s sid stage = .error (.runtime msg) := by
  unfold chooseLocal
  split
  · exact .inl ⟨_, rfl⟩
  · exact .inr ⟨_, rfl⟩

theorem chooseSpillover_returns (localDomain : DomainId) (s : Placement × Dict NodeId ℚ)
    (sid : StageId) (stage : Stage) :
    (∃ nid, chooseSpillover topology governance localDomain s sid stage = .ok nid) ∨
      ∃ msg, chooseSpillover topology governance localDomain s sid stage = .error (.runtime msg) := by
  unfold chooseSpillover
  split
  · exact .inl ⟨_, rfl⟩
  · split
    · exact .inl ⟨_, rfl⟩
    · exact .inr ⟨_, rfl⟩

theorem chooseLowestLatency_returns (hlat : topology.HasLatencies) {s : Placement × Dict NodeId ℚ}
    (hnodes : OnNodes topology s.1) (sid : StageId) (stage : Stage) :
    (∃ nid, chooseLowestLatency dag topology governance s sid stage = .ok nid) ∨
      ∃ msg, chooseLowestLatency dag topology governance s sid stage = .error (.runtime msg) := by
  obtain ⟨best, hbest, -⟩ := foldlM_considerNode governance hlat hnodes (dag.predecessors sid) stage
    (fun node hnode => hnode)
  unfold chooseLowestLatency
  rw [hbest]
  simp only [bind, Except.bind]
  cases best.2 with
  | some nid => exact .inl ⟨nid, rfl⟩
  | none => exact .inr ⟨_, rfl⟩

theorem NetworkTopology.Complete.hasLatencies (h : topology.Complete) : topology.HasLatencies :=
  fun _ ha _ hb => ⟨_, h.latency_eq ha hb⟩

variable (governance) in
theorem solves_localityPlacement (hbuilt : dag.Built) (localDomain : DomainId) :
    Solves dag topology (localityPlacement dag topology governance localDomain) := by
  unfold localityPlacement
  split
  · exact .inl ⟨_, rfl⟩
  · exact solves_placeStages hbuilt testsChoice_chooseLocal fun s sid stage _ =>
      chooseLocal_returns localDomain s sid stage

variable (governance) in
theorem solves_spilloverPlacement (hbuilt : dag.Built) (localDomain : DomainId) :
    Solves dag topology (spilloverPlacement dag topology governance localDomain) :=
  solves_placeStages hbuilt testsChoice_chooseSpillover fun s sid stage _ =>
    chooseSpillover_returns localDomain s sid stage

variable (governance) in
theorem solves_latencyGreedyPlacement (hbuilt : dag.Built) (hc : topology.Complete) :
    Solves dag topology (latencyGreedyPlacement dag topology governance) :=
  solves_placeStages hbuilt testsChoice_chooseLowestLatency fun _ sid stage hnodes =>
    chooseLowestLatency_returns hc.hasLatencies hnodes sid stage

end Solvers

theorem computeClearingPricesFrom_total (dynamicBidding : Bool) (stageTypes : List String)
    (workers : Dict NodeId WorkerInfo) :
    ∃ prices, computeClearingPricesFrom dynamicBidding stageTypes workers = .ok prices := by
  have hcost : ∀ w, ∃ cost, bidCost dynamicBidding w = .ok cost := by
    intro w
    cases dynamicBidding with
    | true => exact ⟨_, bidCost_dynamic w⟩
    | false => exact ⟨_, rfl⟩
  choose cost hcost using hcost
  have hbids : (workers.values.mapM fun w => do
      let cost ← bidCost dynamicBidding w
      .ok (stageTypes.map (workerBid w cost)) : Except PyError (List (List WorkerBid))) =
        .ok (workers.values.map fun w => stageTypes.map (workerBid w (cost w))) := by
    apply mapM_eq_ok
    intro w _
    rw [hcost]
    rfl
  rw [computeClearingPricesFrom, hbids]
  obtain ⟨prices, hok, -⟩ := computeClearingPrices_clears
    (workers.values.map fun w => stageTypes.map (workerBid w (cost w))).flatten
    (.ofList (stageTypes.map fun st => (st, 1)))
  exact ⟨prices, hok⟩

/-- The broker decides by itself, on what it knows of its own workers. -/
def PublishContext.Alone (ctx : PublishContext) : Prop :=
  ctx.placementMode = .shardedOracle → ctx.coordinator = false

instance (ctx : PublishContext) : Decidable ctx.Alone := inferInstanceAs (Decidable (_ → _))

theorem PublishContext.Alone.feasibilityTopology {ctx : PublishContext} (h : ctx.Alone)
    (topology : NetworkTopology) : NeuralBroker.feasibilityTopology ctx topology = .ok topology := by
  unfold NeuralBroker.feasibilityTopology
  rw [if_neg]
  rintro ⟨hmode, hcoordinator, -⟩
  exact absurd hcoordinator (by simp [h hmode])

namespace NeuralBroker

section Dispatch

variable {cfg : BrokerConfig} {ctx : PublishContext} {dag : PipelineDAG} {topology : NetworkTopology}
  {governance : GovernancePolicy} {workers : Dict NodeId WorkerInfo}

variable (cfg governance workers) in
/-- The three ends of a placement: the solver raises `RuntimeError`, the market rejects
the pipeline, or every stage has a node. -/
theorem dispatchPlacementOn_cases (hbuilt : dag.Built) (hc : topology.Complete) (hctx : ctx.Alone) :
    (∃ msg, dispatchPlacementOn cfg ctx dag topology governance workers = .error (.runtime msg)) ∨
    dispatchPlacementOn cfg ctx dag topology governance workers = .ok none ∨
    ∃ p, dispatchPlacementOn cfg ctx dag topology governance workers = .ok (some p) ∧
      TotalAssignment dag topology p ∧
        (ctx.placementMode ≠ .market → ∀ sid ∈ p, StageFits dag topology sid (p.get? sid)) := by
  have hsolver : ∀ result : Except PyError Placement, Solves dag topology result →
      dispatchPlacementOn cfg ctx dag topology governance workers = some <$> result →
      (∃ msg, dispatchPlacementOn cfg ctx dag topology governance workers = .error (.runtime msg)) ∨
      dispatchPlacementOn cfg ctx dag topology governance workers = .ok none ∨
      ∃ p, dispatchPlacementOn cfg ctx dag topology governance workers = .ok (some p) ∧
        TotalAssignment dag topology p ∧
          (ctx.placementMode ≠ .market → ∀ sid ∈ p, StageFits dag topology sid (p.get? sid)) := by
    intro result hresult hdispatch
    rcases hresult with ⟨msg, rfl⟩ | ⟨p, rfl, htotal, hfits⟩
    · exact .inl ⟨msg, hdispatch⟩
    · exact .inr (.inr ⟨p, hdispatch, htotal, fun _ => hfits⟩)
  cases hmode : ctx.placementMode with
  | market =>
    obtain ⟨prices, hprices⟩ := computeClearingPricesFrom_total ctx.dynamicBidding ctx.stageTypes workers
    have hdispatch : dispatchPlacementOn cfg ctx dag topology governance workers =
        .ok (marketModePlacement dag topology governance (mergePeerPrices prices ctx.peerPrices)
          ctx.wanCostMs cfg.domainId ctx.marketLoadAware) := by
      rw [dispatchPlacementOn, hmode, hprices]
      rfl
    rw [hdispatch]
    cases hplaced : marketModePlacement dag topology governance (mergePeerPrices prices ctx.peerPrices)
        ctx.wanCostMs cfg.domainId ctx.marketLoadAware with
    | none => exact .inr (.inl rfl)
    | some p =>
      rw [marketModePlacement_eq] at hplaced
      obtain ⟨r, hr, hplaced⟩ := Option.bind_eq_some_iff.mp hplaced
      have hinv := marketLoop_ledgerInv hbuilt.wellFormed hc.nodupIds hr
      split at hplaced
      · obtain rfl := Option.some.inj hplaced
        have hmem : ∀ sid, sid ∈ r.placement ↔ sid ∈ dag.stages := by
          intro sid
          rw [hinv.mem_iff, hbuilt.wellFormed.map_id_values, Dict.mem_iff_mem_keys]
        refine .inr (.inr ⟨r.placement, rfl, ⟨hmem, fun sid nodeId hget => ?_⟩,
          fun hne => absurd rfl hne⟩)
        have hsid := (hinv.mem_iff sid).mp (Dict.mem_of_get?_eq_some hget)
        obtain ⟨stage, hstage, rfl⟩ := List.mem_map.mp hsid
        obtain ⟨n, hn, hget'⟩ := hinv.host stage hstage
        exact ⟨n, hn, Option.some.inj (hget'.symm.trans hget)⟩
      · cases hplaced
  | shardedOracle =>
    rw [hmode] at hsolver
    refine hsolver _ (solves_findPlacement governance hbuilt hc cfg.weights) ?_
    rw [dispatchPlacementOn, hmode]
    simp only [hctx hmode]
    rfl
  | locality =>
    rw [hmode] at hsolver
    refine hsolver _ (solves_localityPlacement governance hbuilt cfg.domainId) ?_
    rw [dispatchPlacementOn, hmode]
  | latency =>
    rw [hmode] at hsolver
    refine hsolver _ (solves_latencyGreedyPlacement governance hbuilt hc) ?_
    rw [dispatchPlacementOn, hmode]
  | spillover =>
    rw [hmode] at hsolver
    refine hsolver _ (solves_spilloverPlacement governance hbuilt cfg.domainId) ?_
    rw [dispatchPlacementOn, hmode]
  | neural =>
    rw [hmode] at hsolver
    refine hsolver _ (solves_findPlacement governance hbuilt hc cfg.weights) ?_
    rw [dispatchPlacementOn, hmode]

variable {num : Numerals} {pipelineId : PipelineId} {pipelineType : String} {config : PublishConfig}
  {b : Broker}

/-- What a request that is placed has gone through. -/
theorem placeRequest_eq_ok (hctx : ctx.Alone) {req : PlacedPipeline}
    (h : placeRequest num cfg ctx pipelineId pipelineType config b = .ok req) :
    ∃ template, buildDag num pipelineType config = .ok template ∧
      dispatchPlacementOn cfg ctx (template.resolveLocal cfg.domainId) b.topology cfg.governance
        b.workers = .ok (some req.placement) ∧
      req = ⟨pipelineId, pipelineType, template.resolveLocal cfg.domainId, req.placement,
        b.topology⟩ := by
  unfold placeRequest at h
  split at h
  · cases h
  · cases h
  · next template htemplate =>
    dsimp only at h
    split at h
    · cases h
    · split at h
      · cases h
      · cases h
      · cases h
      · next placement hplacement =>
        rw [hctx.feasibilityTopology] at h
        obtain rfl := Except.ok.inj h
        exact ⟨template, htemplate, hplacement, rfl⟩

/-- A request that is not placed is answered with 422 when building its DAG raises
`ValueError`, and with 503 when it is built; what else `int` or `float` raises goes on. -/
theorem placeRequest_cases (hc : b.topology.Complete) (hctx : ctx.Alone) :
    (∃ req, placeRequest num cfg ctx pipelineId pipelineType config b = .ok req) ∨
    (∃ msg, placeRequest num cfg ctx pipelineId pipelineType config b = .error (.http 422 msg) ∧
      buildDag num pipelineType config = .error (.value msg)) ∨
    (∃ detail, placeRequest num cfg ctx pipelineId pipelineType config b =
      .error (.http 503 detail)) ∨
    ∃ e, placeRequest num cfg ctx pipelineId pipelineType config b = .error e ∧
      buildDag num pipelineType config = .error e ∧ ¬ config.Numeric ∧ e.IsConversionError := by
  have hdetail : ∀ localError, ∃ detail, notPlaced ctx config localError = .http 503 detail := by
    intro localError
    unfold notPlaced
    split
    · exact ⟨_, rfl⟩
    · exact ⟨_, rfl⟩
  unfold placeRequest
  cases htemplate : buildDag num pipelineType config with
  | error e =>
    have hvalue := yields_buildDag num pipelineType config
    rw [htemplate] at hvalue
    rcases hvalue with ⟨msg, rfl⟩ | ⟨hnumeric, hconversion⟩
    · exact .inr (.inl ⟨msg, rfl, rfl⟩)
    · refine .inr (.inr (.inr ⟨e, ?_, rfl, hnumeric, hconversion⟩))
      rcases hconversion with ⟨msg, rfl⟩ | ⟨msg, rfl⟩
      · rfl
      · rfl
  | ok template =>
    have hbuilt := (built_buildDag htemplate).resolveLocal cfg.domainId
    dsimp only
    split
    · obtain ⟨detail, heq⟩ := hdetail (some "No workers registered; cannot compute placement.")
      exact .inr (.inr (.inl ⟨detail, by rw [heq]⟩))
    · rcases dispatchPlacementOn_cases cfg cfg.governance b.workers hbuilt hc
        hctx with ⟨msg, hdispatch⟩ | hdispatch | ⟨p, hdispatch, -⟩
      · obtain ⟨detail, heq⟩ := hdetail (some msg)
        rw [hdispatch]
        exact .inr (.inr (.inl ⟨detail, congrArg Except.error heq⟩))
      · obtain ⟨detail, heq⟩ := hdetail none
        rw [hdispatch]
        exact .inr (.inr (.inl ⟨detail, congrArg Except.error heq⟩))
      · refine .inl ⟨⟨pipelineId, pipelineType, template.resolveLocal cfg.domainId, p, b.topology⟩, ?_⟩
        rw [hdispatch]
        simp only [hctx.feasibilityTopology]
        rfl

end Dispatch

end NeuralBroker

namespace StaticBroker

variable {cfg : BrokerConfig} {dag : PipelineDAG} {b : Broker}

/-- A pick that raises does so for want of eligible workers. -/
theorem pickWorker_raises (hcycles : CyclesValid b) {s : Option SliceId} {e : PyError} {b' : Broker}
    (h : pickWorker cfg s b = (.error e, b')) : ∀ nodeId, ¬ Eligible b s nodeId := by
  cases hstrategy : cfg.placementStrategy with
  | roundRobin =>
    rcases pickWorker_cases hstrategy hcycles s with ⟨-, hnone⟩ | ⟨nodeId, hok, -⟩
    · exact hnone
    · rw [h] at hok
      cases hok
  | random =>
    unfold pickWorker at h
    rw [hstrategy] at h
    split at h
    · next hempty =>
      rintro nodeId ⟨worker, hworker, -⟩
      exact List.ne_nil_of_mem (Dict.mem_of_get?_eq_some hworker) hempty
    · dsimp only at h
      split at h
      · next hnone =>
        intro nodeId heligible
        have hmem := mem_eligibleWorkers.mpr heligible
        have hlength := List.getElem?_eq_none_iff.mp hnone
        exact absurd (Nat.mod_lt _ (List.length_pos_of_mem hmem)) (Nat.not_lt.mpr hlength)
      · cases h

variable (cfg) in
/-- A pick gives an eligible worker, or raises `RuntimeError` because there is none. -/
theorem pickWorker_returns (hcycles : CyclesValid b) (s : Option SliceId) :
    ∃ b', b'.workers = b.workers ∧ CyclesValid b' ∧
      ((∃ nodeId, pickWorker cfg s b = (.ok nodeId, b') ∧ Eligible b s nodeId) ∨
        ∃ msg, pickWorker cfg s b = (.error (.runtime msg), b') ∧ ∀ nodeId, ¬ Eligible b s nodeId) := by
  have hworkers := workers_pickWorker cfg s b
  cases hpick : pickWorker cfg s b with
  | mk result b' =>
    rw [hpick] at hworkers
    cases result with
    | ok nodeId =>
      obtain ⟨heligible, hvalid⟩ := pickWorker_eligible hcycles hpick
      exact ⟨b', hworkers, hvalid, .inl ⟨nodeId, rfl, heligible⟩⟩
    | error e =>
      obtain ⟨rfl, msg, rfl⟩ := Follows.pickWorker_of_error hpick
      exact ⟨_, rfl, hcycles, .inr ⟨msg, rfl, pickWorker_raises hcycles hpick⟩⟩

theorem Eligible.congr {b' : Broker} (hworkers : b'.workers = b.workers) {s : Option SliceId}
    {nodeId : NodeId} : Eligible b' s nodeId ↔ Eligible b s nodeId := by
  rw [Eligible, hworkers, Eligible]

/-- The stages have eligible workers. -/
def PlacedOn (dag : PipelineDAG) (b : Broker) (placement : Placement) : Prop :=
  ∀ sid stage nodeId, dag.stage? sid = some stage → placement.get? sid = some nodeId →
    Eligible b stage.sliceRequirement nodeId

variable (cfg dag) in
/-- The loop places the stages that are left, or stops at one without eligible workers. -/
theorem placeInOrder_returns (stages : List StageId) (hstages : ∀ sid ∈ stages, sid ∈ dag.stages)
    {placement : Placement} (hcycles : CyclesValid b) (hplaced : PlacedOn dag b placement) :
    ∃ b', b'.workers = b.workers ∧ CyclesValid b' ∧
      ((∃ p, placeInOrder cfg dag stages placement b = (.ok p, b') ∧ PlacedOn dag b p ∧
          ∀ sid, sid ∈ p ↔ sid ∈ stages ∨ sid ∈ placement) ∨
        ∃ msg, placeInOrder cfg dag stages placement b = (.error (.runtime msg), b') ∧
          ∃ sid ∈ stages, ∃ stage, dag.stage? sid = some stage ∧
            ∀ nodeId, ¬ Eligible b stage.sliceRequirement nodeId) := by
  induction stages generalizing placement b with
  | nil => exact ⟨b, rfl, hcycles, .inl ⟨placement, rfl, hplaced, by simp⟩⟩
  | cons sid rest ih =>
    obtain ⟨stage, hget, hstage, -⟩ := getStage_of_mem (hstages sid List.mem_cons_self)
    obtain ⟨b₁, hworkers₁, hcycles₁, hpick⟩ :=
      pickWorker_returns cfg hcycles stage.sliceRequirement
    rcases hpick with ⟨nodeId, hpick, heligible⟩ | ⟨msg, hpick, hnone⟩
    · have hplaced₁ : PlacedOn dag b₁ (placement.insert sid nodeId) := by
        intro x stage' nodeId' hstage' hget'
        rw [Eligible.congr hworkers₁]
        rw [Dict.get?_insert] at hget'
        split at hget'
        · next heq =>
          subst heq
          obtain rfl := Option.some.inj hget'
          obtain rfl := Option.some.inj (hstage.symm.trans hstage')
          exact heligible
        · exact hplaced x stage' nodeId' hstage' hget'
      obtain ⟨b', hworkers', hcycles', hrest⟩ :=
        ih (fun x hx => hstages x (List.mem_cons_of_mem _ hx)) hcycles₁ hplaced₁
      refine ⟨b', hworkers'.trans hworkers₁, hcycles', ?_⟩
      rw [placeInOrder, hget]
      simp only [hpick]
      rcases hrest with ⟨p, hp, hplacedOn, hmem⟩ | ⟨msg, herror, x, hx, stage', hstage', hnone⟩
      · refine .inl ⟨p, hp, fun x stage' nodeId' hs hn => ?_, fun x => ?_⟩
        · exact (Eligible.congr hworkers₁).mp (hplacedOn x stage' nodeId' hs hn)
        · rw [hmem, Dict.mem_insert, List.mem_cons]
          tauto
      · refine .inr ⟨msg, herror, x, List.mem_cons_of_mem _ hx, stage', hstage', fun nodeId' h => ?_⟩
        exact hnone nodeId' ((Eligible.congr hworkers₁).mpr h)
    · refine ⟨b₁, hworkers₁, hcycles₁, .inr ⟨msg, ?_, sid, List.mem_cons_self, stage, hstage, hnone⟩⟩
      rw [placeInOrder, hget]
      simp only [hpick]

variable (cfg) in
theorem computePlacement_returns (hbuilt : dag.Built) (hcycles : CyclesValid b) :
    ∃ b', b'.workers = b.workers ∧ CyclesValid b' ∧
      ((∃ p, computePlacement cfg dag b = (.ok p, b') ∧ PlacedOn dag b p ∧
          ∀ sid, sid ∈ p ↔ sid ∈ dag.stages) ∨
        ∃ msg, computePlacement cfg dag b = (.error (.runtime msg), b') ∧
          ∃ sid stage, dag.stage? sid = some stage ∧
            ∀ nodeId, ¬ Eligible b stage.sliceRequirement nodeId) := by
  obtain ⟨order, horder, hperm, -⟩ := hbuilt.wellFormed.topologicalSort_eq
  have hempty : PlacedOn dag b .empty := by
    intro sid stage nodeId hstage hget
    cases hget
  obtain ⟨b', hworkers, hcycles', hloop⟩ := placeInOrder_returns cfg dag order
    (fun sid hsid => hperm.mem_iff.mp hsid) hcycles hempty
  refine ⟨b', hworkers, hcycles', ?_⟩
  rw [computePlacement, horder]
  rcases hloop with ⟨p, hp, hplaced, hmem⟩ | ⟨msg, herror, sid, -, stage, hstage, hnone⟩
  · refine .inl ⟨p, hp, hplaced, fun sid => ?_⟩
    rw [hmem, hperm.mem_iff, or_iff_left Dict.not_mem_empty]
    rfl
  · exact .inr ⟨msg, herror, sid, stage, hstage, hnone⟩

end StaticBroker

/-! ## Every request is answered -/

/-- The pipeline is placed as the handlers that follow rely on. -/
structure WellPlaced (cfg : BrokerConfig) (b : Broker) (req : PlacedPipeline) : Prop where
  built : req.dag.Built
  mem_iff : ∀ sid, sid ∈ req.placement ↔ sid ∈ req.dag.stages
  registered : ∀ sid nodeId, req.placement.get? sid = some nodeId → nodeId ∈ b.workers
  checked : ∃ violations, checkFeasibility req.placement req.dag req.feasibilityTopology
    cfg.governance = .ok (violations.length = 0, violations)

/-- Slice and sovereignty of every stage allow its worker. -/
def AllowedHosts (b : Broker) (req : PlacedPipeline) : Prop :=
  ∀ sid stage nodeId worker, req.dag.stage? sid = some stage →
    req.placement.get? sid = some nodeId → b.workers.get? nodeId = some worker →
      sliceMatches worker.sliceId stage.sliceRequirement = true ∧
        stage.outsideDomain worker.domainId = false

private def radioNumerals : Numerals where
  int s := match s.toInt? with
    | some n => .ok n
    | none => .error s!"invalid literal for int() with base 10: '{s}'"
  float s := .error s!"could not convert string to float: '{s}'"

private def radioConfig : BrokerConfig :=
  { domainId := "d1", brokerId := "b1", healthCheckMaxFailures := 1 }

private def radioCalls : List Call :=
  [.register ⟨"w0", "d2", "URLLC", 4, "http://w0", 0, ""⟩,
    .register ⟨"w1", "d1", "URLLC", 4, "http://w1", 0, ""⟩]

/-- The broker has built and placed the pipeline itself, in the state `b`; the cycles of
a static broker stand where earlier picks have left them. -/
def PlacedBy (num : Numerals) (kind : BrokerKind) (cfg : BrokerConfig) (b : Broker)
    (config : PublishConfig) (req : PlacedPipeline) : Prop :=
  match kind with
  | .base => False
  | .static => ∃ b₁ b₂, b₁.workers = b.workers ∧ StaticBroker.CyclesValid b₁ ∧
    StaticBroker.placeRequest num cfg req.pipelineId req.pipelineType config b₁ = (.ok req, b₂)
  | .neural => ∃ ctx : PublishContext, ctx.Alone ∧ ctx.placementMode ≠ .market ∧
    NeuralBroker.placeRequest num cfg ctx req.pipelineId req.pipelineType config b = .ok req

/-- Every pipeline published in the run was placed at some point of the run. -/
def PublishesOwn (num : Numerals) (kind : BrokerKind) (cfg : BrokerConfig) (w w' : BrokerWorld) :
    Prop :=
  ∀ req, Call.publish req ∈ w'.started → ∃ u config, (faultyRules kind cfg).Reachable w u ∧
    u.started ⊆ w'.started ∧ PlacedBy num kind cfg u.state config req

/-- The template's stage, as the broker of the domain dispatches it, may run in the site. -/
def Stage.StaysWithin (kind : BrokerKind) (cfg : BrokerConfig) (stage : Stage)
    (site : DomainId × SliceId) : Prop :=
  sliceMatches site.2 stage.sliceRequirement = true ∧
    (kind = .neural → if stage.dataSovereigntyDomain = some "__local__" then site.1 = cfg.domainId
      else stage.outsideDomain site.1 = false)

theorem StaticBroker.placeRequest_eq_ok {num : Numerals} {cfg : BrokerConfig}
    {pipelineId : PipelineId} {pipelineType : String} {config : PublishConfig} {b b' : Broker}
    {req : PlacedPipeline}
    (h : placeRequest num cfg pipelineId pipelineType config b = (.ok req, b')) :
    buildDag num pipelineType config = .ok req.dag ∧
      computePlacement cfg req.dag b = (.ok req.placement, b') := by
  unfold placeRequest at h
  split at h
  · cases h
  · cases h
  · next dag hdag =>
    split at h
    · cases h
    · split at h
      · cases h
      · next placement b₁ hplacement =>
        obtain ⟨hreq, rfl⟩ := Prod.mk.inj h
        obtain rfl := Except.ok.inj hreq
        exact ⟨hdag, hplacement⟩

section Requests

variable {num : Numerals} {kind : BrokerKind} {cfg : BrokerConfig} {sites : Sites} {sc : BrokerScene}
  {config : PublishConfig} {req : PlacedPipeline}

/-- A pipeline that the broker places itself goes to hosts that its stages may run on. -/
theorem Stationed.respectsSites (hstationed : Stationed kind sc)
    (h : PlacedBy num kind cfg sc.state config req) (hsites : RegisteredAt sites sc.started) :
    (Call.publish req).RespectsSites kind sites := by
  cases kind with
  | base => exact h.elim
  | static =>
    obtain ⟨b₁, b₂, hworkers, hcycles, hplaced⟩ := h
    obtain ⟨hdag, hplacement⟩ := StaticBroker.placeRequest_eq_ok hplaced
    have hbuilt := built_buildDag hdag
    refine ⟨hbuilt, fun sid nodeId stage hget hstage => ?_⟩
    obtain ⟨b', -, -, ⟨p, hp, hon, -⟩ | ⟨msg, herror, -⟩⟩ :=
      StaticBroker.computePlacement_returns cfg hbuilt hcycles
    · obtain rfl := Except.ok.inj (Prod.mk.inj (hp.symm.trans hplacement)).1
      have heligible := hon sid stage nodeId (subscript_eq_ok_iff.mp hstage) hget
      exact ((StaticBroker.Eligible.congr hworkers).mp heligible).mayRunOn hstationed hsites
    · cases (Prod.mk.inj (herror.symm.trans hplacement)).1
  | neural =>
    obtain ⟨ctx, hctx, hmode, hplaced⟩ := h
    obtain ⟨template, htemplate, hdispatch, heq⟩ := NeuralBroker.placeRequest_eq_ok hctx hplaced
    have hbuilt : (template.resolveLocal cfg.domainId).Built :=
      (built_buildDag htemplate).resolveLocal cfg.domainId
    have hdag : req.dag = template.resolveLocal cfg.domainId := by rw [heq]
    rw [← hdag] at hbuilt hdispatch
    refine ⟨hbuilt, fun sid nodeId stage hget hstage => ?_⟩
    rcases NeuralBroker.dispatchPlacementOn_cases cfg cfg.governance sc.state.workers hbuilt
      (hstationed.topology rfl).1 hctx with
      ⟨msg, h⟩ | h | ⟨p, h, -, hfits⟩
    · cases h.symm.trans hdispatch
    · cases h.symm.trans hdispatch
    · obtain rfl := Option.some.inj (Except.ok.inj (h.symm.trans hdispatch))
      have hfit := hfits hmode sid (Dict.mem_of_get?_eq_some hget)
      rw [hget] at hfit
      exact hstationed.mayRunOn hsites hfit hstage

/-- The DAG that is dispatched says of a stage what the template says, but for the name
of the local domain. -/
theorem PlacedBy.template {b : Broker} (h : PlacedBy num kind cfg b config req) {sid : StageId}
    {stage : Stage} (hstage : req.dag.getStage sid = .ok stage) {site : DomainId × SliceId}
    (hslice : sliceMatches site.2 stage.sliceRequirement = true)
    (hdomain : kind ≠ .static → stage.outsideDomain site.1 = false) :
    ∃ template original, buildDag num req.pipelineType config = .ok template ∧
      template.getStage sid = .ok original ∧ original.stageType = stage.stageType ∧
      original.StaysWithin kind cfg site := by
  cases kind with
  | base => exact h.elim
  | static =>
    obtain ⟨b₁, b₂, -, -, hplaced⟩ := h
    exact ⟨req.dag, stage, (StaticBroker.placeRequest_eq_ok hplaced).1, hstage, rfl, hslice, nofun⟩
  | neural =>
    obtain ⟨ctx, hctx, -, hplaced⟩ := h
    obtain ⟨template, htemplate, -, heq⟩ := NeuralBroker.placeRequest_eq_ok hctx hplaced
    have hdag : req.dag = template.resolveLocal cfg.domainId := by rw [heq]
    have hresolved := subscript_eq_ok_iff.mp hstage
    rw [hdag] at hresolved
    obtain ⟨original, horiginal, rfl⟩ := Option.map_eq_some_iff.mp
      ((PipelineDAG.stage?_resolveLocal sid).symm.trans hresolved)
    replace hdomain := hdomain nofun
    refine ⟨template, original, htemplate, subscript_eq_ok_iff.mpr horiginal, ?_, ?_, fun _ => ?_⟩
    · unfold Stage.resolveLocal
      split <;> rfl
    · unfold Stage.resolveLocal at hslice
      split at hslice
      · exact hslice
      · exact hslice
    · unfold Stage.resolveLocal at hdomain
      split
      · next hlocal =>
        rw [if_pos hlocal] at hdomain
        have hsame : cfg.domainId = site.1 := by simpa [Stage.outsideDomain] using hdomain
        exact hsame.symm
      · next hremote =>
        rw [if_neg hremote] at hdomain
        exact hdomain

end Requests

/-- Local data stays local: from the request to the worker, through stale snapshots,
re-placements and re-sends, a stage goes only to workers whose slice matches, and a
neural broker sends a stage that its template marks as local only to its own domain. -/
theorem requests_entrusted {num : Numerals} {kind : BrokerKind} {cfg : BrokerConfig} {sites : Sites}
    {w w' : BrokerWorld} (hw : Booted w) (hr : (faultyRules kind cfg).Reachable w w')
    (hsites : RegisteredAt sites w'.started) (hown : PublishesOwn num kind cfg w w') :
    ∀ m ∈ w'.sent, ∃ req config template stage nodeId url, Call.publish req ∈ w'.started ∧
      buildDag num req.pipelineType config = .ok template ∧
      template.getStage m.payload.stageId = .ok stage ∧ m.payload.stageType = stage.stageType ∧
      m = workerMessage cfg nodeId url m.payload ∧ KnownAt w'.started nodeId url ∧
      stage.StaysWithin kind cfg (sites nodeId) := by
  have hrun := brokerRun_of_reachable hw.inOrder hw.tasks hr
  have hcalls : ∀ c ∈ w'.started, c.RespectsSites kind sites := by
    intro c hc
    cases c with
    | register req => exact hsites req hc
    | publish req =>
      obtain ⟨u, config, hu, hsub, hplaced⟩ := hown req hc
      have hearlier := brokerRun_of_reachable hw.inOrder hw.tasks hu
      have hstationed : Stationed kind u.scene := hearlier.stationed hw.stationed
      exact hstationed.respectsSites hplaced fun r hr => hsites r (hsub hr)
    | deregister | result | dispatchStage | healthCheck | cachePeerWorkers | tick => trivial
  intro m hm
  obtain ⟨req, stage, nodeId, url, hcall, hstage, hpayload, -, hmessage, hknown, hslice, hdomain⟩ :=
    hrun.entrusts hw.inOrder hw.sited hw.sent hw.pipelines hcalls m hm
  obtain ⟨u, config, -, -, hplaced⟩ := hown req hcall
  obtain ⟨template, original, htemplate, horiginal, htype, hwithin⟩ :=
    hplaced.template hstage hslice hdomain
  refine ⟨req, config, template, original, nodeId, url, hcall, htemplate, horiginal, ?_, hmessage,
    hknown, hwithin⟩
  rw [htype, hpayload]
  rfl

private def radioRequest : PlacedPipeline :=
  let world := (faultyRules .neural radioConfig).performAll (radioCalls.map .call) { state := {} }
  let placed := world.bind fun w =>
    (NeuralBroker.placeRequest radioNumerals radioConfig {} "p" "cqi_prediction" {} w.state).toOption
  placed.getD ⟨"p", "cqi_prediction", .empty none, .empty, ⟨[], .empty⟩⟩

private def radioMoves : List (Base.Move Call PyError) :=
  radioCalls.map .call ++ [.call (.publish radioRequest), .start 3]

private def radioSites : Sites
  | "w0" => ("d2", "URLLC")
  | _ => ("d1", "URLLC")

/-- The worker of the other domain has registered first; the local stage passes it by. -/
theorem requests_entrusted_radio :
    ∃ w', (faultyRules .neural radioConfig).performAll radioMoves { state := {} } = some w' ∧
      w'.sent.length = 1 ∧
      ∀ m ∈ w'.sent, ∃ req config template stage nodeId url, Call.publish req ∈ w'.started ∧
        buildDag radioNumerals req.pipelineType config = .ok template ∧
        template.getStage m.payload.stageId = .ok stage ∧ m.payload.stageType = stage.stageType ∧
        m = workerMessage radioConfig nodeId url m.payload ∧ KnownAt w'.started nodeId url ∧
        stage.StaysWithin .neural radioConfig (radioSites nodeId) := by
  have hrun : ∃ w', (faultyRules .neural radioConfig).performAll radioMoves { state := {} } = some w' ∧
      w'.sent.length = 1 ∧
      w'.started = radioCalls ++ [.publish radioRequest, .dispatchStage "p" "collect"] := by
    decide +kernel
  have hbefore : ∃ u, (faultyRules .neural radioConfig).performAll (radioCalls.map .call)
      { state := {} } = some u ∧ u.started = radioCalls ∧
      NeuralBroker.placeRequest radioNumerals radioConfig {} "p" "cqi_prediction" {} u.state =
        .ok radioRequest ∧
      radioRequest.pipelineId = "p" ∧ radioRequest.pipelineType = "cqi_prediction" := by
    decide +kernel
  obtain ⟨w', hw', hlength, hstarted⟩ := hrun
  obtain ⟨u, hu, hustarted, hplaced, hid, htype⟩ := hbefore
  refine ⟨w', hw', hlength, requests_entrusted booted_initial
    (Rules.reachable_of_performAll _ hw') ?_ ?_⟩
  · intro req hreq
    simp only [hstarted, radioCalls, List.mem_append, List.mem_cons, List.not_mem_nil, or_false,
      Call.register.injEq, reduceCtorEq] at hreq
    rcases hreq with rfl | rfl
    · rfl
    · rfl
  · intro req hreq
    simp only [hstarted, radioCalls, List.mem_append, List.mem_cons, List.not_mem_nil, or_false,
      Call.publish.injEq, reduceCtorEq, false_or] at hreq
    subst hreq
    refine ⟨u, {}, Rules.reachable_of_performAll _ hu, ?_, {}, by decide, nofun, ?_⟩
    · rw [hustarted, hstarted]
      exact List.subset_append_left _ _
    · rw [hid, htype]
      exact hplaced

end NeuralPubSub
