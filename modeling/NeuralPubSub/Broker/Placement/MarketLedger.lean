-- SUMMARY: The ledgers of market-mode placement: no node is overbooked, and the total is what the hosts charge.
import NeuralPubSub.Broker.Placement.Market

open Base

/-!
# The ledgers of market mode

The loop over the stages keeps two running figures: the load it has committed to
each node, and the cost so far. The load is tested before it is committed; the
cost is added before the host is known and corrected when the stage falls back to
the local domain.
-/

namespace NeuralPubSub

variable {topology : NetworkTopology} {clearingPrices : PriceTable} {wanCost : ℚ}
  {localDomain : DomainId} {loadAware : Bool}

/-! ## Prices -/

/-- What a stage type costs in a domain: its clearing price there, and the cost
of the transfer unless the domain is the local one. -/
def hostingPrice (clearingPrices : PriceTable) (wanCost : ℚ) (localDomain : DomainId)
    (stageType : String) (domainId : DomainId) : WithTop ℚ :=
  listedPrice (clearingPrices.getD domainId .empty) stageType +
    (if domainId = localDomain then 0 else wanCost : ℚ)

theorem hostingPrice_local (stageType : String) :
    hostingPrice clearingPrices wanCost localDomain stageType localDomain =
      localPrice clearingPrices localDomain stageType := by
  simp [hostingPrice, localPrice]

/-- The best remote domain is not the local one; its price is finite, and it is the
price it lists. -/
theorem bestRemote_spec {stageType : String} {remote : DomainId} {price : WithTop ℚ}
    (h : bestRemote clearingPrices wanCost localDomain stageType = (some remote, price)) :
    remote ≠ localDomain ∧ price ≠ ⊤ ∧
      price = listedPrice (clearingPrices.getD remote .empty) stageType := by
  have hinv := foldl_scan (l := clearingPrices.entries) (b := ((none, ⊤) : Option DomainId × WithTop ℚ))
    (f := fun best e =>
      if e.1 = localDomain then best
      else
        let remotePrice := listedPrice e.2 stageType
        if shouldTradeCrossDomain (localPrice clearingPrices localDomain stageType) remotePrice
            wanCost then
          if remotePrice + wanCost < best.2 + wanCost then (some e.1, remotePrice) else best
        else best)
    (P := fun _ best => ∀ remote price, best = (some remote, price) →
      remote ≠ localDomain ∧ price ≠ ⊤ ∧
        price = listedPrice (clearingPrices.getD remote .empty) stageType)
    (by simp) (by
    rintro done ⟨domainId, prices⟩ rest best hsplit hbest
    have hentry : (domainId, prices) ∈ clearingPrices.entries := by simp [hsplit]
    dsimp only
    split
    · exact hbest
    · next hremote =>
      split
      · split
        · next hless =>
          intro remote price heq
          cases heq
          refine ⟨hremote, ?_, ?_⟩
          · intro htop
            simp [htop] at hless
          · rw [Dict.getD, Dict.get?_eq_some_iff.mpr hentry, Option.getD_some]
        · exact hbest
      · exact hbest)
  exact hinv remote price h

variable (clearingPrices wanCost localDomain) in
/-- The chosen domain charges its hosting price, which is finite if the domain is remote. -/
theorem chooseDomain_spec (stageType : String) :
    (chooseDomain clearingPrices wanCost localDomain stageType).2 =
        hostingPrice clearingPrices wanCost localDomain stageType
          (chooseDomain clearingPrices wanCost localDomain stageType).1 ∧
      ((chooseDomain clearingPrices wanCost localDomain stageType).1 = localDomain ∨
        (chooseDomain clearingPrices wanCost localDomain stageType).2 ≠ ⊤) := by
  unfold chooseDomain
  cases hbest : bestRemote clearingPrices wanCost localDomain stageType with
  | mk remote? price =>
    cases remote? with
    | none => exact ⟨(hostingPrice_local stageType).symm, .inl rfl⟩
    | some remote =>
      obtain ⟨hne, hfinite, hprice⟩ := bestRemote_spec hbest
      refine ⟨?_, .inr ?_⟩
      · simp [hostingPrice, hne, hprice]
      · simpa using hfinite

/-! ## One iteration -/

section Step

variable {additionalLoad : Dict NodeId ℚ} {stage : Stage} {domainId : DomainId}

theorem pickWorker_room {worker : ExecutionUnit}
    (h : pickWorker topology loadAware additionalLoad stage domainId = some worker) :
    stage.computationalDemand ≤ effectiveResidual additionalLoad worker := by
  simpa using (List.mem_filter.mp (pickWorker_spec h)).2

theorem pickWorker_eq_none
    (h : pickWorker topology loadAware additionalLoad stage domainId = none) :
    ∀ node ∈ topology.nodes, node.domainId = domainId →
      effectiveResidual additionalLoad node < stage.computationalDemand := by
  have hnil : ((topology.nodes.filter fun node => node.domainId = domainId).filter
      fun worker => effectiveResidual additionalLoad worker ≥ stage.computationalDemand) = [] := by
    unfold pickWorker at h
    cases loadAware with
    | true => simpa only [if_true, List.argmin_eq_none] using h
    | false => simpa using h
  intro node hnode hdom
  have hout := List.filter_eq_nil_iff.mp hnil node
    (List.mem_filter.mpr ⟨hnode, by simpa using hdom⟩)
  simpa using hout

/-- What is refunded when a stage falls back to the local domain is finite. -/
theorem refund_ne_top {worker : ExecutionUnit}
    (hchosen : pickWorker topology loadAware additionalLoad stage
      (chooseDomain clearingPrices wanCost localDomain stage.stageType).1 = none)
    (hback : pickWorker topology loadAware additionalLoad stage localDomain = some worker) :
    (chooseDomain clearingPrices wanCost localDomain stage.stageType).2 ≠ ⊤ := by
  apply (chooseDomain_spec clearingPrices wanCost localDomain stage.stageType).2.resolve_left
  -- had the chosen domain been the local one, the first search would have found a worker
  intro heq
  rw [heq, hback] at hchosen
  cases hchosen

/-- No worker of the stage's chosen domain, and none of the local domain, has room. -/
def NoRoom (topology : NetworkTopology) (clearingPrices : PriceTable) (wanCost : ℚ)
    (localDomain : DomainId) (additionalLoad : Dict NodeId ℚ) (stage : Stage) : Prop :=
  ∀ node ∈ topology.nodes, InMarket clearingPrices wanCost localDomain stage node.domainId →
    effectiveResidual additionalLoad node < stage.computationalDemand

variable (topology clearingPrices wanCost localDomain loadAware) in
/-- An iteration commits the stage to a worker with room and adds what that
worker's domain charges, or gives up for want of room. -/
theorem marketStep_cases (r : MarketRun) (stage : Stage) :
    (∃ worker ∈ topology.nodes,
      stage.computationalDemand ≤ effectiveResidual r.additionalLoad worker ∧
      marketStep topology clearingPrices wanCost localDomain loadAware r stage =
        some (r.commit stage worker (r.totalCost +
          hostingPrice clearingPrices wanCost localDomain stage.stageType worker.domainId))) ∨
    (NoRoom topology clearingPrices wanCost localDomain r.additionalLoad stage ∧
      marketStep topology clearingPrices wanCost localDomain loadAware r stage = none) := by
  have hcost := (chooseDomain_spec clearingPrices wanCost localDomain stage.stageType).1
  unfold marketStep
  cases hpick : pickWorker topology loadAware r.additionalLoad stage
      (chooseDomain clearingPrices wanCost localDomain stage.stageType).1 with
  | some worker =>
    obtain ⟨hmem, hdom⟩ := pickWorker_mem hpick
    refine .inl ⟨worker, hmem, pickWorker_room hpick, ?_⟩
    simp only [hpick, hdom, ← hcost]
  | none =>
    cases hback : pickWorker topology loadAware r.additionalLoad stage localDomain with
    | none =>
      refine .inr ⟨?_, by simp only [hpick, Option.map_none]⟩
      intro node hnode hin
      cases hin with
      | inl hdom => exact pickWorker_eq_none hpick node hnode hdom
      | inr hdom => exact pickWorker_eq_none hback node hnode hdom
    | some worker =>
      obtain ⟨hmem, hdom⟩ := pickWorker_mem hback
      obtain ⟨cost, hc⟩ := WithTop.ne_top_iff_exists.mp (refund_ne_top hpick hback)
      have hrefund : (r.totalCost + (cost : WithTop ℚ)).map (· - cost) = r.totalCost := by
        cases r.totalCost with
        | top => rfl
        | coe total => rw [← WithTop.coe_add, WithTop.map_coe, add_sub_cancel_right]
      refine .inl ⟨worker, hmem, pickWorker_room hback, ?_⟩
      simp only [hpick, Option.map_some, ← hc, WithTop.untopD_coe, hrefund, hdom,
        hostingPrice_local]

end Step

/-! ## The loop -/

section Loop

variable (topology clearingPrices wanCost localDomain loadAware)

/-- The loop over the stages, up to the budget check. -/
def marketLoop (stages : List Stage) : Option MarketRun :=
  stages.foldlM (marketStep topology clearingPrices wanCost localDomain loadAware) {}

theorem marketModePlacement_eq (dag : PipelineDAG) (governance : GovernancePolicy) :
    marketModePlacement dag topology governance clearingPrices wanCost localDomain loadAware =
      (marketLoop topology clearingPrices wanCost localDomain loadAware dag.stages.values).bind
        fun r => if dag.acceptsCost r.totalCost then some r.placement else none := rfl

/-- The demand of the stages that a placement puts on a node. -/
def demandOn (p : Placement) (stages : List Stage) (nid : NodeId) : ℚ :=
  ((stages.filter fun s => p.get? s.id = some nid).map (·.computationalDemand)).sum

/-- What the host of a stage charges for it; a stage without a host has no price. -/
def hostCharge (p : Placement) (stage : Stage) : WithTop ℚ :=
  match (p.get? stage.id).bind topology.nodeMap.get? with
  | some node => hostingPrice clearingPrices wanCost localDomain stage.stageType node.domainId
  | none => ⊤

/-- The sum of the charges of all stages. -/
def hostCharges (p : Placement) (stages : List Stage) : WithTop ℚ :=
  (stages.map (hostCharge topology clearingPrices wanCost localDomain p)).sum

/-- What holds of the two ledgers once the stages `done` are placed. -/
structure LedgerInv (done : List Stage) (r : MarketRun) : Prop where
  mem_iff : ∀ sid, sid ∈ r.placement ↔ sid ∈ done.map (·.id)
  host : ∀ s ∈ done, ∃ n ∈ topology.nodes, r.placement.get? s.id = some n.nodeId
  ledger : ∀ nid, r.additionalLoad.getD nid 0 = demandOn r.placement done nid
  room : ∀ n ∈ topology.nodes, (∃ s ∈ done, r.placement.get? s.id = some n.nodeId) →
    r.additionalLoad.getD n.nodeId 0 ≤ n.residualCapacity
  charged : r.totalCost = hostCharges topology clearingPrices wanCost localDomain r.placement done

variable {topology clearingPrices wanCost localDomain loadAware}

theorem ledgerInv_nil : LedgerInv topology clearingPrices wanCost localDomain [] {} where
  mem_iff := by simp
  host := by simp
  ledger := by simp [Dict.getD, demandOn]
  room := by simp
  charged := by simp [hostCharges]

/-- Committing a new stage to a worker with room keeps the ledgers. -/
theorem LedgerInv.commit (hids : (topology.nodes.map (·.nodeId)).Nodup) {done : List Stage}
    {r : MarketRun} (h : LedgerInv topology clearingPrices wanCost localDomain done r)
    {stage : Stage} (hnew : ∀ s ∈ done, s.id ≠ stage.id) {worker : ExecutionUnit}
    (hworker : worker ∈ topology.nodes)
    (hroom : stage.computationalDemand ≤ effectiveResidual r.additionalLoad worker) :
    LedgerInv topology clearingPrices wanCost localDomain (done ++ [stage])
      (r.commit stage worker (r.totalCost +
        hostingPrice clearingPrices wanCost localDomain stage.stageType worker.domainId)) := by
  have hself : (r.placement.insert stage.id worker.nodeId).get? stage.id = some worker.nodeId :=
    Dict.get?_insert_self ..
  have hold : ∀ s ∈ done,
      (r.placement.insert stage.id worker.nodeId).get? s.id = r.placement.get? s.id :=
    fun s hs => Dict.get?_insert_of_ne _ _ (hnew s hs)
  have hdemand : ∀ nid, demandOn (r.placement.insert stage.id worker.nodeId) (done ++ [stage]) nid =
      demandOn r.placement done nid +
        if nid = worker.nodeId then stage.computationalDemand else 0 := by
    intro nid
    have hfilter : (done.filter fun s =>
        (r.placement.insert stage.id worker.nodeId).get? s.id = some nid) =
        done.filter fun s => r.placement.get? s.id = some nid :=
      List.filter_congr fun s hs => by rw [hold s hs]
    simp only [demandOn, List.filter_append, hfilter, List.map_append, List.sum_append,
      List.filter_cons, List.filter_nil, hself, Option.some.injEq, decide_eq_true_eq]
    by_cases heq : nid = worker.nodeId
    · simp [heq]
    · simp [heq, Ne.symm heq]
  constructor
  · intro sid
    simp only [MarketRun.commit, Dict.mem_insert, h.mem_iff, List.map_append, List.mem_append,
      List.map_cons, List.map_nil, List.mem_singleton]
    exact or_comm
  · intro s hs
    cases List.mem_append.mp hs with
    | inl hs =>
      obtain ⟨n, hn, hget⟩ := h.host s hs
      exact ⟨n, hn, (hold s hs).trans hget⟩
    | inr hs =>
      cases List.mem_singleton.mp hs
      exact ⟨worker, hworker, hself⟩
  · intro nid
    rw [MarketRun.commit, hdemand, Dict.getD_insert, ← h.ledger]
    split
    · next heq => rw [heq]
    · rw [add_zero]
  · rintro n hn ⟨s, hs, hget⟩
    rw [MarketRun.commit, Dict.getD_insert]
    split
    · next heq =>
      cases List.inj_on_of_nodup_map hids hn hworker heq
      have := hroom
      unfold effectiveResidual at this
      linarith
    · next hne =>
      apply h.room n hn
      cases List.mem_append.mp hs with
      | inl hs => exact ⟨s, hs, (hold s hs).symm.trans hget⟩
      | inr hs =>
        cases List.mem_singleton.mp hs
        exact absurd (Option.some.inj (hself.symm.trans hget)).symm hne
  · have hcharge : hostCharge topology clearingPrices wanCost localDomain
        (r.placement.insert stage.id worker.nodeId) stage =
          hostingPrice clearingPrices wanCost localDomain stage.stageType worker.domainId := by
      rw [hostCharge, hself, Option.bind_some, topology.get?_nodeMap hids hworker]
    have hcharges : (done.map (hostCharge topology clearingPrices wanCost localDomain
        (r.placement.insert stage.id worker.nodeId))) =
          done.map (hostCharge topology clearingPrices wanCost localDomain r.placement) :=
      List.map_congr_left fun s hs => by rw [hostCharge, hostCharge, hold s hs]
    rw [hostCharges, MarketRun.commit, List.map_append, List.sum_append, hcharges, h.charged]
    simp [hostCharges, hcharge]

/-- A stage of the DAG is not among those that come before it. -/
theorem PipelineDAG.WellFormed.id_ne_of_split {dag : PipelineDAG} (hw : dag.WellFormed)
    {done rest : List Stage} {stage : Stage} (h : dag.stages.values = done ++ stage :: rest) :
    ∀ s ∈ done, s.id ≠ stage.id := by
  have hnodup := hw.map_id_values ▸ dag.stages.keys_nodup
  rw [h, List.map_append, List.map_cons] at hnodup
  intro s hs
  exact (List.nodup_append.mp hnodup).2.2 s.id (List.mem_map_of_mem hs) stage.id (by simp)

/-- The loop keeps the ledgers. -/
theorem marketLoop_ledgerInv {dag : PipelineDAG} (hw : dag.WellFormed)
    (hids : (topology.nodes.map (·.nodeId)).Nodup) {r : MarketRun}
    (h : marketLoop topology clearingPrices wanCost localDomain loadAware dag.stages.values =
      some r) :
    LedgerInv topology clearingPrices wanCost localDomain dag.stages.values r := by
  refine foldlM_scan_some ledgerInv_nil ?_ h
  intro done stage rest acc acc' hsplit hinv hstep
  obtain ⟨worker, hworker, hroom, heq⟩ | ⟨-, heq⟩ :=
    marketStep_cases topology clearingPrices wanCost localDomain loadAware acc stage
  · cases hstep.symm.trans heq
    exact hinv.commit hids (hw.id_ne_of_split hsplit) hworker hroom
  · cases hstep.symm.trans heq

/-! ## No overbooking -/

/-- Market mode assigns every stage once and puts no more on a node than it has left. -/
theorem marketModePlacement_not_overbooked {dag : PipelineDAG} (hbuilt : dag.Built)
    (hids : (topology.nodes.map (·.nodeId)).Nodup) {governance : GovernancePolicy} {p : Placement}
    (hp : marketModePlacement dag topology governance clearingPrices wanCost localDomain loadAware =
      some p) :
    TotalAssignment dag topology p ∧
    ∀ n ∈ topology.nodes, (∃ sid, p.get? sid = some n.nodeId) →
      demandOn p dag.stages.values n.nodeId ≤ n.residualCapacity := by
  have hw := hbuilt.wellFormed
  rw [marketModePlacement_eq] at hp
  obtain ⟨r, hr, hp⟩ := Option.bind_eq_some_iff.mp hp
  obtain rfl : r.placement = p := by
    split at hp
    · exact Option.some.inj hp
    · cases hp
  have hinv := marketLoop_ledgerInv hw hids hr
  have hmem : ∀ sid, sid ∈ r.placement ↔ sid ∈ dag.stages := by
    intro sid
    rw [hinv.mem_iff, hw.map_id_values, Dict.mem_iff_mem_keys]
  -- what hosts a stage hosts one of the list that the loop went through
  have hstage : ∀ sid nid, r.placement.get? sid = some nid →
      ∃ s ∈ dag.stages.values, r.placement.get? s.id = some nid := by
    intro sid nid hget
    have hsid := (hinv.mem_iff sid).mp (Dict.mem_of_get?_eq_some hget)
    obtain ⟨s, hs, rfl⟩ := List.mem_map.mp hsid
    exact ⟨s, hs, hget⟩
  refine ⟨⟨hmem, ?_⟩, ?_⟩
  · intro sid nid hget
    obtain ⟨s, hs, hget⟩ := hstage sid nid hget
    obtain ⟨n, hn, hn'⟩ := hinv.host s hs
    exact ⟨n, hn, Option.some.inj (hn'.symm.trans hget)⟩
  · rintro n hn ⟨sid, hget⟩
    rw [← hinv.ledger]
    exact hinv.room n hn (hstage sid n.nodeId hget)

/-- Two sources and a sink, with a value budget. -/
private def bazaarDag : PipelineDAG :=
  let first := (PipelineDAG.empty (some 12)).addStage ⟨"a", "sense", 1, 1, none, none, none⟩
  let sources := first.2.addStage ⟨"b", "sense", 1, 1, none, none, none⟩
  ((sources.2.addStage ⟨"c", "fuse", 1, 1, none, none, none⟩).2.addEdge ⟨"a", "c", 10⟩).2

private theorem bazaarDag_built : bazaarDag.Built :=
  ((((PipelineDAG.Built.empty _).addStage _).addStage _).addStage _).addEdge _

private def bazaarTopology : NetworkTopology where
  nodes := [⟨"n1", "d1", "s1", 2, 0, none⟩, ⟨"n2", "d2", "s1", 1, 0, none⟩]
  latencyMatrix := .ofList [(("n1", "n2"), 5)]

private def bazaarPrices : PriceTable :=
  .ofList [("d1", .ofList [("sense", 4), ("fuse", 6)]), ("d2", .ofList [("sense", 1), ("fuse", 3)])]

private def bazaarPlacement : Placement := .ofList [("a", "n2"), ("b", "n1"), ("c", "n1")]

/-- The cheap remote worker has room for one stage, and the others fall back. -/
theorem marketModePlacement_not_overbooked_bazaar :
    marketModePlacement bazaarDag bazaarTopology {} bazaarPrices 1 "d1" true =
        some bazaarPlacement ∧
      TotalAssignment bazaarDag bazaarTopology bazaarPlacement ∧
      ∀ n ∈ bazaarTopology.nodes, (∃ sid, bazaarPlacement.get? sid = some n.nodeId) →
        demandOn bazaarPlacement bazaarDag.stages.values n.nodeId ≤ n.residualCapacity := by
  have hp : marketModePlacement bazaarDag bazaarTopology {} bazaarPrices 1 "d1" true =
      some bazaarPlacement := by decide +kernel
  exact ⟨hp, marketModePlacement_not_overbooked bazaarDag_built (by decide) hp⟩

/-! ## Charges -/

/-- At the budget check the total is the sum of what the hosts charge. A placement
within the budget is returned; none is returned only for want of room or because
the charges exceed the budget. -/
theorem marketModePlacement_charges {dag : PipelineDAG} (hbuilt : dag.Built)
    (hids : (topology.nodes.map (·.nodeId)).Nodup) (governance : GovernancePolicy) :
    (∀ r, marketLoop topology clearingPrices wanCost localDomain loadAware dag.stages.values =
        some r →
      (∀ s ∈ dag.stages.values, ∃ n ∈ topology.nodes, r.placement.get? s.id = some n.nodeId) ∧
      r.totalCost = hostCharges topology clearingPrices wanCost localDomain r.placement
        dag.stages.values) ∧
    (∀ p, marketModePlacement dag topology governance clearingPrices wanCost localDomain loadAware =
        some p →
      ∀ budget, dag.valueBudget = some budget →
        hostCharges topology clearingPrices wanCost localDomain p dag.stages.values ≤ budget) ∧
    (marketModePlacement dag topology governance clearingPrices wanCost localDomain loadAware =
        none →
      (∃ done stage rest r, dag.stages.values = done ++ stage :: rest ∧
        marketLoop topology clearingPrices wanCost localDomain loadAware done = some r ∧
        NoRoom topology clearingPrices wanCost localDomain r.additionalLoad stage) ∨
      ∃ r budget, marketLoop topology clearingPrices wanCost localDomain loadAware
          dag.stages.values = some r ∧
        dag.valueBudget = some budget ∧
        budget < hostCharges topology clearingPrices wanCost localDomain r.placement
          dag.stages.values) ∧
    ∀ additionalLoad stage worker,
      pickWorker topology loadAware additionalLoad stage
        (chooseDomain clearingPrices wanCost localDomain stage.stageType).1 = none →
      pickWorker topology loadAware additionalLoad stage localDomain = some worker →
      (chooseDomain clearingPrices wanCost localDomain stage.stageType).2 ≠ ⊤ := by
  have hw := hbuilt.wellFormed
  refine ⟨?_, ?_, ?_, fun additionalLoad stage worker => refund_ne_top⟩
  · intro r hr
    have hinv := marketLoop_ledgerInv hw hids hr
    exact ⟨hinv.host, hinv.charged⟩
  · intro p hp budget hbudget
    rw [marketModePlacement_eq] at hp
    obtain ⟨r, hr, hp⟩ := Option.bind_eq_some_iff.mp hp
    split at hp
    · next haccepts =>
      cases hp
      rw [← (marketLoop_ledgerInv hw hids hr).charged]
      simpa [PipelineDAG.acceptsCost, hbudget] using haccepts
    · cases hp
  · intro hnone
    rw [marketModePlacement_eq] at hnone
    cases hloop : marketLoop topology clearingPrices wanCost localDomain loadAware
        dag.stages.values with
    | none =>
      left
      obtain ⟨done, stage, rest, r, hsplit, hr, hstep⟩ := exists_of_foldlM_eq_none hloop
      refine ⟨done, stage, rest, r, hsplit, hr, ?_⟩
      obtain ⟨worker, -, -, heq⟩ | ⟨hroom, -⟩ :=
        marketStep_cases topology clearingPrices wanCost localDomain loadAware r stage
      · cases hstep.symm.trans heq
      · exact hroom
    | some r =>
      right
      have hrejected : dag.acceptsCost r.totalCost = false := by
        simpa [hloop] using hnone
      cases hbudget : dag.valueBudget with
      | none => simp [PipelineDAG.acceptsCost, hbudget] at hrejected
      | some budget =>
        refine ⟨r, budget, rfl, rfl, ?_⟩
        rw [← (marketLoop_ledgerInv hw hids hloop).charged]
        simpa [PipelineDAG.acceptsCost, hbudget] using hrejected

/-- The remote stage costs 1 and its transfer 1; the two that fall back cost 4 and 6. -/
theorem marketModePlacement_charges_bazaar :
    hostCharges bazaarTopology bazaarPrices 1 "d1" bazaarPlacement bazaarDag.stages.values =
        (12 : ℚ) ∧
      hostCharges bazaarTopology bazaarPrices 1 "d1" bazaarPlacement bazaarDag.stages.values ≤
        (12 : ℚ) := by
  have hp : marketModePlacement bazaarDag bazaarTopology {} bazaarPrices 1 "d1" true =
      some bazaarPlacement := by decide +kernel
  have hids : (bazaarTopology.nodes.map (·.nodeId)).Nodup := by decide
  exact ⟨by decide +kernel, (marketModePlacement_charges bazaarDag_built hids {}).2.1 _ hp 12 rfl⟩

end Loop

end NeuralPubSub
