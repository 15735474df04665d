-- SUMMARY: Market-mode placement, and when it obeys the sovereignty and slice requirements of the stages.
import NeuralPubSub.Broker.Placement.Constraints

open Base

/-!
# Market mode

`market_mode_placement`: for each stage a domain is chosen by its clearing price,
then a worker of that domain with room, and else a worker of the local domain.
Prices are exact rationals, and `⊤` is the price of a stage type a domain does
not list.
-/

namespace NeuralPubSub

/-- Clearing prices of the stage types, for each domain. -/
abbrev PriceTable := Dict DomainId (Dict String ℚ)

/-! ## Choosing a domain -/

def shouldTradeCrossDomain (localPrice remotePrice : WithTop ℚ) (wanCost : ℚ) : Bool :=
  remotePrice + wanCost < localPrice

/-- `prices.get(stage_type, inf)`. -/
def listedPrice (prices : Dict String ℚ) (stageType : String) : WithTop ℚ :=
  (prices.get? stageType).elim ⊤ fun price => price

def localPrice (clearingPrices : PriceTable) (localDomain : DomainId) (stageType : String) :
    WithTop ℚ :=
  listedPrice (clearingPrices.getD localDomain .empty) stageType

/-- The best remote domain worth trading with, and its price. -/
def bestRemote (clearingPrices : PriceTable) (wanCost : ℚ) (localDomain : DomainId)
    (stageType : String) : Option DomainId × WithTop ℚ :=
  clearingPrices.entries.foldl (fun best e =>
    if e.1 = localDomain then best
    else
      let remotePrice := listedPrice e.2 stageType
      if shouldTradeCrossDomain (localPrice clearingPrices localDomain stageType) remotePrice wanCost
      then
        if remotePrice + wanCost < best.2 + wanCost then (some e.1, remotePrice) else best
      else best) (none, ⊤)

/-- The chosen domain and what the stage costs there. -/
def chooseDomain (clearingPrices : PriceTable) (wanCost : ℚ) (localDomain : DomainId)
    (stageType : String) : DomainId × WithTop ℚ :=
  match bestRemote clearingPrices wanCost localDomain stageType with
  | (some remote, price) => (remote, price + wanCost)
  | (none, _) => (localDomain, localPrice clearingPrices localDomain stageType)

/-! ## Choosing a worker -/

def effectiveResidual (additionalLoad : Dict NodeId ℚ) (worker : ExecutionUnit) : ℚ :=
  worker.residualCapacity - additionalLoad.getD worker.nodeId 0

def effectiveCurrentLoad (additionalLoad : Dict NodeId ℚ) (worker : ExecutionUnit) : ℚ :=
  worker.currentLoad + additionalLoad.getD worker.nodeId 0

/-- The worker of a domain that takes the stage: the least loaded one with room
when `loadAware`, otherwise the first one. -/
def pickWorker (topology : NetworkTopology) (loadAware : Bool) (additionalLoad : Dict NodeId ℚ)
    (stage : Stage) (domainId : DomainId) : Option ExecutionUnit :=
  let workers := topology.nodes.filter fun node => node.domainId = domainId
  let candidates := workers.filter fun worker =>
    effectiveResidual additionalLoad worker ≥ stage.computationalDemand
  if loadAware then candidates.argmin (effectiveCurrentLoad additionalLoad) else candidates.head?

/-! ## Placing the stages -/

structure MarketRun where
  placement : Placement := .empty
  totalCost : WithTop ℚ := 0
  additionalLoad : Dict NodeId ℚ := .empty

def MarketRun.commit (r : MarketRun) (stage : Stage) (worker : ExecutionUnit)
    (totalCost : WithTop ℚ) : MarketRun where
  placement := r.placement.insert stage.id worker.nodeId
  totalCost := totalCost
  additionalLoad := r.additionalLoad.insert worker.nodeId
    (r.additionalLoad.getD worker.nodeId 0 + stage.computationalDemand)

/-- One iteration of the loop over the stages; `none` when the stage fits nowhere. -/
def marketStep (topology : NetworkTopology) (clearingPrices : PriceTable) (wanCost : ℚ)
    (localDomain : DomainId) (loadAware : Bool) (r : MarketRun) (stage : Stage) :
    Option MarketRun :=
  let (chosenDomain, stageCost) := chooseDomain clearingPrices wanCost localDomain stage.stageType
  let totalCost := r.totalCost + stageCost
  match pickWorker topology loadAware r.additionalLoad stage chosenDomain with
  | some worker => some (r.commit stage worker totalCost)
  | none =>
    (pickWorker topology loadAware r.additionalLoad stage localDomain).map fun worker =>
      -- the fallback follows a remote choice, whose cost is finite
      let refund : ℚ := stageCost.untopD 0
      r.commit stage worker (totalCost.map (· - refund) +
        localPrice clearingPrices localDomain stage.stageType)

/-- The pipeline with another value budget. -/
def PipelineDAG.withBudget (dag : PipelineDAG) (budget : Option ℚ) : PipelineDAG :=
  { dag with valueBudget := budget }

def PipelineDAG.acceptsCost (dag : PipelineDAG) (totalCost : WithTop ℚ) : Bool :=
  match dag.valueBudget with
  | none => true
  | some budget => totalCost ≤ budget

/-- `market_mode_placement`. The governance policy is an argument that nothing reads. -/
def marketModePlacement (dag : PipelineDAG) (topology : NetworkTopology)
    (_governance : GovernancePolicy) (clearingPrices : PriceTable) (wanCost : ℚ)
    (localDomain : DomainId) (loadAware : Bool) : Option Placement := do
  let r ← dag.stages.values.foldlM
    (marketStep topology clearingPrices wanCost localDomain loadAware) {}
  if dag.acceptsCost r.totalCost then some r.placement else none

/-! ## Where a stage can go -/

section Domains

variable {topology : NetworkTopology} {clearingPrices : PriceTable} {wanCost : ℚ}
  {localDomain : DomainId} {loadAware : Bool}

/-- The domains market mode takes a worker for the stage from. -/
def InMarket (clearingPrices : PriceTable) (wanCost : ℚ) (localDomain : DomainId) (stage : Stage)
    (domainId : DomainId) : Prop :=
  domainId = (chooseDomain clearingPrices wanCost localDomain stage.stageType).1 ∨
    domainId = localDomain

/-- The candidates of a domain. -/
theorem pickWorker_spec {additionalLoad : Dict NodeId ℚ} {stage : Stage} {domainId : DomainId}
    {worker : ExecutionUnit}
    (h : pickWorker topology loadAware additionalLoad stage domainId = some worker) :
    worker ∈ (topology.nodes.filter fun node => node.domainId = domainId).filter
      fun worker => effectiveResidual additionalLoad worker ≥ stage.computationalDemand := by
  unfold pickWorker at h
  cases loadAware with
  | true => exact List.argmin_mem h
  | false => exact List.mem_of_head? h

theorem pickWorker_mem {additionalLoad : Dict NodeId ℚ} {stage : Stage} {domainId : DomainId}
    {worker : ExecutionUnit}
    (h : pickWorker topology loadAware additionalLoad stage domainId = some worker) :
    worker ∈ topology.nodes ∧ worker.domainId = domainId := by
  simpa using (List.mem_filter.mp (pickWorker_spec h)).1

/-- One iteration commits the stage to a worker of its market. -/
theorem marketStep_spec {r r' : MarketRun} {stage : Stage}
    (h : marketStep topology clearingPrices wanCost localDomain loadAware r stage = some r') :
    ∃ worker ∈ topology.nodes, InMarket clearingPrices wanCost localDomain stage worker.domainId ∧
      ∃ totalCost, r' = r.commit stage worker totalCost := by
  unfold marketStep at h
  cases hchosen : pickWorker topology loadAware r.additionalLoad stage
      (chooseDomain clearingPrices wanCost localDomain stage.stageType).1 with
  | some worker =>
    simp only [hchosen, Option.some.injEq] at h
    obtain ⟨hmem, hdom⟩ := pickWorker_mem hchosen
    exact ⟨worker, hmem, .inl hdom, _, h.symm⟩
  | none =>
    simp only [hchosen, Option.map_eq_some_iff] at h
    obtain ⟨worker, hlocal, h⟩ := h
    obtain ⟨hmem, hdom⟩ := pickWorker_mem hlocal
    exact ⟨worker, hmem, .inr hdom, _, h.symm⟩

end Domains

/-! ## Placements that obey the requirements -/

section Requirements

variable {dag : PipelineDAG} {topology : NetworkTopology} {clearingPrices : PriceTable} {wanCost : ℚ}
  {localDomain : DomainId}

/-- Each stage is on a node of its sovereignty domain, in a slice that satisfies it. -/
def ObeysRequirements (dag : PipelineDAG) (topology : NetworkTopology) (p : Placement) : Prop :=
  ∀ sid stage, dag.stage? sid = some stage →
    ∃ node ∈ topology.nodes, p.get? sid = some node.nodeId ∧ stage.allowedOn node

/-- Some stage finds no worker in its market, or the whole market of each stage
is allowed to it. -/
def MarketAllowed (dag : PipelineDAG) (topology : NetworkTopology) (clearingPrices : PriceTable)
    (wanCost : ℚ) (localDomain : DomainId) : Prop :=
  (∃ stage ∈ dag.stages.values, ∀ node ∈ topology.nodes,
    ¬ InMarket clearingPrices wanCost localDomain stage node.domainId) ∨
  ∀ stage ∈ dag.stages.values, ∀ node ∈ topology.nodes,
    InMarket clearingPrices wanCost localDomain stage node.domainId → stage.allowedOn node

instance (stage : Stage) (node : ExecutionUnit) : Decidable (stage.allowedOn node) :=
  inferInstanceAs (Decidable (_ ∧ _))

instance (stage : Stage) (domainId : DomainId) :
    Decidable (InMarket clearingPrices wanCost localDomain stage domainId) :=
  inferInstanceAs (Decidable (_ ∨ _))

instance : Decidable (MarketAllowed dag topology clearingPrices wanCost localDomain) :=
  inferInstanceAs (Decidable ((∃ stage ∈ _, ∀ node ∈ _, _) ∨ ∀ stage ∈ _, ∀ node ∈ _, _))

/-- The same nodes in the same domains and slices, whatever their capacities and loads. -/
def NetworkTopology.SameSites (t t' : NetworkTopology) : Prop :=
  t'.nodes.map (fun n => (n.nodeId, n.domainId, n.sliceId)) =
    t.nodes.map (fun n => (n.nodeId, n.domainId, n.sliceId))

theorem NetworkTopology.SameSites.exists_node {t t' : NetworkTopology} (h : t.SameSites t')
    {n : ExecutionUnit} (hn : n ∈ t'.nodes) :
    ∃ m ∈ t.nodes, m.nodeId = n.nodeId ∧ m.domainId = n.domainId ∧ m.sliceId = n.sliceId := by
  have hsite := List.mem_map_of_mem (f := fun n : ExecutionUnit =>
    (n.nodeId, n.domainId, n.sliceId)) hn
  rw [h] at hsite
  obtain ⟨m, hm, heq⟩ := List.mem_map.mp hsite
  simp only [Prod.mk.injEq] at heq
  exact ⟨m, hm, heq⟩

theorem Stage.allowedOn_congr (stage : Stage) {m n : ExecutionUnit} (hdom : m.domainId = n.domainId)
    (hslice : m.sliceId = n.sliceId) : stage.allowedOn m ↔ stage.allowedOn n := by
  unfold Stage.allowedOn
  rw [hdom, hslice]

/-- What holds once the loop has placed the stages `done`. -/
def MarketInv (topology : NetworkTopology) (clearingPrices : PriceTable) (wanCost : ℚ)
    (localDomain : DomainId) (done : List Stage) (r : MarketRun) : Prop :=
  ∀ stage ∈ done, ∃ worker ∈ topology.nodes,
    InMarket clearingPrices wanCost localDomain stage worker.domainId ∧
      r.placement.get? stage.id = some worker.nodeId

theorem MarketInv.step {loadAware : Bool} {done : List Stage} {stage : Stage} {r r' : MarketRun}
    (h : MarketInv topology clearingPrices wanCost localDomain done r)
    (hnew : ∀ s ∈ done, s.id ≠ stage.id)
    (hstep : marketStep topology clearingPrices wanCost localDomain loadAware r stage = some r') :
    MarketInv topology clearingPrices wanCost localDomain (done ++ [stage]) r' := by
  obtain ⟨worker, hmem, hin, totalCost, rfl⟩ := marketStep_spec hstep
  intro s hs
  rcases List.mem_append.mp hs with hs | hs
  · obtain ⟨w, hw, hwin, hget⟩ := h s hs
    exact ⟨w, hw, hwin, by rw [MarketRun.commit, Dict.get?_insert_of_ne _ _ (hnew s hs), hget]⟩
  · obtain rfl := List.mem_singleton.mp hs
    exact ⟨worker, hmem, hin, by rw [MarketRun.commit, Dict.get?_insert_self]⟩

/-- Every stage of a returned placement is on a worker of its market. -/
theorem marketModePlacement_inMarket (hw : dag.WellFormed) {governance : GovernancePolicy}
    {loadAware : Bool} {p : Placement}
    (hp : marketModePlacement dag topology governance clearingPrices wanCost localDomain loadAware =
      some p) {sid : StageId} {stage : Stage} (hstage : dag.stage? sid = some stage) :
    ∃ worker ∈ topology.nodes, InMarket clearingPrices wanCost localDomain stage worker.domainId ∧
      p.get? sid = some worker.nodeId := by
  obtain ⟨r, hr, hp⟩ := Option.bind_eq_some_iff.mp hp
  have hinv := foldlM_scan_some (P := MarketInv topology clearingPrices wanCost localDomain)
    (by simp [MarketInv]) (fun done s rest acc acc' hsplit hinv hstep => by
      refine hinv.step (fun t ht heq => ?_) hstep
      have hnodup := hw.map_id_values ▸ dag.stages.keys_nodup
      rw [hsplit, List.map_append, List.map_cons] at hnodup
      exact (List.nodup_append.mp hnodup).2.2 t.id (List.mem_map_of_mem ht) s.id (by simp) heq) hr
  have hmem : stage ∈ dag.stages.values :=
    List.mem_map_of_mem (f := Prod.snd) (Dict.get?_eq_some_iff.mp hstage)
  obtain ⟨worker, hworker, hin, hget⟩ := hinv stage hmem
  obtain rfl : r.placement = p := by
    split at hp
    · exact Option.some.inj hp
    · cases hp
  exact ⟨worker, hworker, hin, by rw [← hget, hw.stageId sid stage hstage]⟩

/-! ## A load pattern that leads a stage to a given node -/

/-- Open domains have room for everything, the others for nothing, and `idle` is
the least loaded node. -/
def ExecutionUnit.crowd (idle : ExecutionUnit) (isOpen : DomainId → Bool) (total : ℚ)
    (n : ExecutionUnit) : ExecutionUnit :=
  let load := if n.nodeId = idle.nodeId then 0 else 2 * total + 1
  { n with
    currentLoad := load
    capacity := if isOpen n.domainId then load + 2 * total else load - (2 * total + 1) }

def NetworkTopology.crowd (t : NetworkTopology) (idle : ExecutionUnit) (isOpen : DomainId → Bool)
    (total : ℚ) : NetworkTopology where
  nodes := t.nodes.map (idle.crowd isOpen total)
  latencyMatrix := t.latencyMatrix

theorem NetworkTopology.sameSites_crowd (t : NetworkTopology) (idle : ExecutionUnit)
    (isOpen : DomainId → Bool) (total : ℚ) : t.SameSites (t.crowd idle isOpen total) := by
  unfold NetworkTopology.SameSites NetworkTopology.crowd
  rw [List.map_map]
  rfl

/-- The magnitudes of the demands of the stages. -/
def totalDemand (stages : List Stage) : ℚ := (stages.map fun s => |s.computationalDemand|).sum

theorem totalDemand_nonneg (stages : List Stage) : 0 ≤ totalDemand stages :=
  List.sum_nonneg fun d hd => by
    obtain ⟨s, -, rfl⟩ := List.mem_map.mp hd
    exact abs_nonneg _

theorem totalDemand_split (pre : List Stage) (s : Stage) (post : List Stage) :
    totalDemand (pre ++ s :: post) =
      totalDemand pre + |s.computationalDemand| + totalDemand post := by
  simp [totalDemand, add_assoc]

section Crowd

variable {idle : ExecutionUnit} {isOpen : DomainId → Bool} {total : ℚ}
  {additionalLoad : Dict NodeId ℚ} {stage : Stage} {domainId : DomainId}

theorem pickWorker_crowd_closed (hclosed : isOpen domainId = false)
    (hledger : ∀ nid, |additionalLoad.getD nid 0| ≤ total)
    (hdemand : |stage.computationalDemand| ≤ total) :
    pickWorker (topology.crowd idle isOpen total) true additionalLoad stage domainId = none := by
  simp only [pickWorker, if_true, List.argmin_eq_none, List.filter_eq_nil_iff, List.mem_filter,
    NetworkTopology.crowd, List.mem_map, decide_eq_true_eq, ge_iff_le, not_le]
  rintro _ ⟨⟨n, -, rfl⟩, hdom⟩
  replace hclosed : isOpen n.domainId = false := by rwa [← hdom] at hclosed
  have hneg := (abs_le.mp (hledger n.nodeId)).1
  have hlow := (abs_le.mp hdemand).1
  simp only [effectiveResidual, ExecutionUnit.residualCapacity, ExecutionUnit.crowd, hclosed,
    Bool.false_eq_true, if_false]
  linarith

/-- A worker of an open domain is a candidate. -/
theorem mem_candidates_crowd (idle : ExecutionUnit) {n : ExecutionUnit} (hn : n ∈ topology.nodes)
    (hopen : isOpen n.domainId = true)
    (hledger : ∀ nid, |additionalLoad.getD nid 0| ≤ total)
    (hdemand : |stage.computationalDemand| ≤ total) :
    idle.crowd isOpen total n ∈ ((topology.crowd idle isOpen total).nodes.filter fun node =>
      node.domainId = n.domainId).filter fun worker =>
        effectiveResidual additionalLoad worker ≥ stage.computationalDemand := by
  have hhigh := (abs_le.mp (hledger n.nodeId)).2
  have hup := (abs_le.mp hdemand).2
  simp only [List.mem_filter, NetworkTopology.crowd, List.mem_map, decide_eq_true_eq, ge_iff_le]
  refine ⟨⟨⟨n, hn, rfl⟩, rfl⟩, ?_⟩
  simp only [effectiveResidual, ExecutionUnit.residualCapacity, ExecutionUnit.crowd, hopen, if_true]
  linarith

theorem pickWorker_crowd_open (idle : ExecutionUnit) {n : ExecutionUnit} (hn : n ∈ topology.nodes)
    (hopen : isOpen n.domainId = true)
    (hledger : ∀ nid, |additionalLoad.getD nid 0| ≤ total)
    (hdemand : |stage.computationalDemand| ≤ total) :
    ∃ worker, pickWorker (topology.crowd idle isOpen total) true additionalLoad stage n.domainId =
      some worker := by
  have hm := mem_candidates_crowd idle hn hopen hledger hdemand
  refine Option.ne_none_iff_exists'.mp fun hnone => ?_
  simp only [pickWorker, if_true, List.argmin_eq_none] at hnone
  rw [hnone] at hm
  cases hm

/-- The idle node takes every stage that its domain is asked for. -/
theorem pickWorker_crowd_idle (hidle : idle ∈ topology.nodes) (hopen : isOpen idle.domainId = true)
    (hledger : ∀ nid, |additionalLoad.getD nid 0| ≤ total)
    (hdemand : |stage.computationalDemand| ≤ total) {worker : ExecutionUnit}
    (h : pickWorker (topology.crowd idle isOpen total) true additionalLoad stage idle.domainId =
      some worker) : worker.nodeId = idle.nodeId := by
  have hm := mem_candidates_crowd idle hidle hopen hledger hdemand
  have hworker := (pickWorker_mem h).1
  simp only [pickWorker, if_true] at h
  have hle := List.le_of_mem_argmin hm h
  by_contra hne
  simp only [NetworkTopology.crowd, List.mem_map] at hworker
  obtain ⟨n, -, rfl⟩ := hworker
  have hhigh := (abs_le.mp (hledger idle.nodeId)).2
  have hlow := (abs_le.mp (hledger n.nodeId)).1
  replace hne : n.nodeId ≠ idle.nodeId := hne
  simp only [effectiveCurrentLoad, ExecutionUnit.crowd, if_neg hne, if_true] at hle
  linarith

/-- Each iteration places its stage; one that is drawn to the idle node goes there. -/
theorem marketStep_crowd {r : MarketRun} (hidle : idle ∈ topology.nodes)
    (hidleOpen : isOpen idle.domainId = true) {n : ExecutionUnit} (hn : n ∈ topology.nodes)
    (hopen : isOpen n.domainId = true)
    (hin : InMarket clearingPrices wanCost localDomain stage n.domainId)
    (hledger : ∀ nid, |r.additionalLoad.getD nid 0| ≤ total)
    (hdemand : |stage.computationalDemand| ≤ total) :
    ∃ worker totalCost, marketStep (topology.crowd idle isOpen total) clearingPrices wanCost
        localDomain true r stage = some (r.commit stage worker totalCost) ∧
      (idle.domainId = (chooseDomain clearingPrices wanCost localDomain stage.stageType).1 ∨
        isOpen (chooseDomain clearingPrices wanCost localDomain stage.stageType).1 = false ∧
          idle.domainId = localDomain →
        worker.nodeId = idle.nodeId) := by
  unfold marketStep
  cases hchosen : pickWorker (topology.crowd idle isOpen total) true r.additionalLoad stage
      (chooseDomain clearingPrices wanCost localDomain stage.stageType).1 with
  | some worker =>
    refine ⟨worker, _, by simp only [hchosen]; rfl, ?_⟩
    rintro (hdom | ⟨hclosed, -⟩)
    · rw [← hdom] at hchosen
      exact pickWorker_crowd_idle hidle hidleOpen hledger hdemand hchosen
    · rw [pickWorker_crowd_closed hclosed hledger hdemand] at hchosen
      cases hchosen
  | none =>
    -- the market's open node is not in the chosen domain, so it is local
    have hlocal : n.domainId = localDomain := hin.resolve_left fun hdom => by
      obtain ⟨worker, hw⟩ := pickWorker_crowd_open idle hn hopen hledger hdemand
      rw [hdom, hchosen] at hw
      cases hw
    obtain ⟨worker, hworker⟩ := pickWorker_crowd_open idle hn hopen hledger hdemand
    rw [hlocal] at hworker
    refine ⟨worker, _, by simp only [hchosen, hworker, Option.map_some]; rfl, ?_⟩
    rintro (hdom | ⟨-, hdom⟩)
    · obtain ⟨_, hw⟩ := pickWorker_crowd_open idle hidle hidleOpen hledger hdemand
      rw [hdom, hchosen] at hw
      cases hw
    · rw [← hdom] at hworker
      exact pickWorker_crowd_idle hidle hidleOpen hledger hdemand hworker

/-- A run under the load pattern places every stage, and a drawn one on the idle node. -/
theorem exists_placement_crowd (hw : dag.WellFormed) (governance : GovernancePolicy)
    (hidle : idle ∈ topology.nodes) (hidleOpen : isOpen idle.domainId = true)
    (hopen : ∀ s ∈ dag.stages.values, ∃ n ∈ topology.nodes, isOpen n.domainId = true ∧
      InMarket clearingPrices wanCost localDomain s n.domainId)
    (hstage : stage ∈ dag.stages.values)
    (hdrawn : idle.domainId = (chooseDomain clearingPrices wanCost localDomain stage.stageType).1 ∨
      isOpen (chooseDomain clearingPrices wanCost localDomain stage.stageType).1 = false ∧
        idle.domainId = localDomain) :
    ∃ p, marketModePlacement (dag.withBudget none)
        (topology.crowd idle isOpen (totalDemand dag.stages.values)) governance clearingPrices
        wanCost localDomain true = some p ∧
      p.get? stage.id = some idle.nodeId := by
  obtain ⟨r, hr, -, hget⟩ := foldlM_scan_isSome
    (f := marketStep (topology.crowd idle isOpen (totalDemand dag.stages.values)) clearingPrices
      wanCost localDomain true)
    (P := fun done (r : MarketRun) =>
      (∀ nid, |r.additionalLoad.getD nid 0| ≤ totalDemand done) ∧
      (stage ∈ done → r.placement.get? stage.id = some idle.nodeId))
    (l := dag.stages.values) (b := {}) (by simp [Dict.getD, totalDemand]) (by
    rintro done s rest r hsplit ⟨hledger, hplaced⟩
    obtain ⟨n, hn, hnOpen, hin⟩ := hopen s (by simp [hsplit])
    have htotal := totalDemand_split done s rest
    rw [← hsplit] at htotal
    have hdone := totalDemand_nonneg done
    have hrest := totalDemand_nonneg rest
    have habs := abs_nonneg s.computationalDemand
    have hloads : ∀ nid, |r.additionalLoad.getD nid 0| ≤ totalDemand dag.stages.values :=
      fun nid => (hledger nid).trans (by linarith)
    obtain ⟨worker, cost, hstep, hworker⟩ :=
      marketStep_crowd hidle hidleOpen hn hnOpen hin hloads (by linarith)
    have hsnoc : totalDemand (done ++ [s]) = totalDemand done + |s.computationalDemand| := by
      simp [totalDemand]
    refine ⟨_, hstep, fun nid => ?_, fun hmem => ?_⟩
    · rw [MarketRun.commit, Dict.getD_insert, hsnoc]
      split
      · exact (abs_add_le _ _).trans (by linarith [hledger worker.nodeId])
      · linarith [hledger nid]
    · rw [MarketRun.commit, Dict.get?_insert]
      rcases List.mem_append.mp hmem with hmem | hmem
      · have hnodup := hw.map_id_values ▸ dag.stages.keys_nodup
        rw [hsplit, List.map_append, List.map_cons] at hnodup
        have hne := (List.nodup_append.mp hnodup).2.2 stage.id (List.mem_map_of_mem hmem) s.id
          (by simp)
        rw [if_neg hne, hplaced hmem]
      · obtain rfl := List.mem_singleton.mp hmem
        rw [if_pos rfl, hworker hdrawn])
  refine ⟨r.placement, ?_, hget hstage⟩
  unfold marketModePlacement
  rw [show (dag.withBudget none).stages = dag.stages from rfl, hr]
  rfl

end Crowd

/-- Market mode never looks at sovereignty or slices: it obeys them under every
load pattern and budget exactly when some stage has no market to be placed in,
or the whole market of each stage is allowed to it. -/
theorem marketModePlacement_obeys_iff (hbuilt : dag.Built)
    (hids : (topology.nodes.map (·.nodeId)).Nodup) (governance : GovernancePolicy) :
    (∀ topology', topology.SameSites topology' → ∀ budget loadAware p,
      marketModePlacement (dag.withBudget budget) topology' governance clearingPrices wanCost
        localDomain loadAware = some p →
      ObeysRequirements dag topology' p) ↔
    MarketAllowed dag topology clearingPrices wanCost localDomain := by
  have hw := hbuilt.wellFormed
  have hwb : ∀ budget, (dag.withBudget budget).WellFormed := fun _ =>
    ⟨hw.stageId, hw.source_mem, hw.target_mem, hw.successors_eq, hw.predecessors_eq,
      hw.getEdge_eq, hw.acyclic⟩
  constructor
  · intro hobeys
    by_contra hnot
    simp only [MarketAllowed, not_or, not_exists, not_and, not_forall, not_not] at hnot
    obtain ⟨hmarket, stage, hstage, idle, hidle, hin, hbad⟩ := hnot
    have hget : dag.stage? stage.id = some stage := by
      obtain ⟨⟨sid, s⟩, he, rfl⟩ := List.mem_map.mp hstage
      have hs : dag.stage? sid = some s := Dict.get?_eq_some_iff.mpr he
      rwa [hw.stageId sid s hs]
    -- the stage is drawn to `idle`, at once or by way of the fallback
    obtain ⟨isOpen, hidleOpen, hopen, hdrawn⟩ : ∃ isOpen : DomainId → Bool,
        isOpen idle.domainId = true ∧
        (∀ s ∈ dag.stages.values, ∃ n ∈ topology.nodes, isOpen n.domainId = true ∧
          InMarket clearingPrices wanCost localDomain s n.domainId) ∧
        (idle.domainId = (chooseDomain clearingPrices wanCost localDomain stage.stageType).1 ∨
          isOpen (chooseDomain clearingPrices wanCost localDomain stage.stageType).1 = false ∧
            idle.domainId = localDomain) := by
      by_cases hchosen :
          idle.domainId = (chooseDomain clearingPrices wanCost localDomain stage.stageType).1
      · refine ⟨fun _ => true, rfl, fun s hs => ?_, .inl hchosen⟩
        obtain ⟨n, hn, hin⟩ := hmarket s hs
        exact ⟨n, hn, rfl, hin⟩
      · have hlocal : idle.domainId = localDomain := hin.resolve_left hchosen
        refine ⟨(· = localDomain), by simpa using hlocal,
          fun s _ => ⟨idle, hidle, by simpa using hlocal, .inr hlocal⟩, .inr ⟨?_, hlocal⟩⟩
        simpa [hlocal, eq_comm] using hchosen
    obtain ⟨p, hp, hplaced⟩ :=
      exists_placement_crowd hw governance hidle hidleOpen hopen hstage hdrawn
    obtain ⟨node, hnode, hhost, hallowed⟩ :=
      hobeys _ (topology.sameSites_crowd idle isOpen _) none true p hp stage.id stage hget
    obtain ⟨m, hm, hid, hdom, hslice⟩ := (topology.sameSites_crowd idle isOpen _).exists_node hnode
    obtain rfl : m = idle := List.inj_on_of_nodup_map hids hm hidle
      (hid.trans (Option.some.inj (hhost.symm.trans hplaced)))
    exact hbad ((stage.allowedOn_congr hdom hslice).mpr hallowed)
  · intro h topology' hsites budget loadAware p hp sid stage hstage
    have hmem : stage ∈ dag.stages.values :=
      List.mem_map_of_mem (f := Prod.snd) (Dict.get?_eq_some_iff.mp hstage)
    rcases h with ⟨s, hs, hnone⟩ | hall
    · obtain ⟨⟨k, s⟩, he, rfl⟩ := List.mem_map.mp hs
      have hs : dag.stage? k = some s := Dict.get?_eq_some_iff.mpr he
      obtain ⟨worker, hworker, hin, -⟩ := marketModePlacement_inMarket (hwb budget) hp hs
      obtain ⟨m, hm, -, hdom, -⟩ := hsites.exists_node hworker
      exact absurd (hdom ▸ hin) (hnone m hm)
    · obtain ⟨worker, hworker, hin, hget⟩ := marketModePlacement_inMarket (hwb budget) hp hstage
      obtain ⟨m, hm, -, hdom, hslice⟩ := hsites.exists_node hworker
      exact ⟨worker, hworker, hget,
        (stage.allowedOn_congr hdom hslice).mp (hall stage hmem m hm (hdom ▸ hin))⟩

end Requirements

private def clinicDag : PipelineDAG :=
  .ofLists [⟨"record", "anonymise", 1 / 2, 1, some "s1", some "d1", none⟩] []

private def clinicTopology : NetworkTopology where
  nodes := [⟨"n1", "d1", "s1", 1, 0, none⟩, ⟨"n2", "d2", "s1", 1, 0, none⟩]
  latencyMatrix := .ofList [(("n1", "n2"), 5)]

private def clinicPrices : PriceTable :=
  .ofList [("d1", .ofList [("anonymise", 2)]), ("d2", .ofList [("anonymise", 1 / 2)])]

/-- With a transfer cost above the price difference the stage stays in its domain. -/
theorem marketModePlacement_clinic :
    ∃ p, marketModePlacement clinicDag clinicTopology {} clinicPrices 2 "d1" true = some p ∧
      ObeysRequirements clinicDag clinicTopology p := by
  have hp : marketModePlacement clinicDag clinicTopology {} clinicPrices 2 "d1" true =
      some (.ofList [("record", "n1")]) := by decide +kernel
  exact ⟨_, hp, (marketModePlacement_obeys_iff (PipelineDAG.built_ofLists _ _) (by decide) {}).mpr
    (by decide +kernel) clinicTopology rfl clinicDag.valueBudget true _ hp⟩

/-- With a lower transfer cost the stage leaves the domain its data must stay in. -/
theorem not_obeysRequirements :
    marketModePlacement clinicDag clinicTopology {} clinicPrices 1 "d1" false =
        some (.ofList [("record", "n2")]) ∧
      ¬ ObeysRequirements clinicDag clinicTopology (.ofList [("record", "n2")]) := by
  refine ⟨by decide +kernel, fun h => ?_⟩
  obtain ⟨node, hnode, hhost, hallowed⟩ := h "record" _ (by decide +kernel :
    clinicDag.stage? "record" = some ⟨"record", "anonymise", 1 / 2, 1, some "s1", some "d1", none⟩)
  revert node
  decide +kernel

end NeuralPubSub
