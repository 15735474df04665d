-- SUMMARY: Congestion pricing: what the workers of a registry bid, and the clearing prices that follow.
import NeuralPubSub.Broker.Models
import NeuralPubSub.Broker.Placement.Clearing

open Base

/-!
# Congestion pricing

`_compute_clearing_prices_from` of `NeuralBroker`. With `dynamic_bidding` a
worker's bid grows with its utilization. Numbers are exact rationals.
-/

namespace NeuralPubSub

/-- Default stage types from the three O-RAN pipeline templates. -/
def defaultStageTypes : Finset String :=
  {"data_collect", "preprocess", "feature_extract", "predict", "detect", "fuse", "aggregate",
    "report"}

/-- `_known_stage_types`. The attribute `_pipelines` is empty where it is not set. -/
def knownStageTypes (pipelines : Dict PipelineId PipelineState) : Finset String :=
  let stageTypes :=
    (pipelines.values.flatMap fun ps => ps.dag.stages.values.map Stage.stageType).toFinset
  if stageTypes = ∅ then defaultStageTypes else stageTypes

/-- The cost that a worker bids on a stage. -/
def bidCost (dynamicBidding : Bool) (w : WorkerInfo) : Except PyError ℚ :=
  if dynamicBidding then do
    let ratio ← divide w.currentLoad (max w.capacity (1 / 1000000))
    let utilization := min ratio (99 / 100)
    divide w.bidCostMs (1 - utilization)
  else .ok w.bidCostMs

def workerBid (w : WorkerInfo) (cost : ℚ) (stageType : String) : WorkerBid where
  workerId := w.nodeId
  domainId := w.domainId
  stageType := stageType
  computeMs := cost
  costPerStage := cost

/-- `_compute_clearing_prices_from`; `stageTypes` are the known stage types, in the order in
which the set gives them. -/
def computeClearingPricesFrom (dynamicBidding : Bool) (stageTypes : List String)
    (workers : Dict NodeId WorkerInfo) : Except PyError PriceTable := do
  let bids ← workers.values.mapM fun w => do
    let cost ← bidCost dynamicBidding w
    .ok (stageTypes.map (workerBid w cost))
  computeClearingPrices bids.flatten (.ofList (stageTypes.map fun st => (st, 1)))

/-! ## The bid of a worker -/

def WorkerInfo.utilization (w : WorkerInfo) : ℚ :=
  min (w.currentLoad / max w.capacity (1 / 1000000)) (99 / 100)

/-- The bid of a worker with `dynamic_bidding`. -/
def WorkerInfo.congestedCost (w : WorkerInfo) : ℚ := w.bidCostMs / (1 - w.utilization)

theorem max_capacity_pos (w : WorkerInfo) : 0 < max w.capacity (1 / 1000000) :=
  lt_max_of_lt_right (by norm_num)

theorem one_sub_utilization_ge (w : WorkerInfo) : 1 / 100 ≤ 1 - w.utilization := by
  have hle : w.utilization ≤ 99 / 100 := min_le_right _ _
  linarith

theorem one_sub_utilization_pos (w : WorkerInfo) : 0 < 1 - w.utilization :=
  lt_of_lt_of_le (by norm_num) (one_sub_utilization_ge w)

/-- No division of a bid is by zero. -/
theorem bidCost_dynamic (w : WorkerInfo) : bidCost true w = .ok w.congestedCost := by
  have hcapacity := (max_capacity_pos w).ne'
  have hutilization := (one_sub_utilization_pos w).ne'
  simp only [bidCost, if_true, divide, if_neg hcapacity]
  exact if_neg hutilization

theorem le_congestedCost {w : WorkerInfo} (hload : 0 ≤ w.currentLoad) (hbid : 0 ≤ w.bidCostMs) :
    w.bidCostMs ≤ w.congestedCost := by
  have hutilization : 0 ≤ w.utilization :=
    le_min (div_nonneg hload (max_capacity_pos w).le) (by norm_num)
  exact le_div_self hbid (one_sub_utilization_pos w) (by linarith)

theorem congestedCost_le {w : WorkerInfo} (hbid : 0 ≤ w.bidCostMs) :
    w.congestedCost ≤ 100 * w.bidCostMs := by
  rw [WorkerInfo.congestedCost, div_le_iff₀ (one_sub_utilization_pos w)]
  have hge := one_sub_utilization_ge w
  nlinarith

theorem congestedCost_mono {w : WorkerInfo} {load : ℚ} (hbid : 0 ≤ w.bidCostMs)
    (hload : w.currentLoad ≤ load) :
    w.congestedCost ≤ ({ w with currentLoad := load } : WorkerInfo).congestedCost := by
  have hutilization : w.utilization ≤ ({ w with currentLoad := load } : WorkerInfo).utilization :=
    min_le_min_right _ (div_le_div_of_nonneg_right hload (max_capacity_pos w).le)
  exact div_le_div_of_nonneg_left hbid (one_sub_utilization_pos _) (by linarith)

/-! ## The bids of a registry -/

/-- All bids of a registry with `dynamic_bidding`. -/
def congestedBids (stageTypes : List String) (workers : Dict NodeId WorkerInfo) : List WorkerBid :=
  workers.values.flatMap fun w => stageTypes.map (workerBid w w.congestedCost)

theorem computeClearingPricesFrom_dynamic (stageTypes : List String)
    (workers : Dict NodeId WorkerInfo) :
    computeClearingPricesFrom true stageTypes workers =
      computeClearingPrices (congestedBids stageTypes workers)
        (.ofList (stageTypes.map fun st => (st, 1))) := by
  have hbids : (workers.values.mapM fun w => do
      let cost ← bidCost true w
      .ok (stageTypes.map (workerBid w cost)) : Except PyError (List (List WorkerBid))) =
        .ok (workers.values.map fun w => stageTypes.map (workerBid w w.congestedCost)) := by
    apply mapM_eq_ok
    intro w _
    rw [bidCost_dynamic]
    rfl
  rw [computeClearingPricesFrom, hbids]
  rfl

theorem mem_costsOn_congestedBids {stageTypes : List String} {workers : Dict NodeId WorkerInfo}
    {d : DomainId} {t : String} (ht : t ∈ stageTypes) {c : ℚ} :
    c ∈ costsOn (congestedBids stageTypes workers) d t ↔
      ∃ w ∈ workers.values, w.domainId = d ∧ w.congestedCost = c := by
  simp only [costsOn, bidsOn, congestedBids, List.mem_map, List.mem_filter, List.mem_flatMap,
    decide_eq_true_eq, WorkerBid.key, Prod.mk.injEq]
  constructor
  · rintro ⟨_, ⟨⟨w, hw, st, -, rfl⟩, hd, -⟩, rfl⟩
    exact ⟨w, hw, hd, rfl⟩
  · rintro ⟨w, hw, rfl, rfl⟩
    exact ⟨_, ⟨⟨w, hw, t, ht, rfl⟩, rfl, rfl⟩, rfl⟩

theorem costPerStage_congestedBids_nonneg {stageTypes : List String}
    {workers : Dict NodeId WorkerInfo} (hload : ∀ w ∈ workers.values, 0 ≤ w.currentLoad)
    (hbid : ∀ w ∈ workers.values, 0 ≤ w.bidCostMs) :
    ∀ bid ∈ congestedBids stageTypes workers, 0 ≤ bid.costPerStage := by
  intro bid hmem
  rcases List.mem_flatMap.mp hmem with ⟨w, hw, hst⟩
  rcases List.mem_map.mp hst with ⟨st, -, rfl⟩
  exact (hbid w hw).trans (le_congestedCost (hload w hw) (hbid w hw))

/-- The price is the cheapest bid of the domain. -/
theorem priceOf_congested {stageTypes : List String} {workers : Dict NodeId WorkerInfo}
    {prices : PriceTable} (hok : computeClearingPricesFrom true stageTypes workers = .ok prices)
    {d : DomainId} {t : String} (ht : t ∈ stageTypes) {w : WorkerInfo} (hw : w ∈ workers.values)
    (hd : w.domainId = d) :
    ∃ v ∈ workers.values, v.domainId = d ∧ prices.priceOf d t = some v.congestedCost ∧
      v.congestedCost ≤ w.congestedCost := by
  rw [computeClearingPricesFrom_dynamic] at hok
  have hclears := clears_of_eq_ok hok d t
  rw [Dict.getD, Dict.get?_ofList_const, if_pos ht, Option.getD_some] at hclears
  have hcost : w.congestedCost ∈ costsOn (congestedBids stageTypes workers) d t :=
    (mem_costsOn_congestedBids ht).mpr ⟨w, hw, hd, rfl⟩
  cases hprice : prices.priceOf d t with
  | none =>
    rw [hprice] at hclears
    exact absurd hclears (List.ne_nil_of_mem hcost)
  | some price =>
    rw [hprice] at hclears
    have hkth := hclears.2
    rw [if_neg one_ne_zero, Nat.min_eq_left (List.length_pos_of_mem hcost),
      isKthSmallest_one_iff] at hkth
    rcases (mem_costsOn_congestedBids ht).mp hkth.1 with ⟨v, hv, hvd, rfl⟩
    exact ⟨v, hv, hvd, rfl, hkth.2 _ hcost⟩

/-- A registry with one worker more loaded makes no bid cheaper. -/
theorem forall₂_congestedBids (stageTypes : List String) {workers : Dict NodeId WorkerInfo}
    (hbid : ∀ w ∈ workers.values, 0 ≤ w.bidCostMs) {nodeId : NodeId} {w : WorkerInfo} {load : ℚ}
    (hw : workers.get? nodeId = some w) (hload : w.currentLoad ≤ load) :
    List.Forall₂ WorkerBid.Raised (congestedBids stageTypes workers)
      (congestedBids stageTypes (workers.insert nodeId { w with currentLoad := load })) := by
  have hmem : w ∈ workers.values :=
    List.mem_map_of_mem (f := Prod.snd) (Dict.get?_eq_some_iff.mp hw)
  have hworkers : List.Forall₂
      (fun v v' : WorkerInfo => v'.domainId = v.domainId ∧ v.congestedCost ≤ v'.congestedCost)
      workers.values (workers.insert nodeId { w with currentLoad := load }).values :=
    Dict.forall₂_values_insert (fun _ => ⟨rfl, le_rfl⟩) hw
      ⟨rfl, congestedCost_mono (hbid w hmem) hload⟩
  refine List.rel_flatMap hworkers fun v v' hv => ?_
  have hstage : ∀ l : List String, List.Forall₂ WorkerBid.Raised
      (l.map (workerBid v v.congestedCost)) (l.map (workerBid v' v'.congestedCost)) := by
    intro l
    induction l with
    | nil => exact .nil
    | cons st l ih => exact .cons ⟨congrArg (·, st) hv.1, hv.2⟩ ih
  exact hstage stageTypes

/-- With `dynamic_bidding` no division is by zero, a price lies between the smallest bid
cost of the domain and a hundred times it, and no price falls when a load rises. -/
theorem computeClearingPricesFrom_sound {workers : Dict NodeId WorkerInfo}
    (hload : ∀ w ∈ workers.values, 0 ≤ w.currentLoad)
    (hbid : ∀ w ∈ workers.values, 0 ≤ w.bidCostMs) {pipelines : Dict PipelineId PipelineState}
    {stageTypes : List String} (htypes : stageTypes.toFinset = knownStageTypes pipelines) :
    ∃ prices, computeClearingPricesFrom true stageTypes workers = .ok prices ∧
      (∀ d, ∀ t ∈ knownStageTypes pipelines, ∀ m,
        IsLeast {c | ∃ w ∈ workers.values, w.domainId = d ∧ w.bidCostMs = c} m →
          ∃ price, prices.priceOf d t = some price ∧ m ≤ price ∧ price ≤ 100 * m) ∧
      ∀ nodeId w load, workers.get? nodeId = some w → w.currentLoad ≤ load →
        ∃ prices', computeClearingPricesFrom true stageTypes
            (workers.insert nodeId { w with currentLoad := load }) = .ok prices' ∧
          ∀ d t, Option.Rel (· ≤ ·) (prices.priceOf d t) (prices'.priceOf d t) := by
  have htotal : ∀ workers, ∃ prices,
      computeClearingPricesFrom true stageTypes workers = .ok prices := by
    intro workers
    rw [computeClearingPricesFrom_dynamic]
    rcases computeClearingPrices_clears (congestedBids stageTypes workers) _ with ⟨prices, hok, -⟩
    exact ⟨prices, hok⟩
  cases htotal workers with
  | intro prices hok =>
  refine ⟨prices, hok, fun d t ht m hm => ?_, fun nodeId w load hw hle => ?_⟩
  · rw [← htypes, List.mem_toFinset] at ht
    rcases hm.1 with ⟨w, hw, hd, rfl⟩
    rcases priceOf_congested hok ht hw hd with ⟨v, hv, hvd, hprice, hcheapest⟩
    refine ⟨_, hprice, ?_, hcheapest.trans (congestedCost_le (hbid w hw))⟩
    exact (hm.2 ⟨v, hv, hvd, rfl⟩).trans (le_congestedCost (hload v hv) (hbid v hv))
  · cases htotal (workers.insert nodeId { w with currentLoad := load }) with
    | intro prices' hok' =>
    refine ⟨prices', hok', ?_⟩
    rw [computeClearingPricesFrom_dynamic] at hok hok'
    exact computeClearingPrices_mono (forall₂_congestedBids stageTypes hbid hw hle)
      (costPerStage_congestedBids_nonneg hload hbid) hok hok'

/-- An overloaded worker without capacity next to an idle one. -/
theorem computeClearingPricesFrom_sound_overloaded :
    ∃ prices, computeClearingPricesFrom true ["data_collect", "preprocess", "feature_extract",
        "predict", "detect", "fuse", "aggregate", "report"]
        (.ofList [("w1", ⟨"w1", "d1", "s", 0, "", 3, 2⟩), ("w2", ⟨"w2", "d1", "s", 4, "", 0, 5⟩)]) =
          .ok prices ∧
      ∃ price, prices.priceOf "d1" "fuse" = some price ∧ 2 ≤ price ∧ price ≤ 100 * 2 := by
  rcases @computeClearingPricesFrom_sound
    (.ofList [("w1", ⟨"w1", "d1", "s", 0, "", 3, 2⟩), ("w2", ⟨"w2", "d1", "s", 4, "", 0, 5⟩)])
    (by decide +kernel) (by decide +kernel) .empty
    ["data_collect", "preprocess", "feature_extract", "predict", "detect", "fuse", "aggregate",
      "report"] (by decide +kernel) with ⟨prices, hok, hprice, -⟩
  refine ⟨prices, hok, hprice "d1" "fuse" (by decide +kernel) 2 ⟨?_, ?_⟩⟩
  · exact ⟨⟨"w1", "d1", "s", 0, "", 3, 2⟩, by decide +kernel, rfl, rfl⟩
  · rintro c ⟨w, hw, -, rfl⟩
    revert w
    decide +kernel

end NeuralPubSub
