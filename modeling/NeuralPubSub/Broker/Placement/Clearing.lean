-- SUMMARY: Clearing prices: each domain's price of a stage type is an order statistic of the costs bid there.
import NeuralPubSub.Base.OrderStatistic
import NeuralPubSub.Broker.Placement.Market

open Base

/-!
# Clearing prices

`compute_clearing_prices` of `src/broker/market.py`. The price of a stage type in
a domain is the cost of the marginal worker needed to meet the demand.
-/

namespace NeuralPubSub

/-- A worker's reported cost for processing one stage of a given type. -/
structure WorkerBid where
  workerId : NodeId
  domainId : DomainId
  stageType : String
  computeMs : ℚ
  costPerStage : ℚ
  deriving DecidableEq, Repr

def WorkerBid.key (bid : WorkerBid) : DomainId × String := (bid.domainId, bid.stageType)

/-- The bids by domain and stage type. -/
def groupBids (bids : List WorkerBid) : Dict (DomainId × String) (List WorkerBid) :=
  bids.foldl (fun grouped bid => grouped.insert bid.key (grouped.getD bid.key [] ++ [bid])) .empty

/-- The price of a group: the cost of the marginal bid, or zero without demand. -/
def clearingPrice (demand : Dict String Nat) (stageType : String) (domainBids : List WorkerBid) :
    Except PyError ℚ :=
  let sorted := domainBids.insertionSort fun a b => a.costPerStage ≤ b.costPerStage
  let stageDemand := demand.getD stageType 0
  if stageDemand = 0 then .ok 0
  else
    let supply := sorted.length
    match sorted[min stageDemand supply - 1]? with
    | some bid => .ok bid.costPerStage
    | none => .error (.index "list index out of range")

/-- `result.setdefault(domain_id, {})[stage_type] = price`. -/
def PriceTable.setPrice (result : PriceTable) (key : DomainId × String) (price : ℚ) : PriceTable :=
  result.insert key.1 ((result.getD key.1 .empty).insert key.2 price)

def computeClearingPrices (bids : List WorkerBid) (demand : Dict String Nat) :
    Except PyError PriceTable :=
  if bids = [] then .ok .empty
  else
    (groupBids bids).entries.foldlM (fun result e => do
      let price ← clearingPrice demand e.1.2 e.2
      .ok (result.setPrice e.1 price)) .empty

/-- The price of a stage type in a domain, if the table has one. -/
def PriceTable.priceOf (prices : PriceTable) (domainId : DomainId) (stageType : String) :
    Option ℚ :=
  (prices.get? domainId).bind fun domainPrices => domainPrices.get? stageType

/-- The tables are equal as dictionaries. -/
def PriceTable.Same (prices prices' : PriceTable) : Prop :=
  ∀ domainId, (prices.get? domainId).map Dict.get? = (prices'.get? domainId).map Dict.get?

/-- The bids on a stage type in a domain. -/
def bidsOn (bids : List WorkerBid) (domainId : DomainId) (stageType : String) : List WorkerBid :=
  bids.filter fun bid => bid.key = (domainId, stageType)

def costsOn (bids : List WorkerBid) (domainId : DomainId) (stageType : String) : List ℚ :=
  (bidsOn bids domainId stageType).map WorkerBid.costPerStage

/-- What the price should be: none without a bid, zero without demand, and otherwise the
cost whose rank is the demand, as far as there are bids. -/
def Clears (costs : List ℚ) (demand : Nat) : Option ℚ → Prop
  | none => costs = []
  | some price =>
    costs ≠ [] ∧
      if demand = 0 then price = 0 else IsKthSmallest (min demand costs.length) costs price

/-! ## Prices of one group -/

/-- Prices grow with the demand and with the costs. -/
theorem Clears.mono {costs costs' : List ℚ} {demand demand' : Nat} {price price' : Option ℚ}
    (h : Clears costs demand price) (h' : Clears costs' demand' price') (hdemand : demand ≤ demand')
    (hlen : costs.length = costs'.length)
    (hcosts : ∀ z, costs'.countP (· ≤ z) ≤ costs.countP (· ≤ z)) (hnonneg : ∀ c ∈ costs, 0 ≤ c) :
    Option.Rel (· ≤ ·) price price' := by
  cases price with
  | none =>
    cases price' with
    | none => exact .none
    | some price' =>
      have hnil : costs' = [] := List.eq_nil_of_length_eq_zero (by rw [← hlen, h]; rfl)
      exact absurd hnil h'.1
  | some price =>
    cases price' with
    | none =>
      have hnil : costs = [] := List.eq_nil_of_length_eq_zero (by rw [hlen, h']; rfl)
      exact absurd hnil h.1
    | some price' =>
      refine .some ?_
      have hprice := h.2
      have hprice' := h'.2
      by_cases hzero : demand' = 0
      · rw [if_pos hzero] at hprice'
        rw [if_pos (by omega)] at hprice
        rw [hprice, hprice']
      · rw [if_neg hzero] at hprice'
        split at hprice
        · have hself : 0 < costs'.countP (· ≤ price') :=
            List.countP_pos_iff.mpr ⟨price', hprice'.mem, by simp⟩
          have hsome := hself.trans_le (hcosts price')
          rcases List.countP_pos_iff.mp hsome with ⟨c, hc, hle⟩
          rw [hprice]
          exact (hnonneg c hc).trans (by simpa using hle)
        · exact hprice.mono hprice' (by omega) hcosts

theorem Clears.isSome_iff {costs : List ℚ} {demand : Nat} {price : Option ℚ}
    (h : Clears costs demand price) : price.isSome ↔ costs ≠ [] := by
  cases price with
  | none => simpa using show costs = [] from h
  | some price => simpa using h.1

theorem Clears.perm {costs costs' : List ℚ} {demand : Nat} {price : Option ℚ}
    (h : Clears costs demand price) (hperm : costs.Perm costs') : Clears costs' demand price := by
  cases price with
  | none => exact List.nil_perm.mp ((show costs = [] from h) ▸ hperm)
  | some price =>
    refine ⟨fun hnil => h.1 (List.perm_nil.mp (hnil ▸ hperm)), ?_⟩
    have hprice := h.2
    split at hprice
    · next hzero => rw [if_pos hzero, hprice]
    · next hdemand =>
      rw [if_neg hdemand, ← hperm.length_eq]
      exact hprice.perm hperm

theorem Clears.unique {costs : List ℚ} {demand : Nat} {price price' : Option ℚ}
    (h : Clears costs demand price) (h' : Clears costs demand price') : price = price' := by
  cases price with
  | none =>
    cases price' with
    | none => rfl
    | some price' => exact absurd h h'.1
  | some price =>
    cases price' with
    | none => exact absurd h' h.1
    | some price' =>
      have hprice := h.2
      have hprice' := h'.2
      split at hprice
      · next hzero =>
        rw [if_pos hzero] at hprice'
        rw [hprice, hprice']
      · next hdemand =>
        rw [if_neg hdemand] at hprice'
        rw [hprice.unique hprice']

theorem clears_clearingPrice {domainBids : List WorkerBid} (hne : domainBids ≠ [])
    (demand : Dict String Nat) (stageType : String) :
    ∃ price, clearingPrice demand stageType domainBids = .ok price ∧
      Clears (domainBids.map WorkerBid.costPerStage) (demand.getD stageType 0) (some price) := by
  simp only [clearingPrice, Clears]
  have hcosts : domainBids.map WorkerBid.costPerStage ≠ [] := by simpa using hne
  split
  · next hzero => exact ⟨0, rfl, hcosts, rfl⟩
  · next hdemand =>
    generalize hsorted :
      domainBids.insertionSort (fun a b => a.costPerStage ≤ b.costPerStage) = sorted
    have hmap : sorted.map WorkerBid.costPerStage =
        (domainBids.map WorkerBid.costPerStage).insertionSort (· ≤ ·) := by
      rw [← hsorted]
      exact List.map_insertionSort _ _ _ _ fun a _ b _ => Iff.rfl
    have hperm :
        (sorted.map WorkerBid.costPerStage).Perm (domainBids.map WorkerBid.costPerStage) := by
      rw [hmap]
      exact List.perm_insertionSort _ _
    have hlen : sorted.length = (domainBids.map WorkerBid.costPerStage).length := by
      simpa using hperm.length_eq
    have hpos : 0 < sorted.length := by
      rw [hlen]
      exact List.length_pos_iff.mpr hcosts
    have hi : min (demand.getD stageType 0) sorted.length - 1 < sorted.length := by omega
    rw [List.getElem?_eq_getElem hi]
    refine ⟨_, rfl, hcosts, ?_⟩
    have hpairwise : (sorted.map WorkerBid.costPerStage).Pairwise (· ≤ ·) := by
      rw [hmap]
      exact List.pairwise_insertionSort _ _
    have hkth := isKthSmallest_of_pairwise hpairwise (by simpa using hi)
    rw [List.getElem_map, Nat.sub_add_cancel (by omega)] at hkth
    rw [← hlen]
    exact hkth.perm hperm

/-! ## The table -/

/-- A group holds the bids with its key, as they were given. -/
theorem get?_groupBids (bids : List WorkerBid) (domainId : DomainId) (stageType : String) :
    (groupBids bids).get? (domainId, stageType) =
      if bidsOn bids domainId stageType = [] then none
      else some (bidsOn bids domainId stageType) := by
  refine foldl_scan (P := fun done (grouped : Dict (DomainId × String) (List WorkerBid)) =>
    grouped.get? (domainId, stageType) =
      if bidsOn done domainId stageType = [] then none else some (bidsOn done domainId stageType))
    rfl ?_
  intro done bid _ grouped _ hgrouped
  rw [Dict.get?_insert, bidsOn, List.filter_append]
  split
  · next hkey =>
    have hself : [bid].filter (fun b => b.key = (domainId, stageType)) = [bid] := by simp [← hkey]
    rw [hself, if_neg (by simp), ← hkey, Dict.getD, hgrouped]
    split
    · next hnil =>
      rw [bidsOn] at hnil
      simp [hnil]
    · rfl
  · next hkey =>
    have hother : [bid].filter (fun b => b.key = (domainId, stageType)) = [] := by
      simpa using Ne.symm hkey
    rw [hother, List.append_nil, hgrouped]
    rfl

theorem priceOf_setPrice (prices : PriceTable) (key : DomainId × String) (price : ℚ)
    (domainId : DomainId) (stageType : String) :
    (prices.setPrice key price).priceOf domainId stageType =
      if (domainId, stageType) = key then some price else prices.priceOf domainId stageType := by
  cases key with
  | mk d t =>
  unfold PriceTable.priceOf PriceTable.setPrice
  simp only [Dict.get?_insert, Prod.mk.injEq]
  by_cases hd : domainId = d
  · subst hd
    simp only [if_true, true_and, Option.bind_some, Dict.get?_insert, Dict.getD]
    cases prices.get? domainId <;> simp
  · simp [hd]

/-- What the table holds once the groups `done` have been priced. -/
structure Priced (demand : Dict String Nat) (done : List ((DomainId × String) × List WorkerBid))
    (prices : PriceTable) : Prop where
  clears : ∀ d t group, ((d, t), group) ∈ done →
    Clears (group.map WorkerBid.costPerStage) (demand.getD t 0) (prices.priceOf d t)
  absent : ∀ d t, (d, t) ∉ done.map Prod.fst → prices.priceOf d t = none
  mem_iff : ∀ d, d ∈ prices ↔ ∃ e ∈ done, e.1.1 = d

theorem Priced.setPrice {demand : Dict String Nat}
    {done : List ((DomainId × String) × List WorkerBid)} {prices : PriceTable}
    (hpriced : Priced demand done prices) {e : (DomainId × String) × List WorkerBid}
    (hnew : e.1 ∉ done.map Prod.fst) {price : ℚ}
    (hclears : Clears (e.2.map WorkerBid.costPerStage) (demand.getD e.1.2 0) (some price)) :
    Priced demand (done ++ [e]) (prices.setPrice e.1 price) where
  clears d t group hmem := by
    rw [priceOf_setPrice]
    rcases List.mem_append.mp hmem with hdone | hlast
    · have hne : (d, t) ≠ e.1 := fun heq => hnew (heq ▸ List.mem_map_of_mem (f := Prod.fst) hdone)
      rw [if_neg hne]
      exact hpriced.clears d t group hdone
    · cases List.mem_singleton.mp hlast
      rw [if_pos rfl]
      exact hclears
  absent d t hnone := by
    rw [List.map_append, List.mem_append, not_or] at hnone
    rw [priceOf_setPrice, if_neg (by simpa using hnone.2)]
    exact hpriced.absent d t hnone.1
  mem_iff d := by
    rw [PriceTable.setPrice, Dict.mem_insert, hpriced.mem_iff]
    simp only [List.mem_append, List.mem_singleton, or_and_right, exists_or, exists_eq_left]
    rw [or_comm, eq_comm]

theorem mem_groupBids {bids : List WorkerBid} {key : DomainId × String} {group : List WorkerBid} :
    (key, group) ∈ (groupBids bids).entries ↔ group = bidsOn bids key.1 key.2 ∧ group ≠ [] := by
  rw [← Dict.get?_eq_some_iff, show key = (key.1, key.2) from rfl, get?_groupBids]
  split
  · next hnil => simp [hnil]
  · next hne =>
    rw [Option.some.injEq]
    exact ⟨fun h => ⟨h.symm, h ▸ hne⟩, fun h => h.1.symm⟩

theorem priced_groupBids (bids : List WorkerBid) (demand : Dict String Nat) :
    ∃ prices, computeClearingPrices bids demand = .ok prices ∧
      Priced demand (groupBids bids).entries prices := by
  unfold computeClearingPrices
  split
  · next hnil =>
    subst hnil
    exact ⟨.empty, rfl, by rintro _ _ _ ⟨⟩, fun _ _ _ => rfl, by simp [groupBids]⟩
  · refine foldlM_scan_ok (P := Priced demand) ⟨by simp, fun _ _ _ => rfl, by simp⟩ ?_
    intro done e rest prices hl hpriced
    have hmem : e ∈ (groupBids bids).entries := by simp [hl]
    rcases clears_clearingPrice (mem_groupBids.mp hmem).2 demand e.1.2 with ⟨price, hprice, hclears⟩
    refine ⟨prices.setPrice e.1 price, by rw [hprice]; rfl, hpriced.setPrice ?_ hclears⟩
    have hnodup := (groupBids bids).nodupKeys
    rw [hl, List.map_append, List.nodup_append] at hnodup
    exact fun hdone => hnodup.2.2 e.1 hdone e.1 (by simp) rfl

theorem costsOn_ne_nil {bids : List WorkerBid} {d : DomainId} {t : String} :
    costsOn bids d t ≠ [] ↔ ∃ bid ∈ bids, bid.domainId = d ∧ bid.stageType = t := by
  simp [costsOn, bidsOn, WorkerBid.key]

/-- The clearing never raises, and prices exactly what has a bid. -/
theorem computeClearingPrices_clears (bids : List WorkerBid) (demand : Dict String Nat) :
    ∃ prices, computeClearingPrices bids demand = .ok prices ∧
      (∀ d t, Clears (costsOn bids d t) (demand.getD t 0) (prices.priceOf d t)) ∧
      ∀ d, d ∈ prices ↔ ∃ bid ∈ bids, bid.domainId = d := by
  rcases priced_groupBids bids demand with ⟨prices, hok, hpriced⟩
  refine ⟨prices, hok, fun d t => ?_, fun d => ?_⟩
  · cases hgroup : (groupBids bids).get? (d, t) with
    | none =>
      have hnone := hpriced.absent d t (Dict.get?_eq_none_iff.mp hgroup)
      rw [get?_groupBids] at hgroup
      rw [hnone]
      show costsOn bids d t = []
      simpa [costsOn] using hgroup
    | some group =>
      have hmem := Dict.get?_eq_some_iff.mp hgroup
      have hclears := hpriced.clears d t group hmem
      rwa [(mem_groupBids.mp hmem).1] at hclears
  · rw [hpriced.mem_iff]
    constructor
    · rintro ⟨⟨key, group⟩, hmem, rfl⟩
      have hgroup := mem_groupBids.mp hmem
      rcases List.exists_mem_of_ne_nil _ hgroup.2 with ⟨bid, hbid⟩
      rw [hgroup.1, bidsOn, List.mem_filter, decide_eq_true_eq] at hbid
      exact ⟨bid, hbid.1, congrArg Prod.fst hbid.2⟩
    · rintro ⟨bid, hbid, rfl⟩
      refine ⟨(bid.key, bidsOn bids bid.key.1 bid.key.2), mem_groupBids.mpr ⟨rfl, ?_⟩, rfl⟩
      exact List.ne_nil_of_mem (List.mem_filter.mpr ⟨hbid, by simp⟩)

theorem clears_of_eq_ok {bids : List WorkerBid} {demand : Dict String Nat} {prices : PriceTable}
    (hok : computeClearingPrices bids demand = .ok prices) (d : DomainId) (t : String) :
    Clears (costsOn bids d t) (demand.getD t 0) (prices.priceOf d t) := by
  rcases computeClearingPrices_clears bids demand with ⟨prices', hok', hclears, -⟩
  cases hok.symm.trans hok'
  exact hclears d t

theorem nonneg_of_mem_costsOn {bids : List WorkerBid} (hcosts : ∀ bid ∈ bids, 0 ≤ bid.costPerStage)
    {d : DomainId} {t : String} : ∀ c ∈ costsOn bids d t, 0 ≤ c := by
  intro c hc
  rcases List.mem_map.mp hc with ⟨bid, hbid, rfl⟩
  exact hcosts bid (List.mem_of_mem_filter hbid)

/-! ## Two runs -/

theorem PriceTable.same_of_priceOf {prices prices' : PriceTable}
    (hmem : ∀ d, d ∈ prices ↔ d ∈ prices')
    (hprice : ∀ d t, prices.priceOf d t = prices'.priceOf d t) : prices.Same prices' := by
  intro d
  have hd := hmem d
  have ht := hprice d
  rw [← Dict.get?_isSome_iff, ← Dict.get?_isSome_iff] at hd
  unfold PriceTable.priceOf at ht
  cases hp : prices.get? d with
  | none =>
    cases hp' : prices'.get? d with
    | none => rfl
    | some _ => simp [hp, hp'] at hd
  | some _ =>
    cases hp' : prices'.get? d with
    | none => simp [hp, hp'] at hd
    | some _ =>
      simp only [hp, hp', Option.bind_some] at ht
      exact congrArg some (funext ht)

/-- The same bid at a cost that is no lower. -/
def WorkerBid.Raised (bid bid' : WorkerBid) : Prop :=
  bid'.key = bid.key ∧ bid.costPerStage ≤ bid'.costPerStage

theorem forall₂_costsOn {bids bids' : List WorkerBid} (h : List.Forall₂ WorkerBid.Raised bids bids')
    (d : DomainId) (t : String) : List.Forall₂ (· ≤ ·) (costsOn bids d t) (costsOn bids' d t) := by
  induction h with
  | nil => exact .nil
  | @cons bid bid' bids bids' hraised _ ih =>
    unfold costsOn bidsOn at ih ⊢
    rw [List.filter_cons, List.filter_cons, hraised.1]
    split
    · exact .cons hraised.2 ih
    · exact ih

theorem computeClearingPrices_mono {bids bids' : List WorkerBid} {demand : Dict String Nat}
    {prices prices' : PriceTable} (h : List.Forall₂ WorkerBid.Raised bids bids')
    (hcosts : ∀ bid ∈ bids, 0 ≤ bid.costPerStage)
    (hok : computeClearingPrices bids demand = .ok prices)
    (hok' : computeClearingPrices bids' demand = .ok prices') (d : DomainId) (t : String) :
    Option.Rel (· ≤ ·) (prices.priceOf d t) (prices'.priceOf d t) := by
  have hraised := forall₂_costsOn h d t
  apply (clears_of_eq_ok hok d t).mono (clears_of_eq_ok hok' d t) le_rfl hraised.length_eq
    (countP_le_of_forall₂ hraised)
  exact nonneg_of_mem_costsOn hcosts

/-- Prices are order statistics of the costs bid. They depend neither on the order of the
bids nor on the bids of other groups, and grow with the demand and with each cost. -/
theorem computeClearingPrices_sound {bids : List WorkerBid} (demand : Dict String Nat)
    (hcosts : ∀ bid ∈ bids, 0 ≤ bid.costPerStage) :
    ∃ prices, computeClearingPrices bids demand = .ok prices ∧
      (∀ d, d ∈ prices ↔ ∃ bid ∈ bids, bid.domainId = d) ∧
      (∀ d t, (prices.priceOf d t).isSome ↔ ∃ bid ∈ bids, bid.domainId = d ∧ bid.stageType = t) ∧
      (∀ d t price, prices.priceOf d t = some price →
        if demand.getD t 0 = 0 then price = 0
        else IsKthSmallest (min (demand.getD t 0) (costsOn bids d t).length)
          (costsOn bids d t) price) ∧
      (∀ bids', bids'.Perm bids →
        ∃ prices', computeClearingPrices bids' demand = .ok prices' ∧ prices'.Same prices) ∧
      (∀ bids' d t, bidsOn bids' d t = bidsOn bids d t →
        ∃ prices', computeClearingPrices bids' demand = .ok prices' ∧
          prices'.priceOf d t = prices.priceOf d t) ∧
      (∀ demand' t, demand.getD t 0 ≤ demand'.getD t 0 →
        ∃ prices', computeClearingPrices bids demand' = .ok prices' ∧
          ∀ d, Option.Rel (· ≤ ·) (prices.priceOf d t) (prices'.priceOf d t)) ∧
      ∀ pre bid post cost, bids = pre ++ bid :: post → bid.costPerStage ≤ cost →
        ∃ prices',
          computeClearingPrices (pre ++ { bid with costPerStage := cost } :: post) demand =
            .ok prices' ∧
          ∀ d t, Option.Rel (· ≤ ·) (prices.priceOf d t) (prices'.priceOf d t) := by
  rcases computeClearingPrices_clears bids demand with ⟨prices, hok, hclears, hmem⟩
  refine ⟨prices, hok, hmem, fun d t => ?_, fun d t price hprice => ?_, fun bids' hperm => ?_,
    fun bids' d t hsame => ?_, fun demand' t hdemand => ?_, ?_⟩
  · rw [(hclears d t).isSome_iff, costsOn_ne_nil]
  · have hd := hclears d t
    rw [hprice] at hd
    exact hd.2
  · rcases computeClearingPrices_clears bids' demand with ⟨prices', hok', hclears', hmem'⟩
    refine ⟨prices', hok', PriceTable.same_of_priceOf (fun d => ?_) fun d t => ?_⟩
    · rw [hmem, hmem']
      simp only [hperm.mem_iff]
    · exact ((hclears' d t).perm ((hperm.filter _).map _)).unique (hclears d t)
  · rcases computeClearingPrices_clears bids' demand with ⟨prices', hok', hclears', -⟩
    refine ⟨prices', hok', ?_⟩
    have hd := hclears' d t
    rw [costsOn, hsame] at hd
    exact hd.unique (hclears d t)
  · rcases computeClearingPrices_clears bids demand' with ⟨prices', hok', hclears', -⟩
    refine ⟨prices', hok', fun d => ?_⟩
    exact (hclears d t).mono (hclears' d t) hdemand rfl (fun _ => le_rfl)
      (nonneg_of_mem_costsOn hcosts)
  · rintro pre bid post cost rfl hcost
    rcases computeClearingPrices_clears (pre ++ { bid with costPerStage := cost } :: post) demand
      with ⟨prices', hok', -, -⟩
    have hself : ∀ l : List WorkerBid, List.Forall₂ WorkerBid.Raised l l :=
      fun l => List.forall₂_same.mpr fun _ _ => ⟨rfl, le_rfl⟩
    have hraised : List.Forall₂ WorkerBid.Raised (pre ++ bid :: post)
        (pre ++ { bid with costPerStage := cost } :: post) :=
      List.rel_append (hself pre) (.cons ⟨rfl, hcost⟩ (hself post))
    exact ⟨prices', hok', computeClearingPrices_mono hraised hcosts hok hok'⟩

/-- Two workers bid on one stage type, the dearer one first, and two stages are wanted. -/
theorem computeClearingPrices_sound_two :
    ∃ prices,
      computeClearingPrices [⟨"w1", "d1", "fuse", 50, 2⟩, ⟨"w2", "d1", "fuse", 50, 1⟩]
        (.ofList [("fuse", 2)]) = .ok prices ∧
      ∀ price, prices.priceOf "d1" "fuse" = some price → IsKthSmallest 2 [2, 1] price := by
  rcases @computeClearingPrices_sound [⟨"w1", "d1", "fuse", 50, 2⟩, ⟨"w2", "d1", "fuse", 50, 1⟩]
    (.ofList [("fuse", 2)]) (by decide +kernel) with ⟨prices, hok, -, -, hprice, -⟩
  refine ⟨prices, hok, fun price hsome => ?_⟩
  have hkth := hprice "d1" "fuse" price hsome
  rwa [if_neg (by decide +kernel)] at hkth

end NeuralPubSub
