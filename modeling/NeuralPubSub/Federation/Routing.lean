-- SUMMARY: The five-step federated routing protocol, and that it finds a nearest admissible cluster whenever there is one.
import NeuralPubSub.Federation.Propagation

open Base

/-!
# Federated routing

`src/federation/routing.py`. The distance between a publication and a centroid is
a parameter, and distances, radii and trust levels are numbers of any ordered
field.
-/

namespace NeuralPubSub

/-! ## Results and constraints -/

/-- Outcome of the federated routing protocol. -/
structure RoutingResult (K : Type) where
  matched : Bool
  targetDomain : Option DomainId
  targetCluster : Option String
  confidence : K
  forwarded : Bool
  governanceFiltered : Nat
  deriving DecidableEq, Repr

/-- Data sovereignty and trust constraints for cross-domain routing. -/
structure GovernanceConstraints (K : Type) [Field K] where
  localDataTypes : Finset String := ∅
  trustLevels : Dict DomainId K := .empty
  minTrust : K := 1 / 2

section Routing

variable {P E K : Type} [Field K] [LinearOrder K]

/-! ## The five steps -/

section Definitions

variable (distance : P → E → K) (publication : P)

/-- `route_locally`. -/
def routeLocally (localSummary : SubscriptionSummary E K) (threshold : K) :
    Option (RoutingResult K) :=
  match localSummary.clusters.argmin fun c => distance publication c.centroidEmbedding with
  | none => none
  | some best =>
    let bestDist := distance publication best.centroidEmbedding
    if bestDist ≤ threshold then
      some
        { matched := true
          targetDomain := some localSummary.domainId
          targetCluster := some best.clusterId
          confidence := 1 - bestDist
          forwarded := false
          governanceFiltered := 0 }
    else none

/-- The distance to the centroid is less than the effective threshold of the cluster. -/
def InReach (threshold : K) (cluster : ClusterSummary E K) : Prop :=
  distance publication cluster.centroidEmbedding < cluster.radius + threshold

instance (threshold : K) (cluster : ClusterSummary E K) :
    Decidable (InReach distance publication threshold cluster) :=
  inferInstanceAs (Decidable (_ < _))

/-- The candidates that the summary of one peer contributes. -/
def candidatesOf (threshold : K) (domainId : DomainId) (summary : SubscriptionSummary E K) :
    List (DomainId × String × K) :=
  (summary.clusters.filter (InReach distance publication threshold)).map fun c =>
    (domainId, c.clusterId, distance publication c.centroidEmbedding)

/-- `select_federation_candidates`. -/
def selectFederationCandidates (peerSummaries : Dict DomainId (SubscriptionSummary E K))
    (threshold : K) : List (DomainId × String × K) :=
  (peerSummaries.entries.flatMap fun e =>
    candidatesOf distance publication threshold e.1 e.2).mergeSort fun x y => x.2.2 ≤ y.2.2

end Definitions

/-- Data of the type may go to the domain. -/
def GovernanceConstraints.Permits (governance : GovernanceConstraints K) (dataType : String)
    (domainId : DomainId) : Prop :=
  dataType ∉ governance.localDataTypes ∧
    governance.minTrust ≤ governance.trustLevels.getD domainId 0

instance (governance : GovernanceConstraints K) (dataType : String) (domainId : DomainId) :
    Decidable (governance.Permits dataType domainId) :=
  inferInstanceAs (Decidable (_ ∧ _))

/-- `apply_governance_filter`. -/
def applyGovernanceFilter (candidates : List (DomainId × String × K)) (dataType : String)
    (governance : GovernanceConstraints K) : List (DomainId × String × K) :=
  if dataType ∈ governance.localDataTypes then []
  else candidates.filter fun x => governance.trustLevels.getD x.1 0 ≥ governance.minTrust

/-- `federated_route`. -/
def federatedRoute (distance : P → E → K) (publication : P) (localSummary : SubscriptionSummary E K)
    (peerSummaries : Dict DomainId (SubscriptionSummary E K)) (threshold : K) (dataType : String)
    (governance : GovernanceConstraints K) : RoutingResult K :=
  match routeLocally distance publication localSummary threshold with
  | some localResult => localResult
  | none =>
    let selected := selectFederationCandidates distance publication peerSummaries threshold
    let candidates := applyGovernanceFilter selected dataType governance
    let governanceFiltered := selected.length - candidates.length
    match candidates with
    | [] =>
      { matched := false
        targetDomain := none
        targetCluster := none
        confidence := 0
        forwarded := false
        governanceFiltered := governanceFiltered }
    | (bestDomain, bestCluster, bestDist) :: _ =>
      { matched := true
        targetDomain := some bestDomain
        targetCluster := some bestCluster
        confidence := 1 - bestDist
        forwarded := true
        governanceFiltered := governanceFiltered }

/-! ## Local routing -/

variable {distance : P → E → K} {publication : P} {localSummary : SubscriptionSummary E K}
  {threshold : K}

/-- Some local cluster is within the threshold. -/
def MatchesLocally (distance : P → E → K) (publication : P) (localSummary : SubscriptionSummary E K)
    (threshold : K) : Prop :=
  ∃ c ∈ localSummary.clusters, distance publication c.centroidEmbedding ≤ threshold

/-- A match with a nearest cluster of the local summary. -/
structure NearestLocal (distance : P → E → K) (publication : P)
    (localSummary : SubscriptionSummary E K) (threshold : K) (r : RoutingResult K)
    (c : ClusterSummary E K) : Prop where
  matched : r.matched = true
  kept : r.forwarded = false
  unfiltered : r.governanceFiltered = 0
  target : r.targetDomain = some localSummary.domainId ∧ r.targetCluster = some c.clusterId
  confidence : r.confidence = 1 - distance publication c.centroidEmbedding
  mem : c ∈ localSummary.clusters
  within : distance publication c.centroidEmbedding ≤ threshold
  nearest : ∀ c' ∈ localSummary.clusters,
    distance publication c.centroidEmbedding ≤ distance publication c'.centroidEmbedding

theorem routeLocally_some {r : RoutingResult K}
    (h : routeLocally distance publication localSummary threshold = some r) :
    ∃ c, NearestLocal distance publication localSummary threshold r c := by
  unfold routeLocally at h
  cases hbest : localSummary.clusters.argmin fun c => distance publication c.centroidEmbedding with
  | none => simp [hbest] at h
  | some best =>
    simp only [hbest] at h
    split at h
    · next hwithin =>
      obtain rfl := Option.some.inj h
      refine ⟨best, rfl, rfl, rfl, ⟨rfl, rfl⟩, rfl, List.argmin_mem hbest, hwithin, ?_⟩
      intro c' hc'
      exact List.le_of_mem_argmin (f := fun c => distance publication c.centroidEmbedding) hc' hbest
    · cases h

theorem routeLocally_eq_none_iff :
    routeLocally distance publication localSummary threshold = none ↔
      ¬ MatchesLocally distance publication localSummary threshold := by
  constructor
  · rintro h ⟨c, hc, hwithin⟩
    unfold routeLocally at h
    cases hbest : localSummary.clusters.argmin fun c => distance publication c.centroidEmbedding with
    | none => simp [List.argmin_eq_none.mp hbest] at hc
    | some best =>
      have hle := List.le_of_mem_argmin
        (f := fun c => distance publication c.centroidEmbedding) hc hbest
      simp [hbest, hle.trans hwithin] at h
  · intro h
    cases hroute : routeLocally distance publication localSummary threshold with
    | none => rfl
    | some r =>
      obtain ⟨c, hc⟩ := routeLocally_some hroute
      exact absurd ⟨c, hc.mem, hc.within⟩ h

/-! ## Candidates -/

variable {peerSummaries : Dict DomainId (SubscriptionSummary E K)}
  {governance : GovernanceConstraints K} {dataType : String}

theorem mem_selectFederationCandidates {x : DomainId × String × K} :
    x ∈ selectFederationCandidates distance publication peerSummaries threshold ↔
      ∃ summary, peerSummaries.get? x.1 = some summary ∧ ∃ c ∈ summary.clusters,
        InReach distance publication threshold c ∧
          x.2 = (c.clusterId, distance publication c.centroidEmbedding) := by
  simp only [selectFederationCandidates, List.mem_mergeSort, List.mem_flatMap, candidatesOf,
    List.mem_map, List.mem_filter, decide_eq_true_eq]
  constructor
  · rintro ⟨⟨domainId, summary⟩, he, c, ⟨hc, hreach⟩, rfl⟩
    exact ⟨summary, Dict.get?_eq_some_iff.mpr he, c, hc, hreach, rfl⟩
  · rintro ⟨summary, hget, c, hc, hreach, heq⟩
    exact ⟨(x.1, summary), Dict.get?_eq_some_iff.mp hget, c, ⟨hc, hreach⟩, Prod.ext rfl heq.symm⟩

/-- The candidates stand in the order of their distances. -/
theorem selectFederationCandidates_sorted :
    (selectFederationCandidates distance publication peerSummaries threshold).Pairwise
      fun x y => x.2.2 ≤ y.2.2 :=
  pairwise_mergeSort_key (fun x : DomainId × String × K => x.2.2) _

theorem applyGovernanceFilter_eq (candidates : List (DomainId × String × K)) :
    applyGovernanceFilter candidates dataType governance =
      candidates.filter fun x => governance.Permits dataType x.1 := by
  unfold applyGovernanceFilter
  split
  · next hlocal =>
    symm
    apply List.filter_eq_nil_iff.mpr
    intro x _ hpermits
    exact (of_decide_eq_true hpermits).1 hlocal
  · next hlocal =>
    apply List.filter_congr
    intro x _
    simp [GovernanceConstraints.Permits, hlocal]

/-- A cluster that a peer has announced, in reach of the publication, whose domain the
governance rules permit. -/
structure AdmissibleTarget (distance : P → E → K) (publication : P)
    (peerSummaries : Dict DomainId (SubscriptionSummary E K)) (threshold : K) (dataType : String)
    (governance : GovernanceConstraints K) (domainId : DomainId) (c : ClusterSummary E K) :
    Prop where
  announced : ∃ summary, peerSummaries.get? domainId = some summary ∧ c ∈ summary.clusters
  inReach : InReach distance publication threshold c
  permitted : governance.Permits dataType domainId

/-- What is left of the candidates are the admissible clusters. -/
theorem mem_filtered {x : DomainId × String × K} :
    x ∈ applyGovernanceFilter (selectFederationCandidates distance publication peerSummaries
        threshold) dataType governance ↔
      ∃ c, AdmissibleTarget distance publication peerSummaries threshold dataType governance x.1 c ∧
        x.2 = (c.clusterId, distance publication c.centroidEmbedding) := by
  rw [applyGovernanceFilter_eq, List.mem_filter, mem_selectFederationCandidates,
    decide_eq_true_eq]
  constructor
  · rintro ⟨⟨summary, hget, c, hc, hreach, heq⟩, hpermits⟩
    exact ⟨c, ⟨⟨summary, hget, hc⟩, hreach, hpermits⟩, heq⟩
  · rintro ⟨c, ⟨⟨summary, hget, hc⟩, hreach, hpermits⟩, heq⟩
    exact ⟨⟨summary, hget, c, hc, hreach, heq⟩, hpermits⟩

/-- The number of clusters in reach that the governance rules exclude. -/
def excludedClusters (distance : P → E → K) (publication : P)
    (peerSummaries : Dict DomainId (SubscriptionSummary E K)) (threshold : K) (dataType : String)
    (governance : GovernanceConstraints K) : Nat :=
  (peerSummaries.entries.map fun e => e.2.clusters.countP fun c =>
    InReach distance publication threshold c ∧ ¬ governance.Permits dataType e.1).sum

theorem length_sub_length_filtered :
    (selectFederationCandidates distance publication peerSummaries threshold).length -
        (applyGovernanceFilter (selectFederationCandidates distance publication peerSummaries
          threshold) dataType governance).length =
      excludedClusters distance publication peerSummaries threshold dataType governance := by
  have hperm : (selectFederationCandidates distance publication peerSummaries threshold).Perm
      (peerSummaries.entries.flatMap fun e => candidatesOf distance publication threshold e.1 e.2) :=
    List.mergeSort_perm ..
  have hcount := List.length_eq_countP_add_countP
    (fun x : DomainId × String × K => decide (governance.Permits dataType x.1))
    (l := selectFederationCandidates distance publication peerSummaries threshold)
  rw [applyGovernanceFilter_eq, ← List.countP_eq_length_filter, hcount, Nat.add_sub_cancel_left,
    hperm.countP_eq, List.countP_flatMap, excludedClusters]
  congr 1
  apply List.map_congr_left
  intro e _
  rw [Function.comp_apply, candidatesOf, List.countP_map, List.countP_filter]
  apply List.countP_congr
  intro c _
  simp [and_comm]

/-! ## The whole protocol -/

/-- What the protocol promises of its result. -/
structure RoutesSafely (distance : P → E → K) (publication : P)
    (localSummary : SubscriptionSummary E K)
    (peerSummaries : Dict DomainId (SubscriptionSummary E K)) (threshold : K) (dataType : String)
    (governance : GovernanceConstraints K) (r : RoutingResult K) : Prop where
  /-- The match is local exactly when some local cluster is within the threshold. -/
  kept_iff : r.matched = true ∧ r.forwarded = false ↔
    MatchesLocally distance publication localSummary threshold
  /-- It is then one with a nearest cluster. -/
  nearest : r.matched = true ∧ r.forwarded = false →
    ∃ c, NearestLocal distance publication localSummary threshold r c
  /-- A publication is forwarded to a nearest admissible cluster, and only if it has no
  local match. -/
  forwarded : r.forwarded = true →
    ¬ MatchesLocally distance publication localSummary threshold ∧ r.matched = true ∧
      ∃ domainId c,
        AdmissibleTarget distance publication peerSummaries threshold dataType governance domainId c ∧
        r.targetDomain = some domainId ∧ r.targetCluster = some c.clusterId ∧
        r.confidence = 1 - distance publication c.centroidEmbedding ∧
        ∀ domainId' c',
          AdmissibleTarget distance publication peerSummaries threshold dataType governance domainId' c' →
          distance publication c.centroidEmbedding ≤ distance publication c'.centroidEmbedding
  /-- There is no match exactly when no local and no admissible cluster matches. -/
  unmatched_iff : r.matched = false ↔
    ¬ MatchesLocally distance publication localSummary threshold ∧ ∀ domainId c,
      ¬ AdmissibleTarget distance publication peerSummaries threshold dataType governance domainId c
  /-- The counter is exact, and 0 on a local match. -/
  filtered : (MatchesLocally distance publication localSummary threshold →
      r.governanceFiltered = 0) ∧
    (¬ MatchesLocally distance publication localSummary threshold →
      r.governanceFiltered =
        excludedClusters distance publication peerSummaries threshold dataType governance)

theorem federatedRoute_routesSafely (distance : P → E → K) (publication : P)
    (localSummary : SubscriptionSummary E K)
    (peerSummaries : Dict DomainId (SubscriptionSummary E K)) (threshold : K) (dataType : String)
    (governance : GovernanceConstraints K) :
    RoutesSafely distance publication localSummary peerSummaries threshold dataType governance
      (federatedRoute distance publication localSummary peerSummaries threshold dataType
        governance) := by
  unfold federatedRoute
  cases hlocal : routeLocally distance publication localSummary threshold with
  | some r =>
    obtain ⟨c, hc⟩ := routeLocally_some hlocal
    have hmatch : MatchesLocally distance publication localSummary threshold :=
      ⟨c, hc.mem, hc.within⟩
    constructor
    · exact iff_of_true ⟨hc.matched, hc.kept⟩ hmatch
    · exact fun _ => ⟨c, hc⟩
    · intro hforwarded
      simp [hc.kept] at hforwarded
    · exact iff_of_false (by simp [hc.matched]) fun h => h.1 hmatch
    · exact ⟨fun _ => hc.unfiltered, fun h => absurd hmatch h⟩
  | none =>
    have hno := routeLocally_eq_none_iff.mp hlocal
    have hmem : ∀ x, x ∈ applyGovernanceFilter (selectFederationCandidates distance publication
        peerSummaries threshold) dataType governance ↔
        ∃ c, AdmissibleTarget distance publication peerSummaries threshold dataType governance x.1
          c ∧ x.2 = (c.clusterId, distance publication c.centroidEmbedding) :=
      fun x => mem_filtered
    have hsorted : (applyGovernanceFilter (selectFederationCandidates distance publication
        peerSummaries threshold) dataType governance).Pairwise fun x y => x.2.2 ≤ y.2.2 := by
      rw [applyGovernanceFilter_eq]
      exact selectFederationCandidates_sorted.filter _
    dsimp only
    rw [length_sub_length_filtered]
    cases hleft : applyGovernanceFilter (selectFederationCandidates distance publication
        peerSummaries threshold) dataType governance with
    | nil =>
      rw [hleft] at hmem
      have hnone : ∀ domainId c, ¬ AdmissibleTarget distance publication peerSummaries threshold dataType
          governance domainId c := fun domainId c h =>
        List.not_mem_nil ((hmem (domainId, _)).mpr ⟨c, h, rfl⟩)
      constructor
      · exact iff_of_false (by simp) hno
      · simp
      · simp
      · exact iff_of_true rfl ⟨hno, hnone⟩
      · exact ⟨fun h => absurd h hno, fun _ => rfl⟩
    | cons best rest =>
      rw [hleft] at hmem hsorted
      obtain ⟨c, hc, hbest⟩ := (hmem best).mp List.mem_cons_self
      obtain ⟨bestDomain, bestCluster, bestDist⟩ := best
      obtain ⟨rfl, rfl⟩ := Prod.mk.inj hbest
      constructor
      · exact iff_of_false (by simp) hno
      · simp
      · refine fun _ => ⟨hno, rfl, bestDomain, c, hc, rfl, rfl, rfl, fun domainId' c' hc' => ?_⟩
        -- the head of a sorted list is a minimum of it
        cases List.mem_cons.mp ((hmem (domainId', _)).mpr ⟨c', hc', rfl⟩) with
        | inl heq => exact (Prod.mk.inj (Prod.mk.inj heq).2).2.ge
        | inr hrest => exact List.rel_of_pairwise_cons hsorted hrest
      · exact iff_of_false (by simp) fun h => h.2 bestDomain c hc
      · exact ⟨fun h => absurd h hno, fun _ => rfl⟩

end Routing

end NeuralPubSub
