-- SUMMARY: Subscription summaries of peer domains and the propagator's cache, which converges whatever order they arrive in.
import NeuralPubSub.Base.Freshest
import NeuralPubSub.Pipeline.Dag

open Base

/-!
# Summary propagation

`SummaryPropagator` of `src/federation/propagation.py`, as far as it takes in the
summaries of peers, and the records of `src/federation/summary.py`. Numbers are
exact rationals.
-/

namespace NeuralPubSub

/-- Summary of a single subscription cluster within a domain. On the wire an
embedding is a list of numbers. -/
structure ClusterSummary (E : Type := List ℚ) (K : Type := ℚ) where
  clusterId : String
  centroidEmbedding : E
  radius : K
  availableCapacity : K
  deriving DecidableEq, Repr

/-- Aggregated subscription summary for one domain. -/
structure SubscriptionSummary (E : Type := List ℚ) (K : Type := ℚ) where
  domainId : DomainId
  clusters : List (ClusterSummary E K)
  timestamp : ℚ
  deriving DecidableEq, Repr

/-- Both summaries carry freshness data, and the second is older. -/
def SubscriptionSummary.StaleAfter (existing summary : SubscriptionSummary) : Prop :=
  summary.timestamp ≠ 0 ∧ existing.timestamp ≠ 0 ∧ summary.timestamp < existing.timestamp

instance (existing summary : SubscriptionSummary) : Decidable (existing.StaleAfter summary) :=
  inferInstanceAs (Decidable (_ ∧ _ ∧ _))

/-- The cache of a propagator. -/
structure SummaryPropagator where
  peerSummaries : Dict DomainId SubscriptionSummary := .empty

namespace SummaryPropagator

/-- `receive_summary`. -/
def receiveSummary (p : SummaryPropagator) (summary : SubscriptionSummary) : SummaryPropagator :=
  match p.peerSummaries.get? summary.domainId with
  | some existing =>
    if existing.StaleAfter summary then p
    else { p with peerSummaries := p.peerSummaries.insert summary.domainId summary }
  | none => { p with peerSummaries := p.peerSummaries.insert summary.domainId summary }

/-- `get_peer_summaries`. -/
def getPeerSummaries (p : SummaryPropagator) : Dict DomainId SubscriptionSummary :=
  p.peerSummaries

/-- The propagator after it has been given the summaries one after the other. -/
def receiveAll (p : SummaryPropagator) (summaries : List SubscriptionSummary) : SummaryPropagator :=
  summaries.foldl receiveSummary p

/-! ## What one summary does -/

variable {p : SummaryPropagator} {summary : SubscriptionSummary}

theorem receiveSummary_of_stale {existing : SubscriptionSummary}
    (hold : p.getPeerSummaries.get? summary.domainId = some existing)
    (h : existing.StaleAfter summary) : p.receiveSummary summary = p := by
  unfold receiveSummary
  rw [show p.peerSummaries.get? summary.domainId = some existing from hold]
  exact if_pos h

theorem receiveSummary_of_not_stale
    (h : ∀ existing, p.getPeerSummaries.get? summary.domainId = some existing →
      ¬ existing.StaleAfter summary) :
    (p.receiveSummary summary).getPeerSummaries =
      p.getPeerSummaries.insert summary.domainId summary := by
  unfold receiveSummary
  split
  · next existing hold => rw [if_neg (h existing hold)]; rfl
  · rfl

/-- Among summaries with freshness data the cache keeps the fresher one. -/
theorem receiveSummary_eq_keepFresher (hsummary : summary.timestamp ≠ 0)
    (hcache : ∀ domainId existing, p.getPeerSummaries.get? domainId = some existing →
      existing.timestamp ≠ 0) :
    (p.receiveSummary summary).getPeerSummaries =
      keepFresher (·.domainId) (·.timestamp) p.getPeerSummaries summary := by
  rcases keepFresher_cases (·.domainId) (·.timestamp) p.getPeerSummaries summary with
    ⟨existing, hold, hlt, heq⟩ | ⟨hle, heq⟩
  · rw [heq, receiveSummary_of_stale hold ⟨hsummary, hcache _ _ hold, hlt⟩]
  · rw [heq]
    apply receiveSummary_of_not_stale
    intro existing hold hstale
    exact absurd hstale.2.2 (not_lt.mpr (hle existing hold))

/-! ## Convergence -/

/-- A run over summaries with freshness data keeps the freshest of each domain. -/
theorem receiveAll_eq_foldl {summaries : List SubscriptionSummary}
    (h : ∀ s ∈ summaries, s.timestamp ≠ 0) :
    (receiveAll {} summaries).getPeerSummaries =
      summaries.foldl (keepFresher (·.domainId) (·.timestamp)) .empty := by
  induction summaries using List.reverseRecOn with
  | nil => rfl
  | append_singleton summaries summary ih =>
    have hinit := ih fun s hs => h s (List.mem_append_left _ hs)
    unfold receiveAll at hinit ⊢
    rw [List.foldl_concat, List.foldl_concat, receiveSummary_eq_keepFresher (h summary (by simp)),
      hinit]
    intro domainId existing hold
    rw [hinit] at hold
    have hmem := ((freshest_foldl _ _ summaries).arrived domainId existing hold).1
    exact h existing (List.mem_append_left _ hmem)

/-- The summary of the domain with the largest timestamp. -/
structure IsLatest (collection : Finset SubscriptionSummary) (domainId : DomainId)
    (summary : SubscriptionSummary) : Prop where
  mem : summary ∈ collection
  domain : summary.domainId = domainId
  latest : ∀ s ∈ collection, s.domainId = domainId → s.timestamp ≤ summary.timestamp

/-- However often and in whatever order the summaries of a collection are delivered,
the cache ends up with the latest one of each domain, and on the way no timestamp
in it decreases, from one delivery to the next or over any stretch of them. -/
theorem getPeerSummaries_converges {collection : Finset SubscriptionSummary}
    (hfresh : ∀ s ∈ collection, s.timestamp ≠ 0)
    (hdistinct : ∀ s ∈ collection, ∀ t ∈ collection, s.domainId = t.domainId →
      s.timestamp = t.timestamp → s = t)
    {deliveries : List SubscriptionSummary} (hall : ∀ s, s ∈ deliveries ↔ s ∈ collection) :
    (∀ domainId s, (receiveAll {} deliveries).getPeerSummaries.get? domainId = some s ↔
      IsLatest collection domainId s) ∧
    (∀ domainId, domainId ∈ (receiveAll {} deliveries).getPeerSummaries ↔
      ∃ s ∈ collection, s.domainId = domainId) ∧
    ∀ pre mid post, deliveries = pre ++ mid ++ post → ∀ domainId s,
      (receiveAll {} pre).getPeerSummaries.get? domainId = some s →
        ∃ t, (receiveAll {} (pre ++ mid)).getPeerSummaries.get? domainId = some t ∧
          s.timestamp ≤ t.timestamp := by
  have hrun := receiveAll_eq_foldl fun s hs => hfresh s ((hall s).mp hs)
  have hkept := freshest_foldl (·.domainId) (·.timestamp) deliveries
  rw [hrun]
  refine ⟨fun domainId s => ?_, fun domainId => ?_, ?_⟩
  · rw [hkept.get?_eq_some_iff fun s hs t ht => hdistinct s ((hall s).mp hs) t ((hall t).mp ht)]
    simp only [hall]
    exact ⟨fun h => ⟨h.1, h.2.1, h.2.2⟩, fun h => ⟨h.mem, h.domain, h.latest⟩⟩
  · rw [hkept.mem_iff]
    simp only [hall]
  · rintro pre mid post rfl domainId s hs
    have hpart : ∀ t ∈ pre ++ mid, t.timestamp ≠ 0 := fun t ht =>
      hfresh t ((hall t).mp (List.mem_append_left _ ht))
    rw [receiveAll_eq_foldl fun t ht => hpart t (List.mem_append_left _ ht)] at hs
    rw [receiveAll_eq_foldl hpart, List.foldl_append]
    exact stamp_le_foldl hs

/-- Two summaries of one domain, the older one delivered last and twice. -/
theorem getPeerSummaries_converges_late :
    (receiveAll {} [⟨"d1", [], 2⟩, ⟨"d2", [], 5⟩, ⟨"d1", [], 1⟩, ⟨"d1", [], 1⟩]).getPeerSummaries.get?
      "d1" = some ⟨"d1", [], 2⟩ := by
  have hconverges := @getPeerSummaries_converges {⟨"d1", [], 1⟩, ⟨"d1", [], 2⟩, ⟨"d2", [], 5⟩}
    (by decide +kernel) (by decide +kernel)
    [⟨"d1", [], 2⟩, ⟨"d2", [], 5⟩, ⟨"d1", [], 1⟩, ⟨"d1", [], 1⟩] (by simp; grind)
  exact (hconverges.1 _ _).mpr ⟨by decide +kernel, rfl, by decide +kernel⟩

end SummaryPropagator
end NeuralPubSub
