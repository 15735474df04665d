-- SUMMARY: The two caches that a broker keeps of its peers' summaries, and when they agree.
import NeuralPubSub.Federation.Propagation

open Base

/-!
# The brokers' peer caches

The handler of `POST /federation/summary`, once in `NeuralBroker` and once in
`StaticBroker`. It gives the summary to the propagator and then stores it in a
cache of its own, without the propagator's freshness rule.
-/

namespace NeuralPubSub

/-- The part of a broker that the handler reads and writes. -/
structure FederationState where
  domainId : DomainId
  propagator : SummaryPropagator := {}
  /-- `_peer_summaries` of the broker. -/
  peerSummaries : Dict DomainId (List SubscriptionSummary) := .empty
  /-- `NeuralBroker`: the bytes that its `FederationMonitor` counts as received. -/
  received : Dict (DomainId × DomainId) Nat := .empty

/-- The answer to a summary that has been stored. -/
structure SummaryReceived where
  status : String
  fromDomain : DomainId
  clusters : Nat
  deriving DecidableEq, Repr

/-- The summary in the body of a request, or the exception of the handler.
`deserialize` decodes msgpack. -/
def decodeBody (deserialize : List UInt8 → Except PyError SubscriptionSummary) (body : List UInt8) :
    Except PyError SubscriptionSummary :=
  if body = [] then .error (.http 400 "Empty body.")
  else match deserialize body with
    | .ok summary => .ok summary
    | .error exc => .error (.http 400 s!"Failed to deserialise summary: {exc.text}")

def summaryReceived (summary : SubscriptionSummary) : SummaryReceived :=
  ⟨"received", summary.domainId, summary.clusters.length⟩

/-- `federation_summary_receive` of `NeuralBroker`. -/
def NeuralBroker.federationSummaryReceive
    (deserialize : List UInt8 → Except PyError SubscriptionSummary) (body : List UInt8)
    (b : FederationState) : Except PyError SummaryReceived × FederationState :=
  match decodeBody deserialize body with
  | .error e => (.error e, b)
  | .ok summary =>
    let domain := summary.domainId
    let caches := if domain ∈ b.peerSummaries then b.peerSummaries else b.peerSummaries.insert domain []
    let pair := (summary.domainId, b.domainId)
    (.ok (summaryReceived summary),
      { b with
        propagator := b.propagator.receiveSummary summary
        peerSummaries := caches.insert domain [summary]
        received := b.received.insert pair (b.received.getD pair 0 + body.length) })

/-- `federation_summary_receive` of `StaticBroker`. -/
def StaticBroker.federationSummaryReceive
    (deserialize : List UInt8 → Except PyError SubscriptionSummary) (body : List UInt8)
    (b : FederationState) : Except PyError SummaryReceived × FederationState :=
  match decodeBody deserialize body with
  | .error e => (.error e, b)
  | .ok summary =>
    (.ok (summaryReceived summary),
      { b with
        propagator := b.propagator.receiveSummary summary
        peerSummaries := b.peerSummaries.insert summary.domainId [summary] })

namespace PeerCaches

/-! ## What one message does -/

section Step

/-- What both handlers do with the caches. -/
structure Stores (decode : List UInt8 → Except PyError SubscriptionSummary)
    (receive : List UInt8 → FederationState → Except PyError SummaryReceived × FederationState) :
    Prop where
  rejected : ∀ body b e, decode body = .error e → (receive body b).2 = b
  propagator : ∀ body b s, decode body = .ok s →
    (receive body b).2.propagator = b.propagator.receiveSummary s
  stored : ∀ body b s, decode body = .ok s → ∀ domainId,
    (receive body b).2.peerSummaries.get? domainId =
      if domainId = s.domainId then some [s] else b.peerSummaries.get? domainId

variable (deserialize : List UInt8 → Except PyError SubscriptionSummary)

theorem neural_stores :
    Stores (decodeBody deserialize) (NeuralBroker.federationSummaryReceive deserialize) where
  rejected body b e h := by simp [NeuralBroker.federationSummaryReceive, h]
  propagator body b s h := by simp [NeuralBroker.federationSummaryReceive, h]
  stored body b s h domainId := by
    simp only [NeuralBroker.federationSummaryReceive, h, Dict.get?_insert]
    split
    · rfl
    · next hne =>
      split
      · rfl
      · rw [Dict.get?_insert_of_ne _ _ hne]

theorem static_stores :
    Stores (decodeBody deserialize) (StaticBroker.federationSummaryReceive deserialize) where
  rejected body b e h := by simp [StaticBroker.federationSummaryReceive, h]
  propagator body b s h := by simp [StaticBroker.federationSummaryReceive, h]
  stored body b s h domainId := by
    simp only [StaticBroker.federationSummaryReceive, h, Dict.get?_insert]

end Step

/-- The broker's own cache holds for every domain exactly the summary of the propagator. -/
def Agree (b : FederationState) : Prop :=
  ∀ domainId, b.peerSummaries.get? domainId =
    (b.propagator.getPeerSummaries.get? domainId).map fun summary => [summary]

variable {decode : List UInt8 → Except PyError SubscriptionSummary}
  {receive : List UInt8 → FederationState → Except PyError SummaryReceived × FederationState}

/-- Caches that agree still do so exactly if the next summary is not stale. -/
theorem Stores.agree_iff (h : Stores decode receive) {b : FederationState} (hb : Agree b)
    {body : List UInt8} {s : SubscriptionSummary} (hs : decode body = .ok s) :
    Agree (receive body b).2 ↔ ∀ existing,
      b.propagator.getPeerSummaries.get? s.domainId = some existing → ¬ existing.StaleAfter s := by
  have hstored := h.stored body b s hs
  unfold Agree
  rw [h.propagator body b s hs]
  constructor
  · intro hagree existing hold hstale
    -- the propagator keeps the older summary, the broker does not
    have hboth := hagree s.domainId
    rw [hstored, if_pos rfl, SummaryPropagator.receiveSummary_of_stale hold hstale, hold] at hboth
    obtain rfl : s = existing := by simpa using hboth
    exact lt_irrefl _ hstale.2.2
  · intro hfresh domainId
    rw [hstored, SummaryPropagator.receiveSummary_of_not_stale hfresh, Dict.get?_insert]
    split
    · rfl
    · exact hb domainId

/-! ## Runs -/

/-- The broker after it has received the bodies one after the other. -/
def receiveAll (receive : List UInt8 → FederationState → Except PyError SummaryReceived × FederationState)
    (b : FederationState) (bodies : List (List UInt8)) : FederationState :=
  bodies.foldl (fun b body => (receive body b).2) b

/-- The summaries that the bodies bring. -/
def summaries (decode : List UInt8 → Except PyError SubscriptionSummary) (bodies : List (List UInt8)) :
    List SubscriptionSummary :=
  bodies.filterMap fun body => (decode body).toOption

/-- No summary follows one of its domain, with none of that domain in between, after
which it is stale. -/
def InOrder (l : List SubscriptionSummary) : Prop :=
  ∀ domainId, (l.filter (·.domainId = domainId)).IsChain fun existing s => ¬ existing.StaleAfter s

theorem inOrder_concat {l : List SubscriptionSummary} {s : SubscriptionSummary} :
    InOrder (l ++ [s]) ↔ InOrder l ∧
      ∀ existing ∈ (l.filter (·.domainId = s.domainId)).getLast?, ¬ existing.StaleAfter s := by
  unfold InOrder
  constructor
  · intro h
    refine ⟨fun domainId => ?_, fun existing hlast => ?_⟩
    · have hchain := h domainId
      rw [List.filter_append] at hchain
      exact hchain.left_of_append
    · have hchain := h s.domainId
      rw [List.filter_append, List.isChain_append] at hchain
      exact hchain.2.2 existing hlast s (by simp)
  · rintro ⟨h, hlast⟩ domainId
    rw [List.filter_append, List.isChain_append]
    cases decEq s.domainId domainId with
    | isFalse hne => exact ⟨h domainId, by simp [hne], by simp [hne]⟩
    | isTrue heq =>
      subst heq
      refine ⟨h _, by simp, fun existing hex t ht => ?_⟩
      obtain rfl : s = t := by simpa using ht
      exact hlast existing hex

/-- Nothing has been received yet. -/
structure Initial (b : FederationState) : Prop where
  propagator : b.propagator = {}
  peerSummaries : b.peerSummaries = .empty

theorem receiveAll_concat (b : FederationState) (bodies : List (List UInt8)) (body : List UInt8) :
    receiveAll receive b (bodies ++ [body]) = (receive body (receiveAll receive b bodies)).2 := by
  rw [receiveAll, List.foldl_concat]
  rfl

/-- The broker's own cache holds the last summary of each domain. -/
theorem Stores.peerSummaries_receiveAll (h : Stores decode receive) {b : FederationState}
    (hb : Initial b) (bodies : List (List UInt8)) (domainId : DomainId) :
    (receiveAll receive b bodies).peerSummaries.get? domainId =
      (((summaries decode bodies).filter (·.domainId = domainId)).getLast?).map fun s => [s] := by
  induction bodies using List.reverseRecOn with
  | nil => simp [receiveAll, hb.peerSummaries, summaries]
  | append_singleton bodies body ih =>
    rw [receiveAll_concat]
    unfold summaries at ih ⊢
    cases hs : decode body with
    | error e =>
      rw [h.rejected body _ e hs, ih, List.filterMap_append]
      simp [hs, Except.toOption]
    | ok s =>
      rw [h.stored body _ s hs, ih, List.filterMap_append, List.filter_append]
      cases decEq s.domainId domainId with
      | isTrue heq => simp [hs, Except.toOption, heq]
      | isFalse hne => simp [hs, Except.toOption, hne, Ne.symm hne]

/-- The caches agree after each message of a sequence exactly if it is in order. -/
theorem Stores.agree_receiveAll_iff (h : Stores decode receive) {b : FederationState}
    (hb : Initial b) (bodies : List (List UInt8)) :
    (∀ pre, pre <+: bodies → Agree (receiveAll receive b pre)) ↔
      InOrder (summaries decode bodies) := by
  induction bodies using List.reverseRecOn with
  | nil =>
    have hagree : Agree b := fun domainId => by simp [hb.propagator, hb.peerSummaries,
      SummaryPropagator.getPeerSummaries]
    simp [receiveAll, hagree, summaries, InOrder]
  | append_singleton bodies body ih =>
    have hprefixes : (∀ pre, pre <+: bodies ++ [body] → Agree (receiveAll receive b pre)) ↔
        (∀ pre, pre <+: bodies → Agree (receiveAll receive b pre)) ∧
          Agree (receiveAll receive b (bodies ++ [body])) := by
      simp only [List.prefix_concat_iff, or_imp, forall_and, forall_eq]
      exact and_comm
    rw [hprefixes, ih]
    unfold summaries at ih ⊢
    rw [List.filterMap_append]
    cases hs : decode body with
    | error e =>
      have hsame : Agree (receiveAll receive b (bodies ++ [body])) ↔
          Agree (receiveAll receive b bodies) := by rw [receiveAll_concat, h.rejected body _ e hs]
      rw [hsame]
      simp only [List.filterMap_cons, hs, Except.toOption, List.filterMap_nil, List.append_nil]
      exact and_iff_left_of_imp fun horder => ih.mpr horder bodies (List.prefix_refl _)
    | ok s =>
      simp only [List.filterMap_cons, hs, Except.toOption, List.filterMap_nil]
      rw [inOrder_concat]
      apply and_congr_right
      intro horder
      have hagree := ih.mpr horder bodies (List.prefix_refl _)
      rw [receiveAll_concat, h.agree_iff hagree hs]
      -- where the caches agree, the propagator's summary is the last one of the domain
      have hlast := (hagree s.domainId).symm.trans (h.peerSummaries_receiveAll hb bodies s.domainId)
      unfold summaries Except.toOption at hlast
      cases hold : (receiveAll receive b bodies).propagator.getPeerSummaries.get? s.domainId with
      | none =>
        rw [hold, Option.map_none, eq_comm, Option.map_eq_none_iff] at hlast
        simp [hlast]
      | some existing =>
        rw [hold, Option.map_some, eq_comm, Option.map_eq_some_iff] at hlast
        obtain ⟨t, ht, heq⟩ := hlast
        obtain rfl : t = existing := by simpa using heq
        simp [ht]

/-- In both brokers the two caches agree after each message exactly if no summary is
stale after the one of its domain that came before it. -/
theorem agree_iff_inOrder (deserialize : List UInt8 → Except PyError SubscriptionSummary)
    {b : FederationState} (hb : Initial b) (bodies : List (List UInt8)) :
    ((∀ pre, pre <+: bodies →
        Agree (receiveAll (NeuralBroker.federationSummaryReceive deserialize) b pre)) ↔
      InOrder (summaries (decodeBody deserialize) bodies)) ∧
    ((∀ pre, pre <+: bodies →
        Agree (receiveAll (StaticBroker.federationSummaryReceive deserialize) b pre)) ↔
      InOrder (summaries (decodeBody deserialize) bodies)) :=
  ⟨(neural_stores deserialize).agree_receiveAll_iff hb bodies,
    (static_stores deserialize).agree_receiveAll_iff hb bodies⟩

/-- A decoder for messages of one byte, the timestamp of an empty summary. -/
private def stampDecoder : List UInt8 → Except PyError SubscriptionSummary
  | [t] => .ok ⟨"d2", [], t.toNat⟩
  | _ => .error (.value "unpack(b) received extra data.")

theorem agree_iff_inOrder_stamps :
    (∀ pre, pre <+: [[1], [2], []] →
        Agree (receiveAll (NeuralBroker.federationSummaryReceive stampDecoder) ⟨"d1", {}, .empty, .empty⟩
          pre)) ∧
    ∀ pre, pre <+: [[1], [2], []] →
      Agree (receiveAll (StaticBroker.federationSummaryReceive stampDecoder) ⟨"d1", {}, .empty, .empty⟩
        pre) := by
  have hagree := @agree_iff_inOrder stampDecoder ⟨"d1", {}, .empty, .empty⟩ ⟨rfl, rfl⟩ [[1], [2], []]
  have horder : InOrder (summaries (decodeBody stampDecoder) [[1], [2], []]) := by
    intro domainId
    have hsummaries : summaries (decodeBody stampDecoder) [[1], [2], []] =
        [⟨"d2", [], 1⟩, ⟨"d2", [], 2⟩] := by decide +kernel
    rw [hsummaries]
    by_cases hd : "d2" = domainId <;> simp [hd, SubscriptionSummary.StaleAfter]
  exact ⟨hagree.1.mpr horder, hagree.2.mpr horder⟩

/-- An older summary arrives late: the propagator rejects it, the broker stores it. -/
theorem not_agree :
    ¬ ∀ (deserialize : List UInt8 → Except PyError SubscriptionSummary) (b : FederationState),
      Initial b → ∀ bodies : List (List UInt8),
        Agree (receiveAll (NeuralBroker.federationSummaryReceive deserialize) b bodies) ∧
          Agree (receiveAll (StaticBroker.federationSummaryReceive deserialize) b bodies) := by
  intro h
  have hlate := (h stampDecoder ⟨"d1", {}, .empty, .empty⟩ ⟨rfl, rfl⟩ [[2], [1]]).1 "d2"
  revert hlate
  decide +kernel

end PeerCaches
end NeuralPubSub
