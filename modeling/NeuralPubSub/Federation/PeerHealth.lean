-- SUMMARY: The health a propagator keeps of its peers, and the rounds in which it pushes to them.
import NeuralPubSub.Base.Dict
import NeuralPubSub.Base.Scan

open Base

/-!
# Peer health

`push_summary` of `src/federation/propagation.py` with the three dictionaries
behind it. A round selects its peers, and then their replies arrive in any order.
-/

namespace NeuralPubSub

/-- Base URL of a peer. -/
abbrev PeerUrl := String

/-- What becomes of the request to a peer: a response, or an `httpx.HTTPError`. -/
inductive PushOutcome where
  | response (statusCode : Nat)
  | httpError
  deriving DecidableEq, Repr

def PushOutcome.failed : PushOutcome → Bool
  | .response statusCode => 400 ≤ statusCode
  | .httpError => true

structure PropagatorConfig where
  peers : List PeerUrl
  maxPeerFailures : Nat := 3
  /-- Unhealthy peers are probed every so many rounds. -/
  recoveryProbeInterval : Nat := 5

/-- What a propagator knows of the health of its peers. -/
structure PeerHealth where
  /-- Consecutive failures. -/
  peerFailures : Dict PeerUrl Nat := .empty
  peerHealthy : Dict PeerUrl Bool := .empty
  /-- Rounds skipped since the peer became unhealthy, or since its latest probe. -/
  peerSkipCounter : Dict PeerUrl Nat := .empty

/-- The replies of a round, as they arrive. -/
abbrev PushReplies := List (PeerUrl × PushOutcome)

namespace PeerHealth

def isPeerHealthy (h : PeerHealth) (peerUrl : PeerUrl) : Bool := h.peerHealthy.getD peerUrl true

def failureCount (h : PeerHealth) (peerUrl : PeerUrl) : Nat := h.peerFailures.getD peerUrl 0

def skipCount (h : PeerHealth) (peerUrl : PeerUrl) : Nat := h.peerSkipCounter.getD peerUrl 0

section Code
variable (cfg : PropagatorConfig)

/-- One iteration of `_select_eligible_peers`. -/
def selectPeer (acc : List PeerUrl × PeerHealth) (peerUrl : PeerUrl) : List PeerUrl × PeerHealth :=
  let (eligible, h) := acc
  if h.isPeerHealthy peerUrl then (eligible ++ [peerUrl], h)
  else
    let count := h.skipCount peerUrl + 1
    if count ≥ cfg.recoveryProbeInterval then
      (eligible ++ [peerUrl], { h with peerSkipCounter := h.peerSkipCounter.insert peerUrl 0 })
    else (eligible, { h with peerSkipCounter := h.peerSkipCounter.insert peerUrl count })

def selectEligiblePeers (h : PeerHealth) : List PeerUrl × PeerHealth :=
  cfg.peers.foldl (selectPeer cfg) ([], h)

def recordPeerFailure (h : PeerHealth) (peerUrl : PeerUrl) : PeerHealth :=
  let count := h.failureCount peerUrl + 1
  { h with
    peerFailures := h.peerFailures.insert peerUrl count
    peerHealthy :=
      if count ≥ cfg.maxPeerFailures then h.peerHealthy.insert peerUrl false else h.peerHealthy }

/-- `_send_to_peer`, once the reply is there. -/
def sendToPeer (h : PeerHealth) (reply : PeerUrl × PushOutcome) : PeerHealth :=
  if reply.2.failed then recordPeerFailure cfg h reply.1
  else
    { peerFailures := h.peerFailures.erase reply.1
      peerHealthy := h.peerHealthy.insert reply.1 true
      peerSkipCounter := h.peerSkipCounter.erase reply.1 }

/-- `push_summary`. -/
def pushSummary (h : PeerHealth) (replies : PushReplies) : PeerHealth :=
  replies.foldl (sendToPeer cfg) (selectEligiblePeers cfg h).2

/-- The health after some rounds. -/
def pushAll (h : PeerHealth) (rounds : List PushReplies) : PeerHealth :=
  rounds.foldl (pushSummary cfg) h

/-- Each round gets one reply from each of the peers that it has selected. -/
def Answered : PeerHealth → List PushReplies → Prop
  | _, [] => True
  | h, replies :: rounds =>
    (replies.map Prod.fst).Perm (selectEligiblePeers cfg h).1 ∧
      Answered (pushSummary cfg h replies) rounds

end Code

/-- The failed attempts since the latest successful one. -/
def failuresSinceSuccess (peer : PeerUrl) (log : PushReplies) : Nat :=
  ((log.filter fun r => r.1 = peer).rtakeWhile fun r => r.2.failed).length

/-- How often a peer is attempted. -/
def attempts (peer : PeerUrl) (rounds : List PushReplies) : Nat :=
  (rounds.flatten.map Prod.fst).count peer

variable {cfg : PropagatorConfig} {h : PeerHealth} {peer : PeerUrl}

/-! ## What one event does -/

theorem failuresSinceSuccess_concat (log : PushReplies) (reply : PeerUrl × PushOutcome) :
    failuresSinceSuccess peer (log ++ [reply]) =
      if reply.1 = peer then
        if reply.2.failed then failuresSinceSuccess peer log + 1 else 0
      else failuresSinceSuccess peer log := by
  unfold failuresSinceSuccess
  rw [List.filter_append]
  split
  · next hpeer =>
    have hself : [reply].filter (fun r => r.1 = peer) = [reply] := by simp [hpeer]
    rw [hself, List.rtakeWhile_concat]
    split <;> simp
  · next hpeer =>
    have hother : [reply].filter (fun r => r.1 = peer) = [] := by simp [hpeer]
    rw [hother, List.append_nil]

/-- The dictionaries say what the log of the replies says. -/
structure Tracks (cfg : PropagatorConfig) (log : PushReplies) (h : PeerHealth) : Prop where
  failures : ∀ p, h.failureCount p = failuresSinceSuccess p log
  healthy_iff : ∀ p, h.isPeerHealthy p ↔ failuresSinceSuccess p log < cfg.maxPeerFailures
  skip_healthy : ∀ p, h.isPeerHealthy p → h.skipCount p = 0
  skip_lt : ∀ p, h.skipCount p < cfg.recoveryProbeInterval

theorem isPeerHealthy_sendToPeer (h : PeerHealth) (reply : PeerUrl × PushOutcome) :
    (sendToPeer cfg h reply).isPeerHealthy peer =
      if peer = reply.1 then
        if reply.2.failed then
          h.isPeerHealthy peer && decide (h.failureCount peer + 1 < cfg.maxPeerFailures)
        else true
      else h.isPeerHealthy peer := by
  simp only [isPeerHealthy, sendToPeer, recordPeerFailure]
  grind [Dict.getD_insert]

theorem failureCount_sendToPeer (h : PeerHealth) (reply : PeerUrl × PushOutcome) :
    (sendToPeer cfg h reply).failureCount peer =
      if peer = reply.1 then if reply.2.failed then h.failureCount peer + 1 else 0
      else h.failureCount peer := by
  simp only [failureCount, sendToPeer, recordPeerFailure]
  split
  · rw [Dict.getD_insert]
    grind
  · simp only [Dict.getD, Dict.get?_erase]
    split <;> simp

theorem skipCount_sendToPeer (h : PeerHealth) (reply : PeerUrl × PushOutcome) :
    (sendToPeer cfg h reply).skipCount peer =
      if peer = reply.1 ∧ ¬ reply.2.failed then 0 else h.skipCount peer := by
  simp only [skipCount, sendToPeer, recordPeerFailure]
  split
  · next hfailed => simp [hfailed]
  · next hfailed =>
    simp only [Dict.getD, Dict.get?_erase]
    split <;> simp [*]

theorem Tracks.sendToPeer {log : PushReplies} (ht : Tracks cfg log h)
    (hmax : 1 ≤ cfg.maxPeerFailures) (reply : PeerUrl × PushOutcome) :
    Tracks cfg (log ++ [reply]) (sendToPeer cfg h reply) where
  failures p := by
    rw [failureCount_sendToPeer, failuresSinceSuccess_concat, ht.failures]
    grind
  healthy_iff p := by
    have hp := ht.healthy_iff p
    rw [isPeerHealthy_sendToPeer, failuresSinceSuccess_concat, ht.failures]
    grind
  skip_healthy p := by
    have hp := ht.skip_healthy p
    rw [isPeerHealthy_sendToPeer, skipCount_sendToPeer]
    grind
  skip_lt p := by
    have hp := ht.skip_lt p
    rw [skipCount_sendToPeer]
    grind

/-! ## What selection does -/

/-- The peer is pushed to in the next round. -/
def Due (cfg : PropagatorConfig) (h : PeerHealth) (peer : PeerUrl) : Prop :=
  h.isPeerHealthy peer ∨ cfg.recoveryProbeInterval ≤ h.skipCount peer + 1

instance : DecidablePred (Due cfg h) := fun _ => inferInstanceAs (Decidable (_ ∨ _))

/-- The skip counter of a peer after the selection. -/
def skipAfter (cfg : PropagatorConfig) (h : PeerHealth) (peer : PeerUrl) : Nat :=
  if h.isPeerHealthy peer then h.skipCount peer
  else if Due cfg h peer then 0 else h.skipCount peer + 1

/-- What the selection has done once it has come past the peers `done`. -/
structure Selected (cfg : PropagatorConfig) (h : PeerHealth) (done : List PeerUrl)
    (acc : List PeerUrl × PeerHealth) : Prop where
  eligible : acc.1 = done.filter (Due cfg h)
  failures : acc.2.peerFailures = h.peerFailures
  healthy : acc.2.peerHealthy = h.peerHealthy
  skip : ∀ p, acc.2.skipCount p = if p ∈ done then skipAfter cfg h p else h.skipCount p

theorem Selected.selectPeer {done : List PeerUrl} {acc : List PeerUrl × PeerHealth}
    (hacc : Selected cfg h done acc) (hnew : peer ∉ done) :
    Selected cfg h (done ++ [peer]) (selectPeer cfg acc peer) := by
  have hhealthy : acc.2.isPeerHealthy peer = h.isPeerHealthy peer := by
    simp [isPeerHealthy, hacc.healthy]
  have hskip : acc.2.skipCount peer = h.skipCount peer := by simp [hacc.skip, hnew]
  have heligible : acc.1 ++ [peer].filter (Due cfg h) = (done ++ [peer]).filter (Due cfg h) := by
    rw [List.filter_append, hacc.eligible]
  unfold PeerHealth.selectPeer
  simp only [hskip, hhealthy]
  split
  · next hh =>
    have hdue : Due cfg h peer := .inl hh
    refine ⟨by simpa [hdue] using heligible, hacc.failures, hacc.healthy, fun p => ?_⟩
    have hp := hacc.skip p
    grind [skipAfter]
  · next hh =>
    split
    · next hcount =>
      have hdue : Due cfg h peer := .inr hcount
      refine ⟨by simpa [hdue] using heligible, hacc.failures, hacc.healthy, fun p => ?_⟩
      have hp := hacc.skip p
      simp only [skipCount, Dict.getD_insert] at hp ⊢
      grind [skipAfter]
    · next hcount =>
      have hdue : ¬ Due cfg h peer := not_or.mpr ⟨hh, hcount⟩
      refine ⟨by simpa [hdue] using heligible, hacc.failures, hacc.healthy, fun p => ?_⟩
      have hp := hacc.skip p
      simp only [skipCount, Dict.getD_insert] at hp ⊢
      grind [skipAfter, skipCount]

theorem selectEligiblePeers_selected (hpeers : cfg.peers.Nodup) (h : PeerHealth) :
    Selected cfg h cfg.peers (selectEligiblePeers cfg h) := by
  refine foldl_scan ⟨rfl, rfl, rfl, fun p => by simp⟩ ?_
  intro done p rest acc hl hacc
  rw [hl, List.nodup_append] at hpeers
  exact hacc.selectPeer fun hp => hpeers.2.2 p hp p (by simp) rfl

/-! ## What a round does -/

theorem Tracks.selectEligiblePeers {log : PushReplies} (ht : Tracks cfg log h)
    (hpeers : cfg.peers.Nodup) : Tracks cfg log (selectEligiblePeers cfg h).2 := by
  have hsel := selectEligiblePeers_selected hpeers h
  have hhealthy : ∀ p, (PeerHealth.selectEligiblePeers cfg h).2.isPeerHealthy p =
      h.isPeerHealthy p := by simp [isPeerHealthy, hsel.healthy]
  refine ⟨fun p => ?_, fun p => ?_, fun p hp => ?_, fun p => ?_⟩
  · rw [← ht.failures p, failureCount, failureCount, hsel.failures]
  · rw [hhealthy, ht.healthy_iff p]
  · rw [hhealthy] at hp
    rw [hsel.skip, skipAfter, if_pos hp, ht.skip_healthy p hp, ite_self]
  · have hp := ht.skip_lt p
    rw [hsel.skip, skipAfter]
    grind [Due]

theorem Tracks.pushSummary {log : PushReplies} (ht : Tracks cfg log h) (hpeers : cfg.peers.Nodup)
    (hmax : 1 ≤ cfg.maxPeerFailures) (replies : PushReplies) :
    Tracks cfg (log ++ replies) (pushSummary cfg h replies) := by
  refine foldl_scan (P := fun done h' => Tracks cfg (log ++ done) h') ?_ ?_
  · rw [List.append_nil]
    exact ht.selectEligiblePeers hpeers
  · intro done reply _ h' _ ht'
    rw [← List.append_assoc]
    exact ht'.sendToPeer hmax reply

theorem Tracks.pushAll {log : PushReplies} (ht : Tracks cfg log h) (hpeers : cfg.peers.Nodup)
    (hmax : 1 ≤ cfg.maxPeerFailures) (rounds : List PushReplies) :
    Tracks cfg (log ++ rounds.flatten) (pushAll cfg h rounds) := by
  refine foldl_scan (P := fun done h' => Tracks cfg (log ++ done.flatten) h') (by simpa) ?_
  intro done replies _ h' _ ht'
  simpa using ht'.pushSummary hpeers hmax replies

theorem tracks_init (hmax : 1 ≤ cfg.maxPeerFailures) (hprobe : 1 ≤ cfg.recoveryProbeInterval) :
    Tracks cfg [] {} :=
  ⟨fun _ => rfl, fun _ => ⟨fun _ => hmax, fun _ => rfl⟩, fun _ _ => rfl, fun _ => hprobe⟩

/-- A round attempts the peers that are due, once each. -/
theorem count_replies (hpeers : cfg.peers.Nodup) {replies : PushReplies}
    (hreplies : (replies.map Prod.fst).Perm (selectEligiblePeers cfg h).1)
    (hpeer : peer ∈ cfg.peers) :
    (replies.map Prod.fst).count peer = if Due cfg h peer then 1 else 0 := by
  rw [hreplies.count_eq, (selectEligiblePeers_selected hpeers h).eligible]
  split
  · next hdue =>
    exact List.count_eq_one_of_mem (hpeers.filter _) (by simp [hpeer, hdue])
  · next hdue => exact List.count_eq_zero_of_not_mem (by simp [hdue])

theorem skipCount_foldl_sendToPeer_of_zero (hskip : h.skipCount peer = 0) (replies : PushReplies) :
    (replies.foldl (sendToPeer cfg) h).skipCount peer = 0 := by
  refine foldl_scan (P := fun _ (h' : PeerHealth) => h'.skipCount peer = 0) hskip ?_
  intro _ reply _ h' _ hskip'
  rw [skipCount_sendToPeer, hskip', ite_self]

theorem skipCount_pushSummary_of_due {log : PushReplies} (ht : Tracks cfg log h)
    (hpeers : cfg.peers.Nodup) (hpeer : peer ∈ cfg.peers) (hdue : Due cfg h peer)
    (replies : PushReplies) : (pushSummary cfg h replies).skipCount peer = 0 := by
  apply skipCount_foldl_sendToPeer_of_zero
  rw [(selectEligiblePeers_selected hpeers h).skip, if_pos hpeer, skipAfter]
  split
  · next hh => exact ht.skip_healthy peer hh
  · rfl

theorem skipCount_pushSummary_of_not_due (hpeers : cfg.peers.Nodup) (hpeer : peer ∈ cfg.peers)
    (hdue : ¬ Due cfg h peer) {replies : PushReplies}
    (hreplies : (replies.map Prod.fst).Perm (selectEligiblePeers cfg h).1) :
    (pushSummary cfg h replies).skipCount peer = h.skipCount peer + 1 := by
  have hsel := selectEligiblePeers_selected hpeers h
  have hselected : (selectEligiblePeers cfg h).2.skipCount peer = h.skipCount peer + 1 := by
    rw [hsel.skip, if_pos hpeer, skipAfter, if_neg fun hh => hdue (.inl hh), if_neg hdue]
  have hnone : peer ∉ replies.map Prod.fst := by
    rw [hreplies.mem_iff, hsel.eligible]
    simp [hdue]
  -- no reply of the round is the peer's
  refine foldl_scan (P := fun _ (h' : PeerHealth) => h'.skipCount peer = h.skipCount peer + 1)
    hselected ?_
  intro done reply rest h' hl hskip'
  have hne : peer ≠ reply.1 := fun heq => hnone (by simp [hl, heq])
  rw [skipCount_sendToPeer, if_neg fun hreply => hne hreply.1, hskip']

/-! ## What a run of rounds does -/

theorem Answered.append {rounds rounds' : List PushReplies}
    (hrun : Answered cfg h (rounds ++ rounds')) :
    Answered cfg h rounds ∧ Answered cfg (pushAll cfg h rounds) rounds' := by
  induction rounds generalizing h with
  | nil => exact ⟨trivial, hrun⟩
  | cons replies rounds ih =>
    have hrest := ih hrun.2
    exact ⟨⟨hrun.1, hrest.1⟩, hrest.2⟩

theorem attempts_cons (replies : PushReplies) (rounds : List PushReplies) :
    attempts peer (replies :: rounds) =
      (replies.map Prod.fst).count peer + attempts peer rounds := by
  simp [attempts]

section Window
variable {log : PushReplies} {rounds : List PushReplies} (hpeers : cfg.peers.Nodup)
  (hmax : 1 ≤ cfg.maxPeerFailures)
include hpeers hmax

/-- A peer waits at most until its skip counter has come to the interval. -/
theorem attempts_pos (ht : Tracks cfg log h) (hrun : Answered cfg h rounds)
    (hpeer : peer ∈ cfg.peers)
    (hlong : cfg.recoveryProbeInterval ≤ h.skipCount peer + rounds.length) :
    1 ≤ attempts peer rounds := by
  induction rounds generalizing h log with
  | nil => exact absurd hlong (not_le.mpr (ht.skip_lt peer))
  | cons replies rounds ih =>
    rw [attempts_cons, count_replies hpeers hrun.1 hpeer]
    split
    · exact Nat.le_add_right 1 _
    · next hdue =>
      have hskip := skipCount_pushSummary_of_not_due hpeers hpeer hdue hrun.1
      rw [Nat.zero_add]
      apply ih (ht.pushSummary hpeers hmax replies) hrun.2
      rw [hskip]
      grind

/-- A peer that no round finds healthy is attempted each time its skip counter comes to
the interval. -/
theorem attempts_unhealthy (ht : Tracks cfg log h) (hrun : Answered cfg h rounds)
    (hpeer : peer ∈ cfg.peers)
    (hunhealthy : ∀ n < rounds.length, ¬ (pushAll cfg h (rounds.take n)).isPeerHealthy peer) :
    attempts peer rounds = (h.skipCount peer + rounds.length) / cfg.recoveryProbeInterval := by
  induction rounds generalizing h log with
  | nil => exact (Nat.div_eq_of_lt (ht.skip_lt peer)).symm
  | cons replies rounds ih =>
    have hrest := ih (ht.pushSummary hpeers hmax replies) hrun.2
      fun n hn => hunhealthy (n + 1) (Nat.succ_lt_succ hn)
    have hlt := ht.skip_lt peer
    rw [attempts_cons, count_replies hpeers hrun.1 hpeer, hrest, List.length_cons]
    split
    · next hdue =>
      have hcount := hdue.resolve_left (hunhealthy 0 (Nat.succ_pos _))
      have hk : h.skipCount peer + (rounds.length + 1) =
          rounds.length + cfg.recoveryProbeInterval := by omega
      rw [skipCount_pushSummary_of_due ht hpeers hpeer hdue, hk, Nat.zero_add,
        Nat.add_div_right _ (by omega), Nat.add_comm]
    · next hdue =>
      rw [skipCount_pushSummary_of_not_due hpeers hpeer hdue hrun.1, Nat.zero_add, Nat.add_assoc,
        Nat.add_comm 1]

/-- A peer that stays unhealthy is attempted once in as many rounds as the interval has. -/
theorem attempts_window (ht : Tracks cfg log h) (hrun : Answered cfg h rounds)
    (hpeer : peer ∈ cfg.peers) (hlen : rounds.length = cfg.recoveryProbeInterval)
    (hunhealthy : ∀ n, 0 < n → n < rounds.length →
      ¬ (pushAll cfg h (rounds.take n)).isPeerHealthy peer) :
    attempts peer rounds = 1 := by
  have hlt := ht.skip_lt peer
  cases rounds with
  | nil => simp only [List.length_nil] at hlen; omega
  | cons replies rounds =>
    have hrest := attempts_unhealthy hpeers hmax (ht.pushSummary hpeers hmax replies) hrun.2 hpeer
      fun n hn => hunhealthy (n + 1) n.succ_pos (Nat.succ_lt_succ hn)
    rw [List.length_cons] at hlen
    rw [attempts_cons, count_replies hpeers hrun.1 hpeer, hrest]
    split
    · next hdue =>
      rw [skipCount_pushSummary_of_due ht hpeers hpeer hdue, Nat.div_eq_of_lt (by omega)]
    · next hdue =>
      have hk : h.skipCount peer + 1 + rounds.length =
          h.skipCount peer + cfg.recoveryProbeInterval := by omega
      rw [skipCount_pushSummary_of_not_due hpeers hpeer hdue hrun.1, hk,
        Nat.add_div_right _ (by omega), Nat.div_eq_of_lt hlt]

end Window

/-- After every round a peer is healthy exactly while it has failed fewer times in a row
than allowed. Every round attempts the healthy peers, and any rounds as many as the
interval attempt each peer, once if it stays unhealthy between them. -/
theorem peerHealth_sound (hpeers : cfg.peers.Nodup) (hmax : 1 ≤ cfg.maxPeerFailures)
    (hprobe : 1 ≤ cfg.recoveryProbeInterval) {rounds : List PushReplies}
    (hrun : Answered cfg {} rounds) :
    (∀ pre post, rounds = pre ++ post → ∀ peer,
      (pushAll cfg {} pre).isPeerHealthy peer ↔
        failuresSinceSuccess peer pre.flatten < cfg.maxPeerFailures) ∧
    (∀ pre replies post, rounds = pre ++ replies :: post → ∀ peer ∈ cfg.peers,
      (pushAll cfg {} pre).isPeerHealthy peer → peer ∈ replies.map Prod.fst) ∧
    ∀ pre window post, rounds = pre ++ (window ++ post) →
      window.length = cfg.recoveryProbeInterval → ∀ peer ∈ cfg.peers,
        1 ≤ attempts peer window ∧
        ((∀ n, 0 < n → n < window.length →
            ¬ (pushAll cfg {} (pre ++ window.take n)).isPeerHealthy peer) →
          attempts peer window = 1) := by
  have ht : ∀ pre, Tracks cfg pre.flatten (pushAll cfg {} pre) := by
    simpa using (tracks_init hmax hprobe).pushAll hpeers hmax
  refine ⟨fun pre post _ peer => (ht pre).healthy_iff peer, ?_, ?_⟩
  · rintro pre replies post rfl peer hpeer hhealthy
    have hcount := count_replies hpeers hrun.append.2.1 hpeer
    rw [if_pos (.inl hhealthy)] at hcount
    exact List.count_pos_iff.mp (by omega)
  · rintro pre window post rfl hlen peer hpeer
    have hwindow := hrun.append.2.append.1
    refine ⟨attempts_pos hpeers hmax (ht pre) hwindow hpeer (by omega), fun hunhealthy => ?_⟩
    apply attempts_window hpeers hmax (ht pre) hwindow hpeer hlen
    intro n hpos hn
    have hbetween := hunhealthy n hpos hn
    rwa [pushAll, List.foldl_append] at hbetween

/-- Peer `b` fails, is skipped for a round, fails its probe and is skipped again. -/
theorem peerHealth_sound_relapse :
    attempts "b" [[("a", .response 200)], [("b", .httpError), ("a", .response 302)]] = 1 := by
  have hsound := @peerHealth_sound
    { peers := ["a", "b"], maxPeerFailures := 1, recoveryProbeInterval := 2 }
    (by decide) (by decide) (by decide)
    [[("b", .response 503), ("a", .response 200)],
      [("a", .response 200)], [("b", .httpError), ("a", .response 302)], [("a", .response 200)]]
    ⟨by decide +kernel, by decide +kernel, by decide +kernel, by decide +kernel, trivial⟩
  apply (hsound.2.2 [_] [_, _] [_] rfl rfl "b" (by decide)).2
  intro n hpos hn
  have hone : n = 1 := by simp only [List.length_cons, List.length_nil] at hn; omega
  subst hone
  decide +kernel

end PeerHealth
end NeuralPubSub
