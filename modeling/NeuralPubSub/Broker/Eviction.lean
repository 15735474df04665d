-- SUMMARY: The failure counts behind the evictions of the health loop, and when they belong to the current registration.
import NeuralPubSub.Base.Scan
import NeuralPubSub.Broker.FairComparison

open Base

/-!
# Evictions

The health loop of `NeuralBroker` between registrations, deregistrations and
failed sends. The loop probes the workers it has seen registered, counts the
outcomes, and then removes the workers it has declared dead one after the other;
other handlers run between these steps. A log keeps what has been counted.
-/

namespace NeuralPubSub

/-- What happens to a worker. -/
inductive HealthEntry where
  | registered (nodeId : NodeId)
  /-- A successful probe. -/
  | answered (nodeId : NodeId)
  /-- A failed probe or a failed dispatch. -/
  | failed (nodeId : NodeId)
  /-- The health loop takes the worker out of the registry. -/
  | removed (nodeId : NodeId)
  deriving DecidableEq

/-- Where the health loop is. -/
inductive HealthLoop where
  | sleeping
  | probing (snapshot : List NodeId)
  | removing (dead : List NodeId)
  deriving DecidableEq

/-- The workers that wait for their removal. -/
def HealthLoop.dead : HealthLoop → List NodeId
  | .removing dead => dead
  | .sleeping | .probing _ => []

structure HealthRun where
  broker : Broker := {}
  loop : HealthLoop := .sleeping
  log : List HealthEntry := []

inductive HealthEvent where
  | register (req : RegisterRequest)
  | deregister (nodeId : NodeId)
  | sendFailure (nodeId : NodeId)
  /-- The loop wakes up and sends its probes. -/
  | probe
  /-- All probes are back. -/
  | probed (results : List ProbeResult)
  /-- The loop removes the next dead worker, or goes to sleep. -/
  | remove
  deriving DecidableEq

def ProbeResult.entry (probe : ProbeResult) : HealthEntry :=
  if probe.healthy then .answered probe.nodeId else .failed probe.nodeId

/-- The failures counted since the latest registration and the latest successful probe. -/
def failuresSince (nodeId : NodeId) (log : List HealthEntry) : Nat :=
  (log.rtakeWhile fun e => e ≠ .registered nodeId ∧ e ≠ .answered nodeId).count (.failed nodeId)

/-- Each removal in the log comes after enough failures of the worker. -/
def FairLog (maxFailures : Nat) (log : List HealthEntry) : Prop :=
  ∀ before nodeId after, log = before ++ .removed nodeId :: after →
    maxFailures ≤ failuresSince nodeId before

namespace HealthRun

section Events
variable (cfg : BrokerConfig)

def perform (r : HealthRun) : HealthEvent → Option HealthRun
  | .register req =>
    some { r with
      broker := observe .neural cfg r.broker (.register req)
      log := r.log ++ [.registered req.nodeId] }
  | .deregister nodeId =>
    some { r with broker := ((NeuralBroker.deregister nodeId).alone ⟨r.broker, [], []⟩).2.state }
  | .sendFailure nodeId =>
    some { r with
      broker := blameWorker .neural nodeId r.broker
      log := r.log ++ [.failed nodeId] }
  | .probe =>
    match r.loop with
    | .sleeping => some { r with loop := .probing r.broker.workers.keys }
    | _ => none
  | .probed results =>
    match r.loop with
    | .probing snapshot =>
      if results.map (·.nodeId) = snapshot then
        let (dead, broker) := roundOutcome .neural cfg results r.broker
        some { broker := broker, loop := .removing dead, log := r.log ++ results.map (·.entry) }
      else none
    | _ => none
  | .remove =>
    match r.loop with
    | .removing [] => some { r with loop := .sleeping }
    | .removing (nodeId :: dead) =>
      some
        { broker := dropDead .neural nodeId r.broker
          loop := .removing dead
          log := if nodeId ∈ r.broker.workers then r.log ++ [.removed nodeId] else r.log }
    | _ => none

/-- The health loop removes a worker only after enough failures since its latest
registration and its latest successful probe. -/
def EvictsFairly (r : HealthRun) : Prop := FairLog cfg.healthCheckMaxFailures r.log

/-- No worker registers while a failure of it is counted, or while it waits for its
removal. -/
def Orderly (r : HealthRun) : HealthEvent → Prop
  | .register req =>
    r.broker.workerFailures.getD req.nodeId 0 = 0 ∧ req.nodeId ∉ r.loop.dead
  | _ => True

instance (r : HealthRun) : DecidablePred r.Orderly
  | .register _ => inferInstanceAs (Decidable (_ ∧ _))
  | .deregister _ | .sendFailure _ | .probe | .probed _ | .remove => isTrue trivial

def Reachable (r : HealthRun) : Prop :=
  ∃ events : List HealthEvent, events.foldlM (perform cfg) {} = some r

/-- Reachable by orderly steps only. -/
def OrderlyReachable (r : HealthRun) : Prop :=
  ∃ events : List HealthEvent,
    events.foldlM (fun r event => if r.Orderly event then r.perform cfg event else none) {} = some r

end Events

end HealthRun

/-! ## Counting -/

theorem failuresSince_concat (nodeId : NodeId) (log : List HealthEntry) (e : HealthEntry) :
    failuresSince nodeId (log ++ [e]) =
      if e = .registered nodeId ∨ e = .answered nodeId then 0
      else failuresSince nodeId log + if e = .failed nodeId then 1 else 0 := by
  unfold failuresSince
  rw [List.rtakeWhile_concat]
  by_cases hreset : e = .registered nodeId ∨ e = .answered nodeId
  · rw [if_pos hreset, if_neg (by grind)]
    rfl
  · rw [if_neg hreset, if_pos (by grind), List.count_append, List.count_singleton]
    simp only [beq_iff_eq]

theorem failuresSince_failed (nodeId n : NodeId) (log : List HealthEntry) :
    failuresSince nodeId (log ++ [.failed n]) =
      failuresSince nodeId log + if n = nodeId then 1 else 0 := by
  simp [failuresSince_concat]

theorem failuresSince_answered (nodeId n : NodeId) (log : List HealthEntry) :
    failuresSince nodeId (log ++ [.answered n]) =
      if n = nodeId then 0 else failuresSince nodeId log := by
  simp [failuresSince_concat]

theorem failuresSince_registered (nodeId n : NodeId) (log : List HealthEntry) :
    failuresSince nodeId (log ++ [.registered n]) =
      if n = nodeId then 0 else failuresSince nodeId log := by
  simp [failuresSince_concat]

theorem failuresSince_removed (nodeId n : NodeId) (log : List HealthEntry) :
    failuresSince nodeId (log ++ [.removed n]) = failuresSince nodeId log := by
  simp [failuresSince_concat]

theorem fleet_failPipelinesOn (nodeId : NodeId) (b : Broker) :
    (NeuralBroker.failPipelinesOn nodeId b).fleet = b.fleet := by
  refine foldl_scan (P := fun _ (b' : Broker) => b'.fleet = b.fleet) rfl ?_
  exact fun _ _ _ _ _ hb => hb

/-- The failures that the broker has counted are in the log, since the latest registration
and the latest successful probe. -/
def Counted (b : Broker) (log : List HealthEntry) : Prop :=
  ∀ nodeId, b.workerFailures.getD nodeId 0 ≤ failuresSince nodeId log

namespace Counted
variable {b : Broker} {log : List HealthEntry}

theorem sendFailure (h : Counted b log) (nodeId : NodeId) :
    Counted (blameWorker .neural nodeId b) (log ++ [.failed nodeId]) := by
  intro n
  have hn := h n
  rw [failuresSince_failed]
  simp only [blameWorker, Dict.getD_insert]
  grind

theorem register (h : Counted b log) (cfg : BrokerConfig) (req : RegisterRequest)
    (hnone : b.workerFailures.getD req.nodeId 0 = 0) :
    Counted (observe .neural cfg b (.register req)) (log ++ [.registered req.nodeId]) := by
  intro n
  have hn := h n
  rw [failuresSince_registered]
  simp only [observe, workerFailures_onWorkerChange]
  grind

theorem congr (h : Counted b log) {b' : Broker} (heq : b'.workerFailures = b.workerFailures) :
    Counted b' log := by
  intro n
  rw [heq]
  exact h n

/-- A reset takes counts away. -/
theorem of_failures (h : Counted b log) {b' : Broker} {nodeId : NodeId}
    (hreset : b'.workerFailures = b.workerFailures.erase nodeId) : Counted b' log := by
  intro n
  rw [hreset, Dict.getD, Dict.get?_erase]
  split
  · exact Nat.zero_le _
  · exact h n

theorem dropDead (h : Counted b log) (nodeId : NodeId) :
    Counted (dropDead .neural nodeId b) log := by
  apply h.of_failures
  unfold NeuralPubSub.dropDead
  dsimp only
  split
  · exact workerFailures_onWorkerChange ..
  · rfl

theorem deregister (h : Counted b log) (nodeId : NodeId) :
    Counted ((NeuralBroker.deregister nodeId).alone ⟨b, [], []⟩).2.state log := by
  by_cases hnode : nodeId ∈ b.workers
  · have hfleet := fleet_failPipelinesOn nodeId
      (NeuralBroker.rebuildTopology { b with workers := b.workers.erase nodeId })
    apply h.congr
    simp only [NeuralBroker.deregister, Co.alone_bind, Co.alone_read, hnode, not_true_eq_false,
      if_false, Co.alone_modify, Co.alone_pure]
    exact congrArg Prod.snd hfleet
  · simpa [NeuralBroker.deregister, hnode] using h

theorem syncLoad (h : Counted b log) (probe : ProbeResult) :
    Counted (syncLoad .neural probe b) log :=
  h.congr (congrArg Prod.snd (fleet_syncLoad .neural probe b))

/-- A successful probe resets the count, in the broker and in the log. -/
theorem answered (h : Counted b log) (nodeId : NodeId) :
    Counted { b with workerFailures := b.workerFailures.erase nodeId }
      (log ++ [.answered nodeId]) := by
  intro n
  have hn := h n
  rw [failuresSince_answered]
  simp only [Dict.getD, Dict.get?_erase] at hn ⊢
  grind

end Counted

theorem FairLog.concat {maxFailures : Nat} {log : List HealthEntry} (h : FairLog maxFailures log)
    {e : HealthEntry} (he : ∀ nodeId, e = .removed nodeId → maxFailures ≤ failuresSince nodeId log) :
    FairLog maxFailures (log ++ [e]) := by
  intro before nodeId after hlog
  cases (exists_split_concat (P := fun pre => pre = before)).mp ⟨before, after, hlog, rfl⟩ with
  | inl hold =>
    obtain ⟨_, later, hsplit, rfl⟩ := hold
    exact h _ nodeId later hsplit
  | inr hnew =>
    obtain ⟨heq, rfl⟩ := hnew
    exact he nodeId heq.symm

/-- What a round counts, and whom it declares dead. -/
theorem roundOutcome_counted {cfg : BrokerConfig} {b : Broker} {log : List HealthEntry}
    {results : List ProbeResult} (hcounted : Counted b log)
    (hnodup : (results.map (·.nodeId)).Nodup)
    (hfair : FairLog cfg.healthCheckMaxFailures log) :
    Counted (roundOutcome .neural cfg results b).2 (log ++ results.map (·.entry)) ∧
      (∀ nodeId ∈ (roundOutcome .neural cfg results b).1,
        cfg.healthCheckMaxFailures ≤ failuresSince nodeId (log ++ results.map (·.entry))) ∧
      FairLog cfg.healthCheckMaxFailures (log ++ results.map (·.entry)) := by
  have hloop := foldl_scan (l := results) (b := (([], b) : List NodeId × Broker))
    (f := fun (dead, b) probe =>
      if probe.healthy then
        (dead, syncLoad .neural probe
          { b with workerFailures := b.workerFailures.erase probe.nodeId })
      else
        (if b.workerFailures.getD probe.nodeId 0 + 1 ≥ cfg.healthCheckMaxFailures then
            dead ++ [probe.nodeId] else dead,
          { b with workerFailures :=
              b.workerFailures.insert probe.nodeId (b.workerFailures.getD probe.nodeId 0 + 1) }))
    (P := fun done (out : List NodeId × Broker) =>
      Counted out.2 (log ++ done.map (·.entry)) ∧
      (∀ nodeId ∈ out.1, nodeId ∈ done.map (·.nodeId) ∧
        cfg.healthCheckMaxFailures ≤ failuresSince nodeId (log ++ done.map (·.entry))) ∧
      FairLog cfg.healthCheckMaxFailures (log ++ done.map (·.entry)))
    ⟨by simpa using hcounted, by simp, by simpa using hfair⟩ ?_
  · exact ⟨hloop.1, fun nodeId hmem => (hloop.2.1 nodeId hmem).2, hloop.2.2⟩
  · rintro done probe rest ⟨dead, b'⟩ hsplit ⟨hcounted, hdead, hfair⟩
    have hfresh : ∀ nodeId ∈ done.map (·.nodeId), probe.nodeId ≠ nodeId := by
      intro nodeId hmem heq
      rw [hsplit, List.map_append, List.map_cons, List.nodup_append] at hnodup
      exact hnodup.2.2 nodeId hmem _ (List.mem_cons_self ..) heq.symm
    have hlog : log ++ (done ++ [probe]).map (·.entry) =
        log ++ done.map (·.entry) ++ [probe.entry] := by simp
    have hentry : ∀ nodeId, probe.entry ≠ .removed nodeId := by
      intro nodeId
      unfold ProbeResult.entry
      split <;> simp
    have hfair' := hfair.concat fun nodeId heq => absurd heq (hentry nodeId)
    rw [hlog]
    unfold ProbeResult.entry at hfair' ⊢
    cases hhealthy : probe.healthy with
    | true =>
      simp only [hhealthy, if_true] at hfair' ⊢
      refine ⟨(hcounted.answered probe.nodeId).syncLoad probe, fun n hn => ?_, hfair'⟩
      obtain ⟨hmem, hmax⟩ := hdead n hn
      rw [failuresSince_answered, if_neg (hfresh n hmem)]
      exact ⟨by simp [hmem], hmax⟩
    | false =>
      simp only [hhealthy, Bool.false_eq_true, if_false] at hfair' ⊢
      have hcount := hcounted.sendFailure probe.nodeId
      refine ⟨hcount, fun n hn => ?_, hfair'⟩
      have hold : n ∈ dead → n ∈ (done ++ [probe]).map (·.nodeId) ∧
          cfg.healthCheckMaxFailures ≤
            failuresSince n (log ++ done.map (·.entry) ++ [.failed probe.nodeId]) := by
        intro hn
        obtain ⟨hmem, hmax⟩ := hdead n hn
        rw [failuresSince_failed]
        exact ⟨by simp [hmem], hmax.trans (Nat.le_add_right ..)⟩
      split at hn
      · next hmax =>
        cases List.mem_append.mp hn with
        | inl hn => exact hold hn
        | inr hn =>
          obtain rfl := List.mem_singleton.mp hn
          have hlimit := hcount probe.nodeId
          simp only [blameWorker, Dict.getD_insert, if_true] at hlimit
          exact ⟨by simp, hmax.trans hlimit⟩
      · exact hold hn

/-! ## Runs -/

namespace HealthRun
variable {cfg : BrokerConfig} {r r' : HealthRun}

structure EvictionInv (cfg : BrokerConfig) (r : HealthRun) : Prop where
  counted : Counted r.broker r.log
  declared : ∀ nodeId ∈ r.loop.dead, cfg.healthCheckMaxFailures ≤ failuresSince nodeId r.log
  distinct : ∀ snapshot, r.loop = .probing snapshot → snapshot.Nodup
  fair : r.EvictsFairly cfg

namespace EvictionInv

theorem register (h : EvictionInv cfg r) {req : RegisterRequest} (horderly : r.Orderly (.register req)) :
    EvictionInv cfg { r with
      broker := observe .neural cfg r.broker (.register req)
      log := r.log ++ [.registered req.nodeId] } where
  counted := h.counted.register cfg req horderly.1
  declared nodeId hdead := by
    have hne : req.nodeId ≠ nodeId := fun heq => horderly.2 (heq ▸ hdead)
    rw [failuresSince_registered, if_neg hne]
    exact h.declared nodeId hdead
  distinct := h.distinct
  fair := h.fair.concat (by simp)

theorem sendFailure (h : EvictionInv cfg r) (nodeId : NodeId) :
    EvictionInv cfg { r with
      broker := blameWorker .neural nodeId r.broker
      log := r.log ++ [.failed nodeId] } where
  counted := h.counted.sendFailure nodeId
  declared n hdead := by
    rw [failuresSince_failed]
    exact (h.declared n hdead).trans (Nat.le_add_right ..)
  distinct := h.distinct
  fair := h.fair.concat (by simp)

theorem remove (h : EvictionInv cfg r) {nodeId : NodeId} {dead : List NodeId}
    (hloop : r.loop = .removing (nodeId :: dead)) :
    EvictionInv cfg
      { broker := dropDead .neural nodeId r.broker
        loop := .removing dead
        log := if nodeId ∈ r.broker.workers then r.log ++ [.removed nodeId] else r.log } := by
  have hdeclared : ∀ n ∈ nodeId :: dead, cfg.healthCheckMaxFailures ≤ failuresSince n r.log := by
    have hdead := h.declared
    rw [hloop] at hdead
    exact hdead
  have hlater : ∀ n ∈ dead, cfg.healthCheckMaxFailures ≤ failuresSince n r.log := fun n hn =>
    hdeclared n (List.mem_cons_of_mem _ hn)
  split
  · constructor
    · intro n
      rw [failuresSince_removed]
      exact h.counted.dropDead nodeId n
    · intro n hn
      rw [failuresSince_removed]
      exact hlater n hn
    · simp
    · apply h.fair.concat
      intro n heq
      obtain rfl : nodeId = n := by simpa using heq
      exact hdeclared nodeId (List.mem_cons_self ..)
  · exact ⟨h.counted.dropDead nodeId, hlater, by simp, h.fair⟩

theorem step (h : EvictionInv cfg r) {event : HealthEvent} (horderly : r.Orderly event)
    (hperform : r.perform cfg event = some r') : EvictionInv cfg r' := by
  cases event with
  | register req =>
    obtain rfl := Option.some.inj hperform
    exact h.register horderly
  | deregister nodeId =>
    obtain rfl := Option.some.inj hperform
    exact { h with counted := h.counted.deregister nodeId }
  | sendFailure nodeId =>
    obtain rfl := Option.some.inj hperform
    exact h.sendFailure nodeId
  | probe =>
    cases hloop : r.loop with
    | sleeping =>
      simp only [perform, hloop, Option.some.injEq] at hperform
      subst hperform
      refine { h with declared := by simp [HealthLoop.dead], distinct := ?_ }
      rintro _ ⟨⟩
      exact r.broker.workers.keys_nodup
    | probing snapshot => simp [perform, hloop] at hperform
    | removing dead => simp [perform, hloop] at hperform
  | probed results =>
    cases hloop : r.loop with
    | sleeping => simp [perform, hloop] at hperform
    | probing snapshot =>
      simp only [perform, hloop, Option.ite_none_right_eq_some, Option.some.injEq] at hperform
      obtain ⟨rfl, rfl⟩ := hperform
      obtain ⟨hcounted, hdead, hfair⟩ :=
        roundOutcome_counted h.counted (h.distinct _ hloop) h.fair
      exact ⟨hcounted, hdead, by simp, hfair⟩
    | removing dead => simp [perform, hloop] at hperform
  | remove =>
    cases hloop : r.loop with
    | sleeping => simp [perform, hloop] at hperform
    | probing snapshot => simp [perform, hloop] at hperform
    | removing dead =>
      cases dead with
      | nil =>
        simp only [perform, hloop, Option.some.injEq] at hperform
        subst hperform
        exact { h with declared := by simp [HealthLoop.dead], distinct := by simp }
      | cons nodeId dead =>
        simp only [perform, hloop, Option.some.injEq] at hperform
        subst hperform
        exact h.remove hloop

theorem reachable (h : OrderlyReachable cfg r) : EvictionInv cfg r := by
  obtain ⟨events, hrun⟩ := h
  refine foldlM_scan_some (P := fun _ r => EvictionInv cfg r) ?_ ?_ hrun
  · exact ⟨fun n => Nat.zero_le _, by simp [HealthLoop.dead], by simp, fun _ _ _ h => by simp at h⟩
  · intro _ event _ r r' _ hr hperform
    rw [Option.ite_none_right_eq_some] at hperform
    exact hr.step hperform.1 hperform.2

end EvictionInv

/-- In an orderly run every eviction is due to failures of the current registration. -/
theorem evictsFairly_of_orderly (h : OrderlyReachable cfg r) : r.EvictsFairly cfg :=
  (EvictionInv.reachable h).fair

private def wardConfig : BrokerConfig := { domainId := "d1", brokerId := "b1" }

private def wardWorker : RegisterRequest :=
  { nodeId := "w1", domainId := "d1", sliceId := "flat", capacity := 1 }

/-- A round in which the only worker does not answer. -/
private def failedRound : List HealthEvent := [.probe, .probed [⟨"w1", false, none⟩], .remove]

theorem evictsFairly_of_orderly_rounds : ∃ r,
    (.register wardWorker :: failedRound ++ failedRound ++ failedRound).foldlM
      (perform wardConfig) {} = some r ∧ .removed "w1" ∈ r.log ∧ r.EvictsFairly wardConfig := by
  let events : List HealthEvent :=
    .register wardWorker :: failedRound ++ failedRound ++ failedRound
  have hrun : ∃ r, events.foldlM (fun (r : HealthRun) event =>
      if r.Orderly event then r.perform wardConfig event else none) {} = some r ∧
        .removed "w1" ∈ r.log := by
    decide +kernel
  obtain ⟨r, hr, hremoved⟩ := hrun
  exact ⟨r, foldlM_of_guarded hr, hremoved, evictsFairly_of_orderly ⟨events, hr⟩⟩

private def restart : List HealthEvent :=
  .register wardWorker :: failedRound ++ failedRound ++
    .deregister "w1" :: .register wardWorker :: failedRound

/-- Two failures of the first registration and one of the second take the worker out. -/
theorem not_evictsFairly :
    ¬ ∀ (cfg : BrokerConfig) (r : HealthRun), Reachable cfg r → r.EvictsFairly cfg := by
  intro h
  have hrun : ∃ r, restart.foldlM (perform wardConfig) {} = some r ∧
      r.log.getLast? = some (.removed "w1") ∧ failuresSince "w1" r.log.dropLast = 1 := by
    decide +kernel
  obtain ⟨r, hr, hlast, hone⟩ := hrun
  have hlog : r.log = r.log.dropLast ++ .removed "w1" :: [] :=
    (List.dropLast_append_getLast? _ hlast).symm
  have hfair := h wardConfig r ⟨restart, hr⟩ _ _ _ hlog
  rw [hone] at hfair
  revert hfair
  decide

end HealthRun

end NeuralPubSub
