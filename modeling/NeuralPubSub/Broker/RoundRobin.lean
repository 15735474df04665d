-- SUMMARY: Round-robin picks of the static broker: they are sound, and fair as long as no worker registers or leaves.
import NeuralPubSub.Base.RoundRobin
import NeuralPubSub.Broker.Static

open Base

/-!
# Round-robin picks

The workers of a static broker and its cycles of eligible workers, through
registrations, deregistrations, evictions and picks. Each of them holds the lock
of the registry, so they come one after the other.
-/

namespace NeuralPubSub
namespace StaticBroker

/-- What happens to the registry and to the cycles. -/
inductive RegistryEvent where
  | register (req : RegisterRequest)
  | deregister (nodeId : NodeId)
  /-- The eviction after failed health checks. -/
  | removeDead (nodeId : NodeId)
  /-- The eviction after a failed dispatch. -/
  | evict (nodeId : NodeId)
  | pick (sliceRequirement : Option SliceId)

section Events
variable (cfg : BrokerConfig)

/-- The broker that a handler leaves behind. -/
def stateAfter {α : Type} (c : BrokerM α) (b : Broker) : Broker := (c.alone ⟨b, [], []⟩).2.state

def onEvent (b : Broker) : RegistryEvent → Broker
  | .register req => stateAfter (BaseBroker.register rebuildCycle req) b
  | .deregister nodeId => stateAfter (BaseBroker.deregister rebuildCycle nodeId) b
  | .removeDead nodeId => stateAfter (removeDeadWorker rebuildCycle (fun _ => pure ()) nodeId) b
  | .evict nodeId => evict nodeId b
  | .pick sliceRequirement => (pickWorker cfg sliceRequirement b).2

/-- The broker after a run from its start. -/
def after (events : List RegistryEvent) : Broker := events.foldl (onEvent cfg) {}

/-- The workers that the picks for a requirement return, in a run from `b`. -/
def picked (sliceRequirement : Option SliceId) : Broker → List RegistryEvent → List NodeId
  | _, [] => []
  | b, .pick s :: events =>
    (if s = sliceRequirement then (pickWorker cfg s b).1.toOption.toList else []) ++
      picked sliceRequirement (pickWorker cfg s b).2 events
  | b, event :: events => picked sliceRequirement (onEvent cfg b event) events

end Events

/-- A registered worker whose slice satisfies the requirement. -/
def Eligible (b : Broker) (sliceRequirement : Option SliceId) (nodeId : NodeId) : Prop :=
  ∃ worker, b.workers.get? nodeId = some worker ∧ sliceMatches worker.sliceId sliceRequirement = true

/-- The event rebuilds the cycles: a registration, or a registered worker that leaves. -/
def Rebuilds (b : Broker) : RegistryEvent → Prop
  | .register _ => True
  | .deregister nodeId | .removeDead nodeId | .evict nodeId => nodeId ∈ b.workers
  | .pick _ => False

/-- Nothing rebuilds the cycles in `window`. -/
def Undisturbed (cfg : BrokerConfig) (before window : List RegistryEvent) : Prop :=
  ∀ event ∈ window, ¬ Rebuilds (after cfg before) event

/-- The registry stays as it is through `window`. -/
def SameRegistry (cfg : BrokerConfig) (before window : List RegistryEvent) : Prop :=
  ∀ pre, pre <+: window → (after cfg (before ++ pre)).workers = (after cfg before).workers

/-- Picks are sound, raise exactly if no worker is eligible, and are fair in each quiet
part of the run. -/
structure PicksWell (cfg : BrokerConfig)
    (Quiet : BrokerConfig → List RegistryEvent → List RegistryEvent → Prop)
    (events : List RegistryEvent) : Prop where
  sound : ∀ before s rest nodeId, events = before ++ .pick s :: rest →
    (pickWorker cfg s (after cfg before)).1 = .ok nodeId → Eligible (after cfg before) s nodeId
  raises : ∀ before s rest, events = before ++ .pick s :: rest →
    ((∃ text, (pickWorker cfg s (after cfg before)).1 = .error (.runtime text)) ↔
      ∀ nodeId, ¬ Eligible (after cfg before) s nodeId)
  returns : ∀ before s rest, events = before ++ .pick s :: rest →
    ((∃ nodeId, (pickWorker cfg s (after cfg before)).1 = .ok nodeId) ↔
      ∃ nodeId, Eligible (after cfg before) s nodeId)
  fair : ∀ before window rest, events = before ++ window ++ rest → Quiet cfg before window →
    ∀ s u v, Eligible (after cfg before) s u → Eligible (after cfg before) s v →
      (picked cfg s (after cfg before) window).count u ≤
        (picked cfg s (after cfg before) window).count v + 1

/-! ## Cycles -/

variable {cfg : BrokerConfig} {b : Broker}

theorem mem_eligibleWorkers {s : Option SliceId} {nodeId : NodeId} :
    nodeId ∈ eligibleWorkers b s ↔ Eligible b s nodeId := by
  rw [eligibleWorkers, List.mem_insertionSort, List.mem_map]
  constructor
  · rintro ⟨⟨_, worker⟩, hmem, rfl⟩
    rw [List.mem_filter] at hmem
    exact ⟨worker, Dict.get?_eq_some_iff.mpr hmem.1, hmem.2⟩
  · rintro ⟨worker, hget, hslice⟩
    exact ⟨(nodeId, worker), List.mem_filter.mpr ⟨Dict.get?_eq_some_iff.mp hget, hslice⟩, rfl⟩

theorem nodup_eligibleWorkers (b : Broker) (s : Option SliceId) : (eligibleWorkers b s).Nodup := by
  have hkeys : (b.workers.entries.map Prod.fst).Nodup := b.workers.nodupKeys
  apply (List.perm_insertionSort _ _).nodup_iff.mpr
  exact hkeys.sublist (List.filter_sublist.map _)

/-- The cycle that a pick for the requirement turns. -/
def currentCycle (b : Broker) (s : Option SliceId) : List NodeId :=
  match b.sliceCycles.getD s [] with
  | [] => eligibleWorkers b s
  | cycle => cycle

/-- Every cycle consists of the workers eligible now. -/
def CyclesValid (b : Broker) : Prop := ∀ s, (currentCycle b s).Perm (eligibleWorkers b s)

/-- Only the registry and the cycles matter. -/
theorem currentCycle_congr {b' : Broker} (hworkers : b'.workers = b.workers)
    (hcycles : b'.sliceCycles = b.sliceCycles) (s : Option SliceId) :
    currentCycle b' s = currentCycle b s := by
  unfold currentCycle eligibleWorkers
  rw [hworkers, hcycles]

theorem CyclesValid.congr {b' : Broker} (h : CyclesValid b) (hworkers : b'.workers = b.workers)
    (hcycles : b'.sliceCycles = b.sliceCycles) : CyclesValid b' := by
  intro s
  rw [currentCycle_congr hworkers hcycles, eligibleWorkers, hworkers]
  exact h s

theorem cyclesValid_rebuildCycle (b : Broker) : CyclesValid (rebuildCycle b) := by
  intro s
  have hcycle : (rebuildCycle b).sliceCycles.getD s [] = [] ∨
      (rebuildCycle b).sliceCycles.getD s [] = eligibleWorkers b s := by
    cases hget : (rebuildCycle b).sliceCycles.get? s with
    | none => simp [Dict.getD, hget]
    | some cycle =>
      have hmem := List.mem_of_mem_filter (Dict.mem_of_get?_ofList hget)
      obtain ⟨req, -, heq⟩ := List.mem_map.mp hmem
      obtain ⟨rfl, rfl⟩ := Prod.mk.inj heq
      simp [Dict.getD, hget]
  have hcurrent : currentCycle (rebuildCycle b) s = eligibleWorkers b s := by
    unfold currentCycle
    cases hcycle with
    | inl hnil =>
      rw [hnil]
      rfl
    | inr heligible =>
      rw [heligible]
      cases heligible : eligibleWorkers b s with
      | nil => exact heligible
      | cons x rest => rfl
  rw [hcurrent]
  exact .refl _

/-! ## Picks -/

theorem pickWorker_roundRobin (hrr : cfg.placementStrategy = .roundRobin) (s : Option SliceId)
    (b : Broker) :
    pickWorker cfg s b =
      if b.workers.keys = [] then (.error (.runtime "No workers registered."), b)
      else match currentCycle b s with
        | [] => (.error (noEligibleWorkers s), b)
        | nodeId :: rest =>
          (.ok nodeId, { b with sliceCycles := b.sliceCycles.insert s (rest ++ [nodeId]) }) := by
  unfold pickWorker
  rw [hrr]
  rfl

/-- Without an eligible worker the pick raises and leaves the broker as it is. -/
theorem pickWorker_of_nil (hrr : cfg.placementStrategy = .roundRobin) {s : Option SliceId}
    (hcycle : currentCycle b s = []) :
    ∃ text, pickWorker cfg s b = (.error (.runtime text), b) := by
  rw [pickWorker_roundRobin hrr, hcycle]
  split
  · exact ⟨_, rfl⟩
  · exact ⟨_, rfl⟩

/-- A pick takes the head of the cycle and turns it. -/
theorem pickWorker_of_cons (hrr : cfg.placementStrategy = .roundRobin) (h : CyclesValid b)
    {s : Option SliceId} {nodeId : NodeId} {rest : List NodeId}
    (hcycle : currentCycle b s = nodeId :: rest) :
    pickWorker cfg s b =
      (.ok nodeId, { b with sliceCycles := b.sliceCycles.insert s (rest ++ [nodeId]) }) := by
  have hworkers : b.workers.keys ≠ [] := by
    have hmem : nodeId ∈ eligibleWorkers b s := (h s).mem_iff.mp (hcycle ▸ List.mem_cons_self ..)
    obtain ⟨worker, hget, -⟩ := mem_eligibleWorkers.mp hmem
    exact List.ne_nil_of_mem (Dict.mem_of_get?_eq_some hget)
  rw [pickWorker_roundRobin hrr, if_neg hworkers, hcycle]

/-- The outcomes of a pick. -/
theorem pickWorker_cases (hrr : cfg.placementStrategy = .roundRobin) (h : CyclesValid b)
    (s : Option SliceId) :
    ((∃ text, (pickWorker cfg s b).1 = .error (.runtime text)) ∧ ∀ nodeId, ¬ Eligible b s nodeId) ∨
      ∃ nodeId, (pickWorker cfg s b).1 = .ok nodeId ∧ Eligible b s nodeId := by
  have hmem : ∀ nodeId, Eligible b s nodeId ↔ nodeId ∈ currentCycle b s := fun nodeId =>
    mem_eligibleWorkers.symm.trans (h s).mem_iff.symm
  cases hcycle : currentCycle b s with
  | nil =>
    obtain ⟨text, hpick⟩ := pickWorker_of_nil hrr hcycle
    refine .inl ⟨⟨text, by rw [hpick]⟩, fun nodeId heligible => ?_⟩
    rw [hmem, hcycle] at heligible
    cases heligible
  | cons nodeId rest =>
    refine .inr ⟨nodeId, by rw [pickWorker_of_cons hrr h hcycle], (hmem nodeId).mpr ?_⟩
    rw [hcycle]
    exact List.mem_cons_self ..

theorem currentCycle_insert (b : Broker) (s s' : Option SliceId) (rest : List NodeId)
    (nodeId : NodeId) :
    currentCycle { b with sliceCycles := b.sliceCycles.insert s (rest ++ [nodeId]) } s' =
      if s' = s then rest ++ [nodeId] else currentCycle b s' := by
  unfold currentCycle
  rw [Dict.getD_insert]
  by_cases hs : s' = s
  · rw [if_pos hs, if_pos hs]
    cases hturned : rest ++ [nodeId] with
    | nil => simp at hturned
    | cons x xs => rfl
  · rw [if_neg hs, if_neg hs]
    rfl

theorem workers_pickWorker (cfg : BrokerConfig) (s : Option SliceId) (b : Broker) :
    (pickWorker cfg s b).2.workers = b.workers := by
  unfold pickWorker
  split
  · rfl
  · dsimp only
    split <;> split <;> rfl

theorem CyclesValid.pickWorker (h : CyclesValid b) (hrr : cfg.placementStrategy = .roundRobin)
    (s : Option SliceId) : CyclesValid (pickWorker cfg s b).2 := by
  cases hcycle : currentCycle b s with
  | nil =>
    obtain ⟨text, hpick⟩ := pickWorker_of_nil hrr hcycle
    rw [hpick]
    exact h
  | cons nodeId rest =>
    rw [pickWorker_of_cons hrr h hcycle]
    intro s'
    rw [currentCycle_insert]
    split
    · next hs =>
      subst hs
      exact (List.perm_append_singleton ..).trans (hcycle ▸ h s')
    · exact h s'

/-! ## Runs -/

/-- An event that does not rebuild the cycles and is no pick changes nothing here. -/
theorem onEvent_of_not_rebuilds (cfg : BrokerConfig) {event : RegistryEvent} (h : ¬ Rebuilds b event)
    (hpick : ∀ s, event ≠ .pick s) :
    (onEvent cfg b event).workers = b.workers ∧
      (onEvent cfg b event).sliceCycles = b.sliceCycles := by
  cases event with
  | register req => exact absurd trivial h
  | deregister nodeId =>
    simp only [Rebuilds] at h
    simp [onEvent, stateAfter, BaseBroker.deregister, h]
  | removeDead nodeId =>
    simp only [Rebuilds] at h
    simp [onEvent, stateAfter, removeDeadWorker, h]
  | evict nodeId =>
    simp only [Rebuilds] at h
    simp [onEvent, evict, h]
  | pick s => exact absurd rfl (hpick s)

theorem onEvent_of_rebuilds (cfg : BrokerConfig) {event : RegistryEvent} (h : Rebuilds b event) :
    ∃ b', (onEvent cfg b event).workers = (rebuildCycle b').workers ∧
      (onEvent cfg b event).sliceCycles = (rebuildCycle b').sliceCycles := by
  cases event with
  | register req => exact ⟨_, rfl, rfl⟩
  | deregister nodeId =>
    simp only [Rebuilds] at h
    refine ⟨{ b with workers := b.workers.erase nodeId }, ?_⟩
    simp [onEvent, stateAfter, BaseBroker.deregister, h]
  | removeDead nodeId =>
    simp only [Rebuilds] at h
    refine ⟨{ b with
      workerFailures := b.workerFailures.erase nodeId, workers := b.workers.erase nodeId }, ?_⟩
    simp [onEvent, stateAfter, removeDeadWorker, h]
  | evict nodeId =>
    simp only [Rebuilds] at h
    refine ⟨{ b with workers := b.workers.erase nodeId }, ?_⟩
    simp [onEvent, evict, h]
  | pick s => exact h.elim

theorem CyclesValid.onEvent (h : CyclesValid b) (hrr : cfg.placementStrategy = .roundRobin)
    (event : RegistryEvent) : CyclesValid (onEvent cfg b event) := by
  by_cases hrebuilds : Rebuilds b event
  · obtain ⟨b', hworkers, hcycles⟩ := onEvent_of_rebuilds cfg hrebuilds
    exact (cyclesValid_rebuildCycle b').congr hworkers hcycles
  · cases event with
    | pick s => exact h.pickWorker hrr s
    | register req => exact absurd trivial hrebuilds
    | deregister nodeId | removeDead nodeId | evict nodeId =>
      obtain ⟨hworkers, hcycles⟩ := onEvent_of_not_rebuilds cfg hrebuilds (by simp)
      exact h.congr hworkers hcycles

theorem cyclesValid_after (hrr : cfg.placementStrategy = .roundRobin)
    (events : List RegistryEvent) : CyclesValid (after cfg events) := by
  refine foldl_scan (P := fun _ b => CyclesValid b) ?_ ?_
  · exact fun s => .refl _
  · exact fun _ event _ _ _ h => h.onEvent hrr event

theorem eligibleWorkers_congr {b' : Broker} (hworkers : b'.workers = b.workers)
    (s : Option SliceId) : eligibleWorkers b' s = eligibleWorkers b s := by
  unfold eligibleWorkers
  rw [hworkers]

theorem rebuilds_congr {b' : Broker} (hworkers : b'.workers = b.workers) (event : RegistryEvent) :
    Rebuilds b' event ↔ Rebuilds b event := by
  cases event <;> simp only [Rebuilds, hworkers]

/-- As long as nothing rebuilds the cycles, the turns stay even. -/
theorem even_picked (hrr : cfg.placementStrategy = .roundRobin) (s : Option SliceId)
    {window : List RegistryEvent} (h : CyclesValid b) (hquiet : ∀ event ∈ window, ¬ Rebuilds b event)
    {turns : NodeId → ℕ} (heven : RoundRobin.Even turns (currentCycle b s)) :
    ∃ cycle : List NodeId, cycle.Perm (eligibleWorkers b s) ∧
      RoundRobin.Even (fun u => turns u + (picked cfg s b window).count u) cycle := by
  induction window generalizing b turns with
  | nil => exact ⟨currentCycle b s, h s, by simpa [picked] using heven⟩
  | cons event window ih =>
    have hlater : ∀ b' : Broker, b'.workers = b.workers → ∀ event ∈ window, ¬ Rebuilds b' event :=
      fun b' hworkers event he => mt (rebuilds_congr hworkers event).mp
        (hquiet event (List.mem_cons_of_mem _ he))
    have hnow := hquiet event (List.mem_cons_self ..)
    cases event with
    | pick s' =>
      have hvalid := h.pickWorker hrr s'
      cases hcycle : currentCycle b s' with
      | nil =>
        obtain ⟨text, hpick⟩ := pickWorker_of_nil hrr hcycle
        rw [picked, hpick]
        simpa [Except.toOption] using ih h (hlater b rfl) heven
      | cons nodeId rest =>
        rw [picked]
        rw [pickWorker_of_cons hrr h hcycle] at hvalid ⊢
        by_cases hs : s' = s
        · -- a turn for this requirement
          subst hs
          have hnodup : (nodeId :: rest).Nodup :=
            (hcycle ▸ (h s').nodup_iff).mpr (nodup_eligibleWorkers b s')
          rw [hcycle] at heven
          obtain ⟨cycle, hperm, hlast⟩ := ih hvalid (hlater _ rfl)
            (by rw [currentCycle_insert, if_pos rfl]; exact heven.turn hnodup)
          have hturns : ∀ (u : NodeId) (later : List NodeId),
              turns u + (nodeId :: later).count u =
                (turns u + if u = nodeId then 1 else 0) + later.count u := by
            intro u later
            rw [List.count_cons]
            grind
          refine ⟨cycle, hperm, ?_⟩
          simpa [Except.toOption, hturns] using hlast
        · rw [if_neg hs, List.nil_append]
          exact ih hvalid (hlater _ rfl) (by rwa [currentCycle_insert, if_neg (Ne.symm hs)])
    | register req => exact absurd trivial hnow
    | deregister nodeId | removeDead nodeId | evict nodeId =>
      obtain ⟨hworkers, hcycles⟩ := onEvent_of_not_rebuilds cfg hnow (by simp)
      rw [← eligibleWorkers_congr hworkers]
      exact ih (h.congr hworkers hcycles) (hlater _ hworkers)
        (by rwa [currentCycle_congr hworkers hcycles])

/-- The picks of a run are sound and, between events that rebuild the cycles, fair. -/
theorem picksWell_undisturbed (hrr : cfg.placementStrategy = .roundRobin) (events : List RegistryEvent) :
    PicksWell cfg Undisturbed events := by
  constructor
  · intro before s rest nodeId _ hok
    cases pickWorker_cases hrr (cyclesValid_after hrr before) s with
    | inl hnone =>
      obtain ⟨⟨text, herror⟩, -⟩ := hnone
      rw [herror] at hok
      cases hok
    | inr hsome =>
      obtain ⟨nodeId', hok', heligible⟩ := hsome
      obtain rfl : nodeId' = nodeId := by simpa [hok'] using hok
      exact heligible
  · intro before s rest _
    cases pickWorker_cases hrr (cyclesValid_after hrr before) s with
    | inl hnone => exact iff_of_true hnone.1 hnone.2
    | inr hsome =>
      obtain ⟨nodeId, hok, heligible⟩ := hsome
      exact iff_of_false (by simp [hok]) fun hnone => hnone nodeId heligible
  · intro before s rest _
    cases pickWorker_cases hrr (cyclesValid_after hrr before) s with
    | inl hnone =>
      obtain ⟨⟨text, herror⟩, hnone⟩ := hnone
      exact iff_of_false (by simp [herror]) fun ⟨nodeId, heligible⟩ => hnone nodeId heligible
    | inr hsome =>
      obtain ⟨nodeId, hok, heligible⟩ := hsome
      exact iff_of_true ⟨nodeId, hok⟩ ⟨nodeId, heligible⟩
  · intro before window rest _ hquiet s u v hu hv
    have heven := even_picked hrr s (cyclesValid_after hrr before) hquiet
      (RoundRobin.even_const 0 (currentCycle (after cfg before) s))
    obtain ⟨cycle, hperm, heven⟩ := heven
    have hmem : ∀ w, Eligible (after cfg before) s w → w ∈ cycle := fun w hw =>
      hperm.mem_iff.mpr (mem_eligibleWorkers.mpr hw)
    simpa using heven.le_succ (hmem u hu) (hmem v hv)

private def turnConfig : BrokerConfig := { domainId := "d1", brokerId := "b1" }

private def turnWorker (nodeId : NodeId) : RegistryEvent :=
  .register { nodeId := nodeId, domainId := "d1", sliceId := "flat", capacity := 1 }

private def turnFleet : List RegistryEvent := [turnWorker "w1", turnWorker "w2"]

theorem picksWell_undisturbed_pair :
    PicksWell turnConfig Undisturbed (turnFleet ++ [.pick none, .pick none, .pick none]) ∧
      picked turnConfig none (after turnConfig turnFleet) [.pick none, .pick none, .pick none] =
        ["w1", "w2", "w1"] :=
  ⟨picksWell_undisturbed rfl _, by decide +kernel⟩

/-- A worker that registers again, with the same data, makes every cycle start anew: the
first worker gets all the picks. -/
theorem not_picksWell_sameRegistry :
    ¬ ∀ (cfg : BrokerConfig) (events : List RegistryEvent), cfg.placementStrategy = .roundRobin →
      PicksWell cfg SameRegistry events := by
  intro h
  let window : List RegistryEvent := [.pick none, turnWorker "w1", .pick none]
  have hsame : SameRegistry turnConfig turnFleet window := by
    have hinits : ∀ pre ∈ window.inits, (after turnConfig (turnFleet ++ pre)).workers =
        (after turnConfig turnFleet).workers := by
      decide +kernel
    exact fun pre hpre => hinits pre ((List.mem_inits ..).mpr hpre)
  have heligible : ∀ nodeId ∈ ["w1", "w2"], Eligible (after turnConfig turnFleet) none nodeId := by
    simp only [← mem_eligibleWorkers]
    decide +kernel
  have hfair := (h turnConfig _ rfl).fair turnFleet window [] rfl hsame none "w1" "w2"
    (heligible _ (by simp)) (heligible _ (by simp))
  revert hfair
  decide +kernel

end StaticBroker
end NeuralPubSub
