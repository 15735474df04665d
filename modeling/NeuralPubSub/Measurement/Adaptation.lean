-- SUMMARY: The adaptation tracker: its three scans over the failure history, and when the times they list are those of the cycles.
import NeuralPubSub.Base.Scan
import NeuralPubSub.Base.Dict

open Base

/-!
# Adaptation times

`AdaptationTracker` of `src/measurement/harness.py`. Each of its three lists is
the outcome of a loop over the events in the order of their timestamps, with a
queue of open timestamps for each kind and target of failure.
-/

namespace NeuralPubSub

/-- A single failure or recovery event. -/
structure FailureEvent where
  failureType : String
  targetId : String
  timestamp : ℚ
  isRecovery : Bool := false
  isDetectionComplete : Bool := false
  deriving DecidableEq, Repr

def FailureEvent.key (event : FailureEvent) : String × String := (event.failureType, event.targetId)

/-! ## The loop -/

/-- The variables of a loop: the queues of open timestamps, and the times so far. -/
structure MatchState where
  pending : Dict (String × String) (List ℚ) := .empty
  times : List ℚ := []
  deriving Repr

section Loop
variable (opens closes : FailureEvent → Bool) (pops : Bool)

/-- The body that the three loops share: an event that opens a pair is queued, another
one that closes a pair is matched with the first timestamp queued under its key. -/
def matchEvent (s : MatchState) (event : FailureEvent) : MatchState :=
  let queue := s.pending.getD event.key []
  if opens event then
    { s with pending := s.pending.insert event.key (queue ++ [event.timestamp]) }
  else if closes event then
    match queue with
    | [] => s
    | start :: rest =>
      { pending := if pops then s.pending.insert event.key rest else s.pending
        times := s.times ++ [(event.timestamp - start) * 1000] }
  else s

/-- What an event does to the queue of its own key. -/
def queueEvent (queue : List ℚ) (event : FailureEvent) : List ℚ :=
  if opens event then queue ++ [event.timestamp]
  else if closes event && pops then queue.tail
  else queue

end Loop

structure AdaptationTracker where
  events : List FailureEvent := []
  deriving DecidableEq, Repr

namespace AdaptationTracker

def recordFailure (t : AdaptationTracker) (failureType targetId : String) (timestamp : ℚ) :
    AdaptationTracker :=
  ⟨t.events ++ [{ failureType, targetId, timestamp, isRecovery := false }]⟩

def recordDetectionComplete (t : AdaptationTracker) (failureType targetId : String)
    (timestamp : ℚ) : AdaptationTracker :=
  ⟨t.events ++ [{ failureType, targetId, timestamp, isDetectionComplete := true }]⟩

def recordRecovery (t : AdaptationTracker) (failureType targetId : String) (timestamp : ℚ) :
    AdaptationTracker :=
  ⟨t.events ++ [{ failureType, targetId, timestamp, isRecovery := true }]⟩

/-- `sorted(self._events, key=lambda e: e.timestamp)`, which is stable. -/
def sortedEvents (t : AdaptationTracker) : List FailureEvent :=
  t.events.mergeSort fun a b => decide (a.timestamp ≤ b.timestamp)

/-- `adaptation_times_ms`. Every event that is no recovery is queued, the end of a
detection too. -/
def adaptationTimesMs (t : AdaptationTracker) : List ℚ :=
  (t.sortedEvents.foldl (matchEvent (fun e => !e.isRecovery) (fun _ => true) true) {}).times

/-- `detection_times_ms`. The matched failure stays in its queue. -/
def detectionTimesMs (t : AdaptationTracker) : List ℚ :=
  (t.sortedEvents.foldl (matchEvent (fun e => !e.isRecovery && !e.isDetectionComplete)
    (·.isDetectionComplete) false) {}).times

/-- `replacement_times_ms`. -/
def replacementTimesMs (t : AdaptationTracker) : List ℚ :=
  (t.sortedEvents.foldl (matchEvent (·.isDetectionComplete) (·.isRecovery) true) {}).times

end AdaptationTracker

section Loop
variable {opens closes : FailureEvent → Bool} {pops : Bool}

/-- The queues of different keys do not meet. -/
theorem getD_pending_matchEvent (s : MatchState) (event : FailureEvent) (k : String × String) :
    (matchEvent opens closes pops s event).pending.getD k [] =
      if event.key = k then queueEvent opens closes pops (s.pending.getD k []) event
      else s.pending.getD k [] := by
  unfold matchEvent queueEvent
  cases hqueue : s.pending.getD event.key [] <;> grind [Dict.getD_insert]

/-- A closing event is matched with the first timestamp of its queue. -/
theorem times_matchEvent (s : MatchState) (event : FailureEvent) :
    (matchEvent opens closes pops s event).times = s.times ++
      if !opens event && closes event then
        (s.pending.getD event.key []).head?.toList.map fun start => (event.timestamp - start) * 1000
      else [] := by
  unfold matchEvent
  cases hqueue : s.pending.getD event.key [] <;> grind

/-- The rule for the loop: if each closing event finds a start in the queue that the events
of its own key have left, then the times are those from the starts to the closing events. -/
theorem times_foldl_matchEvent {l : List FailureEvent} {R : FailureEvent → ℚ → Prop}
    (h : ∀ done event rest, l = done ++ event :: rest → !opens event && closes event →
      ∃ start, R event start ∧
        ((done.filter (·.key = event.key)).foldl (queueEvent opens closes pops) []).head? =
          some start) :
    List.Forall₂ (fun event time => ∃ start, R event start ∧ time = (event.timestamp - start) * 1000)
      (l.filter fun e => !opens e && closes e)
      (l.foldl (matchEvent opens closes pops) {}).times := by
  have hloop := foldl_scan (f := matchEvent opens closes pops) (l := l) (b := {})
    (P := fun done s =>
      (∀ k, s.pending.getD k [] =
        (done.filter (·.key = k)).foldl (queueEvent opens closes pops) []) ∧
      List.Forall₂ (fun event time => ∃ start, R event start ∧
          time = (event.timestamp - start) * 1000)
        (done.filter fun e => !opens e && closes e) s.times)
    ⟨fun k => rfl, .nil⟩ ?_
  · exact hloop.2
  · intro done event rest s hl ⟨hpending, htimes⟩
    constructor
    · intro k
      rw [getD_pending_matchEvent, hpending, List.filter_append, List.foldl_append]
      split <;> simp_all
    · rw [List.filter_append, times_matchEvent, hpending, List.filter_singleton]
      cases hclosing : !opens event && closes event with
      | false => simpa using htimes
      | true =>
        obtain ⟨start, hstart, hhead⟩ := h done event rest hl hclosing
        rw [hhead]
        exact List.rel_append htimes (.cons ⟨start, hstart, rfl⟩ .nil)

end Loop

/-! ## Cycles -/

/-- One failure of a target, from its start over its detection to its recovery. -/
structure Cycle where
  failureType : String
  targetId : String
  failure : ℚ
  detection : ℚ
  recovery : ℚ
  failure_lt : failure < detection
  detection_lt : detection < recovery

namespace Cycle

def key (c : Cycle) : String × String := (c.failureType, c.targetId)

def failureEvent (c : Cycle) : FailureEvent :=
  { failureType := c.failureType, targetId := c.targetId, timestamp := c.failure }

def detectionEvent (c : Cycle) : FailureEvent :=
  { failureType := c.failureType, targetId := c.targetId, timestamp := c.detection
    isDetectionComplete := true }

def recoveryEvent (c : Cycle) : FailureEvent :=
  { failureType := c.failureType, targetId := c.targetId, timestamp := c.recovery
    isRecovery := true }

/-- The events of a cycle, in the order of their timestamps. -/
def events (c : Cycle) : List FailureEvent := [c.failureEvent, c.detectionEvent, c.recoveryEvent]

theorem of_mem_events {c : Cycle} {event : FailureEvent} (h : event ∈ c.events) :
    event.key = c.key ∧ c.failure ≤ event.timestamp ∧ event.timestamp ≤ c.recovery := by
  have hfirst := c.failure_lt
  have hsecond := c.detection_lt
  simp only [events, List.mem_cons, List.not_mem_nil, or_false] at h
  rcases h with rfl | rfl | rfl
  · exact ⟨rfl, le_rfl, (hfirst.trans hsecond).le⟩
  · exact ⟨rfl, hfirst.le, hsecond.le⟩
  · exact ⟨rfl, (hfirst.trans hsecond).le, le_rfl⟩

theorem events_pairwise (c : Cycle) : c.events.Pairwise fun a b => a.timestamp < b.timestamp := by
  have hfirst := c.failure_lt
  have hsecond := c.detection_lt
  simp [events, failureEvent, detectionEvent, recoveryEvent, hfirst, hsecond,
    hfirst.trans hsecond]

theorem filter_events_key (c : Cycle) (k : String × String) :
    c.events.filter (·.key = k) = if c.key = k then c.events else [] := by
  split
  case isTrue hk =>
    rw [List.filter_eq_self]
    exact fun event he => decide_eq_true ((of_mem_events he).1.trans hk)
  case isFalse hk =>
    rw [List.filter_eq_nil_iff]
    exact fun event he heq => hk ((of_mem_events he).1.symm.trans (of_decide_eq_true heq))

def adaptationMs (c : Cycle) : ℚ := (c.recovery - c.failure) * 1000

def detectionMs (c : Cycle) : ℚ := (c.detection - c.failure) * 1000

def replacementMs (c : Cycle) : ℚ := (c.recovery - c.detection) * 1000

theorem adaptationMs_eq (c : Cycle) : c.adaptationMs = c.detectionMs + c.replacementMs := by
  unfold adaptationMs detectionMs replacementMs
  ring

/-- Where an event stands among the events of the cycles of its key. -/
inductive At (before : List Cycle) (c : Cycle) : FailureEvent → List FailureEvent → Prop
  | failure : At before c c.failureEvent (before.flatMap events)
  | detection : At before c c.detectionEvent (before.flatMap events ++ [c.failureEvent])
  | recovery :
    At before c c.recoveryEvent (before.flatMap events ++ [c.failureEvent, c.detectionEvent])

theorem At.mem_events {before : List Cycle} {c : Cycle} {event : FailureEvent}
    {done : List FailureEvent} (h : At before c event done) : event ∈ c.events := by
  cases h <;> simp [events]

theorem At.cons {before : List Cycle} {c : Cycle} {event : FailureEvent}
    {done : List FailureEvent} (first : Cycle) (h : At before c event done) :
    At (first :: before) c event (first.events ++ done) := by
  cases h with
  | failure => exact .failure
  | detection => simpa [List.append_assoc] using @At.detection (first :: before) c
  | recovery => simpa [List.append_assoc] using @At.recovery (first :: before) c

/-- An event of a sequence of cycles is one of the three of some cycle, after all the
events of the cycles before. -/
theorem at_of_flatMap_eq {cycles : List Cycle} {done rest : List FailureEvent}
    {event : FailureEvent} (h : cycles.flatMap events = done ++ event :: rest) :
    ∃ before c after, cycles = before ++ c :: after ∧ At before c event done := by
  induction cycles generalizing done with
  | nil => simp at h
  | cons c cycles ih =>
    rw [List.flatMap_cons] at h
    match done, h with
    | [], h =>
      obtain ⟨rfl, -⟩ := List.cons.inj h
      exact ⟨[], c, cycles, rfl, .failure⟩
    | [_], h =>
      simp only [events, List.cons_append, List.cons.injEq] at h
      obtain ⟨rfl, rfl, -⟩ := h
      exact ⟨[], c, cycles, rfl, .detection⟩
    | [_, _], h =>
      simp only [events, List.cons_append, List.cons.injEq] at h
      obtain ⟨rfl, rfl, rfl, -⟩ := h
      exact ⟨[], c, cycles, rfl, .recovery⟩
    | _ :: _ :: _ :: done, h =>
      simp only [events, List.cons_append, List.cons.injEq, List.nil_append] at h
      obtain ⟨rfl, rfl, rfl, h⟩ := h
      obtain ⟨before, c', after, rfl, hat⟩ := ih h
      exact ⟨c :: before, c', after, rfl, hat.cons c⟩

end Cycle

/-- The history consists of the events of `cycles`, recorded in any order; those of one
key are one after the other. -/
structure WellFormed (history : List FailureEvent) (cycles : List Cycle) : Prop where
  recorded : history.Perm (cycles.flatMap Cycle.events)
  consecutive : cycles.Pairwise fun c c' => c.key = c'.key → c.recovery < c'.failure

/-- The first cycle of the same key. -/
def firstCycle (cycles : List Cycle) (c : Cycle) : Cycle :=
  (cycles.filter (·.key = c.key)).head?.getD c

/-- One entry for each cycle, in the order of the closing events. -/
def Lists (cycles : List Cycle) (closing span : Cycle → ℚ) (times : List ℚ) : Prop :=
  ∃ order : List Cycle, order.Perm cycles ∧ order.Pairwise (fun c c' => closing c ≤ closing c') ∧
    times = order.map span

/-- The three lists are those of the cycles, and the adaptation of each cycle is its
detection and its re-placement. -/
structure AdaptationTracker.Decomposes (t : AdaptationTracker) (cycles : List Cycle) : Prop where
  adaptation : Lists cycles Cycle.recovery Cycle.adaptationMs t.adaptationTimesMs
  detection : Lists cycles Cycle.detection Cycle.detectionMs t.detectionTimesMs
  replacement : Lists cycles Cycle.recovery Cycle.replacementMs t.replacementTimesMs
  sum : ∀ c ∈ cycles, c.adaptationMs = c.detectionMs + c.replacementMs

theorem Lists.sum_eq {cycles : List Cycle} {closing span : Cycle → ℚ} {times : List ℚ}
    (h : Lists cycles closing span times) : times.sum = (cycles.map span).sum := by
  obtain ⟨order, hperm, -, rfl⟩ := h
  exact (hperm.map span).sum_eq

namespace WellFormed
variable {t : AdaptationTracker} {cycles : List Cycle}

theorem sorted_perm (h : WellFormed t.events cycles) :
    t.sortedEvents.Perm (cycles.flatMap Cycle.events) :=
  (List.mergeSort_perm ..).trans h.recorded

theorem sortedEvents_pairwise (t : AdaptationTracker) :
    t.sortedEvents.Pairwise fun a b => a.timestamp ≤ b.timestamp :=
  pairwise_mergeSort_key FailureEvent.timestamp _

/-- The cycles of one key follow each other. -/
theorem consecutive_of_key (h : WellFormed t.events cycles) (k : String × String) :
    (cycles.filter (·.key = k)).Pairwise fun c c' => c.recovery < c'.failure := by
  refine (h.consecutive.filter _).imp_of_mem fun hc hc' hlt => hlt ?_
  rw [List.mem_filter, decide_eq_true_eq] at hc hc'
  exact hc.2.trans hc'.2.symm

theorem flatMap_filter_key (cycles : List Cycle) (k : String × String) :
    (cycles.flatMap Cycle.events).filter (·.key = k) =
      (cycles.filter (·.key = k)).flatMap Cycle.events := by
  induction cycles with
  | nil => rfl
  | cons c cycles ih =>
    rw [List.flatMap_cons, List.filter_append, ih, Cycle.filter_events_key, List.filter_cons]
    by_cases hk : c.key = k <;> simp [hk]

/-- In the order of their timestamps, the events of a key are those of its cycles. -/
theorem filter_sortedEvents (h : WellFormed t.events cycles) (k : String × String) :
    t.sortedEvents.filter (·.key = k) = (cycles.filter (·.key = k)).flatMap Cycle.events := by
  have hstrict : ((cycles.filter (·.key = k)).flatMap Cycle.events).Pairwise
      fun a b => a.timestamp < b.timestamp := by
    rw [List.pairwise_flatMap]
    constructor
    · exact fun c _ => c.events_pairwise
    · refine (h.consecutive_of_key k).imp fun hlt a ha b hb => ?_
      have hle := (Cycle.of_mem_events ha).2.2
      have hge := (Cycle.of_mem_events hb).2.1
      linarith
  have hperm : (t.sortedEvents.filter (·.key = k)).Perm
      ((cycles.filter (·.key = k)).flatMap Cycle.events) := by
    rw [← flatMap_filter_key]
    exact h.sorted_perm.filter _
  refine hperm.eq_of_pairwise ?_ ((sortedEvents_pairwise t).filter _) (hstrict.imp le_of_lt)
  intro a b ha hb hab hba
  have hinj := List.inj_on_of_nodup_map (List.pairwise_map.mpr (hstrict.imp ne_of_lt))
  exact hinj (hperm.mem_iff.mp ha) hb (le_antisymm hab hba)

/-- Different cycles have no event in common. -/
theorem eq_of_mem_events (h : WellFormed t.events cycles) {c c' : Cycle} {event : FailureEvent}
    (hc : c ∈ cycles) (hc' : c' ∈ cycles) (he : event ∈ c.events) (he' : event ∈ c'.events) :
    c = c' := by
  let Apart (c c' : Cycle) : Prop :=
    c.key = c'.key → c.recovery < c'.failure ∨ c'.recovery < c.failure
  have hsymm : Std.Symm Apart := ⟨fun _ _ h hkey => (h hkey.symm).symm⟩
  have happart : cycles.Pairwise Apart := h.consecutive.imp fun hlt hkey => .inl (hlt hkey)
  obtain ⟨hkey, hge, hle⟩ := Cycle.of_mem_events he
  obtain ⟨hkey', hge', hle'⟩ := Cycle.of_mem_events he'
  by_contra hne
  cases happart.forall hc hc' hne (hkey.symm.trans hkey') with
  | inl hlt => linarith
  | inr hlt => linarith

section Scan
variable {opens closes : FailureEvent → Bool} {pops : Bool}

/-- The rule for a scan over a well-formed history: each cycle has one closing event, and
the events of the cycle and of those before it under its key leave its start at the head
of their queue. -/
theorem lists_foldl_matchEvent (h : WellFormed t.events cycles) (close : Cycle → FailureEvent)
    (start : Cycle → ℚ)
    (hclose : ∀ c : Cycle, c.events.filter (fun e => !opens e && closes e) = [close c])
    (hstart : ∀ before c after event done,
      cycles.filter (·.key = c.key) = before ++ c :: after → Cycle.At before c event done →
      !opens event && closes event →
      (done.foldl (queueEvent opens closes pops) []).head? = some (start c)) :
    Lists cycles (fun c => (close c).timestamp) (fun c => ((close c).timestamp - start c) * 1000)
      (t.sortedEvents.foldl (matchEvent opens closes pops) {}).times := by
  have hmem : ∀ c : Cycle, close c ∈ c.events := fun c =>
    List.mem_of_mem_filter (hclose c ▸ List.mem_singleton_self _)
  have htimes : List.Forall₂ (fun event time => ∃ s, (∃ c ∈ cycles, event = close c ∧ s = start c) ∧
        time = (event.timestamp - s) * 1000)
      (t.sortedEvents.filter fun e => !opens e && closes e)
      (t.sortedEvents.foldl (matchEvent opens closes pops) {}).times := by
    apply times_foldl_matchEvent
    intro done event rest hsplit hcloses
    have hkey := h.filter_sortedEvents event.key
    rw [hsplit, List.filter_append, List.filter_cons_of_pos (by simp)] at hkey
    obtain ⟨before, c, after, hcycles, hat⟩ := Cycle.at_of_flatMap_eq hkey.symm
    have hc : c ∈ cycles.filter (·.key = event.key) := by
      rw [hcycles]
      exact List.mem_append_right _ (List.mem_cons_self ..)
    have hck : c.key = event.key := of_decide_eq_true (List.mem_filter.mp hc).2
    have heq : event = close c := by
      have hfiltered : event ∈ c.events.filter fun e => !opens e && closes e :=
        List.mem_filter.mpr ⟨hat.mem_events, hcloses⟩
      rwa [hclose, List.mem_singleton] at hfiltered
    exact ⟨start c, ⟨c, (List.mem_filter.mp hc).1, heq, rfl⟩,
      hstart before c after event _ (hck ▸ hcycles) hat hcloses⟩
  -- the closing events are those of the cycles, in some order
  have hclosing : (t.sortedEvents.filter fun e => !opens e && closes e).Perm
      (cycles.map close) := by
    rw [List.map_eq_flatMap, ← funext hclose, ← List.filter_flatMap]
    exact h.sorted_perm.filter _
  have hgraph : List.Forall₂ (fun event c => event = close c) (cycles.map close) cycles :=
    List.forall₂_map_left_iff.mpr (List.forall₂_same.mpr fun _ _ => rfl)
  obtain ⟨order, horder, hperm⟩ := List.perm_comp_forall₂ hclosing hgraph
  have hevents : t.sortedEvents.filter (fun e => !opens e && closes e) = order.map close :=
    List.forall₂_eq_eq_eq ▸ List.forall₂_map_right_iff.mpr horder
  refine ⟨order, hperm, ?_, ?_⟩
  · have hsorted := (sortedEvents_pairwise t).filter fun e => !opens e && closes e
    rw [hevents, List.pairwise_map] at hsorted
    exact hsorted
  · rw [hevents, List.forall₂_map_left_iff] at htimes
    apply Eq.symm
    rw [← List.forall₂_eq_eq_eq, List.forall₂_map_left_iff]
    refine ((List.forall₂_and_left _ _).mpr ⟨fun c hc => hperm.mem_iff.mp hc, htimes⟩).imp ?_
    rintro c time ⟨hc, start', ⟨c', hc', heq, rfl⟩, rfl⟩
    rw [h.eq_of_mem_events hc hc' (hmem c) (heq ▸ hmem c')]

end Scan

/-- In a complete cycle, the recovery takes the detection off its queue. -/
theorem queue_of_replacement (before : List Cycle) :
    (before.flatMap Cycle.events).foldl
      (queueEvent (·.isDetectionComplete) (·.isRecovery) true) [] = [] := by
  induction before with
  | nil => rfl
  | cons c before ih =>
    rw [List.flatMap_cons, List.foldl_append]
    exact ih

/-- The re-placement times are right in every cycle. -/
theorem lists_replacementTimesMs (h : WellFormed t.events cycles) :
    Lists cycles Cycle.recovery Cycle.replacementMs t.replacementTimesMs := by
  refine h.lists_foldl_matchEvent Cycle.recoveryEvent Cycle.detection (fun c => rfl) ?_
  intro before c after event done _ hat hcloses
  cases hat with
  | failure => simp [Cycle.failureEvent] at hcloses
  | detection => simp [Cycle.detectionEvent] at hcloses
  | recovery =>
    rw [List.foldl_append, queue_of_replacement]
    rfl

/-- No failure ever leaves its queue. -/
theorem queue_of_detection (before : List Cycle) (queue : List ℚ) :
    (before.flatMap Cycle.events).foldl
      (queueEvent (fun e => !e.isRecovery && !e.isDetectionComplete) (·.isDetectionComplete) false)
      queue = queue ++ before.map Cycle.failure := by
  induction before generalizing queue with
  | nil => simp
  | cons c before ih =>
    rw [List.flatMap_cons, List.foldl_append, ih, List.map_cons, List.append_cons]
    rfl

/-- The detection times are measured from the first failure of the key. -/
theorem lists_detectionTimesMs (h : WellFormed t.events cycles) :
    Lists cycles Cycle.detection (fun c => (c.detection - (firstCycle cycles c).failure) * 1000)
      t.detectionTimesMs := by
  refine h.lists_foldl_matchEvent Cycle.detectionEvent (fun c => (firstCycle cycles c).failure)
    (fun c => rfl) ?_
  intro before c after event done hcycles hat hcloses
  cases hat with
  | failure => simp [Cycle.failureEvent] at hcloses
  | recovery => simp [Cycle.recoveryEvent] at hcloses
  | detection =>
    rw [List.foldl_append, queue_of_detection, firstCycle, hcycles]
    cases before <;> rfl

/-- A key with one cycle has no cycle before it. -/
theorem eq_nil_of_nodup (hkeys : (cycles.map Cycle.key).Nodup) {before after : List Cycle}
    {c : Cycle} (hcycles : cycles.filter (·.key = c.key) = before ++ c :: after) : before = [] := by
  have hunique : (cycles.filter (·.key = c.key)).Pairwise fun x y => x.key ≠ y.key :=
    (List.pairwise_map.mp hkeys).filter _
  have hkey : ∀ x ∈ before ++ c :: after, x.key = c.key := by
    intro x hx
    rw [← hcycles] at hx
    exact of_decide_eq_true (List.mem_filter.mp hx).2
  rw [hcycles, List.pairwise_append] at hunique
  apply List.eq_nil_iff_forall_not_mem.mpr
  intro x hx
  exact hunique.2.2 x hx c (List.mem_cons_self ..) (hkey x (List.mem_append_left _ hx))

/-- In the first cycle of a key, the adaptation time is measured from its failure. -/
theorem lists_adaptationTimesMs (h : WellFormed t.events cycles)
    (hkeys : (cycles.map Cycle.key).Nodup) :
    Lists cycles Cycle.recovery Cycle.adaptationMs t.adaptationTimesMs := by
  refine h.lists_foldl_matchEvent Cycle.recoveryEvent Cycle.failure (fun c => rfl) ?_
  intro before c after event done hcycles hat hcloses
  cases hat with
  | failure => simp [Cycle.failureEvent] at hcloses
  | detection => simp [Cycle.detectionEvent] at hcloses
  | recovery =>
    rw [eq_nil_of_nodup hkeys hcycles]
    rfl

theorem head?_filter_key {c : Cycle} (hc : c ∈ cycles) :
    (cycles.filter (·.key = c.key)).head? = some (firstCycle cycles c) := by
  have hmem : c ∈ cycles.filter (·.key = c.key) := by simpa using hc
  unfold firstCycle
  cases hfilter : cycles.filter (·.key = c.key) with
  | nil => simp [hfilter] at hmem
  | cons first rest => rfl

theorem firstCycle_mem {c : Cycle} (hc : c ∈ cycles) :
    firstCycle cycles c ∈ cycles ∧ (firstCycle cycles c).key = c.key := by
  have hmem := List.mem_of_head? (head?_filter_key hc)
  rwa [List.mem_filter, decide_eq_true_eq] at hmem

theorem firstCycle_eq_or_lt (h : WellFormed t.events cycles) {c : Cycle} (hc : c ∈ cycles) :
    firstCycle cycles c = c ∨ (firstCycle cycles c).failure < c.failure := by
  have hmem : c ∈ cycles.filter (·.key = c.key) := by simpa using hc
  have hsorted := h.consecutive_of_key c.key
  obtain ⟨rest, hfilter⟩ := List.head?_eq_some_iff.mp (head?_filter_key hc)
  rw [hfilter, List.pairwise_cons] at hsorted
  rw [hfilter, List.mem_cons] at hmem
  cases hmem with
  | inl heq => exact .inl heq.symm
  | inr hrest =>
    have hlt := hsorted.1 c hrest
    exact .inr (((firstCycle cycles c).failure_lt.trans (firstCycle cycles c).detection_lt).trans hlt)

/-- Each cycle is the first one of its key exactly if no key has two. -/
theorem forall_firstCycle_eq_iff (h : WellFormed t.events cycles) :
    (∀ c ∈ cycles, firstCycle cycles c = c) ↔ (cycles.map Cycle.key).Nodup := by
  constructor
  · intro hfirst
    have hnodup : cycles.Nodup := by
      refine h.consecutive.imp fun {c c'} hlt heq => ?_
      subst heq
      exact lt_irrefl _ ((hlt rfl).trans (c.failure_lt.trans c.detection_lt))
    refine hnodup.map_on fun c hc c' hc' hkey => ?_
    have hhead := head?_filter_key hc
    rw [hfirst c hc, hkey, head?_filter_key hc', hfirst c' hc'] at hhead
    exact (Option.some.inj hhead).symm
  · intro hkeys c hc
    obtain ⟨hmem, hkey⟩ := firstCycle_mem hc
    exact List.inj_on_of_nodup_map hkeys hmem hc hkey

/-- Right detection times in all have a first cycle only: a time measured from an earlier
failure is too long, and none is too short. -/
theorem firstCycle_eq (h : WellFormed t.events cycles)
    (hlists : Lists cycles Cycle.detection Cycle.detectionMs t.detectionTimesMs) {c : Cycle}
    (hc : c ∈ cycles) : firstCycle cycles c = c := by
  by_contra hne
  have hlong : ∀ c ∈ cycles, c.detectionMs ≤
      (c.detection - (firstCycle cycles c).failure) * 1000 := by
    intro c hc
    unfold Cycle.detectionMs
    cases h.firstCycle_eq_or_lt hc with
    | inl heq => rw [heq]
    | inr hlt => linarith
  have hlonger : c.detectionMs < (c.detection - (firstCycle cycles c).failure) * 1000 := by
    have hlt := (h.firstCycle_eq_or_lt hc).resolve_left hne
    unfold Cycle.detectionMs
    linarith
  have hsum := List.sum_lt_sum _ _ hlong ⟨c, hc, hlonger⟩
  exact hsum.ne (hlists.sum_eq.symm.trans h.lists_detectionTimesMs.sum_eq)

end WellFormed

theorem Lists.congr {cycles : List Cycle} {closing span span' : Cycle → ℚ} {times : List ℚ}
    (h : Lists cycles closing span times) (heq : ∀ c ∈ cycles, span c = span' c) :
    Lists cycles closing span' times := by
  obtain ⟨order, hperm, hsorted, rfl⟩ := h
  exact ⟨order, hperm, hsorted, List.map_congr_left fun c hc => heq c (hperm.mem_iff.mp hc)⟩

namespace AdaptationTracker

/-- The three lists are right exactly if no key has a second cycle: from the second one on,
its detection is matched with the failure of the first. -/
theorem decomposes_iff {t : AdaptationTracker} {cycles : List Cycle}
    (h : WellFormed t.events cycles) : t.Decomposes cycles ↔ (cycles.map Cycle.key).Nodup := by
  constructor
  · intro hdecomposes
    exact h.forall_firstCycle_eq_iff.mp fun c hc => h.firstCycle_eq hdecomposes.detection hc
  · intro hkeys
    have hdetection : Lists cycles Cycle.detection Cycle.detectionMs t.detectionTimesMs := by
      refine h.lists_detectionTimesMs.congr fun c hc => ?_
      rw [h.forall_firstCycle_eq_iff.mpr hkeys c hc, Cycle.detectionMs]
    exact ⟨h.lists_adaptationTimesMs hkeys, hdetection, h.lists_replacementTimesMs,
      fun c _ => c.adaptationMs_eq⟩

/-- A node that crashes. -/
private def crashCycle (targetId : String) (failure : ℚ) : Cycle where
  failureType := "node_crash"
  targetId := targetId
  failure := failure
  detection := failure + 1
  recovery := failure + 2
  failure_lt := by linarith
  detection_lt := by linarith

/-- Two nodes crash one shortly after the other, and the second one recovers first on
record. -/
private def crossedCrashes : AdaptationTracker :=
  ((((((({} : AdaptationTracker).recordFailure "node_crash" "node-3" 0).recordFailure
    "node_crash" "node-5" (1 / 2)).recordDetectionComplete "node_crash" "node-3" (0 + 1)
      ).recordDetectionComplete "node_crash" "node-5" (1 / 2 + 1)).recordRecovery
        "node_crash" "node-5" (1 / 2 + 2)).recordRecovery "node_crash" "node-3" (0 + 2))

private def oneCrash : AdaptationTracker :=
  ((({} : AdaptationTracker).recordFailure "node_crash" "node-3" 0).recordDetectionComplete
    "node_crash" "node-3" (0 + 1)).recordRecovery "node_crash" "node-3" (0 + 2)

private def twoCrashes : AdaptationTracker :=
  ((oneCrash.recordFailure "node_crash" "node-3" 10).recordDetectionComplete
    "node_crash" "node-3" (10 + 1)).recordRecovery "node_crash" "node-3" (10 + 2)

theorem decomposes_iff_crash :
    crossedCrashes.Decomposes [crashCycle "node-3" 0, crashCycle "node-5" (1 / 2)] := by
  have hformed : WellFormed crossedCrashes.events
      [crashCycle "node-3" 0, crashCycle "node-5" (1 / 2)] := by
    refine ⟨by decide +kernel, List.pairwise_pair.mpr fun hkey => ?_⟩
    simp [crashCycle, Cycle.key] at hkey
  exact (decomposes_iff hformed).mpr (by simp [crashCycle, Cycle.key])

/-- The second detection is listed with 11000 ms instead of 1000. -/
theorem not_decomposes :
    ¬ ∀ (t : AdaptationTracker) (cycles : List Cycle), WellFormed t.events cycles →
      t.Decomposes cycles := by
  intro h
  have hformed : WellFormed twoCrashes.events [crashCycle "node-3" 0, crashCycle "node-3" 10] :=
    ⟨.refl _, List.pairwise_pair.mpr fun _ => by norm_num [crashCycle]⟩
  have hfirst := hformed.firstCycle_eq (h _ _ hformed).detection
    (List.mem_cons_of_mem _ (List.mem_singleton_self _))
  have hfailure := congrArg Cycle.failure hfirst
  norm_num [firstCycle, crashCycle, Cycle.key] at hfailure

end AdaptationTracker

end NeuralPubSub
