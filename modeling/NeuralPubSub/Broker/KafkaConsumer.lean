-- SUMMARY: The Kafka consumer sidecar: which records it dispatches, where to, in what order and how many at once.
import NeuralPubSub.Base.Scan
import NeuralPubSub.Base.Semaphore
import NeuralPubSub.Broker.State

open Base

/-!
# The Kafka consumer

`src/broker/kafka_consumer.py`: a process beside the broker that reads stage
assignments from the topics and posts each to the worker whose URL it carries. A
record without a URL goes to the next worker of a cycle. The posts are tasks of
their own; a semaphore bounds how many are under way.
-/

namespace NeuralPubSub

/-- `EXPERIMENT_TOPICS`. -/
def experimentTopics : List String := ["cqi_prediction", "anomaly_detection", "sensor_fusion"]

/-- `DEFAULT_MAX_CONCURRENT`. -/
abbrev defaultMaxConcurrent : Nat := 20

/-- The value under `target_url`. -/
inductive TargetUrl where
  /-- The key is missing, or its value is no text and counts as false. -/
  | missing
  | text (s : String)
  /-- A value that has no `rstrip`. -/
  | other
  deriving DecidableEq

/-- The payload of a record: `target_url`, and the other keys. -/
structure Assignment (β : Type) where
  targetUrl : TargetUrl
  body : β
  deriving DecidableEq

namespace Assignment

variable {β : Type} (a : Assignment β)

/-- `not payload.get("target_url")`. -/
def isUntargeted : Bool :=
  match a.targetUrl with
  | .missing => true
  | .text s => s = ""
  | .other => false

/-- The URL that the assignment names; the task of one that names another value raises. -/
def target? : Option String :=
  match a.targetUrl with
  | .text s => if s = "" then none else some s
  | .missing | .other => none

theorem target?_of_isUntargeted (h : a.isUntargeted = true) : a.target? = none := by
  cases htarget : a.targetUrl with
  | missing | other => simp only [target?, htarget]
  | text s =>
    simp only [isUntargeted, htarget, decide_eq_true_eq] at h
    simp only [target?, htarget, if_pos h]

end Assignment

inductive KafkaRecord (β : Type) where
  /-- `json.loads` raises `JSONDecodeError` or `UnicodeDecodeError`. -/
  | undecodable
  /-- `json.loads` raises another exception: the record has no value, or a number in it has
  more digits than `int` reads. -/
  | unreadable
  /-- A JSON value that is no object. -/
  | notAnObject
  | sentinel
  | assignment (a : Assignment β)
  deriving DecidableEq

def KafkaRecord.assignment? {β : Type} : KafkaRecord β → Option (Assignment β)
  | .assignment a => some a
  | .undecodable | .unreadable | .notAnObject | .sentinel => none

/-- A dispatch task: its number, the URL of its worker and what it posts. -/
structure StagePost (β : Type) where
  task : Nat
  targetUrl : String
  body : β
  deriving DecidableEq

/-- `execute_url`. -/
def StagePost.executeUrl {β : Type} (p : StagePost β) : String := s!"{rstripSlash p.targetUrl}/execute"

/-- `_fetch_workers`: the registered workers that have a URL. -/
def fetchWorkers (workers : Dict NodeId WorkerInfo) : Dict NodeId String :=
  .ofList ((workers.entries.map fun e => (e.1, e.2.url)).filter fun e => e.2 ≠ "")

inductive SidecarPhase where
  | running
  /-- The loop has ended; the posts go on while the consumer stops. -/
  | stopping
  | closed
  deriving DecidableEq

/-- A run of the sidecar. -/
structure Sidecar (β : Type) (maxConcurrent : Nat := defaultMaxConcurrent) where
  workerUrls : Dict NodeId String
  workerCycle : List NodeId
  phase : SidecarPhase := .running
  posts : Semaphore (StagePost β) maxConcurrent := .idle _ _
  /-- The posts that have returned or failed. -/
  finished : List (StagePost β) := []
  cancelled : List (StagePost β) := []
  deriving DecidableEq

inductive SidecarEvent (β : Type) where
  | consume (record : KafkaRecord β)
  /-- A post returns, with an answer or with an exception. -/
  | done (post : StagePost β)
  /-- The consumer is cancelled. -/
  | stop
  /-- The consumer has stopped. -/
  | close
  deriving DecidableEq

def SidecarEvent.record? {β : Type} : SidecarEvent β → Option (KafkaRecord β)
  | .consume record => some record
  | .done _ | .stop | .close => none

/-- The assignments that were consumed, in order. -/
def assignmentsOf {β : Type} (events : List (SidecarEvent β)) : List (Assignment β) :=
  (events.filterMap SidecarEvent.record?).filterMap KafkaRecord.assignment?

namespace Sidecar

variable {β : Type} {maxConcurrent : Nat}

/-- The sidecar once it has found the workers of the broker. -/
def start (workers : Dict NodeId WorkerInfo) : Sidecar β maxConcurrent where
  workerUrls := fetchWorkers workers
  workerCycle := (fetchWorkers workers).keys.insertionSort (· ≤ ·)

/-- `create_task(dispatch_message(..))` for a payload with a URL. -/
def dispatchMessage (s : Sidecar β maxConcurrent) (targetUrl : String) (body : β) :
    Sidecar β maxConcurrent :=
  { s with posts := s.posts.acquire ⟨s.posts.requested.length, targetUrl, body⟩ }

/-- `next(worker_cycle)`, with the URL of the worker. -/
def nextWorker (s : Sidecar β maxConcurrent) : Option String × Sidecar β maxConcurrent :=
  match s.workerCycle with
  | [] => (none, s)
  | nodeId :: rest =>
    ((s.workerUrls.get? nodeId).filter (· ≠ ""), { s with workerCycle := rest ++ [nodeId] })

/-- The loop ends, with an exception or a cancellation. -/
def stop (s : Sidecar β maxConcurrent) : Sidecar β maxConcurrent := { s with phase := .stopping }

/-- One iteration of the loop of `run_consumer`. -/
def consume (s : Sidecar β maxConcurrent) : KafkaRecord β → Sidecar β maxConcurrent
  | .undecodable | .sentinel => s
  -- `json.loads` or `payload.get` raises, and only a cancellation is caught
  | .unreadable | .notAnObject => s.stop
  | .assignment a =>
    if a.isUntargeted then
      match s.nextWorker with
      | (some url, s) => s.dispatchMessage url a.body
      | (none, s) => s
    else
      match a.target? with
      | some url => s.dispatchMessage url a.body
      -- the task raises before it asks for a permit
      | none => s

/-- What an event does, if it can happen. -/
def perform [DecidableEq β] (s : Sidecar β maxConcurrent) :
    SidecarEvent β → Option (Sidecar β maxConcurrent)
  | .consume record => if s.phase = .running then some (s.consume record) else none
  | .done post =>
    if s.phase ≠ .closed ∧ post ∈ s.posts.holding then
      some { s with posts := s.posts.release post, finished := s.finished ++ [post] }
    else none
  | .stop => if s.phase = .running then some s.stop else none
  | .close =>
    -- the event loop cancels the tasks that are left
    if s.phase = .stopping then some { s with phase := .closed, cancelled := s.posts.pending }
    else none

/-- The tasks that post or wait for a permit. -/
def pendingTasks (s : Sidecar β maxConcurrent) : List (StagePost β) :=
  if s.phase = .closed then [] else s.posts.pending

theorem pendingTasks_of_ne {s : Sidecar β maxConcurrent} (h : s.phase ≠ .closed) :
    s.pendingTasks = s.posts.pending := if_neg h

/-! ## Where the posts go -/

section Routes

variable (workers : Dict NodeId WorkerInfo)

/-- The workers of the cycle, in order. -/
def cycleOf : List NodeId := (fetchWorkers workers).keys.insertionSort (· ≤ ·)

/-- Where an assignment goes that the sidecar consumes after some others: to the URL that
it names, or, for the k-th of those that name none, to the k-th worker of the cycle. One
that names no URL but another value goes nowhere. -/
def routeOf (earlier : List (Assignment β)) (a : Assignment β) : Option String :=
  if a.isUntargeted then
    ((cycleOf workers)[(earlier.countP (·.isUntargeted)) % (cycleOf workers).length]?).bind
      (fetchWorkers workers).get?
  else a.target?

/-- The URLs and bodies of the posts for a list of assignments. -/
def routes (as : List (Assignment β)) : List (String × β) :=
  as.zipIdx.filterMap fun (a, i) => (routeOf workers (as.take i) a).map fun url => (url, a.body)

theorem routes_concat (as : List (Assignment β)) (a : Assignment β) :
    routes workers (as ++ [a]) =
      routes workers as ++ ((routeOf workers as a).map fun url => (url, a.body)).toList := by
  have hearlier : as.zipIdx.filterMap (fun x =>
      (routeOf workers ((as ++ [a]).take x.2) x.1).map fun url => (url, x.1.body)) =
        routes workers as := by
    refine List.filterMap_congr fun x hx => ?_
    obtain ⟨-, hi, -⟩ := List.mem_zipIdx hx
    rw [List.take_append_of_le_length (Nat.le_of_lt (by simpa using hi))]
  have hlast : [(a, as.length)].filterMap (fun x =>
      (routeOf workers ((as ++ [a]).take x.2) x.1).map fun url => (url, x.1.body)) =
        ((routeOf workers as a).map fun url => (url, a.body)).toList := by
    rw [List.filterMap_cons, List.filterMap_nil, List.take_left]
    cases routeOf workers as a <;> rfl
  rw [← hearlier, ← hlast, ← List.filterMap_append, routes, List.zipIdx_append,
    List.zipIdx_singleton, Nat.zero_add]

theorem routeOf_of_target? {earlier : List (Assignment β)} {a : Assignment β} {url : String}
    (h : a.target? = some url) : routeOf workers earlier a = some url := by
  have htargeted : ¬ a.isUntargeted = true := by
    intro huntargeted
    rw [a.target?_of_isUntargeted huntargeted] at h
    cases h
  rw [routeOf, if_neg htargeted, h]

/-- Assignments that name their URLs go there. -/
theorem routes_of_targeted {as : List (Assignment β)}
    (h : ∀ a ∈ as, a.target?.isSome = true) :
    routes workers as = as.map fun a => (a.target?.getD "", a.body) := by
  induction as using List.reverseRecOn with
  | nil => rfl
  | append_singleton as a ih =>
    obtain ⟨url, hurl⟩ := Option.isSome_iff_exists.mp (h a (by simp))
    rw [routes_concat, List.map_append, routeOf_of_target? workers hurl, List.map_singleton, hurl,
      ih fun b hb => h b (by simp [hb])]
    rfl

end Routes

/-! ## What a run keeps -/

theorem exists_url_of_mem_cycle {workers : Dict NodeId WorkerInfo} {nodeId : NodeId}
    (h : nodeId ∈ cycleOf workers) :
    ∃ url, (fetchWorkers workers).get? nodeId = some url ∧ url ≠ "" := by
  have hmem := (List.mem_insertionSort _).mp h
  obtain ⟨url, hurl⟩ := Dict.exists_get?_of_mem (Dict.mem_iff_mem_keys.mpr hmem)
  have hentry := Dict.mem_of_get?_ofList hurl
  exact ⟨url, hurl, by simpa using (List.mem_filter.mp hentry).2⟩

/-- The sidecar after some events: its cycle has turned once for every assignment that
names no URL, and every assignment with a route has become a post. -/
structure Tracks (workers : Dict NodeId WorkerInfo) (events : List (SidecarEvent β))
    (s : Sidecar β maxConcurrent) : Prop where
  urls : s.workerUrls = fetchWorkers workers
  cycle : s.workerCycle =
    (cycleOf workers).rotate ((assignmentsOf events).countP (·.isUntargeted))
  routed : s.posts.requested.map (fun p => (p.targetUrl, p.body)) =
    routes workers (assignmentsOf events)
  numbered : s.posts.requested.map (·.task) = List.range s.posts.requested.length
  settled : s.posts.requested.Perm (s.finished ++ s.cancelled ++ s.pendingTasks)
  untouched : s.phase ≠ .closed → s.cancelled = []

section Runs

variable {workers : Dict NodeId WorkerInfo} {events : List (SidecarEvent β)}
  {s s' : Sidecar β maxConcurrent}

theorem assignmentsOf_concat (events : List (SidecarEvent β)) (event : SidecarEvent β) :
    assignmentsOf (events ++ [event]) =
      assignmentsOf events ++ (event.record?.bind KafkaRecord.assignment?).toList := by
  simp only [assignmentsOf, List.filterMap_append]
  cases hrecord : event.record? with
  | none => simp [hrecord]
  | some record => cases hassignment : record.assignment? <;> simp [hrecord, hassignment]

theorem tracks_start (workers : Dict NodeId WorkerInfo) :
    Tracks workers [] (start workers : Sidecar β maxConcurrent) where
  urls := rfl
  cycle := (List.rotate_zero _).symm
  routed := rfl
  numbered := rfl
  settled := .refl _
  untouched _ := rfl

/-- The next worker of the cycle is the one that the route names. -/
theorem Tracks.nextWorker (h : Tracks workers events s) {a : Assignment β}
    (ha : a.isUntargeted = true) :
    s.nextWorker = (routeOf workers (assignmentsOf events) a,
      { s with workerCycle :=
          (cycleOf workers).rotate ((assignmentsOf events).countP (·.isUntargeted) + 1) }) := by
  have hcycle := h.cycle
  rw [routeOf, if_pos ha, ← List.rotate_rotate, ← hcycle]
  cases hworkers : s.workerCycle with
  | nil =>
    have hnone : cycleOf workers = [] := List.rotate_eq_nil_iff.mp (hcycle.symm.trans hworkers)
    unfold Sidecar.nextWorker
    rw [hworkers, hnone]
    cases s
    simp_all
  | cons nodeId rest =>
    have hmem : nodeId ∈ cycleOf workers := by
      rw [← List.mem_rotate, ← hcycle, hworkers]
      exact List.mem_cons_self
    have hhead := List.getElem?_rotate (n := (assignmentsOf events).countP (·.isUntargeted))
      (List.length_pos_of_mem hmem)
    rw [← hcycle, hworkers, List.getElem?_cons_zero, Nat.zero_add] at hhead
    obtain ⟨url, hurl, hne⟩ := exists_url_of_mem_cycle hmem
    unfold Sidecar.nextWorker
    rw [hworkers, h.urls, ← hhead, List.rotate_cons_succ, List.rotate_zero]
    simp [hurl, hne]

theorem Tracks.dispatchMessage {events' : List (SidecarEvent β)} {a : Assignment β} {url : String}
    (h : Tracks workers events s) (hphase : s.phase ≠ .closed)
    (hevents : assignmentsOf events' = assignmentsOf events ++ [a])
    (hroute : routeOf workers (assignmentsOf events) a = some url)
    {cycle : List NodeId}
    (hcycle : cycle = (cycleOf workers).rotate ((assignmentsOf events').countP (·.isUntargeted))) :
    Tracks workers events' ({ s with workerCycle := cycle }.dispatchMessage url a.body) := by
  have hsettled := h.settled
  rw [pendingTasks_of_ne hphase] at hsettled
  constructor
  · exact h.urls
  · exact hcycle
  · rw [hevents, routes_concat, hroute, ← h.routed, Sidecar.dispatchMessage,
      Semaphore.requested_acquire, List.map_append]
    rfl
  · simp only [Sidecar.dispatchMessage, Semaphore.requested_acquire, List.map_append, h.numbered,
      List.length_append, List.length_singleton, List.range_succ]
    rfl
  · simp only [Sidecar.dispatchMessage, pendingTasks, if_neg hphase, Semaphore.requested_acquire,
      Semaphore.pending_acquire, ← List.append_assoc]
    exact hsettled.append_right _
  · exact h.untouched

/-- An assignment without a route makes no post. -/
theorem Tracks.pass {events' : List (SidecarEvent β)} {a : Assignment β}
    (h : Tracks workers events s) (hevents : assignmentsOf events' = assignmentsOf events ++ [a])
    (hroute : routeOf workers (assignmentsOf events) a = none) {cycle : List NodeId}
    (hcycle : cycle = (cycleOf workers).rotate ((assignmentsOf events').countP (·.isUntargeted))) :
    Tracks workers events' { s with workerCycle := cycle } := by
  refine ⟨h.urls, hcycle, ?_, h.numbered, h.settled, h.untouched⟩
  rw [hevents, routes_concat, hroute, ← h.routed]
  exact (List.append_nil _).symm

/-- What brings in no assignment and no post leaves the account alone. -/
theorem Tracks.aside (h : Tracks workers events s) {events' : List (SidecarEvent β)}
    (hevents : assignmentsOf events' = assignmentsOf events) : Tracks workers events' s :=
  ⟨h.urls, hevents ▸ h.cycle, hevents ▸ h.routed, h.numbered, h.settled, h.untouched⟩

theorem Tracks.stop (h : Tracks workers events s) (hphase : s.phase = .running) :
    Tracks workers events s.stop := by
  have hsettled := h.settled
  have hopen : s.phase ≠ .closed := by rw [hphase]; decide
  rw [pendingTasks_of_ne hopen] at hsettled
  refine ⟨h.urls, h.cycle, h.routed, h.numbered, ?_, fun _ => h.untouched hopen⟩
  have hstopping : s.stop.phase ≠ .closed := show SidecarPhase.stopping ≠ .closed by decide
  rw [pendingTasks_of_ne hstopping]
  exact hsettled

theorem Tracks.consume (h : Tracks workers events s) (hphase : s.phase = .running)
    (record : KafkaRecord β) :
    Tracks workers (events ++ [.consume record]) (s.consume record) := by
  have hevents := assignmentsOf_concat events (.consume record)
  have hopen : s.phase ≠ .closed := by rw [hphase]; decide
  cases record with
  | undecodable | sentinel => exact h.aside (hevents.trans (List.append_nil _))
  | unreadable | notAnObject => exact (h.stop hphase).aside (hevents.trans (List.append_nil _))
  | assignment a =>
    replace hevents : assignmentsOf _ = assignmentsOf events ++ [a] := hevents
    have hcount : (assignmentsOf (events ++ [.consume (.assignment a)])).countP (·.isUntargeted) =
        (assignmentsOf events).countP (·.isUntargeted) + if a.isUntargeted then 1 else 0 := by
      rw [hevents, List.countP_append, List.countP_singleton]
    cases huntargeted : a.isUntargeted with
    | true =>
      rw [huntargeted, if_pos rfl] at hcount
      rw [Sidecar.consume, if_pos huntargeted, h.nextWorker huntargeted]
      cases hroute : routeOf workers (assignmentsOf events) a with
      | some url => exact h.dispatchMessage hopen hevents hroute (by rw [hcount])
      | none => exact h.pass hevents hroute (by rw [hcount])
    | false =>
      have htargeted : ¬ a.isUntargeted = true := Bool.eq_false_iff.mp huntargeted
      have hroute : routeOf workers (assignmentsOf events) a = a.target? := if_neg htargeted
      have hcycle : s.workerCycle = (cycleOf workers).rotate
          ((assignmentsOf (events ++ [.consume (.assignment a)])).countP (·.isUntargeted)) := by
        rw [hcount, if_neg htargeted, Nat.add_zero, h.cycle]
      rw [Sidecar.consume, if_neg htargeted]
      cases htarget : a.target? with
      | some url => exact h.dispatchMessage hopen hevents (hroute.trans htarget) hcycle
      | none => exact h.pass hevents (hroute.trans htarget) hcycle

variable [DecidableEq β]

theorem Tracks.step (h : Tracks workers events s) {event : SidecarEvent β}
    (hperform : s.perform event = some s') : Tracks workers (events ++ [event]) s' := by
  cases event with
  | consume record =>
    simp only [perform, Option.ite_none_right_eq_some, Option.some.injEq] at hperform
    obtain ⟨hphase, rfl⟩ := hperform
    exact h.consume hphase record
  | done post =>
    simp only [perform, Option.ite_none_right_eq_some, Option.some.injEq] at hperform
    obtain ⟨⟨hopen, hheld⟩, rfl⟩ := hperform
    refine Tracks.aside ?_ ((assignmentsOf_concat events (.done post)).trans (List.append_nil _))
    have hsettled := h.settled
    have hpending : post ∈ s.posts.pending := List.mem_append_left _ hheld
    rw [pendingTasks_of_ne hopen, h.untouched hopen, List.append_nil] at hsettled
    refine ⟨h.urls, h.cycle, ?_, ?_, ?_, h.untouched⟩
    · rw [Semaphore.requested_release, h.routed]
    · rw [Semaphore.requested_release, h.numbered]
    · simp only [pendingTasks, if_neg hopen, Semaphore.requested_release,
        Semaphore.pending_release _ _ hheld, h.untouched hopen, List.append_nil, List.append_assoc]
      exact hsettled.trans ((List.perm_cons_erase hpending).append_left _)
  | stop =>
    simp only [perform, Option.ite_none_right_eq_some, Option.some.injEq] at hperform
    obtain ⟨hphase, rfl⟩ := hperform
    exact (h.stop hphase).aside ((assignmentsOf_concat events .stop).trans (List.append_nil _))
  | close =>
    simp only [perform, Option.ite_none_right_eq_some, Option.some.injEq] at hperform
    obtain ⟨hphase, rfl⟩ := hperform
    refine Tracks.aside ?_ ((assignmentsOf_concat events .close).trans (List.append_nil _))
    have hopen : s.phase ≠ .closed := by rw [hphase]; decide
    have hsettled := h.settled
    rw [pendingTasks_of_ne hopen, h.untouched hopen, List.append_nil] at hsettled
    refine ⟨h.urls, h.cycle, h.routed, h.numbered, ?_, fun hne => absurd rfl hne⟩
    exact hsettled.trans (.of_eq (List.append_nil _).symm)

theorem tracks_of_run (h : events.foldlM perform (start workers) = some s) :
    Tracks workers events s :=
  foldlM_scan_some (P := fun done s => Tracks workers done s) (tracks_start workers)
    (fun _ _ _ _ _ _ htracks hperform => htracks.step hperform) h

end Runs

section Run

variable [DecidableEq β]

/-- However posts and records interleave, the posts are exactly those of the assignments
consumed, in that order, each a task of its own; at most `maxConcurrent` are under way,
they begin in order, and none waits while a permit is free. Each post has returned, is
pending, or was cancelled when the consumer, after its loop, had stopped. -/
theorem sidecar_dispatches {workers : Dict NodeId WorkerInfo} {events : List (SidecarEvent β)}
    {s : Sidecar β maxConcurrent} (h : events.foldlM perform (start workers) = some s) :
    s.posts.requested.map (fun p => (p.targetUrl, p.body)) = routes workers (assignmentsOf events) ∧
      s.posts.requested.map (·.task) = List.range s.posts.requested.length ∧
      s.posts.granted <+: s.posts.requested ∧ s.posts.holding.length ≤ maxConcurrent ∧
      (s.posts.waiting ≠ [] → s.posts.holding.length = maxConcurrent) ∧
      s.posts.requested.Perm (s.finished ++ s.cancelled ++ s.pendingTasks) ∧
      (s.phase ≠ .closed → s.cancelled = []) ∧ (s.phase = .closed → s.pendingTasks = []) := by
  have htracks := tracks_of_run h
  exact ⟨htracks.routed, htracks.numbered, s.posts.granted_prefix, s.posts.bounded, s.posts.busy,
    htracks.settled, htracks.untouched, fun hclosed => if_pos hclosed⟩

private def fallbackWorkers : Dict NodeId WorkerInfo :=
  .ofList ((["w2", "w1"].map fun n => (n, ⟨n, "d1", "eMBB", 4, s!"http://{n}", 0, 0⟩)) ++
    [("w0", ⟨"w0", "d1", "eMBB", 4, "", 0, 0⟩)])

private def fallbackEvents : List (SidecarEvent String) :=
  [.consume .sentinel, .consume (.assignment ⟨.missing, "a"⟩),
    .consume (.assignment ⟨.text "http://x", "b"⟩), .consume .undecodable,
    .consume (.assignment ⟨.other, "d"⟩), .consume (.assignment ⟨.text "", "c"⟩),
    .done ⟨0, "http://w1", "a"⟩, .consume .unreadable, .done ⟨1, "http://x", "b"⟩, .close]

/-- Two assignments fall back on the two workers that have a URL, and one has no URL but
another value. One post returns before the loop ends, one after, and one is cancelled. -/
theorem sidecar_dispatches_fallback :
    ∃ s : Sidecar String 1, fallbackEvents.foldlM perform (start fallbackWorkers) = some s ∧
      s.posts.requested.map (fun p => (p.targetUrl, p.body)) =
        [("http://w1", "a"), ("http://x", "b"), ("http://w2", "c")] ∧
      s.finished.length = 2 ∧ s.posts.requested.Perm (s.finished ++ s.cancelled ++ s.pendingTasks) := by
  have hrun : ∃ s : Sidecar String 1,
      fallbackEvents.foldlM perform (start fallbackWorkers) = some s ∧ s.finished.length = 2 ∧
        routes fallbackWorkers (assignmentsOf fallbackEvents) =
          [("http://w1", "a"), ("http://x", "b"), ("http://w2", "c")] := by decide +kernel
  obtain ⟨s, hs, hfinished, hroutes⟩ := hrun
  obtain ⟨hrouted, -, -, -, -, hsettled, -⟩ := sidecar_dispatches hs
  exact ⟨s, hs, hrouted.trans hroutes, hfinished, hsettled⟩

end Run
end Sidecar
end NeuralPubSub
