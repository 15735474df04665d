-- SUMMARY: The load that a worker reports while stages start and finish, and when it is the demand of the running stages.
import NeuralPubSub.Broker.Models
import NeuralPubSub.Base.Scan

open Base

/-!
# Worker load

`execute_stage` of `src/worker/worker.py` around its two critical sections, and
the load that `/health` reports. Stages may start and finish in any order.
-/

namespace NeuralPubSub

/-- A stage execution request sent by the broker. -/
structure StageAssignment where
  pipelineId : PipelineId
  stageId : StageId
  computationalDemand : ℚ
  deriving DecidableEq, Repr

/-- A worker's capacity and load register, and the stages between the two critical
sections of `execute_stage`. -/
structure Worker where
  capacity : ℚ
  currentLoad : ℚ := 0
  running : List StageAssignment := []
  deriving DecidableEq, Repr

/-- The figures that `/health` reports. -/
structure WorkerHealth where
  capacity : ℚ
  currentLoad : ℚ
  deriving DecidableEq, Repr

inductive WorkerEvent where
  | start (assignment : StageAssignment)
  | finish (assignment : StageAssignment)
  deriving DecidableEq, Repr

namespace Worker

def health (w : Worker) : WorkerHealth := { capacity := w.capacity, currentLoad := w.currentLoad }

/-- The first critical section of `execute_stage`. -/
def startStage (w : Worker) (assignment : StageAssignment) : Worker :=
  { w with
    currentLoad := min (w.currentLoad + assignment.computationalDemand) w.capacity
    running := w.running ++ [assignment] }

/-- The second critical section, once the stage has run or failed. -/
def finishStage (w : Worker) (assignment : StageAssignment) : Worker :=
  { w with
    currentLoad := max (w.currentLoad - assignment.computationalDemand) 0
    running := w.running.erase assignment }

/-- What an event does; only a running stage can finish. -/
def perform (w : Worker) : WorkerEvent → Option Worker
  | .start assignment => some (w.startStage assignment)
  | .finish assignment =>
    if assignment ∈ w.running then some (w.finishStage assignment) else none

/-! ## The running stages -/

/-- The demand of the stages running at the moment. -/
def runningDemand (w : Worker) : ℚ := (w.running.map (·.computationalDemand)).sum

/-- The reported load is the demand of the running stages, as far as there is capacity. -/
def ReportsLoad (w : Worker) : Prop := w.health.currentLoad = min w.capacity w.runningDemand

instance (w : Worker) : Decidable w.ReportsLoad := inferInstanceAs (Decidable (_ = _))

/-- A stage that finishes does so while the running stages fit into the capacity, or it
makes no difference: it has no demand, it is the only one with a demand, or there is no
capacity at all. -/
def FinishesInTime (w : Worker) : WorkerEvent → Prop
  | .start _ => True
  | .finish assignment => w.runningDemand ≤ w.capacity ∨ 0 ≤ w.capacity ∧
      (assignment.computationalDemand = 0 ∨ assignment.computationalDemand = w.runningDemand ∨
        w.capacity = 0)

instance (w : Worker) : DecidablePred w.FinishesInTime
  | .start _ => isTrue trivial
  | .finish _ => inferInstanceAs (Decidable (_ ∨ _ ∧ _))

variable {w : Worker} {a : StageAssignment}

theorem runningDemand_startStage (w : Worker) (a : StageAssignment) :
    (w.startStage a).runningDemand = w.runningDemand + a.computationalDemand := by
  simp [runningDemand, startStage]

theorem runningDemand_finishStage (h : a ∈ w.running) :
    (w.finishStage a).runningDemand = w.runningDemand - a.computationalDemand := by
  have hperm := (List.perm_cons_erase h).map (·.computationalDemand)
  have hsum := hperm.sum_eq
  rw [List.map_cons, List.sum_cons] at hsum
  unfold runningDemand finishStage
  linarith

/-- The demand of one running stage is part of the whole. -/
theorem demand_le_runningDemand (hnonneg : ∀ b ∈ w.running, 0 ≤ b.computationalDemand)
    (h : a ∈ w.running) : a.computationalDemand ≤ w.runningDemand :=
  List.single_le_sum (by simpa using hnonneg) _ (List.mem_map_of_mem h)

/-! ## One step -/

/-- Adding below the cap and then cutting is cutting the sum. -/
theorem min_min_add {c s d : ℚ} (hd : 0 ≤ d) : min (min c s + d) c = min c (s + d) := by
  rcases le_total s c with h | h
  · rw [min_eq_right h, min_comm]
  · rw [min_eq_left h, min_eq_right (by linarith), min_eq_left (by linarith)]

/-- Subtracting from the cut sum is right as long as nothing has been cut off. -/
theorem max_min_sub_iff {c s d : ℚ} (hd : 0 ≤ d) (hle : d ≤ s) :
    max (min c s - d) 0 = min c (s - d) ↔ s ≤ c ∨ 0 ≤ c ∧ (d = 0 ∨ d = s ∨ c = 0) := by
  rcases le_or_gt s c with h | h
  · rw [min_eq_right h, max_eq_left (by linarith), min_eq_right (by linarith)]
    exact iff_of_true rfl (.inl h)
  · rw [min_eq_left h.le, or_iff_right h.not_ge]
    constructor
    · intro heq
      have hc : 0 ≤ c := by
        have hmax := le_max_right (c - d) 0
        have hmin := min_le_left c (s - d)
        linarith
      refine ⟨hc, ?_⟩
      rcases le_total c d with hcd | hcd
      · -- the register is empty, so there is no capacity or nothing else runs
        rw [max_eq_right (by linarith)] at heq
        rcases min_choice c (s - d) with hmin | hmin
        · exact .inr (.inr (by linarith))
        · exact .inr (.inl (by linarith))
      · rw [max_eq_left (by linarith)] at heq
        rcases min_choice c (s - d) with hmin | hmin
        · exact .inl (by linarith)
        · linarith
    · rintro ⟨hc, rfl | rfl | rfl⟩
      · rw [sub_zero, sub_zero, max_eq_left hc, min_eq_left h.le]
      · rw [sub_self, max_eq_right (by linarith), min_eq_right hc]
      · rw [max_eq_right (by linarith), min_eq_left (by linarith)]

/-- A start keeps the register in step with the running stages. -/
theorem reportsLoad_startStage (hdemand : 0 ≤ a.computationalDemand)
    (h : w.ReportsLoad ∨ w.currentLoad = 0 ∧ w.running = []) : (w.startStage a).ReportsLoad := by
  unfold ReportsLoad
  rw [runningDemand_startStage]
  show min (w.currentLoad + a.computationalDemand) w.capacity =
    min w.capacity (w.runningDemand + a.computationalDemand)
  cases h with
  | inl hreports =>
    rw [show w.currentLoad = min w.capacity w.runningDemand from hreports]
    exact min_min_add hdemand
  | inr hidle => rw [hidle.1, runningDemand, hidle.2, List.map_nil, List.sum_nil, min_comm]

/-- A finish keeps it in step exactly when it is in time. -/
theorem reportsLoad_finishStage_iff (hnonneg : ∀ b ∈ w.running, 0 ≤ b.computationalDemand)
    (ha : a ∈ w.running) (h : w.ReportsLoad) :
    (w.finishStage a).ReportsLoad ↔ w.FinishesInTime (.finish a) := by
  unfold ReportsLoad
  rw [runningDemand_finishStage ha]
  show max (w.currentLoad - a.computationalDemand) 0 =
    min w.capacity (w.runningDemand - a.computationalDemand) ↔ _
  rw [show w.currentLoad = min w.capacity w.runningDemand from h]
  exact max_min_sub_iff (hnonneg a ha) (demand_le_runningDemand hnonneg ha)

/-! ## Runs -/

/-- Where a worker may be in a run that has been right so far. -/
structure InStep (w : Worker) : Prop where
  nonneg : ∀ b ∈ w.running, 0 ≤ b.computationalDemand
  reports : w.ReportsLoad ∨ w.currentLoad = 0 ∧ w.running = []

theorem reportsLoad_iff_of_perform {w' : Worker} {event : WorkerEvent} (h : w.InStep)
    (hdemand : ∀ a, event = .start a → 0 ≤ a.computationalDemand)
    (hperform : w.perform event = some w') : w'.ReportsLoad ↔ w.FinishesInTime event := by
  cases event with
  | start a =>
    obtain rfl := Option.some.inj hperform
    exact iff_of_true (reportsLoad_startStage (hdemand a rfl) h.reports) trivial
  | finish a =>
    simp only [perform, Option.ite_none_right_eq_some, Option.some.injEq] at hperform
    obtain ⟨ha, rfl⟩ := hperform
    apply reportsLoad_finishStage_iff h.nonneg ha
    cases h.reports with
    | inl hreports => exact hreports
    | inr hidle =>
      rw [hidle.2] at ha
      cases ha

theorem nonneg_of_perform {w' : Worker} {event : WorkerEvent}
    (h : ∀ b ∈ w.running, 0 ≤ b.computationalDemand)
    (hdemand : ∀ a, event = .start a → 0 ≤ a.computationalDemand)
    (hperform : w.perform event = some w') : ∀ b ∈ w'.running, 0 ≤ b.computationalDemand := by
  intro b hb
  cases event with
  | start a =>
    obtain rfl := Option.some.inj hperform
    cases List.mem_append.mp hb with
    | inl hold => exact h b hold
    | inr hnew =>
      rw [List.mem_singleton.mp hnew]
      exact hdemand a rfl
  | finish a =>
    simp only [perform, Option.ite_none_right_eq_some, Option.some.injEq] at hperform
    obtain ⟨-, rfl⟩ := hperform
    exact h b (List.mem_of_mem_erase hb)

/-- For every capacity and every run of starts and finishes, the load is right after every
step exactly when every stage finishes in time. -/
theorem reportsLoad_iff (capacity : ℚ) (events : List WorkerEvent)
    (hdemand : ∀ a, .start a ∈ events → 0 ≤ a.computationalDemand)
    (hrun : events.foldlM perform { capacity := capacity } = some w) :
    (∀ pre event w', pre ++ [event] <+: events →
        (pre ++ [event]).foldlM perform { capacity := capacity } = some w' → w'.ReportsLoad) ↔
      ∀ pre event w', pre ++ [event] <+: events →
        pre.foldlM perform { capacity := capacity } = some w' → w'.FinishesInTime event := by
  refine foldlM_every_iff (R := InStep) ?_ ?_ ⟨by simp, .inr ⟨rfl, rfl⟩⟩ hrun
  · intro w event w' hevent h hperform
    exact reportsLoad_iff_of_perform h (fun a ha => hdemand a (ha ▸ hevent)) hperform
  · intro w event w' hevent h hperform hreports
    exact ⟨nonneg_of_perform h.nonneg (fun a ha => hdemand a (ha ▸ hevent)) hperform,
      .inl hreports⟩

private def workerStage (stageId : StageId) (demand : ℚ) : StageAssignment :=
  { pipelineId := "p", stageId := stageId, computationalDemand := demand }

/-- Two stages that overlap. -/
private def overlap (demand : ℚ) : List WorkerEvent :=
  [.start (workerStage "a" demand), .start (workerStage "b" demand),
    .finish (workerStage "a" demand), .finish (workerStage "b" demand)]

private theorem mem_overlap {demand : ℚ} {a : StageAssignment} (h : .start a ∈ overlap demand) :
    a.computationalDemand = demand := by
  simp only [overlap, List.mem_cons, WorkerEvent.start.injEq, List.not_mem_nil, reduceCtorEq,
    or_false] at h
  rcases h with rfl | rfl <;> rfl

/-- Together they fit into the capacity. -/
theorem reportsLoad_iff_single :
    ∃ w, ((overlap (2 / 5)).take 3).foldlM perform { capacity := 1 } = some w ∧ w.ReportsLoad ∧
      w.health.currentLoad = 2 / 5 := by
  have hruns : ((overlap (2 / 5)).foldlM perform { capacity := 1 }).isSome = true := by decide +kernel
  have hstep : ∃ w, ((overlap (2 / 5)).take 3).foldlM perform { capacity := 1 } = some w ∧
      w.health.currentLoad = 2 / 5 := by decide +kernel
  have hchecks : ∀ i (hi : i < (overlap (2 / 5)).length), ∀ v ∈ ((overlap (2 / 5)).take i).foldlM
      perform { capacity := 1 }, v.FinishesInTime ((overlap (2 / 5)).get ⟨i, hi⟩) := by decide +kernel
  obtain ⟨_, hrun⟩ := Option.isSome_iff_exists.mp hruns
  obtain ⟨w, hw, hload⟩ := hstep
  refine ⟨w, hw, ?_, hload⟩
  refine (reportsLoad_iff 1 (overlap (2 / 5)) (fun a ha => ?_) hrun).mpr ?_
    ((overlap (2 / 5)).take 2) (.finish (workerStage "a" (2 / 5))) w ⟨[_], rfl⟩ hw
  · rw [mem_overlap ha]
    norm_num
  · intro pre event v hpre hv
    obtain ⟨rest, hsplit⟩ := hpre
    have hlt : pre.length < (overlap (2 / 5)).length := by simp [← hsplit]
    have htake : (overlap (2 / 5)).take pre.length = pre := by simp [← hsplit]
    have hcheck := hchecks pre.length hlt v (by rw [htake]; exact hv)
    rwa [show (overlap (2 / 5)).get ⟨pre.length, hlt⟩ = event by simp [← hsplit]] at hcheck

/-- Two stages of 0.8 overlap on a worker with capacity 1; when the first one finishes the
worker reports 0.2 while the second one still runs. -/
theorem not_reportsLoad :
    ¬ ∀ (capacity : ℚ) (events : List WorkerEvent),
      (∀ a, .start a ∈ events → 0 ≤ a.computationalDemand) →
      ∀ pre event w, pre ++ [event] <+: events →
        (pre ++ [event]).foldlM perform { capacity := capacity } = some w → w.ReportsLoad := by
  intro h
  have hrun : ∃ w, ((overlap (4 / 5)).take 3).foldlM perform { capacity := 1 } = some w ∧
      w.health.currentLoad = 1 / 5 ∧ ¬ w.ReportsLoad := by decide +kernel
  obtain ⟨w, hw, -, hwrong⟩ := hrun
  refine hwrong (h 1 (overlap (4 / 5)) (fun a ha => ?_) ((overlap (4 / 5)).take 2)
    (.finish (workerStage "a" (4 / 5))) w ⟨[_], rfl⟩ hw)
  rw [mem_overlap ha]
  norm_num

end Worker
end NeuralPubSub
