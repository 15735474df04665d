-- SUMMARY: The latencies that a pipeline trace reports, and that stage and network latencies add up to the time between the first start and the last end.
import NeuralPubSub.Base.Collect
import NeuralPubSub.Measurement.Harness
import Mathlib.Data.List.Sort
import Mathlib.Tactic.Ring

open Base

/-!
# Latencies of a trace

The metrics of `PipelineTrace` in `src/measurement/harness.py`. The first start and
the last end of a stage count; stages are ordered by their first start.
-/

namespace NeuralPubSub
namespace PipelineTrace

variable (trace : PipelineTrace)

/-! ## Metrics -/

/-- `_records_for_event`. -/
def recordsForEvent (event : TimestampEvent) : List TimestampRecord :=
  trace.timestamps.filter (·.event = event)

/-- `_first_ts`. -/
def firstTs (event : TimestampEvent) : Option ℚ :=
  (trace.recordsForEvent event).head?.map (·.timestamp)

/-- `_last_ts`. -/
def lastTs (event : TimestampEvent) : Option ℚ :=
  (trace.recordsForEvent event).getLast?.map (·.timestamp)

def endToEndLatencyMs : Option ℚ :=
  match trace.firstTs .created, trace.lastTs .delivered with
  | some tStart, some tEnd => some ((tEnd - tStart) * 1000)
  | _, _ => none

/-- `setdefault` on the start of the stage, or the overwriting of its end. -/
def noteStage (startsEnds : Dict StageId ℚ × Dict StageId ℚ) (r : TimestampRecord) :
    Dict StageId ℚ × Dict StageId ℚ :=
  let (starts, ends) := startsEnds
  match r.event with
  | .stageStart => (if r.stageId ∈ starts then starts else starts.insert r.stageId r.timestamp, ends)
  | .stageEnd => (starts, ends.insert r.stageId r.timestamp)
  | _ => (starts, ends)

/-- The first start and the last end of each stage, in one pass over the events. -/
def startsEnds : Dict StageId ℚ × Dict StageId ℚ :=
  trace.timestamps.foldl noteStage (.empty, .empty)

def starts : Dict StageId ℚ := trace.startsEnds.1

def ends : Dict StageId ℚ := trace.startsEnds.2

/-- `stage_latencies_ms`. -/
def stageLatenciesMs : Dict StageId ℚ :=
  Dict.collect id (fun sid => do
    let tStart ← trace.starts.get? sid
    let tEnd ← trace.ends.get? sid
    return (tEnd - tStart) * 1000) trace.starts.keys

/-- Stages in the order of their first start; ties keep the order of the events. -/
def orderedStages : List StageId :=
  trace.starts.keys.insertionSort fun s s' => trace.starts.getD s 0 ≤ trace.starts.getD s' 0

/-- `network_latencies_ms`. -/
def networkLatenciesMs : Dict (StageId × StageId) ℚ :=
  Dict.collect id (fun edge => do
    let tEnd ← trace.ends.get? edge.1
    let tStart ← trace.starts.get? edge.2
    return (tStart - tEnd) * 1000) (trace.orderedStages.zip trace.orderedStages.tail)

variable {trace}

/-- The stages with a start are those with a start event, and those with an end the ones
with an end event. -/
theorem mem_foldl_noteStage (l : List TimestampRecord) (acc : Dict StageId ℚ × Dict StageId ℚ)
    (sid : StageId) :
    (sid ∈ (l.foldl noteStage acc).1 ↔
      sid ∈ acc.1 ∨ ∃ r ∈ l, r.event = .stageStart ∧ r.stageId = sid) ∧
    (sid ∈ (l.foldl noteStage acc).2 ↔
      sid ∈ acc.2 ∨ ∃ r ∈ l, r.event = .stageEnd ∧ r.stageId = sid) := by
  induction l generalizing acc with
  | nil => simp
  | cons r l ih =>
    rw [List.foldl_cons, (ih _).1, (ih _).2]
    obtain ⟨starts, ends⟩ := acc
    unfold noteStage
    cases hevent : r.event with
    | stageStart =>
      have hstart : sid ∈ (if r.stageId ∈ starts then starts else starts.insert r.stageId r.timestamp) ↔
          sid ∈ starts ∨ r.stageId = sid := by
        split
        · next hmem =>
          refine ⟨.inl, fun hor => hor.elim id ?_⟩
          rintro rfl
          exact hmem
        · rw [Dict.mem_insert, or_comm, eq_comm]
      simp only [hstart, List.exists_mem_cons_iff, hevent, true_and, reduceCtorEq, false_and, false_or,
        or_assoc, and_self]
    | stageEnd =>
      have hend : sid ∈ ends.insert r.stageId r.timestamp ↔ sid ∈ ends ∨ r.stageId = sid := by
        rw [Dict.mem_insert, or_comm, eq_comm]
      simp only [hend, List.exists_mem_cons_iff, hevent, true_and, reduceCtorEq, false_and, false_or,
        or_assoc, and_self]
    | _ => simp [hevent]

theorem mem_starts {sid : StageId} : sid ∈ trace.starts ↔
    ∃ r ∈ trace.recordsForEvent .stageStart, r.stageId = sid := by
  have hfold := (mem_foldl_noteStage trace.timestamps (.empty, .empty) sid).1
  rw [starts, startsEnds, hfold]
  simp [recordsForEvent, and_assoc]

theorem mem_ends {sid : StageId} : sid ∈ trace.ends ↔
    ∃ r ∈ trace.recordsForEvent .stageEnd, r.stageId = sid := by
  have hfold := (mem_foldl_noteStage trace.timestamps (.empty, .empty) sid).2
  rw [ends, startsEnds, hfold]
  simp [recordsForEvent, and_assoc]

/-! ## Decomposition -/

/-- Every stage that has started has ended. -/
def Closed (trace : PipelineTrace) : Prop := ∀ sid ∈ trace.starts, sid ∈ trace.ends

theorem orderedStages_perm : trace.orderedStages.Perm trace.starts.keys :=
  List.perm_insertionSort _ _

theorem orderedStages_nodup : trace.orderedStages.Nodup :=
  orderedStages_perm.nodup_iff.mpr trace.starts.keys_nodup

/-- Neighbours of a list without repetitions are distinct pairs. -/
theorem nodup_zip_tail {l : List StageId} (h : l.Nodup) : ((l.zip l.tail).map id).Nodup := by
  rw [List.map_id]
  have hsnd : ((l.zip l.tail).map Prod.snd).Nodup := by
    rw [List.map_snd_zip (by simp)]
    exact h.sublist (List.tail_sublist l)
  exact List.Nodup.of_map _ hsnd

/-- The start of a stage in milliseconds. -/
private def startMs (trace : PipelineTrace) (sid : StageId) : ℚ := trace.starts.getD sid 0 * 1000

/-- The end of a stage in milliseconds. -/
private def endMs (trace : PipelineTrace) (sid : StageId) : ℚ := trace.ends.getD sid 0 * 1000

theorem get?_starts {sid : StageId} (h : sid ∈ trace.orderedStages) :
    trace.starts.get? sid = some (trace.starts.getD sid 0) := by
  obtain ⟨t, ht⟩ := Dict.exists_get?_of_mem (orderedStages_perm.mem_iff.mp h)
  rw [Dict.getD, ht]
  rfl

theorem Closed.get?_ends (hclosed : trace.Closed) {sid : StageId} (h : sid ∈ trace.orderedStages) :
    trace.ends.get? sid = some (trace.ends.getD sid 0) := by
  obtain ⟨t, ht⟩ := Dict.exists_get?_of_mem (hclosed sid (orderedStages_perm.mem_iff.mp h))
  rw [Dict.getD, ht]
  rfl

theorem values_stageLatenciesMs (h : trace.Closed) : trace.stageLatenciesMs.values =
    trace.starts.keys.map fun sid => endMs trace sid - startMs trace sid := by
  rw [stageLatenciesMs, Dict.values_collect (by simpa using trace.starts.keys_nodup),
    ← List.filterMap_eq_map]
  apply List.filterMap_congr
  intro sid hsid
  have hmem := orderedStages_perm.mem_iff.mpr hsid
  rw [get?_starts hmem, h.get?_ends hmem]
  simp [startMs, endMs, sub_mul]

theorem values_networkLatenciesMs (h : trace.Closed) : trace.networkLatenciesMs.values =
    (trace.orderedStages.zip trace.orderedStages.tail).map fun edge =>
      startMs trace edge.2 - endMs trace edge.1 := by
  rw [networkLatenciesMs, Dict.values_collect (nodup_zip_tail orderedStages_nodup),
    ← List.filterMap_eq_map]
  apply List.filterMap_congr
  rintro ⟨src, dst⟩ hedge
  obtain ⟨hsrc, hdst⟩ := List.of_mem_zip hedge
  rw [get?_starts (List.mem_of_mem_tail hdst), h.get?_ends hsrc]
  simp [startMs, endMs, sub_mul]

theorem Closed.mem_stageLatenciesMs (h : trace.Closed) {sid : StageId} (hsid : sid ∈ trace.starts) :
    sid ∈ trace.stageLatenciesMs := by
  have hmem := orderedStages_perm.mem_iff.mpr hsid
  rw [stageLatenciesMs, Dict.mem_collect (by simpa using trace.starts.keys_nodup)]
  refine ⟨sid, hsid, rfl, ?_⟩
  rw [get?_starts hmem, h.get?_ends hmem]
  rfl

/-- Compute time of the stages and time between them add up to the time from the start
of the first stage to the end of the last one. -/
theorem Closed.sum_latencies (h : trace.Closed) {first last : StageId}
    (hfirst : trace.orderedStages.head? = some first)
    (hlast : trace.orderedStages.getLast? = some last) :
    trace.stageLatenciesMs.values.sum + trace.networkLatenciesMs.values.sum =
      (trace.ends.getD last 0 - trace.starts.getD first 0) * 1000 := by
  rw [values_stageLatenciesMs h, values_networkLatenciesMs h,
    ← (orderedStages_perm.map _).sum_eq]
  obtain ⟨rest, hordered⟩ : ∃ rest, trace.orderedStages = first :: rest := by
    cases hstages : trace.orderedStages with
    | nil => simp [hstages] at hfirst
    | cons sid rest =>
      obtain rfl : sid = first := by simpa [hstages] using hfirst
      exact ⟨rest, rfl⟩
  have hend : (first :: rest).getLast (List.cons_ne_nil _ _) = last := by
    rw [hordered, List.getLast?_eq_getLast_of_ne_nil (List.cons_ne_nil _ _)] at hlast
    exact Option.some.inj hlast
  rw [hordered, List.tail_cons, sum_within_add_sum_between, hend, startMs, endMs, sub_mul]

end PipelineTrace
end NeuralPubSub
