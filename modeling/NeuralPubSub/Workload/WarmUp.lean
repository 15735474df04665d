-- SUMMARY: The workload generator's warm-up tags, joined with the broker's metrics by pipeline id, and when they are right.
import NeuralPubSub.Broker.Base

open Base

/-!
# Warm-up tags

`WorkloadGenerator` of `src/workload/generator.py` remembers the requests that it
submits before the warm-up deadline, and tags the rows of the broker's metrics
once the run is over. The body it posts carries a `request_id`, which is no field
of the broker's `PublishRequest`: the broker draws an id of its own.
-/

namespace NeuralPubSub

/-- The fields of a generator that warm-up tagging reads. -/
structure WorkloadGenerator where
  warmupS : ℚ := 0
  runStart : ℚ := 0
  warmupPipelineIds : Finset String := ∅
  deriving DecidableEq

/-- The part of `run` that tracks requests submitted during the warm-up period. -/
def WorkloadGenerator.track (g : WorkloadGenerator) (requestId : String) (now : ℚ) :
    WorkloadGenerator :=
  let warmupDeadline := g.runStart + g.warmupS
  if g.warmupS > 0 ∧ now < warmupDeadline then
    { g with warmupPipelineIds := insert requestId g.warmupPipelineIds }
  else g

/-- The columns of the exported CSV that do not depend on the clock, and the `warmup`
column that tagging adds. -/
structure MetricsRow where
  pipelineId : PipelineId
  pipelineType : String
  success : Bool
  /-- The column `partial`. -/
  isPartial : Bool
  error : String
  warmup : Option Bool := none
  deriving DecidableEq

/-- `export_csv`: one row for each trace. -/
def MetricsCollector.exportCsv (m : MetricsCollector) : List MetricsRow :=
  m.traces.values.map fun t =>
    { pipelineId := t.pipelineId, pipelineType := t.pipelineType, success := t.success
      isPartial := t.isPartial, error := t.error.getD "" }

/-- `_tag_warmup_in_csv`. -/
def WorkloadGenerator.tagWarmupInCsv (g : WorkloadGenerator) (rows : List MetricsRow) :
    List MetricsRow :=
  rows.map fun row => { row with warmup := some (decide (row.pipelineId ∈ g.warmupPipelineIds)) }

/-! ## Traces -/

namespace MetricsCollector

/-- A trace carries the id that it is stored under. -/
def Named (m : MetricsCollector) : Prop :=
  ∀ pipelineId trace, m.traces.get? pipelineId = some trace → trace.pipelineId = pipelineId

variable {m : MetricsCollector}

theorem Named.getD (h : m.Named) {pipelineId : PipelineId} {default : PipelineTrace}
    (hdefault : default.pipelineId = pipelineId) :
    (m.traces.getD pipelineId default).pipelineId = pipelineId := by
  cases htrace : m.traces.get? pipelineId with
  | none => simpa [Dict.getD, htrace] using hdefault
  | some trace => simpa [Dict.getD, htrace] using h pipelineId trace htrace

theorem Named.insert (h : m.Named) {pipelineId : PipelineId} {trace : PipelineTrace}
    {completions : List Completion} (htrace : trace.pipelineId = pipelineId) :
    Named { traces := m.traces.insert pipelineId trace, completions := completions } := by
  intro pipelineId' trace' hget
  simp only [Dict.get?_insert] at hget
  split at hget
  · next heq =>
    rw [← Option.some.inj hget, heq]
    exact htrace
  · exact h pipelineId' trace' hget

theorem Named.record (h : m.Named) (r : TimestampRecord) : (m.record r).Named := by
  unfold MetricsCollector.record
  apply h.insert
  show (m.traces.getD r.pipelineId
    { pipelineId := r.pipelineId, pipelineType := r.pipelineType }).pipelineId = r.pipelineId
  exact h.getD rfl

theorem Named.completePipeline (h : m.Named) (c : Completion) : (m.completePipeline c).Named := by
  unfold MetricsCollector.completePipeline
  apply h.insert
  show (m.traces.getD c.pipelineId
    { pipelineId := c.pipelineId, pipelineType := "unknown" }).pipelineId = c.pipelineId
  exact h.getD rfl

theorem mem_traces_record (m : MetricsCollector) (r : TimestampRecord) (pipelineId : PipelineId) :
    pipelineId ∈ (m.record r).traces ↔ pipelineId = r.pipelineId ∨ pipelineId ∈ m.traces :=
  Dict.mem_insert ..

theorem mem_traces_completePipeline (m : MetricsCollector) (c : Completion)
    (pipelineId : PipelineId) :
    pipelineId ∈ (m.completePipeline c).traces ↔ pipelineId = c.pipelineId ∨ pipelineId ∈ m.traces :=
  Dict.mem_insert ..

/-- The pipelines with a row are those with a trace. -/
theorem Named.exists_row_iff (h : m.Named) (pipelineId : PipelineId) :
    (∃ row ∈ m.exportCsv, row.pipelineId = pipelineId) ↔ pipelineId ∈ m.traces := by
  rw [← Dict.get?_isSome_iff, Option.isSome_iff_exists]
  constructor
  · rintro ⟨row, hrow, rfl⟩
    obtain ⟨trace, htrace, rfl⟩ := List.mem_map.mp hrow
    obtain ⟨⟨key, trace⟩, he, rfl⟩ := List.mem_map.mp htrace
    have hget := Dict.get?_eq_some_iff.mpr he
    exact ⟨trace, by rw [show trace.pipelineId = key from h key trace hget]; exact hget⟩
  · rintro ⟨trace, hget⟩
    refine ⟨_, List.mem_map_of_mem (List.mem_map_of_mem (Dict.get?_eq_some_iff.mp hget)), ?_⟩
    exact h pipelineId trace hget

end MetricsCollector

/-! ## Runs -/

/-- A pipeline that the broker has accepted, and the request that it was created for. -/
structure AcceptedRequest where
  requestId : String
  pipelineId : PipelineId
  deriving DecidableEq

/-- The generator and the broker's metrics, with what has been submitted and accepted so far. -/
structure WorkloadRun where
  generator : WorkloadGenerator
  metrics : MetricsCollector := {}
  submitted : List (String × ℚ) := []
  accepted : List AcceptedRequest := []
  deriving DecidableEq

inductive WorkloadEvent where
  /-- The generator submits a request. -/
  | submit (requestId : String) (now : ℚ)
  /-- The broker accepts the pipeline of a request, whatever the generator learns of it. -/
  | accept (requestId : String) (req : PlacedPipeline) (now : ℚ)
  /-- The broker records an event of some pipeline. -/
  | record (r : TimestampRecord)
  | complete (c : Completion)
  deriving DecidableEq

namespace WorkloadRun

/-- What an event does, if it can happen: `uuid4` returns no id that has been used before. -/
def perform (cfg : BrokerConfig) (s : WorkloadRun) : WorkloadEvent → Option WorkloadRun
  | .submit requestId now =>
    if requestId ∉ s.submitted.map Prod.fst ∧ requestId ∉ s.accepted.map (·.pipelineId) then
      some { s with
        generator := s.generator.track requestId now
        submitted := s.submitted ++ [(requestId, now)] }
    else none
  | .accept requestId req now =>
    if requestId ∈ s.submitted.map Prod.fst ∧ req.pipelineId ∉ s.submitted.map Prod.fst ∧
        req.pipelineId ∉ s.accepted.map (·.pipelineId) then
      some { s with
        metrics := (s.metrics.record (pipelineRecord cfg req .created now)).record
          (pipelineRecord cfg req .placementComplete now)
        accepted := s.accepted ++ [⟨requestId, req.pipelineId⟩] }
    else none
  | .record r => some { s with metrics := s.metrics.record r }
  | .complete c => some { s with metrics := s.metrics.completePipeline c }

/-- The run so far is one of a generator with the given warm-up and start. -/
def Reachable (cfg : BrokerConfig) (warmupS runStart : ℚ) (s : WorkloadRun) : Prop :=
  ∃ events : List WorkloadEvent,
    events.foldlM (perform cfg) { generator := { warmupS := warmupS, runStart := runStart } } = some s

/-- The metrics file at the end of the run. -/
def csv (s : WorkloadRun) : List MetricsRow :=
  let rows := s.metrics.exportCsv
  if s.generator.warmupS > 0 ∧ s.generator.warmupPipelineIds ≠ ∅ then
    s.generator.tagWarmupInCsv rows
  else rows

/-- The request was submitted before the warm-up deadline. -/
def SubmittedInWarmUp (s : WorkloadRun) (requestId : String) : Prop :=
  ∃ r ∈ s.submitted, r.1 = requestId ∧ r.2 < s.generator.runStart + s.generator.warmupS

instance (s : WorkloadRun) (requestId : String) : Decidable (s.SubmittedInWarmUp requestId) :=
  inferInstanceAs (Decidable (∃ r ∈ _, _))

/-- Each accepted pipeline has its row, which is tagged exactly if its request was
submitted before the deadline. -/
def TagsWarmUp (s : WorkloadRun) : Prop :=
  ∀ a ∈ s.accepted, (∃ row ∈ s.csv, row.pipelineId = a.pipelineId) ∧
    ∀ row ∈ s.csv, row.pipelineId = a.pipelineId →
      (row.warmup = some true ↔ s.SubmittedInWarmUp a.requestId)

instance (s : WorkloadRun) : Decidable s.TagsWarmUp :=
  inferInstanceAs (Decidable (∀ a ∈ _, _ ∧ ∀ row ∈ _, _ → _))

/-! ## Invariant -/

variable {cfg : BrokerConfig} {warmupS runStart : ℚ} {s s' : WorkloadRun}

/-- The generator remembers ids of its own requests only, the broker accepts pipelines
under other ids, and each of them has a trace. -/
structure WarmUpInv (s : WorkloadRun) : Prop where
  remembered : ∀ requestId ∈ s.generator.warmupPipelineIds, requestId ∈ s.submitted.map Prod.fst
  apart : ∀ a ∈ s.accepted, a.pipelineId ∉ s.submitted.map Prod.fst
  traced : ∀ a ∈ s.accepted, a.pipelineId ∈ s.metrics.traces
  named : s.metrics.Named

namespace WarmUpInv

/-- Metrics are only added to. -/
theorem measured (h : WarmUpInv s) {m : MetricsCollector} (hnamed : m.Named)
    (hkept : ∀ pipelineId ∈ s.metrics.traces, pipelineId ∈ m.traces) :
    WarmUpInv { s with metrics := m } :=
  ⟨h.remembered, h.apart, fun a ha => hkept _ (h.traced a ha), hnamed⟩

theorem step {event : WorkloadEvent} (h : WarmUpInv s) (hperform : perform cfg s event = some s') :
    WarmUpInv s' := by
  cases event with
  | submit requestId now =>
    simp only [perform, Option.ite_none_right_eq_some, Option.some.injEq] at hperform
    obtain ⟨⟨-, hnew⟩, rfl⟩ := hperform
    constructor
    · intro x hx
      rw [List.map_append, List.mem_append]
      simp only [WorkloadGenerator.track] at hx
      split at hx
      · cases Finset.mem_insert.mp hx with
        | inl heq => exact .inr (by simp [heq])
        | inr hold => exact .inl (h.remembered x hold)
      · exact .inl (h.remembered x hx)
    · intro a ha
      rw [List.map_append, List.mem_append, not_or]
      refine ⟨h.apart a ha, fun hmem => hnew ?_⟩
      rw [← (by simpa using hmem : a.pipelineId = requestId)]
      exact List.mem_map_of_mem ha
    · exact h.traced
    · exact h.named
  | accept requestId req now =>
    simp only [perform, Option.ite_none_right_eq_some, Option.some.injEq] at hperform
    obtain ⟨⟨-, hnew, -⟩, rfl⟩ := hperform
    have hmeasured := h.measured (m := (s.metrics.record (pipelineRecord cfg req .created now)).record
      (pipelineRecord cfg req .placementComplete now)) ((h.named.record _).record _) fun x hx =>
        (MetricsCollector.mem_traces_record ..).mpr
          (.inr ((MetricsCollector.mem_traces_record ..).mpr (.inr hx)))
    refine ⟨hmeasured.remembered, fun a ha => ?_, fun a ha => ?_, hmeasured.named⟩
    · cases List.mem_append.mp ha with
      | inl hold => exact h.apart a hold
      | inr hlast =>
        obtain rfl := List.mem_singleton.mp hlast
        exact hnew
    · cases List.mem_append.mp ha with
      | inl hold => exact hmeasured.traced a hold
      | inr hlast =>
        obtain rfl := List.mem_singleton.mp hlast
        exact (MetricsCollector.mem_traces_record ..).mpr (.inl rfl)
  | record r =>
    obtain rfl := Option.some.inj hperform
    exact h.measured (h.named.record r) fun x hx =>
      (MetricsCollector.mem_traces_record ..).mpr (.inr hx)
  | complete c =>
    obtain rfl := Option.some.inj hperform
    exact h.measured (h.named.completePipeline c) fun x hx =>
      (MetricsCollector.mem_traces_completePipeline ..).mpr (.inr hx)

theorem reachable (h : Reachable cfg warmupS runStart s) : WarmUpInv s := by
  obtain ⟨events, hrun⟩ := h
  refine foldlM_scan_some (P := fun _ s => WarmUpInv s) ?_ ?_ hrun
  · constructor <;> simp [MetricsCollector.Named]
  · exact fun _ _ _ _ _ _ hinv hperform => hinv.step hperform

end WarmUpInv

/-! ## The join -/

/-- The file has the rows of the exported metrics, and no accepted pipeline is tagged. -/
theorem WarmUpInv.untagged (h : WarmUpInv s) {row : MetricsRow} (hrow : row ∈ s.csv)
    {a : AcceptedRequest} (ha : a ∈ s.accepted) (heq : row.pipelineId = a.pipelineId) :
    row.warmup ≠ some true := by
  unfold csv at hrow
  dsimp only at hrow
  split at hrow
  · obtain ⟨row', -, rfl⟩ := List.mem_map.mp hrow
    intro htag
    have hmem := of_decide_eq_true (Option.some.inj htag)
    exact h.apart a ha (heq ▸ h.remembered _ hmem)
  · obtain ⟨trace, -, rfl⟩ := List.mem_map.mp hrow
    simp

theorem exists_row_csv (pipelineId : PipelineId) :
    (∃ row ∈ s.csv, row.pipelineId = pipelineId) ↔
      ∃ row ∈ s.metrics.exportCsv, row.pipelineId = pipelineId := by
  unfold csv
  dsimp only
  split
  · simp [WorkloadGenerator.tagWarmupInCsv]
  · rfl

/-- In every run the tags are right exactly when no accepted pipeline was created by a
request of the warm-up period. -/
theorem tagsWarmUp_iff (h : Reachable cfg warmupS runStart s) :
    s.TagsWarmUp ↔ ∀ a ∈ s.accepted, ¬ s.SubmittedInWarmUp a.requestId := by
  have hinv := WarmUpInv.reachable h
  have hrow : ∀ a ∈ s.accepted, ∃ row ∈ s.csv, row.pipelineId = a.pipelineId := fun a ha =>
    (exists_row_csv _).mpr ((hinv.named.exists_row_iff _).mpr (hinv.traced a ha))
  constructor
  · intro htags a ha hwarm
    obtain ⟨row, hmem, heq⟩ := hrow a ha
    exact hinv.untagged hmem ha heq (((htags a ha).2 row hmem heq).mpr hwarm)
  · intro hnone a ha
    exact ⟨hrow a ha, fun row hmem heq =>
      iff_of_false (hinv.untagged hmem ha heq) (hnone a ha)⟩

private def warmConfig : BrokerConfig := { domainId := "d1", brokerId := "b1" }

/-- A request is accepted `submitted` seconds into a run with ten seconds of warm-up. -/
private def warmEvents (submitted : ℚ) : List WorkloadEvent :=
  [.submit "r1" submitted, .accept "r1" ⟨"p1", "chain", .empty none, .empty, ⟨[], .empty⟩⟩ 20,
    .complete ⟨"p1", true, none, false⟩]

/-- A run whose only pipeline was submitted after the deadline. -/
theorem tagsWarmUp_iff_late : ∃ s, (warmEvents 15).foldlM (perform warmConfig)
    { generator := { warmupS := 10 } } = some s ∧ s.TagsWarmUp ∧ s.accepted.length = 1 := by
  have hrun : ∃ s, (warmEvents 15).foldlM (perform warmConfig)
      { generator := { warmupS := 10 } } = some s ∧
      (∀ a ∈ s.accepted, ¬ s.SubmittedInWarmUp a.requestId) ∧ s.accepted.length = 1 := by
    decide +kernel
  obtain ⟨s, hs, hlate, hone⟩ := hrun
  exact ⟨s, hs, (tagsWarmUp_iff ⟨warmEvents 15, hs⟩).mpr hlate, hone⟩

/-- The pipeline of a warm-up request carries the broker's id and is not tagged. -/
theorem not_tagsWarmUp :
    ¬ ∀ (cfg : BrokerConfig) (warmupS runStart : ℚ) (s : WorkloadRun), 0 < warmupS →
      Reachable cfg warmupS runStart s → s.TagsWarmUp := by
  intro h
  have hrun : ∃ s, (warmEvents 5).foldlM (perform warmConfig)
      { generator := { warmupS := 10 } } = some s ∧ ¬ s.TagsWarmUp := by
    decide +kernel
  obtain ⟨s, hs, hwrong⟩ := hrun
  exact hwrong (h warmConfig 10 0 s (by norm_num) ⟨warmEvents 5, hs⟩)

end WorkloadRun
end NeuralPubSub
