-- SUMMARY: The workload generator: the payload that describes a DAG, and the accounts of a run with bounded concurrent publishes and a drain timeout.
import NeuralPubSub.Base.Semaphore
import NeuralPubSub.Pipeline.Patterns

open Base

/-!
# The workload generator

`WorkloadGenerator` of `src/workload/generator.py`. Each request is published by
a task of its own; a semaphore bounds how many of them talk to the broker, and the
tasks left over when the drain times out are cancelled.
-/

namespace NeuralPubSub

open PipelineDAG

/-! ## Requests -/

/-- `_TEMPLATES`, with the default number of sensors. -/
def workloadTemplate : String → Option (Except PyError PipelineDAG)
  | "cqi_prediction" => some cqiPredictionPipeline
  | "anomaly_detection" => some anomalyDetectionPipeline
  | "sensor_fusion" => some (sensorFusionPipeline 3)
  | "cqi_chain" => some cqiPredictionChain8stage
  | "anomaly_sp" => some ranAnomalyDetection8stage
  | "ran_entangled" => some ranIntelligenceSuite8stage
  | _ => none

/-- The keys of `_TEMPLATES`. -/
def workloadTypes : List String :=
  ["cqi_prediction", "anomaly_detection", "sensor_fusion", "cqi_chain", "anomaly_sp",
    "ran_entangled"]

/-- A stage as the publish body lists it. -/
structure PayloadStage where
  id : StageId
  stageType : String
  computationalDemand : ℚ
  outputDataRate : ℚ
  sliceRequirement : Option SliceId
  dataSovereigntyDomain : Option DomainId
  deriving DecidableEq, Repr

/-- The entry of `stages` for a stage, which has no `metadata`. -/
def Stage.toPayload (s : Stage) : PayloadStage where
  id := s.id
  stageType := s.stageType
  computationalDemand := s.computationalDemand
  outputDataRate := s.outputDataRate
  sliceRequirement := s.sliceRequirement
  dataSovereigntyDomain := s.dataSovereigntyDomain

/-- The stage that a receiver makes of an entry. -/
def PayloadStage.toStage (s : PayloadStage) : Stage where
  id := s.id
  stageType := s.stageType
  computationalDemand := s.computationalDemand
  outputDataRate := s.outputDataRate
  sliceRequirement := s.sliceRequirement
  dataSovereigntyDomain := s.dataSovereigntyDomain

def Stage.withoutMetadata (s : Stage) : Stage := { s with metadata := none }

@[simp] theorem toStage_toPayload (s : Stage) : s.toPayload.toStage = s.withoutMetadata := rfl

/-- The fields of the publish body that describe the pipeline. -/
structure PublishPayload where
  pipelineType : String
  stageIds : List StageId
  stages : List PayloadStage
  edges : List Edge

/-- The part of `_publish` that serialises the DAG of a request. -/
def publishPayload (pipelineType : String) (dag : PipelineDAG) : Except PyError PublishPayload := do
  let topoOrder ← dag.topologicalSort
  return { pipelineType := pipelineType, stageIds := topoOrder
           stages := dag.stages.values.map Stage.toPayload, edges := dag.edges }

/-- The stages that a payload describes. -/
def PublishPayload.listedStages (p : PublishPayload) : List Stage := p.stages.map PayloadStage.toStage

/-- The stages of a payload in the order of its `stage_ids`. -/
def PublishPayload.sortedStages (p : PublishPayload) : List Stage :=
  p.stageIds.filterMap fun sid => p.listedStages.find? (·.id = sid)

theorem sortedStages_perm {p : PublishPayload} (hnodup : (p.listedStages.map Stage.id).Nodup)
    (hperm : p.stageIds.Perm (p.listedStages.map Stage.id)) :
    p.sortedStages.Perm p.listedStages := by
  have hfind : ∀ s ∈ p.listedStages, (p.listedStages.find? fun s' => s'.id = s.id) = some s := by
    intro s hs
    obtain ⟨s', hs'⟩ := Option.isSome_iff_exists.mp
      (List.find?_isSome.mpr ⟨s, hs, by simp⟩ :
        (p.listedStages.find? fun s' => s'.id = s.id).isSome = true)
    have hid : s'.id = s.id := by simpa using List.find?_some hs'
    rw [hs', List.inj_on_of_nodup_map hnodup (List.mem_of_find?_eq_some hs') hs hid]
  have hall := hperm.filterMap fun sid => p.listedStages.find? fun s => s.id = sid
  rw [List.filterMap_map] at hall
  have hself : p.listedStages.filterMap
      ((fun sid => p.listedStages.find? fun s => s.id = sid) ∘ Stage.id) = p.listedStages :=
    (List.filterMap_congr hfind).trans List.filterMap_some
  rwa [hself] at hall

/-- The generator serialises every built DAG, and the DAG is rebuilt from the payload but
for the metadata: exactly from its stages, and with the same dependencies from its
sorted stages. -/
theorem publishPayload_spec {dag : PipelineDAG} (hbuilt : dag.Built)
    (hbudget : dag.valueBudget = none) (pipelineType : String) :
    ∃ payload, publishPayload pipelineType dag = .ok payload ∧
      payload.pipelineType = pipelineType ∧
      assemble payload.listedStages payload.edges = .ok (dag.mapStages Stage.withoutMetadata) ∧
      ∃ dag', assemble payload.sortedStages payload.edges = .ok dag' ∧ dag'.edges = dag.edges ∧
        dag'.successors = dag.successors ∧ dag'.predecessors = dag.predecessors ∧
        dag'.getEdge = dag.getEdge ∧
        ∀ sid, dag'.stage? sid = (dag.stage? sid).map Stage.withoutMetadata := by
  have hbare : (dag.mapStages Stage.withoutMetadata).Built := hbuilt.mapStages fun _ => rfl
  have hw := hbare.wellFormed
  obtain ⟨order, hsort, hperm, -⟩ := hbuilt.wellFormed.topologicalSort_eq
  let payload : PublishPayload :=
    { pipelineType := pipelineType, stageIds := order
      stages := dag.stages.values.map Stage.toPayload, edges := dag.edges }
  have hlisted : payload.listedStages = (dag.mapStages Stage.withoutMetadata).stages.values := by
    rw [mapStages, Dict.values_mapValues, PublishPayload.listedStages, List.map_map]
    rfl
  have hassemble : assemble payload.listedStages payload.edges =
      .ok (dag.mapStages Stage.withoutMetadata) := by
    rw [hlisted]
    exact hbare.assemble_eq hbudget
  have hdescribes : Describes payload.listedStages payload.edges := by
    rw [hlisted]
    exact hw.describes
  have horder : payload.stageIds.Perm (payload.listedStages.map Stage.id) := by
    rw [hlisted, hw.map_id_values, mapStages, Dict.keys_mapValues]
    exact hperm
  obtain ⟨dag', hdag', hedges, hsuccessors, hpredecessors, hedge, hstage⟩ :=
    hdescribes.assemble_perm (sortedStages_perm hdescribes.nodup horder) hassemble
  refine ⟨payload, by rw [publishPayload, hsort]; rfl, rfl, hassemble, dag', hdag', hedges,
    hsuccessors, hpredecessors, hedge, fun sid => ?_⟩
  rw [hstage, stage?_mapStages]

/-- For each template, the DAG that the broker builds from the type alone is the one
that the payload describes. -/
theorem buildDag_of_workloadTemplate {pipelineType : String}
    {template : Except PyError PipelineDAG} (h : workloadTemplate pipelineType = some template)
    (num : Numerals) : buildDag num pipelineType {} = template := by
  unfold workloadTemplate at h
  split at h <;> cases h <;> rfl

/-- Every template of the generator is serialised without an exception. The payload
describes the DAG that the broker builds for the request, but for the metadata of its
stages; and a receiver that adds the stages in the order of `stage_ids` gets the same
dependencies. -/
theorem publishPayload_agrees {pipelineType : String} {template : Except PyError PipelineDAG}
    (h : workloadTemplate pipelineType = some template) (num : Numerals) :
    ∃ dag payload, template = .ok dag ∧ publishPayload pipelineType dag = .ok payload ∧
      buildDag num payload.pipelineType {} = .ok dag ∧
      assemble payload.listedStages payload.edges = .ok (dag.mapStages Stage.withoutMetadata) ∧
      ∃ dag', assemble payload.sortedStages payload.edges = .ok dag' ∧ dag'.edges = dag.edges ∧
        dag'.successors = dag.successors ∧ dag'.predecessors = dag.predecessors ∧
        dag'.getEdge = dag.getEdge ∧
        ∀ sid, dag'.stage? sid = (dag.stage? sid).map Stage.withoutMetadata := by
  have hok : template.toOption.map (·.valueBudget) = some none := by
    unfold workloadTemplate at h
    split at h <;> cases h <;> decide +kernel
  obtain ⟨dag, hdag, hbudget⟩ := Option.map_eq_some_iff.mp hok
  obtain rfl : template = .ok dag := by
    cases template with
    | ok d => rw [← Option.some.inj hdag]
    | error e => cases hdag
  have hbuild := buildDag_of_workloadTemplate h num
  obtain ⟨payload, hpayload, htype, hassemble, hsorted⟩ :=
    publishPayload_spec (built_buildDag hbuild) hbudget pipelineType
  exact ⟨dag, payload, rfl, hpayload, by rw [htype, hbuild], hassemble, hsorted⟩

private def plainNumerals : Numerals where
  int s := .error s!"invalid literal for int() with base 10: '{s}'"
  float s := .error s!"could not convert string to float: '{s}'"

/-- The stages of this template carry metadata. -/
theorem publishPayload_agrees_chain :
    ∃ dag payload, cqiPredictionChain8stage = .ok dag ∧
      publishPayload "cqi_chain" dag = .ok payload ∧
      buildDag plainNumerals payload.pipelineType {} = .ok dag ∧
      assemble payload.listedStages payload.edges = .ok (dag.mapStages Stage.withoutMetadata) ∧
      ∃ dag', assemble payload.sortedStages payload.edges = .ok dag' ∧ dag'.edges = dag.edges ∧
        dag'.successors = dag.successors ∧ dag'.predecessors = dag.predecessors ∧
        dag'.getEdge = dag.getEdge ∧
        ∀ sid, dag'.stage? sid = (dag.stage? sid).map Stage.withoutMetadata :=
  publishPayload_agrees rfl plainNumerals

/-! ## Runs -/

structure WorkloadRequest where
  requestId : String
  pipelineType : String
  deriving DecidableEq

inductive GeneratorPhase where
  /-- The loop that generates requests. -/
  | generating
  /-- The wait for the publishes in flight. -/
  | draining
  | finished
  deriving DecidableEq

/-- `_MAX_CONCURRENT_PUBLISHES`. -/
abbrev maxConcurrentPublishes : Nat := 64

/-- A run of the generator, with what the broker has answered and what the drain
timeout has cancelled. -/
structure GeneratorRun where
  phase : GeneratorPhase := .generating
  totalGenerated : Nat := 0
  rejectedSubmissions : Nat := 0
  byType : Dict String Nat := .ofList (workloadTypes.map fun t => (t, 0))
  publishes : Semaphore WorkloadRequest maxConcurrentPublishes := .idle _ _
  answers : List (WorkloadRequest × Bool) := []
  cancelled : List WorkloadRequest := []
  deriving DecidableEq

inductive GeneratorEvent where
  /-- `generate_request`, and the task that publishes the request. -/
  | generate (request : WorkloadRequest)
  /-- A publish returns, with success or with an exception. -/
  | answer (request : WorkloadRequest) (accepted : Bool)
  | deadline
  /-- The last publish in flight is done. -/
  | drained
  | drainTimeout
  deriving DecidableEq

namespace GeneratorRun

/-- `_pending_tasks`. -/
def pendingTasks (s : GeneratorRun) : List WorkloadRequest :=
  match s.phase with
  | .generating | .draining => s.publishes.pending
  | .finished => []

/-- What an event does, if it can happen: `uuid4` returns no id twice, and a publish is
answered while it holds a permit. -/
def perform (s : GeneratorRun) : GeneratorEvent → Option GeneratorRun
  | .generate request =>
    if s.phase = .generating ∧ request.pipelineType ∈ workloadTypes ∧
        request.requestId ∉ s.publishes.requested.map (·.requestId) then
      some { s with
        totalGenerated := s.totalGenerated + 1
        byType := s.byType.insert request.pipelineType (s.byType.getD request.pipelineType 0 + 1)
        publishes := s.publishes.acquire request }
    else none
  | .answer request accepted =>
    if s.phase ≠ .finished ∧ request ∈ s.publishes.holding then
      some { s with
        rejectedSubmissions := if accepted then s.rejectedSubmissions else s.rejectedSubmissions + 1
        publishes := s.publishes.release request
        answers := s.answers ++ [(request, accepted)] }
    else none
  | .deadline => if s.phase = .generating then some { s with phase := .draining } else none
  | .drained =>
    if s.phase = .draining ∧ s.publishes.pending = [] then some { s with phase := .finished }
    else none
  | .drainTimeout =>
    if s.phase = .draining ∧ s.publishes.pending ≠ [] then
      some { s with phase := .finished, cancelled := s.publishes.pending }
    else none

/-- The states that a run of the generator can be in. -/
def Reachable (s : GeneratorRun) : Prop :=
  ∃ events : List GeneratorEvent, events.foldlM perform ({} : GeneratorRun) = some s

/-- The requests that the broker has answered with success. -/
def accepted (s : GeneratorRun) : List WorkloadRequest :=
  (s.answers.filter (·.2)).map Prod.fst

/-- The requests whose publish has raised. -/
def rejected (s : GeneratorRun) : List WorkloadRequest :=
  (s.answers.filter (!·.2)).map Prod.fst

/-! ## The accounts -/

structure Accounts (s : GeneratorRun) : Prop where
  total : s.totalGenerated = s.publishes.requested.length
  types : ∀ t, s.byType.getD t 0 = s.publishes.requested.countP (·.pipelineType = t)
  keys : s.byType.keys = workloadTypes
  known : ∀ r ∈ s.publishes.requested, r.pipelineType ∈ workloadTypes
  distinct : (s.publishes.requested.map (·.requestId)).Nodup
  rejections : s.rejectedSubmissions = s.rejected.length
  /-- Each request is answered, cancelled or pending. -/
  settled : s.publishes.requested.Perm
    (s.answers.map Prod.fst ++ s.cancelled ++ s.pendingTasks)
  running : s.phase ≠ .finished → s.cancelled = []

variable {s s' : GeneratorRun}

theorem pendingTasks_of_running (h : s.phase ≠ .finished) :
    s.pendingTasks = s.publishes.pending := by
  unfold pendingTasks
  cases hphase : s.phase with
  | generating | draining => rfl
  | finished => exact absurd hphase h

theorem accounts_initial : Accounts {} where
  total := rfl
  types t := by
    rw [Semaphore.idle, List.countP_nil]
    exact Dict.getD_ofList_const workloadTypes 0 t
  keys := Dict.keys_ofList_const (by decide) 0
  known := by simp [Semaphore.idle]
  distinct := by simp [Semaphore.idle]
  rejections := rfl
  settled := .refl _
  running _ := rfl

theorem rejected_concat (s : GeneratorRun) (r : WorkloadRequest) (accepted : Bool) :
    ((s.answers ++ [(r, accepted)]).filter (!·.2)).map Prod.fst =
      s.rejected ++ if accepted then [] else [r] := by
  cases accepted <;> simp [rejected]

theorem Accounts.generate (h : Accounts s) {r : WorkloadRequest}
    (hperform : s.perform (.generate r) = some s') : Accounts s' := by
  simp only [perform, Option.ite_none_right_eq_some, Option.some.injEq] at hperform
  obtain ⟨⟨hphase, htype, hnew⟩, rfl⟩ := hperform
  have hrunning : s.phase ≠ .finished := by rw [hphase]; decide
  constructor
  · simp [h.total]
  · intro t
    rw [Dict.getD_insert, Semaphore.requested_acquire, List.countP_append, h.types t]
    by_cases heq : t = r.pipelineType
    · simp [heq, h.types]
    · simp [heq, Ne.symm heq]
  · rw [Dict.keys_insert_of_mem _ (Dict.mem_iff_mem_keys.mpr (h.keys ▸ htype)), h.keys]
  · simp only [Semaphore.requested_acquire, List.mem_append, List.mem_singleton]
    rintro r' (hr' | rfl)
    · exact h.known r' hr'
    · exact htype
  · rw [Semaphore.requested_acquire, List.map_append]
    exact h.distinct.append (List.nodup_singleton _) (by simpa using hnew)
  · exact h.rejections
  · have hsettled := h.settled
    rw [pendingTasks_of_running hrunning] at hsettled
    rw [pendingTasks_of_running, Semaphore.requested_acquire, Semaphore.pending_acquire,
      ← List.append_assoc]
    · exact hsettled.append_right _
    · exact hrunning
  · exact h.running

theorem Accounts.answer (h : Accounts s) {r : WorkloadRequest} {accepted : Bool}
    (hperform : s.perform (.answer r accepted) = some s') : Accounts s' := by
  simp only [perform, Option.ite_none_right_eq_some, Option.some.injEq] at hperform
  obtain ⟨⟨hrunning, hheld⟩, rfl⟩ := hperform
  have hpending : r ∈ s.publishes.pending := List.mem_append_left _ hheld
  constructor
  · rw [Semaphore.requested_release, h.total]
  · rw [Semaphore.requested_release]
    exact h.types
  · exact h.keys
  · rw [Semaphore.requested_release]
    exact h.known
  · rw [Semaphore.requested_release]
    exact h.distinct
  · show _ = (List.map Prod.fst _).length
    rw [rejected_concat, List.length_append, ← h.rejections]
    cases accepted <;> rfl
  · have hsettled := h.settled
    rw [pendingTasks_of_running hrunning, h.running hrunning, List.append_nil] at hsettled
    rw [pendingTasks_of_running, Semaphore.requested_release, Semaphore.pending_release _ _ hheld,
      h.running hrunning, List.append_nil, List.map_append, List.append_assoc]
    · exact hsettled.trans ((List.perm_cons_erase hpending).append_left _)
    · exact hrunning
  · exact h.running

theorem Accounts.step (h : Accounts s) {event : GeneratorEvent}
    (hperform : s.perform event = some s') : Accounts s' := by
  cases event with
  | generate r => exact h.generate hperform
  | answer r accepted => exact h.answer hperform
  | deadline =>
    simp only [perform, Option.ite_none_right_eq_some, Option.some.injEq] at hperform
    obtain ⟨hphase, rfl⟩ := hperform
    have hrunning : s.phase ≠ .finished := by rw [hphase]; decide
    have hsettled := h.settled
    rw [pendingTasks_of_running hrunning] at hsettled
    exact { h with settled := hsettled, running := fun _ => h.running hrunning }
  | drained =>
    simp only [perform, Option.ite_none_right_eq_some, Option.some.injEq] at hperform
    obtain ⟨⟨hphase, hnone⟩, rfl⟩ := hperform
    have hsettled := h.settled
    rw [pendingTasks_of_running (by rw [hphase]; decide), hnone] at hsettled
    exact { h with settled := hsettled, running := fun hne => absurd rfl hne }
  | drainTimeout =>
    simp only [perform, Option.ite_none_right_eq_some, Option.some.injEq] at hperform
    obtain ⟨⟨hphase, -⟩, rfl⟩ := hperform
    have hrunning : s.phase ≠ .finished := by rw [hphase]; decide
    have hsettled := h.settled
    rw [pendingTasks_of_running hrunning, h.running hrunning, List.append_nil] at hsettled
    refine { h with settled := ?_, running := fun hne => absurd rfl hne }
    exact hsettled.trans (.of_eq (List.append_nil _).symm)

theorem accounts_of_reachable (h : Reachable s) : Accounts s := by
  obtain ⟨events, hrun⟩ := h
  exact foldlM_scan_some (P := fun _ s => Accounts s) accounts_initial
    (fun _ _ _ _ _ _ hacc hperform => hacc.step hperform) hrun

/-- Counting by type misses no request whose type is listed. -/
theorem sum_countP_type {types : List String} (hnodup : types.Nodup) {rs : List WorkloadRequest}
    (h : ∀ r ∈ rs, r.pipelineType ∈ types) :
    (types.map fun t => rs.countP (·.pipelineType = t)).sum = rs.length := by
  induction rs with
  | nil => simp
  | cons r rs ih =>
    have hcount : ∀ l : List String, (l.map fun t => if r.pipelineType = t then 1 else 0).sum =
        l.count r.pipelineType := by
      intro l
      induction l with
      | nil => rfl
      | cons t l ihl =>
        have hif : (if r.pipelineType = t then 1 else 0) =
            if (t == r.pipelineType) = true then 1 else 0 := by simp [@eq_comm _ t]
        rw [List.map_cons, List.sum_cons, ihl, List.count_cons, add_comm, hif]
    have hone := (hcount types).trans (List.count_eq_one_of_mem hnodup (h r List.mem_cons_self))
    have hrest := ih fun r' hr' => h r' (List.mem_cons_of_mem _ hr')
    simp only [List.countP_cons, List.sum_map_add, hrest, decide_eq_true_eq, hone, List.length_cons]

theorem answers_perm (s : GeneratorRun) :
    (s.answers.map Prod.fst).Perm (s.accepted ++ s.rejected) := by
  rw [accepted, rejected, ← List.map_append]
  exact ((List.filter_append_perm _ _).map _).symm

/-- However the publishes of a run interleave, at most 64 talk to the broker at once,
in the order of generation, and none waits while fewer than 64 do. Every generated request
is counted once under its type and is accepted, rejected, cancelled or still pending;
none is pending once the run has finished, and none is cancelled before. -/
theorem generatorRun_accounts (h : Reachable s) :
    s.publishes.holding.length ≤ maxConcurrentPublishes ∧
      s.publishes.granted <+: s.publishes.requested ∧
      (s.publishes.waiting ≠ [] → s.publishes.holding.length = maxConcurrentPublishes) ∧
      (s.publishes.pending ≠ [] → s.publishes.holding ≠ []) ∧
      (∀ t, s.byType.getD t 0 = s.publishes.requested.countP (·.pipelineType = t)) ∧
      s.byType.values.sum = s.totalGenerated ∧
      s.publishes.requested.Nodup ∧
      s.publishes.requested.Perm (s.accepted ++ s.rejected ++ s.cancelled ++ s.pendingTasks) ∧
      s.totalGenerated = s.accepted.length + s.rejectedSubmissions + s.cancelled.length +
        s.pendingTasks.length ∧
      (s.phase = .finished → s.pendingTasks = []) ∧ (s.phase ≠ .finished → s.cancelled = []) := by
  have hacc := accounts_of_reachable h
  have hperm : s.publishes.requested.Perm
      (s.accepted ++ s.rejected ++ s.cancelled ++ s.pendingTasks) :=
    hacc.settled.trans (((answers_perm s).append_right _).append_right _)
  have hvalues : s.byType.values.sum = s.totalGenerated := by
    rw [hacc.total, ← sum_countP_type (by decide) hacc.known, ← hacc.keys, Dict.values, Dict.keys,
      List.map_map]
    refine congrArg _ (List.map_congr_left fun e he => ?_)
    have hget := Dict.get?_eq_some_iff.mpr he
    rw [Function.comp_apply, ← hacc.types, Dict.getD, hget, Option.getD_some]
  refine ⟨s.publishes.bounded, s.publishes.granted_prefix, s.publishes.busy,
    s.publishes.exists_holding (by decide), hacc.types, hvalues, hacc.distinct.of_map _, hperm, ?_,
    ?_, hacc.running⟩
  · have hlen := hperm.length_eq
    simp only [List.length_append] at hlen
    rw [hacc.total, hacc.rejections, hlen]
  · intro hphase
    rw [pendingTasks, hphase]

private def drainedEvents : List GeneratorEvent :=
  [.generate ⟨"r1", "sensor_fusion"⟩, .generate ⟨"r2", "cqi_chain"⟩,
    .answer ⟨"r1", "sensor_fusion"⟩ false, .generate ⟨"r3", "cqi_chain"⟩, .deadline,
    .answer ⟨"r3", "cqi_chain"⟩ true, .drainTimeout]

/-- One request is rejected, one accepted, and one is in flight when the drain times out. -/
theorem generatorRun_accounts_drained : ∃ s, drainedEvents.foldlM perform ({} : GeneratorRun) = some s ∧
    s.phase = .finished ∧ s.byType.values.sum = s.totalGenerated ∧
    s.totalGenerated = s.accepted.length + s.rejectedSubmissions + s.cancelled.length +
      s.pendingTasks.length ∧
    s.pendingTasks = [] := by
  have hrun : ∃ s, drainedEvents.foldlM perform ({} : GeneratorRun) = some s ∧
      s.phase = .finished := by decide +kernel
  obtain ⟨s, hs, hphase⟩ := hrun
  obtain ⟨-, -, -, -, -, hsum, -, -, htotal, hdone, -⟩ := generatorRun_accounts ⟨drainedEvents, hs⟩
  exact ⟨s, hs, hphase, hsum, htotal, hdone hphase⟩

end GeneratorRun
end NeuralPubSub
