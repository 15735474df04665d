-- SUMMARY: The pipeline templates of `patterns.py` and the factories of the publish endpoint: every accepted request gives a sound DAG, all but one kind a tree.
import NeuralPubSub.Pipeline.Assembly

open Base

/-!
# Pipeline templates

The factory functions of `src/pipeline/patterns.py` and the registry of factories
in `src/broker/base.py`. A factory adds its stages and then its edges, so each
template is given by two lists.
-/

namespace NeuralPubSub

open PipelineDAG

/-! ## Templates -/

/-- `f"{stem}{i}"` for each `i` in `range(n)`. -/
def numbered (stem : String) (n : Nat) : List StageId := (List.range n).map fun i => s!"{stem}{i}"

def mapPipeline (stageType : String) (nStages : Int) (computationalDemand : ℚ := 1 / 2)
    (outputDataRate : ℚ := 5) (latencyBound : ℚ := 10) (sliceRequirement : Option SliceId := none) :
    Except PyError PipelineDAG :=
  if nStages < 1 then .error (.value "n_stages must be >= 1.")
  else
    let stageIds := numbered "map_" nStages.toNat
    assemble
      (stageIds.map fun sid =>
        { id := sid, stageType := stageType, computationalDemand := computationalDemand
          outputDataRate := outputDataRate, sliceRequirement := sliceRequirement })
      ((stageIds.zip stageIds.tail).map fun p => ⟨p.1, p.2, latencyBound⟩)

def funnelPipeline (nInputs : Int) (inputType : String := "ingest") (inputDemand : ℚ := 3 / 10)
    (inputDataRate : ℚ := 8) (aggDemand : ℚ := 3 / 5) (aggDataRate : ℚ := 2)
    (outputDemand : ℚ := 1 / 5) (outputDataRate : ℚ := 1) (latencyBoundIn : ℚ := 10)
    (latencyBoundOut : ℚ := 5) (sliceRequirement : Option SliceId := none) :
    Except PyError PipelineDAG :=
  if nInputs < 1 then .error (.value "n_inputs must be >= 1.")
  else
    let inputs := numbered "input_" nInputs.toNat
    assemble
      (inputs.map (fun sid =>
          { id := sid, stageType := inputType, computationalDemand := inputDemand
            outputDataRate := inputDataRate, sliceRequirement := sliceRequirement }) ++
        [{ id := "aggregate", stageType := "aggregate", computationalDemand := aggDemand
           outputDataRate := aggDataRate, sliceRequirement := sliceRequirement },
         { id := "output", stageType := "output", computationalDemand := outputDemand
           outputDataRate := outputDataRate, sliceRequirement := sliceRequirement }])
      (inputs.map (fun sid => ⟨sid, "aggregate", latencyBoundIn⟩) ++
        [⟨"aggregate", "output", latencyBoundOut⟩])

def cqiPredictionPipeline : Except PyError PipelineDAG :=
  assemble
    [⟨"collect", "collect", 1 / 10, 50, some "URLLC", some "__local__", none⟩,
     ⟨"feature_extract", "feature_extract", 2 / 5, 5, some "URLLC", none, none⟩,
     ⟨"predict", "predict", 7 / 10, 1 / 10, some "URLLC", none, none⟩]
    [⟨"collect", "feature_extract", 2⟩, ⟨"feature_extract", "predict", 3⟩]

def anomalyDetectionPipeline : Except PyError PipelineDAG :=
  assemble
    [⟨"collect", "collect", 1 / 10, 20, some "eMBB", none, none⟩,
     ⟨"feature_extract", "feature_extract", 3 / 10, 10, some "eMBB", none, none⟩,
     ⟨"detect", "detect", 4 / 5, 1, some "eMBB", none, none⟩]
    [⟨"collect", "feature_extract", 5⟩, ⟨"feature_extract", "detect", 10⟩]

def sensorFusionPipeline (nSensors : Int) : Except PyError PipelineDAG :=
  if nSensors < 1 then .error (.value "n_sensors must be >= 1.")
  else
    let sensors := numbered "sensor_" nSensors.toNat
    assemble
      (sensors.map (fun sid =>
          { id := sid, stageType := "sensor", computationalDemand := 3 / 20
            outputDataRate := 12 }) ++
        -- the demand of the fusion stage scales with its inputs
        [{ id := "fuse", stageType := "fuse", computationalDemand := 1 / 2 + 1 / 20 * nSensors
           outputDataRate := 3 },
         { id := "decide", stageType := "decide", computationalDemand := 3 / 5
           outputDataRate := 1 / 2 }])
      (sensors.map (fun sid => ⟨sid, "fuse", 8⟩) ++ [⟨"fuse", "decide", 5⟩])

/-- `Stage(sid, stype, demand, rate, metadata={"domain": domain})`. -/
def oranStage (stageId : StageId) (stageType : String) (demand rate : ℚ) (domain : String) : Stage :=
  { id := stageId, stageType := stageType, computationalDemand := demand, outputDataRate := rate
    metadata := some (.ofList [("domain", domain)]) }

def cqiPredictionChain8stage : Except PyError PipelineDAG :=
  assemble
    [oranStage "du_raw_cqi" "data_collect" (1 / 10) 5 "DU",
     oranStage "du_denoise" "preprocess" (1 / 5) 4 "DU",
     oranStage "cu_normalize" "preprocess" (1 / 5) 3 "CU",
     oranStage "cu_feature_ext" "feature_extract" (3 / 10) 2 "CU",
     oranStage "ric_predict" "predict" (2 / 5) 1 "near-RT-RIC",
     oranStage "ric_validate" "predict" (1 / 5) 1 "near-RT-RIC",
     oranStage "nrt_aggregate" "aggregate" (1 / 5) 1 "non-RT-RIC",
     oranStage "smo_report" "report" (1 / 10) (1 / 2) "SMO"]
    [⟨"du_raw_cqi", "du_denoise", 50⟩, ⟨"du_denoise", "cu_normalize", 20⟩,
     ⟨"cu_normalize", "cu_feature_ext", 10⟩, ⟨"cu_feature_ext", "ric_predict", 20⟩,
     ⟨"ric_predict", "ric_validate", 10⟩, ⟨"ric_validate", "nrt_aggregate", 30⟩,
     ⟨"nrt_aggregate", "smo_report", 20⟩]

def ranAnomalyDetection8stage : Except PyError PipelineDAG :=
  assemble
    [oranStage "du_metrics" "data_collect" (1 / 10) 5 "DU",
     oranStage "du_rf_meas" "data_collect" (1 / 10) 5 "DU",
     oranStage "cu_cp_signaling" "data_collect" (1 / 10) 3 "CU",
     oranStage "cu_up_traffic" "data_collect" (1 / 10) 3 "CU",
     oranStage "ric_fuse" "fuse" (3 / 10) 2 "near-RT-RIC",
     oranStage "ric_classify" "detect" (2 / 5) 1 "near-RT-RIC",
     oranStage "nrt_alert" "aggregate" (1 / 5) 1 "non-RT-RIC",
     oranStage "smo_log" "report" (1 / 10) (1 / 2) "SMO"]
    (["du_metrics", "du_rf_meas", "cu_cp_signaling", "cu_up_traffic"].map
        (fun src => ⟨src, "ric_fuse", 20⟩) ++
      [⟨"ric_fuse", "ric_classify", 10⟩, ⟨"ric_classify", "nrt_alert", 30⟩,
       ⟨"nrt_alert", "smo_log", 20⟩])

def ranIntelligenceSuite8stage : Except PyError PipelineDAG :=
  assemble
    [oranStage "du_raw_cqi" "data_collect" (1 / 10) 5 "DU",
     oranStage "du_ue_mobility" "data_collect" (1 / 10) 2 "DU",
     oranStage "cu_feature_extract" "feature_extract" (3 / 10) 2 "CU",
     oranStage "cu_cell_load" "data_collect" (1 / 10) 3 "CU",
     oranStage "cu_load_normalize" "preprocess" (1 / 5) 2 "CU",
     oranStage "ric_cqi_predict" "predict" (2 / 5) 1 "near-RT-RIC",
     oranStage "ric_anomaly_detect" "detect" (3 / 10) 1 "near-RT-RIC",
     oranStage "ric_mobility_predict" "predict" (2 / 5) 1 "near-RT-RIC"]
    [⟨"du_raw_cqi", "cu_feature_extract", 50⟩, ⟨"cu_cell_load", "cu_load_normalize", 10⟩,
     ⟨"du_ue_mobility", "ric_mobility_predict", 50⟩,
     ⟨"cu_feature_extract", "ric_cqi_predict", 20⟩,
     ⟨"cu_feature_extract", "ric_anomaly_detect", 20⟩,
     ⟨"cu_load_normalize", "ric_anomaly_detect", 20⟩,
     ⟨"cu_load_normalize", "ric_cqi_predict", 30⟩,
     ⟨"ric_mobility_predict", "ric_cqi_predict", 30⟩,
     ⟨"ric_mobility_predict", "ric_anomaly_detect", 30⟩,
     ⟨"cu_cell_load", "cu_feature_extract", 50⟩]

/-! ## The config of a request -/

/-- A JSON value in the config of a publish request. -/
inductive ConfigValue where
  | null
  | bool (b : Bool)
  | int (n : Int)
  | float (q : ℚ)
  | infinity (negative : Bool)
  | nan
  | text (s : String)
  | list (json : String)
  | object (json : String)
  deriving DecidableEq, Repr

namespace ConfigValue

/-- `type(x).__name__`. -/
def typeName : ConfigValue → String
  | null => "NoneType"
  | bool _ => "bool"
  | int _ => "int"
  | float _ | infinity _ | nan => "float"
  | text _ => "str"
  | list _ => "list"
  | object _ => "dict"

def isFinite : ConfigValue → Bool
  | infinity _ | nan => false
  | null | bool _ | int _ | float _ | text _ | list _ | object _ => true

/-- `int` reads the value, or finds no number in it. -/
def isInt : ConfigValue → Bool
  | null | infinity _ | list _ | object _ => false
  | bool _ | int _ | float _ | nan | text _ => true

/-- The integers from here on are no floats. -/
def floatLimit : Nat := 2 ^ 1024 - 2 ^ 970

/-- `float` reads the value, or finds no number in it. -/
def isFloat : ConfigValue → Bool
  | null | list _ | object _ => false
  | int n => n.natAbs < floatLimit
  | bool _ | float _ | infinity _ | nan | text _ => true

end ConfigValue

/-- A value under a key that becomes a demand, a rate or a bound: no infinity and no NaN. -/
abbrev FiniteValue := { v : ConfigValue // v.isFinite = true }

/-- What `int` and `float` read in a text, or the text of their `ValueError`; a text that
spells an infinity or a NaN is none that `float` is asked about. -/
structure Numerals where
  int : String → Except String Int
  float : String → Except String ℚ

/-- `int(x)`, which truncates a float. -/
def Numerals.toInt (num : Numerals) (v : ConfigValue) : Except PyError Int :=
  match v with
  | .bool b => .ok b.toInt
  | .int n => .ok n
  | .float q => .ok (if 0 ≤ q then ⌊q⌋ else ⌈q⌉)
  | .infinity _ => .error (.overflow "cannot convert float infinity to integer")
  | .nan => .error (.value "cannot convert float NaN to integer")
  | .text s => (num.int s).mapError .value
  | .null | .list _ | .object _ =>
    .error (.type ("int() argument must be a string, a bytes-like object or a real number, " ++
      s!"not '{v.typeName}'"))

/-- `float(x)`. -/
def Numerals.toFloat (num : Numerals) (v : FiniteValue) : Except PyError ℚ :=
  match v with
  | ⟨.bool b, _⟩ => .ok b.toInt
  | ⟨.int n, _⟩ =>
    if n.natAbs < ConfigValue.floatLimit then .ok n
    else .error (.overflow "int too large to convert to float")
  | ⟨.float q, _⟩ => .ok q
  | ⟨.text s, _⟩ => (num.float s).mapError .value
  | ⟨v@.null, _⟩ | ⟨v@(.list _), _⟩ | ⟨v@(.object _), _⟩ =>
    .error (.type s!"float() argument must be a string or a real number, not '{v.typeName}'")

/-- The keys of the config of a publish request that the factories and the publish
handler read. -/
structure PublishConfig where
  nSensors : Option ConfigValue := none
  stageType : Option String := none
  nStages : Option ConfigValue := none
  computationalDemand : Option FiniteValue := none
  outputDataRate : Option FiniteValue := none
  latencyBound : Option FiniteValue := none
  sliceRequirement : Option SliceId := none
  nInputs : Option ConfigValue := none
  inputType : Option String := none
  latencyBoundIn : Option FiniteValue := none
  latencyBoundOut : Option FiniteValue := none
  /-- The key `__forwarded_from`. -/
  forwardedFrom : Option ConfigValue := none
  deriving DecidableEq

namespace PublishConfig

/-- `config.get("__forwarded_from") is not None`. -/
def IsForwarded (config : PublishConfig) : Prop :=
  config.forwardedFrom.any (· ≠ .null) = true

instance (config : PublishConfig) : Decidable config.IsForwarded :=
  inferInstanceAs (Decidable (_ = true))

/-- What stands under the keys that are read as numbers is a number or a text. -/
structure Numeric (config : PublishConfig) : Prop where
  ints : ∀ v, some v ∈ [config.nSensors, config.nStages, config.nInputs] → v.isInt = true
  floats : ∀ v, some v ∈ [config.computationalDemand, config.outputDataRate, config.latencyBound,
    config.latencyBoundIn, config.latencyBoundOut] → v.val.isFloat = true

end PublishConfig

/-! ## Factories -/

/-- The keys of `_PIPELINE_FACTORIES`. -/
def registeredTypes : List String :=
  ["cqi_prediction", "anomaly_detection", "sensor_fusion", "map", "funnel", "cqi_chain",
    "anomaly_sp", "ran_entangled"]

/-- The factory that `_PIPELINE_FACTORIES` has for a type. -/
def pipelineFactory (num : Numerals) : String → Option (PublishConfig → Except PyError PipelineDAG)
  | "cqi_prediction" => some fun _ => cqiPredictionPipeline
  | "anomaly_detection" => some fun _ => anomalyDetectionPipeline
  | "sensor_fusion" => some fun cfg => do
    sensorFusionPipeline (← num.toInt (cfg.nSensors.getD (.int 3)))
  | "map" => some fun cfg => do
    let nStages ← num.toInt (cfg.nStages.getD (.int 3))
    let computationalDemand ← num.toFloat (cfg.computationalDemand.getD ⟨.float (1 / 2), rfl⟩)
    let outputDataRate ← num.toFloat (cfg.outputDataRate.getD ⟨.float 5, rfl⟩)
    let latencyBound ← num.toFloat (cfg.latencyBound.getD ⟨.float 10, rfl⟩)
    mapPipeline (cfg.stageType.getD "transform") nStages computationalDemand outputDataRate
      latencyBound cfg.sliceRequirement
  | "funnel" => some fun cfg => do
    let nInputs ← num.toInt (cfg.nInputs.getD (.int 3))
    let latencyBoundIn ← num.toFloat (cfg.latencyBoundIn.getD ⟨.float 10, rfl⟩)
    let latencyBoundOut ← num.toFloat (cfg.latencyBoundOut.getD ⟨.float 5, rfl⟩)
    funnelPipeline nInputs (cfg.inputType.getD "ingest") (3 / 10) 8 (3 / 5) 2 (1 / 5) 1
      latencyBoundIn latencyBoundOut
  | "cqi_chain" => some fun _ => cqiPredictionChain8stage
  | "anomaly_sp" => some fun _ => ranAnomalyDetection8stage
  | "ran_entangled" => some fun _ => ranIntelligenceSuite8stage
  | _ => none

/-- `_build_dag`. -/
def buildDag (num : Numerals) (pipelineType : String) (config : PublishConfig) :
    Except PyError PipelineDAG :=
  match pipelineFactory num pipelineType with
  | some factory => factory config
  | none =>
    let names := ", ".intercalate ((registeredTypes.insertionSort (· ≤ ·)).map fun t => s!"'{t}'")
    .error (.value (s!"Unknown pipeline_type '{pipelineType}'. " ++
      s!"Registered types: [{names}]."))

/-! ## Names -/

theorem numbered_nodup (stem : String) (n : Nat) : (numbered stem n).Nodup := by
  refine List.nodup_range.map fun i j h => ?_
  exact Nat.repr_injective ((String.append_right_inj stem).mp h)

@[simp] theorem length_numbered (stem : String) (n : Nat) : (numbered stem n).length = n := by
  simp [numbered]

theorem not_mem_numbered {stem name : String} (h : ¬ stem.toList <+: name.toList) (n : Nat) :
    name ∉ numbered stem n := by
  intro hmem
  obtain ⟨i, -, rfl⟩ := List.mem_map.mp hmem
  refine h ⟨(toString i).toList, ?_⟩
  exact String.toList_append.symm

theorem nodup_numbered_append {stem hub sink : String} (hhub : ¬ stem.toList <+: hub.toList)
    (hsink : ¬ stem.toList <+: sink.toList) (hne : hub ≠ sink) (n : Nat) :
    (numbered stem n ++ [hub, sink]).Nodup := by
  refine List.nodup_append.mpr ⟨numbered_nodup stem n, by simpa using hne, ?_⟩
  rintro sid hsid _ hlast rfl
  rcases List.mem_pair.mp hlast with rfl | rfl
  · exact not_mem_numbered hhub n hsid
  · exact not_mem_numbered hsink n hsid

/-! ## Shapes -/

section Shapes

variable {stages : List Stage} {edges : List Edge}

/-- Edges that all lead forward in one order of the stages form no cycle. -/
theorem not_hasCycle_of_order (order : List StageId)
    (h : ∀ e ∈ edges, order.idxOf e.sourceId < order.idxOf e.targetId) : ¬ HasCycle edges := by
  rintro ⟨v, hv⟩
  have hlt : ∀ a b, Relation.TransGen (Joined edges) a b → order.idxOf a < order.idxOf b := by
    intro a b hab
    induction hab with
    | single hab =>
      obtain ⟨e, he, rfl, rfl⟩ := hab
      exact h e he
    | tail _ hbc ih =>
      obtain ⟨e, he, rfl, rfl⟩ := hbc
      exact ih.trans (h e he)
  exact lt_irrefl _ (hlt v v hv)

/-- A list of stages and edges in which every stage but one is the source of one edge. -/
structure TreeShaped (stages : List Stage) (edges : List Edge) : Prop
    extends Describes stages edges where
  sources : ∃ sink : StageId, (edges.map Edge.sourceId ++ [sink]).Perm (stages.map Stage.id)

theorem TreeShaped.nodup_sources (h : TreeShaped stages edges) :
    (edges.map (·.sourceId)).Nodup := by
  obtain ⟨sink, hperm⟩ := h.sources
  exact (List.nodup_append.mp (hperm.nodup_iff.mpr h.nodup)).1

theorem TreeShaped.isTree (h : TreeShaped stages edges) {d : PipelineDAG}
    (hd : assemble stages edges = .ok d) : d.isTree = true := by
  obtain ⟨hbuilt, rfl, rfl⟩ := assemble_ok hd
  have hw := hbuilt.wellFormed
  obtain ⟨sink, hperm⟩ := h.sources
  rw [hw.map_id_values] at hperm
  have hnodup := hperm.nodup_iff.mpr d.stages.keys_nodup
  have hlen : ∀ sid, (d.successors sid).length = (d.edges.map (·.sourceId)).count sid := by
    intro sid
    rw [hw.successors_eq, List.length_map, ← List.countP_eq_length_filter, List.count_eq_countP,
      List.countP_map]
    exact List.countP_congr fun e _ => by simp
  rw [isTree_iff]
  constructor
  · intro sid _
    rw [hlen]
    exact List.nodup_iff_count_le_one.mp h.nodup_sources sid
  · have hnodupSinks : d.sinks.Nodup := d.stages.keys_nodup.filter _
    have hsinks : d.sinks.Perm [sink] := by
      rw [List.perm_ext_iff_of_nodup hnodupSinks (List.nodup_singleton _)]
      intro sid
      have hmem := hperm.mem_iff (a := sid)
      rw [sinks, List.mem_filter, decide_eq_true_eq, ← List.length_eq_zero_iff, hlen,
        List.count_eq_zero, ← hmem, List.mem_append, List.mem_singleton]
      constructor
      · rintro ⟨hor, hnot⟩
        exact hor.resolve_left hnot
      · rintro rfl
        exact ⟨.inr rfl, fun hsource => (List.nodup_append.mp hnodup).2.2 _ hsource _ (by simp) rfl⟩
    rw [hsinks.length_eq, List.length_singleton]

/-- Inputs that all feed one stage, which feeds the last one. -/
theorem treeShaped_fanIn {inputs : List StageId} {hub sink : StageId} (boundIn boundOut : ℚ)
    (hids : stages.map Stage.id = inputs ++ [hub, sink]) (hnodup : (inputs ++ [hub, sink]).Nodup) :
    TreeShaped stages
      (inputs.map (fun sid => ⟨sid, hub, boundIn⟩) ++ [⟨hub, sink, boundOut⟩]) := by
  have hsplit := List.nodup_append.mp hnodup
  have hhub : hub ∉ inputs := fun hmem => hsplit.2.2 hub hmem hub (by simp) rfl
  have hne : sink ≠ hub := fun heq => (List.nodup_cons.mp hsplit.2.1).1 (by simp [heq])
  refine ⟨⟨hids ▸ hnodup, ?_, ?_, ?_⟩, ?_⟩
  · simp only [hids, List.mem_append, List.mem_map, List.mem_singleton]
    rintro e (⟨sid, hsid, rfl⟩ | rfl)
    · exact .inl hsid
    · exact .inr (by simp)
  · simp only [hids, List.mem_append, List.mem_map, List.mem_singleton]
    rintro e (⟨sid, -, rfl⟩ | rfl)
    · exact .inr (by simp)
    · exact .inr (by simp)
  · refine not_hasCycle_of_order (inputs ++ [hub, sink]) ?_
    simp only [List.mem_append, List.mem_map, List.mem_singleton]
    rintro e (⟨sid, hsid, rfl⟩ | rfl)
    · rw [List.idxOf_append_of_mem hsid, List.idxOf_append_of_notMem hhub]
      exact Nat.lt_add_right _ (List.idxOf_lt_length_of_mem hsid)
    · have hsink : sink ∉ inputs := fun hmem => hsplit.2.2 sink hmem sink (by simp) rfl
      rw [List.idxOf_append_of_notMem hhub, List.idxOf_append_of_notMem hsink]
      simp [List.idxOf_cons_ne _ hne.symm]
  · refine ⟨sink, ?_⟩
    rw [hids, List.map_append, List.map_map, List.append_assoc]
    simp [Function.comp_def]

/-- Stages that each feed the next one. -/
theorem treeShaped_chain (bound : ℚ) {ids : List StageId} (hids : stages.map Stage.id = ids)
    (hnodup : ids.Nodup) (hne : ids ≠ []) :
    TreeShaped stages ((ids.zip ids.tail).map fun p => ⟨p.1, p.2, bound⟩) := by
  subst hids
  set ids := stages.map Stage.id
  refine ⟨⟨hnodup, ?_, ?_, ?_⟩, ?_⟩
  · intro e he
    obtain ⟨p, hp, rfl⟩ := List.mem_map.mp he
    exact (List.of_mem_zip hp).1
  · intro e he
    obtain ⟨p, hp, rfl⟩ := List.mem_map.mp he
    exact List.mem_of_mem_tail (List.of_mem_zip hp).2
  · refine not_hasCycle_of_order ids ?_
    intro e he
    obtain ⟨p, hp, rfl⟩ := List.mem_map.mp he
    obtain ⟨i, hi, rfl⟩ := List.getElem_of_mem hp
    rw [List.length_zip, List.length_tail] at hi
    simp only [List.getElem_zip, List.getElem_tail]
    rw [hnodup.idxOf_getElem, hnodup.idxOf_getElem]
    exact Nat.lt_succ_self i
  · refine ⟨ids.getLast hne, ?_⟩
    have hsources : ((ids.zip ids.tail).map fun p => (⟨p.1, p.2, bound⟩ : Edge)).map Edge.sourceId =
        ids.dropLast := by
      rw [List.map_map]
      refine List.ext_getElem ?_ fun i _ _ => ?_
      · simp
      · simp
    rw [hsources, List.dropLast_concat_getLast]

end Shapes

/-! ## What a factory yields -/

def PyError.IsValueError (e : PyError) : Prop := ∃ msg, e = .value msg

/-- What `int` and `float` raise for a value that is no number. -/
def PyError.IsConversionError (e : PyError) : Prop := (∃ msg, e = .type msg) ∨ ∃ msg, e = .overflow msg

/-- The result is a DAG with stages and without parallel edges, a tree or not as
stated, or an error of the kind stated. -/
def Yields (tree : Bool) (raises : PyError → Prop) : Except PyError PipelineDAG → Prop
  | .ok d => d.stages.keys ≠ [] ∧ (d.edges.map fun e => (e.sourceId, e.targetId)).Nodup ∧
      d.isTree = tree
  | .error e => raises e

instance (tree : Bool) : (r : Except PyError PipelineDAG) → Decidable (Yields tree (fun _ => False) r)
  | .ok d => inferInstanceAs (Decidable (d.stages.keys ≠ [] ∧ List.Nodup _ ∧ d.isTree = tree))
  | .error _ => inferInstanceAs (Decidable False)

theorem Yields.mono {tree : Bool} {p q : PyError → Prop} (h : ∀ e, p e → q e)
    {r : Except PyError PipelineDAG} (hr : Yields tree p r) : Yields tree q r := by
  cases r with
  | ok d => exact hr
  | error e => exact h e hr

theorem TreeShaped.yields {stages : List Stage} {edges : List Edge} (h : TreeShaped stages edges)
    (raises : PyError → Prop) : Yields true raises (assemble stages edges) := by
  have hd := h.assemble_eq
  rw [hd]
  have htree := h.isTree hd
  refine ⟨?_, ?_, htree⟩
  · intro hempty
    obtain ⟨sink, hperm⟩ := h.sources
    rw [stages_ofParts, keys_stageDict h.nodup] at hempty
    rw [hempty] at hperm
    exact absurd hperm.length_eq (by simp)
  · have hsources := h.nodup_sources
    rw [edges_ofParts]
    refine List.Nodup.of_map Prod.fst ?_
    rwa [List.map_map]

theorem yields_mapPipeline (stageType : String) (nStages : Int)
    (computationalDemand outputDataRate bound : ℚ) (sliceRequirement : Option SliceId) :
    Yields true PyError.IsValueError
      (mapPipeline stageType nStages computationalDemand outputDataRate bound sliceRequirement) := by
  unfold mapPipeline
  split
  · exact ⟨_, rfl⟩
  · next hn =>
    have hne : numbered "map_" nStages.toNat ≠ [] := by
      rw [← List.length_pos_iff, length_numbered]
      omega
    refine (treeShaped_chain bound ?_ (numbered_nodup _ _) hne).yields _
    simp [Function.comp_def]

theorem yields_funnelPipeline (nInputs : Int) (inputType : String)
    (inputDemand inputDataRate aggDemand aggDataRate outputDemand outputDataRate boundIn boundOut : ℚ)
    (sliceRequirement : Option SliceId) :
    Yields true PyError.IsValueError (funnelPipeline nInputs inputType inputDemand inputDataRate
      aggDemand aggDataRate outputDemand outputDataRate boundIn boundOut sliceRequirement) := by
  unfold funnelPipeline
  split
  · exact ⟨_, rfl⟩
  · refine (treeShaped_fanIn boundIn boundOut (by simp [Function.comp_def]) ?_).yields _
    exact nodup_numbered_append (by decide) (by decide) (by decide) _

theorem yields_sensorFusionPipeline (nSensors : Int) :
    Yields true PyError.IsValueError (sensorFusionPipeline nSensors) := by
  unfold sensorFusionPipeline
  split
  · exact ⟨_, rfl⟩
  · refine (treeShaped_fanIn 8 5 (by simp [Function.comp_def]) ?_).yields _
    exact nodup_numbered_append (by decide) (by decide) (by decide) _

theorem yields_fixedPipelines :
    Yields true (fun _ => False) cqiPredictionPipeline ∧
      Yields true (fun _ => False) anomalyDetectionPipeline ∧
      Yields true (fun _ => False) cqiPredictionChain8stage ∧
      Yields true (fun _ => False) ranAnomalyDetection8stage ∧
      Yields false (fun _ => False) ranIntelligenceSuite8stage := by
  decide +kernel

theorem Yields.bind {α : Type} {tree : Bool} {raises : PyError → Prop} {x : Except PyError α}
    {f : α → Except PyError PipelineDAG} (hx : ∀ e, x = .error e → raises e)
    (hf : ∀ a, Yields tree raises (f a)) : Yields tree raises (x >>= f) := by
  cases x with
  | ok a => exact hf a
  | error e => exact hx e rfl

/-- What building a DAG from the config may raise. -/
def PublishConfig.Raises (config : PublishConfig) (e : PyError) : Prop :=
  e.IsValueError ∨ ¬ config.Numeric ∧ e.IsConversionError

theorem mapError_raises {α : Type} {x : Except String α} {e : PyError}
    (h : x.mapError PyError.value = .error e) : e.IsValueError := by
  cases x with
  | ok a => cases h
  | error msg => exact ⟨msg, (Except.error.inj h).symm⟩

theorem toInt_raises {num : Numerals} {v : ConfigValue} {e : PyError} (h : num.toInt v = .error e) :
    e.IsValueError ∨ v.isInt = false ∧ e.IsConversionError := by
  cases v with
  | bool b => cases h
  | int n => cases h
  | float q => cases h
  | infinity negative => exact .inr ⟨rfl, .inr ⟨_, (Except.error.inj h).symm⟩⟩
  | nan => exact .inl ⟨_, (Except.error.inj h).symm⟩
  | text s => exact .inl (mapError_raises h)
  | null | list json | object json => exact .inr ⟨rfl, .inl ⟨_, (Except.error.inj h).symm⟩⟩

theorem toFloat_raises {num : Numerals} {v : FiniteValue} {e : PyError}
    (h : num.toFloat v = .error e) :
    e.IsValueError ∨ v.val.isFloat = false ∧ e.IsConversionError := by
  obtain ⟨v, hfinite⟩ := v
  cases v with
  | bool b => cases h
  | int n =>
    simp only [Numerals.toFloat] at h
    split at h
    · cases h
    · next hlarge =>
      refine .inr ⟨?_, .inr ⟨_, (Except.error.inj h).symm⟩⟩
      simp only [ConfigValue.isFloat, hlarge, decide_false]
  | float q => cases h
  | infinity negative => cases hfinite
  | nan => cases hfinite
  | text s => exact .inl (mapError_raises h)
  | null | list json | object json => exact .inr ⟨rfl, .inl ⟨_, (Except.error.inj h).symm⟩⟩

theorem toInt_getD_raises {num : Numerals} {config : PublishConfig} {v : Option ConfigValue} {n : Int}
    (hv : v ∈ [config.nSensors, config.nStages, config.nInputs]) (e : PyError)
    (h : num.toInt (v.getD (.int n)) = .error e) : config.Raises e := by
  cases v with
  | none => cases h
  | some v =>
    refine (toInt_raises h).imp_right fun ⟨hint, hconversion⟩ => ⟨fun hnumeric => ?_, hconversion⟩
    exact Bool.false_ne_true (hint.symm.trans (hnumeric.ints v hv))

theorem toFloat_getD_raises {num : Numerals} {config : PublishConfig} {v : Option FiniteValue} {q : ℚ}
    (hv : v ∈ [config.computationalDemand, config.outputDataRate, config.latencyBound,
      config.latencyBoundIn, config.latencyBoundOut]) (e : PyError)
    (h : num.toFloat (v.getD ⟨.float q, rfl⟩) = .error e) : config.Raises e := by
  cases v with
  | none => cases h
  | some v =>
    refine (toFloat_raises h).imp_right fun ⟨hfloat, hconversion⟩ => ⟨fun hnumeric => ?_, hconversion⟩
    exact Bool.false_ne_true (hfloat.symm.trans (hnumeric.floats v hv))

theorem yields_buildDag (num : Numerals) (pipelineType : String) (config : PublishConfig) :
    Yields (decide (pipelineType ≠ "ran_entangled")) config.Raises
      (buildDag num pipelineType config) := by
  have hfixed : ∀ {tree r}, Yields tree (fun _ => False) r → Yields tree config.Raises r :=
    Yields.mono fun _ => False.elim
  have hvalue : ∀ {tree r}, Yields tree PyError.IsValueError r → Yields tree config.Raises r :=
    Yields.mono fun _ => .inl
  obtain ⟨hcqi, hanomaly, hchain, hsp, hentangled⟩ := yields_fixedPipelines
  unfold buildDag pipelineFactory
  split
  · next factory hfactory =>
    split at hfactory
    · exact Option.some.inj hfactory ▸ hfixed hcqi
    · exact Option.some.inj hfactory ▸ hfixed hanomaly
    · obtain rfl := Option.some.inj hfactory
      exact .bind (toInt_getD_raises (by simp)) fun _ => hvalue (yields_sensorFusionPipeline _)
    · obtain rfl := Option.some.inj hfactory
      exact .bind (toInt_getD_raises (by simp)) fun _ =>
        .bind (toFloat_getD_raises (by simp)) fun _ => .bind (toFloat_getD_raises (by simp)) fun _ =>
          .bind (toFloat_getD_raises (by simp)) fun _ => hvalue (yields_mapPipeline ..)
    · obtain rfl := Option.some.inj hfactory
      exact .bind (toInt_getD_raises (by simp)) fun _ =>
        .bind (toFloat_getD_raises (by simp)) fun _ => .bind (toFloat_getD_raises (by simp)) fun _ =>
          hvalue (yields_funnelPipeline ..)
    · exact Option.some.inj hfactory ▸ hfixed hchain
    · exact Option.some.inj hfactory ▸ hfixed hsp
    · exact Option.some.inj hfactory ▸ hfixed hentangled
    · cases hfactory
  · exact .inl ⟨_, rfl⟩

theorem built_of_assemble_ite {c : Prop} [Decidable c] {e : PyError} {stages : List Stage}
    {edges : List Edge} {d : PipelineDAG}
    (h : (if c then .error e else assemble stages edges) = .ok d) : d.Built := by
  split at h
  · cases h
  · exact (assemble_ok h).1

theorem built_buildDag {num : Numerals} {pipelineType : String} {config : PublishConfig}
    {d : PipelineDAG} (h : buildDag num pipelineType config = .ok d) : d.Built := by
  unfold buildDag pipelineFactory at h
  split at h
  · next factory hfactory =>
    split at hfactory <;> cases hfactory
    · exact (assemble_ok h).1
    · exact (assemble_ok h).1
    · obtain ⟨_, -, h⟩ := bind_eq_ok_iff.mp h
      exact built_of_assemble_ite h
    · obtain ⟨_, -, h⟩ := bind_eq_ok_iff.mp h
      obtain ⟨_, -, h⟩ := bind_eq_ok_iff.mp h
      obtain ⟨_, -, h⟩ := bind_eq_ok_iff.mp h
      obtain ⟨_, -, h⟩ := bind_eq_ok_iff.mp h
      exact built_of_assemble_ite h
    · obtain ⟨_, -, h⟩ := bind_eq_ok_iff.mp h
      obtain ⟨_, -, h⟩ := bind_eq_ok_iff.mp h
      obtain ⟨_, -, h⟩ := bind_eq_ok_iff.mp h
      exact built_of_assemble_ite h
    · exact (assemble_ok h).1
    · exact (assemble_ok h).1
    · exact (assemble_ok h).1
  · cases h

/-- Whatever the type and the config of a request, building its DAG yields an acyclic DAG
with stages and without parallel edges, which can be sorted, and which is a tree for
every type but one; or it raises a `ValueError`; or, for a config that has no number
where one is read, a `TypeError` or an `OverflowError`. -/
theorem buildDag_sound (num : Numerals) (pipelineType : String) (config : PublishConfig) :
    (∀ d, buildDag num pipelineType config = .ok d →
      d.Built ∧ d.stages.keys ≠ [] ∧ (d.edges.map fun e => (e.sourceId, e.targetId)).Nodup ∧
        (d.isTree = true ↔ pipelineType ≠ "ran_entangled") ∧
        ∃ order, d.topologicalSort = .ok order ∧ order.Perm d.stages.keys ∧
          ∀ e ∈ d.edges, order.idxOf e.sourceId < order.idxOf e.targetId) ∧
    ∀ e, buildDag num pipelineType config = .error e →
      (∃ msg, e = .value msg) ∨
        ¬ config.Numeric ∧ ((∃ msg, e = .type msg) ∨ ∃ msg, e = .overflow msg) := by
  have hyields := yields_buildDag num pipelineType config
  constructor
  · intro d hd
    rw [hd] at hyields
    obtain ⟨hne, hsimple, htree⟩ := hyields
    have hbuilt := built_buildDag hd
    have hw := hbuilt.wellFormed
    obtain ⟨order, hsort, hperm, htopo⟩ := hw.topologicalSort_eq
    refine ⟨hbuilt, hne, hsimple, by rw [htree, decide_eq_true_eq], order, hsort, hperm, ?_⟩
    intro e he
    have htarget := hperm.mem_iff.mpr (Dict.mem_iff_mem_keys.mp (hw.target_mem e he))
    exact idxOf_lt_of_topoOrdered htopo (hperm.nodup_iff.mpr d.stages.keys_nodup) htarget
      (hw.mem_successors.mpr ⟨e, he, rfl, rfl⟩)
  · intro e he
    rw [he] at hyields
    exact hyields

end NeuralPubSub
