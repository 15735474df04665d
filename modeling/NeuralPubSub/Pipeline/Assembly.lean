-- SUMMARY: A DAG as the lists of its stages and edges: what the builder makes of two lists, and that a DAG is rebuilt from its own.
import NeuralPubSub.Base.Collect
import NeuralPubSub.Pipeline.Builder

open Base

/-!
# Assembling a DAG

The pipeline templates add a list of stages and then a list of edges. The
workload generator sends a DAG as these two lists beside its topological order,
so that a receiver can build it again.
-/

namespace NeuralPubSub
namespace PipelineDAG

/-- Add the stages one after the other; the first call that raises ends the loop. -/
def addStages (d : PipelineDAG) : List Stage → Except PyError PipelineDAG
  | [] => .ok d
  | stage :: rest =>
    match d.addStage stage with
    | (.ok (), d) => d.addStages rest
    | (.error e, _) => .error e

/-- Add the edges one after the other; the first call that raises ends the loop. -/
def addEdges (d : PipelineDAG) : List Edge → Except PyError PipelineDAG
  | [] => .ok d
  | edge :: rest =>
    match d.addEdge edge with
    | (.ok (), d) => d.addEdges rest
    | (.error e, _) => .error e

/-- An empty DAG with the stages, then the edges, added. -/
def assemble (stages : List Stage) (edges : List Edge) : Except PyError PipelineDAG := do
  let d ← (empty none).addStages stages
  d.addEdges edges

/-! ## The parts of a DAG -/

/-- The DAG of the given stages and edges, with the maps that the edges determine. -/
def ofParts (stages : Dict StageId Stage) (edges : List Edge) (valueBudget : Option ℚ) :
    PipelineDAG where
  stages := stages
  edges := edges
  edgeIndex := edges.foldl (fun index e => index.insert (e.sourceId, e.targetId) e) .empty
  successorLists := edges.foldl (fun succs e =>
    succs.insert e.sourceId (succs.getD e.sourceId [] ++ [e.targetId])) .empty
  predecessorLists := edges.foldl (fun preds e =>
    preds.insert e.targetId (preds.getD e.targetId [] ++ [e.sourceId])) .empty
  valueBudget := valueBudget

@[simp] theorem stages_ofParts (stages : Dict StageId Stage) (edges : List Edge)
    (valueBudget : Option ℚ) : (ofParts stages edges valueBudget).stages = stages := rfl

@[simp] theorem edges_ofParts (stages : Dict StageId Stage) (edges : List Edge)
    (valueBudget : Option ℚ) : (ofParts stages edges valueBudget).edges = edges := rfl

theorem addStage_ofParts {stages : Dict StageId Stage} {stage : Stage} (h : stage.id ∉ stages)
    (edges : List Edge) (valueBudget : Option ℚ) :
    (ofParts stages edges valueBudget).addStage stage =
      (.ok (), ofParts (stages.insert stage.id stage) edges valueBudget) := by
  unfold addStage
  rw [if_neg (by simpa using h)]
  rfl

theorem addEdge_ofParts {stages : Dict StageId Stage} {edges : List Edge} {valueBudget : Option ℚ}
    {edge : Edge} (hsource : edge.sourceId ∈ stages) (htarget : edge.targetId ∈ stages)
    (hreach : ¬ (ofParts stages edges valueBudget).canReach edge.targetId edge.sourceId = true) :
    (ofParts stages edges valueBudget).addEdge edge =
      (.ok (), ofParts stages (edges ++ [edge]) valueBudget) := by
  unfold addEdge
  rw [if_neg (by simpa using hsource), if_neg (by simpa using htarget), if_neg hreach]
  simp only [ofParts, List.foldl_append, List.foldl_cons, List.foldl_nil, successors, predecessors]

/-- A built DAG is determined by its stages, its edges and its budget. -/
theorem Built.eq_ofParts {d : PipelineDAG} (h : d.Built) :
    d = ofParts d.stages d.edges d.valueBudget := by
  induction h with
  | empty valueBudget => rfl
  | @addStage d stage _ ih =>
    by_cases hmem : stage.id ∈ d.stages
    · simp only [PipelineDAG.addStage, if_pos hmem]
      exact ih
    · have hadd := addStage_ofParts hmem d.edges d.valueBudget
      rw [← ih] at hadd
      rw [hadd]
      rfl
  | @addEdge d edge _ ih =>
    by_cases hok : (d.addEdge edge).1 = .ok ()
    · have hparts : edge.sourceId ∈ d.stages ∧ edge.targetId ∈ d.stages ∧
          ¬ d.canReach edge.targetId edge.sourceId = true := by
        unfold PipelineDAG.addEdge at hok
        split_ifs at hok with hsource htarget hreach
        exact ⟨hsource, htarget, hreach⟩
      obtain ⟨hsource, htarget, hreach⟩ := hparts
      rw [ih] at hreach
      have hadd := addEdge_ofParts hsource htarget hreach
      rw [← ih] at hadd
      rw [hadd]
      rfl
    · cases hres : (d.addEdge edge).1 with
      | ok _ => exact absurd hres hok
      | error err =>
        rw [addEdge_raises hres]
        exact ih

theorem Built.ext {d d' : PipelineDAG} (h : d.Built) (h' : d'.Built) (hstages : d.stages = d'.stages)
    (hedges : d.edges = d'.edges) (hbudget : d.valueBudget = d'.valueBudget) : d = d' := by
  rw [h.eq_ofParts, h'.eq_ofParts, hstages, hedges, hbudget]

/-! ## What the builder accepts -/

/-- The stages keyed by their ids. -/
def stageDict (stages : List Stage) : Dict StageId Stage := .ofList (stages.map fun s => (s.id, s))

theorem keys_stageDict {stages : List Stage} (h : (stages.map (·.id)).Nodup) :
    (stageDict stages).keys = stages.map (·.id) := by
  have hkeys : (stages.map fun s => (s.id, s)).map Prod.fst = stages.map (·.id) := by
    rw [List.map_map]
    rfl
  rw [stageDict, Dict.keys_ofList _ (hkeys ▸ h), hkeys]

theorem mem_stageDict {stages : List Stage} {sid : StageId} :
    sid ∈ stageDict stages ↔ sid ∈ stages.map (·.id) := by
  rw [stageDict, Dict.mem_ofList, List.map_map]
  rfl

/-- The lists describe a DAG: the ids differ, the edges join listed stages, and no
edges form a cycle. -/
structure Describes (stages : List Stage) (edges : List Edge) : Prop where
  nodup : (stages.map (·.id)).Nodup
  source_mem : ∀ e ∈ edges, e.sourceId ∈ stages.map (·.id)
  target_mem : ∀ e ∈ edges, e.targetId ∈ stages.map (·.id)
  acyclic : ¬ HasCycle edges

theorem HasCycle.mono {edges edges' : List Edge} (h : HasCycle edges) (hsub : edges ⊆ edges') :
    HasCycle edges' := by
  obtain ⟨v, hv⟩ := h
  exact ⟨v, Relation.TransGen.mono (fun _ _ ⟨e, he, hab⟩ => ⟨e, hsub he, hab⟩) _ _ hv⟩

theorem WellFormed.describes {d : PipelineDAG} (h : d.WellFormed) :
    Describes d.stages.values d.edges where
  nodup := h.map_id_values ▸ d.stages.keys_nodup
  source_mem e he := h.map_id_values ▸ Dict.mem_iff_mem_keys.mp (h.source_mem e he)
  target_mem e he := h.map_id_values ▸ Dict.mem_iff_mem_keys.mp (h.target_mem e he)
  acyclic := h.not_hasCycle

theorem addStages_ofParts {stages : Dict StageId Stage} (valueBudget : Option ℚ) {rest : List Stage}
    (hnodup : (rest.map (·.id)).Nodup) (hnew : ∀ s ∈ rest, s.id ∉ stages) :
    (ofParts stages [] valueBudget).addStages rest =
      .ok (ofParts (rest.foldl (fun d s => d.insert s.id s) stages) [] valueBudget) := by
  induction rest generalizing stages with
  | nil => rfl
  | cons s rest ih =>
    rw [List.map_cons, List.nodup_cons] at hnodup
    have hrest : ∀ s' ∈ rest, s'.id ∉ stages.insert s.id s := by
      intro s' hs' hmem
      rcases Dict.mem_insert.mp hmem with heq | hmem
      · exact hnodup.1 (heq ▸ List.mem_map_of_mem hs')
      · exact hnew s' (List.mem_cons_of_mem _ hs') hmem
    rw [addStages, addStage_ofParts (hnew s List.mem_cons_self)]
    exact ih hnodup.2 hrest

theorem addEdges_ofParts {stages : List Stage} {done rest : List Edge}
    (h : Describes stages (done ++ rest)) (valueBudget : Option ℚ)
    (hbuilt : (ofParts (stageDict stages) done valueBudget).Built) :
    (ofParts (stageDict stages) done valueBudget).addEdges rest =
      .ok (ofParts (stageDict stages) (done ++ rest) valueBudget) := by
  induction rest generalizing done with
  | nil => rw [List.append_nil]; rfl
  | cons e rest ih =>
    have hmem : e ∈ done ++ e :: rest := by simp
    have hsub : done ++ [e] ⊆ done ++ e :: rest := by
      intro x hx
      simp only [List.mem_append, List.mem_cons, List.not_mem_nil, or_false] at hx ⊢
      exact hx.imp_right .inl
    have hreach : ¬ (ofParts (stageDict stages) done valueBudget).canReach e.targetId e.sourceId =
        true := by
      rw [← hbuilt.wellFormed.hasCycle_concat_iff]
      exact fun hcycle => h.acyclic (hcycle.mono hsub)
    have hadd := addEdge_ofParts (mem_stageDict.mpr (h.source_mem e hmem))
      (mem_stageDict.mpr (h.target_mem e hmem)) hreach
    have hnext := hbuilt.addEdge e
    rw [hadd] at hnext
    have hlist : done ++ e :: rest = done ++ [e] ++ rest := by
      rw [List.append_assoc, List.singleton_append]
    rw [addEdges, hadd, hlist]
    exact ih (hlist ▸ h) hnext

/-- A call that returns has added its stage. -/
theorem addStage_ok {d d' : PipelineDAG} {stage : Stage} (h : d.addStage stage = (.ok (), d')) :
    d'.stages.values = d.stages.values ++ [stage] ∧ d'.edges = d.edges := by
  unfold addStage at h
  split at h
  · cases h
  · next hmem =>
    obtain rfl : _ = d' := congrArg Prod.snd h
    refine ⟨?_, rfl⟩
    rw [Dict.values, Dict.entries_insert_of_not_mem _ hmem, List.map_append]
    rfl

/-- A call that returns has added its edge. -/
theorem addEdge_ok {d d' : PipelineDAG} {edge : Edge} (h : d.addEdge edge = (.ok (), d')) :
    d'.stages = d.stages ∧ d'.edges = d.edges ++ [edge] := by
  unfold addEdge at h
  split at h
  · cases h
  split at h
  · cases h
  split at h
  · cases h
  · obtain rfl : _ = d' := congrArg Prod.snd h
    exact ⟨rfl, rfl⟩

theorem addStages_ok {d d' : PipelineDAG} {stages : List Stage} (hbuilt : d.Built)
    (h : d.addStages stages = .ok d') :
    d'.Built ∧ d'.stages.values = d.stages.values ++ stages ∧ d'.edges = d.edges := by
  induction stages generalizing d with
  | nil =>
    obtain rfl := Except.ok.inj h
    exact ⟨hbuilt, (List.append_nil _).symm, rfl⟩
  | cons s rest ih =>
    have hnext := hbuilt.addStage s
    rw [addStages] at h
    split at h
    · next d'' hadd =>
      obtain ⟨hvalues, hedges⟩ := addStage_ok hadd
      obtain ⟨hbuilt', hvalues', hedges'⟩ := ih (by rwa [hadd] at hnext) h
      refine ⟨hbuilt', ?_, hedges'.trans hedges⟩
      rw [hvalues', hvalues, List.append_assoc, List.singleton_append]
    · cases h

theorem addEdges_ok {d d' : PipelineDAG} {edges : List Edge} (hbuilt : d.Built)
    (h : d.addEdges edges = .ok d') :
    d'.Built ∧ d'.stages = d.stages ∧ d'.edges = d.edges ++ edges := by
  induction edges generalizing d with
  | nil =>
    obtain rfl := Except.ok.inj h
    exact ⟨hbuilt, rfl, (List.append_nil _).symm⟩
  | cons e rest ih =>
    have hnext := hbuilt.addEdge e
    rw [addEdges] at h
    split at h
    · next d'' hadd =>
      obtain ⟨hstages, hedges⟩ := addEdge_ok hadd
      obtain ⟨hbuilt', hstages', hedges'⟩ := ih (by rwa [hadd] at hnext) h
      refine ⟨hbuilt', hstages'.trans hstages, ?_⟩
      rw [hedges', hedges, List.append_assoc, List.singleton_append]
    · cases h

/-- What is assembled is a built DAG of the two lists. -/
theorem assemble_ok {stages : List Stage} {edges : List Edge} {d : PipelineDAG}
    (h : assemble stages edges = .ok d) :
    d.Built ∧ d.stages.values = stages ∧ d.edges = edges := by
  obtain ⟨d', hstages, hedges⟩ := bind_eq_ok_iff.mp h
  obtain ⟨hbuilt, hvalues, hnone⟩ := addStages_ok (.empty none) hstages
  obtain ⟨hbuilt', hsame, happend⟩ := addEdges_ok hbuilt hedges
  exact ⟨hbuilt', by rw [hsame, hvalues]; rfl, by rw [happend, hnone]; rfl⟩

/-- Lists that describe a DAG are assembled into that DAG. -/
theorem Describes.assemble_eq {stages : List Stage} {edges : List Edge}
    (h : Describes stages edges) :
    assemble stages edges = .ok (ofParts (stageDict stages) edges none) := by
  have hstages : (empty none).addStages stages = .ok (ofParts (stageDict stages) [] none) := by
    have hadd : (empty none).addStages stages = _ := addStages_ofParts none h.nodup (by simp)
    have hdict : stages.foldl (fun d s => d.insert s.id s) .empty = stageDict stages := by
      rw [stageDict, Dict.ofList, List.foldl_map]
    rw [hdict] at hadd
    exact hadd
  have hbuilt := (addStages_ok (.empty none) hstages).1
  rw [assemble, hstages]
  have h' : Describes stages ([] ++ edges) := h
  exact addEdges_ofParts h' none hbuilt

/-- The builder accepts exactly the lists that describe a DAG. -/
theorem assemble_eq_ok_iff {stages : List Stage} {edges : List Edge} {d : PipelineDAG} :
    assemble stages edges = .ok d ↔
      Describes stages edges ∧ d = ofParts (stageDict stages) edges none := by
  constructor
  · intro h
    obtain ⟨hbuilt, rfl, rfl⟩ := assemble_ok h
    have hdescribes := hbuilt.wellFormed.describes
    exact ⟨hdescribes, Except.ok.inj (h.symm.trans hdescribes.assemble_eq)⟩
  · rintro ⟨h, rfl⟩
    exact h.assemble_eq

/-- A DAG without a budget is assembled again from its own lists. -/
theorem Built.assemble_eq {d : PipelineDAG} (h : d.Built) (hbudget : d.valueBudget = none) :
    assemble d.stages.values d.edges = .ok d := by
  have hw := h.wellFormed
  have hstages : stageDict d.stages.values = d.stages := by
    have hentries : d.stages.values.map (fun s => (s.id, s)) = d.stages.entries := by
      rw [Dict.values, List.map_map]
      refine (List.map_congr_left ?_).trans (List.map_id _)
      rintro ⟨sid, s⟩ he
      exact Prod.ext (hw.stageId sid s (Dict.get?_eq_some_iff.mpr he)) rfl
    rw [stageDict, hentries, Dict.ofList_entries]
  rw [hw.describes.assemble_eq, hstages, ← hbudget, ← h.eq_ofParts]

theorem Describes.perm {stages stages' : List Stage} {edges : List Edge}
    (h : Describes stages edges) (hperm : stages'.Perm stages) : Describes stages' edges where
  nodup := ((hperm.map _).nodup_iff).mpr h.nodup
  source_mem e he := (hperm.map _).mem_iff.mpr (h.source_mem e he)
  target_mem e he := (hperm.map _).mem_iff.mpr (h.target_mem e he)
  acyclic := h.acyclic

theorem get?_stageDict_eq_some_iff {stages : List Stage} (h : (stages.map (·.id)).Nodup)
    {sid : StageId} {s : Stage} : (stageDict stages).get? sid = some s ↔ s ∈ stages ∧ s.id = sid := by
  have hkeys : ((stages.map fun s => (s.id, s)).map Prod.fst).Nodup := by
    rwa [List.map_map]
  rw [Dict.get?_eq_some_iff, stageDict, Dict.entries_ofList _ hkeys, List.mem_map]
  constructor
  · rintro ⟨s', hs', heq⟩
    obtain ⟨rfl, rfl⟩ := Prod.mk.inj heq
    exact ⟨hs', rfl⟩
  · rintro ⟨hs, rfl⟩
    exact ⟨s, hs, rfl⟩

/-- In whatever order the stages come, the same dependencies are rebuilt. -/
theorem Describes.assemble_perm {stages stages' : List Stage} {edges : List Edge}
    (h : Describes stages edges) (hperm : stages'.Perm stages) {d : PipelineDAG}
    (hd : assemble stages edges = .ok d) :
    ∃ d', assemble stages' edges = .ok d' ∧ d'.edges = d.edges ∧ d'.successors = d.successors ∧
      d'.predecessors = d.predecessors ∧ d'.getEdge = d.getEdge ∧ d'.stage? = d.stage? := by
  obtain ⟨-, rfl⟩ := assemble_eq_ok_iff.mp hd
  have h' := h.perm hperm
  refine ⟨_, h'.assemble_eq, rfl, rfl, rfl, rfl, funext fun sid => Option.ext fun s => ?_⟩
  rw [stage?, stages_ofParts, stage?, stages_ofParts, get?_stageDict_eq_some_iff h'.nodup,
    get?_stageDict_eq_some_iff h.nodup, hperm.mem_iff]

/-! ## The same graph with other stages -/

/-- The same graph, with another stage of its id in the place of each. -/
def mapStages (f : Stage → Stage) (d : PipelineDAG) : PipelineDAG :=
  { d with stages := d.stages.mapValues f }

section MapStages

variable {f : Stage → Stage} {d : PipelineDAG}

theorem stage?_mapStages (sid : StageId) : (d.mapStages f).stage? sid = (d.stage? sid).map f :=
  Dict.get?_mapValues ..

theorem canReach_mapStages (a b : StageId) : (d.mapStages f).canReach a b = d.canReach a b := by
  simp only [canReach, mapStages, Dict.keys_mapValues]
  rfl

theorem addStage_mapStages (hid : ∀ s, (f s).id = s.id) (stage : Stage) :
    ((d.addStage stage).2).mapStages f = ((d.mapStages f).addStage (f stage)).2 := by
  have hmem : (f stage).id ∈ (d.mapStages f).stages ↔ stage.id ∈ d.stages := by
    simp [mapStages, hid]
  unfold addStage
  by_cases hnew : stage.id ∈ d.stages
  · rw [if_pos hnew, if_pos (hmem.mpr hnew)]
  · rw [if_neg hnew, if_neg (hmem.not.mpr hnew)]
    simp only [mapStages, Dict.mapValues_insert, hid]

theorem addEdge_mapStages (edge : Edge) :
    ((d.addEdge edge).2).mapStages f = ((d.mapStages f).addEdge edge).2 := by
  have hmem : ∀ sid, sid ∈ (d.mapStages f).stages ↔ sid ∈ d.stages := by simp [mapStages]
  unfold addEdge
  simp only [hmem, canReach_mapStages]
  split
  · rfl
  · split
    · rfl
    · split <;> rfl

/-- The builder would have made the graph from the other stages. -/
theorem Built.mapStages (h : d.Built) (hid : ∀ s, (f s).id = s.id) : (d.mapStages f).Built := by
  induction h with
  | empty valueBudget => exact .empty valueBudget
  | addStage stage _ ih =>
    rw [addStage_mapStages hid]
    exact ih.addStage _
  | addEdge edge _ ih =>
    rw [addEdge_mapStages]
    exact ih.addEdge _

end MapStages

end PipelineDAG
end NeuralPubSub
