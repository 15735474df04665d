-- SUMMARY: What every built pipeline DAG satisfies: agreeing edge representations, acyclicity, a correct topological sort, and the meaning of the tree test.
import NeuralPubSub.Pipeline.Dag

open Base

/-!
# Invariants of built DAGs

`PipelineDAG.WellFormed` relates the five components of a DAG; every DAG that
the builder produces satisfies it (`Built.wellFormed`). The queries are then
specified once, in terms of the edge list.
-/

namespace NeuralPubSub
namespace PipelineDAG

structure WellFormed (d : PipelineDAG) : Prop where
  stageId : ∀ sid s, d.stage? sid = some s → s.id = sid
  source_mem : ∀ e ∈ d.edges, e.sourceId ∈ d.stages
  target_mem : ∀ e ∈ d.edges, e.targetId ∈ d.stages
  successors_eq : ∀ u, d.successors u = (d.edges.filter (·.sourceId = u)).map (·.targetId)
  predecessors_eq : ∀ v, d.predecessors v = (d.edges.filter (·.targetId = v)).map (·.sourceId)
  getEdge_eq : ∀ u v, d.getEdge u v =
    (d.edges.filter fun e => e.sourceId = u ∧ e.targetId = v).getLast?
  acyclic : Graph.Acyclic d.successors

/-! ## Reachability -/

theorem WellFormed.mem_successors {d : PipelineDAG} (h : d.WellFormed) {u v : StageId} :
    v ∈ d.successors u ↔ ∃ e ∈ d.edges, e.sourceId = u ∧ e.targetId = v := by
  simp [h.successors_eq, and_assoc]

theorem WellFormed.mem_predecessors {d : PipelineDAG} (h : d.WellFormed) {u v : StageId} :
    u ∈ d.predecessors v ↔ v ∈ d.successors u := by
  simp only [h.mem_successors, h.predecessors_eq, List.mem_map, List.mem_filter,
    decide_eq_true_eq, and_assoc]
  exact exists_congr fun e => and_congr_right fun _ => and_comm

theorem WellFormed.successor_mem {d : PipelineDAG} (h : d.WellFormed) {u v : StageId}
    (huv : v ∈ d.successors u) : v ∈ d.stages := by
  obtain ⟨e, he, rfl, rfl⟩ := h.mem_successors.mp huv
  exact h.target_mem e he

theorem WellFormed.predecessor_mem {d : PipelineDAG} (h : d.WellFormed) {u v : StageId}
    (huv : v ∈ d.successors u) : u ∈ d.stages := by
  obtain ⟨e, he, rfl, rfl⟩ := h.mem_successors.mp huv
  exact h.source_mem e he

/-- The stages carry their ids. -/
theorem WellFormed.map_id_values {d : PipelineDAG} (h : d.WellFormed) :
    d.stages.values.map (·.id) = d.stages.keys := by
  rw [Dict.values, Dict.keys, List.map_map]
  refine List.map_congr_left ?_
  rintro ⟨sid, s⟩ he
  exact h.stageId sid s (Dict.get?_eq_some_iff.mpr he)

theorem WellFormed.successor_mem_toFinset {d : PipelineDAG} (h : d.WellFormed) (u v : StageId)
    (huv : v ∈ d.successors u) : v ∈ d.stages.keys.toFinset :=
  List.mem_toFinset.mpr (Dict.mem_iff_mem_keys.mp (h.successor_mem huv))

/-- A search from one stage has enough rounds with one for each stage and one more. -/
theorem search_fuel {d : PipelineDAG} {n : Nat} (hn : d.stages.keys.length + 1 ≤ n) (a : StageId) :
    [a].length + d.stages.keys.toFinset.card ≤ n + (∅ : Finset StageId).card := by
  rw [List.toFinset_card_of_nodup d.stages.keys_nodup, List.length_singleton, Finset.card_empty]
  omega

theorem WellFormed.bfs_eq_true_iff {d : PipelineDAG} (h : d.WellFormed) {n : Nat}
    (hn : d.stages.keys.length + 1 ≤ n) (a b : StageId) :
    Graph.bfs d.successors b n [a] ∅ = true ↔
      Relation.TransGen (Base.Graph.Adj d.successors) a b :=
  Graph.bfs_eq_true_iff h.successor_mem_toFinset (Finset.empty_subset _) (search_fuel hn a)
    (Graph.BfsInv.init a b)

theorem WellFormed.canReach_iff {d : PipelineDAG} (h : d.WellFormed) (a b : StageId) :
    d.canReach a b = true ↔ Graph.Reaches d.successors a b := by
  unfold canReach
  split
  · next hab => exact iff_of_true rfl (hab ▸ .refl)
  · next hab =>
    rw [h.bfs_eq_true_iff le_rfl]
    constructor
    · exact fun ht => ht.to_reflTransGen
    · intro hr
      rcases Relation.reflTransGen_iff_eq_or_transGen.mp hr with rfl | ht
      · exact absurd rfl hab
      · exact ht

/-! ## The builder keeps the invariant -/

theorem wellFormed_empty (valueBudget : Option ℚ) : (empty valueBudget).WellFormed where
  stageId := by simp [empty, stage?]
  source_mem := by simp [empty]
  target_mem := by simp [empty]
  successors_eq := by simp [empty, successors, Dict.getD]
  predecessors_eq := by simp [empty, predecessors, Dict.getD]
  getEdge_eq := by simp [empty, getEdge]
  acyclic := by
    intro v hv
    obtain ⟨w, hvw, -⟩ := Relation.TransGen.head'_iff.mp hv
    exact List.not_mem_nil hvw

theorem WellFormed.addStage {d : PipelineDAG} (h : d.WellFormed) (stage : Stage) :
    (d.addStage stage).2.WellFormed := by
  unfold PipelineDAG.addStage
  split
  · exact h
  · exact
      { stageId := by
          intro sid s hs
          simp only [stage?, Dict.get?_insert] at hs
          split at hs
          · cases hs; symm; assumption
          · exact h.stageId sid s hs
        source_mem := fun e he => by simp [h.source_mem e he]
        target_mem := fun e he => by simp [h.target_mem e he]
        successors_eq := h.successors_eq
        predecessors_eq := h.predecessors_eq
        getEdge_eq := h.getEdge_eq
        acyclic := h.acyclic }

theorem WellFormed.addEdge {d : PipelineDAG} (h : d.WellFormed) (edge : Edge) :
    (d.addEdge edge).2.WellFormed := by
  unfold PipelineDAG.addEdge
  split
  · exact h
  split
  · exact h
  split
  · exact h
  next hsrc htgt hreach =>
  simp only [not_not] at hsrc htgt
  rw [h.canReach_iff] at hreach
  constructor
  · exact h.stageId
  · simp only [List.mem_append, List.mem_singleton]
    rintro e (he | rfl)
    · exact h.source_mem e he
    · exact hsrc
  · simp only [List.mem_append, List.mem_singleton]
    rintro e (he | rfl)
    · exact h.target_mem e he
    · exact htgt
  · intro u
    have hu := h.successors_eq u
    simp only [successors, Dict.getD_insert] at hu ⊢
    by_cases heq : u = edge.sourceId
    · subst heq; simp [hu]
    · simp [heq, Ne.symm heq, hu]
  · intro v
    have hv := h.predecessors_eq v
    simp only [predecessors, Dict.getD_insert] at hv ⊢
    by_cases heq : v = edge.targetId
    · subst heq; simp [hv]
    · simp [heq, Ne.symm heq, hv]
  · intro u v
    have huv := h.getEdge_eq u v
    simp only [getEdge, Dict.get?_insert, Prod.mk.injEq] at huv ⊢
    by_cases heq : u = edge.sourceId ∧ v = edge.targetId
    · obtain ⟨rfl, rfl⟩ := heq; simp
    · have : ¬ (edge.sourceId = u ∧ edge.targetId = v) := fun he => heq ⟨he.1.symm, he.2.symm⟩
      simp [heq, this, huv]
  · refine h.acyclic.of_extra_edge hreach fun u v huv => ?_
    simp only [successors, Dict.getD_insert] at huv ⊢
    by_cases heq : u = edge.sourceId
    · subst heq
      simp only [if_true, List.mem_append, List.mem_singleton] at huv
      exact huv.imp_right fun hv => ⟨rfl, hv⟩
    · exact .inl (by simpa [heq] using huv)

theorem Built.wellFormed {d : PipelineDAG} (h : d.Built) : d.WellFormed := by
  induction h with
  | empty b => exact wellFormed_empty b
  | addStage s _ ih => exact ih.addStage s
  | addEdge e _ ih => exact ih.addEdge e

/-! ## Topological sort -/

theorem keys_inDegree {d : PipelineDAG} : d.inDegree.keys = d.stages.keys := by
  have hfold : ∀ (es : List Edge) (m : Dict StageId Int),
      (es.foldl (fun indeg e => indeg.modify e.targetId (· + 1)) m).keys = m.keys := by
    intro es
    induction es with
    | nil => exact fun _ => rfl
    | cons e es ih => exact fun m => by simp [ih]
  rw [inDegree, hfold, Dict.keys_ofList_const d.stages.keys_nodup]

theorem getD_inDegree {d : PipelineDAG} (h : d.WellFormed) (v : StageId) :
    d.inDegree.getD v 0 = (d.edges.filter (·.targetId = v)).length := by
  have hfold : ∀ (es : List Edge) (m : Dict StageId Int), (∀ e ∈ es, e.targetId ∈ m) →
      (es.foldl (fun indeg e => indeg.modify e.targetId (· + 1)) m).getD v 0
        = m.getD v 0 + (es.filter (·.targetId = v)).length := by
    intro es
    induction es with
    | nil => exact fun _ _ => by simp
    | cons e es ih =>
      intro m hm
      obtain ⟨x, hx⟩ := Dict.exists_get?_of_mem (hm e (by simp))
      rw [List.foldl_cons, ih _ fun e' he' => by simp [hm e' (by simp [he'])]]
      by_cases hev : e.targetId = v
      · subst hev
        simp [Dict.getD, Dict.get?_modify, hx]; omega
      · simp [Dict.getD, Dict.get?_modify, hev, Ne.symm hev]
  rw [inDegree, hfold _ _ fun e he => by
    rw [Dict.mem_iff_mem_keys, Dict.keys_ofList_const d.stages.keys_nodup]
    exact h.target_mem e he]
  rw [Dict.getD_ofList_const, zero_add]

/-- Counting the edges into `v` by their source. -/
private theorem sum_count_successors {ks : List StageId} (hks : ks.Nodup) (v : StageId)
    {es : List Edge} (hes : ∀ e ∈ es, e.sourceId ∈ ks) :
    (ks.map fun u => ((es.filter (·.sourceId = u)).map (·.targetId)).count v).sum
      = (es.filter (·.targetId = v)).length := by
  rw [← List.sum_toFinset _ hks]
  induction es with
  | nil => simp
  | cons e es ih =>
    have hterm : ∀ u, (((e :: es).filter (·.sourceId = u)).map (·.targetId)).count v
        = ((es.filter (·.sourceId = u)).map (·.targetId)).count v
          + if e.sourceId = u then (if e.targetId = v then 1 else 0) else 0 := by
      intro u
      by_cases hu : e.sourceId = u
      · simp [hu, List.count_cons]
      · simp [hu]
    have hmem : e.sourceId ∈ ks.toFinset := List.mem_toFinset.mpr (hes e (by simp))
    simp only [hterm, Finset.sum_add_distrib, ih fun e' he' => hes e' (by simp [he']),
      Finset.sum_ite_eq, hmem, if_true]
    by_cases hv : e.targetId = v <;> simp [hv]

theorem WellFormed.pendingInto_eq {d : PipelineDAG} (h : d.WellFormed) (v : StageId) :
    (Graph.pendingInto d.successors d.stages.keys [] v : Int) = d.inDegree.getD v 0 := by
  rw [getD_inDegree h]
  have hsucc : d.successors = fun u => (d.edges.filter (·.sourceId = u)).map (·.targetId) :=
    funext h.successors_eq
  simp only [Graph.pendingInto, List.not_mem_nil, not_false_eq_true, decide_true, List.filter_true,
    hsucc, sum_count_successors d.stages.keys_nodup v h.source_mem]

/-- The state `topological_sort` starts its loop in. -/
theorem WellFormed.kahnInv {d : PipelineDAG} (h : d.WellFormed) :
    Graph.KahnInv d.successors d.stages.keys d.inDegree
      (d.inDegree.keys.filter fun sid => d.inDegree.getD sid 0 = 0) [] where
  keys := keys_inDegree
  degree v := (h.pendingInto_eq v).symm
  nodup := by
    rw [List.nil_append, keys_inDegree]
    exact d.stages.keys_nodup.filter _
  sub := by
    simp only [keys_inDegree, List.nil_append, List.mem_filter]
    exact fun _ hv => hv.1
  queued := by
    intro v hv _ hzero
    have := h.pendingInto_eq v
    rw [hzero] at this
    simp [keys_inDegree, hv, ← this]
  ready := by
    intro v hv
    have := h.pendingInto_eq v
    simp only [List.mem_filter, decide_eq_true_eq] at hv
    omega
  topo := by
    intro pre v post heq
    simp at heq

/-- The topological sort of a built DAG never raises, lists every stage once
and puts it after its predecessors. -/
theorem WellFormed.topologicalSort_eq {d : PipelineDAG} (h : d.WellFormed) :
    ∃ order, d.topologicalSort = .ok order ∧ order.Perm d.stages.keys ∧
      Graph.TopoOrdered d.successors order := by
  have hspec := Graph.kahn_spec (n := d.stages.keys.length) d.stages.keys_nodup
    (fun u _ v huv => Dict.mem_iff_mem_keys.mp (h.successor_mem huv))
    (fun u v huv => Dict.mem_iff_mem_keys.mp (h.predecessor_mem huv)) h.acyclic (by simp) h.kahnInv
  refine ⟨_, ?_, hspec⟩
  simp [topologicalSort, hspec.1.length_eq]

/-! ## Trees -/

theorem countSinks_eq_some_iff {d : PipelineDAG} {sids : List StageId} {n m : Nat} :
    d.countSinks sids n = some m ↔
      (∀ sid ∈ sids, (d.successors sid).length ≤ 1) ∧
        m = n + (sids.filter fun sid => d.successors sid = []).length := by
  induction sids generalizing n with
  | nil => simp [countSinks, @eq_comm _ n]
  | cons sid sids ih =>
    have hnil : d.successors sid = [] ↔ (d.successors sid).length = 0 := List.length_eq_zero_iff.symm
    simp only [countSinks]
    split
    · next hgt => simp; omega
    · split
      · next hle hzero =>
        rw [ih]
        simp [hnil, hzero]; omega
      · next hle hne =>
        rw [ih]
        simp [hnil, hne]; omega

theorem isTree_iff {d : PipelineDAG} :
    d.isTree = true ↔ (∀ sid ∈ d.stages, (d.successors sid).length ≤ 1) ∧ d.sinks.length = 1 := by
  simp only [isTree, decide_eq_true_eq, countSinks_eq_some_iff, zero_add]
  exact and_congr_right fun _ => eq_comm

end PipelineDAG
end NeuralPubSub
