-- SUMMARY: The edge representations of a built DAG, and when the bounds the solvers read are the bounds the whole check enforces.
import NeuralPubSub.Pipeline.Builder
import NeuralPubSub.Broker.Placement.Feasibility

open Base

/-!
# Edge bounds

`check_feasibility` goes over the list of edges, the solvers over the neighbours of a
stage and the edge index. The index holds one edge for an ordered pair of stages, the
list every edge that was added.
-/

namespace NeuralPubSub
namespace PipelineDAG

/-- The edges from one stage to another. -/
def edgesBetween (d : PipelineDAG) (sourceId targetId : StageId) : List Edge :=
  d.edges.filter fun e => e.sourceId = sourceId ∧ e.targetId = targetId

/-- The bounds that `_is_node_feasible` reads for `sourceId` when it places `targetId`. -/
def boundsReadAtTarget (d : PipelineDAG) (sourceId targetId : StageId) : List ℚ :=
  ((d.predecessors targetId).filter (· = sourceId)).filterMap fun predId =>
    (d.getEdge predId targetId).map (·.latencyBound)

/-- The bounds that `_is_node_feasible` reads for `targetId` when it places `sourceId`. -/
def boundsReadAtSource (d : PipelineDAG) (sourceId targetId : StageId) : List ℚ :=
  ((d.successors sourceId).filter (· = targetId)).filterMap fun succId =>
    (d.getEdge sourceId succId).map (·.latencyBound)

/-- The bounds that `check_feasibility` enforces. -/
def boundsEnforced (d : PipelineDAG) (sourceId targetId : StageId) : List ℚ :=
  (d.edgesBetween sourceId targetId).map (·.latencyBound)

/-- The edge list, the index and the adjacency lists hold the same edges, so that the
solvers read the bounds that the whole check enforces. -/
structure EdgesAgree (d : PipelineDAG) : Prop where
  getEdge : ∀ e ∈ d.edges, d.getEdge e.sourceId e.targetId = some e
  successors : ∀ u v, (d.successors u).count v = (d.edgesBetween u v).length
  predecessors : ∀ u v, (d.predecessors v).count u = (d.successors u).count v
  readAtTarget : ∀ u v, d.boundsReadAtTarget u v = d.boundsEnforced u v
  readAtSource : ∀ u v, d.boundsReadAtSource u v = d.boundsEnforced u v

/-- Edges between the same stages have the same bound. -/
def UniqueBounds (edges : List Edge) : Prop :=
  ∀ e ∈ edges, ∀ e' ∈ edges, e.sourceId = e'.sourceId → e.targetId = e'.targetId →
    e.latencyBound = e'.latencyBound

section Agreement
variable {d : PipelineDAG}

theorem mem_edgesBetween {u v : StageId} {e : Edge} :
    e ∈ d.edgesBetween u v ↔ e ∈ d.edges ∧ e.sourceId = u ∧ e.targetId = v := by
  simp [edgesBetween]

theorem WellFormed.successors_filter (h : d.WellFormed) (u v : StageId) :
    (d.successors u).filter (· = v) = (d.edgesBetween u v).map (·.targetId) := by
  rw [h.successors_eq, List.filter_map, List.filter_filter, edgesBetween]
  congr 1
  apply List.filter_congr
  intro e _
  simp [Bool.and_comm]

theorem WellFormed.predecessors_filter (h : d.WellFormed) (u v : StageId) :
    (d.predecessors v).filter (· = u) = (d.edgesBetween u v).map (·.sourceId) := by
  rw [h.predecessors_eq, List.filter_map, List.filter_filter, edgesBetween]
  congr 1
  apply List.filter_congr
  intro e _
  simp

theorem WellFormed.count_successors (h : d.WellFormed) (u v : StageId) :
    (d.successors u).count v = (d.edgesBetween u v).length := by
  have hcount := congrArg List.length (h.successors_filter u v)
  rw [List.length_map] at hcount
  rw [← hcount, List.count, List.countP_eq_length_filter]
  rfl

theorem WellFormed.count_predecessors (h : d.WellFormed) (u v : StageId) :
    (d.predecessors v).count u = (d.edgesBetween u v).length := by
  have hcount := congrArg List.length (h.predecessors_filter u v)
  rw [List.length_map] at hcount
  rw [← hcount, List.count, List.countP_eq_length_filter]
  rfl

/-- Reading the index once for each edge between two stages. -/
theorem filterMap_edgesBetween {u v : StageId} {read : Edge → Option Edge}
    (hread : ∀ e ∈ d.edgesBetween u v, read e = some e) :
    (d.edgesBetween u v).filterMap (fun e => (read e).map (·.latencyBound)) =
      d.boundsEnforced u v := by
  rw [boundsEnforced, ← List.filterMap_eq_map]
  apply List.filterMap_congr
  intro e he
  rw [hread e he]
  rfl

/-- The index returns the last edge that was added between two stages, which equals the
others when they have its bound. -/
theorem WellFormed.getEdge_of_unique (h : d.WellFormed) {e : Edge} (he : e ∈ d.edges)
    (hunique : UniqueBounds d.edges) : d.getEdge e.sourceId e.targetId = some e := by
  have hmem : e ∈ d.edgesBetween e.sourceId e.targetId := mem_edgesBetween.mpr ⟨he, rfl, rfl⟩
  have hne := List.ne_nil_of_mem hmem
  have hlast := mem_edgesBetween.mp (List.getLast_mem hne)
  have hbound := hunique _ hlast.1 e he hlast.2.1 hlast.2.2
  have heq : (d.edgesBetween e.sourceId e.targetId).getLast hne = e := by
    generalize (d.edgesBetween e.sourceId e.targetId).getLast hne = last at hlast hbound
    cases last
    cases e
    simp_all
  rw [h.getEdge_eq]
  exact (List.getLast?_eq_some_getLast hne).trans (congrArg some heq)

theorem WellFormed.edgesAgree_iff (h : d.WellFormed) : EdgesAgree d ↔ UniqueBounds d.edges := by
  constructor
  · intro hagree e he e' he' hsource htarget
    have hget := hagree.getEdge e he
    rw [hsource, htarget, hagree.getEdge e' he'] at hget
    rw [Option.some.inj hget]
  · intro hunique
    have hindex : ∀ e ∈ d.edges, d.getEdge e.sourceId e.targetId = some e := fun e he =>
      h.getEdge_of_unique he hunique
    constructor
    · exact hindex
    · exact h.count_successors
    · intro u v
      rw [h.count_predecessors, h.count_successors]
    · intro u v
      rw [boundsReadAtTarget, h.predecessors_filter, List.filterMap_map]
      apply filterMap_edgesBetween
      intro e he
      rw [mem_edgesBetween] at he
      obtain ⟨he, rfl, rfl⟩ := he
      exact hindex e he
    · intro u v
      rw [boundsReadAtSource, h.successors_filter, List.filterMap_map]
      apply filterMap_edgesBetween
      intro e he
      rw [mem_edgesBetween] at he
      obtain ⟨he, rfl, rfl⟩ := he
      exact hindex e he

/-! ## Second bounds -/

theorem addEdge_edges (d : PipelineDAG) (edge : Edge) :
    (d.addEdge edge).2.edges = d.edges ∨ (d.addEdge edge).2.edges = d.edges ++ [edge] := by
  unfold addEdge
  split
  · exact .inl rfl
  split
  · exact .inl rfl
  split
  · exact .inl rfl
  · exact .inr rfl

/-- An edge between stages that are joined already goes through. -/
theorem WellFormed.addEdge_edges_of_mem (h : d.WellFormed) {edge e : Edge} (he : e ∈ d.edges)
    (hsource : e.sourceId = edge.sourceId) (htarget : e.targetId = edge.targetId) :
    (d.addEdge edge).2.edges = d.edges ++ [edge] := by
  have hreach : ¬ d.canReach edge.targetId edge.sourceId = true := by
    rw [h.canReach_iff]
    intro hback
    have hstep : edge.targetId ∈ d.successors edge.sourceId :=
      h.mem_successors.mpr ⟨e, he, hsource, htarget⟩
    exact h.acyclic edge.sourceId (.head' hstep hback)
  unfold PipelineDAG.addEdge
  rw [if_neg (not_not.mpr (hsource ▸ h.source_mem e he)),
    if_neg (not_not.mpr (htarget ▸ h.target_mem e he)), if_neg hreach]

theorem uniqueBounds_concat_iff {edges : List Edge} {edge : Edge} :
    UniqueBounds (edges ++ [edge]) ↔ UniqueBounds edges ∧ ∀ e ∈ edges,
      e.sourceId = edge.sourceId → e.targetId = edge.targetId →
        e.latencyBound = edge.latencyBound := by
  constructor
  · intro h
    constructor
    · exact fun e he e' he' => h e (List.mem_append_left _ he) e' (List.mem_append_left _ he')
    · exact fun e he => h e (List.mem_append_left _ he) edge (by simp)
  · rintro ⟨h, hedge⟩ e he e' he' hsource htarget
    rcases List.mem_append.mp he with he | he <;> rcases List.mem_append.mp he' with he' | he'
    · exact h e he e' he' hsource htarget
    · cases List.mem_singleton.mp he'
      exact hedge e he hsource htarget
    · cases List.mem_singleton.mp he
      exact (hedge e' he' hsource.symm htarget.symm).symm
    · cases List.mem_singleton.mp he
      cases List.mem_singleton.mp he'
      rfl

/-- The call gives no second bound to stages that an edge joins already. -/
def KeepsBounds (d : PipelineDAG) : BuilderCall → Prop
  | .addStage _ => True
  | .addEdge edge => ∀ e ∈ d.edges, e.sourceId = edge.sourceId → e.targetId = edge.targetId →
      e.latencyBound = edge.latencyBound

theorem WellFormed.uniqueBounds_perform_iff (h : d.WellFormed) (call : BuilderCall) :
    UniqueBounds (d.perform call).2.edges ↔ UniqueBounds d.edges ∧ d.KeepsBounds call := by
  cases call with
  | addStage stage =>
    have hedges : (d.addStage stage).2.edges = d.edges := by
      unfold PipelineDAG.addStage
      split <;> rfl
    simp only [perform, hedges, KeepsBounds, and_true]
  | addEdge edge =>
    rcases d.addEdge_edges edge with hedges | hedges
    · -- a call that raises meets no edge between the same stages
      have hkeeps : d.KeepsBounds (.addEdge edge) := by
        intro e he hsource htarget
        have happend := h.addEdge_edges_of_mem he hsource htarget
        rw [hedges] at happend
        exact absurd (congrArg List.length happend) (by simp)
      simp only [perform, hedges, hkeeps, and_true]
    · rw [perform, hedges, uniqueBounds_concat_iff]
      rfl

theorem uniqueBounds_build_iff (calls : List BuilderCall) (valueBudget : Option ℚ) :
    UniqueBounds (build calls valueBudget).edges ↔
      ∀ pre call, pre ++ [call] <+: calls → (build pre valueBudget).KeepsBounds call := by
  induction calls using List.reverseRecOn with
  | nil =>
    refine iff_of_true (by simp [UniqueBounds, empty]) ?_
    intro pre call hpre
    simp at hpre
  | append_singleton calls last ih =>
    rw [build_concat, (wellFormed_build calls valueBudget).uniqueBounds_perform_iff, ih]
    constructor
    · rintro ⟨hinit, hlast⟩ pre call hpre
      rcases List.prefix_concat_iff.mp hpre with heq | hpre
      · cases List.append_inj' heq rfl with
        | intro hpre hcall =>
          cases hpre
          cases hcall
          exact hlast
      · exact hinit pre call hpre
    · intro h
      exact ⟨fun pre call hpre => h pre call (hpre.trans (List.prefix_append _ _)),
        h calls last List.prefix_rfl⟩

end Agreement

/-- The edge representations agree after a sequence of calls exactly when no call of it
gave a second bound to stages that an edge joined already. -/
theorem edgesAgree_build_iff (calls : List BuilderCall) (valueBudget : Option ℚ) :
    EdgesAgree (build calls valueBudget) ↔
      ∀ pre call, pre ++ [call] <+: calls → (build pre valueBudget).KeepsBounds call := by
  rw [(wellFormed_build calls valueBudget).edgesAgree_iff, uniqueBounds_build_iff]

private def reboundCalls : List BuilderCall :=
  [.addStage ⟨"a", "sense", 1, 1, none, none, none⟩,
    .addStage ⟨"b", "filter", 1, 1, none, none, none⟩,
    .addEdge ⟨"a", "b", 10⟩, .addEdge ⟨"a", "b", 20⟩]

private def twoNodes : NetworkTopology where
  nodes := [⟨"n1", "d", "s", 1, 0, none⟩, ⟨"n2", "d", "s", 1, 0, none⟩]
  latencyMatrix := .ofList [(("n1", "n2"), 15)]

/-- With bounds 10 and 20 for one pair of stages, the per-stage check accepts a latency of
15 that the whole check rejects. -/
theorem not_edgesAgree_build :
    ¬ EdgesAgree (build reboundCalls none) ∧
      isNodeFeasible ⟨"b", "filter", 1, 1, none, none, none⟩ ⟨"n2", "d", "s", 1, 0, none⟩
        (build reboundCalls none) twoNodes {} (.ofList [("a", "n1")]) .empty = .ok true ∧
      checkFeasibility (.ofList [("a", "n1"), ("b", "n2")]) (build reboundCalls none) twoNodes {} =
        .ok (false, [.latency "a" "b" 15 10 "n1" "n2"]) := by
  refine ⟨fun hagree => ?_, by decide +kernel, by decide +kernel⟩
  have hget := hagree.getEdge ⟨"a", "b", 10⟩ (by decide +kernel)
  revert hget
  decide +kernel

end PipelineDAG
end NeuralPubSub
