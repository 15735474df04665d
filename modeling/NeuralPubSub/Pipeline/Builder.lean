-- SUMMARY: The builder's call sequences: acyclicity after every call, and the loops of the reachability test and the topological sort run to their end.
import NeuralPubSub.Base.Scan
import NeuralPubSub.Pipeline.DagInvariants

open Base

/-!
# Builder calls

A client builds a DAG by `add_stage` and `add_edge` calls and goes on after a call that
raises. The loops of `_can_reach` and `topological_sort` are given once more with their
fuel and the exceptions of their subscripts explicit; they end with the results of
`canReach` and `topologicalSort`.
-/

namespace NeuralPubSub
namespace PipelineDAG

inductive BuilderCall where
  | addStage (stage : Stage)
  | addEdge (edge : Edge)
  deriving DecidableEq, Repr

def perform (d : PipelineDAG) : BuilderCall → Except PyError Unit × PipelineDAG
  | .addStage stage => d.addStage stage
  | .addEdge edge => d.addEdge edge

/-- The DAG after a sequence of calls. -/
def build (calls : List BuilderCall) (valueBudget : Option ℚ) : PipelineDAG :=
  calls.foldl (fun d call => (d.perform call).2) (.empty valueBudget)

@[simp] theorem build_nil (valueBudget : Option ℚ) : build [] valueBudget = .empty valueBudget := rfl

theorem build_concat (calls : List BuilderCall) (call : BuilderCall) (valueBudget : Option ℚ) :
    build (calls ++ [call]) valueBudget = ((build calls valueBudget).perform call).2 := by
  simp [build]

theorem built_build (calls : List BuilderCall) (valueBudget : Option ℚ) :
    (build calls valueBudget).Built := by
  induction calls using List.reverseRecOn with
  | nil => exact .empty valueBudget
  | append_singleton calls call ih =>
    rw [build_concat]
    cases call with
    | addStage stage => exact ih.addStage stage
    | addEdge edge => exact ih.addEdge edge

theorem wellFormed_build (calls : List BuilderCall) (valueBudget : Option ℚ) :
    (build calls valueBudget).WellFormed :=
  (built_build calls valueBudget).wellFormed

/-! ## Cycles -/

/-- An edge leads from `u` to `v`. -/
def Joined (edges : List Edge) (u v : StageId) : Prop :=
  ∃ e ∈ edges, e.sourceId = u ∧ e.targetId = v

def HasCycle (edges : List Edge) : Prop := ∃ v, Relation.TransGen (Joined edges) v v

/-- The successor lists of a list of edges. -/
def targetsOf (edges : List Edge) (u : StageId) : List StageId :=
  (edges.filter (·.sourceId = u)).map (·.targetId)

theorem mem_targetsOf {edges : List Edge} {u v : StageId} :
    v ∈ targetsOf edges u ↔ Joined edges u v := by
  simp [targetsOf, Joined, and_assoc]

theorem adj_targetsOf (edges : List Edge) : Base.Graph.Adj (targetsOf edges) = Joined edges := by
  funext u v
  exact propext mem_targetsOf

theorem hasCycle_iff {edges : List Edge} : HasCycle edges ↔ ¬ Graph.Acyclic (targetsOf edges) := by
  simp only [HasCycle, Graph.Acyclic, adj_targetsOf, not_forall, not_not]

variable {d : PipelineDAG}

theorem WellFormed.successors_eq_targetsOf (h : d.WellFormed) :
    d.successors = targetsOf d.edges :=
  funext h.successors_eq

theorem WellFormed.not_hasCycle (h : d.WellFormed) : ¬ HasCycle d.edges := by
  rw [hasCycle_iff, not_not, ← h.successors_eq_targetsOf]
  exact h.acyclic

theorem WellFormed.canReach_iff_joined (h : d.WellFormed) (fromId toId : StageId) :
    d.canReach fromId toId = true ↔ Relation.ReflTransGen (Joined d.edges) fromId toId := by
  rw [h.canReach_iff, h.successors_eq_targetsOf, Graph.Reaches, adj_targetsOf]

/-- A new edge closes a cycle exactly when its target reaches its source. -/
theorem WellFormed.hasCycle_concat_iff (h : d.WellFormed) (edge : Edge) :
    HasCycle (d.edges ++ [edge]) ↔ d.canReach edge.targetId edge.sourceId = true := by
  have hedge : ∀ u v, v ∈ targetsOf (d.edges ++ [edge]) u ↔
      v ∈ d.successors u ∨ u = edge.sourceId ∧ v = edge.targetId := by
    intro u v
    rw [h.successors_eq_targetsOf, mem_targetsOf, mem_targetsOf]
    simp only [Joined, List.mem_append, List.mem_singleton, or_and_right, exists_or,
      exists_eq_left, eq_comm (a := edge.sourceId), eq_comm (a := edge.targetId)]
  rw [hasCycle_iff, h.acyclic.extra_edge_iff hedge, not_not, h.canReach_iff]

/-! ## Calls that raise -/

theorem addStage_raises {stage : Stage} {err : PyError} (h : (d.addStage stage).1 = .error err) :
    (d.addStage stage).2 = d := by
  unfold addStage at h ⊢
  split at h
  · rw [if_pos (by assumption)]
  · cases h

theorem addEdge_raises {edge : Edge} {err : PyError} (h : (d.addEdge edge).1 = .error err) :
    (d.addEdge edge).2 = d := by
  unfold addEdge at h ⊢
  split_ifs at h ⊢ <;> rfl

/-- Between stages of the DAG the reachability test alone decides. -/
theorem addEdge_raises_iff {edge : Edge} (hsource : edge.sourceId ∈ d.stages)
    (htarget : edge.targetId ∈ d.stages) :
    (∃ msg, (d.addEdge edge).1 = .error (.value msg)) ↔
      d.canReach edge.targetId edge.sourceId = true := by
  unfold addEdge
  rw [if_neg (not_not.mpr hsource), if_neg (not_not.mpr htarget)]
  by_cases hreach : d.canReach edge.targetId edge.sourceId = true
  · rw [if_pos hreach]
    exact iff_of_true ⟨_, rfl⟩ hreach
  · rw [if_neg hreach]
    refine iff_of_false ?_ hreach
    rintro ⟨msg, hmsg⟩
    cases hmsg

/-! ## The search ends -/

/-- `_can_reach` with the fuel of its loop. -/
def canReachWithin (d : PipelineDAG) (fuel : Nat) (fromId toId : StageId) : Option Bool :=
  if fromId = toId then some true
  else Graph.bfsWithin d.successors toId fuel [fromId] ∅

theorem WellFormed.returns_canReachWithin (h : d.WellFormed) (fromId toId : StageId) :
    Returns (fun fuel => d.canReachWithin fuel fromId toId) (d.canReach fromId toId) := by
  refine ⟨d.stages.keys.length + 1, fun fuel hfuel => ?_⟩
  simp only [canReachWithin, canReach]
  split
  · rfl
  · rw [Graph.bfsWithin_eq h.successor_mem_toFinset (Finset.empty_subset _)
        (search_fuel hfuel fromId), Option.some.injEq, Bool.eq_iff_iff, h.bfs_eq_true_iff hfuel,
      h.bfs_eq_true_iff le_rfl]

/-- The builder keeps the graph acyclic, refuses exactly the edges that would close a
cycle, and leaves the DAG alone when it raises. -/
theorem build_acyclic (calls : List BuilderCall) (valueBudget : Option ℚ) :
    let d := build calls valueBudget
    ¬ HasCycle d.edges ∧ Graph.Acyclic d.successors ∧
      (∀ fromId toId, Returns (fun fuel => d.canReachWithin fuel fromId toId)
          (d.canReach fromId toId) ∧
        (d.canReach fromId toId = true ↔ Relation.ReflTransGen (Joined d.edges) fromId toId)) ∧
      (∀ edge, edge.sourceId ∈ d.stages → edge.targetId ∈ d.stages →
        ((∃ msg, (d.addEdge edge).1 = .error (.value msg)) ↔ HasCycle (d.edges ++ [edge]))) ∧
      ∀ call err, (d.perform call).1 = .error err → (d.perform call).2 = d := by
  have h := wellFormed_build calls valueBudget
  refine ⟨h.not_hasCycle, h.acyclic, ?_, ?_, ?_⟩
  · exact fun fromId toId => ⟨h.returns_canReachWithin fromId toId, h.canReach_iff_joined fromId toId⟩
  · intro edge hsource htarget
    rw [addEdge_raises_iff hsource htarget, h.hasCycle_concat_iff]
  · intro call err herr
    cases call with
    | addStage stage => exact addStage_raises herr
    | addEdge edge => exact addEdge_raises herr

/-! ## The sort ends -/

/-- The in-degrees, counted from the edge list. -/
def countInDegree (d : PipelineDAG) : Except PyError (Dict StageId Int) :=
  d.edges.foldlM (fun inDegree edge => do
    let deg ← subscript inDegree edge.targetId
    return inDegree.insert edge.targetId (deg + 1))
    (Dict.ofList (d.stages.keys.map fun sid => (sid, 0)))

def relaxStep (s : Dict StageId Int × List StageId) (succ : StageId) :
    Except PyError (Dict StageId Int × List StageId) := do
  let deg ← subscript s.1 succ
  let inDegree := s.1.insert succ (deg - 1)
  return (inDegree, if deg - 1 = 0 then s.2 ++ [succ] else s.2)

/-- What the loop of `topological_sort` carries. -/
structure SortState where
  inDegree : Dict StageId Int
  queue : List StageId
  order : List StageId

def sortStep (d : PipelineDAG) (s : SortState) : Except PyError SortState :=
  match s.queue with
  | [] => .ok s
  | current :: queue => do
    let (inDegree, queue) ← (d.successors current).foldlM relaxStep (s.inDegree, queue)
    return ⟨inDegree, queue, s.order ++ [current]⟩

/-- `topological_sort` with the fuel of its loop. -/
def topologicalSortWithin (d : PipelineDAG) (fuel : Nat) :
    Option (Except PyError (List StageId)) :=
  match d.countInDegree with
  | .error e => some (.error e)
  | .ok inDegree =>
    let queue := inDegree.keys.filter fun sid => inDegree.getD sid 0 = 0
    (whileLoop (fun s : SortState => s.queue ≠ []) d.sortStep fuel ⟨inDegree, queue, []⟩).map
      fun r => do
        let s ← r
        if s.order.length ≠ d.stages.keys.length then
          .error (.runtime "Topological sort failed: the graph contains a cycle.")
        else .ok s.order

theorem WellFormed.countInDegree_eq (h : d.WellFormed) : d.countInDegree = .ok d.inDegree := by
  have hloop : ∀ (es : List Edge) (inDegree : Dict StageId Int),
      (∀ e ∈ es, e.targetId ∈ inDegree) →
      es.foldlM (fun inDegree edge => do
          let deg ← subscript inDegree edge.targetId
          return inDegree.insert edge.targetId (deg + 1)) inDegree =
        (.ok (es.foldl (fun indeg e => indeg.modify e.targetId (· + 1)) inDegree) :
          Except PyError (Dict StageId Int)) := by
    intro es
    induction es with
    | nil => exact fun _ _ => rfl
    | cons e es ih =>
      intro inDegree hes
      obtain ⟨deg, hdeg⟩ := Dict.exists_get?_of_mem (hes e List.mem_cons_self)
      rw [List.foldlM_cons, subscript_eq_ok_iff.mpr hdeg, List.foldl_cons,
        Dict.modify_eq_insert hdeg]
      apply ih
      intro e' he'
      rw [Dict.mem_insert]
      exact .inr (hes e' (List.mem_cons_of_mem _ he'))
  apply hloop
  intro e he
  rw [Dict.mem_iff_mem_keys, Dict.keys_ofList_const d.stages.keys_nodup]
  exact h.target_mem e he

/-- No subscript of the inner loop raises on listed successors. -/
theorem relaxStep_loop {succs : List StageId} {inDegree : Dict StageId Int}
    (hsuccs : ∀ succ ∈ succs, succ ∈ inDegree) (queue : List StageId) :
    succs.foldlM relaxStep (inDegree, queue) = .ok (Graph.relax succs inDegree queue) := by
  induction succs generalizing inDegree queue with
  | nil => rfl
  | cons succ succs ih =>
    obtain ⟨deg, hdeg⟩ := Dict.exists_get?_of_mem (hsuccs succ List.mem_cons_self)
    have hrest : ∀ x ∈ succs, x ∈ inDegree.insert succ (deg - 1) := fun x hx =>
      Dict.mem_insert.mpr (.inr (hsuccs x (List.mem_cons_of_mem _ hx)))
    have hstep : relaxStep (inDegree, queue) succ = .ok (inDegree.insert succ (deg - 1),
        if deg - 1 = 0 then queue ++ [succ] else queue) := by
      simp only [relaxStep, subscript_eq_ok_iff.mpr hdeg]
      rfl
    have hleft : (inDegree.insert succ (deg - 1)).getD succ 0 = deg - 1 := by
      rw [Dict.getD_insert, if_pos rfl]
    rw [List.foldlM_cons, hstep]
    simp only [Graph.relax, Dict.modify_eq_insert hdeg, hleft]
    split <;> exact ih hrest _

/-- The state of the loop, from which `kahn` has the remaining rounds still to do. -/
structure Sorting (d : PipelineDAG) (result : List StageId) (s : SortState) : Prop where
  inv : Graph.KahnInv d.successors d.stages.keys s.inDegree s.queue s.order
  result_eq : Graph.kahn d.successors (d.stages.keys.length - s.order.length) s.inDegree s.queue
    s.order = result

theorem Sorting.step (h : d.WellFormed) {result : List StageId} {s : SortState}
    (hs : Sorting d result s) (hqueue : s.queue ≠ []) :
    ∃ s', d.sortStep s = .ok s' ∧ Sorting d result s' ∧
      d.stages.keys.length - s'.order.length < d.stages.keys.length - s.order.length := by
  obtain ⟨inDegree, queue, order⟩ := s
  cases queue with
  | nil => exact absurd rfl hqueue
  | cons current queue =>
    have hinv : Graph.KahnInv d.successors d.stages.keys inDegree (current :: queue) order := hs.inv
    have hsuccs : ∀ succ ∈ d.successors current, succ ∈ inDegree := by
      intro succ hsucc
      rw [Dict.mem_iff_mem_keys, hinv.keys]
      exact h.successor_mem hsucc
    have hlen : order.length < d.stages.keys.length := by
      have hle := (hinv.nodup.subperm hinv.sub).length_le
      rw [List.length_append, List.length_cons] at hle
      omega
    let relaxed := Graph.relax (d.successors current) inDegree queue
    refine ⟨⟨relaxed.1, relaxed.2, order ++ [current]⟩, ?_, ⟨?_, ?_⟩, ?_⟩
    · simp only [sortStep, relaxStep_loop hsuccs]
      rfl
    · exact hinv.step d.stages.keys_nodup (fun _ _ _ => h.successor_mem)
        fun _ _ => h.predecessor_mem
    · have hfuel : d.stages.keys.length - order.length =
          d.stages.keys.length - (order ++ [current]).length + 1 := by
        rw [List.length_append, List.length_singleton]
        omega
      have hresult := hs.result_eq
      simp only [hfuel, Graph.kahn] at hresult
      exact hresult
    · simp only [List.length_append, List.length_singleton]
      omega

theorem WellFormed.returns_topologicalSortWithin (h : d.WellFormed) :
    Returns (fun fuel => d.topologicalSortWithin fuel) d.topologicalSort := by
  have hinit : Sorting d (Graph.kahn d.successors d.stages.keys.length d.inDegree
      (d.inDegree.keys.filter fun sid => d.inDegree.getD sid 0 = 0) [])
      ⟨d.inDegree, d.inDegree.keys.filter fun sid => d.inDegree.getD sid 0 = 0, []⟩ :=
    ⟨h.kahnInv, rfl⟩
  rcases whileLoop_total (fun s : SortState => d.stages.keys.length - s.order.length)
    (fun _ hs (hqueue : _ ≠ []) => Sorting.step h hs hqueue) hinit with ⟨s, hreturns, hs, hend⟩
  have horder : s.order = Graph.kahn d.successors d.stages.keys.length d.inDegree
      (d.inDegree.keys.filter fun sid => d.inDegree.getD sid 0 = 0) [] := by
    have hresult := hs.result_eq
    rw [not_not.mp hend] at hresult
    rw [← hresult]
    cases d.stages.keys.length - s.order.length <;> rfl
  have hsort := hreturns.map fun r => do
    let s ← r
    if s.order.length ≠ d.stages.keys.length then
      .error (.runtime "Topological sort failed: the graph contains a cycle.")
    else .ok s.order
  simp only [topologicalSortWithin, h.countInDegree_eq, topologicalSort, ← horder]
  exact hsort

/-- A topological order puts the source of an edge before its target. -/
theorem idxOf_lt_of_topoOrdered {order : List StageId} (htopo : Graph.TopoOrdered d.successors order)
    (hnodup : order.Nodup) {u v : StageId} (hv : v ∈ order) (huv : v ∈ d.successors u) :
    order.idxOf u < order.idxOf v := by
  obtain ⟨pre, post, rfl⟩ := List.append_of_mem hv
  have hu : u ∈ pre := htopo pre v post rfl u huv
  have hvpre : v ∉ pre := fun hmem => (List.nodup_append.mp hnodup).2.2 v hmem v (by simp) rfl
  rw [List.idxOf_append_of_mem hu, List.idxOf_append_of_notMem hvpre, List.idxOf_cons_self, add_zero]
  exact List.idxOf_lt_length_of_mem hu

/-- The topological sort of a built DAG ends without an exception, with an order of the
stages that puts the source of every edge before its target. -/
theorem topologicalSort_total (calls : List BuilderCall) (valueBudget : Option ℚ) :
    let d := build calls valueBudget
    ∃ order, Returns (fun fuel => d.topologicalSortWithin fuel) (.ok order) ∧
      d.topologicalSort = .ok order ∧ order.Perm d.stages.keys ∧
      ∀ e ∈ d.edges, order.idxOf e.sourceId < order.idxOf e.targetId := by
  have h := wellFormed_build calls valueBudget
  obtain ⟨order, hsort, hperm, htopo⟩ := h.topologicalSort_eq
  refine ⟨order, hsort ▸ h.returns_topologicalSortWithin, hsort, hperm, ?_⟩
  intro e he
  have htarget := hperm.mem_iff.mpr (Dict.mem_iff_mem_keys.mp (h.target_mem e he))
  have hnodup := hperm.nodup_iff.mpr (build calls valueBudget).stages.keys_nodup
  exact idxOf_lt_of_topoOrdered htopo hnodup htarget (h.mem_successors.mpr ⟨e, he, rfl, rfl⟩)

end PipelineDAG
end NeuralPubSub
