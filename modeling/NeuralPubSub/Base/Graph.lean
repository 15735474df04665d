-- SUMMARY: Breadth-first reachability and Kahn's ordering on a graph given by its successor lists, with their correctness.
import NeuralPubSub.Base.Dict

/-!
# Reachability and topological order

A directed graph is a function `succ` from a vertex to the list of its
successors; a vertex that occurs twice in the list stands for two parallel
edges. `bfs` searches the graph from a queue of vertices, `kahn` orders its
vertices. Both carry a fuel argument; the correctness theorems say how much
fuel is enough.
-/

namespace Base.Graph

variable {α : Type}

/-- There is an edge from `u` to `v`. -/
def Adj (succ : α → List α) (u v : α) : Prop := v ∈ succ u

abbrev Reaches (succ : α → List α) : α → α → Prop := Relation.ReflTransGen (Adj succ)

/-- No vertex reaches itself along one or more edges. -/
def Acyclic (succ : α → List α) : Prop := ∀ v, ¬ Relation.TransGen (Adj succ) v v

/-- Every vertex stands after all its predecessors. -/
def TopoOrdered (succ : α → List α) (order : List α) : Prop :=
  ∀ pre v post, order = pre ++ v :: post → ∀ u, v ∈ succ u → u ∈ pre

variable {succ : α → List α}

/-! ## Topological orders -/

theorem TopoOrdered.succ_not_mem {order done rest : List α} {v w : α}
    (h : TopoOrdered succ order) (hnodup : order.Nodup) (horder : order = done ++ v :: rest)
    (hw : w ∈ succ v) : w ∉ done := by
  intro hmem
  obtain ⟨pre, post, rfl⟩ := List.append_of_mem hmem
  have hv : v ∈ pre := h pre w (post ++ v :: rest) (by simp [horder]) v hw
  rw [horder] at hnodup
  have hdisj := (List.nodup_append.mp hnodup).2.2
  exact hdisj v (by simp [hv]) v (by simp) rfl

/-! ## Acyclic graphs -/

theorem Acyclic.ne_of_adj (h : Acyclic succ) {u v : α} (huv : v ∈ succ u) : u ≠ v := by
  rintro rfl
  exact h u (.single huv)

/-- A nonempty finite set of vertices of an acyclic graph has a vertex without
a predecessor in the set. -/
theorem Acyclic.exists_source (h : Acyclic succ) {s : Finset α} (hs : s.Nonempty) :
    ∃ v ∈ s, ∀ u ∈ s, v ∉ succ u := by
  let r : s → s → Prop := fun u v => Relation.TransGen (Adj succ) u v
  have hirr : Std.Irrefl r := ⟨fun v => h v⟩
  have htrans : IsTrans s r := ⟨fun _ _ _ h₁ h₂ => Relation.TransGen.trans h₁ h₂⟩
  have hwf : WellFounded r := Finite.wellFounded_of_trans_of_irrefl r
  obtain ⟨x, hx⟩ := hs
  obtain ⟨⟨v, hv⟩, -, hmin⟩ := hwf.has_min Set.univ ⟨⟨x, hx⟩, trivial⟩
  exact ⟨v, hv, fun u hu huv => hmin ⟨u, hu⟩ trivial (.single huv)⟩

/-- A nonempty finite set of vertices of an acyclic graph has a vertex without
a successor in the set. -/
theorem Acyclic.exists_sink (h : Acyclic succ) {s : Finset α} (hs : s.Nonempty) :
    ∃ v ∈ s, ∀ u ∈ s, u ∉ succ v := by
  let r : s → s → Prop := fun u v => Relation.TransGen (Adj succ) v u
  have hirr : Std.Irrefl r := ⟨fun v => h v⟩
  have htrans : IsTrans s r := ⟨fun _ _ _ h₁ h₂ => Relation.TransGen.trans h₂ h₁⟩
  have hwf : WellFounded r := Finite.wellFounded_of_trans_of_irrefl r
  obtain ⟨x, hx⟩ := hs
  obtain ⟨⟨v, hv⟩, -, hmin⟩ := hwf.has_min Set.univ ⟨⟨x, hx⟩, trivial⟩
  exact ⟨v, hv, fun u hu huv => hmin ⟨u, hu⟩ trivial (.single huv)⟩

/-- A path that may use the extra edge from `a` to `b` either avoids it or
passes through it. -/
theorem transGen_of_extra_edge {succ' : α → List α} {a b : α}
    (hsub : ∀ u v, v ∈ succ' u → v ∈ succ u ∨ u = a ∧ v = b) {u v : α}
    (h : Relation.TransGen (Adj succ') u v) :
    Relation.TransGen (Adj succ) u v ∨ Reaches succ u a ∧ Reaches succ b v := by
  induction h with
  | single h =>
    rcases hsub _ _ h with h | ⟨rfl, rfl⟩
    · exact .inl (.single h)
    · exact .inr ⟨.refl, .refl⟩
  | tail _ h ih =>
    rcases hsub _ _ h with h | ⟨rfl, rfl⟩
    · rcases ih with ih | ⟨ih₁, ih₂⟩
      · exact .inl (ih.tail h)
      · exact .inr ⟨ih₁, ih₂.tail h⟩
    · rcases ih with ih | ⟨ih₁, _⟩
      · exact .inr ⟨ih.to_reflTransGen, .refl⟩
      · exact .inr ⟨ih₁, .refl⟩

/-- Adding an edge whose target does not reach its source closes no cycle. -/
theorem Acyclic.of_extra_edge {succ' : α → List α} {a b : α} (h : Acyclic succ)
    (hab : ¬ Reaches succ b a) (hsub : ∀ u v, v ∈ succ' u → v ∈ succ u ∨ u = a ∧ v = b) :
    Acyclic succ' := by
  intro v hv
  rcases transGen_of_extra_edge hsub hv with hv | ⟨h₁, h₂⟩
  · exact h v hv
  · exact hab (h₂.trans h₁)

/-- One more edge leaves the graph acyclic exactly when its target does not reach its source. -/
theorem Acyclic.extra_edge_iff {succ' : α → List α} {a b : α} (h : Acyclic succ)
    (hsucc' : ∀ u v, v ∈ succ' u ↔ v ∈ succ u ∨ u = a ∧ v = b) :
    Acyclic succ' ↔ ¬ Reaches succ b a := by
  constructor
  · intro h' hba
    have hold : ∀ u v, Adj succ u v → Adj succ' u v := fun u v huv => (hsucc' u v).mpr (.inl huv)
    have hnew : Adj succ' a b := (hsucc' a b).mpr (.inr ⟨rfl, rfl⟩)
    exact h' a (.head' hnew (Relation.ReflTransGen.mono hold _ _ hba))
  · intro hab
    exact h.of_extra_edge hab fun u v huv => (hsucc' u v).mp huv

variable [DecidableEq α]

/-! ## Breadth-first search -/

/-- Look at the successors of one vertex: `none` when the target is among them,
otherwise the visited set and the queue with the new vertices added. -/
def visit (target : α) : List α → Finset α → List α → Option (Finset α × List α)
  | [], visited, queue => some (visited, queue)
  | v :: vs, visited, queue =>
    if v = target then none
    else if v ∉ visited then visit target vs (insert v visited) (queue ++ [v])
    else visit target vs visited queue

/-- Is the target a proper successor of a vertex that the queue leads to? -/
def bfs (succ : α → List α) (target : α) : Nat → List α → Finset α → Bool
  | 0, _, _ => false
  | _ + 1, [], _ => false
  | n + 1, v :: queue, visited =>
    match visit target (succ v) visited queue with
    | none => true
    | some (visited', queue') => bfs succ target n queue' visited'

theorem visit_eq_none_iff {target : α} {vs : List α} {visited : Finset α} {queue : List α} :
    visit target vs visited queue = none ↔ target ∈ vs := by
  induction vs generalizing visited queue with
  | nil => simp [visit]
  | cons v vs ih =>
    by_cases hv : v = target
    · simp [visit, hv]
    · by_cases hmem : v ∈ visited <;> simp [visit, hv, hmem, ih, Ne.symm hv]

/-- What one visit adds: the vertices of the list that were not visited, each
once, both to the visited set and to the queue. -/
theorem visit_spec {target : α} {vs : List α} {visited visited' : Finset α} {queue queue' : List α}
    (h : visit target vs visited queue = some (visited', queue')) :
    visited' = visited ∪ vs.toFinset ∧
      (∃ new, queue' = queue ++ new ∧ ∀ x, x ∈ new ↔ x ∈ vs ∧ x ∉ visited) ∧
      queue'.length + visited.card = queue.length + visited'.card := by
  induction vs generalizing visited queue with
  | nil =>
    simp only [visit, Option.some.injEq, Prod.mk.injEq] at h
    obtain ⟨rfl, rfl⟩ := h
    exact ⟨by simp, ⟨[], by simp⟩, rfl⟩
  | cons v vs ih =>
    simp only [visit] at h
    split at h
    · cases h
    · split at h
      · next hmem =>
        obtain ⟨hvis, ⟨new, hq, hnew⟩, hcard⟩ := ih h
        refine ⟨?_, ⟨v :: new, by simp [hq], ?_⟩, ?_⟩
        · ext x; simp [hvis]
        · intro x
          by_cases hx : x = v
          · simp [hx, hmem]
          · simp [hx, hnew]
        · rw [List.length_append, List.length_singleton, Finset.card_insert_of_notMem hmem] at hcard
          omega
      · next hmem =>
        obtain ⟨hvis, ⟨new, hq, hnew⟩, hcard⟩ := ih h
        have hv : v ∈ visited := not_not.mp hmem
        refine ⟨?_, ⟨new, hq, ?_⟩, hcard⟩
        · ext x; simp only [hvis, Finset.mem_union, List.mem_toFinset, List.mem_cons]
          constructor
          · tauto
          · rintro (hx | rfl | hx)
            · exact .inl hx
            · exact .inl hv
            · exact .inr hx
        · intro x
          by_cases hx : x = v
          · subst hx; simp [hnew, hv]
          · simp [hx, hnew]

/-- The search from `start` between two rounds: what is queued or visited is
reachable, and every visited vertex that left the queue has all its successors
visited. -/
structure BfsInv (succ : α → List α) (start target : α) (queue : List α) (visited : Finset α) :
    Prop where
  reach : ∀ x, x ∈ queue ∨ x ∈ visited → Reaches succ start x
  start : start ∈ queue ∨ ∀ y ∈ succ start, y ∈ visited
  closed : ∀ x ∈ visited, x ∈ queue ∨ ∀ y ∈ succ x, y ∈ visited
  target : target ∉ visited

theorem BfsInv.step {start target v : α} {queue queue' : List α} {visited visited' : Finset α}
    (hinv : BfsInv succ start target (v :: queue) visited)
    (h : visit target (succ v) visited queue = some (visited', queue')) :
    BfsInv succ start target queue' visited' := by
  obtain ⟨rfl, ⟨new, rfl, hnew⟩, -⟩ := visit_spec h
  have htgt : target ∉ succ v := fun ht => by
    rw [visit_eq_none_iff.mpr ht] at h; cases h
  have hv : Reaches succ start v := hinv.reach v (by simp)
  constructor
  · intro x hx
    by_cases hxv : x ∈ succ v
    · exact hv.tail hxv
    · refine hinv.reach x ?_
      simp [hnew, hxv] at hx
      simp only [List.mem_cons]
      tauto
  · rcases hinv.start with hs | hs
    · rcases List.mem_cons.mp hs with rfl | hs
      · exact .inr fun y hy => by simp [hy]
      · exact .inl (by simp [hs])
    · exact .inr fun y hy => by simp [hs y hy]
  · intro x hx
    rcases Finset.mem_union.mp hx with hx | hx
    · rcases hinv.closed x hx with hq | hc
      · rcases List.mem_cons.mp hq with rfl | hq
        · exact .inr fun y hy => by simp [hy]
        · exact .inl (by simp [hq])
      · exact .inr fun y hy => by simp [hc y hy]
    · by_cases hvis : x ∈ visited
      · rcases hinv.closed x hvis with hq | hc
        · rcases List.mem_cons.mp hq with rfl | hq
          · exact .inr fun y hy => by simp [hy]
          · exact .inl (by simp [hq])
        · exact .inr fun y hy => by simp [hc y hy]
      · exact .inl (by simp [hnew, hvis, List.mem_toFinset.mp hx])
  · simp [hinv.target, htgt]

omit [DecidableEq α] in
/-- When the queue is empty the visited set is closed, so it holds every vertex
that the start reaches along at least one edge. -/
theorem BfsInv.mem_visited {start target : α} {visited : Finset α}
    (hinv : BfsInv succ start target [] visited) {y : α}
    (h : Relation.TransGen (Adj succ) start y) : y ∈ visited := by
  induction h with
  | single h => exact (hinv.start.resolve_left (by simp)) _ h
  | tail _ h ih => exact (hinv.closed _ ih).resolve_left (by simp) _ h

/-- The search decides reachability along at least one edge, given one unit of
fuel for each queued vertex and for each vertex of the universe that is not yet
visited. -/
theorem bfs_eq_true_iff {univ : Finset α} (huniv : ∀ u v, v ∈ succ u → v ∈ univ)
    {start target : α} {n : Nat} {queue : List α} {visited : Finset α}
    (hsub : visited ⊆ univ) (hfuel : queue.length + univ.card ≤ n + visited.card)
    (hinv : BfsInv succ start target queue visited) :
    bfs succ target n queue visited = true ↔ Relation.TransGen (Adj succ) start target := by
  induction n generalizing queue visited with
  | zero =>
    have hcard := Finset.card_le_card hsub
    have hnil : queue = [] := List.length_eq_zero_iff.mp (by omega)
    subst hnil
    simp only [bfs, Bool.false_eq_true, false_iff]
    exact fun h => hinv.target (hinv.mem_visited h)
  | succ n ih =>
    cases queue with
    | nil =>
      simp only [bfs, Bool.false_eq_true, false_iff]
      exact fun h => hinv.target (hinv.mem_visited h)
    | cons v queue =>
      simp only [bfs]
      cases hvisit : visit target (succ v) visited queue with
      | none =>
        have hv : Reaches succ start v := hinv.reach v (by simp)
        have : Relation.TransGen (Adj succ) start target :=
          .tail' hv (visit_eq_none_iff.mp hvisit)
        simpa using this
      | some r =>
        obtain ⟨visited', queue'⟩ := r
        obtain ⟨hvis, -, hcard⟩ := visit_spec hvisit
        refine ih ?_ ?_ (hinv.step hvisit)
        · rw [hvis]
          refine Finset.union_subset hsub fun y hy => huniv v y (List.mem_toFinset.mp hy)
        · simp only [List.length_cons] at hfuel
          omega

omit [DecidableEq α] in
theorem BfsInv.init (start target : α) : BfsInv succ start target [start] ∅ :=
  ⟨fun x hx => by obtain rfl : x = start := by simpa using hx
                  exact .refl, by simp, by simp, by simp⟩

/-- `bfs` with the end of its loop made visible: `none` when the fuel runs out first. -/
def bfsWithin (succ : α → List α) (target : α) : Nat → List α → Finset α → Option Bool
  | _, [], _ => some false
  | 0, _ :: _, _ => none
  | n + 1, v :: queue, visited =>
    match visit target (succ v) visited queue with
    | none => some true
    | some (visited', queue') => bfsWithin succ target n queue' visited'

/-- The search ends, with one unit of fuel for each queued vertex and for each vertex of
the universe that is not yet visited. -/
theorem bfsWithin_eq {univ : Finset α} (huniv : ∀ u v, v ∈ succ u → v ∈ univ) {target : α} {n : Nat}
    {queue : List α} {visited : Finset α} (hsub : visited ⊆ univ)
    (hfuel : queue.length + univ.card ≤ n + visited.card) :
    bfsWithin succ target n queue visited = some (bfs succ target n queue visited) := by
  induction n generalizing queue visited with
  | zero =>
    have hcard := Finset.card_le_card hsub
    have hnil : queue = [] := List.length_eq_zero_iff.mp (by omega)
    subst hnil
    rfl
  | succ n ih =>
    cases queue with
    | nil => rfl
    | cons v queue =>
      simp only [bfsWithin, bfs]
      cases hvisit : visit target (succ v) visited queue with
      | none => rfl
      | some r =>
        obtain ⟨visited', queue'⟩ := r
        obtain ⟨rfl, -, hcard⟩ := visit_spec hvisit
        apply ih
        · exact Finset.union_subset hsub fun y hy => huniv v y (List.mem_toFinset.mp hy)
        · rw [List.length_cons] at hfuel
          omega

/-! ## Kahn's algorithm -/

/-- Take one edge off the in-degree of each listed vertex; a vertex whose
in-degree reaches zero is queued. -/
def relax : List α → Dict α Int → List α → Dict α Int × List α
  | [], indeg, queue => (indeg, queue)
  | v :: vs, indeg, queue =>
    let indeg' := indeg.modify v (· - 1)
    if indeg'.getD v 0 = 0 then relax vs indeg' (queue ++ [v]) else relax vs indeg' queue

/-- Move vertices from the queue to the order until the queue is empty. -/
def kahn (succ : α → List α) : Nat → Dict α Int → List α → List α → List α
  | 0, _, _, order => order
  | _ + 1, _, [], order => order
  | n + 1, indeg, v :: queue, order =>
    let (indeg', queue') := relax (succ v) indeg queue
    kahn succ n indeg' queue' (order ++ [v])

@[simp] theorem relax_keys (vs : List α) (indeg : Dict α Int) (queue : List α) :
    (relax vs indeg queue).1.keys = indeg.keys := by
  induction vs generalizing indeg queue with
  | nil => rfl
  | cons v vs ih => simp only [relax]; split <;> simp [ih]

theorem getD_modify_pred {indeg : Dict α Int} {v : α} (h : v ∈ indeg) (x : α) :
    (indeg.modify v (· - 1)).getD x 0 = indeg.getD x 0 - if x = v then 1 else 0 := by
  obtain ⟨d, hd⟩ := Dict.exists_get?_of_mem h
  by_cases hx : x = v
  · subst hx; simp [Dict.getD, Dict.get?_modify, hd]
  · simp [Dict.getD, Dict.get?_modify, hx]

private theorem cast_count_cons (v x : α) (vs : List α) :
    ((v :: vs).count x : Int) = vs.count x + if x = v then 1 else 0 := by
  by_cases h : x = v
  · subst h; simp
  · simp [h, Ne.symm h]

theorem relax_getD {vs : List α} {indeg : Dict α Int} (hvs : ∀ v ∈ vs, v ∈ indeg)
    (queue : List α) (x : α) :
    (relax vs indeg queue).1.getD x 0 = indeg.getD x 0 - vs.count x := by
  induction vs generalizing indeg queue with
  | nil => simp [relax]
  | cons v vs ih =>
    have hvs' : ∀ u ∈ vs, u ∈ indeg.modify v (· - 1) := fun u hu => by
      simp [hvs u (by simp [hu])]
    have hx := getD_modify_pred (hvs v (by simp)) x
    simp only [relax]
    split <;> rw [ih hvs', hx, cast_count_cons] <;> omega

/-- `relax` queues exactly the vertices whose in-degree it takes down to zero,
each once. -/
theorem relax_queue {vs : List α} {indeg : Dict α Int} (hvs : ∀ v ∈ vs, v ∈ indeg)
    (hge : ∀ x, (vs.count x : Int) ≤ indeg.getD x 0) (queue : List α) :
    ∃ new, (relax vs indeg queue).2 = queue ++ new ∧ new.Nodup ∧
      ∀ x, x ∈ new ↔ x ∈ vs ∧ indeg.getD x 0 = vs.count x := by
  induction vs generalizing indeg queue with
  | nil => exact ⟨[], by simp [relax]⟩
  | cons v vs ih =>
    have hv : v ∈ indeg := hvs v (by simp)
    have hvs' : ∀ u ∈ vs, u ∈ indeg.modify v (· - 1) := fun u hu => by
      simp [hvs u (by simp [hu])]
    have hpred := getD_modify_pred hv
    have hcount : ∀ x, ((v :: vs).count x : Int) = vs.count x + if x = v then 1 else 0 :=
      fun x => cast_count_cons v x vs
    have hge' : ∀ x, (vs.count x : Int) ≤ (indeg.modify v (· - 1)).getD x 0 := by
      intro x
      have := hge x
      rw [hcount] at this
      rw [hpred]
      omega
    have hmem : ∀ x, x ∈ vs ↔ 0 < vs.count x := fun x => List.count_pos_iff.symm
    simp only [relax]
    split
    · next hzero =>
      -- the last edge into `v` is gone: `v` is queued here and does not occur again in `vs`
      have hzero' : vs.count v = 0 := by have := hge' v; omega
      obtain ⟨new, hq, hnd, hnew⟩ := ih hvs' hge' (queue ++ [v])
      refine ⟨v :: new, by simp [hq], ?_, ?_⟩
      · refine List.nodup_cons.mpr ⟨fun hvn => ?_, hnd⟩
        have := ((hnew v).mp hvn).1
        rw [hmem] at this
        omega
      · intro x
        have hx := hpred x
        have hc := hcount x
        by_cases hxv : x = v
        · subst hxv
          simp only [List.mem_cons_self, true_and, true_iff]
          simp only [if_true] at hx hc
          omega
        · simp only [hxv, if_false, List.mem_cons, false_or, hnew] at hx hc ⊢
          constructor <;> rintro ⟨h₁, h₂⟩ <;> exact ⟨h₁, by omega⟩
    · next hzero =>
      obtain ⟨new, hq, hnd, hnew⟩ := ih hvs' hge' queue
      refine ⟨new, hq, hnd, ?_⟩
      intro x
      have hx := hpred x
      have hc := hcount x
      by_cases hxv : x = v
      · subst hxv
        simp only [if_true] at hx hc
        rw [hnew, hmem]
        simp only [List.mem_cons_self, true_and]
        have := hge' x
        constructor
        · rintro ⟨h₁, h₂⟩; omega
        · intro h; exact ⟨by omega, by omega⟩
      · simp only [hxv, if_false, List.mem_cons, false_or, hnew] at hx hc ⊢
        constructor <;> rintro ⟨h₁, h₂⟩ <;> exact ⟨h₁, by omega⟩

/-- Number of edges into `x` from vertices of `nodes` outside `order`. -/
def pendingInto (succ : α → List α) (nodes order : List α) (x : α) : Nat :=
  ((nodes.filter (· ∉ order)).map fun u => (succ u).count x).sum

/-- Kahn's algorithm between two rounds, on the vertex list `nodes`. -/
structure KahnInv (succ : α → List α) (nodes : List α) (indeg : Dict α Int) (queue order : List α) :
    Prop where
  keys : indeg.keys = nodes
  degree : ∀ x, indeg.getD x 0 = pendingInto succ nodes order x
  nodup : (order ++ queue).Nodup
  sub : ∀ x ∈ order ++ queue, x ∈ nodes
  queued : ∀ x ∈ nodes, x ∉ order → pendingInto succ nodes order x = 0 → x ∈ queue
  ready : ∀ x ∈ queue, pendingInto succ nodes order x = 0
  topo : TopoOrdered succ order

theorem pendingInto_eq_zero_iff {nodes order : List α} {x : α} :
    pendingInto succ nodes order x = 0 ↔ ∀ u ∈ nodes, x ∈ succ u → u ∈ order := by
  simp only [pendingInto, List.sum_eq_zero_iff, List.mem_map, List.mem_filter,
    decide_eq_true_eq, forall_exists_index, and_imp]
  constructor
  · intro h u hu hxu
    by_contra hord
    exact List.count_eq_zero.mp (h _ u hu hord rfl) hxu
  · rintro h _ u hu hord rfl
    exact List.count_eq_zero.mpr fun hxu => hord (h u hu hxu)

/-- Ordering `v` takes its out-edges off the pending ones. -/
theorem pendingInto_append (succ : α → List α) {nodes order : List α} (hnd : nodes.Nodup) {v : α} (hv : v ∈ nodes)
    (hord : v ∉ order) (x : α) :
    pendingInto succ nodes order x
      = pendingInto succ nodes (order ++ [v]) x + (succ v).count x := by
  induction nodes with
  | nil => simp at hv
  | cons u nodes ih =>
    simp only [List.nodup_cons] at hnd
    rcases List.mem_cons.mp hv with rfl | hv
    · have hfilter : nodes.filter (· ∉ order) = nodes.filter (· ∉ order ++ [v]) := by
        refine List.filter_congr fun w hw => ?_
        have : w ≠ v := fun h => hnd.1 (h ▸ hw)
        simp [this]
      have h₁ : (v :: nodes).filter (· ∉ order) = v :: nodes.filter (· ∉ order) := by simp [hord]
      have h₂ : (v :: nodes).filter (· ∉ order ++ [v]) = nodes.filter (· ∉ order ++ [v]) := by simp
      simp only [pendingInto, h₁, h₂, hfilter, List.map_cons, List.sum_cons]
      omega
    · have huv : u ≠ v := fun h => hnd.1 (h ▸ hv)
      have ih := ih hnd.2 hv
      by_cases hu : u ∈ order
      · have h₁ : (u :: nodes).filter (· ∉ order) = nodes.filter (· ∉ order) := by simp [hu]
        have h₂ : (u :: nodes).filter (· ∉ order ++ [v]) = nodes.filter (· ∉ order ++ [v]) := by
          simp [hu]
        simpa only [pendingInto, h₁, h₂] using ih
      · have h₁ : (u :: nodes).filter (· ∉ order) = u :: nodes.filter (· ∉ order) := by simp [hu]
        have h₂ : (u :: nodes).filter (· ∉ order ++ [v]) = u :: nodes.filter (· ∉ order ++ [v]) := by
          simp [hu, huv]
        simp only [pendingInto, h₁, h₂, List.map_cons, List.sum_cons] at ih ⊢
        omega

/-- One round keeps the invariant. -/
theorem KahnInv.step {nodes : List α} (hnd : nodes.Nodup)
    (hsucc : ∀ u ∈ nodes, ∀ v ∈ succ u, v ∈ nodes) (hpred : ∀ u v, v ∈ succ u → u ∈ nodes)
    {indeg : Dict α Int} {v : α} {queue order : List α}
    (hinv : KahnInv succ nodes indeg (v :: queue) order) :
    KahnInv succ nodes (relax (succ v) indeg queue).1 (relax (succ v) indeg queue).2
      (order ++ [v]) := by
  have hv : v ∈ nodes := hinv.sub v (by simp)
  have hord : v ∉ order := fun h =>
    (List.nodup_append.mp hinv.nodup).2.2 v h v (by simp) rfl
  have hpend := pendingInto_append succ hnd hv hord
  have hmem : ∀ x ∈ succ v, x ∈ indeg := fun x hx => by
    rw [Dict.mem_iff_mem_keys, hinv.keys]; exact hsucc v hv x hx
  have hge : ∀ x, ((succ v).count x : Int) ≤ indeg.getD x 0 := fun x => by
    rw [hinv.degree, hpend]; omega
  obtain ⟨new, hq, hnewnd, hnew⟩ := relax_queue hmem hge queue
  have hnew' : ∀ x, x ∈ new ↔ x ∈ succ v ∧ pendingInto succ nodes (order ++ [v]) x = 0 := by
    intro x
    rw [hnew, hinv.degree, hpend]
    constructor <;> rintro ⟨h₁, h₂⟩ <;> exact ⟨h₁, by omega⟩
  have hfresh : ∀ x ∈ new, x ∉ order ∧ x ≠ v ∧ x ∉ queue := by
    intro x hx
    have hxv : x ∈ succ v := ((hnew' x).mp hx).1
    have hpos : 0 < (succ v).count x := List.count_pos_iff.mpr hxv
    refine ⟨fun ho => ?_, fun h => ?_, fun hqu => ?_⟩
    · obtain ⟨pre, post, rfl⟩ := List.append_of_mem ho
      exact hord (by simp [hinv.topo pre x post rfl v hxv])
    · subst h
      have := hinv.ready x (by simp)
      rw [hpend] at this; omega
    · have := hinv.ready x (by simp [hqu])
      rw [hpend] at this; omega
  rw [hq]
  constructor
  · rw [relax_keys, hinv.keys]
  · intro x
    rw [relax_getD hmem, hinv.degree, hpend]; omega
  · have hold : ((order ++ [v]) ++ queue).Nodup := by simpa using hinv.nodup
    rw [← List.append_assoc]
    refine hold.append hnewnd fun x hx hxn => ?_
    obtain ⟨h₁, h₂, h₃⟩ := hfresh x hxn
    simp only [List.mem_append, List.mem_singleton] at hx
    tauto
  · intro x hx
    simp only [List.mem_append, List.mem_singleton] at hx
    rcases hx with (hx | rfl) | hx | hx
    · exact hinv.sub x (by simp [hx])
    · exact hv
    · exact hinv.sub x (by simp [hx])
    · exact hsucc v hv x ((hnew' x).mp hx).1
  · intro x hx hxo hzero
    simp only [List.mem_append, List.mem_singleton, not_or] at hxo
    by_cases hxv : x ∈ succ v
    · exact List.mem_append_right _ ((hnew' x).mpr ⟨hxv, hzero⟩)
    · have hcount : (succ v).count x = 0 := List.count_eq_zero.mpr hxv
      have := hinv.queued x hx hxo.1 (by rw [hpend, hcount, hzero])
      exact List.mem_append_left _ ((List.mem_cons.mp this).resolve_left hxo.2)
  · intro x hx
    rcases List.mem_append.mp hx with hx | hx
    · have := hinv.ready x (by simp [hx])
      rw [hpend] at this; omega
    · exact ((hnew' x).mp hx).2
  · intro pre x post heq u hux
    rcases List.append_eq_append_iff.mp heq with ⟨as, rfl, has⟩ | ⟨bs, rfl, hbs⟩
    · obtain ⟨rfl, -⟩ | ⟨a, as', rfl⟩ : as = [] ∧ True ∨ ∃ a as', as = a :: as' := by
        cases as <;> simp
      · simp only [List.nil_append, List.cons.injEq] at has
        obtain ⟨rfl, -⟩ := has
        have hzero := hinv.ready v (by simp)
        simpa using pendingInto_eq_zero_iff.mp hzero u (hpred u v hux) hux
      · have := congrArg List.length has
        simp at this
    · cases bs with
      | nil =>
        simp only [List.nil_append, List.cons.injEq] at hbs
        obtain ⟨rfl, -⟩ := hbs
        have hzero := hinv.ready x (by simp)
        simpa using pendingInto_eq_zero_iff.mp hzero u (hpred u x hux) hux
      | cons b bs =>
        simp only [List.cons_append, List.cons.injEq] at hbs
        obtain ⟨rfl, -⟩ := hbs
        exact hinv.topo pre x bs rfl u hux

/-- With an empty queue, an acyclic graph is ordered completely. -/
theorem KahnInv.mem_order {nodes : List α} (hacyc : Acyclic succ) {indeg : Dict α Int}
    {order : List α} (hinv : KahnInv succ nodes indeg [] order) {x : α} (hx : x ∈ nodes) :
    x ∈ order := by
  by_contra hord
  let rest := (nodes.filter (· ∉ order)).toFinset
  have hne : rest.Nonempty := ⟨x, by simp [rest, hx, hord]⟩
  obtain ⟨v, hv, hmin⟩ := hacyc.exists_source hne
  have hv' : v ∈ nodes ∧ v ∉ order := by simpa [rest] using hv
  have hzero : pendingInto succ nodes order v = 0 := by
    rw [pendingInto_eq_zero_iff]
    intro u hu huv
    by_contra huo
    exact hmin u (by simp [rest, hu, huo]) huv
  simpa using hinv.queued v hv'.1 hv'.2 hzero

/-- Kahn's algorithm orders every vertex of an acyclic graph once, after its
predecessors, given one unit of fuel for each vertex not yet ordered. -/
theorem kahn_spec {nodes : List α} (hnd : nodes.Nodup)
    (hsucc : ∀ u ∈ nodes, ∀ v ∈ succ u, v ∈ nodes) (hpred : ∀ u v, v ∈ succ u → u ∈ nodes)
    (hacyc : Acyclic succ) {n : Nat} {indeg : Dict α Int} {queue order : List α}
    (hfuel : nodes.length ≤ n + order.length)
    (hinv : KahnInv succ nodes indeg queue order) :
    (kahn succ n indeg queue order).Perm nodes ∧
      TopoOrdered succ (kahn succ n indeg queue order) := by
  have hdone : ∀ {indeg : Dict α Int} {order : List α}, KahnInv succ nodes indeg [] order →
      order.Perm nodes ∧ TopoOrdered succ order := fun {_ order} hinv => by
    have hnodup : order.Nodup := by simpa using hinv.nodup
    refine ⟨(List.perm_ext_iff_of_nodup hnodup hnd).mpr fun x => ?_, hinv.topo⟩
    exact ⟨fun hx => hinv.sub x (by simp [hx]), hinv.mem_order hacyc⟩
  induction n generalizing indeg queue order with
  | zero =>
    have hlen := (hinv.nodup.subperm hinv.sub).length_le
    rw [List.length_append] at hlen
    have hnil : queue = [] := List.length_eq_zero_iff.mp (by omega)
    subst hnil
    exact hdone hinv
  | succ n ih =>
    cases queue with
    | nil => exact hdone hinv
    | cons v queue =>
      simp only [kahn]
      exact ih (by simp; omega) (hinv.step hnd hsucc hpred)

end Base.Graph
