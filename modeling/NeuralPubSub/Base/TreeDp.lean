-- SUMMARY: Dynamic programming over trees: a Bellman table bounds the cost of every assignment and is attained along its minimisers.
import Mathlib

/-!
# Tree dynamic programming

Each vertex of a tree is to be assigned a host. A vertex costs something on its
host, and so does an edge between two hosts; the cost `⊤` forbids the choice. A
table of values solves the problem when it satisfies the Bellman equation at
every vertex. Its value at the root is then a lower bound on the cost of every
assignment, and an assignment that follows the minimisers attains it.

The argument is a potential argument: adding the Bellman inequalities of all
vertices, every value but the root's occurs once on each side and cancels.
-/

namespace Base

/-- Vertices with their children, and the costs of hosts and of edges. -/
structure TreeProblem (V H R : Type) where
  children : V → List V
  hosts : Finset H
  nodeCost : V → H → WithTop R
  /-- The cost of the edge from a child to its parent, on their hosts. -/
  edgeCost : V → V → H → H → WithTop R

namespace TreeProblem

/-! ## Trees -/

section Tree

variable {V H R : Type} {P : TreeProblem V H R} {order : List V} {root : V}

/-- The vertices of `order` form a tree with the given root, children first. -/
structure IsTree (P : TreeProblem V H R) (order : List V) (root : V) : Prop where
  nodup : order.Nodup
  perm : order.Perm (root :: order.flatMap P.children)
  children_first : ∀ pre v post, order = pre ++ v :: post → ∀ u ∈ P.children v, u ∈ pre

theorem IsTree.root_mem (ht : P.IsTree order root) : root ∈ order :=
  ht.perm.mem_iff.mpr (by simp)

/-- Every vertex is the root or the child of a vertex. -/
theorem IsTree.eq_root_or_child (ht : P.IsTree order root) {v : V} (hv : v ∈ order) :
    v = root ∨ ∃ w ∈ order, v ∈ P.children w := by
  rcases List.mem_cons.mp (ht.perm.mem_iff.mp hv) with h | h
  · exact .inl h
  · exact .inr (List.mem_flatMap.mp h)

theorem IsTree.child_mem (ht : P.IsTree order root) {u v : V} (hv : v ∈ order)
    (hu : u ∈ P.children v) : u ∈ order :=
  ht.perm.mem_iff.mpr (List.mem_cons_of_mem _ (List.mem_flatMap.mpr ⟨v, hv, hu⟩))

/-- Induction from the leaves to the root. -/
theorem IsTree.induction_up (ht : P.IsTree order root) {Q : V → Prop}
    (h : ∀ v ∈ order, (∀ u ∈ P.children v, Q u) → Q v) : ∀ v ∈ order, Q v := by
  have hprefix : ∀ done, (∃ rest, order = done ++ rest) → ∀ v ∈ done, Q v := by
    intro done
    induction done using List.reverseRecOn with
    | nil => simp
    | append_singleton done v ih =>
      rintro ⟨rest, horder⟩ w hw
      have hdone := ih ⟨v :: rest, by simp [horder]⟩
      rcases List.mem_append.mp hw with hw | hw
      · exact hdone w hw
      · obtain rfl := List.mem_singleton.mp hw
        exact h w (by simp [horder]) fun u hu =>
          hdone u (ht.children_first done w rest (by simp [horder]) u hu)
  exact hprefix order ⟨[], by simp⟩

/-- Induction from the root to the leaves. -/
theorem IsTree.induction_down (ht : P.IsTree order root) {Q : V → Prop} (hroot : Q root)
    (h : ∀ v ∈ order, Q v → ∀ u ∈ P.children v, Q u) : ∀ v ∈ order, Q v := by
  have hsuffix : ∀ rest done, order = done ++ rest → ∀ v ∈ rest, Q v := by
    intro rest
    induction rest with
    | nil => simp
    | cons v rest ih =>
      intro done horder w hw
      have hrest := ih (done ++ [v]) (by simp [horder])
      rcases List.mem_cons.mp hw with rfl | hw
      · rcases ht.eq_root_or_child (v := w) (by simp [horder]) with rfl | ⟨x, hx, hwx⟩
        · exact hroot
        · -- the parent `x` stands after `w`
          have hnew : w ∉ done := fun hm => by
            have hnodup := ht.nodup
            rw [horder] at hnodup
            exact (List.nodup_append.mp hnodup).2.2 w hm w (by simp) rfl
          rw [horder] at hx
          rcases List.mem_append.mp hx with hx | hx
          · obtain ⟨pre, post, rfl⟩ := List.append_of_mem hx
            have := ht.children_first pre x (post ++ w :: rest) (by simp [horder]) w hwx
            exact absurd (by simp [this]) hnew
          · rcases List.mem_cons.mp hx with rfl | hx
            · exact absurd (ht.children_first done x rest horder x hwx) hnew
            · exact h x (by simp [horder, hx]) (hrest x hx) w hwx
      · exact hrest w hw
  exact hsuffix order [] rfl

/-- No vertex has two parents, and the root has none. -/
theorem IsTree.unique_parent (ht : P.IsTree order root) :
    (∀ v ∈ order, root ∉ P.children v) ∧
    ∀ v ∈ order, ∀ w ∈ order, v ≠ w → ∀ u ∈ P.children v, u ∉ P.children w := by
  have hnodup := ht.perm.nodup_iff.mp ht.nodup
  rw [List.nodup_cons, List.nodup_flatMap] at hnodup
  obtain ⟨hroot, -, hdisj⟩ := hnodup
  refine ⟨fun v hv hr => hroot (List.mem_flatMap.mpr ⟨v, hv, hr⟩), fun v hv w hw hne u hu hu' => ?_⟩
  have hsymm : Std.Symm fun x y => List.Disjoint (P.children x) (P.children y) :=
    ⟨fun _ _ h => h.symm⟩
  exact hdisj.forall hv hw hne hu hu'

/-- An assignment can be chosen from the root to the leaves, each child's host
from that of its parent. -/
theorem IsTree.exists_assignment [DecidableEq V] (ht : P.IsTree order root) (r : H)
    (next : V → H → V → H) :
    ∃ a : V → H, a root = r ∧ ∀ v ∈ order, ∀ u ∈ P.children v, a u = next v (a v) u := by
  obtain ⟨hroot, hparent⟩ := ht.unique_parent
  have hsuffix : ∀ rest done, order = done ++ rest →
      ∃ a : V → H, a root = r ∧ ∀ v ∈ rest, ∀ u ∈ P.children v, a u = next v (a v) u := by
    intro rest
    induction rest with
    | nil => exact fun _ _ => ⟨fun _ => r, rfl, by simp⟩
    | cons v rest ih =>
      intro done horder
      obtain ⟨a, har, ha⟩ := ih (done ++ [v]) (by simp [horder])
      have hv : v ∈ order := by simp [horder]
      -- the children of `v` stand before it
      have hbefore : ∀ w ∈ v :: rest, w ∉ P.children v := by
        intro w hw hwv
        have hnodup := ht.nodup
        rw [horder] at hnodup
        exact (List.nodup_append.mp hnodup).2.2 w
          (ht.children_first done v rest horder w hwv) w hw rfl
      refine ⟨fun x => if x ∈ P.children v then next v (a v) x else a x, ?_, ?_⟩
      · simp only [if_neg (hroot v hv), har]
      · intro w hw u hu
        have hnodup := ht.nodup
        rw [horder] at hnodup
        have hvrest : v ∉ rest := (List.nodup_cons.mp (List.nodup_append.mp hnodup).2.1).1
        simp only [if_neg (hbefore w hw)]
        rcases List.mem_cons.mp hw with rfl | hw
        · simp only [if_pos hu]
        · have hne : w ≠ v := fun h => hvrest (h ▸ hw)
          have huv : u ∉ P.children v := hparent w (by simp [horder, hw]) v hv hne u hu
          simp only [if_neg huv]
          exact ha w hw u hu
  exact hsuffix order [] rfl

end Tree

/-! ## Finite sums of possibly infinite costs -/

section Sums

variable {α β R : Type} [AddCommGroup R]

theorem sum_ne_top {l : List α} {f : α → WithTop R} :
    (l.map f).sum ≠ ⊤ ↔ ∀ x ∈ l, f x ≠ ⊤ := by
  induction l with
  | nil => simp
  | cons x l ih => simp [ih]

theorem sum_map_add (l : List α) (f g : α → WithTop R) :
    (l.map fun x => f x + g x).sum = (l.map f).sum + (l.map g).sum := by
  induction l with
  | nil => simp
  | cons x l ih => simp only [List.map_cons, List.sum_cons, ih]; abel

theorem sum_flatMap (l : List α) (f : α → List β) (g : β → WithTop R) :
    ((l.flatMap f).map g).sum = (l.map fun x => ((f x).map g).sum).sum := by
  induction l with
  | nil => rfl
  | cons x l ih => simp [ih]

/-- Bounded termwise and not less in total, two finite sums agree termwise. -/
theorem eq_of_sum_le [LinearOrder R] [IsOrderedAddMonoid R] {l : List α} {f g : α → WithTop R}
    (hle : ∀ x ∈ l, f x ≤ g x) (hfin : (l.map g).sum ≠ ⊤) (hsum : (l.map g).sum ≤ (l.map f).sum) :
    ∀ x ∈ l, f x = g x := by
  induction l with
  | nil => simp
  | cons x l ih =>
    simp only [List.map_cons, List.sum_cons] at hfin hsum
    obtain ⟨hgx, hgl⟩ := WithTop.add_ne_top.mp hfin
    have hlex := hle x (by simp)
    have hlel := List.sum_le_sum fun y (hy : y ∈ l) => hle y (by simp [hy])
    have hx : f x = g x :=
      hlex.antisymm (WithTop.le_of_add_le_add_right hgl (hsum.trans (add_le_add_right hlel _)))
    intro y hy
    rcases List.mem_cons.mp hy with rfl | hy
    · exact hx
    · rw [hx] at hsum
      exact ih (fun z hz => hle z (by simp [hz])) hgl (WithTop.le_of_add_le_add_left hgx hsum) y hy

end Sums

/-! ## Bellman tables -/

section Bellman

variable {V H R : Type} [AddCommGroup R] [LinearOrder R]

/-- The cost of an assignment. -/
def totalCost (P : TreeProblem V H R) (order : List V) (a : V → H) : WithTop R :=
  (order.map fun v => P.nodeCost v (a v) +
    ((P.children v).map fun u => P.edgeCost u v (a u) (a v)).sum).sum

/-- The least cost of the subtree of `u`, its edge to `v` included, when `v` is on `h`. -/
def best (P : TreeProblem V H R) (value : V → H → WithTop R) (u v : V) (h : H) : WithTop R :=
  P.hosts.inf fun m => value u m + P.edgeCost u v m h

/-- The table satisfies the Bellman equation at the vertices of `order`. -/
def IsTable (P : TreeProblem V H R) (order : List V) (value : V → H → WithTop R) : Prop :=
  ∀ v ∈ order, ∀ h ∈ P.hosts,
    value v h = P.nodeCost v h + ((P.children v).map fun u => P.best value u v h).sum

/-- `a` puts every child on a host that is best given the host of its parent. -/
def Follows (P : TreeProblem V H R) (order : List V) (value : V → H → WithTop R) (a : V → H) :
    Prop :=
  ∀ v ∈ order, ∀ u ∈ P.children v,
    value u (a u) + P.edgeCost u v (a u) (a v) = P.best value u v (a v)

variable [IsOrderedAddMonoid R] {P : TreeProblem V H R} {order : List V} {root : V}
  {value : V → H → WithTop R} {a : V → H}

omit [IsOrderedAddMonoid R] in
theorem best_le (value : V → H → WithTop R) (u v : V) (h : H) {m : H} (hm : m ∈ P.hosts) :
    P.best value u v h ≤ value u m + P.edgeCost u v m h :=
  Finset.inf_le hm

omit [IsOrderedAddMonoid R] [LinearOrder R] in
/-- The values of all vertices: the root's, and those of the children of each vertex. -/
theorem IsTree.sum_values (ht : P.IsTree order root) (d : V → WithTop R) :
    (order.map d).sum = d root + (order.map fun v => ((P.children v).map d).sum).sum := by
  rw [(ht.perm.map d).sum_eq, List.map_cons, List.sum_cons, sum_flatMap]

omit [IsOrderedAddMonoid R] [LinearOrder R] in
/-- What the two sides of the summed Bellman equations have in common. -/
theorem sum_bellman (d : V → WithTop R) (a : V → H) :
    (order.map fun v => P.nodeCost v (a v) +
        ((P.children v).map fun u => d u + P.edgeCost u v (a u) (a v)).sum).sum =
      P.totalCost order a + (order.map fun v => ((P.children v).map d).sum).sum := by
  rw [totalCost, ← sum_map_add]
  congr 1
  refine List.map_congr_left fun v _ => ?_
  rw [sum_map_add]
  abel

omit [IsOrderedAddMonoid R] in
/-- Under a finite total cost every value along the assignment is finite. -/
theorem IsTable.value_ne_top (hv : P.IsTable order value) (ht : P.IsTree order root)
    (ha : ∀ v ∈ order, a v ∈ P.hosts) (hcost : P.totalCost order a ≠ ⊤) :
    ∀ v ∈ order, value v (a v) ≠ ⊤ := by
  have hfinite : ∀ v ∈ order, P.nodeCost v (a v) ≠ ⊤ ∧
      ∀ u ∈ P.children v, P.edgeCost u v (a u) (a v) ≠ ⊤ := by
    intro v hv
    have := sum_ne_top.mp hcost v hv
    rw [WithTop.add_ne_top] at this
    exact ⟨this.1, sum_ne_top.mp this.2⟩
  refine ht.induction_up fun v hvo ih => ?_
  rw [hv v hvo _ (ha v hvo), WithTop.add_ne_top]
  refine ⟨(hfinite v hvo).1, sum_ne_top.mpr fun u hu => ?_⟩
  have hle := best_le (P := P) value u v (a v) (ha u (ht.child_mem hvo hu))
  exact ne_top_of_le_ne_top (WithTop.add_ne_top.mpr ⟨ih u hu, (hfinite v hvo).2 u hu⟩) hle

/-- The Bellman inequality of one vertex. -/
theorem IsTable.value_le (hv : P.IsTable order value) (ht : P.IsTree order root)
    (ha : ∀ v ∈ order, a v ∈ P.hosts) {v : V} (hvo : v ∈ order) :
    value v (a v) ≤ P.nodeCost v (a v) +
      ((P.children v).map fun u => value u (a u) + P.edgeCost u v (a u) (a v)).sum := by
  rw [hv v hvo _ (ha v hvo)]
  refine add_le_add_right (List.sum_le_sum fun u hu => ?_) _
  exact best_le value u v (a v) (ha u (ht.child_mem hvo hu))

/-- The value at the root is a lower bound on the cost of every assignment. -/
theorem IsTable.root_le_totalCost (hv : P.IsTable order value) (ht : P.IsTree order root)
    (ha : ∀ v ∈ order, a v ∈ P.hosts) : value root (a root) ≤ P.totalCost order a := by
  by_cases hcost : P.totalCost order a = ⊤
  · exact hcost ▸ le_top
  have hfin := hv.value_ne_top ht ha hcost
  have hrest : (order.map fun v => ((P.children v).map fun u => value u (a u)).sum).sum ≠ ⊤ :=
    sum_ne_top.mpr fun v hvo => sum_ne_top.mpr fun u hu => hfin u (ht.child_mem hvo hu)
  have hsum : (order.map fun v => value v (a v)).sum ≤ _ :=
    List.sum_le_sum fun v hvo => hv.value_le ht ha hvo
  rw [ht.sum_values, sum_bellman (fun u => value u (a u))] at hsum
  exact WithTop.le_of_add_le_add_right hrest hsum

/-- An assignment that follows the minimisers attains the value at the root. -/
theorem IsTable.root_eq_totalCost (hv : P.IsTable order value) (ht : P.IsTree order root)
    (ha : ∀ v ∈ order, a v ∈ P.hosts) (hf : P.Follows order value a)
    (hroot : value root (a root) ≠ ⊤) : value root (a root) = P.totalCost order a := by
  have hvalue : ∀ v ∈ order, value v (a v) = P.nodeCost v (a v) +
      ((P.children v).map fun u => value u (a u) + P.edgeCost u v (a u) (a v)).sum := by
    intro v hvo
    rw [hv v hvo _ (ha v hvo)]
    congr 2
    exact List.map_congr_left fun u hu => (hf v hvo u hu).symm
  have hfin : ∀ v ∈ order, value v (a v) ≠ ⊤ := by
    refine ht.induction_down hroot fun v hvo hne u hu => ?_
    rw [hvalue v hvo, WithTop.add_ne_top] at hne
    exact (WithTop.add_ne_top.mp (sum_ne_top.mp hne.2 u hu)).1
  have hrest : (order.map fun v => ((P.children v).map fun u => value u (a u)).sum).sum ≠ ⊤ :=
    sum_ne_top.mpr fun v hvo => sum_ne_top.mpr fun u hu => hfin u (ht.child_mem hvo hu)
  have hsum : (order.map fun v => value v (a v)).sum = _ :=
    congrArg List.sum (List.map_congr_left hvalue)
  rw [ht.sum_values, sum_bellman (fun u => value u (a u))] at hsum
  exact WithTop.add_right_cancel hrest hsum

/-- An assignment of least cost follows the minimisers. -/
theorem IsTable.follows_of_totalCost_le (hv : P.IsTable order value) (ht : P.IsTree order root)
    (ha : ∀ v ∈ order, a v ∈ P.hosts) (hcost : P.totalCost order a ≠ ⊤)
    (hle : P.totalCost order a ≤ value root (a root)) : P.Follows order value a := by
  have hfin := hv.value_ne_top ht ha hcost
  have hrest : (order.map fun v => ((P.children v).map fun u => value u (a u)).sum).sum ≠ ⊤ :=
    sum_ne_top.mpr fun v hvo => sum_ne_top.mpr fun u hu => hfin u (ht.child_mem hvo hu)
  -- no Bellman inequality is strict, since their sum is not
  have heq := eq_of_sum_le (fun v hvo => hv.value_le ht ha hvo)
    (by rw [sum_bellman (fun u => value u (a u))]; exact WithTop.add_ne_top.mpr ⟨hcost, hrest⟩)
    (by
      rw [sum_bellman (fun u => value u (a u)), ht.sum_values fun v => value v (a v)]
      exact add_le_add_left hle _)
  intro v hvo u hu
  have hvu := heq v hvo
  have hrhs := hfin v hvo
  rw [hvu] at hrhs
  obtain ⟨hnode, hchildren⟩ := WithTop.add_ne_top.mp hrhs
  rw [hv v hvo _ (ha v hvo)] at hvu
  have hbest := eq_of_sum_le
    (fun u hu => best_le value u v (a v) (ha u (ht.child_mem hvo hu))) hchildren
    (WithTop.add_left_cancel hnode hvu).ge
  exact (hbest u hu).symm

end Bellman

end TreeProblem
end Base
