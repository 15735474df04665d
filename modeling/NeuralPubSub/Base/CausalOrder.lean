-- SUMMARY: Logs in which every entry comes after those it depends on.
import Mathlib.Logic.Relation
import Mathlib.Data.List.Induction

/-!
# Causal order

A log grows at its end. It is causally ordered for a relation on keys if each
entry has, before it, an entry for every key that its own depends on. The order
then holds for the dependencies of the dependencies as well.
-/

namespace Base

variable {α κ : Type} {needs needs' : κ → κ → Prop} {key : α → κ} {log : List α}

/-- Every entry comes after an entry for each key that it needs: `needs a k` says that
`k` depends on `a`. -/
def CausallyOrdered (needs : κ → κ → Prop) (key : α → κ) (log : List α) : Prop :=
  ∀ pre x post, log = pre ++ x :: post → ∀ a, needs a (key x) → a ∈ pre.map key

namespace CausallyOrdered

theorem nil : CausallyOrdered needs key ([] : List α) :=
  fun pre x post heq => absurd heq (by simp)

/-- A log grows by an entry whose needs it has. -/
theorem concat (h : CausallyOrdered needs key log) {x : α}
    (hx : ∀ a, needs a (key x) → a ∈ log.map key) : CausallyOrdered needs key (log ++ [x]) := by
  intro pre y post heq a ha
  cases post using List.reverseRecOn with
  | nil =>
    obtain ⟨rfl, hxy⟩ := List.append_inj' heq rfl
    obtain rfl : x = y := by simpa using hxy
    exact hx a ha
  | append_singleton post z =>
    rw [← List.cons_append, ← List.append_assoc] at heq
    obtain ⟨hlog, -⟩ := List.append_inj' heq rfl
    exact h pre y post hlog a ha

/-- Only the needs of the entries matter. -/
theorem mono (h : CausallyOrdered needs key log)
    (hneeds : ∀ x ∈ log, ∀ a, needs' a (key x) → needs a (key x)) :
    CausallyOrdered needs' key log := by
  intro pre x post heq a ha
  exact h pre x post heq a (hneeds x (by simp [heq]) a ha)

/-- The dependencies of an entry come before it, however far back they lie. -/
theorem transGen (h : CausallyOrdered needs key log) :
    CausallyOrdered (Relation.TransGen needs) key log := by
  intro pre x post heq a ha
  induction ha using Relation.TransGen.head_induction_on with
  | single hneeds => exact h pre x post heq _ hneeds
  | head hneeds _ ih =>
    obtain ⟨y, hy, hkey⟩ := List.mem_map.mp ih
    obtain ⟨pre', post', rfl⟩ := List.append_of_mem hy
    have hbefore := h pre' y (post' ++ x :: post) (by simp [heq]) _ (hkey ▸ hneeds)
    exact List.map_subset key (List.subset_append_left _ _) hbefore

end CausallyOrdered
end Base
