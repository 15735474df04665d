-- SUMMARY: Turns handed out round robin: after any number of turns, two members of the cycle differ by at most one.
import Mathlib

/-!
# Round robin

A cycle is a list whose head has the next turn and then goes to the end. What a
turn preserves is that the members with a turn less stand before the others.
-/

namespace Base.RoundRobin

variable {α : Type} {turns : α → ℕ} {cycle rest : List α} {x y : α}

/-- The members at the front of the cycle have had the same number of turns, and the
others one more. -/
def Even (turns : α → ℕ) (cycle : List α) : Prop :=
  ∃ n front back, cycle = front ++ back ∧ (∀ x ∈ front, turns x = n) ∧ ∀ x ∈ back, turns x = n + 1

theorem even_const (n : ℕ) (cycle : List α) : Even (fun _ => n) cycle :=
  ⟨n, cycle, [], (List.append_nil _).symm, fun _ _ => rfl, fun _ h => by cases h⟩

theorem Even.le_succ (h : Even turns cycle) (hx : x ∈ cycle) (hy : y ∈ cycle) :
    turns x ≤ turns y + 1 := by
  obtain ⟨n, front, back, rfl, hfront, hback⟩ := h
  have hbounds : ∀ z ∈ front ++ back, n ≤ turns z ∧ turns z ≤ n + 1 := by
    intro z hz
    cases List.mem_append.mp hz with
    | inl hz => simp [hfront z hz]
    | inr hz => simp [hback z hz]
  have hx' := hbounds x hx
  have hy' := hbounds y hy
  omega

/-- A turn of the head. -/
theorem Even.turn [DecidableEq α] (h : Even turns (x :: rest)) (hnodup : (x :: rest).Nodup) :
    Even (fun y => turns y + if y = x then 1 else 0) (rest ++ [x]) := by
  have hself : (turns x + if x = x then 1 else 0) = turns x + 1 := by rw [if_pos rfl]
  have hother : ∀ y ∈ rest, (turns y + if y = x then 1 else 0) = turns y := by
    intro y hy
    have hne : y ≠ x := fun heq => (List.nodup_cons.mp hnodup).1 (heq ▸ hy)
    rw [if_neg hne, Nat.add_zero]
  obtain ⟨n, front, back, hsplit, hfront, hback⟩ := h
  cases front with
  | nil =>
    -- the head is the first of those with a turn more: a new round begins
    rw [List.nil_append] at hsplit
    subst hsplit
    refine ⟨n + 1, rest, [x], rfl, fun y hy => ?_, fun y hy => ?_⟩
    · exact (hother y hy).trans (hback y (List.mem_cons_of_mem _ hy))
    · rw [List.mem_singleton.mp hy]
      exact hself.trans (congrArg (· + 1) (hback x (List.mem_cons_self ..)))
  | cons z front =>
    obtain ⟨rfl, rfl⟩ := List.cons.inj hsplit
    refine ⟨n, front, back ++ [x], List.append_assoc .., fun y hy => ?_, fun y hy => ?_⟩
    · exact (hother y (List.mem_append_left _ hy)).trans (hfront y (List.mem_cons_of_mem _ hy))
    · cases List.mem_append.mp hy with
      | inl hy => exact (hother y (List.mem_append_right _ hy)).trans (hback y hy)
      | inr hy =>
        rw [List.mem_singleton.mp hy]
        exact hself.trans (congrArg (· + 1) (hfront x (List.mem_cons_self ..)))

end Base.RoundRobin
