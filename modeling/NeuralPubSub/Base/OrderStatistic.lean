-- SUMMARY: The k-th smallest entry of a list, with repetitions: where a sorted list has it, and how it grows.
import Mathlib

/-!
# Order statistics

The `k`-th smallest entry of a list over a linear order, counted from one and
with repetitions. It is characterised by how many entries lie below it, so it
does not depend on the order of the entries.
-/

namespace Base

variable {α : Type} [LinearOrder α] {k k' : Nat} {l l' : List α} {x y : α}

structure IsKthSmallest (k : Nat) (l : List α) (x : α) : Prop where
  mem : x ∈ l
  countP_lt : l.countP (· < x) < k
  le_countP : k ≤ l.countP (· ≤ x)

namespace IsKthSmallest

/-- The statistic grows with its rank, and with the entries of the list. -/
theorem mono (hx : IsKthSmallest k l x) (hy : IsKthSmallest k' l' y) (hk : k ≤ k')
    (hcount : ∀ z, l'.countP (· ≤ z) ≤ l.countP (· ≤ z)) : x ≤ y := by
  by_contra hlt
  have hbelow : l.countP (· ≤ y) ≤ l.countP (· < x) := by
    apply List.countP_mono_left
    intro z _ hz
    simp only [decide_eq_true_eq] at hz ⊢
    exact lt_of_le_of_lt hz (not_le.mp hlt)
  have hy' := hcount y
  have := hx.countP_lt
  have := hy.le_countP
  omega

theorem unique (hx : IsKthSmallest k l x) (hy : IsKthSmallest k l y) : x = y :=
  le_antisymm (hx.mono hy le_rfl fun _ => le_rfl) (hy.mono hx le_rfl fun _ => le_rfl)

theorem perm (hx : IsKthSmallest k l x) (hl : l.Perm l') : IsKthSmallest k l' x where
  mem := hl.mem_iff.mp hx.mem
  countP_lt := hl.countP_eq _ ▸ hx.countP_lt
  le_countP := hl.countP_eq _ ▸ hx.le_countP

end IsKthSmallest

/-- The smallest entry. -/
theorem isKthSmallest_one_iff : IsKthSmallest 1 l x ↔ x ∈ l ∧ ∀ y ∈ l, x ≤ y := by
  constructor
  · intro hx
    refine ⟨hx.mem, fun y hy => ?_⟩
    have hnone := List.countP_eq_zero.mp (Nat.lt_one_iff.mp hx.countP_lt) y hy
    simpa using hnone
  · intro hx
    refine ⟨hx.1, ?_, List.countP_pos_iff.mpr ⟨x, hx.1, by simp⟩⟩
    rw [Nat.lt_one_iff, List.countP_eq_zero]
    intro y hy
    simpa using hx.2 y hy

/-- A sorted list has its order statistics at their places. -/
theorem isKthSmallest_of_pairwise (hl : l.Pairwise (· ≤ ·)) {i : Nat} (hi : i < l.length) :
    IsKthSmallest (i + 1) l l[i] := by
  refine ⟨List.getElem_mem hi, ?_, ?_⟩
  · -- nothing from place `i` on lies below the entry there
    have hdrop : (l.drop i).countP (· < l[i]) = 0 := by
      rw [List.countP_eq_zero]
      intro y hy
      rcases List.mem_iff_getElem.mp hy with ⟨j, hj, rfl⟩
      rw [List.getElem_drop]
      rw [List.length_drop] at hj
      have hle : l[i] ≤ l[i + j] :=
        hl.rel_get_of_le (a := ⟨i, hi⟩) (b := ⟨i + j, by omega⟩) (Nat.le_add_right i j)
      simpa using hle
    have hsplit : l.countP (· < l[i]) =
        (l.take i).countP (· < l[i]) + (l.drop i).countP (· < l[i]) := by
      rw [← List.countP_append, List.take_append_drop]
    have htake := List.countP_le_length (p := fun y => decide (y < l[i])) (l := l.take i)
    rw [List.length_take] at htake
    omega
  · have htake : (l.take (i + 1)).countP (· ≤ l[i]) = (l.take (i + 1)).length := by
      rw [List.countP_eq_length]
      intro y hy
      rcases List.mem_iff_getElem.mp hy with ⟨j, hj, rfl⟩
      rw [List.length_take] at hj
      rw [List.getElem_take]
      have hle : l[j] ≤ l[i] :=
        hl.rel_get_of_le (a := ⟨j, by omega⟩) (b := ⟨i, hi⟩) (show j ≤ i by omega)
      simpa using hle
    have hsub := (List.take_sublist (i + 1) l).countP_le (p := fun y => decide (y ≤ l[i]))
    rw [htake, List.length_take] at hsub
    omega

/-- Raising entries does not put more of them below a bound. -/
theorem countP_le_of_forall₂ (h : List.Forall₂ (· ≤ ·) l l') (z : α) :
    l'.countP (· ≤ z) ≤ l.countP (· ≤ z) := by
  induction h with
  | nil => exact le_rfl
  | @cons a b l l' hab _ ih =>
    rw [List.countP_cons, List.countP_cons]
    have hhead : (if decide (b ≤ z) then 1 else 0) ≤ if decide (a ≤ z) then 1 else 0 := by
      split
      · next hb => rw [if_pos (by simpa using hab.trans (by simpa using hb))]
      · exact Nat.zero_le _
    exact Nat.add_le_add ih hhead

end Base
