-- SUMMARY: Step-down testing on sorted p-values: how many hypotheses it rejects, and the adjusted p-values that say so.
import Mathlib

/-!
# The step-down procedure

Holm's procedure goes through sorted p-values from the smallest one. It
multiplies each by the number of hypotheses that are still open, and it stops at
the first product that is not below the error rate. The adjusted p-value of a
hypothesis is the largest product up to it, cut at one.
-/

namespace Base

variable {α : Type} [CommSemiring α]

/-- The p-value at place `j`, times the number of hypotheses that are open there. -/
def scaled (l : List α) (j : Nat) : α := (l.length - j : Nat) * l.getD j 0

@[simp] theorem scaled_cons_zero (p : α) (ps : List α) :
    scaled (p :: ps) 0 = (ps.length + 1 : Nat) * p := rfl

@[simp] theorem scaled_cons_succ (p : α) (ps : List α) (j : Nat) :
    scaled (p :: ps) (j + 1) = scaled ps j := by
  simp [scaled]

variable [LinearOrder α]

/-- The number of hypotheses that the procedure rejects. -/
def rejections (alpha : α) : List α → Nat
  | [] => 0
  | p :: ps => if (ps.length + 1 : Nat) * p < alpha then rejections alpha ps + 1 else 0

/-- The adjusted p-value at place `i`. -/
def adjustedAt (l : List α) (i : Nat) : α := partialSups (fun j => min 1 (scaled l j)) i

/-- The procedure rejects the hypothesis at place `i` when no product up to it stops it. -/
theorem lt_rejections_iff {alpha : α} {l : List α} {i : Nat} :
    i < rejections alpha l ↔ i < l.length ∧ ∀ j ≤ i, scaled l j < alpha := by
  induction l generalizing i with
  | nil => simp [rejections]
  | cons p ps ih =>
    rw [rejections]
    split
    · next hp =>
      cases i with
      | zero => simpa using hp
      | succ i =>
        rw [Nat.add_lt_add_iff_right, ih, List.length_cons, Nat.add_lt_add_iff_right]
        apply and_congr_right
        intro _
        constructor
        · intro h j hj
          cases j with
          | zero => exact hp
          | succ j => simpa using h j (by omega)
        · intro h j hj
          simpa using h (j + 1) (by omega)
    · next hp =>
      constructor
      · intro h
        omega
      · intro h
        exact absurd (h.2 0 (Nat.zero_le i)) hp

/-! ## Adjusted p-values -/

theorem adjustedAt_zero (l : List α) : adjustedAt l 0 = min 1 (scaled l 0) := by
  simp [adjustedAt]

theorem adjustedAt_succ (l : List α) (i : Nat) :
    adjustedAt l (i + 1) = max (adjustedAt l i) (min 1 (scaled l (i + 1))) :=
  partialSups_add_one _ i

theorem adjustedAt_mono (l : List α) : Monotone (adjustedAt l) :=
  partialSups_monotone _

theorem isGreatest_adjustedAt (l : List α) (i : Nat) :
    IsGreatest {x | ∃ j ≤ i, x = min 1 (scaled l j)} (adjustedAt l i) := by
  constructor
  · induction i with
    | zero => exact ⟨0, le_rfl, adjustedAt_zero l⟩
    | succ i ih =>
      rw [adjustedAt_succ]
      rcases max_choice (adjustedAt l i) (min 1 (scaled l (i + 1))) with h | h
      · rcases ih with ⟨j, hj, hx⟩
        exact ⟨j, by omega, h.trans hx⟩
      · exact ⟨i + 1, le_rfl, h⟩
  · rintro x ⟨j, hj, rfl⟩
    exact le_partialSups_of_le (fun j => min 1 (scaled l j)) hj

/-- An adjusted p-value below the error rate is a rejection. -/
theorem adjustedAt_lt_iff {alpha : α} (halpha : alpha ≤ 1) {l : List α} {i : Nat} :
    adjustedAt l i < alpha ↔ ∀ j ≤ i, scaled l j < alpha := by
  rw [adjustedAt, partialSups_iff_forall (· < alpha) max_lt_iff]
  apply forall₂_congr
  intro j _
  rw [min_lt_iff, or_iff_right (not_lt.mpr halpha)]

/-- The adjusted p-values follow the order of the p-values. Among equal ones the
products fall, so it does not matter which of their places is taken. -/
theorem adjustedAt_le_of_getElem_le [IsOrderedRing α] {l : List α} (hl : l.Pairwise (· ≤ ·))
    (hnonneg : ∀ p ∈ l, 0 ≤ p) {i i' : Nat} (hi : i < l.length) (hi' : i' < l.length)
    (h : l[i] ≤ l[i']) : adjustedAt l i ≤ adjustedAt l i' := by
  cases le_total i i' with
  | inl hle => exact adjustedAt_mono l hle
  | inr hge =>
    apply partialSups_le
    intro j hj
    cases le_total j i' with
    | inl hj' => exact le_partialSups_of_le (fun j => min 1 (scaled l j)) hj'
    | inr hj' =>
      -- the p-values between the two places are equal
      have hj₁ : l[i'] ≤ l[j] := hl.rel_get_of_le (a := ⟨i', hi'⟩) (b := ⟨j, by omega⟩) hj'
      have hj₂ : l[j] ≤ l[i] := hl.rel_get_of_le (a := ⟨j, by omega⟩) (b := ⟨i, hi⟩) hj
      have hsame : l[j] = l[i'] := le_antisymm (hj₂.trans h) hj₁
      have hfall : scaled l j ≤ scaled l i' := by
        rw [scaled, scaled, List.getD_eq_getElem _ _ hi', List.getD_eq_getElem _ _ (by omega),
          hsame]
        apply mul_le_mul_of_nonneg_right
        · exact Nat.mono_cast (by omega)
        · exact hnonneg _ (List.getElem_mem hi')
      exact (min_le_min_left 1 hfall).trans (le_partialSups (fun j => min 1 (scaled l j)) i')

theorem adjustedAt_congr [IsOrderedRing α] {l : List α} (hl : l.Pairwise (· ≤ ·))
    (hnonneg : ∀ p ∈ l, 0 ≤ p) {i i' : Nat} (hi : i < l.length) (hi' : i' < l.length)
    (h : l[i] = l[i']) : adjustedAt l i = adjustedAt l i' :=
  le_antisymm (adjustedAt_le_of_getElem_le hl hnonneg hi hi' h.le)
    (adjustedAt_le_of_getElem_le hl hnonneg hi' hi h.ge)

end Base
