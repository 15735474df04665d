-- SUMMARY: Half-open windows of one width: the window of a point, what the first windows hold together, and evenly spaced points.
import Mathlib

/-!
# Windows

The window `i` of width `w` goes from `i * w`, which it holds, to `(i + 1) * w`,
which it does not. A point that is not negative lies in one window.
-/

namespace Base

section Window
variable {K : Type} [Field K] [LinearOrder K] [IsStrictOrderedRing K] {w t : K} {i : Nat}

def window (w : K) (i : Nat) : Set K := Set.Ico (i * w) ((i + 1) * w)

variable [FloorRing K]

theorem mem_window_iff (hw : 0 < w) (ht : 0 ≤ t) : t ∈ window w i ↔ ⌊t / w⌋₊ = i := by
  rw [window, Set.mem_Ico, Nat.floor_eq_iff (div_nonneg ht hw.le), le_div_iff₀ hw, div_lt_iff₀ hw]

theorem start_lt_iff (hw : 0 < w) : i * w < t ↔ i < ⌈t / w⌉₊ := by
  rw [Nat.lt_ceil, lt_div_iff₀ hw]

theorem end_le_iff (hw : 0 < w) (ht : 0 ≤ t) : (i + 1) * w ≤ t ↔ i < ⌊t / w⌋₊ := by
  rw [← Nat.add_one_le_iff, Nat.le_floor_iff (div_nonneg ht hw.le), le_div_iff₀ hw,
    Nat.cast_add_one]

/-- A point lies in a window that starts before it unless a window starts at it. -/
theorem floor_lt_ceil_iff (hw : 0 < w) (ht : 0 ≤ t) :
    ⌊t / w⌋₊ < ⌈t / w⌉₊ ↔ ∀ k : ℤ, t ≠ k * w := by
  have hfloor : (⌊t / w⌋₊ : K) * w ≤ t := by
    rw [← le_div_iff₀ hw]
    exact Nat.floor_le (div_nonneg ht hw.le)
  rw [← start_lt_iff hw]
  constructor
  · rintro h k rfl
    rw [mul_div_cancel_right₀ _ hw.ne'] at h
    lift k to ℕ using by
      have hk := nonneg_of_mul_nonneg_left ht hw
      exact_mod_cast hk
    simp at h
  · intro h
    apply lt_of_le_of_ne hfloor
    intro heq
    exact h ⌊t / w⌋₊ (by simpa using heq.symm)

end Window

/-! ## Counting by index -/

section Count
variable {α : Type} (index : α → Nat) (l : List α)

theorem countP_lt_succ (n : Nat) :
    l.countP (index · < n + 1) = l.countP (index · < n) + l.countP (index · = n) := by
  induction l with
  | nil => rfl
  | cons x l ih =>
    simp only [List.countP_cons, ih, decide_eq_true_eq]
    split_ifs <;> omega

/-- What the first `n` groups hold together. -/
theorem sum_countP_index (n : Nat) :
    ((List.range n).map fun i => l.countP (index · = i)).sum = l.countP (index · < n) := by
  induction n with
  | zero => simp
  | succ n ih =>
    rw [List.range_succ, List.map_append, List.sum_append, ih, countP_lt_succ]
    simp

end Count

/-! ## Evenly spaced points -/

theorem le_countP_range {p : Nat → Bool} {m n : Nat} (hm : m ≤ n) (h : ∀ i < m, p i = true) :
    m ≤ (List.range n).countP p := by
  have hall : (List.range m).countP p = m := by
    rw [List.countP_eq_length.mpr fun i hi => h i (List.mem_range.mp hi), List.length_range]
  rw [← hall]
  exact (List.range_sublist.mpr hm).countP_le

/-- A last window that the points do not fill holds fewer of them than the first one. -/
theorem countP_last_lt_countP_first {K : Type} [Field K] [LinearOrder K] [IsStrictOrderedRing K]
    [FloorRing K] {s a w : K} {n : Nat} (hs : 0 < s) (ha : 0 < a) (hw : 0 < w) (hn : 0 < n)
    (hend : n * s < a + w) :
    (List.range n).countP (fun i : Nat => a ≤ i * s) <
      (List.range n).countP (fun i : Nat => i * s < w) := by
  set k := ⌈a / s⌉₊ with hk
  have hkpos : 0 < k := Nat.ceil_pos.mpr (div_pos ha hs)
  have hbefore : ∀ i < k, i * s < a := fun i hi => (start_lt_iff hs).mpr hi
  have hlast : (List.range n).countP (fun i : Nat => a ≤ i * s) ≤ n - k := by
    have hcount : min k n ≤ (List.range n).countP fun i : Nat => !decide (a ≤ i * s) := by
      apply le_countP_range (Nat.min_le_right k n)
      intro i hi
      simpa using hbefore i (by omega)
    have hlen := List.length_eq_countP_add_countP (fun i : Nat => decide (a ≤ i * s))
      (l := List.range n)
    simp only [List.length_range, Bool.not_eq_true, decide_eq_false_iff_not] at hlen hcount
    simp only [decide_not] at hlen
    omega
  have hfirst : n - k + 1 ≤ (List.range n).countP (fun i : Nat => i * s < w) := by
    apply le_countP_range (by omega)
    intro i hi
    rw [decide_eq_true_eq]
    have hle : (i : K) * s ≤ (n - k : Nat) * s := by
      apply mul_le_mul_of_nonneg_right _ hs.le
      exact Nat.cast_le.mpr (by omega)
    apply lt_of_le_of_lt hle
    cases le_total k n with
    | inl hkn =>
      have hka : a ≤ k * s := by
        rw [← div_le_iff₀ hs]
        exact Nat.le_ceil _
      rw [Nat.cast_sub hkn, sub_mul]
      linarith
    | inr hnk =>
      rw [Nat.sub_eq_zero_of_le hnk, Nat.cast_zero, zero_mul]
      exact hw
  omega

end Base
