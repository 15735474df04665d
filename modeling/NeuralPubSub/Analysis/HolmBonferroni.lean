-- SUMMARY: The Holm-Bonferroni correction: the loop over the sorted p-values, and that its marks are those of the step-down procedure.
import NeuralPubSub.Base.Scan
import NeuralPubSub.Base.StepDown

open Base

/-!
# Holm-Bonferroni correction

`holm_bonferroni` of `scripts/analyze_results.py`. The loop carries a running
maximum through the sorted p-values and writes each result at the place where
its p-value was in the input.
-/

namespace NeuralPubSub

/-- The variables of the loop. -/
structure HolmState where
  cumulativeMax : ℚ
  adjusted : List ℚ
  significant : List Bool
  deriving Repr

/-- `sorted(enumerate(p_values), key=lambda x: x[1])`, with the index second. -/
def indexed (pValues : List ℚ) : List (ℚ × Nat) :=
  pValues.zipIdx.insertionSort fun a b => a.1 ≤ b.1

def holmStep (alpha : ℚ) (n : Nat) (s : HolmState) (entry : (ℚ × Nat) × Nat) : HolmState :=
  let ((p, origIdx), rank) := entry
  let k := n - rank
  let adjP := min (p * k) 1
  let cumulativeMax := max s.cumulativeMax adjP
  { cumulativeMax
    adjusted := s.adjusted.set origIdx cumulativeMax
    significant := s.significant.set origIdx (decide (cumulativeMax < alpha)) }

def holmBonferroni (pValues : List ℚ) (alpha : ℚ := 1 / 20) : List (ℚ × Bool) :=
  let n := pValues.length
  let s := (indexed pValues).zipIdx.foldl (holmStep alpha n)
    ⟨0, List.replicate n 0, List.replicate n false⟩
  s.adjusted.zip s.significant

/-! ## The sorted p-values -/

section Sorted
variable (pValues : List ℚ)

theorem indexed_perm : (indexed pValues).Perm pValues.zipIdx :=
  List.perm_insertionSort _ _

theorem indexed_map_fst : (indexed pValues).map Prod.fst = pValues.insertionSort (· ≤ ·) := by
  rw [indexed, List.map_insertionSort (s := (· ≤ ·)) _ _ _ fun a _ b _ => Iff.rfl,
    List.zipIdx_map_fst]

/-- The entries have the places of the input, each once. -/
theorem indexed_places_perm :
    ((indexed pValues).zipIdx.map fun x => x.1.2).Perm (List.range pValues.length) := by
  have hsnd : ((indexed pValues).zipIdx.map fun x => x.1.2) = (indexed pValues).map Prod.snd := by
    rw [← List.zipIdx_map_fst 0 (indexed pValues), List.map_map, List.zipIdx_map_fst]
    rfl
  have hplaces : pValues.zipIdx.map Prod.snd = List.range pValues.length := by
    simp [List.range_eq_range']
  rw [hsnd, ← hplaces]
  exact (indexed_perm pValues).map Prod.snd

/-- An entry has the sorted p-value of its rank. -/
theorem getElem?_of_mem_indexed {entry : (ℚ × Nat) × Nat} (h : entry ∈ (indexed pValues).zipIdx) :
    (pValues.insertionSort (· ≤ ·))[entry.2]? = some entry.1.1 := by
  rw [← indexed_map_fst, List.getElem?_map, List.mk_mem_zipIdx_iff_getElem?.mp h]
  rfl

variable {pValues} in
theorem sorted_nonneg (hnonneg : ∀ p ∈ pValues, 0 ≤ p) :
    ∀ p ∈ pValues.insertionSort (· ≤ ·), 0 ≤ p := by
  intro p hp
  exact hnonneg p ((List.mem_insertionSort _).mp hp)

end Sorted

/-! ## The loop over the sorted p-values -/

section Loop
variable {pValues : List ℚ} {alpha : ℚ}

/-- What the loop knows after the entries of `done`. The next product takes the
running maximum to the adjusted p-value of the next place. -/
structure HolmInv (pValues : List ℚ) (alpha : ℚ) (done : List ((ℚ × Nat) × Nat))
    (s : HolmState) : Prop where
  running : max s.cumulativeMax (min 1 (scaled (pValues.insertionSort (· ≤ ·)) done.length)) =
    adjustedAt (pValues.insertionSort (· ≤ ·)) done.length
  adjusted_length : s.adjusted.length = pValues.length
  significant_length : s.significant.length = pValues.length
  adjusted : Scattered (fun x => x.1.2) (fun x => adjustedAt (pValues.insertionSort (· ≤ ·)) x.2)
    done s.adjusted
  significant : Scattered (fun x => x.1.2)
    (fun x => decide (adjustedAt (pValues.insertionSort (· ≤ ·)) x.2 < alpha)) done s.significant

theorem holmStep_inv {done rest : List ((ℚ × Nat) × Nat)} {x : (ℚ × Nat) × Nat} {s : HolmState}
    (hl : (indexed pValues).zipIdx = done ++ x :: rest) (h : HolmInv pValues alpha done s) :
    HolmInv pValues alpha (done ++ [x]) (holmStep alpha pValues.length s x) := by
  set sorted := pValues.insertionSort (· ≤ ·) with hsorted
  have hx : x ∈ (indexed pValues).zipIdx := by simp [hl]
  have hrank := index_of_zipIdx_split hl
  have hlen : sorted.length = pValues.length := List.length_insertionSort _ _
  have hscaled : min 1 (scaled sorted done.length) =
      min (x.1.1 * (pValues.length - x.2 : Nat)) 1 := by
    have hp := getElem?_of_mem_indexed pValues hx
    rw [scaled, ← hrank, List.getD_eq_getElem?_getD, hp, hlen, min_comm, mul_comm]
    rfl
  have hcum : max s.cumulativeMax (min (x.1.1 * (pValues.length - x.2 : Nat)) 1) =
      adjustedAt sorted x.2 := by
    rw [← hscaled, h.running, hrank]
  have hplace : x.1.2 < pValues.length :=
    List.mem_range.mp ((indexed_places_perm pValues).mem_iff.mp (List.mem_map_of_mem hx))
  have hnew : ∀ y ∈ done, y.1.2 ≠ x.1.2 := by
    have hnodup := (indexed_places_perm pValues).nodup_iff.mpr List.nodup_range
    rw [hl, List.map_append, List.nodup_append] at hnodup
    intro y hy
    exact hnodup.2.2 _ (List.mem_map_of_mem hy) _ (by simp)
  constructor
  · rw [List.length_append, List.length_singleton, adjustedAt_succ, ← hrank, ← hcum]
    rfl
  · simp [holmStep, h.adjusted_length]
  · simp [holmStep, h.significant_length]
  · exact h.adjusted.set (h.adjusted_length ▸ hplace) hnew hcum
  · exact h.significant.set (h.significant_length ▸ hplace) hnew (by rw [hcum])

theorem holmLoop_inv (hnonneg : ∀ p ∈ pValues, 0 ≤ p) :
    HolmInv pValues alpha (indexed pValues).zipIdx
      ((indexed pValues).zipIdx.foldl (holmStep alpha pValues.length)
        ⟨0, List.replicate pValues.length 0, List.replicate pValues.length false⟩) := by
  apply foldl_scan (P := HolmInv pValues alpha)
  · constructor
    · -- no product is negative, so the running maximum may start at zero
      rw [List.length_nil, adjustedAt_zero, max_eq_right]
      apply le_min zero_le_one
      apply mul_nonneg (Nat.cast_nonneg _)
      cases hsorted : pValues.insertionSort (· ≤ ·) with
      | nil => exact le_rfl
      | cons p ps => exact sorted_nonneg hnonneg p (by simp [hsorted])
    · exact List.length_replicate
    · exact List.length_replicate
    · simp [Scattered]
    · simp [Scattered]
  · intro done x rest s hl h
    exact holmStep_inv hl h

end Loop

/-! ## The correction -/

section Correction
variable {pValues : List ℚ} {alpha : ℚ}

/-- The adjusted p-value of `p` among the sorted p-values, and whether it is below `alpha`. -/
def verdict (sorted : List ℚ) (alpha : ℚ) (p : ℚ) : ℚ × Bool :=
  (adjustedAt sorted (sorted.idxOf p), decide (adjustedAt sorted (sorted.idxOf p) < alpha))

theorem adjustedAt_sorted_congr (hnonneg : ∀ p ∈ pValues, 0 ≤ p) {i : Nat} {p : ℚ}
    (hi : (pValues.insertionSort (· ≤ ·))[i]? = some p) :
    adjustedAt (pValues.insertionSort (· ≤ ·)) i =
      adjustedAt (pValues.insertionSort (· ≤ ·)) ((pValues.insertionSort (· ≤ ·)).idxOf p) := by
  cases List.getElem?_eq_some_iff.mp hi with
  | intro hlt hget =>
    have hmem : p ∈ pValues.insertionSort (· ≤ ·) := List.mem_of_getElem? hi
    apply adjustedAt_congr (List.pairwise_insertionSort _ _) (sorted_nonneg hnonneg) hlt
      (List.idxOf_lt_length_iff.mpr hmem)
    rw [hget, List.getElem_idxOf]

/-- The results depend on the sorted p-values alone, whichever way ties were broken. -/
theorem holmBonferroni_eq_map (hnonneg : ∀ p ∈ pValues, 0 ≤ p) :
    holmBonferroni pValues alpha =
      pValues.map (verdict (pValues.insertionSort (· ≤ ·)) alpha) := by
  have h : HolmInv pValues alpha _ _ := holmLoop_inv hnonneg
  apply List.ext_getElem?
  intro k
  rw [holmBonferroni, List.getElem?_map]
  cases hk : pValues[k]? with
  | none =>
    rw [List.getElem?_eq_none_iff] at hk
    rw [Option.map_none, List.getElem?_eq_none_iff, List.length_zip, h.adjusted_length,
      h.significant_length]
    omega
  | some p =>
    have hmem : (p, k) ∈ indexed pValues :=
      (indexed_perm pValues).mem_iff.mpr (List.mk_mem_zipIdx_iff_getElem?.mpr hk)
    cases List.mem_iff_getElem?.mp hmem with
    | intro rank hrank =>
      have hx : ((p, k), rank) ∈ (indexed pValues).zipIdx :=
        List.mk_mem_zipIdx_iff_getElem?.mpr hrank
      rw [Option.map_some, List.getElem?_zip_eq_some, verdict,
        ← adjustedAt_sorted_congr hnonneg (getElem?_of_mem_indexed pValues hx)]
      exact ⟨h.adjusted _ hx, h.significant _ hx⟩

/-- There is one sorted list of p-values, whichever way ties are broken. -/
theorem eq_sorted {sorted : List ℚ} (hperm : sorted.Perm pValues)
    (hsorted : sorted.Pairwise (· ≤ ·)) : sorted = pValues.insertionSort (· ≤ ·) :=
  (hperm.trans (List.perm_insertionSort (· ≤ ·) pValues).symm).eq_of_pairwise' hsorted
    (List.pairwise_insertionSort _ _)

theorem verdict_mono (hnonneg : ∀ p ∈ pValues, 0 ≤ p) {p p' : ℚ} (hp : p ∈ pValues)
    (hp' : p' ∈ pValues) (h : p ≤ p') :
    (verdict (pValues.insertionSort (· ≤ ·)) alpha p).1 ≤
      (verdict (pValues.insertionSort (· ≤ ·)) alpha p').1 := by
  have hi := List.idxOf_lt_length_iff.mpr ((List.mem_insertionSort (· ≤ ·)).mpr hp)
  have hi' := List.idxOf_lt_length_iff.mpr ((List.mem_insertionSort (· ≤ ·)).mpr hp')
  apply adjustedAt_le_of_getElem_le (List.pairwise_insertionSort _ _) (sorted_nonneg hnonneg) hi hi'
  rw [List.getElem_idxOf, List.getElem_idxOf]
  exact h

/-- For every way to sort the p-values, the hypothesis at each rank gets the
largest product up to its rank, cut at one, and it is marked when the step-down
procedure rejects it. The results follow the p-values: equal ones get equal
results, a permutation of the input permutes them, and larger ones get no
smaller adjusted values. -/
theorem holmBonferroni_sound (hnonneg : ∀ p ∈ pValues, 0 ≤ p) (halpha : alpha ≤ 1) :
    (holmBonferroni pValues alpha).length = pValues.length ∧
    (∀ order : List (ℚ × Nat), order.Perm pValues.zipIdx →
      (order.Pairwise fun a b => a.1 ≤ b.1) → ∀ i p k, order[i]? = some (p, k) →
      ∃ adjusted significant, (holmBonferroni pValues alpha)[k]? = some (adjusted, significant) ∧
        IsGreatest {x | ∃ j ≤ i, x = min 1 (scaled (order.map Prod.fst) j)} adjusted ∧
        (significant = true ↔ ∀ j ≤ i, scaled (order.map Prod.fst) j < alpha) ∧
        (significant = true ↔ i < rejections alpha (order.map Prod.fst))) ∧
    (∀ k k' : Nat, pValues[k]? = pValues[k']? →
      (holmBonferroni pValues alpha)[k]? = (holmBonferroni pValues alpha)[k']?) ∧
    (∀ (σ : Equiv.Perm (Fin pValues.length)) (k : Fin pValues.length),
      (holmBonferroni (List.ofFn fun k => pValues.get (σ k)) alpha)[k.val]? =
        (holmBonferroni pValues alpha)[(σ k).val]?) ∧
    (∀ (k k' : Nat) (p p' : ℚ) (r r' : ℚ × Bool), pValues[k]? = some p → pValues[k']? = some p' →
      (holmBonferroni pValues alpha)[k]? = some r →
      (holmBonferroni pValues alpha)[k']? = some r' → p ≤ p' → r.1 ≤ r'.1) := by
  rw [holmBonferroni_eq_map hnonneg]
  refine ⟨List.length_map _, ?_, ?_, ?_, ?_⟩
  · intro order hperm hsorted i p k hi
    have horder : order.map Prod.fst = pValues.insertionSort (· ≤ ·) :=
      eq_sorted (by simpa using hperm.map Prod.fst) (List.pairwise_map.mpr hsorted)
    rw [horder]
    have hrank : (pValues.insertionSort (· ≤ ·))[i]? = some p := by
      rw [← horder, List.getElem?_map, hi, Option.map_some]
    have hk : pValues[k]? = some p :=
      List.mk_mem_zipIdx_iff_getElem?.mp (hperm.mem_iff.mp (List.mem_of_getElem? hi))
    refine ⟨_, _, by rw [List.getElem?_map, hk]; rfl, ?_⟩
    rw [← adjustedAt_sorted_congr hnonneg hrank, decide_eq_true_iff, adjustedAt_lt_iff halpha]
    refine ⟨isGreatest_adjustedAt _ i, Iff.rfl, ?_⟩
    rw [lt_rejections_iff]
    exact (and_iff_right (List.getElem?_eq_some_iff.mp hrank).1).symm
  · intro k k' hk
    rw [List.getElem?_map, List.getElem?_map, hk]
  · intro σ k
    have hperm : (List.ofFn fun k => pValues.get (σ k)).Perm pValues := by
      have hofFn := Equiv.Perm.ofFn_comp_perm σ pValues.get
      rwa [List.ofFn_get] at hofFn
    have hsorted := eq_sorted ((List.perm_insertionSort (· ≤ ·) _).trans hperm)
      (List.pairwise_insertionSort _ _)
    rw [holmBonferroni_eq_map fun p hp => hnonneg p (hperm.mem_iff.mp hp), hsorted,
      List.getElem?_map, List.getElem?_map]
    simp
  · intro k k' p p' r r' hk hk' hr hr' hle
    rw [List.getElem?_map, hk] at hr
    rw [List.getElem?_map, hk'] at hr'
    cases hr
    cases hr'
    exact verdict_mono hnonneg (List.mem_of_getElem? hk) (List.mem_of_getElem? hk') hle

/-- Three p-values, two of them equal. -/
theorem holmBonferroni_sound_tie :
    holmBonferroni [1 / 25, 1 / 100, 1 / 100] =
      [(1 / 25, true), (3 / 100, true), (3 / 100, true)] ∧
    ∃ adjusted significant, (holmBonferroni [1 / 25, 1 / 100, 1 / 100])[0]? =
        some (adjusted, significant) ∧
      IsGreatest {x | ∃ j ≤ 2, x = min 1 (scaled [1 / 100, 1 / 100, 1 / 25] j)} adjusted ∧
      (significant = true ↔ ∀ j ≤ 2, scaled [1 / 100, 1 / 100, 1 / 25] j < (1 / 20 : ℚ)) ∧
      (significant = true ↔ 2 < rejections (1 / 20 : ℚ) [1 / 100, 1 / 100, 1 / 25]) :=
  ⟨by decide +kernel,
    (holmBonferroni_sound (by decide +kernel) (by norm_num)).2.1
      [(1 / 100, 1), (1 / 100, 2), (1 / 25, 0)] (by decide +kernel) (by decide +kernel)
      2 (1 / 25) 0 rfl⟩

end Correction
end NeuralPubSub
