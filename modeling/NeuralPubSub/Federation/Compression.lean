-- SUMMARY: Second-level summary compression, and which publications keep a candidate among the super-clusters.
import NeuralPubSub.Federation.Routing

open Base

/-!
# Summary compression

`compress_summary` of `src/federation/summary.py`, over exact reals. What
`KMeans.fit_predict` returns is a parameter: any map from the clusters to
`range(max_clusters)`.
-/

namespace NeuralPubSub

variable {V : Type} [NormedAddCommGroup V] [InnerProductSpace ℝ V]

open NormedSpace (normalize)

/-- `1.0 - cosine_similarity(u, v)`; a zero vector has similarity 0 to every vector. -/
noncomputable def cosineDistance (u v : V) : ℝ := 1 - inner ℝ (normalize u) (normalize v)

/-! ## Compression -/

section Definitions

variable {maxClusters : Nat} (summary : SubscriptionSummary V ℝ)
  (labels : Fin summary.clusters.length → Fin maxClusters)

/-- The clusters that carry the label. -/
def groupMembers (label : Fin maxClusters) : List (ClusterSummary V ℝ) :=
  ((List.finRange summary.clusters.length).filter (labels · = label)).map summary.clusters.get

/-- The mean of the centroids, re-normalised. -/
noncomputable def superCentroid (members : List (ClusterSummary V ℝ)) : V :=
  let mean := (members.length : ℝ)⁻¹ • (members.map (·.centroidEmbedding)).sum
  if 0 < ‖mean‖ then ‖mean‖⁻¹ • mean else mean

/-- The radius of a member plus the distance from the super-centroid to it. -/
noncomputable def stretchedRadius (center : V) (m : ClusterSummary V ℝ) : ℝ :=
  m.radius + cosineDistance center m.centroidEmbedding

/-- The super-cluster of a label, unless no cluster carries it. -/
noncomputable def superCluster (label : Fin maxClusters) : Option (ClusterSummary V ℝ) :=
  match groupMembers summary labels label with
  | [] => none
  | m :: rest =>
    let center := superCentroid (m :: rest)
    some
      { clusterId := s!"super_{label.val}"
        centroidEmbedding := center
        radius := rest.foldl (fun r m' => max r (stretchedRadius center m'))
          (stretchedRadius center m)
        availableCapacity := ((m :: rest).map (·.availableCapacity)).sum }

/-- `compress_summary`. -/
noncomputable def compressSummary : SubscriptionSummary V ℝ :=
  if summary.clusters.length ≤ maxClusters then summary
  else
    { domainId := summary.domainId
      clusters := (List.finRange maxClusters).filterMap (superCluster summary labels)
      timestamp := summary.timestamp }

end Definitions

/-! ## Super-clusters -/

variable {maxClusters : Nat} {summary : SubscriptionSummary V ℝ}
  {labels : Fin summary.clusters.length → Fin maxClusters}

omit [NormedAddCommGroup V] [InnerProductSpace ℝ V] in
theorem mem_groupMembers {label : Fin maxClusters} {m : ClusterSummary V ℝ} :
    m ∈ groupMembers summary labels label ↔ ∃ i, labels i = label ∧ summary.clusters.get i = m := by
  simp [groupMembers]

/-- The centroids of the group of a label, added up. -/
noncomputable def groupSum (summary : SubscriptionSummary V ℝ)
    (labels : Fin summary.clusters.length → Fin maxClusters) (label : Fin maxClusters) : V :=
  ∑ i with labels i = label, (summary.clusters.get i).centroidEmbedding

omit [InnerProductSpace ℝ V] in
theorem sum_groupMembers (label : Fin maxClusters) :
    ((groupMembers summary labels label).map (·.centroidEmbedding)).sum =
      groupSum summary labels label := by
  rw [groupMembers, List.map_map, groupSum, ← List.sum_toFinset]
  · congr 1
    ext i
    simp
  · exact (List.nodup_finRange _).filter _

/-- The super-centroid points where the sum of the group points. -/
theorem normalize_superCentroid {label : Fin maxClusters}
    (hne : groupMembers summary labels label ≠ []) :
    normalize (superCentroid (groupMembers summary labels label)) =
      normalize (groupSum summary labels label) := by
  have hlength : 0 < ((groupMembers summary labels label).length : ℝ)⁻¹ :=
    inv_pos.mpr (Nat.cast_pos.mpr (List.length_pos_iff.mpr hne))
  have hmean := NormedSpace.normalize_smul_of_pos hlength (groupSum summary labels label)
  unfold superCentroid
  simp only [sum_groupMembers]
  split
  · next hpos => rw [NormedSpace.normalize_smul_of_pos (inv_pos.mpr hpos), hmean]
  · exact hmean

theorem lt_foldl_max_iff {α : Type} (f : α → ℝ) (l : List α) (b x : ℝ) :
    x < l.foldl (fun r a => max r (f a)) b ↔ x < b ∨ ∃ a ∈ l, x < f a := by
  induction l generalizing b with
  | nil => simp
  | cons a l ih => rw [List.foldl_cons, ih, lt_max_iff, or_assoc, List.exists_mem_cons_iff]

/-- A super-cluster is in reach when the stretched radius of one of its members makes it so. -/
theorem superCluster_inReach_iff {publication : V} {threshold : ℝ} {label : Fin maxClusters} :
    (∃ c ∈ superCluster summary labels label,
        InReach cosineDistance publication threshold c) ↔
      ∃ m ∈ groupMembers summary labels label,
        cosineDistance publication (superCentroid (groupMembers summary labels label)) <
          stretchedRadius (superCentroid (groupMembers summary labels label)) m + threshold := by
  unfold superCluster InReach
  cases groupMembers summary labels label with
  | nil => simp
  | cons m rest =>
    simp only [Option.mem_def, Option.some.injEq, exists_eq_left', ← sub_lt_iff_lt_add,
      lt_foldl_max_iff, List.exists_mem_cons_iff]

/-- In terms of directions: the step from the publication to the member must not lead
too far along the direction of the group. -/
theorem lt_stretchedRadius_iff {publication : V} {threshold : ℝ} {i : Fin summary.clusters.length}
    (hunit : ‖(summary.clusters.get i).centroidEmbedding‖ = 1) :
    cosineDistance publication (superCentroid (groupMembers summary labels (labels i))) <
        stretchedRadius (superCentroid (groupMembers summary labels (labels i)))
          (summary.clusters.get i) + threshold ↔
      inner ℝ ((summary.clusters.get i).centroidEmbedding - normalize publication)
        (normalize (groupSum summary labels (labels i))) <
          (summary.clusters.get i).radius + threshold := by
  have hne : groupMembers summary labels (labels i) ≠ [] :=
    List.ne_nil_of_mem (mem_groupMembers.mpr ⟨i, rfl, rfl⟩)
  unfold stretchedRadius cosineDistance
  rw [normalize_superCentroid hne, NormedSpace.normalize_eq_self_of_norm_eq_one hunit,
    inner_sub_left, real_inner_comm (summary.clusters.get i).centroidEmbedding]
  constructor <;> intro h <;> linarith

/-- Which publications have a candidate among the super-clusters. -/
theorem exists_inReach_compressSummary_iff {publication : V} {threshold : ℝ}
    (hunit : ∀ c ∈ summary.clusters, ‖c.centroidEmbedding‖ = 1)
    (hlarge : maxClusters < summary.clusters.length) :
    (∃ c ∈ (compressSummary summary labels).clusters,
        InReach cosineDistance publication threshold c) ↔
      ∃ i, inner ℝ ((summary.clusters.get i).centroidEmbedding - normalize publication)
        (normalize (groupSum summary labels (labels i))) <
          (summary.clusters.get i).radius + threshold := by
  rw [compressSummary, if_neg hlarge.not_ge]
  calc (∃ c ∈ (List.finRange maxClusters).filterMap (superCluster summary labels),
        InReach cosineDistance publication threshold c)
      ↔ ∃ label, ∃ c ∈ superCluster summary labels label,
          InReach cosineDistance publication threshold c := by
        simp only [List.mem_filterMap, List.mem_finRange, true_and]
        constructor
        · rintro ⟨c, ⟨label, hc⟩, hreach⟩
          exact ⟨label, c, hc, hreach⟩
        · rintro ⟨label, c, hc, hreach⟩
          exact ⟨c, ⟨label, hc⟩, hreach⟩
    _ ↔ ∃ i, cosineDistance publication
            (superCentroid (groupMembers summary labels (labels i))) <
          stretchedRadius (superCentroid (groupMembers summary labels (labels i)))
            (summary.clusters.get i) + threshold := by
        simp only [superCluster_inReach_iff, mem_groupMembers]
        constructor
        · rintro ⟨label, m, ⟨i, rfl, rfl⟩, hreach⟩
          exact ⟨i, hreach⟩
        · rintro ⟨i, hreach⟩
          exact ⟨labels i, _, ⟨i, rfl, rfl⟩, hreach⟩
    _ ↔ _ := exists_congr fun i => lt_stretchedRadius_iff (hunit _ (List.get_mem _ i))

/-! ## Lost candidates -/

/-- If the summary has a candidate for the publication, so has the compressed one. -/
def KeepsCandidates (summary : SubscriptionSummary V ℝ)
    (labels : Fin summary.clusters.length → Fin maxClusters) (publication : V) (threshold : ℝ) :
    Prop :=
  (∃ c ∈ summary.clusters, InReach cosineDistance publication threshold c) →
    ∃ c ∈ (compressSummary summary labels).clusters, InReach cosineDistance publication threshold c

/-! ### How far the cosine distance is from a metric -/

theorem norm_normalize_le (v : V) : ‖normalize v‖ ≤ 1 := by
  by_cases h : v = 0
  · simp [h]
  · exact (NormedSpace.norm_normalize h).le

theorem cosineDistance_nonneg (u v : V) : 0 ≤ cosineDistance u v := by
  have hle := real_inner_le_norm (normalize u) (normalize v)
  have hmul := mul_le_one₀ (norm_normalize_le u) (norm_nonneg _) (norm_normalize_le v)
  unfold cosineDistance
  linarith

theorem cosineDistance_of_unit {u v : V} (hu : ‖u‖ = 1) (hv : ‖v‖ = 1) :
    cosineDistance u v = 1 - inner ℝ u v := by
  rw [cosineDistance, NormedSpace.normalize_eq_self_of_norm_eq_one hu,
    NormedSpace.normalize_eq_self_of_norm_eq_one hv]

/-- The square of the chord is at most twice the cosine distance. -/
theorem norm_sub_normalize_le (u v : V) :
    ‖normalize u - normalize v‖ ≤ √(2 * cosineDistance u v) := by
  refine Real.le_sqrt_of_sq_le ?_
  have hu := pow_le_one₀ (n := 2) (norm_nonneg _) (norm_normalize_le u)
  have hv := pow_le_one₀ (n := 2) (norm_nonneg _) (norm_normalize_le v)
  rw [norm_sub_sq_real, cosineDistance]
  linarith

/-- A unit vector is as near to the direction of a sum of unit vectors as to each of them. -/
theorem cosineDistance_sum_le {ι : Type} {group : Finset ι} {v : ι → V} {c : V} {spread : ℝ}
    (hne : group.Nonempty) (hc : ‖c‖ = 1) (hv : ∀ j ∈ group, ‖v j‖ = 1) (hspread : spread ≤ 1)
    (hnear : ∀ j ∈ group, cosineDistance c (v j) ≤ spread) :
    cosineDistance c (∑ j ∈ group, v j) ≤ spread := by
  set sum := ∑ j ∈ group, v j with hsum
  have hterm : ∀ j ∈ group, 1 - spread ≤ inner ℝ c (v j) := by
    intro j hj
    have hle := hnear j hj
    rw [cosineDistance_of_unit hc (hv j hj)] at hle
    linarith
  have hinner : group.card * (1 - spread) ≤ inner ℝ c sum := by
    rw [hsum, inner_sum, ← nsmul_eq_mul]
    exact Finset.card_nsmul_le_sum _ _ _ hterm
  have hnorm : ‖sum‖ ≤ group.card := by
    calc ‖sum‖ ≤ ∑ j ∈ group, ‖v j‖ := norm_sum_le _ _
      _ = group.card := by rw [Finset.sum_congr rfl hv, Finset.sum_const, nsmul_eq_mul, mul_one]
  rw [cosineDistance, NormedSpace.normalize_eq_self_of_norm_eq_one hc]
  have hcard : (0 : ℝ) < group.card := Nat.cast_pos.mpr hne.card_pos
  by_cases hzero : sum = 0
  · -- centroids that cancel out are at least 1 apart
    rw [hzero, inner_zero_right] at hinner
    rw [hzero, NormedSpace.normalize_zero_eq_zero, inner_zero_right]
    nlinarith
  · have hpos : 0 < ‖sum‖ := norm_pos_iff.mpr hzero
    rw [NormedSpace.normalize, real_inner_smul_right, sub_le_comm]
    calc 1 - spread = ‖sum‖⁻¹ * (‖sum‖ * (1 - spread)) := by field_simp
      _ ≤ ‖sum‖⁻¹ * (group.card * (1 - spread)) := by
          have : 0 ≤ 1 - spread := by linarith
          gcongr
      _ ≤ ‖sum‖⁻¹ * inner ℝ c sum := by gcongr

/-- The step from the publication to a centroid, along the direction of a group whose
centroids are near to it. -/
theorem inner_sub_le {p c s : V} (hc : ‖c‖ = 1) :
    inner ℝ (c - normalize p) (normalize s) ≤
      cosineDistance p c + 2 * √(cosineDistance p c * cosineDistance c s) := by
  have hcn : normalize c = c := NormedSpace.normalize_eq_self_of_norm_eq_one hc
  have hsplit : inner ℝ (c - normalize p) (normalize s) =
      cosineDistance p c + inner ℝ (c - normalize p) (normalize s - c) := by
    rw [inner_sub_right (c - normalize p), inner_sub_left c _ c, real_inner_self_eq_norm_sq, hc,
      cosineDistance, hcn]
    ring
  have hpc := norm_sub_normalize_le p c
  have hcs := norm_sub_normalize_le c s
  rw [hcn, norm_sub_rev] at hpc hcs
  rw [hsplit]
  refine add_le_add_right ?_ _
  calc inner ℝ (c - normalize p) (normalize s - c)
      ≤ ‖c - normalize p‖ * ‖normalize s - c‖ := real_inner_le_norm _ _
    _ ≤ √(2 * cosineDistance p c) * √(2 * cosineDistance c s) :=
        mul_le_mul hpc hcs (norm_nonneg _) (Real.sqrt_nonneg _)
    _ = 2 * √(cosineDistance p c * cosineDistance c s) := by
        rw [Real.sqrt_mul zero_le_two, Real.sqrt_mul zero_le_two,
          Real.sqrt_mul (cosineDistance_nonneg p c)]
        linear_combination √(cosineDistance p c) * √(cosineDistance c s) *
          Real.mul_self_sqrt (zero_le_two (α := ℝ))

/-- Candidates that are in reach by a margin: it makes up for the triangle inequality that the
cosine distance does not have, over the spread of the centroids of the group. -/
def InReachByMargin (summary : SubscriptionSummary V ℝ)
    (labels : Fin summary.clusters.length → Fin maxClusters) (publication : V) (threshold : ℝ)
    (i : Fin summary.clusters.length) : Prop :=
  let distance := cosineDistance publication (summary.clusters.get i).centroidEmbedding
  ∃ spread ≤ 1, (∀ j, labels j = labels i → cosineDistance (summary.clusters.get i).centroidEmbedding
      (summary.clusters.get j).centroidEmbedding ≤ spread) ∧
    distance + 2 * √(distance * spread) < (summary.clusters.get i).radius + threshold

/-- For every summary with unit centroids, every labelling and every publication, candidates
are kept when there is nothing to compress, or some candidate is in reach by the margin. -/
theorem keepsCandidates_of_margin {publication : V} {threshold : ℝ}
    (hunit : ∀ c ∈ summary.clusters, ‖c.centroidEmbedding‖ = 1)
    (h : summary.clusters.length ≤ maxClusters ∨
      ((∃ c ∈ summary.clusters, InReach cosineDistance publication threshold c) →
        ∃ i, InReachByMargin summary labels publication threshold i)) :
    KeepsCandidates summary labels publication threshold := by
  unfold KeepsCandidates
  by_cases hlarge : summary.clusters.length ≤ maxClusters
  · rw [compressSummary, if_pos hlarge]
    exact id
  intro hcandidate
  obtain ⟨i, spread, hspread, hnear, hmargin⟩ := h.resolve_left hlarge hcandidate
  have hunit' : ∀ j, ‖(summary.clusters.get j).centroidEmbedding‖ = 1 := fun j =>
    hunit _ (List.get_mem _ j)
  rw [exists_inReach_compressSummary_iff hunit (not_le.mp hlarge)]
  refine ⟨i, (inner_sub_le (hunit' i)).trans_lt (lt_of_le_of_lt ?_ hmargin)⟩
  have hsum : cosineDistance (summary.clusters.get i).centroidEmbedding
      (groupSum summary labels (labels i)) ≤ spread :=
    cosineDistance_sum_le ⟨i, by simp⟩ (hunit' i) (fun j _ => hunit' j) hspread fun j hj =>
      hnear j (Finset.mem_filter.mp hj).2
  have hnonneg := cosineDistance_nonneg publication (summary.clusters.get i).centroidEmbedding
  gcongr

private noncomputable def planeSummary : SubscriptionSummary (EuclideanSpace ℝ (Fin 2)) ℝ where
  domainId := "d1"
  clusters := [⟨"0", !₂[4 / 5, 3 / 5], 0, 1⟩, ⟨"1", !₂[4 / 5, -3 / 5], 0, 1⟩]
  timestamp := 1

private theorem planeSummary_unit : ∀ c ∈ planeSummary.clusters, ‖c.centroidEmbedding‖ = 1 := by
  simp [planeSummary, EuclideanSpace.norm_eq]
  norm_num

private theorem planeSummary_get (i : Fin 2) : (planeSummary.clusters.get i).centroidEmbedding =
    ![!₂[4 / 5, 3 / 5], !₂[4 / 5, -3 / 5]] i ∧ (planeSummary.clusters.get i).radius = 0 := by
  fin_cases i <;> exact ⟨rfl, rfl⟩

/-- The direction of the two clusters together. -/
private theorem normalize_planeSummary :
    normalize (groupSum planeSummary (fun _ => (0 : Fin 1)) 0) = !₂[1, 0] := by
  have hsum : groupSum planeSummary (fun _ => (0 : Fin 1)) 0 = (8 / 5 : ℝ) • !₂[1, 0] := by
    change ∑ i : Fin 2 with (0 : Fin 1) = 0, (planeSummary.clusters.get i).centroidEmbedding = _
    simp only [planeSummary_get]
    ext j
    fin_cases j <;> norm_num [Fin.sum_univ_two]
  rw [hsum, NormedSpace.normalize_smul_of_pos (by norm_num)]
  apply NormedSpace.normalize_eq_self_of_norm_eq_one
  simp [EuclideanSpace.norm_eq]

/-- A publication between the two centroids is in reach by the margin for a large threshold. -/
theorem keepsCandidates_of_margin_between :
    KeepsCandidates planeSummary (fun _ => (0 : Fin 1)) !₂[1, 0] 1 := by
  have hunit : ∀ j : Fin 2, ‖(planeSummary.clusters.get j).centroidEmbedding‖ = 1 := fun j =>
    planeSummary_unit _ (List.get_mem planeSummary.clusters j)
  have hpublication : ‖(!₂[1, 0] : EuclideanSpace ℝ (Fin 2))‖ = 1 := by
    simp [EuclideanSpace.norm_eq]
  refine keepsCandidates_of_margin planeSummary_unit (.inr fun _ =>
    ⟨⟨0, by decide⟩, 18 / 25, by norm_num, fun j _ => ?_, ?_⟩)
  · change Fin 2 at j
    change cosineDistance (planeSummary.clusters.get (0 : Fin 2)).centroidEmbedding
      (planeSummary.clusters.get j).centroidEmbedding ≤ _
    rw [cosineDistance_of_unit (hunit 0) (hunit j), (planeSummary_get 0).1, (planeSummary_get j).1]
    fin_cases j <;>
      norm_num [EuclideanSpace.inner_eq_star_dotProduct, EuclideanSpace.norm_sq_eq]
  · change cosineDistance _ (planeSummary.clusters.get (0 : Fin 2)).centroidEmbedding + 2 * √(
      cosineDistance _ (planeSummary.clusters.get (0 : Fin 2)).centroidEmbedding * _) <
        (planeSummary.clusters.get (0 : Fin 2)).radius + 1
    have hdistance : cosineDistance !₂[1, 0]
        (planeSummary.clusters.get (0 : Fin 2)).centroidEmbedding = 1 / 5 := by
      rw [cosineDistance_of_unit hpublication (hunit 0), (planeSummary_get 0).1]
      norm_num [EuclideanSpace.inner_eq_star_dotProduct]
    have hroot : √(1 / 5 * (18 / 25) : ℝ) < 2 / 5 := by
      rw [Real.sqrt_lt' (by norm_num)]
      norm_num
    rw [hdistance, (planeSummary_get 0).2]
    linarith

/-- Both clusters are merged into one at (1, 0); a publication at (0, 1) is in reach of the
first cluster, but not of the super-cluster. -/
theorem not_keepsCandidates :
    ¬ ∀ (n maxClusters : Nat) (summary : SubscriptionSummary (EuclideanSpace ℝ (Fin n)) ℝ)
      (labels : Fin summary.clusters.length → Fin maxClusters)
      (publication : EuclideanSpace ℝ (Fin n)) (threshold : ℝ), 1 ≤ maxClusters →
      (∀ c ∈ summary.clusters, ‖c.centroidEmbedding‖ = 1) → 0 ≤ threshold →
      KeepsCandidates summary labels publication threshold := by
  intro h
  have hpublication : normalize (!₂[0, 1] : EuclideanSpace ℝ (Fin 2)) = !₂[0, 1] := by
    apply NormedSpace.normalize_eq_self_of_norm_eq_one
    simp [EuclideanSpace.norm_eq]
  have hcandidate : ∃ c ∈ planeSummary.clusters,
      InReach cosineDistance !₂[0, 1] (1 / 2) c := by
    refine ⟨_, List.mem_cons_self .., ?_⟩
    have hunit := NormedSpace.normalize_eq_self_of_norm_eq_one
      (planeSummary_unit _ (List.mem_cons_self ..))
    simp only [InReach, cosineDistance, hpublication]
    rw [hunit]
    norm_num [EuclideanSpace.inner_eq_star_dotProduct]
  have hkept := h 2 1 planeSummary (fun _ => 0) !₂[0, 1] (1 / 2) le_rfl planeSummary_unit
    (by norm_num) hcandidate
  obtain ⟨i, hi⟩ := (exists_inReach_compressSummary_iff planeSummary_unit (by decide)).mp hkept
  change Fin 2 at i
  rw [normalize_planeSummary, hpublication, (planeSummary_get i).1, (planeSummary_get i).2] at hi
  fin_cases i <;> norm_num [EuclideanSpace.inner_eq_star_dotProduct] at hi

end NeuralPubSub
