-- SUMMARY: Degradation depth: the worst window after an injection against the mean before it, and when an undisturbed trace shows none.
import NeuralPubSub.Analysis.Throughput

open Base

/-!
# Degradation depth

`compute_degradation_depth` of `scripts/analyze_recovery.py`. A last window that
reaches beyond the end of the trace is compared like the others.
-/

namespace NeuralPubSub

/-! ## The depth -/

/-- `.mean()` of a column with at least one entry. -/
def mean (column : List ℚ) : ℚ := column.sum / column.length

def preWindows (windows : List Window) (injectionS : ℚ) : List Window :=
  windows.filter fun window => window.windowEndS ≤ injectionS

def postWindows (windows : List Window) (injectionS : ℚ) : List Window :=
  windows.filter fun window => injectionS ≤ window.windowStartS

/-- The function after its first line. A frame built from no windows has no columns. -/
def degradationDepth (windows : List Window) (injectionS : ℚ) : Except PyError ℚ :=
  if windows = [] then .error (.key "'window_end_s'")
  else if preWindows windows injectionS = [] then .ok 1
  else
    let preThroughput := mean ((preWindows windows injectionS).map (·.throughputPps))
    if preThroughput ≤ 0 then .ok 1
    else
      match ((postWindows windows injectionS).map (·.throughputPps)).min? with
      | none => .ok 1
      | some minPost => .ok (minPost / preThroughput)

def computeDegradationDepth (fuel : Nat) (df : List TimedRow) (injectionS : ℚ)
    (windowS : ℚ := 5) : Option (Except PyError ℚ) :=
  (computeWindowedThroughput fuel df windowS).map fun result => do
    let windows ← result
    degradationDepth windows injectionS

theorem mean_eq {column : List ℚ} {v : ℚ} (hne : column ≠ []) (h : ∀ x ∈ column, x = v) :
    mean column = v := by
  have hlen : (column.length : ℚ) ≠ 0 :=
    Nat.cast_ne_zero.mpr (List.length_pos_iff.mpr hne).ne'
  rw [mean, List.sum_eq_card_nsmul column v h, nsmul_eq_mul]
  exact mul_div_cancel_left₀ v hlen

section Depth
variable {windows : List Window} {injectionS v : ℚ}

theorem mean_preWindows (hne : preWindows windows injectionS ≠ [])
    (h : ∀ window ∈ preWindows windows injectionS, window.throughputPps = v) :
    mean ((preWindows windows injectionS).map (·.throughputPps)) = v := by
  apply mean_eq (by simpa using hne)
  intro x hx
  cases List.mem_map.mp hx with
  | intro window hwindow => rw [← hwindow.2, h window hwindow.1]

/-- Windows of one throughput show no degradation. -/
theorem degradationDepth_eq_one (hne : windows ≠ [])
    (hpre : ∀ window ∈ preWindows windows injectionS, postWindows windows injectionS ≠ [] →
      window.throughputPps = v)
    (hpost : ∀ window ∈ postWindows windows injectionS, preWindows windows injectionS ≠ [] →
      window.throughputPps = v) : degradationDepth windows injectionS = .ok 1 := by
  rw [degradationDepth, if_neg hne]
  split
  · rfl
  · next hpreNe =>
    dsimp only
    split
    · rfl
    · next hpos =>
      split
      · rfl
      · next minPost hmin =>
        rw [List.min?_eq_some_iff] at hmin
        cases List.mem_map.mp hmin.1 with
        | intro window hwindow =>
          have hmean := mean_preWindows hpreNe fun before hbefore =>
            hpre before hbefore (List.ne_nil_of_mem hwindow.1)
          rw [hmean] at hpos ⊢
          rw [← hwindow.2, hpost window hwindow.1 hpreNe, div_self (not_le.mp hpos).ne']

/-- A later window below the throughput of the earlier ones shows as degradation. -/
theorem degradationDepth_lt_one (hpos : 0 < v) (hpreNe : preWindows windows injectionS ≠ [])
    (hpre : ∀ window ∈ preWindows windows injectionS, window.throughputPps = v)
    {window : Window} (hwindow : window ∈ postWindows windows injectionS)
    (hlt : window.throughputPps < v) :
    ∃ depth < 1, degradationDepth windows injectionS = .ok depth := by
  have hne : windows ≠ [] := List.ne_nil_of_mem (List.mem_filter.mp hwindow).1
  rw [degradationDepth, if_neg hne, if_neg hpreNe]
  dsimp only
  rw [mean_preWindows hpreNe hpre, if_neg (not_le.mpr hpos)]
  cases hmin : ((postWindows windows injectionS).map (·.throughputPps)).min? with
  | none =>
    rw [List.min?_eq_none_iff, List.map_eq_nil_iff] at hmin
    exact absurd hmin (List.ne_nil_of_mem hwindow)
  | some minPost =>
    rw [List.min?_eq_some_iff] at hmin
    refine ⟨minPost / v, ?_, rfl⟩
    rw [div_lt_one hpos]
    exact lt_of_le_of_lt (hmin.2 _ (List.mem_map_of_mem hwindow)) hlt

end Depth

/-! ## Evenly spaced rows -/

section Spread
variable {df : List PipelineRow} {total : Option ℚ} {duration windowS : ℚ}

/-- The rows with the elapsed times that `assign_elapsed_time` gives them. -/
def spread (df : List PipelineRow) (duration : ℚ) : List TimedRow :=
  List.zipWith (fun row t => { row with elapsedS := t }) df (linspace df.length duration)

theorem assignElapsedTime_eq (h : totalDuration df total = .ok (some duration)) :
    assignElapsedTime df total = .ok (some (spread df duration)) := by
  rw [assignElapsedTime, h]
  rfl

theorem spread_elapsedS (df : List PipelineRow) (duration : ℚ) :
    (spread df duration).map TimedRow.elapsedS = linspace df.length duration := by
  have hlen : (linspace df.length duration).length ≤ df.length := by simp [linspace]
  have hsnd := List.map_snd_zip hlen
  rw [List.zip, List.map_zipWith] at hsnd
  rw [spread, List.map_zipWith]
  exact hsnd

theorem success_of_mem_spread (hsuccess : ∀ row ∈ df, row.success = true) {row : TimedRow}
    (hrow : row ∈ spread df duration) : row.success = true := by
  rw [spread, ← List.map_uncurry_zip_eq_zipWith] at hrow
  cases List.mem_map.mp hrow with
  | intro entry hentry =>
    rw [← hentry.2]
    exact hsuccess entry.1 (List.of_mem_zip hentry.1).1

theorem countP_spread (df : List PipelineRow) (duration : ℚ) (p : ℚ → Bool) :
    (spread df duration).countP (fun row => p row.elapsedS) =
      (List.range df.length).countP fun j : Nat => p (j * (duration / df.length)) := by
  have hmap := congrArg (List.countP p) (spread_elapsedS df duration)
  rw [List.countP_map, linspace, List.countP_map] at hmap
  exact hmap

theorem maxElapsed_spread (hlen : 0 < df.length) (hduration : 0 ≤ duration) :
    maxElapsed (spread df duration) = some (duration - duration / df.length) := by
  have hn : (df.length : ℚ) ≠ 0 := Nat.cast_ne_zero.mpr hlen.ne'
  have hlast : duration - duration / df.length =
      (df.length - 1 : Nat) * (duration / df.length) := by
    rw [Nat.cast_sub hlen, Nat.cast_one, sub_mul, one_mul, mul_div_cancel₀ _ hn]
  rw [maxElapsed, spread_elapsedS, List.max?_eq_some_iff, hlast]
  constructor
  · exact List.mem_map_of_mem (List.mem_range.mpr (by omega))
  · intro t ht
    cases List.mem_map.mp ht with
    | intro j hj =>
      rw [← hj.2]
      apply mul_le_mul_of_nonneg_right
      · have hlt := List.mem_range.mp hj.1
        exact_mod_cast Nat.le_sub_one_of_lt hlt
      · exact div_nonneg hduration (Nat.cast_nonneg _)

theorem elapsedS_nonpos (h : df.length < 2 ∨ duration ≤ 0) {row : TimedRow}
    (hrow : row ∈ spread df duration) : row.elapsedS ≤ 0 := by
  have ht : row.elapsedS ∈ linspace df.length duration := by
    rw [← spread_elapsedS]
    exact List.mem_map_of_mem hrow
  cases List.mem_map.mp ht with
  | intro j hj =>
    rw [← hj.2]
    cases h with
    | inl hlen =>
      have hzero : j = 0 := by
        have hlt := List.mem_range.mp hj.1
        omega
      rw [hzero, Nat.cast_zero, zero_mul]
    | inr hduration =>
      apply mul_nonpos_of_nonneg_of_nonpos (Nat.cast_nonneg j)
      exact div_nonpos_of_nonpos_of_nonneg hduration (Nat.cast_nonneg _)

theorem nTotal_spread (df : List PipelineRow) (duration windowS : ℚ) (i : Nat) :
    (windowOf (spread df duration) windowS i).nTotal =
      (List.range df.length).countP fun j : Nat => i * windowS ≤ j * (duration / df.length) ∧
        j * (duration / df.length) < (i + 1) * windowS := by
  rw [windowOf, rowsIn, ← List.countP_eq_length_filter]
  exact countP_spread df duration fun t => i * windowS ≤ t ∧ t < (i + 1) * windowS

theorem throughputPps_spread (hsuccess : ∀ row ∈ df, row.success = true) (i : Nat) :
    (windowOf (spread df duration) windowS i).throughputPps =
      (windowOf (spread df duration) windowS i).nTotal / windowS := by
  have hall : (rowsIn (spread df duration) windowS i).countP (·.success) =
      (rowsIn (spread df duration) windowS i).length := by
    rw [List.countP_eq_length]
    intro row hrow
    exact success_of_mem_spread hsuccess (List.mem_filter.mp hrow).1
  simp only [windowOf, hall]

/-- The first window holds the first row. -/
theorem nTotal_first_pos (hlen : 0 < df.length) (hwindow : 0 < windowS) :
    0 < (windowOf (spread df duration) windowS 0).nTotal := by
  rw [nTotal_spread, List.countP_pos_iff]
  exact ⟨0, List.mem_range.mpr hlen, by simpa using hwindow⟩

/-- A window that reaches beyond the duration holds fewer rows than the first one. -/
theorem nTotal_last_lt (hlen : 0 < df.length) (hduration : 0 < duration) (hwindow : 0 < windowS)
    {m : Nat} (hm : 0 < m) (hend : duration < (m + 1) * windowS) :
    (windowOf (spread df duration) windowS m).nTotal <
      (windowOf (spread df duration) windowS 0).nTotal := by
  have hn : (0 : ℚ) < df.length := Nat.cast_pos.mpr hlen
  have hspan : (df.length : ℚ) * (duration / df.length) = duration := mul_div_cancel₀ _ hn.ne'
  rw [nTotal_spread, nTotal_spread]
  have hlt := countP_last_lt_countP_first (s := duration / df.length) (a := m * windowS)
    (w := windowS) (n := df.length) (div_pos hduration hn)
    (mul_pos (Nat.cast_pos.mpr hm) hwindow) hwindow hlen (by rw [hspan]; linarith)
  refine lt_of_le_of_lt (List.countP_mono_left fun j _ hj => ?_)
    (lt_of_lt_of_le hlt (List.countP_mono_left fun j _ hj => ?_))
  · simp only [decide_eq_true_eq] at hj ⊢
    exact hj.1
  · simp only [decide_eq_true_eq] at hj ⊢
    constructor
    · rw [Nat.cast_zero, zero_mul]
      exact mul_nonneg (Nat.cast_nonneg j) (div_pos hduration hn).le
    · simpa using hj

/-! ## No false degradation -/

theorem returns_computeDegradationDepth {timed : List TimedRow} {windows : List Window}
    (h : Returns (fun fuel => computeWindowedThroughput fuel timed windowS) (.ok windows))
    (injectionS : ℚ) :
    Returns (fun fuel => computeDegradationDepth fuel timed injectionS windowS)
      (degradationDepth windows injectionS) :=
  h.map _

variable {injectionS : ℚ}

section Generated
variable {n m : Nat}

theorem mem_preWindows_iff {df : List TimedRow} {window : Window} :
    window ∈ preWindows ((List.range n).map (windowOf df windowS)) injectionS ↔
      ∃ i < n, (i + 1) * windowS ≤ injectionS ∧ windowOf df windowS i = window := by
  simp only [preWindows, List.mem_filter, List.mem_map, List.mem_range, decide_eq_true_eq]
  constructor
  · rintro ⟨⟨i, hi, rfl⟩, hend⟩
    exact ⟨i, hi, hend, rfl⟩
  · rintro ⟨i, hi, hend, rfl⟩
    exact ⟨⟨i, hi, rfl⟩, hend⟩

theorem mem_postWindows_iff {df : List TimedRow} {window : Window} :
    window ∈ postWindows ((List.range n).map (windowOf df windowS)) injectionS ↔
      ∃ i < n, injectionS ≤ i * windowS ∧ windowOf df windowS i = window := by
  simp only [postWindows, List.mem_filter, List.mem_map, List.mem_range, decide_eq_true_eq]
  constructor
  · rintro ⟨⟨i, hi, rfl⟩, hstart⟩
    exact ⟨i, hi, hstart, rfl⟩
  · rintro ⟨i, hi, hstart, rfl⟩
    exact ⟨⟨i, hi, rfl⟩, hstart⟩

/-- A window that ends before another one starts has a smaller index. -/
theorem lt_of_end_le_start (hwindow : 0 < windowS) {i j : Nat}
    (hend : (i + 1) * windowS ≤ injectionS) (hstart : injectionS ≤ j * windowS) : i < j := by
  have hle : (i : ℚ) + 1 ≤ j := le_of_mul_le_mul_right (hend.trans hstart) hwindow
  exact_mod_cast hle

/-- The windows that the depth of an undisturbed trace is read from: `n` of them, the
first `m` of which lie inside the duration and hold equally many rows. -/
structure EvenWindows (df : List PipelineRow) (duration windowS : ℚ) (n m : Nat) : Prop where
  pos : 0 < n
  le_inside : ∀ i < n, i ≤ m
  equal : ∀ i < n, i < m → (windowOf (spread df duration) windowS i).throughputPps =
    (windowOf (spread df duration) windowS 0).throughputPps
  first_pos : 0 < (windowOf (spread df duration) windowS 0).throughputPps
  last_lt : 0 < m → (windowOf (spread df duration) windowS m).throughputPps <
    (windowOf (spread df duration) windowS 0).throughputPps

/-- The depth goes below one exactly when the window that reaches beyond the duration is
generated and starts after the injection, and a window ends before it. -/
theorem EvenWindows.degradationDepth_eq_one_iff (h : EvenWindows df duration windowS n m)
    (hwindow : 0 < windowS) :
    degradationDepth ((List.range n).map (windowOf (spread df duration) windowS)) injectionS =
        .ok 1 ↔
      ¬ (windowS ≤ injectionS ∧ injectionS ≤ m * windowS ∧ m < n) := by
  constructor
  · rintro hone ⟨hpre, hpost, hgenerated⟩
    have hend : ((0 : Nat) + 1) * windowS ≤ injectionS := by simpa using hpre
    have hfirst : windowOf (spread df duration) windowS 0 ∈ preWindows
        ((List.range n).map (windowOf (spread df duration) windowS)) injectionS :=
      mem_preWindows_iff.mpr ⟨0, h.pos, hend, rfl⟩
    have hlast : windowOf (spread df duration) windowS m ∈ postWindows
        ((List.range n).map (windowOf (spread df duration) windowS)) injectionS :=
      mem_postWindows_iff.mpr ⟨m, hgenerated, hpost, rfl⟩
    have hlt := degradationDepth_lt_one h.first_pos (List.ne_nil_of_mem hfirst) ?_ hlast
      (h.last_lt (lt_of_end_le_start hwindow hend hpost))
    · rcases hlt with ⟨depth, hdepth, heq⟩
      rw [hone] at heq
      cases heq
      exact absurd hdepth (lt_irrefl 1)
    · intro window hmem
      rcases mem_preWindows_iff.mp hmem with ⟨i, hi, hiEnd, rfl⟩
      exact h.equal i hi (lt_of_end_le_start hwindow hiEnd hpost)
  · intro hnot
    -- a window between the injection and the end of the trace lies inside the duration
    have hinside : ∀ {i j : Nat}, (i + 1) * windowS ≤ injectionS → j < n →
        injectionS ≤ j * windowS → j < m := by
      intro i j hend hj hstart
      apply lt_of_le_of_ne (h.le_inside j hj)
      rintro rfl
      have hpos : 0 ≤ (i : ℚ) * windowS := mul_nonneg (Nat.cast_nonneg i) hwindow.le
      exact hnot ⟨by linarith, hstart, hj⟩
    apply degradationDepth_eq_one (v := (windowOf (spread df duration) windowS 0).throughputPps)
    · simpa using h.pos.ne'
    · intro window hmem hpostNe
      cases List.exists_mem_of_ne_nil _ hpostNe with
      | intro later hlater =>
        rcases mem_preWindows_iff.mp hmem with ⟨i, hi, hend, rfl⟩
        rcases mem_postWindows_iff.mp hlater with ⟨j, hj, hstart, rfl⟩
        exact h.equal i hi
          ((lt_of_end_le_start hwindow hend hstart).trans (hinside hend hj hstart))
    · intro window hmem hpreNe
      cases List.exists_mem_of_ne_nil _ hpreNe with
      | intro earlier hearlier =>
        rcases mem_postWindows_iff.mp hmem with ⟨i, hi, hstart, rfl⟩
        rcases mem_preWindows_iff.mp hearlier with ⟨j, hj, hend, rfl⟩
        exact h.equal i hi (hinside hend hi hstart)

theorem evenWindows_spread (hlen : 2 ≤ df.length) (hduration : 0 < duration)
    (hwindow : 0 < windowS) (hsuccess : ∀ row ∈ df, row.success = true)
    (hn : n = ⌈(duration - duration / df.length) / windowS⌉₊) (hm : m = ⌊duration / windowS⌋₊)
    (hequal : ∀ i < n, ∀ j < n, (i + 1) * windowS ≤ duration → (j + 1) * windowS ≤ duration →
      (windowOf (spread df duration) windowS i).nTotal =
        (windowOf (spread df duration) windowS j).nTotal) :
    EvenWindows df duration windowS n m := by
  have hstep : duration / df.length < duration := by
    apply div_lt_self hduration
    exact_mod_cast hlen
  have hpos : 0 < n := by
    rw [hn, Nat.ceil_pos]
    exact div_pos (sub_pos.mpr hstep) hwindow
  constructor
  · exact hpos
  · intro i hi
    rw [hn, ← start_lt_iff hwindow] at hi
    rw [hm, Nat.le_floor_iff (div_nonneg hduration.le hwindow.le), le_div_iff₀ hwindow]
    have hrow : 0 < duration / df.length := div_pos hduration (Nat.cast_pos.mpr (by omega))
    linarith
  · intro i hi him
    rw [throughputPps_spread hsuccess, throughputPps_spread hsuccess]
    have hinside : ∀ {k : Nat}, k < m → ((k : ℚ) + 1) * windowS ≤ duration := fun hk =>
      (end_le_iff hwindow hduration.le).mpr (hm ▸ hk)
    rw [hequal i hi 0 hpos (hinside him) (hinside (by omega))]
  · rw [throughputPps_spread hsuccess]
    exact div_pos (Nat.cast_pos.mpr (nTotal_first_pos (by omega) hwindow)) hwindow
  · intro hmpos
    rw [throughputPps_spread hsuccess, throughputPps_spread hsuccess]
    apply div_lt_div_of_pos_right _ hwindow
    have hend : duration < ((m : ℚ) + 1) * windowS := by
      rw [← div_lt_iff₀ hwindow, hm]
      exact Nat.lt_floor_add_one _
    exact Nat.cast_lt.mpr (nTotal_last_lt (by omega) hduration hwindow hmpos hend)

end Generated

/-- An undisturbed trace shows no degradation exactly when it has two rows at least over a
positive duration, and no row falls in a window that starts after the injection and
reaches beyond the duration while a window ends before the injection. -/
theorem computeDegradationDepth_eq_one_iff {timed : List TimedRow}
    (hduration : totalDuration df total = .ok (some duration))
    (htimed : assignElapsedTime df total = .ok (some timed))
    (hsuccess : ∀ row ∈ df, row.success = true) (hwindow : 0 < windowS)
    (hequal : ∀ windows,
      Returns (fun fuel => computeWindowedThroughput fuel timed windowS) (.ok windows) →
      ∀ a ∈ windows, ∀ b ∈ windows, a.windowEndS ≤ duration → b.windowEndS ≤ duration →
        a.nTotal = b.nTotal) :
    Returns (fun fuel => computeDegradationDepth fuel timed injectionS windowS) (.ok 1) ↔
      2 ≤ df.length ∧ 0 < duration ∧
        ¬ (windowS ≤ injectionS ∧ injectionS ≤ ⌊duration / windowS⌋₊ * windowS ∧
          ⌊duration / windowS⌋₊ * windowS < duration - duration / df.length) := by
  rw [assignElapsedTime_eq hduration] at htimed
  cases htimed
  by_cases hrows : 2 ≤ df.length ∧ 0 < duration
  · have hreturns := returns_computeWindowedThroughput hwindow
      (maxElapsed_spread (show 0 < df.length by omega) hrows.2.le)
    have heven := evenWindows_spread (m := ⌊duration / windowS⌋₊) hrows.1 hrows.2 hwindow hsuccess
      rfl rfl fun i hi j hj hiEnd hjEnd => hequal _ hreturns _
        (List.mem_map_of_mem (List.mem_range.mpr hi)) _
        (List.mem_map_of_mem (List.mem_range.mpr hj)) hiEnd hjEnd
    rw [(returns_computeDegradationDepth hreturns injectionS).iff,
      heven.degradationDepth_eq_one_iff hwindow, start_lt_iff hwindow]
    simp only [hrows, true_and]
  · have hnone : ∀ row ∈ spread df duration, row.elapsedS ≤ 0 := by
      intro row hrow
      apply elapsedS_nonpos _ hrow
      by_contra hnot
      rw [not_or, not_lt, not_le] at hnot
      exact hrows hnot
    rw [(returns_computeDegradationDepth (returns_nil hnone windowS) injectionS).iff]
    constructor
    · intro h
      cases h
    · intro h
      exact absurd ⟨h.1, h.2.1⟩ hrows

end Spread

private def steadyRun (n : Nat) : List PipelineRow := List.replicate n ⟨true, 1⟩

/-- Ten rows over ten seconds in windows of five. -/
theorem computeDegradationDepth_eq_one_iff_whole :
    ∃ timed, assignElapsedTime (steadyRun 10) (some 10) = .ok (some timed) ∧
      Returns (fun fuel => computeDegradationDepth fuel timed 5 5) (.ok 1) := by
  have hwindow : (0 : ℚ) < 5 := by norm_num
  have hduration : totalDuration (steadyRun 10) (some 10) = .ok (some 10) := rfl
  have hreturns := returns_computeWindowedThroughput hwindow
    (show maxElapsed (spread (steadyRun 10) 10) = some 9 by decide +kernel)
  refine ⟨spread (steadyRun 10) 10, rfl, (computeDegradationDepth_eq_one_iff hduration rfl
    (by decide +kernel) hwindow ?_).mpr (by decide +kernel)⟩
  intro windows h
  cases hreturns.unique h
  decide +kernel

/-- In windows of four seconds the last one is counted although the trace ends in it. -/
theorem computeDegradationDepth_partial_window :
    ∃ timed windows, assignElapsedTime (steadyRun 10) (some 10) = .ok (some timed) ∧
      Returns (fun fuel => computeWindowedThroughput fuel timed 4) (.ok windows) ∧
      (∀ a ∈ windows, ∀ b ∈ windows, a.windowEndS ≤ 10 → b.windowEndS ≤ 10 →
        a.nTotal = b.nTotal) ∧
      Returns (fun fuel => computeDegradationDepth fuel timed 4 4) (.ok (1 / 2)) ∧
      ¬ Returns (fun fuel => computeDegradationDepth fuel timed 4 4) (.ok 1) := by
  have hwindow : (0 : ℚ) < 4 := by norm_num
  have hreturns := returns_computeWindowedThroughput hwindow
    (show maxElapsed (spread (steadyRun 10) 10) = some 9 by decide +kernel)
  have hdepth := returns_computeDegradationDepth hreturns 4
  refine ⟨spread (steadyRun 10) 10, _, rfl, hreturns, by decide +kernel, ?_, ?_⟩
  · apply hdepth.iff.mpr
    decide +kernel
  · intro h
    have heq := hdepth.unique h
    revert heq
    decide +kernel

end NeuralPubSub
