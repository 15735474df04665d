-- SUMMARY: Windowed throughput: the loop over the windows of a trace, and when every row falls in one of them.
import NeuralPubSub.Base.Scan
import NeuralPubSub.Base.Windows
import NeuralPubSub.Pipeline.Dag

open Base

/-!
# Windowed throughput

`assign_elapsed_time` and `compute_windowed_throughput` of
`scripts/analyze_recovery.py`. The windows of a trace start at zero and are
generated while they start before its largest elapsed time.
-/

namespace NeuralPubSub

/-- The columns of a row that the functions below read. -/
structure PipelineRow where
  success : Bool
  throughputPps : ℚ
  deriving DecidableEq, Repr

structure TimedRow extends PipelineRow where
  elapsedS : ℚ
  deriving DecidableEq, Repr

structure Window where
  windowStartS : ℚ
  windowEndS : ℚ
  throughputPps : ℚ
  nSuccess : Nat
  nTotal : Nat
  deriving DecidableEq, Repr

/-! ## Elapsed times -/

/-- The duration over which the rows are spread. It is `none` where NumPy divides by a
throughput of zero, which gives no finite number. -/
def totalDuration (df : List PipelineRow) : Option ℚ → Except PyError (Option ℚ)
  | some totalDurationS => .ok (some totalDurationS)
  | none =>
    match df with
    | [] => .error (.index "single positional indexer is out-of-bounds")
    | row :: _ =>
      .ok (if row.throughputPps = 0 then none else some (df.length / row.throughputPps))

/-- `np.linspace(0, total_duration_s, n, endpoint=False)`. -/
def linspace (n : Nat) (totalDurationS : ℚ) : List ℚ :=
  (List.range n).map fun i : Nat => i * (totalDurationS / n)

def assignElapsedTime (df : List PipelineRow) (totalDurationS : Option ℚ) :
    Except PyError (Option (List TimedRow)) := do
  let total ← totalDuration df totalDurationS
  return total.map fun total =>
    List.zipWith (fun row t => { row with elapsedS := t }) df (linspace df.length total)

/-! ## The loop over the windows -/

/-- `df["elapsed_s"].max()`, which is not a number for a trace without rows. -/
def maxElapsed (df : List TimedRow) : Option ℚ := (df.map TimedRow.elapsedS).max?

def windowAt (df : List TimedRow) (windowS t : ℚ) : Except PyError Window := do
  let tEnd := t + windowS
  let windowRows := df.filter fun row => t ≤ row.elapsedS ∧ row.elapsedS < tEnd
  let nTotal := windowRows.length
  let nSuccess := windowRows.countP (·.success)
  let throughput ← divide nSuccess windowS
  return ⟨t, tEnd, throughput, nSuccess, nTotal⟩

def windowStep (df : List TimedRow) (windowS : ℚ) (s : ℚ × List Window) :
    Except PyError (ℚ × List Window) := do
  let window ← windowAt df windowS s.1
  return (window.windowEndS, s.2 ++ [window])

/-- A loop that does not end in the given number of iterations has no result. -/
def computeWindowedThroughput (fuel : Nat) (df : List TimedRow) (windowS : ℚ := 5) :
    Option (Except PyError (List Window)) :=
  match maxElapsed df with
  | none => some (.ok []) -- `0.0 < nan` is false
  | some maxT =>
    (whileLoop (fun s => s.1 < maxT) (windowStep df windowS) fuel (0, [])).map
      (Except.map Prod.snd)

/-! ## What the loop returns -/

section Loop
variable {df : List TimedRow} {windowS maxT : ℚ}

def rowsIn (df : List TimedRow) (windowS : ℚ) (i : Nat) : List TimedRow :=
  df.filter fun row => i * windowS ≤ row.elapsedS ∧ row.elapsedS < (i + 1) * windowS

/-- The window `i` of a trace. -/
def windowOf (df : List TimedRow) (windowS : ℚ) (i : Nat) : Window where
  windowStartS := i * windowS
  windowEndS := (i + 1) * windowS
  throughputPps := (rowsIn df windowS i).countP (·.success) / windowS
  nSuccess := (rowsIn df windowS i).countP (·.success)
  nTotal := (rowsIn df windowS i).length

theorem windowAt_eq (hwindow : 0 < windowS) (i : Nat) :
    windowAt df windowS (i * windowS) = .ok (windowOf df windowS i) := by
  have hend : (i : ℚ) * windowS + windowS = (i + 1) * windowS := by ring
  simp only [windowAt, hend, divide, if_neg hwindow.ne', windowOf, rowsIn]
  rfl

/-- The state of the loop after some of the windows that start before `maxT`. -/
structure WindowsSoFar (df : List TimedRow) (windowS maxT : ℚ) (s : ℚ × List Window) : Prop where
  start : s.1 = s.2.length * windowS
  length_le : s.2.length ≤ ⌈maxT / windowS⌉₊
  windows : s.2 = (List.range s.2.length).map (windowOf df windowS)

theorem WindowsSoFar.step (hwindow : 0 < windowS) {s : ℚ × List Window}
    (h : WindowsSoFar df windowS maxT s) (hcond : s.1 < maxT) :
    ∃ s', windowStep df windowS s = .ok s' ∧ WindowsSoFar df windowS maxT s' ∧
      ⌈maxT / windowS⌉₊ - s'.2.length < ⌈maxT / windowS⌉₊ - s.2.length := by
  have hlt : s.2.length < ⌈maxT / windowS⌉₊ := by
    rwa [h.start, start_lt_iff hwindow] at hcond
  refine ⟨((s.2.length + 1) * windowS, s.2 ++ [windowOf df windowS s.2.length]), ?_, ?_, ?_⟩
  · rw [windowStep, h.start, windowAt_eq hwindow]
    rfl
  · constructor
    · simp
    · simpa using hlt
    · rw [List.length_append, List.length_singleton, List.range_succ, List.map_append, ← h.windows]
      rfl
  · rw [List.length_append, List.length_singleton]
    omega

/-- The windows that start before the largest elapsed time, in order. -/
theorem returns_computeWindowedThroughput (hwindow : 0 < windowS)
    (hmax : maxElapsed df = some maxT) :
    Returns (fun fuel => computeWindowedThroughput fuel df windowS)
      (.ok ((List.range ⌈maxT / windowS⌉₊).map (windowOf df windowS))) := by
  have hinit : WindowsSoFar df windowS maxT (0, []) := ⟨by simp, Nat.zero_le _, rfl⟩
  rcases whileLoop_total (fun s : ℚ × List Window => ⌈maxT / windowS⌉₊ - s.2.length)
    (fun _ h (hcond : _ < maxT) => WindowsSoFar.step hwindow h hcond) hinit with
    ⟨s, hs, h, hend⟩
  rw [h.start, start_lt_iff hwindow] at hend
  have hlen : s.2.length = ⌈maxT / windowS⌉₊ := le_antisymm h.length_le (not_lt.mp hend)
  have hwindows := hs.map (Except.map Prod.snd)
  simp only [Except.map] at hwindows
  rw [h.windows, hlen] at hwindows
  simp only [computeWindowedThroughput, hmax]
  exact hwindows

theorem maxElapsed_eq_some_iff :
    maxElapsed df = some maxT ↔
      (∃ last ∈ df, last.elapsedS = maxT) ∧ ∀ row ∈ df, row.elapsedS ≤ maxT := by
  rw [maxElapsed, List.max?_eq_some_iff]
  simp

/-- A trace without a positive elapsed time has no windows. -/
theorem returns_nil (helapsed : ∀ row ∈ df, row.elapsedS ≤ 0) (windowS : ℚ) :
    Returns (fun fuel => computeWindowedThroughput fuel df windowS) (.ok []) := by
  unfold computeWindowedThroughput
  split
  · exact ⟨0, fun _ _ => rfl⟩
  · next maxT hmax =>
    rcases maxElapsed_eq_some_iff.mp hmax with ⟨⟨last, hlast, rfl⟩, -⟩
    have hloop : Returns (fun fuel => whileLoop (fun s : ℚ × List Window => s.1 < last.elapsedS)
        (windowStep df windowS) fuel (0, [])) (.ok (0, [])) :=
      returns_whileLoop_of_not (not_lt.mpr (helapsed last hlast))
    exact hloop.map (Except.map Prod.snd)

/-! ## Coverage -/

/-- The windows follow one another without a gap or an overlap, each row falls in exactly
one of them, and they count every row. -/
structure CoversRows (windows : List Window) (df : List TimedRow) : Prop where
  consecutive : windows.IsChain fun a b => a.windowEndS = b.windowStartS
  disjoint : windows.Pairwise fun a b => a.windowEndS ≤ b.windowStartS
  once : ∀ row ∈ df, windows.countP (fun window =>
    window.windowStartS ≤ row.elapsedS ∧ row.elapsedS < window.windowEndS) = 1
  total : (windows.map Window.nTotal).sum = df.length

/-- The index of the window in which a row falls. -/
def windowIndex (windowS : ℚ) (row : TimedRow) : Nat := ⌊row.elapsedS / windowS⌋₊

theorem mem_windowOf_iff (hwindow : 0 < windowS) {row : TimedRow} (hrow : 0 ≤ row.elapsedS)
    (i : Nat) : i * windowS ≤ row.elapsedS ∧ row.elapsedS < (i + 1) * windowS ↔
      windowIndex windowS row = i :=
  mem_window_iff hwindow hrow

theorem nTotal_windowOf (hwindow : 0 < windowS) (helapsed : ∀ row ∈ df, 0 ≤ row.elapsedS)
    (i : Nat) : (windowOf df windowS i).nTotal = df.countP (windowIndex windowS · = i) := by
  rw [List.countP_eq_length_filter, windowOf, rowsIn]
  apply congrArg List.length
  apply List.filter_congr
  intro row hrow
  exact decide_eq_decide.mpr (mem_windowOf_iff hwindow (helapsed row hrow) i)

/-- A row falls in one of the first windows when its index is among theirs. -/
theorem countP_windowOf (hwindow : 0 < windowS) {row : TimedRow} (hrow : 0 ≤ row.elapsedS)
    (n : Nat) : ((List.range n).map (windowOf df windowS)).countP (fun window =>
      window.windowStartS ≤ row.elapsedS ∧ row.elapsedS < window.windowEndS) =
      if windowIndex windowS row < n then 1 else 0 := by
  have hcount : (List.range n).countP (fun i => i == windowIndex windowS row) =
      if windowIndex windowS row < n then 1 else 0 := by
    have hnodup : (List.range n).Nodup := List.nodup_range
    simpa [List.count] using hnodup.count (a := windowIndex windowS row)
  rw [List.countP_map, ← hcount]
  apply List.countP_congr
  intro i _
  simp only [Function.comp_apply, decide_eq_true_eq, beq_iff_eq]
  exact (mem_windowOf_iff hwindow hrow i).trans eq_comm

theorem coversRows_iff (hwindow : 0 < windowS) (helapsed : ∀ row ∈ df, 0 ≤ row.elapsedS) (n : Nat) :
    CoversRows ((List.range n).map (windowOf df windowS)) df ↔
      ∀ row ∈ df, windowIndex windowS row < n := by
  constructor
  · intro h row hrow
    have honce := h.once row hrow
    rw [countP_windowOf hwindow (helapsed row hrow)] at honce
    by_contra hlt
    rw [if_neg hlt] at honce
    cases honce
  · intro h
    constructor
    · rw [List.isChain_map, List.isChain_range]
      intro i _
      simp [windowOf]
    · rw [List.pairwise_map]
      apply List.pairwise_lt_range.imp
      intro i j hij
      apply mul_le_mul_of_nonneg_right _ hwindow.le
      exact_mod_cast hij
    · intro row hrow
      rw [countP_windowOf hwindow (helapsed row hrow), if_pos (h row hrow)]
    · have hsum : (((List.range n).map (windowOf df windowS)).map Window.nTotal) =
          (List.range n).map fun i => df.countP (windowIndex windowS · = i) := by
        rw [List.map_map]
        apply List.map_congr_left
        intro i _
        exact nTotal_windowOf hwindow helapsed i
      rw [hsum, sum_countP_index, List.countP_eq_length]
      intro row hrow
      simpa using h row hrow

/-- The windows cover every row exactly when the largest elapsed time is not a multiple of
the width. -/
theorem computeWindowedThroughput_covers_iff (hne : df ≠ [])
    (helapsed : ∀ row ∈ df, 0 ≤ row.elapsedS) (hwindow : 0 < windowS) :
    ∃ windows, Returns (fun fuel => computeWindowedThroughput fuel df windowS) (.ok windows) ∧
      (CoversRows windows df ↔ ∀ last ∈ df, (∀ row ∈ df, row.elapsedS ≤ last.elapsedS) →
        ∀ k : ℤ, last.elapsedS ≠ k * windowS) := by
  cases hmax : maxElapsed df with
  | none =>
    rw [maxElapsed, List.max?_eq_none_iff, List.map_eq_nil_iff] at hmax
    exact absurd hmax hne
  | some maxT =>
    refine ⟨_, returns_computeWindowedThroughput hwindow hmax, ?_⟩
    rw [coversRows_iff hwindow helapsed]
    rcases maxElapsed_eq_some_iff.mp hmax with ⟨⟨last, hlast, rfl⟩, hle⟩
    have hmulti : (∀ row ∈ df, windowIndex windowS row < ⌈last.elapsedS / windowS⌉₊) ↔
        windowIndex windowS last < ⌈last.elapsedS / windowS⌉₊ := by
      constructor
      · intro h
        exact h last hlast
      · intro h row hrow
        apply lt_of_le_of_lt (Nat.floor_mono _) h
        exact div_le_div_of_nonneg_right (hle row hrow) hwindow.le
    rw [hmulti, windowIndex, floor_lt_ceil_iff hwindow (helapsed last hlast)]
    constructor
    · intro h last' hlast' hmax'
      rw [le_antisymm (hle last' hlast') (hmax' last hlast)]
      exact h
    · intro h
      exact h last hlast hle

end Loop

private def timedTrace (elapsed : List ℚ) : List TimedRow :=
  elapsed.map fun t => ⟨⟨true, 1⟩, t⟩

theorem computeWindowedThroughput_covers_iff_uneven :
    ∃ windows, Returns (fun fuel => computeWindowedThroughput fuel (timedTrace [0, 5, 9]) 5)
      (.ok windows) ∧ CoversRows windows (timedTrace [0, 5, 9]) := by
  have hwindow : (0 : ℚ) < 5 := by norm_num
  have helapsed : ∀ row ∈ timedTrace [0, 5, 9], 0 ≤ row.elapsedS := by decide +kernel
  rcases computeWindowedThroughput_covers_iff (by decide +kernel) helapsed hwindow with
    ⟨windows, hreturns, hcovers⟩
  refine ⟨windows, hreturns, hcovers.mpr ?_⟩
  intro last hlast hmax k heq
  have hnine : (9 : ℚ) ≤ last.elapsedS := hmax ⟨⟨true, 1⟩, 9⟩ (by decide +kernel)
  have hbound : ∀ row ∈ timedTrace [0, 5, 9], row.elapsedS ≤ 9 := by decide +kernel
  rw [le_antisymm (hbound last hlast) hnine] at heq
  have hint : (9 : ℤ) = k * 5 := by exact_mod_cast heq
  omega

/-- The window that would hold the row at the largest elapsed time is not generated. -/
theorem computeWindowedThroughput_loses_last :
    ∃ windows, Returns (fun fuel => computeWindowedThroughput fuel (timedTrace [0, 5, 10]) 5)
      (.ok windows) ∧ (windows.map Window.nTotal).sum = 2 ∧ (timedTrace [0, 5, 10]).length = 3 ∧
      ¬ CoversRows windows (timedTrace [0, 5, 10]) := by
  have hmax : maxElapsed (timedTrace [0, 5, 10]) = some 10 := by decide +kernel
  refine ⟨_, returns_computeWindowedThroughput (by norm_num) hmax, ?_, rfl, ?_⟩
  · decide +kernel
  · intro h
    have htotal := h.total
    revert htotal
    decide +kernel

end NeuralPubSub
