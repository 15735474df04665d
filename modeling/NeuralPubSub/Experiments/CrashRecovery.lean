-- SUMMARY: What the repair of a progress file does, and which runs the resumed phase executes afterwards.
import NeuralPubSub.Experiments.PhaseMain

open Base Base.FileName

/-!
# Crash recovery

Repair and resumption matter to a run only by whether its entry is done. Each stage that
rewrites the progress is described by what it does to `Progress.isDone`.
-/

namespace NeuralPubSub

/-! ## Statuses -/

theorem hasStatus_setStatus (entry : ProgressEntry) (status status' : String) :
    (entry.setStatus status).hasStatus status' = decide (status = status') := by
  simp [ProgressEntry.setStatus, ProgressEntry.hasStatus, Json.isText]

/-- An entry has one status. -/
theorem hasStatus_of_ne {entry : ProgressEntry} {status status' : String}
    (h : entry.hasStatus status = true) (hne : status ≠ status') :
    entry.hasStatus status' = false := by
  unfold ProgressEntry.hasStatus at h ⊢
  cases hvalue : entry.get? "status" with
  | none => rfl
  | some value =>
    rw [hvalue] at h
    cases value with
    | text text =>
      have heq : text = status := by simpa [Json.isText] using h
      simp [Json.isText, heq, hne]
    | _ => cases h

theorem isDone_of_get? {progress : Progress} {runId : String} {entry : ProgressEntry}
    (h : progress.get? runId = some entry) : progress.isDone runId = entry.hasStatus "done" := by
  rw [Progress.isDone, Dict.getD, h]
  rfl

theorem isDone_of_not_mem {progress : Progress} {runId : String} (h : runId ∉ progress) :
    progress.isDone runId = false := by
  rw [Progress.isDone, Dict.getD, Dict.get?_eq_none_iff.mpr h]
  rfl

theorem isDone_iff {progress : Progress} {runId : String} : progress.isDone runId = true ↔
    ∃ entry, progress.get? runId = some entry ∧ entry.hasStatus "done" = true := by
  constructor
  · intro hdone
    by_cases hmem : runId ∈ progress
    · obtain ⟨entry, hentry⟩ := Dict.exists_get?_of_mem hmem
      exact ⟨entry, hentry, (isDone_of_get? hentry).symm.trans hdone⟩
    · rw [isDone_of_not_mem hmem] at hdone
      cases hdone
  · rintro ⟨entry, hentry, hdone⟩
    exact (isDone_of_get? hentry).trans hdone

theorem isDone_insert (progress : Progress) (runId : String) (entry : ProgressEntry)
    (id : String) : Progress.isDone (progress.insert runId entry) id =
      if id = runId then entry.hasStatus "done" else progress.isDone id := by
  rw [Progress.isDone, Dict.getD_insert]
  split <;> rfl

theorem isDone_modify (progress : Progress) (runId : String) (f : ProgressEntry → ProgressEntry)
    (id : String) : Progress.isDone (progress.modify runId f) id =
      if id = runId ∧ id ∈ progress then (f (progress.getD id .empty)).hasStatus "done"
      else progress.isDone id := by
  by_cases hmem : runId ∈ progress
  · obtain ⟨entry, hentry⟩ := Dict.exists_get?_of_mem hmem
    rw [Dict.modify_eq_insert hentry, isDone_insert]
    by_cases hid : id = runId
    · subst hid
      simp [hmem, Dict.getD, hentry]
    · simp [hid]
  · rw [Dict.modify, Dict.get?_eq_none_iff.mpr hmem]
    by_cases hid : id = runId
    · subst hid
      simp [hmem]
    · simp [hid]

/-! ## The repair -/

section Repair
variable {dir : ResultsDir} {data : Progress}

theorem isDone_requeue (data : Progress) (phantoms : List String) (id : String) :
    Progress.isDone (phantoms.foldl requeue data) id = (data.isDone id && decide (id ∉ phantoms)) := by
  induction phantoms generalizing data with
  | nil => simp
  | cons runId phantoms ih =>
    have hstep : Progress.isDone (requeue data runId) id =
        (data.isDone id && decide (id ≠ runId)) := by
      rw [requeue, isDone_modify, hasStatus_setStatus]
      by_cases hid : id = runId
      · subst hid
        by_cases hmem : id ∈ data
        · simp [hmem]
        · simp [hmem, isDone_of_not_mem hmem]
      · simp [hid]
    rw [List.foldl_cons, ih, hstep, Bool.and_assoc]
    simp [Bool.decide_and]

/-- The phantoms are the runs that are done without a result. -/
theorem findPhantomDone_spec (h : dir.progress = .holds data) :
    ∃ phantoms, findPhantomDone dir = .ok phantoms ∧
      ∀ id, id ∈ phantoms ↔ data.isDone id = true ∧ csvName id ∉ dir.files := by
  refine ⟨((data.entries.filter dir.isPhantom).map Prod.fst).mergeSort fun a b => a ≤ b, ?_, ?_⟩
  · rw [findPhantomDone, h]
    rfl
  · intro id
    simp only [List.mem_mergeSort, List.mem_map, List.mem_filter, ResultsDir.isPhantom,
      Bool.and_eq_true, decide_eq_true_eq, isDone_iff]
    constructor
    · rintro ⟨⟨runId, entry⟩, ⟨hentry, hdone, hcsv⟩, rfl⟩
      exact ⟨⟨entry, Dict.get?_eq_some_iff.mpr hentry, hdone⟩, hcsv⟩
    · rintro ⟨⟨entry, hentry, hdone⟩, hcsv⟩
      exact ⟨(id, entry), ⟨Dict.get?_eq_some_iff.mp hentry, hdone, hcsv⟩, rfl⟩

/-- The repair keeps the files, and afterwards a run is done when it was and has a result. -/
theorem fixPhantomDone_spec (h : dir.progress = .holds data) :
    ∃ phantoms fixed data', fixPhantomDone dir true none = (.ok phantoms, fixed) ∧
      fixed.files = dir.files ∧ fixed.progress = .holds data' ∧
      ∀ id, data'.isDone id = true ↔ data.isDone id = true ∧ csvName id ∈ dir.files := by
  obtain ⟨phantoms, hfind, hmem⟩ := findPhantomDone_spec h
  have hall : phantoms.filter (keepsPhantom none) = phantoms := List.filter_eq_self.mpr fun _ _ => rfl
  unfold fixPhantomDone
  rw [hfind, h]
  simp only [ProgressFile.read, hall, Bool.true_eq_false, or_false]
  split
  · next hnil =>
    refine ⟨_, dir, data, rfl, rfl, h, fun id => ?_⟩
    subst hnil
    have hnone := hmem id
    simp only [List.not_mem_nil, false_iff, not_and, not_not] at hnone
    exact ⟨fun hdone => ⟨hdone, hnone hdone⟩, And.left⟩
  · refine ⟨_, _, _, rfl, rfl, rfl, fun id => ?_⟩
    rw [isDone_requeue, Bool.and_eq_true, decide_eq_true_eq, hmem]
    tauto

/-- Without phantoms the repair does nothing. -/
theorem fixPhantomDone_eq_self (h : dir.progress = .holds data)
    (hcsv : ∀ id, data.isDone id = true → csvName id ∈ dir.files) :
    fixPhantomDone dir true none = (.ok [], dir) := by
  obtain ⟨phantoms, hfind, hmem⟩ := findPhantomDone_spec h
  have hnil : phantoms = [] := by
    apply List.eq_nil_iff_forall_not_mem.mpr
    intro id hid
    have hphantom := (hmem id).mp hid
    exact hphantom.2 (hcsv id hphantom.1)
  unfold fixPhantomDone
  rw [hfind, h, hnil]
  rfl

end Repair

/-! ## The initial progress -/

/-- A planned run's id, which names a file that the discovery takes for a result. -/
structure NamesResult (runId : String) : Prop where
  nonempty : runId ≠ ""
  flat : ¬ Contains runId "/"
  visible : ¬ StartsWith runId "." ∧ ¬ StartsWith runId "_"
  notPartial : ¬ Contains runId ".partial"
  notSummary : ¬ Contains runId "summary"

instance (runId : String) : Decidable (NamesResult runId) :=
  decidable_of_iff (runId ≠ "" ∧ ¬ Contains runId "/" ∧
      (¬ StartsWith runId "." ∧ ¬ StartsWith runId "_") ∧ ¬ Contains runId ".partial" ∧
      ¬ Contains runId "summary")
    ⟨fun ⟨h₁, h₂, h₃, h₄, h₅⟩ => ⟨h₁, h₂, h₃, h₄, h₅⟩,
      fun ⟨h₁, h₂, h₃, h₄, h₅⟩ => ⟨h₁, h₂, h₃, h₄, h₅⟩⟩

theorem csvName_eq (runId : String) : csvName runId = runId ++ "." ++ "csv" := by
  rw [csvName, String.append_assoc]
  rfl

theorem contains_csvName_iff {runId : String} (sub : String) (hdot : '.' ∉ sub.toList.tail)
    (hsub : ¬ Contains ".csv" sub) : Contains (csvName runId) sub ↔ Contains runId sub :=
  contains_append_iff rfl hdot hsub

theorem startsWith_csvName_iff {runId : String} (pre : String) (h : runId ≠ "")
    (hpre : pre.toList.length = 1) : StartsWith (csvName runId) pre ↔ StartsWith runId pre :=
  startsWith_append_iff (hpre ▸ length_pos h)

theorem suffix_csvName {runId : String} (h : runId ≠ "") :
    stem (csvName runId) = runId ∧ suffix (csvName runId) = ".csv" := by
  have hsplit : splitExtension (runId ++ "." ++ "csv") = (runId, "." ++ "csv") :=
    splitExtension_append h (by decide) (by decide)
  rw [stem, suffix, csvName_eq, hsplit]
  exact ⟨rfl, rfl⟩

theorem NamesResult.isResultName {runId : String} (h : NamesResult runId) :
    isResultName (csvName runId) = true := by
  simp only [NeuralPubSub.isResultName, decide_eq_true_eq, suffix_csvName h.nonempty,
    contains_csvName_iff ".partial" (by decide) (by decide),
    contains_csvName_iff "summary" (by decide) (by decide),
    startsWith_csvName_iff "." h.nonempty rfl,
    startsWith_csvName_iff "_" h.nonempty rfl, not_or]
  exact ⟨trivial, h.notPartial, h.visible, h.notSummary⟩

/-- The entries of the discovery, one for each result name. -/
theorem discoverCompletedRuns_eq (dir : ResultsDir) :
    discoverCompletedRuns dir = Dict.ofList ((dir.listing.filter isResultName).map fun name =>
      (stem name, doneEntry s!"{dir.path}/{name}")) := by
  rw [Dict.ofList, List.foldl_map]
  rfl

theorem hasStatus_of_discovered {dir : ResultsDir} {runId : String} {entry : ProgressEntry}
    (h : (runId, entry) ∈ (discoverCompletedRuns dir).entries) : entry.hasStatus "done" = true := by
  rw [discoverCompletedRuns_eq] at h
  have hmem := Dict.mem_of_get?_ofList (Dict.get?_eq_some_iff.mpr h)
  obtain ⟨name, -, heq⟩ := List.mem_map.mp hmem
  cases heq
  rfl

theorem mem_discoverCompletedRuns_iff {dir : ResultsDir} {runId : String} (h : NamesResult runId) :
    runId ∈ discoverCompletedRuns dir ↔ csvName runId ∈ dir.files := by
  rw [discoverCompletedRuns_eq, Dict.mem_ofList, List.map_map]
  simp only [List.mem_map, List.mem_filter, Function.comp_apply]
  constructor
  · rintro ⟨name, ⟨hlisted, hname⟩, rfl⟩
    have hsuffix : suffix name = ".csv" := (of_decide_eq_true hname).1
    have hne : suffix name ≠ "" := by
      rw [hsuffix]
      decide
    have hsplit := (stem_append_suffix hne).1
    rw [hsuffix] at hsplit
    rw [csvName, hsplit]
    exact (List.mem_filter.mp hlisted).1
  · intro hfile
    refine ⟨csvName runId, ⟨List.mem_filter.mpr ⟨hfile, decide_eq_true ?_⟩, h.isResultName⟩,
      (suffix_csvName h.nonempty).1⟩
    rw [contains_csvName_iff "/" (by decide) (by decide)]
    exact h.flat

theorem isDone_resetStaleRunning (progress : Progress) (id : String) :
    Progress.isDone (resetStaleRunning progress) id = progress.isDone id := by
  have hsame : ∀ info : ProgressEntry, ProgressEntry.hasStatus
      (if info.hasStatus "running" then info.setStatus "queued" else info) "done" =
        info.hasStatus "done" := by
    intro info
    split
    · next hrunning =>
      rw [hasStatus_setStatus, hasStatus_of_ne hrunning (by decide)]
      rfl
    · rfl
  unfold resetStaleRunning
  generalize progress.keys = ids
  induction ids generalizing progress with
  | nil => rfl
  | cons runId ids ih =>
    rw [List.foldl_cons, ih, isDone_modify]
    split
    · rw [hsame]
      rfl
    · rfl

theorem isDone_mergeEntry (progress : Progress) {e : String × ProgressEntry}
    (hdone : e.2.hasStatus "done" = true) (id : String) :
    Progress.isDone (mergeEntry progress e) id = (progress.isDone id || decide (id = e.1)) := by
  unfold mergeEntry
  split
  · rw [isDone_insert, hdone]
    by_cases hid : id = e.1 <;> simp [hid]
  · next hkept =>
    simp only [not_or, Bool.not_eq_false] at hkept
    by_cases hid : id = e.1
    · simp [hid, hkept.2]
    · simp [hid]

theorem isDone_mergeDiscovered {discovered : Progress}
    (hdone : ∀ e ∈ discovered.entries, e.2.hasStatus "done" = true) (progress : Progress)
    (id : String) : Progress.isDone (mergeDiscovered progress discovered) id =
      (progress.isDone id || decide (id ∈ discovered)) := by
  have hmem : id ∈ discovered ↔ id ∈ discovered.entries.map Prod.fst := Iff.rfl
  simp only [hmem, mergeDiscovered]
  generalize discovered.entries = es at hdone
  induction es generalizing progress with
  | nil => simp
  | cons e es ih =>
    have hrest : ∀ e' ∈ es, e'.2.hasStatus "done" = true := fun e' he' =>
      hdone e' (List.mem_cons_of_mem _ he')
    rw [List.foldl_cons, ih _ hrest, isDone_mergeEntry progress (hdone e List.mem_cons_self)]
    simp only [List.map_cons, List.mem_cons, Bool.decide_or, Bool.or_assoc]

/-- A resumed phase starts with the runs done that were done or have a result. -/
theorem isDone_initialProgress {dir : ResultsDir} {data : Progress}
    (hprogress : dir.progress = .holds data) {runId : String} (h : NamesResult runId) :
    (initialProgress dir true).isDone runId = true ↔
      data.isDone runId = true ∨ csvName runId ∈ dir.files := by
  have hload : loadProgress dir = data := by rw [loadProgress, hprogress]
  rw [initialProgress, if_pos rfl, isDone_mergeDiscovered (fun _ he => hasStatus_of_discovered he),
    isDone_resetStaleRunning, hload, Bool.or_eq_true, decide_eq_true_eq,
    mem_discoverCompletedRuns_iff h]

/-! ## The runs that a resumed phase executes -/

section Phase
variable (runFn : RunFn)

theorem isDone_updateProgress (s : PhaseState) (runId : String) (status detail : Json) {id : String}
    (h : id ≠ runId) :
    (s.updateProgress runId status detail).progress.isDone id = s.progress.isDone id := by
  simp only [PhaseState.updateProgress, isDone_insert, if_neg h]

/-- A run without an entry is not done, and neither is a queued one. -/
theorem isDone_queueRun (s : PhaseState) (run : PlannedRun) (id : String) :
    (queueRun s run).progress.isDone id = s.progress.isDone id := by
  unfold queueRun
  split
  · next hmem =>
    by_cases hid : id = run.id
    · subst hid
      simp only [PhaseState.updateProgress, isDone_insert, isDone_of_not_mem hmem]
      rfl
    · exact isDone_updateProgress s _ _ _ hid
  · rfl

theorem calls_queueRun (s : PhaseState) (run : PlannedRun) : (queueRun s run).calls = s.calls := by
  unfold queueRun
  split <;> rfl

theorem queueRuns_spec (runs : List PlannedRun) (s : PhaseState) :
    (runs.foldl queueRun s).calls = s.calls ∧
      ∀ id, (runs.foldl queueRun s).progress.isDone id = s.progress.isDone id := by
  induction runs generalizing s with
  | nil => exact ⟨rfl, fun _ => rfl⟩
  | cons run runs ih =>
    have hrest := ih (queueRun s run)
    rw [List.foldl_cons, hrest.1, calls_queueRun]
    exact ⟨rfl, fun id => (hrest.2 id).trans (isDone_queueRun s run id)⟩

theorem recordRun_spec (s : PhaseState) (runId : String) (outcome : Except String RunResult) :
    (s.recordRun runId outcome).calls = s.calls ∧
      ∀ id, id ≠ runId → (s.recordRun runId outcome).progress.isDone id = s.progress.isDone id := by
  have hfailed : ∀ msg, let s' := s.updateProgress runId (.text "failed") (.text msg)
      s'.calls = s.calls ∧ ∀ id, id ≠ runId → s'.progress.isDone id = s.progress.isDone id :=
    fun msg => ⟨rfl, fun _ hid => isDone_updateProgress s _ _ _ hid⟩
  unfold PhaseState.recordRun
  cases outcome with
  | error msg => exact hfailed msg
  | ok result =>
    cases hstatus : result.get? "status" with
    | none =>
      simp only [hstatus]
      exact hfailed _
    | some status =>
      simp only [hstatus]
      exact ⟨rfl, fun _ hid => isDone_updateProgress s _ _ _ hid⟩

/-- One planned run: `run_fn` is called unless the run is done, and the other runs keep
their standing. -/
theorem executeRun_spec (s : PhaseState) (run : PlannedRun) :
    (executeRun runFn true s run).calls =
        (if s.progress.isDone run.id then s.calls else s.calls ++ [run]) ∧
      ∀ id, id ≠ run.id →
        (executeRun runFn true s run).progress.isDone id = s.progress.isDone id := by
  unfold executeRun
  cases hdone : s.progress.isDone run.id with
  | true => exact ⟨rfl, fun _ _ => rfl⟩
  | false =>
    simp only [Bool.false_eq_true, and_false, if_false]
    have hrecord := recordRun_spec
      { s.updateProgress run.id (.text "running") (.text "") with
        dir := { (s.updateProgress run.id (.text "running") (.text "")).dir with
          files := (runFn run s.dir.files).2 }
        calls := s.calls ++ [run] }
      run.id (runFn run s.dir.files).1
    refine ⟨hrecord.1, fun id hid => (hrecord.2 id hid).trans ?_⟩
    exact isDone_updateProgress s _ _ _ hid

/-- The loop calls `run_fn` on the runs that were not done when it started. -/
theorem executeRuns_calls {runs : List PlannedRun} (hdistinct : (runs.map PlannedRun.id).Nodup)
    (s : PhaseState) : (runs.foldl (executeRun runFn true) s).calls =
      s.calls ++ runs.filter fun run => s.progress.isDone run.id = false := by
  induction runs generalizing s with
  | nil => simp
  | cons run runs ih =>
    rw [List.map_cons, List.nodup_cons] at hdistinct
    have hrun := executeRun_spec runFn s run
    have hothers : runs.filter (fun r => (executeRun runFn true s run).progress.isDone r.id = false) =
        runs.filter fun r => s.progress.isDone r.id = false := by
      apply List.filter_congr
      intro r hr
      have hne : r.id ≠ run.id := fun heq => hdistinct.1 (heq ▸ List.mem_map_of_mem hr)
      rw [hrun.2 r.id hne]
    rw [List.foldl_cons, ih hdistinct.2, hothers, hrun.1, List.filter_cons]
    cases s.progress.isDone run.id <;> simp

end Phase

/-- After the repair, a resumed phase calls `run_fn` on exactly the planned runs whose
result does not exist, and repeating the repair changes nothing. -/
theorem phaseMain_calls_missing (runFn : RunFn) {dir : ResultsDir} {data : Progress}
    (hprogress : dir.progress = .holds data) {runs : List PlannedRun}
    (hdistinct : (runs.map PlannedRun.id).Nodup) (hnames : ∀ run ∈ runs, NamesResult run.id) :
    ∃ phantoms fixed, fixPhantomDone dir true none = (.ok phantoms, fixed) ∧
      (phaseMain runFn true fixed runs).calls =
        (runs.filter fun run => csvName run.id ∉ dir.files) ∧
      fixPhantomDone fixed true none = (.ok [], fixed) := by
  obtain ⟨phantoms, fixed, data', hfix, hfiles, hdata', hdone⟩ := fixPhantomDone_spec hprogress
  refine ⟨phantoms, fixed, hfix, ?_, ?_⟩
  · have hqueue := queueRuns_spec runs ⟨fixed, initialProgress fixed true, [], []⟩
    unfold phaseMain
    rw [executeRuns_calls runFn hdistinct, hqueue.1, List.nil_append]
    apply List.filter_congr
    intro run hrun
    have hinitial := isDone_initialProgress hdata' (hnames run hrun)
    rw [hdone, hfiles] at hinitial
    rw [hqueue.2, decide_eq_decide, ← Bool.not_eq_true, hinitial]
    tauto
  · apply fixPhantomDone_eq_self hdata'
    intro id hid
    rw [hfiles]
    exact ((hdone id).mp hid).2

/-- A run that completes and leaves its result. -/
private def writesResult : RunFn := fun run files =>
  (.ok (.ofList [("status", .text "completed")]), files ++ [csvName run.id])

private def plannedRun (runId : String) : PlannedRun := ⟨some runId, none, ""⟩

private def statusEntry (status : String) : ProgressEntry := .ofList [("status", .text status)]

private def mixedDir : ResultsDir where
  path := "results"
  files := ["kept.csv", "stale.csv", "found.csv"]
  progress := .holds (.ofList [("kept", statusEntry "done"), ("lost", statusEntry "done"),
    ("stale", statusEntry "running"), ("broken", statusEntry "failed")])
  backup := .missing

private def mixedRuns : List PlannedRun :=
  ["kept", "lost", "stale", "broken", "found", "new"].map plannedRun

/-- Runs of every standing, with and without a result. -/
theorem phaseMain_calls_missing_mixed :
    ∃ phantoms fixed, fixPhantomDone mixedDir true none = (.ok phantoms, fixed) ∧
      (phaseMain writesResult true fixed mixedRuns).calls =
        ["lost", "broken", "new"].map plannedRun ∧
      fixPhantomDone fixed true none = (.ok [], fixed) := by
  have hprogress : ∃ data, mixedDir.progress = .holds data := ⟨_, rfl⟩
  have hmissing : (mixedRuns.filter fun run => csvName run.id ∉ mixedDir.files) =
      ["lost", "broken", "new"].map plannedRun := by decide +kernel
  rw [← hmissing]
  cases hprogress with
  | intro data hdata =>
    exact phaseMain_calls_missing writesResult hdata (by decide +kernel) (by decide +kernel)

private def oddDir : ResultsDir where
  path := "results"
  files := [".csv", "a/b.csv"]
  progress := .holds .empty
  backup := .missing

/-- The discovery skips hidden files and does not look into directories: a run with an
empty id, or with a slash in it, is executed although its result exists. -/
theorem not_phaseMain_calls_missing :
    fixPhantomDone oddDir true none = (.ok [], oddDir) ∧
    ∀ run ∈ [plannedRun "", plannedRun "a/b"],
      (¬ StartsWith run.id "." ∧ ¬ StartsWith run.id "_") ∧ ¬ Contains run.id "summary" ∧
      ¬ Contains run.id ".partial" ∧ csvName run.id ∈ oddDir.files ∧
      (phaseMain writesResult true oddDir [run]).calls = [run] :=
  ⟨fixPhantomDone_eq_self rfl fun _ hdone => absurd hdone Bool.false_ne_true, by decide +kernel⟩

end NeuralPubSub
