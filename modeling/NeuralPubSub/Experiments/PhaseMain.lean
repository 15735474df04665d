-- SUMMARY: The progress file of an experiment phase, its repair, and the runs of a phase.
import NeuralPubSub.Base.Dict
import NeuralPubSub.Base.FileName

open Base Base.FileName

/-!
# Experiment phases

`fix_phantom_done` of `scripts/fix_phantom_done.py` and `phase_main` of
`scripts/_common.py` with its helpers. A run is named by its id, and its result is the
file `<run_id>.csv` next to the progress file.
-/

namespace NeuralPubSub

/-- A value of a JSON document. -/
inductive Json where
  | null
  | bool (value : Bool)
  | number (value : ℚ)
  | text (value : String)
  | array (items : List Json)
  | object (fields : List (String × Json))

def Json.isText (text : String) : Json → Bool
  | .text value => value = text
  | _ => false

abbrev ProgressEntry := Dict String Json
abbrev Progress := Dict String ProgressEntry

/-- `entry.get("status") == status`. -/
def ProgressEntry.hasStatus (entry : ProgressEntry) (status : String) : Bool :=
  (entry.get? "status").any (Json.isText status)

def ProgressEntry.setStatus (entry : ProgressEntry) (status : String) : ProgressEntry :=
  entry.insert "status" (.text status)

/-- `progress.get(run_id, {}).get("status") == "done"`. -/
def Progress.isDone (progress : Progress) (runId : String) : Bool :=
  (progress.getD runId .empty).hasStatus "done"

/-! ## The results directory -/

inductive ProgressFile where
  | missing
  /-- A text that is no JSON document. -/
  | garbled
  | holds (progress : Progress)

/-- What the scripts read and write below the results directory. -/
structure ResultsDir where
  path : String
  /-- The other files, by their paths from the directory. -/
  files : List String
  progress : ProgressFile
  /-- `.progress.json.bak`. -/
  backup : ProgressFile

/-- The files that stand in the directory itself. -/
def ResultsDir.listing (dir : ResultsDir) : List String :=
  dir.files.filter fun name => ¬ Contains name "/"

def csvName (runId : String) : String := runId ++ ".csv"

inductive FileError where
  | notFound (msg : String)
  /-- `JSONDecodeError`. -/
  | notJson
  deriving DecidableEq, Repr

def ProgressFile.read : ProgressFile → Except FileError Progress
  | .missing => .error (.notFound "No such file or directory")
  | .garbled => .error .notJson
  | .holds progress => .ok progress

/-! ## Phantom entries -/

def ResultsDir.isPhantom (dir : ResultsDir) (e : String × ProgressEntry) : Bool :=
  e.2.hasStatus "done" && decide (csvName e.1 ∉ dir.files)

def findPhantomDone (dir : ResultsDir) : Except FileError (List String) :=
  match dir.progress with
  | .missing => .error (.notFound s!"Progress file does not exist: {dir.path}/.progress.json")
  | file => do
    let data ← file.read
    return ((data.entries.filter dir.isPhantom).map Prod.fst).mergeSort fun a b => a ≤ b

/-- `filter_substr`, which an empty string does not restrict. -/
def keepsPhantom (filterSubstr : Option String) (runId : String) : Bool :=
  match filterSubstr with
  | none => true
  | some sub => sub = "" ∨ Contains runId sub

def requeue (data : Progress) (runId : String) : Progress :=
  data.modify runId (·.setStatus "queued")

/-- The call returns its result together with the directory it leaves behind. -/
def fixPhantomDone (dir : ResultsDir) (apply : Bool) (filterSubstr : Option String) :
    Except FileError (List String) × ResultsDir :=
  match findPhantomDone dir, dir.progress.read with
  | .error e, _ => (.error e, dir)
  | _, .error e => (.error e, dir)
  | .ok found, .ok data =>
    let phantoms := found.filter (keepsPhantom filterSubstr)
    if phantoms = [] ∨ apply = false then (.ok phantoms, dir)
    else (.ok phantoms, { dir with
      backup := dir.progress
      progress := .holds (phantoms.foldl requeue data) })

/-! ## Resuming a phase -/

def loadProgress (dir : ResultsDir) : Progress :=
  match dir.progress with
  | .holds progress => progress
  | _ => .empty

/-- `_reset_stale_running`. -/
def resetStaleRunning (progress : Progress) : Progress :=
  progress.keys.foldl (fun progress runId => progress.modify runId fun info =>
    if info.hasStatus "running" then info.setStatus "queued" else info) progress

/-- The file counts as the result of a completed run. -/
def isResultName (name : String) : Bool :=
  suffix name = ".csv" ∧ ¬ Contains name ".partial" ∧
    ¬ (StartsWith name "." ∨ StartsWith name "_") ∧ ¬ Contains name "summary"

def doneEntry (detail : String) : ProgressEntry :=
  .ofList [("status", .text "done"), ("detail", .text detail), ("timestamp", .text "")]

/-- `_discover_completed_runs`. Its second pass, over the directories of distributed runs,
records nothing. -/
def discoverCompletedRuns (dir : ResultsDir) : Progress :=
  (dir.listing.filter isResultName).foldl (fun completed name =>
    completed.insert (stem name) (doneEntry s!"{dir.path}/{name}")) .empty

/-- An entry found on disk replaces one that is not done. -/
def mergeEntry (progress : Progress) (e : String × ProgressEntry) : Progress :=
  if e.1 ∉ progress ∨ progress.isDone e.1 = false then progress.insert e.1 e.2 else progress

def mergeDiscovered (progress discovered : Progress) : Progress :=
  discovered.entries.foldl mergeEntry progress

def initialProgress (dir : ResultsDir) (resume : Bool) : Progress :=
  if resume then
    mergeDiscovered (resetStaleRunning (loadProgress dir)) (discoverCompletedRuns dir)
  else .empty

/-! ## The runs of a phase -/

/-- A planned run, by the attributes that may name it. -/
structure PlannedRun where
  runId : Option String
  configName : Option String
  /-- `str(run)`. -/
  text : String
  deriving DecidableEq, Repr

/-- An attribute that is an empty string counts as absent. -/
def PlannedRun.id (run : PlannedRun) : String :=
  match run.runId.filter (· ≠ "") with
  | some runId => runId
  | none =>
    match run.configName.filter (· ≠ "") with
    | some configName => configName
    | none => run.text

/-- The dictionary that a run returns. -/
abbrev RunResult := Dict String Json

/-- What a run does: it returns or raises, with the text of the exception, and leaves
files behind. -/
abbrev RunFn := PlannedRun → List String → Except String RunResult × List String

structure PhaseState where
  dir : ResultsDir
  progress : Progress
  results : List RunResult
  /-- The runs on which `run_fn` was called. -/
  calls : List PlannedRun

/-- `_update_progress`. The time stamp, which nothing reads, is left out. -/
def PhaseState.updateProgress (s : PhaseState) (runId : String) (status detail : Json) :
    PhaseState :=
  let progress := s.progress.insert runId (.ofList [("status", status), ("detail", detail)])
  { s with progress := progress, dir := { s.dir with progress := .holds progress } }

def runOutcome (runId : String) (status : String) (resultFile : String) : RunResult :=
  .ofList [("run_id", .text runId), ("status", .text status), ("result_file", .text resultFile)]

def queueRun (s : PhaseState) (run : PlannedRun) : PhaseState :=
  if run.id ∉ s.progress then s.updateProgress run.id (.text "queued") (.text "") else s

/-- `run_fn` returned the result, or raised. -/
def PhaseState.recordRun (s : PhaseState) (runId : String) (outcome : Except String RunResult) :
    PhaseState :=
  let failed (msg : String) :=
    let s := s.updateProgress runId (.text "failed") (.text msg)
    { s with results := s.results ++ [runOutcome runId "failed" msg] }
  match outcome with
  | .error msg => failed msg
  | .ok result =>
    match result.get? "status" with
    | none => failed "'status'"
    | some status =>
      let s := s.updateProgress runId (if status.isText "completed" then .text "done" else status)
        (result.getD "result_file" (.text ""))
      { s with results := s.results ++ [result] }

def executeRun (runFn : RunFn) (resume : Bool) (s : PhaseState) (run : PlannedRun) : PhaseState :=
  if resume ∧ s.progress.isDone run.id then
    { s with results := s.results ++ [runOutcome run.id "completed" "(resumed)"] }
  else
    let s := s.updateProgress run.id (.text "running") (.text "")
    let (outcome, files) := runFn run s.dir.files
    let s := { s with dir := { s.dir with files := files }, calls := s.calls ++ [run] }
    s.recordRun run.id outcome

/-- `phase_main`, from the planned runs on; its log lines and the summary it writes at the
end are left out. -/
def phaseMain (runFn : RunFn) (resume : Bool) (dir : ResultsDir) (runs : List PlannedRun) :
    PhaseState :=
  let s := runs.foldl queueRun ⟨dir, initialProgress dir resume, [], []⟩
  runs.foldl (executeRun runFn resume) s

end NeuralPubSub
