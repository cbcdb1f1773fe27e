import DropboxMirror.Lib.Keyed
import DropboxMirror.Lib.Text

/-!
# Attempts of phases

The table `phase_runs` of `state.py`: `start_phase` inserts a row that runs and closes
the rows a kill left behind, `complete_phase` writes how it ended (`runner.py` calls
them around a phase), and the report reads its verdict back from the table.
-/

namespace DropboxMirror

/-- `PHASES`. -/
inductive Phase
  | inventory
  | delta
  | plan
  | batches
  | trash
  | reconcile
  | report
  | emptyTrash
  deriving DecidableEq, Repr

/-- `PhaseDefinition.number`. -/
def Phase.number : Phase → ℕ
  | .inventory => 10
  | .delta => 20
  | .plan => 30
  | .batches => 40
  | .trash => 50
  | .reconcile => 60
  | .report => 70
  | .emptyTrash => 80

/-- `PhaseDefinition.name`. -/
def Phase.name : Phase → String
  | .inventory => "10_inventory"
  | .delta => "20_delta"
  | .plan => "30_plan"
  | .batches => "40_batches"
  | .trash => "50_trash"
  | .reconcile => "60_reconcile"
  | .report => "70_report"
  | .emptyTrash => "80_empty_trash"

/-- `phase_runs.status`. -/
inductive PhaseStatus
  | running
  | interrupted
  | pass
  | planned
  | fail
  deriving DecidableEq, Repr

/-- A row of `phase_runs`; `runId` is the `run_id` of its `inputs_json`. -/
structure PhaseRun where
  id : ℕ
  migrationId : Str
  phaseNumber : ℕ
  phaseName : String
  attempt : ℕ
  status : PhaseStatus
  runId : ℕ
  deriving DecidableEq, Repr

/-- `phase_runs`. -/
abbrev PhaseRuns := Table PhaseRun.id

/-- The `UPDATE` of `start_phase`: rows of the phase that still run were killed. -/
def interruptRunning (migrationId : Str) (number : ℕ) (t : PhaseRuns) : PhaseRuns :=
  t.modify (fun r =>
    if r.migrationId = migrationId ∧ r.phaseNumber = number ∧ r.status = .running then
      { r with status := .interrupted }
    else r) (fun r => by split <;> rfl)

/-- `COALESCE(MAX(attempt), 0) + 1`. -/
def nextAttempt (migrationId : Str) (number : ℕ) (t : PhaseRuns) : ℕ :=
  ((t.rows.filter fun r => decide (r.migrationId = migrationId ∧ r.phaseNumber = number)).map
    PhaseRun.attempt).foldr max 0 + 1

/-- The row `start_phase` inserts. -/
def startedRow (migrationId : Str) (phase : Phase) (runId : ℕ) (t : PhaseRuns) : PhaseRun where
  id := t.nextKey
  migrationId := migrationId
  phaseNumber := phase.number
  phaseName := phase.name
  attempt := nextAttempt migrationId phase.number t
  status := .running
  runId := runId

/-- `start_phase`: the id of the new row, and the table. -/
def startPhase (migrationId : Str) (phase : Phase) (runId : ℕ) (t : PhaseRuns) : ℕ × PhaseRuns :=
  let t := interruptRunning migrationId phase.number t
  (t.nextKey, t.upsert Table.ignore (startedRow migrationId phase runId t))

/-- `complete_phase`. -/
def completePhase (id : ℕ) (status : PhaseStatus) (t : PhaseRuns) : PhaseRuns :=
  t.modify (fun r => if r.id = id then { r with status := status } else r) (fun r => by split <;> rfl)

/-- How a phase ends that is not killed: a result, or an exception. -/
inductive PhaseOutcome
  | pass
  | planned
  | fail
  deriving DecidableEq, Repr

/-- The status `run_phase` completes the row with. -/
def PhaseOutcome.status : PhaseOutcome → PhaseStatus
  | .pass => .pass
  | .planned => .planned
  | .fail => .fail

/-- An attempt of a phase; one that is killed completes with nothing. -/
structure Attempt where
  phase : Phase
  outcome : Option PhaseOutcome
  deriving DecidableEq, Repr

/-- `run_phase`, as far as `phase_runs` sees it. -/
def runAttempt (migrationId : Str) (runId : ℕ) (t : PhaseRuns) (a : Attempt) : PhaseRuns :=
  let (id, t) := startPhase migrationId a.phase runId t
  match a.outcome with
  | none => t
  | some outcome => completePhase id outcome.status t

/-- `id IN (SELECT MAX(id) FROM phase_runs GROUP BY phase_number)`. -/
def isNewest (t : PhaseRuns) (r : PhaseRun) : Bool :=
  t.rows.all fun s => decide (s.phaseNumber = r.phaseNumber → s.id ≤ r.id)

/-- The phases `figures` reads: the newest row of each phase, if it is this run's and
does not run any more. -/
def figuresPhases (runId : ℕ) (t : PhaseRuns) : List PhaseRun :=
  (t.rows.filter fun r =>
      decide (r.runId = runId) && isNewest t r && decide (r.status ≠ .running)).insertionSort
    fun a b => a.phaseNumber ≤ b.phaseNumber

/-- `failed_phases`. -/
def failedPhases (runId : ℕ) (t : PhaseRuns) : List String :=
  ((figuresPhases runId t).filter fun r => decide (r.status = .fail)).map PhaseRun.phaseName

/-- `run_status`. -/
inductive RunStatus
  | success
  | fail
  deriving DecidableEq, Repr

/-- What the report decides: the status of the run, and whether the chain marker is
written. -/
structure ReportVerdict where
  status : RunStatus
  chainMarker : Bool
  deriving DecidableEq, Repr

/-- The verdict of `run`; `chain` is the column of the run row. -/
def reportVerdict (runId : ℕ) (chain : Bool) (t : PhaseRuns) : ReportVerdict :=
  let status := if failedPhases runId t ≠ [] then RunStatus.fail else .success
  { status, chainMarker := chain && decide (status = .success) }

/-- The report phase: its own row runs while it reads the table. -/
def reportPhase (migrationId : Str) (runId : ℕ) (chain : Bool) (t : PhaseRuns) : ReportVerdict :=
  reportVerdict runId chain (startPhase migrationId .report runId t).2

end DropboxMirror
