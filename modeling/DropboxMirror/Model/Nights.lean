import DropboxMirror.Model.Phases
import DropboxMirror.Model.Statefile
import Mathlib.Data.List.MinMax

/-!
# Nights

The commands of a night as the tables `runs` and `phase_runs` see them: `state` fetches the
database and starts a run (`commands.py`), a phase opens and closes its attempt around its own
work (`run_phase`), and the report finishes the run. A push takes the database as it is then to
the bucket, and each process may be killed at any of its commits.

What a phase does between is any program that writes the columns of its own run and pushes
(`PhaseBody`); the report is given in full. The clocks of the nights go forward.
-/

namespace DropboxMirror

open Text Crash

/-- `runs.status`. -/
inductive RunState
  | running
  | interrupted
  | success
  | fail
  deriving DecidableEq, Repr

/-- A row of `runs`. -/
structure Run where
  id : ℕ
  startEpoch : ℕ
  hourUtc : ℕ
  weekday : ℕ
  budgetMinutes : ℕ
  host : Str
  reconcile : Bool
  status : RunState
  chain : Bool
  inventoryId : Option ℕ
  plannedBatches : Option ℕ
  remainingBatches : Option ℕ
  deriving DecidableEq, Repr

/-- The tables of the state database that say what has been run. -/
structure NightDb where
  runs : Table Run.id
  phases : PhaseRuns

/-- A new database. -/
def NightDb.empty : NightDb := ⟨Table.empty, Table.empty⟩

/-- `clock.json`. -/
structure ClockStamp where
  startEpoch : ℕ
  hourUtc : ℕ
  weekday : ℕ
  deriving DecidableEq, Repr

/-- The seconds of a day. -/
def daySeconds : ℕ := 86400

/-- `clock`: the hour and the weekday in UTC. The epoch began on a Thursday, and Monday is 0. -/
def clock (epoch : ℕ) : ClockStamp := ⟨epoch, epoch % daySeconds / 3600, (epoch / daySeconds + 3) % 7⟩

/-- `is_reconcile_run`. -/
def isReconcileRun (weekday : ℕ) (forced : Bool) (db : NightDb) (stamp : ClockStamp) : Bool :=
  if forced then true
  else if stamp.weekday ≠ weekday then false
  else
    let dayStart := stamp.startEpoch - stamp.startEpoch % daySeconds
    let earlier := db.runs.rows.countP fun r =>
      decide (dayStart ≤ r.startEpoch ∧ r.startEpoch < stamp.startEpoch)
    decide (earlier = 0)

/-- The `UPDATE` of `start_run`: a run that still runs was killed. -/
def Run.interrupted (r : Run) : Run :=
  if r.status = .running then { r with status := .interrupted } else r

/-- The row `start_run` inserts. -/
def openedRun (stamp : ClockStamp) (minutes : ℕ) (host : Str) (reconcile : Bool) (id : ℕ) : Run where
  id := id
  startEpoch := stamp.startEpoch
  hourUtc := stamp.hourUtc
  weekday := stamp.weekday
  budgetMinutes := minutes
  host := host
  reconcile := reconcile
  status := .running
  chain := false
  inventoryId := none
  plannedBatches := none
  remainingBatches := none

/-- `start_run`, in one transaction. -/
def NightDb.startRun (stamp : ClockStamp) (minutes : ℕ) (host : Str) (reconcile : Bool) (db : NightDb) :
    NightDb :=
  let runs := db.runs.modify Run.interrupted fun r => by unfold Run.interrupted; split <;> rfl
  { db with runs := runs.upsert Table.ignore (openedRun stamp minutes host reconcile runs.nextKey) }

/-- `current_run`. -/
def NightDb.currentRun (db : NightDb) : Option Run :=
  (db.runs.rows.filter fun r => decide (r.status = .running)).argmax Run.id

/-- The columns that the phases write with `update_run`. -/
inductive RunChange
  | inventory (id : ℕ)
  | planned (batches : ℕ)
  | remaining (batches : ℕ) (chain : Bool)
  deriving DecidableEq, Repr

/-- The row with the columns. -/
def Run.change : RunChange → Run → Run
  | .inventory id, r => { r with inventoryId := some id }
  | .planned batches, r => { r with plannedBatches := some batches }
  | .remaining batches chain, r => { r with remainingBatches := some batches, chain := chain }

/-- The row with a status. -/
def Run.finish (status : RunState) (r : Run) : Run := { r with status := status }

/-- An `UPDATE` of one row of `runs`. -/
def NightDb.updateRow (runId : ℕ) (f : Run → Run) (hf : ∀ r, (f r).id = r.id) (db : NightDb) : NightDb :=
  { db with
    runs := db.runs.modify (fun r => if r.id = runId then f r else r)
      (fun r => by split; exacts [hf r, rfl]) }

/-- `update_run`. -/
def NightDb.updateRun (runId : ℕ) (c : RunChange) (db : NightDb) : NightDb :=
  db.updateRow runId (Run.change c) fun r => by cases c <;> rfl

/-- `finish_run`. -/
def NightDb.finishRun (runId : ℕ) (status : RunState) (db : NightDb) : NightDb :=
  db.updateRow runId (Run.finish status) fun _ => rfl

/-- The local database and the bucket. For the statements also the epoch of the newest clock,
and the clocks of the runs that were started with `RECONCILE=true`. -/
structure NightSystem where
  now : ℕ
  forced : List ℕ
  db : NightDb
  bucket : Bucket NightDb

/-- Before the first night. -/
def NightSystem.fresh : NightSystem := ⟨0, [], NightDb.empty, Table.empty⟩

/-- Why a command raises. -/
inductive NightError
  | fetch (error : FetchError)
  | noRun
  | store (error : Failure)
  | phase

/-- The text of `current_run`, where no run is in progress. -/
def NightError.message : NightError → Option String
  | .fetch error => error.message
  | .noRun => some "no run is in progress; the state step starts one"
  | _ => none

/-- A step of a command. -/
abbrev NightStep (α : Type) := Prog NightSystem NightError α

/-- With another local database. -/
def NightSystem.onDb (f : NightDb → NightDb) (s : NightSystem) : NightSystem := { s with db := f s.db }

/-- A commit of the local database. -/
def commitNight (f : NightDb → NightDb) : NightStep Unit := Prog.write (NightSystem.onDb f)

/-- With another `phase_runs`. -/
def NightDb.onPhases (f : PhaseRuns → PhaseRuns) (db : NightDb) : NightDb :=
  { db with phases := f db.phases }

/-- `fetch`; the objects are databases here. -/
def fetchNight (env : FetchEnv) (B : Bucket NightDb) : Except FetchError NightDb :=
  if env.get = false then .error .download
  else
    match B.get? stateKey with
    | none =>
      if env.list = false then .error .listing
      else if B.history ≠ [] then .error .lostState
      else if env.probe = false then .error .unreachable
      else .ok NightDb.empty
    | some db => if env.unpack = false then .error .unpack else .ok db

/-- `_fetch_state`: the local database goes first. -/
def fetchCommand (env : FetchEnv) : NightStep Unit := do
  commitNight fun _ => NightDb.empty
  let s ← Prog.get
  match fetchNight env s.bucket with
  | .error e => Prog.fail (.fetch e)
  | .ok db => commitNight fun _ => db

/-- `state`. -/
def stateCommand (weekday : ℕ) (forced : Bool) (minutes : ℕ) (host : Str) (env : FetchEnv)
    (stamp : ClockStamp) : NightStep Unit := do
  fetchCommand env
  -- decided before the run's own row exists
  let s ← Prog.get
  let reconcile := isReconcileRun weekday forced s.db stamp
  commitNight (NightDb.startRun stamp minutes host reconcile)

/-- `history_label`. -/
def historyLabel : NightStep Str := do
  let s ← Prog.get
  match s.db.currentRun with
  | none => Prog.fail .noRun
  | some run => return (toString run.startEpoch).toList

/-- A call to the bucket. -/
def storeCall (f : NightSystem → NightSystem) : Reply → NightStep Unit
  | .done => Prog.write f
  | .refused e => Prog.fail (.store e)
  | .lost e => do
    Prog.write f
    Prog.fail (.store e)

/-- `store.put(encrypted, history_key)`. -/
def NightSystem.put (label : Str) (db : NightDb) (s : NightSystem) : NightSystem :=
  { s with bucket := s.bucket.set (historyKey label) db }

/-- `store.copy(key, STATE_KEY)`. -/
def NightSystem.copy (key : Str) (s : NightSystem) : NightSystem :=
  match s.bucket.get? key with
  | none => s
  | some db => { s with bucket := s.bucket.set stateKey db }

/-- `push`. -/
def pushNight (label : Str) (env : StoreEnv) : NightStep Unit :=
  match env.snapshot with
  | .error e => Prog.fail (.store e)
  | .ok () => do
    let s ← Prog.get
    storeCall (NightSystem.put label s.db) env.put
    storeCall (NightSystem.copy (historyKey label)) env.copy

/-- **The work of a phase** of the run `runId`: any program that reads the database, writes the
columns of its run, and pushes under some label, with handlers for its errors. -/
inductive PhaseBody (runId : ℕ) : {α : Type} → NightStep α → Prop
  | pure {α : Type} (a : α) : PhaseBody runId (Pure.pure a)
  | fail {α : Type} (e : NightError) : PhaseBody runId (Prog.fail e : NightStep α)
  | look {α : Type} {f : NightSystem → NightStep α} (hf : ∀ s, PhaseBody runId (f s)) :
      PhaseBody runId (Prog.get >>= f)
  | bind {α β : Type} {p : NightStep α} {f : α → NightStep β} (hp : PhaseBody runId p)
      (hf : ∀ a, PhaseBody runId (f a)) : PhaseBody runId (p >>= f)
  | caught {α : Type} {p : NightStep α} {handler : NightError → NightStep α} (hp : PhaseBody runId p)
      (hh : ∀ e, PhaseBody runId (handler e)) : PhaseBody runId (p.catchError handler)
  | update (c : RunChange) : PhaseBody runId (commitNight (NightDb.updateRun runId c))
  | push (label : Str) (env : StoreEnv) : PhaseBody runId (pushNight label env)

/-- `run_phase`: `body` is given `ctx.run_id`. -/
def runPhase (migrationId : Str) (phase : Phase) (body : ℕ → NightStep PhaseOutcome) :
    NightStep PhaseOutcome := do
  let s ← Prog.get
  match s.db.currentRun with
  | none => Prog.fail .noRun
  | some run => do
    let id := (startPhase migrationId phase run.id s.db.phases).1
    commitNight (NightDb.onPhases fun t => (startPhase migrationId phase run.id t).2)
    let outcome ← Prog.catchError (body run.id) fun _ => do
      commitNight (NightDb.onPhases (completePhase id .fail))
      Prog.fail .phase
    commitNight (NightDb.onPhases (completePhase id outcome.status))
    return outcome

/-- `run_status`, as the run row has it. -/
def RunStatus.state : RunStatus → RunState
  | .success => .success
  | .fail => .fail

/-- `run` of `p70_report.py`; `files` is what writing the report and the marker comes to. -/
def reportBody (apply : Bool) (files : Except Failure Unit) (env : StoreEnv) (runId : ℕ) :
    NightStep PhaseOutcome := do
  -- before `finish_run`: the label needs a run in progress
  let label ← historyLabel
  let s ← Prog.get
  let status := (reportVerdict runId false s.db.phases).status
  match files with
  | .error e => Prog.fail (.store e)
  | .ok () => do
    commitNight (NightDb.finishRun runId status.state)
    let outcome := if status = .success then PhaseOutcome.pass else .fail
    if apply then do
      pushNight (label ++ "-report".toList) env
      return outcome
    else return outcome

/-- `state_push`. -/
def statePush (label : Str) (env : StoreEnv) : NightStep Unit := pushNight label env

/-- `state_rollback`, with a key. -/
def stateRollback (key : Str) (reply : Reply) : NightStep Unit :=
  storeCall (NightSystem.copy key) reply

section Moves

variable (migrationId : Str) (weekday : ℕ)

/-- The clock of a night. -/
def NightSystem.clocked (epoch : ℕ) (forced : Bool) (s : NightSystem) : NightSystem :=
  { s with now := epoch, forced := if forced then epoch :: s.forced else s.forced }

/-- **What a process of a night leaves**, at its end or at a kill. -/
inductive NightMove : NightSystem → NightSystem → Prop
  | state {s t : NightSystem} (epoch minutes : ℕ) (forced : Bool) (host : Str) (env : FetchEnv)
      (hnow : s.now ≤ epoch)
      (ht : t ∈ (stateCommand weekday forced minutes host env (clock epoch)
        (s.clocked epoch forced)).states) : NightMove s t
  | phase {s t : NightSystem} (phase : Phase) (hphase : phase ≠ .report)
      (body : ℕ → NightStep PhaseOutcome) (hbody : ∀ runId, PhaseBody runId (body runId))
      (ht : t ∈ (runPhase migrationId phase body s).states) : NightMove s t
  | report {s t : NightSystem} (apply : Bool) (files : Except Failure Unit) (env : StoreEnv)
      (ht : t ∈ (runPhase migrationId .report (reportBody apply files env) s).states) : NightMove s t
  /-- `status` fetches as well -/
  | status {s t : NightSystem} (env : FetchEnv) (ht : t ∈ (fetchCommand env s).states) : NightMove s t
  /-- the next command finds a new machine -/
  | machine (s : NightSystem) : NightMove s (s.onDb fun _ => NightDb.empty)

/-- What the operator's own commands leave. -/
inductive OperatorMove : NightSystem → NightSystem → Prop
  | push {s t : NightSystem} (label : Str) (env : StoreEnv) (ht : t ∈ (statePush label env s).states) :
      OperatorMove s t
  | rollback {s t : NightSystem} (key : Str) (reply : Reply)
      (ht : t ∈ (stateRollback key reply s).states) : OperatorMove s t

end Moves

end DropboxMirror
