import DropboxMirror.Model.Batches
import DropboxMirror.Model.Plan

/-!
# The state in the bucket

`statefile.py`, and the phases that push through it. A run throws its local database
away and fetches the state; each checkpoint uploads a snapshot under a dated key and
has the bucket copy it over the canonical one. What outlives a kill is a `Durable`: the
local database and the bucket.
-/

namespace DropboxMirror

open Text Crash

variable {β : Type}

/-- The tables of the state database that the phases share. -/
structure StateDb where
  run : RunRow
  mirror : Mirror
  batches : Table Batch.id
  items : Table BatchItem.key
  deletions : Table Deletion.key

/-- A new database. -/
def StateDb.empty : StateDb := ⟨⟨none, none, false⟩, Table.empty, Table.empty, Table.empty, Table.empty⟩

/-- `snapshot_to`. -/
def World.db (w : World) : StateDb := ⟨w.run, w.mirror, w.batches, w.items, w.deletions⟩

/-- The machine with a database in place of its own. -/
def World.withDb (w : World) (s : StateDb) : World :=
  { w with
    run := s.run, mirror := s.mirror, batches := s.batches, items := s.items,
    deletions := s.deletions }

/-- `lzma` and `age`, both ways. -/
structure Codec (β : Type) where
  pack : StateDb → β
  unpack : β → StateDb
  unpack_pack : ∀ s, unpack (pack s) = s

/-- The objects of the bucket. -/
abbrev Bucket (β : Type) := Dict Str β

/-- `STATE_KEY`. -/
def stateKey : Str := ".state/state.sqlite.xz.age".toList

/-- `HISTORY_PREFIX`. -/
def historyPrefix : Str := ".state/history/".toList

/-- The key of a history object. -/
def historyKey (label : Str) : Str := historyPrefix ++ label ++ ".sqlite.xz.age".toList

/-- `store.list(HISTORY_PREFIX)`. -/
def Bucket.history (B : Bucket β) : List Str :=
  (B.rows.map Prod.fst).filter fun k => decide (historyPrefix <+: k)

/-- Why `fetch` raises. -/
inductive FetchError
  | download
  | unpack
  | listing
  | lostState
  | unreachable
  deriving DecidableEq, Repr

/-- The text of the refusal. -/
def FetchError.message : FetchError → Option String
  | .lostState =>
    some ("state object is missing but history exists; a lost state must never " ++
      "be mistaken for an empty mirror. Roll back with `task state-rollback`.")
  | _ => none

/-- Which calls of one `fetch` succeed. -/
structure FetchEnv where
  get : Bool
  unpack : Bool
  list : Bool
  probe : Bool

/-- What `fetch` returns, with the database it restores. -/
inductive Fetched
  | fresh
  | restored (s : StateDb)

/-- The database after `fetch`. -/
def Fetched.db : Fetched → StateDb
  | .fresh => StateDb.empty
  | .restored s => s

/-- `fetch`: the local database is gone by then. -/
def fetchState (C : Codec β) (env : FetchEnv) (B : Bucket β) : Except FetchError Fetched :=
  if env.get = false then .error .download
  else
    match B.get? stateKey with
    | none =>
      if env.list = false then .error .listing
      else if B.history ≠ [] then .error .lostState
      else if env.probe = false then .error .unreachable
      else .ok .fresh
    | some blob => if env.unpack = false then .error .unpack else .ok (.restored (C.unpack blob))

/-- What has happened in a run, for the statements: no step reads it. A batch begins with
the commit of its `started_at` and ends with that of its details. -/
inductive Event
  | began (batchId : ℕ)
  | confirmed (item : BatchItem)
  | uploaded (label : Str)
  | ended (batchId : ℕ)

/-- What outlives a kill, and the run's log. -/
structure Durable (β : Type) where
  world : World
  bucket : Bucket β
  log : List Event

/-- A program over what outlives a kill. -/
abbrev DurableStep (β α : Type) := Prog (Durable β) Failure α

/-- The items a step from `v` has confirmed where it leaves `w`. -/
def newlyConfirmed (v w : World) : List BatchItem :=
  w.items.rows.filter fun i => decide (i.status = .confirmed) &&
    !v.items.rows.any fun j => decide (j.key = i.key ∧ j.status = .confirmed)

/-- A commit of the local database. -/
def Durable.commit (w : World) (d : Durable β) : Durable β :=
  { d with world := w, log := d.log ++ (newlyConfirmed d.world w).map .confirmed }

/-- A step that touches the local machine alone. -/
def onWorld {α : Type} (p : Step α) : DurableStep β α := p.zoom Durable.world Durable.commit id

/-- An entry of the log. -/
def note (e : Event) : DurableStep β Unit := Prog.write fun d => { d with log := d.log ++ [e] }

/-- How a call to the bucket goes: it is answered, it is not carried out, or it is carried
out and its answer gets lost. -/
inductive Reply
  | done
  | refused (error : Failure)
  | lost (error : Failure)

/-- A call to the bucket. -/
def bucketCall (f : Durable β → Durable β) : Reply → DurableStep β Unit
  | .done => Prog.write f
  | .refused e => Prog.fail e
  | .lost e => do
    Prog.write f
    Prog.fail e

/-- What a push meets: the snapshot, the upload and the copy. -/
structure StoreEnv where
  snapshot : Except Failure Unit
  put : Reply
  copy : Reply

/-- `store.put(encrypted, history_key)`. -/
def Durable.upload (label : Str) (blob : β) (d : Durable β) : Durable β :=
  { d with bucket := d.bucket.set (historyKey label) blob, log := d.log ++ [.uploaded label] }

/-- `store.copy(history_key, STATE_KEY)`. -/
def Durable.copyState (label : Str) (d : Durable β) : Durable β :=
  match d.bucket.get? (historyKey label) with
  | none => d
  | some blob => { d with bucket := d.bucket.set stateKey blob }

/-- `push`. -/
def pushState (C : Codec β) (label : Str) (env : StoreEnv) : DurableStep β Unit :=
  match env.snapshot with
  | .error e => Prog.fail e
  | .ok () => do
    let d ← Prog.get
    bucketCall (Durable.upload label (C.pack d.world.db)) env.put
    bucketCall (Durable.copyState label) env.copy

/-- `checkpoint` up to its push. -/
def mergeBatch (runId batchId : ℕ) : Step CheckpointCounts := do
  let w ← Prog.get
  let good := w.itemsIn batchId .confirmed
  match good.mapM (mirrorRow runId) with
  | .error e => Prog.fail e
  | .ok rows => do
    let failed := (w.itemsIn batchId .confirmFailed).length
    let status := if failed ≠ 0 ∧ good = [] then .failed else .checkpointed
    Prog.write fun w => w.checkpointed batchId rows status
    return ⟨good.length, failed⟩

/-- `history_label` and the number of a batch. -/
def batchLabel (epoch number : ℕ) : Str := (toString epoch ++ "-" ++ toString number).toList

/-- `checkpoint`, with its push. -/
def checkpointState (C : Codec β) (runId batchId : ℕ) (label : Str) (env : StoreEnv) :
    DurableStep β CheckpointCounts := do
  let counts ← onWorld (mergeBatch runId batchId)
  pushState C label env
  onWorld (Prog.write fun w => { w with staging := Staging.cleared })
  return counts

/-- The five steps of a batch, the last one with its push. -/
def stateSteps (C : Codec β) (D : Digests) (runId batchId : ℕ) (label : Str) (env : BatchEnv)
    (store : StoreEnv) : DurableStep β BatchCounts := do
  let f ← onWorld (fetchWithToken batchId env)
  let v ← onWorld (verify D batchId env.readable)
  let u ← onWorld (DropboxMirror.upload batchId env.upload)
  let c ← onWorld (confirm batchId)
  let k ← checkpointState C runId batchId label store
  return { fetch := f, verify := v, upload := u, confirm := c, checkpoint := k }

/-- What a run meets: the clock, the disk, Dropbox, Proton and the bucket. -/
structure RunEnv where
  runId : ℕ
  epoch : ℕ
  budget : Budget
  minutes : ℚ
  free : ℕ
  listing : Listing
  delta : Delta
  root : Except Failure Unit
  batch : Batch → BatchEnv
  store : Batch → StoreEnv

/-- The loop over the planned batches, with their pushes. -/
def stateLoop (C : Codec β) (D : Digests) (r : RunEnv) (planned : ℕ) :
    List Batch → Progress → DurableStep β Progress
  | [], progress => return progress
  | row :: rest, progress =>
    if shouldStart (r.batch row).elapsed (longestBatch progress.durations) (r.minutes * 60)
        progress.completed then do
      note (.began row.id)
      let counts ← Prog.catchError
        (stateSteps C D r.runId row.id (batchLabel r.epoch row.number) (r.batch row) (r.store row))
        fun e => onWorld (failBatch planned progress.completed row.id e)
      note (.ended row.id)
      let progress := { progress with
        durations := (r.batch row).duration :: progress.durations, done := progress.done ++ [counts] }
      let d ← Prog.get
      if d.world.batchStatus row.id = some .failed then
        return { progress with failedBatch := some row.number }
      else
        stateLoop C D r planned rest { progress with completed := progress.completed + 1 }
    else return progress

/-- `run`: the batches phase of an applied run, with its pushes. -/
def stateBatches (C : Codec β) (D : Digests) (r : RunEnv) : DurableStep β BatchesOutputs := do
  let d ← Prog.get
  let planned := d.world.plannedBatches r.runId
  match r.root with
  | .error e => Prog.fail e
  | .ok () => do
    let progress ← stateLoop C D r planned.length planned ⟨[], [], 0, none⟩
    let remaining := planned.length - progress.completed
    let chain := decide (remaining > 0 ∧ progress.completed > 0 ∧ progress.failedBatch = none)
    onWorld (updateRun remaining chain)
    match progress.failedBatch with
    | some number => Prog.fail (.failedBatch number)
    | none =>
      if remaining ≠ 0 ∧ progress.completed = 0 then
        Prog.fail .noBatch
      else
        return .ran planned.length progress.completed remaining chain progress.done

/-- `start_run`, as far as the later phases read the row. -/
def startRun : Step Unit := Prog.write fun w => { w with run := ⟨none, none, false⟩ }

/-- A run from its `state` step to its last batch. -/
def pipeline (C : Codec β) (D : Digests) (r : RunEnv) : DurableStep β Unit := do
  onWorld startRun
  let _ ← onWorld (planRun r.budget r.free r.runId r.listing r.delta)
  let _ ← stateBatches C D r
  return ()

end DropboxMirror
