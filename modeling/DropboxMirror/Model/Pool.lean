import DropboxMirror.Model.Batch

/-!
# The download pool, file by file

`fetch` runs `_download` of each row in a pool of workers. Here a worker's file operations
are atomic steps on staging: it makes the parents, writes the part file beside the target,
renames it, or removes it after a dropped connection and tries again. The workers' steps
come in any order.
-/

namespace DropboxMirror

open Text Crash

/-- How one attempt of a download goes: the body is served whole, the connection drops
(before or after the part file was opened), the status is waited out, or the download
raises. -/
inductive DownloadAttempt
  | served (body : Bytes)
  | dropped (written : Option Bytes)
  | retried
  | notFound
  | refused (error : Failure)

/-- Where a worker stands; the attempts are those still to come. -/
inductive Worker
  | queued
  | started (attempts : List DownloadAttempt)
  | attempting (attempts : List DownloadAttempt)
  | dropped (attempts : List DownloadAttempt)
  | written
  | finished (landed : Landed)

/-- `_part_file`. -/
def partFile (target : List Str) : List Str :=
  target.dropLast ++ [target.getLastD [] ++ ".part".toList]

/-- `_write_download` up to the rename: the parents, and the part file. -/
def Staging.writePart (s : Staging) (target : List Str) (body : Bytes) : Option Staging :=
  (s.mkdirs target.dropLast).bind fun s => s.put (partFile target) body

/-- `_part_file(target).unlink(missing_ok=True)`. -/
def Staging.removePart (s : Staging) (target : List Str) : Option Staging :=
  s.unlinkMissingOk (partFile target)

/-- `os.replace(tmp, target)`: fails without the part file, or on a directory. -/
def Staging.replacePart (s : Staging) (target : List Str) : Option Staging :=
  (s.files.get? (partFile target)).bind fun body => (s.unlink (partFile target)).put target body

/-- A file operation: the worker goes on, or its download ends with the `OSError`. -/
def afterFile (s : Staging) (next : Worker) : Option Staging → Worker × Staging
  | none => (.finished (.failed .os), s)
  | some s' => (next, s')

/-- The next atomic step of a worker at work. -/
def workerStep (target : List Str) (s : Staging) : Worker → Option (Worker × Staging)
  | .queued | .finished _ => none
  | .started attempts => some (afterFile s (.attempting attempts) (s.mkdirs target.dropLast))
  -- the attempts are used up
  | .attempting [] => some (.finished (.failed .provider), s)
  | .attempting (.served body :: _) => some (afterFile s .written (s.writePart target body))
  | .attempting (.dropped none :: rest) => some (.dropped rest, s)
  | .attempting (.dropped (some body) :: rest) =>
    some (afterFile s (.dropped rest) (s.writePart target body))
  | .attempting (.retried :: rest) => some (.attempting rest, s)
  | .attempting (.notFound :: _) => some (.finished .gone, s)
  | .attempting (.refused e :: _) => some (.finished (.failed e), s)
  | .dropped rest => some (afterFile s (.attempting rest) (s.removePart target))
  | .written => some (afterFile s (.finished .file) (s.replacePart target))

/-- Whether a worker is at work on the row. -/
def Worker.atWork : Worker → Bool
  | .queued | .finished _ => false
  | _ => true

/-- **One step of the pool**: a free worker takes the first row that waits, or a worker
takes its next step. `attempts` answers the download of each path. -/
inductive PoolStep (workers : ℕ) (attempts : Str → List DownloadAttempt) :
    List (BatchItem × Worker) × Staging → List (BatchItem × Worker) × Staging → Prop
  | start (before after : List (BatchItem × Worker)) (row : BatchItem) (s : Staging)
      (hfirst : ∀ x ∈ before, x.2 ≠ .queued)
      (hfree : (before ++ after).countP (fun x => x.2.atWork) < workers) :
      PoolStep workers attempts (before ++ (row, .queued) :: after, s)
        (before ++ (row, .started (attempts row.pathLower)) :: after, s)
  | work (before after : List (BatchItem × Worker)) (row : BatchItem) {s s' : Staging}
      {p p' : Worker} (h : workerStep (localPath row.pathDisplay) s p = some (p', s')) :
      PoolStep workers attempts (before ++ (row, p) :: after, s) (before ++ (row, p') :: after, s')

/-- A run of the pool over the rows of a batch, from the cleared directory to the results. -/
def PoolRun (workers : ℕ) (attempts : Str → List DownloadAttempt) (rows : List BatchItem)
    (done : List (BatchItem × Landed)) (staged : Staging) : Prop :=
  Relation.ReflTransGen (PoolStep workers attempts)
    (rows.map fun row => (row, Worker.queued), Staging.cleared)
    (done.map fun r => (r.1, Worker.finished r.2), staged)

/-- `fetch`, with what the pool makes of the rows. -/
def fetchWith (batchId : ℕ) (pool : List BatchItem → List (BatchItem × Landed) × Staging) :
    Step FetchCounts := do
  let w ← Prog.get
  let advanced := w.itemsOf batchId fun s => decide (s ≠ .planned ∧ s ≠ .vanished)
  if advanced ≠ [] then
    Prog.fail (.advanced batchId advanced.length)
  else do
    let rows := w.itemsIn batchId .planned
    let (done, staged) := pool rows
    Prog.write fun w => { w with staging := staged }
    let (counts, error) ← rows.foldlM (fetchRow batchId (futureResult done)) (⟨0, 0⟩, none)
    match error with
    | some e => Prog.fail e
    | none => do
      Prog.write fun w => { w with staging := w.staging.pruneEmptyDirs }
      return counts

/-- `fetch` is this for a pool whose downloads land one after the other. -/
theorem fetch_eq (batchId : ℕ) (pool : Pool) (download : BatchItem → Download) :
    fetch batchId pool download =
      fetchWith batchId fun rows => runPool download (pool.order rows) Staging.cleared := rfl

end DropboxMirror
