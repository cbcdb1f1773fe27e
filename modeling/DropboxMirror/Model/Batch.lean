import DropboxMirror.Model.World

/-!
# The five steps of a batch

`phases/batch.py` as programs over the state tables and the staging directory:
`fetch`, `verify`, `upload`, `confirm` and `checkpoint`. Each `_set_item` commits on
its own, so a step killed part way leaves the rows written so far. What Dropbox, the
disk, the Proton CLI and the bucket answer comes from an environment of the step.
-/

namespace DropboxMirror

open Text Crash

/-- The items of a batch, `ORDER BY path_lower`. -/
def World.itemsOf (w : World) (batchId : ℕ) (p : ItemStatus → Bool) : List BatchItem :=
  (w.items.rows.filter fun i => decide (i.batchId = batchId) && p i.status).insertionSort
    fun a b => a.pathLower ≤ b.pathLower

/-- `items(ctx, batch_id, status)`. -/
def World.itemsIn (w : World) (batchId : ℕ) (status : ItemStatus) : List BatchItem :=
  w.itemsOf batchId fun s => decide (s = status)

/-- The columns `_set_item` changes besides the status. -/
structure ItemColumns where
  sha1 : Option Str := none
  sha256 : Option Str := none
  details : Option Details := none

/-- The row an `UPDATE batch_items` leaves. -/
def BatchItem.setStatus (i : BatchItem) (status : ItemStatus) (c : ItemColumns) : BatchItem :=
  { i with
    status, sha1 := c.sha1.or i.sha1, sha256 := c.sha256.or i.sha256,
    details := c.details.getD i.details }

/-- `UPDATE batch_items ... WHERE p`. -/
def updateItems (p : BatchItem → Bool) (status : ItemStatus) (c : ItemColumns)
    (t : Table BatchItem.key) : Table BatchItem.key :=
  t.modify (fun i => if p i then i.setStatus status c else i) (fun i => by split <;> rfl)

/-- Updates the items that satisfy `p`. -/
def World.updateItems (w : World) (p : BatchItem → Bool) (status : ItemStatus) (c : ItemColumns) :
    World :=
  { w with items := DropboxMirror.updateItems p status c w.items }

/-- `_set_item`, as one commit. -/
def setItem (batchId : ℕ) (pathLower : Str) (status : ItemStatus) (c : ItemColumns) : Step Unit :=
  Prog.write fun w => w.updateItems (fun i => decide (i.key = (batchId, pathLower))) status c

/-- What Dropbox answers to one download. -/
inductive Download
  | served (body : Bytes)
  | notFound
  | raised (error : Failure)

/-- What a worker of the pool ends with. -/
inductive Landed
  | file
  | gone
  | failed (error : Failure)

/-- The order in which the workers of a pool finish. -/
structure Pool where
  order : List BatchItem → List BatchItem
  perm : ∀ rows, (order rows).Perm rows

/-- `_download`: the parents are made first, so they stay where the file is gone. -/
def stageDownload (s : Staging) (path : List Str) (answer : Download) : Landed × Staging :=
  match s.mkdirs path.dropLast with
  | none => (.failed .os, s)
  | some s' =>
    match answer with
    | .notFound => (.gone, s')
    | .raised e => (.failed e, s')
    | .served body =>
      match s'.put path body with
      | none => (.failed .os, s')
      | some s'' => (.file, s'')

/-- The downloads of a batch, in the order they land. -/
def runPool (download : BatchItem → Download) :
    List BatchItem → Staging → List (BatchItem × Landed) × Staging
  | [], s => ([], s)
  | row :: rest, s =>
    let (landed, s) := stageDownload s (localPath row.pathDisplay) (download row)
    let (done, s) := runPool download rest s
    ((row, landed) :: done, s)

/-- `future.result()`. -/
def futureResult (done : List (BatchItem × Landed)) (row : BatchItem) : Landed :=
  ((done.find? fun r => decide (r.1 = row)).map Prod.snd).getD (.failed .os)

/-- The counts `fetch` returns. -/
structure FetchCounts where
  fetched : ℕ
  vanished : ℕ
  deriving DecidableEq, Repr

/-- The loop of `fetch` over the futures: the counts so far and the first error. -/
def fetchRow (batchId : ℕ) (result : BatchItem → Landed) (acc : FetchCounts × Option Failure)
    (row : BatchItem) : Step (FetchCounts × Option Failure) :=
  match result row with
  | .gone => do
    setItem batchId row.pathLower .vanished { details := some .vanished }
    return ({ acc.1 with vanished := acc.1.vanished + 1 }, acc.2)
  | .failed e => return (acc.1, acc.2.or (some e))
  | .file => do
    setItem batchId row.pathLower .fetched {}
    return ({ acc.1 with fetched := acc.1.fetched + 1 }, acc.2)

/-- `fetch`. -/
def fetch (batchId : ℕ) (pool : Pool) (download : BatchItem → Download) : Step FetchCounts := do
  let w ← Prog.get
  let advanced := w.itemsOf batchId fun s => decide (s ≠ .planned ∧ s ≠ .vanished)
  if advanced ≠ [] then
    Prog.fail (.advanced batchId advanced.length)
  else do
    let rows := w.itemsIn batchId .planned
    let (done, staged) := runPool download (pool.order rows) Staging.cleared
    Prog.write fun w => { w with staging := staged }
    let (counts, error) ← rows.foldlM (fetchRow batchId (futureResult done)) (⟨0, 0⟩, none)
    match error with
    | some e => Prog.fail e
    | none => do
      Prog.write fun w => { w with staging := w.staging.pruneEmptyDirs }
      return counts

/-- The counts `verify` returns. -/
structure VerifyCounts where
  verified : ℕ
  bytes : ℕ
  hashMismatch : ℕ
  deriving DecidableEq, Repr

/-- The loop of `verify`: a file that does not hash to its row leaves staging. -/
def verifyRow (D : Digests) (batchId : ℕ) (readable : BatchItem → Bool) (acc : VerifyCounts)
    (row : BatchItem) : Step VerifyCounts := do
  let w ← Prog.get
  let staged := localPath row.pathDisplay
  match w.staging.files.get? staged, readable row with
  | some body, true => do
    let hashes := hashFile D body
    if hashes.size ≠ row.size ∨ hashes.dropboxContentHash ≠ row.contentHash then do
      Prog.write fun w => { w with staging := w.staging.unlink staged }
      setItem batchId row.pathLower .hashMismatch { details := some .contentHash }
      return { acc with hashMismatch := acc.hashMismatch + 1 }
    else do
      setItem batchId row.pathLower .verified
        { sha1 := some hashes.sha1, sha256 := some hashes.sha256 }
      return { acc with verified := acc.verified + 1, bytes := acc.bytes + hashes.size }
  | _, _ => Prog.fail .os

/-- `verify`. -/
def verify (D : Digests) (batchId : ℕ) (readable : BatchItem → Bool) : Step VerifyCounts := do
  let w ← Prog.get
  let rows := w.itemsIn batchId .fetched
  let counts ← rows.foldlM (verifyRow D batchId readable) ⟨0, 0, 0⟩
  Prog.write fun w => { w with staging := w.staging.pruneEmptyDirs }
  if rows ≠ [] ∧ counts.hashMismatch = rows.length then
    Prog.fail .corrupt
  else
    return counts

/-- The counts `upload` returns. -/
structure UploadCounts where
  uploadedFiles : ℕ
  uploadedBytes : ℕ
  deriving DecidableEq, Repr

/-- `upload`: the CLI raises, or its output is kept as the batch's report. -/
def upload (batchId : ℕ) (answer : Except Failure (Option Summary)) : Step UploadCounts := do
  let w ← Prog.get
  let rows := w.itemsIn batchId .verified
  if rows = [] then
    return ⟨0, 0⟩
  else
    match answer with
    | .error e => Prog.fail e
    | .ok summary => do
      Prog.write fun w => { w with reports := w.reports.set batchId summary }
      return ⟨rows.length, (rows.map BatchItem.size).sum⟩

/-- `errors`: the failures by name, the empty name left out. -/
def summaryErrors (failures : List SummaryFailure) : Dict Str Str :=
  (Dict.ofList (failures.map fun f => (f.name.getD [], f.error.getD []))).filter
    fun e => decide (e.1 ≠ [])

/-- What `confirm` makes of a summary. -/
structure Verdict where
  confirmed : Bool
  errors : Dict Str Str
  failedRows : List BatchItem

/-- The verdict on the verified rows of a batch, with the folders counted in staging. -/
def verdict (rows : List BatchItem) (folders : ℕ) (summary : Summary) : Verdict :=
  let failures := summary.failures.filterMap id
  let errors := summaryErrors failures
  let failedRows := rows.filter fun r => (errors.get? (baseName r.pathDisplay)).isSome
  let matched := failedRows.map fun r => baseName r.pathDisplay
  let names := errors.rows.map Prod.fst
  { confirmed := decide
      (summary.transferredItems + summary.skippedItems + summary.failedItems =
          rows.length + folders ∧
        summary.failedItems = failures.length ∧
        (∀ n ∈ matched, n ∈ names) ∧ ∀ n ∈ names, n ∈ matched)
    errors, failedRows }

/-- The counts `confirm` returns. -/
structure ConfirmCounts where
  confirmed : ℕ
  skippedIdentical : ℤ
  confirmFailed : ℕ
  deriving DecidableEq, Repr

/-- The rows `confirm` decides on. -/
def isVerified (batchId : ℕ) (i : BatchItem) : Bool :=
  decide (i.batchId = batchId) && decide (i.status = .verified)

/-- `confirm`. -/
def confirm (batchId : ℕ) : Step ConfirmCounts := do
  let w ← Prog.get
  let rows := w.itemsIn batchId .verified
  let files := rows.length
  if rows = [] then
    return ⟨0, 0, 0⟩
  else
    match w.reports.get? batchId with
    | none | some none => Prog.fail .summaryMissing
    | some (some summary) => do
      let folders := w.staging.folders
      let v := verdict rows folders summary
      if v.confirmed then do
        v.failedRows.foldlM (fun _ row =>
          setItem batchId row.pathLower .confirmFailed
            { details := some (.uploadFailure ((v.errors.get? (baseName row.pathDisplay)).getD [])) })
          ()
        Prog.write fun w => w.updateItems (isVerified batchId) .confirmed {}
        return ⟨files - v.failedRows.length, summary.skippedItems, files - (files - v.failedRows.length)⟩
      else do
        Prog.write fun w => w.updateItems (isVerified batchId) .confirmFailed
          { details := some (.summaryMismatch files folders summary.transferredItems
              summary.skippedItems summary.failedItems) }
        return ⟨0, 0, files⟩

/-- `ON CONFLICT(path_lower) DO UPDATE`: every column but `proton_uid`. -/
def mergeMirror : Table.Merge MirrorObject.pathLower where
  run old new := { new with protonUid := old.protonUid }
  key_run _ _ _ := rfl

/-- The mirror row of an item; the table takes no `NULL` digest. -/
def mirrorRow (runId : ℕ) (i : BatchItem) : Except Failure MirrorObject :=
  match i.sha1, i.sha256 with
  | some sha1, some sha256 => .ok {
      pathLower := i.pathLower, pathDisplay := i.pathDisplay, size := i.size,
      contentHash := i.contentHash, sha1, sha256, protonUid := none, runId }
  | _, _ => .error .integrity

/-- The merge of the confirmed rows. -/
def mergeConfirmed (M : Mirror) (rows : List MirrorObject) : Mirror :=
  rows.foldl (Table.upsert mergeMirror) M

/-- The counts `checkpoint` returns. -/
structure CheckpointCounts where
  checkpointed : ℕ
  failed : ℕ
  deriving DecidableEq, Repr

/-- `UPDATE batches SET status=? WHERE id=?`. -/
def setBatch (batchId : ℕ) (status : BatchStatus) (t : Table Batch.id) : Table Batch.id :=
  t.modify (fun b => if b.id = batchId then { b with status := status } else b)
    (fun b => by split <;> rfl)

/-- The rows `checkpoint` merges. -/
def isConfirmed (batchId : ℕ) (i : BatchItem) : Bool :=
  decide (i.batchId = batchId) && decide (i.status = .confirmed)

/-- The one transaction of `checkpoint`. -/
def World.checkpointed (w : World) (batchId : ℕ) (rows : List MirrorObject) (status : BatchStatus) :
    World :=
  { w with
    mirror := mergeConfirmed w.mirror rows
    items := DropboxMirror.updateItems (isConfirmed batchId) .checkpointed {} w.items
    batches := setBatch batchId status w.batches }

/-- `checkpoint`: merge, then push the state; the push may raise. -/
def checkpoint (runId batchId : ℕ) (push : Except Failure Unit) : Step CheckpointCounts := do
  let w ← Prog.get
  let good := w.itemsIn batchId .confirmed
  match good.mapM (mirrorRow runId) with
  | .error e => Prog.fail e
  | .ok rows => do
    let failed := (w.itemsIn batchId .confirmFailed).length
    let status := if failed ≠ 0 ∧ good = [] then .failed else .checkpointed
    Prog.write fun w => w.checkpointed batchId rows status
    match push with
    | .error e => Prog.fail e
    | .ok () => do
      Prog.write fun w => { w with staging := Staging.cleared }
      return ⟨good.length, failed⟩

end DropboxMirror
