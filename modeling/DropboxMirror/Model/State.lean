import DropboxMirror.Lib.Keyed
import DropboxMirror.Model.Paths

/-!
# The state tables

The rows of `state.py` that the phases read and write, each with its primary key.
A listing is the part of `dropbox_objects` under one inventory id, and the two
delta tables hold the rows of one run, the only ones they ever hold.
-/

namespace DropboxMirror

/-- The `.tag` of a Dropbox entry. -/
inductive Tag
  | file
  | folder
  | deleted
  | other (name : Str)
  deriving DecidableEq, Repr

/-- A row of `dropbox_objects`. -/
structure DropboxObject where
  tag : Tag
  name : Str
  pathDisplay : Option Str
  pathLower : Option Str
  dropboxId : Option Str
  size : Option ℕ
  contentHash : Option Str
  isDownloadable : Bool
  firstPage : ℕ
  lastPage : ℕ
  deriving DecidableEq, Repr

/-- `object_key`: the lower-cased path, or the id of an entry that has none. -/
def DropboxObject.objectKey (d : DropboxObject) : Str :=
  match d.pathLower with
  | some (c :: p) => c :: p
  | _ => "@id:".toList ++ pyStr d.dropboxId

/-- The rows of one inventory. -/
abbrev Listing := Table DropboxObject.objectKey

/-- A file the pipeline may mirror: `tag='file' AND is_downloadable=1`. -/
def DropboxObject.isFile (d : DropboxObject) : Bool := decide (d.tag = .file) && d.isDownloadable

/-- The files of a listing that the pipeline may mirror. -/
def listedFiles (L : Listing) : List DropboxObject := L.rows.filter (·.isFile)

/-- A row of `mirror_objects`. -/
structure MirrorObject where
  pathLower : Str
  pathDisplay : Str
  size : ℕ
  contentHash : Str
  sha1 : Str
  sha256 : Str
  protonUid : Option Str
  runId : ℕ
  deriving DecidableEq, Repr

/-- `mirror_objects`. -/
abbrev Mirror := Table MirrorObject.pathLower

/-- A row of `delta_changed`. -/
structure DeltaChanged where
  runId : ℕ
  pathLower : Str
  pathDisplay : Str
  size : ℕ
  contentHash : Str
  deriving DecidableEq, Repr

/-- A row of `delta_deleted`. -/
structure DeltaDeleted where
  runId : ℕ
  pathLower : Str
  pathDisplay : Str
  protonUid : Option Str
  deriving DecidableEq, Repr

/-- `batch_items.status`. -/
inductive ItemStatus
  | planned
  | vanished
  | fetched
  | hashMismatch
  | verified
  | confirmFailed
  | confirmed
  | checkpointed
  deriving DecidableEq, Repr

/-- `batch_items.details_json`, as `_details` writes it. -/
inductive Details
  | empty
  | vanished
  | contentHash
  | uploadFailure (error : Str)
  | summaryMismatch (files folders transferred skipped failed : ℤ)
  deriving DecidableEq, Repr

/-- The `reason` field of the details. -/
def Details.reason : Details → Option String
  | .empty => none
  | .vanished => some "vanished"
  | .contentHash => some "content_hash"
  | .uploadFailure _ => some "upload failure"
  | .summaryMismatch .. => some "upload summary mismatch"

/-- A row of `batch_items`. -/
structure BatchItem where
  batchId : ℕ
  pathLower : Str
  pathDisplay : Str
  size : ℕ
  contentHash : Str
  status : ItemStatus
  sha1 : Option Str
  sha256 : Option Str
  details : Details
  deriving DecidableEq, Repr

/-- The primary key of `batch_items`. -/
def BatchItem.key (i : BatchItem) : ℕ × Str := (i.batchId, i.pathLower)

/-- `batches.status`. -/
inductive BatchStatus
  | planned
  | failed
  | checkpointed
  deriving DecidableEq, Repr

/-- A row of `batches`. -/
structure Batch where
  id : ℕ
  runId : ℕ
  number : ℕ
  bytes : ℕ
  fileCount : ℕ
  status : BatchStatus
  deriving DecidableEq, Repr

/-- `deletions.status`. -/
inductive DeletionStatus
  | trashed
  | notFound
  | listingFailed
  deriving DecidableEq, Repr

/-- A row of `deletions`. -/
structure Deletion where
  runId : ℕ
  pathLower : Str
  pathDisplay : Str
  protonUid : Option Str
  status : DeletionStatus
  deriving DecidableEq, Repr

/-- The primary key of `deletions`. -/
def Deletion.key (d : Deletion) : ℕ × Str := (d.runId, d.pathLower)

/-- The validated `[budget]` section, sizes in bytes. -/
structure Budget where
  batchBytes : ℕ
  batchFiles : ℕ
  maxFileBytes : ℕ
  ceilingBytes : ℕ
  headroomBytes : ℕ
  listingFloorRatio : ℚ
  batchFiles_pos : 1 ≤ batchFiles
  ratio_pos : 0 < listingFloorRatio
  ratio_le : listingFloorRatio ≤ 1

/-- A budget for runs on small inputs, with the default floor. -/
def Budget.small : Budget where
  batchBytes := 10
  batchFiles := 10
  maxFileBytes := 10
  ceilingBytes := 100
  headroomBytes := 1
  listingFloorRatio := 1 / 2
  batchFiles_pos := by decide
  ratio_pos := by norm_num
  ratio_le := by norm_num

/-- Two paths name one listed object exactly when they are equal. -/
theorem DropboxObject.objectKey_of_pathLower {d : DropboxObject} {p : Str}
    (h : d.pathLower = some p) (hp : p ≠ []) : d.objectKey = p := by
  obtain ⟨c, q, rfl⟩ := List.exists_cons_of_ne_nil hp
  simp [DropboxObject.objectKey, h]

@[simp] theorem mem_listedFiles {L : Listing} {d : DropboxObject} :
    d ∈ listedFiles L ↔ d ∈ L ∧ d.isFile = true := List.mem_filter

end DropboxMirror
