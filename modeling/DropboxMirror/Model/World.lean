import DropboxMirror.Lib.Crash
import DropboxMirror.Model.State
import DropboxMirror.Model.Staging

/-!
# The world of a run

What the phases after the delta read and write: the state tables, the staging
directory, the upload reports and the trash calls Proton has received. A phase is a
`Step`: a program whose commits are states of this world, so that a kill leaves one
of them behind.
-/

namespace DropboxMirror

open Text Crash

/-- One entry of a summary's `failures` that is a JSON object. -/
structure SummaryFailure where
  name : Option Str
  error : Option Str
  deriving DecidableEq, Repr

/-- The CLI's transfer summary. An entry of `failures` that is no object is `none`. -/
structure Summary where
  transferredItems : ℤ
  skippedItems : ℤ
  failedItems : ℤ
  failures : List (Option SummaryFailure)
  deriving DecidableEq, Repr

/-- The columns of the current row of `runs` that the phases pass to each other. -/
structure RunRow where
  plannedBatches : Option ℕ
  remainingBatches : Option ℕ
  chain : Bool
  deriving DecidableEq, Repr

/-- One path of a trash call, with the deleted row and the node it stands for. -/
structure TrashTarget where
  row : DeltaDeleted
  parent : Str
  name : Str
  uid : Str
  cliPath : Str
  deriving DecidableEq, Repr

/-- The tables, staging, the parsed summary of each batch's upload report (`none` where
the report has no summary line), and the trash calls made. -/
structure World where
  run : RunRow
  mirror : Mirror
  batches : Table Batch.id
  items : Table BatchItem.key
  deletions : Table Deletion.key
  staging : Staging
  reports : Dict ℕ (Option Summary)
  trashCalls : List (List TrashTarget)

/-- A new state database, and nothing staged. -/
def World.initial : World where
  run := ⟨none, none, false⟩
  mirror := Table.empty
  batches := Table.empty
  items := Table.empty
  deletions := Table.empty
  staging := Staging.cleared
  reports := Table.empty
  trashCalls := []

/-- Why a phase fails. -/
inductive Failure
  | ceiling (treeBytes ceilingBytes : ℕ)
  | disk (free needed : ℤ)
  | advanced (batchId count : ℕ)
  | corrupt
  | summaryMissing
  | failedBatch (number : ℕ)
  | noBatch
  | integrity
  | keyError
  | os
  | provider
  deriving DecidableEq, Repr

/-- The text of the phases' own errors. -/
def Failure.message : Failure → Option String
  | .ceiling treeBytes ceilingBytes =>
    some ("tree is " ++ toString treeBytes ++ " bytes, over CEILING_GB (" ++
      toString ceilingBytes ++ " bytes)")
  | .disk free needed =>
    some ("disk cannot hold a batch: " ++ toString free ++ " free, " ++ toString needed ++ " needed")
  | .advanced batchId count =>
    some ("batch " ++ toString batchId ++ " has " ++ toString count ++ " item(s) past fetch; " ++
      "fetch runs once per batch and must not re-clear staging underneath them")
  | .corrupt => some "content hash mismatch on every staged file; the fetch path is corrupt"
  | .summaryMissing => some "upload summary missing"
  | .failedBatch number => some ("batch " ++ toString number ++ " failed confirmation")
  | .noBatch => some "no batch completed inside the budget; not chaining"
  | _ => none

/-- A phase, or a step of one. -/
abbrev Step (α : Type) := Prog World Failure α

end DropboxMirror
