import DropboxMirror.Model.State
import Mathlib.Data.List.ProdSigma

/-!
# The report phase

The mirror status of `phases/p70_report.py`: two queries over the listing of the run and
the mirror.
-/

namespace DropboxMirror

/-- `inventory`: what the listing holds. -/
structure InventoryFigures where
  files : ℕ
  bytes : ℕ
  nonDownloadable : ℕ
  deriving DecidableEq, Repr

/-- `mirrored`: what the mirror holds of the listing, as it is now. -/
structure MirroredFigures where
  files : ℕ
  bytes : ℕ
  deriving DecidableEq, Repr

/-- The query over `dropbox_objects`. -/
def inventoryFigures (L : Listing) : InventoryFigures where
  files := L.rows.countP (·.isFile)
  bytes := ((L.rows.filter (·.isFile)).filterMap DropboxObject.size).sum
  nonDownloadable := L.rows.countP fun d => decide (d.tag = .file) && !d.isDownloadable

/-- The `ON` and `WHERE` clauses of the join. -/
def joins (m : MirrorObject) (d : DropboxObject) : Bool :=
  decide (d.pathLower = some m.pathLower) && d.isFile && decide (d.size = some m.size) &&
    decide (d.contentHash = some m.contentHash)

/-- The rows of `mirror_objects m JOIN dropbox_objects d`. -/
def joinedRows (L : Listing) (M : Mirror) : List (MirrorObject × DropboxObject) :=
  (M.rows ×ˢ L.rows).filter fun p => joins p.1 p.2

/-- The query over the join. -/
def mirroredFigures (L : Listing) (M : Mirror) : MirroredFigures where
  files := (joinedRows L M).length
  bytes := ((joinedRows L M).map fun p => p.1.size).sum

end DropboxMirror
