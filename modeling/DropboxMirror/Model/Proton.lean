import DropboxMirror.Lib.Keyed
import DropboxMirror.Model.Paths

/-!
# The Proton side: listed nodes and snapshots

What `proton-drive filesystem list` gives, and the three tables of `state.py` that a
walk of the destination fills: a snapshot, the folders it has to list, and the nodes
the listings gave.
-/

namespace DropboxMirror

open Text

/-- A node of a CLI listing, its fields unwrapped: `uid` is `none` where the key is
absent, and `some none` where it holds no value. -/
structure ProtonNode where
  name : Option Str
  type : Option Str
  uid : Option (Option Str)
  deriving DecidableEq, Repr

/-- A node with the size and the digest its active revision claims. -/
structure ListedNode extends ProtonNode where
  claimedSize : Option ℕ
  sha1 : Option Str
  deriving DecidableEq, Repr

/-- `proton_snapshots.status`. -/
inductive SnapshotStatus
  | running
  | complete
  deriving DecidableEq, Repr

/-- A row of `proton_snapshots`. -/
structure ProtonSnapshot where
  id : ℕ
  purpose : Str
  destinationRoot : Str
  status : SnapshotStatus
  deriving DecidableEq, Repr

/-- `proton_folders.status`. -/
inductive FolderStatus
  | pending
  | complete
  deriving DecidableEq, Repr

/-- A row of `proton_folders`. -/
structure ProtonFolder where
  snapshotId : ℕ
  uid : Str
  parentUid : Option Str
  segments : List Str
  cliPath : Str
  status : FolderStatus
  attemptCount : ℕ
  lastErrorCategory : Option Str
  deriving DecidableEq, Repr

/-- The primary key of `proton_folders`. -/
def ProtonFolder.key (f : ProtonFolder) : ℕ × Str := (f.snapshotId, f.uid)

/-- A row of `proton_nodes`. -/
structure NodeRow where
  snapshotId : ℕ
  uid : Str
  parentUid : Str
  segments : List Str
  relativePath : Str
  cliPath : Str
  comparisonKey : Str
  name : Str
  nodeType : Str
  claimedSize : Option ℕ
  sha1 : Option Str
  deriving DecidableEq, Repr

/-- The primary key of `proton_nodes`. -/
def NodeRow.key (n : NodeRow) : ℕ × Str := (n.snapshotId, n.uid)

/-- The tables of the walk. `commits` is a history the code does not keep: the folders
whose listing was committed, in order. -/
structure ProtonDb where
  snapshots : Table ProtonSnapshot.id
  folders : Table ProtonFolder.key
  nodes : Table NodeRow.key
  commits : List (ℕ × Str)

/-- No walk yet. -/
def ProtonDb.empty : ProtonDb := ⟨Table.empty, Table.empty, Table.empty, []⟩

/-- The nodes of a snapshot. -/
def ProtonDb.nodesOf (db : ProtonDb) (snapshotId : ℕ) : List NodeRow :=
  db.nodes.rows.filter fun r => decide (r.snapshotId = snapshotId)

/-- The UID the walk gives the destination folder. -/
def rootUid : Str := "__ROOT__".toList

/-- `section_root`: the CLI section of a destination, in which a UID is resolved. -/
def sectionRoot (destination : Str) : Str :=
  '/' :: (((rstrip '/' (lstrip '/' destination)).splitOn '/').headD [])

/-- `list_path`: the destination by its path, every folder below it by UID. -/
def listPath (destination : Str) (folder : ProtonFolder) : Str :=
  if folder.uid = rootUid then folder.cliPath
  else sectionRoot destination ++ '/' :: folder.uid

/-- One character of a JSON string, as `json.dumps` writes it. -/
def jsonChar (c : Char) : Str :=
  if c = '"' then ['\\', '"']
  else if c = '\\' then ['\\', '\\']
  else if c = '\n' then ['\\', 'n']
  else if c = '\r' then ['\\', 'r']
  else if c = '\t' then ['\\', 't']
  else if c = '\x08' then ['\\', 'b']
  else if c = '\x0c' then ['\\', 'f']
  else if c.toNat < 0x20 then
    "\\u00".toList ++ [Nat.digitChar (c.toNat / 16), Nat.digitChar (c.toNat % 16)]
  else [c]

/-- `visible_segments_json`: `json.dumps(segments, ensure_ascii=False)`. -/
def segmentsJson (segments : List Str) : Str :=
  '[' :: (", ".toList.intercalate (segments.map fun s => '"' :: s.flatMap jsonChar ++ ['"'])) ++ [']']

end DropboxMirror
