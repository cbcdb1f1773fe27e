import DropboxMirror.Model.Batch
import DropboxMirror.Model.Walk

/-!
# The reconcile phase

`phases/p60_reconcile.py`: once a walk of Proton is complete, the mirror rows whose node
is missing or differs are dropped, the others take their node's UID, and the nodes that
neither the mirror nor the listing knows are trashed, files first and then folders.
-/

namespace DropboxMirror

open Text Crash

/-- What the reconcile phase reads and writes. -/
structure ReconcileWorld where
  run : RunRow
  mirror : Mirror
  proton : ProtonDb
  trashCalls : List (List Str)

/-- `LOWER(node_type)='file'`. -/
def NodeRow.isFileNode (n : NodeRow) : Bool := decide (n.nodeType.map Char.toLower = "file".toList)

/-- `LOWER(node_type)='folder'`. -/
def NodeRow.isFolderNode (n : NodeRow) : Bool :=
  decide (n.nodeType.map Char.toLower = "folder".toList)

/-- The file nodes of a snapshot, in the order of the query. -/
def ProtonDb.fileNodes (db : ProtonDb) (snapshotId : ℕ) : List NodeRow :=
  (db.nodesOf snapshotId).filter (·.isFileNode)

/-- `nodes`: the file nodes by comparison key. -/
def nodesByKey (files : List NodeRow) : Dict Str NodeRow :=
  Dict.ofList (files.map fun n => (n.comparisonKey, n))

/-- The size of a mirror row is not the one the node claims. -/
def sizeMismatch (node : Option NodeRow) (m : MirrorObject) : Bool :=
  match node with
  | none => true
  | some n => decide (n.claimedSize ≠ some m.size)

/-- The node claims another digest; a node without one has nothing to differ from. -/
def digestMismatch (U : Unicode) (node : Option NodeRow) (m : MirrorObject) : Bool :=
  !sizeMismatch node m && match node.bind NodeRow.sha1 with
    | none => false
    | some sha1 => decide (U.casefold sha1 ≠ U.casefold m.sha1)

/-- What `_correct_mirror` has so far: the table, its counts, and the keys of all rows. -/
structure Correction where
  mirror : Mirror
  dropped : ℕ
  refreshed : ℕ
  matched : ℕ
  sha1Mismatch : ℕ
  known : List Str

/-- The key a mirror row is looked up by. -/
def MirrorObject.key (U : Unicode) (m : MirrorObject) : Str := comparisonKey U m.pathDisplay

/-- One row of `_correct_mirror`. -/
def correctRow (U : Unicode) (nodes : Dict Str NodeRow) (acc : Correction) (m : MirrorObject) :
    Correction :=
  let key := m.key U
  let acc := { acc with known := acc.known ++ [key] }
  let node := nodes.get? key
  if sizeMismatch node m || digestMismatch U node m then
    { acc with
      mirror := acc.mirror.filter fun x => decide (x.pathLower ≠ m.pathLower)
      dropped := acc.dropped + 1
      sha1Mismatch := if digestMismatch U node m then acc.sha1Mismatch + 1 else acc.sha1Mismatch }
  else if m.protonUid = node.map NodeRow.uid then { acc with matched := acc.matched + 1 }
  else
    { acc with
      mirror := acc.mirror.modify (fun x =>
        if x.pathLower = m.pathLower then { x with protonUid := node.map NodeRow.uid } else x)
        (fun x => by split <;> rfl)
      matched := acc.matched + 1
      refreshed := acc.refreshed + 1 }

/-- `_correct_mirror`. -/
def correctMirror (U : Unicode) (nodes : Dict Str NodeRow) (M : Mirror) : Correction :=
  M.rows.foldl (correctRow U nodes) ⟨M, 0, 0, 0, 0, []⟩

/-- The comparison keys of the downloadable files of a listing. -/
def listedKeys (U : Unicode) (L : Listing) : List Str :=
  (listedFiles L).map fun d => comparisonKey U (pyStr d.pathDisplay)

/-- The file nodes no row and no listed file accounts for. -/
def strayNodes (nodes : Dict Str NodeRow) (known : List Str) : List NodeRow :=
  (nodes.rows.filter fun kv => decide (kv.1 ∉ known)).map Prod.snd

/-- The loop over the folders above one key; it stops at one that is occupied. Each turn
shortens the key, so the fuel is not used up. -/
def occupy : ℕ → List Str → Str → List Str
  | 0, occupied, _ => occupied
  | fuel + 1, occupied, key =>
    if '/' ∈ key then
      let parent := beforeLast '/' key
      if parent ∈ occupied then occupied else occupy fuel (occupied ++ [parent]) parent
    else occupied

/-- `occupied`: the keys of the folders that hold something known. -/
def occupied (known : List Str) : List Str :=
  known.foldl (fun occ key => occupy key.length occ key) []

/-- The comparison keys of the folders of a listing. -/
def folderKeys (U : Unicode) (L : Listing) : List Str :=
  (L.rows.filter fun d => decide (d.tag = .folder)).map fun d => comparisonKey U (pyStr d.pathDisplay)

/-- The folder nodes that Dropbox does not have and that hold nothing known. -/
def emptyFolders (U : Unicode) (nodes : List NodeRow) (L : Listing) (known : List Str) :
    List NodeRow :=
  (nodes.filter (·.isFolderNode)).filter fun n =>
    decide (n.comparisonKey ∉ folderKeys U L) && decide (n.comparisonKey ∉ occupied known)

/-- `_stray_folders`: the topmost of them. -/
def strayFolders (U : Unicode) (nodes : List NodeRow) (L : Listing) (known : List Str) :
    List NodeRow :=
  (emptyFolders U nodes L known).filter fun n =>
    decide (n.parentUid ∉ (emptyFolders U nodes L known).map NodeRow.uid)

/-- The CLI paths of nodes, sorted. -/
def sortedPaths (nodes : List NodeRow) : List Str :=
  (nodes.map NodeRow.cliPath).insertionSort fun a b => a ≤ b

/-- What Proton and the bucket answer to the phase. -/
structure ReconcileEnv where
  root : Except Failure Unit
  trashFiles : Except Failure Unit
  trashFolders : Except Failure Unit
  push : Except Failure Unit

/-- What the reconcile phase returns. -/
inductive ReconcileOutputs
  | skipped (reason : String)
  | planned
  | walking
  | unfinished (pending : ℕ)
  | ran (snapshotId protonFiles dropped uidRefreshed straysTrashed matched sha1Mismatch : ℕ)
  deriving DecidableEq, Repr

/-- `proton.trash`: no call for no paths. -/
def trashPaths (answer : Except Failure Unit) (paths : List Str) :
    Prog ReconcileWorld Failure Unit :=
  if paths = [] then return ()
  else do
    Prog.write fun w => { w with trashCalls := w.trashCalls ++ [paths] }
    match answer with
    | .error e => Prog.fail e
    | .ok () => return ()

/-- What a complete snapshot leads to. -/
def reconcileSnapshot (U : Unicode) (L : Listing) (env : ReconcileEnv) (snapshotId : ℕ) :
    Prog ReconcileWorld Failure ReconcileOutputs := do
  let w ← Prog.get
  let nodes := nodesByKey (w.proton.fileNodes snapshotId)
  let c := correctMirror U nodes w.mirror
  Prog.write fun w => { w with mirror := c.mirror }
  let known := c.known ++ listedKeys U L
  let strays := strayNodes nodes known
  trashPaths env.trashFiles (sortedPaths strays)
  trashPaths env.trashFolders (sortedPaths (strayFolders U (w.proton.nodesOf snapshotId) L known))
  match env.push with
  | .error e => Prog.fail e
  | .ok () =>
    return .ran snapshotId nodes.size c.dropped c.refreshed strays.length c.matched c.sha1Mismatch

/-- `stale`: the snapshots other than one. -/
def ProtonDb.stale (snapshotId : ℕ) (db : ProtonDb) : List ℕ :=
  (db.snapshots.rows.map ProtonSnapshot.id).filter fun id => decide (id ≠ snapshotId)

/-- `_prune_other_snapshots`; what was committed to a snapshot is forgotten with it. -/
def pruneOthers (snapshotId : ℕ) (db : ProtonDb) : ProtonDb where
  snapshots := db.snapshots.filter fun s => decide (s.id ∉ db.stale snapshotId)
  folders := db.folders.filter fun f => decide (f.snapshotId ∉ db.stale snapshotId)
  nodes := db.nodes.filter fun n => decide (n.snapshotId ∉ db.stale snapshotId)
  commits := db.commits.filter fun c => decide (c.1 ∉ db.stale snapshotId)

/-- The part of the phase after the walk. -/
def reconcileWalked (U : Unicode) (L : Listing) (env : ReconcileEnv) (snapshotId : ℕ) :
    Prog ReconcileWorld Failure ReconcileOutputs := do
  Prog.write fun w => { w with proton := pruneOthers snapshotId w.proton }
  let w ← Prog.get
  if (w.proton.snapshots.find? snapshotId).map ProtonSnapshot.status = some .complete then
    reconcileSnapshot U L env snapshotId
  else
    match env.push with
    | .error e => Prog.fail e
    | .ok () =>
      return .unfinished (w.proton.folders.rows.countP fun f =>
        decide (f.snapshotId = snapshotId ∧ f.status ≠ .complete))

/-- Why a run does not reconcile. -/
def reconcileSkipped (due : Bool) (w : ReconcileWorld) : Option String :=
  if due = false then some "not a reconcile run"
  else if w.run.remainingBatches = none ∨ w.run.remainingBatches.getD 0 > 0 then
    some "batches remain"
  else none

/-- `run`: `due` is the run's `reconcile` flag. -/
def reconcileRun (U : Unicode) (cfg : WalkConfig) (apply due : Bool) (L : Listing)
    (turns : List Turn) (written : Bool) (env : ReconcileEnv) :
    Prog ReconcileWorld Failure ReconcileOutputs := do
  let w ← Prog.get
  match reconcileSkipped due w with
  | some reason => return .skipped reason
  | none =>
    if apply = false then return .planned
    else
      match env.root with
      | .error e => Prog.fail e
      | .ok () => do
        let walked ← (walkInventory U cfg false turns written).zoom ReconcileWorld.proton
          (fun db w => { w with proton := db }) fun _ => Failure.provider
        match walked with
        | none => return .walking
        | some snapshotId => reconcileWalked U L env snapshotId

end DropboxMirror
