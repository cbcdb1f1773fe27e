import DropboxMirror.Model.Delta
import DropboxMirror.Model.Proton
import DropboxMirror.Model.World

/-!
# The trash phase

`phases/p50_trash.py`: once every batch has landed, the deleted rows are grouped by
their Proton parent folder, each folder is listed once, and the file of each row goes
to the trash under its name, or its UID where the name is not unique.
-/

namespace DropboxMirror

open Text Crash

/-- `str(unwrap(node.get("uid")))`. -/
def ProtonNode.uidText (n : ProtonNode) : Str := pyStr n.uid.join

/-- The nodes of a folder with one name: `resolve_children(...).get(name, [])`. -/
def childrenNamed (children : List ProtonNode) (name : Str) : List ProtonNode :=
  children.filter fun n => decide (pyStr n.name = name)

/-- `str(unwrap(n.get("type"))).casefold() == "file"`. -/
def ProtonNode.isFile (U : Unicode) (n : ProtonNode) : Bool :=
  decide (U.casefold (pyStr n.type) = "file".toList)

/-- The file nodes a deleted row may stand for. -/
def fileCandidates (U : Unicode) (children : List ProtonNode) (row : DeltaDeleted) :
    List ProtonNode :=
  (childrenNamed children (baseName row.pathDisplay)).filter (·.isFile U)

/-- The node of a deleted row: the one with its recorded UID, else the first. -/
def chooseNode (U : Unicode) (children : List ProtonNode) (row : DeltaDeleted) :
    Option ProtonNode :=
  let files := fileCandidates U children row
  (files.find? fun n => decide (some n.uidText = row.protonUid)).or files.head?

/-- `_record`. -/
def record (runId : ℕ) (row : DeltaDeleted) (status : DeletionStatus) (uid : Option Str) :
    Step Unit :=
  Prog.write fun w => { w with deletions := w.deletions.upsert Table.replace {
    runId, pathLower := row.pathLower, pathDisplay := row.pathDisplay, protonUid := uid, status } }

/-- The path of a row's node in the trash call. -/
def trashTarget (children : List ProtonNode) (parent : Str) (row : DeltaDeleted) (uid : Str) :
    TrashTarget :=
  let name := baseName row.pathDisplay
  { row, parent, name, uid,
    cliPath := childCliPath parent name uid (decide ((childrenNamed children name).length > 1)) }

/-- The counts of the trash phase. -/
structure TrashCounts where
  trashed : ℕ
  notFound : ℕ
  listingFailed : ℕ
  folders : ℕ
  deriving DecidableEq, Repr

/-- The targets of one listed folder; a row without a node is recorded at once. -/
def collectTarget (U : Unicode) (runId : ℕ) (parent : Str) (children : List ProtonNode)
    (acc : TrashCounts × List TrashTarget) (row : DeltaDeleted) :
    Step (TrashCounts × List TrashTarget) :=
  match chooseNode U children row with
  | none => do
    record runId row .notFound none
    return ({ acc.1 with notFound := acc.1.notFound + 1 }, acc.2)
  | some node =>
    match node.uid with
    | none => Prog.fail .keyError
    | some uid => return (acc.1, acc.2 ++ [trashTarget children parent row (pyStr uid)])

/-- What Proton answers to the phase. -/
structure TrashEnv where
  root : Except Failure Unit
  list : Str → Option (List ProtonNode)
  trash : Str → Except Failure Unit
  push : Except Failure Unit

/-- The trash call of one folder, and its records. -/
def trashTargets (runId : ℕ) (answer : Except Failure Unit) (targets : List TrashTarget)
    (counts : TrashCounts) : Step TrashCounts :=
  if targets = [] then return counts
  else do
    Prog.write fun w => { w with trashCalls := w.trashCalls ++ [targets] }
    match answer with
    | .error e => Prog.fail e
    | .ok () => do
      targets.foldlM (fun _ t => record runId t.row .trashed (some t.uid)) ()
      return { counts with trashed := counts.trashed + targets.length }

/-- One turn of the loop over the parents. -/
def trashGroup (U : Unicode) (runId : ℕ) (env : TrashEnv) (counts : TrashCounts)
    (group : Str × List DeltaDeleted) : Step TrashCounts :=
  match env.list group.1 with
  | none => do
    group.2.foldlM (fun _ row => record runId row .listingFailed none) ()
    return { counts with listingFailed := counts.listingFailed + group.2.length }
  | some children => do
    let (counts, targets) ←
      group.2.foldlM (collectTarget U runId group.1 children) (counts, [])
    let counts ← trashTargets runId (env.trash group.1) targets counts
    return { counts with folders := counts.folders + 1 }

/-- The deleted rows by parent, both in order. -/
def byParent (destination : Str) (rows : List DeltaDeleted) : List (Str × List DeltaDeleted) :=
  let parents := (rows.map fun r => parentCliPath destination r.pathDisplay).dedup.insertionSort
    fun a b => a ≤ b
  parents.map fun p => (p, rows.filter fun r => decide (parentCliPath destination r.pathDisplay = p))

/-- The `DELETE` that ends the phase. -/
def dropTrashed (runId : ℕ) (w : World) : World :=
  { w with mirror := w.mirror.filter fun m => !w.deletions.rows.any fun d =>
      decide (d.runId = runId ∧ d.pathLower = m.pathLower ∧
        (d.status = .trashed ∨ d.status = .notFound)) }

/-- What the trash phase returns. -/
inductive TrashOutputs
  | planned (count : ℕ)
  | deferred (count : ℕ)
  | ran (planned : ℕ) (counts : TrashCounts)

/-- Whether the trash phase waits for batches. -/
def batchesRemain (w : World) : Bool :=
  match w.run.remainingBatches with
  | none => true
  | some n => decide (n > 0)

/-- `run`: the trash phase over the rows of `delta_deleted`. -/
def trashRun (U : Unicode) (destination : Str) (apply : Bool) (runId : ℕ) (Δ : Delta)
    (env : TrashEnv) : Step TrashOutputs := do
  let w ← Prog.get
  let rows := Δ.deleted.rows.insertionSort fun a b => a.pathLower ≤ b.pathLower
  if apply = false then
    return .planned rows.length
  else if batchesRemain w then
    return .deferred rows.length
  else if rows = [] then
    return .ran 0 ⟨0, 0, 0, 0⟩
  else
    match env.root with
    | .error e => Prog.fail e
    | .ok () => do
      let counts ←
        (byParent destination rows).foldlM (trashGroup U runId env) ⟨0, 0, 0, 0⟩
      Prog.write (dropTrashed runId)
      match env.push with
      | .error e => Prog.fail e
      | .ok () => return .ran rows.length counts

end DropboxMirror
