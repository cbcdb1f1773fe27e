import DropboxMirror.Lib.Crash
import DropboxMirror.Lib.Queues
import DropboxMirror.Model.Proton

/-!
# The Proton walk

`ProtonCLIProvider.inventory` and its `_Walk`: workers list one folder each, a listing
that lands is committed with the subfolders it adds to the queue, and a listing that
failed goes back to its worker's queue. The folders still to list are also the
`PENDING` rows of the snapshot, from which a walk that was cut short is resumed.

Each state a walk commits is a state of `ProtonDb`; the queues and the listings under
way are lost with the process.
-/

namespace DropboxMirror

open Text Crash

/-- Why a walk raises. -/
inductive WalkError
  | noUid (cliPath : Str)
  | noName (uid : Str)
  | notArray
  | exhausted
  | unrecovered
  | incomplete
  | listing (kind : Str)
  | session
  | typeError
  deriving DecidableEq, Repr

/-- The text of the walk's own errors; two of them quote a `repr`. -/
def WalkError.message : WalkError → Option String
  | .notArray => some "Proton filesystem list was not a JSON array"
  | .exhausted => some "Proton filesystem_list exhausted retries"
  | .unrecovered => some "Proton session could not be recovered for the walk"
  | .incomplete => some "Proton folder queue is incomplete"
  | _ => none

section Tables

/-- The row of `proton_nodes` for a child of a folder, one of `children`. -/
def nodeRow (U : Unicode) (snapshotId : ℕ) (folder : ProtonFolder) (children : List ListedNode)
    (node : ListedNode) : Except WalkError NodeRow :=
  let names := children.map fun n => pyStr n.name
  match node.uid.join, node.name with
  | none, _ => .error (.noUid folder.cliPath)
  | some [], _ => .error (.noUid folder.cliPath)
  | some uid, none => .error (.noName uid)
  | some uid, some name =>
    let segments := folder.segments ++ [name]
    let relative := join '/' segments
    .ok {
      snapshotId, uid, parentUid := folder.uid, segments, relativePath := relative,
      cliPath := childCliPath folder.cliPath name uid (decide (names.count name > 1)),
      comparisonKey := comparisonKey U relative, name, nodeType := node.type.getD [],
      claimedSize := node.claimedSize, sha1 := node.sha1 }

/-- The queue row of a folder node. -/
def NodeRow.folder (n : NodeRow) : ProtonFolder where
  snapshotId := n.snapshotId
  uid := n.uid
  parentUid := some n.parentUid
  segments := n.segments
  cliPath := n.cliPath
  status := .pending
  attemptCount := 0
  lastErrorCategory := none

/-- The CLI's name for a folder. -/
def NodeRow.isFolder (n : NodeRow) : Bool := decide (n.nodeType = "folder".toList)

/-- The inserts for one child, and the UIDs queued so far. -/
def insertChild (acc : ProtonDb × List Str) (n : NodeRow) : ProtonDb × List Str :=
  let db := { acc.1 with nodes := acc.1.nodes.upsert Table.replace n }
  if n.isFolder then
    ({ db with folders := db.folders.upsert Table.ignore n.folder },
      if (db.folders.find? n.folder.key).isNone then acc.2 ++ [n.uid] else acc.2)
  else (db, acc.2)

/-- An `UPDATE` of one folder row. -/
def updateFolder (key : ℕ × Str) (status : FolderStatus → FolderStatus)
    (category : Option Str → Option Str) (db : ProtonDb) : ProtonDb :=
  { db with
    folders := db.folders.modify (fun f =>
      if f.key = key then
        { f with
          status := status f.status, attemptCount := f.attemptCount + 1,
          lastErrorCategory := category f.lastErrorCategory }
      else f) (fun f => by split <;> rfl) }

/-- `_commit_listing`: one transaction. -/
def commitListing (U : Unicode) (snapshotId : ℕ) (folder : ProtonFolder)
    (children : List ListedNode) (db : ProtonDb) : Except WalkError (ProtonDb × List Str) := do
  let rows ← children.mapM (nodeRow U snapshotId folder children)
  let (db, queued) := rows.foldl insertChild (db, [])
  let db := updateFolder (snapshotId, folder.uid) (fun _ => .complete) id db
  return ({ db with commits := db.commits ++ [(snapshotId, folder.uid)] }, queued)

/-- `_note_failure`. -/
def noteFailure (snapshotId : ℕ) (folder : ProtonFolder) (category : Str) (db : ProtonDb) :
    ProtonDb :=
  updateFolder (snapshotId, folder.uid) id (fun _ => some category) db

/-- The `PENDING` rows of a snapshot. -/
def ProtonDb.pending (db : ProtonDb) (snapshotId : ℕ) : List ProtonFolder :=
  db.folders.rows.filter fun f => decide (f.snapshotId = snapshotId ∧ f.status = .pending)

/-- The newest snapshot of a purpose and a destination. -/
def ProtonDb.latest (db : ProtonDb) (purpose destination : Str) : Option ProtonSnapshot :=
  (db.snapshots.rows.filter fun s =>
    decide (s.purpose = purpose ∧ s.destinationRoot = destination)).argmax ProtonSnapshot.id

/-- The id SQLite gives a new snapshot. -/
def ProtonDb.nextId (db : ProtonDb) : ℕ := (db.snapshots.rows.map ProtonSnapshot.id).foldr max 0 + 1

/-- The queue row of the destination. -/
def rootFolder (snapshotId : ℕ) (destination : Str) : ProtonFolder where
  snapshotId := snapshotId
  uid := rootUid
  parentUid := none
  segments := []
  cliPath := destination
  status := .pending
  attemptCount := 0
  lastErrorCategory := none

/-- `_new_snapshot`: one transaction. -/
def insertSnapshot (purpose destination : Str) (db : ProtonDb) : ProtonDb :=
  { db with
    snapshots := db.snapshots.upsert Table.replace ⟨db.nextId, purpose, destination, .running⟩
    folders := db.folders.upsert Table.replace (rootFolder db.nextId destination) }

end Tables

/-- A listing under way: the worker, the folder's row, and the path listed. -/
structure Flight where
  worker : ℕ
  folder : ProtonFolder
  path : Str
  deriving DecidableEq, Repr

/-- The memory of `_Walk`. -/
structure Walk where
  queues : List (List Str)
  inFlight : List Flight
  listed : ℕ
  rescues : ℕ
  deriving DecidableEq, Repr

/-- What a listing comes to: children, exhausted retries with the category of the last,
an output that is no JSON array, or an exception. -/
inductive Answer
  | listed (children : List ListedNode)
  | failed (category : Str)
  | malformed
  | raised (kind : Str)
  deriving DecidableEq, Repr

/-- What `_collect` returns. -/
inductive Outcome
  | ok
  | auth
  | failed
  deriving DecidableEq, Repr

/-- One turn of the loop as the world decides it: which listings land first and in which
order the rest do, what each comes to, whether the deadline is past at either check, and
whether the sessions can be re-seeded. -/
structure Turn where
  done : List Flight → List Flight
  rest : List Flight → List Flight
  answer : Flight → Answer
  lateFirst : Bool
  lateLast : Bool
  reseeded : Bool
  done_subperm : ∀ l, List.Subperm (done l) l
  done_ne : ∀ l, l ≠ [] → done l ≠ []
  rest_perm : ∀ l, (rest l).Perm l

/-- What the walk is configured with. -/
structure WalkConfig where
  destination : Str
  purpose : Str
  workers : ℕ
  crc32 : Str → ℕ
  workers_pos : 0 < workers

section Loop

variable (U : Unicode) (cfg : WalkConfig) (snapshotId : ℕ)

/-- `_load_pending`. -/
def loadPending (db : ProtonDb) : Walk :=
  let rows := (db.pending snapshotId).insertionSort fun a b =>
    toLex (segmentsJson a.segments, a.uid) ≤ toLex (segmentsJson b.segments, b.uid)
  { queues := rows.foldl (fun queues f =>
      queues.modify (cfg.crc32 (f.segments.headD []) % cfg.workers) (· ++ [f.uid]))
      (List.replicate cfg.workers [])
    inFlight := []
    listed := 0
    rescues := 0 }

/-- The queue a worker takes from: its own, or `max(self.queues, key=len)` where its own
is empty. -/
def sourceQueue (queues : List (List Str)) (worker : ℕ) : ℕ :=
  if queues.getD worker [] = [] then Queues.longest queues else worker

/-- One worker of `_dispatch`. -/
def dispatchWorker (db : ProtonDb) (mem : Walk) (worker : ℕ) : Except WalkError Walk :=
  match mem.queues.getD (sourceQueue mem.queues worker) [] with
  | [] => .ok mem
  | uid :: _ =>
    match db.folders.find? (snapshotId, uid) with
    | none => .error .typeError
    | some folder => .ok { mem with
        queues := mem.queues.modify (sourceQueue mem.queues worker) List.tail
        inFlight := mem.inFlight ++ [⟨worker, folder, listPath cfg.destination folder⟩] }

/-- `_dispatch`. -/
def dispatch (db : ProtonDb) (mem : Walk) : Except WalkError Walk :=
  let busy := mem.inFlight.map Flight.worker
  ((List.range cfg.workers).filter fun w => decide (w ∉ busy)).foldlM
    (dispatchWorker cfg snapshotId db) mem

/-- The outcome after one more listing failed. -/
def Outcome.after (outcome : Outcome) (category : Str) : Outcome :=
  if category = "AUTH".toList ∧ outcome ≠ .failed then .auth
  else if category ≠ "AUTH".toList then .failed
  else outcome

/-- One listing of `_collect`. -/
def collectOne (answer : Flight → Answer) (acc : Walk × Outcome) (f : Flight) :
    Prog ProtonDb WalkError (Walk × Outcome) :=
  let mem := { acc.1 with inFlight := acc.1.inFlight.erase f }
  match answer f with
  | .raised kind => do
    Prog.write (noteFailure snapshotId f.folder kind)
    Prog.fail (.listing kind)
  | .failed category => do
    Prog.write (noteFailure snapshotId f.folder category)
    return ({ mem with queues := mem.queues.modify f.worker (f.folder.uid :: ·) },
      acc.2.after category)
  | .malformed => Prog.fail .notArray
  | .listed children => do
    let db ← Prog.get
    match commitListing U snapshotId f.folder children db with
    | .error e => Prog.fail e
    | .ok (db', queued) => do
      Prog.write fun _ => db'
      return ({ mem with
        queues := mem.queues.modify f.worker (· ++ queued), listed := mem.listed + 1 }, acc.2)

/-- `_collect`. -/
def collect (answer : Flight → Answer) (done : List Flight) (mem : Walk) :
    Prog ProtonDb WalkError (Walk × Outcome) :=
  done.foldlM (collectOne U snapshotId answer) (mem, .ok)

/-- `_rescue`. -/
def rescue (reseeded : Bool) (mem : Walk) : Prog ProtonDb WalkError Walk :=
  if mem.rescues + 1 > 3 then Prog.fail .unrecovered
  else if reseeded then return { mem with rescues := mem.rescues + 1 }
  else Prog.fail .session

/-- The listings under way land before anything is decided. -/
def drain (t : Turn) (mem : Walk) (first : Outcome) : Prog ProtonDb WalkError (Walk × Outcome) :=
  if first ≠ .ok ∨ t.lateFirst then do
    let (mem, drained) ← collect U snapshotId t.answer (t.rest mem.inFlight) mem
    return (mem, if first ≠ .ok then first else drained)
  else return (mem, first)

/-- What follows from the outcome of a turn: none where the deadline stops the walk. -/
def settleTurn (t : Turn) (mem : Walk) (outcome : Outcome) :
    Prog ProtonDb WalkError (Option Walk) := do
  match outcome with
  | .failed => Prog.fail .exhausted
  | .auth => do
    let mem ← rescue t.reseeded mem
    return if t.lateLast then none else some mem
  | .ok => return if t.lateLast then none else some mem

/-- A turn of the loop after its dispatch. -/
def walkTurn (t : Turn) (mem : Walk) : Prog ProtonDb WalkError (Option Walk) := do
  let (mem, first) ← collect U snapshotId t.answer (t.done mem.inFlight) mem
  let (mem, outcome) ← drain U snapshotId t mem first
  settleTurn t mem outcome

/-- How a walk ends: with every folder listed, at the deadline, or not within the turns
the world has decided so far. -/
inductive WalkEnd
  | finished
  | stopped
  | running
  deriving DecidableEq, Repr

/-- The dispatch of a turn. -/
def dispatchStep (mem : Walk) : Prog ProtonDb WalkError Walk := do
  let db ← Prog.get
  match dispatch cfg snapshotId db mem with
  | .error e => Prog.fail e
  | .ok mem => return mem

/-- The loop of `_Walk.run`. -/
def walkLoop : List Turn → Walk → Prog ProtonDb WalkError WalkEnd
  | [], mem => do
    let mem ← dispatchStep cfg snapshotId mem
    return if mem.inFlight = [] then .finished else .running
  | t :: turns, mem => do
    let mem ← dispatchStep cfg snapshotId mem
    if mem.inFlight = [] then return .finished
    else
      match ← walkTurn U snapshotId t mem with
      | none => return .stopped
      | some mem => walkLoop turns mem

/-- The `UPDATE` that closes a snapshot. -/
def completeSnapshot (db : ProtonDb) : ProtonDb :=
  { db with
    snapshots := db.snapshots.modify
      (fun s => if s.id = snapshotId then { s with status := .complete } else s)
      (fun s => by split <;> rfl) }

/-- `_close_snapshot`. -/
def closeSnapshot : Prog ProtonDb WalkError Unit := do
  let db ← Prog.get
  if db.folders.rows.any fun f => decide (f.snapshotId = snapshotId ∧ f.status ≠ .complete) then
    Prog.fail .incomplete
  else Prog.write (completeSnapshot snapshotId)

end Loop

/-- `_open_snapshot`: none where a complete walk may be reused. -/
def openSnapshot (cfg : WalkConfig) (reuseComplete : Bool) :
    Prog ProtonDb WalkError (Option ℕ) := do
  let db ← Prog.get
  match db.latest cfg.purpose cfg.destination with
  | none => do
    Prog.write (insertSnapshot cfg.purpose cfg.destination)
    return some db.nextId
  | some s =>
    match s.status with
    | .running => return some s.id
    | .complete =>
      if reuseComplete then return none
      else do
        Prog.write (insertSnapshot cfg.purpose cfg.destination)
        return some db.nextId

/-- `_Walk.run` and `_close_snapshot` of an open snapshot: `written` is whether the session's
last write-back succeeds. -/
def runWalk (U : Unicode) (cfg : WalkConfig) (snapshotId : ℕ) (turns : List Turn)
    (written : Bool) : Prog ProtonDb WalkError WalkEnd := do
  let db ← Prog.get
  match ← walkLoop U cfg snapshotId turns (loadPending cfg snapshotId db) with
  | .running => return .running
  | .stopped => if written then return .stopped else Prog.fail .session
  | .finished =>
    if written then do
      closeSnapshot snapshotId
      return .finished
    else Prog.fail .session

/-- `_latest_complete`. -/
def ProtonDb.latestComplete (db : ProtonDb) (purpose destination : Str) : Option ℕ :=
  ((db.snapshots.rows.filter fun s => decide
    (s.purpose = purpose ∧ s.destinationRoot = destination ∧ s.status = .complete)).map
      ProtonSnapshot.id).max?

/-- `inventory`: the snapshot's id, none while the walk still runs. -/
def walkInventory (U : Unicode) (cfg : WalkConfig) (reuseComplete : Bool) (turns : List Turn)
    (written : Bool) : Prog ProtonDb WalkError (Option ℕ) := do
  match ← openSnapshot cfg reuseComplete with
  | none => do
    let db ← Prog.get
    return db.latestComplete cfg.purpose cfg.destination
  | some snapshotId => do
    let stop ← runWalk U cfg snapshotId turns written
    return if stop = .running then none else some snapshotId

end DropboxMirror
