import DropboxMirror.Model.Session
import DropboxMirror.Model.Walk

/-!
# The walk and its sessions

`_Walk.run` of `providers/proton_cli.py` with the copies of the session: where a listing asks
to log in, the walk adopts the copy written last and gives it to all workers. What the CLI
does to the session files in between is open.
-/

namespace DropboxMirror

open Text Crash Copies

variable {β δ : Type} {n : ℕ}

/-- The database and the sessions of a walk. -/
structure WalkSystem (β δ : Type) where
  db : ProtonDb
  sessions : SessionSystem β δ

/-- A turn of the walk, with what the listings under way do to the sessions before one is
collected, and what a write-back meets. Whether a rescue succeeds is not open here. -/
structure SessionTurn (n : ℕ) (β : Type) where
  turn : Turn
  touches : List (Touch n β)
  push : BundleEnv

namespace SessionSystem

/-- The session directory once the CLI has touched its session file. -/
def touchedDir (s : SessionSystem β δ) (u : Touch n β) : SessionDir β :=
  match u.copy s.now with
  | none => s.world.session.erase sessionFile
  | some f => s.world.session.set sessionFile f

/-- The CLI touches the session directory. -/
def touchMain (s : SessionSystem β δ) (u : Touch n β) : SessionSystem β δ :=
  { s.called (s.touchedDir u) with now := s.now + u.delay }

/-- What listings do to the sessions: to the copies of their workers, or to the session
directory where there are none. -/
def listing (us : List (Touch n β)) (s : SessionSystem β δ) : SessionSystem β δ :=
  match s.copies with
  | [] => us.foldl touchMain s
  | _ :: _ => { s with copies := touched s.now s.copies us, now := s.now + elapsed us }

end SessionSystem

/-- A statement about the database. -/
def onDb {α : Type} (p : Prog ProtonDb WalkError α) : Prog (WalkSystem β δ) WalkError α :=
  p.zoom WalkSystem.db (fun db st => { st with db }) id

/-- A step of the sessions. -/
def onSessions {α : Type} (p : Prog (SessionSystem β δ) SessionError α) :
    Prog (WalkSystem β δ) WalkError α :=
  p.zoom WalkSystem.sessions (fun sessions st => { st with sessions }) fun _ => .session

section Loop

variable [DecidableEq β] [DecidableEq δ] (U : Unicode) (cfg : WalkConfig) (snapshotId : ℕ)
  (identity : Str) (digest : β → δ)

/-- What follows from the outcome of a turn. -/
def settleSessions (t : SessionTurn n β) (mem : Walk) (outcome : Outcome) :
    Prog (WalkSystem β δ) WalkError (Option Walk) := do
  match outcome with
  | .failed => Prog.fail .exhausted
  | .auth =>
    if mem.rescues + 1 > 3 then Prog.fail .unrecovered
    else do
      onSessions (rescueSessions identity digest t.push)
      return if t.turn.lateLast then none else some { mem with rescues := mem.rescues + 1 }
  | .ok => return if t.turn.lateLast then none else some mem

/-- The listings of a turn, as they land. -/
def collectTurn (t : Turn) (mem : Walk) : Prog ProtonDb WalkError (Walk × Outcome) := do
  let (mem, first) ← collect U snapshotId t.answer (t.done mem.inFlight) mem
  drain U snapshotId t mem first

/-- A turn of the loop after its dispatch. -/
def sessionTurn (t : SessionTurn n β) (mem : Walk) :
    Prog (WalkSystem β δ) WalkError (Option Walk) := do
  Prog.write fun st => { st with sessions := st.sessions.listing t.touches }
  let (mem, outcome) ← onDb (collectTurn U snapshotId t.turn mem)
  settleSessions identity digest t mem outcome

/-- The loop of `_Walk.run`. -/
def sessionLoop : List (SessionTurn n β) → Walk → Prog (WalkSystem β δ) WalkError WalkEnd
  | [], mem => do
    let mem ← onDb (dispatchStep cfg snapshotId mem)
    return if mem.inFlight = [] then .finished else .running
  | t :: turns, mem => do
    let mem ← onDb (dispatchStep cfg snapshotId mem)
    if mem.inFlight = [] then return .finished
    else
      match ← sessionTurn U snapshotId identity digest t mem with
      | none => return .stopped
      | some mem => sessionLoop turns mem

/-- The `with` block of `_Walk.run`, up to the removal of the copies. -/
def sessionBody (turns : List (SessionTurn n β)) (push : BundleEnv) (mem : Walk) :
    Prog (WalkSystem β δ) WalkError WalkEnd := do
  match ← sessionLoop U cfg snapshotId identity digest turns mem with
  | .running => return .running
  | .stopped => do
    onSessions (leaveSessions identity digest push)
    return .stopped
  | .finished => do
    onSessions (leaveSessions identity digest push)
    return .finished

/-- `_Walk.run`. -/
def sessionWalk (turns : List (SessionTurn cfg.workers β)) (push : BundleEnv) :
    Prog (WalkSystem β δ) WalkError WalkEnd := do
  let st ← Prog.get
  Prog.write fun st => { st with
    sessions := { st.sessions with copies := enterSessions cfg.workers st.sessions.world.session } }
  (sessionBody U cfg snapshotId identity digest turns push (loadPending cfg snapshotId st.db)).tryFinally
    (Prog.write fun st => { st with sessions := { st.sessions with copies := [] } })

/-- `_Walk.run` and `_close_snapshot` of an open snapshot. -/
def runSessionWalk (turns : List (SessionTurn cfg.workers β)) (push : BundleEnv) :
    Prog (WalkSystem β δ) WalkError WalkEnd := do
  match ← sessionWalk U cfg snapshotId identity digest turns push with
  | .running => return .running
  | .stopped => return .stopped
  | .finished => do
    onDb (closeSnapshot snapshotId)
    return .finished

end Loop

section Runs

variable [DecidableEq β] [DecidableEq δ] (U : Unicode) (identity : Str) (digest : β → δ)

/-- **What the runs of the mirror do with the session**, on one machine after the other: a
process begins or is gone; the CLI is called and the session written back, which is answered,
times out (`_invoke` goes on then) or ends the process; Proton is walked, with any number of
turns; and a machine restores the session, or does not get that far. Each of these may be
cut short at any commit. -/
inductive SessionMove : SessionSystem β δ → SessionSystem β δ → Prop
  | begun (s : SessionSystem β δ) : SessionMove s s.ended
  | called (s : SessionSystem β δ) (dir : SessionDir β) (env : BundleEnv)
      (h : (afterCall identity digest env).result (s.called dir) = .ok ()) :
      SessionMove s ((afterCall identity digest env).final (s.called dir))
  | timedOut (s : SessionSystem β δ) (dir : SessionDir β) (env : BundleEnv)
      (h : (afterCall identity digest env).result (s.called dir) = .error (.crypt .timeout)) :
      SessionMove s ((afterCall identity digest env).final (s.called dir))
  | died (s t : SessionSystem β δ) (dir : SessionDir β) (env : BundleEnv)
      (h : t ∈ s.called dir :: (afterCall identity digest env (s.called dir)).states) :
      SessionMove s t.ended
  | walked (s : SessionSystem β δ) (db : ProtonDb) (cfg : WalkConfig) (snapshotId : ℕ)
      (turns : List (SessionTurn cfg.workers β)) (push : BundleEnv) (stop : WalkEnd)
      (h : (sessionWalk U cfg snapshotId identity digest turns push).result ⟨db, s⟩ = .ok stop)
      (hstop : stop ≠ .running) :
      SessionMove s ((sessionWalk U cfg snapshotId identity digest turns push).final ⟨db, s⟩).sessions
  | walkDied (s : SessionSystem β δ) (st : WalkSystem β δ) (db : ProtonDb) (cfg : WalkConfig)
      (snapshotId : ℕ) (turns : List (SessionTurn cfg.workers β)) (push : BundleEnv)
      (h : st ∈ (sessionWalk U cfg snapshotId identity digest turns push ⟨db, s⟩).states) :
      SessionMove s st.sessions.ended
  | restored (s : SessionSystem β δ) (machine : SessionWorld β δ) (env : RestoreEnv)
      (hbucket : machine.bucket = s.world.bucket)
      (h : (restore identity digest env).result machine = .ok ()) :
      SessionMove s (s.left ((restore identity digest env).final machine)).settled
  | unrestored (s : SessionSystem β δ) (machine t : SessionWorld β δ) (env : RestoreEnv)
      (hbucket : machine.bucket = s.world.bucket)
      (h : t ∈ machine :: (restore identity digest env machine).states) :
      SessionMove s (s.left t).ended

end Runs

end DropboxMirror
