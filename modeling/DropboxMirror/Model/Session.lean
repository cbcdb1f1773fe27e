import DropboxMirror.Lib.Copies
import DropboxMirror.Model.Crypt
import DropboxMirror.Model.Statefile

/-!
# The Proton session

`session.py`: the files of the CLI's session are restored from the bucket when a run starts
and written back after a call that changed them. A walk gives each worker a copy
(`WorkerSessions` of `providers/proton_cli.py`), and adopts the one that was refreshed.
-/

namespace DropboxMirror

open Text Crash Copies

variable {β δ : Type}

/-- The members of `session.tar`, with what they hold. -/
abbrev SessionBundle (β : Type) := List (Str × β)

/-- The files of a session directory. -/
abbrev SessionDir (β : Type) := Dict Str (Copy β)

/-- `SESSION_FILE`. -/
def sessionFile : Str := "auth-session.json".toList

/-- `SESSION_FILES`. -/
def sessionFiles : List Str := [sessionFile, "clientUid.json".toList]

/-- `tar_path`. -/
def sessionTar : Str := "session.tar".toList

/-- `encrypted`. -/
def sealedTar : Str := "session.tar.age".toList

/-- Why a call of `session.py` raises. -/
inductive SessionError
  | noSession
  | unexpectedMember
  | lacks (name : Str)
  | store
  | os
  | crypt (error : CryptError)
  deriving DecidableEq, Repr

/-- The text of its own errors. -/
def SessionError.message : SessionError → Option Str
  | .noSession => some "no Proton session in R2; run `task session-seal` after a laptop login".toList
  | .unexpectedMember => some "session bundle holds an unexpected member".toList
  | .lacks name => some ("session directory lacks ".toList ++ name)
  | .crypt error => error.message.map String.toList
  | _ => none

/-- The local session, the files made for one call, the object of `SESSION_KEY` in the
bucket, and `_last_digest` of the process. -/
structure SessionWorld (β δ : Type) where
  session : SessionDir β
  work : WorkDir (SessionBundle β)
  bucket : Option (SessionBundle β)
  lastDigest : Option δ

/-- A call of `session.py`. -/
abbrev SessionStep (β δ α : Type) := Prog (SessionWorld β δ) SessionError α

/-- What one `_bundle` meets: the archive, the encryption and the upload. -/
structure BundleEnv where
  tar : FileWrite
  encrypt : EncryptEnv
  put : Reply

/-- What one `restore` meets: the download, the decryption, the time, and the number of
members after which the extraction fails, if it does. -/
structure RestoreEnv where
  get : Bool
  decrypt : KeyedRun
  time : ℕ
  extracted : Option ℕ

/-- A call of `crypt.py`, or a file operation in the work directory. -/
def onWork {α : Type} (p : Prog (WorkDir (SessionBundle β)) CryptError α) : SessionStep β δ α :=
  p.zoom SessionWorld.work (fun d w => { w with work := d }) .crypt

/-- `_digest`. -/
def sessionDigest (digest : β → δ) (dir : SessionDir β) : Option δ :=
  (dir.get? sessionFile).map fun f => digest f.content

/-- The members `_bundle` adds. -/
def bundleOf (dir : SessionDir β) : SessionBundle β :=
  sessionFiles.filterMap fun name => (dir.get? name).map fun f => (name, f.content)

/-- The `finally` of `_bundle` and of `restore`. -/
def unlinkBoth (first second : Str) : SessionStep β δ Unit := do
  onWork (unlinkFile first)
  onWork (unlinkFile second)

/-- `store.put(encrypted, SESSION_KEY)`. -/
def putSession (members : SessionBundle β) : Reply → SessionStep β δ Unit
  | .done => Prog.write fun w => { w with bucket := some members }
  | .refused _ => Prog.fail .store
  | .lost _ => do
    Prog.write fun w => { w with bucket := some members }
    Prog.fail .store

/-- `tarfile.open(tar_path, "w")`, whose file stays where a write fails. -/
def writeTar (members : SessionBundle β) : FileWrite → SessionStep β δ Unit
  | .done => onWork (writeFile sessionTar (.plain members))
  | .refused => Prog.fail .os
  | .torn => do
    onWork (writeFile sessionTar (.plain members))
    Prog.fail .os

/-- `_bundle`. -/
def bundle (identity : Str) (source : SessionDir β) (env : BundleEnv) : SessionStep β δ Unit := do
  writeTar (bundleOf source) env.tar
  Prog.tryFinally (do
      onWork (encrypt identity env.encrypt (bundleOf source) sealedTar)
      putSession (bundleOf source) env.put)
    (unlinkBoth sessionTar sealedTar)

/-- `archive.extractall(paths.session)`. -/
def extractMembers (members : SessionBundle β) (env : RestoreEnv) : SessionStep β δ Unit := do
  let taken := match env.extracted with
    | none => members
    | some n => members.take n
  Prog.write fun w => { w with
    session := taken.foldl (fun dir m => dir.set m.1 ⟨m.2, env.time⟩) w.session }
  if env.extracted = none then return () else Prog.fail .os

/-- `restore`. -/
def restore (identity : Str) (digest : β → δ) (env : RestoreEnv) : SessionStep β δ Unit := do
  let w ← Prog.get
  if env.get = false then Prog.fail .store
  else
    match w.bucket with
    | none => Prog.fail .noSession
    | some members => do
      onWork (writeFile sealedTar (.encrypted members))
      Prog.tryFinally (do
          onWork (decrypt identity env.decrypt members sessionTar)
          if members.any fun m => !sessionFiles.contains m.1 then Prog.fail .unexpectedMember
          else extractMembers members env)
        (unlinkBoth sealedTar sessionTar)
      Prog.write fun w => { w with lastDigest := sessionDigest digest w.session }

variable [DecidableEq δ]

/-- `writeback`. -/
def writeback (identity : Str) (digest : β → δ) (env : BundleEnv) : SessionStep β δ Bool := do
  let w ← Prog.get
  match sessionDigest digest w.session with
  | none => return false
  | some current =>
    if w.lastDigest = some current then return false
    else do
      bundle identity w.session env
      Prog.write fun w => { w with lastDigest := some current }
      return true

omit [DecidableEq δ] in
/-- `seal`. -/
def sealSession (identity : Str) (source : SessionDir β) (env : BundleEnv) : SessionStep β δ Unit :=
  match sessionFiles.find? fun name => (source.get? name).isNone with
  | some name => Prog.fail (.lacks name)
  | none => bundle identity source env

section WorkerSessions

variable [DecidableEq β]

/-- `WorkerSessions.__enter__`: the copies, none where there is no session file. -/
def enterSessions (count : ℕ) (dir : SessionDir β) : List (Option (Copy β)) :=
  match dir.get? sessionFile with
  | none => []
  | some f => List.replicate count (some f)

/-- `promote`: whether another session was adopted, and the session directory. -/
def promote (t : ℕ) (dirs : List (Option (Copy β))) (dir : SessionDir β) : Bool × SessionDir β :=
  match newest dirs with
  | none => (false, dir)
  | some f =>
    if (dir.get? sessionFile).map Copy.content = some f.content then (false, dir)
    else (true, dir.set sessionFile ⟨f.content, t⟩)

omit [DecidableEq β] in
/-- `reseed`. -/
def reseed (t : ℕ) (dirs : List (Option (Copy β))) (dir : SessionDir β) : List (Option (Copy β)) :=
  match dir.get? sessionFile with
  | none => dirs
  | some f => dirs.map fun _ => some ⟨f.content, t⟩

end WorkerSessions

/-- The session of a run, with the copies of a walk, and the time. The last two are no part of
the program: the session whose write-back was answered last, and the sessions that the
session file has had since. -/
structure SessionSystem (β δ : Type) where
  world : SessionWorld β δ
  copies : List (Option (Copy β))
  now : ℕ
  answered : β
  since : List β

namespace SessionSystem

/-- The session file is written or deleted, or another machine is used. -/
def left (s : SessionSystem β δ) (world : SessionWorld β δ) : SessionSystem β δ :=
  { s with
    world
    since := s.since ++ ((world.session.get? sessionFile).map Copy.content).toList }

/-- The directory after a call of the CLI, which may have done anything with its files. -/
def called (s : SessionSystem β δ) (dir : SessionDir β) : SessionSystem β δ :=
  s.left { s.world with session := dir }

/-- The write-back of the session file is answered. -/
def settled (s : SessionSystem β δ) : SessionSystem β δ :=
  match s.world.session.get? sessionFile with
  | none => s
  | some f => { s with answered := f.content, since := [] }

/-- The process is gone, and `_last_digest` with it. -/
def ended (s : SessionSystem β δ) : SessionSystem β δ :=
  { s with world := { s.world with lastDigest := none } }

end SessionSystem

section Walk

variable [DecidableEq β] (identity : Str) (digest : β → δ)

/-- The write-back of a phase: `after_call`. -/
def afterCall (env : BundleEnv) : Prog (SessionSystem β δ) SessionError Unit := do
  let _ ← (writeback identity digest env).zoom SessionSystem.world (fun w s => { s with world := w }) id
  Prog.write SessionSystem.settled

omit [DecidableEq δ] in
/-- `sessions.promote()`. -/
def promoteCopies : Prog (SessionSystem β δ) SessionError Bool := do
  let s ← Prog.get
  let adopted := promote s.now s.copies s.world.session
  if adopted.1 then do
    Prog.write fun s => { s.called adopted.2 with now := s.now + 1 }
    return true
  else return false

/-- `_rescue`, without its count. -/
def rescueSessions (env : BundleEnv) : Prog (SessionSystem β δ) SessionError Unit := do
  if ← promoteCopies then afterCall identity digest env
  Prog.write fun s => { s with now := s.now + 1, copies := reseed s.now s.copies s.world.session }

/-- `if sessions.promote() or not sessions.dirs: self.p._after()`. -/
def leaveSessions (env : BundleEnv) : Prog (SessionSystem β δ) SessionError Unit := do
  let adopted ← promoteCopies
  let s ← Prog.get
  if adopted = true ∨ s.copies = [] then afterCall identity digest env else return ()

end Walk

end DropboxMirror
