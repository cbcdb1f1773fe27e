import DropboxMirror.Model.Crypt
import DropboxMirror.Model.Statefile

/-!
# The state's files

`fetch` and `push` of `statefile.py` with the files they make: the snapshot, its compressed
and its encrypted form, and the key. What they come to for the bucket and the database is
`fetchState` and `pushState`.
-/

namespace DropboxMirror

open Text Crash

variable {β : Type}

/-- What outlives a kill, with the files made for one call. -/
structure Filed (β : Type) where
  durable : Durable β
  work : WorkDir StateDb

/-- A push with its files. -/
abbrev FiledStep (β α : Type) := Prog (Filed β) Failure α

/-- `paths.state_db`. -/
def stateFile : Str := "state.sqlite".toList

/-- `snapshot`. -/
def stateSnapshot : Str := "state.snapshot.sqlite".toList

/-- `compressed`. -/
def packedState : Str := "state.sqlite.xz".toList

/-- `encrypted`. -/
def sealedState : Str := "state.sqlite.xz.age".toList

/-- What a phase sees of an error of `crypt.py`. -/
def CryptError.failure : CryptError → Failure
  | .os => .os
  | _ => .provider

/-- A file that is written in one go, and stays where the write fails. -/
def writeWork {κ : Type} (name : Str) (file : WorkFile κ) :
    FileWrite → Prog (WorkDir κ) CryptError Unit
  | .done => writeFile name file
  | .refused => Prog.fail .os
  | .torn => do
    writeFile name file
    Prog.fail .os

/-- A step in the work directory. -/
def onFiles {α : Type} (p : Prog (WorkDir StateDb) CryptError α) : FiledStep β α :=
  p.zoom Filed.work (fun d f => { f with work := d }) CryptError.failure

/-- A call to the bucket. -/
def onDurable {α : Type} (p : DurableStep β α) : FiledStep β α :=
  p.zoom Filed.durable (fun d f => { f with durable := d }) id

/-- What a push meets: the snapshot, the compression, the encryption and the two calls. -/
structure PushEnv where
  snapshot : FileWrite
  compress : FileWrite
  encrypt : EncryptEnv
  put : Reply
  copy : Reply

/-- `push`. -/
def pushFiles (C : Codec β) (identity label : Str) (env : PushEnv) : FiledStep β Unit :=
  Prog.tryFinally (do
      let f ← Prog.get
      let s := f.durable.world.db
      onFiles (writeWork stateSnapshot (.plain s) env.snapshot)
      onFiles (writeWork packedState (.plain s) env.compress)
      onFiles (encrypt identity env.encrypt s sealedState)
      onDurable (bucketCall (Durable.upload label (C.pack s)) env.put)
      onDurable (bucketCall (Durable.copyState label) env.copy))
    (do
      onFiles (unlinkFile stateSnapshot)
      onFiles (unlinkFile packedState)
      onFiles (unlinkFile sealedState))

/-- What `fetch` returns. -/
inductive FetchOutcome
  | fresh
  | restored
  deriving DecidableEq, Repr

/-- What a `fetch` meets: the download, the decryption, the decompression, the write of the
database, and the two calls of a first run. -/
structure FetchFilesEnv where
  get : Bool
  decrypt : KeyedRun
  read : Bool
  write : FileWrite
  list : Bool
  probe : Bool

/-- A step that restores the database. -/
def onUnpack {α : Type} (p : Prog (WorkDir StateDb) CryptError α) : Prog (WorkDir StateDb) FetchError α :=
  p.zoom id (fun d _ => d) fun _ => .unpack

/-- `fetch`. -/
def fetchFiles (C : Codec β) (identity : Str) (env : FetchFilesEnv) (B : Bucket β) :
    Prog (WorkDir StateDb) FetchError FetchOutcome :=
  Prog.tryFinally
    (if env.get = false then Prog.fail .download
    else
      match B.get? stateKey with
      | none =>
        if env.list = false then Prog.fail .listing
        else if B.history ≠ [] then Prog.fail .lostState
        else if env.probe = false then Prog.fail .unreachable
        else return .fresh
      | some blob => do
        writeFile sealedState (.encrypted (C.unpack blob))
        Prog.tryFinally (do
            onUnpack (decrypt identity env.decrypt (C.unpack blob) packedState)
            if env.read = false then Prog.fail .unpack
            else onUnpack (writeWork stateFile (.plain (C.unpack blob)) env.write))
          (unlinkFile packedState)
        return .restored)
    (unlinkFile sealedState)

/-- `_fetch_state`: the local database is thrown away first. -/
def fetchLocal (C : Codec β) (identity : Str) (env : FetchFilesEnv) (B : Bucket β) :
    Prog (WorkDir StateDb) FetchError FetchOutcome := do
  unlinkFile stateFile
  fetchFiles C identity env B

end DropboxMirror
