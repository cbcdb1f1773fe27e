import DropboxMirror.Lib.Retrying
import DropboxMirror.Model.Proton
import DropboxMirror.Model.Retry

/-!
# Calls of the Proton CLI

`ProtonCLIProvider` of `providers/proton_cli.py`: a command is retried under exponential
backoff (`_invoke`), a mutation is run once, and each call leaves its row in `commands` and
what it logs. `root_uid` checks the destination before a phase changes anything in it.

What a call comes to is given: the CLI's exit, and how the write-back after it ends. One that
takes too long is taken for a call that does.
-/

namespace DropboxMirror

open Text Crash

/-- The level of a log event. -/
inductive LogLevel
  | info
  | warning
  | error
  deriving DecidableEq, Repr

/-- A call of the logger. -/
structure LogCall where
  level : LogLevel
  phase : String
  operation : String
  message : Str
  retryCount : Option ℕ
  providerCategory : Option Str
  rawError : Option Str
  deriving DecidableEq, Repr

/-- A row of `commands`; a call that has not ended has no exit code. -/
structure CommandRow where
  id : ℕ
  phaseRunId : Option ℕ
  provider : String
  operation : String
  argv : List Str
  attempt : ℕ
  exitCode : Option ℤ
  responseCategory : Option Str
  deriving DecidableEq, Repr

/-- A row of `identity_observations`. -/
structure IdentityObservation where
  id : ℕ
  phaseRunId : Option ℕ
  provider : String
  operation : String
  expectedIdentifier : Str
  observedIdentifier : Str
  matched : Bool
  deriving DecidableEq, Repr

/-- What the calls of a process leave: two tables, what was logged, and the waits. -/
structure Ledger where
  phaseRunId : Option ℕ
  commands : Table CommandRow.id
  observations : Table IdentityObservation.id
  log : List LogCall
  slept : List ℚ

/-- `[proton]` of the configuration, as `validate_config` lets it through. -/
structure ProtonConfig where
  executable : Str
  destination : Str
  expectedDestinationUid : Str
  listMaxAttempts : ℕ
  initialBackoffSeconds : ℚ
  maximumBackoffSeconds : ℚ
  commandTimeoutSeconds : ℚ
  transferTimeoutSeconds : ℚ
  initialBackoff_nonneg : 0 ≤ initialBackoffSeconds
  maximumBackoff_pos : 0 < maximumBackoffSeconds

/-- What `subprocess.run` comes to; it raises where the executable cannot be started. -/
inductive CliReply
  | exited (code : ℤ) (stdout stderr : Str)
  | timedOut (stderr : Str)
  | raised
  deriving DecidableEq, Repr

/-- How `_after` ends; where a command of `crypt.py` takes too long, with what it printed. -/
inductive WriteBack
  | done
  | timedOut (stderr : Str)
  | raised
  deriving DecidableEq, Repr

/-- One call of the CLI, and the write-back after it. -/
structure CliCall where
  reply : CliReply
  written : WriteBack
  deriving DecidableEq, Repr

/-- What the call comes to for `except subprocess.TimeoutExpired`: the `finally` has the last
word. -/
def CliCall.seen (writeback : Bool) (call : CliCall) : CliReply :=
  match writeback, call.written with
  | true, .timedOut stderr => .timedOut stderr
  | _, _ => call.reply

/-- What the calls of a command come to, in their order. -/
def seenBy (writeback : Bool) (calls : ℕ → CliCall) : ℕ → CliReply := fun n => (calls n).seen writeback

/-- Why a call raises. -/
inductive CliError
  | run
  | writeback
  | auth (operation : String)
  | exhausted (operation : String)
  | invalidJson (operation : String)
  | timedOut (operation : String)
  | failed (operation : String) (category stderr : Str)
  | destination (error : CliPathError)
  | parentNotArray
  | notArray
  | unresolved (nameMatches entries : ℕ)
  | uidMismatch
  deriving DecidableEq, Repr

/-- The text of a `ProtonCLIError`; what `subprocess.run` and the write-back raise is none. -/
def CliError.message : CliError → Option Str
  | .auth operation => some ("Proton " ++ operation ++ " failed (AUTH)").toList
  | .exhausted operation => some ("Proton " ++ operation ++ " exhausted retries").toList
  | .invalidJson operation => some ("Proton " ++ operation ++ " returned invalid JSON").toList
  | .timedOut operation => some ("Proton " ++ operation ++ " timed out").toList
  | .failed operation category stderr =>
    some (("Proton " ++ operation ++ " failed (").toList ++ category ++ "): ".toList ++ stderr)
  | .destination error => some error.message.toList
  | .parentNotArray => some "Proton destination parent listing was not a JSON array".toList
  | .notArray => some "Proton filesystem list was not a JSON array".toList
  | .unresolved nameMatches entries =>
    some ("configured Proton destination did not resolve to exactly one folder: " ++
      toString nameMatches ++ " name match(es) among " ++ toString entries ++
      " entries of the parent").toList
  | .uidMismatch =>
    some "configured Proton destination UID did not exactly match the listing".toList
  | _ => none

/-- A step of the provider. -/
abbrev CliStep (α : Type) := Prog Ledger CliError α

section Ledger

/-- `record_command_start`: the id of the new row. -/
def startCommand (operation : String) (argv : List Str) (attempt : ℕ) : CliStep ℕ := do
  let l ← Prog.get
  Prog.write fun l => { l with
    commands := l.commands.upsert Table.ignore
      ⟨l.commands.nextKey, l.phaseRunId, "proton", operation, argv, attempt, none, none⟩ }
  return l.commands.nextKey

/-- `record_command_end`. -/
def endCommand (id : ℕ) (exitCode : ℤ) (category : Str) : CliStep Unit :=
  Prog.write fun l => { l with
    commands := l.commands.modify (fun r =>
      if r.id = id then { r with exitCode := some exitCode, responseCategory := some category }
      else r) (fun r => by split <;> rfl) }

/-- A call of the logger. -/
def logCall (call : LogCall) : CliStep Unit := Prog.write fun l => { l with log := l.log ++ [call] }

/-- `self.sleep`. -/
def pause (seconds : ℚ) : CliStep Unit := Prog.write fun l => { l with slept := l.slept ++ [seconds] }

/-- `record_identity_observation`. -/
def observeIdentity (operation : String) (expected observed : Str) (isMatch : Bool) : CliStep Unit :=
  Prog.write fun l => { l with
    observations := l.observations.upsert Table.ignore
      ⟨l.observations.nextKey, l.phaseRunId, "proton", operation, expected, observed, isMatch⟩ }

end Ledger

/-- The category of a success. -/
def successCategory : Str := "SUCCESS".toList

/-- The category of a dead session. -/
def authCategory : Str := "AUTH".toList

/-- The category of a call that took too long. -/
def timeoutCategory : Str := "TIMEOUT".toList

/-- `_category`. -/
def category (U : Unicode) (stderr : Str) (returncode : ℤ) : Str :=
  let lowered := U.casefold stderr
  if "rate".toList <:+: lowered ∨ "429".toList <:+: lowered then "RATE_LIMIT".toList
  else if "auth".toList <:+: lowered ∨ "login".toList <:+: lowered then authCategory
  else if "timeout".toList <:+: lowered then timeoutCategory
  else ("EXIT_" ++ toString returncode).toList

/-- The category of an exit. -/
def exitCategory (U : Unicode) (stderr : Str) (returncode : ℤ) : Str :=
  if returncode = 0 then successCategory else category U stderr returncode

/-- `Attempt`. -/
structure CliAttempt where
  argv : List Str
  attempt : ℕ
  returncode : ℤ
  category : Str
  stdout : Str
  stderr : Str
  deriving DecidableEq, Repr

/-- The record of an attempt that was not interrupted. -/
def attemptRecord (U : Unicode) (argv : List Str) (attempt : ℕ) : CliReply → CliAttempt
  | .exited code stdout stderr =>
    ⟨argv, attempt, code, exitCategory U stderr code, stdout, lastChars stderr⟩
  | _ => ⟨argv, attempt, -1, timeoutCategory, [], []⟩

/-- `self.run`, and the write-back behind it. -/
def runCli (writeback : Bool) (call : CliCall) : CliStep CliReply :=
  if writeback = true ∧ call.written = .raised then Prog.fail .writeback
  else
    match call.seen writeback with
    | .raised => Prog.fail .run
    | reply => return reply

/-- What `_log_attempt` logs. -/
def attemptLog (phase operation : String) (record : CliAttempt) : Option LogCall :=
  if record.category = successCategory then none
  else if record.category = timeoutCategory then
    some ⟨.warning, phase, operation, "Proton CLI operation timed out and will be retried".toList,
      some record.attempt, some timeoutCategory, none⟩
  else if record.category = authCategory then
    -- a dead session is no transient failure: it stops the phase
    some ⟨.error, phase, operation, "Proton CLI operation failed on authentication".toList,
      some record.attempt, some authCategory, some record.stderr⟩
  else
    some ⟨.warning, phase, operation, "Proton CLI operation failed and will be retried".toList,
      some record.attempt, some record.category, some record.stderr⟩

/-- `_log_attempt`. -/
def logAttempt (phase operation : String) (record : CliAttempt) : CliStep Unit :=
  match attemptLog phase operation record with
  | none => return ()
  | some call => logCall call

/-- `on_start` and `on_end` of `_json_command`. -/
structure Observer where
  phase : String
  operation : String

/-- `on_start(argv, attempt) if on_start else 0`. -/
def Observer.start (observer : Option Observer) (argv : List Str) (attempt : ℕ) : CliStep ℕ :=
  match observer with
  | none => return 0
  | some o => startCommand o.operation argv attempt

/-- `on_end`. -/
def Observer.finish (observer : Option Observer) (token : ℕ) (record : CliAttempt) : CliStep Unit :=
  match observer with
  | none => return ()
  | some o => do
    endCommand token record.returncode record.category
    logAttempt o.phase o.operation record

section Invoke

variable (U : Unicode) (cfg : ProtonConfig)

/-- One attempt of `_invoke`; the loop carries the next wait and the attempts made. -/
def invokeAttempt (argv : List Str) (attempts : ℕ) (writeback : Bool) (observer : Option Observer)
    (calls : ℕ → CliCall) (n : ℕ) (d : ℚ × List CliAttempt) :
    CliStep ((Option Str × List CliAttempt) ⊕ (ℚ × List CliAttempt)) := do
  let token ← Observer.start observer argv n
  let reply ← runCli writeback (calls n)
  let record := attemptRecord U argv n reply
  let made := d.2 ++ [record]
  Observer.finish observer token record
  if record.category = successCategory then return .inl (some record.stdout, made)
  else if record.category = authCategory ∨ n = attempts then return .inl (none, made)
  else do
    pause d.1
    return .inr (min (d.1 * 2) cfg.maximumBackoffSeconds, made)

/-- `_invoke`. -/
def invoke (argv : List Str) (attempts : ℕ) (writeback : Bool) (observer : Option Observer)
    (calls : ℕ → CliCall) : CliStep (Option Str × List CliAttempt) := do
  match ← Prog.retry (invokeAttempt U cfg argv attempts writeback observer calls) attempts 1
      (cfg.initialBackoffSeconds, []) with
  | some r => return r
  | none => return (none, [])

/-- `_record`. -/
def recordAttempts (phase operation : String) (records : List CliAttempt) : CliStep Unit :=
  records.foldlM (fun _ record => do
    let id ← startCommand operation record.argv record.attempt
    endCommand id record.returncode record.category
    logAttempt phase operation record) ()

/-- `_parse`; `decode` is `json.loads`. -/
def parseOutput {γ : Type} (decode : Str → Option γ) (operation : String) (stdout : Option Str)
    (made : List CliAttempt) : CliStep γ :=
  match stdout with
  | none =>
    if (made.getLast?.map CliAttempt.category) = some authCategory then Prog.fail (.auth operation)
    else Prog.fail (.exhausted operation)
  | some text =>
    match decode text with
    | none => Prog.fail (.invalidJson operation)
    | some value => return value

/-- `_json_command`. -/
def jsonCommand {γ : Type} (decode : Str → Option γ) (phase operation : String) (argv : List Str)
    (attempts : ℕ) (calls : ℕ → CliCall) : CliStep γ := do
  let (stdout, made) ← invoke U cfg argv attempts true (some ⟨phase, operation⟩) calls
  parseOutput decode operation stdout made

end Invoke

/-- The JSON of a listing: an array, whose entries that are no objects are `none`, or another
value. -/
abbrev ListingJson := Option (List (Option ProtonNode))

section Destination

variable (U : Unicode) (cfg : ProtonConfig) (decode : Str → Option ListingJson)

/-- The entries of the parent that have the destination's name. -/
def nameMatches (escapedName : Str) (entries : List (Option ProtonNode)) : List ProtonNode :=
  (entries.filterMap id).filter fun node => node.name.any fun name => escapeComponent name = escapedName

/-- `root_uid`. -/
def rootUidCheck (phase : String) (calls : ℕ → CliCall) : CliStep Str :=
  match splitParentPath cfg.destination with
  | .error e => Prog.fail (.destination e)
  | .ok (parentPath, escapedName) => do
    let listing ← jsonCommand U cfg decode phase "filesystem_list_destination_parent"
      [cfg.executable, "filesystem".toList, "list".toList, "-j".toList, parentPath]
      cfg.listMaxAttempts calls
    match listing with
    | none => Prog.fail .parentNotArray
    | some entries =>
      match nameMatches escapedName entries with
      | [node] =>
        if node.type ≠ some "folder".toList then Prog.fail (.unresolved 1 entries.length)
        else do
          let observed := node.uid.join.getD []
          let isMatch := decide (observed = cfg.expectedDestinationUid)
          observeIdentity phase cfg.expectedDestinationUid observed isMatch
          if isMatch then return observed else Prog.fail .uidMismatch
      | found => Prog.fail (.unresolved found.length entries.length)

/-- The check that a listing is an array. -/
def listingArray : ListingJson → CliStep (List (Option ProtonNode))
  | none => Prog.fail .notArray
  | some entries => return entries

/-- `list_folder`. -/
def listFolder (path : Str) (phase : String) (calls : ℕ → CliCall) : CliStep (List (Option ProtonNode)) := do
  let result ← jsonCommand U cfg decode phase "filesystem_list"
    [cfg.executable, "filesystem".toList, "list".toList, "-j".toList, path] cfg.listMaxAttempts calls
  listingArray result

/-- What `_collect` makes of a listing: its children, or the category of the last attempt. -/
inductive WorkerListing
  | listed (children : List (Option ProtonNode))
  | failed (category : Str)

/-- The attempts of a listing as `_collect` takes them: one without an output is noted and queued
again under the category of its last attempt. -/
def collectListing (stdout : Option Str) (made : List CliAttempt) : CliStep WorkerListing :=
  match stdout with
  | none => return .failed ((made.getLast?.map CliAttempt.category).getD "EXIT_?".toList)
  | some text => do
    let result ← parseOutput decode "filesystem_list" (some text) made
    let children ← listingArray result
    return .listed children

/-- A listing of the walk: `_invoke` in a worker, `_record` and the rest of `_collect` on the main
thread. -/
def workerListing (path : Str) (phase : String) (calls : ℕ → CliCall) : CliStep WorkerListing := do
  let (stdout, made) ← invoke U cfg
    [cfg.executable, "filesystem".toList, "list".toList, "-j".toList, path] cfg.listMaxAttempts false none
    calls
  recordAttempts phase "filesystem_list" made
  collectListing decode stdout made

end Destination

section Mutation

variable (U : Unicode) (cfg : ProtonConfig)

/-- `_mutation`. -/
def mutation (phase operation : String) (argv : List Str) (accepted : List ℤ) (call : CliCall) :
    CliStep Str := do
  let commandId ← startCommand operation argv 1
  let timeout := if operation = "upload" then cfg.transferTimeoutSeconds else cfg.commandTimeoutSeconds
  match ← runCli true call with
  | .exited code stdout stderr => do
    let category := exitCategory U stderr code
    endCommand commandId code category
    if code ∉ accepted ∨ category = authCategory then do
      logCall ⟨.error, phase, operation, "official Proton CLI mutation failed".toList, none,
        some category, some (lastChars stderr)⟩
      Prog.fail (.failed operation category (lastChars stderr))
    else if code ≠ 0 then do
      logCall ⟨.warning, phase, operation, ("official Proton CLI mutation exited " ++ toString code ++
        " and was accepted").toList, none, some category, some (lastChars stderr)⟩
      return stdout
    else return stdout
  | .timedOut stderr => do
    endCommand commandId (-1) timeoutCategory
    logCall ⟨.error, phase, operation, ("official Proton CLI mutation timed out after " ++
      toString ⌊timeout⌋ ++ " s").toList, none, some timeoutCategory, some (lastChars stderr)⟩
    Prog.fail (.timedOut operation)
  | .raised => Prog.fail .run

/-- `upload_tree`. -/
def uploadTree (sources : List Str) (destination : Str) (phase : String) (call : CliCall) : CliStep Str :=
  mutation U cfg phase "upload"
    ([cfg.executable, "filesystem".toList, "upload".toList, "-f".toList, "create-new-revision".toList,
      "-d".toList, "merge".toList, "--json".toList, "--skip-thumbnails".toList] ++ sources ++ [destination])
    [0, 1] call

/-- `trash`. -/
def trashNodes (cliPaths : List Str) (phase : String) (call : CliCall) : CliStep Unit :=
  if cliPaths = [] then return ()
  else do
    let _ ← mutation U cfg phase "trash"
      ([cfg.executable, "filesystem".toList, "trash".toList] ++ cliPaths) [0] call

/-- `empty_trash`. -/
def emptyTrash (phase : String) (call : CliCall) : CliStep Unit := do
  let _ ← mutation U cfg phase "empty_trash"
    [cfg.executable, "filesystem".toList, "empty-trash".toList] [0] call

/-- What `80_empty_trash` returns. -/
inductive EmptyTrashOutputs
  | planned
  | emptied
  deriving DecidableEq, Repr

/-- `run` of `p80_empty_trash.py`. -/
def emptyTrashPhase (decode : Str → Option ListingJson) (apply : Bool) (listing : ℕ → CliCall)
    (call : CliCall) : CliStep EmptyTrashOutputs :=
  if apply = false then return .planned
  else do
    let _ ← rootUidCheck U cfg decode "80_empty_trash" listing
    emptyTrash U cfg "80_empty_trash" call
    logCall ⟨.info, "80_empty_trash", "gate", "Proton trash emptied by operator request".toList, none,
      none, none⟩
    return .emptied

end Mutation

end DropboxMirror
