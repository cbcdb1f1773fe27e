import DropboxMirror.Lib.Json
import DropboxMirror.Model.Inventory
import DropboxMirror.Model.Pool

/-!
# One download with its retries

`DropboxAPIProvider.download` of `providers/dropbox_api.py`, with `_write_download`,
`_download_wait` and `_path_not_found`: at most `max_attempts` requests, where a dropped
connection and some statuses are waited out and everything else raises.

Each file operation is a commit: the parents, the part file as it is opened, each chunk of
it, its rename and its removal. A request is a commit too, and the state keeps the requests
with what came of each.
-/

namespace DropboxMirror

open Text Crash

/-- The floats of a wait, and what `time.sleep` takes. -/
structure Clock (Seconds : Type) where
  /-- `float(text)`; none is its `ValueError`. -/
  parse : Str → Option Seconds
  /-- `60.0`. -/
  minute : Seconds
  /-- `max(0.0, x)`. -/
  nonnegative : Seconds → Seconds
  /-- `x * 2`. -/
  double : Seconds → Seconds
  /-- `min(x, y)`. -/
  least : Seconds → Seconds → Seconds
  /-- `bool(x)`. -/
  truthy : Seconds → Bool
  /-- Whether the sleep returns; it raises for what is too long for the system's clock. -/
  sleeps : Seconds → Bool

/-- `[dropbox]` of the configuration, as far as a download reads it. -/
structure DownloadSettings (Seconds : Type) where
  maxAttempts : ℕ
  initialBackoffSeconds : Seconds
  maximumBackoffSeconds : Seconds
  minimumCallIntervalSeconds : Seconds

/-- A `requests.Response`. -/
structure Response where
  statusCode : ℕ
  /-- What `iter_content` yields. -/
  chunks : List Bytes
  /-- The `RequestException` that ends the stream, where the connection drops. -/
  dropped : Option Str
  /-- `text`, or the `RequestException` of reading it. -/
  text : Except Str Str
  /-- The header `Retry-After`. -/
  retryAfter : Option Str
  /-- `json()`; none is its `ValueError`. -/
  json : Option Json.Value

/-- What comes of a request: a `RequestException`, or a response. -/
inductive RequestOutcome
  | failed (error : Str)
  | answered (response : Response)

/-- What a download raises. -/
inductive DownloadError
  | notFound
  | api (message : Str)
  | request (error : Str)
  | os
  | value
  | sleep
  | unreachable
  deriving DecidableEq, Repr

/-- `RetryEvent`. -/
structure RetryEvent (Seconds : Type) where
  message : String
  retryCount : ℕ
  providerCategory : String
  rawError : Str
  waitSeconds : Option Seconds
  deriving DecidableEq, Repr

/-- The requests made, with what came of each. -/
abbrev RequestLog : Type := List (ApiRequest × RequestOutcome)

/-- The disk, and the requests made. -/
structure Downloading where
  disk : Staging
  requests : RequestLog

/-- A file operation: a commit, or an `OSError`. -/
def onDisk (f : Staging → Option Staging) : Prog Downloading DownloadError Unit := do
  let d ← Prog.get
  match f d.disk with
  | none => Prog.fail .os
  | some disk => Prog.write fun d => { d with disk }

/-- `with_name` in `_part_file`, which raises for a path without a name. -/
def partName (target : List Str) : Prog Downloading DownloadError (List Str) :=
  if target = [] then Prog.fail .value else return partFile target

/-- `handle.write(chunk)`. -/
def Staging.append (s : Staging) (path : List Str) (chunk : Bytes) : Option Staging :=
  (s.files.get? path).bind fun body => s.put path (body ++ chunk)

/-- `unlink(missing_ok=True)` of the part file, which fails where a parent is a file. -/
def Staging.dropPart (s : Staging) (target : List Str) : Option Staging :=
  if (target.dropLast.inits.filter fun p => decide (p ≠ [])).any fun p => (s.files.get? p).isSome then
    none
  else s.removePart target

/-- A chunk of the body. -/
def writeChunk (tmp : List Str) (_ : Unit) (chunk : Bytes) : Prog Downloading DownloadError Unit :=
  if chunk = [] then return () else onDisk (·.append tmp chunk)

/-- `_write_download`. -/
def writeDownload (response : Response) (target : List Str) : Prog Downloading DownloadError Unit := do
  onDisk (·.mkdirs target.dropLast)
  let tmp ← partName target
  onDisk (·.put tmp [])
  response.chunks.foldlM (writeChunk tmp) ()
  match response.dropped with
  | some error => Prog.fail (.request error)
  | none => onDisk (·.replacePart target)

/-- `_path_not_found`. -/
def pathNotFound (response : Response) : Bool :=
  match response.json.bind fun body => (body.get? "error".toList).bind fun error =>
    (error.get? "path".toList).bind fun path => path.get? ".tag".toList with
  | some (.str tag) => tag = Json.codes "not_found".toList
  | _ => false

/-- `text[-4000:]`. -/
def lastChars (text : Str) : Str := text.drop (text.length - 4000)

section Retries

variable {Seconds : Type} (clock : Clock Seconds) (settings : DownloadSettings Seconds)

/-- `_download_wait`: the category, the wait and the next delay. -/
def downloadWait (response : Response) (delay : Seconds) :
    Except DownloadError (String × Seconds × Seconds) := do
  let safeError ← (response.text.map lastChars).mapError DownloadError.request
  if response.statusCode = 409 then
    if pathNotFound response then .error .notFound
    else .error (.api ("Dropbox download failed with HTTP 409: ".toList ++ safeError))
  else if response.statusCode = 429 then
    let wait := match clock.parse (response.retryAfter.getD "60".toList) with
      | some wait => clock.nonnegative wait
      | none => clock.minute
    return ("RATE_LIMIT", wait, delay)
  else if response.statusCode ∈ [500, 502, 503, 504] then
    return ("HTTP_" ++ toString response.statusCode, delay,
      clock.least (clock.double delay) settings.maximumBackoffSeconds)
  else .error (.api (("Dropbox download failed with HTTP " ++ toString response.statusCode ++
    ": ").toList ++ safeError))

/-- `self.sleep`. -/
def sleepFor (seconds : Seconds) : Prog Downloading DownloadError Unit :=
  if clock.sleeps seconds then return () else Prog.fail .sleep

/-- `_throttle`. -/
def throttle : Prog Downloading DownloadError Unit :=
  if clock.truthy settings.minimumCallIntervalSeconds then
    sleepFor clock settings.minimumCallIntervalSeconds
  else return ()

/-- Where the `try` block of an attempt leaves: the download is done, another status than
200 came, or a `RequestException` did. -/
inductive Tried
  | done
  | status (response : Response)
  | dropped (error : Str)

/-- Raises the error. -/
def orRaise {α : Type} : Except DownloadError α → Prog Downloading DownloadError α
  | .ok a => return a
  | .error error => Prog.fail error

/-- The `try` block. -/
def tryDownload (pathLower : Str) (target : List Str) (outcome : RequestOutcome) :
    Prog Downloading DownloadError Tried := do
  Prog.write fun d => { d with requests := d.requests ++ [(downloadRequest pathLower, outcome)] }
  match outcome with
  | .failed error => Prog.fail (.request error)
  | .answered response =>
    if response.statusCode = 200 then do
      writeDownload response target
      throttle clock settings
      return .done
    else return .status response

/-- `except requests.RequestException`. -/
def exceptRequest : DownloadError → Prog Downloading DownloadError Tried
  | .request error => return .dropped error
  | error => Prog.fail error

/-- The end of an attempt that is not the last: the next delay, and the event. -/
def sleepOrRaise (attempt : ℕ) (message : Str) (wait delay : Seconds) (event : RetryEvent Seconds) :
    Prog Downloading DownloadError (Option (Seconds × RetryEvent Seconds)) :=
  if attempt = settings.maxAttempts then Prog.fail (.api message)
  else do
    sleepFor clock wait
    return some (delay, event)

/-- One attempt: none where it returns. -/
def downloadAttempt (pathLower : Str) (target : List Str) (attempt : ℕ) (outcome : RequestOutcome)
    (delay : Seconds) : Prog Downloading DownloadError (Option (Seconds × RetryEvent Seconds)) := do
  match ← (tryDownload clock settings pathLower target outcome).catchError exceptRequest with
  | .done => return none
  | .dropped error => do
    let _ ← partName target
    onDisk (·.dropPart target)
    sleepOrRaise clock settings attempt "Dropbox download exhausted network retries".toList delay
      (clock.least (clock.double delay) settings.maximumBackoffSeconds)
      ⟨"Dropbox download request failed", attempt, "NETWORK", error, none⟩
  | .status response => do
    let (category, wait, next) ← orRaise (downloadWait clock settings response delay)
    let text ← orRaise (response.text.mapError DownloadError.request)
    sleepOrRaise clock settings attempt ("Dropbox download exhausted retries after " ++ category).toList
      wait next ⟨"Dropbox download will be retried", attempt, category, lastChars text, some wait⟩

/-- The attempts that are left, from one of them on. -/
def downloadFrom (pathLower : Str) (target : List Str) (outcome : ℕ → RequestOutcome) :
    ℕ → ℕ → Seconds → List (RetryEvent Seconds) →
      Prog Downloading DownloadError (List (RetryEvent Seconds))
  | 0, _, _, _ => Prog.fail .unreachable
  | left + 1, attempt, delay, events => do
    match ← downloadAttempt clock settings pathLower target attempt (outcome attempt) delay with
    | none => return events
    | some (delay, event) =>
      downloadFrom pathLower target outcome left (attempt + 1) delay (events ++ [event])

/-- `DropboxAPIProvider.download`; `outcome` is what comes of each attempt, counted from one. -/
def download (pathLower : Str) (target : List Str) (outcome : ℕ → RequestOutcome) :
    Prog Downloading DownloadError (List (RetryEvent Seconds)) :=
  downloadFrom clock settings pathLower target outcome settings.maxAttempts 1
    settings.initialBackoffSeconds []

/-- `_download` of `fetch`, which makes the parents first. -/
def fetchDownload (pathLower : Str) (target : List Str) (outcome : ℕ → RequestOutcome) :
    Prog Downloading DownloadError (List (RetryEvent Seconds)) := do
  onDisk (·.mkdirs target.dropLast)
  download clock settings pathLower target outcome

end Retries

/-- What the pool sees of the end of a download. -/
def DownloadError.landed : DownloadError → Landed
  | .notFound => .gone
  | .os => .failed .os
  | _ => .failed .provider

end DropboxMirror
