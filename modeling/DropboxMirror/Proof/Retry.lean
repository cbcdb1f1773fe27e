import DropboxMirror.Model.Retry
import DropboxMirror.Proof.Folders

/-!
# A download is all or nothing

The body streams into the part file, and only a body that came whole is renamed to the
target. So up to the rename an attempt leaves the target as it was, whatever ends it
(`writeDownload_triple`), and the loop starts each attempt with the target untouched and no
body accepted (`downloadAttempt_triple`).

* `download_all_or_nothing`: the requests, the target at every commit, and both ends.
-/

namespace DropboxMirror

open Text Crash

variable {s s' : Staging} {t p q : List Str} {body : Bytes}

section Entry

/-- What is at a path: the bytes of a file, and whether it is a directory. -/
def Staging.entry (s : Staging) (path : List Str) : Option Bytes × Bool :=
  (s.files.get? path, s.dirs.contains path)

theorem entry_eq (hfile : s'.files.get? q = s.files.get? q) (hdir : q ∈ s'.dirs ↔ q ∈ s.dirs) :
    s'.entry q = s.entry q := by
  have hcontains : s'.dirs.contains q = s.dirs.contains q := by
    rw [Bool.eq_iff_iff, List.contains_iff_mem, List.contains_iff_mem, hdir]
  unfold Staging.entry
  rw [hfile, hcontains]

/-- Making the parents leaves the path. -/
theorem entry_mkdirs (h : s.mkdirs t.dropLast = some s') : s'.entry t = s.entry t := by
  refine entry_eq (by rw [Staging.mkdirs_files h]) ?_
  rw [mem_dirs_mkdirs h]
  refine or_iff_left_of_imp fun hmem => ?_
  -- the path is longer than its parents
  have hlen := hmem.1.length_le
  have hpos := List.length_pos_iff.2 hmem.2
  rw [List.length_dropLast] at hlen
  omega

theorem put_dirs (h : s.put p body = some s') : s'.dirs = s.dirs := by
  unfold Staging.put at h
  split at h
  · cases h
  · obtain rfl := Option.some.inj h
    rfl

theorem entry_put (h : s.put p body = some s') (hq : q ≠ p) : s'.entry q = s.entry q := by
  refine entry_eq ?_ (by rw [put_dirs h])
  rw [Staging.get?_put h, if_neg hq.symm]

theorem entry_append {chunk : Bytes} (h : s.append p chunk = some s') (hq : q ≠ p) :
    s'.entry q = s.entry q := by
  obtain ⟨body, -, hput⟩ := Option.bind_eq_some_iff.1 h
  exact entry_put hput hq

theorem append_get? {chunk : Bytes} (h : s.append p chunk = some s')
    (hbody : s.files.get? p = some body) : s'.files.get? p = some (body ++ chunk) := by
  obtain ⟨old, hold, hput⟩ := Option.bind_eq_some_iff.1 h
  rw [Staging.get?_put hput, if_pos rfl, Option.some.inj (hbody.symm.trans hold)]

/-- The rename puts the part file's bytes at the target. -/
theorem entry_replacePart (h : s.replacePart t = some s')
    (hbody : s.files.get? (partFile t) = some body) : s'.entry t = (some body, false) := by
  obtain ⟨old, hold, hput⟩ := Option.bind_eq_some_iff.1 h
  have hget := Staging.get?_put hput t
  have hdirs := put_dirs hput
  unfold Staging.put at hput
  split at hput
  · cases hput
  rename_i hok
  rw [not_or] at hok
  rw [if_pos rfl, Option.some.inj (hold.symm.trans hbody)] at hget
  have hnot : s.dirs.contains t = false := by
    rw [Bool.eq_false_iff, ne_eq, List.contains_iff_mem]
    exact hok.2
  unfold Staging.entry
  rw [hget, hdirs]
  exact congrArg _ hnot

theorem entry_dropPart (ht : t ≠ []) (h : s.dropPart t = some s') : s'.entry t = s.entry t := by
  unfold Staging.dropPart at h
  split at h
  · cases h
  · exact entry_eq (by rw [removePart_get? h, if_neg (partFile_ne ht)]) (by rw [removePart_dirs h])

end Entry

section Attempts

variable {Seconds : Type} {clock : Clock Seconds} {settings : DownloadSettings Seconds}
  {reqs : RequestLog} {response : Response} {outcome : RequestOutcome} {pathLower : Str}

/-- The body of a response that is accepted: a 200 that came whole. -/
def RequestOutcome.accepted : RequestOutcome → Option Bytes
  | .failed _ => none
  | .answered r => if r.statusCode = 200 ∧ r.dropped = none then some r.chunks.flatten else none

theorem accepted_of_whole (h : response.statusCode = 200 ∧ response.dropped = none) :
    (RequestOutcome.answered response).accepted = some response.chunks.flatten := if_pos h

theorem accepted_of_not_whole (h : ¬ (response.statusCode = 200 ∧ response.dropped = none)) :
    (RequestOutcome.answered response).accepted = none := if_neg h

/-- The body of the last request, where it is accepted. -/
def lastAccepted (reqs : RequestLog) : Option Bytes :=
  reqs.getLast?.bind fun r => r.2.accepted

/-- The requests so far, and the target as it was in staging `s`. -/
structure TargetKept (s : Staging) (t : List Str) (reqs : RequestLog)
    (d : Downloading) : Prop where
  requests : d.requests = reqs
  target : d.disk.entry t = s.entry t

/-- The last request's body is accepted and at the target, and no part file is left. -/
structure Replaced (t : List Str) (reqs : RequestLog) (body : Bytes)
    (d : Downloading) : Prop where
  requests : d.requests = reqs
  accepted : lastAccepted reqs = some body
  target : d.disk.entry t = (some body, false)
  part : d.disk.files.get? (partFile t) = none

/-- What every commit of a download keeps. -/
structure SafeDownload (s : Staging) (t : List Str) (maxAttempts : ℕ) (d : Downloading) : Prop where
  requests : d.requests.length ≤ maxAttempts
  target : d.disk.entry t = s.entry t ∨
    ∃ body, lastAccepted d.requests = some body ∧ d.disk.entry t = (some body, false)

theorem lastAccepted_concat (reqs : RequestLog) (r : ApiRequest × RequestOutcome) :
    lastAccepted (reqs ++ [r]) = r.2.accepted := by
  unfold lastAccepted
  rw [List.getLast?_concat, Option.bind_some]

theorem TargetKept.safe {d : Downloading} {n : ℕ} (h : TargetKept s t reqs d) (hlen : reqs.length ≤ n) :
    SafeDownload s t n d := ⟨by rw [h.requests]; exact hlen, Or.inl h.target⟩

theorem TargetKept.onDisk {d : Downloading} {disk : Staging} (h : TargetKept s t reqs d)
    (hentry : disk.entry t = d.disk.entry t) : TargetKept s t reqs { d with disk } :=
  ⟨h.requests, hentry.trans h.target⟩

/-- A file operation. -/
theorem onDisk_triple {R : Downloading → Downloading → Prop} {f : Staging → Option Staging}
    {P : Downloading → Prop} {Q : Unit → Downloading → Prop} {E : DownloadError → Downloading → Prop}
    (hok : ∀ d disk, P d → f d.disk = some disk → R d { d with disk } ∧ Q () { d with disk })
    (herr : ∀ d, P d → f d.disk = none → E .os d) : Triple R P (onDisk f) Q E := by
  unfold onDisk
  refine Triple.get_bind fun d hd => ?_
  cases hf : f d.disk with
  | none =>
    refine Triple.fail ?_
    rintro d' rfl
    exact herr d' hd hf
  | some disk =>
    refine Triple.write ?_
    rintro d' rfl
    exact hok d' disk hd hf

theorem partName_triple {R : Downloading → Downloading → Prop} {P : Downloading → Prop}
    {E : DownloadError → Downloading → Prop} (herr : ∀ d, P d → E .value d) :
    Triple R P (partName t) (fun tmp d => P d ∧ t ≠ [] ∧ tmp = partFile t) E := by
  unfold partName
  split
  · exact Triple.fail herr
  · rename_i ht
    exact Triple.pure fun d hd => ⟨hd, ht, rfl⟩

/-- Raising changes nothing. -/
theorem orRaise_triple {α : Type} {R : Downloading → Downloading → Prop} {P : Downloading → Prop}
    {E : DownloadError → Downloading → Prop} (x : Except DownloadError α)
    (herr : ∀ e d, P d → E e d) : Triple R P (orRaise x) (fun _ => P) E := by
  cases x with
  | ok a => exact Triple.pure fun d hd => hd
  | error e => exact Triple.fail fun d hd => herr e d hd

/-- So does the wait before the next attempt, or the end after the last one. -/
theorem sleepOrRaise_triple {R : Downloading → Downloading → Prop} {P : Downloading → Prop}
    {Q : Option (Seconds × RetryEvent Seconds) → Downloading → Prop}
    {E : DownloadError → Downloading → Prop} {attempt : ℕ} {message : Str} {wait next : Seconds}
    {event : RetryEvent Seconds} (herr : ∀ e d, P d → E e d)
    (hnext : ∀ d, P d → Q (some (next, event)) d) :
    Triple R P (sleepOrRaise clock settings attempt message wait next event) Q E := by
  unfold sleepOrRaise
  split
  · exact Triple.fail fun d hd => herr _ d hd
  refine Triple.bind (M := fun _ => P) ?_ fun _ => Triple.pure hnext
  unfold sleepFor
  split
  · exact Triple.pure fun d hd => hd
  · exact Triple.fail fun d hd => herr _ d hd

/-- **The stream goes to the part file.** -/
theorem writeChunk_triple (ht : t ≠ []) {n : ℕ} (hlen : reqs.length ≤ n) (chunks : List Bytes)
    {E : DownloadError → Downloading → Prop} (herr : ∀ d, TargetKept s t reqs d → E .os d) :
    Triple (fun _ => SafeDownload s t n)
      (fun d => TargetKept s t reqs d ∧ d.disk.files.get? (partFile t) = some [])
      (chunks.foldlM (writeChunk (partFile t)) ())
      (fun _ d => TargetKept s t reqs d ∧ d.disk.files.get? (partFile t) = some chunks.flatten) E := by
  refine Triple.foldlM (fun done _ d =>
    TargetKept s t reqs d ∧ d.disk.files.get? (partFile t) = some done.flatten) chunks ()
    fun done chunk todo _ _ => ?_
  unfold writeChunk
  split
  · rename_i hempty
    refine Triple.pure fun d hd => ?_
    rw [hempty, List.flatten_append]
    simpa using hd
  · refine onDisk_triple ?_ fun d hd _ => herr d hd.1
    rintro d disk ⟨hun, hpart⟩ happ
    have hun' := hun.onDisk (entry_append happ (partFile_ne ht).symm)
    have hpart' := append_get? happ hpart
    refine ⟨hun'.safe hlen, hun', ?_⟩
    rw [List.flatten_append, List.flatten_singleton]
    exact hpart'

/-- **`_write_download`**: the target is untouched unless the whole body is there. -/
theorem writeDownload_triple {n : ℕ} (hlen : reqs.length ≤ n) (hstatus : response.statusCode = 200)
    (hlast : lastAccepted reqs = (RequestOutcome.answered response).accepted) :
    Triple (fun _ => SafeDownload s t n) (TargetKept s t reqs) (writeDownload response t)
      (fun _ d => ∃ body, Replaced t reqs body d)
      (fun e d => TargetKept s t reqs d ∧
        ∀ x, e = .request x → (RequestOutcome.answered response).accepted = none) := by
  have herr : ∀ e : DownloadError, (∀ x, e ≠ .request x) → ∀ d, TargetKept s t reqs d →
      TargetKept s t reqs d ∧
        ∀ x, e = .request x → (RequestOutcome.answered response).accepted = none :=
    fun e he d hd => ⟨hd, fun x hx => absurd hx (he x)⟩
  have hos := herr .os (by simp)
  unfold writeDownload
  -- the parents
  refine Triple.bind (M := fun _ => TargetKept s t reqs) (onDisk_triple ?_ fun d hd _ => hos d hd)
    fun _ => ?_
  · intro d disk hd hdisk
    have hun := hd.onDisk (entry_mkdirs hdisk)
    exact ⟨hun.safe hlen, hun⟩
  refine (partName_triple (herr .value (by simp))).bind fun tmp => ?_
  refine Triple.pre ?_
  rintro d ⟨hd, ht, rfl⟩
  -- the part file, emptied of what an earlier attempt left
  refine Triple.bind (M := fun _ d => TargetKept s t reqs d ∧
    d.disk.files.get? (partFile t) = some []) (onDisk_triple ?_ ?_) fun _ => ?_
  · rintro d' disk rfl hput
    have hun := hd.onDisk (entry_put hput (partFile_ne ht).symm)
    refine ⟨hun.safe hlen, hun, ?_⟩
    change disk.files.get? (partFile t) = some []
    rw [Staging.get?_put hput, if_pos rfl]
  · rintro d' rfl -
    exact hos d' hd
  refine (writeChunk_triple ht hlen response.chunks hos).bind fun _ => ?_
  -- only a stream that did not drop reaches the rename
  cases hdrop : response.dropped with
  | some x =>
    exact Triple.fail fun d' hd' => ⟨hd'.1, fun _ _ => accepted_of_not_whole (by simp [hdrop])⟩
  | none =>
    have haccepted := accepted_of_whole ⟨hstatus, hdrop⟩
    refine onDisk_triple ?_ fun d' hd' _ => hos d' hd'.1
    rintro d' disk ⟨hun, hpart⟩ hreplace
    have hentry := entry_replacePart hreplace hpart
    refine ⟨⟨by rw [hun.requests]; exact hlen, Or.inr ⟨_, ?_, hentry⟩⟩, _, hun.requests,
      hlast.trans haccepted, hentry, ?_⟩
    · rw [hun.requests]
      exact hlast.trans haccepted
    · obtain ⟨_, -, hget⟩ := replacePart_get? hreplace
      change disk.files.get? (partFile t) = none
      rw [hget, if_neg (partFile_ne ht).symm, if_pos rfl]

/-- Where an attempt stands after its `try` block. -/
def TriedPost (s : Staging) (t : List Str) (reqs : RequestLog) :
    Tried → Downloading → Prop
  | .done, d => ∃ body, Replaced t reqs body d
  | .status _, d | .dropped _, d => TargetKept s t reqs d ∧ lastAccepted reqs = none

/-- The pacing sleep returns, as `time.sleep` does for every interval the system's clock
can count. -/
def Paced (clock : Clock Seconds) (settings : DownloadSettings Seconds) : Prop :=
  clock.truthy settings.minimumCallIntervalSeconds = true →
    clock.sleeps settings.minimumCallIntervalSeconds = true

theorem throttle_eq (hpaced : Paced clock settings) : throttle clock settings = pure () := by
  unfold throttle sleepFor
  split
  · rename_i htruthy
    rw [if_pos (hpaced htruthy)]
  · rfl

/-- **The `try` block**, with what its handler catches. -/
theorem tryDownload_triple (hpaced : Paced clock settings) {n : ℕ} (hlen : reqs.length < n) :
    Triple (fun _ => SafeDownload s t n) (TargetKept s t reqs)
      ((tryDownload clock settings pathLower t outcome).catchError exceptRequest)
      (TriedPost s t (reqs ++ [(downloadRequest pathLower, outcome)]))
      (fun _ d => d.disk.entry t = s.entry t) := by
  set reqs' := reqs ++ [(downloadRequest pathLower, outcome)] with hreqs
  have hlen' : reqs'.length ≤ n := by
    rw [hreqs, List.length_append, List.length_singleton]
    omega
  have hlast : lastAccepted reqs' = outcome.accepted := lastAccepted_concat _ _
  refine Triple.catchError (M := fun e d => TargetKept s t reqs' d ∧
    ∀ x, e = .request x → lastAccepted reqs' = none) ?_ fun e => ?_
  · unfold tryDownload
    refine Triple.bind (M := fun _ => TargetKept s t reqs') (Triple.write fun d hd => ?_) fun _ => ?_
    · have hun : TargetKept s t reqs'
          { d with requests := d.requests ++ [(downloadRequest pathLower, outcome)] } :=
        ⟨by rw [hreqs, hd.requests], hd.target⟩
      exact ⟨hun.safe hlen', hun⟩
    cases outcome with
    | failed x => exact Triple.fail fun d hd => ⟨hd, fun _ _ => hlast⟩
    | answered response =>
      dsimp only
      split
      · rename_i hstatus
        refine Triple.bind ((writeDownload_triple hlen' hstatus hlast).consequence (fun _ h => h)
          (fun _ _ h => h) fun e d h => ⟨h.1, fun x hx => hlast.trans (h.2 x hx)⟩) fun _ => ?_
        rw [throttle_eq hpaced]
        exact Triple.pure fun d hd => hd
      · rename_i hstatus
        exact Triple.pure fun d hd => ⟨hd, hlast.trans (accepted_of_not_whole (by simp [hstatus]))⟩
  · cases e with
    | request x => exact Triple.pure fun d hd => ⟨hd.1, hd.2 x rfl⟩
    | _ => exact Triple.fail fun d hd => hd.1.target

/-- Where the loop stands after an attempt: it returns, or goes on with the target kept. -/
def AttemptPost (s : Staging) (t : List Str) (reqs : RequestLog) (outcome : RequestOutcome) :
    Option (Seconds × RetryEvent Seconds) → Downloading → Prop
  | none, d => ∃ body, Replaced t reqs body d
  | some _, d => TargetKept s t reqs d ∧ outcome.accepted = none

/-- **One attempt.** -/
theorem downloadAttempt_triple (hpaced : Paced clock settings) {attempt : ℕ} {delay : Seconds}
    (hlen : reqs.length < settings.maxAttempts) :
    Triple (fun _ => SafeDownload s t settings.maxAttempts) (TargetKept s t reqs)
      (downloadAttempt clock settings pathLower t attempt outcome delay)
      (AttemptPost s t (reqs ++ [(downloadRequest pathLower, outcome)]) outcome)
      (fun _ d => d.disk.entry t = s.entry t) := by
  set reqs' := reqs ++ [(downloadRequest pathLower, outcome)] with hreqs
  have hlen' : reqs'.length ≤ settings.maxAttempts := by
    rw [hreqs, List.length_append, List.length_singleton]
    omega
  have herr : ∀ (e : DownloadError) d, TargetKept s t reqs' d ∧ lastAccepted reqs' = none →
      d.disk.entry t = s.entry t := fun _ d hd => hd.1.target
  have hnext : ∀ (next : Seconds × RetryEvent Seconds) d,
      TargetKept s t reqs' d ∧ lastAccepted reqs' = none →
        AttemptPost s t reqs' outcome (some next) d :=
    fun _ d hd => ⟨hd.1, (lastAccepted_concat _ _).symm.trans hd.2⟩
  unfold downloadAttempt
  refine (tryDownload_triple hpaced hlen).bind fun tried => ?_
  cases tried with
  | done => exact Triple.pure fun d hd => hd
  | status response =>
    refine (orRaise_triple _ herr).bind fun waited => (orRaise_triple _ herr).bind fun text => ?_
    exact sleepOrRaise_triple herr (hnext _)
  | dropped x =>
    refine (partName_triple (herr .value)).bind fun tmp => ?_
    refine Triple.bind (M := fun _ d => TargetKept s t reqs' d ∧ lastAccepted reqs' = none)
      (onDisk_triple ?_ fun d hd _ => hd.1.1.target) fun _ => sleepOrRaise_triple herr (hnext _)
    -- the clean-up removes the part file, and the target is another file
    rintro d disk ⟨⟨hun, hnone⟩, ht, -⟩ hdrop
    have hun' := hun.onDisk (entry_dropPart ht hdrop)
    exact ⟨hun'.safe hlen', hun', hnone⟩

/-- The requests of the first attempts. -/
def requestsOf (pathLower : Str) (outcome : ℕ → RequestOutcome) (n : ℕ) : RequestLog :=
  (List.range n).map fun i => (downloadRequest pathLower, outcome (i + 1))

variable {outcomes : ℕ → RequestOutcome}

theorem requestsOf_succ (n : ℕ) : requestsOf pathLower outcomes (n + 1) =
    requestsOf pathLower outcomes n ++ [(downloadRequest pathLower, outcomes (n + 1))] := by
  unfold requestsOf
  rw [List.range_succ, List.map_append, List.map_singleton]

/-- A download that returned: its last request is the first that was accepted. -/
structure Downloaded (pathLower : Str) (t : List Str) (outcome : ℕ → RequestOutcome)
    (maxAttempts : ℕ) (events : List (RetryEvent Seconds)) (d : Downloading) : Prop where
  within : events.length < maxAttempts
  requests : d.requests = requestsOf pathLower outcome (events.length + 1)
  refused : ∀ i < events.length, (outcome (i + 1)).accepted = none
  accepted : ∃ body, (outcome (events.length + 1)).accepted = some body ∧
    d.disk.entry t = (some body, false)
  part : d.disk.files.get? (partFile t) = none

/-- **The loop**, with the attempts done and those left. -/
theorem downloadFrom_triple (hpaced : Paced clock settings) :
    ∀ (left : ℕ) (delay : Seconds) (events : List (RetryEvent Seconds)),
      events.length + left = settings.maxAttempts →
      (∀ i < events.length, (outcomes (i + 1)).accepted = none) →
      Triple (fun _ => SafeDownload s t settings.maxAttempts)
        (TargetKept s t (requestsOf pathLower outcomes events.length))
        (downloadFrom clock settings pathLower t outcomes left (events.length + 1) delay events)
        (Downloaded pathLower t outcomes settings.maxAttempts)
        (fun _ d => d.disk.entry t = s.entry t) := by
  intro left
  induction left with
  | zero => exact fun _ _ _ _ => Triple.fail fun d hd => hd.target
  | succ left ih =>
    intro delay events hcount hrefused
    -- each attempt made so far has its request and its event
    have hlen : (requestsOf pathLower outcomes events.length).length < settings.maxAttempts := by
      rw [requestsOf, List.length_map, List.length_range]
      omega
    rw [downloadFrom]
    refine (downloadAttempt_triple hpaced hlen).bind fun next => ?_
    rw [← requestsOf_succ]
    cases next with
    | none =>
      refine Triple.pure ?_
      rintro d ⟨body, hreplaced⟩
      have haccepted := hreplaced.accepted
      rw [requestsOf_succ, lastAccepted_concat] at haccepted
      exact ⟨by omega, hreplaced.requests, hrefused, ⟨body, haccepted, hreplaced.target⟩,
        hreplaced.part⟩
    | some next =>
      obtain ⟨delay', event⟩ := next
      have hevents : (events ++ [event]).length = events.length + 1 := by simp
      refine Triple.pre ?_
      rintro d ⟨hun, hnone⟩
      have h := ih delay' (events ++ [event]) (by rw [hevents]; omega) ?_
      · rw [hevents] at h
        exact h.consequence (fun d' hd' => hd' ▸ hun) (fun _ _ h => h) (fun _ _ h => h)
      · intro i hi
        rw [hevents] at hi
        rcases Nat.lt_succ_iff_lt_or_eq.1 hi with hi | rfl
        · exact hrefused i hi
        · exact hnone

/-- **A download is all or nothing**: at most `max_attempts` requests, and the target is as it
was until the body of an accepted response, whole, takes its place. -/
theorem download_all_or_nothing (hpaced : Paced clock settings) (pathLower : Str) (t : List Str)
    (outcomes : ℕ → RequestOutcome) (s : Staging) :
    (∀ d ∈ (download clock settings pathLower t outcomes ⟨s, []⟩).states,
      SafeDownload s t settings.maxAttempts d) ∧
    (∀ events, (download clock settings pathLower t outcomes).result ⟨s, []⟩ = .ok events →
      Downloaded pathLower t outcomes settings.maxAttempts events
        ((download clock settings pathLower t outcomes).final ⟨s, []⟩)) ∧
    ∀ e, (download clock settings pathLower t outcomes).result ⟨s, []⟩ = .error e →
      ((download clock settings pathLower t outcomes).final ⟨s, []⟩).disk.entry t = s.entry t := by
  have h : Triple (fun _ => SafeDownload s t settings.maxAttempts)
      (TargetKept s t (requestsOf pathLower outcomes 0))
      (download clock settings pathLower t outcomes)
      (Downloaded pathLower t outcomes settings.maxAttempts)
      (fun _ d => d.disk.entry t = s.entry t) :=
    downloadFrom_triple hpaced settings.maxAttempts settings.initialBackoffSeconds []
      (Nat.zero_add _) (by simp)
  have hstart : TargetKept s t (requestsOf pathLower outcomes 0) ⟨s, []⟩ := ⟨rfl, rfl⟩
  obtain ⟨-, hok, herr⟩ := h _ hstart
  exact ⟨h.states hstart, hok, herr⟩

end Attempts

section Example

/-- Whole seconds, for a `Retry-After` of digits. -/
def wholeSeconds : Clock ℕ where
  parse text := if text ≠ [] ∧ text.all Char.isDigit then some (Json.digits text) else none
  minute := 60
  nonnegative x := x
  double x := x * 2
  least := min
  truthy x := decide (x ≠ 0)
  sleeps _ := true

def threeAttempts : DownloadSettings ℕ where
  maxAttempts := 3
  initialBackoffSeconds := 2
  maximumBackoffSeconds := 300
  minimumCallIntervalSeconds := 1

/-- A body that drops after its first chunk, and a whole one. -/
def droppedOnce (attempt : ℕ) : RequestOutcome :=
  if attempt = 1 then .answered ⟨200, [[1]], some "connection reset".toList, .ok [], none, none⟩
  else .answered ⟨200, [[2], [], [3]], none, .ok [], none, none⟩

/-- A file from before at the target. -/
def staleTarget : Staging := ⟨Dict.ofList [(["a".toList], [0])], []⟩

theorem download_after_drop :
    ((download wholeSeconds threeAttempts "/a".toList ["a".toList] droppedOnce).final
        ⟨staleTarget, []⟩).disk.entry ["a".toList] = (some [2, 3], false) ∧
      ∀ events, (download wholeSeconds threeAttempts "/a".toList ["a".toList] droppedOnce).result
          ⟨staleTarget, []⟩ = .ok events →
        Downloaded "/a".toList ["a".toList] droppedOnce 3 events
          ((download wholeSeconds threeAttempts "/a".toList ["a".toList] droppedOnce).final
            ⟨staleTarget, []⟩) := by
  have hpaced : Paced wholeSeconds threeAttempts := fun _ => rfl
  exact ⟨by decide +kernel,
    (download_all_or_nothing hpaced "/a".toList ["a".toList] droppedOnce staleTarget).2.1⟩

end Example

end DropboxMirror
