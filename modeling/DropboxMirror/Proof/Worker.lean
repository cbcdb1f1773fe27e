import DropboxMirror.Proof.Retry

/-!
# A download is a worker of the pool

The pool takes each file operation of a download as one step, and a response as one answer
(`DownloadAttempt`). Here the loop of requests, chunks and waits is such a worker: for every
sequence of outcomes there are answers with which the worker goes from `.started` to the end
of the download, and leaves what the download leaves (`download_worker`). So what holds of
every run of the pool holds of the downloads.
-/

namespace DropboxMirror

open Text Crash

variable {s s' : Staging} {t p : List Str} {body body' chunk : Bytes}

section Made

/-- The parents of the target are there. -/
def Made (t : List Str) (s : Staging) : Prop :=
  ∀ q, q <+: t.dropLast → q ≠ [] → q ∈ s.dirs ∧ s.files.get? q = none

theorem made_of_mkdirs (h : s.mkdirs t.dropLast = some s') : Made t s' := by
  intro q hq hnil
  refine ⟨(mem_dirs_mkdirs h).2 (Or.inr ⟨hq, hnil⟩), ?_⟩
  rw [Staging.mkdirs_files h]
  unfold Staging.mkdirs at h
  dsimp only at h
  split at h
  · cases h
  · rename_i hway
    rw [Bool.not_eq_true, List.any_eq_false] at hway
    simpa using hway q (List.mem_filter.2 ⟨(List.mem_inits _ _).2 hq, by simpa using hnil⟩)

theorem Made.no_file (h : Made t s) :
    ¬ ((t.dropLast.inits.filter fun p => decide (p ≠ [])).any fun p => (s.files.get? p).isSome) = true := by
  rw [Bool.not_eq_true, List.any_eq_false]
  intro q hq
  obtain ⟨hq, hnil⟩ := List.mem_filter.1 hq
  rw [(h q ((List.mem_inits _ _).1 hq) (of_decide_eq_true hnil)).2]
  simp

/-- Made again, they stay. -/
theorem Made.mkdirs (h : Made t s) : s.mkdirs t.dropLast = some s := by
  have hnew : ((t.dropLast.inits.filter fun p => decide (p ≠ [])).filter
      fun p => decide (p ∉ s.dirs)) = [] := by
    rw [List.filter_eq_nil_iff]
    intro q hq
    obtain ⟨hq, hnil⟩ := List.mem_filter.1 hq
    simpa using (h q ((List.mem_inits _ _).1 hq) (of_decide_eq_true hnil)).1
  unfold Staging.mkdirs
  dsimp only
  rw [if_neg h.no_file, hnew, List.append_nil]

theorem Made.dropPart (h : Made t s) : s.dropPart t = s.removePart t := by
  unfold Staging.dropPart
  rw [if_neg h.no_file]

/-- It depends on the directories, and on no file as deep as the target. -/
theorem Made.congr (h : Made t s) (ht : t ≠ []) (hdirs : s'.dirs = s.dirs)
    (hfiles : ∀ q, q ≠ partFile t → s'.files.get? q = s.files.get? q) : Made t s' := by
  intro q hq hnil
  rw [hdirs, hfiles]
  · exact h q hq hnil
  -- a parent is shorter
  · rintro rfl
    have hlen := hq.length_le
    rw [length_partFile ht, List.length_dropLast] at hlen
    have hpos := List.length_pos_iff.2 ht
    omega

theorem Made.writePart (h : Made t s) : s.writePart t body = s.put (partFile t) body := by
  unfold Staging.writePart
  rw [h.mkdirs, Option.bind_some]

end Made

section Write

theorem put_put (h : s.put p body = some s') : s'.put p body' = s.put p body' := by
  unfold Staging.put at h ⊢
  split at h
  · cases h
  rename_i hok
  obtain rfl := Option.some.inj h
  rw [if_neg hok, if_neg hok]
  exact congrArg (fun files => some { s with files }) (Dict.set_set _ _ _ _)

/-- A chunk goes after what was written. -/
theorem append_put (h : s.put p body = some s') : s'.append p chunk = s.put p (body ++ chunk) := by
  unfold Staging.append
  rw [Staging.get?_put h, if_pos rfl, Option.bind_some, put_put h]

theorem put_some (h : s.put p body = some s') (body' : Bytes) : ∃ s'', s.put p body' = some s'' := by
  unfold Staging.put at h ⊢
  split at h
  · cases h
  · rename_i hok
    exact ⟨_, if_neg hok⟩

/-- How `_write_download` raises, with the staging directory it leaves. -/
def WriteFailed (t : List Str) (s : Staging) : DownloadError → Staging → Prop
  | .request _, s' => ∃ body, s.writePart t body = some s'
  | .os, s' => (∃ body, s.writePart t body = none ∧ s' = s) ∨
      ∃ body, s.writePart t body = some s' ∧ s'.replacePart t = none
  | _, _ => False

/-- **`_write_download` is the two steps of the worker**: the part file, chunk by chunk, and
its rename. -/
theorem writeDownload_steps (ht : t ≠ []) (hmade : Made t s) (response : Response) :
    Triple (fun _ _ => True) (fun d => d.disk = s) (writeDownload response t)
      (fun _ d => ∃ body s₁, s.writePart t body = some s₁ ∧ s₁.replacePart t = some d.disk)
      (fun e d => WriteFailed t s e d.disk) := by
  unfold writeDownload
  refine Triple.bind (M := fun _ d => d.disk = s) (onDisk_triple ?_ ?_) fun _ => ?_
  · rintro d disk hd hdisk
    rw [hd, hmade.mkdirs] at hdisk
    exact ⟨trivial, (Option.some.inj hdisk).symm⟩
  · rintro d hd hdisk
    rw [hd, hmade.mkdirs] at hdisk
    cases hdisk
  unfold partName
  rw [if_neg ht, pure_bind]
  refine Triple.bind (M := fun _ d => s.put (partFile t) [] = some d.disk) (onDisk_triple ?_ ?_)
    fun _ => ?_
  · rintro d disk hd hdisk
    exact ⟨trivial, hd ▸ hdisk⟩
  · rintro d hd hdisk
    exact Or.inl ⟨[], by rw [hmade.writePart, ← hd, hdisk], hd⟩
  refine Triple.bind (M := fun _ d => s.put (partFile t) response.chunks.flatten = some d.disk)
    (Triple.foldlM (fun done _ (d : Downloading) => s.put (partFile t) done.flatten = some d.disk) _ _ ?_)
    fun _ => ?_
  · intro done chunk todo _ _
    have hflat : (done ++ [chunk]).flatten = done.flatten ++ chunk := by simp
    unfold writeChunk
    rw [hflat]
    split
    · rename_i hempty
      rw [hempty, List.append_nil]
      exact Triple.pure fun d hd => hd
    · refine onDisk_triple (fun d disk hd hdisk => ⟨trivial, ?_⟩) fun d hd hdisk => ?_
      · rw [← append_put hd]
        exact hdisk
      -- the part file is open, so the chunk is written
      · obtain ⟨s₁, hs₁⟩ := put_some hd (done.flatten ++ chunk)
        rw [append_put hd, hs₁] at hdisk
        cases hdisk
  · cases response.dropped with
    | some x => exact Triple.fail fun d hd => ⟨_, hmade.writePart.trans hd⟩
    | none =>
      refine onDisk_triple (fun d disk hd hdisk => ⟨trivial, _, _, hmade.writePart.trans hd, hdisk⟩) ?_
      exact fun d hd hdisk => Or.inr ⟨_, hmade.writePart.trans hd, hdisk⟩

end Write

section Loop

variable {Seconds : Type} {clock : Clock Seconds} {settings : DownloadSettings Seconds}
  {outcome : RequestOutcome} {outcomes : ℕ → RequestOutcome} {pathLower : Str}

/-- The worker gets from one place to another. -/
abbrev WorkerRun (t : List Str) : Worker × Staging → Worker × Staging → Prop :=
  Relation.ReflTransGen (Own t)

/-- Whatever a download raises before it touched a file, a worker's answer ends with. -/
theorem run_raised (t : List Str) (s : Staging) (e : DownloadError) :
    ∃ xs, WorkerRun t (.attempting xs, s) (.finished e.landed, s) := by
  have hrefused : ∀ f, WorkerRun t (.attempting [.refused f], s) (.finished (.failed f), s) :=
    fun f => .single rfl
  cases e with
  | notFound => exact ⟨[.notFound], .single rfl⟩
  | os => exact ⟨_, hrefused .os⟩
  | _ => exact ⟨_, hrefused .provider⟩

/-- Where the worker is after the `try` block. -/
def TriedRun (t : List Str) (s : Staging) : Tried → Staging → Prop
  | .done, s' => ∃ x, ∀ rest, WorkerRun t (.attempting (x :: rest), s) (.finished .file, s')
  | .status _, s' => s' = s
  | .dropped _, s' => Made t s' ∧
      ∃ x, ∀ rest, WorkerRun t (.attempting (x :: rest), s) (.dropped rest, s')

/-- Where the worker is when the download raises. -/
def RaisedRun (t : List Str) (s : Staging) (e : DownloadError) (s' : Staging) : Prop :=
  ∃ xs, WorkerRun t (.attempting xs, s) (.finished e.landed, s')

/-- Where the worker is when the `try` block raises, before its handler. -/
def TryRaised (t : List Str) (s : Staging) : DownloadError → Staging → Prop
  | .request _, s' => Made t s' ∧
      ∃ x, ∀ rest, WorkerRun t (.attempting (x :: rest), s) (.dropped rest, s')
  | e, s' => RaisedRun t s e s'

theorem writePart_made (ht : t ≠ []) (hmade : Made t s) (h : s.writePart t body = some s') :
    Made t s' := by
  rw [hmade.writePart] at h
  refine hmade.congr ht (put_dirs h) fun q hq => ?_
  rw [Staging.get?_put h, if_neg hq.symm]

/-- **The `try` block is a worker's step or two.** -/
theorem tryDownload_run (hpaced : Paced clock settings) (ht : t ≠ []) (hmade : Made t s) :
    Triple (fun _ _ => True) (fun d => d.disk = s)
      ((tryDownload clock settings pathLower t outcome).catchError exceptRequest)
      (fun tried d => TriedRun t s tried d.disk) (fun e d => RaisedRun t s e d.disk) := by
  have hdropped : ∀ body s', s.writePart t body = some s' →
      Made t s' ∧ ∃ x, ∀ rest, WorkerRun t (.attempting (x :: rest), s) (.dropped rest, s') := by
    intro body s' h
    refine ⟨writePart_made ht hmade h, .dropped (some body), fun rest => .single ?_⟩
    rw [Own, workerStep, h, afterFile]
  -- what the request raises is caught, what the disk raises is not
  refine Triple.catchError (M := fun e d => TryRaised t s e d.disk) ?_ fun e => ?_
  · unfold tryDownload
    refine Triple.bind (M := fun _ d => d.disk = s) (Triple.write fun d hd => ⟨trivial, hd⟩)
      fun _ => ?_
    cases outcome with
    | failed x =>
      refine Triple.fail fun d hd => ?_
      rw [hd]
      exact ⟨hmade, .dropped none, fun rest => .single rfl⟩
    | answered response =>
      dsimp only
      split
      -- the response is served: the body is written and renamed, or one of the two raises
      · refine ((writeDownload_steps ht hmade response).consequence (fun _ h => h) (fun _ _ h => h)
          fun e d h => ?_).bind fun _ => ?_
        · cases e with
          | request _ =>
            obtain ⟨body, h⟩ := h
            exact hdropped body _ h
          | os =>
            rcases h with ⟨body, h, hd⟩ | ⟨body, h, hreplace⟩
            · refine ⟨[.served body], .single ?_⟩
              rw [Own, workerStep, h, afterFile, hd]
              rfl
            · refine ⟨[.served body], .head (b := (.written, d.disk)) ?_ (.single ?_)⟩
              · rw [Own, workerStep, h, afterFile]
              · rw [Own, workerStep, hreplace, afterFile]
                rfl
          | _ => exact h.elim
        · rw [throttle_eq hpaced]
          refine Triple.pure ?_
          rintro d ⟨body, s₁, hwrite, hreplace⟩
          refine ⟨.served body, fun rest => .head (b := (.written, s₁)) ?_ (.single ?_)⟩
          · rw [Own, workerStep, hwrite, afterFile]
          · rw [Own, workerStep, hreplace, afterFile]
      · exact Triple.pure fun d hd => hd
  · cases e with
    | request x => exact Triple.pure fun d hd => hd
    | _ => exact Triple.fail fun d hd => hd

/-- Where the worker is after an attempt: its download is over, or the next one begins. -/
def AttemptRun (t : List Str) (s : Staging) (next : Option (Seconds × RetryEvent Seconds))
    (s' : Staging) : Prop :=
  match next with
  | none => ∃ x, ∀ rest, WorkerRun t (.attempting (x :: rest), s) (.finished .file, s')
  | some _ => Made t s' ∧
      ∃ x, ∀ rest, WorkerRun t (.attempting (x :: rest), s) (.attempting rest, s')

/-- The wait before the next attempt, and the end after the last one. -/
theorem sleepOrRaise_run {attempt : ℕ} {message : Str} {wait next : Seconds}
    {event : RetryEvent Seconds} (hmade : Made t s')
    (hrun : ∃ x, ∀ rest, WorkerRun t (.attempting (x :: rest), s) (.attempting rest, s')) :
    Triple (fun _ _ => True) (fun d => d.disk = s')
      (sleepOrRaise clock settings attempt message wait next event)
      (fun next d => AttemptRun t s next d.disk) (fun e d => RaisedRun t s e d.disk) := by
  obtain ⟨x, hrun⟩ := hrun
  refine sleepOrRaise_triple (fun e d hd => ?_) fun d hd => hd ▸ ⟨hmade, x, hrun⟩
  obtain ⟨xs, hxs⟩ := run_raised t s' e
  exact hd ▸ ⟨x :: xs, (hrun xs).trans hxs⟩

/-- **One attempt.** -/
theorem downloadAttempt_run (hpaced : Paced clock settings) (ht : t ≠ []) (hmade : Made t s)
    {attempt : ℕ} {delay : Seconds} :
    Triple (fun _ _ => True) (fun d => d.disk = s)
      (downloadAttempt clock settings pathLower t attempt outcome delay)
      (fun next d => AttemptRun t s next d.disk) (fun e d => RaisedRun t s e d.disk) := by
  unfold downloadAttempt
  refine (tryDownload_run hpaced ht hmade).bind fun tried => ?_
  cases tried with
  | done => exact Triple.pure fun d hd => hd
  | status response =>
    have herr : ∀ (e : DownloadError) (d : Downloading), d.disk = s → RaisedRun t s e d.disk :=
      fun e d hd => hd ▸ run_raised t s e
    refine (orRaise_triple _ herr).bind fun waited => (orRaise_triple _ herr).bind fun text => ?_
    exact sleepOrRaise_run hmade ⟨.retried, fun rest => .single rfl⟩
  | dropped x =>
    dsimp only
    unfold partName
    rw [if_neg ht, pure_bind]
    refine Triple.pre fun d hd => ?_
    obtain ⟨hmade', x, hrun⟩ := hd
    refine Triple.bind (M := fun _ d' => d.disk.removePart t = some d'.disk)
      (onDisk_triple ?_ ?_) fun _ => Triple.pre fun d' hd' => ?_
    · rintro d' disk rfl hdisk
      rw [hmade'.dropPart] at hdisk
      exact ⟨trivial, hdisk⟩
    -- the part file cannot be removed
    · rintro d' rfl hdisk
      rw [hmade'.dropPart] at hdisk
      refine ⟨[x], (hrun []).trans (.single ?_)⟩
      rw [Own, workerStep, hdisk, afterFile]
      rfl
    -- the part file is gone, and the next attempt begins
    · have hmade'' : Made t d'.disk := hmade'.congr ht (removePart_dirs hd') fun q hq => by
        rw [removePart_get? hd', if_neg hq.symm]
      have hnext : ∃ x, ∀ rest,
          WorkerRun t (.attempting (x :: rest), s) (.attempting rest, d'.disk) := by
        refine ⟨x, fun rest => (hrun rest).trans (.single ?_)⟩
        rw [Own, workerStep, hd', afterFile]
      exact (sleepOrRaise_run hmade'' hnext).consequence (fun u hu => hu ▸ rfl) (fun _ _ h => h)
        fun _ _ h => h

/-- The end of a download, as the pool sees it. -/
def landedOf {α : Type} : Except DownloadError α → Landed
  | .ok _ => .file
  | .error e => e.landed

/-- **The loop**: answers for the attempts that are left. -/
theorem downloadFrom_run (hpaced : Paced clock settings) (ht : t ≠ []) :
    ∀ (left attempt : ℕ) (delay : Seconds) (events : List (RetryEvent Seconds)) (s : Staging),
      Made t s → Triple (fun _ _ => True) (fun d => d.disk = s)
        (downloadFrom clock settings pathLower t outcomes left attempt delay events)
        (fun _ d => ∃ xs, WorkerRun t (.attempting xs, s) (.finished .file, d.disk))
        (fun e d => RaisedRun t s e d.disk) := by
  intro left
  induction left with
  | zero => exact fun _ _ _ s _ => Triple.fail fun d hd => hd ▸ run_raised t s _
  | succ left ih =>
    intro attempt delay events s hmade
    rw [downloadFrom]
    refine (downloadAttempt_run hpaced ht hmade).bind fun next => ?_
    cases next with
    | none =>
      refine Triple.pure ?_
      rintro d ⟨x, hrun⟩
      exact ⟨[x], hrun []⟩
    | some next =>
      refine Triple.pre ?_
      rintro d ⟨hmade', x, hrun⟩
      refine (ih (attempt + 1) next.1 (events ++ [next.2]) d.disk hmade').consequence
        (fun u hu => hu ▸ rfl) ?_ ?_
      · rintro _ u ⟨xs, hxs⟩
        exact ⟨x :: xs, (hrun xs).trans hxs⟩
      · rintro e u ⟨xs, hxs⟩
        exact ⟨x :: xs, (hrun xs).trans hxs⟩

/-- **A download is a worker of the pool**: with some answers to its attempts the worker of the
row ends where the download does, and leaves what it leaves. -/
theorem download_worker (hpaced : Paced clock settings) (ht : t ≠ []) (pathLower : Str)
    (outcomes : ℕ → RequestOutcome) (s : Staging) :
    ∃ xs, WorkerRun t (.started xs, s)
      (.finished (landedOf ((fetchDownload clock settings pathLower t outcomes).result ⟨s, []⟩)),
        ((fetchDownload clock settings pathLower t outcomes).final ⟨s, []⟩).disk) := by
  have h : Triple (fun _ _ => True) (fun d => d.disk = s)
      (fetchDownload clock settings pathLower t outcomes)
      (fun _ d => ∃ xs, WorkerRun t (.started xs, s) (.finished .file, d.disk))
      (fun e d => ∃ xs, WorkerRun t (.started xs, s) (.finished e.landed, d.disk)) := by
    unfold fetchDownload
    refine Triple.bind (M := fun _ d => s.mkdirs t.dropLast = some d.disk) (onDisk_triple ?_ ?_)
      fun _ => Triple.pre fun d hd => ?_
    · rintro d disk rfl hdisk
      exact ⟨trivial, hdisk⟩
    · rintro d rfl hdisk
      refine ⟨[], .single ?_⟩
      rw [Own, workerStep, hdisk, afterFile]
      rfl
    · have hstart : ∀ xs, WorkerRun t (.started xs, s) (.attempting xs, d.disk) := by
        refine fun xs => .single ?_
        rw [Own, workerStep, hd, afterFile]
      refine (downloadFrom_run hpaced ht settings.maxAttempts 1 settings.initialBackoffSeconds []
        d.disk (made_of_mkdirs hd)).consequence (fun u hu => hu ▸ rfl) ?_ ?_
      · rintro _ u ⟨xs, hxs⟩
        exact ⟨xs, (hstart xs).trans hxs⟩
      · rintro e u ⟨xs, hxs⟩
        exact ⟨xs, (hstart xs).trans hxs⟩
  obtain ⟨-, hok, herr⟩ := h ⟨s, []⟩ rfl
  cases hres : (fetchDownload clock settings pathLower t outcomes).result ⟨s, []⟩ with
  | ok events => exact hok events hres
  | error e => exact herr e hres

end Loop

end DropboxMirror
