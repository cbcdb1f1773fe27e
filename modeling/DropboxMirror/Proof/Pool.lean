import DropboxMirror.Lib.Interleave
import DropboxMirror.Model.Pool
import DropboxMirror.Proof.Staged
import DropboxMirror.Proof.Steps

/-!
# What the workers of the pool do to each other

A worker writes its target and the part file beside it, and nothing else. So two
downloads can only meet where the part file of one is the target of the other.

* `workerStep_frame`: one step of a worker.
* `poolRun_holds`: a pool in which they do not meet.
* `disturbed_of_clash`: a schedule for one in which they do.
* `undisturbed_iff`: when the downloads of a batch do not disturb each other.
-/

namespace DropboxMirror

open Text Crash

variable {b workers : ℕ} {attempts : Str → List DownloadAttempt} {w : World} {t q : List Str}

/-- The body Dropbox serves in a download: that of the first attempt that ends it. -/
def servedBody : List DownloadAttempt → Option Bytes
  | .served body :: _ => some body
  | .dropped _ :: rest => servedBody rest
  | .retried :: rest => servedBody rest
  | _ => none

section PartFile

theorem partFile_concat (dir : List Str) (name : Str) :
    partFile (dir ++ [name]) = dir ++ [name ++ ".part".toList] := by
  rw [partFile, List.dropLast_concat, List.getLastD_concat]

theorem exists_concat {l : List Str} (h : l ≠ []) : ∃ dir name, l = dir ++ [name] :=
  ⟨l.dropLast, l.getLast h, (List.dropLast_append_getLast h).symm⟩

theorem length_partFile (h : t ≠ []) : (partFile t).length = t.length := by
  obtain ⟨dir, name, rfl⟩ := exists_concat h
  rw [partFile_concat, List.length_append, List.length_append]
  rfl

theorem partFile_inj (ht : t ≠ []) (hq : q ≠ []) (h : partFile t = partFile q) : t = q := by
  obtain ⟨dir, name, rfl⟩ := exists_concat ht
  obtain ⟨dir', name', rfl⟩ := exists_concat hq
  rw [partFile_concat, partFile_concat] at h
  obtain ⟨hdir, hname⟩ := List.append_inj' h rfl
  rw [hdir, List.append_cancel_right (List.singleton_inj.1 hname)]

theorem partFile_ne (h : t ≠ []) : partFile t ≠ t := by
  obtain ⟨dir, name, rfl⟩ := exists_concat h
  rw [partFile_concat]
  intro heq
  have hname := List.singleton_inj.1 (List.append_cancel_left heq)
  have hlen := congrArg List.length hname
  rw [List.length_append] at hlen
  have : ".part".toList.length = 5 := rfl
  omega

end PartFile

section Frame

variable {s s' : Staging} {p p' : Worker}

theorem writePart_get? {body : Bytes} (h : s.writePart t body = some s') (q : List Str) :
    s'.files.get? q = if partFile t = q then some body else s.files.get? q := by
  obtain ⟨s₁, hs₁, hput⟩ := Option.bind_eq_some_iff.1 h
  rw [Staging.get?_put hput, Staging.mkdirs_files hs₁]

theorem removePart_get? (h : s.removePart t = some s') (q : List Str) :
    s'.files.get? q = if partFile t = q then none else s.files.get? q :=
  Staging.get?_unlinkMissingOk h q

theorem removePart_dirs (h : s.removePart t = some s') : s'.dirs = s.dirs := by
  unfold Staging.removePart Staging.unlinkMissingOk at h
  split at h
  · cases h
  · obtain rfl := Option.some.inj h
    rfl

theorem replacePart_get? (h : s.replacePart t = some s') :
    ∃ body, s.files.get? (partFile t) = some body ∧ ∀ q, s'.files.get? q =
      if t = q then some body else if partFile t = q then none else s.files.get? q := by
  obtain ⟨body, hbody, hput⟩ := Option.bind_eq_some_iff.1 h
  refine ⟨body, hbody, fun q => ?_⟩
  rw [Staging.get?_put hput, Staging.get?_unlink_eq]

/-- What a file operation leaves. -/
theorem afterFile_cases {next : Worker} {o : Option Staging} (h : afterFile s next o = (p', s')) :
    (p' = .finished (.failed .os) ∧ s' = s) ∨ (p' = next ∧ o = some s') := by
  cases o with
  | none => exact Or.inl ⟨(Prod.ext_iff.1 h).1.symm, (Prod.ext_iff.1 h).2.symm⟩
  | some s₁ => exact Or.inr ⟨(Prod.ext_iff.1 h).1.symm, congrArg some (Prod.ext_iff.1 h).2⟩

/-- **A worker's step touches its target and its part file, and no other file.** -/
theorem workerStep_frame (h : workerStep t s p = some (p', s')) (hq : q ≠ t) (hq' : q ≠ partFile t) :
    s'.files.get? q = s.files.get? q := by
  have hfile : ∀ {next : Worker} {o : Option Staging}, afterFile s next o = (p', s') →
      (∀ s₁, o = some s₁ → s₁.files.get? q = s.files.get? q) →
      s'.files.get? q = s.files.get? q := by
    intro next o ho hall
    rcases afterFile_cases ho with ⟨-, rfl⟩ | ⟨-, hs⟩
    · rfl
    · exact hall _ hs
  have hwrite : ∀ body s₁, s.writePart t body = some s₁ → s₁.files.get? q = s.files.get? q :=
    fun body s₁ h₁ => by rw [writePart_get? h₁, if_neg hq'.symm]
  match p with
  | .queued | .finished _ => cases h
  | .started _ =>
    exact hfile (Option.some.inj h) fun s₁ h₁ => by rw [Staging.mkdirs_files h₁]
  | .attempting (.served body :: _) => exact hfile (Option.some.inj h) (hwrite body)
  | .attempting (.dropped (some body) :: _) => exact hfile (Option.some.inj h) (hwrite body)
  | .attempting [] | .attempting (.dropped none :: _) | .attempting (.retried :: _)
  | .attempting (.notFound :: _) | .attempting (.refused _ :: _) =>
    cases h
    rfl
  | .dropped _ =>
    exact hfile (Option.some.inj h) fun s₁ h₁ => by rw [removePart_get? h₁, if_neg hq'.symm]
  | .written =>
    refine hfile (Option.some.inj h) fun s₁ h₁ => ?_
    obtain ⟨body, -, hget⟩ := replacePart_get? h₁
    rw [hget, if_neg hq.symm, if_neg hq'.symm]

end Frame

section Holds

variable {row : BatchItem} {s s' : Staging} {p p' : Worker}

/-- **What a worker relies on**: the body it is to land is the served one, in its part file
once that is written, and in its target once it is renamed. -/
def Holds (attempts : Str → List DownloadAttempt) (row : BatchItem) (p : Worker) (s : Staging) : Prop :=
  match p with
  | .queued => True
  | .started rest | .attempting rest | .dropped rest =>
    servedBody rest = servedBody (attempts row.pathLower)
  | .written => ∃ body, servedBody (attempts row.pathLower) = some body ∧
      s.files.get? (partFile (localPath row.pathDisplay)) = some body
  | .finished .file => ∃ body, servedBody (attempts row.pathLower) = some body ∧
      s.files.get? (localPath row.pathDisplay) = some body
  | .finished _ => True

/-- It depends on two files. -/
theorem Holds.congr (h : Holds attempts row p s)
    (htarget : s'.files.get? (localPath row.pathDisplay) = s.files.get? (localPath row.pathDisplay))
    (hpart : s'.files.get? (partFile (localPath row.pathDisplay)) =
      s.files.get? (partFile (localPath row.pathDisplay))) : Holds attempts row p s' := by
  match p with
  | .queued | .started _ | .attempting _ | .dropped _ => exact h
  | .written =>
    obtain ⟨body, hserved, hfile⟩ := h
    exact ⟨body, hserved, hpart.trans hfile⟩
  | .finished .file =>
    obtain ⟨body, hserved, hfile⟩ := h
    exact ⟨body, hserved, htarget.trans hfile⟩
  | .finished .gone | .finished (.failed _) => trivial

/-- **A worker's own step keeps it.** -/
theorem Holds.step (h : Holds attempts row p s)
    (hstep : workerStep (localPath row.pathDisplay) s p = some (p', s')) :
    Holds attempts row p' s' := by
  have hfile : ∀ {next : Worker} {o : Option Staging}, afterFile s next o = (p', s') →
      (∀ s₁, o = some s₁ → Holds attempts row next s₁) → Holds attempts row p' s' := by
    intro next o ho hall
    rcases afterFile_cases ho with ⟨rfl, -⟩ | ⟨rfl, hs⟩
    · trivial
    · exact hall _ hs
  match p with
  | .queued | .finished _ => cases hstep
  | .started _ => exact hfile (Option.some.inj hstep) fun _ _ => h
  | .attempting [] | .attempting (.notFound :: _) | .attempting (.refused _ :: _) =>
    cases hstep
    trivial
  | .attempting (.served body :: _) =>
    refine hfile (Option.some.inj hstep) fun s₁ h₁ => ⟨body, Eq.symm h, ?_⟩
    rw [writePart_get? h₁, if_pos rfl]
  | .attempting (.dropped none :: _) | .attempting (.retried :: _) =>
    cases hstep
    exact h
  | .attempting (.dropped (some _) :: _) => exact hfile (Option.some.inj hstep) fun _ _ => h
  | .dropped _ => exact hfile (Option.some.inj hstep) fun _ _ => h
  | .written =>
    refine hfile (Option.some.inj hstep) fun s₁ h₁ => ?_
    obtain ⟨body, hserved, hpart⟩ := h
    obtain ⟨body', hbody', hget⟩ := replacePart_get? h₁
    refine ⟨body, hserved, ?_⟩
    rw [hget, if_pos rfl, ← hbody', hpart]

/-- A step of one worker, without the limit on how many are at work. -/
def RowStep (attempts : Str → List DownloadAttempt) (row : BatchItem) (p : Worker) (s : Staging)
    (p' : Worker) (s' : Staging) : Prop :=
  (p = .queued ∧ p' = .started (attempts row.pathLower) ∧ s' = s) ∨
    workerStep (localPath row.pathDisplay) s p = some (p', s')

theorem PoolStep.interleave {c c' : List (BatchItem × Worker) × Staging}
    (h : PoolStep workers attempts c c') : Interleave.Step (RowStep attempts) c c' := by
  cases h with
  | start before after row s => exact .move before after (Or.inl ⟨rfl, rfl, rfl⟩)
  | work before after row h => exact .move before after (Or.inr h)

/-- A run of the pool, as an interleaving of the rows' workers. -/
theorem PoolRun.interleave {rows : List BatchItem} {done : List (BatchItem × Landed)}
    (h : PoolRun workers attempts rows done s) :
    Relation.ReflTransGen (Interleave.Step (RowStep attempts))
      (rows.map fun row => (row, Worker.queued), Staging.cleared)
      (done.map fun r => (r.1, Worker.finished r.2), s) :=
  Relation.ReflTransGen.mono (fun _ _ => PoolStep.interleave) _ _ h

/-- The files of a row are its own. -/
structure OwnFiles (rows : List BatchItem) : Prop where
  named : ∀ i ∈ rows, localPath i.pathDisplay ≠ []
  targets : ∀ i ∈ rows, ∀ j ∈ rows, i ≠ j → localPath i.pathDisplay ≠ localPath j.pathDisplay
  parts : ∀ i ∈ rows, ∀ j ∈ rows, partFile (localPath i.pathDisplay) ≠ localPath j.pathDisplay

/-- **A pool whose rows keep to their own files**: each file that landed holds the served
body. -/
theorem poolRun_holds {rows : List BatchItem} {done : List (BatchItem × Landed)} {staged : Staging}
    (hnd : rows.Nodup) (hown : OwnFiles rows) (h : PoolRun workers attempts rows done staged) :
    ∀ r ∈ done, r.2 = .file → ∃ body, servedBody (attempts r.1.pathLower) = some body ∧
      staged.files.get? (localPath r.1.pathDisplay) = some body := by
  have hnames : (rows.map fun row => (row, Worker.queued)).map Prod.fst = rows := by
    rw [List.map_map]
    exact List.map_id rows
  have hall := Interleave.interference_free (I := Holds attempts) (fun i p s p' s' hstep hI => ?_)
    (fun i hi j hj hij p s p' s' q hstep hI => ?_) (by rw [hnames]; exact hnd) h.interleave ?_
  · rintro r hr hland
    have hholds := hall _ (List.mem_map_of_mem hr)
    rw [hland] at hholds
    exact hholds
  · rcases hstep with ⟨rfl, rfl, rfl⟩ | hstep
    · rfl
    · exact hI.step hstep
  · -- another row's target and part file are neither of ours
    rw [hnames] at hi hj
    rcases hstep with ⟨-, -, rfl⟩ | hstep
    · exact hI
    · refine hI.congr (workerStep_frame hstep (hown.targets j hj i hi hij.symm)
        (hown.parts i hi j hj).symm) (workerStep_frame hstep (hown.parts j hj i hi) fun hpart => ?_)
      exact hown.targets j hj i hi hij.symm
        (partFile_inj (hown.named j hj) (hown.named i hi) hpart)
  · intro x hx
    obtain ⟨row, -, rfl⟩ := List.mem_map.1 hx
    trivial

end Holds

section Fetch

variable {done : List (BatchItem × Landed)} {staged : Staging}

/-- The loop of `fetch` leaves staging alone, and keeps to no error where no download failed. -/
theorem fetchRow_calm {result : BatchItem → Landed} {row : BatchItem}
    {acc : FetchCounts × Option Failure} :
    Triple (fun _ _ => True) (fun v => v.staging = staged) (fetchRow b result acc row)
      (fun acc' v => v.staging = staged ∧
        ((∀ e, result row ≠ .failed e) → acc.2 = none → acc'.2 = none))
      (fun _ _ => False) := by
  unfold fetchRow
  have hset : ∀ (s : ItemStatus) (c : ItemColumns), Triple (fun _ _ => True)
      (fun v : World => v.staging = staged) (setItem b row.pathLower s c)
      (fun _ v => v.staging = staged) (fun _ _ => False) := fun _ _ =>
    Triple.write fun _ hv => ⟨trivial, hv⟩
  cases result row with
  | gone => exact (hset _ _).bind fun _ => Triple.pure fun _ hv => ⟨hv, fun _ h => h⟩
  | failed e => exact Triple.pure fun _ hv => ⟨hv, fun h => absurd rfl (h e)⟩
  | file => exact (hset _ _).bind fun _ => Triple.pure fun _ hv => ⟨hv, fun _ h => h⟩

/-- The rows a batch may fetch: none of them is past fetch. -/
def Fetchable (w : World) (b : ℕ) : Prop :=
  ∀ i ∈ w.items, i.batchId = b → i.status = .planned ∨ i.status = .vanished

theorem fetchable_iff : (w.itemsOf b fun s => decide (s ≠ .planned ∧ s ≠ .vanished)) = [] ↔
    Fetchable w b := by
  rw [World.itemsOf, ← List.length_eq_zero_iff, (List.perm_insertionSort _ _).length_eq,
    List.length_eq_zero_iff, List.filter_eq_nil_iff]
  refine forall₂_congr fun i _ => ?_
  simp only [Bool.and_eq_true, decide_eq_true_eq]
  tauto

/-- What `fetch` leaves where it returns. -/
structure FetchPost (w : World) (b : ℕ) (done : List (BatchItem × Landed)) (staged : Staging)
    (v : World) : Prop where
  fetchable : Fetchable w b
  items : v.items = settle (fetchDecision (futureResult done)) (w.itemsIn b .planned) w.items
  staging : v.staging = staged.pruneEmptyDirs
  landed : ∀ i ∈ w.itemsIn b .planned, fetchDecision (futureResult done) i ≠ none

/-- **`fetch` after the pool**: what it leaves, and that it returns where no download failed. -/
theorem fetchWith_triple (D : Digests) (done : List (BatchItem × Landed)) (staged : Staging) :
    Triple (fun _ _ => True) (fun v => v = w) (fetchWith b fun _ => (done, staged))
      (fun _ => FetchPost w b done staged)
      (fun _ _ => Fetchable w b → ∃ i ∈ w.itemsIn b .planned, ∃ e, futureResult done i = .failed e) := by
  unfold fetchWith
  refine Triple.get_bind fun s hs => ?_
  rw [hs]
  dsimp only
  split
  · rename_i hadv
    exact Triple.fail fun _ _ hf => absurd (fetchable_iff.2 hf) hadv
  rename_i hadv
  have hfetchable := fetchable_iff.1 (not_not.1 hadv)
  refine Triple.bind (M := fun _ v => v.items = w.items ∧ v.mirror = w.mirror ∧ v.staging = staged)
    (Triple.write ?_) fun _ => ?_
  · rintro v rfl
    exact ⟨trivial, rfl, rfl, rfl⟩
  -- the first error is kept, so the loop ends without one only where no row failed
  have loop := Triple.foldlM (R := fun _ _ => True) (f := fetchRow b (futureResult done))
    (E := fun _ _ => False) (fun before acc v => FetchInv w (futureResult done) before acc v ∧
      v.staging = staged ∧ ((∀ i ∈ before, ∀ e, futureResult done i ≠ .failed e) → acc.2 = none))
    (w.itemsIn b .planned) (⟨0, 0⟩, none) fun before row after hsplit acc => by
      have hnd := nodup_itemsIn w b .planned
      rw [hsplit] at hnd
      refine Triple.pre fun v hv => ?_
      have hinv : Triple (Quiet D {b}) (FetchInv w (futureResult done) before acc)
          (fetchRow b (futureResult done) acc row)
          (FetchInv w (futureResult done) (before ++ [row])) (fun _ _ => False) :=
        fetchRow_triple (by rw [hsplit]; simp)
          fun hmem => (List.nodup_append.1 hnd).2.2 row hmem row (by simp) rfl
      have hitems : Triple (fun _ _ => True) (fun t => t = v)
          (fetchRow b (futureResult done) acc row)
          (FetchInv w (futureResult done) (before ++ [row])) (fun _ _ => False) :=
        (hinv.mono fun _ _ _ => trivial).consequence (fun t ht => ht ▸ hv.1) (fun _ _ h => h)
          (fun _ _ h => h)
      refine (hitems.conj (fetchRow_calm.consequence (fun t ht => ht ▸ hv.2.1) (fun _ _ h => h)
        (fun _ _ h => h))).consequence (fun _ h => h) (fun acc' t ht => ?_) (fun _ _ h => h.1)
      refine ⟨ht.1, ht.2.1, fun hall => ht.2.2 (fun e => hall row (by simp) e) ?_⟩
      exact hv.2.2 fun i hi => hall i (List.mem_append_left _ hi)
  refine (loop.consequence ?_ (fun _ _ h => h) (fun _ _ h => h.elim)).bind fun ⟨counts, error⟩ => ?_
  · rintro v ⟨hi, hm, hst⟩
    exact ⟨⟨by rw [settle_nil, hi], hm, rfl, rfl, by simp⟩, hst, fun _ => rfl⟩
  dsimp only
  cases error with
  | some e =>
    refine Triple.fail fun v hv _ => ?_
    by_contra hnone
    push Not at hnone
    exact absurd (hv.2.2 hnone) (Option.some_ne_none e)
  | none =>
    refine Triple.bind (M := fun _ => FetchPost w b done staged) (Triple.write ?_) fun _ =>
      Triple.pure fun _ h => h
    intro v hv
    exact ⟨trivial, hfetchable, hv.1.items, congrArg Staging.pruneEmptyDirs hv.2.1, hv.1.error rfl⟩

theorem FetchPost.files {v : World} (h : FetchPost w b done staged v) :
    v.staging.files = staged.files := by
  rw [h.staging, Staging.pruneEmptyDirs_files]

/-- **The fetched rows** are those whose file landed. -/
theorem FetchPost.fetched {v : World} (h : FetchPost w b done staged v) {i : BatchItem} :
    i ∈ v.itemsIn b .fetched ↔
      ∃ i₀ ∈ w.itemsIn b .planned, futureResult done i₀ = .file ∧ i = i₀.setStatus .fetched {} := by
  rw [mem_itemsIn, h.items]
  constructor
  · rintro ⟨hi, hb, hst⟩
    obtain ⟨i₀, hi₀, rfl⟩ := mem_settle.1 hi
    split at hb
    · rename_i hrow
      rw [if_pos hrow, BatchItem.status_decided, (mem_itemsIn.1 hrow).2.2, fetchDecision] at hst
      rw [if_pos hrow]
      refine ⟨i₀, hrow, ?_⟩
      cases hr : futureResult done i₀ with
      | file => exact ⟨rfl, by rw [fetchDecision, hr]; rfl⟩
      | gone =>
        rw [hr] at hst
        cases hst
      | failed e =>
        rw [hr] at hst
        cases hst
    · rename_i hrow
      rw [if_neg hrow] at hst
      -- a row that was not fetched now was not fetched before
      rcases h.fetchable i₀ hi₀ hb with h | h <;> rw [h] at hst <;> cases hst
  · rintro ⟨i₀, hrow, hland, rfl⟩
    obtain ⟨hi₀, hb, -⟩ := mem_itemsIn.1 hrow
    have hdec : fetchDecision (futureResult done) i₀ = some (.fetched, {}) := by
      rw [fetchDecision, hland]
    exact ⟨mem_settle.2 ⟨i₀, hi₀, by rw [if_pos hrow, hdec]; rfl⟩, hb, rfl⟩

end Fetch

/-- **The downloads of a batch do not disturb each other**: with any number of workers, in
any interleaving and whatever Dropbox answers, where `fetch` returns each fetched item's
staged file holds the body Dropbox served for it. -/
def Undisturbed (w : World) (b : ℕ) : Prop :=
  ∀ workers attempts done staged, PoolRun workers attempts (w.itemsIn b .planned) done staged →
    ∀ c, (fetchWith b fun _ => (done, staged)).result w = .ok c →
      ∀ i ∈ ((fetchWith b fun _ => (done, staged)).final w).items, i.batchId = b →
        i.status = .fetched → ∃ body, servedBody (attempts i.pathLower) = some body ∧
          ((fetchWith b fun _ => (done, staged)).final w).staging.files.get?
            (localPath i.pathDisplay) = some body

section Clash

variable {s : Staging}

/-- Staging with no directory as deep as `n`, and no file above that. -/
structure Level (n : ℕ) (s : Staging) : Prop where
  dirs : ∀ d ∈ s.dirs, d.length < n
  files : ∀ q, q.length < n → s.files.get? q = none

theorem level_cleared {n : ℕ} : Level n Staging.cleared :=
  ⟨fun _ hd => absurd hd List.not_mem_nil, fun _ _ => rfl⟩

/-- The parents of a path can be made where no file is above it. -/
theorem mkdirs_of_no_file (path : List Str) (h : ∀ p, p <+: path → s.files.get? p = none) :
    ∃ s', s.mkdirs path = some s' ∧ ∀ d ∈ s'.dirs, d ∈ s.dirs ∨ d <+: path := by
  unfold Staging.mkdirs
  dsimp only
  rw [if_neg]
  · refine ⟨_, rfl, fun d hd => (List.mem_append.1 hd).imp id fun hd => ?_⟩
    exact (List.mem_inits _ _).1 (List.mem_of_mem_filter (List.mem_of_mem_filter hd))
  · rw [Bool.not_eq_true, List.any_eq_false]
    intro p hp
    rw [h p ((List.mem_inits _ _).1 (List.mem_of_mem_filter hp))]
    simp

theorem Level.mkdirs (h : Level t.length s) (ht : t ≠ []) :
    ∃ s', s.mkdirs t.dropLast = some s' ∧ Level t.length s' ∧ s'.files = s.files := by
  have hlen : ∀ p, p <+: t.dropLast → p.length < t.length := by
    intro p hp
    have hle := hp.length_le
    have hpos := List.length_pos_iff.2 ht
    rw [List.length_dropLast] at hle
    omega
  obtain ⟨s', hs', hdirs⟩ := mkdirs_of_no_file t.dropLast fun p hp => h.files p (hlen p hp)
  have hfiles := Staging.mkdirs_files hs'
  refine ⟨s', hs', ⟨fun d hd => (hdirs d hd).elim (h.dirs d) (hlen d), fun q hq => ?_⟩, hfiles⟩
  rw [hfiles]
  exact h.files q hq

theorem Level.put (h : Level t.length s) (ht : t ≠ []) (body : Bytes) : ∃ s', s.put t body = some s' ∧
    Level t.length s' := by
  have hs : s.put t body = some { s with files := s.files.set t body } := by
    unfold Staging.put
    rw [if_neg]
    rintro (hnil | hdir)
    · exact ht hnil
    · exact lt_irrefl _ (h.dirs t hdir)
  refine ⟨_, hs, h.dirs, fun q hq => ?_⟩
  rw [Staging.get?_put hs, if_neg (by rintro rfl; exact lt_irrefl _ hq)]
  exact h.files q hq

theorem Level.unlink (h : Level t.length s) (path : List Str) : Level t.length (s.unlink path) :=
  ⟨h.dirs, fun q hq => by rw [Staging.get?_unlink_eq, h.files q hq, ite_self]⟩

/-- The worker of one row takes a step. -/
def Own (t : List Str) (x y : Worker × Staging) : Prop := workerStep t x.2 x.1 = some y

/-- A download that is served at once lands. -/
theorem served_run (h : Level t.length s) (ht : t ≠ []) (body : Bytes) :
    ∃ s', Relation.ReflTransGen (Own t) (.started [.served body], s) (.finished .file, s') ∧
      Level t.length s' ∧ ∀ q, s'.files.get? q =
        if t = q then some body else if partFile t = q then none else s.files.get? q := by
  have hpart : partFile t ≠ [] := List.length_pos_iff.1 (by
    rw [length_partFile ht]
    exact List.length_pos_iff.2 ht)
  obtain ⟨s₁, h₁, hl₁, hf₁⟩ := h.mkdirs ht
  obtain ⟨s₂, h₂, hl₂, hf₂⟩ := hl₁.mkdirs ht
  rw [← length_partFile ht] at hl₂
  obtain ⟨s₃, h₃, hl₃⟩ := hl₂.put hpart body
  have hwrite : s₁.writePart t body = some s₃ := Option.bind_eq_some_iff.2 ⟨s₂, h₂, h₃⟩
  rw [length_partFile ht] at hl₃
  obtain ⟨s₄, h₄, hl₄⟩ := (hl₃.unlink (partFile t)).put ht body
  have hmove : s₃.replacePart t = some s₄ := by
    refine Option.bind_eq_some_iff.2 ⟨body, ?_, h₄⟩
    rw [writePart_get? hwrite, if_pos rfl]
  refine ⟨s₄, ?_, hl₄, fun q => ?_⟩
  · refine .head (b := (.attempting [.served body], s₁)) ?_ (.head (b := (.written, s₃)) ?_ (.single ?_))
    · rw [Own, workerStep, h₁, afterFile]
    · rw [Own, workerStep, hwrite, afterFile]
    · rw [Own, workerStep, hmove, afterFile]
  · obtain ⟨body', hbody', hget⟩ := replacePart_get? hmove
    rw [writePart_get? hwrite, if_pos rfl] at hbody'
    rw [hget, ← Option.some.inj hbody', writePart_get? hwrite, hf₁]
    split
    · rfl
    · split <;> rfl

/-- A download that drops, and then finds no file, removes its part file. -/
theorem dropped_run (h : Level t.length s) (ht : t ≠ []) :
    ∃ s', Relation.ReflTransGen (Own t) (.started [.dropped none, .notFound], s)
        (.finished .gone, s') ∧
      ∀ q, s'.files.get? q = if partFile t = q then none else s.files.get? q := by
  obtain ⟨s₁, h₁, hl₁, hf₁⟩ := h.mkdirs ht
  have hrem : s₁.removePart t = some (s₁.unlink (partFile t)) := by
    unfold Staging.removePart Staging.unlinkMissingOk
    rw [if_neg]
    intro hdir
    have hlt := hl₁.dirs _ hdir
    rw [length_partFile ht] at hlt
    exact lt_irrefl _ hlt
  refine ⟨s₁.unlink (partFile t), ?_, fun q => ?_⟩
  · refine .head (b := (.attempting [.dropped none, .notFound], s₁)) ?_
      (.head (b := (.dropped [.notFound], s₁)) ?_
        (.head (b := (.attempting [.notFound], s₁.unlink (partFile t))) ?_ (.single ?_)))
    · rw [Own, workerStep, h₁, afterFile]
    · rw [Own, workerStep]
    · rw [Own, workerStep, hrem, afterFile]
    · rw [Own, workerStep]
  · rw [removePart_get? hrem, hf₁]

/-- A download of a file that is gone. -/
theorem gone_run (h : ∀ q, s.files.get? q = none) :
    ∃ s', Relation.ReflTransGen (Own t) (.started [.notFound], s) (.finished .gone, s') ∧
      ∀ q, s'.files.get? q = none := by
  obtain ⟨s₁, h₁, -⟩ := mkdirs_of_no_file t.dropLast fun p _ => h p
  refine ⟨s₁, .head (b := (.attempting [.notFound], s₁)) ?_ (.single ?_), fun q => ?_⟩
  · rw [Own, workerStep, h₁, afterFile]
  · rw [Own, workerStep]
  · rw [Staging.mkdirs_files h₁, h q]

variable {rows : List BatchItem} {f : BatchItem → Worker}

/-- With a worker for each row, all are taken at once. -/
theorem start_all (hworkers : rows.length ≤ workers) :
    Relation.ReflTransGen (PoolStep workers attempts) (rows.map fun row => (row, Worker.queued), s)
      (Interleave.named rows fun row => .started (attempts row.pathLower), s) := by
  have key : ∀ todo taken, rows = taken ++ todo → Relation.ReflTransGen (PoolStep workers attempts)
      (Interleave.named taken (fun row => .started (attempts row.pathLower)) ++
        todo.map fun row => (row, Worker.queued), s)
      (Interleave.named rows fun row => .started (attempts row.pathLower), s) := by
    intro todo
    induction todo with
    | nil =>
      intro taken h
      rw [List.append_nil] at h
      rw [h, List.map_nil, List.append_nil]
    | cons row todo ih =>
      intro taken h
      refine .head ?_ (ih (taken ++ [row]) (by rw [h, List.append_assoc]; rfl))
      simp only [Interleave.named, List.map_append, List.map_cons, List.map_nil, List.append_assoc,
        List.singleton_append]
      refine .start _ _ row s (fun x hx => ?_) (lt_of_le_of_lt List.countP_le_length ?_)
      · obtain ⟨r, -, rfl⟩ := List.mem_map.1 hx
        simp
      · have hlen := congrArg List.length h
        rw [List.length_append, List.length_cons] at hlen
        rw [List.length_append, List.length_map, List.length_map]
        omega
  exact key rows [] rfl

/-- One row runs with the others at rest. -/
theorem run_row (workers : ℕ) (attempts : Str → List DownloadAttempt) (hnd : rows.Nodup)
    {row : BatchItem} (hrow : row ∈ rows) {x : Worker × Staging}
    (h : Relation.ReflTransGen (Own (localPath row.pathDisplay)) (f row, s) x) :
    Relation.ReflTransGen (PoolStep workers attempts) (Interleave.named rows f, s)
      (Interleave.named rows (Function.update f row x.1), x.2) :=
  Interleave.run_process hnd hrow (fun before after _ _ _ _ hstep => .work before after row hstep) h

/-- The rows of `ks` find no file, one after the other. -/
theorem run_gone (workers : ℕ) (attempts : Str → List DownloadAttempt) (hnd : rows.Nodup)
    (ks : List BatchItem) (hks : ∀ k ∈ ks, k ∈ rows) (hknd : ks.Nodup)
    (hf : ∀ k ∈ ks, f k = .started [.notFound]) (hs : ∀ q, s.files.get? q = none) :
    ∃ s', Relation.ReflTransGen (PoolStep workers attempts) (Interleave.named rows f, s)
        (Interleave.named rows (fun r => if r ∈ ks then .finished .gone else f r), s') ∧
      ∀ q, s'.files.get? q = none := by
  induction ks generalizing f s with
  | nil => exact ⟨s, by simp only [List.not_mem_nil, if_false]; exact .refl, hs⟩
  | cons k ks ih =>
    rw [List.nodup_cons] at hknd
    obtain ⟨s₁, hrun, hs₁⟩ := gone_run (t := localPath k.pathDisplay) hs
    rw [← hf k List.mem_cons_self] at hrun
    have hfirst := run_row workers attempts hnd (hks k List.mem_cons_self) hrun
    obtain ⟨s₂, hrest, hs₂⟩ := ih (f := Function.update f k (.finished .gone))
      (fun r hr => hks r (List.mem_cons_of_mem _ hr)) hknd.2 (fun r hr => by
        rw [Function.update_of_ne (by rintro rfl; exact hknd.1 hr)]
        exact hf r (List.mem_cons_of_mem _ hr)) hs₁
    refine ⟨s₂, hfirst.trans ?_, hs₂⟩
    have heq : (fun r => if r ∈ ks then Worker.finished .gone
        else Function.update f k (.finished .gone) r) =
        fun r => if r ∈ k :: ks then .finished .gone else f r := by
      funext r
      by_cases hrk : r = k
      · subst hrk
        simp [hknd.1]
      · simp [hrk]
    rw [← heq]
    exact hrest

/-- What each row of the clash is answered: the first row is served, the second drops before
it opened its part file and then finds no file, the others find no file. -/
def clashAttempts (first second : Str) (p : Str) : List DownloadAttempt :=
  if p = first then [.served []] else if p = second then [.dropped none, .notFound] else [.notFound]

/-- How each row of the clash ends. -/
def clashLanded (first : BatchItem) (r : BatchItem) : Landed := if r = first then .file else .gone

/-- **The schedule of a clash**: the first row lands, and the clean-up of the second one
removes the file, as its part file. -/
theorem clash_run (hnd : rows.Nodup) {i j : BatchItem} (hi : i ∈ rows) (hj : j ∈ rows)
    (hi' : localPath i.pathDisplay ≠ []) (hj' : localPath j.pathDisplay ≠ [])
    (hlower : ∀ r ∈ rows, ∀ r' ∈ rows, r.pathLower = r'.pathLower → r = r')
    (hclash : partFile (localPath i.pathDisplay) = localPath j.pathDisplay) :
    ∃ staged, PoolRun rows.length (clashAttempts j.pathLower i.pathLower) rows
        (rows.map fun r => (r, clashLanded j r)) staged ∧ ∀ q, staged.files.get? q = none := by
  have hij : i ≠ j := fun h => partFile_ne hi' (by rw [hclash, ← h])
  have hlen : (localPath i.pathDisplay).length = (localPath j.pathDisplay).length := by
    rw [← hclash, length_partFile hi']
  have hne : i.pathLower ≠ j.pathLower := fun h => hij (hlower i hi j hj h)
  set attempts := clashAttempts j.pathLower i.pathLower with hdef
  have hAj : attempts j.pathLower = [.served []] := if_pos rfl
  have hAi : attempts i.pathLower = [.dropped none, .notFound] := by
    rw [hdef, clashAttempts, if_neg hne, if_pos rfl]
  set waiting : BatchItem → Worker := fun r => .started (attempts r.pathLower) with hwaiting
  set landed : BatchItem → Worker := Function.update waiting j (.finished .file) with hlanded
  -- the first row runs to its end, then the second
  obtain ⟨s₁, hrun₁, hl₁, hf₁⟩ := served_run level_cleared hj' []
  rw [← hlen] at hl₁
  obtain ⟨s₂, hrun₂, hf₂⟩ := dropped_run hl₁ hi'
  rw [← hAj] at hrun₁
  have hfirst := run_row rows.length attempts (f := waiting) hnd hj hrun₁
  have hAi' : landed i = .started [.dropped none, .notFound] := by
    rw [hlanded, Function.update_of_ne hij]
    exact congrArg Worker.started hAi
  rw [← hAi'] at hrun₂
  have hsecond := run_row rows.length attempts hnd hi hrun₂
  -- no file is left, so the others run to their ends
  have hempty : ∀ q, s₂.files.get? q = none := by
    intro q
    rw [hf₂, hf₁, hclash]
    split
    · rfl
    split
    · rfl
    · rfl
  have hothersStarted : ∀ k ∈ rows.filter fun r => decide (r ≠ i ∧ r ≠ j),
      Function.update landed i (.finished .gone) k = .started [.notFound] := by
    intro k hk
    obtain ⟨hk, hkij⟩ := List.mem_filter.1 hk
    obtain ⟨hki, hkj⟩ := of_decide_eq_true hkij
    rw [Function.update_of_ne hki, hlanded, Function.update_of_ne hkj, hwaiting, hdef]
    dsimp only
    rw [clashAttempts, if_neg fun h => hkj (hlower k hk j hj h),
      if_neg fun h => hki (hlower k hk i hi h)]
  obtain ⟨s₃, hothers, hf₃⟩ := run_gone rows.length attempts hnd _
    (fun k hk => List.mem_of_mem_filter hk) (hnd.filter _) hothersStarted hempty
  refine ⟨s₃, ?_, hf₃⟩
  have hend : (rows.map fun r => (r, clashLanded j r)).map (fun r => (r.1, Worker.finished r.2)) =
      Interleave.named rows fun r => if r ∈ rows.filter (fun r => decide (r ≠ i ∧ r ≠ j)) then
        .finished .gone else Function.update landed i (.finished .gone) r := by
    rw [List.map_map, Interleave.named]
    refine List.map_congr_left fun r hr => ?_
    rw [Function.comp_apply, clashLanded, hlanded]
    by_cases hri : r = i
    · subst hri
      simp [hij]
    by_cases hrj : r = j
    · subst hrj
      simp [hri]
    · simp [hri, hrj, hr]
  rw [PoolRun, hend]
  exact (start_all le_rfl).trans (hfirst.trans (hsecond.trans hothers))

/-- Rows of one batch with one key are one. -/
theorem eq_of_pathLower_itemsIn {i j : BatchItem} (hi : i ∈ w.itemsIn b .planned)
    (hj : j ∈ w.itemsIn b .planned) (h : i.pathLower = j.pathLower) : i = j := by
  obtain ⟨hi, hib, -⟩ := mem_itemsIn.1 hi
  obtain ⟨hj, hjb, -⟩ := mem_itemsIn.1 hj
  exact Table.eq_of_key_eq hi hj (by rw [BatchItem.key, BatchItem.key, hib, hjb, h])

/-- **A staging path that is another item's with `.part` appended disturbs the batch.** -/
theorem disturbed_of_clash (hfetch : Fetchable w b) {i j : BatchItem} (hi : i ∈ w.itemsIn b .planned)
    (hj : j ∈ w.itemsIn b .planned) (hi' : localPath i.pathDisplay ≠ [])
    (hj' : localPath j.pathDisplay ≠ [])
    (hclash : partFile (localPath i.pathDisplay) = localPath j.pathDisplay) : ¬ Undisturbed w b := by
  intro hund
  obtain ⟨staged, hrun, hempty⟩ := clash_run (nodup_itemsIn w b .planned) hi hj hi' hj'
    (fun r hr r' hr' => eq_of_pathLower_itemsIn hr hr') hclash
  set done := (w.itemsIn b .planned).map fun r => (r, clashLanded j r) with hdone
  obtain ⟨-, hok, herr⟩ := fetchWith_triple (b := b) Digests.plain done staged w rfl
  cases hres : (fetchWith b fun _ => (done, staged)).result w with
  | error e =>
    -- no download failed
    obtain ⟨r, hr, e', he'⟩ := herr e hres hfetch
    rw [hdone, futureResult_map hr, clashLanded] at he'
    split at he' <;> cases he'
  | ok c =>
    have hpost := hok c hres
    have hland : futureResult done j = .file := by
      rw [hdone, futureResult_map hj, clashLanded, if_pos rfl]
    obtain ⟨hmem, hjb, hst⟩ := mem_itemsIn.1 (hpost.fetched.2 ⟨j, hj, hland, rfl⟩)
    obtain ⟨body, -, hfile⟩ := hund _ _ _ _ hrun c hres _ hmem hjb hst
    rw [hpost.files] at hfile
    exact absurd hfile (by rw [hempty]; exact (Option.some_ne_none body).symm)

end Clash

/-- The display paths of the rows to fetch: of plain names, none of them `.` or `..`, and
distinct. -/
structure PlainPaths (rows : List BatchItem) : Prop where
  path : ∀ i ∈ rows, ∃ parts : List Str, parts ≠ [] ∧
    (∀ s ∈ parts, Proper '/' s ∧ s ≠ ['.'] ∧ s ≠ ['.', '.']) ∧ i.pathDisplay = slashes '/' parts
  distinct : ∀ i ∈ rows, ∀ j ∈ rows, i ≠ j → i.pathDisplay ≠ j.pathDisplay

/-- Such a path is staged name by name. -/
theorem PlainPaths.localPath {rows : List BatchItem} (h : PlainPaths rows) {i : BatchItem}
    (hi : i ∈ rows) :
    localPath i.pathDisplay ≠ [] ∧ i.pathDisplay = slashes '/' (localPath i.pathDisplay) := by
  obtain ⟨parts, hne, hparts, hpath⟩ := h.path i hi
  have hlocal : DropboxMirror.localPath i.pathDisplay = parts := by
    rw [hpath]
    exact localPath_slashes hne (fun s hs => (hparts s hs).1) fun s hs => (hparts s hs).2.1
  rw [hlocal]
  exact ⟨hne, hpath⟩

/-- **The downloads of a batch do not disturb each other exactly where no item's staging
path is another item's with `.part` appended**, or where `fetch` refuses the batch. -/
theorem undisturbed_iff (hpaths : PlainPaths (w.itemsIn b .planned)) :
    Undisturbed w b ↔ (Fetchable w b → ∀ i ∈ w.itemsIn b .planned, ∀ j ∈ w.itemsIn b .planned,
      partFile (localPath i.pathDisplay) ≠ localPath j.pathDisplay) := by
  constructor
  · intro hund hfetch i hi j hj hclash
    exact disturbed_of_clash hfetch hi hj (hpaths.localPath hi).1 (hpaths.localPath hj).1 hclash hund
  intro hparts workers attempts done staged hrun c hres i hi hb hst
  obtain ⟨-, hok, -⟩ := fetchWith_triple (b := b) Digests.plain done staged w rfl
  have hpost := hok c hres
  have hown : OwnFiles (w.itemsIn b .planned) := by
    refine ⟨fun i hi => (hpaths.localPath hi).1, fun i hi j hj hne hsame => ?_, hparts hpost.fetchable⟩
    refine hpaths.distinct i hi j hj hne ?_
    rw [(hpaths.localPath hi).2, hsame, ← (hpaths.localPath hj).2]
  obtain ⟨i₀, hrow, hland, rfl⟩ := hpost.fetched.1 (mem_itemsIn.2 ⟨hi, hb, hst⟩)
  obtain ⟨body, hserved, hfile⟩ := poolRun_holds (nodup_itemsIn w b .planned) hown hrun _
    (mem_of_futureResult (by simp) hland) rfl
  rw [hpost.files]
  exact ⟨body, hserved, hfile⟩

section Example

/-- A planned row of a file at the root. -/
def rootItem (name : Str) : BatchItem :=
  ⟨1, '/' :: name, '/' :: name, 1, "h".toList, .planned, none, none, .empty⟩

/-- A batch of files at the root. -/
def rootBatch (names : List Str) : World :=
  { World.initial with items := Table.ofRows (names.map rootItem) }

variable {names : List Str}

theorem mem_rootBatch {i : BatchItem} (h : i ∈ (rootBatch names).itemsIn 1 .planned) :
    ∃ n ∈ names, i = rootItem n := by
  obtain ⟨n, hn, rfl⟩ := List.mem_map.1 (Table.mem_ofRows (mem_itemsIn.1 h).1)
  exact ⟨n, hn, rfl⟩

theorem plainPaths_rootBatch (h : ∀ n ∈ names, Proper '/' n ∧ n ≠ ['.'] ∧ n ≠ ['.', '.']) :
    PlainPaths ((rootBatch names).itemsIn 1 .planned) := by
  refine ⟨fun i hi => ?_, fun i hi j hj hne hsame => hne ?_⟩
  · obtain ⟨n, hn, rfl⟩ := mem_rootBatch hi
    exact ⟨[n], List.cons_ne_nil _ _, by simpa using h n hn, by simp [rootItem]⟩
  · obtain ⟨n, -, rfl⟩ := mem_rootBatch hi
    obtain ⟨m, -, rfl⟩ := mem_rootBatch hj
    rw [(List.cons.inj hsame).2]

/-- Two files of unrelated names. -/
theorem undisturbed_plain : Undisturbed (rootBatch ["a".toList, "b".toList]) 1 := by
  refine (undisturbed_iff (plainPaths_rootBatch (by decide))).2 fun _ i hi j hj => ?_
  obtain ⟨n, hn, rfl⟩ := mem_rootBatch hi
  obtain ⟨m, hm, rfl⟩ := mem_rootBatch hj
  revert n m
  decide

/-- **A file beside the file of its name with `.part` appended**: one download removes what
the other one staged. -/
theorem pool_disturbs : PlainPaths ((rootBatch ["a".toList, "a.part".toList]).itemsIn 1 .planned) ∧
    (∀ i ∈ (rootBatch ["a".toList, "a.part".toList]).itemsIn 1 .planned,
      ∀ j ∈ (rootBatch ["a".toList, "a.part".toList]).itemsIn 1 .planned,
        ∀ rest, j.pathDisplay ≠ i.pathDisplay ++ '/' :: rest) ∧
    ¬ Undisturbed (rootBatch ["a".toList, "a.part".toList]) 1 := by
  refine ⟨plainPaths_rootBatch (by decide), fun i hi j hj rest heq => ?_, ?_⟩
  · obtain ⟨n, -, rfl⟩ := mem_rootBatch hi
    obtain ⟨m, hm, rfl⟩ := mem_rootBatch hj
    have hno : ∀ m ∈ ["a".toList, "a.part".toList], '/' ∉ m := by decide
    refine hno m hm ?_
    rw [(List.cons.inj heq).2]
    simp
  · have hfetch : Fetchable (rootBatch ["a".toList, "a.part".toList]) 1 := fetchable_iff.1 (by decide)
    exact disturbed_of_clash (i := rootItem "a".toList) (j := rootItem "a.part".toList) hfetch
      (by decide) (by decide) (by decide) (by decide) (by decide)

end Example

end DropboxMirror
