import DropboxMirror.Proof.Folders
import DropboxMirror.Proof.Hashing

/-!
# What upload is handed

`fetch` and `verify` between them: the pool makes directories for every download, also of
files that turn out to be gone, and `verify` takes the files that do not match out of
staging again. Both end with `_prune_empty_dirs`.

* `verify_post`: the rows and the files that `verify` leaves.
* `handed_over`: the files under staging are the verified rows' and the directories are
  those above them, so `confirm` counts each once.
-/

namespace DropboxMirror

open Text Crash

variable {D : Digests} {b workers : ℕ} {attempts : Str → List DownloadAttempt} {w v : World}
  {done : List (BatchItem × Landed)} {staged : Staging} {i : BatchItem}

section Verify

/-- The loop of `verify` on staging: a file is left where it matches each row done that is
staged at its path. -/
structure Sifted (D : Digests) (w : World) (rows : List BatchItem) (v : World) : Prop where
  parented : w.staging.Parented → v.staging.Parented
  files : ∀ q body, v.staging.files.get? q = some body ↔ w.staging.files.get? q = some body ∧
    ∀ i ∈ rows, localPath i.pathDisplay = q → hashesMatch D body i
  present : ∀ i ∈ rows, w.staging.files.get? (localPath i.pathDisplay) ≠ none

theorem verifyRow_sifted {readable : BatchItem → Bool} {rows : List BatchItem} {row : BatchItem}
    {acc : VerifyCounts} :
    Triple (fun _ _ => True) (Sifted D w rows) (verifyRow D b readable acc row)
      (fun _ => Sifted D w (rows ++ [row])) (fun _ _ => True) := by
  unfold verifyRow
  refine Triple.get_bind fun v hv => ?_
  dsimp only
  have hset : ∀ (t : Staging) (status : ItemStatus) (c : ItemColumns), Triple (fun _ _ => True)
      (fun u : World => u.staging = t) (setItem b row.pathLower status c)
      (fun _ u => u.staging = t) (fun _ _ => True) := fun _ _ _ =>
    Triple.write fun _ hu => ⟨trivial, hu⟩
  split
  · rename_i body hbody _
    have hstaged := ((hv.files _ _).1 hbody).1
    have hpresent : ∀ i ∈ rows ++ [row], w.staging.files.get? (localPath i.pathDisplay) ≠ none := by
      intro i hi
      rcases List.mem_append.1 hi with hi | hi
      · exact hv.present i hi
      · rw [List.mem_singleton.1 hi, hstaged]
        simp
    split
    · rename_i hbad
      refine Triple.bind (M := fun _ u => u.staging = v.staging.unlink (localPath row.pathDisplay))
        (Triple.write ?_) fun _ => (hset _ _ _).bind fun _ => Triple.pure fun u hu => ?_
      · rintro u rfl
        exact ⟨trivial, rfl⟩
      refine ⟨fun hw => hu ▸ (hv.parented hw).unlink _, fun q body' => ?_, hpresent⟩
      rw [hu, Staging.get?_unlink_eq]
      by_cases hq : localPath row.pathDisplay = q
      -- the row's own file, which does not match
      · rw [if_pos hq]
        refine iff_of_false (by simp) fun hkept => ?_
        obtain ⟨hfile, hall⟩ := hkept
        rw [← hq, hstaged] at hfile
        obtain ⟨hsize, hhash⟩ := hall row (by simp) hq
        rw [← Option.some.inj hfile] at hsize hhash
        exact (hbad.elim (fun h => h hsize) fun h => h hhash).elim
      · rw [if_neg hq, hv.files]
        refine and_congr_right fun _ => ⟨fun hall i hi => ?_, fun hall i hi => ?_⟩
        · rcases List.mem_append.1 hi with hi | hi
          · exact hall i hi
          · rw [List.mem_singleton.1 hi]
            exact fun heq => absurd heq hq
        · exact hall i (List.mem_append_left _ hi)
    · rename_i hgood
      rw [not_or, not_not, not_not] at hgood
      refine Triple.bind (M := fun _ u => u.staging = v.staging)
        ((hset _ _ _).consequence (fun u hu => by rw [hu]) (fun _ _ h => h) (fun _ _ h => h))
        fun _ => Triple.pure fun u hu => ?_
      refine ⟨fun hw => hu ▸ hv.parented hw, fun q body' => ?_, hpresent⟩
      rw [hu, hv.files]
      refine and_congr_right fun hfile => ⟨fun hall i hi hq => ?_, fun hall i hi => ?_⟩
      · rcases List.mem_append.1 hi with hi | hi
        · exact hall i hi hq
        · obtain rfl := List.mem_singleton.1 hi
          rw [← hq, hstaged] at hfile
          rw [← Option.some.inj hfile]
          exact hgood
      · exact hall i (List.mem_append_left _ hi)
  · exact Triple.fail fun _ _ => trivial

/-- What `verify` leaves where it returns. -/
structure VerifyPost (D : Digests) (w : World) (b : ℕ) (v : World) : Prop where
  items : v.items = settle (verifyDecision D w) (w.itemsIn b .fetched) w.items
  sifted : ∃ u : World, Sifted D w (w.itemsIn b .fetched) u ∧ v.staging = u.staging.pruneEmptyDirs

theorem verify_post (readable : BatchItem → Bool) :
    Triple (fun _ _ => True) (fun v => v = w) (verify D b readable)
      (fun _ => VerifyPost D w b) (fun _ _ => True) := by
  unfold verify
  refine Triple.get_bind fun s hs => ?_
  rw [hs]
  dsimp only
  -- the rows and the staging directory are followed side by side
  have loop := Triple.foldlM (R := fun _ _ => True) (f := verifyRow D b readable)
    (E := fun _ _ => True) (fun before acc v => VerifyInv D w before acc v ∧ Sifted D w before v)
    (w.itemsIn b .fetched) ⟨0, 0, 0⟩ fun before row after hsplit acc => by
      have hnd := nodup_itemsIn w b .fetched
      rw [hsplit] at hnd
      have hinv : Triple (Quiet D {b}) (VerifyInv D w before acc) (verifyRow D b readable acc row)
          (VerifyInv D w (before ++ [row])) (fun _ _ => True) :=
        verifyRow_triple (by rw [hsplit]; simp)
          fun hmem => (List.nodup_append.1 hnd).2.2 row hmem row (by simp) rfl
      refine Triple.pre fun v hv => ?_
      have hrow : Triple (fun _ _ => True) (fun t => t = v) (verifyRow D b readable acc row)
          (VerifyInv D w (before ++ [row])) (fun _ _ => True) :=
        (hinv.mono fun _ _ _ => trivial).consequence (fun t ht => ht ▸ hv.1) (fun _ _ h => h)
          (fun _ _ h => h)
      have hsift : Triple (fun _ _ => True) (fun t => t = v) (verifyRow D b readable acc row)
          (fun _ => Sifted D w (before ++ [row])) (fun _ _ => True) :=
        verifyRow_sifted.consequence (fun t ht => ht ▸ hv.2) (fun _ _ h => h) (fun _ _ h => h)
      exact (hrow.conj hsift).consequence (fun _ h => h) (fun _ _ h => h) (fun _ _ _ => trivial)
  refine (loop.consequence ?_ (fun _ _ h => h) (fun _ _ h => h)).bind fun counts => ?_
  · rintro v rfl
    exact ⟨⟨settle_nil.symm, rfl, fun _ _ h => h, rfl, rfl⟩,
      ⟨id, fun q body => by simp, by simp⟩⟩
  refine Triple.bind (M := fun _ => VerifyPost D w b) (Triple.write fun v hv => ?_) fun _ => ?_
  · exact ⟨trivial, hv.1.items, v, hv.2, rfl⟩
  split
  · exact Triple.fail fun _ _ => trivial
  · exact Triple.pure fun _ hv => hv

end Verify

section Handover

/-- The proper ancestor directories of the rows' files, below the staging directory. -/
def ancestorDirs (rows : List BatchItem) : Set (List Str) :=
  {d | d ≠ [] ∧ ∃ i ∈ rows, d <+: localPath i.pathDisplay ∧ d ≠ localPath i.pathDisplay}

/-- **What upload is handed**: the files of the rows, as the rows have them, the directories
above these files and nothing else. -/
structure HandedOver (D : Digests) (rows : List BatchItem) (s : Staging) : Prop where
  files : ∀ q, s.files.get? q ≠ none ↔ ∃ i ∈ rows, localPath i.pathDisplay = q
  content : ∀ i ∈ rows, ∃ body, s.files.get? (localPath i.pathDisplay) = some body ∧
    body.length = i.size ∧ (contentHashes D body).dropboxContentHash = i.contentHash
  dirs : ∀ d, d ∈ s.dirs ↔ d ∈ ancestorDirs rows
  folders : s.folders = (ancestorDirs rows).ncard

/-- After `fetch` the batch has fetched and vanished rows. -/
theorem FetchPost.statuses (h : FetchPost w b done staged v) (hi : i ∈ v.items)
    (hb : i.batchId = b) : i.status = .fetched ∨ i.status = .vanished := by
  rw [h.items] at hi
  obtain ⟨i₀, hi₀, rfl⟩ := mem_settle.1 hi
  split at hb
  · rename_i hrow
    rw [if_pos hrow, BatchItem.status_decided]
    have hne := h.landed i₀ hrow
    unfold fetchDecision at hne ⊢
    cases hr : futureResult done i₀ with
    | file => exact Or.inl rfl
    | gone => exact Or.inr rfl
    | failed e =>
      rw [hr] at hne
      exact absurd rfl hne
  · rename_i hrow
    rw [if_neg hrow]
    rcases h.fetchable i₀ hi₀ hb with hst | hst
    · exact absurd (mem_itemsIn.2 ⟨hi₀, hb, hst⟩) hrow
    · exact Or.inr hst

/-- **After `fetch` each file is a fetched row's.** -/
theorem FetchPost.files_fetched (h : FetchPost w b done staged v)
    (hpool : PoolRun workers attempts (w.itemsIn b .planned) done staged) {q : List Str}
    (hq : v.staging.files.get? q ≠ none) :
    ∃ i ∈ v.itemsIn b .fetched, localPath i.pathDisplay = q := by
  rw [h.files] at hq
  obtain ⟨⟨i, x⟩, hr, hown⟩ := poolRun_accounted hpool hq
  have hnames := poolRun_names hpool
  have hrow : i ∈ w.itemsIn b .planned := by
    rw [← hnames]
    exact List.mem_map_of_mem hr
  have hresult : futureResult done i = x :=
    futureResult_of_mem (by rw [hnames]; exact nodup_itemsIn w b .planned) hr
  cases x with
  | file => exact ⟨_, h.fetched.2 ⟨i, hrow, hresult, rfl⟩, hown.symm⟩
  | gone => exact hown.elim
  | failed e =>
    refine absurd ?_ (h.landed i hrow)
    rw [fetchDecision, hresult]

/-- **The verified rows** are the fetched ones whose staged bytes match. -/
theorem VerifyPost.verified (h : VerifyPost D w b v)
    (hnone : ∀ i ∈ w.items, i.batchId = b → i.status ≠ .verified) :
    i ∈ v.itemsIn b .verified ↔ ∃ i₀ ∈ w.itemsIn b .fetched, i = i₀.decided (verifyDecision D w i₀) ∧
      ∃ body, w.staging.files.get? (localPath i₀.pathDisplay) = some body ∧ hashesMatch D body i₀ := by
  rw [mem_itemsIn, h.items]
  constructor
  · rintro ⟨hi, hb, hst⟩
    obtain ⟨i₀, hi₀, rfl⟩ := mem_settle.1 hi
    split at hb
    · rename_i hrow
      rw [if_pos hrow, BatchItem.status_decided, (mem_itemsIn.1 hrow).2.2] at hst
      rw [if_pos hrow]
      refine ⟨i₀, hrow, rfl, ?_⟩
      -- only matching bytes are decided `VERIFIED`
      unfold verifyDecision at hst
      split at hst
      · cases hst
      · rename_i body hbody
        split at hst
        · rename_i hmatch
          exact ⟨body, hbody, hmatch⟩
        · cases hst
    · rename_i hrow
      rw [if_neg hrow] at hst
      exact absurd hst (hnone i₀ hi₀ hb)
  · rintro ⟨i₀, hrow, rfl, body, hbody, hmatch⟩
    obtain ⟨hi₀, hb, hst⟩ := mem_itemsIn.1 hrow
    refine ⟨mem_settle.2 ⟨i₀, hi₀, if_pos hrow⟩, by rw [BatchItem.batchId_decided, hb], ?_⟩
    rw [BatchItem.status_decided, verifyDecision, hbody]
    dsimp only
    rw [if_pos hmatch]
    rfl

theorem pathDisplay_decided (i : BatchItem) (u : Decision) :
    (i.decided u).pathDisplay = i.pathDisplay := by cases u <;> rfl

theorem hashesMatch_decided (body : Bytes) (i : BatchItem) (u : Decision) :
    hashesMatch D body (i.decided u) ↔ hashesMatch D body i := by cases u <;> exact Iff.rfl

/-- Two fetched rows are staged at two paths. -/
theorem FetchPost.localPath_inj (h : FetchPost w b done staged v)
    (hpaths : PlainPaths (w.itemsIn b .planned)) {j : BatchItem} (hi : i ∈ v.itemsIn b .fetched)
    (hj : j ∈ v.itemsIn b .fetched) (hsame : localPath i.pathDisplay = localPath j.pathDisplay) :
    i = j := by
  obtain ⟨i₀, hi₀, -, rfl⟩ := h.fetched.1 hi
  obtain ⟨j₀, hj₀, -, rfl⟩ := h.fetched.1 hj
  have hlocal : localPath i₀.pathDisplay = localPath j₀.pathDisplay := hsame
  by_cases hij : i₀ = j₀
  · rw [hij]
  · refine absurd ?_ (hpaths.distinct i₀ hi₀ j₀ hj₀ hij)
    rw [(hpaths.localPath hi₀).2, hlocal, ← (hpaths.localPath hj₀).2]

/-- **A pruned tree whose files are the rows'.** -/
theorem HandedOver.of_pruned {rows : List BatchItem} {s : Staging} (hs : s.Parented)
    (hfiles : ∀ q, s.files.get? q ≠ none → ∃ i ∈ rows, localPath i.pathDisplay = q)
    (hcontent : ∀ i ∈ rows, ∃ body, s.files.get? (localPath i.pathDisplay) = some body ∧
      hashesMatch D body i) : HandedOver D rows s.pruneEmptyDirs := by
  have hiff : ∀ q, s.files.get? q ≠ none ↔ ∃ i ∈ rows, localPath i.pathDisplay = q := by
    refine fun q => ⟨hfiles q, ?_⟩
    rintro ⟨i, hi, rfl⟩
    obtain ⟨body, hbody, -⟩ := hcontent i hi
    rw [hbody]
    simp
  have hdirs : ∀ d, d ∈ s.pruneEmptyDirs.dirs ↔ d ∈ ancestorDirs rows := by
    intro d
    rw [dirs_pruned hs]
    refine and_congr_right fun _ => ⟨?_, ?_⟩
    · rintro ⟨q, hq, hpre, hne⟩
      obtain ⟨i, hi, rfl⟩ := hfiles q hq
      exact ⟨i, hi, hpre, hne⟩
    · rintro ⟨i, hi, hpre, hne⟩
      exact ⟨_, (hiff _).2 ⟨i, hi, rfl⟩, hpre, hne⟩
  refine ⟨fun q => by rw [Staging.pruneEmptyDirs_files, hiff], fun i hi => ?_, hdirs, ?_⟩
  · obtain ⟨body, hbody, hsize, hhash⟩ := hcontent i hi
    rw [hashFile_eq] at hsize hhash
    exact ⟨body, by rw [Staging.pruneEmptyDirs_files, hbody], hsize, hhash⟩
  -- no directory is listed twice, so the list counts the set
  · have hset : ancestorDirs rows = ↑s.pruneEmptyDirs.dirs.toFinset := by
      ext d
      rw [← hdirs, Finset.mem_coe, List.mem_toFinset]
    rw [hset, Set.ncard_coe_finset, List.toFinset_card_of_nodup hs.prune.nodup]
    rfl

/-- **Upload is handed exactly the verified files**, whatever Dropbox answers to each download
and in whatever order the workers take their steps. Display paths one above another, or one
another's with `.part` appended, need no exception: where they meet, a step raises. -/
theorem handed_over {readable : BatchItem → Bool} {c : FetchCounts} {c' : VerifyCounts}
    (hpaths : PlainPaths (w.itemsIn b .planned))
    (hpool : PoolRun workers attempts (w.itemsIn b .planned) done staged)
    (hfetch : (fetchWith b fun _ => (done, staged)).result w = .ok c)
    (hverify : (verify D b readable).result ((fetchWith b fun _ => (done, staged)).final w) = .ok c') :
    HandedOver D
      (((verify D b readable).final ((fetchWith b fun _ => (done, staged)).final w)).itemsIn b .verified)
      ((verify D b readable).final ((fetchWith b fun _ => (done, staged)).final w)).staging := by
  obtain ⟨-, hok, -⟩ := fetchWith_triple (b := b) D done staged w rfl
  have hf := hok c hfetch
  set w₁ := (fetchWith b fun _ => (done, staged)).final w
  obtain ⟨-, hok, -⟩ := verify_post (D := D) (b := b) readable w₁ rfl
  have hv := hok c' hverify
  obtain ⟨u, hsift, hstaging⟩ := hv.sifted
  have hu : u.staging.Parented := by
    refine hsift.parented ?_
    rw [hf.staging]
    exact (poolRun_parented hpool).prune
  -- before `verify` no row of the batch is `VERIFIED`
  have hverified := fun i => hv.verified (i := i) fun j hj hjb hst => by
    rcases hf.statuses hj hjb with h | h <;> rw [h] at hst <;> cases hst
  rw [hstaging]
  refine HandedOver.of_pruned hu (fun q hq => ?_) fun i hi => ?_
  · obtain ⟨body, hbody⟩ := Option.ne_none_iff_exists'.1 hq
    obtain ⟨hold, hall⟩ := (hsift.files _ _).1 hbody
    obtain ⟨i, hi, rfl⟩ := hf.files_fetched hpool (by rw [hold]; simp)
    exact ⟨_, (hverified _).2 ⟨i, hi, rfl, body, hold, hall i hi rfl⟩, by rw [pathDisplay_decided]⟩
  · obtain ⟨i₀, hi₀, rfl, body, hbody, hmatch⟩ := (hverified i).1 hi
    rw [pathDisplay_decided]
    refine ⟨body, (hsift.files _ _).2 ⟨hbody, fun j hj hsame => ?_⟩,
      (hashesMatch_decided body i₀ _).2 hmatch⟩
    rw [hf.localPath_inj hpaths hj hi₀ hsame]
    exact hmatch

end Handover

section Example

/-- A planned row of one byte. -/
def byteItem (path : Str) : BatchItem :=
  ⟨1, path, path, 1, (hashFile Digests.plain [7]).dropboxContentHash, .planned, none, none, .empty⟩

/-- Two files in two directories. -/
def twoFolders : World :=
  { World.initial with items := Table.ofRows [byteItem "/d/a".toList, byteItem "/e/b".toList] }

/-- The first is served, the second is gone. -/
def oneServed (path : Str) : List DownloadAttempt :=
  if path = "/d/a".toList then [.served [7]] else [.notFound]

def oneDone : List (BatchItem × Landed) :=
  [(byteItem "/d/a".toList, .file), (byteItem "/e/b".toList, .gone)]

def oneStaged : Staging := ⟨Dict.ofList [(["d".toList, "a".toList], [7])], [["d".toList], ["e".toList]]⟩

theorem twoFolders_planned : twoFolders.itemsIn 1 .planned =
    [byteItem "/d/a".toList, byteItem "/e/b".toList] := by decide +kernel

theorem twoFolders_run :
    PoolRun 1 oneServed (twoFolders.itemsIn 1 .planned) oneDone oneStaged := by
  rw [twoFolders_planned]
  set r₁ := byteItem "/d/a".toList
  set r₂ := byteItem "/e/b".toList
  have hfree : ∀ x ∈ ([] : List (BatchItem × Worker)), x.2 ≠ Worker.queued := by simp
  refine .head (.start [] [(r₂, .queued)] r₁ _ hfree (by decide)) ?_
  refine .head (.work [] [(r₂, .queued)] r₁ rfl) ?_
  refine .head (.work [] [(r₂, .queued)] r₁ rfl) ?_
  refine .head (.work [] [(r₂, .queued)] r₁ rfl) ?_
  refine .head (.start [(r₁, .finished .file)] [] r₂ _ (by simp) (by decide)) ?_
  refine .head (.work [(r₁, .finished .file)] [] r₂ rfl) ?_
  refine .head (.work [(r₁, .finished .file)] [] r₂ rfl) ?_
  exact .refl

theorem twoFolders_plain : PlainPaths (twoFolders.itemsIn 1 .planned) := by
  rw [twoFolders_planned]
  refine ⟨fun i hi => ?_, by decide⟩
  rcases List.mem_cons.1 hi with rfl | hi
  · exact ⟨["d".toList, "a".toList], by decide, by decide, rfl⟩
  · obtain rfl := List.mem_singleton.1 hi
    exact ⟨["e".toList, "b".toList], by decide, by decide, rfl⟩

/-- The served file is handed over in its directory; the other directory is gone. -/
theorem handed_over_one :
    (((verify Digests.plain 1 fun _ => true).final
        ((fetchWith 1 fun _ => (oneDone, oneStaged)).final twoFolders)).staging.dirs = [["d".toList]]) ∧
      HandedOver Digests.plain
        (((verify Digests.plain 1 fun _ => true).final
          ((fetchWith 1 fun _ => (oneDone, oneStaged)).final twoFolders)).itemsIn 1 .verified)
        ((verify Digests.plain 1 fun _ => true).final
          ((fetchWith 1 fun _ => (oneDone, oneStaged)).final twoFolders)).staging := by
  have hfetch : (fetchWith 1 fun _ => (oneDone, oneStaged)).result twoFolders = .ok ⟨1, 1⟩ := by
    decide +kernel
  have hverify : (verify Digests.plain 1 fun _ => true).result
      ((fetchWith 1 fun _ => (oneDone, oneStaged)).final twoFolders) = .ok ⟨1, 1, 0⟩ := by
    decide +kernel
  exact ⟨by decide +kernel, handed_over twoFolders_plain twoFolders_run hfetch hverify⟩

end Example

end DropboxMirror
