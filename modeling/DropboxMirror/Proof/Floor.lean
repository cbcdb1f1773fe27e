import DropboxMirror.Model.Batch
import DropboxMirror.Model.Delta

/-!
# The floor while batches land

The delta compares the listing with the size of the mirror, and checkpoints grow the
mirror by the files it did not have. A listing stays acceptable for the runs that
follow exactly when it reaches the floor of the mirror with all of them
(`stays_acceptable_iff`).
-/

namespace DropboxMirror

open Text

variable {U : Unicode} {ratio : ℚ} {runId : ℕ} {L : Listing} {M : Mirror} {Δ : Delta}

/-- The floor refuses the listing. -/
def Refused : Except DeltaError Delta → Prop
  | .error (.floor _ _) => True
  | _ => False

instance (r : Except DeltaError Delta) : Decidable (Refused r) := by
  unfold Refused
  split <;> infer_instance

/-- Mirror rows that `checkpoint` writes for changed files. -/
def Checkpointed (S : List DeltaChanged) (rows : List MirrorObject) : Prop :=
  List.Forall₂ (fun r m => m.pathLower = r.pathLower ∧ m.pathDisplay = r.pathDisplay ∧
    m.size = r.size ∧ m.contentHash = r.contentHash) S rows

/-- **A listing stays acceptable**: whichever changed files are checkpointed while the
trash waits, the next delta does not refuse it. -/
def StaysAcceptable (U : Unicode) (ratio : ℚ) (L : Listing) (M : Mirror) (Δ : Delta) : Prop :=
  ∀ S rows, S.Sublist Δ.changed.rows → Checkpointed S rows → ∀ runId,
    ¬ Refused (deltaRun U ratio runId (some L) (mergeConfirmed M rows))

/-- The listed files without a mirror row. -/
def freshFiles (L : Listing) (M : Mirror) : List DropboxObject :=
  (listedFiles L).filter fun d =>
    d.contentHash.isSome && d.size.isSome && (joined M d).isNone

/-- The listing reaches the floor of the mirror grown by its new files. -/
def RoomToGrow (ratio : ℚ) (L : Listing) (M : Mirror) : Prop :=
  M.size + (freshFiles L M).length = 0 ∨
    listingFloor ratio (M.size + (freshFiles L M).length) ≤ (listedFiles L).length

theorem changedRow_not_floor {display : Dict Str Str} {d : DropboxObject} {a b : ℕ} :
    changedRow runId display d ≠ .error (.floor a b) := by
  unfold changedRow
  split <;> simp

/-- The floor is the only refusal. -/
theorem refused_iff : Refused (deltaRun U ratio runId (some L) M) ↔ ¬ FloorOk ratio L M := by
  have hok : FloorOk ratio L M ↔
      ¬ (M.size ≠ 0 ∧ (listedFiles L).length < listingFloor ratio M.size) := by
    unfold FloorOk
    rw [not_and, not_lt]
  rw [hok, not_not]
  unfold deltaRun
  simp only
  split
  · rename_i h
    exact ⟨fun _ => h, fun _ => trivial⟩
  · rename_i h
    refine ⟨fun hr => ?_, fun hn => absurd hn h⟩
    -- past the floor nothing raises the floor's error
    cases hrows : changedRows U runId L M with
    | ok rows =>
      rw [hrows] at hr
      change Refused (if _ : _ then _ else _) at hr
      split at hr <;> exact hr.elim
    | error e =>
      rw [hrows] at hr
      have he : ∃ a b, e = .floor a b := by
        cases e with
        | floor a b => exact ⟨a, b, rfl⟩
        | _ => exact hr.elim
      obtain ⟨a, b, rfl⟩ := he
      unfold changedRows at hrows
      cases hmap : (L.rows.filter (isChanged M)).mapM (changedRow runId (displayPaths U L)) with
      | ok raw =>
        rw [hmap] at hrows
        cases hrows
      | error e =>
        rw [hmap] at hrows
        cases hrows
        obtain ⟨d, -, hd⟩ := Fallible.exists_of_mapM_error hmap
        exact absurd hd changedRow_not_floor

theorem listingFloor_mono (hratio : 0 ≤ ratio) {m n : ℕ} (h : m ≤ n) :
    listingFloor ratio m ≤ listingFloor ratio n := by
  refine max_le_max le_rfl (Int.toNat_le_toNat (Rat.floor_monotone ?_))
  exact mul_le_mul_of_nonneg_right (by exact_mod_cast h) hratio

/-- A changed file without a mirror row. -/
def isFresh (M : Mirror) (r : DeltaChanged) : Bool := (M.find? r.pathLower).isNone

/-- The fresh rows of a delta are the listed files without a mirror row. -/
theorem countP_isFresh {rows : List DeltaChanged} (h : changedRows U runId L M = .ok rows) :
    rows.countP (isFresh M) = (freshFiles L M).length := by
  obtain ⟨raw, hraw, rfl⟩ := changedRows_ok h
  have hmap : raw.map (isFresh M) =
      (L.rows.filter (isChanged M)).map fun d => (joined M d).isNone := by
    refine Fallible.mapM_ok_map hraw fun d r hr => ?_
    rw [joined, (changedRow_ok hr).1]
    rfl
  have hcount : raw.countP (isFresh M) =
      (L.rows.filter (isChanged M)).countP fun d => (joined M d).isNone := by
    have := congrArg (List.countP id) hmap
    rwa [List.countP_map, List.countP_map] at this
  rw [(List.perm_insertionSort _ raw).countP_eq, hcount, List.countP_eq_length_filter,
    List.filter_filter, freshFiles, listedFiles, List.filter_filter]
  refine congrArg List.length (List.filter_congr fun d _ => ?_)
  rw [isChanged]
  cases joined M d with
  | none => simp [Bool.and_assoc, Bool.and_comm]
  | some m => simp

/-- Checkpoints grow the mirror by the fresh files among them. -/
theorem size_mergeConfirmed {S : List DeltaChanged} {rows : List MirrorObject}
    (hS : Checkpointed S rows) (hnd : (S.map DeltaChanged.pathLower).Nodup) :
    (mergeConfirmed M rows).size = M.size + S.countP (isFresh M) := by
  have hpaths : rows.map MirrorObject.pathLower = S.map DeltaChanged.pathLower :=
    Pointwise.map_eq hS fun _ _ h => h.1
  have hfresh : rows.map (fun m => (M.find? m.pathLower).isNone) = S.map (isFresh M) :=
    Pointwise.map_eq hS fun r m h => by rw [h.1]; rfl
  rw [mergeConfirmed, Table.size_foldl_upsert mergeMirror (by rw [hpaths]; exact hnd)]
  have := congrArg (List.countP id) hfresh
  rw [List.countP_map, List.countP_map] at this
  exact congrArg (M.size + ·) this

theorem exists_checkpointed (S : List DeltaChanged) : ∃ rows, Checkpointed S rows :=
  ⟨S.map fun r => ⟨r.pathLower, r.pathDisplay, r.size, r.contentHash, [], [], none, 0⟩,
    List.forall₂_map_right_iff.2 (List.forall₂_same.2 fun _ _ => ⟨rfl, rfl, rfl, rfl⟩)⟩

/-- **A listing stays acceptable exactly when it reaches the floor of the grown mirror.** -/
theorem stays_acceptable_iff (budget : Budget)
    (h : deltaRun U budget.listingFloorRatio runId (some L) M = .ok Δ) :
    StaysAcceptable U budget.listingFloorRatio L M Δ ↔
      RoomToGrow budget.listingFloorRatio L M := by
  obtain ⟨L', hL, -, hrows, -⟩ := deltaRun_ok h
  cases hL
  have hfresh := countP_isFresh hrows
  constructor
  · intro hstays
    obtain ⟨rows, hck⟩ := exists_checkpointed Δ.changed.rows
    have hfloor := hstays _ rows (List.Sublist.refl _) hck 0
    rw [refused_iff, not_not, FloorOk, size_mergeConfirmed hck Δ.changed.nodup, hfresh] at hfloor
    rcases Nat.eq_zero_or_pos (M.size + (freshFiles L M).length) with h0 | h0
    · exact Or.inl h0
    · exact Or.inr (hfloor h0.ne')
  · intro hroom S rows hsub hck runId'
    rw [refused_iff, not_not, FloorOk,
      size_mergeConfirmed hck (Δ.changed.nodup.sublist (hsub.map _))]
    have hle : S.countP (isFresh M) ≤ (freshFiles L M).length := hfresh ▸ hsub.countP_le
    intro hne
    rcases hroom with h0 | hroom
    · omega
    · exact (listingFloor_mono budget.ratio_pos.le (by omega)).trans hroom

section Switch

/-- A listed file of one byte. -/
def plainFile (path : String) : DropboxObject where
  tag := .file
  name := path.toList.drop 1
  pathDisplay := some path.toList
  pathLower := some path.toList
  dropboxId := none
  size := some 1
  contentHash := some "h".toList
  isDownloadable := true
  firstPage := 1
  lastPage := 1

/-- The mirror row of such a file. -/
def plainRow (path : String) : MirrorObject :=
  ⟨path.toList, path.toList, 1, "h".toList, "s".toList, "s".toList, none, 1⟩

/-- The new account's listing. -/
def switchListing : Listing := ⟨[plainFile "/n1", plainFile "/n2"], by decide⟩

/-- The old account's files, still mirrored. -/
def switchMirror : Mirror :=
  ⟨["/o1", "/o2", "/o3", "/o4", "/o5"].map plainRow, by decide⟩

/-- The new account's files as changed rows. -/
def switchRows (runId : ℕ) : List DeltaChanged :=
  [⟨runId, "/n1".toList, "/n1".toList, 1, "h".toList⟩,
    ⟨runId, "/n2".toList, "/n2".toList, 1, "h".toList⟩]

/-- A first run: nothing is mirrored, and the listing stays acceptable to the end. -/
theorem stays_acceptable_first_run :
    ∃ Δ, deltaRun Unicode.latin Budget.small.listingFloorRatio 1 (some switchListing)
        Table.empty = .ok Δ ∧
      StaysAcceptable Unicode.latin Budget.small.listingFloorRatio switchListing Table.empty Δ := by
  have hrows : changedRows Unicode.latin 1 switchListing Table.empty = .ok (switchRows 1) := rfl
  have hfloor : FloorOk Budget.small.listingFloorRatio switchListing Table.empty :=
    fun h => absurd rfl h
  have hrun := deltaRun_accepts hfloor hrows (by decide)
  exact ⟨_, hrun, (stays_acceptable_iff Budget.small hrun).2 (Or.inr (by decide +kernel))⟩

/-- **An accepted listing is refused once its first file has landed**: the old account's
files are still mirrored, and the trash that would drop them waits for the batches. -/
theorem acceptable_listing_refused :
    ∃ Δ, deltaRun Unicode.latin Budget.small.listingFloorRatio 2 (some switchListing)
        switchMirror = .ok Δ ∧
      ¬ StaysAcceptable Unicode.latin Budget.small.listingFloorRatio switchListing switchMirror Δ := by
  have hfloor : FloorOk Budget.small.listingFloorRatio switchListing switchMirror :=
    fun _ => by decide +kernel
  have hrows : changedRows Unicode.latin 2 switchListing switchMirror = .ok (switchRows 2) := rfl
  refine ⟨_, deltaRun_accepts hfloor hrows (by decide), fun hstays => ?_⟩
  refine hstays [⟨2, "/n1".toList, "/n1".toList, 1, "h".toList⟩] [plainRow "/n1"]
    (List.Sublist.cons_cons _ (List.nil_sublist _))
    (List.Forall₂.cons ⟨rfl, rfl, rfl, rfl⟩ List.Forall₂.nil) 3 ?_
  decide +kernel

end Switch

end DropboxMirror
