import DropboxMirror.Lib.Fallible
import DropboxMirror.Model.Inventory

/-!
# The delta phase

`phases/p20_delta.py` compares the listing with `mirror_objects`: a listed file
whose size and hash the mirror does not hold is changed, a mirrored row without a
listed file is deleted. A listing under the floor is refused.

* `deltaRun_ok`, `deltaRun_accepts`: what an accepted delta is, and when one is.
* `mem_changedRows`, `mem_deletedRows`: membership in the two tables.
-/

namespace DropboxMirror

open Text

/-- The folder display paths of a listing by lower-cased path. -/
def folderDisplays (L : Listing) : Dict Str Str :=
  Dict.ofList
    ((L.rows.filter fun d => d.tag = .folder).map fun d => (pyStr d.pathLower, pyStr d.pathDisplay))

/-- `resolve`: the display path of a path, its parents taken from the folder rows and
remembered in `memo`. Each call shortens `lower`, so the fuel is not used up. -/
def resolve (folders : Dict Str Str) : ℕ → Dict Str Str → Str → Str → Str × Dict Str Str
  | 0, memo, _, _ => ([], memo)
  | fuel + 1, memo, lower, display =>
    match memo.get? lower with
    | some known => (known, memo)
    | none =>
      let parentLower := (rpartition '/' lower).1
      let name := (rpartition '/' display).2
      match folders.get? parentLower with
      | some parent =>
        let (parentDisplay, memo) := resolve folders fuel memo parentLower parent
        let path := parentDisplay ++ '/' :: name
        (path, memo.set lower path)
      | none =>
        let path := (rpartition '/' display).1 ++ '/' :: name
        (path, memo.set lower path)

/-- The memo `resolve` starts with. -/
def rootMemo : Dict Str Str := Dict.ofList [([], [])]

/-- The NFC display path of one listed entry. -/
def nfcDisplay (U : Unicode) (L : Listing) (d : DropboxObject) : Str :=
  U.nfc (resolve (folderDisplays L) ((pyStr d.pathLower).length + 1) rootMemo (pyStr d.pathLower)
    (pyStr d.pathDisplay)).1

/-- The files' display paths, in listing order, with one memo for all of them. -/
def resolveAll (U : Unicode) (folders : Dict Str Str) :
    Dict Str Str → List DropboxObject → List (Str × Str)
  | _, [] => []
  | memo, d :: rest =>
    let lower := pyStr d.pathLower
    let (path, memo) := resolve folders (lower.length + 1) memo lower (pyStr d.pathDisplay)
    (lower, U.nfc path) :: resolveAll U folders memo rest

/-- `display_paths`. -/
def displayPaths (U : Unicode) (L : Listing) : Dict Str Str :=
  Dict.ofList (resolveAll U (folderDisplays L) rootMemo (listedFiles L))

/-- Why the delta phase fails. -/
inductive DeltaError
  | noInventory
  | floor (listed least : ℕ)
  | integrity
  | keyError (path : Str)
  deriving DecidableEq, Repr

/-- The text of the phase's own two errors. -/
def DeltaError.message : DeltaError → Option String
  | .noInventory => some "inventory has not run"
  | .floor listed least =>
    some ("listing has " ++ toString listed ++ " files, under the floor of " ++ toString least ++
      "; a truncated listing must never become a trash list")
  | _ => none

/-- The delta tables and the phase's counts. -/
structure Delta where
  changed : Table DeltaChanged.pathLower
  deleted : Table DeltaDeleted.pathLower
  listedFiles : ℕ
  mirroredFiles : ℕ

/-- `max(1, int(mirrored * listing_floor_ratio))`. -/
def listingFloor (ratio : ℚ) (mirrored : ℕ) : ℕ := max 1 (mirrored * ratio).floor.toNat

/-- The mirror row a listed entry joins: none where its path is `NULL`. -/
def joined (M : Mirror) (d : DropboxObject) : Option MirrorObject := d.pathLower.bind M.find?

/-- The `WHERE` clause of the changed query. -/
def isChanged (M : Mirror) (d : DropboxObject) : Bool :=
  d.isFile && d.contentHash.isSome && d.size.isSome &&
    match joined M d with
    | none => true
    | some m => decide (d.size ≠ some m.size) || decide (d.contentHash ≠ some m.contentHash)

/-- The `WHERE` clause of the deleted query. -/
def isDeleted (L : Listing) (m : MirrorObject) : Bool :=
  !L.rows.any fun d => decide (d.pathLower = some m.pathLower) && d.isFile

/-- One row of `delta_changed`; the table takes no `NULL`. -/
def changedRow (runId : ℕ) (display : Dict Str Str) (d : DropboxObject) :
    Except DeltaError DeltaChanged :=
  match display.get? (pyStr d.pathLower), d.pathLower, d.size, d.contentHash with
  | none, _, _, _ => .error (.keyError (pyStr d.pathLower))
  | some pathDisplay, some pathLower, some size, some contentHash =>
    .ok { runId, pathLower, pathDisplay, size, contentHash }
  | _, _, _, _ => .error .integrity

/-- One row of `delta_deleted`. -/
def deletedRow (runId : ℕ) (m : MirrorObject) : DeltaDeleted :=
  { runId, pathLower := m.pathLower, pathDisplay := m.pathDisplay, protonUid := m.protonUid }

/-- The rows of `delta_changed`, `ORDER BY path_lower`. -/
def changedRows (U : Unicode) (runId : ℕ) (L : Listing) (M : Mirror) :
    Except DeltaError (List DeltaChanged) := do
  let rows ← (L.rows.filter (isChanged M)).mapM (changedRow runId (displayPaths U L))
  return rows.insertionSort fun a b => a.pathLower ≤ b.pathLower

/-- The rows of `delta_deleted`. -/
def deletedRows (runId : ℕ) (L : Listing) (M : Mirror) : Table DeltaDeleted.pathLower where
  rows := (M.filter (isDeleted L)).rows.map (deletedRow runId)
  nodup := by
    rw [List.map_map]
    exact (M.filter (isDeleted L)).nodup

/-- `run`: the delta of a run whose inventory is `inventory`. A refused or failed delta
leaves the tables as they were. -/
def deltaRun (U : Unicode) (ratio : ℚ) (runId : ℕ) (inventory : Option Listing) (M : Mirror) :
    Except DeltaError Delta :=
  match inventory with
  | none => .error .noInventory
  | some L =>
    let listed := (listedFiles L).length
    let mirrored := M.size
    if mirrored ≠ 0 ∧ listed < listingFloor ratio mirrored then
      .error (.floor listed (listingFloor ratio mirrored))
    else do
      let rows ← changedRows U runId L M
      if h : (rows.map DeltaChanged.pathLower).Nodup then
        return {
          changed := ⟨rows, h⟩, deleted := deletedRows runId L M, listedFiles := listed,
          mirroredFiles := mirrored }
      else .error .integrity

section Tables

variable {U : Unicode} {ratio : ℚ} {runId : ℕ} {L : Listing} {M : Mirror}

/-- The floor the listing has to reach. -/
def FloorOk (ratio : ℚ) (L : Listing) (M : Mirror) : Prop :=
  M.size ≠ 0 → listingFloor ratio M.size ≤ (listedFiles L).length

theorem resolveAll_keys (folders : Dict Str Str) (ds : List DropboxObject) :
    ∀ memo, (resolveAll U folders memo ds).map Prod.fst = ds.map fun d => pyStr d.pathLower := by
  induction ds with
  | nil => intro memo; rfl
  | cons d ds ih => intro memo; simp only [resolveAll, List.map_cons, ih]

/-- A row of `delta_changed` carries the entry's own path, size and hash. -/
theorem changedRow_ok {display : Dict Str Str} {d : DropboxObject} {r : DeltaChanged}
    (h : changedRow runId display d = .ok r) :
    d.pathLower = some r.pathLower ∧ d.size = some r.size ∧ d.contentHash = some r.contentHash ∧
      display.get? (pyStr d.pathLower) = some r.pathDisplay := by
  unfold changedRow at h
  split at h
  · cases h
  · rename_i h1 h2 h3 h4
    cases h
    exact ⟨h2, h3, h4, h1⟩
  · cases h

theorem changedRows_ok {rows : List DeltaChanged} (h : changedRows U runId L M = .ok rows) :
    ∃ raw, (L.rows.filter (isChanged M)).mapM (changedRow runId (displayPaths U L)) = .ok raw ∧
      rows = raw.insertionSort fun a b => a.pathLower ≤ b.pathLower := by
  obtain ⟨raw, hraw, h⟩ := Fallible.bind_ok h
  exact ⟨raw, hraw, (Except.ok.inj h).symm⟩

/-- **`delta_changed` has a row for every changed file, and no other.** -/
theorem mem_changedRows {rows : List DeltaChanged} (h : changedRows U runId L M = .ok rows)
    {r : DeltaChanged} :
    r ∈ rows ↔
      ∃ d ∈ L, isChanged M d = true ∧ changedRow runId (displayPaths U L) d = .ok r := by
  obtain ⟨raw, hraw, rfl⟩ := changedRows_ok h
  rw [(List.perm_insertionSort _ raw).mem_iff, Fallible.mem_of_mapM_ok hraw]
  constructor
  · rintro ⟨d, hd, hr⟩
    exact ⟨d, (List.mem_filter.1 hd).1, (List.mem_filter.1 hd).2, hr⟩
  · rintro ⟨d, hd, hc, hr⟩
    exact ⟨d, List.mem_filter.2 ⟨hd, hc⟩, hr⟩

theorem length_changedRows {rows : List DeltaChanged} (h : changedRows U runId L M = .ok rows) :
    rows.length = (L.rows.filter (isChanged M)).length := by
  obtain ⟨raw, hraw, rfl⟩ := changedRows_ok h
  rw [List.length_insertionSort, Fallible.mapM_ok_length hraw]

/-- **`delta_deleted` has a row for every mirrored path without a listed file.** -/
theorem mem_deletedRows {r : DeltaDeleted} :
    r ∈ deletedRows runId L M ↔ ∃ m ∈ M, isDeleted L m = true ∧ deletedRow runId m = r := by
  rw [Table.mem_def, deletedRows, List.mem_map]
  simp only [← Table.mem_def, Table.mem_filter, and_assoc]

theorem isDeleted_iff {m : MirrorObject} :
    isDeleted L m = true ↔ ∀ d ∈ L, d.pathLower = some m.pathLower → d.isFile = false := by
  rw [isDeleted, Bool.not_eq_true', List.any_eq_false]
  simp only [Bool.and_eq_true, decide_eq_true_eq, not_and, Bool.not_eq_true]
  rfl

/-- An accepted delta. -/
theorem deltaRun_ok {inventory : Option Listing} {Δ : Delta}
    (h : deltaRun U ratio runId inventory M = .ok Δ) :
    ∃ L, inventory = some L ∧ FloorOk ratio L M ∧
      changedRows U runId L M = .ok Δ.changed.rows ∧ Δ.deleted = deletedRows runId L M := by
  unfold deltaRun at h
  split at h
  · cases h
  rename_i L
  simp only at h
  split at h
  · cases h
  rename_i hfloor
  obtain ⟨rows, hrows, h⟩ := Fallible.bind_ok h
  split at h
  · cases h
    refine ⟨L, rfl, fun hM => ?_, hrows, rfl⟩
    by_contra hlt
    exact hfloor ⟨hM, by omega⟩
  · cases h

/-- When a delta is accepted. -/
theorem deltaRun_accepts {rows : List DeltaChanged} (hfloor : FloorOk ratio L M)
    (hrows : changedRows U runId L M = .ok rows)
    (hnd : (rows.map DeltaChanged.pathLower).Nodup) :
    deltaRun U ratio runId (some L) M = .ok {
      changed := ⟨rows, hnd⟩, deleted := deletedRows runId L M,
      listedFiles := (listedFiles L).length, mirroredFiles := M.size } := by
  unfold deltaRun
  simp only
  rw [if_neg (fun h => absurd (hfloor h.1) (by omega)), hrows]
  exact dif_pos hnd

end Tables

end DropboxMirror
