import DropboxMirror.Model.State

/-!
# The Dropbox side: entries, requests and the inventory phase

`providers/dropbox_api.py` stores each entry of a listing page under its path
relative to `dropbox.root` (`upsertEntry`) and downloads a stored path
(`downloadRequest`). `phases/p10_inventory.py` then marks files without a content
hash (`markUnhashed`) and rebuilds the display paths (`recaseDisplayPaths`).
-/

namespace DropboxMirror

open Text

/-- An entry of a `files/list_folder` page. -/
structure ApiEntry where
  tag : Tag
  name : Str
  pathDisplay : Option Str
  pathLower : Option Str
  id : Option Str
  size : Option ℕ
  contentHash : Option Str
  isDownloadable : Option Bool
  deriving DecidableEq, Repr

/-- `DropboxAPIError` of a listing. -/
inductive ApiError
  | outsideScope (path : Str)
  deriving DecidableEq, Repr

/-- `_scope_relative`: the configured root is stripped from a path below it. -/
def scopeRelative (U : Unicode) (scope : Str) : Option Str → Except ApiError (Option Str)
  | none => .ok none
  | some path =>
    if scope = [] then .ok (some path)
    else
      let actual := (lstrip '/' path).splitOn '/'
      let expected := scope.splitOn '/'
      if actual.length ≤ expected.length ∨
          (actual.zip expected).any (fun p => decide (U.casefold p.1 ≠ U.casefold p.2)) then
        .error (.outsideScope path)
      else .ok (some ('/' :: join '/' (actual.drop expected.length)))

/-- The row `_upsert_entry` writes for an entry. -/
def entryObject (U : Unicode) (scope : Str) (page : ℕ) (e : ApiEntry) :
    Except ApiError DropboxObject := do
  let pathDisplay ← scopeRelative U scope e.pathDisplay
  let pathLower ← scopeRelative U scope e.pathLower
  return {
    tag := e.tag, name := e.name, pathDisplay, pathLower, dropboxId := e.id, size := e.size,
    contentHash := e.contentHash, isDownloadable := e.isDownloadable.getD true,
    firstPage := page, lastPage := page }

/-- `ON CONFLICT`: every column but `first_page` takes the new value. -/
def mergeObject : Table.Merge DropboxObject.objectKey where
  run old new := { new with firstPage := old.firstPage }
  key_run _ _ _ := rfl

/-- `_upsert_entry`. -/
def upsertEntry (U : Unicode) (scope : Str) (page : ℕ) (L : Listing) (e : ApiEntry) :
    Except ApiError Listing := do
  let d ← entryObject U scope page e
  return L.upsert mergeObject d

/-- A request to the Dropbox API: the path it names and the namespace of its
`Dropbox-API-Path-Root` header, if it sends one. -/
structure ApiRequest where
  path : Str
  pathRoot : Option Str
  deriving DecidableEq, Repr

/-- `inventory`: the first listing request, under the account's root namespace. -/
def listFolderRequest (root : Scope) (rootNamespace : Str) : Except GuardError ApiRequest := do
  let path ← dropboxApiScope root.root
  return { path, pathRoot := if rootNamespace = [] then none else some rootNamespace }

/-- `download`: the stored path, and no namespace header. -/
def downloadRequest (pathLower : Str) : ApiRequest := { path := pathLower, pathRoot := none }

/-- The inventory phase: a file without a content hash or a size is not downloadable. -/
def markUnhashed (L : Listing) : Listing :=
  L.modify (fun d =>
    if d.tag = .file ∧ d.isDownloadable = true ∧ (d.contentHash = none ∨ d.size = none) then
      { d with isDownloadable := false }
    else d) (fun d => by split <;> rfl)

/-- The folder names of a listing by lower-cased path. -/
def folderNames (L : Listing) : Dict Str Str :=
  Dict.ofList ((L.rows.filter fun d => d.tag = .folder).map fun d => (pyStr d.pathLower, d.name))

/-- The ancestors' names of a path: a listed folder's own name, else the entry's spelling. -/
def rebuildParents (names : Dict Str Str) : Str → List (Str × Str) → List Str
  | _, [] => []
  | pre, (lower, display) :: rest =>
    let here := pre ++ '/' :: lower
    (names.get? here).getD display :: rebuildParents names here rest

/-- The display path of an entry rebuilt from its ancestors' names and its own. -/
def recasedDisplay (names : Dict Str Str) (d : DropboxObject) : Str :=
  let lowerParts := (lstrip '/' (pyStr d.pathLower)).splitOn '/'
  let displayParts := (lstrip '/' (pyStr d.pathDisplay)).splitOn '/'
  let displayParts := if displayParts.length ≠ lowerParts.length then lowerParts else displayParts
  '/' :: join '/'
    (rebuildParents names [] (lowerParts.dropLast.zip displayParts.dropLast) ++ [d.name])

/-- `recase_display_paths`. -/
def recaseDisplayPaths (L : Listing) : Listing :=
  L.modify (fun d => { d with pathDisplay := some (recasedDisplay (folderNames L) d) })
    (fun _ => rfl)

/-- A listing as the inventory phase leaves it. -/
def finishListing (L : Listing) : Listing := recaseDisplayPaths (markUnhashed L)

theorem mem_markUnhashed {L : Listing} {d : DropboxObject} (h : d ∈ markUnhashed L)
    (hd : d.isFile = true) : d.contentHash.isSome ∧ d.size.isSome := by
  obtain ⟨d₀, -, rfl⟩ := Table.mem_modify.1 h
  split at hd
  · simp [DropboxObject.isFile] at hd
  · rename_i hn
    simp only [DropboxObject.isFile, Bool.and_eq_true, decide_eq_true_eq] at hd
    rw [if_neg hn]
    simp only [hd, true_and, not_or] at hn
    exact ⟨Option.isSome_iff_ne_none.2 hn.1, Option.isSome_iff_ne_none.2 hn.2⟩

theorem mem_recaseDisplayPaths {L : Listing} {d : DropboxObject} :
    d ∈ recaseDisplayPaths L ↔
      ∃ d₀ ∈ L, { d₀ with pathDisplay := some (recasedDisplay (folderNames L) d₀) } = d :=
  Table.mem_modify

/-- **After the inventory phase every downloadable file has a hash and a size.** -/
theorem mem_finishListing {L : Listing} {d : DropboxObject} (h : d ∈ finishListing L)
    (hd : d.isFile = true) : d.contentHash.isSome ∧ d.size.isSome := by
  obtain ⟨d₀, h₀, rfl⟩ := mem_recaseDisplayPaths.1 h
  exact mem_markUnhashed (d := d₀) h₀ hd

end DropboxMirror
