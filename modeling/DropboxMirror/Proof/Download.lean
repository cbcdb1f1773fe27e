import DropboxMirror.Model.Batch
import DropboxMirror.Model.Delta

/-!
# What is listed and what is downloaded

A listing is asked for under `dropbox.root` in the account's root namespace; a download
names the stored path, without the root and without a namespace. The two address one
object exactly for an empty root in the home namespace
(`download_addresses_listed_iff`).
-/

namespace DropboxMirror

open Text

variable {U : Unicode}

/-- The namespace a request resolves its path in: the user's home without a header. -/
def ApiRequest.inNamespace (home : Str) (r : ApiRequest) : Str := r.pathRoot.getD home

/-- The components of an API path, folded as `_scope_relative` compares them. -/
def foldedParts (U : Unicode) (path : Str) : List Str :=
  ((lstrip '/' path).splitOn '/').map U.casefold

/-- The download addresses the object at `path` in the listing. -/
structure SameObject (U : Unicode) (home : Str) (listing : ApiRequest) (path : Str)
    (download : ApiRequest) : Prop where
  samePath : foldedParts U download.path = foldedParts U path
  sameNamespace : download.inNamespace home = listing.inNamespace home

theorem length_splitOn_lstrip_le (s : Str) :
    ((lstrip '/' s).splitOn '/').length ≤ (s.splitOn '/').length := by
  induction s with
  | nil => rfl
  | cons x s ih =>
    by_cases hx : x = '/'
    · subst hx
      rw [lstrip_cons_self, List.splitOn_cons_eq_if_modifyHead]
      simp only [beq_self_eq_true, if_true, List.length_cons]
      omega
    · rw [lstrip_of_head (by simpa using hx)]

/-- A path stored under a root has fewer components than the listed one. -/
theorem scopeRelative_shorter {scope path stored : Str} (hscope : scope ≠ [])
    (h : scopeRelative U scope (some path) = .ok (some stored)) :
    (foldedParts U stored).length < (foldedParts U path).length := by
  simp only [scopeRelative, if_neg hscope] at h
  split at h
  · cases h
  · rename_i hacc
    rw [not_or] at hacc
    have hlen := hacc.1
    have hst := Option.some.inj (Except.ok.inj h)
    have hpos : 0 < (scope.splitOn '/').length :=
      List.length_pos_iff.2 (List.splitOn_ne_nil '/' scope)
    rw [foldedParts, foldedParts, List.length_map, List.length_map, ← hst, lstrip_cons_self]
    refine lt_of_le_of_lt (length_splitOn_lstrip_le _) ?_
    rw [split_join]
    · rw [List.length_drop]
      omega
    · intro hnil
      have := congrArg List.length hnil
      rw [List.length_drop, List.length_nil] at this
      omega
    · intro x hx
      exact mem_split (List.mem_of_mem_drop hx)

/-- **The download addresses the listed object exactly for an empty root in the home
namespace.** -/
theorem download_addresses_listed_iff {root : Scope} {rootNamespace home path : Str} {page : ℕ}
    {e : ApiEntry} {d : DropboxObject} {i : BatchItem} {listing : ApiRequest}
    (hlist : listFolderRequest root rootNamespace = .ok listing) (hpath : e.pathLower = some path)
    (hstore : entryObject U root.root page e = .ok d) (hitem : d.pathLower = some i.pathLower) :
    SameObject U home listing path (downloadRequest i.pathLower) ↔
      root.root = [] ∧ (rootNamespace = [] ∨ rootNamespace = home) := by
  obtain ⟨api, -, hlist⟩ := Fallible.bind_ok hlist
  obtain ⟨disp, -, hstore⟩ := Fallible.bind_ok hstore
  obtain ⟨stored, hrel, hstore⟩ := Fallible.bind_ok hstore
  have hstored : stored = some i.pathLower := by
    rw [← hitem, ← Except.ok.inj hstore]
  rw [hpath, hstored] at hrel
  -- a download goes to the home namespace, the listing where the scope says
  have hns : (downloadRequest i.pathLower).inNamespace home = listing.inNamespace home ↔
      rootNamespace = [] ∨ rootNamespace = home := by
    rw [← Except.ok.inj hlist]
    by_cases h : rootNamespace = []
    · simp [ApiRequest.inNamespace, downloadRequest, h]
    · simp [ApiRequest.inNamespace, downloadRequest, h, eq_comm]
  constructor
  · intro hsame
    refine ⟨?_, hns.1 hsame.sameNamespace⟩
    by_contra hroot
    -- below a root the stored path is shorter than the listed one
    have hlt := scopeRelative_shorter hroot hrel
    have heq := congrArg List.length hsame.samePath
    have hpos : (downloadRequest i.pathLower).path = i.pathLower := rfl
    rw [hpos] at heq
    omega
  · rintro ⟨hroot, hhome⟩
    refine ⟨?_, hns.2 hhome⟩
    simp only [scopeRelative, if_pos hroot] at hrel
    have hp : path = i.pathLower := Option.some.inj (Except.ok.inj hrel)
    rw [hp]
    rfl

section Photos

/-- The folder `Photos`. -/
def photosScope : Scope := ⟨"Photos".toList, rfl⟩

/-- A file entry of the listing of `Photos`. -/
def photoEntry : ApiEntry where
  tag := .file
  name := "a.jpg".toList
  pathDisplay := some "/Photos/a.jpg".toList
  pathLower := some "/photos/a.jpg".toList
  id := some "id:1".toList
  size := some 1
  contentHash := some "h".toList
  isDownloadable := some true

/-- The row it is stored as, under a stored path. -/
def photoRow (display lower : String) : DropboxObject where
  tag := .file
  name := "a.jpg".toList
  pathDisplay := some display.toList
  pathLower := some lower.toList
  dropboxId := some "id:1".toList
  size := some 1
  contentHash := some "h".toList
  isDownloadable := true
  firstPage := 1
  lastPage := 1

/-- The batch item of the row. -/
def photoItem (display lower : String) : BatchItem :=
  ⟨1, lower.toList, display.toList, 1, "h".toList, .planned, none, none, .empty⟩

/-- Without a root, and with the home as the root namespace, the download is right. -/
theorem download_addresses_listed_home :
    SameObject Unicode.latin "7".toList ⟨[], some "7".toList⟩ "/photos/a.jpg".toList
      (downloadRequest (photoItem "/Photos/a.jpg" "/photos/a.jpg").pathLower) := by
  have hlist : listFolderRequest wholeScope "7".toList = .ok ⟨[], some "7".toList⟩ := rfl
  have hstore : entryObject Unicode.latin wholeScope.root 1 photoEntry =
      .ok (photoRow "/Photos/a.jpg" "/photos/a.jpg") := rfl
  exact (download_addresses_listed_iff hlist rfl hstore rfl).2 ⟨rfl, Or.inr rfl⟩

/-- **Under the root `Photos`, or in a team's namespace, the download asks for another
object**: the root is not put back, and the namespace header is not sent. -/
theorem download_misses_listed :
    listFolderRequest photosScope "7".toList = .ok ⟨"/Photos".toList, some "7".toList⟩ ∧
      entryObject Unicode.latin photosScope.root 1 photoEntry = .ok (photoRow "/a.jpg" "/a.jpg") ∧
      ¬ SameObject Unicode.latin "7".toList ⟨"/Photos".toList, some "7".toList⟩
        "/photos/a.jpg".toList (downloadRequest (photoItem "/a.jpg" "/a.jpg").pathLower) ∧
      listFolderRequest wholeScope "9".toList = .ok ⟨[], some "9".toList⟩ ∧
      entryObject Unicode.latin wholeScope.root 1 photoEntry =
        .ok (photoRow "/Photos/a.jpg" "/photos/a.jpg") ∧
      ¬ SameObject Unicode.latin "7".toList ⟨[], some "9".toList⟩ "/photos/a.jpg".toList
        (downloadRequest (photoItem "/Photos/a.jpg" "/photos/a.jpg").pathLower) := by
  refine ⟨rfl, rfl, fun h => ?_, rfl, rfl, fun h => ?_⟩
  · exact absurd h.samePath (by decide)
  · exact absurd h.sameNamespace (by decide)

end Photos

end DropboxMirror
