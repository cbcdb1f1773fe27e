import DropboxMirror.Lib.Keyed
import DropboxMirror.Model.Hashing
import DropboxMirror.Model.Paths

/-!
# The staging directory

A tree of files and directories below `.run/staging`, each named by its
components. `Path.mkdir(parents=True)`, the write of a download, `unlink` and
`_prune_empty_dirs` are functions on it.
-/

namespace DropboxMirror

/-- The files with their bytes, and the directories, without the root. -/
structure Staging where
  files : Dict (List Str) Bytes
  dirs : List (List Str)

/-- The directory after `_clear`. -/
def Staging.cleared : Staging := ⟨Table.empty, []⟩

instance : Inhabited Staging := ⟨Staging.cleared⟩

/-- `mkdir(parents=True, exist_ok=True)`: fails where a file is in the way. -/
def Staging.mkdirs (s : Staging) (path : List Str) : Option Staging :=
  let made := path.inits.filter fun p => decide (p ≠ [])
  if made.any fun p => (s.files.get? p).isSome then none
  else some { s with dirs := s.dirs ++ made.filter fun p => decide (p ∉ s.dirs) }

/-- `_write_download` into an existing parent: fails where the target is a directory. -/
def Staging.put (s : Staging) (path : List Str) (body : Bytes) : Option Staging :=
  if path = [] ∨ path ∈ s.dirs then none else some { s with files := s.files.set path body }

/-- `unlink`. -/
def Staging.unlink (s : Staging) (path : List Str) : Staging :=
  { s with files := s.files.filter fun f => decide (f.1 ≠ path) }

/-- `unlink(missing_ok=True)`: fails on a directory. -/
def Staging.unlinkMissingOk (s : Staging) (path : List Str) : Option Staging :=
  if path ∈ s.dirs then none else some (s.unlink path)

/-- `os.rmdir`: only an empty directory goes. -/
def Staging.rmdir (s : Staging) (path : List Str) : Staging :=
  if (s.files.rows.any fun f => decide (path <+: f.1)) ||
      s.dirs.any fun d => decide (path <+: d ∧ d ≠ path) then s
  else { s with dirs := s.dirs.filter fun d => decide (d ≠ path) }

/-- `_prune_empty_dirs`: a directory is tried after everything below it. -/
def Staging.pruneEmptyDirs (s : Staging) : Staging :=
  (s.dirs.insertionSort fun a b => b.length ≤ a.length).foldl Staging.rmdir s

/-- `sum(1 for p in staging.rglob("*") if p.is_dir())`. -/
def Staging.folders (s : Staging) : ℕ := s.dirs.length

theorem Staging.mkdirs_files {s s' : Staging} {path : List Str} (h : s.mkdirs path = some s') :
    s'.files = s.files := by
  unfold Staging.mkdirs at h
  dsimp only at h
  split at h
  · cases h
  · obtain rfl := Option.some.inj h
    rfl

/-- A write changes one file. -/
theorem Staging.get?_put {s s' : Staging} {path : List Str} {body : Bytes}
    (h : s.put path body = some s') (q : List Str) :
    s'.files.get? q = if path = q then some body else s.files.get? q := by
  unfold Staging.put at h
  split at h
  · cases h
  · obtain rfl := Option.some.inj h
    exact Dict.get?_set _ _ _ _

/-- An unlink removes one file. -/
theorem Staging.get?_unlink_eq (s : Staging) (path q : List Str) :
    (s.unlink path).files.get? q = if path = q then none else s.files.get? q := by
  rw [Dict.get?, Staging.unlink, Table.find?_filter, Dict.get?]
  cases hf : s.files.find? q with
  | none => simp
  | some f =>
    have hk : f.1 = q := (Table.find?_eq_some.1 hf).2
    by_cases hpq : path = q
    · simp [Option.filter, hk, hpq]
    · simp [Option.filter, hk, hpq, Ne.symm hpq]

theorem Staging.get?_unlinkMissingOk {s s' : Staging} {path : List Str}
    (h : s.unlinkMissingOk path = some s') (q : List Str) :
    s'.files.get? q = if path = q then none else s.files.get? q := by
  unfold Staging.unlinkMissingOk at h
  split at h
  · cases h
  · obtain rfl := Option.some.inj h
    exact s.get?_unlink_eq path q

@[simp] theorem Staging.rmdir_files (s : Staging) (path : List Str) : (s.rmdir path).files = s.files := by
  unfold Staging.rmdir
  split <;> rfl

/-- Pruning touches no file. -/
@[simp] theorem Staging.pruneEmptyDirs_files (s : Staging) : s.pruneEmptyDirs.files = s.files := by
  have key : ∀ (l : List (List Str)) (t : Staging), (l.foldl Staging.rmdir t).files = t.files := by
    intro l
    induction l with
    | nil => intro t; rfl
    | cons d l ih => intro t; rw [List.foldl_cons, ih, Staging.rmdir_files]
  exact key _ s

end DropboxMirror
