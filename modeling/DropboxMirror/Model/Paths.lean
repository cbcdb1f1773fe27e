import DropboxMirror.Lib.Unicode

/-!
# Paths

The path functions of `filesystem.py`, `guards.py`, `phases/batch.py` and
`providers/proton_cli.py`. A Dropbox path starts with `'/'`; a CLI path is a
destination and escaped components below it; staging is laid out by components.
-/

namespace DropboxMirror

open Text

/-- `str(value)` of a value that may be `None`. -/
def pyStr : Option Str → Str
  | none => "None".toList
  | some s => s

/-- `comparison_key`: a path folded for comparison, with one leading `'/'`. -/
def comparisonKey (U : Unicode) (path : Str) : Str :=
  '/' :: U.casefold (U.nfc (lstrip '/' path))

/-- `PurePosixPath(path).parts` without the root: empty and `.` parts are dropped. -/
def pathParts (path : Str) : List Str :=
  (path.splitOn '/').filter fun c => decide (c ≠ [] ∧ c ≠ ['.'])

/-- `PurePosixPath(path).name`. -/
def baseName (path : Str) : Str := (pathParts path).getLastD []

/-- `local_path`: the components of a display path below the staging directory. -/
def localPath (pathDisplay : Str) : List Str := pathParts (lstrip '/' pathDisplay)

/-- `escape_component`. -/
def escapeComponent (name : Str) : Str :=
  name.flatMap fun c => if c = '\\' ∨ c = '/' then ['\\', c] else [c]

/-- `parent_cli_path`: the CLI path of the folder that holds a display path. -/
def parentCliPath (destination pathDisplay : Str) : Str :=
  match (localPath pathDisplay).dropLast with
  | [] => rstrip '/' destination
  | parts => rstrip '/' destination ++ '/' :: join '/' (parts.map escapeComponent)

/-- `child_cli_path`: a child is addressed by name, a child with a namesake by UID. -/
def childCliPath (parent name uid : Str) (duplicate : Bool) : Str :=
  rstrip '/' parent ++ '/' :: (if duplicate then uid else escapeComponent name)

/-- `ProtonCLIError` of a path. -/
inductive CliPathError
  | noParent
  deriving DecidableEq, Repr

/-- The message of a path that cannot be split. -/
def CliPathError.message : CliPathError → String
  | .noParent => "Proton destination must be a folder below a supported CLI root"

/-- `preceding_backslashes`: the backslashes a text ends in. -/
def trailingBackslashes (s : Str) : ℕ := (s.reverse.takeWhile (· == '\\')).length

/-- The loop of `split_parent_path` over the indices, from the right down to 1. -/
def splitParentLoop (path : Str) : ℕ → Except CliPathError (Str × Str)
  | 0 => .error .noParent
  | index + 1 =>
    if path[index + 1]? ≠ some '/' then splitParentLoop path index
    else
      let parent := path.take (index + 1)
      let component := path.drop (index + 2)
      if trailingBackslashes parent % 2 = 0 then
        if parent ≠ [] ∧ component ≠ [] then .ok (parent, component) else .error .noParent
      else splitParentLoop path index

/-- `split_parent_path`: a path is split at its last `'/'` that is not escaped. -/
def splitParentPath (path : Str) : Except CliPathError (Str × Str) :=
  splitParentLoop path (path.length - 1)

/-- Why `validate_dropbox_scope` refuses `dropbox.root`. -/
inductive GuardError
  | unsafeCharacter
  | notRelative
  | unsafeSegment
  deriving DecidableEq, Repr

/-- The message of a refused `dropbox.root`. -/
def GuardError.message : GuardError → String
  | .unsafeCharacter => "dropbox.root contains an unsafe character"
  | .notRelative => "dropbox.root must be relative to the configured namespace"
  | .unsafeSegment => "dropbox.root contains an unsafe path segment"

/-- The segments of a configured root: none of the empty one. -/
def scopeParts (value : Str) : List Str := if value = [] then [] else value.splitOn '/'

/-- `validate_dropbox_scope`. -/
def validateDropboxScope (value : Str) : Except GuardError Str :=
  if Char.ofNat 0 ∈ value ∨ '\\' ∈ value ∨ ':' ∈ value then .error .unsafeCharacter
  else if value.head? = some '/' then .error .notRelative
  else if ∃ part ∈ scopeParts value, part = [] ∨ part = ['.'] ∨ part = ['.', '.'] then .error .unsafeSegment
  else .ok (join '/' (scopeParts value))

/-- `dropbox_api_scope`: the path a listing is asked for. -/
def dropboxApiScope (value : Str) : Except GuardError Str := do
  let scope ← validateDropboxScope value
  return if scope = [] then [] else '/' :: scope

/-- A validated `dropbox.root`. -/
structure Scope where
  root : Str
  valid : validateDropboxScope root = .ok root

/-- The whole account. -/
def wholeScope : Scope := ⟨[], rfl⟩

/-- Paths of proper components have one leading `'/'` stripped by `lstrip`. -/
theorem lstrip_slash_join {s : Str} {p : List Str} (hs : Proper '/' s) :
    lstrip '/' ('/' :: join '/' (s :: p)) = join '/' (s :: p) := by
  rw [lstrip_cons_self, hs.lstrip_join]

end DropboxMirror
