import DropboxMirror.Lib.Cleanup
import DropboxMirror.Lib.Keyed
import DropboxMirror.Model.Logging

/-!
# Encryption with a key on the disk

`crypt.py`: `age` reads its identity from a file, which is written for one call and removed
after it. Every file operation is a commit; what each command comes to is given, and a
command that fails may have begun its output.
-/

namespace DropboxMirror

open Crash

/-- A file of the work directory: the key, a plain text, or an encrypted one. -/
inductive WorkFile (κ : Type)
  | key (text : Str)
  | plain (body : κ)
  | encrypted (body : κ)
  deriving DecidableEq

/-- The files of the work directory that are made for one call. -/
abbrev WorkDir (κ : Type) := Dict Str (WorkFile κ)

/-- Why a call of `crypt.py` raises. -/
inductive CryptError
  | unset
  | os
  | timeout
  | age (what : String) (code : ℕ)
  deriving DecidableEq, Repr

/-- The text of its own two errors. -/
def CryptError.message : CryptError → Option String
  | .unset => some "required secret is unset: MIRROR_AGE_IDENTITY"
  | .age what code => some ("age " ++ what ++ " failed with exit " ++ toString code)
  | _ => none

/-- How a file is written: it is, it cannot be opened, or the write fails once it is. -/
inductive FileWrite
  | done
  | refused
  | torn
  deriving DecidableEq, Repr

/-- How a run of `age` ends; a failed one exits with a code other than zero. -/
inductive AgeRun
  | done
  | failed (less : ℕ) (begun : Bool)
  | timeout (begun : Bool)
  deriving DecidableEq, Repr

/-- A call of `crypt.py` that needs the key once. -/
structure KeyedRun where
  key : FileWrite
  run : AgeRun
  deriving DecidableEq, Repr

/-- What one encryption meets: `age-keygen`, which prints the recipient, and `age`. -/
structure EncryptEnv where
  recipient : KeyedRun
  run : AgeRun
  deriving DecidableEq, Repr

/-- `paths.age_key`. -/
def ageKey : Str := "age.key".toList

/-- `str.strip()`. -/
def stripSpaces (text : Str) : Str := (text.dropWhile isWhitespace).rdropWhile isWhitespace

section Files

variable {κ ε : Type}

/-- A file is written. -/
def writeFile (name : Str) (file : WorkFile κ) : Prog (WorkDir κ) ε Unit := Prog.write (·.set name file)

/-- `unlink(missing_ok=True)`. -/
def unlinkFile (name : Str) : Prog (WorkDir κ) ε Unit := Prog.write (·.erase name)

/-- `with _identity_file(identity, key_file)`. -/
def withIdentity {α : Type} (identity : Str) (key : FileWrite)
    (body : Prog (WorkDir κ) CryptError α) : Prog (WorkDir κ) CryptError α :=
  if identity = [] then Prog.fail .unset
  else
    match key with
    | .refused => Prog.fail .os
    | .torn => do
      writeFile ageKey (.key [])
      Prog.fail .os
    | .done => do
      writeFile ageKey (.key (stripSpaces identity ++ ['\n']))
      body.tryFinally (unlinkFile ageKey)

/-- `run`: the exit code of a command that writes `target`. -/
def runAge (run : AgeRun) (target : Str) (file : WorkFile κ) : Prog (WorkDir κ) CryptError ℕ :=
  match run with
  | .done => do
    writeFile target file
    return 0
  | .failed less begun => do
    if begun then writeFile target file
    return less + 1
  | .timeout begun => do
    if begun then writeFile target file
    Prog.fail .timeout

/-- `_check`. -/
def checkAge (code : ℕ) (what : String) : Prog (WorkDir κ) CryptError Unit :=
  if code = 0 then return () else Prog.fail (.age what code)

/-- `recipient`, whose command writes no file. -/
def recipient (identity : Str) (env : KeyedRun) : Prog (WorkDir κ) CryptError Unit := do
  let code ← withIdentity identity env.key (match env.run with
    | .done => return 0
    | .failed less _ => return less + 1
    | .timeout _ => Prog.fail .timeout)
  checkAge code "keygen"

/-- `encrypt` of a file that holds `body`. -/
def encrypt (identity : Str) (env : EncryptEnv) (body : κ) (target : Str) :
    Prog (WorkDir κ) CryptError Unit := do
  recipient identity env.recipient
  let code ← runAge env.run target (.encrypted body)
  checkAge code "encrypt"

/-- `decrypt` of a file that holds `body`. -/
def decrypt (identity : Str) (env : KeyedRun) (body : κ) (target : Str) :
    Prog (WorkDir κ) CryptError Unit := do
  let code ← withIdentity identity env.key (runAge env.run target (.plain body))
  checkAge code "decrypt"

end Files

end DropboxMirror
