import DropboxMirror.Lib.Text

/-!
# JSON texts

A reader of JSON texts that accepts what Python's `json.loads` accepts of a `str`: strings
without raw control characters, `NaN` and the infinities, and white space around values. A
string is a list of code points, since an escape may name a lone surrogate, and the members
of an object are kept as a dict keeps them. The limits an interpreter sets, on the depth of a
text and the digits of an integer, are left out.

Each reader takes what it reads off the front of a text and returns the rest. The fuel is the
length of the text, since each step of a reader takes a character off it.
-/

namespace Json

/-- The values of a text; a number with a fraction or an exponent is kept as it is written. -/
inductive Value
  | null
  | bool (b : Bool)
  | int (n : ℤ)
  | float (token : Str)
  | str (codes : List ℕ)
  | arr (items : List Value)
  | obj (fields : List (List ℕ × Value))

/-- The code points of a text. -/
def codes (s : Str) : List ℕ := s.map Char.toNat

/-- What a reader takes off the front of a text, and the rest. -/
abbrev Reader (α : Type) : Type := Str → Option (α × Str)

/-- The white space between tokens. -/
def isSpace (c : Char) : Bool := c = ' ' || c = '\t' || c = '\n' || c = '\r'

def skip (s : Str) : Str := s.dropWhile isSpace

section Strings

def hexDigit (c : Char) : Option ℕ :=
  if c.isDigit then some (c.toNat - '0'.toNat)
  else if 'a' ≤ c ∧ c ≤ 'f' then some (c.toNat - 'a'.toNat + 10)
  else if 'A' ≤ c ∧ c ≤ 'F' then some (c.toNat - 'A'.toNat + 10)
  else none

/-- Four hexadecimal digits. -/
def hex4 : Reader ℕ
  | a :: b :: c :: d :: s => do
    let a ← hexDigit a
    let b ← hexDigit b
    let c ← hexDigit c
    let d ← hexDigit d
    some (a * 4096 + b * 256 + c * 16 + d, s)
  | _ => none

/-- The low surrogate after a high one, as the two escapes name it. -/
def lowSurrogate : Reader ℕ
  | '\\' :: 'u' :: s => (hex4 s).filter fun u => decide (0xDC00 ≤ u.1 ∧ u.1 ≤ 0xDFFF)
  | _ => none

/-- The escapes of one character. -/
def simpleEscape (c : Char) : Option ℕ :=
  if c = '"' ∨ c = '\\' ∨ c = '/' then some c.toNat
  else if c = 'b' then some 8
  else if c = 'f' then some 12
  else if c = 'n' then some 10
  else if c = 'r' then some 13
  else if c = 't' then some 9
  else none

/-- An escape, after its backslash. A high surrogate joins the low one that an escape after
it names, and stands alone before anything else. -/
def escape : Reader ℕ
  | [] => none
  | c :: s =>
    if c = 'u' then do
      let (u, s) ← hex4 s
      if 0xD800 ≤ u ∧ u ≤ 0xDBFF then
        match lowSurrogate s with
        | some (l, s) => some (0x10000 + (u - 0xD800) * 0x400 + (l - 0xDC00), s)
        | none => some (u, s)
      else some (u, s)
    else (simpleEscape c).map fun u => (u, s)

/-- A string, after its opening quote. -/
def string : ℕ → Reader (List ℕ)
  | 0, _ => none
  | _ + 1, [] => none
  | n + 1, c :: s =>
    if c = '"' then some ([], s)
    else if c = '\\' then do
      let (u, s) ← escape s
      let (us, s) ← string n s
      some (u :: us, s)
    else if c.toNat < 0x20 then none
    else do
      let (us, s) ← string n s
      some (c.toNat :: us, s)

end Strings

section Numbers

/-- `0`, or digits that do not start with it. -/
def intPart : Reader Str
  | [] => none
  | c :: s =>
    if c = '0' then some ([c], s)
    else if c.isDigit then some (c :: s.takeWhile Char.isDigit, s.dropWhile Char.isDigit)
    else none

/-- A point and digits, or nothing. -/
def fraction (s : Str) : Str × Str :=
  match s with
  | '.' :: t =>
    if t.takeWhile Char.isDigit = [] then ([], s)
    else ('.' :: t.takeWhile Char.isDigit, t.dropWhile Char.isDigit)
  | _ => ([], s)

/-- A sign, or nothing. -/
def sign (s : Str) : Str × Str :=
  match s with
  | '+' :: t => (['+'], t)
  | '-' :: t => (['-'], t)
  | _ => ([], s)

/-- An `e`, a sign and digits, or nothing. -/
def exponent (s : Str) : Str × Str :=
  match s with
  | [] => ([], s)
  | e :: t =>
    if (e = 'e' ∨ e = 'E') ∧ (sign t).2.takeWhile Char.isDigit ≠ [] then
      (e :: (sign t).1 ++ (sign t).2.takeWhile Char.isDigit, (sign t).2.dropWhile Char.isDigit)
    else ([], s)

/-- The value of decimal digits. -/
def digits (s : Str) : ℕ := s.foldl (fun n c => n * 10 + (c.toNat - '0'.toNat)) 0

/-- A number without its sign. -/
def unsigned (negative : Bool) (s : Str) : Option (Value × Str) := do
  let (int, s) ← intPart s
  let (frac, s) := fraction s
  let (exp, s) := exponent s
  if frac = [] ∧ exp = [] then some (.int (if negative then -(digits int : ℤ) else digits int), s)
  else some (.float ((if negative then ['-'] else []) ++ int ++ frac ++ exp), s)

def number : Reader Value
  | '-' :: s => unsigned true s
  | s => unsigned false s

end Numbers

/-- One word, and the value it stands for. -/
def literal (word : Str) (v : Value) : Reader Value := fun s =>
  if word <+: s then some (v, s.drop word.length) else none

/-- A value of one token other than a string. -/
def scalar : Reader Value := fun s =>
  (literal "null".toList .null s).or <| (literal "true".toList (.bool true) s).or <|
  (literal "false".toList (.bool false) s).or <| (number s).or <|
  (literal "NaN".toList (.float "NaN".toList) s).or <|
  (literal "Infinity".toList (.float "Infinity".toList) s).or <|
  literal "-Infinity".toList (.float "-Infinity".toList) s

/-- The values of an array up to its bracket; `value` reads one. -/
def elements (value : Reader Value) : ℕ → Reader (List Value)
  | 0, _ => none
  | n + 1, s => do
    let (v, s) ← value s
    match skip s with
    | ']' :: s => some ([v], s)
    | ',' :: s => do
      let (vs, s) ← elements value n (skip s)
      some (v :: vs, s)
    | _ => none

/-- The members of an object up to its brace; `value` reads a value. -/
def members (value : Reader Value) : ℕ → Reader (List (List ℕ × Value))
  | n + 1, '"' :: s => do
    let (key, s) ← string (s.length + 1) s
    match skip s with
    | ':' :: s => do
      let (v, s) ← value (skip s)
      match skip s with
      | '}' :: s => some ([(key, v)], s)
      | ',' :: s => do
        let (ms, s) ← members value n (skip s)
        some ((key, v) :: ms, s)
      | _ => none
    | _ => none
  | _, _ => none

/-- `d[key] = v`: a key that is there keeps its place. -/
def setMember (d : List (List ℕ × Value)) (m : List ℕ × Value) : List (List ℕ × Value) :=
  if m.1 ∈ d.map Prod.fst then d.map fun x => if x.1 = m.1 then m else x else d ++ [m]

/-- `dict(pairs)`. -/
def dictOf (pairs : List (List ℕ × Value)) : List (List ℕ × Value) := pairs.foldl setMember []

/-- A value, at most so deep. -/
def value : ℕ → Reader Value
  | 0, _ => none
  | n + 1, s =>
    match s with
    | '"' :: s => (string (s.length + 1) s).map fun r => (.str r.1, r.2)
    | '[' :: s =>
      match skip s with
      | ']' :: s => some (.arr [], s)
      | s => (elements (value n) (s.length + 1) s).map fun r => (.arr r.1, r.2)
    | '{' :: s =>
      match skip s with
      | '}' :: s => some (.obj [], s)
      | s => (members (value n) (s.length + 1) s).map fun r => (.obj (dictOf r.1), r.2)
    | s => scalar s

/-- `json.loads`: none where it raises a `JSONDecodeError`. -/
def loads (s : Str) : Option Value :=
  (value (s.length + 1) (skip s)).bind fun r => if skip r.2 = [] then some r.1 else none

/-- `value.get(key)` of a dict. -/
def Value.get? (v : Value) (key : Str) : Option Value :=
  match v with
  | .obj fields => (fields.find? fun m => decide (m.1 = codes key)).map Prod.snd
  | _ => none

end Json
