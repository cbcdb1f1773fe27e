import DropboxMirror.Lib.Rewrite
import DropboxMirror.Lib.Text

/-!
# Secrets taken out of a log

`RunLogger` of `logging.py`, as far as it redacts: its secrets, the longest first, are each
replaced in a text, and then the token of each `Authorization: Bearer` header is.
-/

namespace DropboxMirror

open Rewrite

/-- The order in which a set gives its elements. -/
structure SetOrder where
  order : List Str → List Str
  perm : ∀ elements, (order elements).Perm elements

/-- The secrets of a logger. An empty one would match everywhere. -/
structure RunLogger where
  secrets : List Str
  nonempty : ∀ s ∈ secrets, s ≠ []
  nodup : secrets.Nodup
  longestFirst : secrets.Pairwise fun a b => b.length ≤ a.length

/-- `sorted(values, key=len, reverse=True)`, which keeps the order of equal lengths. -/
def sortedByLength (values : List Str) : List Str :=
  values.insertionSort fun a b => b.length ≤ a.length

@[simp] theorem mem_sortedByLength {values : List Str} {s : Str} :
    s ∈ sortedByLength values ↔ s ∈ values := (List.perm_insertionSort _ _).mem_iff

theorem nodup_sortedByLength {values : List Str} (h : values.Nodup) :
    (sortedByLength values).Nodup := (List.perm_insertionSort _ _).nodup_iff.2 h

theorem pairwise_sortedByLength (values : List Str) :
    (sortedByLength values).Pairwise fun a b => b.length ≤ a.length :=
  List.pairwise_insertionSort _ _

/-- `RunLogger.__init__`. -/
def RunLogger.init (set : SetOrder) (secrets : Option (List Str)) : RunLogger where
  secrets := sortedByLength (set.order (((secrets.getD []).filter fun v => v ≠ []).dedup))
  nonempty s hs := by
    rw [mem_sortedByLength, (set.perm _).mem_iff, List.mem_dedup] at hs
    exact of_decide_eq_true (List.mem_filter.1 hs).2
  nodup := nodup_sortedByLength ((set.perm _).nodup_iff.2 (List.nodup_dedup _))
  longestFirst := pairwise_sortedByLength _

/-- `add_secret`. -/
def RunLogger.addSecret (logger : RunLogger) (value : Str) : RunLogger :=
  if h : value = [] ∨ value ∈ logger.secrets then logger
  else
    { secrets := sortedByLength (logger.secrets ++ [value])
      nonempty := by
        intro s hs
        rw [mem_sortedByLength, List.mem_append, List.mem_singleton] at hs
        rcases hs with hs | rfl
        · exact logger.nonempty s hs
        · exact fun hnil => h (Or.inl hnil)
      nodup := by
        refine nodup_sortedByLength (List.nodup_append.2 ⟨logger.nodup, by simp, ?_⟩)
        rintro s hs t ht rfl
        rw [List.mem_singleton.1 ht] at hs
        exact h (Or.inr hs)
      longestFirst := pairwise_sortedByLength _ }

/-- What `\s` matches. -/
def isWhitespace (c : Char) : Bool :=
  [0x09, 0x0A, 0x0B, 0x0C, 0x0D, 0x1C, 0x1D, 0x1E, 0x1F, 0x20, 0x85, 0xA0, 0x1680, 0x2000,
    0x2001, 0x2002, 0x2003, 0x2004, 0x2005, 0x2006, 0x2007, 0x2008, 0x2009, 0x200A, 0x2028,
    0x2029, 0x202F, 0x205F, 0x3000].contains c.toNat

/-- Whether `c` matches a letter of the pattern under `(?i)`; `i` has four forms. -/
def caseless (letter c : Char) : Bool :=
  c.toLower = letter || (letter = 'i' && [0x130, 0x131].contains c.toNat)

/-- What is behind the word at the start of a text. -/
def behindWord : Str → Str → Option Str
  | [], text => some text
  | _ :: _, [] => none
  | letter :: word, c :: text => if caseless letter c then behindWord word text else none

/-- What is behind `\s*`. -/
def behindSpaces (text : Str) : Str := text.dropWhile isWhitespace

/-- What is behind `\s+`. -/
def behindSomeSpaces : Str → Option Str
  | [] => none
  | c :: text => if isWhitespace c then some (behindSpaces text) else none

/-- What is behind `authorization\s*:\s*bearer\s+`. -/
def behindBearer (text : Str) : Option Str := do
  let text ← behindWord "authorization".toList text
  let text ← behindWord ":".toList (behindSpaces text)
  let text ← behindWord "bearer".toList (behindSpaces text)
  behindSomeSpaces text

/-- What a token is made of: no white space and no quotation mark. -/
def isTokenChar (c : Char) : Bool := !isWhitespace c && c != '"' && c != '\''

/-- A match of the header at the start of a text: its group, which is kept, and its length. -/
def bearerMatch (text : Str) : Option (Str × ℕ) := do
  let behind ← behindBearer text
  let header := text.take (text.length - behind.length)
  let token := behind.takeWhile isTokenChar
  if token = [] then none else some (header, header.length + token.length)

/-- `[REDACTED]`. -/
def redacted : Str := '[' :: ("REDACTED".toList ++ [']'])

/-- `redact`; none is the Python `None`. -/
def RunLogger.redact (logger : RunLogger) : Option Str → Option Str
  | none => none
  | some value =>
    let safe := logger.secrets.foldl (fun safe secret => replace secret redacted safe) value
    some (rewrite bearerMatch redacted safe)

end DropboxMirror
