import DropboxMirror.Lib.Json

/-!
# The summary of an upload

`_last_summary` of `phases/batch.py`: the CLI's output is kept as the batch's report, and
the last of its lines that is a JSON object with the key `transferredItems` is the summary.
-/

namespace DropboxMirror

open Json

/-- Where `str.splitlines` breaks a text. -/
def isLineBreak (c : Char) : Bool :=
  [0x0A, 0x0B, 0x0C, 0x0D, 0x1C, 0x1D, 0x1E, 0x85, 0x2028, 0x2029].contains c.toNat

/-- `str.splitlines` of a text after the part of a line: a break ends a line, and a text
that ends with one has no further line. -/
def splitlinesFrom : Str → Str → List Str
  | line, [] => if line = [] then [] else [line]
  | line, '\r' :: '\n' :: s => line :: splitlinesFrom [] s
  | line, c :: s =>
    if isLineBreak c then line :: splitlinesFrom [] s else splitlinesFrom (line ++ [c]) s

/-- `str.splitlines`. -/
def splitlines (s : Str) : List Str := splitlinesFrom [] s

/-- `isinstance(candidate, dict) and "transferredItems" in candidate`. -/
def isSummary (candidate : Value) : Bool := (candidate.get? "transferredItems".toList).isSome

/-- One line of the loop of `_last_summary`. -/
def summaryLine (summary : Option Value) (line : Str) : Option Value :=
  match loads line with
  | none => summary
  | some candidate => if isSummary candidate then some candidate else summary

/-- `_last_summary`; the report is none where the file does not exist. -/
def lastSummary : Option Str → Option Value
  | none => none
  | some report => (splitlines report).foldl summaryLine none

/-- The text the CLI prints: each line with a line feed. -/
def printed (lines : List Str) : Str := lines.flatMap (· ++ ['\n'])

end DropboxMirror
