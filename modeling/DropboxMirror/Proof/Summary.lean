import DropboxMirror.Lib.JsonLex
import DropboxMirror.Lib.Lists
import DropboxMirror.Model.Summary

/-!
# When the summary of an upload is found

The CLI ends a line with a line feed, and `_last_summary` breaks its output at every
character that `str.splitlines` breaks at. Three of those may stand unescaped in the
strings of a JSON text, so an object may be cut in its strings. No piece of it is then a
summary (`broken_pieces`): the first ends in a string, and each of the others starts in one,
where a key can start only with what follows a string (`Json.closer_of_key`).

So the code finds the last summary that was printed without such characters
(`lastSummary_printed`), and that is the last one exactly where `Found` says so
(`last_summary_found_iff`).
-/

namespace DropboxMirror

open Json

variable {line : Str} {lines : List Str} {p a b : Str} {c : Char} {v : Value}

section Pieces

/-- The object on a line, where it has the summary's key. -/
def keyedObject (line : Str) : Option Value := (loads line).filter isSummary

/-- The pieces `str.splitlines` makes of a line. -/
def pieces (line : Str) : List Str := line.splitOnP isLineBreak

/-- Nothing in the line breaks it. -/
def Unbroken (line : Str) : Prop := ∀ c ∈ line, isLineBreak c = false

instance (line : Str) : Decidable (Unbroken line) := inferInstanceAs (Decidable (∀ c ∈ line, _))

/-- A summary is an object. -/
theorem loads_of_keyedObject (h : keyedObject line ≠ none) :
    ∃ fields, loads line = some (.obj fields) := by
  obtain ⟨v, hv⟩ := Option.ne_none_iff_exists'.1 h
  obtain ⟨hloads, hkey⟩ := Option.filter_eq_some_iff.1 hv
  cases v with
  | obj fields => exact ⟨fields, hloads⟩
  | _ => cases hkey

theorem summaryLine_eq (summary : Option Value) (line : Str) :
    summaryLine summary line = (keyedObject line).or summary := by
  unfold summaryLine keyedObject
  cases loads line with
  | none => rfl
  | some v => cases h : isSummary v <;> simp [Option.filter, h]

theorem modifyHead_nil_append (l : List Str) : l.modifyHead ([] ++ ·) = l := by
  cases l <;> rfl

/-- A text that goes on after a line feed. -/
theorem splitlinesFrom_append (part a b : Str) :
    splitlinesFrom part (a ++ '\n' :: b) =
      splitlinesFrom part (a ++ ['\n']) ++ splitlinesFrom [] b := by
  have hbreak : isLineBreak '\n' = true := by decide
  induction hlen : a.length using Nat.strong_induction_on generalizing a part with
  | _ n ih =>
    cases a with
    | nil => simp [splitlinesFrom, hbreak]
    | cons c a =>
      rw [List.length_cons] at hlen
      by_cases hcr : ∃ s, c = '\r' ∧ a = '\n' :: s
      · obtain ⟨s, rfl, rfl⟩ := hcr
        have := ih s.length (by rw [List.length_cons] at hlen; omega) [] s rfl
        simp [splitlinesFrom, this]
      · by_cases hend : c = '\r' ∧ a = []
        -- the carriage return takes the line feed with it
        · obtain ⟨rfl, rfl⟩ := hend
          simp [splitlinesFrom]
        · have hpair : ∀ t s, c = '\r' → a ++ '\n' :: t = '\n' :: s → False := by
            intro t s hc hs
            cases a with
            | nil => exact hend ⟨hc, rfl⟩
            | cons x a => exact hcr ⟨a, hc, by rw [(List.cons.inj hs).1]⟩
          rw [List.cons_append, List.cons_append, splitlinesFrom, splitlinesFrom]
          · have hshort := fun part => ih a.length (by omega) part a rfl
            split
            · rw [hshort, List.cons_append]
            · exact hshort _
          · exact hpair []
          · exact hpair b

/-- A line with no end of its own. -/
theorem splitlinesFrom_line (hline : '\n' ∉ a ∧ '\r' ∉ a) (part : Str) :
    splitlinesFrom part (a ++ ['\n']) = (pieces a).modifyHead (part ++ ·) := by
  induction a generalizing part with
  | nil =>
    have hbreak : isLineBreak '\n' = true := by decide
    simp [splitlinesFrom, hbreak, pieces]
  | cons c a ih =>
    have hr : '\r' ≠ c := fun h => hline.2 (h ▸ List.mem_cons_self)
    have hrest : '\n' ∉ a ∧ '\r' ∉ a :=
      ⟨fun h => hline.1 (List.mem_cons_of_mem _ h), fun h => hline.2 (List.mem_cons_of_mem _ h)⟩
    rw [List.cons_append, splitlinesFrom, pieces, List.splitOnP_cons_eq_if_modifyHead]
    · split
      · rw [ih hrest, modifyHead_nil_append]
        simp [pieces]
      · rw [ih hrest]
        simp [pieces, Function.comp_def]
    · rintro s rfl -
      exact hr rfl

theorem splitlines_line (hline : '\n' ∉ a ∧ '\r' ∉ a) : splitlines (a ++ ['\n']) = pieces a := by
  rw [splitlines, splitlinesFrom_line hline, modifyHead_nil_append]

/-- **What the CLI prints**, line by line. -/
theorem splitlines_printed (lines : List Str) :
    splitlines (printed lines) = lines.flatMap fun l => splitlines (l ++ ['\n']) := by
  induction lines with
  | nil => rfl
  | cons l lines ih =>
    have hsplit : printed (l :: lines) = l ++ '\n' :: printed lines := by simp [printed]
    rw [splitlines, hsplit, splitlinesFrom_append, List.flatMap_cons, ← ih]
    rfl

theorem pieces_unbroken (h : Unbroken line) : pieces line = [line] := List.splitOnP_eq_singleton h

end Pieces

section Broken

/-- What breaks a line, but for its end, stands in no text outside of a string. -/
theorem isOuter_of_break (hc : isLineBreak c = true) (hspace : c ≠ '\n' ∧ c ≠ '\r') :
    isOuter c = false := by
  have hmem := List.contains_iff_mem.1 hc
  simp only [List.mem_cons, List.not_mem_nil, or_false] at hmem
  have key : ∀ n, c.toNat = n → c = Char.ofNat n := fun n h => by rw [← h, Char.ofNat_toNat]
  rcases hmem with h | h | h | h | h | h | h | h | h | h <;> rw [key _ h] at hspace ⊢ <;>
    first
    | decide
    | exact absurd rfl hspace.1
    | exact absurd rfl hspace.2

/-- A break stands in a string, and the rest of the text starts in it. -/
theorem inside_of_break {q r : Lex} (hc : isLineBreak c = true) (hspace : c ≠ '\n' ∧ c ≠ '\r')
    (h : q.step c = some r) : ¬ q.Ended ∧ r = .inside := by
  have houter := isOuter_of_break hc hspace
  have hq : c ≠ '"' ∧ c ≠ '\\' := by
    constructor <;> rintro rfl <;> exact absurd hc (by decide)
  cases q with
  | out =>
    rcases step_out_cases h with ⟨he, -⟩ | ⟨-, ho, -⟩
    · exact absurd he hq.1
    · rw [houter] at ho
      cases ho
  | closed =>
    have hcloser := (step_closed_cases h).2.1
    rw [isOuter_of_isCloser hcloser] at houter
    cases houter
  | inside =>
    obtain rfl := Option.some.inj ((step_inside hq.1 hq.2).symm.trans h)
    exact ⟨fun he => he.elim (by simp) (by simp), rfl⟩
  | escaped =>
    obtain rfl := Option.some.inj h
    exact ⟨fun he => he.elim (by simp) (by simp), rfl⟩

/-- A text cut at its first break. -/
theorem exists_break (h : ¬ Unbroken line) :
    ∃ a c b, line = a ++ c :: b ∧ Unbroken a ∧ isLineBreak c = true := by
  induction line with
  | nil => exact absurd (fun c hc => absurd hc List.not_mem_nil) h
  | cons x line ih =>
    cases hx : isLineBreak x with
    | true => exact ⟨[], x, line, rfl, fun c hc => absurd hc List.not_mem_nil, hx⟩
    | false =>
      have hline : ¬ Unbroken line := fun hu => h fun c hc => by
        rcases List.mem_cons.1 hc with rfl | hc
        · exact hx
        · exact hu c hc
      obtain ⟨a, c, b, rfl, ha, hc⟩ := ih hline
      refine ⟨x :: a, c, b, rfl, fun y hy => ?_, hc⟩
      rcases List.mem_cons.1 hy with rfl | hy
      · exact hx
      · exact ha y hy

theorem pieces_break (ha : Unbroken a) (hc : isLineBreak c = true) :
    pieces (a ++ c :: b) = a :: pieces b := by
  rw [pieces, List.splitOnP_append_cons _ _ hc, List.splitOnP_eq_singleton ha]
  rfl

/-- A piece that starts in a string is no summary. -/
theorem keyedObject_of_inside {q : Lex} (h : Lex.inside.run p = some q) : keyedObject p = none := by
  unfold keyedObject
  rw [Option.filter_eq_none_iff]
  intro v hv hkey
  cases v with
  | obj fields =>
    obtain ⟨m, hm⟩ := Option.isSome_iff_exists.1 hkey
    obtain ⟨x, hx, -⟩ := Option.map_eq_some_iff.1 hm
    have hmem := List.mem_of_find?_eq_some hx
    have hfound := List.find?_some hx
    have hname : x.1 = codes "transferredItems".toList := of_decide_eq_true hfound
    have hfirst : ('t'.toNat :: codes "ransferredItems".toList) ∈ fields.map Prod.fst := by
      rw [show 't'.toNat :: codes "ransferredItems".toList = x.1 from hname.symm]
      exact List.mem_map_of_mem hmem
    obtain ⟨c, hc, hct⟩ := closer_of_key h hv hfirst
    have : c = 't' := by rw [← Char.ofNat_toNat c, hct]; rfl
    rw [this] at hc
    exact absurd hc (by decide)
  | _ => cases hkey

/-- The pieces of the rest of a text from within a string. -/
theorem pieces_of_inside {q : Lex} (hline : '\n' ∉ b ∧ '\r' ∉ b) (h : Lex.inside.run b = some q) :
    ∀ p ∈ pieces b, keyedObject p = none := by
  induction hlen : b.length using Nat.strong_induction_on generalizing b with
  | _ n ih =>
    by_cases hu : Unbroken b
    · rw [pieces_unbroken hu]
      intro p hp
      rw [List.mem_singleton.1 hp]
      exact keyedObject_of_inside h
    · obtain ⟨a, c, b', rfl, ha, hc⟩ := exists_break hu
      rw [Lex.run_append] at h
      obtain ⟨x, hx, h⟩ := Option.bind_eq_some_iff.1 h
      rw [Lex.run_cons] at h
      obtain ⟨y, hy, h⟩ := Option.bind_eq_some_iff.1 h
      have hspace : c ≠ '\n' ∧ c ≠ '\r' := by
        constructor <;> rintro rfl
        · exact hline.1 (by simp)
        · exact hline.2 (by simp)
      obtain ⟨-, rfl⟩ := inside_of_break hc hspace hy
      rw [pieces_break ha hc]
      intro p hp
      rcases List.mem_cons.1 hp with rfl | hp
      · exact keyedObject_of_inside hx
      · have hline' : '\n' ∉ b' ∧ '\r' ∉ b' :=
          ⟨fun hn => hline.1 (by simp [hn]), fun hr => hline.2 (by simp [hr])⟩
        refine ih b'.length ?_ hline' h rfl p hp
        rw [← hlen, List.length_append, List.length_cons]
        omega

/-- **No piece of a broken text is a summary.** -/
theorem broken_pieces (hline : '\n' ∉ line ∧ '\r' ∉ line) (hloads : loads line = some v)
    (hbroken : ¬ Unbroken line) : ∀ p ∈ pieces line, keyedObject p = none := by
  obtain ⟨q, -, hrun⟩ := loads_lex hloads
  obtain ⟨a, c, b, rfl, ha, hc⟩ := exists_break hbroken
  rw [Lex.run_append] at hrun
  obtain ⟨x, hx, hrun⟩ := Option.bind_eq_some_iff.1 hrun
  rw [Lex.run_cons] at hrun
  obtain ⟨y, hy, hrun⟩ := Option.bind_eq_some_iff.1 hrun
  have hspace : c ≠ '\n' ∧ c ≠ '\r' := by
    constructor <;> rintro rfl
    · exact hline.1 (by simp)
    · exact hline.2 (by simp)
  obtain ⟨hopen, rfl⟩ := inside_of_break hc hspace hy
  rw [pieces_break ha hc]
  intro p hp
  rcases List.mem_cons.1 hp with rfl | hp
  -- the first piece ends in a string
  · unfold keyedObject
    cases hp : loads p with
    | none => rfl
    | some v' =>
      obtain ⟨q', hend, hq'⟩ := loads_lex hp
      rw [hx] at hq'
      exact absurd (Option.some.inj hq' ▸ hend) hopen
  · exact pieces_of_inside ⟨fun hn => hline.1 (by simp [hn]), fun hr => hline.2 (by simp [hr])⟩ hrun
      p hp

end Broken

section Found

/-- The summary on a line, where nothing breaks the line. -/
def foundObject (line : Str) : Option Value := if Unbroken line then keyedObject line else none

/-- What the CLI prints: lines with one line feed each, at the end, and each line a JSON
object without a carriage return, or a text of whose lines none has the summary's key. -/
structure CliOutput (lines : List Str) : Prop where
  ended : ∀ l ∈ lines, '\n' ∉ l
  object : ∀ l ∈ lines, ('\r' ∉ l ∧ ∃ fields, loads l = some (.obj fields)) ∨
    keyedObject l = none ∧ ∀ p ∈ splitlines (l ++ ['\n']), keyedObject p = none

/-- **The outputs in which the last summary is found**: the last object with the key is on
an unbroken line, or the last such object on an unbroken line is the same. -/
def Found (lines : List Str) : Prop :=
  ∀ before l after v, lines = before ++ l :: after → keyedObject l = some v →
    (∀ x ∈ after, keyedObject x = none) →
    Unbroken l ∨ ∃ before' l' after', before = before' ++ l' :: after' ∧
      (Unbroken l' ∧ keyedObject l' = some v) ∧ ∀ x ∈ after', Unbroken x → keyedObject x = none

theorem foundObject_of_unbroken (hu : Unbroken line) : foundObject line = keyedObject line :=
  if_pos hu

theorem foundObject_of_broken (hu : ¬ Unbroken line) : foundObject line = none := if_neg hu

theorem foundObject_some :
    foundObject line = some v ↔ Unbroken line ∧ keyedObject line = some v := by
  by_cases hu : Unbroken line
  · simp [foundObject_of_unbroken hu, hu]
  · simp [foundObject_of_broken hu, hu]

theorem foundObject_none :
    foundObject line = none ↔ (Unbroken line → keyedObject line = none) := by
  by_cases hu : Unbroken line
  · simp [foundObject_of_unbroken hu, hu]
  · simp [foundObject_of_broken hu, hu]

/-- What the code finds on one line that the CLI printed. -/
theorem filterMap_line (hcli : CliOutput lines) {l : Str} (hl : l ∈ lines) :
    (splitlines (l ++ ['\n'])).filterMap keyedObject = (foundObject l).toList := by
  rcases hcli.object l hl with ⟨hcr, fields, hobj⟩ | ⟨hkey, hnoise⟩
  · have hline : '\n' ∉ l ∧ '\r' ∉ l := ⟨hcli.ended l hl, hcr⟩
    rw [splitlines_line hline]
    by_cases hu : Unbroken l
    · rw [foundObject_of_unbroken hu, pieces_unbroken hu, List.filterMap_cons, List.filterMap_nil]
      cases keyedObject l <;> rfl
    · rw [foundObject_of_broken hu, Option.toList_none, List.filterMap_eq_nil_iff]
      exact broken_pieces hline hobj hu
  · have hnone : foundObject l = none := foundObject_none.2 fun _ => hkey
    rw [hnone, Option.toList_none, List.filterMap_eq_nil_iff]
    exact hnoise

/-- **What the code finds**: the last summary on an unbroken line. -/
theorem lastSummary_printed (hcli : CliOutput lines) :
    lastSummary (some (printed lines)) = (lines.filterMap foundObject).getLast? := by
  have hfold : ∀ ls : List Str,
      ls.foldl summaryLine none = (ls.filterMap keyedObject).getLast? := by
    intro ls
    have h := Lists.foldl_or keyedObject ls none
    rw [Option.or_none] at h
    rw [← h]
    congr 1
    funext b x
    exact summaryLine_eq b x
  have hlines : lines.flatMap (fun l => (splitlines (l ++ ['\n'])).filterMap keyedObject) =
      lines.filterMap foundObject := by
    rw [List.filterMap_eq_flatMap_toList]
    exact List.flatMap_congr fun l hl => filterMap_line hcli hl
  rw [lastSummary, splitlines_printed, hfold, List.filterMap_flatMap, hlines]

/-- **The last summary is found exactly on the outputs that `Found` describes.** -/
theorem last_summary_found_iff (hcli : CliOutput lines) :
    lastSummary (some (printed lines)) = (lines.filterMap keyedObject).getLast? ↔ Found lines := by
  rw [lastSummary_printed hcli]
  constructor
  · intro h before l after v hlines hl hafter
    have hkeyed := Lists.getLast?_filterMap.2 ⟨before, l, after, hlines, hl, hafter⟩
    rw [hkeyed] at h
    obtain ⟨before', l', after', hlines', hl', hafter'⟩ := Lists.getLast?_filterMap.1 h
    obtain ⟨hu, hkey⟩ := foundObject_some.1 hl'
    rw [hlines'] at hlines
    -- where the line that the code found is
    rcases Lists.cut_cases hlines with ⟨mid, hmid⟩ | ⟨-, htail⟩ | ⟨y, mid, -, htail⟩
    · refine Or.inr ⟨before', l', mid, hmid, ⟨hu, hkey⟩, fun x hx => ?_⟩
      rw [hmid, List.append_assoc, List.append_cancel_left_eq, List.cons_append] at hlines
      exact foundObject_none.1 (hafter' x (by rw [(List.cons.inj hlines).2]; simp [hx]))
    · rw [(List.cons.inj htail).1]
      exact Or.inl hu
    · have hmem : l' ∈ after := by rw [(List.cons.inj htail).2]; simp
      rw [hafter l' hmem] at hkey
      cases hkey
  · intro hfound
    cases hkeyed : (lines.filterMap keyedObject).getLast? with
    | none =>
      rw [List.getLast?_eq_none_iff, List.filterMap_eq_nil_iff] at hkeyed ⊢
      exact fun l hl => foundObject_none.2 fun _ => hkeyed l hl
    | some v =>
      obtain ⟨before, l, after, hlines, hl, hafter⟩ := Lists.getLast?_filterMap.1 hkeyed
      have hnone : ∀ x ∈ after, foundObject x = none :=
        fun x hx => foundObject_none.2 fun _ => hafter x hx
      rw [Lists.getLast?_filterMap]
      by_cases hu : Unbroken l
      · exact ⟨before, l, after, hlines, foundObject_some.2 ⟨hu, hl⟩, hnone⟩
      · rcases hfound before l after v hlines hl hafter with h | ⟨before', l', after', rfl, h, hmid⟩
        · exact absurd h hu
        · refine ⟨before', l', after' ++ l :: after, by simp [hlines], foundObject_some.2 h, ?_⟩
          intro x hx
          rcases List.mem_append.1 hx with hx | hx
          · exact foundObject_none.2 (hmid x hx)
          · rcases List.mem_cons.1 hx with rfl | hx
            · exact foundObject_of_broken hu
            · exact hnone x hx

/-- An upload of one file, printed after a line of progress. -/
def plainOutput : List Str :=
  ["uploading 1 file".toList, "\x7b\"transferredItems\": 1, \"failures\": []\x7d".toList]

theorem last_summary_found_plain : CliOutput plainOutput ∧
    (lastSummary (some (printed plainOutput)) = (plainOutput.filterMap keyedObject).getLast? ↔
      Found plainOutput) := by
  have hcli : CliOutput plainOutput := by
    refine ⟨by decide, fun l hl => ?_⟩
    rcases List.mem_cons.1 hl with rfl | hl
    · exact Or.inr ⟨by decide, by decide⟩
    · obtain rfl := List.mem_singleton.1 hl
      exact Or.inl ⟨by decide, loads_of_keyedObject (by decide +kernel)⟩
  exact ⟨hcli, last_summary_found_iff hcli⟩

/-- An upload whose one failure names a file with a line separator (U+2028) in its name. -/
def separatorOutput : List Str :=
  ["\x7b\"transferredItems\": 0, \"failures\": [\x7b\"name\": \"a\u2028b\"\x7d]\x7d".toList]

theorem separator_summary_lost : CliOutput separatorOutput ∧
    (separatorOutput.filterMap keyedObject).getLast? ≠ none ∧
    lastSummary (some (printed separatorOutput)) = none := by
  refine ⟨⟨by decide, fun l hl => ?_⟩, by decide +kernel, by decide +kernel⟩
  obtain rfl := List.mem_singleton.1 hl
  exact Or.inl ⟨by decide, loads_of_keyedObject (by decide +kernel)⟩

end Found

end DropboxMirror
