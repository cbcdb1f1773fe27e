import DropboxMirror.Lib.Json

/-!
# The strings of a JSON text

Which characters of a text are in strings, as an automaton that knows no grammar: outside
of strings there are only ASCII letters, digits and punctuation, and a string is followed
by white space or by one of `,`, `:`, `]` and `}`. What the reader accepts runs through it
and ends outside of a string (`loads_lex`).

So a text that was cut in a string cannot be read, and a piece that starts in one is read
with strings and punctuation exchanged (`flipped_step`): each string the reader finds in it
starts where one of the text ended. Such a piece has no member whose key starts with
anything but what may follow a string (`closer_of_key`).
-/

namespace Json

/-- Where a text stands: outside of strings, right after one, in one, or after a backslash. -/
inductive Lex
  | out
  | closed
  | inside
  | escaped
  deriving DecidableEq

/-- The characters of a text outside of its strings, but for the quotes. -/
def isOuter (c : Char) : Bool :=
  isSpace c || c.isAlphanum || "\x7b\x7d[],:+-.".toList.contains c

/-- What may follow a string. -/
def isCloser (c : Char) : Bool := isSpace c || ",:]\x7d".toList.contains c

/-- One character. -/
def Lex.step : Lex → Char → Option Lex
  | .out, c => if c = '"' then some .inside else if isOuter c then some .out else none
  | .closed, c => if isCloser c then some .out else none
  | .inside, c => some (if c = '"' then .closed else if c = '\\' then .escaped else .inside)
  | .escaped, _ => some .inside

def Lex.run (q : Lex) (s : Str) : Option Lex := s.foldlM Lex.step q

/-- What was taken off the front of a text leads from one state to another. -/
def Leads (q q' : Lex) (s rest : Str) : Prop := ∃ used, s = used ++ rest ∧ q.run used = some q'

variable {q q' q'' r r' : Lex} {s t rest a b : Str} {c : Char} {n k : ℕ} {v : Value}

@[simp] theorem Lex.run_nil : q.run [] = some q := rfl

@[simp] theorem Lex.run_cons : q.run (c :: s) = (q.step c).bind fun q' => q'.run s :=
  List.foldlM_cons

theorem Lex.run_append : q.run (a ++ b) = (q.run a).bind fun q' => q'.run b := List.foldlM_append

theorem Leads.refl : Leads q q s s := ⟨[], rfl, rfl⟩

theorem Leads.trans (h : Leads q q' s t) (h' : Leads q' q'' t rest) : Leads q q'' s rest := by
  obtain ⟨u, rfl, hu⟩ := h
  obtain ⟨w, rfl, hw⟩ := h'
  exact ⟨u ++ w, (List.append_assoc ..).symm, by rw [Lex.run_append, hu]; exact hw⟩

theorem Leads.char (h : q.step c = some q') : Leads q q' (c :: s) s :=
  ⟨[c], rfl, by rw [Lex.run_cons, h]; rfl⟩

theorem Leads.length_le (h : Leads q q' s rest) : rest.length ≤ s.length := by
  obtain ⟨u, rfl, -⟩ := h
  rw [List.length_append]
  exact Nat.le_add_left _ _

section Outer

theorem step_outer (h : isOuter c = true) : Lex.out.step c = some .out := by
  have hq : c ≠ '"' := by
    rintro rfl
    exact absurd h (by decide)
  rw [Lex.step, if_neg hq, if_pos h]

theorem isOuter_of_isSpace (h : isSpace c = true) : isOuter c = true := by
  rw [isOuter, h]
  rfl

theorem isOuter_of_isDigit (h : c.isDigit = true) : isOuter c = true := by
  simp [isOuter, Char.isAlphanum, h]

theorem isOuter_of_isCloser (h : isCloser c = true) : isOuter c = true := by
  rw [isCloser, Bool.or_eq_true] at h
  rcases h with h | h
  · exact isOuter_of_isSpace h
  · simp only [isOuter, Bool.or_eq_true]
    refine Or.inr (List.contains_iff_mem.2 ?_)
    have := List.contains_iff_mem.1 h
    simp at this ⊢
    tauto

/-- Characters that stand outside of strings. -/
theorem run_outer (h : ∀ c ∈ s, isOuter c = true) : Lex.out.run s = some .out := by
  induction s with
  | nil => rfl
  | cons c s ih =>
    rw [Lex.run_cons, step_outer (h c List.mem_cons_self)]
    exact ih fun x hx => h x (List.mem_cons_of_mem _ hx)

theorem leads_outer (h : ∀ c ∈ a, isOuter c = true) : Leads .out .out (a ++ rest) rest :=
  ⟨a, rfl, run_outer h⟩

theorem leads_takeWhile {p : Char → Bool} (h : ∀ c, p c = true → isOuter c = true) :
    Leads .out .out s (s.dropWhile p) := by
  have hsplit : s = s.takeWhile p ++ s.dropWhile p := (List.takeWhile_append_dropWhile ..).symm
  refine ⟨s.takeWhile p, hsplit, run_outer fun c hc => h c ?_⟩
  exact List.mem_takeWhile_imp hc

theorem leads_skip : Leads .out .out s (skip s) := leads_takeWhile fun _ => isOuter_of_isSpace

/-- A text that does not stand in a string. -/
def Lex.Ended (q : Lex) : Prop := q = .out ∨ q = .closed

theorem step_closer (hq : q.Ended) (h : isCloser c = true) : q.step c = some .out := by
  rcases hq with rfl | rfl
  · exact step_outer (isOuter_of_isCloser h)
  · rw [Lex.step, if_pos h]

/-- White space and then a character that may follow a string. -/
theorem leads_closer (hq : q.Ended) (h : isCloser c = true) (hs : skip s = c :: t) :
    Leads q .out s t := by
  induction s generalizing q with
  | nil => cases hs
  | cons x s ih =>
    by_cases hx : isSpace x = true
    · have hskip : skip (x :: s) = skip s := List.dropWhile_cons_of_pos hx
      rw [hskip] at hs
      have hcloser : isCloser x = true := by rw [isCloser, hx]; rfl
      exact (Leads.char (step_closer hq hcloser)).trans (ih (Or.inl rfl) hs)
    · have hskip : skip (x :: s) = x :: s := List.dropWhile_cons_of_neg hx
      rw [hskip] at hs
      obtain ⟨rfl, rfl⟩ := List.cons.inj hs
      exact Leads.char (step_closer hq h)

end Outer

section Strings

variable {u : ℕ} {us : List ℕ}

theorem step_inside (h : c ≠ '"') (h' : c ≠ '\\') : Lex.inside.step c = some .inside := by
  rw [Lex.step, if_neg h, if_neg h']

theorem leads_hexDigit (h : hexDigit c = some u) : Leads .inside .inside (c :: s) s := by
  have hq : hexDigit '"' = none := by decide
  have hb : hexDigit '\\' = none := by decide
  refine Leads.char (step_inside ?_ ?_)
  · rintro rfl
    rw [hq] at h
    cases h
  · rintro rfl
    rw [hb] at h
    cases h

theorem leads_hex4 (h : hex4 s = some (u, rest)) : Leads .inside .inside s rest := by
  unfold hex4 at h
  split at h
  · simp only [bind, Option.bind_eq_some_iff] at h
    obtain ⟨_, h₁, _, h₂, _, h₃, _, h₄, h⟩ := h
    obtain rfl := (Prod.ext_iff.1 (Option.some.inj h)).2
    exact (leads_hexDigit h₁).trans ((leads_hexDigit h₂).trans ((leads_hexDigit h₃).trans
      (leads_hexDigit h₄)))
  · cases h

theorem leads_lowSurrogate (h : lowSurrogate s = some (u, rest)) : Leads .inside .inside s rest := by
  unfold lowSurrogate at h
  split at h
  · obtain ⟨h, -⟩ := Option.filter_eq_some_iff.1 h
    have hbackslash : Lex.inside.step '\\' = some .escaped := by decide
    exact (Leads.char hbackslash).trans ((Leads.char rfl).trans (leads_hex4 h))
  · cases h

theorem leads_escape (h : escape s = some (u, rest)) : Leads .escaped .inside s rest := by
  unfold escape at h
  split at h
  · cases h
  · refine (Leads.char rfl).trans ?_
    split at h
    · simp only [bind, Option.bind_eq_some_iff] at h
      obtain ⟨⟨x, t⟩, hx, h⟩ := h
      refine (leads_hex4 hx).trans ?_
      dsimp only at h
      split at h
      · split at h
        · rename_i hl
          obtain rfl := (Prod.ext_iff.1 (Option.some.inj h)).2
          exact leads_lowSurrogate hl
        · obtain rfl := (Prod.ext_iff.1 (Option.some.inj h)).2
          exact Leads.refl
      · obtain rfl := (Prod.ext_iff.1 (Option.some.inj h)).2
        exact Leads.refl
    · obtain ⟨x, -, h⟩ := Option.map_eq_some_iff.1 h
      obtain rfl := (Prod.ext_iff.1 h).2
      exact Leads.refl

/-- **A string**, from after its quote to after the quote that ends it. -/
theorem leads_string (h : string n s = some (us, rest)) : Leads .inside .closed s rest := by
  induction n generalizing s us with
  | zero => cases h
  | succ n ih =>
    cases s with
    | nil => cases h
    | cons c s =>
      rw [string] at h
      split at h
      · rename_i hc
        obtain rfl := (Prod.ext_iff.1 (Option.some.inj h)).2
        exact Leads.char (by rw [Lex.step, if_pos hc])
      · rename_i hq
        split at h
        · rename_i hc
          simp only [bind, Option.bind_eq_some_iff] at h
          obtain ⟨⟨x, t⟩, hx, ⟨xs, t'⟩, hxs, h⟩ := h
          obtain rfl := (Prod.ext_iff.1 (Option.some.inj h)).2
          have hstep : Lex.inside.step c = some .escaped := by rw [Lex.step, if_neg hq, if_pos hc]
          exact (Leads.char hstep).trans ((leads_escape hx).trans (ih hxs))
        · rename_i hb
          split at h
          · cases h
          · simp only [bind, Option.bind_eq_some_iff] at h
            obtain ⟨⟨xs, t'⟩, hxs, h⟩ := h
            obtain rfl := (Prod.ext_iff.1 (Option.some.inj h)).2
            exact (Leads.char (step_inside hq hb)).trans (ih hxs)

/-- The first character of a string that is not empty is its first code point, or a
backslash. -/
theorem head_of_string (h : string n (c :: s) = some (u :: us, rest)) : c = '\\' ∨ c.toNat = u := by
  cases n with
  | zero => cases h
  | succ n =>
    rw [string] at h
    split at h
    · cases h
    · split at h
      · exact Or.inl ‹_›
      · split at h
        · cases h
        · simp only [bind, Option.bind_eq_some_iff] at h
          obtain ⟨⟨xs, t'⟩, -, h⟩ := h
          exact Or.inr (List.cons.inj (Prod.ext_iff.1 (Option.some.inj h)).1).1

end Strings

section Scalars

variable {token : Str} {negative : Bool} {word : Str}

theorem leads_digits : Leads .out .out s (s.dropWhile Char.isDigit) :=
  leads_takeWhile fun _ => isOuter_of_isDigit

theorem leads_intPart (h : intPart s = some (token, rest)) : Leads .out .out s rest := by
  unfold intPart at h
  split at h
  · cases h
  · split at h
    · rename_i hc
      obtain rfl := (Prod.ext_iff.1 (Option.some.inj h)).2
      exact Leads.char (step_outer (by rw [hc]; decide))
    · split at h
      · rename_i hc
        obtain rfl := (Prod.ext_iff.1 (Option.some.inj h)).2
        exact (Leads.char (step_outer (isOuter_of_isDigit hc))).trans leads_digits
      · cases h

theorem leads_fraction (s : Str) : Leads .out .out s (fraction s).2 := by
  unfold fraction
  split
  · split
    · exact Leads.refl
    · exact (Leads.char (by decide)).trans leads_digits
  · exact Leads.refl

theorem leads_sign (s : Str) : Leads .out .out s (sign s).2 := by
  unfold sign
  split
  · exact Leads.char (by decide)
  · exact Leads.char (by decide)
  · exact Leads.refl

theorem leads_exponent (s : Str) : Leads .out .out s (exponent s).2 := by
  unfold exponent
  split
  · exact Leads.refl
  · rename_i e t
    split
    · rename_i h
      have he : isOuter e = true := by
        rcases h.1 with rfl | rfl <;> decide
      exact (Leads.char (step_outer he)).trans ((leads_sign t).trans leads_digits)
    · exact Leads.refl

theorem leads_unsigned (h : unsigned negative s = some (v, rest)) : Leads .out .out s rest := by
  simp only [unsigned, bind, Option.bind_eq_some_iff] at h
  obtain ⟨⟨int, t⟩, hint, h⟩ := h
  have hnum : Leads .out .out s (exponent (fraction t).2).2 :=
    (leads_intPart hint).trans ((leads_fraction t).trans (leads_exponent _))
  dsimp only at h
  split at h
  · obtain rfl := (Prod.ext_iff.1 (Option.some.inj h)).2
    exact hnum
  · obtain rfl := (Prod.ext_iff.1 (Option.some.inj h)).2
    exact hnum

theorem leads_number (h : number s = some (v, rest)) : Leads .out .out s rest := by
  unfold number at h
  split at h
  · exact (Leads.char (by decide)).trans (leads_unsigned h)
  · exact leads_unsigned h

theorem leads_literal {v' : Value} (hword : word.all isOuter = true)
    (h : literal word v' s = some (v, rest)) : Leads .out .out s rest := by
  unfold literal at h
  split at h
  · rename_i hpre
    obtain ⟨t, rfl⟩ := hpre
    obtain rfl := (Prod.ext_iff.1 (Option.some.inj h)).2
    dsimp only
    rw [List.drop_left]
    exact leads_outer (List.all_eq_true.1 hword)
  · cases h

theorem leads_scalar (h : scalar s = some (v, rest)) : Leads .out .out s rest := by
  simp only [scalar, Option.or_eq_some_iff] at h
  rcases h with h | ⟨-, h | ⟨-, h | ⟨-, h | ⟨-, h | ⟨-, h | ⟨-, h⟩⟩⟩⟩⟩⟩
  · exact leads_literal (by decide) h
  · exact leads_literal (by decide) h
  · exact leads_literal (by decide) h
  · exact leads_number h
  · exact leads_literal (by decide) h
  · exact leads_literal (by decide) h
  · exact leads_literal (by decide) h

theorem literal_eq {v' : Value} (h : literal word v' s = some (v, rest)) : v = v' := by
  unfold literal at h
  split at h
  · exact (Prod.ext_iff.1 (Option.some.inj h)).1.symm
  · cases h

theorem unsigned_ne_obj {fields : List (List ℕ × Value)} (h : unsigned negative s = some (v, rest)) :
    v ≠ .obj fields := by
  simp only [unsigned, bind, Option.bind_eq_some_iff] at h
  obtain ⟨⟨int, t⟩, -, h⟩ := h
  dsimp only at h
  split at h <;> obtain ⟨rfl, -⟩ := Prod.mk.inj (Option.some.inj h) <;> simp

theorem scalar_ne_obj {fields : List (List ℕ × Value)} (h : scalar s = some (v, rest)) :
    v ≠ .obj fields := by
  simp only [scalar, Option.or_eq_some_iff] at h
  rcases h with h | ⟨-, h | ⟨-, h | ⟨-, h | ⟨-, h | ⟨-, h | ⟨-, h⟩⟩⟩⟩⟩⟩
  · simp [literal_eq h]
  · simp [literal_eq h]
  · simp [literal_eq h]
  · unfold number at h
    split at h <;> exact unsigned_ne_obj h
  · simp [literal_eq h]
  · simp [literal_eq h]
  · simp [literal_eq h]

end Scalars

section Values

variable {read : Reader Value} {vs : List Value} {ms : List (List ℕ × Value)} {key : List ℕ}

/-- What the reader takes starts and ends outside of a string. -/
def Reads (read : Reader Value) : Prop :=
  ∀ s v rest, read s = some (v, rest) → ∃ q : Lex, q.Ended ∧ Leads .out q s rest

/-- A member's key, and where it stands in the text. -/
def KeyIn (s : Str) (key : List ℕ) : Prop :=
  ∃ a b n rest, s = a ++ '"' :: b ∧ Lex.out.run a = some .out ∧ string n b = some (key, rest)

theorem KeyIn.leads (h : Leads .out .out s t) (hk : KeyIn t key) : KeyIn s key := by
  obtain ⟨u, rfl, hu⟩ := h
  obtain ⟨a, b, n, rest, rfl, ha, hstr⟩ := hk
  exact ⟨u ++ a, b, n, rest, (List.append_assoc ..).symm, by rw [Lex.run_append, hu]; exact ha, hstr⟩

theorem leads_elements (hread : Reads read) (h : elements read n s = some (vs, rest)) :
    Leads .out .out s rest := by
  induction n generalizing s vs with
  | zero => cases h
  | succ n ih =>
    simp only [elements, bind, Option.bind_eq_some_iff] at h
    obtain ⟨⟨v, t⟩, hv, h⟩ := h
    obtain ⟨q, hq, hlead⟩ := hread _ _ _ hv
    dsimp only at h
    split at h
    · rename_i hskip
      obtain rfl := (Prod.ext_iff.1 (Option.some.inj h)).2
      exact hlead.trans (leads_closer hq (by decide) hskip)
    · rename_i hskip
      simp only [Option.bind_eq_some_iff] at h
      obtain ⟨⟨vs', t'⟩, hvs, h⟩ := h
      obtain rfl := (Prod.ext_iff.1 (Option.some.inj h)).2
      exact hlead.trans ((leads_closer hq (by decide) hskip).trans (leads_skip.trans (ih hvs)))
    · cases h

/-- The members of an object, and their keys. -/
theorem leads_members (hread : Reads read) (h : members read n s = some (ms, rest)) :
    Leads .out .out s rest ∧ ∀ m ∈ ms, KeyIn s m.1 := by
  induction n generalizing s ms with
  | zero => cases h
  | succ n ih =>
    unfold members at h
    split at h
    · rename_i n' s' heq
      obtain rfl := Nat.succ.inj heq
      simp only [bind, Option.bind_eq_some_iff] at h
      obtain ⟨⟨key, t⟩, hkey, h⟩ := h
      have hstart : KeyIn ('"' :: s') key := ⟨[], s', _, _, rfl, rfl, hkey⟩
      have hquote : Leads .out .closed ('"' :: s') t := (Leads.char (by decide)).trans (leads_string hkey)
      dsimp only at h
      split at h
      -- a colon, and the value behind it
      · rename_i s₁ hskip
        simp only [Option.bind_eq_some_iff] at h
        obtain ⟨⟨v, t'⟩, hv, h⟩ := h
        obtain ⟨q, hq, hlead⟩ := hread _ _ _ hv
        have hmember : Leads .out q ('"' :: s') t' := hquote.trans
          ((leads_closer (Or.inr rfl) (by decide) hskip).trans (leads_skip.trans hlead))
        dsimp only at h
        split at h
        -- a brace closes the object
        · rename_i hskip'
          obtain ⟨rfl, rfl⟩ := Prod.mk.inj (Option.some.inj h)
          refine ⟨hmember.trans (leads_closer hq (by decide) hskip'), fun m hm => ?_⟩
          rw [List.mem_singleton.1 hm]
          exact hstart
        -- a comma, and the next member
        · rename_i hskip'
          simp only [Option.bind_eq_some_iff] at h
          obtain ⟨⟨ms', t₂⟩, hms, h⟩ := h
          obtain ⟨rfl, rfl⟩ := Prod.mk.inj (Option.some.inj h)
          have hnext := hmember.trans ((leads_closer hq (by decide) hskip').trans leads_skip)
          obtain ⟨hrest, hkeys⟩ := ih hms
          refine ⟨hnext.trans hrest, fun m hm => ?_⟩
          rcases List.mem_cons.1 hm with rfl | hm
          · exact hstart
          · exact (hkeys m hm).leads hnext
        · cases h
      · cases h
    · cases h

theorem mem_keys_dictOf (h : key ∈ (dictOf ms).map Prod.fst) : key ∈ ms.map Prod.fst := by
  have step : ∀ (d : List (List ℕ × Value)) (m : List ℕ × Value),
      key ∈ (setMember d m).map Prod.fst → key ∈ d.map Prod.fst ∨ key = m.1 := by
    intro d m h
    unfold setMember at h
    split at h
    · obtain ⟨x, hx, rfl⟩ := List.mem_map.1 h
      obtain ⟨y, hy, rfl⟩ := List.mem_map.1 hx
      split
      · exact Or.inr rfl
      · exact Or.inl (List.mem_map_of_mem hy)
    · rw [List.map_append, List.mem_append] at h
      exact h.imp_right fun h => by simpa using h
  have fold : ∀ ms d : List (List ℕ × Value), key ∈ (ms.foldl setMember d).map Prod.fst →
      key ∈ d.map Prod.fst ∨ key ∈ ms.map Prod.fst := by
    intro ms
    induction ms with
    | nil => exact fun d h => Or.inl h
    | cons m ms ih =>
      intro d h
      rw [List.map_cons, List.mem_cons]
      rcases ih _ h with h | h
      · exact (step d m h).imp_right Or.inl
      · exact Or.inr (Or.inr h)
  exact (fold ms [] h).resolve_left List.not_mem_nil

/-- **A value**, and the keys of an object. -/
theorem leads_value (h : value n s = some (v, rest)) :
    (∃ q : Lex, q.Ended ∧ Leads .out q s rest) ∧
      ∀ fields, v = .obj fields → ∀ key ∈ fields.map Prod.fst, KeyIn s key := by
  induction n generalizing s v rest with
  | zero => cases h
  | succ n ih =>
    have hread : Reads (value n) := fun s v rest h => (ih h).1
    unfold value at h
    split at h
    · obtain ⟨⟨us, t⟩, hstr, h⟩ := Option.map_eq_some_iff.1 h
      obtain ⟨rfl, rfl⟩ := Prod.mk.inj h
      exact ⟨⟨_, Or.inr rfl, (Leads.char (by decide)).trans (leads_string hstr)⟩, fun _ he => by cases he⟩
    -- an array
    · rename_i s'
      have hopen : Leads .out .out ('[' :: s') (skip s') := (Leads.char (by decide)).trans leads_skip
      split at h
      · rename_i hskip
        obtain ⟨rfl, rfl⟩ := Prod.mk.inj (Option.some.inj h)
        rw [hskip] at hopen
        exact ⟨⟨_, Or.inl rfl, hopen.trans (Leads.char (by decide))⟩, fun _ he => by cases he⟩
      · obtain ⟨⟨vs, t⟩, hvs, h⟩ := Option.map_eq_some_iff.1 h
        obtain ⟨rfl, rfl⟩ := Prod.mk.inj h
        exact ⟨⟨_, Or.inl rfl, hopen.trans (leads_elements hread hvs)⟩, fun _ he => by cases he⟩
    -- an object, whose keys its members start with
    · rename_i s'
      have hopen : Leads .out .out ('{' :: s') (skip s') := (Leads.char (by decide)).trans leads_skip
      split at h
      · rename_i hskip
        obtain ⟨rfl, rfl⟩ := Prod.mk.inj (Option.some.inj h)
        rw [hskip] at hopen
        refine ⟨⟨_, Or.inl rfl, hopen.trans (Leads.char (by decide))⟩, fun fields he key hkey => ?_⟩
        cases he
        cases hkey
      · obtain ⟨⟨ms, t⟩, hms, h⟩ := Option.map_eq_some_iff.1 h
        obtain ⟨rfl, rfl⟩ := Prod.mk.inj h
        obtain ⟨hlead, hkeys⟩ := leads_members hread hms
        refine ⟨⟨_, Or.inl rfl, hopen.trans hlead⟩, fun fields he key hkey => ?_⟩
        obtain rfl := Value.obj.inj he
        obtain ⟨m, hm, rfl⟩ := List.mem_map.1 (mem_keys_dictOf hkey)
        exact (hkeys m hm).leads hopen
    · exact ⟨⟨_, Or.inl rfl, leads_scalar h⟩, fun fields he => absurd he (scalar_ne_obj h)⟩

end Values

section Texts

/-- **A text that is read** ends outside of a string. -/
theorem loads_lex (h : loads s = some v) : ∃ q : Lex, q.Ended ∧ Lex.out.run s = some q := by
  obtain ⟨⟨v', t⟩, hv, h⟩ := Option.bind_eq_some_iff.1 h
  dsimp only at h
  split at h
  · rename_i hskip
    obtain ⟨⟨q, hq, hlead⟩, -⟩ := leads_value hv
    obtain ⟨used, hused, hrun⟩ := (leads_skip.trans hlead : Leads .out q s t)
    -- nothing but white space is left
    have hspace : ∀ c ∈ t, isSpace c = true := List.dropWhile_eq_nil_iff.1 hskip
    cases t with
    | nil => exact ⟨q, hq, by rw [hused, List.append_nil]; exact hrun⟩
    | cons c t =>
      have hcloser : isCloser c = true := by
        rw [isCloser, hspace c List.mem_cons_self]
        rfl
      refine ⟨.out, Or.inl rfl, ?_⟩
      rw [hused, Lex.run_append, hrun, Option.bind_some, Lex.run_cons, step_closer hq hcloser]
      exact run_outer fun x hx => isOuter_of_isSpace (hspace x (List.mem_cons_of_mem _ hx))
  · cases h

/-- A key of an object that is read stands in the text. -/
theorem keyIn_of_loads {fields : List (List ℕ × Value)} {key : List ℕ}
    (h : loads s = some (.obj fields)) (hkey : key ∈ fields.map Prod.fst) : KeyIn s key := by
  obtain ⟨⟨v', t⟩, hv, h⟩ := Option.bind_eq_some_iff.1 h
  dsimp only at h
  split at h
  · obtain rfl := Option.some.inj h
    exact ((leads_value hv).2 fields rfl key hkey).leads leads_skip
  · cases h

/-- Outside of a string for one reading, in a string for the other. -/
def Flipped (q q' : Lex) : Prop :=
  q = .out ∧ q' = .inside ∨ q = .inside ∧ q'.Ended ∨ q = .closed ∧ q' = .inside

theorem step_out_cases (h : Lex.out.step c = some r) :
    c = '"' ∧ r = .inside ∨ (c ≠ '"' ∧ c ≠ '\\') ∧ isOuter c = true ∧ r = .out := by
  rw [Lex.step] at h
  split at h
  · rename_i hq
    exact Or.inl ⟨hq, (Option.some.inj h).symm⟩
  · rename_i hq
    split at h
    · rename_i ho
      refine Or.inr ⟨⟨hq, ?_⟩, ho, (Option.some.inj h).symm⟩
      rintro rfl
      exact absurd ho (by decide)
    · cases h

theorem step_closed_cases (h : Lex.closed.step c = some r) :
    (c ≠ '"' ∧ c ≠ '\\') ∧ isCloser c = true ∧ r = .out := by
  rw [Lex.step] at h
  split at h
  · rename_i hc
    refine ⟨⟨?_, ?_⟩, hc, (Option.some.inj h).symm⟩ <;> rintro rfl <;> exact absurd hc (by decide)
  · cases h

/-- **Two readings that differ on what is a string** go on to differ. -/
theorem flipped_step (h : Flipped q q') (hq : q.step c = some r) (hq' : q'.step c = some r') :
    Flipped r r' := by
  have hquote : Lex.inside.step '"' = some .closed := by decide
  rcases h with ⟨rfl, rfl⟩ | ⟨rfl, rfl | rfl⟩ | ⟨rfl, rfl⟩
  · rcases step_out_cases hq with ⟨rfl, rfl⟩ | ⟨⟨h1, h2⟩, -, rfl⟩
    · obtain rfl := Option.some.inj (hquote.symm.trans hq')
      exact Or.inr (Or.inl ⟨rfl, Or.inr rfl⟩)
    · obtain rfl := Option.some.inj ((step_inside h1 h2).symm.trans hq')
      exact Or.inl ⟨rfl, rfl⟩
  · rcases step_out_cases hq' with ⟨rfl, rfl⟩ | ⟨⟨h1, h2⟩, -, rfl⟩
    · obtain rfl := Option.some.inj (hquote.symm.trans hq)
      exact Or.inr (Or.inr ⟨rfl, rfl⟩)
    · obtain rfl := Option.some.inj ((step_inside h1 h2).symm.trans hq)
      exact Or.inr (Or.inl ⟨rfl, Or.inl rfl⟩)
  · obtain ⟨⟨h1, h2⟩, -, rfl⟩ := step_closed_cases hq'
    obtain rfl := Option.some.inj ((step_inside h1 h2).symm.trans hq)
    exact Or.inr (Or.inl ⟨rfl, Or.inl rfl⟩)
  · obtain ⟨⟨h1, h2⟩, -, rfl⟩ := step_closed_cases hq
    obtain rfl := Option.some.inj ((step_inside h1 h2).symm.trans hq')
    exact Or.inl ⟨rfl, rfl⟩

theorem flipped_run (h : Flipped q q') (hr : q.run s = some r) (hr' : q'.run s = some r') :
    Flipped r r' := by
  induction s generalizing q q' with
  | nil =>
    obtain rfl := Option.some.inj hr
    obtain rfl := Option.some.inj hr'
    exact h
  | cons c s ih =>
    rw [Lex.run_cons] at hr hr'
    obtain ⟨x, hx, hr⟩ := Option.bind_eq_some_iff.1 hr
    obtain ⟨y, hy, hr'⟩ := Option.bind_eq_some_iff.1 hr'
    exact ih (flipped_step h hx hy) hr hr'

/-- **The keys of a piece that starts in a string** start with what may follow a string. -/
theorem closer_of_key {fields : List (List ℕ × Value)} {u : ℕ} {us : List ℕ}
    (hinside : Lex.inside.run s = some q) (h : loads s = some (.obj fields))
    (hkey : u :: us ∈ fields.map Prod.fst) : ∃ c, isCloser c = true ∧ c.toNat = u := by
  obtain ⟨a, b, n, rest, rfl, ha, hstr⟩ := keyIn_of_loads h hkey
  rw [Lex.run_append] at hinside
  obtain ⟨x, hx, hinside⟩ := Option.bind_eq_some_iff.1 hinside
  -- the key's quote ends a string of the whole text
  have hflip := flipped_run (Or.inl ⟨rfl, rfl⟩) ha hx
  have hin : x = .inside := by
    rcases hflip with ⟨-, hi⟩ | ⟨ho, -⟩ | ⟨-, hi⟩
    · exact hi
    · cases ho
    · exact hi
  subst hin
  have hquote : Lex.inside.step '"' = some .closed := by decide
  rw [Lex.run_cons, hquote, Option.bind_some] at hinside
  cases b with
  | nil =>
    cases n with
    | zero => cases hstr
    | succ n => cases hstr
  | cons c b =>
    rw [Lex.run_cons] at hinside
    obtain ⟨y, hy, -⟩ := Option.bind_eq_some_iff.1 hinside
    obtain ⟨⟨-, hb⟩, hc, -⟩ := step_closed_cases hy
    exact ⟨c, hc, (head_of_string hstr).resolve_left hb⟩

end Texts

end Json
