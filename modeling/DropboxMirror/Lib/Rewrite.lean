import DropboxMirror.Lib.Lists

/-!
# Texts with marks put in

A rewrite walks over a text from the left. Where `find` sees a match it keeps a beginning of
it, puts a mark in place of the rest and goes on behind it, as `str.replace` and `re.sub` do.
What comes out is a join of parts of the text (`exists_parts`). A word that lacks the first and
the last letter of the mark, and does not stand between them, can only stand in one of these
parts (`Foreign.exists_part`): no rewrite brings it in, and its own replacement takes it out.
-/

namespace Rewrite

variable {α : Type*} {s a b p u : List α} {c : α}

section Walk

/-- The walk, where the first `n` characters are still of a match. -/
def rewriteFrom (find : List α → Option (List α × ℕ)) (mark : List α) : ℕ → List α → List α
  | _, [] => []
  | n + 1, _ :: s => rewriteFrom find mark n s
  | 0, c :: s =>
    match find (c :: s) with
    | some (kept, n) => kept ++ mark ++ rewriteFrom find mark (n - 1) s
    | none => c :: rewriteFrom find mark 0 s

/-- Each match, of what is kept of it and its length, has the mark put in. -/
def rewrite (find : List α → Option (List α × ℕ)) (mark text : List α) : List α :=
  rewriteFrom find mark 0 text

variable {find : List α → Option (List α × ℕ)} {mark : List α}

theorem rewriteFrom_drop (n : ℕ) (u : List α) :
    rewriteFrom find mark n u = rewriteFrom find mark 0 (u.drop n) := by
  induction u generalizing n with
  | nil => cases n <;> rfl
  | cons c s ih =>
    cases n with
    | zero => rfl
    | succ n => rw [rewriteFrom, ih, List.drop_succ_cons]

/-- A text in which nothing matches stays. -/
theorem rewrite_eq_self {text : List α} (h : ∀ u, u <:+ text → find u = none) :
    rewrite find mark text = text := by
  unfold rewrite
  induction text with
  | nil => rfl
  | cons c s ih =>
    have hrest : rewriteFrom find mark 0 s = s :=
      ih fun u hu => h u (hu.trans (List.suffix_cons c s))
    rw [rewriteFrom, h _ List.suffix_rfl]
    dsimp only
    rw [hrest]

/-- **What comes out is a join of parts of the text.** Each part is what is kept of a match,
behind characters at which nothing matches, and `Q` may be any property these steps keep. -/
theorem exists_parts (mark : List α) {Q : List α → Prop}
    (hkept : ∀ u kept n, find u = some (kept, n) → kept <+: u ∧ Q kept) (hnil : Q [])
    (hcons : ∀ c s p, find (c :: s) = none → p <+: s → Q p → Q (c :: p)) (u : List α) :
    ∃ p ps, rewrite find mark u = mark.intercalate (p :: ps) ∧ p <+: u ∧
      ∀ q ∈ p :: ps, q <:+: u ∧ Q q := by
  induction hlen : u.length using Nat.strong_induction_on generalizing u with
  | _ k ih =>
    cases u with
    | nil => exact ⟨[], [], by simp [rewrite, rewriteFrom], List.nil_prefix, by simpa using hnil⟩
    | cons c s =>
      rw [List.length_cons] at hlen
      unfold rewrite at ih ⊢
      rw [rewriteFrom]
      cases hfind : find (c :: s) with
      | some m =>
        obtain ⟨kept, n⟩ := m
        obtain ⟨hpre, hQ⟩ := hkept _ _ _ hfind
        have hshort : (s.drop (n - 1)).length < k := by
          rw [List.length_drop]
          omega
        obtain ⟨p, ps, hout, -, hparts⟩ := ih _ hshort (s.drop (n - 1)) rfl
        refine ⟨kept, p :: ps, ?_, hpre, fun q hq => ?_⟩
        · dsimp only
          rw [rewriteFrom_drop, hout, List.intercalate_cons_cons]
        · rcases List.mem_cons.1 hq with rfl | hq
          · exact ⟨hpre.isInfix, hQ⟩
          · -- a part behind the match
            obtain ⟨hin, hq⟩ := hparts q hq
            have hdrop := (List.drop_suffix (n - 1) s).trans (List.suffix_cons c s)
            exact ⟨hin.trans hdrop.isInfix, hq⟩
      | none =>
        obtain ⟨p, ps, hout, hpre, hparts⟩ := ih s.length (by omega) s rfl
        refine ⟨c :: p, ps, ?_, (List.prefix_cons_inj c).2 hpre, fun q hq => ?_⟩
        · dsimp only
          rw [hout, List.intercalate_cons_cons_left]
        · rcases List.mem_cons.1 hq with rfl | hq
          · exact ⟨((List.prefix_cons_inj c).2 hpre).isInfix,
              hcons c s p hfind hpre (hparts p List.mem_cons_self).2⟩
          · obtain ⟨hin, hq⟩ := hparts q (List.mem_cons_of_mem _ hq)
            exact ⟨hin.trans (List.suffix_cons _ _).isInfix, hq⟩

end Walk

section Marks

/-- A word that cannot overlap the mark `l :: (core ++ [r])`. -/
structure Foreign (l r : α) (core s : List α) : Prop where
  left : l ∉ s
  right : r ∉ s
  core : ¬ s <:+: core

theorem Foreign.ne_nil {l r : α} {core : List α} (hs : Foreign l r core s) : s ≠ [] := by
  rintro rfl
  exact hs.core List.nil_infix

variable {l r : α} {core old text : List α} {find : List α → Option (List α × ℕ)}

/-- A word without the letter `c` stands on one side of it. -/
theorem infix_append_cons (hc : c ∉ s) (h : s <:+: a ++ c :: b) : s <:+: a ∨ s <:+: b := by
  obtain ⟨x, y, hxy⟩ := h
  rcases Lists.cut_cases hxy.symm with ⟨mid, hmid⟩ | ⟨hcut, -⟩ | ⟨z, mid, hcut, -⟩
  · -- the letter is before the end of the word, hence before the word
    rcases Lists.cut_cases hmid.symm with ⟨mid, rfl⟩ | ⟨-, rfl⟩ | ⟨z, mid, -, rfl⟩
    · have hb : mid ++ s ++ y = b := by simpa using hxy
      exact Or.inr ⟨mid, y, hb⟩
    · exact absurd List.mem_cons_self hc
    · exact absurd (by simp) hc
  · exact Or.inl ⟨x, [], by rw [List.append_nil, hcut]⟩
  · exact Or.inl ⟨x, z :: mid, hcut.symm⟩

/-- **A word foreign to the mark stands in one of the parts**, if it stands in their join. -/
theorem Foreign.exists_part (hs : Foreign l r core s) {parts : List (List α)}
    (h : s <:+: (l :: (core ++ [r])).intercalate parts) : ∃ p ∈ parts, s <:+: p := by
  induction parts with
  | nil =>
    rw [List.intercalate_nil] at h
    exact absurd (List.infix_nil.1 h) hs.ne_nil
  | cons p parts ih =>
    cases parts with
    | nil => exact ⟨p, List.mem_cons_self, by simpa using h⟩
    | cons q parts =>
      rw [List.intercalate_cons_cons, List.append_assoc, List.cons_append] at h
      rcases infix_append_cons hs.left h with h | h
      · exact ⟨p, List.mem_cons_self, h⟩
      · rw [List.append_assoc, List.singleton_append] at h
        rcases infix_append_cons hs.right h with h | h
        · exact absurd h hs.core
        · obtain ⟨p', hp', hin⟩ := ih h
          exact ⟨p', List.mem_cons_of_mem _ hp', hin⟩

/-- A rewrite brings no foreign word into a text. -/
theorem Foreign.not_infix_rewrite (hs : Foreign l r core s)
    (hkept : ∀ u kept n, find u = some (kept, n) → kept <+: u) (htext : ¬ s <:+: text) :
    ¬ s <:+: rewrite find (l :: (core ++ [r])) text := by
  obtain ⟨p, ps, hout, -, hparts⟩ := exists_parts (l :: (core ++ [r])) (Q := fun _ => True)
    (fun u kept n h => ⟨hkept u kept n h, trivial⟩) trivial (fun _ _ _ _ _ _ => trivial) text
  intro h
  rw [hout] at h
  obtain ⟨q, hq, hin⟩ := hs.exists_part h
  exact htext (hin.trans (hparts q hq).1)

section Replace

variable [DecidableEq α]

/-- Where `old` begins, all of it is taken. -/
def wholeMatch (old u : List α) : Option (List α × ℕ) :=
  if old <+: u then some ([], old.length) else none

/-- `text.replace(old, new)`, for an `old` that is not empty. -/
def replace (old new text : List α) : List α := rewrite (wholeMatch old) new text

theorem wholeMatch_kept {old u kept : List α} {n : ℕ} (h : wholeMatch old u = some (kept, n)) :
    kept = [] := by
  unfold wholeMatch at h
  split at h
  · obtain ⟨rfl, -⟩ := Prod.mk.inj (Option.some.inj h)
    rfl
  · cases h

theorem wholeMatch_eq_none {old u : List α} (h : wholeMatch old u = none) : ¬ old <+: u := by
  unfold wholeMatch at h
  split at h
  · cases h
  · assumption

/-- A text without `old` stays. -/
theorem replace_eq_self {new : List α} (h : ¬ old <:+: text) : replace old new text = text := by
  refine rewrite_eq_self fun u hu => ?_
  unfold wholeMatch
  rw [if_neg]
  exact fun hold => h (hold.isInfix.trans hu.isInfix)

/-- A replacement brings no foreign word into a text. -/
theorem Foreign.not_infix_replace (hs : Foreign l r core s)
    (htext : ¬ s <:+: text) : ¬ s <:+: replace old (l :: (core ++ [r])) text := by
  refine hs.not_infix_rewrite (fun u kept n h => ?_) htext
  rw [wholeMatch_kept h]
  exact List.nil_prefix

/-- **What is replaced is gone.** No part of the text holds it whole, and no join of them does. -/
theorem Foreign.not_infix_replace_self (hs : Foreign l r core s) :
    ¬ s <:+: replace s (l :: (core ++ [r])) text := by
  -- a part grows only by a letter where `s` does not begin
  have hgrow : ∀ c t p, wholeMatch s (c :: t) = none → p <+: t → ¬ s <:+: p → ¬ s <:+: c :: p := by
    intro c t p hnone hp hclean hin
    rcases List.infix_cons_iff.1 hin with hbegin | hin
    · exact wholeMatch_eq_none hnone (hbegin.trans ((List.prefix_cons_inj c).2 hp))
    · exact hclean hin
  have hkept : ∀ u kept n, wholeMatch s u = some (kept, n) → kept <+: u ∧ ¬ s <:+: kept := by
    intro u kept n hmatch
    rw [wholeMatch_kept hmatch]
    exact ⟨List.nil_prefix, by simpa using hs.ne_nil⟩
  obtain ⟨p, ps, hout, -, hparts⟩ := exists_parts (l :: (core ++ [r])) hkept
    (by simpa using hs.ne_nil) hgrow text
  intro h
  unfold replace at h
  rw [hout] at h
  obtain ⟨q, hq, hin⟩ := hs.exists_part h
  exact (hparts q hq).2 hin

end Replace

end Marks

end Rewrite
