import DropboxMirror.Model.Logging

/-!
# No secret is left in a redacted text

Each secret is replaced in a text that the replacements before it have cleaned, and the
header's token is replaced last. Every one of these steps is a rewrite with the same mark,
so none brings a secret back (`Foreign.not_infix_rewrite`), and the secret's own replacement
takes it out (`Foreign.not_infix_replace_self`): after the run no secret is left
(`redact_leaves_no_secret`), whatever the order of the secrets.
-/

namespace DropboxMirror

open Rewrite

variable {logger : RunLogger} {s value text : Str}

section Registered

theorem mem_init {set : SetOrder} {secrets : Option (List Str)} :
    s ∈ (RunLogger.init set secrets).secrets ↔ s ∈ secrets.getD [] ∧ s ≠ [] := by
  unfold RunLogger.init
  simp [(set.perm _).mem_iff]

theorem mem_addSecret : s ∈ (logger.addSecret value).secrets ↔
    s ∈ logger.secrets ∨ s = value ∧ s ≠ [] := by
  unfold RunLogger.addSecret
  split
  · rename_i h
    constructor
    · exact Or.inl
    · rintro (hs | ⟨rfl, hne⟩)
      · exact hs
      · exact h.resolve_left hne
  · rename_i h
    rw [not_or] at h
    simp only [mem_sortedByLength, List.mem_append, List.mem_singleton]
    refine or_congr_right ⟨fun hs => ⟨hs, ?_⟩, And.left⟩
    rw [hs]
    exact h.1

/-- **The secrets of a logger** are those it was made with and the texts added since, but for the
empty one. -/
theorem mem_secrets {added : List Str} : s ∈ (added.foldl RunLogger.addSecret logger).secrets ↔
    s ∈ logger.secrets ∨ s ∈ added ∧ s ≠ [] := by
  induction added generalizing logger with
  | nil => simp
  | cons value added ih =>
    rw [List.foldl_cons, ih, mem_addSecret, List.mem_cons]
    tauto

end Registered

section Redacted

/-- A secret that cannot overlap the mark. -/
abbrev Unmarked (s : Str) : Prop := Foreign '[' ']' "REDACTED".toList s

theorem bearerMatch_kept {u header : Str} {n : ℕ} (h : bearerMatch u = some (header, n)) :
    header <+: u := by
  unfold bearerMatch at h
  cases hbehind : behindBearer u with
  | none => simp [hbehind] at h
  | some behind =>
    simp only [hbehind, Option.bind_eq_bind, Option.bind_some] at h
    split at h
    · cases h
    · obtain ⟨rfl, -⟩ := Prod.mk.inj (Option.some.inj h)
      exact List.take_prefix _ _

/-- What the run of replacements leaves: nothing new, and none of the secrets replaced. -/
theorem not_infix_foldl_replace (hs : Unmarked s) (secrets : List Str) {text : Str}
    (h : s ∈ secrets ∨ ¬ s <:+: text) :
    ¬ s <:+: secrets.foldl (fun safe secret => replace secret redacted safe) text := by
  induction secrets generalizing text with
  | nil => simpa using h
  | cons secret secrets ih =>
    rw [List.foldl_cons]
    refine ih (or_iff_not_imp_left.2 fun hlater => ?_)
    -- no later replacement is of this secret: it goes now, or was not there
    rcases h with h | htext
    · rcases List.mem_cons.1 h with rfl | h
      · exact hs.not_infix_replace_self
      · exact absurd h hlater
    · exact hs.not_infix_replace htext

theorem not_infix_redact (hs : Unmarked s) (hmem : s ∈ logger.secrets) {safe : Str}
    (h : logger.redact (some value) = some safe) : ¬ s <:+: safe := by
  unfold RunLogger.redact at h
  rw [← Option.some.inj h]
  exact hs.not_infix_rewrite (fun u kept n => bearerMatch_kept)
    (not_infix_foldl_replace hs _ (Or.inl hmem))

/-- **Redaction leaves no secret in a text.** -/
theorem redact_leaves_no_secret (set : SetOrder) (initial : Option (List Str)) (added : List Str)
    (text : Str) (hplain : ∀ s ∈ initial.getD [] ++ added, s ≠ [] →
      '[' ∉ s ∧ ']' ∉ s ∧ ¬ s <:+: "REDACTED".toList) :
    ∃ safe, (added.foldl RunLogger.addSecret (.init set initial)).redact (some text) = some safe ∧
      ∀ s ∈ initial.getD [] ++ added, s ≠ [] → ¬ s <:+: safe := by
  refine ⟨_, rfl, fun s hs hne => ?_⟩
  obtain ⟨hleft, hright, hcore⟩ := hplain s hs hne
  have hmem : s ∈ (added.foldl RunLogger.addSecret (.init set initial)).secrets := by
    rw [mem_secrets, mem_init]
    rcases List.mem_append.1 hs with hs | hs
    · exact Or.inl ⟨hs, hne⟩
    · exact Or.inr ⟨hs, hne⟩
  exact not_infix_redact ⟨hleft, hright, hcore⟩ hmem rfl

/-- Overlapping secrets, one in a header. -/
theorem redact_leaves_no_secret_overlap :
    ∃ safe, (["bcd".toList, [], "abc".toList].foldl RunLogger.addSecret
        (.init ⟨List.reverse, List.reverse_perm⟩ (some ["abc".toList, "abcd".toList]))).redact
          (some "abcdabcbcd, Authorization: Bearer xbcd".toList) = some safe ∧
      ∀ s ∈ ["abc".toList, "abcd".toList] ++ ["bcd".toList, [], "abc".toList], s ≠ [] →
        ¬ s <:+: safe :=
  redact_leaves_no_secret _ _ _ _ (by decide)

/-- A text without a secret and without a header stays. -/
theorem redact_of_clean (hsecret : ∀ s ∈ logger.secrets, ¬ s <:+: text)
    (hheader : ∀ u, u <:+ text → bearerMatch u = none) :
    logger.redact (some text) = some text := by
  have hrun : ∀ secrets : List Str, (∀ s ∈ secrets, ¬ s <:+: text) →
      secrets.foldl (fun safe secret => replace secret redacted safe) text = text := by
    intro secrets h
    induction secrets with
    | nil => rfl
    | cons s secrets ih =>
      rw [List.foldl_cons, replace_eq_self (h s List.mem_cons_self)]
      exact ih fun s hs => h s (List.mem_cons_of_mem _ hs)
  unfold RunLogger.redact
  simp only [hrun _ hsecret]
  rw [rewrite_eq_self hheader]

end Redacted

end DropboxMirror
