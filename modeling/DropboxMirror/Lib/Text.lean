import Mathlib

/-!
# Text and separator-joined paths

Text is a list of characters, and the string methods used on paths are functions
on lists: `lstrip` and `rstrip` of one character, `rpartition` at the last
separator, and `split`/`join` as `List.splitOn` and `List.intercalate`.

* `rpartition_append`: `rpartition` at the last separator.
* `slashes_eq`: a path of parts, each after a separator.
* `mem_split`: no part of a split text holds the separator.
* `slashes_prefix`: a directory above a path is a prefix of its parts.
-/

/-- Text as a list of characters. -/
abbrev Str := List Char

instance : LawfulBEq Str := inferInstance

namespace Text

variable {α : Type*} {c : α} {s a b : List α}

/-- `c.join(parts)`. -/
def join (c : α) (parts : List (List α)) : List α := [c].intercalate parts

@[simp] theorem join_singleton : join c [s] = s := by simp [join]

theorem join_cons (p : List (List α)) (hp : p ≠ []) : join c (s :: p) = s ++ c :: join c p := by
  obtain ⟨q, r, rfl⟩ := List.exists_cons_of_ne_nil hp
  simp [join]

/-- The parts of a path, each after a separator. -/
def slashes (c : α) (parts : List (List α)) : List α := parts.flatMap (c :: ·)

@[simp] theorem slashes_nil : slashes c ([] : List (List α)) = [] := rfl

@[simp] theorem slashes_cons (p : List (List α)) : slashes c (s :: p) = c :: s ++ slashes c p := rfl

@[simp] theorem slashes_append (p q : List (List α)) :
    slashes c (p ++ q) = slashes c p ++ slashes c q := List.flatMap_append

theorem slashes_eq {p : List (List α)} (hp : p ≠ []) : slashes c p = c :: join c p := by
  induction p with
  | nil => exact absurd rfl hp
  | cons s p ih =>
    rcases eq_or_ne p [] with rfl | hne
    · simp
    · rw [slashes_cons, ih hne, join_cons p hne, List.cons_append]

/-- A path of one part more. -/
theorem join_concat {p : List (List α)} (hp : p ≠ []) : join c (p ++ [s]) = join c p ++ c :: s := by
  have h : slashes c (p ++ [s]) = slashes c p ++ c :: s := by simp
  rw [slashes_eq hp, slashes_eq (by simp), List.cons_append] at h
  exact (List.cons.inj h).2

/-- A text with a separator is the part before the last one, the separator, and a
part without any. -/
theorem exists_append_of_mem (h : c ∈ s) : ∃ a b, s = a ++ c :: b ∧ c ∉ b := by
  obtain ⟨a, b, hs, hb⟩ := List.eq_append_cons_of_mem (List.mem_reverse.2 h)
  refine ⟨b.reverse, a.reverse, ?_, by simpa using hb⟩
  have := congrArg List.reverse hs
  simpa using this

variable [DecidableEq α]

/-- `s.lstrip(c)`: leading occurrences of one character removed. -/
def lstrip (c : α) (s : List α) : List α := s.dropWhile (· == c)

/-- `s.rstrip(c)`: trailing occurrences of one character removed. -/
def rstrip (c : α) (s : List α) : List α := s.rdropWhile (· == c)

/-- The text after the last separator; all of it where there is none. -/
def afterLast (c : α) (s : List α) : List α := (s.reverse.takeWhile (· != c)).reverse

/-- The text before the last separator; empty where there is none. -/
def beforeLast (c : α) (s : List α) : List α := (s.reverse.dropWhile (· != c)).tail.reverse

/-- `s.rpartition(c)`: the text before the last separator, and the text after it. -/
def rpartition (c : α) (s : List α) : List α × List α := (beforeLast c s, afterLast c s)

@[simp] theorem lstrip_cons_self : lstrip c (c :: s) = lstrip c s := by simp [lstrip]

theorem lstrip_of_head (h : ∀ x ∈ s.head?, x ≠ c) : lstrip c s = s := by
  cases s with
  | nil => rfl
  | cons x s => simp [lstrip, h x (by simp)]

theorem lstrip_idem : lstrip c (lstrip c s) = lstrip c s := List.dropWhile_idempotent _ _

theorem lstrip_append (h : ∃ x ∈ a, x ≠ c) : lstrip c (a ++ b) = lstrip c a ++ b := by
  obtain ⟨x, hx, hxc⟩ := h
  unfold lstrip
  rw [List.dropWhile_append, if_neg]
  intro hnil
  have := List.dropWhile_eq_nil_iff.1 (List.isEmpty_iff.1 hnil) x hx
  simp [hxc] at this

theorem rpartition_append (h : c ∉ b) : rpartition c (a ++ c :: b) = (a, b) := by
  have hall : ∀ x ∈ b.reverse, (x != c) = true := by
    intro x hx
    rw [List.mem_reverse] at hx
    simp only [bne_iff_ne]
    rintro rfl
    exact h hx
  have hrev : (a ++ c :: b).reverse = b.reverse ++ c :: a.reverse := by simp
  rw [rpartition, beforeLast, afterLast, hrev, List.takeWhile_append_of_pos hall,
    List.dropWhile_append_of_pos hall]
  simp

theorem join_split : join c (s.splitOn c) = s := List.intercalate_splitOn c

theorem split_join {p : List (List α)} (hp : p ≠ []) (h : ∀ x ∈ p, c ∉ x) :
    (join c p).splitOn c = p := List.splitOn_intercalate c h hp

/-- No part of a split text holds the separator. -/
theorem mem_split : ∀ {s x : List α}, x ∈ s.splitOn c → c ∉ x := by
  intro s
  induction s with
  | nil => intro x hx; simp at hx; simp [hx]
  | cons y s ih =>
    intro x hx
    rw [List.splitOn_cons_eq_if_modifyHead] at hx
    split at hx
    · rcases List.mem_cons.1 hx with rfl | hx
      · simp
      · exact ih hx
    · rename_i hy
      obtain ⟨q, r, hqr⟩ := List.exists_cons_of_ne_nil (List.splitOn_ne_nil c s)
      rw [hqr, List.modifyHead_cons] at hx
      rcases List.mem_cons.1 hx with rfl | hx
      · have hq : c ∉ q := ih (by rw [hqr]; exact List.mem_cons_self)
        have hyc : c ≠ y := by rintro rfl; simp at hy
        simp [hyc, hq]
      · exact ih (by rw [hqr]; exact List.mem_cons_of_mem _ hx)

/-- A path of parts without the separator has one reading. -/
theorem slashes_inj {p q : List (List α)} (hp : p ≠ []) (hq : q ≠ []) (hp' : ∀ x ∈ p, c ∉ x)
    (hq' : ∀ x ∈ q, c ∉ x) (h : slashes c p = slashes c q) : p = q := by
  rw [slashes_eq hp, slashes_eq hq] at h
  rw [← split_join hp hp', ← split_join hq hq', (List.cons.inj h).2]

/-- **A path is another one, or a directory above it, where its parts are a prefix.** -/
theorem slashes_prefix {p q : List (List α)} (hp : p ≠ []) (hq : q ≠ []) (hp' : ∀ x ∈ p, c ∉ x)
    (hq' : ∀ x ∈ q, c ∉ x) :
    (slashes c q = slashes c p ∨ ∃ rest, slashes c q = slashes c p ++ c :: rest) ↔ p <+: q := by
  constructor
  · rintro (h | ⟨rest, h⟩)
    · rw [slashes_inj hq hp hq' hp' h]
    · have hrest : slashes c q = slashes c (p ++ rest.splitOn c) := by
        rw [h, slashes_append, slashes_eq (List.splitOn_ne_nil c rest), join_split]
      refine ⟨rest.splitOn c, (slashes_inj hq (List.append_ne_nil_of_left_ne_nil hp _) hq' ?_
        hrest).symm⟩
      intro x hx
      rcases List.mem_append.1 hx with hx | hx
      · exact hp' x hx
      · exact mem_split hx
  · rintro ⟨r, rfl⟩
    rcases eq_or_ne r [] with rfl | hr
    · exact Or.inl (by rw [List.append_nil])
    · exact Or.inr ⟨join c r, by rw [slashes_append, slashes_eq hr]⟩

/-- Two lists of which neither is a prefix of the other differ at an index of both. -/
theorem not_prefix_iff {β : Type*} {p q : List β} :
    ¬ p <+: q ∧ ¬ q <+: p ↔ ∃ (i : ℕ) (x y : β), p[i]? = some x ∧ q[i]? = some y ∧ x ≠ y := by
  induction p generalizing q with
  | nil => simp
  | cons a p ih =>
    cases q with
    | nil => simp
    | cons b q =>
      by_cases hab : a = b
      · subst hab
        rw [List.prefix_cons_inj, List.prefix_cons_inj, ih]
        constructor
        · rintro ⟨i, x, y, hx, hy, hne⟩
          exact ⟨i + 1, x, y, hx, hy, hne⟩
        · rintro ⟨i, x, y, hx, hy, hne⟩
          cases i with
          | zero => exact absurd ((Option.some.inj hx).symm.trans (Option.some.inj hy)) hne
          | succ i => exact ⟨i, x, y, hx, hy, hne⟩
      · refine ⟨fun _ => ⟨0, a, b, rfl, rfl, hab⟩, fun _ => ?_⟩
        rw [List.cons_prefix_cons, List.cons_prefix_cons]
        exact ⟨fun h => hab h.1, fun h => hab h.1.symm⟩

end Text
