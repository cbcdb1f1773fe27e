import DropboxMirror.Lib.Text

/-!
# Normalisation and case folding

A `Unicode` is a pair of text functions with the laws of canonical composition
and of full case folding that path comparison relies on: each acts on the
components of a separator-joined path one by one (`Componentwise`), and
composition is idempotent. Distinct texts may have one image under either.

* `Componentwise.map_join`: the image of a joined path is the join of the images.
* `Componentwise.part_ok`: a part with the image of a proper component is one.
* `Unicode.latin`: a fragment of the real tables, for runs on concrete texts.
-/

namespace Text

variable {c : Char} {f g : Str → Str}

/-- A text function that acts on the components of a separated text one by one. -/
structure Componentwise (c : Char) (f : Str → Str) : Prop where
  nil : f [] = []
  ne_nil : ∀ s, s ≠ [] → f s ≠ []
  sep : ∀ a b, f (a ++ c :: b) = f a ++ c :: f b
  not_mem : ∀ s, c ∉ s → c ∉ f s

/-- A component: not empty and without the separator. -/
def Proper (c : Char) (s : Str) : Prop := s ≠ [] ∧ c ∉ s

instance (c : Char) (s : Str) : Decidable (Proper c s) := inferInstanceAs (Decidable (_ ∧ _))

theorem Proper.lstrip_join {s : Str} {p : List Str} (hs : Proper c s) :
    lstrip c (join c (s :: p)) = join c (s :: p) := by
  obtain ⟨x, t, rfl⟩ := List.exists_cons_of_ne_nil hs.1
  have hx : x ≠ c := by
    rintro rfl
    exact hs.2 List.mem_cons_self
  apply lstrip_of_head
  rcases eq_or_ne p [] with hp | hp
  · subst hp; simpa using hx
  · rw [join_cons _ hp]; simpa using hx

namespace Componentwise

theorem comp (hf : Componentwise c f) (hg : Componentwise c g) : Componentwise c (f ∘ g) where
  nil := by simp [hg.nil, hf.nil]
  ne_nil s hs := hf.ne_nil _ (hg.ne_nil s hs)
  sep a b := by simp [hg.sep, hf.sep]
  not_mem s hs := hf.not_mem _ (hg.not_mem s hs)

/-- **The image of a joined path is the join of the images.** -/
theorem map_join (hf : Componentwise c f) (p : List Str) : f (join c p) = join c (p.map f) := by
  induction p with
  | nil => exact hf.nil
  | cons s p ih =>
    rcases eq_or_ne p [] with hp | hp
    · subst hp; simp
    · rw [join_cons _ hp, hf.sep, ih, List.map_cons, join_cons _ (by simpa using hp)]

theorem map_slashes (hf : Componentwise c f) {p : List Str} (hp : p ≠ []) :
    c :: f (join c p) = slashes c (p.map f) := by
  rw [hf.map_join, slashes_eq (by simpa using hp)]

/-- A part with the same image as a proper component is proper itself. -/
theorem part_ok (hf : Componentwise c f) {s t : Str} (ht : Proper c t) (h : f s = f t) :
    Proper c s := by
  refine ⟨?_, ?_⟩
  · rintro rfl
    exact hf.ne_nil t ht.1 (by rw [← h, hf.nil])
  · intro hs
    obtain ⟨a, b, rfl, -⟩ := exists_append_of_mem hs
    apply hf.not_mem t ht.2
    rw [← h, hf.sep]
    simp

end Componentwise

end Text

open Text in
/-- **Canonical composition and case folding**, as far as paths joined with `'/'`
see them. -/
structure Unicode where
  nfc : Str → Str
  casefold : Str → Str
  nfc_idem : ∀ s, nfc (nfc s) = nfc s
  nfc_parts : Componentwise '/' nfc
  casefold_parts : Componentwise '/' casefold

namespace Unicode

open Text

/-- The letter `e` with an acute accent, as one character. -/
def eAcute : Char := Char.ofNat 0xE9

/-- The combining acute accent. -/
def acute : Char := Char.ofNat 0x301

/-- The German sharp s. -/
def sharpS : Char := Char.ofNat 0xDF

/-- Composes `e` and a combining acute accent. -/
def composeAcute : Str → Str
  | [] => []
  | [x] => [x]
  | x :: y :: s =>
    if x = 'e' ∧ y = acute then eAcute :: composeAcute s else x :: composeAcute (y :: s)

/-- Folds ASCII capitals and the sharp s. -/
def foldChar (x : Char) : Str := if x = sharpS then ['s', 's'] else [x.toLower]

theorem composeAcute_skip {x y : Char} (s : Str) (h : ¬ (x = 'e' ∧ y = acute)) :
    composeAcute (x :: y :: s) = x :: composeAcute (y :: s) := by rw [composeAcute, if_neg h]

theorem composeAcute_head (y : Char) (s : Str) :
    ∃ z t, composeAcute (y :: s) = z :: t ∧ (z = y ∨ z = eAcute) := by
  cases s with
  | nil => exact ⟨y, [], rfl, Or.inl rfl⟩
  | cons w s =>
    rw [composeAcute]
    split
    · exact ⟨_, _, rfl, Or.inr rfl⟩
    · exact ⟨_, _, rfl, Or.inl rfl⟩

theorem composeAcute_idem (s : Str) : composeAcute (composeAcute s) = composeAcute s := by
  induction s using composeAcute.induct with
  | case1 => rfl
  | case2 x => rfl
  | case3 x y s h ih =>
    rw [composeAcute, if_pos h]
    cases hs : composeAcute s with
    | nil => rfl
    | cons z t =>
      rw [hs] at ih
      rw [composeAcute, if_neg (fun h => absurd h.1 (by decide)), ih]
  | case4 x y s h ih =>
    rw [composeAcute, if_neg h]
    obtain ⟨z, t, hz, hzy⟩ := composeAcute_head y s
    rw [hz] at ih ⊢
    rw [composeAcute, if_neg, ih]
    rintro ⟨rfl, rfl⟩
    rcases hzy with hzy | hzy
    · exact h ⟨rfl, hzy.symm⟩
    · exact absurd hzy (by decide)

theorem composeAcute_sep (a b : Str) :
    composeAcute (a ++ '/' :: b) = composeAcute a ++ '/' :: composeAcute b := by
  induction a using composeAcute.induct with
  | case1 =>
    cases b with
    | nil => rfl
    | cons x b => exact composeAcute_skip b fun h => absurd h.1 (by decide)
  | case2 x =>
    have hx := composeAcute_skip (x := x) (y := '/') b fun h => absurd h.2 (by decide)
    cases b with
    | nil => exact hx
    | cons y b =>
      rw [composeAcute_skip b fun h => absurd h.1 (by decide)] at hx
      exact hx
  | case3 x y s h ih =>
    rw [List.cons_append, List.cons_append, composeAcute, if_pos h, ih, composeAcute, if_pos h,
      List.cons_append]
  | case4 x y s h ih =>
    rw [List.cons_append, List.cons_append, composeAcute, if_neg h, ← List.cons_append, ih,
      composeAcute, if_neg h, List.cons_append]

theorem composeAcute_not_mem (s : Str) : '/' ∉ s → '/' ∉ composeAcute s := by
  induction s using composeAcute.induct with
  | case1 => exact id
  | case2 x => exact id
  | case3 x y s h ih =>
    intro hs
    rw [composeAcute, if_pos h, List.mem_cons, not_or]
    exact ⟨by decide, ih fun hm => hs (List.mem_cons_of_mem _ (List.mem_cons_of_mem _ hm))⟩
  | case4 x y s h ih =>
    intro hs
    rw [composeAcute, if_neg h, List.mem_cons, not_or]
    exact ⟨fun hx => hs (hx ▸ List.mem_cons_self), ih fun hm => hs (List.mem_cons_of_mem _ hm)⟩

theorem composeAcute_parts : Componentwise '/' composeAcute where
  nil := rfl
  ne_nil s hs := by
    obtain ⟨x, s, rfl⟩ := List.exists_cons_of_ne_nil hs
    obtain ⟨z, t, hz, -⟩ := composeAcute_head x s
    simp [hz]
  sep := composeAcute_sep
  not_mem := composeAcute_not_mem

theorem toLower_eq_slash {x : Char} (h : x.toLower = '/') : x = '/' := by
  unfold Char.toLower at h
  split at h
  · rename_i hx
    have hv : (x.toNat + 32) % 4294967296 = 47 := by
      simpa using congrArg (fun y : Char => y.val.toNat) h
    have hA : 65 ≤ x.toNat := hx.1
    have hZ : x.toNat ≤ 90 := hx.2
    omega
  · exact h

theorem foldChar_parts : Componentwise '/' (List.flatMap foldChar) where
  nil := rfl
  ne_nil s hs := by
    obtain ⟨x, s, rfl⟩ := List.exists_cons_of_ne_nil hs
    rw [List.flatMap_cons, foldChar]
    split <;> simp
  sep a b := by
    rw [List.flatMap_append, List.flatMap_cons]
    rfl
  not_mem s hs := by
    rw [List.mem_flatMap]
    rintro ⟨x, hx, h⟩
    rw [foldChar] at h
    split at h
    · exact absurd h (by decide)
    · rw [List.mem_singleton] at h
      exact hs (toLower_eq_slash h.symm ▸ hx)

/-- A fragment of the real tables, which agrees with them on the texts that runs on
concrete inputs use. -/
def latin : Unicode where
  nfc := composeAcute
  casefold := List.flatMap foldChar
  nfc_idem := composeAcute_idem
  nfc_parts := composeAcute_parts
  casefold_parts := foldChar_parts

end Unicode
