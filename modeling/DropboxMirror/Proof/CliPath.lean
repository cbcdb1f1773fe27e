import DropboxMirror.Model.Paths

/-!
# The CLI path of a node

A path of escaped components determines its components (`slashes_escape_inj`), and
`split_parent_path` undoes one step of it (`splitParentPath_slashes`). What
`child_cli_path` builds is such a path, but a parent that ends in an escaped `'/'` loses
it to `rstrip`, so that its name runs into the child's (`childCliPath_joinName`).

* `walkCliPath_eq`: the path of a list of names, with those names run together.
* `cli_paths_faithful_iff`: when a path is split right and belongs to one list only.
-/

namespace DropboxMirror

open Text

variable {parts names others : List Str} {name s t : Str}

/-- The path of a node as the walk computes it, folder by folder. -/
def walkCliPath (destination : Str) (names : List Str) : Str :=
  names.foldl (fun parent name => childCliPath parent name [] false) destination

/-- The path of escaped components. -/
def escapedPath (parts : List Str) : Str := slashes '/' (parts.map escapeComponent)

/-- Whether a name ends in `'/'`. -/
def EndsInSlash (name : Str) : Prop := name.getLast? = some '/'

instance (name : Str) : Decidable (EndsInSlash name) := inferInstanceAs (Decidable (_ = _))

/-- A name below a path: after a component that ends in `'/'` it is lost in it. -/
def joinName (parts : List Str) (name : Str) : List Str :=
  if EndsInSlash (parts.getLastD []) then parts.dropLast ++ [parts.getLastD [] ++ name]
  else parts ++ [name]

/-- Names below a path, those that end in `'/'` run into the next ones. -/
def joinNames (parts names : List Str) : List Str := names.foldl joinName parts

section Backslashes

@[simp] theorem escapeComponent_nil : escapeComponent [] = [] := rfl

theorem escapeComponent_append (s t : Str) :
    escapeComponent (s ++ t) = escapeComponent s ++ escapeComponent t := List.flatMap_append

theorem trailingBackslashes_append (s : Str) (c : Char) :
    trailingBackslashes (s ++ [c]) = if c = '\\' then trailingBackslashes s + 1 else 0 := by
  unfold trailingBackslashes
  rw [List.reverse_append, List.reverse_singleton, List.singleton_append, List.takeWhile_cons]
  split
  · rename_i h
    rw [if_pos (eq_of_beq h), List.length_cons]
  · rename_i h
    rw [if_neg fun heq => h (by rw [heq]; rfl)]
    rfl

/-- The count stops at a separator. -/
theorem trailingBackslashes_slash (s t : Str) :
    trailingBackslashes (s ++ '/' :: t) = trailingBackslashes t := by
  induction t using List.reverseRecOn with
  | nil => rw [trailingBackslashes_append, if_neg (by decide)]; rfl
  | append_singleton t c ih =>
    rw [← List.cons_append, ← List.append_assoc, trailingBackslashes_append, ih,
      trailingBackslashes_append]

/-- What one character becomes. -/
theorem escapeComponent_singleton (c : Char) :
    (c = '\\' ∨ c = '/') ∧ escapeComponent [c] = ['\\'] ++ [c] ∨
      (c ≠ '\\' ∧ c ≠ '/') ∧ escapeComponent [c] = [c] := by
  by_cases h : c = '\\' ∨ c = '/'
  · exact Or.inl ⟨h, by simp [escapeComponent, h]⟩
  · exact Or.inr ⟨not_or.1 h, by simp [escapeComponent, h]⟩

/-- An escaped name ends in an even number of backslashes. -/
theorem trailingBackslashes_escape (name : Str) :
    trailingBackslashes (escapeComponent name) % 2 = 0 := by
  induction name using List.reverseRecOn with
  | nil => rfl
  | append_singleton s c ih =>
    rw [escapeComponent_append]
    rcases escapeComponent_singleton c with ⟨hc, hesc⟩ | ⟨hc, hesc⟩
    · rw [hesc, ← List.append_assoc, trailingBackslashes_append, trailingBackslashes_append,
        if_pos rfl]
      split <;> omega
    · rw [hesc, trailingBackslashes_append, if_neg hc.1]

/-- **Every `'/'` of an escaped name comes after an odd number of backslashes.** -/
theorem trailingBackslashes_inside (h : escapeComponent name = s ++ '/' :: t) :
    trailingBackslashes s % 2 = 1 := by
  induction name using List.reverseRecOn generalizing t with
  | nil => exact absurd h.symm (List.append_ne_nil_of_right_ne_nil _ (List.cons_ne_nil _ _))
  | append_singleton m c ih =>
    rw [escapeComponent_append] at h
    have heven := trailingBackslashes_escape m
    rcases List.append_eq_append_iff.1 h with ⟨u, rfl, hc⟩ | ⟨u, hm, ht⟩
    · -- the `'/'` is in what `c` became
      rcases escapeComponent_singleton c with ⟨-, hesc⟩ | ⟨hne, hesc⟩
      · rw [hesc] at hc
        rcases u with _ | ⟨x, _ | ⟨y, u⟩⟩
        · exact absurd (List.cons.inj hc).1 (by decide)
        · obtain rfl := (List.cons.inj hc).1
          rw [trailingBackslashes_append, if_pos rfl]
          omega
        · exact absurd (congrArg List.length hc) (by simp)
      · rw [hesc] at hc
        rcases u with _ | ⟨x, u⟩
        · exact absurd (List.cons.inj hc).1 hne.2
        · exact absurd (congrArg List.length hc) (by simp)
    · rcases u with _ | ⟨x, u⟩
      · -- what `c` became does not begin with `'/'`
        rcases escapeComponent_singleton c with ⟨-, hesc⟩ | ⟨hne, hesc⟩
        · rw [hesc] at ht
          exact absurd (List.cons.inj ht).1 (by decide)
        · rw [hesc] at ht
          exact absurd (List.cons.inj ht).1.symm hne.2
      · obtain rfl := (List.cons.inj ht).1
        exact ih hm

end Backslashes

section Split

/-- No index of the last component splits the path. -/
theorem splitParentLoop_skip (h : ∀ x y, t = x ++ '/' :: y → trailingBackslashes x % 2 = 1) {k : ℕ}
    (hk : k ≤ t.length) :
    splitParentLoop (s ++ '/' :: t) (s.length + k) = splitParentLoop (s ++ '/' :: t) s.length := by
  induction k with
  | zero => rfl
  | succ k ih =>
    have hget : (s ++ '/' :: t)[s.length + k + 1]? = t[k]? := by
      rw [List.getElem?_append_right (by omega)]
      have : s.length + k + 1 - s.length = k + 1 := by omega
      rw [this, List.getElem?_cons_succ]
    rw [← Nat.add_assoc, splitParentLoop, hget]
    split
    · exact ih (by omega)
    · rename_i hslash
      have hlt : k < t.length := hk
      have hsplit : t = t.take k ++ '/' :: t.drop (k + 1) := by
        have hx : t[k] = '/' := by
          rw [not_not, List.getElem?_eq_getElem hlt] at hslash
          exact Option.some.inj hslash
        rw [← hx, List.getElem_cons_drop, List.take_append_drop]
      have htake : (s ++ '/' :: t).take (s.length + k + 1) = s ++ '/' :: t.take k := by
        rw [List.take_append, List.take_of_length_le (by omega)]
        have : s.length + k + 1 - s.length = k + 1 := by omega
        rw [this, List.take_succ_cons]
      have hodd := h _ _ hsplit
      dsimp only
      rw [htake, trailingBackslashes_slash, if_neg (by omega)]
      exact ih (by omega)

/-- **A path is split before its last escaped component.** -/
theorem splitParentPath_slash (hs : trailingBackslashes s % 2 = 0) (hname : name ≠ []) :
    splitParentPath (s ++ '/' :: escapeComponent name) =
      if s = [] then .error .noParent else .ok (s, escapeComponent name) := by
  have hlen : (s ++ '/' :: escapeComponent name).length - 1 =
      s.length + (escapeComponent name).length := by
    rw [List.length_append, List.length_cons]
    omega
  have hesc : escapeComponent name ≠ [] := by
    obtain ⟨c, m, rfl⟩ := List.exists_cons_of_ne_nil hname
    rw [escapeComponent, List.flatMap_cons]
    split <;> simp
  rw [splitParentPath, hlen, splitParentLoop_skip (fun x y => trailingBackslashes_inside) le_rfl]
  -- the loop skips the escaped name and stands at the separator
  cases hcase : s.length with
  | zero =>
    rw [if_pos (List.eq_nil_of_length_eq_zero hcase)]
    rfl
  | succ index =>
    have hne : s ≠ [] := by
      rintro rfl
      cases hcase
    have hget : (s ++ '/' :: escapeComponent name)[index + 1]? = some '/' := by
      rw [← hcase, List.getElem?_append_right le_rfl, Nat.sub_self, List.getElem?_cons_zero]
    have htake : (s ++ '/' :: escapeComponent name).take (index + 1) = s := by
      rw [← hcase, List.take_left]
    have hdrop : (s ++ '/' :: escapeComponent name).drop (index + 2) = escapeComponent name := by
      rw [List.drop_append, List.drop_of_length_le (by omega)]
      have : index + 2 - s.length = 1 := by omega
      rw [this, List.nil_append, List.drop_one, List.tail_cons]
    rw [splitParentLoop, if_neg (not_not.2 hget)]
    dsimp only
    rw [htake, hdrop, if_pos hs, if_pos ⟨hne, hesc⟩, if_neg hne]

end Split

section Path

theorem escapedPath_append (parts : List Str) (name : Str) :
    escapedPath (parts ++ [name]) = escapedPath parts ++ '/' :: escapeComponent name := by
  rw [escapedPath, List.map_append, slashes_append, List.map_singleton, slashes_cons, slashes_nil,
    List.append_nil]
  rfl

/-- A path of escaped components ends in an even number of backslashes. -/
theorem trailingBackslashes_escapedPath (parts : List Str) :
    trailingBackslashes (escapedPath parts) % 2 = 0 := by
  induction parts using List.reverseRecOn with
  | nil => rfl
  | append_singleton parts name _ =>
    rw [escapedPath_append, trailingBackslashes_slash]
    exact trailingBackslashes_escape name

theorem escapedPath_eq_nil : escapedPath parts = [] ↔ parts = [] := by
  cases parts with
  | nil => simp [escapedPath]
  | cons name parts => simp [escapedPath]

/-- **`split_parent_path` undoes one step.** -/
theorem splitParentPath_escapedPath (parts : List Str) (hname : name ≠ []) :
    splitParentPath (escapedPath (parts ++ [name])) =
      if parts = [] then .error .noParent
      else .ok (escapedPath parts, escapeComponent name) := by
  rw [escapedPath_append, splitParentPath_slash (trailingBackslashes_escapedPath parts) hname]
  simp only [escapedPath_eq_nil]

/-- What stands after an escaped component: nothing, or the next one. -/
theorem escapeComponent_inj {n m u v : Str} (hu : ∀ x ∈ u.head?, x = '/') (hv : ∀ x ∈ v.head?, x = '/')
    (h : escapeComponent n ++ u = escapeComponent m ++ v) : n = m ∧ u = v := by
  have hcons : ∀ (c : Char) (r : Str), escapeComponent (c :: r) =
      escapeComponent [c] ++ escapeComponent r := fun c r => escapeComponent_append [c] r
  -- neither `'/'` nor nothing begins what a character becomes
  have hstop : ∀ (w : Str) (c : Char) (r : Str), (∀ x ∈ w.head?, x = '/') →
      w ≠ escapeComponent [c] ++ r := by
    intro w c r hw heq
    rcases escapeComponent_singleton c with ⟨-, hesc⟩ | ⟨hne, hesc⟩
    · rw [hesc] at heq
      exact absurd (hw '\\' (by rw [heq]; rfl)) (by decide)
    · rw [hesc] at heq
      exact hne.2 (hw c (by rw [heq]; rfl))
  induction n generalizing m with
  | nil =>
    cases m with
    | nil => exact ⟨rfl, h⟩
    | cons d m =>
      rw [hcons, List.append_assoc] at h
      exact absurd h (hstop u d _ hu)
  | cons c n ih =>
    cases m with
    | nil =>
      rw [hcons, List.append_assoc] at h
      exact absurd h.symm (hstop v c _ hv)
    | cons d m =>
      rw [hcons, hcons d, List.append_assoc, List.append_assoc] at h
      have hcd : c = d ∧ escapeComponent n ++ u = escapeComponent m ++ v := by
        rcases escapeComponent_singleton c with ⟨hc, hesc⟩ | ⟨hc, hesc⟩ <;>
          rcases escapeComponent_singleton d with ⟨hd, hesc'⟩ | ⟨hd, hesc'⟩ <;>
          rw [hesc, hesc'] at h
        · obtain ⟨-, h⟩ := List.cons.inj h
          exact List.cons.inj h
        · exact absurd (List.cons.inj h).1.symm hd.1
        · exact absurd (List.cons.inj h).1 hc.1
        · exact List.cons.inj h
      obtain ⟨rfl, hrest⟩ := ih hcd.2
      exact ⟨by rw [hcd.1], hrest⟩

/-- **A path of escaped components determines them.** -/
theorem escapedPath_inj : ∀ {parts others : List Str}, escapedPath parts = escapedPath others →
    parts = others := by
  have hhead : ∀ (ps : List Str), ∀ x ∈ (escapedPath ps).head?, x = '/' := by
    intro ps x hx
    cases ps with
    | nil => cases hx
    | cons p ps => exact (Option.some.inj hx).symm
  intro parts
  induction parts with
  | nil => exact fun h => (escapedPath_eq_nil.1 h.symm).symm
  | cons name parts ih =>
    intro others h
    cases others with
    | nil => exact absurd h (by simp [escapedPath])
    | cons other others =>
      obtain ⟨rfl, hrest⟩ := escapeComponent_inj (hhead parts) (hhead others) (List.cons.inj h).2
      rw [ih hrest]

end Path

section Walk

theorem endsInSlash_append (s : Str) (c : Char) : EndsInSlash (s ++ [c]) ↔ c = '/' := by
  rw [EndsInSlash, List.getLast?_concat, Option.some_inj]

theorem endsInSlash_append_of_ne_nil (s : Str) (ht : t ≠ []) : EndsInSlash (s ++ t) ↔ EndsInSlash t := by
  obtain ⟨m, c, rfl⟩ : ∃ m c, t = m ++ [c] :=
    ⟨t.dropLast, t.getLast ht, (List.dropLast_append_getLast ht).symm⟩
  rw [← List.append_assoc, endsInSlash_append, endsInSlash_append]

theorem joinName_append (init : List Str) (last name : Str) : joinName (init ++ [last]) name =
    if EndsInSlash last then init ++ [last ++ name] else init ++ [last] ++ [name] := by
  rw [joinName, List.getLastD_concat, List.dropLast_concat]

/-- **A child's path is a path of escaped components**: `rstrip` takes the escaped `'/'`
at the end of the parent, and the `'/'` put in its place stays escaped. -/
theorem childCliPath_joinName (hparts : parts ≠ []) (hne : ∀ p ∈ parts, p ≠ []) (uid : Str) :
    childCliPath (escapedPath parts) name uid false = escapedPath (joinName parts name) := by
  obtain ⟨init, last, rfl⟩ : ∃ init last, parts = init ++ [last] :=
    ⟨parts.dropLast, parts.getLast hparts, (List.dropLast_append_getLast hparts).symm⟩
  have hlast : last ≠ [] := hne last (List.mem_append_right _ (List.mem_singleton.2 rfl))
  obtain ⟨m, c, rfl⟩ : ∃ m c, last = m ++ [c] :=
    ⟨last.dropLast, last.getLast hlast, (List.dropLast_append_getLast hlast).symm⟩
  have hpath : escapedPath (init ++ [m ++ [c]]) =
      escapedPath init ++ '/' :: escapeComponent m ++ escapeComponent [c] := by
    rw [escapedPath_append, escapeComponent_append, List.append_assoc]
    rfl
  rw [childCliPath, if_neg Bool.false_ne_true, joinName_append, hpath]
  rcases eq_or_ne c '/' with rfl | hc
  · rw [if_pos ((endsInSlash_append m '/').2 rfl), escapedPath_append, escapeComponent_append,
      escapeComponent_append]
    have hesc : escapeComponent ['/'] = ['\\'] ++ ['/'] := rfl
    rw [hesc, ← List.append_assoc, rstrip, List.rdropWhile_concat_pos _ _ _ (by decide),
      List.rdropWhile_concat_neg _ _ _ (by decide)]
    simp only [List.append_assoc, List.cons_append, List.nil_append]
  · have hstrip : rstrip '/' (escapedPath init ++ '/' :: escapeComponent m ++ escapeComponent [c]) =
        escapedPath init ++ '/' :: escapeComponent m ++ escapeComponent [c] := by
      rcases escapeComponent_singleton c with ⟨-, hesc⟩ | ⟨-, hesc⟩
      · rw [hesc, ← List.append_assoc, rstrip, List.rdropWhile_concat_neg _ _ _ (by simpa using hc)]
      · rw [hesc, rstrip, List.rdropWhile_concat_neg _ _ _ (by simpa using hc)]
    rw [if_neg fun h => hc ((endsInSlash_append m c).1 h), hstrip, ← hpath, ← escapedPath_append]

theorem joinName_ne_nil (parts : List Str) (name : Str) : joinName parts name ≠ [] := by
  unfold joinName
  split <;> exact List.append_ne_nil_of_right_ne_nil _ (List.cons_ne_nil _ _)

theorem joinName_proper (hne : ∀ p ∈ parts, p ≠ []) (hname : name ≠ []) :
    ∀ p ∈ joinName parts name, p ≠ [] := by
  intro p hp
  unfold joinName at hp
  split at hp
  · rcases List.mem_append.1 hp with hp | hp
    · exact hne p (List.mem_of_mem_dropLast hp)
    · rw [List.mem_singleton.1 hp]
      exact List.append_ne_nil_of_right_ne_nil _ hname
  · rcases List.mem_append.1 hp with hp | hp
    · exact hne p hp
    · rw [List.mem_singleton.1 hp]
      exact hname

/-- Components of a path: at least one, and none of them empty. -/
structure PathParts (parts : List Str) : Prop where
  ne_nil : parts ≠ []
  proper : ∀ p ∈ parts, p ≠ []

theorem PathParts.joinName (h : PathParts parts) (hname : name ≠ []) :
    PathParts (joinName parts name) := ⟨joinName_ne_nil _ _, joinName_proper h.proper hname⟩

/-- **The path of a list of names**, and what it keeps of them. -/
theorem walkCliPath_eq (h : PathParts parts) (hnames : ∀ n ∈ names, n ≠ []) :
    walkCliPath (escapedPath parts) names = escapedPath (joinNames parts names) ∧
      PathParts (joinNames parts names) := by
  induction names generalizing parts with
  | nil => exact ⟨rfl, h⟩
  | cons name names ih =>
    have hname := hnames name List.mem_cons_self
    rw [walkCliPath, List.foldl_cons, childCliPath_joinName h.ne_nil h.proper]
    exact ih (h.joinName hname) fun n hn => hnames n (List.mem_cons_of_mem _ hn)

theorem joinNames_append (parts names : List Str) (name : Str) :
    joinNames parts (names ++ [name]) = joinName (joinNames parts names) name := by
  rw [joinNames, List.foldl_append]
  rfl

/-- The last component ends as the last name does. -/
theorem endsInSlash_joinNames (hnames : ∀ n ∈ names, n ≠ []) :
    EndsInSlash ((joinNames parts names).getLastD []) ↔ EndsInSlash ((parts ++ names).getLastD []) := by
  rcases List.eq_nil_or_concat names with rfl | ⟨init, name, rfl⟩
  · rw [List.append_nil]
    rfl
  · rw [List.concat_eq_append] at hnames ⊢
    rw [joinNames_append, ← List.append_assoc, List.getLastD_concat, joinName]
    have hname : name ≠ [] := hnames name (List.mem_append_right _ (List.mem_singleton.2 rfl))
    split
    · rw [List.getLastD_concat, endsInSlash_append_of_ne_nil _ hname]
    · rw [List.getLastD_concat]

end Walk

/-- **The encoding is faithful** at a node: its path splits into its parent's path and
its escaped name, and no other list of names has it. -/
structure Faithful (parts names : List Str) (name : Str) (others : List Str) : Prop where
  split : splitParentPath (walkCliPath (escapedPath parts) (names ++ [name])) =
    .ok (walkCliPath (escapedPath parts) names, escapeComponent name)
  unique : others ≠ names ++ [name] →
    walkCliPath (escapedPath parts) others ≠ walkCliPath (escapedPath parts) (names ++ [name])

/-- **The CLI path encoding is faithful exactly where the parent's name does not end in
`'/'`** and the names differ once those that end in `'/'` are run into the next ones. -/
theorem cli_paths_faithful_iff (h : PathParts parts) (hnames : ∀ n ∈ names, n ≠ []) (hname : name ≠ [])
    (hothers : ∀ n ∈ others, n ≠ []) :
    Faithful parts names name others ↔ ¬ EndsInSlash ((parts ++ names).getLastD []) ∧
      (others ≠ names ++ [name] → joinNames parts others ≠ joinNames parts (names ++ [name])) := by
  have hall : ∀ n ∈ names ++ [name], n ≠ [] := by
    intro n hn
    rcases List.mem_append.1 hn with hn | hn
    · exact hnames n hn
    · rw [List.mem_singleton.1 hn]
      exact hname
  obtain ⟨hwalk, hparts⟩ := walkCliPath_eq h hnames
  obtain ⟨hwalk', hparts'⟩ := walkCliPath_eq h hall
  obtain ⟨hwalk'', -⟩ := walkCliPath_eq h hothers
  -- two walks reach one path where their joined names are the same
  have hunique : walkCliPath (escapedPath parts) others =
      walkCliPath (escapedPath parts) (names ++ [name]) ↔
      joinNames parts others = joinNames parts (names ++ [name]) := by
    rw [hwalk'', hwalk']
    exact ⟨escapedPath_inj, congrArg escapedPath⟩
  have hsplit : splitParentPath (walkCliPath (escapedPath parts) (names ++ [name])) =
      .ok (walkCliPath (escapedPath parts) names, escapeComponent name) ↔
      ¬ EndsInSlash ((parts ++ names).getLastD []) := by
    rw [← endsInSlash_joinNames hnames, hwalk', hwalk, joinNames_append, joinName]
    split
    · -- the parent's name is part of the component that is split off
      rename_i hends
      refine ⟨fun hok => ?_, fun hn => absurd hends hn⟩
      have hlast : (joinNames parts names).getLastD [] ≠ [] := by
        rintro hnil
        rw [hnil] at hends
        cases hends
      rw [splitParentPath_escapedPath _ (List.append_ne_nil_of_right_ne_nil _ hname)] at hok
      split at hok
      · cases hok
      · have heq := (Prod.mk.inj (Except.ok.inj hok)).2
        have hinj := (escapeComponent_inj (u := []) (v := []) nofun nofun
          (congrArg (· ++ []) heq)).1
        exact absurd (List.append_left_eq_self.1 hinj) hlast
    -- the separator before the name is the last that is not escaped
    · rename_i hends
      rw [splitParentPath_escapedPath _ hname, if_neg hparts.ne_nil]
      exact ⟨fun _ => hends, fun _ => rfl⟩
  constructor
  · intro hf
    exact ⟨hsplit.1 hf.split, fun hne heq => hf.unique hne (hunique.2 heq)⟩
  · rintro ⟨hends, hne⟩
    exact ⟨hsplit.2 hends, fun hd heq => hne hd (hunique.1 heq)⟩

section Examples

/-- The components of `/my-files/Dropbox`. -/
def dropboxParts : List Str := ["my-files".toList, "Dropbox".toList]

/-- A `'/'` inside a folder's name, a backslash at its end, and a `'/'` at the end of the
node's own name are all encoded faithfully. -/
theorem cli_paths_faithful_inside :
    Faithful dropboxParts ["a/b\\".toList] "c/".toList ["a".toList, "b\\/c/".toList] :=
  (cli_paths_faithful_iff ⟨by decide, by decide⟩ (by decide) (by decide) (by decide)).2
    ⟨by decide, by decide⟩

/-- **Below a folder whose name ends in `'/'`** a path splits before the folder's name, and
it is the path of a node in the folder above. -/
theorem cli_paths_collide :
    walkCliPath (escapedPath dropboxParts) ["a/".toList, "b".toList] = "/my-files/Dropbox/a\\/b".toList ∧
      walkCliPath (escapedPath dropboxParts) ["a/b".toList] = "/my-files/Dropbox/a\\/b".toList ∧
      splitParentPath "/my-files/Dropbox/a\\/b".toList =
        .ok ("/my-files/Dropbox".toList, "a\\/b".toList) ∧
      ¬ Faithful dropboxParts ["a/".toList] "b".toList ["a/b".toList] :=
  ⟨by decide, by decide, by decide, fun h => h.unique (by decide) (by decide)⟩

end Examples

end DropboxMirror
