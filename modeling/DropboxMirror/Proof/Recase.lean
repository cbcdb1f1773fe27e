import DropboxMirror.Model.Inventory

/-!
# Display paths after the inventory phase

`recase_display_paths` spells each display path with the listed names of its ancestors.
Where the folder rows are closed under ancestors, the display path of a folder is the
list of those names and its own (`recased_folder`), so that the display path of a folder
above it is a prefix of it (`exists_folder_above`).
-/

namespace DropboxMirror

open Text

variable {L : Listing} {names : Dict Str Str} {parts displays : List Str} {pre : Str}

/-- A Dropbox path: components that are not empty and hold no `'/'`, each after a `'/'`. -/
def DropboxPath (path : Str) : Prop :=
  ∃ parts, parts ≠ [] ∧ (∀ s ∈ parts, Proper '/' s) ∧ path = slashes '/' parts

/-- The components of a path. -/
def components (path : Str) : List Str := (lstrip '/' path).splitOn '/'

theorem lstrip_slashes (hp : parts ≠ []) (hparts : ∀ s ∈ parts, Proper '/' s) :
    lstrip '/' (slashes '/' parts) = join '/' parts := by
  obtain ⟨s, p, rfl⟩ := List.exists_cons_of_ne_nil hp
  rw [slashes_eq (List.cons_ne_nil _ _)]
  exact lstrip_slash_join (hparts s List.mem_cons_self)

theorem components_slashes (hp : parts ≠ []) (hparts : ∀ s ∈ parts, Proper '/' s) :
    components (slashes '/' parts) = parts := by
  rw [components, lstrip_slashes hp hparts, split_join hp fun s hs => (hparts s hs).2]

/-- The entries of a listing are named as Dropbox names them. -/
structure WellNamed (L : Listing) : Prop where
  lower : ∀ d ∈ L, d.tag = .file ∨ d.tag = .folder → ∃ p, d.pathLower = some p ∧ DropboxPath p
  display : ∀ d ∈ L, d.tag = .file ∨ d.tag = .folder → DropboxPath (pyStr d.pathDisplay)
  name : ∀ d ∈ L, d.tag = .file ∨ d.tag = .folder → Proper '/' d.name

/-- **The folder rows are closed under ancestors.** -/
def FoldersClosed (L : Listing) : Prop :=
  ∀ d ∈ L, d.tag = .folder → ∀ parent rest, parent ≠ [] →
    d.pathLower = some (parent ++ '/' :: rest) → ∃ f ∈ L, f.tag = .folder ∧ f.pathLower = some parent

/-- `folder_names` has the name of each folder row. -/
theorem get?_folderNames
    (hlower : ∀ f ∈ L, f.tag = .folder → ∃ p, f.pathLower = some p ∧ DropboxPath p)
    {d : DropboxObject} (hd : d ∈ L) (htag : d.tag = .folder) {p : Str}
    (hp : d.pathLower = some p) : (folderNames L).get? p = some d.name := by
  refine Dict.get?_ofList_of_unique ?_ fun w hw => ?_
  · refine List.mem_map.2 ⟨d, List.mem_filter.2 ⟨hd, decide_eq_true htag⟩, ?_⟩
    rw [hp]
    rfl
  · obtain ⟨f, hf, hfw⟩ := List.mem_map.1 hw
    obtain ⟨hf, hftag⟩ := List.mem_filter.1 hf
    obtain ⟨q, hq, parts, hne, -, hslash⟩ := hlower f hf (of_decide_eq_true hftag)
    obtain rfl : q = p := by
      have := congrArg Prod.fst hfw
      rwa [hq] at this
    have hqne : q ≠ [] := by
      rw [hslash, slashes_eq hne]
      exact List.cons_ne_nil _ _
    have : f = d := Table.eq_of_key_eq hf hd (by
      rw [DropboxObject.objectKey_of_pathLower hq hqne, DropboxObject.objectKey_of_pathLower hp hqne])
    rw [← this]
    exact (congrArg Prod.snd hfw).symm

/-- A listed folder's name is a component. -/
theorem proper_folderName (hname : ∀ f ∈ L, f.tag = .folder → Proper '/' f.name) {k s : Str}
    (hk : (folderNames L).get? k = some s) : Proper '/' s := by
  obtain ⟨before, after, hsplit, -⟩ := Dict.get?_ofList_eq_some.1 hk
  have hmem : (k, s) ∈ (L.rows.filter fun d => d.tag = .folder).map
      fun d => (pyStr d.pathLower, d.name) := by
    rw [hsplit]
    simp
  obtain ⟨f, hf, hfs⟩ := List.mem_map.1 hmem
  obtain ⟨hf, hftag⟩ := List.mem_filter.1 hf
  rw [← show f.name = s from congrArg Prod.snd hfs]
  exact hname f hf (of_decide_eq_true hftag)

/-- The names along a path of lower-cased components. -/
def namesAt (names : Dict Str Str) : Str → List Str → List Str
  | _, [] => []
  | pre, s :: parts => (names.get? (pre ++ '/' :: s)).getD [] :: namesAt names (pre ++ '/' :: s) parts

theorem length_namesAt (names : Dict Str Str) (pre : Str) (parts : List Str) :
    (namesAt names pre parts).length = parts.length := by
  induction parts generalizing pre with
  | nil => rfl
  | cons s parts ih => rw [namesAt, List.length_cons, ih, List.length_cons]

theorem namesAt_append (rest : List Str) :
    namesAt names pre (parts ++ rest) =
      namesAt names pre parts ++ namesAt names (pre ++ slashes '/' parts) rest := by
  induction parts generalizing pre with
  | nil => rw [slashes_nil, List.append_nil]; rfl
  | cons s parts ih =>
    rw [List.cons_append, namesAt, ih, namesAt, List.cons_append, slashes_cons]
    simp only [List.append_assoc, List.cons_append]

/-- Where every ancestor is listed, the rebuilt parents are their names. -/
theorem rebuildParents_eq (hlen : parts.length ≤ displays.length)
    (hfound : ∀ a b, parts = a ++ b → a ≠ [] → (names.get? (pre ++ slashes '/' a)).isSome) :
    rebuildParents names pre (parts.zip displays) = namesAt names pre parts := by
  induction parts generalizing pre displays with
  | nil => rfl
  | cons s parts ih =>
    cases displays with
    | nil => exact absurd hlen (by simp)
    | cons d displays =>
      have hs := hfound [s] parts rfl (List.cons_ne_nil _ _)
      rw [slashes_cons, slashes_nil, List.append_nil] at hs
      obtain ⟨n, hn⟩ := Option.isSome_iff_exists.1 hs
      rw [List.zip_cons_cons, rebuildParents, namesAt, hn, Option.getD_some, Option.getD_some,
        ih (Nat.le_of_succ_le_succ hlen)]
      intro a b hab _
      have := hfound (s :: a) b (by rw [hab]; rfl) (List.cons_ne_nil _ _)
      rwa [slashes_cons, ← List.append_assoc] at this

/-- Each rebuilt parent is a listed name or the entry's own spelling. -/
theorem mem_rebuildParents {pairs : List (Str × Str)} {s : Str}
    (h : s ∈ rebuildParents names pre pairs) :
    (∃ k, names.get? k = some s) ∨ ∃ p ∈ pairs, s = p.2 := by
  induction pairs generalizing pre with
  | nil => exact absurd h List.not_mem_nil
  | cons p pairs ih =>
    obtain ⟨lower, display⟩ := p
    rw [rebuildParents] at h
    rcases List.mem_cons.1 h with rfl | h
    · cases hn : names.get? (pre ++ '/' :: lower) with
      | none => exact Or.inr ⟨_, List.mem_cons_self, rfl⟩
      | some n => exact Or.inl ⟨_, hn⟩
    · exact (ih h).imp_right fun ⟨p, hp, hs⟩ => ⟨p, List.mem_cons_of_mem _ hp, hs⟩

/-- The display components an entry is rebuilt from. -/
def displayParts (d : DropboxObject) : List Str :=
  if (components (pyStr d.pathDisplay)).length ≠ (components (pyStr d.pathLower)).length then
    components (pyStr d.pathLower)
  else components (pyStr d.pathDisplay)

theorem recasedDisplay_eq (d : DropboxObject) :
    recasedDisplay names d = slashes '/' (rebuildParents names []
      ((components (pyStr d.pathLower)).dropLast.zip (displayParts d).dropLast) ++ [d.name]) := by
  rw [slashes_eq (List.append_ne_nil_of_right_ne_nil _ (List.cons_ne_nil _ _))]
  rfl

theorem length_displayParts (d : DropboxObject) :
    (displayParts d).length = (components (pyStr d.pathLower)).length := by
  unfold displayParts
  split
  · rfl
  · rename_i h
    exact not_not.1 h

/-- The names of a recased display path. -/
def recasedParts (names : Dict Str Str) (d : DropboxObject) : List Str :=
  rebuildParents names []
    ((components (pyStr d.pathLower)).dropLast.zip (displayParts d).dropLast) ++ [d.name]

theorem proper_recasedParts (h : WellNamed L) {d : DropboxObject} (hd : d ∈ L)
    (htag : d.tag = .file ∨ d.tag = .folder) : ∀ s ∈ recasedParts (folderNames L) d, Proper '/' s := by
  intro s hs
  rcases List.mem_append.1 hs with hs | hs
  · rcases mem_rebuildParents hs with ⟨k, hk⟩ | ⟨p, hp, rfl⟩
    · exact proper_folderName (fun f hf ht => h.name f hf (Or.inr ht)) hk
    · -- the entry's own spelling
      have hp2 : p.2 ∈ displayParts d := List.mem_of_mem_dropLast (List.of_mem_zip hp).2
      unfold displayParts at hp2
      split at hp2
      · obtain ⟨q, hq, parts, hne, hparts, rfl⟩ := h.lower d hd htag
        rw [hq, show pyStr (some (slashes '/' parts)) = slashes '/' parts from rfl,
          components_slashes hne hparts] at hp2
        exact hparts _ hp2
      · obtain ⟨parts, hne, hparts, hdisp⟩ := h.display d hd htag
        rw [hdisp, components_slashes hne hparts] at hp2
        exact hparts _ hp2
  · rw [List.mem_singleton.1 hs]
    exact h.name d hd htag

/-- **A recased display path is a Dropbox path.** -/
theorem recased_dropboxPath (h : WellNamed L) {d : DropboxObject} (hd : d ∈ L)
    (htag : d.tag = .file ∨ d.tag = .folder) : DropboxPath (recasedDisplay (folderNames L) d) :=
  ⟨_, List.append_ne_nil_of_right_ne_nil _ (List.cons_ne_nil _ _), proper_recasedParts h hd htag,
    recasedDisplay_eq d⟩

/-- Every folder above a listed one has its name. -/
theorem isSome_folderNames (h : WellNamed L) (hclosed : FoldersClosed L) {d : DropboxObject} (hd : d ∈ L)
    (htag : d.tag = .folder) (hlower : d.pathLower = some (slashes '/' parts)) :
    ∀ a b, parts = a ++ b → a ≠ [] → ((folderNames L).get? (slashes '/' a)).isSome := by
  rintro a b rfl ha
  have hpaths : ∀ f ∈ L, f.tag = .folder → ∃ p, f.pathLower = some p ∧ DropboxPath p :=
    fun f hf ht => h.lower f hf (Or.inr ht)
  rcases eq_or_ne b [] with rfl | hb
  · rw [get?_folderNames hpaths hd htag (by rw [hlower, List.append_nil])]
    rfl
  · obtain ⟨f, hf, hftag, hfp⟩ := hclosed d hd htag (slashes '/' a) (join '/' b)
      (by rw [slashes_eq ha]; exact List.cons_ne_nil _ _)
      (by rw [hlower, slashes_append, slashes_eq hb])
    rw [get?_folderNames hpaths hf hftag hfp]
    rfl

/-- Where every ancestor has a name, the display path is made of them and the entry's own. -/
theorem recasedDisplay_of_found {d : DropboxObject} {init : List Str} {last : Str}
    (hcomp : components (pyStr d.pathLower) = init ++ [last])
    (hfound : ∀ a b, init = a ++ b → a ≠ [] → (names.get? (slashes '/' a)).isSome) :
    recasedDisplay names d = slashes '/' (namesAt names [] init ++ [d.name]) := by
  rw [recasedDisplay_eq, hcomp, List.dropLast_concat, rebuildParents_eq]
  · rw [List.length_dropLast, length_displayParts, hcomp]
    simp
  · exact hfound

/-- **The display path of a folder is made of the listed names.** -/
theorem recased_folder (h : WellNamed L) (hclosed : FoldersClosed L) {d : DropboxObject} (hd : d ∈ L)
    (htag : d.tag = .folder) (hp : parts ≠ []) (hparts : ∀ s ∈ parts, Proper '/' s)
    (hlower : d.pathLower = some (slashes '/' parts)) :
    recasedDisplay (folderNames L) d = slashes '/' (namesAt (folderNames L) [] parts) := by
  have hfound := isSome_folderNames h hclosed hd htag hlower
  have hname := get?_folderNames (fun f hf ht => h.lower f hf (Or.inr ht)) hd htag hlower
  obtain ⟨init, last, rfl⟩ : ∃ init last, parts = init ++ [last] :=
    ⟨parts.dropLast, parts.getLast hp, (List.dropLast_append_getLast hp).symm⟩
  have hcomp : components (pyStr d.pathLower) = init ++ [last] := by
    rw [hlower]
    exact components_slashes hp hparts
  rw [slashes_append, slashes_cons, slashes_nil, List.append_nil] at hname
  rw [recasedDisplay_of_found hcomp, namesAt_append, namesAt, List.nil_append, hname]
  · rfl
  · intro a b hab ha
    exact hfound a (b ++ [last]) (by rw [hab, List.append_assoc]) ha

theorem proper_namesAt (hnames : ∀ k s, names.get? k = some s → Proper '/' s)
    (hfound : ∀ a b, parts = a ++ b → a ≠ [] → (names.get? (pre ++ slashes '/' a)).isSome) :
    ∀ s ∈ namesAt names pre parts, Proper '/' s := by
  induction parts generalizing pre with
  | nil => exact fun s hs => absurd hs List.not_mem_nil
  | cons x parts ih =>
    intro s hs
    rcases List.mem_cons.1 hs with rfl | hs
    · have hx := hfound [x] parts rfl (List.cons_ne_nil _ _)
      rw [slashes_cons, slashes_nil, List.append_nil] at hx
      obtain ⟨n, hn⟩ := Option.isSome_iff_exists.1 hx
      rw [hn]
      exact hnames _ n hn
    · refine ih (fun a b hab _ => ?_) s hs
      have := hfound (x :: a) b (by rw [hab]; rfl) (List.cons_ne_nil _ _)
      rwa [slashes_cons, ← List.append_assoc] at this

/-- **Above a listed folder there are listed folders**, and their display paths are
prefixes of its own. -/
theorem exists_folder_above (h : WellNamed L) (hclosed : FoldersClosed L) {d : DropboxObject}
    (hd : d ∈ L) (htag : d.tag = .folder) {front back : List Str} (hfront : front ≠ [])
    (hproper : ∀ s ∈ front ++ back, Proper '/' s)
    (hdisp : recasedDisplay (folderNames L) d = slashes '/' (front ++ back)) :
    ∃ f ∈ L, f.tag = .folder ∧ recasedDisplay (folderNames L) f = slashes '/' front := by
  rcases eq_or_ne back [] with rfl | hback
  · exact ⟨d, hd, htag, by rw [hdisp, List.append_nil]⟩
  obtain ⟨p, hp, parts, hne, hparts, rfl⟩ := h.lower d hd (Or.inr htag)
  rw [recased_folder h hclosed hd htag hne hparts hp] at hdisp
  have hnames : namesAt (folderNames L) [] parts = front ++ back := by
    have hfound := isSome_folderNames h hclosed hd htag hp
    have hpr : ∀ s ∈ namesAt (folderNames L) [] parts, Proper '/' s :=
      proper_namesAt (fun k s => proper_folderName fun f hf ht => h.name f hf (Or.inr ht)) hfound
    have hne' : namesAt (folderNames L) [] parts ≠ [] := fun hnil => by
      have := congrArg List.length hnil
      rw [length_namesAt] at this
      exact hne (List.eq_nil_of_length_eq_zero this)
    have := congrArg components hdisp
    rwa [components_slashes hne' hpr, components_slashes (by simp [hfront]) hproper] at this
  -- the components split where the display path does
  have hlen : parts.length = front.length + back.length := by
    rw [← length_namesAt (folderNames L) [], hnames, List.length_append]
  obtain ⟨a, b, rfl, ha⟩ : ∃ a b, parts = a ++ b ∧ a.length = front.length :=
    ⟨parts.take front.length, parts.drop front.length, (List.take_append_drop _ _).symm, by
      rw [List.length_take]; omega⟩
  have hb : b ≠ [] := by
    rintro rfl
    rw [List.length_append, List.length_nil] at hlen
    exact hback (List.eq_nil_of_length_eq_zero (by omega))
  have ha' : a ≠ [] := by
    rintro rfl
    exact hfront (List.eq_nil_of_length_eq_zero ha.symm)
  rw [namesAt_append] at hnames
  obtain ⟨hfirst, -⟩ := List.append_inj hnames (by rw [length_namesAt, ha])
  obtain ⟨f, hf, hftag, hfp⟩ := hclosed d hd htag (slashes '/' a) (join '/' b)
    (by rw [slashes_eq ha']; exact List.cons_ne_nil _ _) (by rw [hp, slashes_append, slashes_eq hb])
  refine ⟨f, hf, hftag, ?_⟩
  rw [recased_folder h hclosed hf hftag ha' (fun s hs => hparts s (List.mem_append_left _ hs)) hfp,
    hfirst]

end DropboxMirror
