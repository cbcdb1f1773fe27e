import DropboxMirror.Proof.Staged

/-!
# One spelling for each folder

`recase_display_paths` builds each display path from folder names keyed by lower-cased
prefixes, `display_paths` builds it again from folder display paths, with a memo. A
second pass of the first changes nothing (`recaseDisplayPaths_idem`), and where every
ancestor is listed the two agree (`displayPaths_recased`).

* `recasedDisplay_again`: the rebuilt parts are the parts of the rebuilt path.
* `recased_under`: an entry is spelled by its parent folder and its own name.
* `pathDisplay_way`: the names the recursion of `display_paths` meets.
-/

namespace DropboxMirror

open Text

variable {U : Unicode} {L R : Listing} {names : Dict Str Str} {d : DropboxObject}

section Stable

theorem length_rebuildParents (names : Dict Str Str) (pre : Str) (pairs : List (Str × Str)) :
    (rebuildParents names pre pairs).length = pairs.length := by
  induction pairs generalizing pre with
  | nil => rfl
  | cons p pairs ih =>
    obtain ⟨lower, display⟩ := p
    rw [rebuildParents, List.length_cons, ih, List.length_cons]

/-- The rebuilt parents are rebuilt to themselves. -/
theorem rebuildParents_again {pre : Str} {lowers displays : List Str}
    (hlen : lowers.length = displays.length) :
    rebuildParents names pre (lowers.zip (rebuildParents names pre (lowers.zip displays))) =
      rebuildParents names pre (lowers.zip displays) := by
  induction lowers generalizing pre displays with
  | nil => rfl
  | cons lower lowers ih =>
    cases displays with
    | nil => simp at hlen
    | cons display displays =>
      rw [List.zip_cons_cons, rebuildParents, List.zip_cons_cons, rebuildParents,
        ih (Nat.succ.inj hlen)]
      cases names.get? (pre ++ '/' :: lower) <;> rfl

theorem components_ne_nil (path : Str) : components path ≠ [] := List.splitOn_ne_nil _ _

/-- Only a path without a name has an empty first component. -/
theorem head_components {path s : Str} {rest : List Str} (h : components path = s :: rest)
    (hrest : rest ≠ []) : Proper '/' s := by
  have hmem : '/' ∉ s := mem_split (by rw [← components, h]; exact List.mem_cons_self)
  refine ⟨?_, hmem⟩
  rintro rfl
  have hjoin : lstrip '/' path = '/' :: join '/' rest := by
    rw [← join_split (c := '/') (s := lstrip '/' path), ← components, h, join_cons rest hrest]
    rfl
  -- a stripped path does not begin with the separator
  have hidem : lstrip '/' (lstrip '/' path) = lstrip '/' path := lstrip_idem
  rw [hjoin, lstrip_cons_self] at hidem
  have hlen := congrArg List.length hidem
  have hle : (lstrip '/' (join '/' rest)).length ≤ (join '/' rest).length :=
    (List.dropWhile_suffix _).length_le
  rw [List.length_cons] at hlen
  omega

/-- The components of a path of names, the first of them not empty. -/
theorem components_of_head {s : Str} {rest : List Str} (hs : Proper '/' s)
    (hrest : ∀ t ∈ rest, '/' ∉ t) : components (slashes '/' (s :: rest)) = s :: rest := by
  rw [components, slashes_eq (List.cons_ne_nil _ _), lstrip_slash_join hs,
    split_join (List.cons_ne_nil _ _)]
  intro t ht
  rcases List.mem_cons.1 ht with rfl | ht
  · exact hs.2
  · exact hrest t ht

/-- No component of a display path that an entry is rebuilt from holds a separator. -/
theorem not_mem_displayParts {s : Str} (hs : s ∈ displayParts d) : '/' ∉ s := by
  unfold displayParts at hs
  split at hs
  · exact mem_split hs
  · exact mem_split hs

/-- **The components of a rebuilt path are the parts it was rebuilt from.** -/
theorem components_recasedDisplay (hnames : ∀ k s, names.get? k = some s → Proper '/' s)
    (hname : Proper '/' d.name) : components (recasedDisplay names d) = recasedParts names d := by
  rw [recasedDisplay_eq]
  change components (slashes '/' (recasedParts names d)) = _
  have hsep : ∀ s ∈ recasedParts names d, '/' ∉ s := by
    intro s hs
    rcases List.mem_append.1 hs with hs | hs
    · rcases mem_rebuildParents hs with ⟨k, hk⟩ | ⟨p, hp, rfl⟩
      · exact (hnames k s hk).2
      · exact not_mem_displayParts (List.mem_of_mem_dropLast (List.of_mem_zip hp).2)
    · rw [List.mem_singleton.1 hs]
      exact hname.2
  cases hlower : (components (pyStr d.pathLower)).dropLast with
  | nil =>
    -- an entry right below the root
    have hparts : recasedParts names d = [d.name] := by
      rw [recasedParts, hlower]
      rfl
    rw [hparts]
    exact components_of_head hname (by simp)
  | cons lower lowers =>
    obtain ⟨display, displays, hdisplay⟩ : ∃ display displays,
        (displayParts d).dropLast = display :: displays := by
      refine List.exists_cons_of_length_pos ?_
      have hlen := length_displayParts d
      have hlower' := congrArg List.length hlower
      rw [List.length_dropLast] at hlower' ⊢
      rw [List.length_cons] at hlower'
      omega
    have hparts : recasedParts names d = (names.get? ('/' :: lower)).getD display ::
        (rebuildParents names ('/' :: lower) (lowers.zip displays) ++ [d.name]) := by
      rw [recasedParts, hlower, hdisplay]
      rfl
    have hfirst : Proper '/' display := by
      have hhead : ∃ rest, displayParts d = display :: rest ∧ rest ≠ [] := by
        refine ⟨displays ++ [(displayParts d).getLastD []], ?_, by simp⟩
        have hne : displayParts d ≠ [] := by
          intro hnil
          rw [hnil] at hdisplay
          cases hdisplay
        rw [← List.cons_append, ← hdisplay, List.getLastD_eq_getLast?,
          List.getLast?_eq_some_getLast hne]
        exact (List.dropLast_append_getLast hne).symm
      obtain ⟨rest, hrest, hne⟩ := hhead
      unfold displayParts at hrest
      split at hrest
      · exact head_components hrest hne
      · exact head_components hrest hne
    rw [hparts] at hsep ⊢
    refine components_of_head ?_ fun t ht => hsep t (List.mem_cons_of_mem _ ht)
    cases hget : names.get? ('/' :: lower) with
    | none => exact hfirst
    | some s => exact hnames _ s hget

/-- **Rebuilding a rebuilt path gives it back.** -/
theorem recasedDisplay_again (hnames : ∀ k s, names.get? k = some s → Proper '/' s)
    (hname : Proper '/' d.name) :
    recasedDisplay names { d with pathDisplay := some (recasedDisplay names d) } =
      recasedDisplay names d := by
  set d' : DropboxObject := { d with pathDisplay := some (recasedDisplay names d) } with hd'
  have hcomp : components (pyStr d'.pathDisplay) = recasedParts names d :=
    components_recasedDisplay hnames hname
  have hlen : (recasedParts names d).length = (components (pyStr d.pathLower)).length := by
    have hpos := List.length_pos_iff.2 (components_ne_nil (pyStr d.pathLower))
    rw [recasedParts, List.length_append, length_rebuildParents, List.length_zip,
      List.length_dropLast, List.length_dropLast, length_displayParts, List.length_singleton]
    omega
  have hparts : displayParts d' = recasedParts names d := by
    unfold displayParts
    rw [hcomp, if_neg]
    exact not_not.2 hlen
  rw [recasedDisplay_eq, recasedDisplay_eq, hparts, recasedParts, List.dropLast_concat]
  change slashes '/' (rebuildParents names [] ((components (pyStr d.pathLower)).dropLast.zip _) ++
    [d.name]) = _
  rw [rebuildParents_again]
  rw [List.length_dropLast, List.length_dropLast, length_displayParts]

/-- A pass changes no folder name. -/
theorem folderNames_recase (L : Listing) : folderNames (recaseDisplayPaths L) = folderNames L := by
  unfold folderNames recaseDisplayPaths Table.modify
  dsimp only
  rw [List.filter_map, List.map_map]
  rfl

/-- **A second pass changes no row.** -/
theorem recaseDisplayPaths_idem (hname : ∀ d ∈ L, Proper '/' d.name) :
    recaseDisplayPaths (recaseDisplayPaths L) = recaseDisplayPaths L := by
  have hnames : ∀ k s, (folderNames L).get? k = some s → Proper '/' s := fun k s =>
    proper_folderName fun f hf _ => hname f hf
  apply Table.ext
  change ((recaseDisplayPaths L).rows.map fun d =>
    { d with pathDisplay := some (recasedDisplay (folderNames (recaseDisplayPaths L)) d) }) = _
  rw [folderNames_recase]
  unfold recaseDisplayPaths Table.modify
  dsimp only
  rw [List.map_map]
  refine List.map_congr_left fun d hd => ?_
  rw [Function.comp_apply, recasedDisplay_again hnames (hname d hd)]

end Stable

/-- Every directory above a listed path is listed as a folder. -/
def AncestorsListed (L : Listing) : Prop :=
  ∀ d ∈ L, ∀ parent rest, parent ≠ [] → d.pathLower = some (parent ++ '/' :: rest) →
    ∃ f ∈ L, f.tag = .folder ∧ f.pathLower = some parent

/-- A listing whose entries have Dropbox paths and names, with all their ancestors. -/
structure WellRooted (L : Listing) : Prop where
  lower : ∀ d ∈ L, ∃ p, d.pathLower = some p ∧ DropboxPath p
  name : ∀ d ∈ L, Proper '/' d.name
  closed : AncestorsListed L

section Rooted

variable {parts init : List Str} {last : Str}

theorem proper_names (h : WellRooted L) {k s : Str} (hk : (folderNames L).get? k = some s) :
    Proper '/' s := proper_folderName (fun f hf _ => h.name f hf) hk

/-- Every directory above an entry has its name. -/
theorem WellRooted.found (h : WellRooted L) (hd : d ∈ L)
    (hlower : d.pathLower = some (slashes '/' (init ++ [last]))) :
    ∀ a b, init = a ++ b → a ≠ [] → ((folderNames L).get? (slashes '/' a)).isSome := by
  rintro a b rfl ha
  obtain ⟨f, hf, htag, hfp⟩ := h.closed d hd (slashes '/' a) (join '/' (b ++ [last]))
    (by rw [slashes_eq ha]; exact List.cons_ne_nil _ _)
    (by rw [hlower, List.append_assoc, slashes_append, slashes_eq (p := b ++ [last]) (by simp)])
  rw [get?_folderNames (fun f hf _ => h.lower f hf) hf htag hfp]
  rfl

/-- **The display path of an entry** is made of the listed names above it and its own. -/
theorem WellRooted.recased (h : WellRooted L) (hd : d ∈ L)
    (hparts : ∀ s ∈ init ++ [last], Proper '/' s)
    (hlower : d.pathLower = some (slashes '/' (init ++ [last]))) :
    recasedDisplay (folderNames L) d =
      slashes '/' (namesAt (folderNames L) [] init ++ [d.name]) := by
  have hcomp : components (pyStr d.pathLower) = init ++ [last] := by
    rw [hlower]
    exact components_slashes (by simp) hparts
  exact recasedDisplay_of_found hcomp (h.found hd hlower)

/-- The name of a folder is the last of the names along its own path. -/
theorem WellRooted.recased_folder (h : WellRooted L) (hd : d ∈ L) (htag : d.tag = .folder)
    (hne : parts ≠ []) (hparts : ∀ s ∈ parts, Proper '/' s)
    (hlower : d.pathLower = some (slashes '/' parts)) :
    recasedDisplay (folderNames L) d = slashes '/' (namesAt (folderNames L) [] parts) := by
  obtain ⟨init, last, rfl⟩ : ∃ init last, parts = init ++ [last] :=
    ⟨parts.dropLast, parts.getLast hne, (List.dropLast_append_getLast hne).symm⟩
  have hname := get?_folderNames (fun f hf _ => h.lower f hf) hd htag hlower
  rw [slashes_append, slashes_cons, slashes_nil, List.append_nil] at hname
  rw [h.recased hd hparts hlower, namesAt_append, namesAt, List.nil_append, hname]
  rfl

/-- The last name of a path and what is above it. -/
theorem slashes_split {parent : Str} (hne : parts ≠ []) (hparts : ∀ s ∈ parts, Proper '/' s)
    (hlast : '/' ∉ last) (heq : slashes '/' parts = parent ++ '/' :: last) :
    ∃ init, parts = init ++ [last] ∧ parent = slashes '/' init := by
  obtain ⟨init, name, rfl⟩ : ∃ init name, parts = init ++ [name] :=
    ⟨parts.dropLast, parts.getLast hne, (List.dropLast_append_getLast hne).symm⟩
  have hpath : slashes '/' (init ++ [name]) = slashes '/' init ++ '/' :: name := by
    rw [slashes_append, slashes_cons, slashes_nil, List.append_nil]
  have hpair := congrArg (rpartition '/') (hpath.symm.trans heq)
  rw [rpartition_append (hparts name (by simp)).2, rpartition_append hlast] at hpair
  obtain ⟨hparent, hname⟩ := Prod.mk.inj hpair
  exact ⟨init, by rw [hname], hparent.symm⟩

end Rooted

/-- **An entry is spelled by its parent folder and its own name.** -/
def SpelledUnder (R : Listing) (d : DropboxObject) : Prop :=
  ∀ parent last, d.pathLower = some (parent ++ '/' :: last) → '/' ∉ last →
    (parent = [] ∧ d.pathDisplay = some ('/' :: d.name)) ∨
      ∃ f ∈ R, f.tag = .folder ∧ f.pathLower = some parent ∧
        d.pathDisplay = some (pyStr f.pathDisplay ++ '/' :: d.name)

/-- **Each folder is spelled one way**: every path below it begins with its display path. -/
def SpelledOnce (R : Listing) : Prop :=
  ∀ f ∈ R, f.tag = .folder → ∀ d ∈ R, ∀ p rest, f.pathLower = some p →
    d.pathLower = some (p ++ '/' :: rest) →
      ∃ below, d.pathDisplay = some (pyStr f.pathDisplay ++ '/' :: below)

/-- Each entry of a recased listing is spelled under its parent. -/
theorem recased_under (h : WellRooted L) (hd : d ∈ recaseDisplayPaths L) :
    SpelledUnder (recaseDisplayPaths L) d := by
  obtain ⟨d₀, hd₀, rfl⟩ := mem_recaseDisplayPaths.1 hd
  intro parent last hlower hlast
  obtain ⟨q, hq, parts, hne, hparts, rfl⟩ := h.lower d₀ hd₀
  obtain ⟨init, rfl, rfl⟩ := slashes_split hne hparts hlast (Option.some.inj (hq.symm.trans hlower))
  dsimp only
  rw [h.recased hd₀ hparts hq]
  rcases eq_or_ne init [] with rfl | hinit
  · exact Or.inl ⟨rfl, by simp [namesAt]⟩
  · right
    obtain ⟨f, hf, htag, hfp⟩ := h.closed d₀ hd₀ (slashes '/' init) last
      (by rw [slashes_eq hinit]; exact List.cons_ne_nil _ _) hlower
    refine ⟨_, mem_recaseDisplayPaths.2 ⟨f, hf, rfl⟩, htag, hfp, ?_⟩
    have hfolder := h.recased_folder hf htag hinit
      (fun s hs => hparts s (List.mem_append_left _ hs)) hfp
    rw [slashes_append, slashes_cons, slashes_nil, List.append_nil]
    exact congrArg (fun t => some (t ++ '/' :: d₀.name)) hfolder.symm

theorem recased_once (h : WellRooted L) : SpelledOnce (recaseDisplayPaths L) := by
  intro f hf htag d hd p rest hfp hdp
  obtain ⟨f₀, hf₀, rfl⟩ := mem_recaseDisplayPaths.1 hf
  obtain ⟨d₀, hd₀, rfl⟩ := mem_recaseDisplayPaths.1 hd
  obtain ⟨q, hq, front, hfront, hproper, rfl⟩ := h.lower f₀ hf₀
  obtain rfl := Option.some.inj (hfp.symm.trans hq)
  obtain ⟨q', hq', parts, hne, hparts, rfl⟩ := h.lower d₀ hd₀
  have hslash : slashes '/' parts = slashes '/' front ++ '/' :: rest :=
    Option.some.inj (hq'.symm.trans hdp)
  -- the components of the folder are a proper prefix of the entry's
  obtain ⟨back, rfl⟩ := ( slashes_prefix hfront hne (fun s hs => (hproper s hs).2)
    (fun s hs => (hparts s hs).2)).1 (Or.inr ⟨rest, hslash⟩)
  have hback : back ≠ [] := by
    rintro rfl
    rw [List.append_nil] at hslash
    have hlen := congrArg List.length hslash
    rw [List.length_append, List.length_cons] at hlen
    omega
  obtain ⟨init, last, rfl⟩ : ∃ init last, back = init ++ [last] :=
    ⟨back.dropLast, back.getLast hback, (List.dropLast_append_getLast hback).symm⟩
  rw [← List.append_assoc] at hq' hparts
  refine ⟨join '/' (namesAt (folderNames L) (slashes '/' front) init ++ [d₀.name]), ?_⟩
  dsimp only
  rw [h.recased hd₀ hparts hq', namesAt_append, List.append_assoc, List.nil_append, slashes_append,
    slashes_eq (p := _ ++ [d₀.name]) (by simp)]
  exact congrArg (fun t => some (t ++ _)) (h.recased_folder hf₀ htag hfront hproper hq).symm

/-- A recased listing is one whose display paths end in the entries' own names. -/
theorem recased_wellRooted (h : WellRooted L) : Recased (recaseDisplayPaths L) := by
  have hown : ∀ d₀ ∈ L, ∃ parents, (∀ s ∈ parents, Proper '/' s) ∧
      recasedDisplay (folderNames L) d₀ = slashes '/' (parents ++ [d₀.name]) := by
    intro d₀ hd₀
    obtain ⟨q, hq, parts, hne, hparts, rfl⟩ := h.lower d₀ hd₀
    obtain ⟨init, last, rfl⟩ : ∃ init last, parts = init ++ [last] :=
      ⟨parts.dropLast, parts.getLast hne, (List.dropLast_append_getLast hne).symm⟩
    exact ⟨_, proper_namesAt (fun _ _ => proper_names h) (h.found hd₀ hq), h.recased hd₀ hparts hq⟩
  refine ⟨⟨?_, ?_, ?_⟩, ?_⟩
  · intro d hd _
    obtain ⟨d₀, hd₀, rfl⟩ := mem_recaseDisplayPaths.1 hd
    exact h.lower d₀ hd₀
  · intro d hd _
    obtain ⟨d₀, hd₀, rfl⟩ := mem_recaseDisplayPaths.1 hd
    obtain ⟨parents, hproper, heq⟩ := hown d₀ hd₀
    refine ⟨parents ++ [d₀.name], by simp, fun s hs => ?_, heq⟩
    rcases List.mem_append.1 hs with hs | hs
    · exact hproper s hs
    · rw [List.mem_singleton.1 hs]
      exact h.name d₀ hd₀
  · intro d hd _
    obtain ⟨d₀, hd₀, rfl⟩ := mem_recaseDisplayPaths.1 hd
    exact h.name d₀ hd₀
  · intro d hd _
    obtain ⟨d₀, hd₀, rfl⟩ := mem_recaseDisplayPaths.1 hd
    obtain ⟨parents, hproper, heq⟩ := hown d₀ hd₀
    exact ⟨parents, hproper, congrArg some heq⟩

/-- **The names the recursion meets are those of the display path.** -/
theorem pathDisplay_way (h : Recased R) (hunder : ∀ d ∈ R, SpelledUnder R d) (hd : d ∈ R)
    (ht : d.isEntry) : d.pathDisplay = some (slashes '/' (wayTo R d)) := by
  -- the entry above has a shorter path: induct on the length
  have key : ∀ n (d : DropboxObject), d ∈ R → d.isEntry → (pyStr d.pathLower).length ≤ n →
      d.pathDisplay = some (slashes '/' (wayTo R d)) := by
    intro n
    induction n with
    | zero =>
      intro d hd ht hn
      obtain ⟨q, hq, parts, hne, -, hslash⟩ := h.lower d hd ht
      rw [hq, hslash, slashes_eq hne] at hn
      simp [pyStr] at hn
    | succ n ih =>
      intro d hd ht hn
      obtain ⟨q, hq, parts, hne, hparts, rfl⟩ := h.lower d hd ht
      obtain ⟨init, last, rfl⟩ : ∃ init last, parts = init ++ [last] :=
        ⟨parts.dropLast, parts.getLast hne, (List.dropLast_append_getLast hne).symm⟩
      have hlast := (hparts last (by simp)).2
      have hpath : d.pathLower = some (slashes '/' init ++ '/' :: last) := by
        rw [hq, slashes_append, slashes_cons, slashes_nil, List.append_nil]
      have hparent : (rpartition '/' (pyStr d.pathLower)).1 = slashes '/' init := by
        rw [hpath]
        exact (Prod.ext_iff.1 (rpartition_append hlast)).1
      rw [wayTo_cons h.toWellNamed hd ht]
      cases hf : folderAbove R d with
      | some f =>
        -- the folder above gives the beginning, the entry the last component
        obtain ⟨hfR, hftag, hfp⟩ := folderAbove_eq_some hf
        rw [hparent] at hfp
        have hlt := length_folderAbove h.toWellNamed hd ht hf
        have hinit : slashes '/' init ≠ [] := by
          obtain ⟨p, hp, fparts, hfne, -, rfl⟩ := h.lower f hfR (Or.inr hftag)
          rw [← Option.some.inj (hp.symm.trans hfp), slashes_eq hfne]
          exact List.cons_ne_nil _ _
        obtain ⟨hnil, -⟩ | ⟨g, hg, hgtag, hgp, hdisp⟩ := hunder d hd _ _ hpath hlast
        · exact absurd hnil hinit
        · obtain rfl := h.eq_of_pathLower hg hfR (Or.inr hgtag) (hgp.trans hfp.symm)
          dsimp only
          rw [hdisp, ih g hfR (Or.inr hftag) (by omega), slashes_append, slashes_cons, slashes_nil,
            List.append_nil]
          rfl
      | none =>
        -- no folder above: the way is what the entry says itself
        obtain ⟨parents, hproper, hdisp⟩ := h.own d hd ht
        dsimp only
        rw [hdisp]
        change some _ = some (slashes '/' (components (slashes '/' (parents ++ [d.name]))))
        rw [components_slashes (by simp)]
        intro s hs
        rcases List.mem_append.1 hs with hs | hs
        · exact hproper s hs
        · rw [List.mem_singleton.1 hs]
          exact h.name d hd ht
  exact key _ d hd ht le_rfl

/-- **The delta's display path of a file is the normalised one of the inventory.** -/
theorem displayPaths_recased (h : WellRooted L) (hd : d ∈ listedFiles (recaseDisplayPaths L)) :
    (displayPaths U (recaseDisplayPaths L)).get? (pyStr d.pathLower) =
      some (U.nfc (pyStr d.pathDisplay)) := by
  have hrec := recased_wellRooted h
  obtain ⟨hdR, ht⟩ := isEntry_of_mem_listedFiles hd
  rw [displayPaths_way hrec hd, pathDisplay_way hrec (fun _ => recased_under h) hdR ht]
  exact congrArg some (nfc_slashes U (proper_wayTo hrec hdR ht).1).symm

/-- **Recasing is stable, and the two path builders agree.** A second pass changes no row,
whatever the paths. Where every ancestor is listed, an entry is spelled by its parent and
its own name, a folder in one way, and `display_paths` normalises the recased path. -/
theorem recasing_agrees (U : Unicode) (L : Listing) (hname : ∀ d ∈ L, Proper '/' d.name) :
    recaseDisplayPaths (recaseDisplayPaths L) = recaseDisplayPaths L ∧
      ((∀ d ∈ L, ∃ p, d.pathLower = some p ∧ DropboxPath p) → AncestorsListed L →
        (∀ d ∈ recaseDisplayPaths L, SpelledUnder (recaseDisplayPaths L) d) ∧
        SpelledOnce (recaseDisplayPaths L) ∧
        ∀ d ∈ listedFiles (recaseDisplayPaths L),
          (displayPaths U (recaseDisplayPaths L)).get? (pyStr d.pathLower) =
            some (U.nfc (pyStr d.pathDisplay))) := by
  refine ⟨recaseDisplayPaths_idem hname, fun hlower hclosed => ?_⟩
  have h : WellRooted L := ⟨hlower, hname, hclosed⟩
  exact ⟨fun _ => recased_under h, recased_once h, fun _ => displayPaths_recased h⟩

/-- A folder, and a file whose display path writes the folder's name in lower case. -/
def loweredParent : Listing :=
  ⟨[⟨.folder, "A".toList, some "/A".toList, some "/a".toList, none, none, none, true, 1, 1⟩,
    ⟨.file, "F".toList, some "/a/F".toList, some "/a/f".toList, some "1".toList, some 1,
      some "h".toList, true, 1, 1⟩], by decide⟩

/-- The file is moved under the folder's own spelling, where `display_paths` puts it too. -/
theorem recasing_agrees_lowered :
    (recaseDisplayPaths loweredParent).rows.map DropboxObject.pathDisplay =
        [some "/A".toList, some "/A/F".toList] ∧
      SpelledOnce (recaseDisplayPaths loweredParent) ∧
      ∀ d ∈ listedFiles (recaseDisplayPaths loweredParent),
        (displayPaths Unicode.latin (recaseDisplayPaths loweredParent)).get? (pyStr d.pathLower) =
          some (Unicode.latin.nfc (pyStr d.pathDisplay)) := by
  have hname : ∀ d ∈ loweredParent, Proper '/' d.name := by decide
  have hpath : ∀ parts : List Str, parts ≠ [] → (∀ s ∈ parts, Proper '/' s) →
      DropboxPath (slashes '/' parts) := fun parts hne hparts => ⟨parts, hne, hparts, rfl⟩
  have hlower : ∀ d ∈ loweredParent, ∃ p, d.pathLower = some p ∧ DropboxPath p := by
    intro d hd
    rcases List.mem_cons.1 hd with rfl | hd
    · exact ⟨_, rfl, hpath ["a".toList] (by decide) (by decide)⟩
    · rw [List.mem_singleton.1 hd]
      exact ⟨_, rfl, hpath ["a".toList, "f".toList] (by decide) (by decide)⟩
  have hprefixes : ∀ d ∈ loweredParent, ∀ parent ∈ (pyStr d.pathLower).inits, parent ≠ [] →
      ((pyStr d.pathLower).drop parent.length).head? = some '/' →
      ∃ f ∈ loweredParent, f.tag = .folder ∧ f.pathLower = some parent := by decide
  have hclosed : AncestorsListed loweredParent := by
    intro d hd parent rest hne heq
    have hpre : parent ∈ (pyStr d.pathLower).inits := by
      rw [List.mem_inits, heq]
      exact List.prefix_append _ _
    refine hprefixes d hd parent hpre hne ?_
    rw [heq]
    simp [pyStr]
  obtain ⟨-, hagree⟩ := recasing_agrees Unicode.latin loweredParent hname
  exact ⟨by decide, (hagree hlower hclosed).2⟩

end DropboxMirror
