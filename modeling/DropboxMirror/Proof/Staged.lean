import DropboxMirror.Model.Delta
import DropboxMirror.Model.Plan
import DropboxMirror.Proof.Recase

/-!
# Where two files are staged

The key of a file is its lower-cased path; its place in staging is made of the names on
its way (`wayTo`): the listed folders above it, and its own name, each normalised. Two
files keep apart where their ways branch off under normalisation.

* `recased_finishListing`: the display paths the inventory phase leaves.
* `resolve_way`: `resolve` and its memo spell the way of each entry.
* `displayPaths_way`: what `display_paths` assigns.
* `staging_apart_iff`: when the files of a listing keep apart.
-/

namespace DropboxMirror

open Text

variable {U : Unicode} {L R : Listing} {d : DropboxObject}

/-- A file or a folder. -/
def DropboxObject.isEntry (d : DropboxObject) : Prop := d.tag = .file ∨ d.tag = .folder

/-- A listing each of whose display paths ends in the entry's own name. -/
structure Recased (R : Listing) : Prop extends WellNamed R where
  own : ∀ d ∈ R, d.isEntry → ∃ parents, (∀ s ∈ parents, Proper '/' s) ∧
    d.pathDisplay = some (slashes '/' (parents ++ [d.name]))

theorem wellNamed_markUnhashed (h : WellNamed L) : WellNamed (markUnhashed L) := by
  have hback : ∀ d ∈ markUnhashed L, ∃ d₀ ∈ L, d.tag = d₀.tag ∧ d.name = d₀.name ∧
      d.pathLower = d₀.pathLower ∧ d.pathDisplay = d₀.pathDisplay := by
    intro d hd
    obtain ⟨d₀, h₀, rfl⟩ := Table.mem_modify.1 hd
    refine ⟨d₀, h₀, ?_⟩
    split <;> exact ⟨rfl, rfl, rfl, rfl⟩
  constructor
  · intro d hd ht
    obtain ⟨d₀, h₀, htag, -, hl, -⟩ := hback d hd
    rw [hl]
    exact h.lower d₀ h₀ (htag ▸ ht)
  · intro d hd ht
    obtain ⟨d₀, h₀, htag, -, -, hdisp⟩ := hback d hd
    rw [hdisp]
    exact h.display d₀ h₀ (htag ▸ ht)
  · intro d hd ht
    obtain ⟨d₀, h₀, htag, hn, -, -⟩ := hback d hd
    rw [hn]
    exact h.name d₀ h₀ (htag ▸ ht)

/-- **The display paths the inventory phase leaves** end in the entries' own names. -/
theorem recased_finishListing (h : WellNamed L) : Recased (finishListing L) := by
  have hm := wellNamed_markUnhashed h
  have hpath : ∀ d₀ ∈ markUnhashed L, d₀.isEntry → DropboxPath (recasedDisplay
      (folderNames (markUnhashed L)) d₀) := fun d₀ h₀ ht => recased_dropboxPath hm h₀ ht
  refine ⟨⟨?_, ?_, ?_⟩, ?_⟩
  · intro d hd ht
    obtain ⟨d₀, h₀, rfl⟩ := mem_recaseDisplayPaths.1 hd
    exact hm.lower d₀ h₀ ht
  · intro d hd ht
    obtain ⟨d₀, h₀, rfl⟩ := mem_recaseDisplayPaths.1 hd
    exact hpath d₀ h₀ ht
  · intro d hd ht
    obtain ⟨d₀, h₀, rfl⟩ := mem_recaseDisplayPaths.1 hd
    exact hm.name d₀ h₀ ht
  · intro d hd ht
    obtain ⟨d₀, h₀, rfl⟩ := mem_recaseDisplayPaths.1 hd
    exact ⟨_, fun s hs => proper_recasedParts hm h₀ ht s (List.mem_append_left _ hs),
      congrArg some (recasedDisplay_eq d₀)⟩

/-- The folder row right above an entry. -/
def folderAbove (L : Listing) (d : DropboxObject) : Option DropboxObject :=
  L.rows.find? fun f => decide (f.tag = .folder ∧
    f.pathLower = some (rpartition '/' (pyStr d.pathLower)).1)

/-- The names on the way to an entry: the listed folders above it, as far as each is listed,
over the spelling of the topmost one. -/
def way (L : Listing) : ℕ → DropboxObject → List Str
  | 0, d => components (pyStr d.pathDisplay)
  | depth + 1, d =>
    match folderAbove L d with
    | some f => way L depth f ++ [d.name]
    | none => components (pyStr d.pathDisplay)

/-- The names on the way to an entry; there are no more folders above it than its path has
characters. -/
def wayTo (L : Listing) (d : DropboxObject) : List Str := way L (pyStr d.pathLower).length d

section Way

variable {f : DropboxObject} {k : Str}

theorem folderAbove_eq_some (h : folderAbove L d = some f) :
    f ∈ L ∧ f.tag = .folder ∧ f.pathLower = some (rpartition '/' (pyStr d.pathLower)).1 := by
  unfold folderAbove at h
  have hp := List.find?_some h
  exact ⟨List.mem_of_find?_eq_some h, of_decide_eq_true hp⟩

/-- Two entries of one path are one. -/
theorem WellNamed.eq_of_pathLower (h : WellNamed L) (hd : d ∈ L) (hf : f ∈ L) (ht : d.isEntry)
    (heq : d.pathLower = f.pathLower) : d = f := by
  obtain ⟨q, hq, parts, hne, -, hslash⟩ := h.lower d hd ht
  have hqne : q ≠ [] := by
    rw [hslash, slashes_eq hne]
    exact List.cons_ne_nil _ _
  exact Table.eq_of_key_eq hd hf (by
    rw [DropboxObject.objectKey_of_pathLower hq hqne,
      DropboxObject.objectKey_of_pathLower (heq ▸ hq) hqne])

/-- The dictionary of `display_paths` has the display path of the folder above. -/
theorem get?_folderDisplays (h : WellNamed L) (d : DropboxObject) :
    (folderDisplays L).get? (rpartition '/' (pyStr d.pathLower)).1 =
      (folderAbove L d).map fun f => pyStr f.pathDisplay := by
  cases hf : folderAbove L d with
  | some f =>
    obtain ⟨hf, htag, hp⟩ := folderAbove_eq_some hf
    refine Dict.get?_ofList_of_unique ?_ fun w hw => ?_
    · refine List.mem_map.2 ⟨f, List.mem_filter.2 ⟨hf, decide_eq_true htag⟩, ?_⟩
      rw [hp]
      rfl
    · obtain ⟨g, hg, hgw⟩ := List.mem_map.1 hw
      obtain ⟨hg, hgtag⟩ := List.mem_filter.1 hg
      obtain ⟨q, hq, -⟩ := h.lower g hg (Or.inr (of_decide_eq_true hgtag))
      have hkey : q = (rpartition '/' (pyStr d.pathLower)).1 := by
        have := congrArg Prod.fst hgw
        rwa [hq] at this
      rw [← h.eq_of_pathLower hg hf (Or.inr (of_decide_eq_true hgtag)) (by rw [hq, hp, hkey])]
      exact (congrArg Prod.snd hgw).symm
  | none =>
    refine Dict.get?_ofList_eq_none.2 fun v hv => ?_
    obtain ⟨g, hg, hgv⟩ := List.mem_map.1 hv
    obtain ⟨hg, hgtag⟩ := List.mem_filter.1 hg
    obtain ⟨q, hq, -⟩ := h.lower g hg (Or.inr (of_decide_eq_true hgtag))
    have hkey : q = (rpartition '/' (pyStr d.pathLower)).1 := by
      have := congrArg Prod.fst hgv
      rwa [hq] at this
    have hnone := List.find?_eq_none.1 hf g hg
    exact hnone (decide_eq_true ⟨of_decide_eq_true hgtag, by rw [hq, hkey]⟩)

/-- The path above an entry is shorter. -/
theorem length_folderAbove (h : WellNamed L) (hd : d ∈ L) (ht : d.isEntry)
    (hf : folderAbove L d = some f) :
    (pyStr f.pathLower).length < (pyStr d.pathLower).length := by
  obtain ⟨-, -, hp⟩ := folderAbove_eq_some hf
  obtain ⟨q, hq, parts, hne, hparts, rfl⟩ := h.lower d hd ht
  obtain ⟨init, last, rfl⟩ : ∃ init last, parts = init ++ [last] :=
    ⟨parts.dropLast, parts.getLast hne, (List.dropLast_append_getLast hne).symm⟩
  have hlower : pyStr d.pathLower = slashes '/' init ++ '/' :: last := by
    rw [hq, slashes_append, slashes_cons, slashes_nil, List.append_nil]
    rfl
  rw [hp, hlower, rpartition_append (hparts last (by simp)).2]
  change (slashes '/' init).length < _
  rw [List.length_append, List.length_cons]
  omega

/-- Deeper than the path there is nothing. -/
theorem way_eq (h : WellNamed L) {depth : ℕ} (hd : d ∈ L) (ht : d.isEntry)
    (hdepth : (pyStr d.pathLower).length ≤ depth) : way L depth d = wayTo L d := by
  have key : ∀ n m (d : DropboxObject), d ∈ L → d.isEntry → (pyStr d.pathLower).length ≤ n →
      (pyStr d.pathLower).length ≤ m → way L n d = way L m d := by
    intro n
    induction n with
    | zero =>
      intro m d hd ht hn _
      obtain ⟨q, hq, parts, hne, -, hslash⟩ := h.lower d hd ht
      rw [hq, hslash, slashes_eq hne] at hn
      exact absurd hn (by simp [pyStr])
    | succ n ih =>
      intro m d hd ht hn hm
      cases m with
      | zero =>
        obtain ⟨q, hq, parts, hne, -, hslash⟩ := h.lower d hd ht
        rw [hq, hslash, slashes_eq hne] at hm
        exact absurd hm (by simp [pyStr])
      | succ m =>
        rw [way, way]
        cases hf : folderAbove L d with
        | none => rfl
        | some f =>
          obtain ⟨hfL, htag, -⟩ := folderAbove_eq_some hf
          have hlt := length_folderAbove h hd ht hf
          dsimp only
          rw [ih m f hfL (Or.inr htag) (by omega) (by omega)]
  exact key _ _ d hd ht hdepth le_rfl

/-- One step up the way. -/
theorem wayTo_cons (h : WellNamed L) (hd : d ∈ L) (ht : d.isEntry) :
    wayTo L d = match folderAbove L d with
      | some f => wayTo L f ++ [d.name]
      | none => components (pyStr d.pathDisplay) := by
  rw [← way_eq h hd ht (Nat.le_succ _), way]
  cases hf : folderAbove L d with
  | none => rfl
  | some f =>
    obtain ⟨hfL, htag, -⟩ := folderAbove_eq_some hf
    dsimp only
    rw [way_eq h hfL (Or.inr htag) (length_folderAbove h hd ht hf).le]

end Way

section Resolve

/-- Each path the memo holds is the way of its entry. -/
def MemoOk (R : Listing) (memo : Dict Str Str) : Prop :=
  ∀ k v, memo.get? k = some v → k = [] ∨
    ∃ d ∈ R, d.isEntry ∧ d.pathLower = some k ∧ v = slashes '/' (wayTo R d)

theorem memoOk_rootMemo : MemoOk R rootMemo := by
  intro k v h
  obtain ⟨before, after, hsplit, -⟩ := Dict.get?_ofList_eq_some.1 h
  have hmem : (k, v) ∈ [(([] : Str), ([] : Str))] := by
    rw [hsplit]
    simp
  exact Or.inl (Prod.ext_iff.1 (List.mem_singleton.1 hmem)).1

theorem MemoOk.set {memo : Dict Str Str} (h : MemoOk R memo) (hd : d ∈ R) (ht : d.isEntry) {k : Str}
    (hk : d.pathLower = some k) : MemoOk R (memo.set k (slashes '/' (wayTo R d))) := by
  intro k' v hv
  rw [Dict.get?_set] at hv
  split at hv
  · rename_i heq
    exact Or.inr ⟨d, hd, ht, heq ▸ hk, (Option.some.inj hv).symm⟩
  · exact h k' v hv

/-- **`resolve` spells the way of an entry**, and so does all it remembers. -/
theorem resolve_way (h : Recased R) {fuel : ℕ} {memo : Dict Str Str} (hmemo : MemoOk R memo)
    (hd : d ∈ R) (ht : d.isEntry) (hfuel : (pyStr d.pathLower).length < fuel) :
    (resolve (folderDisplays R) fuel memo (pyStr d.pathLower) (pyStr d.pathDisplay)).1 =
        slashes '/' (wayTo R d) ∧
      MemoOk R (resolve (folderDisplays R) fuel memo (pyStr d.pathLower) (pyStr d.pathDisplay)).2 := by
  induction fuel generalizing memo d with
  | zero => omega
  | succ fuel ih =>
    obtain ⟨q, hq, parts, hne, -, hslash⟩ := h.lower d hd ht
    have hlower : pyStr d.pathLower = q := by rw [hq]; rfl
    obtain ⟨parents, hparents, hdisplay⟩ := h.own d hd ht
    have hdisp : pyStr d.pathDisplay = slashes '/' parents ++ '/' :: d.name := by
      rw [hdisplay, slashes_append, slashes_cons, slashes_nil, List.append_nil]
      rfl
    have hname := (h.name d hd ht).2
    rw [resolve]
    cases hm : memo.get? (pyStr d.pathLower) with
    | some known =>
      -- an entry met before
      rcases hmemo _ _ hm with hnil | ⟨e, he, het, hel, hv⟩
      · rw [hlower, hslash, slashes_eq hne] at hnil
        cases hnil
      · obtain rfl := h.eq_of_pathLower he hd het (by rw [hel, hlower, hq])
        exact ⟨hv, hmemo⟩
    | none =>
      dsimp only
      rw [get?_folderDisplays h.toWellNamed d, hdisp, rpartition_append hname]
      cases hf : folderAbove R d with
      | some f =>
        obtain ⟨hfR, hftag, hfp⟩ := folderAbove_eq_some hf
        have hlt := length_folderAbove h.toWellNamed hd ht hf
        have hparent : (rpartition '/' (pyStr d.pathLower)).1 = pyStr f.pathLower := by
          rw [hfp]
          rfl
        obtain ⟨hway, hmemo'⟩ := ih hmemo hfR (Or.inr hftag) (by omega)
        have hpath : slashes '/' (wayTo R f) ++ '/' :: d.name = slashes '/' (wayTo R d) := by
          rw [wayTo_cons h.toWellNamed hd ht, hf]
          dsimp only
          rw [slashes_append, slashes_cons, slashes_nil, List.append_nil]
        rw [Option.map_some, hparent]
        dsimp only
        rw [hway, hpath]
        exact ⟨rfl, hmemo'.set hd ht (by rw [hlower, hq])⟩
      | none =>
        have hpath : slashes '/' parents ++ '/' :: d.name = slashes '/' (wayTo R d) := by
          rw [wayTo_cons h.toWellNamed hd ht, hf]
          dsimp only
          rw [hdisplay, show pyStr (some (slashes '/' (parents ++ [d.name]))) =
            slashes '/' (parents ++ [d.name]) from rfl, components_slashes]
          · rw [slashes_append, slashes_cons, slashes_nil, List.append_nil]
          · exact List.append_ne_nil_of_right_ne_nil _ (List.cons_ne_nil _ _)
          · intro s hs
            rcases List.mem_append.1 hs with hs | hs
            · exact hparents s hs
            · rw [List.mem_singleton.1 hs]
              exact h.name d hd ht
        rw [Option.map_none]
        dsimp only
        rw [hpath]
        exact ⟨rfl, hmemo.set hd ht (by rw [hlower, hq])⟩

/-- The names on a way are proper, and there is at least one. -/
theorem proper_wayTo (h : Recased R) (hd : d ∈ R) (ht : d.isEntry) :
    wayTo R d ≠ [] ∧ ∀ s ∈ wayTo R d, Proper '/' s := by
  have key : ∀ n (d : DropboxObject), d ∈ R → d.isEntry → (pyStr d.pathLower).length ≤ n →
      wayTo R d ≠ [] ∧ ∀ s ∈ wayTo R d, Proper '/' s := by
    intro n
    induction n with
    | zero =>
      intro d hd ht hn
      obtain ⟨q, hq, parts, hne, -, hslash⟩ := h.lower d hd ht
      rw [hq, hslash, slashes_eq hne] at hn
      exact absurd hn (by simp [pyStr])
    | succ n ih =>
      intro d hd ht hn
      rw [wayTo_cons h.toWellNamed hd ht]
      cases hf : folderAbove R d with
      | some f =>
        obtain ⟨hfR, hftag, -⟩ := folderAbove_eq_some hf
        have hlt := length_folderAbove h.toWellNamed hd ht hf
        refine ⟨List.append_ne_nil_of_right_ne_nil _ (List.cons_ne_nil _ _), fun s hs => ?_⟩
        rcases List.mem_append.1 hs with hs | hs
        · exact (ih f hfR (Or.inr hftag) (by omega)).2 s hs
        · rw [List.mem_singleton.1 hs]
          exact h.name d hd ht
      | none =>
        obtain ⟨parts, hne, hparts, hdisp⟩ := h.display d hd ht
        dsimp only
        rw [hdisp, components_slashes hne hparts]
        exact ⟨hne, hparts⟩
  exact key _ d hd ht le_rfl

/-- Normalising a path normalises its parts. -/
theorem nfc_slashes (U : Unicode) {parts : List Str} (hne : parts ≠ []) :
    U.nfc (slashes '/' parts) = slashes '/' (parts.map U.nfc) := by
  have hsep := U.nfc_parts.sep [] (join '/' parts)
  rw [U.nfc_parts.nil] at hsep
  rw [slashes_eq hne, ← U.nfc_parts.map_slashes hne]
  exact hsep

/-- The pairs of `display_paths`: one memo serves all files. -/
theorem mem_resolveAll (h : Recased R) {files : List DropboxObject} {memo : Dict Str Str}
    (hmemo : MemoOk R memo) (hfiles : ∀ d ∈ files, d ∈ R ∧ d.isEntry) {kv : Str × Str}
    (hkv : kv ∈ resolveAll U (folderDisplays R) memo files) :
    ∃ d ∈ files, kv = (pyStr d.pathLower, slashes '/' ((wayTo R d).map U.nfc)) := by
  induction files generalizing memo with
  | nil => exact absurd hkv List.not_mem_nil
  | cons d files ih =>
    obtain ⟨hd, ht⟩ := hfiles d List.mem_cons_self
    obtain ⟨hpath, hmemo'⟩ := resolve_way h hmemo hd ht (Nat.lt_succ_self _)
    set path := resolve (folderDisplays R) ((pyStr d.pathLower).length + 1) memo (pyStr d.pathLower)
      (pyStr d.pathDisplay) with hdef
    have hcons : resolveAll U (folderDisplays R) memo (d :: files) =
        (pyStr d.pathLower, U.nfc path.1) :: resolveAll U (folderDisplays R) path.2 files := rfl
    rw [hcons] at hkv
    rcases List.mem_cons.1 hkv with heq | hkv
    · refine ⟨d, List.mem_cons_self, ?_⟩
      rw [heq, hpath, nfc_slashes U (proper_wayTo h hd ht).1]
    · obtain ⟨e, he, hek⟩ := ih hmemo' (fun e he => hfiles e (List.mem_cons_of_mem _ he)) hkv
      exact ⟨e, List.mem_cons_of_mem _ he, hek⟩

theorem isEntry_of_mem_listedFiles (hd : d ∈ listedFiles R) : d ∈ R ∧ d.isEntry := by
  obtain ⟨hd, hfile⟩ := mem_listedFiles.1 hd
  rw [DropboxObject.isFile, Bool.and_eq_true, decide_eq_true_eq] at hfile
  exact ⟨hd, Or.inl hfile.1⟩

/-- **What `display_paths` assigns**: the names on the way of the file, each normalised. -/
theorem displayPaths_way (h : Recased R) (hd : d ∈ listedFiles R) :
    (displayPaths U R).get? (pyStr d.pathLower) = some (slashes '/' ((wayTo R d).map U.nfc)) := by
  have hall : ∀ e ∈ listedFiles R, e ∈ R ∧ e.isEntry := fun e he => isEntry_of_mem_listedFiles he
  obtain ⟨hdR, ht⟩ := hall d hd
  have hone : ∀ v, (pyStr d.pathLower, v) ∈ resolveAll U (folderDisplays R) rootMemo (listedFiles R) →
      v = slashes '/' ((wayTo R d).map U.nfc) := by
    intro v hv
    obtain ⟨e, he, hev⟩ := mem_resolveAll h memoOk_rootMemo hall hv
    obtain ⟨heR, het⟩ := hall e he
    obtain ⟨q, hq, -⟩ := h.lower d hdR ht
    obtain ⟨q', hq', -⟩ := h.lower e heR het
    have hkey := (Prod.ext_iff.1 hev).1
    rw [hq, hq'] at hkey
    have hsame : q = q' := hkey
    obtain rfl := h.eq_of_pathLower hdR heR ht (by rw [hq, hq', hsame])
    exact (Prod.ext_iff.1 hev).2
  have hkeys : pyStr d.pathLower ∈
      (resolveAll U (folderDisplays R) rootMemo (listedFiles R)).map Prod.fst := by
    rw [resolveAll_keys]
    exact List.mem_map_of_mem hd
  obtain ⟨⟨k, v⟩, hkv, hk⟩ := List.mem_map.1 hkeys
  obtain rfl : k = pyStr d.pathLower := hk
  rw [displayPaths, Dict.get?_ofList_of_unique hkv fun w hw => (hone w hw).trans (hone v hkv).symm,
    hone v hkv]

end Resolve

/-- Two paths are different, and neither is a directory above the other. -/
def Apart (p q : Str) : Prop :=
  p ≠ q ∧ (∀ rest, q ≠ p ++ '/' :: rest) ∧ ∀ rest, p ≠ q ++ '/' :: rest

/-- Two ways branch off: somewhere, as far down on both, there are names that stay different
when they are normalised. -/
def BranchOff (U : Unicode) (names names' : List Str) : Prop :=
  ∃ (i : ℕ) (s t : Str), names[i]? = some s ∧ names'[i]? = some t ∧ U.nfc s ≠ U.nfc t

theorem apart_slashes {p q : List Str} (hp : p ≠ []) (hq : q ≠ []) (hp' : ∀ s ∈ p, Proper '/' s)
    (hq' : ∀ s ∈ q, Proper '/' s) :
    Apart (slashes '/' p) (slashes '/' q) ↔ ¬ p <+: q ∧ ¬ q <+: p := by
  rw [← slashes_prefix hp hq (fun s hs => (hp' s hs).2) fun s hs => (hq' s hs).2,
    ← slashes_prefix hq hp (fun s hs => (hq' s hs).2) fun s hs => (hp' s hs).2, not_or, not_or,
    not_exists, not_exists]
  constructor
  · rintro ⟨hne, h1, h2⟩
    exact ⟨⟨hne.symm, h1⟩, hne, h2⟩
  · rintro ⟨⟨-, h1⟩, hne, h2⟩
    exact ⟨hne, h1, h2⟩

/-- **Two normalised ways keep apart exactly where they branch off.** -/
theorem apart_way_iff {p q : List Str} (hp : p ≠ []) (hq : q ≠ []) (hp' : ∀ s ∈ p, Proper '/' s)
    (hq' : ∀ s ∈ q, Proper '/' s) :
    Apart (slashes '/' (p.map U.nfc)) (slashes '/' (q.map U.nfc)) ↔ BranchOff U p q := by
  have hnfc : ∀ {p : List Str}, (∀ s ∈ p, Proper '/' s) → ∀ s ∈ p.map U.nfc, Proper '/' s := by
    intro p hp s hs
    obtain ⟨t, ht, rfl⟩ := List.mem_map.1 hs
    exact ⟨U.nfc_parts.ne_nil t (hp t ht).1, U.nfc_parts.not_mem t (hp t ht).2⟩
  rw [apart_slashes (by simpa using hp) (by simpa using hq) (hnfc hp') (hnfc hq'), not_prefix_iff]
  simp only [List.getElem?_map, Option.map_eq_some_iff]
  constructor
  · rintro ⟨i, _, _, ⟨s, hs, rfl⟩, ⟨t, ht, rfl⟩, hne⟩
    exact ⟨i, s, t, hs, ht, hne⟩
  · rintro ⟨i, s, t, hs, ht, hne⟩
    exact ⟨i, _, _, ⟨s, hs, rfl⟩, ⟨t, ht, rfl⟩, hne⟩

/-- Any two files have display paths that keep apart. -/
def StagedApart (U : Unicode) (L : Listing) : Prop :=
  ∀ d ∈ listedFiles L, ∀ d' ∈ listedFiles L, d ≠ d' → ∃ p p',
    (displayPaths U L).get? (pyStr d.pathLower) = some p ∧
      (displayPaths U L).get? (pyStr d'.pathLower) = some p' ∧ Apart p p'

/-- The ways to any two files branch off. -/
def WaysBranchOff (U : Unicode) (L : Listing) : Prop :=
  ∀ d ∈ listedFiles L, ∀ d' ∈ listedFiles L, d ≠ d' → BranchOff U (wayTo L d) (wayTo L d')

theorem stagedApart_iff (h : Recased R) : StagedApart U R ↔ WaysBranchOff U R := by
  have hpair : ∀ d ∈ listedFiles R, ∀ d' ∈ listedFiles R,
      (∃ p p', (displayPaths U R).get? (pyStr d.pathLower) = some p ∧
        (displayPaths U R).get? (pyStr d'.pathLower) = some p' ∧ Apart p p') ↔
          BranchOff U (wayTo R d) (wayTo R d') := by
    intro d hd d' hd'
    obtain ⟨hdR, ht⟩ := isEntry_of_mem_listedFiles hd
    obtain ⟨hdR', ht'⟩ := isEntry_of_mem_listedFiles hd'
    obtain ⟨hne, hproper⟩ := proper_wayTo h hdR ht
    obtain ⟨hne', hproper'⟩ := proper_wayTo h hdR' ht'
    rw [← apart_way_iff hne hne' hproper hproper']
    constructor
    · rintro ⟨p, p', hp, hp', hapart⟩
      obtain rfl := Option.some.inj (hp.symm.trans (displayPaths_way h hd))
      obtain rfl := Option.some.inj (hp'.symm.trans (displayPaths_way h hd'))
      exact hapart
    · exact fun hapart => ⟨_, _, displayPaths_way h hd, displayPaths_way h hd', hapart⟩
  constructor
  · exact fun hall d hd d' hd' hne => (hpair d hd d' hd').1 (hall d hd d' hd' hne)
  · exact fun hall d hd d' hd' hne => (hpair d hd d' hd').2 (hall d hd d' hd' hne)

/-- Where no name is a dot, staging follows the display path part by part. -/
theorem localPath_slashes {p : List Str} (hne : p ≠ []) (hp : ∀ s ∈ p, Proper '/' s)
    (hdot : ∀ s ∈ p, s ≠ ['.']) : localPath (slashes '/' p) = p := by
  rw [localPath, lstrip_slashes hne hp, pathParts, split_join hne fun s hs => (hp s hs).2]
  exact List.filter_eq_self.2 fun s hs => decide_eq_true ⟨(hp s hs).1, hdot s hs⟩

/-- No normalised name on the way to a file is a dot, which `pathlib` drops. -/
def NoDots (U : Unicode) (L : Listing) : Prop :=
  ∀ d ∈ listedFiles L, ∀ s ∈ wayTo L d, U.nfc s ≠ ['.']

/-- Changed files that keep apart are staged at different places. -/
theorem localPath_ne_of_branchOff (h : Recased R) (hways : WaysBranchOff U R) (hdots : NoDots U R)
    {ratio : ℚ} {runId : ℕ} {M : Mirror} {Δ : Delta} (hΔ : deltaRun U ratio runId (some R) M = .ok Δ) :
    ∀ r ∈ Δ.changed, ∀ r' ∈ Δ.changed, r ≠ r' → localPath r.pathDisplay ≠ localPath r'.pathDisplay := by
  obtain ⟨L, hL, -, hrows, -⟩ := deltaRun_ok hΔ
  obtain rfl := Option.some.inj hL
  -- a changed row is staged at the normalised way to its file
  have hrow : ∀ r ∈ Δ.changed, ∃ d ∈ listedFiles R, d.pathLower = some r.pathLower ∧
      localPath r.pathDisplay = (wayTo R d).map U.nfc := by
    intro r hr
    obtain ⟨d, hd, hc, hdr⟩ := (mem_changedRows hrows).1 hr
    obtain ⟨hlower, -, -, hdisp⟩ := changedRow_ok hdr
    have hfile : d ∈ listedFiles R := by
      refine mem_listedFiles.2 ⟨hd, ?_⟩
      unfold isChanged at hc
      simp only [Bool.and_eq_true] at hc
      exact hc.1.1.1
    obtain ⟨hdR, ht⟩ := isEntry_of_mem_listedFiles hfile
    obtain ⟨hne, hproper⟩ := proper_wayTo h hdR ht
    refine ⟨d, hfile, hlower, ?_⟩
    rw [Option.some.inj (hdisp.symm.trans (displayPaths_way h hfile)), localPath_slashes]
    · simpa using hne
    · intro s hs
      obtain ⟨t, ht, rfl⟩ := List.mem_map.1 hs
      exact ⟨U.nfc_parts.ne_nil t (hproper t ht).1, U.nfc_parts.not_mem t (hproper t ht).2⟩
    · intro s hs
      obtain ⟨t, ht, rfl⟩ := List.mem_map.1 hs
      exact hdots d hfile t ht
  intro r hr r' hr' hne hsame
  obtain ⟨d, hd, hlower, hpath⟩ := hrow r hr
  obtain ⟨d', hd', hlower', hpath'⟩ := hrow r' hr'
  have hdd : d ≠ d' := by
    rintro rfl
    exact hne (Table.eq_of_key_eq hr hr' (Option.some.inj (hlower.symm.trans hlower')))
  obtain ⟨i, s, t, hs, ht, hst⟩ := hways d hd d' hd' hdd
  rw [hpath, hpath'] at hsame
  -- the two ways differ at one place, and so do the paths
  have hget := congrArg (fun l : List Str => l[i]?) hsame
  simp only [List.getElem?_map, hs, ht, Option.map_some] at hget
  exact hst (Option.some.inj hget)

/-- **Two files keep apart in staging exactly where their ways branch off**, and then no two
changed files, so no two items of a batch, are staged at one place. -/
theorem staging_apart_iff (h : WellNamed L) :
    (StagedApart U (finishListing L) ↔ WaysBranchOff U (finishListing L)) ∧
      (WaysBranchOff U (finishListing L) → NoDots U (finishListing L) →
        ∀ ratio runId M Δ, deltaRun U ratio runId (some (finishListing L)) M = .ok Δ →
          ∀ r ∈ Δ.changed, ∀ r' ∈ Δ.changed, r ≠ r' →
            localPath r.pathDisplay ≠ localPath r'.pathDisplay) :=
  ⟨stagedApart_iff (recased_finishListing h), fun hways hdots _ _ _ _ hΔ =>
    localPath_ne_of_branchOff (recased_finishListing h) hways hdots hΔ⟩

section Example

/-- A file at the root, of a lower-case name. -/
def namedFile (name : Str) : DropboxObject where
  tag := .file
  name := name
  pathDisplay := some ('/' :: name)
  pathLower := some ('/' :: name)
  dropboxId := none
  size := some 1
  contentHash := some "h".toList
  isDownloadable := true
  firstPage := 1
  lastPage := 1

theorem wellNamed_files {files : List Str} {hnd} (hfiles : ∀ n ∈ files, Proper '/' n) :
    WellNamed ⟨files.map namedFile, hnd⟩ := by
  have hpath : ∀ n ∈ files, DropboxPath ('/' :: n) := fun n hn =>
    ⟨[n], List.cons_ne_nil _ _, by simpa using hfiles n hn, by simp⟩
  refine ⟨?_, ?_, ?_⟩
  · rintro d hd -
    obtain ⟨n, hn, rfl⟩ := List.mem_map.1 hd
    exact ⟨_, rfl, hpath n hn⟩
  · rintro d hd -
    obtain ⟨n, hn, rfl⟩ := List.mem_map.1 hd
    exact hpath n hn
  · rintro d hd -
    obtain ⟨n, hn, rfl⟩ := List.mem_map.1 hd
    exact hfiles n hn

/-- Two files of plain names. -/
def plainPair : Listing := ⟨["a".toList, "b".toList].map namedFile, by decide⟩

/-- One name spelled with the composed letter and with the combining accent. -/
def accentPair : Listing := ⟨["\u00e9".toList, "e\u0301".toList].map namedFile, by decide⟩

theorem staging_apart_plain : StagedApart Unicode.latin (finishListing plainPair) := by
  refine (staging_apart_iff (wellNamed_files (by decide))).1.2 fun d hd d' hd' hne => ?_
  refine ⟨0, d.name, d'.name, ?_⟩
  have hcases : ∀ d ∈ listedFiles (finishListing plainPair), d = namedFile "a".toList ∨
      d = namedFile "b".toList := by decide
  rcases hcases d hd with rfl | rfl <;> rcases hcases d' hd' with rfl | rfl
  · exact absurd rfl hne
  · exact ⟨rfl, rfl, by decide⟩
  · exact ⟨rfl, rfl, by decide⟩
  · exact absurd rfl hne

/-- **Two files are staged at one path**: their names are one under NFC. -/
theorem staging_collides : WellNamed accentPair ∧
    (displayPaths Unicode.latin (finishListing accentPair)).get? "/\u00e9".toList =
      (displayPaths Unicode.latin (finishListing accentPair)).get? "/e\u0301".toList ∧
    ¬ StagedApart Unicode.latin (finishListing accentPair) := by
  refine ⟨wellNamed_files (by decide), by decide, fun h => ?_⟩
  obtain ⟨p, p', hp, hp', hne, -⟩ := h (namedFile "\u00e9".toList) (by decide)
    (namedFile "e\u0301".toList) (by decide) (by decide)
  have hsame : (displayPaths Unicode.latin (finishListing accentPair)).get? "/\u00e9".toList =
      (displayPaths Unicode.latin (finishListing accentPair)).get? "/e\u0301".toList := by decide
  exact hne (Option.some.inj (hp.symm.trans (hsame.trans hp')))

end Example

end DropboxMirror
