import DropboxMirror.Proof.Reconcile
import DropboxMirror.Proof.Recase
import DropboxMirror.Proof.Walk

/-!
# Reconcile trashes nothing it should know

A trashed folder takes everything below it. The folders above a known key are occupied
(`mem_occupied`), the folders above a listed folder are listed, and keys stand in for
segment lists (`key_of_matches`): so nothing trashed, and nothing below it, is where a
mirrored or listed file, or a listed folder, belongs (`reconcile_spares_known`).
-/

namespace DropboxMirror

open Text Crash

variable {U : Unicode} {T : Tree} {L : Listing} {snapshotId : ℕ} {w : ReconcileWorld}
  {occ known : List Str} {key a b : Str} {segments parts : List Str}

section Occupied

/-- A set of keys with everything above each of them. -/
def ClosedAbove (occ : List Str) : Prop := ∀ k ∈ occ, ∀ a b, k = a ++ '/' :: b → a ∈ occ

/-- Above a key is its parent, and what is above the parent. -/
theorem above_cases {parent last : Str} (hlast : '/' ∉ last)
    (h : parent ++ '/' :: last = a ++ '/' :: b) : a = parent ∨ ∃ b', parent = a ++ '/' :: b' := by
  rcases List.append_eq_append_iff.1 h with ⟨c, rfl, hc⟩ | ⟨c, rfl, hc⟩
  · cases c with
    | nil => exact Or.inl (List.append_nil _)
    | cons x c =>
      rw [List.cons_append] at hc
      obtain ⟨-, rfl⟩ := List.cons.inj hc
      exact absurd (List.mem_append_right _ List.mem_cons_self) hlast
  · cases c with
    | nil => exact Or.inl (List.append_nil _).symm
    | cons x c =>
      rw [List.cons_append] at hc
      obtain ⟨rfl, -⟩ := List.cons.inj hc
      exact Or.inr ⟨c, rfl⟩

/-- **The loop over one key** adds what is above it, and stops early only where the rest
is there already. -/
theorem occupy_spec (fuel : ℕ) : ∀ (occ : List Str) (key : Str), key.length ≤ fuel →
    (∀ k ∈ occ, k.length < key.length → ∀ a b, k = a ++ '/' :: b → a ∈ occ) →
    (∀ k ∈ occ, k ∈ occupy fuel occ key) ∧ (∀ a b, key = a ++ '/' :: b → a ∈ occupy fuel occ key) ∧
      ∀ k ∈ occupy fuel occ key, k ∈ occ ∨ ∃ b, key = k ++ '/' :: b := by
  induction fuel with
  | zero =>
    intro occ key hlen _
    obtain rfl := List.eq_nil_of_length_eq_zero (Nat.le_zero.1 hlen)
    exact ⟨fun k hk => hk, fun a b h => absurd h.symm (by simp), fun k hk => Or.inl hk⟩
  | succ fuel ih =>
    intro occ key hlen hshort
    rw [occupy]
    split
    · rename_i hmem
      obtain ⟨parent, last, rfl, hlast⟩ := exists_append_of_mem hmem
      have hparent : beforeLast '/' (parent ++ '/' :: last) = parent :=
        congrArg Prod.fst (rpartition_append hlast)
      rw [hparent]
      rw [List.length_append, List.length_cons] at hlen hshort
      dsimp only
      split
      · -- the parent is occupied, and shorter, so what is above it is there
        rename_i hocc
        refine ⟨fun k hk => hk, fun a b h => ?_, fun k hk => Or.inl hk⟩
        rcases above_cases hlast h with rfl | ⟨b', hb'⟩
        · exact hocc
        · exact hshort parent hocc (by omega) a b' hb'
      -- the parent is new: it is occupied now, and the walk goes on above it
      · obtain ⟨h1, h2, h3⟩ := ih (occ ++ [parent]) parent (by omega) fun k hk hklen a b h => by
          rcases List.mem_append.1 hk with hk | hk
          · exact List.mem_append_left _ (hshort k hk (by omega) a b h)
          · rw [List.mem_singleton.1 hk] at hklen
            exact absurd hklen (lt_irrefl _)
        refine ⟨fun k hk => h1 k (List.mem_append_left _ hk), fun a b h => ?_, fun k hk => ?_⟩
        · rcases above_cases hlast h with rfl | ⟨b', hb'⟩
          · exact h1 _ (List.mem_append_right _ List.mem_cons_self)
          · exact h2 a b' hb'
        · rcases h3 k hk with hk | ⟨b', hb'⟩
          · refine (List.mem_append.1 hk).imp_right fun hk => ⟨last, ?_⟩
            rw [List.mem_singleton.1 hk]
          · exact Or.inr ⟨b' ++ '/' :: last, by rw [hb']; simp⟩
    · rename_i hmem
      refine ⟨fun k hk => hk, fun a b h => ?_, fun k hk => Or.inl hk⟩
      exact absurd (h ▸ List.mem_append_right _ List.mem_cons_self) hmem

/-- **The occupied keys** are those of the folders above a known key, in whatever order the
keys are known. -/
theorem mem_occupied : a ∈ occupied known ↔ ∃ key ∈ known, ∃ b, key = a ++ '/' :: b := by
  have fold : ∀ (keys occ : List Str), ClosedAbove occ →
      ∀ a, a ∈ keys.foldl (fun occ key => occupy key.length occ key) occ ↔
        a ∈ occ ∨ ∃ key ∈ keys, ∃ b, key = a ++ '/' :: b := by
    intro keys
    induction keys with
    | nil => simp
    | cons x keys ih =>
      intro occ hclosed a
      obtain ⟨h1, h2, h3⟩ := occupy_spec x.length occ x le_rfl fun k hk _ => hclosed k hk
      have hclosed' : ClosedAbove (occupy x.length occ x) := by
        intro k hk a b hab
        rcases h3 k hk with hk | ⟨b', hb'⟩
        · exact h1 a (hclosed k hk a b hab)
        · exact h2 a (b ++ '/' :: b') (by rw [hb', hab]; simp)
      rw [List.foldl_cons, ih _ hclosed' a, List.exists_mem_cons_iff, ← or_assoc]
      refine or_congr_left ⟨fun ha => h3 a ha, fun ha => ?_⟩
      rcases ha with ha | ⟨b, hb⟩
      · exact h1 a ha
      · exact h2 a b hb
  have := fold known [] (fun k hk => absurd hk List.not_mem_nil) a
  rwa [or_iff_right List.not_mem_nil] at this

end Occupied

section Keys

/-- What `comparison_key` does to each component. -/
def foldPart (U : Unicode) : Str → Str := U.casefold ∘ U.nfc

theorem fold_parts (U : Unicode) : Componentwise '/' (foldPart U) := U.casefold_parts.comp U.nfc_parts

/-- The segments are those of the path, component by component under NFC and casefold. -/
def Matches (U : Unicode) (segments : List Str) (path : Str) : Prop :=
  segments.map (foldPart U) = (components path).map (foldPart U)

/-- The key of proper components, joined or each after a `'/'`. -/
theorem comparisonKey_join (hp : parts ≠ []) (hparts : ∀ s ∈ parts, Proper '/' s) :
    comparisonKey U (join '/' parts) = slashes '/' (parts.map (foldPart U)) := by
  obtain ⟨s, p, rfl⟩ := List.exists_cons_of_ne_nil hp
  rw [comparisonKey, (hparts s List.mem_cons_self).lstrip_join]
  exact (fold_parts U).map_slashes hp

theorem comparisonKey_slashes (hp : parts ≠ []) (hparts : ∀ s ∈ parts, Proper '/' s) :
    comparisonKey U (slashes '/' parts) = slashes '/' (parts.map (foldPart U)) := by
  rw [comparisonKey, lstrip_slashes hp hparts]
  exact (fold_parts U).map_slashes hp

/-- Segments that match a Dropbox path are components themselves. -/
theorem proper_of_matches (hparts : ∀ s ∈ parts, Proper '/' s)
    (h : segments.map (foldPart U) = parts.map (foldPart U)) : ∀ s ∈ segments, Proper '/' s := by
  intro s hs
  have hmem : foldPart U s ∈ parts.map (foldPart U) := h ▸ List.mem_map_of_mem hs
  obtain ⟨t, ht, hts⟩ := List.mem_map.1 hmem
  exact (fold_parts U).part_ok (hparts t ht) hts.symm

/-- **Keys stand in for segment lists.** -/
theorem key_of_matches {path : Str} (hpath : DropboxPath path) (h : Matches U segments path) :
    (∀ s ∈ segments, Proper '/' s) ∧ segments ≠ [] ∧
      comparisonKey U path = slashes '/' (segments.map (foldPart U)) := by
  obtain ⟨parts, hne, hparts, rfl⟩ := hpath
  rw [Matches, components_slashes hne hparts] at h
  refine ⟨proper_of_matches hparts h, ?_, by rw [comparisonKey_slashes hne hparts, h]⟩
  rintro rfl
  exact hne (List.map_eq_nil_iff.1 h.symm)

end Keys

section Taken

/-- The path of something reconcile should know: of a mirror row, as the table stood, or
of a downloadable listed file. -/
def KnownPath (L : Listing) (M : Mirror) (path : Str) : Prop :=
  (∃ m ∈ M, path = m.pathDisplay) ∨ ∃ d ∈ L, d.isFile = true ∧ path = pyStr d.pathDisplay

/-- The rows a run selects for trashing. -/
def Selected (U : Unicode) (L : Listing) (snapshotId : ℕ) (w : ReconcileWorld) (r : NodeRow) : Prop :=
  r ∈ straysOf U L snapshotId w ∨ r ∈ strayFoldersOf U L snapshotId w

/-- What the trash takes: the node of a selected row, and every node below it. -/
inductive Taken (T : Tree) (selected : NodeRow → Prop) (n : TreeNode) : Prop
  | itself {r : NodeRow} (hr : selected r) (h : r.uid = n.uid)
  | below {r : NodeRow} {f : TreeNode} (hr : selected r) (hf : f ∈ T.nodes) (h : r.uid = f.uid)
      (hn : T.Below f n)

/-- **What the phase owes what it knows**, whatever Proton answers and wherever it is
killed. -/
structure SparesKnown (U : Unicode) (T : Tree) (L : Listing) (snapshotId : ℕ) (w : ReconcileWorld) :
    Prop where
  calls : ∀ env, ∀ v ∈ (reconcileSnapshot U L env snapshotId w).states, ∀ call ∈ v.trashCalls,
    call ∉ w.trashCalls → ∀ path ∈ call, ∃ r, Selected U L snapshotId w r ∧ r.cliPath = path
  files : ∀ n ∈ T.nodes, Taken T (Selected U L snapshotId w) n →
    n.nodeType.map Char.toLower = "file".toList → ∀ segments, T.PathTo n.uid segments →
      ∀ path, KnownPath L w.mirror path → ¬ Matches U segments path
  folders : ∀ n ∈ T.nodes, Taken T (Selected U L snapshotId w) n →
    n.nodeType.map Char.toLower = "folder".toList → ∀ segments, T.PathTo n.uid segments →
      ∀ d ∈ L, d.tag = .folder → ¬ Matches U segments (pyStr d.pathDisplay)

theorem key_of_knownPath {path : Str} (h : KnownPath L w.mirror path) :
    comparisonKey U path ∈ knownKeys U L w.mirror := by
  rcases h with ⟨m, hm, rfl⟩ | ⟨d, hd, hfile, rfl⟩
  · exact List.mem_append_left _ (List.mem_map_of_mem hm)
  · exact List.mem_append_right _ (List.mem_map.2 ⟨d, mem_listedFiles.2 ⟨hd, hfile⟩, rfl⟩)

theorem mem_strayFoldersOf {r : NodeRow} (h : r ∈ strayFoldersOf U L snapshotId w) :
    r ∈ w.proton.nodesOf snapshotId ∧ r.isFolderNode = true ∧ r.comparisonKey ∉ folderKeys U L ∧
      r.comparisonKey ∉ occupied (knownKeys U L w.mirror) := by
  obtain ⟨hr, hkeys⟩ := List.mem_filter.1 (List.mem_filter.1 h).1
  obtain ⟨hr, hfolder⟩ := List.mem_filter.1 hr
  rw [Bool.and_eq_true, decide_eq_true_eq, decide_eq_true_eq] at hkeys
  exact ⟨hr, hfolder, hkeys.1, hkeys.2⟩

theorem mem_nodesOf_of_selected {r : NodeRow} (h : Selected U L snapshotId w r) :
    r ∈ w.proton.nodesOf snapshotId := by
  rcases h with h | h
  · exact (List.mem_filter.1 (mem_straysOf.1 h).1.mem).1
  · exact (mem_strayFoldersOf h).1

/-- What has something below it is a folder. -/
theorem Tree.Below.isFolder {f n : TreeNode} (hf : f ∈ T.nodes) (h : T.Below f n) : f.IsFolder := by
  induction h with
  | @child n hn hparent =>
    obtain ⟨before, after, hsplit⟩ := List.append_of_mem hn
    rcases T.rooted before n after hsplit with hroot | ⟨g, hg, hgn, hfolder⟩
    · exact absurd (hparent ▸ hroot) (Tree.uid_ne_root hf)
    · have hg' : g ∈ T.nodes := hsplit ▸ List.mem_append_left _ hg
      rwa [Tree.eq_of_uid hg' hf (hgn.trans hparent)] at hfolder
  | step _ _ _ ih => exact ih

/-- The path of what is taken starts with the segments of a selected row; the row is that
of the node, or that of a folder above it. -/
theorem Taken.path {n : TreeNode} (hsnap : SnapshotOf U T w.proton snapshotId) (hn : n ∈ T.nodes)
    (h : Taken T (Selected U L snapshotId w) n) (hp : T.PathTo n.uid segments) :
    ∃ r, Selected U L snapshotId w r ∧ r.segments ≠ [] ∧
      r.comparisonKey = comparisonKey U (join '/' r.segments) ∧ ∃ rest, segments = r.segments ++ rest ∧
        (rest = [] ∧ r.nodeType = n.nodeType ∨ rest ≠ [] ∧ r.nodeType = "folder".toList) := by
  have hrow : ∀ {r}, Selected U L snapshotId w r → ∀ m ∈ T.nodes, r.uid = m.uid →
      Records U T r m ∧ r.segments ≠ [] := by
    intro r hr m hm hu
    obtain ⟨m', hm', hrec⟩ := hsnap.records r (mem_nodesOf_of_selected hr)
    obtain rfl := Tree.eq_of_uid hm' hm (hrec.uid.symm.trans hu)
    refine ⟨hrec, fun hnil => ?_⟩
    have hpath := hrec.path
    rw [hnil] at hpath
    generalize hmu : m'.uid = u at hpath
    generalize hps : ([] : List Str) = ps at hpath
    cases hpath with
    | root => exact Tree.uid_ne_root hm hmu
    | child => simp at hps
  cases h with
  | @itself r hr hu =>
    obtain ⟨hrec, hne⟩ := hrow hr n hn hu
    exact ⟨r, hr, hne, by rw [hrec.comparisonKey, hrec.relativePath], [],
      by rw [List.append_nil, hp.unique hrec.path], Or.inl ⟨rfl, hrec.nodeType⟩⟩
  | @below r f hr hf hu hbelow =>
    obtain ⟨hrec, hne⟩ := hrow hr f hf hu
    obtain ⟨rest, hrest, hpath⟩ := hbelow.path hrec.path
    exact ⟨r, hr, hne, by rw [hrec.comparisonKey, hrec.relativePath], rest, hp.unique hpath,
      Or.inr ⟨hrest, hrec.nodeType.trans (hbelow.isFolder hf)⟩⟩

/-- A selected row with a folder's type is one of the second call. -/
theorem selected_folder {r : NodeRow} (h : Selected U L snapshotId w r)
    (htype : r.nodeType.map Char.toLower = "folder".toList) : r ∈ strayFoldersOf U L snapshotId w := by
  refine h.resolve_left fun hstray => ?_
  have := of_decide_eq_true (List.mem_filter.1 (mem_straysOf.1 hstray).1.mem).2
  rw [htype] at this
  exact absurd this (by decide)

/-- A selected row with a file's type is one of the first. -/
theorem selected_file {r : NodeRow} (h : Selected U L snapshotId w r)
    (htype : r.nodeType.map Char.toLower = "file".toList) : r ∈ straysOf U L snapshotId w := by
  refine h.resolve_right fun hfolder => ?_
  have := of_decide_eq_true (mem_strayFoldersOf hfolder).2.1
  rw [htype] at this
  exact absurd this (by decide)

/-- **No file that is known is taken.** -/
theorem spares_file {n : TreeNode} {path : Str} (hsnap : SnapshotOf U T w.proton snapshotId)
    (hn : n ∈ T.nodes) (htaken : Taken T (Selected U L snapshotId w) n)
    (htype : n.nodeType.map Char.toLower = "file".toList) (hp : T.PathTo n.uid segments)
    (hknown : KnownPath L w.mirror path) (hpath : DropboxPath path) : ¬ Matches U segments path := by
  intro hmatch
  obtain ⟨r, hr, hne, hkey, rest, rfl, hrest⟩ := htaken.path hsnap hn hp
  obtain ⟨hproper, -, hk⟩ := key_of_matches hpath hmatch
  have hmem := key_of_knownPath (U := U) hknown
  rw [comparisonKey_join hne fun s hs => hproper s (List.mem_append_left _ hs)] at hkey
  rw [hk, List.map_append, slashes_append] at hmem
  rcases hrest with ⟨rfl, hsame⟩ | ⟨hrest, hfolder⟩
  · refine (mem_straysOf.1 (selected_file hr (hsame ▸ htype))).2 ?_
    rw [hkey]
    rwa [List.map_nil, slashes_nil, List.append_nil] at hmem
  · -- the row's folder is above the known key
    refine (mem_strayFoldersOf (selected_folder hr (by rw [hfolder]; decide))).2.2.2 ?_
    rw [hkey]
    rw [slashes_eq (p := rest.map (foldPart U)) (by simpa using hrest)] at hmem
    exact mem_occupied.2 ⟨_, hmem, _, rfl⟩

/-- **No folder that is listed is taken.** -/
theorem spares_folder {L₁ : Listing} {n : TreeNode} (hsnap : SnapshotOf U T w.proton snapshotId)
    (hnamed : WellNamed L₁) (hclosed : FoldersClosed L₁) (hn : n ∈ T.nodes)
    (htaken : Taken T (Selected U (recaseDisplayPaths L₁) snapshotId w) n)
    (htype : n.nodeType.map Char.toLower = "folder".toList) (hp : T.PathTo n.uid segments)
    {d : DropboxObject} (hd : d ∈ recaseDisplayPaths L₁) (htag : d.tag = .folder) :
    ¬ Matches U segments (pyStr d.pathDisplay) := by
  intro hmatch
  obtain ⟨r, hr, hne, hkey, rest, rfl, hrest⟩ := htaken.path hsnap hn hp
  have hr' : r ∈ strayFoldersOf U (recaseDisplayPaths L₁) snapshotId w := by
    refine selected_folder hr ?_
    rcases hrest with ⟨-, hsame⟩ | ⟨-, hfolder⟩
    · rw [hsame]
      exact htype
    · rw [hfolder]
      decide
  refine (mem_strayFoldersOf hr').2.2.1 ?_
  obtain ⟨d₀, hd₀, rfl⟩ := mem_recaseDisplayPaths.1 hd
  replace hmatch : Matches U (r.segments ++ rest) (recasedDisplay (folderNames L₁) d₀) := hmatch
  obtain ⟨parts, hpne, hparts, hdisp⟩ := recased_dropboxPath hnamed hd₀ (Or.inr htag)
  rw [hdisp, Matches, components_slashes hpne hparts, List.map_append] at hmatch
  -- the display path splits where the segments do
  obtain ⟨front, back, rfl, hfront, -⟩ := List.map_eq_append_iff.1 hmatch.symm
  have hfne : front ≠ [] := by
    rintro rfl
    exact hne (List.map_eq_nil_iff.1 hfront.symm)
  obtain ⟨f, hf, hftag, hfdisp⟩ := exists_folder_above hnamed hclosed hd₀ htag hfne hparts hdisp
  have hfparts : ∀ s ∈ front, Proper '/' s := fun s hs => hparts s (List.mem_append_left _ hs)
  rw [hkey, comparisonKey_join hne (proper_of_matches hfparts hfront.symm), ← hfront,
    ← comparisonKey_slashes hfne hfparts, ← hfdisp]
  exact List.mem_map.2 ⟨_, List.mem_filter.2
    ⟨mem_recaseDisplayPaths.2 ⟨f, hf, rfl⟩, decide_eq_true hftag⟩, rfl⟩

/-- The calls of a run, in each state it may be killed in. -/
theorem selected_of_call {env : ReconcileEnv} {v : ReconcileWorld}
    (hv : v ∈ (reconcileSnapshot U L env snapshotId w).states) {call : List Str}
    (hcall : call ∈ v.trashCalls) (hnew : call ∉ w.trashCalls) :
    ∀ path ∈ call, ∃ r, Selected U L snapshotId w r ∧ r.cliPath = path := by
  have hreach := (reconcile_triple U L env snapshotId w).killed rfl hv
  have hcases : call = sortedPaths (straysOf U L snapshotId w) ∨
      call = sortedPaths (strayFoldersOf U L snapshotId w) := by
    clear hv
    induction hreach with
    | refl => exact absurd hcall hnew
    | tail _ hlink ih => exact (hlink.calls call hcall).elim ih id
  intro path hpath
  rcases hcases with rfl | rfl
  · obtain ⟨r, hr, he⟩ := mem_sortedPaths.1 hpath
    exact ⟨r, Or.inl hr, he⟩
  · obtain ⟨r, hr, he⟩ := mem_sortedPaths.1 hpath
    exact ⟨r, Or.inr hr, he⟩

/-- **Reconcile trashes nothing it should know**, for every tree, every mirror and every
listing. -/
theorem reconcile_spares_known {L₁ : Listing} (hsnap : SnapshotOf U T w.proton snapshotId)
    (hmirror : ∀ m ∈ w.mirror, DropboxPath m.pathDisplay) (hnamed : WellNamed L₁)
    (hclosed : FoldersClosed L₁) : SparesKnown U T (recaseDisplayPaths L₁) snapshotId w where
  calls := fun _ _ hv _ hcall hnew => selected_of_call hv hcall hnew
  files := by
    intro n hn htaken htype segments hp path hknown
    refine spares_file hsnap hn htaken htype hp hknown ?_
    rcases hknown with ⟨m, hm, rfl⟩ | ⟨d, hd, hfile, rfl⟩
    · exact hmirror m hm
    · obtain ⟨d₀, hd₀, rfl⟩ := mem_recaseDisplayPaths.1 hd
      rw [DropboxObject.isFile, Bool.and_eq_true, decide_eq_true_eq] at hfile
      exact recased_dropboxPath hnamed hd₀ (Or.inl hfile.1)
  folders := fun _ hn htaken htype _ hp _ hd htag =>
    spares_folder hsnap hnamed hclosed hn htaken htype hp hd htag

/-- A listing of one folder. -/
def folderListing : Listing :=
  ⟨[⟨.folder, "A".toList, some "/A".toList, some "/a".toList, none, none, none, true, 1, 1⟩],
    List.nodup_singleton _⟩

/-- The snapshot of the tree, and a mirror with one row that no node has. -/
def resumedWorld : ReconcileWorld :=
  ⟨⟨some 0, some 0, false⟩, ⟨[rootRow "/c" 1], List.nodup_singleton _⟩, resumedDb, []⟩

/-- The file in the folder is trashed, and the folder, which Dropbox has, is not. -/
theorem reconcile_spares_known_folder :
    (straysOf Unicode.latin (recaseDisplayPaths folderListing) 1 resumedWorld).map NodeRow.uid =
        ["2".toList] ∧
      SparesKnown Unicode.latin photosTree (recaseDisplayPaths folderListing) 1 resumedWorld := by
  have hpath : ∀ s, Proper '/' s → DropboxPath ('/' :: s) := fun s hs =>
    ⟨[s], List.cons_ne_nil _ _, fun x hx => List.mem_singleton.1 hx ▸ hs, by simp⟩
  refine ⟨by decide, reconcile_spares_known snapshotOf_resumed (fun m hm => ?_)
    ⟨fun d hd _ => ?_, fun d hd _ => ?_, fun d hd _ => ?_⟩ fun d hd _ parent rest hne hp => ?_⟩
  · rw [List.mem_singleton.1 hm]
    exact hpath "c".toList ⟨by decide, by decide⟩
  · rw [List.mem_singleton.1 hd]
    exact ⟨_, rfl, hpath "a".toList ⟨by decide, by decide⟩⟩
  · rw [List.mem_singleton.1 hd]
    exact hpath "A".toList ⟨by decide, by decide⟩
  · rw [List.mem_singleton.1 hd]
    exact ⟨by decide, by decide⟩
  · -- nothing is above the folder
    rw [List.mem_singleton.1 hd] at hp
    obtain ⟨x, parent, rfl⟩ := List.exists_cons_of_ne_nil hne
    have hmem : '/' ∈ "/a".toList.tail := by
      rw [Option.some.inj hp]
      exact List.mem_append_right parent List.mem_cons_self
    exact absurd hmem (by decide)

end Taken

end DropboxMirror
