import DropboxMirror.Proof.Strays

/-!
# The stray folders reconcile selects are the topmost ones

A folder node is stray when its key is neither a listed folder's nor above a known key;
the code tests the second with a set of occupied keys that it fills with an early exit
(`mem_occupied`). Of the stray folders it keeps those whose folder is not stray, and by
induction on the depth every stray folder is below one of them (`exists_topmost`).

That no kept folder is below another needs more than the links between the nodes: a
folder between the two is not stray, so it is listed or holds something known, and then
the folders above it are as well, provided that keys follow the folders and that a folder
above a listed one is listed (`topmost_apart`). A walk gives the first
(`SnapshotOf.keysNest`), Dropbox the second.
-/

namespace DropboxMirror

open Text

variable {U : Unicode} {nodes : List NodeRow} {L : Listing} {known : List Str} {m n p s t : NodeRow}

section Forest

/-- The folder nodes of a snapshot. -/
def folderNodes (nodes : List NodeRow) : List NodeRow := nodes.filter (·.isFolderNode)

/-- **The folder nodes form a forest under the destination**: each has a UID of its own, and
is in the destination or in a folder node that is nearer to it. -/
structure FolderForest (nodes : List NodeRow) : Prop where
  nodup : (rootUid :: (folderNodes nodes).map NodeRow.uid).Nodup
  rooted : ∃ depth : Str → ℕ, ∀ n ∈ folderNodes nodes, n.parentUid = rootUid ∨
    ∃ p ∈ folderNodes nodes, p.uid = n.parentUid ∧ depth p.uid < depth n.uid

/-- The folder node `n` is in the folder `p`. -/
def InFolder (nodes : List NodeRow) (p n : NodeRow) : Prop :=
  p ∈ folderNodes nodes ∧ n ∈ folderNodes nodes ∧ p.uid = n.parentUid

/-- The folder node is in the folder or in one below it. -/
def FolderBelow (nodes : List NodeRow) : NodeRow → NodeRow → Prop :=
  Relation.TransGen (InFolder nodes)

/-- The key of a folder starts with that of the folder it is in. -/
def KeysNest (nodes : List NodeRow) : Prop :=
  ∀ p n, InFolder nodes p n → ∃ rest, n.comparisonKey = p.comparisonKey ++ '/' :: rest

/-- The key is above a known one. -/
def Occupied (known : List Str) (key : Str) : Prop := ∃ k ∈ known, ∃ rest, k = key ++ '/' :: rest

/-- What is above a listed folder is listed, or holds something known. -/
def ListedAbove (U : Unicode) (L : Listing) (known : List Str) : Prop :=
  ∀ key ∈ folderKeys U L, ∀ above rest, key = above ++ '/' :: rest →
    above ∈ folderKeys U L ∨ Occupied known above

/-- A stray folder: Dropbox does not have it, and it holds nothing known. -/
structure StrayFolder (U : Unicode) (nodes : List NodeRow) (L : Listing) (known : List Str)
    (n : NodeRow) : Prop where
  mem : n ∈ folderNodes nodes
  unlisted : n.comparisonKey ∉ folderKeys U L
  empty : ¬ Occupied known n.comparisonKey

/-- A stray folder in a folder that is not stray. -/
structure TopmostStray (U : Unicode) (nodes : List NodeRow) (L : Listing) (known : List Str)
    (n : NodeRow) : Prop where
  stray : StrayFolder U nodes L known n
  parent : ∀ p, StrayFolder U nodes L known p → p.uid ≠ n.parentUid

end Forest

section Selected

theorem mem_emptyFolders : n ∈ emptyFolders U nodes L known ↔ StrayFolder U nodes L known n := by
  rw [emptyFolders, List.mem_filter, Bool.and_eq_true, decide_eq_true_eq, decide_eq_true_eq,
    mem_occupied]
  exact ⟨fun ⟨hmem, hlist, hocc⟩ => ⟨hmem, hlist, hocc⟩, fun h => ⟨h.mem, h.unlisted, h.empty⟩⟩

/-- **What the code selects** are the topmost stray folders. -/
theorem mem_strayFolders : n ∈ strayFolders U nodes L known ↔ TopmostStray U nodes L known n := by
  rw [strayFolders, List.mem_filter, decide_eq_true_eq, mem_emptyFolders]
  refine ⟨fun ⟨hstray, hparent⟩ => ⟨hstray, fun p hp he => hparent ?_⟩, fun h => ⟨h.stray, ?_⟩⟩
  · rw [← he]
    exact List.mem_map_of_mem (mem_emptyFolders.2 hp)
  · intro hmem
    obtain ⟨p, hp, he⟩ := List.mem_map.1 hmem
    exact h.parent p (mem_emptyFolders.1 hp) he

theorem FolderForest.nodup_strayFolders (h : FolderForest nodes) :
    (strayFolders U nodes L known).Nodup :=
  ((List.Nodup.of_map _ (List.nodup_cons.1 h.nodup).2).filter _).filter _

/-- **Every stray folder is selected, or below one that is.** -/
theorem FolderForest.exists_topmost (h : FolderForest nodes) (hn : StrayFolder U nodes L known n) :
    ∃ t, TopmostStray U nodes L known t ∧ (t = n ∨ FolderBelow nodes t n) := by
  obtain ⟨depth, hdepth⟩ := h.rooted
  -- on the depth of the folder: one that is not selected is in a stray folder, nearer to the top
  induction hd : depth n.uid using Nat.strong_induction_on generalizing n with
  | _ d ih =>
    by_cases htop : ∃ p, StrayFolder U nodes L known p ∧ p.uid = n.parentUid
    · obtain ⟨p, hp, hpn⟩ := htop
      have hlt : depth p.uid < d := by
        rcases hdepth n hn.mem with hroot | ⟨q, -, hqn, hlt⟩
        · have hmem : rootUid ∈ (folderNodes nodes).map NodeRow.uid := by
            rw [← hroot, ← hpn]
            exact List.mem_map_of_mem hp.mem
          exact absurd hmem (List.nodup_cons.1 h.nodup).1
        · rw [hpn, ← hqn]
          omega
      have hin : InFolder nodes p n := ⟨hp.mem, hn.mem, hpn⟩
      obtain ⟨t, ht, htp⟩ := ih _ hlt hp rfl
      refine ⟨t, ht, Or.inr ?_⟩
      rcases htp with rfl | htp
      · exact Relation.TransGen.single hin
      · exact htp.tail hin
    · push Not at htop
      exact ⟨n, ⟨hn, htop⟩, Or.inl rfl⟩

/-- Where keys follow the folders, the key of a folder is above those of the folders below. -/
theorem KeysNest.below (h : KeysNest nodes) (hb : FolderBelow nodes s t) :
    ∃ rest, t.comparisonKey = s.comparisonKey ++ '/' :: rest := by
  induction hb with
  | single hin => exact h _ _ hin
  | @tail p n _ hin ih =>
    obtain ⟨rest, hrest⟩ := ih
    obtain ⟨rest', hrest'⟩ := h _ _ hin
    exact ⟨rest ++ '/' :: rest', by rw [hrest', hrest]; simp⟩

/-- Nothing stray has a folder below it that is not stray. -/
theorem StrayFolder.below (hnest : KeysNest nodes) (habove : ListedAbove U L known)
    (hs : StrayFolder U nodes L known s) (hb : FolderBelow nodes s t) (ht : t ∈ folderNodes nodes) :
    StrayFolder U nodes L known t := by
  obtain ⟨rest, hrest⟩ := hnest.below hb
  refine ⟨ht, fun hlisted => ?_, fun hocc => ?_⟩
  · rcases habove _ hlisted _ _ hrest with h | h
    · exact hs.unlisted h
    · exact hs.empty h
  · obtain ⟨k, hk, rest', rfl⟩ := hocc
    exact hs.empty ⟨_, hk, rest ++ '/' :: rest', by rw [hrest]; simp⟩

/-- **No selected folder is below another**, where keys follow the folders and what is above
a listed folder is listed. -/
theorem topmost_apart (hnest : KeysNest nodes) (habove : ListedAbove U L known)
    (hs : TopmostStray U nodes L known s) (ht : TopmostStray U nodes L known t) :
    ¬ FolderBelow nodes s t := by
  intro hb
  cases hb with
  | single hin => exact ht.parent s hs.stray hin.2.2
  | @tail p _ hb hin => exact ht.parent p (hs.stray.below hnest habove hb hin.1) hin.2.2

/-- **What `_stray_folders` returns.** -/
structure TopmostOnly (U : Unicode) (nodes : List NodeRow) (L : Listing) (known : List Str) : Prop where
  returned : ∃ tops : List NodeRow, tops.Nodup ∧ (∀ n, n ∈ tops ↔ TopmostStray U nodes L known n) ∧
    (sortedPaths (strayFolders U nodes L known)).Perm (tops.map NodeRow.cliPath)
  sorted : (sortedPaths (strayFolders U nodes L known)).Pairwise (· ≤ ·)
  covered : ∀ n, StrayFolder U nodes L known n →
    ∃ t, TopmostStray U nodes L known t ∧ (t = n ∨ FolderBelow nodes t n)
  apart : KeysNest nodes → ListedAbove U L known → ∀ s t, TopmostStray U nodes L known s →
    TopmostStray U nodes L known t → ¬ FolderBelow nodes s t

/-- **Stray folder selection is exactly the topmost stray folders**, whatever is listed and
known, in whatever order. -/
theorem stray_folders_topmost (U : Unicode) (nodes : List NodeRow) (L : Listing) (known : List Str)
    (hforest : FolderForest nodes) : TopmostOnly U nodes L known where
  returned := ⟨_, hforest.nodup_strayFolders, fun _ => mem_strayFolders, List.perm_insertionSort _ _⟩
  sorted := List.pairwise_insertionSort _ _
  covered := fun _ hn => hforest.exists_topmost hn
  apart := fun hnest habove _ _ => topmost_apart hnest habove

end Selected

/-- A folder of Proton in another one. -/
def folderRow (uid parent : String) (segments : List String) : NodeRow :=
  let segments := segments.map String.toList
  ⟨1, uid.toList, parent.toList, segments, join '/' segments, join '/' segments,
    comparisonKey Unicode.latin (join '/' segments), segments.getLastD [], "folder".toList, none, none⟩

/-- Three folders, one in the other; Dropbox lists the second and not the first. -/
def chainRows : List NodeRow :=
  [folderRow "1" "__ROOT__" ["a"], folderRow "2" "1" ["a", "b"], folderRow "3" "2" ["a", "b", "c"]]

/-- A listing of one folder without the one above it. -/
def innerFolder : Listing :=
  ⟨[⟨.folder, "b".toList, some "/a/b".toList, some "/a/b".toList, none, none, none, true, 1, 1⟩],
    List.nodup_singleton _⟩

/-- A folder whose name is a slash, with two below it; a file is known next to the second. -/
def slashRows : List NodeRow :=
  [folderRow "1" "__ROOT__" ["/"], folderRow "2" "1" ["/", "x"], folderRow "3" "2" ["/", "x", "y"]]

theorem forest_chainRows : FolderForest chainRows :=
  ⟨by decide, fun u => ["1".toList, "2".toList, "3".toList].idxOf u, by decide⟩

theorem forest_slashRows : FolderForest slashRows :=
  ⟨by decide, fun u => ["1".toList, "2".toList, "3".toList].idxOf u, by decide⟩

/-- The third of three folders, one in the other, is below the first. -/
theorem folderBelow_of_chain {a b c : NodeRow} (hb : InFolder nodes a b) (hc : InFolder nodes b c) :
    FolderBelow nodes a c :=
  (Relation.TransGen.single hb).tail hc

/-- A selected folder may be below another: where a listed folder is between the two, and
where the key of a name of slashes is not above those of its subfolders. -/
theorem topmost_not_apart :
    (FolderForest chainRows ∧ FolderBelow chainRows (folderRow "1" "__ROOT__" ["a"])
        (folderRow "3" "2" ["a", "b", "c"]) ∧
      sortedPaths (strayFolders Unicode.latin chainRows innerFolder []) =
        ["a".toList, "a/b/c".toList]) ∧
      FolderForest slashRows ∧ FolderBelow slashRows (folderRow "1" "__ROOT__" ["/"])
        (folderRow "3" "2" ["/", "x", "y"]) ∧
      sortedPaths (strayFolders Unicode.latin slashRows Table.empty ["/x/z".toList]) =
        ["/".toList, "//x/y".toList] := by
  refine ⟨⟨forest_chainRows, ?_, by decide⟩, forest_slashRows, ?_, by decide⟩
  · exact folderBelow_of_chain (b := folderRow "2" "1" ["a", "b"]) ⟨by decide, by decide, rfl⟩
      ⟨by decide, by decide, rfl⟩
  · exact folderBelow_of_chain (b := folderRow "2" "1" ["/", "x"]) ⟨by decide, by decide, rfl⟩
      ⟨by decide, by decide, rfl⟩

/-- Without anything listed or known the topmost of the three folders is selected, alone. -/
theorem stray_folders_topmost_chain :
    TopmostOnly Unicode.latin chainRows Table.empty [] ∧
      sortedPaths (strayFolders Unicode.latin chainRows Table.empty []) = ["a".toList] :=
  ⟨stray_folders_topmost _ _ _ _ forest_chainRows, by decide⟩

section Walked

variable {T : Tree} {db : ProtonDb} {snapshotId : ℕ}

/-- The row of a node. -/
theorem SnapshotOf.exists_row (h : SnapshotOf U T db snapshotId) {f : TreeNode} (hf : f ∈ T.nodes) :
    ∃ r ∈ db.nodesOf snapshotId, Records U T r f := by
  obtain ⟨r, hr, hu⟩ := List.mem_map.1 (h.rows.mem_iff.2 (List.mem_map_of_mem hf))
  obtain ⟨f', hf', hrec⟩ := h.records r hr
  obtain rfl := Tree.eq_of_uid hf' hf (hrec.uid.symm.trans hu)
  exact ⟨r, hr, hrec⟩

/-- The rows of a walked tree are a forest. -/
theorem SnapshotOf.forest (h : SnapshotOf U T db snapshotId) :
    FolderForest (db.nodesOf snapshotId) where
  nodup := by
    have hall : (rootUid :: (db.nodesOf snapshotId).map NodeRow.uid).Nodup :=
      ((h.rows.cons rootUid).nodup_iff).2 T.nodup
    exact hall.sublist ((List.filter_sublist.map _).cons_cons _)
  rooted := by
    -- a folder comes before what is in it
    refine ⟨fun u => (T.nodes.map TreeNode.uid).idxOf u, fun n hn => ?_⟩
    obtain ⟨n', hn', hrec⟩ := h.records n (List.mem_filter.1 hn).1
    obtain ⟨before, after, hsplit⟩ := List.append_of_mem hn'
    rw [hrec.parentUid, hrec.uid]
    refine (T.rooted before n' after hsplit).imp_right ?_
    rintro ⟨f, hf, hfn, hfolder⟩
    obtain ⟨r, hr, hrecf⟩ := h.exists_row (hsplit ▸ List.mem_append_left _ hf)
    have hrf : r ∈ folderNodes (db.nodesOf snapshotId) := by
      refine List.mem_filter.2 ⟨hr, ?_⟩
      rw [NodeRow.isFolderNode, hrecf.nodeType, hfolder]
      decide
    refine ⟨r, hrf, hrecf.uid.trans hfn, ?_⟩
    have hnodup := (List.nodup_cons.1 T.nodup).2
    rw [hsplit, List.map_append, List.map_cons] at hnodup ⊢
    have hnot : n'.uid ∉ before.map TreeNode.uid := fun hmem =>
      (List.nodup_append.1 hnodup).2.2 _ hmem _ List.mem_cons_self rfl
    have hmem : f.uid ∈ before.map TreeNode.uid := List.mem_map_of_mem hf
    have := List.idxOf_lt_length_of_mem hmem
    dsimp only
    rw [hrecf.uid, List.idxOf_append_of_mem hmem, List.idxOf_append_of_notMem hnot]
    omega

/-- The keys of a walked tree follow its folders, but below a folder whose name is nothing
but slashes. -/
theorem SnapshotOf.keysNest (h : SnapshotOf U T db snapshotId)
    (hnames : ∀ f ∈ T.nodes, ∃ x ∈ f.name, x ≠ '/') : KeysNest (db.nodesOf snapshotId) := by
  rintro p n ⟨hp, hn, hpn⟩
  obtain ⟨p', hp', hrecp⟩ := h.records p (List.mem_filter.1 hp).1
  obtain ⟨n', hn', hrecn⟩ := h.records n (List.mem_filter.1 hn).1
  have hsegments : n.segments = p.segments ++ [n'.name] := by
    refine hrecn.path.unique (Tree.PathTo.child hn' ?_)
    rw [← hrecn.parentUid, ← hpn, hrecp.uid]
    exact hrecp.path
  -- the folder's own name is a part of its path that `lstrip` stops in
  obtain ⟨q, hq⟩ : ∃ q, p.segments = q ++ [p'.name] := by
    have hpath := hrecp.path
    generalize hu : p'.uid = u at hpath
    generalize p.segments = segments at hpath ⊢
    cases hpath with
    | root => exact absurd hu (Tree.uid_ne_root hp')
    | @child m q hm _ =>
      rw [Tree.eq_of_uid hp' hm hu]
      exact ⟨q, rfl⟩
  have hne : p.segments ≠ [] := by simp [hq]
  have hstop : ∃ x ∈ join '/' p.segments, x ≠ '/' := by
    obtain ⟨x, hx, hxs⟩ := hnames p' hp'
    refine ⟨x, ?_, hxs⟩
    rw [hq]
    rcases eq_or_ne q [] with rfl | hqne
    · simpa using hx
    · rw [join_concat hqne]
      simp [hx]
  refine ⟨foldPart U n'.name, ?_⟩
  rw [hrecn.comparisonKey, hrecp.comparisonKey, hrecn.relativePath, hrecp.relativePath, hsegments,
    join_concat hne, comparisonKey, comparisonKey, lstrip_append hstop, U.nfc_parts.sep,
    U.casefold_parts.sep]
  rfl

end Walked

end DropboxMirror
