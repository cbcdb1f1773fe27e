import DropboxMirror.Lib.Fallible
import DropboxMirror.Proof.Tree

/-!
# One snapshot as the walk grows it

The abstract walk: a snapshot is a map from UIDs to folder states, a map from UIDs to
node rows, and the set of folders whose listing was committed. A commit of a folder's
true children keeps it `Sound` (`Sound.grow`), and a sound snapshot without a waiting
folder is complete. The tables refine it: `ProtonDb.view` is the snapshot of an id, and
`_commit_listing` is a commit (`commitListing_grown`).
-/

namespace DropboxMirror

open Text

variable {U : Unicode} {T : Tree} {destination : Str} {snapshotId other : ℕ} {uid u : Str}
  {queued : List Str} {db db' : ProtonDb}

/-- A snapshot: the segments and the status of each folder row, and each node row. -/
@[ext] structure SnapshotView where
  folder : Str → Option (List Str × FolderStatus)
  node : Str → Option NodeRow
  committed : Str → Prop

variable {v v' : SnapshotView}

/-- The folder's listing was committed. -/
def SnapshotView.Listed (v : SnapshotView) (uid : Str) : Prop := ∃ p, v.folder uid = some (p, .complete)

/-- The folder waits for its listing. -/
def SnapshotView.Waiting (v : SnapshotView) (uid : Str) : Prop := ∃ p, v.folder uid = some (p, .pending)

/-- **What a snapshot keeps**: its folders have their true paths, exactly the children of
the listed folders have rows, and exactly the listed folders were committed. -/
structure Sound (U : Unicode) (T : Tree) (v : SnapshotView) : Prop where
  root : (v.folder rootUid).isSome
  path : ∀ u p s, v.folder u = some (p, s) → T.PathTo u p
  node : ∀ u r, v.node u = some r → ∃ n ∈ T.nodes, n.uid = u ∧ Records U T r n ∧ v.Listed n.parent
  listed : ∀ n ∈ T.nodes, v.Listed n.parent → (v.node n.uid).isSome
  queued : ∀ n ∈ T.nodes, (v.folder n.uid).isSome ↔ n.IsFolder ∧ v.Listed n.parent
  committed : ∀ u, v.committed u ↔ v.Listed u

/-- **What one commit does**: the folder becomes `COMPLETE`, its children get their rows,
and those that are folders wait. -/
structure Grown (U : Unicode) (T : Tree) (uid : Str) (queued : List Str) (v v' : SnapshotView) :
    Prop where
  here : ∀ p s, v.folder uid = some (p, s) → v'.folder uid = some (p, .complete)
  mem_queued : ∀ u, u ∈ queued ↔ ∃ n ∈ T.children uid, n.IsFolder ∧ n.uid = u
  nodup : queued.Nodup
  child : ∀ u ∈ queued, ∃ p, v'.folder u = some (p, .pending) ∧ T.PathTo u p
  otherFolder : ∀ u, u ≠ uid → u ∉ queued → v'.folder u = v.folder u
  node : ∀ n ∈ T.children uid, ∃ r, v'.node n.uid = some r ∧ Records U T r n
  otherNode : ∀ u, (∀ n ∈ T.children uid, n.uid ≠ u) → v'.node u = v.node u
  committed : ∀ u, v'.committed u ↔ v.committed u ∨ u = uid

/-- Every folder listed: the rows are the tree's. -/
theorem Sound.complete (h : Sound U T v) (hall : ∀ u p s, v.folder u = some (p, s) → s = .complete) :
    ∀ n ∈ T.nodes, v.Listed n.parent := by
  have hlisted : ∀ u, (v.folder u).isSome → v.Listed u := by
    intro u hu
    obtain ⟨⟨p, s⟩, hps⟩ := Option.isSome_iff_exists.1 hu
    rw [hall u p s hps] at hps
    exact ⟨p, hps⟩
  refine Tree.induction fun n hn hparent => ?_
  rcases hparent with hroot | ⟨f, hf, hfn, hfolder, hlist⟩
  · rw [hroot]
    exact hlisted _ h.root
  · rw [← hfn]
    exact hlisted _ ((h.queued f hf).2 ⟨hfolder, hlist⟩)

/-- A folder is not among its own children. -/
theorem Sound.not_mem_queued (h : Sound U T v) (hw : v.Waiting uid)
    (hq : ∀ u, u ∈ queued ↔ ∃ n ∈ T.children uid, n.IsFolder ∧ n.uid = u) :
    ∀ u ∈ queued, v.folder u = none := by
  intro u hu
  obtain ⟨n, hn, -, rfl⟩ := (hq u).1 hu
  obtain ⟨hn, hparent⟩ := Tree.mem_children.1 hn
  by_contra hsome
  obtain ⟨p, hp⟩ := ((h.queued n hn).1 (Option.isSome_iff_ne_none.2 hsome)).2
  obtain ⟨q, hq⟩ := hw
  rw [hparent, hq] at hp
  cases hp

/-- What is listed after a commit. -/
theorem Grown.listed_iff (hg : Grown U T uid queued v v') (h : Sound U T v) (hw : v.Waiting uid) :
    v'.Listed u ↔ v.Listed u ∨ u = uid := by
  have hnew := h.not_mem_queued hw hg.mem_queued
  by_cases hu : u = uid
  · subst hu
    obtain ⟨p, hp⟩ := hw
    exact ⟨fun _ => Or.inr rfl, fun _ => ⟨p, hg.here p _ hp⟩⟩
  by_cases hq : u ∈ queued
  · obtain ⟨p, hp, -⟩ := hg.child u hq
    constructor
    · rintro ⟨q, hq'⟩
      rw [hp] at hq'
      cases hq'
    · rintro (⟨q, hq'⟩ | rfl)
      · rw [hnew u hq] at hq'
        cases hq'
      · exact absurd rfl hu
  · rw [SnapshotView.Listed, SnapshotView.Listed, hg.otherFolder u hu hq]
    exact ⟨Or.inl, fun h => h.resolve_right hu⟩

/-- What waits after a commit. -/
theorem Grown.waiting_iff (hg : Grown U T uid queued v v') (h : Sound U T v) (hw : v.Waiting uid) :
    v'.Waiting u ↔ v.Waiting u ∧ u ≠ uid ∨ u ∈ queued := by
  have hnew := h.not_mem_queued hw hg.mem_queued
  by_cases hq : u ∈ queued
  · obtain ⟨p, hp, -⟩ := hg.child u hq
    exact ⟨fun _ => Or.inr hq, fun _ => ⟨p, hp⟩⟩
  by_cases hu : u = uid
  · subst hu
    obtain ⟨p, hp⟩ := hw
    constructor
    · rintro ⟨q, hq'⟩
      rw [hg.here p _ hp] at hq'
      cases hq'
    · rintro (⟨-, hne⟩ | h)
      · exact absurd rfl hne
      · exact absurd h hq
  · rw [SnapshotView.Waiting, SnapshotView.Waiting, hg.otherFolder u hu hq]
    exact ⟨fun h => Or.inl ⟨h, hu⟩, fun h => (h.resolve_right hq).1⟩

/-- **A commit keeps a snapshot sound.** -/
theorem Sound.grow (h : Sound U T v) (hw : v.Waiting uid) (hg : Grown U T uid queued v v') :
    Sound U T v' := by
  have hlisted : ∀ {u}, v'.Listed u ↔ v.Listed u ∨ u = uid := hg.listed_iff h hw
  obtain ⟨pw, hpw⟩ := hw
  have hfolder : ∀ u, u ∉ queued → (v'.folder u).isSome = (v.folder u).isSome := by
    intro u hq
    by_cases hu : u = uid
    · rw [hu, hg.here pw _ hpw, hpw]
      rfl
    · rw [hg.otherFolder u hu hq]
  refine ⟨?_, ?_, ?_, ?_, ?_, ?_⟩
  · -- the root is no subfolder of anything
    rw [hfolder]
    · exact h.root
    · intro hq
      obtain ⟨n, hn, -, hroot⟩ := (hg.mem_queued _).1 hq
      exact Tree.uid_ne_root (Tree.mem_children.1 hn).1 hroot
  · -- a folder is new, or the one listed, or as before
    intro u p s hps
    by_cases hq : u ∈ queued
    · obtain ⟨q, hq', hpath⟩ := hg.child u hq
      rw [hps] at hq'
      cases hq'
      exact hpath
    by_cases hu : u = uid
    · subst hu
      rw [hg.here pw _ hpw] at hps
      cases hps
      exact h.path _ _ _ hpw
    · rw [hg.otherFolder u hu hq] at hps
      exact h.path u p s hps
  · -- a node row is a child's, whose parent is listed now, or as before
    intro u r hr
    by_cases hc : ∃ n ∈ T.children uid, n.uid = u
    · obtain ⟨n, hn, rfl⟩ := hc
      obtain ⟨r', hr', hrec⟩ := hg.node n hn
      rw [hr] at hr'
      cases hr'
      obtain ⟨hn, hparent⟩ := Tree.mem_children.1 hn
      exact ⟨n, hn, rfl, hrec, hlisted.2 (Or.inr hparent)⟩
    · rw [hg.otherNode u fun n hn hu => hc ⟨n, hn, hu⟩] at hr
      obtain ⟨n, hn, hu, hrec, hl⟩ := h.node u r hr
      exact ⟨n, hn, hu, hrec, hlisted.2 (Or.inl hl)⟩
  · intro n hn hl
    by_cases hparent : n.parent = uid
    · obtain ⟨r, hr, -⟩ := hg.node n (Tree.mem_children.2 ⟨hn, hparent⟩)
      rw [hr]
      rfl
    · rw [hg.otherNode]
      · exact h.listed n hn ((hlisted.1 hl).resolve_right hparent)
      · intro m hm hmn
        obtain ⟨hm, hmp⟩ := Tree.mem_children.1 hm
        exact hparent (Tree.eq_of_uid hm hn hmn ▸ hmp)
  · intro n hn
    by_cases hq : n.uid ∈ queued
    · obtain ⟨p, hp, -⟩ := hg.child _ hq
      obtain ⟨m, hm, hfm, hmn⟩ := (hg.mem_queued _).1 hq
      obtain ⟨hm, hmp⟩ := Tree.mem_children.1 hm
      rw [Tree.eq_of_uid hm hn hmn] at hfm hmp
      rw [hp]
      exact ⟨fun _ => ⟨hfm, hlisted.2 (Or.inr hmp)⟩, fun _ => rfl⟩
    · rw [hfolder _ hq, h.queued n hn]
      refine and_congr_right fun hf => ⟨fun hl => hlisted.2 (Or.inl hl), fun hl => ?_⟩
      refine (hlisted.1 hl).resolve_right fun hp => hq ?_
      exact (hg.mem_queued _).2 ⟨n, Tree.mem_children.2 ⟨hn, hp⟩, hf, rfl⟩
  · intro u
    rw [hg.committed, h.committed, hlisted]

/-- The rows of a snapshot in the tables. -/
def ProtonDb.view (db : ProtonDb) (snapshotId : ℕ) : SnapshotView where
  folder u := (db.folders.find? (snapshotId, u)).map fun f => (f.segments, f.status)
  node u := db.nodes.find? (snapshotId, u)
  committed u := (snapshotId, u) ∈ db.commits

section Commit

variable {folder : ProtonFolder} {children : List ListedNode} {rows : List NodeRow}

/-- The listing of a folder of the tree, in any order. -/
def Lists (T : Tree) (uid : Str) (children : List ListedNode) : Prop :=
  children.Perm ((T.children uid).map TreeNode.listed)

/-- The tables with the rows of a listing. -/
def insertRows (rows : List NodeRow) (db : ProtonDb) : ProtonDb :=
  { db with
    nodes := rows.foldl (Table.upsert Table.replace) db.nodes
    folders := ((rows.filter (·.isFolder)).map NodeRow.folder).foldl
      (Table.upsert Table.ignore) db.folders }

/-- The inserts of one listing. -/
theorem foldl_insertChild (hnd : (rows.map NodeRow.key).Nodup) :
    ∀ db queued, (∀ r ∈ rows, r.isFolder = true → db.folders.find? r.key = none) →
      rows.foldl insertChild (db, queued) =
        (insertRows rows db, queued ++ (rows.filter (·.isFolder)).map NodeRow.uid) := by
  induction rows with
  | nil => intro db queued _; simp [insertRows]
  | cons r rows ih =>
    intro db queued hnew
    rw [List.map_cons, List.nodup_cons] at hnd
    rw [List.foldl_cons, insertChild]
    by_cases hf : r.isFolder = true
    · have hr : db.folders.find? r.folder.key = none := hnew r List.mem_cons_self hf
      rw [if_pos hf, hr, if_pos Option.isNone_none, ih hnd.2]
      · simp [insertRows, hf, List.append_assoc]
      · intro x hx hxf
        have hne : r.key ≠ x.key := fun hk => hnd.1 (hk ▸ List.mem_map_of_mem hx)
        exact (Table.find?_upsert_of_ne (r := r.folder) hne).trans
          (hnew x (List.mem_cons_of_mem _ hx) hxf)
    · rw [if_neg hf, ih hnd.2]
      · simp [insertRows, hf]
      · exact fun x hx => hnew x (List.mem_cons_of_mem _ hx)

/-- The row of a child of the folder records it. -/
theorem nodeRow_listed (U : Unicode) (snapshotId : ℕ) (children : List ListedNode) {n : TreeNode}
    (hn : n ∈ T.nodes) (hparent : n.parent = folder.uid)
    (hpath : T.PathTo folder.uid folder.segments) :
    ∃ r, nodeRow U snapshotId folder children n.listed = .ok r ∧ r.snapshotId = snapshotId ∧
      Records U T r n := by
  have hpath' := Tree.PathTo.child hn (hparent ▸ hpath)
  unfold nodeRow TreeNode.listed
  cases huid : n.uid with
  | nil => exact absurd huid (T.uid_ne n hn)
  | cons c cs =>
    rw [huid] at hpath'
    exact ⟨_, rfl, rfl, huid.symm, hparent.symm, huid ▸ hpath', rfl, rfl, rfl, rfl, rfl, rfl⟩

/-- The rows of the listing of a folder of the tree. -/
theorem exists_rows (U : Unicode) (snapshotId : ℕ) (hlist : Lists T folder.uid children)
    (hpath : T.PathTo folder.uid folder.segments) :
    ∃ rows, children.mapM (nodeRow U snapshotId folder children) = .ok rows ∧
      (rows.map NodeRow.uid).Nodup ∧
      (∀ r ∈ rows, ∃ n ∈ T.children folder.uid, r.key = (snapshotId, n.uid) ∧ Records U T r n) ∧
      ∀ n ∈ T.children folder.uid, ∃ r ∈ rows, r.key = (snapshotId, n.uid) ∧ Records U T r n := by
  have hrow : ∀ n ∈ T.children folder.uid, ∃ r,
      nodeRow U snapshotId folder children n.listed = .ok r ∧ r.key = (snapshotId, n.uid) ∧
        Records U T r n := by
    intro n hn
    obtain ⟨hn, hparent⟩ := Tree.mem_children.1 hn
    obtain ⟨r, hr, hsid, hrec⟩ := nodeRow_listed U snapshotId children hn hparent hpath
    exact ⟨r, hr, Prod.ext hsid hrec.uid, hrec⟩
  have hmem : ∀ c, c ∈ children ↔ ∃ n ∈ T.children folder.uid, n.listed = c := fun c => by
    rw [hlist.mem_iff, List.mem_map]
  have hok : ∀ c ∈ children, ∃ r, nodeRow U snapshotId folder children c = .ok r := fun c hc => by
    obtain ⟨n, hn, rfl⟩ := (hmem c).1 hc
    obtain ⟨r, hr, -⟩ := hrow n hn
    exact ⟨r, hr⟩
  obtain ⟨rows, hrows⟩ := Fallible.exists_mapM_ok hok
  refine ⟨rows, hrows, ?_, fun r hr => ?_, fun n hn => ?_⟩
  · -- the rows have the UIDs of the listed nodes, and those of the tree are distinct
    have huid : rows.map NodeRow.uid = children.map fun c => (c.uid.join).getD [] := by
      refine Fallible.mapM_ok_map hrows fun c r hcr => ?_
      unfold nodeRow at hcr
      split at hcr
      · cases hcr
      · cases hcr
      · cases hcr
      · rename_i hu hname
        cases hcr
        rw [hu]
        rfl
    rw [huid, (hlist.map _).nodup_iff, List.map_map]
    refine ((List.nodup_cons.1 T.nodup).2.sublist ?_)
    exact List.filter_sublist.map _
  · obtain ⟨c, hc, hcr⟩ := (Fallible.mem_of_mapM_ok hrows).1 hr
    obtain ⟨n, hn, rfl⟩ := (hmem c).1 hc
    obtain ⟨r', hr', hkey, hrec⟩ := hrow n hn
    rw [hcr] at hr'
    cases hr'
    exact ⟨n, hn, hkey, hrec⟩
  · obtain ⟨r, hr, hkey, hrec⟩ := hrow n hn
    exact ⟨r, (Fallible.mem_of_mapM_ok hrows).2 ⟨_, (hmem _).2 ⟨n, hn, rfl⟩, hr⟩, hkey, hrec⟩

/-- An `UPDATE` of one folder row changes its status. -/
theorem view_updateFolder (key : ℕ × Str) (status : FolderStatus → FolderStatus)
    (category : Option Str → Option Str) (db : ProtonDb) (other : ℕ) :
    (updateFolder key status category db).view other = { db.view other with
      folder := fun u => ((db.view other).folder u).map fun x =>
        (x.1, if (other, u) = key then status x.2 else x.2) } := by
  refine SnapshotView.ext (funext fun u => ?_) rfl rfl
  change ((updateFolder key status category db).folders.find? (other, u)).map _ =
    ((db.folders.find? (other, u)).map _).map _
  rw [updateFolder, Table.find?_modify, Option.map_map, Option.map_map]
  refine Option.map_congr fun f hf => ?_
  have hkey := (Table.find?_eq_some.1 hf).2
  rw [Function.comp_apply, Function.comp_apply, hkey]
  split <;> rfl

/-- What `_commit_listing` leaves, its rows made. -/
def commitRows (snapshotId : ℕ) (uid : Str) (rows : List NodeRow) (db : ProtonDb) : ProtonDb :=
  { updateFolder (snapshotId, uid) (fun _ => .complete) id (insertRows rows db) with
    commits := db.commits ++ [(snapshotId, uid)] }

theorem view_commitRows_folder (rows : List NodeRow) :
    ((commitRows snapshotId uid rows db).view other).folder =
      ((updateFolder (snapshotId, uid) (fun _ => .complete) id (insertRows rows db)).view
        other).folder := rfl

theorem commitListing_rows
    (hrows : children.mapM (nodeRow U snapshotId folder children) = .ok rows)
    (hnd : (rows.map NodeRow.key).Nodup)
    (hnew : ∀ r ∈ rows, r.isFolder = true → db.folders.find? r.key = none) :
    commitListing U snapshotId folder children db =
      .ok (commitRows snapshotId folder.uid rows db, (rows.filter (·.isFolder)).map NodeRow.uid) := by
  unfold commitListing
  rw [hrows]
  change Except.ok _ = _
  rw [foldl_insertChild hnd db [] hnew]
  rfl

section Rows

variable {r : NodeRow}

/-- The folder rows of a listing have the keys of its rows. -/
theorem nodup_folders (hnd : (rows.map NodeRow.key).Nodup) :
    (((rows.filter (·.isFolder)).map NodeRow.folder).map ProtonFolder.key).Nodup := by
  rw [List.map_map]
  exact hnd.sublist (List.filter_sublist.map _)

theorem node_commitRows (snapshotId : ℕ) (uid : Str) (db : ProtonDb)
    (hnd : (rows.map NodeRow.key).Nodup) (hr : r ∈ rows) :
    (commitRows snapshotId uid rows db).nodes.find? r.key = some r := by
  refine (Table.find?_foldl_upsert hnd hr).trans ?_
  cases db.nodes.find? r.key <;> rfl

theorem node_commitRows_of_ne {k : ℕ × Str} (h : ∀ r ∈ rows, r.key ≠ k) :
    (commitRows snapshotId uid rows db).nodes.find? k = db.nodes.find? k :=
  Table.find?_foldl_upsert_of_ne h

/-- A subfolder that is new waits. -/
theorem folder_commitRows (snapshotId : ℕ) (uid : Str) (hnd : (rows.map NodeRow.key).Nodup) (hr : r ∈ rows)
    (hf : r.isFolder = true) (hnew : db.folders.find? r.key = none) (hne : r.uid ≠ uid) :
    ((commitRows snapshotId uid rows db).view r.snapshotId).folder r.uid =
      some (r.segments, .pending) := by
  have hfind : (insertRows rows db).folders.find? r.key = some r.folder := by
    refine (Table.find?_foldl_upsert (m := Table.ignore) (nodup_folders hnd)
      (List.mem_map_of_mem (f := NodeRow.folder) (List.mem_filter.2 ⟨hr, hf⟩))).trans ?_
    rw [show r.folder.key = r.key from rfl, hnew]
    rfl
  rw [view_commitRows_folder, view_updateFolder]
  change (Option.map _ (Option.map _ (Table.find? _ r.key))) = _
  rw [hfind]
  have hk : ¬ (r.snapshotId, r.uid) = (snapshotId, uid) := fun h => hne (congrArg Prod.snd h)
  simp only [Option.map_some, if_neg hk]
  rfl

/-- The rows that were there stay, and the listed folder is `COMPLETE`. -/
theorem folder_commitRows_of_ne (h : ∀ r ∈ rows, r.isFolder = true → r.key ≠ (other, u)) :
    ((commitRows snapshotId uid rows db).view other).folder u =
      ((db.view other).folder u).map fun x =>
        (x.1, if (other, u) = (snapshotId, uid) then .complete else x.2) := by
  rw [view_commitRows_folder, view_updateFolder]
  have hfind : (insertRows rows db).folders.find? (other, u) = db.folders.find? (other, u) := by
    refine Table.find?_foldl_upsert_of_ne fun f hf => ?_
    obtain ⟨r, hr, rfl⟩ := List.mem_map.1 hf
    exact h r (List.mem_filter.1 hr).1 (List.mem_filter.1 hr).2
  change (Option.map _ (Option.map _ (Table.find? _ (other, u)))) = _
  rw [hfind]
  rfl

/-- The rows of one snapshot leave another alone. -/
theorem view_commitRows_of_ne (hsid : ∀ r ∈ rows, r.snapshotId = snapshotId)
    (hother : other ≠ snapshotId) :
    (commitRows snapshotId uid rows db).view other = db.view other := by
  have hkey : ∀ u, ∀ r ∈ rows, r.key ≠ (other, u) := by
    intro u r hr hk
    exact hother ((congrArg Prod.fst hk).symm.trans (hsid r hr))
  refine SnapshotView.ext (funext fun u => ?_) (funext fun u => ?_) (funext fun u => ?_)
  · rw [folder_commitRows_of_ne fun r hr _ => hkey u r hr]
    simp [hother]
  · exact node_commitRows_of_ne (hkey u)
  · refine propext (List.mem_append.trans ?_)
    simp [hother, ProtonDb.view]

end Rows

/-- What waits after a listing are the subfolders of the folder. -/
theorem mem_subfolders
    (hsome : ∀ r ∈ rows, ∃ n ∈ T.children uid, r.key = (snapshotId, n.uid) ∧ Records U T r n)
    (hall : ∀ n ∈ T.children uid, ∃ r ∈ rows, r.key = (snapshotId, n.uid) ∧ Records U T r n) :
    u ∈ (rows.filter (·.isFolder)).map NodeRow.uid ↔ ∃ n ∈ T.children uid, n.IsFolder ∧ n.uid = u := by
  rw [List.mem_map]
  constructor
  · rintro ⟨r, hr, rfl⟩
    obtain ⟨hr, hf⟩ := List.mem_filter.1 hr
    obtain ⟨n, hn, -, hrec⟩ := hsome r hr
    exact ⟨n, hn, hrec.nodeType.symm.trans (of_decide_eq_true hf), hrec.uid.symm⟩
  · rintro ⟨n, hn, hf, rfl⟩
    obtain ⟨r, hr, -, hrec⟩ := hall n hn
    exact ⟨r, List.mem_filter.2 ⟨hr, decide_eq_true (hrec.nodeType.trans hf)⟩, hrec.uid⟩

/-- **`_commit_listing` is a commit of the folder's snapshot**, and leaves every other
snapshot alone. -/
theorem commitListing_grown (hsound : Sound U T (db.view snapshotId))
    (hwait : (db.view snapshotId).folder folder.uid = some (folder.segments, .pending))
    (hlist : Lists T folder.uid children) :
    ∃ db' queued, commitListing U snapshotId folder children db = .ok (db', queued) ∧
      Grown U T folder.uid queued (db.view snapshotId) (db'.view snapshotId) ∧
      (∀ other, other ≠ snapshotId → db'.view other = db.view other) ∧
      db'.snapshots = db.snapshots ∧ db'.commits = db.commits ++ [(snapshotId, folder.uid)] := by
  obtain ⟨rows, hrows, huids, hsome, hall⟩ :=
    exists_rows U snapshotId hlist (hsound.path _ _ _ hwait)
  have hnd : (rows.map NodeRow.key).Nodup := List.Nodup.of_map Prod.snd (by rwa [List.map_map])
  set queued := (rows.filter (·.isFolder)).map NodeRow.uid with hqueued
  have hsid : ∀ r ∈ rows, r.snapshotId = snapshotId := fun r hr => by
    obtain ⟨n, -, hkey, -⟩ := hsome r hr
    exact congrArg Prod.fst hkey
  have hmem : ∀ u, u ∈ queued ↔ ∃ n ∈ T.children folder.uid, n.IsFolder ∧ n.uid = u :=
    fun u => mem_subfolders hsome hall
  have hfresh := hsound.not_mem_queued ⟨_, hwait⟩ hmem
  have hhere : folder.uid ∉ queued := fun h => by
    rw [hfresh _ h] at hwait
    cases hwait
  have hnew : ∀ r ∈ rows, r.isFolder = true → db.folders.find? r.key = none := by
    intro r hr hf
    have hq : r.uid ∈ queued := List.mem_map_of_mem (List.mem_filter.2 ⟨hr, hf⟩)
    have := Option.map_eq_none_iff.1 (hfresh _ hq)
    rwa [← hsid r hr] at this
  have hnotin : ∀ u, u ∉ queued → ∀ r ∈ rows, r.isFolder = true → r.key ≠ (snapshotId, u) := by
    intro u hu r hr hf hk
    rw [← show r.uid = u from congrArg Prod.snd hk] at hu
    exact hu (List.mem_map_of_mem (List.mem_filter.2 ⟨hr, hf⟩))
  refine ⟨_, _, commitListing_rows hrows hnd hnew, ?_,
    fun other hother => view_commitRows_of_ne hsid hother, rfl, rfl⟩
  refine ⟨fun p s hps => ?_, hmem, ?_, fun u hu => ?_, fun u hne hu => ?_, fun n hn => ?_,
    fun u hu => ?_, fun u => ?_⟩
  · -- the folder itself, which is none of its subfolders
    rw [folder_commitRows_of_ne (hnotin _ hhere), hps, Option.map_some, if_pos rfl]
  · exact huids.sublist (List.filter_sublist.map _)
  · -- a subfolder had no row, so `OR IGNORE` inserts one
    obtain ⟨r, hr, rfl⟩ := List.mem_map.1 hu
    obtain ⟨hr, hf⟩ := List.mem_filter.1 hr
    obtain ⟨n, hn, -, hrec⟩ := hsome r hr
    have hwaits := folder_commitRows snapshotId folder.uid hnd hr hf
      (hnew r hr hf) fun h => hhere (h ▸ hu)
    rw [hsid r hr] at hwaits
    exact ⟨r.segments, hwaits, hrec.uid ▸ hrec.path⟩
  · rw [folder_commitRows_of_ne (hnotin _ hu)]
    simp [hne]
  · obtain ⟨r, hr, hkey, hrec⟩ := hall n hn
    refine ⟨r, ?_, hrec⟩
    have := node_commitRows snapshotId folder.uid db hnd hr
    rwa [hkey] at this
  · refine node_commitRows_of_ne fun r hr hk => ?_
    obtain ⟨n, hn, hkey, -⟩ := hsome r hr
    exact hu n hn (congrArg Prod.snd (hkey.symm.trans hk))
  · exact List.mem_append.trans (or_congr_right (by simp))

end Commit

end DropboxMirror
