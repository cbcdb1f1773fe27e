import DropboxMirror.Model.Walk

/-!
# The tree a walk sees

What the walk is for, in its own terms: a finite tree of Proton nodes with unique UIDs,
the path of each node, and what it means that a snapshot holds exactly the tree
(`SnapshotOf`).
-/

namespace DropboxMirror

open Text

/-- A node below the destination, with the UID of the folder that holds it. -/
structure TreeNode where
  uid : Str
  parent : Str
  name : Str
  nodeType : Str
  claimedSize : Option ℕ
  sha1 : Option Str
  deriving DecidableEq, Repr

/-- A folder, as the CLI names it. -/
def TreeNode.IsFolder (n : TreeNode) : Prop := n.nodeType = "folder".toList

/-- What the listing of its folder says of a node. -/
def TreeNode.listed (n : TreeNode) : ListedNode :=
  ⟨⟨some n.name, some n.nodeType, some (some n.uid)⟩, n.claimedSize, n.sha1⟩

/-- **A finite tree below the destination**: each node in the list is in the destination
or in a folder before it, and no two have one UID. -/
structure Tree where
  nodes : List TreeNode
  nodup : (rootUid :: nodes.map TreeNode.uid).Nodup
  uid_ne : ∀ n ∈ nodes, n.uid ≠ []
  rooted : ∀ before n after, nodes = before ++ n :: after →
    n.parent = rootUid ∨ ∃ f ∈ before, f.uid = n.parent ∧ f.IsFolder

namespace Tree

variable {T : Tree} {m n : TreeNode} {u : Str} {p q : List Str}

/-- The nodes in a folder. -/
def children (T : Tree) (uid : Str) : List TreeNode :=
  T.nodes.filter fun n => decide (n.parent = uid)

/-- The names that lead to a node. -/
inductive PathTo (T : Tree) : Str → List Str → Prop
  | root : PathTo T rootUid []
  | child {n : TreeNode} {p : List Str} (hn : n ∈ T.nodes) (hp : PathTo T n.parent p) :
      PathTo T n.uid (p ++ [n.name])

/-- The node `n` is in the folder `f`, or in a folder below it. -/
inductive Below (T : Tree) (f : TreeNode) : TreeNode → Prop
  | child {n : TreeNode} (hn : n ∈ T.nodes) (hf : n.parent = f.uid) : Below T f n
  | step {m n : TreeNode} (hm : Below T f m) (hn : n ∈ T.nodes) (hmn : n.parent = m.uid) :
      Below T f n

theorem mem_children : n ∈ T.children u ↔ n ∈ T.nodes ∧ n.parent = u := by
  rw [children, List.mem_filter, decide_eq_true_eq]

theorem uid_ne_root (hn : n ∈ T.nodes) : n.uid ≠ rootUid := fun h =>
  (List.nodup_cons.1 T.nodup).1 (h ▸ List.mem_map_of_mem hn)

theorem eq_of_uid (hm : m ∈ T.nodes) (hn : n ∈ T.nodes) (h : m.uid = n.uid) : m = n :=
  List.inj_on_of_nodup_map (List.nodup_cons.1 T.nodup).2 hm hn h

/-- Induction from the destination down: a property of every node whose folder is the
destination or has it. -/
theorem induction {motive : TreeNode → Prop}
    (h : ∀ n ∈ T.nodes,
      (n.parent = rootUid ∨ ∃ f ∈ T.nodes, f.uid = n.parent ∧ f.IsFolder ∧ motive f) → motive n) :
    ∀ n ∈ T.nodes, motive n := by
  have key : ∀ before after, T.nodes = before ++ after → ∀ n ∈ before, motive n := by
    intro before
    induction before using List.reverseRecOn with
    | nil => exact fun _ _ n hn => absurd hn List.not_mem_nil
    | append_singleton before x ih =>
      intro after hsplit
      rw [List.append_assoc, List.singleton_append] at hsplit
      have hbefore := ih (x :: after) hsplit
      intro n hn
      rcases List.mem_append.1 hn with hn | hn
      · exact hbefore n hn
      · rw [List.mem_singleton.1 hn]
        refine h x (by rw [hsplit]; simp) ((T.rooted before x after hsplit).imp_right ?_)
        rintro ⟨f, hf, hfx, hfolder⟩
        exact ⟨f, by rw [hsplit]; exact List.mem_append_left _ hf, hfx, hfolder, hbefore f hf⟩
  exact key T.nodes [] (List.append_nil _).symm

/-- A UID has one path. -/
theorem PathTo.unique (hp : T.PathTo u p) (hq : T.PathTo u q) : p = q := by
  induction hp generalizing q with
  | root =>
    generalize hu : rootUid = u at hq
    cases hq with
    | root => rfl
    | child hn _ => exact absurd hu.symm (uid_ne_root hn)
  | @child n p hn _ ih =>
    -- the path `q` is to the UID of `n`, which no other node has
    generalize hu : n.uid = u at hq
    cases hq with
    | root => exact absurd hu (uid_ne_root hn)
    | child hm hq =>
      rw [eq_of_uid hn hm hu] at ih ⊢
      rw [ih hq]

/-- The path to a node below a folder starts with the folder's. -/
theorem Below.path {f : TreeNode} (hf : T.PathTo f.uid p) (h : T.Below f n) :
    ∃ rest, rest ≠ [] ∧ T.PathTo n.uid (p ++ rest) := by
  induction h with
  | @child n hn hparent =>
    exact ⟨[n.name], List.cons_ne_nil _ _, PathTo.child hn (by rw [hparent]; exact hf)⟩
  | @step m n _ hn hmn ih =>
    obtain ⟨rest, -, hpath⟩ := ih
    refine ⟨rest ++ [n.name], List.append_ne_nil_of_right_ne_nil _ (List.cons_ne_nil _ _), ?_⟩
    rw [← List.append_assoc]
    exact PathTo.child hn (by rw [hmn]; exact hpath)

end Tree

/-- The row of `proton_nodes` records the node, with the segments of its true path. -/
structure Records (U : Unicode) (T : Tree) (r : NodeRow) (n : TreeNode) : Prop where
  uid : r.uid = n.uid
  parentUid : r.parentUid = n.parent
  path : T.PathTo n.uid r.segments
  name : r.name = n.name
  nodeType : r.nodeType = n.nodeType
  claimedSize : r.claimedSize = n.claimedSize
  sha1 : r.sha1 = n.sha1
  relativePath : r.relativePath = join '/' r.segments
  comparisonKey : r.comparisonKey = comparisonKey U r.relativePath

/-- **A snapshot of the tree**: exactly one row for each node, and every folder listed. -/
structure SnapshotOf (U : Unicode) (T : Tree) (db : ProtonDb) (snapshotId : ℕ) : Prop where
  rows : ((db.nodesOf snapshotId).map NodeRow.uid).Perm (T.nodes.map TreeNode.uid)
  records : ∀ r ∈ db.nodesOf snapshotId, ∃ n ∈ T.nodes, Records U T r n
  folders : ∀ f ∈ db.folders, f.snapshotId = snapshotId → f.status = .complete

theorem mem_nodesOf {db : ProtonDb} {snapshotId : ℕ} {r : NodeRow} :
    r ∈ db.nodesOf snapshotId ↔ r ∈ db.nodes ∧ r.snapshotId = snapshotId := by
  rw [ProtonDb.nodesOf, List.mem_filter, decide_eq_true_eq, Table.mem_def]

end DropboxMirror
