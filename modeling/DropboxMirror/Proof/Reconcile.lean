import DropboxMirror.Model.Reconcile
import DropboxMirror.Proof.Tree

/-!
# What reconcile keeps and what it trashes

The phase meets one node of each comparison key, the last in the order of the query
(`LastUnder`). A row is kept with that node's UID if the node fits it, and dropped
otherwise (`find?_correctMirror`); that node is trashed if nothing accounts for the key.

* `reconcile_triple`: the mirror and the trash calls of a run.
* `reconcile_keeps_iff`: when no correct file is dropped and no node serves two rows.
* `reconcile_covers_iff`: when no stray file stays behind.
-/

namespace DropboxMirror

open Text Crash

variable {U : Unicode} {L : Listing} {M : Mirror} {nodes : Dict Str NodeRow} {files : List NodeRow}
  {snapshotId : ℕ} {w : ReconcileWorld} {env : ReconcileEnv} {n : NodeRow} {m : MirrorObject}

/-- The node has the row's size, and no other digest. -/
def NodeRow.Fits (U : Unicode) (n : NodeRow) (m : MirrorObject) : Prop :=
  n.claimedSize = some m.size ∧ ∀ sha1, n.sha1 = some sha1 → U.casefold sha1 = U.casefold m.sha1

/-- The node's segments are the components of the row's display path. -/
def NodeRow.IsAt (n : NodeRow) (m : MirrorObject) : Prop :=
  n.segments = (lstrip '/' m.pathDisplay).splitOn '/'

/-- The last of the nodes with a key. -/
def LastUnder (files : List NodeRow) (key : Str) (n : NodeRow) : Prop :=
  ∃ before after, files = before ++ n :: after ∧ n.comparisonKey = key ∧
    ∀ x ∈ after, x.comparisonKey ≠ key

theorem get?_nodesByKey {key : Str} :
    (nodesByKey files).get? key = some n ↔ LastUnder files key n := by
  rw [nodesByKey, Dict.get?_ofList_eq_some]
  constructor
  · rintro ⟨before, after, hsplit, hafter⟩
    obtain ⟨before', rest, rfl, rfl, hrest⟩ := List.map_eq_append_iff.1 hsplit
    obtain ⟨n', after', rfl, hn, rfl⟩ := List.map_eq_cons_iff.1 hrest
    cases hn
    exact ⟨before', after', rfl, rfl, fun x hx => hafter _ (List.mem_map_of_mem hx)⟩
  · rintro ⟨before, after, rfl, rfl, hafter⟩
    refine ⟨before.map fun n => (n.comparisonKey, n), after.map fun n => (n.comparisonKey, n),
      by simp, fun p hp => ?_⟩
    obtain ⟨x, hx, rfl⟩ := List.mem_map.1 hp
    exact hafter x hx

/-- Some node is the last of its key. -/
theorem exists_lastUnder (hn : n ∈ files) : ∃ n', LastUnder files n.comparisonKey n' := by
  simp only [← get?_nodesByKey]
  refine Option.isSome_iff_exists.1 (Option.isSome_iff_ne_none.2 fun hnone => ?_)
  exact Dict.get?_ofList_eq_none.1 hnone n (List.mem_map_of_mem (f := fun n => (n.comparisonKey, n)) hn)

theorem LastUnder.mem {key : Str} (h : LastUnder files key n) : n ∈ files := by
  obtain ⟨before, after, rfl, -⟩ := h
  simp

theorem LastUnder.unique {key : Str} {n' : NodeRow} (h : LastUnder files key n)
    (h' : LastUnder files key n') : n = n' := by
  rw [← get?_nodesByKey] at h h'
  exact Option.some.inj (h.symm.trans h')

section Correct

/-- What becomes of a row: dropped, or kept with the UID of its node. -/
def corrected (U : Unicode) (nodes : Dict Str NodeRow) (m : MirrorObject) : Option MirrorObject :=
  let node := nodes.get? (m.key U)
  if sizeMismatch node m || digestMismatch U node m then none
  else some { m with protonUid := node.map NodeRow.uid }

theorem mismatch_iff (n : NodeRow) (m : MirrorObject) :
    (sizeMismatch (some n) m || digestMismatch U (some n) m) = false ↔ n.Fits U m := by
  unfold NodeRow.Fits
  cases hs : n.sha1 with
  | none => simp [sizeMismatch, digestMismatch, hs]
  | some s => by_cases hsize : n.claimedSize = some m.size <;>
      simp [sizeMismatch, digestMismatch, hs, hsize]

/-- A kept row. -/
theorem corrected_eq_some {m' : MirrorObject} :
    corrected U nodes m = some m' ↔
      ∃ n, nodes.get? (m.key U) = some n ∧ n.Fits U m ∧ m' = { m with protonUid := some n.uid } := by
  unfold corrected
  cases hnode : nodes.get? (m.key U) with
  | none => simp [sizeMismatch]
  | some n =>
    by_cases hfit : n.Fits U m
    · rw [if_neg (by rw [(mismatch_iff n m).2 hfit]; exact Bool.false_ne_true)]
      simp [hfit, eq_comm]
    · have : ¬ (sizeMismatch (some n) m || digestMismatch U (some n) m) = false :=
        fun h => hfit ((mismatch_iff n m).1 h)
      rw [if_pos (by rwa [Bool.not_eq_false] at this)]
      simp [hfit]

/-- One row of `_correct_mirror` decides that row alone. -/
theorem find?_correctRow {acc : Correction} (hm : acc.mirror.find? m.pathLower = some m) (p : Str) :
    (correctRow U nodes acc m).mirror.find? p =
      if m.pathLower = p then corrected U nodes m else acc.mirror.find? p := by
  have hrow : ∀ x, acc.mirror.find? p = some x → x.pathLower = p := fun x hx =>
    (Table.find?_eq_some.1 hx).2
  unfold correctRow corrected
  dsimp only
  split
  -- no node: the row is deleted
  · rw [Table.find?_filter]
    by_cases hp : m.pathLower = p
    · rw [if_pos hp, ← hp, hm]
      simp
    · rw [if_neg hp]
      cases hx : acc.mirror.find? p with
      | none => rfl
      | some x =>
        rw [Option.filter_some, if_pos]
        exact decide_eq_true fun h => hp (h.symm.trans (hrow x hx))
  · split
    · rename_i huid
      by_cases hp : m.pathLower = p
      · rw [if_pos hp, ← hp, hm]
        exact congrArg some (by rw [← huid])
      · rw [if_neg hp]
    -- another UID: the row is updated
    · rw [Table.find?_modify]
      by_cases hp : m.pathLower = p
      · rw [if_pos hp, ← hp, hm, Option.map_some, if_pos rfl]
      · rw [if_neg hp]
        cases hx : acc.mirror.find? p with
        | none => rfl
        | some x =>
          rw [Option.map_some, if_neg]
          exact fun h => hp (h.symm.trans (hrow x hx))

theorem known_correctRow (acc : Correction) :
    (correctRow U nodes acc m).known = acc.known ++ [m.key U] := by
  unfold correctRow
  dsimp only
  split
  · rfl
  · split <;> rfl

/-- `_correct_mirror`, row by row. -/
theorem foldl_correctRow (U : Unicode) (nodes : Dict Str NodeRow) {rows : List MirrorObject}
    (hnd : (rows.map MirrorObject.pathLower).Nodup) :
    ∀ acc : Correction, (∀ m ∈ rows, acc.mirror.find? m.pathLower = some m) →
      (rows.foldl (correctRow U nodes) acc).known = acc.known ++ rows.map (MirrorObject.key U) ∧
      (∀ m ∈ rows, (rows.foldl (correctRow U nodes) acc).mirror.find? m.pathLower =
        corrected U nodes m) ∧
      ∀ p, (∀ m ∈ rows, m.pathLower ≠ p) →
        (rows.foldl (correctRow U nodes) acc).mirror.find? p = acc.mirror.find? p := by
  induction rows with
  | nil => intro acc _; simp
  | cons m rows ih =>
    intro acc hacc
    rw [List.map_cons, List.nodup_cons] at hnd
    have hm := hacc m List.mem_cons_self
    have hne : ∀ x ∈ rows, m.pathLower ≠ x.pathLower := fun x hx h =>
      hnd.1 (h ▸ List.mem_map_of_mem hx)
    obtain ⟨h1, h2, h3⟩ := ih hnd.2 (correctRow U nodes acc m) fun x hx => by
      rw [find?_correctRow hm, if_neg (hne x hx)]
      exact hacc x (List.mem_cons_of_mem _ hx)
    rw [List.foldl_cons]
    refine ⟨?_, fun x hx => ?_, fun p hp => ?_⟩
    · rw [h1, known_correctRow, List.append_assoc, List.map_cons, List.singleton_append]
    · rcases List.mem_cons.1 hx with rfl | hx
      · rw [h3 _ fun y hy => (hne y hy).symm, find?_correctRow hm, if_pos rfl]
      · exact h2 x hx
    · rw [h3 p fun y hy => hp y (List.mem_cons_of_mem _ hy), find?_correctRow hm,
        if_neg (hp m List.mem_cons_self)]

/-- **What `_correct_mirror` leaves**: each row corrected. -/
theorem mem_correctMirror {m' : MirrorObject} :
    m' ∈ (correctMirror U nodes M).mirror ↔ ∃ m ∈ M, corrected U nodes m = some m' := by
  obtain ⟨-, hrow, hother⟩ := foldl_correctRow U nodes M.nodup ⟨M, 0, 0, 0, 0, []⟩
    fun m hm => Table.mem_iff_find?.1 hm
  have hpath : ∀ m x, corrected U nodes m = some x → x.pathLower = m.pathLower := by
    intro m x hx
    obtain ⟨n, -, -, rfl⟩ := corrected_eq_some.1 hx
    rfl
  rw [Table.mem_iff_find?]
  constructor
  · intro h
    by_cases hex : ∃ m ∈ M, m.pathLower = m'.pathLower
    · obtain ⟨m, hm, hp⟩ := hex
      refine ⟨m, hm, ?_⟩
      rw [← hrow m hm, hp]
      exact h
    · have hnone : M.find? m'.pathLower = none :=
        Table.find?_eq_none.2 fun m hm hp => hex ⟨m, hm, hp⟩
      have := (hother m'.pathLower fun m hm hp => hex ⟨m, hm, hp⟩).symm.trans h
      rw [hnone] at this
      cases this
  · rintro ⟨m, hm, hc⟩
    rw [hpath m m' hc]
    exact (hrow m hm).trans hc

theorem known_correctMirror :
    (correctMirror U nodes M).known = M.rows.map (MirrorObject.key U) :=
  (foldl_correctRow U nodes M.nodup ⟨M, 0, 0, 0, 0, []⟩ fun _ hm => Table.mem_iff_find?.1 hm).1

end Correct

section Run

/-- The keys something accounts for: those of the mirror, as it stood, and of the listing. -/
def knownKeys (U : Unicode) (L : Listing) (M : Mirror) : List Str :=
  M.rows.map (MirrorObject.key U) ++ listedKeys U L

/-- The files of the first trash call. -/
def straysOf (U : Unicode) (L : Listing) (snapshotId : ℕ) (w : ReconcileWorld) : List NodeRow :=
  strayNodes (nodesByKey (w.proton.fileNodes snapshotId)) (knownKeys U L w.mirror)

/-- The folders of the second. -/
def strayFoldersOf (U : Unicode) (L : Listing) (snapshotId : ℕ) (w : ReconcileWorld) :
    List NodeRow :=
  strayFolders U (w.proton.nodesOf snapshotId) L (knownKeys U L w.mirror)

/-- The mirror after a run. -/
def correctedMirror (U : Unicode) (snapshotId : ℕ) (w : ReconcileWorld) : Mirror :=
  (correctMirror U (nodesByKey (w.proton.fileNodes snapshotId)) w.mirror).mirror

/-- **One commit of a run that started in `w`.** -/
structure ReconcileLink (U : Unicode) (L : Listing) (snapshotId : ℕ) (w v v' : ReconcileWorld) :
    Prop where
  mirror : v'.mirror = correctedMirror U snapshotId w
  calls : ∀ call ∈ v'.trashCalls, call ∈ v.trashCalls ∨
    call = sortedPaths (straysOf U L snapshotId w) ∨
    call = sortedPaths (strayFoldersOf U L snapshotId w)

/-- A run corrects the mirror and trashes the strays, whatever Proton answers. -/
structure ReconcilePost (U : Unicode) (L : Listing) (snapshotId : ℕ) (w v : ReconcileWorld) :
    Prop where
  mirror : v.mirror = correctedMirror U snapshotId w
  strays : sortedPaths (straysOf U L snapshotId w) ≠ [] →
    sortedPaths (straysOf U L snapshotId w) ∈ v.trashCalls

theorem trashPaths_triple {answer : Except Failure Unit} {paths : List Str}
    {R : ReconcileWorld → ReconcileWorld → Prop} {P Q : ReconcileWorld → Prop}
    (hnil : paths = [] → ∀ v, P v → Q v)
    (hcall : ∀ v, P v → R v { v with trashCalls := v.trashCalls ++ [paths] } ∧
      Q { v with trashCalls := v.trashCalls ++ [paths] }) :
    Triple R P (trashPaths answer paths) (fun _ => Q) (fun _ => Q) := by
  unfold trashPaths
  split
  · exact Triple.pure (hnil ‹_›)
  · refine Triple.bind (M := fun _ => Q) (Triple.write hcall) fun _ => ?_
    cases answer with
    | error e => exact Triple.fail fun _ h => h
    | ok u => exact Triple.pure fun _ h => h

/-- **A run of the phase over a complete snapshot.** -/
theorem reconcile_triple (U : Unicode) (L : Listing) (env : ReconcileEnv) (snapshotId : ℕ)
    (w : ReconcileWorld) :
    Triple (ReconcileLink U L snapshotId w) (fun v => v = w)
      (reconcileSnapshot U L env snapshotId) (fun _ => ReconcilePost U L snapshotId w)
      (fun _ => ReconcilePost U L snapshotId w) := by
  unfold reconcileSnapshot
  refine Triple.get_bind fun v hv => ?_
  rw [hv]
  dsimp only
  rw [known_correctMirror]
  refine Triple.bind (M := fun _ v => v.mirror = correctedMirror U snapshotId w)
    (Triple.write fun v hv => ⟨⟨rfl, fun _ h => Or.inl h⟩, rfl⟩) fun _ => ?_
  refine Triple.bind (M := fun _ => ReconcilePost U L snapshotId w) (trashPaths_triple ?_ ?_)
    fun _ => Triple.bind (M := fun _ => ReconcilePost U L snapshotId w) (trashPaths_triple ?_ ?_)
      fun _ => ?_
  · exact fun hnil v hv => ⟨hv, fun hne => absurd hnil hne⟩
  · refine fun v hv => ⟨⟨hv, fun call hcall => ?_⟩, hv, fun _ => List.mem_append_right _ List.mem_cons_self⟩
    exact (List.mem_append.1 hcall).imp_right fun h => Or.inl (List.mem_singleton.1 h)
  · exact fun _ v hv => hv
  · refine fun v hv => ⟨⟨hv.mirror, fun call hcall => ?_⟩, hv.mirror, fun hne =>
      List.mem_append_left _ (hv.strays hne)⟩
    exact (List.mem_append.1 hcall).imp_right fun h => Or.inr (List.mem_singleton.1 h)
  · cases env.push with
    | error e => exact Triple.fail fun _ h => h
    | ok u => exact Triple.pure fun _ h => h

theorem reconcile_final (U : Unicode) (L : Listing) (env : ReconcileEnv) (snapshotId : ℕ)
    (w : ReconcileWorld) :
    ReconcilePost U L snapshotId w ((reconcileSnapshot U L env snapshotId).final w) := by
  obtain ⟨-, hok, herr⟩ := reconcile_triple U L env snapshotId w w rfl
  cases hr : (reconcileSnapshot U L env snapshotId w).result with
  | ok outputs => exact hok outputs hr
  | error e => exact herr e hr

end Run

section Keeps

/-- **What the phase owes the mirror**: a row whose node is there and fits stays, and no
two rows carry the UID of one node of the snapshot. -/
structure KeepsCorrect (U : Unicode) (snapshotId : ℕ) (w v : ReconcileWorld) : Prop where
  kept : ∀ m ∈ w.mirror, (∃ n ∈ w.proton.fileNodes snapshotId, n.IsAt m ∧ n.Fits U m) →
    ∃ m' ∈ v.mirror, m'.pathLower = m.pathLower
  distinct : ∀ m₁ ∈ v.mirror, ∀ m₂ ∈ v.mirror, m₁ ≠ m₂ → ∀ n ∈ w.proton.nodesOf snapshotId,
    m₁.protonUid = some n.uid → m₂.protonUid ≠ some n.uid

/-- The rows of a snapshot carry the key of their path, as the walk writes it. -/
def Keyed (U : Unicode) (files : List NodeRow) : Prop :=
  ∀ n ∈ files, n.comparisonKey = comparisonKey U (join '/' n.segments)

/-- **No key is ambiguous for the mirror**: a row with a fitting node under its own path
fits the last node of its key, and no two rows of one key fit that node. -/
structure Unambiguous (U : Unicode) (files : List NodeRow) (M : Mirror) : Prop where
  last : ∀ m ∈ M, (∃ n ∈ files, n.IsAt m ∧ n.Fits U m) →
    ∀ n, LastUnder files (m.key U) n → n.Fits U m
  shared : ∀ m₁ ∈ M, ∀ m₂ ∈ M, m₁ ≠ m₂ → m₁.key U = m₂.key U →
    ∀ n, LastUnder files (m₁.key U) n → ¬ (n.Fits U m₁ ∧ n.Fits U m₂)

/-- A node at a row's path has the row's key. -/
theorem key_of_isAt (h : n.IsAt m) :
    comparisonKey U (join '/' n.segments) = m.key U := by
  rw [h, join_split, MirrorObject.key, comparisonKey, comparisonKey, lstrip_idem]

theorem SnapshotOf.keyed {T : Tree} {db : ProtonDb} (h : SnapshotOf U T db snapshotId) :
    Keyed U (db.fileNodes snapshotId) := by
  intro n hn
  obtain ⟨t, -, hrec⟩ := h.records n (List.mem_filter.1 hn).1
  rw [hrec.comparisonKey, hrec.relativePath]

/-- The rows after a run. -/
theorem mem_correctedMirror {m' : MirrorObject} :
    m' ∈ correctedMirror U snapshotId w ↔ ∃ m ∈ w.mirror, ∃ n,
      LastUnder (w.proton.fileNodes snapshotId) (m.key U) n ∧ n.Fits U m ∧
        m' = { m with protonUid := some n.uid } := by
  rw [correctedMirror, mem_correctMirror]
  simp only [corrected_eq_some, get?_nodesByKey]

/-- **No correct file is dropped and no node serves two rows exactly where no key is
ambiguous.** -/
theorem reconcile_keeps_iff (hkeyed : Keyed U (w.proton.fileNodes snapshotId)) :
    (∀ L env, KeepsCorrect U snapshotId w ((reconcileSnapshot U L env snapshotId).final w)) ↔
      Unambiguous U (w.proton.fileNodes snapshotId) w.mirror := by
  -- a node is its UID, and the correction gives a row the UID of the last node under its key
  have huid : ∀ n₁ ∈ w.proton.nodesOf snapshotId, ∀ n₂ ∈ w.proton.nodesOf snapshotId,
      n₁.uid = n₂.uid → n₁ = n₂ := by
    intro n₁ h₁ n₂ h₂ he
    obtain ⟨h₁, hid₁⟩ := mem_nodesOf.1 h₁
    obtain ⟨h₂, hid₂⟩ := mem_nodesOf.1 h₂
    exact Table.eq_of_key_eq h₁ h₂ (Prod.ext (hid₁.trans hid₂.symm) he)
  have hfile : ∀ {key n}, LastUnder (w.proton.fileNodes snapshotId) key n →
      n ∈ w.proton.nodesOf snapshotId := fun h => (List.mem_filter.1 h.mem).1
  constructor
  · intro hkeeps
    obtain ⟨hkept, hdistinct⟩ := hkeeps Table.empty ⟨.ok (), .ok (), .ok (), .ok ()⟩
    rw [(reconcile_final _ _ _ _ _).mirror] at hkept hdistinct
    refine ⟨fun m hm hex n hlast => ?_, fun m₁ h₁ m₂ h₂ hne hkey n hlast hfit => ?_⟩
    -- the row is still there, so the last node under its key fits it
    · obtain ⟨m', hm', hp⟩ := hkept m hm hex
      obtain ⟨m₀, hm₀, n₀, hlast₀, hfit₀, rfl⟩ := mem_correctedMirror.1 hm'
      obtain rfl : m₀ = m := Table.eq_of_key_eq hm₀ hm hp
      rw [hlast.unique hlast₀]
      exact hfit₀
    -- two rows with one key would get one UID
    · refine hdistinct _ (mem_correctedMirror.2 ⟨m₁, h₁, n, hlast, hfit.1, rfl⟩) _
        (mem_correctedMirror.2 ⟨m₂, h₂, n, hkey ▸ hlast, hfit.2, rfl⟩) (fun he => hne ?_) n
        (hfile hlast) rfl rfl
      exact Table.eq_of_key_eq h₁ h₂ (congrArg MirrorObject.pathLower he :)
  · intro hun L env
    have hmirror := (reconcile_final U L env snapshotId w).mirror
    constructor
    · intro m hm hex
      rw [hmirror]
      obtain ⟨n, hn, hat, hfit⟩ := hex
      obtain ⟨n', hlast⟩ := exists_lastUnder hn
      rw [hkeyed n hn, key_of_isAt hat] at hlast
      exact ⟨_, mem_correctedMirror.2 ⟨m, hm, n', hlast,
        hun.last m hm ⟨n, hn, hat, hfit⟩ n' hlast, rfl⟩, rfl⟩
    · intro m₁' hm₁' m₂' hm₂' hne n hn hu₁ hu₂
      rw [hmirror] at hm₁' hm₂'
      obtain ⟨m₁, h₁, n₁, hlast₁, hfit₁, rfl⟩ := mem_correctedMirror.1 hm₁'
      obtain ⟨m₂, h₂, n₂, hlast₂, hfit₂, rfl⟩ := mem_correctedMirror.1 hm₂'
      have he₁ : n₁ = n := huid _ (hfile hlast₁) _ hn (Option.some.inj hu₁)
      have he₂ : n₂ = n := huid _ (hfile hlast₂) _ hn (Option.some.inj hu₂)
      subst he₁
      subst he₂
      have hkey : m₁.key U = m₂.key U := by
        obtain ⟨_, _, -, hk₁, -⟩ := hlast₁
        obtain ⟨_, _, -, hk₂, -⟩ := hlast₂
        exact hk₁.symm.trans hk₂
      refine hun.shared m₁ h₁ m₂ h₂ (fun he => hne ?_) hkey _ hlast₁ ⟨hfit₁, hfit₂⟩
      rw [he]

end Keeps

section Twins

/-- A file node of the destination. -/
def rootFile (uid name cliPath : String) (size : ℕ) : NodeRow where
  snapshotId := 1
  uid := uid.toList
  parentUid := rootUid
  segments := [name.toList]
  relativePath := name.toList
  cliPath := cliPath.toList
  comparisonKey := comparisonKey Unicode.latin name.toList
  name := name.toList
  nodeType := "file".toList
  claimedSize := some size
  sha1 := none

/-- A complete snapshot of two nodes, and a mirror. -/
def reconcileWorld (a b : NodeRow) (h : ([a, b].map NodeRow.key).Nodup) (M : Mirror) :
    ReconcileWorld where
  run := ⟨some 0, some 0, false⟩
  mirror := M
  proton := {
    snapshots := ⟨[⟨1, "reconcile".toList, "/D".toList, .complete⟩], List.nodup_singleton _⟩
    folders := Table.empty
    nodes := ⟨[a, b], h⟩
    commits := [] }
  trashCalls := []

/-- The mirror row of a file of the destination. -/
def rootRow (lower : String) (size : ℕ) : MirrorObject :=
  ⟨lower.toList, lower.toList, size, "h".toList, "s".toList, "s".toList, none, 1⟩

/-- Two files, each with its row. -/
def pairWorld : ReconcileWorld :=
  reconcileWorld (rootFile "u1" "a" "/D/a" 1) (rootFile "u2" "b" "/D/b" 2) (by decide)
    ⟨[rootRow "/a" 1, rootRow "/b" 2], by decide⟩

/-- Two nodes of one name; the row's own is the first. -/
def twinWorld : ReconcileWorld :=
  reconcileWorld (rootFile "u1" "a" "/D/u1" 1) (rootFile "u2" "a" "/D/u2" 2) (by decide)
    ⟨[rootRow "/a" 1], by decide⟩

/-- Two rows whose names fold to one key. -/
def foldedWorld : ReconcileWorld :=
  reconcileWorld (rootFile "u1" "b" "/D/b" 1) (rootFile "u2" "ss" "/D/ss" 1) (by decide)
    ⟨[rootRow "/ss" 1, rootRow "/\u00df" 1], by decide⟩

/-- The rows of two files of different names are kept. -/
theorem reconcile_keeps_pair :
    KeepsCorrect Unicode.latin 1 pairWorld
      ((reconcileSnapshot Unicode.latin Table.empty ⟨.ok (), .ok (), .ok (), .ok ()⟩ 1).final
        pairWorld) := by
  refine (reconcile_keeps_iff (by unfold Keyed; decide)).2 ⟨?_, ?_⟩ Table.empty
    ⟨.ok (), .ok (), .ok (), .ok ()⟩
  · rintro m hm - n hlast
    rw [← get?_nodesByKey] at hlast
    rcases List.mem_cons.1 hm with rfl | hm
    · obtain rfl : rootFile "u1" "a" "/D/a" 1 = n := Option.some.inj hlast
      exact ⟨rfl, nofun⟩
    · obtain rfl := List.mem_singleton.1 hm
      obtain rfl : rootFile "u2" "b" "/D/b" 2 = n := Option.some.inj hlast
      exact ⟨rfl, nofun⟩
  · intro m₁ h₁ m₂ h₂ hne hkey
    rcases List.mem_cons.1 h₁ with rfl | h₁ <;> rcases List.mem_cons.1 h₂ with rfl | h₂
    · exact absurd rfl hne
    · rw [List.mem_singleton.1 h₂] at hkey
      exact absurd hkey (by decide)
    · rw [List.mem_singleton.1 h₁] at hkey
      exact absurd hkey (by decide)
    · exact absurd ((List.mem_singleton.1 h₁).trans (List.mem_singleton.1 h₂).symm) hne

/-- **A correct file is dropped where a twin comes after its node, and one node serves
two rows whose names fold together.** -/
theorem reconcile_drops_correct :
    Keyed Unicode.latin (twinWorld.proton.fileNodes 1) ∧
      (∀ L env, ¬ KeepsCorrect Unicode.latin 1 twinWorld
        ((reconcileSnapshot Unicode.latin L env 1).final twinWorld)) ∧
      Keyed Unicode.latin (foldedWorld.proton.fileNodes 1) ∧
      ∀ L env, ¬ KeepsCorrect Unicode.latin 1 foldedWorld
        ((reconcileSnapshot Unicode.latin L env 1).final foldedWorld) := by
  refine ⟨by unfold Keyed; decide, fun L env h => ?_, by unfold Keyed; decide, fun L env h => ?_⟩
  · obtain ⟨m', hm', -⟩ := h.kept (rootRow "/a" 1) List.mem_cons_self
      ⟨rootFile "u1" "a" "/D/u1" 1, List.mem_cons_self, rfl, rfl, nofun⟩
    rw [(reconcile_final _ _ _ _ _).mirror] at hm'
    exact absurd hm' List.not_mem_nil
  · have hdistinct := h.distinct
    rw [(reconcile_final _ _ _ _ _).mirror] at hdistinct
    exact hdistinct { rootRow "/ss" 1 with protonUid := some "u2".toList } List.mem_cons_self
      { rootRow "/\u00df" 1 with protonUid := some "u2".toList }
      (List.mem_cons_of_mem _ List.mem_cons_self) (by decide)
      (rootFile "u2" "ss" "/D/ss" 1) (List.mem_cons_of_mem _ List.mem_cons_self) rfl rfl

end Twins

section Covers

/-- **What the phase owes Proton**: every file node nothing accounts for is passed to a
trash call by its own CLI path, whatever Proton answers. -/
def CoversStrays (U : Unicode) (L : Listing) (snapshotId : ℕ) (w : ReconcileWorld) : Prop :=
  ∀ env, ∀ n ∈ w.proton.fileNodes snapshotId, n.comparisonKey ∉ knownKeys U L w.mirror →
    ∃ call ∈ ((reconcileSnapshot U L env snapshotId).final w).trashCalls, n.cliPath ∈ call

theorem mem_straysOf :
    n ∈ straysOf U L snapshotId w ↔
      LastUnder (w.proton.fileNodes snapshotId) n.comparisonKey n ∧
        n.comparisonKey ∉ knownKeys U L w.mirror := by
  rw [straysOf, strayNodes, List.mem_map]
  have hget : ∀ k n, (k, n) ∈ (nodesByKey (w.proton.fileNodes snapshotId)).rows ↔
      LastUnder (w.proton.fileNodes snapshotId) k n := by
    intro k n
    rw [← get?_nodesByKey, Dict.get?, Option.map_eq_some_iff]
    constructor
    · exact fun h => ⟨_, Table.mem_iff_find?.1 h, rfl⟩
    · rintro ⟨⟨k', n'⟩, h, rfl⟩
      obtain ⟨hmem, hk⟩ := Table.find?_eq_some.1 h
      obtain rfl : k' = k := hk
      exact hmem
  constructor
  · rintro ⟨⟨k, n'⟩, h, rfl⟩
    obtain ⟨h, hk⟩ := List.mem_filter.1 h
    have hlast := (hget _ _).1 h
    obtain rfl : n'.comparisonKey = k := by
      obtain ⟨_, _, -, hkey, -⟩ := hlast
      exact hkey
    exact ⟨hlast, of_decide_eq_true hk⟩
  · rintro ⟨hlast, hk⟩
    exact ⟨_, List.mem_filter.2 ⟨(hget _ _).2 hlast, decide_eq_true hk⟩, rfl⟩

theorem mem_sortedPaths {nodes : List NodeRow} {path : Str} :
    path ∈ sortedPaths nodes ↔ ∃ n ∈ nodes, n.cliPath = path := by
  rw [sortedPaths, (List.perm_insertionSort _ _).mem_iff, List.mem_map]

/-- A run whose first trash call fails makes no other. -/
theorem calls_of_failed {e : Failure} (hne : sortedPaths (straysOf U L snapshotId w) ≠ [])
    (hcalls : w.trashCalls = []) :
    ((reconcileSnapshot U L ⟨.ok (), .error e, .ok (), .ok ()⟩ snapshotId).final w).trashCalls =
      [sortedPaths (straysOf U L snapshotId w)] := by
  have htriple : Triple (fun _ _ => True) (fun v => v = w)
      (reconcileSnapshot U L ⟨.ok (), .error e, .ok (), .ok ()⟩ snapshotId) (fun _ _ => False)
      (fun _ v => v.trashCalls = [sortedPaths (straysOf U L snapshotId w)]) := by
    unfold reconcileSnapshot
    refine Triple.get_bind fun v hv => ?_
    rw [hv]
    dsimp only
    rw [known_correctMirror]
    refine Triple.bind (M := fun _ v => v.trashCalls = [])
      (Triple.write fun v hv => ⟨trivial, hv ▸ hcalls⟩) fun _ => ?_
    refine Triple.bind (M := fun _ _ => False) ?_ fun _ v hv => hv.elim
    unfold trashPaths
    rw [if_neg (show ¬ sortedPaths (strayNodes _ (_ ++ _)) = [] from hne)]
    refine Triple.bind (M := fun _ v => v.trashCalls = [sortedPaths (straysOf U L snapshotId w)])
      (Triple.write fun v hv => ⟨trivial, ?_⟩) fun _ => Triple.fail fun _ h => h
    rw [hv]
    rfl
  obtain ⟨-, hok, herr⟩ := htriple w rfl
  cases hr : (reconcileSnapshot U L ⟨.ok (), .error e, .ok (), .ok ()⟩ snapshotId w).result with
  | ok outputs => exact (hok outputs hr).elim
  | error e => exact herr e hr

/-- **No stray file stays behind exactly where each of them shares its CLI path with the
last node of an unaccounted key**: in particular where it is that node. -/
theorem reconcile_covers_iff (hcalls : w.trashCalls = []) :
    CoversStrays U L snapshotId w ↔
      ∀ n ∈ w.proton.fileNodes snapshotId, n.comparisonKey ∉ knownKeys U L w.mirror →
        ∃ n', LastUnder (w.proton.fileNodes snapshotId) n'.comparisonKey n' ∧
          n'.comparisonKey ∉ knownKeys U L w.mirror ∧ n'.cliPath = n.cliPath := by
  have hstray : ∀ n ∈ w.proton.fileNodes snapshotId, n.comparisonKey ∉ knownKeys U L w.mirror →
      sortedPaths (straysOf U L snapshotId w) ≠ [] := by
    intro n hn hk
    obtain ⟨n', hlast⟩ := exists_lastUnder hn
    have hkey : n'.comparisonKey = n.comparisonKey := by
      obtain ⟨_, _, -, hkey, -⟩ := hlast
      exact hkey
    refine List.ne_nil_of_mem (mem_sortedPaths.2 ⟨n', mem_straysOf.2 ⟨?_, ?_⟩, rfl⟩)
    · rw [hkey]
      exact hlast
    · rw [hkey]
      exact hk
  constructor
  · intro hcovers n hn hk
    obtain ⟨call, hcall, hpath⟩ := hcovers ⟨.ok (), .error .provider, .ok (), .ok ()⟩ n hn hk
    rw [calls_of_failed (hstray n hn hk) hcalls] at hcall
    rw [List.mem_singleton.1 hcall, mem_sortedPaths] at hpath
    obtain ⟨n', hn', he⟩ := hpath
    obtain ⟨hlast, hk'⟩ := mem_straysOf.1 hn'
    exact ⟨n', hlast, hk', he⟩
  · intro h env n hn hk
    obtain ⟨n', hlast, hk', he⟩ := h n hn hk
    exact ⟨_, (reconcile_final _ _ _ _ _).strays (hstray n hn hk),
      mem_sortedPaths.2 ⟨n', mem_straysOf.2 ⟨hlast, hk'⟩, he⟩⟩

section Strays

/-- Two nodes nothing accounts for, of different names. -/
def strayWorld : ReconcileWorld :=
  reconcileWorld (rootFile "u1" "a" "/D/a" 1) (rootFile "u2" "b" "/D/b" 2) (by decide) Table.empty

/-- Two nodes nothing accounts for, of one name. -/
def strayTwins : ReconcileWorld :=
  reconcileWorld (rootFile "u1" "a" "/D/u1" 1) (rootFile "u2" "a" "/D/u2" 2) (by decide) Table.empty

/-- Strays of different names are all trashed. -/
theorem reconcile_covers_pair : CoversStrays Unicode.latin Table.empty 1 strayWorld := by
  refine (reconcile_covers_iff rfl).2 fun n hn hk => ⟨n, ?_, hk, rfl⟩
  rcases List.mem_cons.1 hn with rfl | hn
  · exact get?_nodesByKey.1 rfl
  · rw [List.mem_singleton.1 hn]
    exact get?_nodesByKey.1 rfl

/-- **A stray file with a twin stays behind.** -/
theorem reconcile_leaves_stray :
    strayTwins.trashCalls = [] ∧ ¬ CoversStrays Unicode.latin Table.empty 1 strayTwins := by
  refine ⟨rfl, fun h => ?_⟩
  obtain ⟨call, hcall, hpath⟩ := h ⟨.ok (), .ok (), .ok (), .ok ()⟩ (rootFile "u1" "a" "/D/u1" 1)
    List.mem_cons_self (by decide)
  obtain rfl : call = ["/D/u2".toList] := List.mem_singleton.1 hcall
  exact absurd hpath (by decide)

end Strays

end Covers

end DropboxMirror
