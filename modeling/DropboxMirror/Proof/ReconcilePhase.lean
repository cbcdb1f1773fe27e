import DropboxMirror.Proof.Strays
import DropboxMirror.Proof.Topmost

/-!
# The reconcile phase compares with the tree

A phase walks first, forgets every other snapshot, and compares only where the one it
walked is complete. Over any sequence of phases, each killed anywhere and the next resuming
its walk, the tables stay sound (`DbInv.prune`, `reconcileRun_triple`): so the snapshot that
decides which rows are dropped and what is trashed is the tree that was walked
(`reconcile_compares_tree`).
-/

namespace DropboxMirror

open Text Crash

variable {U : Unicode} {F : ℕ → Tree} {cfg : WalkConfig} {L : Listing} {env : ReconcileEnv}
  {snapshotId : ℕ} {db : ProtonDb} {w v x : ReconcileWorld}

section Prune

theorem mem_stale {other : ℕ} :
    other ∈ db.stale snapshotId ↔ (∃ s ∈ db.snapshots, s.id = other) ∧ other ≠ snapshotId := by
  unfold ProtonDb.stale
  rw [List.mem_filter, List.mem_map, decide_eq_true_eq]
  rfl

/-- What is kept is as it was, and nothing is left of the rest. -/
theorem view_pruneOthers (other : ℕ) : (pruneOthers snapshotId db).view other =
    if other ∉ db.stale snapshotId then db.view other else SnapshotView.blank := by
  have hfolder : ∀ u, (pruneOthers snapshotId db).folders.find? (other, u) =
      if other ∉ db.stale snapshotId then db.folders.find? (other, u) else none := fun u =>
    Table.find?_filter_of_key fun f hf => by rw [show f.snapshotId = other from congrArg Prod.fst hf]
  have hnode : ∀ u, (pruneOthers snapshotId db).nodes.find? (other, u) =
      if other ∉ db.stale snapshotId then db.nodes.find? (other, u) else none := fun u =>
    Table.find?_filter_of_key fun n hn => by rw [show n.snapshotId = other from congrArg Prod.fst hn]
  refine SnapshotView.ext (funext fun u => ?_) (funext fun u => ?_) (funext fun u => propext ?_)
  · change ((pruneOthers snapshotId db).folders.find? (other, u)).map _ = _
    rw [hfolder]
    split
    · rfl
    · rfl
  · change (pruneOthers snapshotId db).nodes.find? (other, u) = _
    rw [hnode]
    split
    · rfl
    · rfl
  · change (other, u) ∈ db.commits.filter _ ↔ _
    rw [List.mem_filter, decide_eq_true_eq]
    split
    · exact and_iff_left ‹_›
    · exact iff_of_false (fun h => absurd h.2 ‹_›) False.elim

theorem mem_pruneOthers {s : ProtonSnapshot} :
    s ∈ (pruneOthers snapshotId db).snapshots ↔ s ∈ db.snapshots ∧ s.id = snapshotId := by
  unfold pruneOthers
  rw [Table.mem_filter, decide_eq_true_eq, mem_stale, not_and, not_not]
  exact and_congr_right fun hs => ⟨fun h => h ⟨s, hs, rfl⟩, fun h _ => h⟩

theorem Open.prune (h : Open cfg db snapshotId) : Open cfg (pruneOthers snapshotId db) snapshotId := by
  obtain ⟨s, hs, hid, hown⟩ := h
  exact ⟨s, mem_pruneOthers.2 ⟨hs, hid⟩, hid, hown⟩

/-- **The other snapshots may go.** -/
theorem DbInv.prune (h : DbInv U F cfg db) (hopen : Open cfg db snapshotId) :
    DbInv U F cfg (pruneOthers snapshotId db) := by
  have hkept : ∀ s ∈ (pruneOthers snapshotId db).snapshots,
      (pruneOthers snapshotId db).view s.id = db.view s.id := fun s hs => by
    rw [view_pruneOthers, if_pos fun hstale => (mem_stale.1 hstale).2 (mem_pruneOthers.1 hs).2]
  refine ⟨fun s hs hown => ?_, fun s hs hown hst => ?_, fun id hid => ?_, h.once.filter _⟩
  · rw [hkept s hs]
    exact h.sound s (mem_pruneOthers.1 hs).1 hown
  · rw [hkept s hs]
    exact h.closed s (mem_pruneOthers.1 hs).1 hown hst
  · -- an id without a snapshot had none before, or lost it now
    rw [view_pruneOthers]
    split
    · rename_i hstale
      refine h.blank id fun s hs hsid => hstale (mem_stale.2 ⟨⟨s, hs, hsid⟩, ?_⟩)
      rintro rfl
      exact hid s (mem_pruneOthers.2 ⟨hs, hsid⟩) hsid
    · rfl

end Prune

section Phase

/-- Up to the comparison a phase writes the tables of the walk alone. -/
def WalkOnly (w v : ReconcileWorld) : Prop := v = { w with proton := v.proton }

/-- **Where a phase compares**: all is as the phase found it, and the snapshot is the tree
that was walked, with the keys of its paths and its folders a forest. -/
structure Compared (U : Unicode) (F : ℕ → Tree) (w : ReconcileWorld) (snapshotId : ℕ)
    (x : ReconcileWorld) : Prop where
  only : WalkOnly w x
  snapshot : SnapshotOf U (F snapshotId) x.proton snapshotId
  keyed : Keyed U (x.proton.fileNodes snapshotId)
  forest : FolderForest (x.proton.nodesOf snapshotId)
  nest : (∀ f ∈ (F snapshotId).nodes, ∃ c ∈ f.name, c ≠ '/') → KeysNest (x.proton.nodesOf snapshotId)

theorem Compared.of_inv (honly : WalkOnly w x) (h : DbInv U F cfg x.proton)
    (hopen : Open cfg x.proton snapshotId)
    (hst : (x.proton.snapshots.find? snapshotId).map ProtonSnapshot.status = some .complete) :
    Compared U F w snapshotId x := by
  obtain ⟨s, hs, rfl, hown⟩ := hopen
  rw [Table.mem_iff_find?.1 hs, Option.map_some] at hst
  have hsnap := h.snapshotOf hs hown (Option.some.inj hst)
  exact ⟨honly, hsnap, hsnap.keyed, hsnap.forest, hsnap.keysNest⟩

/-- The output of a phase that compared. -/
def ReconcileOutputs.IsRan : ReconcileOutputs → Prop
  | .ran .. => True
  | _ => False

/-- A state of a phase that began in `w`. -/
def PhaseState (U : Unicode) (F : ℕ → Tree) (L : Listing) (env : ReconcileEnv)
    (w v : ReconcileWorld) : Prop :=
  WalkOnly w v ∨ ∃ snapshotId x, Compared U F w snapshotId x ∧
    v ∈ (reconcileSnapshot U L env snapshotId x).states

/-- The end of a phase that began in `w`. -/
def PhaseEnd (U : Unicode) (F : ℕ → Tree) (L : Listing) (env : ReconcileEnv)
    (w : ReconcileWorld) (out : ReconcileOutputs) (v : ReconcileWorld) : Prop :=
  out.IsRan → ∃ snapshotId x, Compared U F w snapshotId x ∧
    (reconcileSnapshot U L env snapshotId).result x = .ok out ∧
    v = (reconcileSnapshot U L env snapshotId).final x

theorem trashPaths_frame (answer : Except Failure Unit) (paths : List Str) :
    Frame ReconcileWorld.proton (trashPaths answer paths) := by
  unfold trashPaths
  split
  · exact Frame.pure _
  · refine Frame.bind (Frame.write fun _ => rfl) fun _ => ?_
    cases answer with
    | error e => exact Frame.fail e
    | ok u => exact Frame.pure _

/-- The comparison leaves the tables of the walk alone. -/
theorem reconcileSnapshot_frame (U : Unicode) (L : Listing) (env : ReconcileEnv) (snapshotId : ℕ) :
    Frame ReconcileWorld.proton (reconcileSnapshot U L env snapshotId) := by
  unfold reconcileSnapshot
  refine Frame.bind Frame.get fun w => ?_
  refine Frame.bind (Frame.write fun _ => rfl) fun _ => ?_
  refine Frame.bind (trashPaths_frame _ _) fun _ => ?_
  refine Frame.bind (trashPaths_frame _ _) fun _ => ?_
  cases env.push with
  | error e => exact Frame.fail e
  | ok u => exact Frame.pure _

/-- **The part after the walk.** -/
theorem reconcileWalked_triple (w : ReconcileWorld) :
    Triple (fun _ v => DbInv U F cfg v.proton ∧ PhaseState U F L env w v)
      (fun v => DbInv U F cfg v.proton ∧ Open cfg v.proton snapshotId ∧ WalkOnly w v)
      (reconcileWalked U L env snapshotId) (PhaseEnd U F L env w) (fun _ _ => True) := by
  unfold reconcileWalked
  refine Triple.bind (M := fun _ v => DbInv U F cfg v.proton ∧ Open cfg v.proton snapshotId ∧
    WalkOnly w v) (Triple.write fun v h => ?_) fun _ => Triple.get_bind fun x h => ?_
  · obtain ⟨hinv, hopen, honly⟩ := h
    have hv : WalkOnly w { v with proton := pruneOthers snapshotId v.proton } := by
      rw [WalkOnly] at honly ⊢
      rw [honly]
    exact ⟨⟨hinv.prune hopen, Or.inl hv⟩, hinv.prune hopen, hopen.prune, hv⟩
  · obtain ⟨hinv, hopen, honly⟩ := h
    split
    · -- only a complete snapshot is compared
      have hx := Compared.of_inv honly hinv hopen ‹_›
      have hproton := reconcileSnapshot_frame U L env snapshotId x
      refine ((Triple.exact _ x).mono fun _ v hv => ⟨?_, Or.inr ⟨snapshotId, x, hx, hv⟩⟩).consequence
        (fun _ hv => hv) (fun out v hv _ => ⟨snapshotId, x, hx, hv⟩) fun _ _ _ => trivial
      rw [hproton v hv]
      exact hinv
    · cases env.push with
      | error e => exact Triple.fail fun _ _ => trivial
      | ok u => exact Triple.pure fun _ _ hran => False.elim hran

/-- **A phase, whatever its walk meets.** -/
theorem reconcileRun_triple (apply due written : Bool) (L : Listing) (turns : List Turn)
    (env : ReconcileEnv) (w : ReconcileWorld)
    (honest : ∀ t ∈ turns, t.Honest (F (w.proton.walked cfg))) (hinv : DbInv U F cfg w.proton) :
    Triple (fun _ v => DbInv U F cfg v.proton ∧ PhaseState U F L env w v) (fun v => v = w)
      (reconcileRun U cfg apply due L turns written env) (PhaseEnd U F L env w)
      (fun _ _ => True) := by
  unfold reconcileRun
  refine Triple.get_bind fun v hv => ?_
  subst hv
  split
  · exact Triple.pure fun _ _ hran => False.elim hran
  split
  · exact Triple.pure fun _ _ hran => False.elim hran
  split
  · exact Triple.fail fun _ _ => trivial
  have hwalk : Triple _ _ (walkInventory U cfg false turns written) _ _ :=
    walkInventory_triple (F := F) turns false written
  refine Triple.bind (M := fun o x => DbInv U F cfg x.proton ∧ WalkOnly v x ∧
    ∀ snapshotId, o = some snapshotId → Open cfg x.proton snapshotId)
    (Triple.zoom (fun _ => rfl) ?_ ?_ fun _ _ _ _ => trivial) fun walked => ?_
  · rintro _ rfl db hdb
    exact ⟨hwalk.states ⟨hinv, honest⟩ db hdb, Or.inl rfl⟩
  · rintro _ rfl o ho
    obtain ⟨hinv', hopen⟩ := (hwalk _ ⟨hinv, honest⟩).2.1 o ho
    exact ⟨hinv', rfl, hopen⟩
  · cases walked with
    | none => exact Triple.pure fun _ _ hran => False.elim hran
    | some snapshotId =>
      refine (reconcileWalked_triple v).consequence (fun x h => ⟨h.1, h.2.2 _ rfl, h.2.1⟩)
        (fun _ _ h => h) fun _ _ h => h

end Phase

section Runs

/-- **The worlds phases leave behind**: each phase may be killed after any commit, and what
comes between two phases leaves the tables of the walk alone. `F` gives each snapshot the
tree it was walked over, which may have changed since the one before. -/
inductive Reconciled (U : Unicode) (F : ℕ → Tree) (cfg : WalkConfig) : ReconcileWorld → Prop
  | start {w : ReconcileWorld} (h : Untouched cfg w.proton) : Reconciled U F cfg w
  | between {w v : ReconcileWorld} (h : Reconciled U F cfg w) (hproton : v.proton = w.proton) :
      Reconciled U F cfg v
  | phase {w v : ReconcileWorld} (h : Reconciled U F cfg w) (apply due : Bool) (L : Listing)
      (turns : List Turn) (honest : ∀ t ∈ turns, t.Honest (F (w.proton.walked cfg)))
      (written : Bool) (env : ReconcileEnv)
      (hv : v ∈ (reconcileRun U cfg apply due L turns written env w).states) :
      Reconciled U F cfg v

theorem inv_of_reconciled (h : Reconciled U F cfg w) : DbInv U F cfg w.proton := by
  induction h with
  | start h => exact h.inv
  | between _ hproton ih => exact hproton ▸ ih
  | @phase w v _ apply due L turns honest written env hv ih =>
    exact ((reconcileRun_triple apply due written L turns env w honest ih).states rfl v hv).1

/-- **What a phase owes**: it compares with the tree or not at all. -/
structure ComparesTree (U : Unicode) (F : ℕ → Tree) (L : Listing) (env : ReconcileEnv)
    (w : ReconcileWorld) (p : Prog ReconcileWorld Failure ReconcileOutputs) : Prop where
  killed : ∀ v ∈ (p w).states, PhaseState U F L env w v
  ran : ∀ out, p.result w = .ok out → PhaseEnd U F L env w out (p.final w)

/-- **The reconcile phase compares with the tree**, after any phases, whatever the walk
meets and wherever it is cut short. -/
theorem reconcile_compares_tree (h : Reconciled U F cfg w) (apply due : Bool) (L : Listing)
    (turns : List Turn) (honest : ∀ t ∈ turns, t.Honest (F (w.proton.walked cfg)))
    (written : Bool) (env : ReconcileEnv) :
    ComparesTree U F L env w (reconcileRun U cfg apply due L turns written env) := by
  have htriple := reconcileRun_triple apply due written L turns env w honest (inv_of_reconciled h)
  exact ⟨fun v hv => (htriple.states rfl v hv).2, (htriple w rfl).2.1⟩

/-- Proton and the bucket answer. -/
def answering : ReconcileEnv := ⟨.ok (), .ok (), .ok (), .ok ()⟩

/-- A mirror with one row that no node has, before the first walk. -/
def unwalkedWorld : ReconcileWorld := { resumedWorld with proton := ProtonDb.empty }

/-- The phase that was killed once its snapshot was open. -/
def openedWorld : ReconcileWorld :=
  (reconcileRun Unicode.latin twoWorkers true true folderListing [] true answering).final unwalkedWorld

/-- The phase that resumes it. -/
def resumedPhase : Prog ReconcileWorld Failure ReconcileOutputs :=
  reconcileRun Unicode.latin twoWorkers true true folderListing
    [landing photosTree, landing photosTree] true answering

/-- A phase killed once its snapshot is open is resumed: it drops the row and trashes the
file, and leaves the folder, which Dropbox has. -/
theorem reconcile_compares_tree_resumed :
    ComparesTree Unicode.latin (fun _ => photosTree) folderListing answering openedWorld resumedPhase ∧
      resumedPhase.result openedWorld = .ok (.ran 1 1 1 0 1 0 0) ∧
      (resumedPhase.final openedWorld).trashCalls = [["/my-files/D/a/b".toList]] := by
  have hopened : Reconciled Unicode.latin (fun _ => photosTree) twoWorkers openedWorld :=
    (Reconciled.start untouched_empty).phase true true folderListing []
      (fun t ht => absurd ht List.not_mem_nil) true answering (Prog.final_mem (by decide))
  exact ⟨reconcile_compares_tree hopened true true folderListing _ (honest_landings photosTree) true
    answering, by decide, by decide⟩

end Runs

end DropboxMirror
