import DropboxMirror.Model.Report
import DropboxMirror.Proof.Accounted
import DropboxMirror.Proof.Trash

/-!
# Two deltas in a row

A run leaves the mirror as it was, but for the files it checkpointed, which it holds as
they were listed, and the rows it recorded as gone (`RunEffect`). So the next delta on
the same listing has what the run did not settle, and nothing else.

* `batchesRun_triple`: the batches of a run, whatever they meet.
* `RunLeaves.effect`: a run as far as it came, with its trash phase.
* `delta_converges`: the next delta, and the figures of the report.
-/

namespace DropboxMirror

open Crash

variable {U : Unicode} {D : Digests} {S : Set ℕ} {runId : ℕ} {L : Listing} {M : Mirror} {Δ : Delta}
  {d : DropboxObject} {m : MirrorObject} {v v' w : World}

section Figures

/-- The listed files have what the delta and the join compare. -/
def Hashed (L : Listing) : Prop :=
  ∀ d ∈ L, d.isFile = true → d.contentHash.isSome = true ∧ d.size.isSome = true

theorem joined_eq_some : joined M d = some m ↔ m ∈ M ∧ d.pathLower = some m.pathLower := by
  rw [joined, Option.bind_eq_some_iff]
  constructor
  · rintro ⟨p, hp, hm⟩
    obtain ⟨hmem, rfl⟩ := Table.find?_eq_some.1 hm
    exact ⟨hmem, hp⟩
  · rintro ⟨hm, hp⟩
    exact ⟨_, hp, Table.mem_iff_find?.1 hm⟩

theorem joins_iff : joins m d = true ↔ d.pathLower = some m.pathLower ∧ d.isFile = true ∧
    d.size = some m.size ∧ d.contentHash = some m.contentHash := by
  simp [joins, and_assoc]

/-- A listed file is unchanged exactly where it joins a mirror row. -/
theorem isChanged_eq_false (hL : Hashed L) (hd : d ∈ L) (hfile : d.isFile = true) :
    isChanged M d = false ↔ ∃ m ∈ M, joins m d = true := by
  obtain ⟨hhash, hsize⟩ := hL d hd hfile
  rw [isChanged, hfile, hhash, hsize, Bool.true_and, Bool.true_and, Bool.true_and]
  simp only [joins_iff, hfile, true_and]
  cases hj : joined M d with
  | none =>
    constructor
    · intro h
      exact absurd h (by simp)
    · rintro ⟨m, hm, hp, -⟩
      rw [joined_eq_some.2 ⟨hm, hp⟩] at hj
      cases hj
  | some m =>
    obtain ⟨hm, hp⟩ := joined_eq_some.1 hj
    simp only [Bool.or_eq_false_iff, decide_eq_false_iff_not, not_not]
    constructor
    · intro h
      exact ⟨m, hm, hp, h⟩
    · rintro ⟨m', hm', hp', h⟩
      -- The join has at most one mirror row for a path.
      have hmm : m' = m := Table.eq_of_key_eq hm' hm (Option.some.inj (hp'.symm.trans hp))
      rwa [← hmm]

/-- The join has a row for every unchanged file. -/
theorem length_joinedRows (hL : Hashed L) :
    (joinedRows L M).length = ((listedFiles L).filter fun d => !isChanged M d).length := by
  have hmem : ∀ m d, (m, d) ∈ joinedRows L M ↔ (m ∈ M ∧ d ∈ L) ∧ joins m d = true := fun m d => by
    rw [joinedRows, List.mem_filter, List.mem_product]
    rfl
  have hML : (M.rows ×ˢ L.rows).Nodup :=
    (List.Nodup.of_map _ M.nodup).product (List.Nodup.of_map _ L.nodup)
  have hperm : ((joinedRows L M).map Prod.snd).Perm ((listedFiles L).filter fun d => !isChanged M d) := by
    refine (List.perm_ext_iff_of_nodup ?_ ?_).2 fun d => ?_
    · -- a file joins one row at most
      refine List.Nodup.map_on ?_ (hML.filter _)
      rintro ⟨m, d⟩ h ⟨m', d'⟩ h' rfl
      obtain ⟨⟨hm, -⟩, hj⟩ := (hmem m d).1 h
      obtain ⟨⟨hm', -⟩, hj'⟩ := (hmem m' d).1 h'
      have hp := (joins_iff.1 hj).1.symm.trans (joins_iff.1 hj').1
      rw [Table.eq_of_key_eq hm hm' (Option.some.inj hp)]
    · exact ((List.Nodup.of_map _ L.nodup).filter _).filter _
    · rw [List.mem_filter, mem_listedFiles, Bool.not_eq_true', List.mem_map]
      constructor
      · rintro ⟨⟨m, d⟩, h, rfl⟩
        obtain ⟨⟨hm, hd⟩, hj⟩ := (hmem m d).1 h
        have hfile := (joins_iff.1 hj).2.1
        exact ⟨⟨hd, hfile⟩, (isChanged_eq_false hL hd hfile).2 ⟨m, hm, hj⟩⟩
      · rintro ⟨⟨hd, hfile⟩, hc⟩
        obtain ⟨m, hm, hj⟩ := (isChanged_eq_false hL hd hfile).1 hc
        exact ⟨(m, d), (hmem m d).2 ⟨⟨hm, hd⟩, hj⟩, rfl⟩
  rw [← hperm.length_eq, List.length_map]

/-- **The report counts as mirrored the listed files a delta would not list.** -/
theorem figures_total (hL : Hashed L) {rows : List DeltaChanged}
    (hrows : changedRows U runId L M = .ok rows) :
    (inventoryFigures L).files = rows.length + (mirroredFigures L M).files := by
  have hchanged : (listedFiles L).countP (isChanged M) = rows.length := by
    rw [length_changedRows hrows, listedFiles, List.countP_filter, ← List.countP_eq_length_filter]
    refine List.countP_congr fun d _ => ?_
    simp only [isChanged, Bool.and_eq_true]
    tauto
  have hfiles : (inventoryFigures L).files = (listedFiles L).length := List.countP_eq_length_filter
  have hmirrored : (mirroredFigures L M).files =
      (listedFiles L).countP fun d => decide ¬ isChanged M d = true := by
    rw [List.countP_eq_length_filter]
    exact (length_joinedRows hL).trans (by simp)
  rw [hfiles, hmirrored, ← hchanged]
  exact List.length_eq_countP_add_countP _

end Figures

section Batches

/-- The batches of a run. -/
def World.ofRun (v : World) (runId : ℕ) : Set ℕ := {id | ∃ r ∈ v.batches, r.id = id ∧ r.runId = runId}

/-- What holds while the batches `S` of a run run: their items are changed files, the
mirror has those that are `CHECKPOINTED`, and every other path as it was in `M`. -/
structure RunInv (S : Set ℕ) (Δ : Delta) (M : Mirror) (v : World) : Prop where
  items : ∀ i ∈ v.items, i.batchId ∈ S → ∃ r ∈ Δ.changed,
    i.pathLower = r.pathLower ∧ i.size = r.size ∧ i.contentHash = r.contentHash
  landed : ∀ i ∈ v.items, i.batchId ∈ S → i.status = .checkpointed →
    ∃ m, v.mirror.find? i.pathLower = some m ∧ m.size = i.size ∧ m.contentHash = i.contentHash
  kept : ∀ p, (∀ i ∈ v.items, i.batchId ∈ S → i.pathLower = p → i.status ≠ .checkpointed) →
    v.mirror.find? p = M.find? p

/-- A `CHECKPOINTED` item stays where it is. -/
theorem not_moved_checkpointed {i i' : BatchItem} (h : Moved D v i i') : i.status ≠ .checkpointed := by
  intro hs
  have hmove := h.move
  rw [hs] at hmove
  cases hmove

/-- **One commit keeps the run's invariant.** -/
theorem RunInv.of_link (h : RunInv S Δ M v) (hl : Link D S v v') : RunInv S Δ M v' := by
  have hback : ∀ i' ∈ v'.items, ∃ i ∈ v.items, SameItem i i' := fun i' hi' => by
    obtain ⟨i, hi, hii⟩ := Pointwise.exists_left hl.items hi'
    exact ⟨i, hi, sameItem_of_link hii⟩
  have hitems : ∀ i ∈ v'.items, i.batchId ∈ S → ∃ r ∈ Δ.changed,
      i.pathLower = r.pathLower ∧ i.size = r.size ∧ i.contentHash = r.contentHash := by
    intro i' hi' hS
    obtain ⟨i, hi, hsame⟩ := hback i' hi'
    rw [hsame.batchId] at hS
    obtain ⟨r, hr, hp, hz, hc⟩ := h.items i hi hS
    exact ⟨r, hr, hsame.pathLower.trans hp, hsame.size.trans hz, hsame.contentHash.trans hc⟩
  refine ⟨hitems, fun i' hi' hS hs => ?_, fun p hp => ?_⟩
  · rcases hl.mirror i'.pathLower with ⟨i, hi, hiS, hpath, -, m, hm, hrow⟩ | ⟨hsame, hold⟩
    · -- both items are the changed file of the path
      obtain ⟨r, hr, hrp, hrz, hrc⟩ := hitems i' hi' hS
      obtain ⟨r', hr', hrp', hrz', hrc'⟩ := h.items i hi hiS
      obtain rfl : r = r' := Table.eq_of_key_eq hr hr' (hrp.symm.trans (hpath.symm.trans hrp'))
      exact ⟨m, hm, by rw [hrow.size, hrz', hrz], by rw [hrow.contentHash, hrc', hrc]⟩
    · rw [hsame]
      exact h.landed i' (hold i' hi' rfl hs) hS hs
  · rcases hl.mirror p with ⟨i, -, hiS, hpath, ⟨i', hi', hm, hs⟩, -⟩ | ⟨hsame, -⟩
    · exact absurd hs (hp i' hi' (hm.batchId ▸ hiS) (hm.pathLower.trans hpath))
    · rw [hsame]
      refine h.kept p fun i hi hS hpath hs => ?_
      obtain ⟨i', hi', hii⟩ := Pointwise.exists_right hl.items hi
      rcases hii with rfl | ⟨-, hm⟩
      · exact hp i' hi' hS hpath hs
      · exact not_moved_checkpointed hm hs

/-- A run no batch and no deletion belongs to yet. -/
structure FreshRun (runId : ℕ) (w : World) : Prop where
  tables : TablesOk w
  batches : ∀ r ∈ w.batches, r.runId ≠ runId
  deletions : ∀ d ∈ w.deletions, d.runId ≠ runId

/-- Before the plan the run has nothing. -/
theorem FreshRun.runInv (hw : FreshRun runId w) : RunInv (w.ofRun runId) Δ w.mirror w := by
  have hnone : ∀ i : BatchItem, i.batchId ∉ w.ofRun runId := fun i ⟨r, hr, _, hrun⟩ =>
    hw.batches r hr hrun
  exact ⟨fun i _ hS => absurd hS (hnone i), fun i _ hS => absurd hS (hnone i), fun _ _ => rfl⟩

/-- The plan gives the run its items, all of them `PLANNED`. -/
theorem FreshRun.planned {budget : Budget} {free : ℕ} (hw : FreshRun runId w)
    (h : Inserted runId (plannedRows budget free Δ) (dropPlanned w) v) :
    RunInv (v.ofRun runId) Δ w.mirror v := by
  obtain ⟨new, hi, hf, -⟩ := h.items
  obtain ⟨bs, hb, hbs⟩ := h.batches
  have hold : ∀ r ∈ (dropPlanned w).batches, r ∈ v.batches ∧ r.runId ≠ runId := fun r hr =>
    ⟨by rw [Table.mem_def, hb]; exact List.mem_append_left _ hr,
      hw.batches r (Table.mem_filter.1 hr).1⟩
  have hnew : ∀ i ∈ v.items, i.batchId ∈ v.ofRun runId →
      ∃ r ∈ plannedRows budget free Δ, ∃ id, i = itemRow id r := by
    rintro i hmem ⟨b, hbmem, hbid, hbrun⟩
    rw [Table.mem_def, hi, List.mem_append] at hmem
    rcases hmem with hmem | hmem
    · -- an older item is of an older batch
      obtain ⟨r, hr, hri⟩ := (dropPlanned_ok hw.tables).ref i hmem
      obtain ⟨hr, hrun⟩ := hold r hr
      rw [Table.eq_of_key_eq hr hbmem (hri.trans hbid.symm)] at hrun
      exact absurd hbrun hrun
    · obtain ⟨r, hr, hri⟩ := Pointwise.exists_left hf hmem
      exact ⟨r, hr, hri⟩
  have hplanned : ∀ i ∈ v.items, i.batchId ∈ v.ofRun runId → i.status ≠ .checkpointed := by
    intro i hmem hS
    obtain ⟨r, -, id, rfl⟩ := hnew i hmem hS
    exact ItemStatus.noConfusion
  refine ⟨fun i hmem hS => ?_, fun i hmem hS hs => absurd hs (hplanned i hmem hS),
    fun p _ => by rw [h.mirror]; rfl⟩
  obtain ⟨r, hr, id, rfl⟩ := hnew i hmem hS
  exact ⟨r, (mem_plannedRows.1 hr).1, rfl, rfl, rfl⟩

theorem Link.mono {S' : Set ℕ} (h : Link D S v v') (hS : S ⊆ S') : Link D S' v v' := by
  refine ⟨h.items.imp fun _ _ hii => hii.imp_right fun h => ⟨hS h.1, h.2⟩, fun p => ?_, h.batches,
    h.deletions⟩
  exact (h.mirror p).imp_left fun ⟨i, hi, hiS, h⟩ => ⟨i, hi, hS hiS, h⟩

/-- Writes of the loop itself leave items and mirror alone. -/
theorem Link.of_loop (hi : v'.items = v.items) (hm : v'.mirror = v.mirror) (hb : SameBatches v v')
    (hd : v'.deletions = v.deletions) : Link D S v v' :=
  (Quiet.of_eq hi hm hb hd).toLink

theorem failBatch_triple {α : Type} (planned completed batchId : ℕ) (e : Failure) :
    Triple (Link D S) (fun _ => True) (failBatch planned completed batchId e : Step α)
      (fun _ _ => True) (fun _ _ => True) := by
  unfold failBatch updateRun
  refine Triple.bind (M := fun _ _ => True) (Triple.write fun v _ => ⟨?_, trivial⟩) fun _ =>
    Triple.bind (M := fun _ _ => True) (Triple.write fun v _ => ⟨?_, trivial⟩) fun _ =>
      Triple.fail fun _ _ => trivial
  · exact Link.of_loop rfl rfl (SameBatches.of_setBatch rfl) rfl
  · exact Link.of_loop rfl rfl (SameBatches.of_eq rfl) rfl

/-- **The loop over the batches**, whatever they meet. -/
theorem batchLoop_triple (runId planned : ℕ) (minutes : ℚ) (env : Batch → BatchEnv) {rows : List Batch}
    (hS : ∀ r ∈ rows, r.id ∈ S) : ∀ progress,
      Triple (Link D S) (fun _ => True) (batchLoop D runId planned minutes env rows progress)
        (fun _ _ => True) (fun _ _ => True) := by
  induction rows with
  | nil => exact fun _ => Triple.pure fun _ _ => trivial
  | cons row rest ih =>
    intro progress
    unfold batchLoop
    split
    · refine Triple.bind (M := fun _ _ => True) ?_ fun counts => Triple.get_bind fun v _ => ?_
      · refine Triple.catchError (M := fun _ _ => True) (Triple.pre fun v _ => ?_) fun e =>
          failBatch_triple planned progress.completed row.id e
        refine ((batchSteps_triple runId row.id (env row)).mono fun u u' h => h.mono ?_).consequence
          (fun _ h => h) (fun _ _ _ => trivial) fun _ _ _ => trivial
        exact Set.singleton_subset_iff.2 (hS row List.mem_cons_self)
      · split
        · exact Triple.pure fun _ _ => trivial
        · exact (ih (fun r hr => hS r (List.mem_cons_of_mem _ hr)) _).consequence
            (fun _ _ => trivial) (fun _ _ h => h) fun _ _ h => h
    · exact Triple.pure fun _ _ => trivial

/-- **The batches phase.** -/
theorem batchesRun_triple (apply : Bool) (minutes : ℚ) (root : Except Failure Unit)
    (env : Batch → BatchEnv) :
    Triple (Link D (w.ofRun runId)) (fun v => v = w) (batchesRun D apply runId minutes root env)
      (fun _ _ => True) (fun _ _ => True) := by
  unfold batchesRun
  refine Triple.get_bind fun v hv => ?_
  rw [hv]
  dsimp only
  split
  · exact Triple.pure fun _ _ => trivial
  · cases root with
    | error e => exact Triple.fail fun _ _ => trivial
    | ok _ =>
      have hS : ∀ r ∈ w.plannedBatches runId, r.id ∈ w.ofRun runId := fun r hr => by
        obtain ⟨hr, hrun, -⟩ := mem_plannedBatches.1 hr
        exact ⟨r, hr, rfl, hrun⟩
      refine Triple.bind (M := fun _ _ => True) ((batchLoop_triple runId _ minutes env hS _).consequence
        (fun _ _ => trivial) (fun _ _ h => h) fun _ _ h => h) fun progress => ?_
      refine Triple.bind (M := fun _ _ => True) (Triple.write fun v _ => ⟨?_, trivial⟩) fun _ => ?_
      · exact Link.of_loop rfl rfl (SameBatches.of_eq rfl) rfl
      · split
        · exact Triple.fail fun _ _ => trivial
        · split
          · exact Triple.fail fun _ _ => trivial
          · exact Triple.pure fun _ _ => trivial

end Batches

section Outcomes

variable {destination : Str} {budget : Budget} {free : ℕ}

/-- **What the plan and the batches leave**: each may be killed after any commit. -/
inductive BatchesLeave (D : Digests) (budget : Budget) (free runId : ℕ) (L : Listing) (Δ : Delta)
    (w : World) : World → Prop
  | start : BatchesLeave D budget free runId L Δ w w
  | plan {v : World} (hv : v ∈ (planRun budget free runId L Δ w).states) :
      BatchesLeave D budget free runId L Δ w v
  | batches {v : World} {outputs : PlanOutputs} (apply : Bool) (minutes : ℚ)
      (root : Except Failure Unit) (env : Batch → BatchEnv)
      (hp : (planRun budget free runId L Δ).result w = .ok outputs)
      (hv : v ∈ (batchesRun D apply runId minutes root env
        ((planRun budget free runId L Δ).final w)).states) :
      BatchesLeave D budget free runId L Δ w v

/-- **What a run leaves**: the trash phase comes last, or not at all. -/
inductive RunLeaves (U : Unicode) (D : Digests) (destination : Str) (budget : Budget)
    (free runId : ℕ) (L : Listing) (Δ : Delta) (w : World) : World → Prop
  | untrashed {v : World} (hv : BatchesLeave D budget free runId L Δ w v) :
      RunLeaves U D destination budget free runId L Δ w v
  | trashed {v : World} (hv : BatchesLeave D budget free runId L Δ w v) (apply : Bool)
      (env : TrashEnv) {outputs : TrashOutputs}
      (ht : (trashRun U destination apply runId Δ env).result v = .ok outputs) :
      RunLeaves U D destination budget free runId L Δ w
        ((trashRun U destination apply runId Δ env).final v)

/-- An item of the run is `CHECKPOINTED` at the path. -/
def ItemCheckpointed (runId : ℕ) (v : World) (p : Str) : Prop :=
  ∃ i ∈ v.items, i.batchId ∈ v.ofRun runId ∧ i.pathLower = p ∧ i.status = .checkpointed

/-- The run recorded the path as `TRASHED` or `NOT_FOUND`. -/
def RecordedGone (runId : ℕ) (v : World) (p : Str) : Prop :=
  ∃ d ∈ v.deletions, d.runId = runId ∧ d.pathLower = p ∧ (d.status = .trashed ∨ d.status = .notFound)

/-- **What a run does to the mirror** it found as `M`. -/
structure RunEffect (runId : ℕ) (Δ : Delta) (M : Mirror) (v : World) : Prop where
  landed : ∀ p, ItemCheckpointed runId v p → ∃ r ∈ Δ.changed, r.pathLower = p ∧
    ∃ m, v.mirror.find? p = some m ∧ m.size = r.size ∧ m.contentHash = r.contentHash
  gone : ∀ p, RecordedGone runId v p → (∃ r ∈ Δ.deleted, r.pathLower = p) ∧ v.mirror.find? p = none
  kept : ∀ p, ¬ ItemCheckpointed runId v p → ¬ RecordedGone runId v p →
    v.mirror.find? p = M.find? p

theorem ofRun_of_sameBatches (h : SameBatches v v') : v'.ofRun runId = v.ofRun runId := by
  ext id
  constructor
  · rintro ⟨r', hr', hid, hrun⟩
    obtain ⟨r, hr, hrr⟩ := Pointwise.exists_left h hr'
    rw [hrr] at hid hrun
    exact ⟨r, hr, hid, hrun⟩
  · rintro ⟨r, hr, hid, hrun⟩
    obtain ⟨r', hr', hrr⟩ := Pointwise.exists_right h hr
    exact ⟨r', hr', by rw [hrr]; exact hid, by rw [hrr]; exact hrun⟩

/-- **The batches of a run, killed anywhere.** -/
theorem BatchesLeave.runInv (hw : FreshRun runId w) (h : BatchesLeave D budget free runId L Δ w v) :
    RunInv (v.ofRun runId) Δ w.mirror v ∧ v.deletions = w.deletions := by
  have hplan := planRun_triple budget free runId L Δ hw.tables
  cases h with
  | start => exact ⟨hw.runInv, rfl⟩
  | plan hv =>
    have hreach := hplan.killed rfl hv
    cases hreach with
    | refl => exact ⟨hw.runInv, rfl⟩
    | tail _ hlast => exact ⟨hw.planned hlast.2, hlast.2.deletions⟩
  | batches apply minutes root env hp hv =>
    have hins := (hplan w rfl).2.1 _ hp
    set u := (planRun budget free runId L Δ).final w with hu
    have hreach := (batchesRun_triple (D := D) apply minutes root env).killed rfl hv
    have key : v.ofRun runId = u.ofRun runId ∧ RunInv (u.ofRun runId) Δ w.mirror v ∧
        v.deletions = u.deletions := by
      clear hv
      induction hreach with
      | refl => exact ⟨rfl, hw.planned hins, rfl⟩
      | tail _ hl ih =>
        exact ⟨(ofRun_of_sameBatches hl.batches).trans ih.1, ih.2.1.of_link hl,
          hl.deletions.trans ih.2.2⟩
    rw [key.1]
    exact ⟨key.2.1, key.2.2.trans hins.deletions⟩

/-- A run without a trash phase. -/
theorem RunInv.effect (h : RunInv (v.ofRun runId) Δ M v) (hgone : ∀ p, ¬ RecordedGone runId v p) :
    RunEffect runId Δ M v := by
  refine ⟨?_, fun p hp => absurd hp (hgone p), fun p hp _ => ?_⟩
  · rintro p ⟨i, hi, hS, rfl, hs⟩
    obtain ⟨r, hr, hrp, hrz, hrc⟩ := h.items i hi hS
    obtain ⟨m, hm, hz, hc⟩ := h.landed i hi hS hs
    exact ⟨r, hr, hrp.symm, m, hm, hz.trans hrz, hc.trans hrc⟩
  · exact h.kept p fun i hi hS hpath hs => hp ⟨i, hi, hS, hpath, hs⟩

/-- The `DELETE` drops what is recorded as gone, and no other row. -/
theorem find?_dropTrashed (runId : ℕ) (p : Str) (v : World) :
    (RecordedGone runId v p → (dropTrashed runId v).mirror.find? p = none) ∧
      (¬ RecordedGone runId v p → (dropTrashed runId v).mirror.find? p = v.mirror.find? p) := by
  have hfind := Table.find?_filter v.mirror (fun m => !v.deletions.rows.any fun d =>
    decide (d.runId = runId ∧ d.pathLower = m.pathLower ∧
      (d.status = .trashed ∨ d.status = .notFound))) p
  have hany : ∀ m : MirrorObject, m.pathLower = p → ((v.deletions.rows.any fun d =>
      decide (d.runId = runId ∧ d.pathLower = m.pathLower ∧
        (d.status = .trashed ∨ d.status = .notFound))) = true ↔ RecordedGone runId v p) := by
    rintro m rfl
    simp only [List.any_eq_true, decide_eq_true_eq]
    rfl
  rw [show (dropTrashed runId v).mirror.find? p = _ from hfind]
  cases hm : v.mirror.find? p with
  | none => exact ⟨fun _ => rfl, fun _ => rfl⟩
  | some m =>
    have hiff := hany m (Table.find?_eq_some.1 hm).2
    rw [Option.filter_some]
    refine ⟨fun h => if_neg ?_, fun h => if_pos ?_⟩
    · rw [hiff.2 h]
      exact Bool.false_ne_true
    · rw [Bool.not_eq_true', ← Bool.not_eq_true, hiff]
      exact h

/-- What a trash phase records belongs to the run and its deleted rows. -/
theorem trashLinks {list : Str → Option (List ProtonNode)} {rows : List DeltaDeleted}
    (h : Relation.ReflTransGen (TrashLink U destination list runId rows) v v') :
    v'.items = v.items ∧ v'.batches = v.batches ∧ ∀ x ∈ v'.deletions, x ∈ v.deletions ∨
      x.runId = runId ∧ ∃ r ∈ rows, r.pathLower = x.pathLower := by
  induction h with
  | refl => exact ⟨rfl, rfl, fun _ hx => Or.inl hx⟩
  | tail _ hl ih =>
    obtain ⟨hi, hb, hd⟩ := ih
    refine ⟨hl.items.trans hi, hl.batches.trans hb, fun x hx => ?_⟩
    rcases hl.deletions x hx with hx | hx
    · exact hd x hx
    · exact Or.inr hx

/-- A changed path is not a deleted one. -/
theorem changed_not_deleted {ratio : ℚ} (hΔ : deltaRun U ratio runId (some L) M = .ok Δ)
    {r : DeltaChanged} (hr : r ∈ Δ.changed) {x : DeltaDeleted} (hx : x ∈ Δ.deleted) :
    x.pathLower ≠ r.pathLower := by
  obtain ⟨_, ⟨⟩, -, hrows, hdel⟩ := deltaRun_ok hΔ
  obtain ⟨d, hd, hc, hrow⟩ := (mem_changedRows hrows).1 hr
  rw [hdel] at hx
  obtain ⟨m, -, hgone, rfl⟩ := mem_deletedRows.1 hx
  intro hp
  have hfile := isDeleted_iff.1 hgone d hd ((changedRow_ok hrow).1.trans (congrArg some hp.symm))
  rw [isChanged, hfile] at hc
  exact absurd hc (by simp)

/-- **A run, as far as it came, with its trash phase.** -/
theorem RunLeaves.effect {ratio : ℚ} (hw : FreshRun runId w)
    (hΔ : deltaRun U ratio runId (some L) w.mirror = .ok Δ)
    (h : RunLeaves U D destination budget free runId L Δ w v) : RunEffect runId Δ w.mirror v := by
  have hfresh : ∀ u : World, u.deletions = w.deletions → ∀ p, ¬ RecordedGone runId u p := by
    rintro u hu p ⟨x, hx, hrun, -⟩
    rw [hu] at hx
    exact hw.deletions x hx hrun
  cases h with
  | untrashed hv =>
    obtain ⟨hinv, hdel⟩ := hv.runInv hw
    exact hinv.effect (hfresh _ hdel)
  | @trashed u hv apply env outputs ht =>
    obtain ⟨hinv, hdel⟩ := hv.runInv hw
    have heff := hinv.effect (hfresh u hdel)
    have htriple := trash_triple U destination apply runId Δ env (w := u)
    obtain ⟨hitems, hbatches, hrec⟩ := trashLinks (htriple.final_reached rfl)
    have hpost := ((htriple u rfl).2.1 _ ht).mirror
    set v := (trashRun U destination apply runId Δ env).final u with hvdef
    have hcheck : ∀ p, ItemCheckpointed runId v p ↔ ItemCheckpointed runId u p := fun p => by
      rw [ItemCheckpointed, ItemCheckpointed, hitems, World.ofRun, World.ofRun, hbatches]
    rcases hpost with ⟨hmirror, hsame⟩ | ⟨x, hvx, hx⟩
    · -- the phase waited
      have hnone := hfresh v (hsame.trans hdel)
      refine ⟨fun p hp => ?_, fun p hp => absurd hp (hnone p), fun p hp _ => ?_⟩
      · rw [hmirror]
        exact heff.landed p ((hcheck p).1 hp)
      · rw [hmirror]
        exact heff.kept p (fun h => hp ((hcheck p).2 h)) (hfresh u hdel p)
    -- the phase ran: its `DELETE` drops the rows it recorded as gone
    · have hgone : ∀ p, RecordedGone runId v p ↔ RecordedGone runId x p := fun p => by
        rw [RecordedGone, RecordedGone, hvx]
        rfl
      have hfind := fun p => find?_dropTrashed runId p x
      rw [← hvx] at hfind
      have hdeleted : ∀ p, RecordedGone runId v p → ∃ r ∈ Δ.deleted, r.pathLower = p := by
        rintro p ⟨y, hy, hrun, rfl, -⟩
        rcases hrec y hy with hy | ⟨-, hy⟩
        · rw [hdel] at hy
          exact absurd hrun (hw.deletions y hy)
        · exact hy
      refine ⟨fun p hp => ?_, fun p hp => ⟨hdeleted p hp, (hfind p).1 ((hgone p).1 hp)⟩,
        fun p hp hnot => ?_⟩
      · obtain ⟨r, hr, rfl, hm⟩ := heff.landed p ((hcheck p).1 hp)
        refine ⟨r, hr, rfl, ?_⟩
        -- a path the run changed is not one it deleted
        rw [(hfind _).2 fun hg => ?_, hx]
        · exact hm
        · obtain ⟨y, hy, hyp⟩ := hdeleted _ ((hgone _).2 hg)
          exact changed_not_deleted hΔ hr hy hyp
      · rw [(hfind p).2 (fun hg => hnot ((hgone p).2 hg)), hx]
        exact heff.kept p (fun h => hp ((hcheck p).2 h)) (hfresh u hdel p)

end Outcomes

section Next

variable {ratio ratio' : ℚ} {runId' : ℕ} {Δ' : Delta}

/-- **What the next delta owes the run before it**: the changed files whose items are not
`CHECKPOINTED`, the deleted rows not recorded as gone, and the report's figures. -/
structure Converges (runId runId' : ℕ) (L : Listing) (Δ Δ' : Delta) (v : World) : Prop where
  changed : ∀ r', r' ∈ Δ'.changed ↔
    ∃ r ∈ Δ.changed, ¬ ItemCheckpointed runId v r.pathLower ∧ r' = { r with runId := runId' }
  deleted : ∀ r', r' ∈ Δ'.deleted ↔
    ∃ r ∈ Δ.deleted, ¬ RecordedGone runId v r.pathLower ∧ r' = { r with runId := runId' }
  figures : ((inventoryFigures L).files : ℤ) - (mirroredFigures L v.mirror).files = Δ'.changed.size

/-- No listed file has an empty path. -/
def FilePaths (L : Listing) : Prop := ∀ d ∈ L, d.isFile = true → d.pathLower ≠ some []

theorem changedRow_runId (runId runId' : ℕ) {display : Dict Str Str} {r' : DeltaChanged} :
    changedRow runId' display d = .ok r' ↔
      ∃ r, changedRow runId display d = .ok r ∧ r' = { r with runId := runId' } := by
  unfold changedRow
  split <;> simp [eq_comm]

theorem isFile_of_isChanged (h : isChanged M d = true) : d.isFile = true := by
  simp only [isChanged, Bool.and_eq_true] at h
  exact h.1.1.1

/-- A listed file is not recorded as gone. -/
theorem RunEffect.not_gone (heff : RunEffect runId Δ M v)
    (hΔ : deltaRun U ratio runId (some L) M = .ok Δ) (hd : d ∈ L) (hfile : d.isFile = true)
    {p : Str} (hp : d.pathLower = some p) : ¬ RecordedGone runId v p := by
  intro hg
  obtain ⟨⟨x, hx, rfl⟩, -⟩ := heff.gone p hg
  obtain ⟨_, ⟨⟩, -, -, hdel⟩ := deltaRun_ok hΔ
  rw [hdel] at hx
  obtain ⟨m, -, hgone, rfl⟩ := mem_deletedRows.1 hx
  exact absurd hfile (by rw [isDeleted_iff.1 hgone d hd hp]; exact Bool.false_ne_true)

/-- **A listed file is changed again exactly if its item is not `CHECKPOINTED`.** -/
theorem RunEffect.isChanged_iff (heff : RunEffect runId Δ M v) (hL : FilePaths L)
    (hΔ : deltaRun U ratio runId (some L) M = .ok Δ) (hd : d ∈ L) (hfile : d.isFile = true)
    {p : Str} (hp : d.pathLower = some p) :
    isChanged v.mirror d = true ↔ isChanged M d = true ∧ ¬ ItemCheckpointed runId v p := by
  by_cases hc : ItemCheckpointed runId v p
  · -- the mirror holds the file as it is listed
    refine ⟨fun h => ?_, fun h => absurd hc h.2⟩
    obtain ⟨r, hr, hrp, m, hm, hz, hh⟩ := heff.landed p hc
    obtain ⟨_, ⟨⟩, -, hrows, -⟩ := deltaRun_ok hΔ
    obtain ⟨d', hd', -, hrow⟩ := (mem_changedRows hrows).1 hr
    obtain ⟨hp', hz', hh', -⟩ := changedRow_ok hrow
    have hpne : p ≠ [] := fun hnil => hL d hd hfile (hp.trans (congrArg some hnil))
    obtain rfl : d' = d := Table.eq_of_key_eq hd' hd (by
      rw [DropboxObject.objectKey_of_pathLower (hp'.trans (congrArg some hrp)) hpne,
        DropboxObject.objectKey_of_pathLower hp hpne])
    have hj : joined v.mirror d' = some m := by
      rw [joined, hp, Option.bind_some]
      exact hm
    simp [isChanged, hj, hz', hh', hz, hh] at h
  · have hsame : joined v.mirror d = joined M d := by
      rw [joined, joined, hp, Option.bind_some, Option.bind_some]
      exact heff.kept p hc (heff.not_gone hΔ hd hfile hp)
    rw [isChanged, isChanged, hsame]
    exact ⟨fun h => ⟨h, hc⟩, And.left⟩

/-- The changed files of the next delta. -/
theorem RunEffect.changed (heff : RunEffect runId Δ M v) (hL : FilePaths L)
    (hΔ : deltaRun U ratio runId (some L) M = .ok Δ)
    (hΔ' : deltaRun U ratio' runId' (some L) v.mirror = .ok Δ') (r' : DeltaChanged) :
    r' ∈ Δ'.changed ↔
      ∃ r ∈ Δ.changed, ¬ ItemCheckpointed runId v r.pathLower ∧ r' = { r with runId := runId' } := by
  obtain ⟨_, ⟨⟩, -, hrows, -⟩ := deltaRun_ok hΔ
  obtain ⟨_, ⟨⟩, -, hrows', -⟩ := deltaRun_ok hΔ'
  rw [Table.mem_def, mem_changedRows hrows']
  constructor
  · rintro ⟨d, hd, hc, hrow⟩
    obtain ⟨r, hr, rfl⟩ := (changedRow_runId runId runId').1 hrow
    have hp := (changedRow_ok hr).1
    obtain ⟨hc, hnot⟩ := (heff.isChanged_iff hL hΔ hd (isFile_of_isChanged hc) hp).1 hc
    exact ⟨r, (mem_changedRows hrows).2 ⟨d, hd, hc, hr⟩, hnot, rfl⟩
  · rintro ⟨r, hr, hnot, rfl⟩
    obtain ⟨d, hd, hc, hrow⟩ := (mem_changedRows hrows).1 hr
    have hp := (changedRow_ok hrow).1
    exact ⟨d, hd, (heff.isChanged_iff hL hΔ hd (isFile_of_isChanged hc) hp).2 ⟨hc, hnot⟩,
      (changedRow_runId runId runId').2 ⟨r, hrow, rfl⟩⟩

/-- A path without a listed file is not `CHECKPOINTED`. -/
theorem RunEffect.not_checkpointed (heff : RunEffect runId Δ M v)
    (hΔ : deltaRun U ratio runId (some L) M = .ok Δ) (hgone : isDeleted L m = true) :
    ¬ ItemCheckpointed runId v m.pathLower := by
  intro hc
  obtain ⟨r, hr, hrp, -⟩ := heff.landed _ hc
  obtain ⟨_, ⟨⟩, -, hrows, -⟩ := deltaRun_ok hΔ
  obtain ⟨d, hd, hchanged, hrow⟩ := (mem_changedRows hrows).1 hr
  have hfile := isDeleted_iff.1 hgone d hd ((changedRow_ok hrow).1.trans (congrArg some hrp))
  rw [isFile_of_isChanged hchanged] at hfile
  cases hfile

/-- The deleted rows of the next delta. -/
theorem RunEffect.deleted (heff : RunEffect runId Δ M v)
    (hΔ : deltaRun U ratio runId (some L) M = .ok Δ)
    (hΔ' : deltaRun U ratio' runId' (some L) v.mirror = .ok Δ') (r' : DeltaDeleted) :
    r' ∈ Δ'.deleted ↔
      ∃ r ∈ Δ.deleted, ¬ RecordedGone runId v r.pathLower ∧ r' = { r with runId := runId' } := by
  obtain ⟨_, ⟨⟩, -, -, hdel⟩ := deltaRun_ok hΔ
  obtain ⟨_, ⟨⟩, -, -, hdel'⟩ := deltaRun_ok hΔ'
  rw [hdel, hdel', mem_deletedRows]
  simp only [mem_deletedRows]
  constructor
  · rintro ⟨m, hm, hgone, rfl⟩
    have hfind := Table.mem_iff_find?.1 hm
    have hnot : ¬ RecordedGone runId v m.pathLower := fun hg => by
      rw [(heff.gone _ hg).2] at hfind
      cases hfind
    rw [heff.kept _ (heff.not_checkpointed hΔ hgone) hnot] at hfind
    exact ⟨_, ⟨m, Table.mem_iff_find?.2 hfind, hgone, rfl⟩, hnot, rfl⟩
  · rintro ⟨_, ⟨m, hm, hgone, rfl⟩, hnot, rfl⟩
    refine ⟨m, Table.mem_iff_find?.2 ?_, hgone, rfl⟩
    rw [heff.kept _ (heff.not_checkpointed hΔ hgone) hnot]
    exact Table.mem_iff_find?.1 hm

/-- **The pipeline converges on the listing**, for every mirror, every listing and every
outcome of a run. -/
theorem delta_converges {destination : Str} {budget : Budget} {free : ℕ} {L₀ : Listing}
    (hL : FilePaths (finishListing L₀)) (hw : FreshRun runId w)
    (hΔ : deltaRun U ratio runId (some (finishListing L₀)) w.mirror = .ok Δ)
    (hv : RunLeaves U D destination budget free runId (finishListing L₀) Δ w v)
    (hΔ' : deltaRun U ratio' runId' (some (finishListing L₀)) v.mirror = .ok Δ') :
    Converges runId runId' (finishListing L₀) Δ Δ' v := by
  have heff := hv.effect hw hΔ
  refine ⟨heff.changed hL hΔ hΔ', heff.deleted hΔ hΔ', ?_⟩
  obtain ⟨_, ⟨⟩, -, hrows, -⟩ := deltaRun_ok hΔ'
  have htotal := figures_total (fun d hd hfile => mem_finishListing hd hfile) hrows
  rw [htotal, Table.size]
  omega

section Landed

/-- A mirrored file that left Dropbox. -/
def leftWorld : World := { World.initial with mirror := ⟨[plainRow "/c"], List.nodup_singleton _⟩ }

/-- The changed files of a run on two new files. -/
def twoFilesChanged (runId : ℕ) : List DeltaChanged :=
  [⟨runId, "/a".toList, "/a".toList, 1, "h".toList⟩, ⟨runId, "/b".toList, "/b".toList, 1, "h".toList⟩]

/-- The delta of that run. -/
def twoFilesDelta : Delta where
  changed := ⟨twoFilesChanged 1, by decide⟩
  deleted := deletedRows 1 (finishListing twoFiles) leftWorld.mirror
  listedFiles := 2
  mirroredFiles := 1

/-- The file `/a` is served, and `/b` is gone when its turn comes. -/
def halfEnv : BatchEnv :=
  { smoothEnv with
    download := fun i => if i.pathLower = "/a".toList then .served [104] else .notFound }

/-- Proton lists the destination, without the file that left. -/
def emptyFolderEnv : TrashEnv := ⟨.ok (), fun _ => some [], fun _ => .ok (), .ok ()⟩

/-- What the batches of the run leave. -/
def halfWorld : World :=
  (batchesRun Digests.plain true 1 60 (.ok ()) fun _ => halfEnv).final
    ((planRun Budget.small 100 1 (finishListing twoFiles) twoFilesDelta).final leftWorld)

/-- What the run leaves. -/
def landedHalf : World :=
  (trashRun Unicode.latin "/D".toList true 1 twoFilesDelta emptyFolderEnv).final halfWorld

theorem runLeaves_half : RunLeaves Unicode.latin Digests.plain "/D".toList Budget.small 100 1
    (finishListing twoFiles) twoFilesDelta leftWorld landedHalf := by
  have hbatches : BatchesLeave Digests.plain Budget.small 100 1 (finishListing twoFiles)
      twoFilesDelta leftWorld halfWorld :=
    BatchesLeave.batches true 60 (.ok ()) (fun _ => halfEnv) rfl (Prog.final_mem (by decide))
  exact RunLeaves.trashed hbatches true emptyFolderEnv rfl

/-- The file that was gone is changed again, and the one that left is not deleted again. -/
theorem delta_converges_half : ∃ Δ',
    deltaRun Unicode.latin Budget.small.listingFloorRatio 2 (some (finishListing twoFiles))
      landedHalf.mirror = .ok Δ' ∧
    Δ'.changed.rows.map DeltaChanged.pathLower = ["/b".toList] ∧ Δ'.deleted.rows = [] ∧
    Converges 1 2 (finishListing twoFiles) twoFilesDelta Δ' landedHalf := by
  have hrows : changedRows Unicode.latin 1 (finishListing twoFiles) leftWorld.mirror =
      .ok (twoFilesChanged 1) := rfl
  have hrows' : changedRows Unicode.latin 2 (finishListing twoFiles) landedHalf.mirror =
      .ok [⟨2, "/b".toList, "/b".toList, 1, "h".toList⟩] := rfl
  have hΔ : deltaRun Unicode.latin Budget.small.listingFloorRatio 1 (some (finishListing twoFiles))
      leftWorld.mirror = .ok twoFilesDelta :=
    deltaRun_accepts (fun _ => by decide +kernel) hrows (by decide)
  have hfloor : FloorOk Budget.small.listingFloorRatio (finishListing twoFiles) landedHalf.mirror :=
    fun _ => by decide +kernel
  have hΔ' := deltaRun_accepts hfloor hrows' (by decide)
  have hfresh : FreshRun 1 leftWorld :=
    ⟨⟨fun i hi => absurd hi List.not_mem_nil, fun r hr => absurd hr List.not_mem_nil⟩,
      fun r hr => absurd hr List.not_mem_nil, fun x hx => absurd hx List.not_mem_nil⟩
  have hpaths : FilePaths (finishListing twoFiles) := by
    unfold FilePaths
    decide
  exact ⟨_, hΔ', rfl, rfl, delta_converges hpaths hfresh hΔ runLeaves_half hΔ'⟩

end Landed

end Next

end DropboxMirror
