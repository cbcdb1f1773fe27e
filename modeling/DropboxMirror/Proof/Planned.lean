import DropboxMirror.Lib.Pointwise
import DropboxMirror.Model.Plan

/-!
# What the plan leaves

The plan keeps the two tables of batches consistent (`TablesOk`: an item belongs to a
batch, and a batch counts its items), and the items it inserts are exactly the files
it takes, one each (`Inserted`).
-/

namespace DropboxMirror

open Crash

variable {runId : ℕ} {w w' : World}

/-- The items of a batch. -/
def World.itemCount (w : World) (id : ℕ) : ℕ := w.items.rows.countP fun i => decide (i.batchId = id)

/-- `batch_items` refers to `batches`, and `file_count` is right. -/
structure TablesOk (w : World) : Prop where
  ref : ∀ i ∈ w.items, ∃ r ∈ w.batches, r.id = i.batchId
  count : ∀ r ∈ w.batches, r.fileCount = w.itemCount r.id

theorem lt_nextId {t : Table Batch.id} {r : Batch} (h : r ∈ t) : r.id < nextId t :=
  Table.lt_nextKey h

theorem insertBatch_batches (runId number : ℕ) (rows : List DeltaChanged) (w : World) :
    (insertBatch runId number rows w).batches.rows =
      w.batches.rows ++ [batchRow runId (nextId w.batches) number rows] :=
  Table.rows_upsert_next rfl

theorem insertBatch_items (runId number : ℕ) {rows : List DeltaChanged}
    (href : ∀ i ∈ w.items, ∃ r ∈ w.batches, r.id = i.batchId)
    (hnd : (rows.map DeltaChanged.pathLower).Nodup) :
    (insertBatch runId number rows w).items.rows =
      w.items.rows ++ rows.map (itemRow (nextId w.batches)) := by
  have hfold : (insertBatch runId number rows w).items =
      (rows.map (itemRow (nextId w.batches))).foldl (Table.upsert Table.ignore) w.items := by
    rw [List.foldl_map]
    rfl
  rw [hfold]
  refine Table.rows_foldl_upsert_of_new ?_ fun i hi hk => ?_
  · have hkeys : (rows.map (itemRow (nextId w.batches))).map BatchItem.key =
        (rows.map DeltaChanged.pathLower).map fun p => (nextId w.batches, p) := by
      simp [itemRow, BatchItem.key]
    rw [hkeys]
    exact hnd.map fun p q h => (Prod.mk.inj h).2
  · obtain ⟨r, -, rfl⟩ := List.mem_map.1 hi
    obtain ⟨i, hi, hik⟩ := List.mem_map.1 hk
    obtain ⟨b, hb, hbi⟩ := href i hi
    have hlt := lt_nextId hb
    have hid : i.batchId = nextId w.batches := congrArg Prod.fst hik
    omega

/-- The items of a batch refer to it, those that were there to the batches that were. -/
theorem insertBatch_ref (runId number : ℕ) {rows : List DeltaChanged}
    (href : ∀ i ∈ w.items, ∃ r ∈ w.batches, r.id = i.batchId)
    (hnd : (rows.map DeltaChanged.pathLower).Nodup) :
    ∀ i ∈ (insertBatch runId number rows w).items,
      ∃ r ∈ (insertBatch runId number rows w).batches, r.id = i.batchId := by
  have hbatches := insertBatch_batches runId number rows w
  intro i hi
  rw [Table.mem_def, insertBatch_items runId number href hnd, List.mem_append] at hi
  rcases hi with hi | hi
  · obtain ⟨r, hr, hri⟩ := href i hi
    exact ⟨r, by rw [Table.mem_def, hbatches]; exact List.mem_append_left _ hr, hri⟩
  · obtain ⟨r, -, rfl⟩ := List.mem_map.1 hi
    refine ⟨batchRow runId (nextId w.batches) number rows, ?_, rfl⟩
    rw [Table.mem_def, hbatches]
    exact List.mem_append_right _ (List.mem_singleton.2 rfl)

/-- **The inserts of one batch keep the tables consistent.** -/
theorem insertBatch_ok (runId number : ℕ) {rows : List DeltaChanged} (h : TablesOk w)
    (hnd : (rows.map DeltaChanged.pathLower).Nodup) : TablesOk (insertBatch runId number rows w) := by
  have hitems := insertBatch_items runId number h.ref hnd
  have hbatches := insertBatch_batches runId number rows w
  constructor
  · exact insertBatch_ref runId number h.ref hnd
  · intro r hr
    rw [Table.mem_def, hbatches, List.mem_append, List.mem_singleton] at hr
    rw [World.itemCount, hitems, List.countP_append, List.countP_map]
    rcases hr with hr | rfl
    -- the new items carry the new id, so the older batches count the same
    · have hlt := lt_nextId (t := w.batches) hr
      have hnone : rows.countP ((fun i => decide (i.batchId = r.id)) ∘
          itemRow (nextId w.batches)) = 0 := by
        refine List.countP_eq_zero.2 fun x _ heq => ?_
        have hid : nextId w.batches = r.id := of_decide_eq_true heq
        omega
      rw [h.count r hr, World.itemCount, hnone, Nat.add_zero]
    · have hold : w.items.rows.countP (fun i => decide (i.batchId =
          (batchRow runId (nextId w.batches) number rows).id)) = 0 := by
        refine List.countP_eq_zero.2 fun i hi heq => ?_
        obtain ⟨b, hb, hbi⟩ := h.ref i hi
        have hlt := lt_nextId hb
        have hid : i.batchId = nextId w.batches := of_decide_eq_true heq
        omega
      have hnew : rows.countP ((fun i => decide (i.batchId =
          (batchRow runId (nextId w.batches) number rows).id)) ∘ itemRow (nextId w.batches)) =
          rows.length := List.countP_eq_length.2 fun x _ => by simp [itemRow, batchRow]
      rw [hold, hnew, Nat.zero_add]
      rfl

/-- What inserts of changed files under new batches of a run leave. -/
structure Inserted (runId : ℕ) (rows : List DeltaChanged) (w w' : World) : Prop where
  items : ∃ new, w'.items.rows = w.items.rows ++ new ∧
    List.Forall₂ (fun r i => ∃ id, i = itemRow id r) rows new ∧
    ∀ i ∈ new, ∀ r ∈ w.batches, r.id ≠ i.batchId
  batches : ∃ new, w'.batches.rows = w.batches.rows ++ new ∧ ∀ r ∈ new, r.runId = runId
  mirror : w'.mirror = w.mirror
  deletions : w'.deletions = w.deletions

theorem Inserted.trans {rows rows' : List DeltaChanged} {w'' : World}
    (h : Inserted runId rows w w') (h' : Inserted runId rows' w' w'') :
    Inserted runId (rows ++ rows') w w'' := by
  obtain ⟨new, hi, hf, hn⟩ := h.items
  obtain ⟨new', hi', hf', hn'⟩ := h'.items
  obtain ⟨bs, hb, hr⟩ := h.batches
  obtain ⟨bs', hb', hr'⟩ := h'.batches
  refine ⟨⟨new ++ new', by rw [hi', hi, List.append_assoc], List.rel_append hf hf', ?_⟩,
    ⟨bs ++ bs', by rw [hb', hb, List.append_assoc], ?_⟩, h'.mirror.trans h.mirror,
    h'.deletions.trans h.deletions⟩
  · intro i hi r hr
    rcases List.mem_append.1 hi with hi | hi
    · exact hn i hi r hr
    · exact hn' i hi r (by rw [Table.mem_def, hb]; exact List.mem_append_left _ hr)
  · intro r hr₀
    rcases List.mem_append.1 hr₀ with h | h
    · exact hr r h
    · exact hr' r h

theorem insertBatch_inserted (runId number : ℕ) {rows : List DeltaChanged} (h : TablesOk w)
    (hnd : (rows.map DeltaChanged.pathLower).Nodup) :
    Inserted runId rows w (insertBatch runId number rows w) where
  items := by
    refine ⟨_, insertBatch_items runId number h.ref hnd, ?_, ?_⟩
    · exact List.forall₂_map_right_iff.2 (List.forall₂_same.2 fun r _ => ⟨_, rfl⟩)
    · intro i hi r hr
      obtain ⟨x, -, rfl⟩ := List.mem_map.1 hi
      exact (lt_nextId hr).ne
  batches := ⟨_, insertBatch_batches runId number rows w, by simp [batchRow]⟩
  mirror := rfl
  deletions := rfl

/-- **The inserts of all batches.** -/
theorem insertBatches_ok (runId number : ℕ) {batches : List (List DeltaChanged)} (h : TablesOk w)
    (hnd : (batches.flatten.map DeltaChanged.pathLower).Nodup) :
    TablesOk (insertBatches runId number batches w) ∧
      Inserted runId batches.flatten w (insertBatches runId number batches w) := by
  induction batches generalizing number w with
  | nil =>
    exact ⟨h, ⟨[], by simp [insertBatches], List.Forall₂.nil, by simp⟩, ⟨[], by simp [insertBatches],
      by simp⟩, rfl, rfl⟩
  | cons rows rest ih =>
    rw [List.flatten_cons, List.map_append] at hnd
    have hrows := (List.nodup_append.1 hnd).1
    have h1 := insertBatch_ok runId number h hrows
    obtain ⟨h2, h3⟩ := ih (number + 1) h1 (List.nodup_append.1 hnd).2.1
    exact ⟨h2, (insertBatch_inserted runId number h hrows).trans h3⟩

/-- The `DELETE`s keep whole batches with their items. -/
theorem dropPlanned_ok (h : TablesOk w) : TablesOk (dropPlanned w) := by
  have hkeep : ∀ i ∈ w.items, ∀ r ∈ w.batches, r.id = i.batchId → r.status ≠ .planned →
      (!w.batches.rows.any fun b => decide (b.id = i.batchId ∧ b.status = .planned)) = true := by
    intro i _ r hr hri hs
    rw [Bool.not_eq_true', List.any_eq_false]
    intro b hb
    rw [decide_eq_true_eq]
    rintro ⟨hbi, hbs⟩
    rw [Table.eq_of_key_eq hb hr (hbi.trans hri.symm)] at hbs
    exact hs hbs
  constructor
  · intro i hi
    obtain ⟨hi, hp⟩ := Table.mem_filter.1 hi
    obtain ⟨r, hr, hri⟩ := h.ref i hi
    refine ⟨r, Table.mem_filter.2 ⟨hr, decide_eq_true fun hs => ?_⟩, hri⟩
    rw [Bool.not_eq_true', List.any_eq_false] at hp
    exact hp r hr (decide_eq_true ⟨hri, hs⟩)
  · intro r hr
    obtain ⟨hr, hs⟩ := Table.mem_filter.1 hr
    rw [h.count r hr, World.itemCount, World.itemCount]
    simp only [dropPlanned, Table.filter, List.countP_filter]
    refine List.countP_congr fun i hi => ?_
    rw [Bool.and_eq_true, decide_eq_true_eq]
    constructor
    · intro hid
      exact ⟨hid, hkeep i hi r hr hid.symm (of_decide_eq_true hs)⟩
    · exact And.left

/-- The planned files have distinct paths. -/
theorem nodup_plannedRows (budget : Budget) (free : ℕ) (Δ : Delta) :
    ((plannedRows budget free Δ).map DeltaChanged.pathLower).Nodup := by
  have hperm := (List.perm_insertionSort (fun a b : DeltaChanged => a.pathLower ≤ b.pathLower)
    Δ.changed.rows).map DeltaChanged.pathLower
  exact (hperm.nodup_iff.2 Δ.changed.nodup).sublist (List.filter_sublist.map _)

theorem mem_plannedRows {budget : Budget} {free : ℕ} {Δ : Delta} {r : DeltaChanged} :
    r ∈ plannedRows budget free Δ ↔ r ∈ Δ.changed ∧ (r.size : ℤ) ≤ fileCap budget free := by
  rw [plannedRows, List.mem_filter, (List.perm_insertionSort _ _).mem_iff, decide_eq_true_eq]
  rfl

/-- One commit of the plan: the items are old ones and planned ones. -/
structure Replanned (v v' : World) : Prop where
  items : ∀ i ∈ v'.items, i ∈ v.items ∨ i.status = .planned
  tables : TablesOk v → TablesOk v'
  mirror : v'.mirror = v.mirror
  deletions : v'.deletions = v.deletions

theorem replanned_insertBatches {batches : List (List DeltaChanged)} (h : TablesOk w)
    (hnd : (batches.flatten.map DeltaChanged.pathLower).Nodup) :
    Replanned w (insertBatches runId 1 batches (dropPlanned w)) := by
  obtain ⟨hok, hins⟩ := insertBatches_ok runId 1 (dropPlanned_ok h) hnd
  refine ⟨?_, fun _ => hok, hins.mirror, hins.deletions⟩
  obtain ⟨new, hi, hf, -⟩ := hins.items
  intro i hmem
  rw [Table.mem_def, hi, List.mem_append] at hmem
  rcases hmem with hmem | hmem
  · exact Or.inl (Table.mem_filter.1 hmem).1
  · right
    obtain ⟨r, -, id, rfl⟩ := Pointwise.exists_left hf hmem
    rfl

/-- **The plan phase: its commits, and the items it leaves.** -/
theorem planRun_triple (budget : Budget) (free runId : ℕ) (L : Listing) (Δ : Delta)
    (h : TablesOk w) :
    Triple (fun v v' => Replanned v v' ∧ Inserted runId (plannedRows budget free Δ) (dropPlanned w) v')
      (fun v => v = w) (planRun budget free runId L Δ)
      (fun _ v => Inserted runId (plannedRows budget free Δ) (dropPlanned w) v)
      (fun _ v => v = w) := by
  unfold planRun
  refine Triple.get_bind fun s hs => ?_
  rw [hs]
  dsimp only
  split
  · exact Triple.fail fun _ h => h
  split
  · exact Triple.fail fun _ h => h
  split
  · exact Triple.fail fun _ h => h
  have hnd : ((pack (plannedRows budget free Δ) budget.batchBytes budget.batchFiles).flatten.map
      DeltaChanged.pathLower).Nodup := by
    rw [flatten_pack]
    exact nodup_plannedRows budget free Δ
  have hins := (insertBatches_ok runId 1 (dropPlanned_ok h) hnd).2
  rw [flatten_pack] at hins
  -- one transaction drops the old plan and inserts the new one
  refine Triple.bind (M := fun _ v => Inserted runId (plannedRows budget free Δ) (dropPlanned w) v)
    (Triple.write ?_) fun _ => ?_
  · rintro v rfl
    exact ⟨⟨replanned_insertBatches h hnd, hins⟩, hins⟩
  refine Triple.bind (M := fun _ v => Inserted runId (plannedRows budget free Δ) (dropPlanned w) v)
    (Triple.write fun v hv => ?_) fun _ => Triple.pure fun _ h => h
  have hrun : ∀ run, Inserted runId (plannedRows budget free Δ) (dropPlanned w) { v with run } :=
    fun _ => ⟨hv.items, hv.batches, hv.mirror, hv.deletions⟩
  exact ⟨⟨⟨fun i hi => Or.inl hi, fun hok => ⟨hok.ref, hok.count⟩, rfl, rfl⟩, hrun _⟩, hrun _⟩

end DropboxMirror
