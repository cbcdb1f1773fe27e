import DropboxMirror.Proof.Packing
import DropboxMirror.Proof.Planned

/-!
# An accepted plan fits the disk and covers the delta

The disk is checked once, on the largest file and the cap, before anything is packed;
the check bounds every batch `pack` may form (`batch_fits`).

* `insertBatches_rows`: the rows the plan inserts, batch by batch.
* `plan_fits`: what a plan that returns leaves, and that a refused one leaves nothing.
-/

namespace DropboxMirror

open Crash

variable {budget : Budget} {free runId : ℕ} {L : Listing} {Δ : Delta} {w : World}

/-- The batches of a run, in the order they were inserted. -/
def World.batchesOf (w : World) (runId : ℕ) : List Batch :=
  w.batches.rows.filter fun b => decide (b.runId = runId)

/-- The items of a batch, in the order they were inserted. -/
def World.batchItems (w : World) (id : ℕ) : List BatchItem :=
  w.items.rows.filter fun i => decide (i.batchId = id)

/-- The delta rows the plan leaves out. -/
def oversizedRows (budget : Budget) (free : ℕ) (Δ : Delta) : List DeltaChanged :=
  Δ.changed.rows.filter fun r => decide ((r.size : ℤ) > fileCap budget free)

/-- Packed batches with the ids and the numbers they get. -/
def numbered : ℕ → ℕ → List (List DeltaChanged) → List (ℕ × ℕ × List DeltaChanged)
  | _, _, [] => []
  | id, number, rows :: rest => (id, number, rows) :: numbered (id + 1) (number + 1) rest

theorem numbered_ids (id number : ℕ) (batches : List (List DeltaChanged)) :
    (numbered id number batches).map Prod.fst = List.range' id batches.length := by
  induction batches generalizing id number with
  | nil => rfl
  | cons rows rest ih => rw [numbered, List.map_cons, ih, List.length_cons, List.range'_succ]

theorem numbered_numbers (id number : ℕ) (batches : List (List DeltaChanged)) :
    (numbered id number batches).map (fun e => e.2.1) = List.range' number batches.length := by
  induction batches generalizing id number with
  | nil => rfl
  | cons rows rest ih => rw [numbered, List.map_cons, ih, List.length_cons, List.range'_succ]

theorem numbered_rows (id number : ℕ) (batches : List (List DeltaChanged)) :
    (numbered id number batches).map (fun e => e.2.2) = batches := by
  induction batches generalizing id number with
  | nil => rfl
  | cons rows rest ih => rw [numbered, List.map_cons, ih]

theorem nextId_insertBatch (runId number : ℕ) (rows : List DeltaChanged) (w : World) :
    nextId (insertBatch runId number rows w).batches = nextId w.batches + 1 := by
  have hmax : ∀ l : List ℕ, (l ++ [l.foldr max 0 + 1]).foldr max 0 = l.foldr max 0 + 1 := by
    intro l
    have hle : ∀ (l : List ℕ) (a : ℕ), l.foldr max a = max (l.foldr max 0) a := by
      intro l a
      induction l with
      | nil => simp
      | cons x l ih => rw [List.foldr_cons, List.foldr_cons, ih, max_assoc]
    rw [List.foldr_append, hle]
    simp
  rw [nextId, insertBatch_batches, List.map_append, List.map_singleton]
  have h := hmax (w.batches.rows.map Batch.id)
  exact congrArg (· + 1) h

/-- **The rows the plan inserts, batch by batch.** -/
theorem insertBatches_rows (runId number : ℕ) {batches : List (List DeltaChanged)}
    (href : ∀ i ∈ w.items, ∃ r ∈ w.batches, r.id = i.batchId)
    (hnd : (batches.flatten.map DeltaChanged.pathLower).Nodup) :
    (insertBatches runId number batches w).batches.rows = w.batches.rows ++
        (numbered (nextId w.batches) number batches).map (fun e => batchRow runId e.1 e.2.1 e.2.2) ∧
      (insertBatches runId number batches w).items.rows = w.items.rows ++
        (numbered (nextId w.batches) number batches).flatMap fun e => e.2.2.map (itemRow e.1) := by
  induction batches generalizing number w with
  | nil => simp [insertBatches, numbered]
  | cons rows rest ih =>
    rw [List.flatten_cons, List.map_append] at hnd
    have hrows := (List.nodup_append.1 hnd).1
    have hb := insertBatch_batches runId number rows w
    have hi := insertBatch_items runId number href hrows
    obtain ⟨h1, h2⟩ := ih (number + 1) (insertBatch_ref runId number href hrows)
      (List.nodup_append.1 hnd).2.1
    rw [nextId_insertBatch] at h1 h2
    rw [insertBatches, numbered, List.map_cons, List.flatMap_cons]
    constructor
    · rw [h1, hb, List.append_assoc, List.singleton_append]
    · rw [h2, hi, List.append_assoc]

/-- The disk check: room for the largest file and for a full batch. -/
def DiskOk (budget : Budget) (free : ℕ) (rows : List DeltaChanged) : Prop :=
  (rows.map DeltaChanged.size).foldr max 0 ≠ 0 →
    max ((rows.map DeltaChanged.size).foldr max 0) (min budget.batchBytes (totalSize rows)) +
      budget.headroomBytes ≤ free

/-- **The one disk check bounds every batch** `pack` forms, a file over the cap and
files without bytes included. -/
theorem batch_fits {rows : List DeltaChanged} (hdisk : DiskOk budget free rows)
    (hcap : ∀ r ∈ rows, (r.size : ℤ) ≤ fileCap budget free) {c : List DeltaChanged}
    (hc : c ∈ pack rows budget.batchBytes budget.batchFiles) :
    totalSize c + budget.headroomBytes ≤ free := by
  have hflat : (pack rows budget.batchBytes budget.batchFiles).flatten = rows := flatten_pack rows
  obtain ⟨hne, hbatch⟩ := pack_batches budget.batchFiles_pos rows c hc
  have hsub : ∀ r ∈ c, r ∈ rows := fun r hr => by
    rw [← hflat]
    exact List.mem_flatten.2 ⟨c, hc, hr⟩
  have hmax : ∀ r ∈ c, r.size ≤ (rows.map DeltaChanged.size).foldr max 0 := fun r hr =>
    List.le_max_of_le (List.mem_map_of_mem (hsub r hr)) le_rfl
  have htotal : totalSize c ≤ totalSize rows := by
    rw [← hflat]
    exact ((List.sublist_flatten_of_mem hc).map DeltaChanged.size).sum_le_sum fun _ _ => Nat.zero_le _
  rcases eq_or_ne ((rows.map DeltaChanged.size).foldr max 0) 0 with hzero | hpos
  · -- the check is skipped, and the cap of one file leaves the headroom free
    have hsum : totalSize c = 0 := List.sum_eq_zero fun n hn => by
      obtain ⟨r, hr, rfl⟩ := List.mem_map.1 hn
      have := hmax r hr
      omega
    obtain ⟨r, hr⟩ := List.exists_mem_of_ne_nil c hne
    have := hcap r (hsub r hr)
    rw [fileCap] at this
    omega
  · have hneeded := hdisk hpos
    rcases hbatch with ⟨row, rfl, -⟩ | ⟨hbytes, -, -⟩
    · have hrow := hmax row (List.mem_singleton.2 rfl)
      have hone : totalSize [row] = row.size := by simp [totalSize]
      omega
    · omega

/-- **What a plan that returns leaves.** -/
structure PlanFits (budget : Budget) (free runId : ℕ) (Δ : Delta) (out : PlanOutputs) (w : World) :
    Prop where
  covered : ∀ r ∈ Δ.changed, r ∉ oversizedRows budget free Δ →
    ∃! b, b ∈ w.batchesOf runId ∧ itemRow b.id r ∈ w.items
  left : ∀ r ∈ oversizedRows budget free Δ, ∀ b ∈ w.batchesOf runId, ∀ i ∈ w.batchItems b.id,
    i.pathLower ≠ r.pathLower
  oversized : out.oversizedFiles = (oversizedRows budget free Δ).length
  items : ∀ b ∈ w.batchesOf runId, ∀ i ∈ w.batchItems b.id, ∃ r ∈ Δ.changed, i = itemRow b.id r
  numbers : (w.batchesOf runId).map Batch.number = List.range' 1 out.batches
  totals : ∀ b ∈ w.batchesOf runId, b.bytes = ((w.batchItems b.id).map BatchItem.size).sum ∧
    b.fileCount = (w.batchItems b.id).length
  fits : ∀ b ∈ w.batchesOf runId, b.bytes + budget.headroomBytes ≤ free
  replanned : ∀ b ∈ w.batches, b.status = .planned → b.runId = runId

/-- What the inserts of packed batches leave, where no batch of the run was there. -/
structure Packed (runId : ℕ) (entries : List (ℕ × ℕ × List DeltaChanged)) (w₀ w : World) : Prop where
  batches : w.batches.rows = w₀.batches.rows ++ entries.map fun e => batchRow runId e.1 e.2.1 e.2.2
  items : w.items.rows = w₀.items.rows ++ entries.flatMap fun e => e.2.2.map (itemRow e.1)
  ids : (entries.map Prod.fst).Nodup
  fresh : ∀ i ∈ w₀.items, ∀ e ∈ entries, i.batchId ≠ e.1
  others : ∀ b ∈ w₀.batches, b.runId ≠ runId

namespace Packed

variable {entries : List (ℕ × ℕ × List DeltaChanged)} {w₀ : World}

theorem batchesOf (h : Packed runId entries w₀ w) :
    w.batchesOf runId = entries.map fun e => batchRow runId e.1 e.2.1 e.2.2 := by
  have hold : w₀.batches.rows.filter (fun b => decide (b.runId = runId)) = [] :=
    List.filter_eq_nil_iff.2 fun b hb => by simpa using h.others b hb
  have hnew : (entries.map fun e => batchRow runId e.1 e.2.1 e.2.2).filter
      (fun b => decide (b.runId = runId)) = entries.map fun e => batchRow runId e.1 e.2.1 e.2.2 :=
    List.filter_eq_self.2 fun b hb => by
      obtain ⟨e, -, rfl⟩ := List.mem_map.1 hb
      exact decide_eq_true rfl
  rw [World.batchesOf, h.batches, List.filter_append, hold, hnew, List.nil_append]

/-- **The items of a new batch are its rows.** -/
theorem batchItems (h : Packed runId entries w₀ w) {e : ℕ × ℕ × List DeltaChanged}
    (he : e ∈ entries) : w.batchItems e.1 = e.2.2.map (itemRow e.1) := by
  have hold : w₀.items.rows.filter (fun i => decide (i.batchId = e.1)) = [] :=
    List.filter_eq_nil_iff.2 fun i hi => by simpa using h.fresh i hi e he
  have hself : ∀ rows : List DeltaChanged, (rows.map (itemRow e.1)).filter
      (fun i => decide (i.batchId = e.1)) = rows.map (itemRow e.1) := fun rows =>
    List.filter_eq_self.2 fun i hi => by
      obtain ⟨r, -, rfl⟩ := List.mem_map.1 hi
      exact decide_eq_true rfl
  have hother : ∀ e' : ℕ × ℕ × List DeltaChanged, e'.1 ≠ e.1 → (e'.2.2.map (itemRow e'.1)).filter
      (fun i => decide (i.batchId = e.1)) = [] := fun e' hne =>
    List.filter_eq_nil_iff.2 fun i hi => by
      obtain ⟨r, -, rfl⟩ := List.mem_map.1 hi
      exact fun heq => hne (of_decide_eq_true heq)
  -- only the entry's own items carry its id
  have hnew : ∀ l : List (ℕ × ℕ × List DeltaChanged), (l.map Prod.fst).Nodup → e ∈ l →
      (l.flatMap fun e => e.2.2.map (itemRow e.1)).filter (fun i => decide (i.batchId = e.1)) =
        e.2.2.map (itemRow e.1) := by
    intro l
    induction l with
    | nil => exact fun _ hmem => absurd hmem List.not_mem_nil
    | cons x l ih =>
      intro hnd hmem
      rw [List.map_cons, List.nodup_cons] at hnd
      rw [List.flatMap_cons, List.filter_append]
      rcases List.mem_cons.1 hmem with rfl | hmem
      · have hrest : (l.flatMap fun e => e.2.2.map (itemRow e.1)).filter
            (fun i => decide (i.batchId = e.1)) = [] := by
          refine List.filter_eq_nil_iff.2 fun i hi => ?_
          obtain ⟨e', he', hi⟩ := List.mem_flatMap.1 hi
          obtain ⟨r, -, rfl⟩ := List.mem_map.1 hi
          have hne : e'.1 ≠ e.1 := fun heq => hnd.1 (heq ▸ List.mem_map_of_mem he')
          exact fun heq => hne (of_decide_eq_true heq)
        rw [hself, hrest, List.append_nil]
      · have hne : x.1 ≠ e.1 := fun heq => hnd.1 (heq ▸ List.mem_map_of_mem hmem)
        rw [hother x hne, ih hnd.2 hmem, List.nil_append]
  rw [World.batchItems, h.items, List.filter_append, hold, hnew entries h.ids he, List.nil_append]

/-- The batches of the run are the new ones. -/
theorem exists_entry (h : Packed runId entries w₀ w) {b : Batch} (hb : b ∈ w.batchesOf runId) :
    ∃ e ∈ entries, b = batchRow runId e.1 e.2.1 e.2.2 := by
  rw [h.batchesOf] at hb
  obtain ⟨e, he, rfl⟩ := List.mem_map.1 hb
  exact ⟨e, he, rfl⟩

/-- Each of their items is a packed row. -/
theorem exists_row (h : Packed runId entries w₀ w) {b : Batch} (hb : b ∈ w.batchesOf runId)
    {i : BatchItem} (hi : i ∈ w.batchItems b.id) : ∃ e ∈ entries, ∃ r ∈ e.2.2, i = itemRow b.id r := by
  obtain ⟨e, he, rfl⟩ := h.exists_entry hb
  change i ∈ w.batchItems e.1 at hi
  rw [h.batchItems he] at hi
  obtain ⟨r, hr, rfl⟩ := List.mem_map.1 hi
  exact ⟨e, he, r, hr, rfl⟩

/-- A row is an item of a batch exactly when it was packed there. -/
theorem mem_items (h : Packed runId entries w₀ w) {e : ℕ × ℕ × List DeltaChanged}
    (he : e ∈ entries) (hsub : ∀ r ∈ e.2.2, r ∈ Δ.changed) {r : DeltaChanged} (hr : r ∈ Δ.changed) :
    itemRow e.1 r ∈ w.items ↔ r ∈ e.2.2 := by
  have hmem : itemRow e.1 r ∈ w.items ↔ itemRow e.1 r ∈ w.batchItems e.1 := by
    rw [World.batchItems, List.mem_filter]
    exact ⟨fun hi => ⟨hi, decide_eq_true rfl⟩, And.left⟩
  rw [hmem, h.batchItems he, List.mem_map]
  constructor
  · rintro ⟨r', hr', heq⟩
    have hpath : r'.pathLower = r.pathLower := congrArg BatchItem.pathLower heq
    rwa [← Table.eq_of_key_eq (hsub r' hr') hr hpath]
  · intro hmem
    exact ⟨r, hmem, rfl⟩

end Packed

/-- The batches a plan packs. -/
def packed (budget : Budget) (free : ℕ) (Δ : Delta) : List (List DeltaChanged) :=
  pack (plannedRows budget free Δ) budget.batchBytes budget.batchFiles

theorem flatten_packed : (packed budget free Δ).flatten = plannedRows budget free Δ := flatten_pack _

/-- The planned rows are those of the batches. -/
theorem mem_plannedRows_iff_numbered (id : ℕ) {r : DeltaChanged} : r ∈ plannedRows budget free Δ ↔
    ∃ e ∈ numbered id 1 (packed budget free Δ), r ∈ e.2.2 := by
  rw [← flatten_packed, List.mem_flatten]
  nth_rewrite 1 [← numbered_rows id 1 (packed budget free Δ)]
  simp only [List.mem_map]
  constructor
  · rintro ⟨_, ⟨e, he, rfl⟩, hr⟩
    exact ⟨e, he, hr⟩
  · rintro ⟨e, he, hr⟩
    exact ⟨_, ⟨e, he, rfl⟩, hr⟩

/-- A row is packed once. -/
theorem disjoint_numbered {id : ℕ} {e e' : ℕ × ℕ × List DeltaChanged}
    (he : e ∈ numbered id 1 (packed budget free Δ)) (he' : e' ∈ numbered id 1 (packed budget free Δ))
    (hne : e ≠ e') : e.2.2.Disjoint e'.2.2 := by
  have hnd : (packed budget free Δ).flatten.Nodup := by
    rw [flatten_packed]
    exact (nodup_plannedRows budget free Δ).of_map _
  have hpair := (List.nodup_flatten.1 hnd).2
  rw [← numbered_rows id 1 (packed budget free Δ), List.pairwise_map] at hpair
  have hsymm : Std.Symm fun e e' : ℕ × ℕ × List DeltaChanged => e.2.2.Disjoint e'.2.2 :=
    ⟨fun _ _ h => h.symm⟩
  exact hpair.forall he he' hne

/-- The planned rows, and the ones left out. -/
theorem mem_oversizedRows {r : DeltaChanged} : r ∈ oversizedRows budget free Δ ↔
    r ∈ Δ.changed ∧ r ∉ plannedRows budget free Δ := by
  rw [oversizedRows, List.mem_filter, decide_eq_true_eq, mem_plannedRows]
  constructor
  · rintro ⟨hr, hlarge⟩
    exact ⟨hr, fun h => absurd h.2 (Int.not_le.2 hlarge)⟩
  · rintro ⟨hr, hnot⟩
    exact ⟨hr, Int.not_le.1 fun hle => hnot ⟨hr, hle⟩⟩

/-- The world a plan that returns leaves. -/
def planned (budget : Budget) (free runId : ℕ) (Δ : Delta) (w : World) : World :=
  let w' := insertBatches runId 1 (packed budget free Δ) (dropPlanned w)
  { w' with run := { w'.run with plannedBatches := some (packed budget free Δ).length } }

/-- **What the plan decides.** It raises and commits nothing, or it leaves `planned`. -/
theorem planRun_cases (budget : Budget) (free runId : ℕ) (L : Listing) (Δ : Delta) (w : World) :
    (∃ e, (planRun budget free runId L Δ w).result = .error e ∧
      (planRun budget free runId L Δ w).states = []) ∨
    DiskOk budget free (plannedRows budget free Δ) ∧
      (planRun budget free runId L Δ).final w = planned budget free runId Δ w ∧
      ∃ out, (planRun budget free runId L Δ w).result = .ok out ∧
        out.batches = (packed budget free Δ).length ∧
        out.oversizedFiles = (oversizedRows budget free Δ).length := by
  unfold planRun Prog.final
  rw [Prog.get_bind]
  dsimp only
  split
  · exact Or.inl ⟨_, rfl, rfl⟩
  split
  · exact Or.inl ⟨_, rfl, rfl⟩
  rename_i hdisk
  split
  · exact Or.inl ⟨_, rfl, rfl⟩
  · refine Or.inr ⟨fun hpos => ?_, rfl, _, rfl, rfl, rfl⟩
    by_contra hlt
    exact hdisk ⟨hpos, Nat.not_le.1 hlt⟩

/-- Where the run has only batches that wait, its new ones are all it has. -/
theorem planned_packed (href : ∀ i ∈ w.items, ∃ b ∈ w.batches, b.id = i.batchId)
    (honly : ∀ b ∈ w.batches, b.runId = runId → b.status = .planned) :
    Packed runId (numbered (nextId (dropPlanned w).batches) 1 (packed budget free Δ)) (dropPlanned w)
      (planned budget free runId Δ w) := by
  -- the `DELETE`s keep an item only with its batch
  have href₀ : ∀ i ∈ (dropPlanned w).items, ∃ b ∈ (dropPlanned w).batches, b.id = i.batchId := by
    intro i hi
    obtain ⟨hi, hkeep⟩ := Table.mem_filter.1 hi
    obtain ⟨b, hb, hbi⟩ := href i hi
    refine ⟨b, Table.mem_filter.2 ⟨hb, decide_eq_true fun hs => ?_⟩, hbi⟩
    rw [Bool.not_eq_true', List.any_eq_false] at hkeep
    exact hkeep b hb (decide_eq_true ⟨hbi, hs⟩)
  have hnd : ((packed budget free Δ).flatten.map DeltaChanged.pathLower).Nodup := by
    rw [flatten_packed]
    exact nodup_plannedRows budget free Δ
  obtain ⟨hbatches, hitems⟩ := insertBatches_rows runId 1 href₀ hnd
  refine ⟨hbatches, hitems, ?_, fun i hi e he => ?_, fun b hb hrun => ?_⟩
  · rw [numbered_ids]
    exact List.nodup_range'
  · have hid : e.1 ∈ List.range' (nextId (dropPlanned w).batches) (packed budget free Δ).length := by
      rw [← numbered_ids _ 1]
      exact List.mem_map_of_mem he
    obtain ⟨b, hb, hbi⟩ := href₀ i hi
    have hlt := lt_nextId hb
    have hle := (List.mem_range'_1.1 hid).1
    omega
  · obtain ⟨hb, hs⟩ := Table.mem_filter.1 hb
    exact of_decide_eq_true hs (honly b hb hrun)

/-- **A plan that returns fits the disk and covers the delta.** -/
theorem planned_fits (href : ∀ i ∈ w.items, ∃ b ∈ w.batches, b.id = i.batchId)
    (honly : ∀ b ∈ w.batches, b.runId = runId → b.status = .planned)
    (hdisk : DiskOk budget free (plannedRows budget free Δ)) {out : PlanOutputs}
    (hbatches : out.batches = (packed budget free Δ).length)
    (hover : out.oversizedFiles = (oversizedRows budget free Δ).length) :
    PlanFits budget free runId Δ out (planned budget free runId Δ w) := by
  set entries := numbered (nextId (dropPlanned w).batches) 1 (packed budget free Δ)
  have h : Packed runId entries (dropPlanned w) (planned budget free runId Δ w) :=
    planned_packed href honly
  have hplanned : ∀ {r}, r ∈ plannedRows budget free Δ ↔ ∃ e ∈ entries, r ∈ e.2.2 :=
    mem_plannedRows_iff_numbered _
  have hdelta : ∀ e ∈ entries, ∀ r ∈ e.2.2, r ∈ Δ.changed := by
    intro e he r hr
    exact (mem_plannedRows.1 (hplanned.2 ⟨e, he, hr⟩)).1
  refine ⟨?_, ?_, hover, ?_, ?_, ?_, ?_, ?_⟩
  · -- a row that is not left out is an item of the batch it was packed in, and of no other
    intro r hr hnot
    have hplan : r ∈ plannedRows budget free Δ := by
      by_contra hn
      exact hnot (mem_oversizedRows.2 ⟨hr, hn⟩)
    obtain ⟨e, he, hre⟩ := hplanned.1 hplan
    refine ⟨batchRow runId e.1 e.2.1 e.2.2, ⟨?_, (h.mem_items he (hdelta e he) hr).2 hre⟩, ?_⟩
    · rw [h.batchesOf]
      exact List.mem_map_of_mem he
    · rintro b ⟨hb, hi⟩
      obtain ⟨e', he', rfl⟩ := h.exists_entry hb
      have hre' := (h.mem_items he' (hdelta e' he') hr).1 hi
      by_contra hne
      have hee : e' ≠ e := fun heq => hne (by rw [heq])
      exact disjoint_numbered he' he hee hre' hre
  · -- a row that is left out has no item
    intro r hr b hb i hi hpath
    obtain ⟨e, he, r', hr', rfl⟩ := h.exists_row hb hi
    obtain ⟨hmem, hnot⟩ := mem_oversizedRows.1 hr
    rw [← Table.eq_of_key_eq (hdelta e he r' hr') hmem hpath] at hnot
    exact hnot (hplanned.2 ⟨e, he, hr'⟩)
  · intro b hb i hi
    obtain ⟨e, he, r, hr, rfl⟩ := h.exists_row hb hi
    exact ⟨r, hdelta e he r hr, rfl⟩
  · rw [h.batchesOf, hbatches, List.map_map, ← numbered_numbers (nextId (dropPlanned w).batches)]
    rfl
  · intro b hb
    obtain ⟨e, he, rfl⟩ := h.exists_entry hb
    rw [show (batchRow runId e.1 e.2.1 e.2.2).id = e.1 from rfl, h.batchItems he, List.map_map,
      List.length_map]
    exact ⟨rfl, rfl⟩
  · intro b hb
    obtain ⟨e, he, rfl⟩ := h.exists_entry hb
    have hrows : e.2.2 ∈ packed budget free Δ := by
      rw [← numbered_rows (nextId (dropPlanned w).batches) 1 (packed budget free Δ)]
      exact List.mem_map_of_mem he
    exact batch_fits hdisk (fun r hr => (mem_plannedRows.1 hr).2) hrows
  · -- an older batch that waits would have been dropped
    intro b hb hs
    rw [Table.mem_def, h.batches, List.mem_append] at hb
    rcases hb with hb | hb
    · exact absurd hs (of_decide_eq_true (Table.mem_filter.1 hb).2)
    · obtain ⟨e, -, rfl⟩ := List.mem_map.1 hb
      rfl

/-- **A plan that is accepted fits the disk and covers the delta; a refused one changes
nothing.** -/
theorem plan_fits (budget : Budget) (free runId : ℕ) (L : Listing) (Δ : Delta) (w : World)
    (href : ∀ i ∈ w.items, ∃ b ∈ w.batches, b.id = i.batchId)
    (honly : ∀ b ∈ w.batches, b.runId = runId → b.status = .planned) :
    (∀ out, (planRun budget free runId L Δ).result w = .ok out →
        PlanFits budget free runId Δ out ((planRun budget free runId L Δ).final w)) ∧
      ∀ e, (planRun budget free runId L Δ).result w = .error e →
        (planRun budget free runId L Δ w).states = [] := by
  rcases planRun_cases budget free runId L Δ w with
    ⟨e, herr, hstates⟩ | ⟨hdisk, hfinal, out, hok, hbatches, hover⟩
  · refine ⟨fun out hout => ?_, fun _ _ => hstates⟩
    rw [Prog.result, herr] at hout
    cases hout
  · refine ⟨fun out' hout => ?_, fun e he => ?_⟩
    · obtain rfl : out = out' := Except.ok.inj (hok.symm.trans hout)
      rw [hfinal]
      exact planned_fits href honly hdisk hbatches hover
    · rw [Prog.result, hok] at he
      cases he

section Example

/-- A delta of an empty file, a small one and one that the disk cannot stage. -/
def fitsDelta : Delta where
  changed := ⟨[⟨1, "/a".toList, "/a".toList, 0, []⟩, ⟨1, "/b".toList, "/b".toList, 4, []⟩,
    ⟨1, "/c".toList, "/c".toList, 9, []⟩], by decide⟩
  deleted := Table.empty
  listedFiles := 3
  mirroredFiles := 0

/-- With six bytes free and one kept, the file of nine is left out. -/
theorem plan_fits_small : ∃ out,
    (planRun Budget.small 6 1 Table.empty fitsDelta).result World.initial = .ok out ∧
      out.batches = 1 ∧ out.oversizedFiles = 1 ∧
      PlanFits Budget.small 6 1 fitsDelta out
        ((planRun Budget.small 6 1 Table.empty fitsDelta).final World.initial) := by
  refine ⟨_, rfl, by decide, by decide, ?_⟩
  exact (plan_fits Budget.small 6 1 Table.empty fitsDelta World.initial
    (fun _ hi => absurd hi List.not_mem_nil) (fun _ hb => absurd hb List.not_mem_nil)).1 _ rfl

end Example

end DropboxMirror
