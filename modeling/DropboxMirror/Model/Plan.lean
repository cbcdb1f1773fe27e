import DropboxMirror.Model.Delta
import DropboxMirror.Model.World

/-!
# The plan phase

`phases/p30_plan.py` packs the changed files into batches by bytes and by count,
leaves out the files the disk cannot stage, and replaces the batches no run executed.

* `flatten_pack`: packing loses, repeats and reorders nothing.
* `pack_bounds`: each batch is one large file or keeps both bounds.
-/

namespace DropboxMirror

open Crash

/-- The loop of `pack`: the batch under way, in order, and its bytes. -/
def packRows (batchBytes batchFiles : ℕ) :
    List DeltaChanged → List DeltaChanged → ℕ → List (List DeltaChanged)
  | current, [], _ => if current = [] then [] else [current]
  | current, row :: rows, bytes =>
    if row.size > batchBytes then
      if current = [] then [row] :: packRows batchBytes batchFiles [] rows 0
      else current :: [row] :: packRows batchBytes batchFiles [] rows 0
    else if current ≠ [] ∧ (bytes + row.size > batchBytes ∨ current.length ≥ batchFiles) then
      current :: packRows batchBytes batchFiles [row] rows row.size
    else packRows batchBytes batchFiles (current ++ [row]) rows (bytes + row.size)

/-- `pack`. -/
def pack (rows : List DeltaChanged) (batchBytes batchFiles : ℕ) : List (List DeltaChanged) :=
  packRows batchBytes batchFiles [] rows 0

/-- The bytes of a list of changed files. -/
def totalSize (rows : List DeltaChanged) : ℕ := (rows.map DeltaChanged.size).sum

/-- `cursor.lastrowid` of an insert into `batches`: one past the largest id. -/
def nextId (t : Table Batch.id) : ℕ := (t.rows.map Batch.id).foldr max 0 + 1

/-- The batch row of one packed batch. -/
def batchRow (runId id number : ℕ) (rows : List DeltaChanged) : Batch :=
  { id, runId, number, bytes := totalSize rows, fileCount := rows.length, status := .planned }

/-- The item row of one changed file. -/
def itemRow (id : ℕ) (r : DeltaChanged) : BatchItem :=
  { batchId := id, pathLower := r.pathLower, pathDisplay := r.pathDisplay, size := r.size,
    contentHash := r.contentHash, status := .planned, sha1 := none, sha256 := none,
    details := .empty }

/-- The inserts of one batch. -/
def insertBatch (runId number : ℕ) (rows : List DeltaChanged) (w : World) : World :=
  let id := nextId w.batches
  { w with
    batches := w.batches.upsert Table.ignore (batchRow runId id number rows)
    items := rows.foldl (fun t r => t.upsert Table.ignore (itemRow id r)) w.items }

/-- The inserts of all batches, numbered from `number`. -/
def insertBatches (runId : ℕ) : ℕ → List (List DeltaChanged) → World → World
  | _, [], w => w
  | number, rows :: rest, w =>
    insertBatches runId (number + 1) rest (insertBatch runId number rows w)

/-- The `DELETE`s of the plan: batches no run executed, and their items. -/
def dropPlanned (w : World) : World :=
  { w with
    batches := w.batches.filter fun b => decide (b.status ≠ .planned)
    items := w.items.filter fun i =>
      !w.batches.rows.any fun b => decide (b.id = i.batchId ∧ b.status = .planned) }

/-- What the plan phase reports. -/
structure PlanOutputs where
  batches : ℕ
  files : ℕ
  bytes : ℕ
  largestFile : ℕ
  treeBytes : ℕ
  freeBytes : ℕ
  fileCapBytes : ℤ
  oversizedFiles : ℕ
  oversizedBytes : ℕ
  deriving DecidableEq, Repr

/-- The largest file that can be staged. -/
def fileCap (budget : Budget) (free : ℕ) : ℤ := min budget.maxFileBytes (free - budget.headroomBytes)

/-- The changed files of a run, in path order, that the plan takes. -/
def plannedRows (budget : Budget) (free : ℕ) (Δ : Delta) : List DeltaChanged :=
  (Δ.changed.rows.insertionSort fun a b => a.pathLower ≤ b.pathLower).filter fun r =>
    decide ((r.size : ℤ) ≤ fileCap budget free)

/-- `SUM(size)` over the files of a listing. -/
def treeBytes (L : Listing) : ℕ := ((listedFiles L).filterMap DropboxObject.size).sum

/-- `run`: the plan of a run, with `free` bytes on the disk. -/
def planRun (budget : Budget) (free runId : ℕ) (L : Listing) (Δ : Delta) : Step PlanOutputs := do
  let w ← Prog.get
  if treeBytes L > budget.ceilingBytes then
    Prog.fail (.ceiling (treeBytes L) budget.ceilingBytes)
  else
    let oversized := Δ.changed.rows.filter fun r => decide ((r.size : ℤ) > fileCap budget free)
    let rows := plannedRows budget free Δ
    let largest := (rows.map DeltaChanged.size).foldr max 0
    let needed := max largest (min budget.batchBytes (totalSize rows)) + budget.headroomBytes
    if largest ≠ 0 ∧ free < needed then
      Prog.fail (.disk free needed)
    else
      let batches := pack rows budget.batchBytes budget.batchFiles
      -- `UNIQUE(run_id, number)`: an executed batch of this run keeps its number
      if (dropPlanned w).batches.rows.any fun b =>
          decide (b.runId = runId ∧ 1 ≤ b.number ∧ b.number ≤ batches.length) then
        Prog.fail .integrity
      else do
        Prog.write fun w => insertBatches runId 1 batches (dropPlanned w)
        Prog.write fun w => { w with run := { w.run with plannedBatches := some batches.length } }
        return {
          batches := batches.length, files := rows.length, bytes := totalSize rows,
          largestFile := largest, treeBytes := treeBytes L, freeBytes := free,
          fileCapBytes := fileCap budget free, oversizedFiles := oversized.length,
          oversizedBytes := totalSize oversized }

section Pack

variable {batchBytes batchFiles : ℕ}

/-- **Packing loses, repeats and reorders nothing.** -/
theorem flatten_packRows (current rows : List DeltaChanged) (bytes : ℕ) :
    (packRows batchBytes batchFiles current rows bytes).flatten = current ++ rows := by
  induction rows generalizing current bytes with
  | nil =>
    rw [packRows]
    split
    · rename_i h
      simp [h]
    · simp
  | cons row rows ih =>
    rw [packRows]
    split
    · split
      · rename_i h
        rw [List.flatten_cons, ih, h]
        simp
      · rw [List.flatten_cons, List.flatten_cons, ih]
        simp
    · split
      · rw [List.flatten_cons, ih]
        simp
      · rw [ih]
        simp

theorem flatten_pack (rows : List DeltaChanged) :
    (pack rows batchBytes batchFiles).flatten = rows := flatten_packRows [] rows 0

theorem totalSize_append (p q : List DeltaChanged) :
    totalSize (p ++ q) = totalSize p + totalSize q := by simp [totalSize]

/-- A batch the plan accepts: one file over the bound, or files within both bounds. -/
def BatchOk (batchBytes batchFiles : ℕ) (rows : List DeltaChanged) : Prop :=
  (∃ row, rows = [row] ∧ batchBytes < row.size) ∨
    totalSize rows ≤ batchBytes ∧ rows.length ≤ batchFiles ∧ rows ≠ []

theorem packRows_ok (hfiles : 1 ≤ batchFiles) (current rows : List DeltaChanged) (bytes : ℕ)
    (hbytes : bytes = totalSize current) (hle : totalSize current ≤ batchBytes)
    (hlen : current.length ≤ batchFiles) :
    ∀ c ∈ packRows batchBytes batchFiles current rows bytes, BatchOk batchBytes batchFiles c := by
  induction rows generalizing current bytes with
  | nil =>
    rw [packRows]
    split
    · simp
    · rename_i hne
      intro c hc
      rw [List.mem_singleton.1 hc]
      exact Or.inr ⟨hle, hlen, hne⟩
  | cons row rows ih =>
    -- the batch under way is closed before a row that is large by itself, or does not fit
    have hrest := ih [] 0 rfl (Nat.zero_le _) (Nat.zero_le _)
    rw [packRows]
    split
    · rename_i hbig
      have hone : BatchOk batchBytes batchFiles [row] := Or.inl ⟨row, rfl, hbig⟩
      split
      · intro c hc
        rcases List.mem_cons.1 hc with rfl | hc
        · exact hone
        · exact hrest c hc
      · rename_i hne
        intro c hc
        rcases List.mem_cons.1 hc with rfl | hc
        · exact Or.inr ⟨hle, hlen, hne⟩
        rcases List.mem_cons.1 hc with rfl | hc
        · exact hone
        · exact hrest c hc
    · rename_i hsmall
      have hrow : totalSize [row] = row.size := by simp [totalSize]
      split
      · rename_i hfull
        intro c hc
        rcases List.mem_cons.1 hc with rfl | hc
        · exact Or.inr ⟨hle, hlen, hfull.1⟩
        · exact ih [row] row.size hrow.symm (by omega) hfiles c hc
      · rename_i hroom
        refine ih _ _ (by rw [totalSize_append, hrow, hbytes]) ?_ ?_
        · rw [totalSize_append, hrow]
          rcases eq_or_ne current [] with h | h
          · subst h
            simpa [totalSize] using hsmall
          · by_contra hgt
            exact hroom ⟨h, Or.inl (by omega)⟩
        · rw [List.length_append, List.length_singleton]
          rcases eq_or_ne current [] with h | h
          · subst h
            exact hfiles
          · by_contra hgt
            exact hroom ⟨h, Or.inr (by omega)⟩

/-- **Each batch is one large file or keeps both bounds.** -/
theorem pack_bounds (hfiles : 1 ≤ batchFiles) (rows : List DeltaChanged) :
    ∀ c ∈ pack rows batchBytes batchFiles, BatchOk batchBytes batchFiles c :=
  packRows_ok hfiles [] rows 0 rfl (Nat.zero_le _) (Nat.zero_le _)

end Pack

end DropboxMirror
