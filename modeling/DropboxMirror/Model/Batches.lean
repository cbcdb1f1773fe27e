import DropboxMirror.Model.Batch

/-!
# The batch loop

`phases/p40_batches.py`: the planned batches of the run, in order, each through its
five steps. A step that raises marks the batch `FAILED` and ends the phase; a batch
that recorded nothing ends the loop; the wall-clock budget may end it sooner. The
run row keeps how many batches remain.
-/

namespace DropboxMirror

open Crash

/-- What the world outside answers to one batch: the clock, the Dropbox token, the
downloads, the disk, the Proton CLI and the bucket. -/
structure BatchEnv where
  elapsed : ℚ
  duration : ℚ
  token : Except Failure Unit
  pool : Pool
  download : BatchItem → Download
  readable : BatchItem → Bool
  upload : Except Failure (Option Summary)
  push : Except Failure Unit

/-- What the five steps of a batch return. -/
structure BatchCounts where
  fetch : FetchCounts
  verify : VerifyCounts
  upload : UploadCounts
  confirm : ConfirmCounts
  checkpoint : CheckpointCounts
  deriving DecidableEq, Repr

/-- `should_start`. -/
def shouldStart (elapsed longest budget : ℚ) (completed : ℕ) : Bool :=
  decide (completed = 0) || decide (elapsed + longest ≤ budget)

/-- `max(durations, default=0.0)`. -/
def longestBatch : List ℚ → ℚ
  | [] => 0
  | d :: durations => durations.foldl max d

/-- The `fetch` of the loop: a fresh token first. -/
def fetchWithToken (batchId : ℕ) (env : BatchEnv) : Step FetchCounts :=
  match env.token with
  | .error e => Prog.fail e
  | .ok () => fetch batchId env.pool env.download

/-- The five steps of a batch. -/
def batchSteps (D : Digests) (runId batchId : ℕ) (env : BatchEnv) : Step BatchCounts := do
  let f ← fetchWithToken batchId env
  let v ← verify D batchId env.readable
  let u ← upload batchId env.upload
  let c ← confirm batchId
  let k ← checkpoint runId batchId env.push
  return { fetch := f, verify := v, upload := u, confirm := c, checkpoint := k }

/-- `batches.status` of one batch. -/
def World.batchStatus (w : World) (batchId : ℕ) : Option BatchStatus :=
  (w.batches.find? batchId).map Batch.status

/-- `update_run(remaining_batches=..., chain=...)`. -/
def updateRun (remaining : ℕ) (chain : Bool) : Step Unit :=
  Prog.write fun w => { w with run := { w.run with remainingBatches := some remaining, chain } }

/-- What the loop carries from batch to batch. -/
structure Progress where
  durations : List ℚ
  done : List BatchCounts
  completed : ℕ
  failedBatch : Option ℕ

/-- The handler of a step that raises: the batch row says `FAILED`, the run stops. -/
def failBatch {α : Type} (planned completed batchId : ℕ) (e : Failure) : Step α := do
  Prog.write fun w => { w with batches := setBatch batchId .failed w.batches }
  updateRun (planned - completed) false
  Prog.fail e

/-- The loop over the planned batches. -/
def batchLoop (D : Digests) (runId planned : ℕ) (budget : ℚ) (env : Batch → BatchEnv) :
    List Batch → Progress → Step Progress
  | [], progress => return progress
  | row :: rest, progress =>
    if shouldStart (env row).elapsed (longestBatch progress.durations) budget progress.completed then do
      let counts ← Prog.catchError (batchSteps D runId row.id (env row))
        (failBatch planned progress.completed row.id)
      let progress := { progress with
        durations := (env row).duration :: progress.durations, done := progress.done ++ [counts] }
      let w ← Prog.get
      if w.batchStatus row.id = some .failed then
        return { progress with failedBatch := some row.number }
      else
        batchLoop D runId planned budget env rest
          { progress with completed := progress.completed + 1 }
    else return progress

/-- What the batches phase returns. -/
inductive BatchesOutputs
  | planned (count : ℕ)
  | ran (planned completed remaining : ℕ) (chain : Bool) (done : List BatchCounts)

/-- The batches of the run that wait, in order. -/
def World.plannedBatches (w : World) (runId : ℕ) : List Batch :=
  (w.batches.rows.filter fun b => decide (b.runId = runId ∧ b.status = .planned)).insertionSort
    fun a b => a.number ≤ b.number

theorem mem_plannedBatches {w : World} {runId : ℕ} {r : Batch} :
    r ∈ w.plannedBatches runId ↔ r ∈ w.batches ∧ r.runId = runId ∧ r.status = .planned := by
  rw [World.plannedBatches, (List.perm_insertionSort _ _).mem_iff, List.mem_filter, decide_eq_true_eq]
  rfl

theorem nodup_plannedBatches (w : World) (runId : ℕ) :
    ((w.plannedBatches runId).map Batch.id).Nodup :=
  ((List.perm_insertionSort _ _).map Batch.id).nodup_iff.2
    (w.batches.nodup.sublist (List.filter_sublist.map _))

/-- `run`: the batches phase; `root` is the destination check. -/
def batchesRun (D : Digests) (apply : Bool) (runId : ℕ) (budget : ℚ) (root : Except Failure Unit)
    (env : Batch → BatchEnv) : Step BatchesOutputs := do
  let w ← Prog.get
  let planned := w.plannedBatches runId
  if apply = false then
    return .planned planned.length
  else
    match root with
    | .error e => Prog.fail e
    | .ok () => do
      let progress ← batchLoop D runId planned.length budget env planned ⟨[], [], 0, none⟩
      let remaining := planned.length - progress.completed
      let chain := decide (remaining > 0 ∧ progress.completed > 0 ∧ progress.failedBatch = none)
      updateRun remaining chain
      match progress.failedBatch with
      | some number => Prog.fail (.failedBatch number)
      | none =>
        if remaining ≠ 0 ∧ progress.completed = 0 then
          Prog.fail .noBatch
        else
          return .ran planned.length progress.completed remaining chain progress.done

end DropboxMirror
