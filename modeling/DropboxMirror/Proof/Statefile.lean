import DropboxMirror.Model.Statefile

/-!
# The batches phase with its pushes is the batches phase

On the local database the loop that pushes does what the loop of `p40_batches.py` does
where each push ends as the bucket has it (`stateBatches_refines`).
-/

namespace DropboxMirror

open Text Crash

variable {β : Type} {C : Codec β} {D : Digests}

/-- How a call ends for its caller. -/
def Reply.outcome : Reply → Except Failure Unit
  | .done => .ok ()
  | .refused e => .error e
  | .lost e => .error e

/-- How a push ends for its caller: with its first call that fails. -/
def StoreEnv.outcome (env : StoreEnv) : Except Failure Unit := do
  env.snapshot
  env.put.outcome
  env.copy.outcome

/-- What the loop without the bucket is given. -/
def RunEnv.outcomes (r : RunEnv) (row : Batch) : BatchEnv :=
  { r.batch row with push := (r.store row).outcome }

/-- The end of a push, for the local machine. -/
def pushed (push : Except Failure Unit) : Step Unit :=
  match push with
  | .error e => Prog.fail e
  | .ok () => pure ()

theorem onWorld_refines {α : Type} (p : Step α) : Refines Durable.world (onWorld (β := β) p) p :=
  Refines.zoom fun _ _ => rfl

theorem bucketCall_refines {f : Durable β → Durable β} (hf : ∀ d, (f d).world = d.world)
    (reply : Reply) : Refines Durable.world (bucketCall f reply) (pushed reply.outcome) := by
  cases reply with
  | done => exact Refines.silent hf
  | refused e => exact Refines.fail e
  | lost e => exact Refines.silent_bind (Refines.silent hf) (Refines.fail e)

theorem copyState_world (label : Str) (d : Durable β) : (d.copyState label).world = d.world := by
  unfold Durable.copyState
  split <;> rfl

theorem pushState_refines (label : Str) (env : StoreEnv) :
    Refines Durable.world (pushState C label env) (pushed env.outcome) := by
  obtain ⟨snapshot, put, copy⟩ := env
  cases snapshot with
  | error e => exact Refines.fail e
  | ok _ =>
    have hcalls : ∀ d : Durable β, Refines Durable.world
        (bucketCall (Durable.upload label (C.pack d.world.db)) put >>= fun _ =>
          bucketCall (Durable.copyState label) copy)
        (pushed put.outcome >>= fun _ => pushed copy.outcome) := fun d =>
      (bucketCall_refines (f := Durable.upload label (C.pack d.world.db)) (fun _ => rfl) put).bind
        fun _ => bucketCall_refines (copyState_world label) copy
    have hseq : pushed (StoreEnv.mk (.ok ()) put copy).outcome =
        (pushed put.outcome >>= fun _ => pushed copy.outcome) := by
      cases put <;> cases copy <;> rfl
    rw [hseq]
    exact ⟨fun d => (hcalls d).result d, fun d => (hcalls d).final d, fun d => (hcalls d).states d⟩

/-- `checkpoint` is its merge, its push, and the clean-up. -/
theorem checkpoint_eq (runId b : ℕ) (push : Except Failure Unit) :
    checkpoint runId b push = (do
      let counts ← mergeBatch runId b
      pushed push
      Prog.write fun w => { w with staging := Staging.cleared }
      return counts) := by
  unfold checkpoint mergeBatch
  rw [bind_assoc]
  refine congrArg _ (funext fun w => ?_)
  dsimp only
  cases (w.itemsIn b .confirmed).mapM (mirrorRow runId) with
  | error e => rfl
  | ok rows =>
    dsimp only
    rw [bind_assoc]
    refine congrArg _ (funext fun _ => ?_)
    rw [pure_bind]
    cases push <;> rfl

theorem checkpointState_refines (runId b : ℕ) (label : Str) (env : StoreEnv) :
    Refines Durable.world (checkpointState C runId b label env) (checkpoint runId b env.outcome) := by
  rw [checkpoint_eq]
  exact (onWorld_refines _).bind fun counts => (pushState_refines label env).bind fun _ =>
    (onWorld_refines _).bind fun _ => Refines.pure counts

theorem stateSteps_refines (runId b : ℕ) (label : Str) (env : BatchEnv) (store : StoreEnv) :
    Refines Durable.world (stateSteps C D runId b label env store)
      (batchSteps D runId b { env with push := store.outcome }) := by
  have hfetch : fetchWithToken b { env with push := store.outcome } = fetchWithToken b env := by
    unfold fetchWithToken
    cases env.token <;> rfl
  unfold stateSteps batchSteps
  rw [hfetch]
  dsimp only
  refine (onWorld_refines _).bind fun f => (onWorld_refines _).bind fun v => ?_
  refine (onWorld_refines _).bind fun u => (onWorld_refines _).bind fun c => ?_
  exact (checkpointState_refines runId b label store).bind fun k => Refines.pure _

theorem note_refines (e : Event) : Refines Durable.world (note (β := β) e) (pure ()) :=
  Refines.silent fun _ => rfl

theorem stateLoop_refines (r : RunEnv) (planned : ℕ) (todo : List Batch) (progress : Progress) :
    Refines Durable.world (stateLoop C D r planned todo progress)
      (batchLoop D r.runId planned (r.minutes * 60) r.outcomes todo progress) := by
  induction todo generalizing progress with
  | nil =>
    unfold stateLoop batchLoop
    exact Refines.pure progress
  | cons row rest ih =>
    unfold stateLoop batchLoop
    change Refines Durable.world (if shouldStart (r.batch row).elapsed _ _ _ then _ else _)
      (if shouldStart (r.batch row).elapsed _ _ _ then _ else _)
    split
    · refine Refines.silent_bind (note_refines _) ((Refines.catchError
        (stateSteps_refines _ _ _ _ _) fun e => onWorld_refines _).bind fun counts =>
          Refines.silent_bind (note_refines _) (Refines.get_bind fun d => ?_))
      dsimp only
      split
      · exact Refines.pure _
      · exact ih _
    · exact Refines.pure progress

/-- **The phase with its pushes is the batches phase** on the local database, with pushes
that end as the bucket has it. -/
theorem stateBatches_refines (r : RunEnv) :
    Refines Durable.world (stateBatches C D r)
      (batchesRun D true r.runId (r.minutes * 60) r.root r.outcomes) := by
  unfold stateBatches batchesRun
  refine Refines.get_bind fun d => ?_
  dsimp only
  rw [if_neg (by decide)]
  cases r.root with
  | error e => exact Refines.fail e
  | ok _ =>
    refine (stateLoop_refines r _ _ _).bind fun progress => (onWorld_refines _).bind fun _ => ?_
    cases progress.failedBatch with
    | some number => exact Refines.fail _
    | none =>
      dsimp only
      split
      · exact Refines.fail _
      · exact Refines.pure _

end DropboxMirror
