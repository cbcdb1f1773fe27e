import DropboxMirror.Model.Batches
import DropboxMirror.Model.Reconcile
import DropboxMirror.Model.Trash
import DropboxMirror.Proof.Accounted

/-!
# What the gate of the trash and the reconciliation knows

The batches phase counts the batches it found `PLANNED`, and writes how many of them
are left. A batch an earlier invocation left `FAILED` is not among them, so the gate
tells the truth in a run whose invocations all begin without one.

* `batchSteps_batches`: five steps change the row of their own batch, once.
* `batchLoop_gate`: the loop, with the batches that are left.
* `batchesRun_gate`: one invocation, and every commit of it.
* `gate_waits`: a whole run.
-/

namespace DropboxMirror

open Text Crash

variable {D : Digests} {runId b : ℕ} {v w : World}

/-- What the steps before the checkpoint leave alone. -/
def World.schedule (w : World) : RunRow × Table Batch.id := (w.run, w.batches)

theorem schedule_eq {u v : World} (h : u.schedule = v.schedule) : u.run = v.run ∧ u.batches = v.batches :=
  Prod.ext_iff.1 h

section Frames

theorem setItem_frame (p : Str) (s : ItemStatus) (c : ItemColumns) :
    Frame World.schedule (setItem b p s c) := Frame.write fun _ => rfl

theorem fetch_frame (pool : Pool) (download : BatchItem → Download) :
    Frame World.schedule (fetch b pool download) := by
  unfold fetch
  refine Frame.get.bind fun w => ?_
  dsimp only
  split
  · exact Frame.fail _
  rcases runPool download (pool.order (w.itemsIn b .planned)) Staging.cleared with ⟨done, staged⟩
  refine Frame.bind (Frame.write fun _ => rfl) fun _ => ?_
  refine (Frame.foldlM (fun acc row => ?_) _ _).bind fun acc => ?_
  · unfold fetchRow
    cases futureResult done row with
    | gone => exact (setItem_frame _ _ _).bind fun _ => Frame.pure _
    | failed e => exact Frame.pure _
    | file => exact (setItem_frame _ _ _).bind fun _ => Frame.pure _
  · obtain ⟨counts, error⟩ := acc
    cases error with
    | some e => exact Frame.fail e
    | none => exact Frame.bind (Frame.write fun _ => rfl) fun _ => Frame.pure _

theorem verify_frame (readable : BatchItem → Bool) : Frame World.schedule (verify D b readable) := by
  unfold verify
  refine Frame.get.bind fun w => ?_
  refine (Frame.foldlM (fun acc row => ?_) _ _).bind fun counts => ?_
  · unfold verifyRow
    refine Frame.get.bind fun v => ?_
    dsimp only
    split
    · split
      · exact Frame.bind (Frame.write fun _ => rfl) fun _ =>
          (setItem_frame _ _ _).bind fun _ => Frame.pure _
      · exact (setItem_frame _ _ _).bind fun _ => Frame.pure _
    · exact Frame.fail _
  · refine Frame.bind (Frame.write fun _ => rfl) fun _ => ?_
    split
    · exact Frame.fail _
    · exact Frame.pure _

theorem upload_frame (answer : Except Failure (Option Summary)) :
    Frame World.schedule (upload b answer) := by
  unfold upload
  refine Frame.get.bind fun w => ?_
  dsimp only
  split
  · exact Frame.pure _
  · cases answer with
    | error e => exact Frame.fail e
    | ok summary => exact Frame.bind (Frame.write fun _ => rfl) fun _ => Frame.pure _

theorem confirm_frame : Frame World.schedule (confirm b) := by
  unfold confirm
  refine Frame.get.bind fun w => ?_
  dsimp only
  split
  · exact Frame.pure _
  rcases w.reports.get? b with _ | _ | summary
  · exact Frame.fail _
  · exact Frame.fail _
  · dsimp only
    split
    · refine (Frame.foldlM (fun _ row => setItem_frame _ _ _) _ _).bind fun _ => ?_
      exact Frame.bind (Frame.write fun _ => rfl) fun _ => Frame.pure _
    · exact Frame.bind (Frame.write fun _ => rfl) fun _ => Frame.pure _

end Frames

/-- The row of one batch has its result. -/
def Resulted (w : World) (b : ℕ) (v : World) : Prop :=
  v.run = w.run ∧ ∃ s, s ≠ .planned ∧ v.batches = setBatch b s w.batches

/-- `checkpoint` writes the row of its batch with its first commit. -/
theorem checkpoint_batches (push : Except Failure Unit) :
    Triple (fun _ v => v.schedule = w.schedule ∨ Resulted w b v) (fun v => v.schedule = w.schedule)
      (checkpoint runId b push) (fun _ v => Resulted w b v)
      (fun _ v => v.schedule = w.schedule ∨ Resulted w b v) := by
  unfold checkpoint
  refine Triple.get_bind fun v hv => ?_
  obtain ⟨hrun, hbatches⟩ := schedule_eq hv
  dsimp only
  split
  · refine Triple.fail ?_
    rintro _ rfl
    exact Or.inl hv
  · refine Triple.bind (M := fun _ u => Resulted w b u) (Triple.write ?_) fun _ => ?_
    · rintro u rfl
      refine (and_self_iff.2 ?_).imp_left Or.inr
      refine ⟨hrun, _, ?_, congrArg (setBatch b _) hbatches⟩
      split <;> decide
    cases push with
    | error e => exact Triple.fail fun _ h => Or.inr h
    | ok _ =>
      refine Triple.bind (M := fun _ u => Resulted w b u) (Triple.write fun u hu => ?_) fun _ =>
        Triple.pure fun _ h => h
      exact ⟨Or.inr hu, hu⟩

/-- **Five steps change the row of their own batch, once.** -/
theorem batchSteps_batches (env : BatchEnv) :
    Triple (fun _ v => v.schedule = w.schedule ∨ Resulted w b v) (fun v => v.schedule = w.schedule)
      (batchSteps D runId b env) (fun _ v => Resulted w b v)
      (fun _ v => v.schedule = w.schedule ∨ Resulted w b v) := by
  have kept : ∀ {α : Type} {p : Step α}, Frame World.schedule p →
      Triple (fun _ v => v.schedule = w.schedule ∨ Resulted w b v) (fun v => v.schedule = w.schedule)
        p (fun _ v => v.schedule = w.schedule)
        (fun _ v => v.schedule = w.schedule ∨ Resulted w b v) := fun hp =>
    ((hp.triple w.schedule).mono fun _ _ h => Or.inl h).consequence (fun _ h => h)
      (fun _ _ h => h) (fun _ _ h => Or.inl h)
  unfold batchSteps
  refine (kept ?_).bind fun _ => (kept (verify_frame _)).bind fun _ =>
    (kept (upload_frame _)).bind fun _ => (kept confirm_frame).bind fun _ =>
      (checkpoint_batches env.push).bind fun _ => Triple.pure fun _ h => h
  unfold fetchWithToken
  cases env.token with
  | error e => exact Frame.fail e
  | ok _ => exact fetch_frame _ _

/-- Every batch row of the run says `CHECKPOINTED`. -/
def AllLanded (runId : ℕ) (w : World) : Prop :=
  ∀ r ∈ w.batches, r.runId = runId → r.status = .checkpointed

/-- The gate's column tells the truth. -/
def GateTrue (runId : ℕ) (w : World) : Prop := w.run.remainingBatches = some 0 → AllLanded runId w

/-- The batches of the run have landed, but for the rows still to do. -/
structure LoopInv (runId : ℕ) (w : World) (todo : List Batch) (v : World) : Prop where
  run : v.run = w.run
  landed : ∀ r ∈ v.batches, r.runId = runId → r.status = .checkpointed ∨ r.id ∈ todo.map Batch.id

/-- A batch that lands leaves the others to do. -/
theorem LoopInv.landed_row {row : Batch} {rest : List Batch} (h : LoopInv runId w (row :: rest) v)
    {u : World} (hu : Resulted v row.id u) (hok : u.batchStatus row.id ≠ some .failed) :
    LoopInv runId w rest u := by
  obtain ⟨hrun, s, hs, hbatches⟩ := hu
  refine ⟨hrun.trans h.run, fun r' hr' hrunId => ?_⟩
  have hmem := hr'
  rw [hbatches] at hmem
  obtain ⟨r, hr, rfl⟩ := Table.mem_modify.1 hmem
  by_cases hid : r.id = row.id
  · -- the row of this batch has a result, and it is not `FAILED`
    rw [if_pos hid] at hr' ⊢
    left
    have hstatus : u.batchStatus row.id = some s := by
      rw [World.batchStatus, ← hid]
      exact congrArg (Option.map Batch.status) (Table.mem_iff_find?.1 hr')
    rw [hstatus] at hok
    cases s with
    | planned => exact absurd rfl hs
    | failed => exact absurd rfl hok
    | checkpointed => rfl
  · rw [if_neg hid] at hrunId ⊢
    refine (h.landed r hr hrunId).imp id fun hm => ?_
    rw [List.map_cons, List.mem_cons] at hm
    exact hm.resolve_left hid

/-- **The loop**: the gate's column stays as it is where the loop commits, and tells the
truth where a batch that raised wrote it. -/
theorem batchLoop_gate {planned : ℕ} {budget : ℚ} {env : Batch → BatchEnv} {todo : List Batch}
    {progress : Progress} (hcount : progress.completed + todo.length = planned)
    (hcolumn : todo ≠ [] → w.run.remainingBatches ≠ some 0) :
    Triple (fun _ v => GateTrue runId v) (LoopInv runId w todo)
      (batchLoop D runId planned budget env todo progress)
      (fun p v => v.run = w.run ∧ (planned - p.completed = 0 → AllLanded runId v))
      (fun _ _ => True) := by
  induction todo generalizing progress with
  | nil =>
    unfold batchLoop
    exact Triple.pure fun v hv =>
      ⟨hv.run, fun _ r hr hrun => (hv.landed r hr hrun).resolve_right List.not_mem_nil⟩
  | cons row rest ih =>
    rw [List.length_cons] at hcount
    -- while a batch waits the column is not zero, so the gate is shut
    have hshut : ∀ v : World, v.run = w.run → GateTrue runId v := fun v hv h =>
      absurd (by rw [← hv, h]) (hcolumn (List.cons_ne_nil _ _))
    unfold batchLoop
    split
    · refine Triple.pre fun v hv => ?_
      have hsteps : Triple (fun _ u => u.schedule = v.schedule ∨ Resulted v row.id u)
          (fun u => u.schedule = v.schedule) (batchSteps D runId row.id (env row))
          (fun _ u => Resulted v row.id u)
          (fun _ u => u.schedule = v.schedule ∨ Resulted v row.id u) := batchSteps_batches (env row)
      have hrun : ∀ u : World, u.schedule = v.schedule ∨ Resulted v row.id u → u.run = w.run := by
        rintro u (hu | hu)
        · exact (schedule_eq hu).1.trans hv.run
        · exact hu.1.trans hv.run
      refine Triple.bind (M := fun _ u => Resulted v row.id u)
        (Triple.catchError ((hsteps.mono fun _ u hu => hshut u (hrun u hu)).consequence
          (fun u hu => by rw [hu]) (fun _ _ h => h) fun _ u hu => hrun u hu) fun e => ?_)
        fun counts => Triple.get_bind fun u hu => ?_
      · -- the batch raised: at least this one remains
        unfold failBatch
        refine Triple.bind (M := fun _ u => u.run = w.run) (Triple.write fun u hu =>
          ⟨hshut _ hu, hu⟩) fun _ => Triple.bind (M := fun _ _ => True)
            (Triple.write fun u hu => ⟨fun h => ?_, trivial⟩) fun _ => Triple.fail fun _ _ => trivial
        have hzero : planned - progress.completed = 0 := Option.some.inj h
        omega
      · dsimp only
        split
        · refine Triple.pure ?_
          rintro _ rfl
          exact ⟨hu.1.trans hv.run, fun h => by dsimp only at h; omega⟩
        -- the batch went through, and the rest of the loop has one fewer to do
        · rename_i hok
          refine (ih (by dsimp only; omega) fun _ => hcolumn (List.cons_ne_nil _ _)).consequence ?_
            (fun _ _ h => h) (fun _ _ h => h)
          rintro _ rfl
          exact hv.landed_row hu hok
    · exact Triple.pure fun v hv => ⟨hv.run, fun h => by omega⟩

/-- No batch of the run says `FAILED`. -/
def NoFailed (runId : ℕ) (w : World) : Prop :=
  ∀ r ∈ w.batches, r.runId = runId → r.status ≠ .failed

/-- **One invocation that finds no failed batch**: every commit of it keeps the gate's
column true. -/
theorem batchesRun_gate {apply : Bool} {budget : ℚ} {root : Except Failure Unit}
    {env : Batch → BatchEnv} (hgate : GateTrue runId w) (hno : NoFailed runId w) :
    ∀ v ∈ (batchesRun D apply runId budget root env w).states, GateTrue runId v := by
  have hinv : LoopInv runId w (w.plannedBatches runId) w := by
    refine ⟨rfl, fun r hr hrun => ?_⟩
    cases hs : r.status with
    | planned => exact Or.inr (List.mem_map_of_mem (mem_plannedBatches.2 ⟨hr, hrun, hs⟩))
    | failed => exact absurd hs (hno r hr hrun)
    | checkpointed => exact Or.inl rfl
  have hcolumn : w.plannedBatches runId ≠ [] → w.run.remainingBatches ≠ some 0 := by
    intro hne hzero
    obtain ⟨r, hr⟩ := List.exists_mem_of_ne_nil _ hne
    obtain ⟨hr, hrun, hs⟩ := mem_plannedBatches.1 hr
    rw [hgate hzero r hr hrun] at hs
    cases hs
  have htriple : Triple (fun _ v => GateTrue runId v) (fun v => v = w)
      (batchesRun D apply runId budget root env) (fun _ _ => True) (fun _ _ => True) := by
    unfold batchesRun
    refine Triple.get_bind fun u hu => ?_
    subst hu
    dsimp only
    split
    · exact Triple.pure fun _ _ => trivial
    cases root with
    | error e => exact Triple.fail fun _ _ => trivial
    | ok _ =>
      refine Triple.bind ((batchLoop_gate (D := D) (by simp) hcolumn).consequence
        (fun v hv => by rw [hv]; exact hinv) (fun _ _ h => h) (fun _ _ h => h)) fun p => ?_
      refine Triple.bind (M := fun _ _ => True) (Triple.write fun v hv => ⟨fun h => ?_, trivial⟩)
        fun _ => ?_
      · exact hv.2 (Option.some.inj h)
      · cases p.failedBatch with
        | some number => exact Triple.fail fun _ _ => trivial
        | none =>
          dsimp only
          split
          · exact Triple.fail fun _ _ => trivial
          · exact Triple.pure fun _ _ => trivial
  exact htriple.states rfl

/-- **The worlds of a run** after its plan: invocations of the batches phase, each of which
finds no failed batch and may be killed after any of its commits. -/
inductive Invoked (D : Digests) (runId : ℕ) (w : World) : World → Prop
  | plan : Invoked D runId w w
  | batches {v u : World} (h : Invoked D runId w v) (hno : NoFailed runId v) (apply : Bool)
      (budget : ℚ) (root : Except Failure Unit) (env : Batch → BatchEnv)
      (hu : u ∈ (batchesRun D apply runId budget root env v).states) : Invoked D runId w u

/-- A gate lets the trash or the reconciliation through. -/
def GateOpen (v : World) : Prop :=
  batchesRemain v = false ∨ ∃ r : ReconcileWorld, r.run = v.run ∧ reconcileSkipped true r = none

theorem GateOpen.column (h : GateOpen v) : v.run.remainingBatches = some 0 := by
  rcases h with h | ⟨r, hr, h⟩
  · unfold batchesRemain at h
    cases hv : v.run.remainingBatches with
    | none =>
      rw [hv] at h
      cases h
    | some n =>
      rw [hv] at h
      simpa using h
  · unfold reconcileSkipped at h
    rw [hr, if_neg (by decide)] at h
    split at h
    · cases h
    · rename_i hn
      cases hv : v.run.remainingBatches with
      | none => exact absurd (Or.inl hv) hn
      | some n =>
        rw [hv] at hn
        simpa using hn

theorem insertBatches_run (number : ℕ) (batches : List (List DeltaChanged)) (w : World) :
    (insertBatches runId number batches w).run = w.run := by
  induction batches generalizing number w with
  | nil => rfl
  | cons rows rest ih =>
    rw [insertBatches, ih]
    rfl

/-- The plan leaves the gate's column alone. -/
theorem planRun_frame (budget : Budget) (free : ℕ) (L : Listing) (Δ : Delta) :
    Frame (fun w : World => w.run.remainingBatches) (planRun budget free runId L Δ) := by
  unfold planRun
  refine Frame.get.bind fun w => ?_
  dsimp only
  split
  · exact Frame.fail _
  split
  · exact Frame.fail _
  split
  · exact Frame.fail _
  refine Frame.bind (Frame.write fun v => ?_) fun _ =>
    Frame.bind (Frame.write fun _ => rfl) fun _ => Frame.pure _
  rw [insertBatches_run]
  rfl

/-- **The gates wait for every batch** of a run whose invocations find no failed one. The
plan, too, may be killed after any of its commits. -/
theorem gate_waits (budget : Budget) (free : ℕ) (L : Listing) (Δ : Delta) {u : World}
    (hstart : w.run.remainingBatches = none)
    (hplan : u = w ∨ u ∈ (planRun budget free runId L Δ w).states) (h : Invoked D runId u v)
    (hopen : GateOpen v) :
    ∀ r ∈ v.batches, r.runId = runId → r.status = .checkpointed := by
  have hcolumn : u.run.remainingBatches = none := by
    rcases hplan with rfl | hu
    · exact hstart
    · exact (planRun_frame budget free L Δ w u hu).trans hstart
  have hgate : GateTrue runId v := by
    clear hopen
    induction h with
    | plan =>
      intro hzero
      rw [hcolumn] at hzero
      cases hzero
    | batches h hno apply budget root env hu ih => exact batchesRun_gate ih hno _ hu
  exact hgate hopen.column

section Example

/-- A run whose only batch goes through at once. -/
theorem gate_waits_oneFile :
    (batchesRun Digests.plain true 1 100 (.ok ()) (fun _ => smoothEnv)).final oneFileWorld ∈
        (batchesRun Digests.plain true 1 100 (.ok ()) (fun _ => smoothEnv) oneFileWorld).states ∧
      ∀ r ∈ ((batchesRun Digests.plain true 1 100 (.ok ()) (fun _ => smoothEnv)).final
        oneFileWorld).batches, r.runId = 1 → r.status = .checkpointed := by
  have hmem : (batchesRun Digests.plain true 1 100 (.ok ()) (fun _ => smoothEnv)).final oneFileWorld ∈
      (batchesRun Digests.plain true 1 100 (.ok ()) (fun _ => smoothEnv) oneFileWorld).states :=
    Prog.final_mem (by decide)
  have hno : ∀ r ∈ oneFileWorld.batches, r.runId = 1 → r.status ≠ .failed := by decide
  exact ⟨hmem, gate_waits (w := World.initial) Budget.small 100 Table.empty oneFileDelta rfl
    (Or.inr (Prog.final_mem (by decide)))
    (Invoked.batches Invoked.plan hno true 100 (.ok ()) (fun _ => smoothEnv) hmem)
    (Or.inl (by decide))⟩

/-- The same run, but the token of the first invocation is refused. -/
def refusedRun : World :=
  (batchesRun Digests.plain true 1 100 (.ok ()) fun _ =>
    { smoothEnv with token := .error .provider }).final oneFileWorld

/-- **The gate opens over a failed batch**: invoked again, the phase finds nothing planned
and writes that nothing remains. -/
theorem gate_opens_over_failed :
    ∃ v ∈ (batchesRun Digests.plain true 1 100 (.ok ()) (fun _ => smoothEnv) refusedRun).states,
      batchesRemain v = false ∧ ∃ r ∈ v.batches, r.runId = 1 ∧ r.status = .failed :=
  ⟨_, Prog.final_mem (by decide), by decide, _, List.mem_cons_self, rfl, by decide⟩

end Example

end DropboxMirror
