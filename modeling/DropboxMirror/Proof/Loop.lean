import DropboxMirror.Lib.Lists
import DropboxMirror.Proof.Progress

/-!
# The books of the batch loop

The loop starts its batches in order and ends in one of three ways: it stops, with
every started batch checkpointed; a batch fails; a batch raises. Each way the run row
counts the listed batches that are not checkpointed, and asks for another run exactly
where the phase returned with some of them done and some left.

* `LoopWorld`: what the started batches leave behind.
* `batchLoop_exit`: the three ways.
* `batches_books`: the run row and the rows of the batches, on every exit.
* `chains_progress_iff`: when a run that chains has mirrored something.
-/

namespace DropboxMirror

open Text Crash

variable {D : Digests} {S : Set ℕ} {runId b : ℕ} {u v w x : World} {env : Batch → BatchEnv}
  {budget : ℚ} {l started rest : List Batch} {row : Batch}

section Landed

/-- The batch rows after the batches of some ids were checkpointed. -/
def landed (ids : List ℕ) (t : Table Batch.id) : Table Batch.id :=
  t.modify (fun r => if r.id ∈ ids then { r with status := .checkpointed } else r)
    (fun r => by split <;> rfl)

variable {t : Table Batch.id} {ids : List ℕ}

theorem landed_nil : landed [] t = t := by
  apply Table.ext
  refine (List.map_congr_left fun r _ => ?_).trans (List.map_id _)
  rw [if_neg List.not_mem_nil]
  rfl

theorem setBatch_landed : setBatch b .checkpointed (landed ids t) = landed (ids ++ [b]) t := by
  apply Table.ext
  change (List.map _ (List.map _ t.rows)) = List.map _ t.rows
  rw [List.map_map]
  refine List.map_congr_left fun r _ => ?_
  by_cases hb : b = r.id
  · subst hb
    by_cases hr : r.id ∈ ids <;> simp [hr]
  · by_cases hr : r.id ∈ ids <;> simp [hr, Ne.symm hb]

/-- The last status written to a batch row stays. -/
theorem setBatch_setBatch (s s' : BatchStatus) :
    setBatch b s' (setBatch b s t) = setBatch b s' t := by
  apply Table.ext
  change (List.map _ (List.map _ t.rows)) = List.map _ t.rows
  rw [List.map_map]
  refine List.map_congr_left fun r _ => ?_
  by_cases hb : b = r.id
  · subst hb
    simp
  · simp [Ne.symm hb]

theorem find?_landed {r : Batch} (hr : r ∈ t) : (landed ids t).find? r.id =
    some (if r.id ∈ ids then { r with status := .checkpointed } else r) := by
  rw [landed, Table.find?_modify, Table.mem_iff_find?.1 hr, Option.map_some]

theorem find?_setBatch (s : BatchStatus) (id : ℕ) : (setBatch b s t).find? id =
    (t.find? id).map fun r => if r.id = b then { r with status := s } else r := by
  rw [setBatch, Table.find?_modify]

end Landed

section Kept

/-- A checkpointed item stays as it is. -/
theorem Link.kept (h : Link D S v u) :
    ∀ i ∈ v.items, i.status = .checkpointed → i ∈ u.items := by
  intro i hi hs
  obtain ⟨i', hi', hii⟩ := Pointwise.exists_right h.items hi
  rcases hii with rfl | ⟨-, hm⟩
  · exact hi'
  · have hmove := hm.move
    rw [hs] at hmove
    cases hmove

/-- The items of the other batches stay as they are. -/
theorem Link.others (h : Link D S v u) {i : BatchItem} (hi : i.batchId ∉ S) :
    i ∈ u.items ↔ i ∈ v.items := by
  constructor
  · intro hu
    obtain ⟨i₀, hi₀, hii⟩ := Pointwise.exists_left h.items hu
    rcases hii with rfl | ⟨hb, hm⟩
    · exact hi₀
    · exact absurd (by rwa [hm.batchId]) hi
  · intro hv
    obtain ⟨i', hi', hii⟩ := Pointwise.exists_right h.items hv
    rcases hii with rfl | ⟨hb, -⟩
    · exact hi'
    · exact absurd hb hi

/-- **Progress since `w`**: an item of the batches `S` was not `CHECKPOINTED` and is, and the
mirror has its row. -/
def Mirrors (S : Set ℕ) (w v : World) : Prop :=
  ∃ i ∈ v.items, i.batchId ∈ S ∧ i.status = .checkpointed ∧ i ∉ w.items ∧
    ∃ m, v.mirror.find? i.pathLower = some m ∧ MirrorsItem m i

/-- A commit that checkpoints an item is progress. -/
theorem Checkpoints.mirrors {T : Set ℕ} {p : Str} {j : BatchItem} (h : Checkpoints D T v u p j)
    (hT : T ⊆ S) (hkept : ∀ i ∈ w.items, i.status = .checkpointed → i ∈ v.items) :
    Mirrors S w u := by
  obtain ⟨hj, hjT, hjp, ⟨j', hj', hm, hs⟩, m, hfind, hrow⟩ := h
  obtain ⟨hsha1, hsha256⟩ := hm.digests (by rw [hs]; decide)
  refine ⟨j', hj', hT (by rw [hm.batchId]; exact hjT), hs, fun hw => ?_, m, ?_, ?_⟩
  · -- a row checkpointed from the start would be the row before the commit
    have heq := Table.eq_of_key_eq (hkept j' hw hs) hj
      (by rw [BatchItem.key, BatchItem.key, hm.batchId, hm.pathLower])
    have hmove := hm.move
    rw [← heq, hs] at hmove
    cases hmove
  · rw [hm.pathLower, hjp]
    exact hfind
  · exact ⟨hrow.pathLower.trans hm.pathLower.symm, hrow.pathDisplay.trans hm.pathDisplay.symm,
      hrow.size.trans hm.size.symm, hrow.contentHash.trans hm.contentHash.symm,
      hrow.sha1.trans hsha1.symm, hrow.sha256.trans hsha256.symm⟩

/-- Progress stays. -/
theorem Mirrors.of_link {T : Set ℕ} (h : Mirrors S w v) (hl : Link D T v u) (hT : T ⊆ S)
    (hkept : ∀ i ∈ w.items, i.status = .checkpointed → i ∈ v.items) : Mirrors S w u := by
  obtain ⟨i, hi, hS, hs, hnew, m, hfind, hrow⟩ := h
  rcases hl.mirror i.pathLower with ⟨j, hj⟩ | ⟨hsame, -⟩
  · exact hj.mirrors hT hkept
  · exact ⟨i, hl.kept i hi hs, hS, hs, hnew, m, hsame.trans hfind, hrow⟩

/-- What any number of commits of a batch leaves alone. -/
structure Carried (S : Set ℕ) (b : ℕ) (w v u : World) : Prop where
  others : ∀ i, i.batchId ≠ b → (i ∈ u.items ↔ i ∈ v.items)
  kept : (∀ i ∈ w.items, i.status = .checkpointed → i ∈ v.items) →
    ∀ i ∈ w.items, i.status = .checkpointed → i ∈ u.items
  mirrors : (∀ i ∈ w.items, i.status = .checkpointed → i ∈ v.items) → b ∈ S →
    Mirrors S w v → Mirrors S w u

theorem carried_of_reach (h : Relation.ReflTransGen (Link D {b}) v u) : Carried S b w v u := by
  induction h with
  | refl => exact ⟨fun _ _ => Iff.rfl, fun h => h, fun _ _ h => h⟩
  | tail _ hl ih =>
    refine ⟨fun i hi => (hl.others hi).trans (ih.others i hi), fun h i hi hs => ?_,
      fun h hb hm => ?_⟩
    · exact hl.kept i (ih.kept h i hi hs) hs
    · exact (ih.mirrors h hb hm).of_link hl (Set.singleton_subset_iff.2 hb) (ih.kept h)

end Kept

section Exit

/-- `should_start` after the started batches. -/
def allows (budget : ℚ) (env : Batch → BatchEnv) (started : List Batch) (row : Batch) : Bool :=
  shouldStart (env row).elapsed (longestBatch (started.map fun r => (env r).duration).reverse) budget
    started.length

/-- Each started batch was allowed by the clock. -/
def Allowed (budget : ℚ) (env : Batch → BatchEnv) (started : List Batch) : Prop :=
  ∀ before row after, started = before ++ row :: after → allows budget env before row = true

/-- **What the started batches leave behind**, each of them checkpointed: the rows and the
items of the others are as they were, and the mirror has an item unless all were idle. -/
structure LoopWorld (env : Batch → BatchEnv) (S : Set ℕ) (w : World) (started : List Batch)
    (v : World) : Prop where
  run : v.run = w.run
  batches : v.batches = landed (started.map Batch.id) w.batches
  others : ∀ i, i.batchId ∉ started.map Batch.id → (i ∈ v.items ↔ i ∈ w.items)
  kept : ∀ i ∈ w.items, i.status = .checkpointed → i ∈ v.items
  idle : (∀ r ∈ started, Idle (env r) r.id w) → ∀ i ∈ v.items, i.status = .checkpointed → i ∈ w.items
  busy : (∃ r ∈ started, ¬ Idle (env r) r.id w) → Mirrors S w v

/-- What a batch that did not go through leaves, once its row says `FAILED`. -/
structure FailedWorld (env : Batch → BatchEnv) (w : World) (started : List Batch) (row : Batch)
    (v : World) : Prop where
  batches : v.batches = setBatch row.id .failed (landed (started.map Batch.id) w.batches)
  others : ∀ i, i.batchId ∉ (started ++ [row]).map Batch.id → (i ∈ v.items ↔ i ∈ w.items)
  busy : ¬ Idle (env row) row.id w

/-- One more batch goes through. -/
theorem LoopWorld.step (h : LoopWorld env S w started v) (hS : row.id ∈ S)
    (hidle : Idle (env row) row.id w ↔ Idle (env row) row.id v)
    (hreach : Relation.ReflTransGen (Link D {row.id}) v u) (hrun : u.run = v.run)
    (hbatches : u.batches = setBatch row.id .checkpointed v.batches)
    (hquiet : Idle (env row) row.id v → ∀ i ∈ u.items, i.status = .checkpointed → i ∈ v.items)
    (hbusy : ¬ Idle (env row) row.id v → ∃ x, Relation.ReflTransGen (Link D {row.id}) v x ∧
      ∃ p j, Checkpoints D {row.id} x u p j) :
    LoopWorld env S w (started ++ [row]) u := by
  have hc : Carried S row.id w v u := carried_of_reach hreach
  refine ⟨hrun.trans h.run, ?_, fun i hi => ?_, hc.kept h.kept, fun hall => ?_, ?_⟩
  · rw [hbatches, h.batches, setBatch_landed, List.map_append]
    rfl
  · rw [List.map_append, List.mem_append, not_or] at hi
    exact (hc.others i fun heq => hi.2 (by simp [heq])).trans (h.others i hi.1)
  · intro i hi hs
    have hrow := hidle.1 (hall row (by simp))
    exact h.idle (fun r hr => hall r (List.mem_append_left _ hr)) i (hquiet hrow i hi hs) hs
  · rintro ⟨r, hr, hno⟩
    rcases List.mem_append.1 hr with hr | hr
    · exact hc.mirrors h.kept hS (h.busy ⟨r, hr, hno⟩)
    · obtain rfl := List.mem_singleton.1 hr
      obtain ⟨x, hvx, p, j, hj⟩ := hbusy fun hi => hno (hidle.2 hi)
      have hx : Carried S r.id w v x := carried_of_reach hvx
      exact hj.mirrors (Set.singleton_subset_iff.2 hS) (hx.kept h.kept)

/-- The items of the batch decide whether it is idle, and no earlier batch touches them. -/
theorem LoopWorld.idle_iff (h : LoopWorld env S w started v) (hnew : row.id ∉ started.map Batch.id) :
    Idle (env row) row.id w ↔ Idle (env row) row.id v :=
  ⟨fun hi => hi.of_items fun i hb hiv => (h.others i (hb ▸ hnew)).1 hiv,
    fun hi => hi.of_items fun i hb hiw => (h.others i (hb ▸ hnew)).2 hiw⟩

/-- The status of a batch after its row was written. -/
theorem LoopWorld.batchStatus (h : LoopWorld env S w started v) (hrow : row ∈ w.batches)
    {s : BatchStatus} (hu : u.batches = setBatch row.id s v.batches) :
    u.batchStatus row.id = some s := by
  rw [World.batchStatus, hu, find?_setBatch, h.batches, find?_landed hrow, Option.map_some,
    Option.map_some]
  split <;> simp_all

/-- **The five steps of the next batch**: it goes through, it fails, or it raises. -/
theorem batchSteps_next (h : LoopWorld env S w started v) (hrow : row ∈ w.batches)
    (hnew : row.id ∉ started.map Batch.id) (hS : row.id ∈ S) :
    Triple (fun _ _ => True) (fun u => u = v) (batchSteps D runId row.id (env row))
      (fun _ u => (u.batchStatus row.id = some .checkpointed ∧
          LoopWorld env S w (started ++ [row]) u) ∨
        (u.batchStatus row.id = some .failed ∧ u.run = w.run ∧ FailedWorld env w started row u))
      (fun _ u => u.run = w.run ∧ ∀ u', u'.items = u.items →
        u'.batches = setBatch row.id .failed u.batches → FailedWorld env w started row u') := by
  have hidle := h.idle_iff hnew
  have hothers : ∀ {u : World}, Relation.ReflTransGen (Link D {row.id}) v u →
      ∀ i, i.batchId ∉ (started ++ [row]).map Batch.id → (i ∈ u.items ↔ i ∈ w.items) := by
    intro u hreach i hi
    rw [List.map_append, List.mem_append, not_or] at hi
    exact ((carried_of_reach (S := S) (w := w) hreach).others i fun heq => hi.2 (by simp [heq])).trans
      (h.others i hi.1)
  by_cases hcase : Idle (env row) row.id v
  · refine ((batchSteps_triple (D := D) runId row.id (env row)).reaching.conj
      (batchSteps_idle (D := D) hcase)).consequence (fun _ h => h) ?_
      fun _ _ hE => hE.2.elim
    rintro _ u ⟨⟨-, hreach⟩, hrun, hbatches, hquiet⟩
    exact Or.inl ⟨h.batchStatus hrow hbatches, h.step hS hidle hreach hrun hbatches
      (fun _ => hquiet) fun hno => absurd hcase hno⟩
  · have hbusy : ¬ Idle (env row) row.id w := fun hi => hcase (hidle.1 hi)
    have hsched : Triple (fun _ _ => True) (fun u => u.schedule = v.schedule)
        (batchSteps D runId row.id (env row)) (fun _ u => Resulted v row.id u)
        (fun _ u => u.schedule = v.schedule ∨ Resulted v row.id u) :=
      (batchSteps_batches (env row)).mono fun _ _ _ => trivial
    refine (((batchSteps_triple (D := D) runId row.id (env row)).reaching.conj
      (batchSteps_busy (D := D) hcase)).conj
      (hsched.consequence (fun u hu => by rw [hu]) (fun _ _ h => h) fun _ _ h => h)).consequence
      (fun _ h => h) ?_ ?_
    · rintro _ u ⟨⟨⟨-, hreach⟩, hrun, s, hs, hbatches, hland⟩, -⟩
      have hstatus := h.batchStatus hrow hbatches
      cases s with
      | planned => exact absurd rfl hs
      | failed =>
        exact Or.inr ⟨hstatus, hrun.trans h.run, by rw [hbatches, h.batches], hothers hreach, hbusy⟩
      | checkpointed =>
        exact Or.inl ⟨hstatus, h.step hS hidle hreach hrun hbatches (fun hi => absurd hi hcase)
          fun _ => hland (by decide)⟩
    · rintro _ u ⟨⟨⟨-, hreach⟩, -⟩, hend⟩
      refine ⟨?_, fun u' hitems hbatches => ⟨?_, fun i hi => ?_, hbusy⟩⟩
      · rcases hend with hend | hend
        · exact (schedule_eq hend).1.trans h.run
        · exact hend.1.trans h.run
      · -- a status the checkpoint wrote before the error is written over
        rcases hend with hend | ⟨-, s, -, hend⟩
        · rw [hbatches, (schedule_eq hend).2, h.batches]
        · rw [hbatches, hend, setBatch_setBatch, h.batches]
      · rw [hitems]
        exact hothers hreach i hi

/-- The loop stopped, with every started batch checkpointed. -/
def Stopped (budget : ℚ) (env : Batch → BatchEnv) (S : Set ℕ) (w : World) (l : List Batch)
    (p : Progress) (v : World) : Prop :=
  ∃ started rest, l = started ++ rest ∧ Allowed budget env started ∧
    (∀ row tail, rest = row :: tail → allows budget env started row = false) ∧
    p.completed = started.length ∧ p.failedBatch = none ∧ LoopWorld env S w started v

/-- The last started batch did not go through. -/
def Broke (budget : ℚ) (env : Batch → BatchEnv) (w : World) (l : List Batch) (completed : ℕ)
    (v : World) : Prop :=
  ∃ started row rest, l = started ++ row :: rest ∧ Allowed budget env (started ++ [row]) ∧
    completed = started.length ∧ FailedWorld env w started row v

theorem Allowed.snoc (h : Allowed budget env started) (hrow : allows budget env started row = true) :
    Allowed budget env (started ++ [row]) := by
  intro before r after heq
  rcases List.eq_nil_or_concat after with rfl | ⟨init, last, rfl⟩
  · obtain ⟨rfl, hr⟩ := List.append_inj' heq rfl
    rw [← List.singleton_inj.1 hr]
    exact hrow
  · have hsplit : started ++ [row] = (before ++ r :: init) ++ [last] := by simpa using heq
    exact h before r init (List.append_inj' hsplit rfl).1

/-- **The three ways out of the loop.** -/
theorem batchLoop_exit (hnd : (l.map Batch.id).Nodup) (hl : ∀ r ∈ l, r ∈ w.batches ∧ r.id ∈ S)
    {todo : List Batch} (progress : Progress) (hsplit : l = started ++ todo)
    (hallowed : Allowed budget env started) (hcompleted : progress.completed = started.length)
    (hdurations : progress.durations = (started.map fun r => (env r).duration).reverse)
    (hfailed : progress.failedBatch = none) :
    Triple (fun _ _ => True) (LoopWorld env S w started)
      (batchLoop D runId l.length budget env todo progress)
      (fun p v => Stopped budget env S w l p v ∨
        (∃ n, p.failedBatch = some n) ∧ v.run = w.run ∧ Broke budget env w l p.completed v)
      (fun _ v => ∃ k, v.run = { w.run with remainingBatches := some (l.length - k), chain := false } ∧
        Broke budget env w l k v) := by
  induction todo generalizing started progress with
  | nil =>
    unfold batchLoop
    refine Triple.pure fun v hv => Or.inl ⟨started, [], hsplit, hallowed, ?_, hcompleted, hfailed, hv⟩
    intro row tail heq
    cases heq
  | cons row rest ih =>
    obtain ⟨hrow, hS⟩ := hl row (by simp [hsplit])
    have hnew : row.id ∉ started.map Batch.id := by
      rw [hsplit, List.map_append, List.nodup_append] at hnd
      exact fun hmem => hnd.2.2 _ hmem _ (by simp) rfl
    -- the progress says of the started batches what the clock asks
    have hclock : shouldStart (env row).elapsed (longestBatch progress.durations) budget
        progress.completed = allows budget env started row := by
      rw [hcompleted, hdurations]
      rfl
    unfold batchLoop
    rw [hclock]
    by_cases hgo : allows budget env started row = true
    · rw [if_pos hgo]
      refine Triple.pre fun v hv => ?_
      refine Triple.bind (M := fun _ u => (u.batchStatus row.id = some .checkpointed ∧
          LoopWorld env S w (started ++ [row]) u) ∨
        (u.batchStatus row.id = some .failed ∧ u.run = w.run ∧ FailedWorld env w started row u))
        (Triple.catchError (batchSteps_next hv hrow hnew hS) fun e => ?_) fun counts =>
          Triple.get_bind fun u hu => ?_
      · -- the handler writes `FAILED`, then the run row
        unfold failBatch
        refine Triple.bind (M := fun _ u => u.run = w.run ∧ FailedWorld env w started row u)
          (Triple.write fun u hu => ⟨trivial, hu.1, hu.2 _ rfl rfl⟩) fun _ =>
            Triple.bind (M := fun _ u => u.run = { w.run with
              remainingBatches := some (l.length - started.length), chain := false } ∧
              FailedWorld env w started row u) (Triple.write fun u hu => ⟨trivial, ?_, ?_⟩)
              fun _ => Triple.fail fun u hu => ?_
        · rw [← hu.1, hcompleted]
        · exact ⟨hu.2.batches, hu.2.others, hu.2.busy⟩
        · exact ⟨_, hu.1, started, row, rest, hsplit, hallowed.snoc hgo, rfl, hu.2⟩
      · dsimp only
        rcases hu with ⟨hstatus, hworld⟩ | ⟨hstatus, hrun, hworld⟩
        · rw [hstatus, if_neg (by decide)]
          refine (ih _ (by rw [hsplit, List.append_assoc]; rfl) (hallowed.snoc hgo) ?_ ?_
            ?_).consequence ?_ (fun _ _ h => h) fun _ _ h => h
          · rw [hcompleted, List.length_append, List.length_singleton]
          · rw [hdurations, List.map_append, List.reverse_append]
            rfl
          · exact hfailed
          · rintro _ rfl
            exact hworld
        -- no item of the batch was confirmed, which ends the loop
        · rw [hstatus, if_pos rfl]
          refine Triple.pure ?_
          rintro _ rfl
          exact Or.inr ⟨⟨_, rfl⟩, hrun, started, row, rest, hsplit, hallowed.snoc hgo, hcompleted,
            hworld⟩
    · rw [if_neg hgo]
      refine Triple.pure fun v hv => Or.inl ⟨started, row :: rest, hsplit, hallowed, ?_, hcompleted,
        hfailed, hv⟩
      rintro row' tail heq
      obtain ⟨rfl, -⟩ := List.cons.inj heq
      exact Bool.eq_false_iff.2 hgo

end Exit

section Phase

theorem ordered_plannedBatches (w : World) (runId : ℕ) :
    (w.plannedBatches runId).Pairwise fun a b => a.number ≤ b.number := by
  have : Std.Total fun a b : Batch => a.number ≤ b.number := ⟨fun a b => Nat.le_total _ _⟩
  have : IsTrans Batch fun a b => a.number ≤ b.number := ⟨fun _ _ _ => Nat.le_trans⟩
  exact List.pairwise_insertionSort _ _

/-- The ids of the planned batches. -/
def plannedIds (w : World) (runId : ℕ) : Set ℕ := fun id => id ∈ (w.plannedBatches runId).map Batch.id

/-- **The two ends of the phase**, once the destination was checked. -/
theorem batchesRun_exit (l : List Batch) (hl : l = w.plannedBatches runId) :
    Triple (fun _ _ => True) (fun v => v = w) (batchesRun D true runId budget (.ok ()) env)
      (fun _ v => ∃ started rest, l = started ++ rest ∧ Allowed budget env started ∧
        (∀ row tail, rest = row :: tail → allows budget env started row = false) ∧
        v.run = { w.run with
          remainingBatches := some rest.length, chain := decide (0 < rest.length ∧ 0 < started.length) } ∧
        LoopWorld env (plannedIds w runId) w started { v with run := w.run })
      (fun _ v => ∃ started row rest, l = started ++ row :: rest ∧
        Allowed budget env (started ++ [row]) ∧
        v.run = { w.run with remainingBatches := some (rest.length + 1), chain := false } ∧
        FailedWorld env w started row v) := by
  have hnd : (l.map Batch.id).Nodup := hl ▸ nodup_plannedBatches w runId
  have hmem : ∀ r ∈ l, r ∈ w.batches ∧ r.id ∈ plannedIds w runId := by
    intro r hr
    rw [hl] at hr
    exact ⟨(mem_plannedBatches.1 hr).1, List.mem_map_of_mem hr⟩
  have hstart : LoopWorld env (plannedIds w runId) w [] w := by
    refine ⟨rfl, landed_nil.symm, fun _ _ => Iff.rfl, fun _ h _ => h, fun _ _ h _ => h, ?_⟩
    rintro ⟨_, hr, -⟩
    cases hr
  unfold batchesRun
  refine Triple.get_bind fun s hs => ?_
  rw [hs, ← hl]
  dsimp only
  rw [if_neg (by decide)]
  have hallowed : Allowed budget env [] := fun before row after heq => by simp at heq
  refine Triple.bind ((batchLoop_exit (D := D) hnd hmem ⟨[], [], 0, none⟩ rfl
    hallowed rfl rfl rfl).consequence (fun v hv => by rw [hv]; exact hstart) (fun _ _ h => h) ?_)
      fun p => ?_
  · rintro _ v ⟨k, hrun, started, row, rest, hsplit, hallowed, rfl, hworld⟩
    refine ⟨started, row, rest, hsplit, hallowed, ?_, hworld⟩
    rw [hrun, hsplit, List.length_append, List.length_cons, Nat.add_sub_cancel_left]
  · unfold updateRun
    refine Triple.pre fun v hv => ?_
    rcases hv with ⟨started, rest, hsplit, hallowed, hclock, hcompleted, hnone, hworld⟩ |
      ⟨⟨n, hn⟩, hrun, started, row, rest, hsplit, hallowed, hcompleted, hworld⟩
    · have hremain : l.length - p.completed = rest.length := by
        rw [hcompleted, hsplit, List.length_append, Nat.add_sub_cancel_left]
      rw [hnone, hremain, hcompleted]
      refine Triple.bind (M := fun _ u => u.run = { w.run with
          remainingBatches := some rest.length, chain := decide (0 < rest.length ∧ 0 < started.length) } ∧
        LoopWorld env (plannedIds w runId) w started { u with run := w.run })
        (Triple.write ?_) fun _ => ?_
      · rintro _ rfl
        refine ⟨trivial, ?_, rfl, hworld.batches, hworld.others, hworld.kept, hworld.idle,
          hworld.busy⟩
        simp [hworld.run]
      · dsimp only
        split
        · -- the first batch always starts, so something completed or nothing remains
          rename_i hno
          obtain ⟨row, tail, rfl⟩ := List.exists_cons_of_length_pos (Nat.pos_of_ne_zero hno.1)
          have hzero := List.length_eq_zero_iff.1 hno.2
          have hgo := hclock row tail rfl
          rw [hzero] at hgo
          cases hgo
        · exact Triple.pure fun u hu => ⟨started, rest, hsplit, hallowed, hclock, hu⟩
    · have hremain : l.length - p.completed = rest.length + 1 := by
        rw [hcompleted, hsplit, List.length_append, List.length_cons, Nat.add_sub_cancel_left]
      rw [hn, hremain]
      refine Triple.bind (M := fun _ u => u.run = { w.run with
          remainingBatches := some (rest.length + 1), chain := false } ∧
        FailedWorld env w started row u) (Triple.write ?_) fun _ => Triple.fail fun u hu =>
          ⟨started, row, rest, hsplit, hallowed, hu⟩
      rintro _ rfl
      refine ⟨trivial, ?_, hworld.batches, hworld.others, hworld.busy⟩
      simp [hrun]

/-- How a triple about a run reads at its start. -/
theorem batchesRun_cases (D : Digests) (budget : ℚ) (env : Batch → BatchEnv) (w : World) (runId : ℕ) :
    ((∃ out, (batchesRun D true runId budget (.ok ()) env).result w = .ok out) ∧
      ∃ started rest, w.plannedBatches runId = started ++ rest ∧ Allowed budget env started ∧
        (∀ row tail, rest = row :: tail → allows budget env started row = false) ∧
        ((batchesRun D true runId budget (.ok ()) env).final w).run = { w.run with
          remainingBatches := some rest.length, chain := decide (0 < rest.length ∧ 0 < started.length) } ∧
        LoopWorld env (plannedIds w runId) w started
          { (batchesRun D true runId budget (.ok ()) env).final w with run := w.run }) ∨
    ((¬ ∃ out, (batchesRun D true runId budget (.ok ()) env).result w = .ok out) ∧
      ∃ started row rest, w.plannedBatches runId = started ++ row :: rest ∧
        Allowed budget env (started ++ [row]) ∧
        ((batchesRun D true runId budget (.ok ()) env).final w).run =
          { w.run with remainingBatches := some (rest.length + 1), chain := false } ∧
        FailedWorld env w started row ((batchesRun D true runId budget (.ok ()) env).final w)) := by
  have htriple : Triple (fun _ _ => True) (fun v => v = w)
      (batchesRun D true runId budget (.ok ()) env) _ _ := batchesRun_exit _ rfl
  obtain ⟨-, hok, herr⟩ := htriple w rfl
  cases hr : (batchesRun D true runId budget (.ok ()) env).result w with
  | ok out => exact Or.inl ⟨⟨out, rfl⟩, hok out hr⟩
  | error e =>
    refine Or.inr ⟨?_, herr e hr⟩
    rintro ⟨_, h⟩
    cases h

/-- **The books of the batches phase** over the list `l` of planned batches. A batch that was
started has a result, one that was not has its row and its items as they were. -/
structure LoopBooks (w : World) (l : List Batch) (returned : Prop) (v : World) : Prop where
  split : ∃ started rest, l = started ++ rest ∧
    (∀ r ∈ started.dropLast, v.batchStatus r.id = some .checkpointed) ∧
    (∀ r ∈ started, v.batchStatus r.id = some .checkpointed ∨ v.batchStatus r.id = some .failed) ∧
    ∀ r ∈ rest, r ∈ v.batches ∧ ∀ i, i.batchId = r.id → (i ∈ v.items ↔ i ∈ w.items)
  remaining : v.run.remainingBatches =
    some (l.countP fun r => decide (v.batchStatus r.id ≠ some .checkpointed))
  chain : v.run.chain = true ↔ returned ∧ (∃ r ∈ l, v.batchStatus r.id = some .checkpointed) ∧
    ∃ r ∈ l, v.batchStatus r.id ≠ some .checkpointed

/-- Batches that went through, at most one that did not, and batches that were not started. -/
theorem LoopBooks.of_parts (done failed rest : List Batch) {returned : Prop}
    (hl : l = done ++ failed ++ rest)
    (hone : failed.length ≤ 1)
    (hdone : ∀ r ∈ done, v.batchStatus r.id = some .checkpointed)
    (hfailed : ∀ r ∈ failed, v.batchStatus r.id = some .failed)
    (hrest : ∀ r ∈ rest, r ∈ v.batches ∧ r.status = .planned)
    (hitems : ∀ r ∈ rest, ∀ i, i.batchId = r.id → (i ∈ v.items ↔ i ∈ w.items))
    (hremaining : v.run.remainingBatches = some (failed.length + rest.length))
    (hchain : v.run.chain = true ↔ returned ∧ done ≠ [] ∧ rest ≠ [])
    (hreturned : returned → failed = []) : LoopBooks w l returned v := by
  have hne : ∀ r ∈ failed ++ rest, v.batchStatus r.id ≠ some .checkpointed := by
    intro r hr
    rcases List.mem_append.1 hr with hr | hr
    · rw [hfailed r hr]
      decide
    · have hfind := Table.mem_iff_find?.1 (hrest r hr).1
      rw [World.batchStatus, hfind, Option.map_some, (hrest r hr).2]
      decide
  rw [List.append_assoc] at hl
  refine ⟨⟨done ++ failed, rest, by rw [hl, List.append_assoc], fun r hr => ?_, fun r hr => ?_,
    fun r hr => ⟨(hrest r hr).1, hitems r hr⟩⟩, ?_, ?_⟩
  · rcases Nat.le_one_iff_eq_zero_or_eq_one.1 hone with hzero | hone
    · rw [List.length_eq_zero_iff.1 hzero, List.append_nil] at hr
      exact hdone r (List.mem_of_mem_dropLast hr)
    · obtain ⟨last, rfl⟩ := List.length_eq_one_iff.1 hone
      rw [List.dropLast_concat] at hr
      exact hdone r hr
  · exact (List.mem_append.1 hr).imp (hdone r) (hfailed r)
  · rw [hremaining, hl, List.countP_append, List.countP_eq_zero.2 fun r hr => by simp [hdone r hr],
      List.countP_eq_length.2 fun r hr => by simp [hne r hr], Nat.zero_add, List.length_append]
  · rw [hchain]
    constructor
    · rintro ⟨hret, hd, hr⟩
      obtain ⟨r, hr⟩ := List.exists_mem_of_ne_nil _ hr
      obtain ⟨r', hr'⟩ := List.exists_mem_of_ne_nil _ hd
      exact ⟨hret, ⟨r', by simp [hl, hr'], hdone r' hr'⟩,
        ⟨r, by simp [hl, hr], hne r (List.mem_append_right _ hr)⟩⟩
    · rintro ⟨hret, ⟨r', hr', hs'⟩, r, hr, hs⟩
      rw [hl, List.mem_append] at hr hr'
      refine ⟨hret, List.ne_nil_of_mem (hr'.resolve_right fun h => hne r' h hs'), ?_⟩
      have hmem := hr.resolve_left fun h => hs (hdone r h)
      rw [hreturned hret, List.nil_append] at hmem
      exact List.ne_nil_of_mem hmem

/-- A listed batch is not one of those listed before it. -/
theorem id_notMem_of_append {a c : List Batch} (h : w.plannedBatches runId = a ++ c) {r : Batch}
    (hr : r ∈ c) : r.id ∉ a.map Batch.id := by
  have hnd := nodup_plannedBatches w runId
  rw [h, List.map_append, List.nodup_append] at hnd
  exact fun hmem => hnd.2.2 _ hmem _ (List.mem_map_of_mem hr) rfl

/-- **The loop's bookkeeping is right on every exit.** -/
theorem batches_books (D : Digests) (runId : ℕ) (budget : ℚ) (env : Batch → BatchEnv) (w : World) :
    ((w.plannedBatches runId).Pairwise fun a b => a.number ≤ b.number) ∧
      LoopBooks w (w.plannedBatches runId)
        (∃ out, (batchesRun D true runId budget (.ok ()) env).result w = .ok out)
        ((batchesRun D true runId budget (.ok ()) env).final w) := by
  refine ⟨ordered_plannedBatches w runId, ?_⟩
  have hrow : ∀ r ∈ w.plannedBatches runId, r ∈ w.batches ∧ r.status = .planned := fun r hr =>
    ⟨(mem_plannedBatches.1 hr).1, (mem_plannedBatches.1 hr).2.2⟩
  set v := (batchesRun D true runId budget (.ok ()) env).final w
  rcases batchesRun_cases D budget env w runId with
    ⟨hret, started, rest, hl, -, -, hrun, hworld⟩ | ⟨hret, started, row, rest, hl, -, hrun, hworld⟩
  · -- the loop stopped
    have hfind : ∀ r ∈ w.plannedBatches runId, v.batches.find? r.id =
        some (if r.id ∈ started.map Batch.id then { r with status := .checkpointed } else r) := by
      intro r hr
      rw [show v.batches = _ from hworld.batches]
      exact find?_landed (hrow r hr).1
    refine LoopBooks.of_parts started [] rest (by rw [hl, List.append_nil])
      (Nat.zero_le 1) (fun r hr => ?_) (fun r hr => absurd hr List.not_mem_nil) (fun r hr => ?_)
      (fun r hr i hi => hworld.others i (by rw [hi]; exact id_notMem_of_append hl hr)) ?_ ?_
      fun _ => rfl
    · rw [World.batchStatus, hfind r (by simp [hl, hr]), if_pos (List.mem_map_of_mem hr)]
      rfl
    · have hf := hfind r (by simp [hl, hr])
      rw [if_neg (id_notMem_of_append hl hr)] at hf
      exact ⟨Table.mem_iff_find?.2 hf, (hrow r (by simp [hl, hr])).2⟩
    · rw [hrun, List.length_nil, Nat.zero_add]
    · rw [hrun]
      simp [hret, List.length_pos_iff, and_comm]
  · -- the last started batch failed or raised
    have hl' : w.plannedBatches runId = (started ++ [row]) ++ rest := by simpa using hl
    have hfind : ∀ r ∈ w.plannedBatches runId, v.batches.find? r.id =
        some (if r.id = row.id then { r with status := .failed } else
          if r.id ∈ started.map Batch.id then { r with status := .checkpointed } else r) := by
      intro r hr
      rw [hworld.batches, find?_setBatch, find?_landed (hrow r hr).1, Option.map_some]
      by_cases hid : r.id ∈ started.map Batch.id <;> simp [hid]
    refine LoopBooks.of_parts started [row] rest hl' le_rfl (fun r hr => ?_)
      (fun r hr => ?_) (fun r hr => ?_)
      (fun r hr i hi => hworld.others i (by rw [hi]; exact id_notMem_of_append hl' hr)) ?_ ?_
      fun h => absurd h hret
    · have hid : r.id ≠ row.id := fun h =>
        id_notMem_of_append hl (r := row) (by simp) (h ▸ List.mem_map_of_mem hr)
      rw [World.batchStatus, hfind r (by simp [hl, hr]), if_neg hid,
        if_pos (List.mem_map_of_mem hr)]
      rfl
    · obtain rfl := List.mem_singleton.1 hr
      rw [World.batchStatus, hfind r (by simp [hl]), if_pos rfl]
      rfl
    · have hf := hfind r (by simp [hl, hr])
      have hnew := id_notMem_of_append hl' hr
      rw [List.map_append, List.mem_append, not_or] at hnew
      rw [if_neg fun h => hnew.2 (by simp [h]), if_neg hnew.1] at hf
      exact ⟨Table.mem_iff_find?.2 hf, (hrow r (by simp [hl, hr])).2⟩
    · rw [hrun, List.length_singleton, Nat.add_comm]
    · rw [hrun]
      exact ⟨fun h => absurd h Bool.false_ne_true, fun h => absurd h.1 hret⟩

end Phase

section Chain

/-- **Chaining means progress**: where the phase leaves `chain = 1`, it mirrored an item. -/
def ChainsWithProgress (D : Digests) (apply : Bool) (runId : ℕ) (budget : ℚ) (root : Except Failure Unit)
    (env : Batch → BatchEnv) (w : World) : Prop :=
  ((batchesRun D apply runId budget root env).final w).run.chain = true →
    Mirrors (plannedIds w runId) w ((batchesRun D apply runId budget root env).final w)

/-- Where an idle beginning of the plan is never the last the clock allows, a chain is progress. -/
theorem chains_of_allows (h : ∀ before row after, w.plannedBatches runId = before ++ row :: after →
      before ≠ [] → (∀ r ∈ before, Idle (env r) r.id w) → allows budget env before row = true) :
    ChainsWithProgress D true runId budget (.ok ()) env w := by
  intro hchain
  rcases batchesRun_cases D budget env w runId with
    ⟨-, started, rest, hl, -, hclock, hrun, hworld⟩ | ⟨-, started, row, rest, hl, -, hrun, hworld⟩
  · rw [hrun] at hchain
    have hpos := of_decide_eq_true hchain
    obtain ⟨row, tail, rfl⟩ := List.exists_cons_of_length_pos hpos.1
    have hidle : ¬ ∀ r ∈ started, Idle (env r) r.id w := by
      intro hall
      have hgo := h started row tail hl (List.length_pos_iff.1 hpos.2) hall
      rw [hclock row tail rfl] at hgo
      cases hgo
    push Not at hidle
    exact hworld.busy hidle
  · rw [hrun] at hchain
    cases hchain

/-- **A run that chains only with progress** is never stopped by the clock after nothing but
idle batches. -/
theorem allows_of_chains (h : ChainsWithProgress D true runId budget (.ok ()) env w)
    {before after : List Batch} (hl : w.plannedBatches runId = before ++ row :: after)
    (hne : before ≠ []) (hidle : ∀ r ∈ before, Idle (env r) r.id w) :
    allows budget env before row = true := by
  -- the run may have stopped at an earlier batch, which also had only idle ones before it
  induction hn : before.length using Nat.strong_induction_on generalizing before row after with
  | _ n ih =>
  by_contra hno
  rcases batchesRun_cases D budget env w runId with
    ⟨-, started, rest, hl', hallowed, hclock, hrun, hworld⟩ |
    ⟨-, started, r, rest, hl', hallowed, -, hworld⟩
  · rcases Lists.cut_cases (hl.symm.trans hl') with ⟨mid, rfl⟩ | ⟨rfl, rfl⟩ | ⟨r, mid, rfl, rfl⟩
    · exact hno (hallowed before row mid rfl)
    · -- the clock stopped the run here: it chains, and mirrored nothing
      have hchain : ((batchesRun D true runId budget (.ok ()) env).final w).run.chain = true := by
        rw [hrun]
        exact decide_eq_true ⟨Nat.succ_pos _, List.length_pos_iff.2 hne⟩
      obtain ⟨i, hi, -, hs, hnew, -⟩ := h hchain
      exact hnew (hworld.idle hidle i hi hs)
    · -- the clock stopped the run before: by induction it cannot have
      have hrefused := hclock r _ rfl
      by_cases hnil : started = []
      · rw [hnil] at hrefused
        cases hrefused
      · have hlt : started.length < n := by
          rw [← hn, List.length_append, List.length_cons]
          omega
        have hgo := ih started.length hlt hl' hnil
          (fun r hr => hidle r (List.mem_append_left _ hr)) rfl
        rw [hrefused] at hgo
        cases hgo
  · -- a batch that did not go through is not idle, so it is `row` or comes later
    rcases Lists.cut_cases (hl.symm.trans hl') with ⟨mid, rfl⟩ | ⟨rfl, heq⟩ | ⟨y, mid, rfl, heq⟩
    · exact hno (hallowed before row (mid ++ [r]) (by simp))
    · obtain ⟨rfl, -⟩ := List.cons.inj heq
      exact hno (hallowed started r [] rfl)
    · obtain ⟨rfl, -⟩ := List.cons.inj heq
      exact hworld.busy (hidle r (by simp))

/-- **When a run that chains has made progress**: exactly where the clock never refuses a
batch before which all batches are idle. -/
theorem chains_progress_iff (D : Digests) (apply : Bool) (runId : ℕ) (budget : ℚ)
    (root : Except Failure Unit) (env : Batch → BatchEnv) (w : World) (hstart : w.run.chain = false) :
    ChainsWithProgress D apply runId budget root env w ↔
      (apply = true → root = .ok () → ∀ before row after,
        w.plannedBatches runId = before ++ row :: after → before ≠ [] →
        (∀ r ∈ before, Idle (env r) r.id w) → allows budget env before row = true) := by
  -- before the loop, and without `apply`, nothing is written
  have hearly : ∀ h : (batchesRun D apply runId budget root env).final w = w,
      ChainsWithProgress D apply runId budget root env w := by
    intro h hchain
    rw [h, hstart] at hchain
    cases hchain
  cases apply with
  | false => exact ⟨fun _ h => absurd h Bool.false_ne_true, fun _ => hearly rfl⟩
  | true =>
    cases root with
    | error e =>
      refine ⟨fun _ _ h => ?_, fun _ => hearly rfl⟩
      cases h
    | ok _ =>
      constructor
      · exact fun h _ _ before row after hl hne hidle => allows_of_chains h hl hne hidle
      · exact fun h => chains_of_allows (h rfl rfl)

/-- Two files, each too large to share a batch. -/
def twoBatchDelta : Delta where
  changed := ⟨[⟨1, "/a".toList, "/A".toList, 6, "hihihi".toList⟩,
    ⟨1, "/b".toList, "/B".toList, 6, "hihihi".toList⟩], by decide⟩
  deleted := Table.empty
  listedFiles := 2
  mirroredFiles := 0

/-- The world their plan leaves. -/
def twoBatchWorld : World :=
  (planRun Budget.small 100 1 Table.empty twoBatchDelta).final World.initial

/-- The first batch uses the budget up; Dropbox has its file, or no longer. -/
def lateEnv (answer : Download) (row : Batch) : BatchEnv :=
  { smoothEnv with
    elapsed := if row.number = 1 then 0 else 100
    download := fun _ => answer }

/-- What Dropbox serves for both. -/
def sixBytes : Download := .served [104, 105, 104, 105, 104, 105]

/-- The first batch is mirrored, the clock refuses the second: the chain is progress. -/
theorem chains_progress_twoBatches :
    ((batchesRun Digests.plain true 1 60 (.ok ()) (lateEnv sixBytes)).final
        twoBatchWorld).run.chain = true ∧
      Mirrors (plannedIds twoBatchWorld 1) twoBatchWorld
        ((batchesRun Digests.plain true 1 60 (.ok ()) (lateEnv sixBytes)).final twoBatchWorld) := by
  have hchain : ((batchesRun Digests.plain true 1 60 (.ok ()) (lateEnv sixBytes)).final
      twoBatchWorld).run.chain = true := by decide +kernel
  have hall : ∀ row ∈ twoBatchWorld.plannedBatches 1, ∃ i ∈ twoBatchWorld.items,
      i.batchId = row.id ∧ i.status = .planned := by decide
  refine ⟨hchain, (chains_progress_iff Digests.plain true 1 60 (.ok ()) (lateEnv sixBytes)
    twoBatchWorld rfl).2 (fun _ _ before row after hl hne hidle => ?_) hchain⟩
  -- no batch is idle: Dropbox serves both files
  obtain ⟨first, rest, rfl⟩ := List.exists_cons_of_ne_nil hne
  obtain ⟨i, hi, hb, hs⟩ := hall first (by rw [hl]; simp)
  rcases (hidle first List.mem_cons_self).gone i hi hb with hv | ⟨-, hn⟩
  · rw [hs] at hv
    cases hv
  · cases hn

/-- **A run chains without progress**: the only file of its first batch is gone, and the
clock refuses the second. -/
theorem chains_without_progress :
    ((batchesRun Digests.plain true 1 60 (.ok ()) (lateEnv .notFound)).final
        twoBatchWorld).run.chain = true ∧
      ¬ ChainsWithProgress Digests.plain true 1 60 (.ok ()) (lateEnv .notFound) twoBatchWorld := by
  have hchain : ((batchesRun Digests.plain true 1 60 (.ok ()) (lateEnv .notFound)).final
      twoBatchWorld).run.chain = true := by decide +kernel
  have hnone : ∀ i ∈ ((batchesRun Digests.plain true 1 60 (.ok ()) (lateEnv .notFound)).final
      twoBatchWorld).items, i.status ≠ .checkpointed := by decide +kernel
  refine ⟨hchain, fun h => ?_⟩
  obtain ⟨i, hi, -, hs, -⟩ := h hchain
  exact hnone i hi hs

end Chain

end DropboxMirror
