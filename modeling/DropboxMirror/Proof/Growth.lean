import DropboxMirror.Lib.Accrual
import DropboxMirror.Proof.Nights

/-!
# The canonical state only grows

Each commit of a night takes the local database to one that grew out of it (`DbGrew`): rows are
added, and a run or an attempt that has ended is not written again. A machine starts with what
the bucket holds, so a push never takes the canonical state back (`Growing`), however the nights
are cut short: no run and no attempt is lost from it (`canonical_grows`).
-/

namespace DropboxMirror

open Text Crash Accrual

variable {migrationId : Str} {weekday : ℕ} {s t : NightSystem} {a b c db : NightDb} {phase : Phase}
  {runId id : ℕ}

/-- What the row of a run is started with; the rest is written later. -/
def Run.core (r : Run) : Run :=
  { r with
    status := .running, chain := false, inventoryId := none, plannedBatches := none,
    remainingBatches := none }

/-- The run is over. -/
def Run.Ended (r : Run) : Prop := r.status ≠ .running

/-- What the row of an attempt is started with. -/
def PhaseRun.core (r : PhaseRun) : PhaseRun := { r with status := .running }

/-- The attempt is over. -/
def PhaseRun.Ended (r : PhaseRun) : Prop := r.status ≠ .running

/-- Both tables grew. -/
structure DbGrew (a b : NightDb) : Prop where
  runs : Grew Run.core Run.Ended a.runs.rows b.runs.rows
  phases : Grew PhaseRun.core PhaseRun.Ended a.phases.rows b.phases.rows

theorem DbGrew.refl (a : NightDb) : DbGrew a a := ⟨Grew.refl _, Grew.refl _⟩

theorem DbGrew.trans (h : DbGrew a b) (h' : DbGrew b c) : DbGrew a c :=
  ⟨h.runs.trans h'.runs, h.phases.trans h'.phases⟩

section Steps

/-- **A run starts**: those that still ran are interrupted, and its row is new. -/
theorem grew_startRun (stamp : ClockStamp) (minutes : ℕ) (host : Str) (reconcile : Bool) (db : NightDb) :
    DbGrew db (db.startRun stamp minutes host reconcile) := by
  refine ⟨?_, Grew.refl _⟩
  have hrows : (db.startRun stamp minutes host reconcile).runs.rows =
      db.runs.rows.map Run.interrupted ++ [_] := Table.rows_upsert_next rfl
  rw [hrows]
  refine (Grew.map fun r _ => ?_).trans (Grew.append _ _)
  unfold Run.interrupted
  split
  · exact ⟨rfl, fun hended => absurd ‹_› hended⟩
  · exact Became.refl r

/-- **An attempt starts.** -/
theorem grew_startPhase (migrationId : Str) (phase : Phase) (runId : ℕ) (db : NightDb) :
    DbGrew db (db.onPhases fun t => (startPhase migrationId phase runId t).2) := by
  refine ⟨Grew.refl _, ?_⟩
  change Grew _ _ _ (startPhase migrationId phase runId db.phases).2.rows
  rw [rows_startPhase]
  refine Grew.trans (Grew.map fun r _ => ?_) (Grew.append _ _)
  split
  · rename_i hrunning
    exact ⟨rfl, fun hended => absurd hrunning.2.2 hended⟩
  · exact Became.refl r

/-- A write to the run in progress. -/
theorem grew_updateRow (h : Running runId db) {f : Run → Run} {hf : ∀ r, (f r).id = r.id}
    (hcore : ∀ r, (f r).core = r.core) : DbGrew db (db.updateRow runId f hf) := by
  refine ⟨Grew.map fun r hr => ?_, Grew.refl _⟩
  obtain ⟨run, hcurrent, rfl⟩ := h
  obtain ⟨hrun, hst, -⟩ := currentRun_eq_some.1 hcurrent
  split
  · rename_i hid
    -- the row is the one in progress
    rw [Table.eq_of_key_eq (t := db.runs) hr hrun hid]
    exact ⟨hcore run, fun hended => absurd hst hended⟩
  · exact Became.refl r

/-- **An attempt completes.** -/
theorem grew_completePhase (h : Attempting phase runId id db) (status : PhaseStatus) :
    DbGrew db (db.onPhases (completePhase id status)) := by
  refine ⟨Grew.refl _, Grew.map fun r hr => ?_⟩
  obtain ⟨⟨row, hrow, hid, -, -, hst⟩, -⟩ := h
  split
  · rename_i hrid
    rw [Table.eq_of_key_eq (t := db.phases) hr hrow (hrid.trans hid.symm)]
    exact ⟨rfl, fun hended => absurd hst hended⟩
  · exact Became.refl r

end Steps

section Nights

/-- The canonical state grew out of `a`, and the local database is new or grew out of it. -/
def Growing (a : NightDb) (s : NightSystem) : Prop :=
  ∃ c, s.bucket.get? stateKey = some c ∧ DbGrew a c ∧ (s.db = NightDb.empty ∨ DbGrew c s.db)

theorem Running.ne_empty (h : Running runId db) : db ≠ NightDb.empty := by
  rintro rfl
  obtain ⟨r, hr, -⟩ := h
  cases hr

theorem Attempting.ne_empty (h : Attempting phase runId id db) : db ≠ NightDb.empty := by
  rintro rfl
  obtain ⟨⟨r, hr, -⟩, -⟩ := h
  exact absurd hr List.not_mem_nil

/-- A commit of a database that is not new. -/
theorem Growing.onDb {f : NightDb → NightDb} (h : Growing a s) (hne : s.db ≠ NightDb.empty)
    (hf : DbGrew s.db (f s.db)) : Growing a (s.onDb f) := by
  obtain ⟨c, hc, hac, hlocal⟩ := h
  exact ⟨c, hc, hac, Or.inr ((hlocal.resolve_left hne).trans hf)⟩

/-- **Every commit of a night keeps the canonical state growing.** -/
theorem growing_rules (a : NightDb) : NightRules migrationId weekday (Growing a) where
  tick := fun _ _ _ _ h => h
  clear := fun s ⟨c, hc, hac, _⟩ => ⟨c, hc, hac, Or.inl rfl⟩
  fetch := by
    rintro s db hdb ⟨c, hc, hac, -⟩
    rw [hdb] at hc
    cases hc
    exact ⟨db, hdb, hac, Or.inr (DbGrew.refl db)⟩
  start := by
    rintro s minutes host forced hrestored - ⟨c, hc, hac, -⟩
    rcases hrestored with hsome | ⟨hnone, -⟩
    · rw [hsome] at hc
      cases hc
      exact ⟨s.db, hsome, hac, Or.inr (grew_startRun _ _ _ _ s.db)⟩
    · rw [hnone] at hc
      cases hc
  attempt := fun s phase runId hrun h =>
    h.onDb hrun.ne_empty (grew_startPhase migrationId phase runId s.db)
  update := fun s runId c hrun h =>
    h.onDb hrun.ne_empty (grew_updateRow hrun fun r => by cases c <;> rfl)
  finish := fun s runId id hrun _ h => h.onDb hrun.ne_empty (grew_updateRow hrun fun _ => rfl)
  complete := fun s phase runId id status hat _ h =>
    h.onDb hat.ne_empty (grew_completePhase hat status)
  put := by
    rintro s label ⟨c, hc, hac, hlocal⟩
    refine ⟨c, ?_, hac, hlocal⟩
    exact (Dict.get?_set ..).trans ((if_neg (historyKey_ne_stateKey label)).trans hc)
  copy := by
    rintro s phase runId id label hat hput ⟨c, hc, hac, hlocal⟩
    -- what the bucket copies is the local database
    refine ⟨s.db, ?_, hac.trans (hlocal.resolve_left hat.ne_empty), Or.inr ?_⟩
    · unfold NightSystem.copy
      rw [hput]
      exact (Dict.get?_set ..).trans (if_pos rfl)
    · rw [copy_db]
      exact DbGrew.refl s.db

/-- **What one state of the mirror keeps of an earlier one**: its runs and attempts, in their
order, and unchanged those that had ended. -/
structure KeepsHistory (a b : NightDb) : Prop where
  runs : a.runs.rows.map Run.core <+: b.runs.rows.map Run.core
  endedRuns : ∀ r ∈ a.runs, r.Ended → r ∈ b.runs
  attempts : a.phases.rows.map PhaseRun.core <+: b.phases.rows.map PhaseRun.core
  endedAttempts : ∀ r ∈ a.phases, r.Ended → r ∈ b.phases

/-- **The canonical state only grows**, over any nights from a new machine on, whatever is
killed, refused or lost on the way. -/
theorem canonical_grows (h : Relation.ReflTransGen (NightMove migrationId weekday) s t)
    (hnew : s.db = NightDb.empty) (ha : s.bucket.get? stateKey = some a) :
    ∃ b, t.bucket.get? stateKey = some b ∧ KeepsHistory a b := by
  have hgrow : Growing a t := by
    induction h with
    | refl => exact ⟨a, ha, DbGrew.refl a, Or.inl hnew⟩
    | tail _ hmove ih => exact hmove.kept (growing_rules a) ih
  obtain ⟨b, hb, hgrew, -⟩ := hgrow
  exact ⟨b, hb, hgrew.runs.keeps_core, fun _ => hgrew.runs.mem, hgrew.phases.keeps_core,
    fun _ => hgrew.phases.mem⟩

/-- A night whose calls are answered, without work between its start and its report. -/
def quietNight (epoch : ℕ) (s : NightSystem) : NightSystem :=
  (runPhase [] .report (reportBody true (.ok ()) ⟨.ok (), .done, .done⟩)).final
    ((stateCommand 0 false 60 [] ⟨true, true, true, true⟩ (clock epoch)).final (s.clocked epoch false))

/-- A new machine after one night. -/
def afterNight : NightSystem := (quietNight 1000 NightSystem.fresh).onDb fun _ => NightDb.empty

theorem quietNight_moves (epoch : ℕ) (s : NightSystem) (hnow : s.now ≤ epoch)
    (hstate : 0 < (stateCommand 0 false 60 [] ⟨true, true, true, true⟩ (clock epoch)
      (s.clocked epoch false)).states.length)
    (hreport : 0 < (runPhase [] .report (reportBody true (.ok ()) ⟨.ok (), .done, .done⟩)
      ((stateCommand 0 false 60 [] ⟨true, true, true, true⟩ (clock epoch)).final
        (s.clocked epoch false))).states.length) :
    Relation.ReflTransGen (NightMove [] 0) s (quietNight epoch s) :=
  (Relation.ReflTransGen.single (NightMove.state epoch 60 false [] _ hnow (Prog.final_mem hstate))).tail
    (NightMove.report true (.ok ()) _ (Prog.final_mem hreport))

/-- The second night's canonical state has the first one's run. -/
theorem canonical_grows_twoNights :
    ∃ a b, afterNight.bucket.get? stateKey = some a ∧
      (quietNight 90000 afterNight).bucket.get? stateKey = some b ∧ a.runs.size = 1 ∧
      KeepsHistory a b := by
  obtain ⟨a, ha⟩ : ∃ a, afterNight.bucket.get? stateKey = some a :=
    Option.isSome_iff_exists.1 (by decide +kernel)
  obtain ⟨b, hb, hkeeps⟩ := canonical_grows
    (quietNight_moves 90000 afterNight (by decide) (by decide +kernel) (by decide +kernel)) rfl ha
  have hsize : (afterNight.bucket.get? stateKey).map (fun a => a.runs.size) = some 1 := by
    decide +kernel
  rw [ha] at hsize
  exact ⟨a, b, ha, hb, Option.some.inj hsize, hkeeps⟩

end Nights

end DropboxMirror
