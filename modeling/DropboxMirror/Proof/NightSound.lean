import DropboxMirror.Proof.Growth

/-!
# What every database of the nights keeps

The local database, the canonical one and each of the history keep the same things
(`NightSound`), whatever is killed, and whatever the operator pushes or rolls back: the runs
follow each other and only the newest one may be in progress, a reconcile run that was not
asked for is the first of its day, and a run is a success exactly if none of its phases failed
last (`nights_sound`).
-/

namespace DropboxMirror

open Text Crash Accrual

variable {migrationId : Str} {weekday now runId id : ℕ} {forced : List ℕ} {s t : NightSystem}
  {db : NightDb} {phases : PhaseRuns} {phase : Phase}

/-- The last attempt of some phase in the run failed; the report's own attempts do not count. -/
def PhaseFailed (phases : PhaseRuns) (runId : ℕ) : Prop :=
  ∃ a ∈ phases, a.runId = runId ∧ a.phaseNumber ≠ Phase.report.number ∧ a.status = .fail ∧
    ∀ b ∈ phases, b.runId = runId → b.phaseNumber = a.phaseNumber → b.id ≤ a.id

/-- The midnight before. -/
def dayStart (epoch : ℕ) : ℕ := epoch - epoch % daySeconds

/-- No run of the weekday starts before this one. -/
def FirstOfDay (weekday : ℕ) (runs : Table Run.id) (epoch : ℕ) : Prop :=
  (clock epoch).weekday = weekday ∧ ∀ q ∈ runs, dayStart epoch ≤ q.startEpoch → epoch ≤ q.startEpoch

/-- **What a database of the nights keeps.** -/
structure NightSound (weekday now : ℕ) (forced : List ℕ) (db : NightDb) : Prop where
  order : db.runs.rows.Pairwise fun q r => q.id < r.id ∧ q.startEpoch ≤ r.startEpoch
  past : ∀ r ∈ db.runs, r.startEpoch ≤ now
  single : LastOpen Run.Ended db.runs.rows
  weekly : ∀ r ∈ db.runs, r.reconcile = true →
    r.startEpoch ∈ forced ∨ FirstOfDay weekday db.runs r.startEpoch
  attempts : db.phases.rows.Pairwise fun a b => a.id < b.id ∧ a.runId ≤ b.runId
  owned : ∀ a ∈ db.phases, ∃ r ∈ db.runs, r.id = a.runId
  verdict : ∀ r ∈ db.runs, (r.status = .success → ¬ PhaseFailed db.phases r.id) ∧
    (r.status = .fail → PhaseFailed db.phases r.id)

/-- Time goes on. -/
theorem NightSound.later (h : NightSound weekday now forced db) {now' : ℕ} {forced' : List ℕ}
    (hnow : now ≤ now') (hforced : forced ⊆ forced') : NightSound weekday now' forced' db :=
  { h with
    past := fun r hr => (h.past r hr).trans hnow
    weekly := fun r hr hrec => (h.weekly r hr hrec).imp_left fun hf => hforced hf }

/-- **The run in progress is the newest one.** -/
theorem NightSound.newest (h : NightSound weekday now forced db) (hrun : Running runId db) :
    ∀ q ∈ db.runs, q.id ≤ runId := by
  obtain ⟨r, hcurrent, rfl⟩ := hrun
  obtain ⟨hr, hst, -⟩ := currentRun_eq_some.1 hcurrent
  have hlast := h.single.getLast?_of_open hr fun hended => hended hst
  have hsplit := List.dropLast_append_getLast? r hlast
  have horder := h.order
  rw [← hsplit, List.pairwise_append] at horder
  intro q hq
  rw [Table.mem_def, ← hsplit, List.mem_append, List.mem_singleton] at hq
  rcases hq with hq | rfl
  · exact (horder.2.2 q hq r List.mem_cons_self).1.le
  · exact le_rfl

section Runs

/-- Updates of rows that keep what a run was started with. -/
theorem NightSound.mapRuns (h : NightSound weekday now forced db) {f : Run → Run}
    {hf : ∀ r, (f r).id = r.id} (hcore : ∀ r, (f r).core = r.core)
    (hended : ∀ r : Run, r.Ended → (f r).Ended)
    (hverdict : ∀ r ∈ db.runs, ((f r).status = .success → ¬ PhaseFailed db.phases r.id) ∧
      ((f r).status = .fail → PhaseFailed db.phases r.id)) :
    NightSound weekday now forced { db with runs := db.runs.modify f hf } := by
  have hepoch : ∀ r, (f r).startEpoch = r.startEpoch := fun r => by
    change (f r).core.startEpoch = r.core.startEpoch
    rw [hcore]
  have hrec : ∀ r, (f r).reconcile = r.reconcile := fun r => by
    change (f r).core.reconcile = r.core.reconcile
    rw [hcore]
  have hmem : ∀ r', r' ∈ db.runs.modify f hf ↔ ∃ r ∈ db.runs, f r = r' := fun _ => List.mem_map
  constructor
  · change (db.runs.rows.map f).Pairwise _
    rw [List.pairwise_map]
    exact h.order.imp fun hqr => by rwa [hf, hf, hepoch, hepoch]
  · intro r' hr'
    obtain ⟨r, hr, rfl⟩ := (hmem r').1 hr'
    rw [hepoch]
    exact h.past r hr
  · exact h.single.map hended
  · intro r' hr' hrec'
    obtain ⟨r, hr, rfl⟩ := (hmem r').1 hr'
    rw [hrec] at hrec'
    rw [hepoch]
    refine (h.weekly r hr hrec').imp_right fun hfirst => ⟨hfirst.1, fun q' hq' => ?_⟩
    obtain ⟨q, hq, rfl⟩ := (hmem q').1 hq'
    rw [hepoch]
    exact hfirst.2 q hq
  · exact h.attempts
  · intro a ha
    obtain ⟨r, hr, hid⟩ := h.owned a ha
    exact ⟨f r, (hmem _).2 ⟨r, hr, rfl⟩, (hf r).trans hid⟩
  · intro r' hr'
    obtain ⟨r, hr, rfl⟩ := (hmem r').1 hr'
    rw [hf]
    exact hverdict r hr

/-- A new run, after the others. -/
theorem NightSound.append (h : NightSound weekday now forced db) {r : Run} {runs : Table Run.id}
    (hrows : runs.rows = db.runs.rows ++ [r]) (hid : ∀ q ∈ db.runs, q.id < r.id)
    (hepoch : r.startEpoch = now) (hended : ∀ q ∈ db.runs, q.Ended) (hstatus : r.status = .running)
    (hweekly : r.reconcile = true → now ∈ forced ∨ FirstOfDay weekday db.runs now) :
    NightSound weekday now forced { db with runs } := by
  have hmem : ∀ q, q ∈ runs ↔ q ∈ db.runs ∨ q = r := fun q => by
    rw [Table.mem_def, hrows, List.mem_append, List.mem_singleton]
    rfl
  -- the new run starts no earlier than any other
  have hlate : ∀ e, e ≤ now → FirstOfDay weekday db.runs e → FirstOfDay weekday runs e := by
    intro e he hfirst
    refine ⟨hfirst.1, fun q hq hday => ?_⟩
    rcases (hmem q).1 hq with hq | rfl
    · exact hfirst.2 q hq hday
    · exact he.trans_eq hepoch.symm
  constructor
  · change runs.rows.Pairwise _
    rw [hrows, List.pairwise_append]
    refine ⟨h.order, List.pairwise_singleton _ _, fun q hq r' hr' => ?_⟩
    obtain rfl := List.mem_singleton.1 hr'
    exact ⟨hid q hq, hepoch ▸ h.past q hq⟩
  · intro q hq
    rcases (hmem q).1 hq with hq | rfl
    · exact h.past q hq
    · exact hepoch.le
  · change LastOpen Run.Ended runs.rows
    rw [hrows]
    exact LastOpen.append hended r
  · intro q hq hrec
    rcases (hmem q).1 hq with hq | rfl
    · exact (h.weekly q hq hrec).imp_right (hlate _ (h.past q hq))
    · rw [hepoch]
      exact (hweekly hrec).imp_right (hlate now le_rfl)
  · exact h.attempts
  · intro a ha
    obtain ⟨q, hq, hqid⟩ := h.owned a ha
    exact ⟨q, (hmem q).2 (Or.inl hq), hqid⟩
  · intro q hq
    rcases (hmem q).1 hq with hq | rfl
    · exact h.verdict q hq
    · rw [hstatus]
      exact ⟨nofun, nofun⟩

/-- The first run of the weekday, or one that was asked for. -/
theorem of_isReconcileRun {forcedRun : Bool}
    (h : isReconcileRun weekday forcedRun db (clock now) = true) :
    forcedRun = true ∨ FirstOfDay weekday db.runs now := by
  unfold isReconcileRun at h
  split at h
  · exact Or.inl ‹_›
  split at h
  · cases h
  · rename_i hday
    refine Or.inr ⟨not_not.1 hday, fun q hq hstart => ?_⟩
    have hnone := List.countP_eq_zero.1 (of_decide_eq_true h) q hq
    rw [decide_eq_true_eq, not_and, not_lt] at hnone
    exact hnone hstart

theorem ended_interrupted (r : Run) : r.interrupted.Ended := by
  unfold Run.interrupted Run.Ended
  split
  · exact nofun
  · assumption

theorem core_interrupted (r : Run) : r.interrupted.core = r.core := by
  unfold Run.interrupted
  split <;> rfl

/-- **A run starts.** -/
theorem NightSound.startRun (h : NightSound weekday now forced db) (minutes : ℕ) (host : Str)
    {forcedRun : Bool} (hforced : forcedRun = true → now ∈ forced) :
    NightSound weekday now forced (db.startRun (clock now) minutes host
      (isReconcileRun weekday forcedRun db (clock now))) := by
  have hid : ∀ r : Run, r.interrupted.id = r.id := fun r => by unfold Run.interrupted; split <;> rfl
  -- the runs that were in progress are over
  have hinter : NightSound weekday now forced { db with runs := db.runs.modify Run.interrupted hid } := by
    refine h.mapRuns core_interrupted (fun r _ => ended_interrupted r) fun r hr => ?_
    unfold Run.interrupted
    split
    · exact ⟨nofun, nofun⟩
    · exact h.verdict r hr
  have hmem : ∀ r', r' ∈ db.runs.modify Run.interrupted hid ↔ ∃ r ∈ db.runs, r.interrupted = r' :=
    fun _ => List.mem_map
  refine hinter.append (Table.rows_upsert_next rfl) (fun q hq => Table.lt_nextKey hq) rfl (fun q hq => ?_)
    rfl fun hrec => (of_isReconcileRun hrec).imp hforced fun hfirst => ⟨hfirst.1, fun q' hq' => ?_⟩
  · obtain ⟨r, -, rfl⟩ := (hmem q).1 hq
    exact ended_interrupted r
  · obtain ⟨q, hq, rfl⟩ := (hmem q').1 hq'
    have hepoch : q.interrupted.startEpoch = q.startEpoch := by
      change q.interrupted.core.startEpoch = q.core.startEpoch
      rw [core_interrupted]
    rw [hepoch]
    exact hfirst.2 q hq

/-- **Columns of a run** are written. -/
theorem NightSound.updateRun (h : NightSound weekday now forced db) (c : RunChange) :
    NightSound weekday now forced (db.updateRun runId c) := by
  have hsame : ∀ r : Run, (if r.id = runId then r.change c else r).status = r.status := fun r => by
    split
    · cases c <;> rfl
    · rfl
  refine h.mapRuns (fun r => ?_) (fun r hr => ?_) fun r hr => ?_
  · split
    · cases c <;> rfl
    · rfl
  · rw [Run.Ended, hsame]
    exact hr
  · rw [hsame]
    exact h.verdict r hr

end Runs

section Attempts

/-- Updates of attempts that do not make or undo a failure of the run. -/
theorem phaseFailed_modify {f : PhaseRun → PhaseRun} {hf : ∀ a, (f a).id = a.id}
    (hrun : ∀ a, (f a).runId = a.runId) (hnumber : ∀ a, (f a).phaseNumber = a.phaseNumber)
    (hstatus : ∀ a ∈ phases, a.runId = runId → a.phaseNumber ≠ Phase.report.number →
      ((f a).status = .fail ↔ a.status = .fail)) :
    PhaseFailed (phases.modify f hf) runId ↔ PhaseFailed phases runId := by
  have hmem : ∀ a', a' ∈ phases.modify f hf ↔ ∃ a ∈ phases, f a = a' := fun _ => List.mem_map
  constructor
  · rintro ⟨a', ha', har, han, hast, hlast⟩
    obtain ⟨a, ha, rfl⟩ := (hmem a').1 ha'
    rw [hrun] at har
    rw [hnumber] at han
    refine ⟨a, ha, har, han, (hstatus a ha har han).1 hast, fun b hb hbr hbn => ?_⟩
    have := hlast (f b) ((hmem _).2 ⟨b, hb, rfl⟩) ((hrun b).trans hbr)
      ((hnumber b).trans (hbn.trans (hnumber a).symm))
    rwa [hf, hf] at this
  · rintro ⟨a, ha, har, han, hast, hlast⟩
    refine ⟨f a, (hmem _).2 ⟨a, ha, rfl⟩, (hrun a).trans har, (hnumber a).symm ▸ han,
      (hstatus a ha har han).2 hast, fun b' hb' hbr hbn => ?_⟩
    obtain ⟨b, hb, rfl⟩ := (hmem b').1 hb'
    rw [hrun] at hbr
    rw [hnumber, hnumber] at hbn
    rw [hf, hf]
    exact hlast b hb hbr hbn

/-- An attempt of another run changes nothing. -/
theorem phaseFailed_startPhase (hne : id ≠ runId) :
    PhaseFailed (startPhase migrationId phase id phases).2 runId ↔ PhaseFailed phases runId := by
  have hinter : PhaseFailed (interruptRunning migrationId phase.number phases) runId ↔
      PhaseFailed phases runId := by
    refine phaseFailed_modify (interruptRunning_runId _) (interruptRunning_phaseNumber _ _)
      fun a _ _ _ => ?_
    split
    · rename_i hrunning
      rw [hrunning.2.2]
      exact iff_of_false nofun nofun
    · exact Iff.rfl
  rw [← hinter]
  -- the new row is of the other run
  constructor
  · rintro ⟨a, ha, har, han, hast, hlast⟩
    rcases mem_startPhase.1 ha with ha | rfl
    · exact ⟨a, ha, har, han, hast, fun b hb => hlast b (mem_startPhase.2 (Or.inl hb))⟩
    · exact absurd har hne
  · rintro ⟨a, ha, har, han, hast, hlast⟩
    refine ⟨a, mem_startPhase.2 (Or.inl ha), har, han, hast, fun b hb hbr => ?_⟩
    rcases mem_startPhase.1 hb with hb | rfl
    · exact hlast b hb hbr
    · exact absurd hbr hne

/-- A run that is over is not the one in progress. -/
theorem Running.ne_of_ended (h : Running runId db) {r : Run} (hr : r ∈ db.runs) (hended : r.Ended) :
    r.id ≠ runId := by
  rintro rfl
  obtain ⟨run, hcurrent, hid⟩ := h
  obtain ⟨hrun, hst, -⟩ := currentRun_eq_some.1 hcurrent
  rw [Table.eq_of_key_eq (t := db.runs) hrun hr hid] at hst
  exact hended hst

/-- Other attempts, and the same verdict on what is over. -/
theorem NightSound.withPhases (h : NightSound weekday now forced db) {phases' : PhaseRuns}
    (hattempts : phases'.rows.Pairwise fun a b => a.id < b.id ∧ a.runId ≤ b.runId)
    (howned : ∀ a ∈ phases', ∃ r ∈ db.runs, r.id = a.runId)
    (hverdict : ∀ r ∈ db.runs, r.Ended → (PhaseFailed phases' r.id ↔ PhaseFailed db.phases r.id)) :
    NightSound weekday now forced { db with phases := phases' } :=
  { h with
    attempts := hattempts
    owned := howned
    verdict := by
      intro r hr
      refine ⟨fun hst hfailed => ?_, fun hst => ?_⟩
      · have hended : r.Ended := fun hrunning => by rw [hst] at hrunning; cases hrunning
        exact (h.verdict r hr).1 hst ((hverdict r hr hended).1 hfailed)
      · have hended : r.Ended := fun hrunning => by rw [hst] at hrunning; cases hrunning
        exact (hverdict r hr hended).2 ((h.verdict r hr).2 hst) }

/-- **An attempt starts** in the run in progress. -/
theorem NightSound.startPhase (h : NightSound weekday now forced db) (hrun : Running runId db)
    (phase : Phase) :
    NightSound weekday now forced
      (db.onPhases fun t => (DropboxMirror.startPhase migrationId phase runId t).2) := by
  have hnewest := h.newest hrun
  have hmap : ∀ a' ∈ interruptRunning migrationId phase.number db.phases,
      ∃ a ∈ db.phases, a'.id = a.id ∧ a'.runId = a.runId := by
    intro a' ha'
    obtain ⟨a, ha, rfl⟩ := List.mem_map.1 ha'
    exact ⟨a, ha, by split <;> rfl, interruptRunning_runId _ a⟩
  refine h.withPhases ?_ (fun a ha => ?_) fun r hr hended =>
    phaseFailed_startPhase (hrun.ne_of_ended hr hended).symm
  · rw [rows_startPhase, List.pairwise_append]
    refine ⟨?_, List.pairwise_singleton _ _, fun a' ha' b hb => ?_⟩
    · change (db.phases.rows.map _).Pairwise _
      rw [List.pairwise_map]
      refine h.attempts.imp fun hab => ?_
      rw [interruptRunning_runId, interruptRunning_runId]
      refine ⟨?_, hab.2⟩
      have hid : ∀ a : PhaseRun, (if a.migrationId = migrationId ∧ a.phaseNumber = phase.number ∧
          a.status = .running then { a with status := PhaseStatus.interrupted } else a).id = a.id :=
        fun a => by split <;> rfl
      rw [hid, hid]
      exact hab.1
    · obtain rfl := List.mem_singleton.1 hb
      refine ⟨Table.lt_nextKey ha', ?_⟩
      -- the runs of the attempts so far are no newer
      obtain ⟨a, ha, -, hrunId⟩ := hmap a' ha'
      obtain ⟨r, hr, hid⟩ := h.owned a ha
      rw [hrunId, ← hid]
      exact hnewest r hr
  · rcases mem_startPhase.1 ha with ha | rfl
    · obtain ⟨a₀, ha₀, -, hrunId⟩ := hmap a ha
      rw [hrunId]
      exact h.owned a₀ ha₀
    · obtain ⟨run, hcurrent, hid⟩ := hrun
      exact ⟨run, (currentRun_eq_some.1 hcurrent).1, hid⟩

/-- **An attempt completes.** -/
theorem NightSound.complete (h : NightSound weekday now forced db)
    (hat : Attempting phase runId id db) (hrun : Running runId db ∨ phase = .report)
    (status : PhaseStatus) : NightSound weekday now forced (db.onPhases (completePhase id status)) := by
  have hkeep : ∀ a : PhaseRun, (if a.id = id then { a with status } else a).runId = a.runId ∧
      (if a.id = id then { a with status } else a).phaseNumber = a.phaseNumber ∧
      (if a.id = id then { a with status } else a).id = a.id := fun a => by
    split
    · exact ⟨rfl, rfl, rfl⟩
    · exact ⟨rfl, rfl, rfl⟩
  refine h.withPhases ?_ (fun a' ha' => ?_) fun r hr hended =>
    phaseFailed_modify (fun a => (hkeep a).1) (fun a => (hkeep a).2.1) fun a ha har han => ?_
  · change (db.phases.rows.map _).Pairwise _
    rw [List.pairwise_map]
    refine h.attempts.imp fun {a b} hab => ?_
    rw [(hkeep a).1, (hkeep b).1, (hkeep a).2.2, (hkeep b).2.2]
    exact hab
  · obtain ⟨a, ha, rfl⟩ := List.mem_map.1 ha'
    rw [(hkeep a).1]
    exact h.owned a ha
  · -- the attempt is of the run in progress, or it is the report's
    rw [if_neg fun hid => ?_]
    obtain ⟨⟨row, hrow, hrowid, hnumber, hrunId, -⟩, -⟩ := hat
    obtain rfl : a = row := Table.eq_of_key_eq (t := db.phases) ha hrow (hid.trans hrowid.symm)
    rcases hrun with hrun | rfl
    · exact hrun.ne_of_ended hr hended (har.symm.trans hrunId)
    · exact han hnumber

/-- The report names a phase exactly where one failed last. -/
theorem NightSound.failedPhases (h : NightSound weekday now forced db) (hrun : Running runId db)
    (hat : Attempting .report runId id db) :
    failedPhases runId db.phases = [] ↔ ¬ PhaseFailed db.phases runId := by
  obtain ⟨⟨row, hrow, rfl, hnumber, hrunId, hst⟩, hlast⟩ := hat
  -- later attempts are of later runs, and none is later than the run in progress
  have hlater : ∀ a ∈ db.phases, ∀ b ∈ db.phases, a.id < b.id → a.runId ≤ b.runId := by
    exact List.Pairwise.forall_of_forall_of_flip (fun a _ hlt => absurd hlt (lt_irrefl _))
      (h.attempts.imp fun hab _ => hab.2) (h.attempts.imp fun hab hba => absurd hab.1 hba.asymm)
  rw [failedPhases_eq_nil_iff]
  constructor
  · rintro hok ⟨a, ha, har, -, hast, hmax⟩
    refine hok a ha har (isNewest_iff.2 fun b hb hbn => ?_) hast
    by_contra hlt
    rw [not_le] at hlt
    obtain ⟨r, hr, hid⟩ := h.owned b hb
    have hle : b.runId ≤ runId := hid ▸ h.newest hrun r hr
    have hge : runId ≤ b.runId := har ▸ hlater a ha b hb hlt
    have := hmax b hb (Nat.le_antisymm hle hge) hbn
    omega
  · intro hnot a ha har hnew hast
    refine hnot ⟨a, ha, har, fun han => ?_, hast, fun b hb _ hbn => isNewest_iff.1 hnew b hb hbn⟩
    -- the newest attempt of the report is the one that runs
    have hle := isNewest_iff.1 hnew row hrow (hnumber.trans han.symm)
    obtain rfl : a = row := Table.eq_of_key_eq (t := db.phases) ha hrow (Nat.le_antisymm (hlast a ha) hle)
    rw [hst] at hast
    cases hast

/-- **The report ends the run.** -/
theorem NightSound.finish (h : NightSound weekday now forced db) (hrun : Running runId db)
    (hat : Attempting .report runId id db) :
    NightSound weekday now forced
      (db.finishRun runId (reportVerdict runId false db.phases).status.state) := by
  have hfailed := h.failedPhases hrun hat
  rw [← reportVerdict_success false] at hfailed
  generalize (reportVerdict runId false db.phases).status = status at hfailed ⊢
  refine h.mapRuns (fun r => ?_) (fun r hr => ?_) fun r hr => ?_
  · split
    · rfl
    · rfl
  · split
    · cases status with
      | success => exact nofun
      | fail => exact nofun
    · exact hr
  · split
    · rename_i hid
      rw [hid]
      cases status with
      | success => exact ⟨fun _ => hfailed.1 rfl, nofun⟩
      | fail => exact ⟨nofun, fun _ => not_not.1 fun hnot => absurd (hfailed.2 hnot) nofun⟩
    · exact h.verdict r hr

end Attempts

section Moves

/-- The database is the local one, or an object of the bucket. -/
def Held (s : NightSystem) (db : NightDb) : Prop := s.db = db ∨ ∃ key, s.bucket.get? key = some db

/-- Each database is sound. -/
def AllSound (weekday : ℕ) (s : NightSystem) : Prop :=
  ∀ db, Held s db → NightSound weekday s.now s.forced db

theorem AllSound.local (h : AllSound weekday s) : NightSound weekday s.now s.forced s.db :=
  h s.db (Or.inl rfl)

theorem AllSound.onDb (h : AllSound weekday s) {f : NightDb → NightDb}
    (hf : NightSound weekday s.now s.forced (f s.db)) : AllSound weekday (s.onDb f) := by
  rintro db (rfl | hdb)
  · exact hf
  · exact h db (Or.inr hdb)

/-- A database that is held goes to another key. -/
theorem AllSound.set (h : AllSound weekday s) {key : Str} {db : NightDb} (hdb : Held s db) :
    AllSound weekday { s with bucket := s.bucket.set key db } := by
  rintro db' (rfl | ⟨key', hkey'⟩)
  · exact h.local
  · rw [Dict.get?_set] at hkey'
    split at hkey'
    · cases hkey'
      exact h db hdb
    · exact h db' (Or.inr ⟨key', hkey'⟩)

theorem AllSound.copy (h : AllSound weekday s) (key : Str) : AllSound weekday (s.copy key) := by
  unfold NightSystem.copy
  split
  · exact h
  · rename_i db hdb
    exact h.set (Or.inr ⟨key, hdb⟩)

theorem OperatorMove.sound (h : OperatorMove s t) (hs : AllSound weekday s) : AllSound weekday t := by
  cases h with
  | push label env ht =>
    exact (pushNight_triple label env (fun _ h => h.set (Or.inl rfl))
      fun _ _ h => h.copy (historyKey label)).states hs t ht
  | rollback key reply ht =>
    exact (storeCall_triple reply (fun _ h => h) (fun _ h => h.copy key) fun _ h => h).states hs t ht

end Moves

end DropboxMirror
