import DropboxMirror.Model.Phases

/-!
# When the report calls a run a success

After any history of a run's phases, the newest row of a phase is its latest attempt in
that run (`Tells`). The report takes a row that still runs for its own and leaves it
out, so an attempt that a kill cut short counts for nothing.

* `Tells.start`, `Tells.attempt`: one attempt of one phase.
* `failedPhases_eq_nil`: the verdict reads the failed attempts, and no others.
* `report_success_iff`: when a success means that every phase passed.
-/

namespace DropboxMirror

variable {migrationId : Str} {runId : ℕ} {t : PhaseRuns} {history : List Attempt}

/-- The outcome of the latest attempt of a phase, if it was started. -/
def latestOutcome (history : List Attempt) (phase : Phase) : Option (Option PhaseOutcome) :=
  (history.reverse.find? fun a => decide (a.phase = phase)).map Attempt.outcome

theorem latestOutcome_append (history : List Attempt) (a : Attempt) (phase : Phase) :
    latestOutcome (history ++ [a]) phase =
      if a.phase = phase then some a.outcome else latestOutcome history phase := by
  unfold latestOutcome
  rw [List.reverse_append, List.reverse_singleton, List.singleton_append, List.find?_cons]
  by_cases h : a.phase = phase <;> simp [h]

/-- The status of the row an attempt leaves. -/
def leftStatus : Option PhaseOutcome → PhaseStatus
  | none => .running
  | some outcome => outcome.status

theorem Phase.number_inj {p q : Phase} (h : p.number = q.number) : p = q := by
  cases p <;> cases q <;> first | rfl | exact absurd h (by decide)

theorem isNewest_iff {r : PhaseRun} :
    isNewest t r = true ↔ ∀ s ∈ t, s.phaseNumber = r.phaseNumber → s.id ≤ r.id := by
  rw [isNewest, List.all_eq_true]
  simp only [decide_eq_true_eq]
  rfl

/-- Two newest rows of a phase are one. -/
theorem eq_of_isNewest {r s : PhaseRun} (hr : r ∈ t) (hs : s ∈ t) (hrn : isNewest t r = true)
    (hsn : isNewest t s = true) (h : r.phaseNumber = s.phaseNumber) : r = s := by
  have h1 := isNewest_iff.1 hrn s hs h.symm
  have h2 := isNewest_iff.1 hsn r hr h
  exact Table.eq_of_key_eq hr hs (Nat.le_antisymm h2 h1)

/-- **What the table tells of a run**: the newest row of a phase is its latest attempt,
and a phase that was not started has no row of the run. -/
structure Tells (runId : ℕ) (outcome : Phase → Option (Option PhaseOutcome)) (t : PhaseRuns) : Prop where
  rows : ∀ r ∈ t, r.runId = runId → ∃ phase o, r.phaseNumber = phase.number ∧ outcome phase = some o
  newest : ∀ phase o, outcome phase = some o → ∃ r ∈ t, r.phaseNumber = phase.number ∧
    r.runId = runId ∧ isNewest t r = true ∧ r.status = leftStatus o

/-- An update that keeps ids and phases keeps what is newest. -/
theorem isNewest_modify (f : PhaseRun → PhaseRun) (hf : ∀ r, (f r).id = r.id)
    (hnumber : ∀ r, (f r).phaseNumber = r.phaseNumber) {r : PhaseRun} (h : isNewest t r = true) :
    isNewest (t.modify f hf) (f r) = true := by
  refine isNewest_iff.2 fun s' hs' hss => ?_
  obtain ⟨s, hs, rfl⟩ := Table.mem_modify.1 hs'
  rw [hf, hf]
  rw [hnumber, hnumber] at hss
  exact isNewest_iff.1 h s hs hss

theorem interruptRunning_runId (number : ℕ) (r : PhaseRun) :
    (if r.migrationId = migrationId ∧ r.phaseNumber = number ∧ r.status = .running then
      { r with status := PhaseStatus.interrupted } else r).runId = r.runId := by split <;> rfl

theorem interruptRunning_phaseNumber (migrationId : Str) (number : ℕ) (r : PhaseRun) :
    (if r.migrationId = migrationId ∧ r.phaseNumber = number ∧ r.status = .running then
      { r with status := PhaseStatus.interrupted } else r).phaseNumber = r.phaseNumber := by
  split <;> rfl

/-- `start_phase` appends its row. -/
theorem rows_startPhase (migrationId : Str) (phase : Phase) (runId : ℕ) (t : PhaseRuns) :
    (startPhase migrationId phase runId t).2.rows = (interruptRunning migrationId phase.number t).rows ++
      [startedRow migrationId phase runId (interruptRunning migrationId phase.number t)] :=
  Table.rows_upsert_next rfl

theorem mem_startPhase {phase : Phase} {r : PhaseRun} :
    r ∈ (startPhase migrationId phase runId t).2 ↔ r ∈ interruptRunning migrationId phase.number t ∨
      r = startedRow migrationId phase runId (interruptRunning migrationId phase.number t) := by
  rw [Table.mem_def, rows_startPhase, List.mem_append, List.mem_singleton]
  rfl

/-- **A phase that starts** has the newest row, and the other phases keep theirs. -/
theorem Tells.start {outcome : Phase → Option (Option PhaseOutcome)} (h : Tells runId outcome t)
    (migrationId : Str) (phase : Phase) :
    Tells runId (Function.update outcome phase (some none)) (startPhase migrationId phase runId t).2 := by
  set u := interruptRunning migrationId phase.number t with hu
  have hmem : ∀ r, r ∈ (startPhase migrationId phase runId t).2 ↔
      r ∈ u ∨ r = startedRow migrationId phase runId u := fun _ => mem_startPhase
  constructor
  · intro r hr hrunId
    rcases (hmem r).1 hr with hr | rfl
    · obtain ⟨r₀, hr₀, rfl⟩ := Table.mem_modify.1 hr
      rw [interruptRunning_runId] at hrunId
      obtain ⟨q, o, hq, ho⟩ := h.rows r₀ hr₀ hrunId
      rw [interruptRunning_phaseNumber]
      by_cases hqp : q = phase
      · exact ⟨q, none, hq, by rw [hqp, Function.update_self]⟩
      · exact ⟨q, o, hq, by rw [Function.update_of_ne hqp, ho]⟩
    · exact ⟨phase, none, rfl, Function.update_self ..⟩
  · intro q o ho
    by_cases hqp : q = phase
    · -- the row just inserted
      subst hqp
      rw [Function.update_self] at ho
      obtain rfl := Option.some.inj ho
      refine ⟨startedRow migrationId q runId u, (hmem _).2 (Or.inr rfl), rfl, rfl, ?_, rfl⟩
      refine isNewest_iff.2 fun s hs _ => ?_
      rcases (hmem s).1 hs with hs | rfl
      · exact (Table.lt_nextKey hs).le
      · exact le_rfl
    · rw [Function.update_of_ne hqp] at ho
      obtain ⟨r, hr, hq, hrunId, hnew, hs⟩ := h.newest q o ho
      have hne : r.phaseNumber ≠ phase.number := fun heq => hqp (Phase.number_inj (hq.symm.trans heq))
      -- the `UPDATE` leaves the rows of other phases alone
      have hsame : (if r.migrationId = migrationId ∧ r.phaseNumber = phase.number ∧
          r.status = .running then { r with status := PhaseStatus.interrupted } else r) = r :=
        if_neg fun hc => hne hc.2.1
      have hru : r ∈ u := Table.mem_modify.2 ⟨r, hr, hsame⟩
      refine ⟨r, (hmem r).2 (Or.inl hru), hq, hrunId, isNewest_iff.2 fun s hs' hss => ?_, hs⟩
      rcases (hmem s).1 hs' with hs' | rfl
      · have hkeep := isNewest_modify _ (fun r => by split <;> rfl)
          (interruptRunning_phaseNumber migrationId phase.number) hnew
        rw [hsame] at hkeep
        exact isNewest_iff.1 hkeep s hs' hss
      · exact absurd hss.symm hne

/-- A phase that completes: its newest row takes the status. -/
theorem Tells.complete {outcome : Phase → Option (Option PhaseOutcome)} {phase : Phase}
    (h : Tells runId (Function.update outcome phase (some none)) t) {row : PhaseRun} (hrow : row ∈ t)
    (hphase : row.phaseNumber = phase.number) (hnew : isNewest t row = true) (o : PhaseOutcome) :
    Tells runId (Function.update outcome phase (some (some o))) (completePhase row.id o.status t) := by
  have hrun : ∀ r : PhaseRun, (if r.id = row.id then { r with status := o.status } else r).runId =
      r.runId := fun r => by split <;> rfl
  have hnumber : ∀ r : PhaseRun, (if r.id = row.id then { r with status := o.status }
      else r).phaseNumber = r.phaseNumber := fun r => by split <;> rfl
  constructor
  · intro r' hr' hrunId
    obtain ⟨r, hr, rfl⟩ := Table.mem_modify.1 hr'
    rw [hrun] at hrunId
    obtain ⟨q, o', hq, ho'⟩ := h.rows r hr hrunId
    rw [hnumber]
    by_cases hqp : q = phase
    · exact ⟨q, some o, hq, by rw [hqp, Function.update_self]⟩
    · rw [Function.update_of_ne hqp] at ho'
      exact ⟨q, o', hq, by rw [Function.update_of_ne hqp, ho']⟩
  · intro q o' ho'
    by_cases hqp : q = phase
    -- the newest row of the phase is the one completed
    · subst hqp
      rw [Function.update_self] at ho'
      obtain rfl := Option.some.inj ho'
      obtain ⟨r, hr, hq, hrunId, hrn, -⟩ := h.newest q none (Function.update_self ..)
      obtain rfl := eq_of_isNewest hr hrow hrn hnew (hq.trans hphase.symm)
      refine ⟨{ r with status := o.status }, Table.mem_modify.2 ⟨r, hr, if_pos rfl⟩, hq, hrunId, ?_, rfl⟩
      have hkeep := isNewest_modify _ (fun r => by split <;> rfl) hnumber hrn
      rwa [if_pos rfl] at hkeep
    · rw [Function.update_of_ne hqp] at ho'
      obtain ⟨r, hr, hq, hrunId, hrn, hs⟩ := h.newest q o' (by rw [Function.update_of_ne hqp, ho'])
      have hne : r.id ≠ row.id := fun heq =>
        hqp (Phase.number_inj (hq.symm.trans (by rw [Table.eq_of_key_eq hr hrow heq, hphase])))
      refine ⟨r, Table.mem_modify.2 ⟨r, hr, if_neg hne⟩, hq, hrunId, ?_, hs⟩
      have hkeep := isNewest_modify _ (fun r => by split <;> rfl) hnumber hrn
      rwa [if_neg hne] at hkeep

/-- **One attempt of one phase.** -/
theorem Tells.attempt {outcome : Phase → Option (Option PhaseOutcome)} (h : Tells runId outcome t)
    (a : Attempt) : Tells runId (Function.update outcome a.phase (some a.outcome))
      (runAttempt migrationId runId t a) := by
  have hstart := h.start migrationId a.phase
  unfold runAttempt
  dsimp only
  cases ho : a.outcome with
  | none => exact hstart
  | some o =>
    set u := interruptRunning migrationId a.phase.number t
    have hrows : (startPhase migrationId a.phase runId t).2.rows =
        u.rows ++ [startedRow migrationId a.phase runId u] := Table.rows_upsert_next rfl
    obtain ⟨row, hrow, hphase, -, hnew, -⟩ := hstart.newest a.phase none (Function.update_self ..)
    have hid : row.id = u.nextKey := by
      have hmem : startedRow migrationId a.phase runId u ∈ (startPhase migrationId a.phase runId t).2 := by
        rw [Table.mem_def, hrows]
        exact List.mem_append_right _ (List.mem_singleton.2 rfl)
      have hge := isNewest_iff.1 hnew _ hmem hphase.symm
      rw [Table.mem_def, hrows, List.mem_append, List.mem_singleton] at hrow
      rcases hrow with hrow | rfl
      · have hlt : row.id < u.nextKey := Table.lt_nextKey hrow
        have hge' : u.nextKey ≤ row.id := hge
        omega
      · rfl
    have := hstart.complete hrow hphase hnew o
    rwa [hid] at this

/-- **After any history**, the newest row of a phase is its latest attempt. -/
theorem tells_history (migrationId : Str) (hfresh : ∀ r ∈ t, r.runId ≠ runId) (history : List Attempt) :
    Tells runId (latestOutcome history) (history.foldl (runAttempt migrationId runId) t) := by
  induction history using List.reverseRecOn with
  | nil => exact ⟨fun r hr hrun => absurd hrun (hfresh r hr), fun phase o ho => by cases ho⟩
  | append_singleton history a ih =>
    have hupd : latestOutcome (history ++ [a]) =
        Function.update (latestOutcome history) a.phase (some a.outcome) := by
      funext phase
      rw [latestOutcome_append, Function.update_apply]
      simp only [eq_comm]
    rw [List.foldl_append, hupd]
    exact ih.attempt a

/-- The report names a phase where the newest row is the run's and failed. -/
theorem failedPhases_eq_nil_iff : failedPhases runId t = [] ↔
    ∀ r ∈ t, r.runId = runId → isNewest t r = true → r.status ≠ .fail := by
  rw [failedPhases, List.map_eq_nil_iff, List.eq_nil_iff_forall_not_mem]
  simp only [List.mem_filter, figuresPhases, (List.perm_insertionSort _ _).mem_iff, Bool.and_eq_true,
    decide_eq_true_eq]
  constructor
  · intro hnone r hr hrun hnew hs
    exact hnone r ⟨⟨hr, ⟨hrun, hnew⟩, by rw [hs]; decide⟩, hs⟩
  · rintro hok r ⟨⟨hr, ⟨hrun, hnew⟩, -⟩, hs⟩
    exact hok r hr hrun hnew hs

/-- **The verdict reads the failed attempts, and no others.** -/
theorem Tells.failedPhases_eq_nil {outcome : Phase → Option (Option PhaseOutcome)}
    (h : Tells runId outcome t) :
    failedPhases runId t = [] ↔ ∀ phase, outcome phase ≠ some (some .fail) := by
  rw [failedPhases_eq_nil_iff]
  constructor
  · intro hnone phase hfail
    obtain ⟨r, hr, -, hrun, hnew, hs⟩ := h.newest phase _ hfail
    exact hnone r hr hrun hnew hs
  · intro hok r hr hrun hnew hs
    obtain ⟨phase, o, hphase, ho⟩ := h.rows r hr hrun
    -- the newest row of a phase is the one its outcome wrote
    obtain ⟨r', hr', hphase', -, hnew', hs'⟩ := h.newest phase o ho
    obtain rfl := eq_of_isNewest hr hr' hnew hnew' (hphase.trans hphase'.symm)
    rw [hs] at hs'
    cases o with
    | none => cases hs'
    | some o =>
      cases o with
      | pass => cases hs'
      | planned => cases hs'
      | fail => exact hok phase ho

theorem reportVerdict_success (chain : Bool) :
    (reportVerdict runId chain t).status = .success ↔ failedPhases runId t = [] := by
  unfold reportVerdict
  by_cases hnil : failedPhases runId t = []
  · simp [hnil]
  · simp [hnil]

/-- The report succeeds exactly where no phase's latest attempt failed. -/
theorem reportPhase_success (migrationId : Str) (chain : Bool) (hfresh : ∀ r ∈ t, r.runId ≠ runId)
    (hreport : ∀ a ∈ history, a.phase ≠ .report) :
    (reportPhase migrationId runId chain (history.foldl (runAttempt migrationId runId) t)).status =
      .success ↔ ∀ phase, latestOutcome history phase ≠ some (some .fail) := by
  have h := ((tells_history migrationId hfresh history).start migrationId .report).failedPhases_eq_nil
  have hnone : latestOutcome history .report = none := by
    rw [latestOutcome, Option.map_eq_none_iff, List.find?_eq_none]
    intro a ha
    simpa using hreport a (List.mem_reverse.1 ha)
  rw [reportPhase, reportVerdict_success, h]
  constructor
  · intro hok phase hfail
    rcases eq_or_ne phase .report with rfl | hne
    · rw [hnone] at hfail
      cases hfail
    · exact hok phase (by rw [Function.update_of_ne hne, hfail])
  · intro hok phase hfail
    rcases eq_or_ne phase .report with rfl | hne
    · rw [Function.update_self] at hfail
      cases hfail
    · rw [Function.update_of_ne hne] at hfail
      exact hok phase hfail

/-- The next run is chained where this one asked for it and succeeded. -/
theorem reportPhase_chainMarker (chain : Bool) :
    (reportPhase migrationId runId chain t).chainMarker =
      (chain && decide ((reportPhase migrationId runId chain t).status = .success)) := rfl

/-- Every phase that was started passed, or only planned, at its latest attempt. -/
def AllPassed (history : List Attempt) : Prop :=
  ∀ phase o, latestOutcome history phase = some o → o = some .pass ∨ o = some .planned

/-- **A success of the report means that every phase passed exactly where some phase's
latest attempt failed or none was cut short by a kill.** -/
theorem report_success_iff (migrationId : Str) (chain : Bool) (hfresh : ∀ r ∈ t, r.runId ≠ runId)
    (hreport : ∀ a ∈ history, a.phase ≠ .report) :
    (∀ v, v = reportPhase migrationId runId chain (history.foldl (runAttempt migrationId runId) t) →
        v.status = .success ∨ v.chainMarker = true → AllPassed history) ↔
      (∃ phase, latestOutcome history phase = some (some .fail)) ∨
        ∀ phase, latestOutcome history phase ≠ some none := by
  have hsuccess := reportPhase_success migrationId chain hfresh hreport
  set v := reportPhase migrationId runId chain (history.foldl (runAttempt migrationId runId) t) with hv
  have hmarker : v.chainMarker = true → v.status = .success := fun h => by
    rw [hv, reportPhase_chainMarker, Bool.and_eq_true] at h
    exact of_decide_eq_true h.2
  constructor
  · intro hclaim
    by_cases hfail : ∃ phase, latestOutcome history phase = some (some .fail)
    · exact Or.inl hfail
    · right
      intro phase hkilled
      have hok := hclaim v rfl (Or.inl (hsuccess.2 fun phase h => hfail ⟨phase, h⟩))
      rcases hok phase none hkilled with h | h <;> cases h
  · rintro hcond _ rfl hs
    have hok := hsuccess.1 (hs.elim id hmarker)
    rcases hcond with ⟨phase, hfail⟩ | hnone
    · exact absurd hfail (hok phase)
    · intro phase o ho
      cases o with
      | none => exact absurd ho (hnone phase)
      | some o =>
        cases o with
        | pass => exact Or.inl rfl
        | planned => exact Or.inr rfl
        | fail => exact absurd ho (hok phase)

section Examples

/-- A run whose batches phase was killed, and which went on to the report. -/
def killedHistory : List Attempt :=
  [⟨.inventory, some .pass⟩, ⟨.delta, some .pass⟩, ⟨.plan, some .pass⟩, ⟨.batches, none⟩]

/-- The same run, whose batches phase was started again and passed. -/
def restartedHistory : List Attempt :=
  killedHistory ++ [Attempt.mk .batches (some .pass)]

/-- A batches phase that was started again: the success is one. -/
theorem report_success_restarted :
    AllPassed restartedHistory ∧ (reportPhase [] 1 true (restartedHistory.foldl (runAttempt [] 1)
      Table.empty)).status = .success := by
  have hfresh : ∀ r ∈ (Table.empty : PhaseRuns), r.runId ≠ 1 := fun r hr => absurd hr List.not_mem_nil
  have h : (reportPhase [] 1 true (restartedHistory.foldl (runAttempt [] 1) Table.empty)).status =
      .success := by
    rw [reportPhase_success [] true hfresh (by decide)]
    intro phase
    cases phase <;> decide
  refine ⟨(report_success_iff [] true hfresh (by decide)).2 (Or.inr ?_) _ rfl (Or.inl h), h⟩
  intro phase
  cases phase <;> decide

/-- **A run that died in its batches is called a success**, and chains the next one. -/
theorem report_success_killed :
    (reportPhase [] 1 true (killedHistory.foldl (runAttempt [] 1) Table.empty)).status = .success ∧
      (reportPhase [] 1 true (killedHistory.foldl (runAttempt [] 1) Table.empty)).chainMarker = true ∧
      ¬ AllPassed killedHistory := by
  have h : (reportPhase [] 1 true (killedHistory.foldl (runAttempt [] 1) Table.empty)).status =
      .success := by
    rw [reportPhase_success [] true (fun r hr => absurd hr List.not_mem_nil) (by decide)]
    intro phase
    cases phase <;> decide
  refine ⟨h, ?_, fun hall => ?_⟩
  · rw [reportPhase_chainMarker, h]
    rfl
  · rcases hall .batches none rfl with h | h <;> cases h

end Examples

end DropboxMirror
