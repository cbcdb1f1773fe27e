import DropboxMirror.Model.Nights
import DropboxMirror.Proof.Durable
import DropboxMirror.Proof.Verdict

/-!
# The commits of a night

Whatever a command of a night does, it commits one of nine changes, each where the run or the
attempt it is about is there (`NightRules`). What these changes keep, every process keeps, at
its end and at every kill (`NightMove.kept`).

* `fetchCommand_triple`, `stateCommand_triple`: the commands that replace the local database.
* `body_triple`, `reportBody_triple`, `runPhase_triple`: a phase around its own work.
-/

namespace DropboxMirror

open Text Crash

variable {migrationId : Str} {weekday : ℕ} {P : NightSystem → Prop} {s t : NightSystem}
  {db : NightDb} {phase : Phase} {runId id : ℕ}

section Guards

/-- The run is in progress. -/
def Running (runId : ℕ) (db : NightDb) : Prop := ∃ r, db.currentRun = some r ∧ r.id = runId

/-- `current_run` is the newest row that runs. -/
theorem currentRun_eq_some {r : Run} : db.currentRun = some r ↔
    r ∈ db.runs ∧ r.status = .running ∧ ∀ q ∈ db.runs, q.status = .running → q.id ≤ r.id := by
  unfold NightDb.currentRun
  rw [List.argmax_eq_some_iff]
  simp only [List.mem_filter, decide_eq_true_eq, and_imp]
  constructor
  · rintro ⟨⟨hr, hst⟩, hmax, -⟩
    exact ⟨hr, hst, hmax⟩
  · rintro ⟨hr, hst, hmax⟩
    refine ⟨⟨hr, hst⟩, hmax, fun q hq hqst hle => ?_⟩
    rw [Table.eq_of_key_eq (t := db.runs) hq hr (Nat.le_antisymm (hmax q hq hqst) hle)]

theorem mem_updateRow {f : Run → Run} {hf : ∀ r, (f r).id = r.id} {r : Run} :
    r ∈ (db.updateRow runId f hf).runs ↔ ∃ q ∈ db.runs, (if q.id = runId then f q else q) = r :=
  List.mem_map

/-- A write of columns leaves the run in progress. -/
theorem Running.update (h : Running runId db) (c : RunChange) : Running runId (db.updateRun runId c) := by
  obtain ⟨r, hr, rfl⟩ := h
  obtain ⟨hr, hst, hmax⟩ := currentRun_eq_some.1 hr
  have hkeep : ∀ q : Run, (if q.id = r.id then q.change c else q).id = q.id ∧
      (if q.id = r.id then q.change c else q).status = q.status := fun q => by
    split
    · cases c <;> exact ⟨rfl, rfl⟩
    · exact ⟨rfl, rfl⟩
  refine ⟨_, currentRun_eq_some.2 ⟨mem_updateRow.2 ⟨r, hr, rfl⟩, (hkeep r).2.trans hst, ?_⟩, (hkeep r).1⟩
  intro q' hq' hst'
  obtain ⟨q, hq, rfl⟩ := mem_updateRow.1 hq'
  rw [(hkeep q).1, (hkeep r).1]
  exact hmax q hq ((hkeep q).2.symm.trans hst')

/-- The newest attempt is one of the phase in the run, and has not completed. -/
def Attempting (phase : Phase) (runId id : ℕ) (db : NightDb) : Prop :=
  (∃ a ∈ db.phases, a.id = id ∧ a.phaseNumber = phase.number ∧ a.runId = runId ∧
    a.status = .running) ∧ ∀ b ∈ db.phases, b.id ≤ id

theorem attempting_start (migrationId : Str) (phase : Phase) (runId : ℕ) (db : NightDb) :
    Attempting phase runId (startPhase migrationId phase runId db.phases).1
      (db.onPhases fun t => (startPhase migrationId phase runId t).2) := by
  refine ⟨⟨_, mem_startPhase.2 (Or.inr rfl), rfl, rfl, rfl, rfl⟩, fun b hb => ?_⟩
  rcases mem_startPhase.1 hb with hb | rfl
  · exact (Table.lt_nextKey hb).le
  · exact le_rfl

/-- The local database is what the bucket holds. -/
def Restored (s : NightSystem) : Prop :=
  s.bucket.get? stateKey = some s.db ∨ s.bucket.get? stateKey = none ∧ s.db = NightDb.empty

end Guards

/-- **The commits of a night**, and what each finds. -/
structure NightRules (migrationId : Str) (weekday : ℕ) (P : NightSystem → Prop) : Prop where
  tick : ∀ s epoch forced, s.now ≤ epoch → P s → P (s.clocked epoch forced)
  clear : ∀ s, P s → P (s.onDb fun _ => NightDb.empty)
  fetch : ∀ s db, s.bucket.get? stateKey = some db → P s → P (s.onDb fun _ => db)
  start : ∀ s minutes host forced, Restored s → (forced = true → s.now ∈ s.forced) → P s →
    P (s.onDb (NightDb.startRun (clock s.now) minutes host
      (isReconcileRun weekday forced s.db (clock s.now))))
  attempt : ∀ s phase runId, Running runId s.db → P s →
    P (s.onDb (NightDb.onPhases fun t => (startPhase migrationId phase runId t).2))
  update : ∀ s runId c, Running runId s.db → P s → P (s.onDb (NightDb.updateRun runId c))
  finish : ∀ s runId id, Running runId s.db → Attempting .report runId id s.db → P s →
    P (s.onDb (NightDb.finishRun runId (reportVerdict runId false s.db.phases).status.state))
  complete : ∀ s phase runId id status, Attempting phase runId id s.db →
    (Running runId s.db ∨ phase = .report) → P s →
    P (s.onDb (NightDb.onPhases (completePhase id status)))
  put : ∀ s label, P s → P (s.put label s.db)
  copy : ∀ s phase runId id label, Attempting phase runId id s.db →
    s.bucket.get? (historyKey label) = some s.db → P s → P (s.copy (historyKey label))

section Fetch

theorem fetchNight_ok {env : FetchEnv} {B : Bucket NightDb} (h : fetchNight env B = .ok db) :
    B.get? stateKey = some db ∨ B.get? stateKey = none ∧ db = NightDb.empty := by
  unfold fetchNight at h
  split at h
  · cases h
  split at h
  · rename_i hnone
    split at h
    · cases h
    split at h
    · cases h
    split at h
    · cases h
    · cases h
      exact Or.inr ⟨hnone, rfl⟩
  · rename_i db' hsome
    split at h
    · cases h
    · cases h
      exact Or.inl hsome

/-- The local database goes, and what the bucket holds comes. -/
theorem fetchCommand_triple (rules : NightRules migrationId weekday P) (env : FetchEnv) (now : ℕ)
    (forced : List ℕ) :
    Triple (fun _ t => P t) (fun t => P t ∧ t.now = now ∧ t.forced = forced) (fetchCommand env)
      (fun _ t => (P t ∧ t.now = now ∧ t.forced = forced) ∧ Restored t) (fun _ _ => True) := by
  unfold fetchCommand
  refine Triple.bind (M := fun _ t => (P t ∧ t.now = now ∧ t.forced = forced) ∧ t.db = NightDb.empty)
    (Triple.write fun t h => ⟨rules.clear t h.1, ⟨rules.clear t h.1, h.2⟩, rfl⟩) fun _ =>
      Triple.get_bind fun t h => ?_
  cases hfetch : fetchNight env t.bucket with
  | error e => exact Triple.fail fun _ _ => trivial
  | ok db =>
    refine Triple.write fun t' ht' => ?_
    subst ht'
    rcases fetchNight_ok hfetch with hsome | ⟨hnone, rfl⟩
    · exact ⟨rules.fetch t' db hsome h.1.1, ⟨rules.fetch t' db hsome h.1.1, h.1.2⟩, Or.inl hsome⟩
    · exact ⟨rules.clear t' h.1.1, ⟨rules.clear t' h.1.1, h.1.2⟩, Or.inr ⟨hnone, rfl⟩⟩

theorem stateCommand_triple (rules : NightRules migrationId weekday P) (forced : Bool) (minutes : ℕ)
    (host : Str) (env : FetchEnv) (epoch : ℕ) (seen : List ℕ) (hforced : forced = true → epoch ∈ seen) :
    Triple (fun _ t => P t) (fun t => P t ∧ t.now = epoch ∧ t.forced = seen)
      (stateCommand weekday forced minutes host env (clock epoch)) (fun _ t => P t)
      (fun _ _ => True) := by
  unfold stateCommand
  refine (fetchCommand_triple rules env epoch seen).bind fun _ => Triple.get_bind fun t h => ?_
  obtain ⟨⟨ht, rfl, rfl⟩, hrestored⟩ := h
  refine Triple.write fun t' ht' => ?_
  subst ht'
  exact ⟨rules.start t' minutes host forced hrestored hforced ht,
    rules.start t' minutes host forced hrestored hforced ht⟩

end Fetch

section Push

theorem copy_db (key : Str) (s : NightSystem) : (s.copy key).db = s.db := by
  unfold NightSystem.copy
  split <;> rfl

theorem storeCall_triple {I A B : NightSystem → Prop} {f : NightSystem → NightSystem}
    (reply : Reply) (hA : ∀ t, A t → I t) (hf : ∀ t, A t → B (f t)) (hB : ∀ t, B t → I t) :
    Triple (fun _ t => I t) A (storeCall f reply) (fun _ => B) (fun _ => I) := by
  cases reply with
  | done => exact Triple.write fun t h => ⟨hB _ (hf t h), hf t h⟩
  | refused e => exact Triple.fail hA
  | lost e =>
    exact Triple.bind (M := fun _ => B) (Triple.write fun t h => ⟨hB _ (hf t h), hf t h⟩) fun _ =>
      Triple.fail hB

/-- **The rule of a push**: the bucket copies what was just put. -/
theorem pushNight_triple {I : NightSystem → Prop} (label : Str) (env : StoreEnv)
    (hput : ∀ t, I t → I (t.put label t.db))
    (hcopy : ∀ t, t.bucket.get? (historyKey label) = some t.db → I t → I (t.copy (historyKey label))) :
    Triple (fun _ t => I t) I (pushNight label env) (fun _ => I) (fun _ => I) := by
  unfold pushNight
  cases env.snapshot with
  | error e => exact Triple.fail fun _ h => h
  | ok u =>
    refine Triple.get_bind fun t h => ?_
    refine Triple.bind (M := fun _ t' => I t' ∧ t'.bucket.get? (historyKey label) = some t'.db) ?_
      fun _ => ?_
    · refine storeCall_triple env.put (fun _ ht' => ht' ▸ h) (fun t' ht' => ?_) fun _ h' => h'.1
      subst ht'
      exact ⟨hput t' h, (Dict.get?_set ..).trans (if_pos rfl)⟩
    · exact storeCall_triple env.copy (fun _ h' => h'.1) (fun t' h' => hcopy t' h'.2 h'.1) fun _ h' => h'

/-- A push from within an attempt: `G` is what it knows of the database. -/
theorem pushWithin_triple (rules : NightRules migrationId weekday P) (label : Str) (env : StoreEnv)
    (G : NightDb → Prop) (hG : ∀ db, G db → Attempting phase runId id db) :
    Triple (fun _ t => P t ∧ G t.db) (fun t => P t ∧ G t.db) (pushNight label env)
      (fun _ t => P t ∧ G t.db) (fun _ t => P t ∧ G t.db) := by
  refine pushNight_triple label env (fun t h => ⟨rules.put t label h.1, h.2⟩) fun t hput h => ?_
  rw [copy_db]
  exact ⟨rules.copy t phase runId id label (hG _ h.2) hput h.1, h.2⟩

end Push

section Phases

/-- **The work of a phase** keeps what the rules keep, and its run and its attempt. -/
theorem body_triple (rules : NightRules migrationId weekday P) {α : Type} {p : NightStep α}
    (h : PhaseBody runId p) :
    Triple (fun _ t => P t ∧ Attempting phase runId id t.db ∧ Running runId t.db)
      (fun t => P t ∧ Attempting phase runId id t.db ∧ Running runId t.db) p
      (fun _ t => P t ∧ Attempting phase runId id t.db ∧ Running runId t.db)
      (fun _ t => P t ∧ Attempting phase runId id t.db ∧ Running runId t.db) := by
  induction h with
  | pure a => exact Triple.pure fun _ h => h
  | fail e => exact Triple.fail fun _ h => h
  | look _ ih =>
    exact Triple.get_bind fun t h => (ih t).consequence (fun _ ht => ht ▸ h) (fun _ _ h => h)
      fun _ _ h => h
  | bind _ _ ihp ihf => exact ihp.bind ihf
  | caught _ _ ihp ihh => exact Triple.catchError ihp ihh
  | update c =>
    exact Triple.write fun t h => ⟨⟨rules.update t runId c h.2.2 h.1, h.2.1, h.2.2.update c⟩,
      rules.update t runId c h.2.2 h.1, h.2.1, h.2.2.update c⟩
  | push label env =>
    exact pushWithin_triple rules label env
      (fun db => Attempting phase runId id db ∧ Running runId db) fun _ h => h.1

/-- A label is read where a run is in progress. -/
theorem historyLabel_triple {R : NightSystem → NightSystem → Prop} {I : NightSystem → Prop} :
    Triple R I historyLabel (fun _ => I) (fun _ => I) := by
  unfold historyLabel
  refine Triple.get_bind fun t h => ?_
  split
  · exact Triple.fail fun _ ht => ht ▸ h
  · exact Triple.pure fun _ ht => ht ▸ h

/-- **The work of the report** ends its run. -/
theorem reportBody_triple (rules : NightRules migrationId weekday P) (apply : Bool)
    (files : Except Failure Unit) (env : StoreEnv) :
    Triple (fun _ t => P t ∧ Attempting .report runId id t.db)
      (fun t => P t ∧ Attempting .report runId id t.db ∧ Running runId t.db)
      (reportBody apply files env runId) (fun _ t => P t ∧ Attempting .report runId id t.db)
      (fun _ t => P t ∧ Attempting .report runId id t.db) := by
  unfold reportBody
  refine Triple.bind (historyLabel_triple.consequence (fun _ h => h) (fun _ _ h => h)
    fun _ _ h => ⟨h.1, h.2.1⟩) fun label => Triple.get_bind fun t h => ?_
  cases files with
  | error e => exact Triple.fail fun _ ht => ht ▸ ⟨h.1, h.2.1⟩
  | ok u =>
    -- the verdict is read off the table the row is finished in
    have hfinish := rules.finish t runId id h.2.2 h.2.1 h.1
    refine Triple.bind (M := fun _ t' => P t' ∧ Attempting .report runId id t'.db)
      (Triple.write fun t' ht' => ?_) fun _ => ?_
    · subst ht'
      exact ⟨⟨hfinish, h.2.1⟩, hfinish, h.2.1⟩
    · dsimp only
      cases apply with
      | false => exact Triple.pure fun _ h => h
      | true =>
        exact Triple.bind (M := fun _ t' => P t' ∧ Attempting .report runId id t'.db)
          (pushWithin_triple rules _ env _ fun _ h => h) fun _ => Triple.pure fun _ h => h

/-- **A phase around its work**: `Left` is what the work leaves of its run. -/
theorem runPhase_triple (rules : NightRules migrationId weekday P) {body : ℕ → NightStep PhaseOutcome}
    (Left : ℕ → NightDb → Prop) (hleft : ∀ runId db, Left runId db → Running runId db ∨ phase = .report)
    (hbody : ∀ runId id, Triple (fun _ t => P t)
      (fun t => P t ∧ Attempting phase runId id t.db ∧ Running runId t.db) (body runId)
      (fun _ t => P t ∧ Attempting phase runId id t.db ∧ Left runId t.db)
      (fun _ t => P t ∧ Attempting phase runId id t.db ∧ Left runId t.db)) :
    Triple (fun _ t => P t) P (runPhase migrationId phase body) (fun _ => P) (fun _ => P) := by
  unfold runPhase
  refine Triple.get_bind fun s h => ?_
  split
  · exact Triple.fail fun _ ht => ht ▸ h
  · rename_i run hcurrent
    have hrunning : Running run.id s.db := ⟨run, hcurrent, rfl⟩
    have hstart := rules.attempt s phase run.id hrunning h
    set id := (startPhase migrationId phase run.id s.db.phases).1 with hid
    have hclose : ∀ t status, (P t ∧ Attempting phase run.id id t.db ∧ Left run.id t.db) →
        P (t.onDb (NightDb.onPhases (completePhase id status))) := fun t status ht =>
      rules.complete t phase run.id id status ht.2.1 (hleft _ _ ht.2.2) ht.1
    refine Triple.bind (M := fun _ t => P t ∧ Attempting phase run.id id t.db ∧ Running run.id t.db)
      (Triple.write fun t ht => ?_) fun _ => ?_
    · subst ht
      exact ⟨hstart, hstart, attempting_start migrationId phase run.id t.db, hrunning⟩
    · refine Triple.bind (Triple.catchError (hbody run.id id) fun e => ?_) fun outcome => ?_
      · exact Triple.bind (M := fun _ => P) (Triple.write fun t ht => ⟨hclose t _ ht, hclose t _ ht⟩)
          fun _ => Triple.fail fun _ ht => ht
      · exact Triple.bind (M := fun _ => P) (Triple.write fun t ht => ⟨hclose t _ ht, hclose t _ ht⟩)
          fun _ => Triple.pure fun _ ht => ht

end Phases

section Moves

/-- **What the commits keep, the processes of a night keep**, at their end and at every kill. -/
theorem NightMove.kept (rules : NightRules migrationId weekday P)
    (h : NightMove migrationId weekday s t) (hs : P s) : P t := by
  cases h with
  | state epoch minutes forced host env hnow ht =>
    have hclocked := rules.tick s epoch forced hnow hs
    refine (stateCommand_triple rules forced minutes host env epoch _ fun hf => ?_).states
      ⟨hclocked, rfl, rfl⟩ t ht
    rw [hf]
    exact List.mem_cons_self
  | phase phase hphase body hbody ht =>
    refine (runPhase_triple rules Running (fun _ _ => Or.inl) fun runId id => ?_).states hs t ht
    exact (body_triple rules (hbody runId)).mono fun _ _ h => h.1
  | report apply files env ht =>
    refine (runPhase_triple rules (fun _ _ => True) (fun _ _ _ => Or.inr rfl)
      fun runId id => ?_).states hs t ht
    exact ((reportBody_triple rules apply files env).mono fun _ _ h => h.1).consequence
      (fun _ h => h) (fun _ _ h => ⟨h.1, h.2, trivial⟩) fun _ _ h => ⟨h.1, h.2, trivial⟩
  | status env ht => exact (fetchCommand_triple rules env s.now s.forced).states ⟨hs, rfl, rfl⟩ t ht
  | machine => exact rules.clear s hs

end Moves

end DropboxMirror
