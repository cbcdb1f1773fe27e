import DropboxMirror.Proof.Walk

/-!
# When a partial walk has folders left

`_Walk.run` reports a partial walk where the deadline is past at the end of a turn, and
does not look at its queues. So a walk whose last listings land in the turn that the
deadline ends is reported partial with nothing left to list (`walkLoop_stops`), and that
is the only way to it (`partial_walk_pending_iff`).
-/

namespace DropboxMirror

open Text Crash

variable {U : Unicode} {T : Tree} {cfg : WalkConfig} {snapshotId : ℕ} {db : ProtonDb}
  {mem mem₁ mem₂ : Walk} {t : Turn} {turns : List Turn}

section Run

/-- **The turns of a run**, each with the memory its dispatch leaves. -/
inductive TurnOf (U : Unicode) (cfg : WalkConfig) (snapshotId : ℕ) :
    List Turn → Walk → ProtonDb → Turn → Walk → Prop
  | here {t : Turn} {turns : List Turn} {mem mem₁ : Walk} {db : ProtonDb}
      (hd : dispatch cfg snapshotId db mem = .ok mem₁) (hne : mem₁.inFlight ≠ []) :
      TurnOf U cfg snapshotId (t :: turns) mem db t mem₁
  | later {t t' : Turn} {turns : List Turn} {mem mem₁ mem₂ mem' : Walk} {db : ProtonDb}
      (hd : dispatch cfg snapshotId db mem = .ok mem₁) (hne : mem₁.inFlight ≠ [])
      (hr : (walkTurn U snapshotId t mem₁ db).result = .ok (some mem₂))
      (h : TurnOf U cfg snapshotId turns mem₂ ((walkTurn U snapshotId t mem₁).final db) t' mem') :
      TurnOf U cfg snapshotId (t :: turns) mem db t' mem'

/-- What a turn leads to in the loop. -/
def afterTurn (U : Unicode) (cfg : WalkConfig) (snapshotId : ℕ) (turns : List Turn) :
    Option Walk → Prog ProtonDb WalkError WalkEnd
  | none => return .stopped
  | some mem => walkLoop U cfg snapshotId turns mem

theorem dispatchStep_run (hd : dispatch cfg snapshotId db mem = .ok mem₁) :
    dispatchStep cfg snapshotId mem db = ⟨[], .ok mem₁⟩ := by
  unfold dispatchStep
  rw [Prog.get_bind, hd]
  rfl

/-- The loop without a further turn. -/
theorem walkLoop_nil (hd : dispatch cfg snapshotId db mem = .ok mem₁) :
    (walkLoop U cfg snapshotId [] mem).result db ≠ .ok .stopped := by
  unfold walkLoop Prog.result
  rw [Prog.bind_pure_run (dispatchStep_run hd)]
  split <;> simp [Prog.pure_run]

/-- The loop from a dispatch that leaves nothing in flight. -/
theorem walkLoop_finished (hd : dispatch cfg snapshotId db mem = .ok mem₁) (hnil : mem₁.inFlight = []) :
    (walkLoop U cfg snapshotId (t :: turns) mem).result db = .ok .finished := by
  unfold walkLoop Prog.result
  rw [Prog.bind_pure_run (dispatchStep_run hd), if_pos hnil]
  rfl

/-- The loop from a dispatch that leaves something in flight. -/
theorem walkLoop_cons (hd : dispatch cfg snapshotId db mem = .ok mem₁) (hne : mem₁.inFlight ≠ []) :
    walkLoop U cfg snapshotId (t :: turns) mem db =
      (walkTurn U snapshotId t mem₁ >>= afterTurn U cfg snapshotId turns) db := by
  unfold walkLoop
  rw [Prog.bind_pure_run (dispatchStep_run hd), if_neg hne]
  congr 2

/-- The turns of a run: the first, and those of what it leads to. -/
theorem turnOf_cons {t' : Turn} {mem' : Walk} (hd : dispatch cfg snapshotId db mem = .ok mem₁)
    (hne : mem₁.inFlight ≠ []) :
    TurnOf U cfg snapshotId (t :: turns) mem db t' mem' ↔
      (t' = t ∧ mem' = mem₁) ∨ ∃ mem₂, (walkTurn U snapshotId t mem₁).result db = .ok (some mem₂) ∧
        TurnOf U cfg snapshotId turns mem₂ ((walkTurn U snapshotId t mem₁).final db) t' mem' := by
  constructor
  · intro h
    cases h with
    | here hd' _ =>
      rw [hd] at hd'
      exact Or.inl ⟨rfl, (Except.ok.inj hd').symm⟩
    | later hd' _ hr h =>
      rw [hd] at hd'
      obtain rfl := Except.ok.inj hd'
      exact Or.inr ⟨_, hr, h⟩
  · rintro (⟨rfl, rfl⟩ | ⟨mem₂, hr, h⟩)
    · exact TurnOf.here hd hne
    · exact TurnOf.later hd hne hr h

/-- **The turn that stops a walk with nothing left**: it ends past the deadline, and lists
all that is left. -/
def Turn.StopsDone (T : Tree) (t : Turn) (mem : Walk) : Prop :=
  t.lateLast = true ∧ t.Exhausts T mem

/-- What the turn is, read off what it comes to. -/
theorem walkTurn_stops (honest : t.Honest T) (h : Walking U (fun _ => T) cfg snapshotId mem db) :
    ((walkTurn U snapshotId t mem).result db = .ok none ∧
      ∀ u, ¬ (((walkTurn U snapshotId t mem).final db).view snapshotId).Waiting u) ↔
      t.StopsDone T mem := by
  obtain ⟨-, hok, herr⟩ := walkTurn_triple honest db h
  constructor
  · rintro ⟨hr, hnone⟩
    have hend := hok none hr
    exact ⟨hend.late.1 rfl, hend.waiting.1 hnone⟩
  · rintro ⟨hlate, hx⟩
    cases hr : (walkTurn U snapshotId t mem).result db with
    | error e => exact absurd hx (herr e hr).2
    | ok next =>
      have hend := hok next hr
      rw [hend.late.2 hlate]
      exact ⟨rfl, hend.waiting.2 hx⟩

/-- **The loop stops with nothing left exactly at such a turn.** -/
theorem walkLoop_stops (honest : ∀ t ∈ turns, t.Honest T)
    (h : Walking U (fun _ => T) cfg snapshotId mem db) :
    ((walkLoop U cfg snapshotId turns mem).result db = .ok .stopped ∧
      ∀ u, ¬ (((walkLoop U cfg snapshotId turns mem).final db).view snapshotId).Waiting u) ↔
      ∃ t mem₁, TurnOf U cfg snapshotId turns mem db t mem₁ ∧ t.StopsDone T mem₁ := by
  induction turns generalizing mem db with
  | nil =>
    obtain ⟨mem₁, hd, -, -⟩ := dispatch_ok h.mem
    refine ⟨fun hstop => absurd hstop.1 (walkLoop_nil hd), ?_⟩
    rintro ⟨t, mem', hturn, -⟩
    cases hturn
  | cons t turns ih =>
    obtain ⟨mem₁, hd, hinv, -⟩ := dispatch_ok h.mem
    have hw : Walking U (fun _ => T) cfg snapshotId mem₁ db := ⟨h.inv, h.isOpen, hinv⟩
    by_cases hne : mem₁.inFlight = []
    · rw [walkLoop_finished hd hne]
      refine ⟨fun hstop => absurd hstop.1 (by simp), ?_⟩
      rintro ⟨t', mem', hturn, -⟩
      cases hturn with
      | here hd' hne' => exact absurd hne (Except.ok.inj (hd.symm.trans hd') ▸ hne')
      | later hd' hne' _ _ => exact absurd hne (Except.ok.inj (hd.symm.trans hd') ▸ hne')
    have hturn := walkTurn_stops (honest t List.mem_cons_self) hw
    have hcons : walkLoop U cfg snapshotId (t :: turns) mem db = _ := walkLoop_cons hd hne
    have hresult : (walkLoop U cfg snapshotId (t :: turns) mem).result db =
        ((walkTurn U snapshotId t mem₁ >>= afterTurn U cfg snapshotId turns) db).result :=
      congrArg Exec.result hcons
    have hfinal : (walkLoop U cfg snapshotId (t :: turns) mem).final db =
        ((walkTurn U snapshotId t mem₁ >>= afterTurn U cfg snapshotId turns) db).states.getLastD db := by
      rw [Prog.final, hcons]
    simp only [turnOf_cons hd hne]
    rw [hresult, hfinal]
    -- what the first turn comes to decides where the run goes on
    cases hr : (walkTurn U snapshotId t mem₁).result db with
    | error e =>
      rw [Prog.bind_error hr]
      refine ⟨fun hstop => absurd hstop.1 (by simp), ?_⟩
      rintro ⟨t', mem', ⟨rfl, rfl⟩ | ⟨mem₂, hr', -⟩, hdone⟩
      · have := (hturn.2 hdone).1
        rw [hr] at this
        cases this
      · cases hr'
    | ok next =>
      rw [Prog.bind_ok hr]
      dsimp only
      rw [getLastD_append]
      cases next with
      | none =>
        rw [hr] at hturn
        constructor
        · intro hstop
          exact ⟨t, mem₁, Or.inl ⟨rfl, rfl⟩, hturn.1 ⟨rfl, hstop.2⟩⟩
        · rintro ⟨t', mem', ⟨rfl, rfl⟩ | ⟨mem₂, hr', -⟩, hdone⟩
          · exact ⟨rfl, (hturn.2 hdone).2⟩
          · cases hr'
      | some mem₂ =>
        have hw₂ := ((walkTurn_triple (honest t List.mem_cons_self) db hw).2.1 _ hr).walking mem₂ rfl
        refine (ih (fun t ht => honest t (List.mem_cons_of_mem _ ht)) hw₂).trans ?_
        refine exists_congr fun t' => exists_congr fun mem' => and_congr_left fun hdone => ?_
        constructor
        · exact fun h => Or.inr ⟨mem₂, rfl, h⟩
        · rintro (⟨rfl, rfl⟩ | ⟨mem₃, hr', h⟩)
          · have := (hturn.2 hdone).1
            rw [hr] at this
            cases this
          · cases hr'
            exact h

/-- A folder that is not complete waits. -/
theorem exists_pending_iff : (∃ f ∈ db.folders, f.snapshotId = snapshotId ∧ f.status ≠ .complete) ↔
    ∃ u, (db.view snapshotId).Waiting u := by
  simp only [← mem_pending, List.mem_map, ProtonDb.pending, List.mem_filter, decide_eq_true_eq]
  constructor
  · rintro ⟨f, hf, hid, hst⟩
    refine ⟨f.uid, f, ⟨hf, hid, ?_⟩, rfl⟩
    cases h : f.status with
    | pending => rfl
    | complete => exact absurd h hst
  · rintro ⟨u, f, ⟨hf, hid, hst⟩, -⟩
    refine ⟨f, hf, hid, ?_⟩
    rw [hst]
    decide

/-- A run returns `False` where its loop stops and the session is written back. -/
theorem runWalk_stopped {written : Bool} :
    (runWalk U cfg snapshotId turns written).result db = .ok .stopped ↔
      (walkLoop U cfg snapshotId turns (loadPending cfg snapshotId db)).result db = .ok .stopped ∧
        written = true := by
  unfold runWalk
  rw [Prog.result, Prog.get_bind]
  cases hr : (walkLoop U cfg snapshotId turns (loadPending cfg snapshotId db)).result db with
  | error e =>
    rw [Prog.bind_error hr]
    simp
  | ok stop =>
    rw [Prog.bind_ok hr]
    cases stop with
    | running => simp [Prog.pure_run]
    | stopped => cases written <;> simp [Prog.fail, Prog.pure_run]
    | finished =>
      refine ⟨fun h => ?_, fun h => absurd h.1 (by simp)⟩
      cases written with
      | false => cases h
      | true =>
        dsimp only at h
        rw [if_pos rfl] at h
        cases hc : (closeSnapshot snapshotId).result ((walkLoop U cfg snapshotId turns
            (loadPending cfg snapshotId db)).final db) with
        | error e =>
          rw [Prog.bind_error hc] at h
          cases h
        | ok _ =>
          rw [Prog.bind_ok hc] at h
          cases h

theorem runWalk_final {written : Bool}
    (h : (runWalk U cfg snapshotId turns written).result db = .ok .stopped) :
    (runWalk U cfg snapshotId turns written).final db =
      (walkLoop U cfg snapshotId turns (loadPending cfg snapshotId db)).final db := by
  obtain ⟨hr, rfl⟩ := runWalk_stopped.1 h
  unfold runWalk Prog.final
  rw [Prog.get_bind, Prog.bind_ok hr, getLastD_append]
  rfl

/-- **A walk is reported partial only with folders pending, except where the turn that stops it
lists all that is left**, for every tree, every number of workers and every schedule. -/
theorem partial_walk_pending_iff (hreached : Reached U T cfg db) (hopen : Open cfg db snapshotId)
    (honest : ∀ t ∈ turns, t.Honest T) (written : Bool) :
    ((runWalk U cfg snapshotId turns written).result db = .ok .stopped →
      ∃ f ∈ ((runWalk U cfg snapshotId turns written).final db).folders,
        f.snapshotId = snapshotId ∧ f.status ≠ .complete) ↔
      ¬ (written = true ∧ ∃ t mem₁, TurnOf U cfg snapshotId turns (loadPending cfg snapshotId db) db
        t mem₁ ∧ t.StopsDone T mem₁) := by
  have hw : Walking U (fun _ => T) cfg snapshotId (loadPending cfg snapshotId db) db :=
    ⟨inv_of_reached hreached, hopen, loadPending_inv⟩
  rw [← walkLoop_stops honest hw, exists_pending_iff]
  constructor
  · rintro hpending ⟨hwritten, hstop, hnone⟩
    have hr := runWalk_stopped.2 ⟨hstop, hwritten⟩
    obtain ⟨u, hu⟩ := hpending hr
    rw [runWalk_final hr] at hu
    exact hnone u hu
  · intro hno hr
    obtain ⟨hstop, hwritten⟩ := runWalk_stopped.1 hr
    by_contra hnone
    rw [runWalk_final hr] at hnone
    exact hno ⟨hwritten, hstop, fun u hu => hnone ⟨u, hu⟩⟩

section Late

/-- A turn that ends past the deadline. -/
def lateTurn (T : Tree) : Turn := { landing T with lateLast := true }

/-- The tables once a snapshot is open. -/
def openedDb : ProtonDb := (walkInventory Unicode.latin twoWorkers false [] true).final ProtonDb.empty

/-- The deadline passes after the last listing: the walk is reported partial, and every
folder is listed. -/
theorem partial_walk_without_pending :
    ¬ ((runWalk Unicode.latin twoWorkers 1 [landing photosTree, lateTurn photosTree] true).result
        openedDb = .ok .stopped →
      ∃ f ∈ ((runWalk Unicode.latin twoWorkers 1
        [landing photosTree, lateTurn photosTree] true).final openedDb).folders,
        f.snapshotId = 1 ∧ f.status ≠ .complete) := by
  intro h
  obtain ⟨f, hf, -, hst⟩ := h rfl
  have hall : ∀ f ∈ ((runWalk Unicode.latin twoWorkers 1
      [landing photosTree, lateTurn photosTree] true).final openedDb).folders.rows,
      f.status = .complete := by decide
  exact hst (hall f hf)

/-- The deadline passes while a folder is left: the walk is reported partial, rightly. -/
theorem partial_walk_pending_first :
    (runWalk Unicode.latin twoWorkers 1 [lateTurn photosTree] true).result openedDb = .ok .stopped ∧
      ∃ f ∈ ((runWalk Unicode.latin twoWorkers 1 [lateTurn photosTree] true).final openedDb).folders,
        f.snapshotId = 1 ∧ f.status ≠ .complete := by
  have honest : ∀ t ∈ [lateTurn photosTree], t.Honest photosTree := by
    intro t ht
    rw [List.mem_singleton.1 ht]
    exact honest_landing photosTree
  have hopen : Open twoWorkers openedDb 1 :=
    ⟨⟨1, "reconcile".toList, "/my-files/D".toList, .running⟩, List.mem_cons_self, rfl, rfl, rfl⟩
  refine ⟨rfl, (partial_walk_pending_iff reached_opened hopen honest true).2 ?_ rfl⟩
  -- the folder under way in the only turn has a subfolder
  rintro ⟨-, t, mem₁, hturn, hlate, hx⟩
  cases hturn with
  | here hd _ =>
    cases hd
    have hleaf := (hx.leaves _ List.mem_cons_self).2 ⟨"1".toList, rootUid, "a".toList,
      "folder".toList, none, none⟩ (by decide)
    exact hleaf rfl
  | later _ _ _ h => cases h

end Late

end Run

end DropboxMirror
