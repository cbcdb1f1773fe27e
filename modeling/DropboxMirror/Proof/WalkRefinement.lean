import DropboxMirror.Model.SessionWalk

/-!
# The walk with its sessions is the walk of the folders

But for the sessions, `_Walk.run` is the walk of `Model/Walk`, in which it is open whether a
rescue and the last write-back succeed (`runSessionWalk_refines`). So what holds of every such
walk holds of the walk with its sessions.
-/

namespace DropboxMirror

open Text Crash Copies

variable {β δ : Type} {n : ℕ} {U : Unicode} {cfg : WalkConfig} {snapshotId : ℕ} {identity : Str}
  {digest : β → δ} {st : WalkSystem β δ}

/-- A turn as the walk of the folders sees it, where a rescue succeeds or not. -/
def SessionTurn.seen (t : SessionTurn n β) (reseeded : Bool) : Turn := { t.turn with reseeded }

/-- The turns as the walk of the folders sees them. -/
def SeenAs (turns : List (SessionTurn n β)) (seen : List Turn) : Prop :=
  List.Forall₂ (fun t u => ∃ reseeded, u = t.seen reseeded) turns seen

theorem exists_seenAs (turns : List (SessionTurn n β)) : ∃ seen, SeenAs turns seen :=
  ⟨turns.map (·.seen true), List.forall₂_map_right_iff.2 (List.forall₂_same.2 fun _ _ => ⟨true, rfl⟩)⟩

theorem onDb_refines {α : Type} (p : Prog ProtonDb WalkError α) :
    Refines WalkSystem.db (onDb p : Prog (WalkSystem β δ) WalkError α) p := Refines.zoom fun _ _ => rfl

/-- A commit of the sessions. -/
theorem sessions_silent {f : SessionSystem β δ → SessionSystem β δ} :
    Refines WalkSystem.db
      (Prog.write fun st : WalkSystem β δ => { st with sessions := f st.sessions })
      (pure () : Prog ProtonDb WalkError Unit) := Refines.silent fun _ => rfl

/-- What a step of the sessions is to the folders: nothing, or the end of the walk. -/
def sessionOutcome {α : Type} : Except SessionError α → Prog ProtonDb WalkError α
  | .ok a => pure a
  | .error _ => Prog.fail .session

theorem onSessions_refines {α : Type} (p : Prog (SessionSystem β δ) SessionError α) (st : WalkSystem β δ) :
    RefinesAt WalkSystem.db (onSessions p) (sessionOutcome (p.result st.sessions)) st := by
  have hstates : ∀ st' ∈ (onSessions p st).states, st'.db = st.db := by
    intro st' hst'
    obtain ⟨s, -, rfl⟩ := List.mem_map.1 hst'
    rfl
  have hfinal : ((onSessions p).final st).db = st.db := by
    rcases (onSessions p).final_eq_or_mem st with h | h
    · rw [h]
    · exact hstates _ h
  refine ⟨?_, ?_, fun st' hst' => Or.inl (hstates st' hst')⟩
  · have hresult : (onSessions p).result st = (p.result st.sessions).mapError fun _ => .session := rfl
    rw [hresult]
    cases p.result st.sessions <;> rfl
  · rw [hfinal]
    cases p.result st.sessions <;> rfl

section Turns

variable [DecidableEq β] [DecidableEq δ]

omit [DecidableEq β] in
theorem walkTurn_eq (t : SessionTurn n β) (reseeded : Bool) (mem : Walk) :
    walkTurn U snapshotId (t.seen reseeded) mem =
      collectTurn U snapshotId t.turn mem >>= fun acc => settleTurn (t.seen reseeded) acc.1 acc.2 := by
  unfold walkTurn collectTurn
  rw [bind_assoc]
  rfl

/-- **One turn.** -/
theorem sessionTurn_refines (t : SessionTurn n β) (mem : Walk) (st : WalkSystem β δ) :
    ∃ reseeded, RefinesAt WalkSystem.db (sessionTurn U snapshotId identity digest t mem)
      (walkTurn U snapshotId (t.seen reseeded) mem) st := by
  -- the state in which a rescue begins
  set st₁ : WalkSystem β δ := { st with sessions := st.sessions.listing t.touches }
  set st₂ := (onDb (collectTurn U snapshotId t.turn mem)).final st₁
  refine ⟨((rescueSessions identity digest t.push).result st₂.sessions).toBool, ?_⟩
  rw [walkTurn_eq]
  unfold sessionTurn
  refine (sessions_silent.from_state st).bind (g := fun _ => collectTurn U snapshotId t.turn mem >>= fun acc =>
    settleTurn (t.seen _) acc.1 acc.2) fun _ _ => ?_
  change RefinesAt WalkSystem.db _ _ st₁
  refine ((onDb_refines _).from_state st₁).bind fun acc _ => ?_
  change RefinesAt WalkSystem.db _ _ st₂
  obtain ⟨mem', outcome⟩ := acc
  dsimp only
  unfold settleSessions settleTurn
  cases outcome with
  | failed => exact (Refines.fail _).from_state st₂
  | ok => exact (Refines.pure _).from_state st₂
  | auth =>
    dsimp only
    unfold rescue
    split
    · exact (Refines.fail _).from_state st₂
    · have hrescue := onSessions_refines (rescueSessions identity digest t.push) st₂
      cases hr : (rescueSessions identity digest t.push).result st₂.sessions with
      | ok a =>
        rw [hr] at hrescue
        exact hrescue.bind fun _ _ => (Refines.pure _).from_state _
      | error e =>
        rw [hr] at hrescue
        exact hrescue.bind fun _ _ => (Refines.pure _).from_state _

/-- What the loop does after a turn. -/
def goOn {σ : Type} (next : Walk → Prog σ WalkError WalkEnd) (turned : Option Walk) :
    Prog σ WalkError WalkEnd := turned.elim (pure .stopped) next

omit [DecidableEq β] in
theorem walkLoop_turn (u : Turn) (seen : List Turn) (mem : Walk) :
    walkLoop U cfg snapshotId (u :: seen) mem = dispatchStep cfg snapshotId mem >>= fun mem =>
      if mem.inFlight = [] then pure .finished
      else walkTurn U snapshotId u mem >>= goOn (walkLoop U cfg snapshotId seen) := by
  rw [walkLoop]
  refine congrArg _ (funext fun mem => ?_)
  split
  · rfl
  · exact congrArg _ (funext fun turned => by cases turned <;> rfl)

theorem sessionLoop_turn (t : SessionTurn n β) (turns : List (SessionTurn n β)) (mem : Walk) :
    sessionLoop U cfg snapshotId identity digest (t :: turns) mem =
      onDb (dispatchStep cfg snapshotId mem) >>= fun mem =>
        if mem.inFlight = [] then pure .finished
        else sessionTurn U snapshotId identity digest t mem >>=
          goOn (sessionLoop U cfg snapshotId identity digest turns) := by
  rw [sessionLoop]
  refine congrArg _ (funext fun mem => ?_)
  split
  · rfl
  · exact congrArg _ (funext fun turned => by cases turned <;> rfl)

/-- **The loop.** -/
theorem sessionLoop_refines (turns : List (SessionTurn n β)) : ∀ mem (st : WalkSystem β δ),
    ∃ seen, SeenAs turns seen ∧
      RefinesAt WalkSystem.db (sessionLoop U cfg snapshotId identity digest turns mem)
        (walkLoop U cfg snapshotId seen mem) st := by
  induction turns with
  | nil =>
    refine fun mem st => ⟨[], List.Forall₂.nil, ?_⟩
    unfold sessionLoop walkLoop
    exact ((onDb_refines _).bind fun mem' => Refines.pure _).from_state st
  | cons t turns ih =>
    intro mem st
    obtain ⟨rest, hrest⟩ := exists_seenAs turns
    have hdispatch := (onDb_refines (dispatchStep cfg snapshotId mem)).from_state st
    rw [sessionLoop_turn]
    cases hd : (onDb (dispatchStep cfg snapshotId mem)).result st with
    | error e =>
      refine ⟨t.seen true :: rest, hrest.cons ⟨true, rfl⟩, ?_⟩
      rw [walkLoop_turn]
      refine hdispatch.bind fun a ha => ?_
      rw [hd] at ha
      cases ha
    | ok mem' =>
      set st' := (onDb (dispatchStep cfg snapshotId mem)).final st
      set turn := sessionTurn U snapshotId identity digest t mem'
      obtain ⟨reseeded, hturn⟩ : ∃ reseeded, RefinesAt WalkSystem.db turn
        (walkTurn U snapshotId (t.seen reseeded) mem') st' := sessionTurn_refines t mem' st'
      -- the turns that follow are seen from where this one ends
      have hnext : ∃ seen, SeenAs turns seen ∧ ∀ turned, turn.result st' = .ok turned →
          RefinesAt WalkSystem.db (goOn (sessionLoop U cfg snapshotId identity digest turns) turned)
            (goOn (walkLoop U cfg snapshotId seen) turned) (turn.final st') := by
        cases hr : turn.result st' with
        | error e => exact ⟨rest, hrest, fun _ h => by cases h⟩
        | ok turned =>
          cases turned with
          | none =>
            refine ⟨rest, hrest, fun _ h => ?_⟩
            cases h
            exact (Refines.pure _).from_state _
          | some mem'' =>
            obtain ⟨seen, hseen, hloop⟩ := ih mem'' (turn.final st')
            refine ⟨seen, hseen, fun _ h => ?_⟩
            cases h
            exact hloop
      obtain ⟨seen, hseen, hloop⟩ := hnext
      refine ⟨t.seen reseeded :: seen, hseen.cons ⟨reseeded, rfl⟩, ?_⟩
      rw [walkLoop_turn]
      refine hdispatch.bind fun a ha => ?_
      cases hd.symm.trans ha
      split
      · exact (Refines.pure _).from_state _
      · exact hturn.bind hloop

/-- What the write-back at the end of a walk comes to. -/
def leaveWalk (written : Bool) (stop : WalkEnd) : Prog ProtonDb WalkError WalkEnd :=
  if written = true ∨ stop = .running then pure stop else Prog.fail .session

/-- The end of a walk's snapshot. -/
def closeWalk (snapshotId : ℕ) (stop : WalkEnd) : Prog ProtonDb WalkError WalkEnd :=
  if stop = .finished then closeSnapshot snapshotId >>= fun _ => pure .finished else pure stop

omit [DecidableEq β] in
theorem runWalk_eq (seen : List Turn) (written : Bool) :
    runWalk U cfg snapshotId seen written =
      (Prog.get >>= fun db => walkLoop U cfg snapshotId seen (loadPending cfg snapshotId db) >>=
        leaveWalk written) >>= closeWalk snapshotId := by
  unfold runWalk
  rw [bind_assoc]
  refine congrArg _ (funext fun db => ?_)
  rw [bind_assoc]
  refine congrArg _ (funext fun stop => ?_)
  unfold leaveWalk closeWalk
  cases stop <;> cases written <;> rfl

/-- **The `with` block of a walk.** -/
theorem sessionBody_refines (turns : List (SessionTurn n β)) (push : BundleEnv) (mem : Walk)
    (st : WalkSystem β δ) :
    ∃ seen written, SeenAs turns seen ∧
      RefinesAt WalkSystem.db (sessionBody U cfg snapshotId identity digest turns push mem)
        (walkLoop U cfg snapshotId seen mem >>= leaveWalk written) st := by
  obtain ⟨seen, hseen, hloop⟩ : ∃ seen, SeenAs turns seen ∧
    RefinesAt WalkSystem.db (sessionLoop U cfg snapshotId identity digest turns mem)
      (walkLoop U cfg snapshotId seen mem) st := sessionLoop_refines turns mem st
  set st' := (sessionLoop U cfg snapshotId identity digest turns mem).final st
  have hleave := onSessions_refines (leaveSessions identity digest push) st'
  generalize (leaveSessions identity digest push).result st'.sessions = left at hleave
  -- where the walk ends
  have hend : ∀ stop, stop ≠ .running → RefinesAt WalkSystem.db
      (onSessions (leaveSessions identity digest push) >>= fun _ => pure stop)
      (leaveWalk left.toBool stop) st' := by
    intro stop hstop
    have hafter := hleave.bind (f := fun _ => pure stop) (g := fun _ => pure stop) fun _ _ =>
      (Refines.pure stop).from_state _
    unfold leaveWalk
    cases left with
    | ok a =>
      rw [if_pos (Or.inl (by rfl))]
      exact hafter
    | error e =>
      rw [if_neg (by simp [Except.toBool, hstop])]
      exact hafter
  refine ⟨seen, left.toBool, hseen, ?_⟩
  unfold sessionBody
  refine hloop.bind fun stop _ => ?_
  change RefinesAt WalkSystem.db _ _ st'
  cases stop with
  | running =>
    rw [leaveWalk, if_pos (Or.inr rfl)]
    exact (Refines.pure _).from_state _
  | stopped => exact hend .stopped WalkEnd.noConfusion
  | finished => exact hend .finished WalkEnd.noConfusion

/-- **The walk with its sessions is a walk of the folders**: the same end and the same commits of
the database, for the rescues and the last write-back that succeed. -/
theorem runSessionWalk_refines (U : Unicode) (cfg : WalkConfig) (snapshotId : ℕ) (identity : Str)
    (digest : β → δ) (turns : List (SessionTurn cfg.workers β)) (push : BundleEnv) (st : WalkSystem β δ) :
    ∃ seen written, SeenAs turns seen ∧
      RefinesAt WalkSystem.db (runSessionWalk U cfg snapshotId identity digest turns push)
        (runWalk U cfg snapshotId seen written) st := by
  set st' : WalkSystem β δ := { st with
    sessions := { st.sessions with copies := enterSessions cfg.workers st.sessions.world.session } }
  obtain ⟨seen, written, hseen, hbody⟩ : ∃ seen written, SeenAs turns seen ∧
    RefinesAt WalkSystem.db
      (sessionBody U cfg snapshotId identity digest turns push (loadPending cfg snapshotId st.db))
      (walkLoop U cfg snapshotId seen (loadPending cfg snapshotId st.db) >>= leaveWalk written) st' :=
    sessionBody_refines turns push _ st'
  refine ⟨seen, written, hseen, ?_⟩
  rw [runWalk_eq]
  unfold runSessionWalk
  have hwalk : RefinesAt WalkSystem.db (sessionWalk U cfg snapshotId identity digest turns push)
      (Prog.get >>= fun db => walkLoop U cfg snapshotId seen (loadPending cfg snapshotId db) >>=
        leaveWalk written) st := by
    unfold sessionWalk
    refine RefinesAt.get_bind (RefinesAt.bind (p := (pure () : Prog ProtonDb WalkError Unit)) (g := fun _ =>
      walkLoop U cfg snapshotId seen (loadPending cfg snapshotId st.db) >>= leaveWalk written)
        ?_ fun _ _ => ?_)
    · refine Refines.from_state (Refines.silent ?_) st
      exact fun _ => rfl
    · exact hbody.tryFinally (Refines.silent fun _ => rfl)
  refine hwalk.bind fun stop _ => ?_
  unfold closeWalk
  cases stop with
  | running => exact (Refines.pure _).from_state _
  | stopped => exact (Refines.pure _).from_state _
  | finished =>
    rw [if_pos rfl]
    exact ((onDb_refines _).bind fun _ => Refines.pure _).from_state _

end Turns

end DropboxMirror
