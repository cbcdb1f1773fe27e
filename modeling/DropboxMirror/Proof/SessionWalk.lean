import DropboxMirror.Model.SessionWalk
import DropboxMirror.Proof.Restore
import DropboxMirror.Proof.Walk

/-!
# The session over whole runs

Whatever the CLI does to the session files, the bucket always has the session whose write-back
was answered last, or one the session file has had since (`session_kept`).

* `sessionLoop_rule`: what the turns of a walk keep, given its two steps on the sessions.
* `sessionWalk_kept`: a walk, wherever it is cut short.
-/

namespace DropboxMirror

open Text Crash Copies

variable {β δ : Type} {n : ℕ} {U : Unicode} {cfg : WalkConfig} {snapshotId : ℕ} {identity : Str}
  {digest : β → δ} {s : SessionSystem β δ} {answer : Flight → Answer} {mem : Walk}

section Collect

theorem nodeRow_error {folder : ProtonFolder} {children : List ListedNode} {node : ListedNode}
    {e : WalkError} (h : nodeRow U snapshotId folder children node = .error e) : e ≠ .unrecovered := by
  unfold nodeRow at h
  dsimp only at h
  split at h
  · cases h
    exact WalkError.noConfusion
  · cases h
    exact WalkError.noConfusion
  · cases h
    exact WalkError.noConfusion
  · cases h

theorem commitListing_error {folder : ProtonFolder} {children : List ListedNode} {db : ProtonDb}
    {e : WalkError} (h : commitListing U snapshotId folder children db = .error e) :
    e ≠ .unrecovered := by
  unfold commitListing at h
  cases hrows : children.mapM (nodeRow U snapshotId folder children) with
  | ok rows =>
    rw [hrows] at h
    cases h
  | error e' =>
    rw [hrows] at h
    cases h
    obtain ⟨node, -, hnode⟩ := Fallible.exists_of_mapM_error hrows
    exact nodeRow_error hnode

/-- What the listings of a turn leave of the count of rescues, and how they do not fail. -/
abbrev CountsKept (rescues : ℕ) (p : Prog ProtonDb WalkError (Walk × Outcome)) : Prop :=
  Triple (fun _ _ => True) (fun _ => True) p (fun acc _ => acc.1.rescues = rescues)
    (fun e _ => e ≠ .unrecovered)

/-- One listing. -/
theorem collectOne_rescues (acc : Walk × Outcome) (f : Flight) :
    CountsKept acc.1.rescues (collectOne U snapshotId answer acc f) := by
  unfold CountsKept collectOne
  dsimp only
  split
  · exact Triple.bind (M := fun _ _ => True) (Triple.write fun _ _ => ⟨trivial, trivial⟩) fun _ =>
      Triple.fail fun _ _ => WalkError.noConfusion
  · exact Triple.bind (M := fun _ _ => True) (Triple.write fun _ _ => ⟨trivial, trivial⟩) fun _ =>
      Triple.pure fun _ _ => rfl
  · exact Triple.fail fun _ _ => WalkError.noConfusion
  · refine Triple.get_bind fun db _ => ?_
    split
    · rename_i e herr
      exact Triple.fail fun _ _ => commitListing_error herr
    · exact Triple.bind (M := fun _ _ => True) (Triple.write fun _ _ => ⟨trivial, trivial⟩) fun _ =>
        Triple.pure fun _ _ => rfl

theorem collect_rescues (done : List Flight) (mem : Walk) :
    CountsKept mem.rescues (collect U snapshotId answer done mem) := by
  unfold CountsKept collect
  have hone : ∀ acc f, Triple (fun _ _ => True) (fun _ => acc.1.rescues = mem.rescues)
      (collectOne U snapshotId answer acc f) (fun acc' _ => acc'.1.rescues = mem.rescues)
      (fun e _ => e ≠ .unrecovered) := fun acc f => Triple.pre fun _ hacc =>
    (collectOne_rescues acc f).consequence (fun _ _ => trivial) (fun _ _ h => h.trans hacc) fun _ _ h => h
  exact (Triple.foldlM (fun _ acc _ => acc.1.rescues = mem.rescues) done (mem, Outcome.ok)
    fun _ f _ _ acc => hone acc f).consequence (fun _ _ => rfl) (fun _ _ h => h) fun _ _ h => h

theorem collectTurn_rescues (t : Turn) (mem : Walk) :
    CountsKept mem.rescues (collectTurn U snapshotId t mem) := by
  unfold CountsKept collectTurn
  refine (collect_rescues _ mem).bind fun acc => Triple.pre fun _ hacc => ?_
  obtain ⟨mem', first⟩ := acc
  dsimp only
  unfold drain
  split
  · refine ((collect_rescues _ mem').consequence (fun _ _ => trivial) (fun _ _ h => h)
      fun _ _ h => h).bind fun acc' => Triple.pure fun _ h => ?_
    exact h.trans hacc
  · exact Triple.pure fun _ _ => hacc

theorem dispatchStep_error (mem : Walk) :
    Triple (fun _ _ => True) (fun _ => True) (dispatchStep cfg snapshotId mem)
      (fun mem' _ => mem'.rescues = mem.rescues) (fun e _ => e ≠ .unrecovered) := by
  have hworker : ∀ db mem worker, (∀ mem', dispatchWorker cfg snapshotId db mem worker = .ok mem' →
      mem'.rescues = mem.rescues) ∧
      ∀ e, dispatchWorker cfg snapshotId db mem worker = .error e → e = .typeError := by
    intro db mem worker
    unfold dispatchWorker
    split
    · exact ⟨fun _ h => by cases h; rfl, fun _ h => by cases h⟩
    · split
      · exact ⟨fun _ h => (by cases h), fun _ h => by cases h; rfl⟩
      · exact ⟨fun _ h => by cases h; rfl, fun _ h => by cases h⟩
  have hfold : ∀ db (workers : List ℕ) mem,
      (∀ mem', workers.foldlM (dispatchWorker cfg snapshotId db) mem = .ok mem' →
        mem'.rescues = mem.rescues) ∧
      ∀ e, workers.foldlM (dispatchWorker cfg snapshotId db) mem = .error e → e = .typeError := by
    intro db workers
    induction workers with
    | nil => exact fun mem => ⟨fun _ h => by cases h; rfl, fun _ h => by cases h⟩
    | cons worker workers ih =>
      intro mem
      rw [List.foldlM_cons]
      cases hw : dispatchWorker cfg snapshotId db mem worker with
      | ok mem₁ =>
        have hrescues := (hworker db mem worker).1 mem₁ hw
        exact ⟨fun mem' h => ((ih mem₁).1 mem' h).trans hrescues, fun e h => (ih mem₁).2 e h⟩
      | error e' =>
        refine ⟨fun _ h => (by cases h), fun e h => ?_⟩
        cases h
        exact (hworker db mem worker).2 e' hw
  unfold dispatchStep
  refine Triple.get_bind fun db _ => ?_
  unfold dispatch
  split
  · rename_i e herr
    refine Triple.fail fun _ _ => ?_
    rw [(hfold db _ mem).2 e herr]
    exact WalkError.noConfusion
  · rename_i mem' hok
    exact Triple.pure fun _ _ => (hfold db _ mem).1 mem' hok

end Collect

section Lift

/-- A statement about the database leaves the sessions. -/
theorem onDb_triple {α : Type} {p : Prog ProtonDb WalkError α} {Q : α → Prop} {E : WalkError → Prop}
    {I J : SessionSystem β δ → Prop}
    (h : Triple (fun _ _ => True) (fun _ => True) p (fun a _ => Q a) (fun e _ => E e))
    (hI : ∀ s, J s → I s) :
    Triple (fun _ st => I st.sessions) (fun st => J st.sessions) (onDb p : Prog (WalkSystem β δ) _ α)
      (fun a st => Q a ∧ J st.sessions) (fun e st => E e ∧ J st.sessions) :=
  Triple.zoom (fun _ => rfl) (fun _ hst _ _ => hI _ hst)
    (fun st hst a ha => ⟨(h st.db trivial).2.1 a ha, hst⟩)
    fun st hst e he => ⟨(h st.db trivial).2.2 e he, hst⟩

/-- A step of the sessions, as a step of the walk. -/
theorem onSessions_triple {α : Type} {p : Prog (SessionSystem β δ) SessionError α}
    {I P F : SessionSystem β δ → Prop} {Q : α → SessionSystem β δ → Prop}
    (h : Triple (fun _ s => I s) P p Q (fun _ => F)) :
    Triple (fun _ st => I st.sessions) (fun st => P st.sessions)
      (onSessions p : Prog (WalkSystem β δ) WalkError α) (fun a st => Q a st.sessions)
      (fun e st => e = .session ∧ F st.sessions) :=
  Triple.zoom (fun _ => rfl) (fun _ hst _ ht => h.states hst _ ht)
    (fun _ hst a ha => (h _ hst).2.1 a ha) fun _ hst e he => ⟨rfl, (h _ hst).2.2 e he⟩

end Lift

section Rule

variable [DecidableEq β] [DecidableEq δ] {Inv : List (SessionTurn n β) → ℕ → SessionSystem β δ → Prop}
  {I F : SessionSystem β δ → Prop}

/-- What a rescue and the listings of a turn keep of the sessions in a walk of some turns. -/
structure TurnRule (identity : Str) (digest : β → δ) (turns : List (SessionTurn n β))
    (Inv : List (SessionTurn n β) → ℕ → SessionSystem β δ → Prop) (I F : SessionSystem β δ → Prop) :
    Prop where
  held : ∀ {done r s}, done <+: turns → Inv done r s → I s
  listing : ∀ {done t r s}, Inv done r s → Inv (done ++ [t]) r (s.listing t.touches)
  rescue : ∀ {done r} (env : BundleEnv), done <+: turns → r < 3 → Triple (fun _ s => I s) (Inv done r)
    (rescueSessions identity digest env) (fun _ => Inv done (r + 1)) (fun _ => F)

/-- How a walk ends that raises: in a step of the sessions, or with what the turns so far keep,
after three rescues where it gives up. -/
def RaisedWith (Inv : List (SessionTurn n β) → ℕ → SessionSystem β δ → Prop) (F : SessionSystem β δ → Prop)
    (turns : List (SessionTurn n β)) (e : WalkError) (s : SessionSystem β δ) : Prop :=
  (e = .session ∧ F s) ∨
    ∃ done r, done <+: turns ∧ Inv done r s ∧ (e = .unrecovered → 3 ≤ r)

variable {turns : List (SessionTurn n β)}

/-- **One turn.** -/
theorem sessionTurn_rule (h : TurnRule identity digest turns Inv I F) {done : List (SessionTurn n β)}
    {t : SessionTurn n β} (hdone : done ++ [t] <+: turns) (mem : Walk) :
    Triple (fun _ st => I st.sessions) (fun st => Inv done mem.rescues st.sessions)
      (sessionTurn U snapshotId identity digest t mem)
      (fun r st => ∃ rescues, Inv (done ++ [t]) rescues st.sessions ∧
        ∀ mem', r = some mem' → mem'.rescues = rescues)
      (fun e st => RaisedWith Inv F turns e st.sessions) := by
  unfold sessionTurn
  refine Triple.bind (M := fun _ st => Inv (done ++ [t]) mem.rescues st.sessions)
    (Triple.write fun st hst => ⟨h.held hdone (h.listing hst), h.listing hst⟩) fun _ => ?_
  refine ((onDb_triple (J := Inv (done ++ [t]) mem.rescues) (collectTurn_rescues t.turn mem)
    fun _ => h.held hdone).consequence (fun _ h => h) (fun _ _ h => h) fun e st he =>
      Or.inr ⟨_, _, hdone, he.2, fun hun => absurd hun he.1⟩).bind fun acc => ?_
  obtain ⟨mem', outcome⟩ := acc
  refine Triple.pre fun st hst => ?_
  obtain ⟨hrescues, hst⟩ := hst
  change mem'.rescues = mem.rescues at hrescues
  rw [← hrescues] at hst
  unfold settleSessions
  cases outcome with
  | failed =>
    refine Triple.fail fun u hu => Or.inr ⟨_, mem'.rescues, hdone, ?_, WalkError.noConfusion⟩
    rw [hu]
    exact hst
  | ok =>
    refine Triple.pure fun u hu => ⟨mem'.rescues, by rw [hu]; exact hst, fun m hm => ?_⟩
    split at hm
    · cases hm
    · cases hm
      rfl
  | auth =>
    dsimp only
    split
    · rename_i hmany
      refine Triple.fail fun u hu => Or.inr ⟨_, mem'.rescues, hdone, ?_, fun _ => Nat.le_of_lt_succ hmany⟩
      rw [hu]
      exact hst
    · rename_i hfew
      have hless : mem'.rescues < 3 := by omega
      refine ((onSessions_triple (h.rescue t.push hdone hless)).consequence
        (fun u hu => by rw [hu]; exact hst) (fun _ _ h => h) fun _ _ he => Or.inl he).bind fun _ =>
          Triple.pure fun u hu => ?_
      refine ⟨_, hu, fun m hm => ?_⟩
      split at hm
      · cases hm
      · cases hm
        rfl

/-- **The loop.** -/
theorem sessionLoop_rule (h : TurnRule identity digest turns Inv I F) (todo : List (SessionTurn n β)) :
    ∀ done mem, done ++ todo = turns →
      Triple (fun _ st => I st.sessions) (fun st => Inv done mem.rescues st.sessions)
        (sessionLoop U cfg snapshotId identity digest todo mem)
        (fun _ st => ∃ done r, done <+: turns ∧ Inv done r st.sessions)
        (fun e st => RaisedWith Inv F turns e st.sessions) := by
  have hdispatch : ∀ {done} mem, done <+: turns →
      Triple (fun _ st => I st.sessions) (fun st => Inv done mem.rescues st.sessions)
        (onDb (dispatchStep cfg snapshotId mem))
        (fun mem' st => mem'.rescues = mem.rescues ∧ Inv done mem.rescues st.sessions)
        (fun e st => RaisedWith Inv F turns e st.sessions) := fun {done} mem hdone =>
    (onDb_triple (J := Inv done mem.rescues) (dispatchStep_error mem) fun _ => h.held hdone).consequence
      (fun _ h => h) (fun _ _ h => h) fun e st he =>
        Or.inr ⟨_, _, hdone, he.2, fun hun => absurd hun he.1⟩
  induction todo with
  | nil =>
    intro done mem hdone
    rw [List.append_nil] at hdone
    have hpre : done <+: turns := by rw [hdone]
    exact (hdispatch mem hpre).bind fun mem' => Triple.pure fun st hst => ⟨done, _, hpre, hst.2⟩
  | cons t todo ih =>
    intro done mem hdone
    have hnext : done ++ [t] ++ todo = turns := by rw [← hdone, List.append_assoc, List.singleton_append]
    unfold sessionLoop
    refine (hdispatch mem ⟨_, hdone⟩).bind fun mem' => Triple.pre fun st hst => ?_
    split
    · exact Triple.pure fun u hu => ⟨done, mem.rescues, ⟨_, hdone⟩, by rw [hu]; exact hst.2⟩
    · refine ((sessionTurn_rule h ⟨_, hnext⟩ mem').consequence (fun u hu => ?_) (fun _ _ h => h)
        fun _ _ he => he).bind fun r => ?_
      · rw [hu, hst.1]
        exact hst.2
      cases r with
      | none => exact Triple.pure fun u ⟨rescues, hu, _⟩ => ⟨_, rescues, ⟨_, hnext⟩, hu⟩
      | some mem'' =>
        exact (ih (done ++ [t]) mem'' hnext).consequence
          (fun u ⟨rescues, hu, hm⟩ => by rw [hm mem'' rfl]; exact hu) (fun _ _ h => h) fun _ _ h => h

end Rule

section Promote

variable [DecidableEq β] [DecidableEq δ] {I : SessionSystem β δ → Prop}
  {M : Bool → SessionSystem β δ → Prop}

/-- The sessions after another one was adopted. -/
def SessionSystem.promoted (s : SessionSystem β δ) : SessionSystem β δ :=
  { s.called (promote s.now s.copies s.world.session).2 with now := s.now + 1 }

omit [DecidableEq δ] in
/-- A promotion is one commit, or none. -/
theorem promoteCopies_triple (hyes : (promote s.now s.copies s.world.session).1 = true →
      I s.promoted ∧ M true s.promoted)
    (hno : (promote s.now s.copies s.world.session).1 = false → M false s) :
    Triple (fun _ t => I t) (fun t => t = s) promoteCopies M (fun _ _ => False) := by
  unfold promoteCopies
  refine Triple.get_bind fun t ht => ?_
  subst ht
  dsimp only
  split
  · rename_i h
    refine Triple.bind (M := fun _ u => M true u) (Triple.write fun u hu => ?_) fun _ =>
      Triple.pure fun _ h => h
    rw [hu]
    exact hyes h
  · rename_i h
    exact Triple.pure fun u hu => by rw [hu]; exact hno (Bool.eq_false_iff.2 h)

omit [DecidableEq δ] in
theorem SessionKept.promoted (h : SessionKept digest s) : SessionKept digest s.promoted :=
  (h.called _).moved _ _

omit [DecidableEq δ] in
/-- **A promotion keeps the session.** -/
theorem promoteCopies_kept :
    Triple (fun _ t => SessionHeld t) (SessionKept digest) promoteCopies (fun _ => SessionKept digest)
      (fun _ => SessionHeld) := by
  refine Triple.pre fun s hs => ?_
  exact (promoteCopies_triple (M := fun _ => SessionKept digest)
    (fun _ => ⟨hs.promoted.toSessionHeld, hs.promoted⟩) fun _ => hs).consequence (fun _ h => h)
      (fun _ _ h => h) fun _ _ h => h.elim

omit [DecidableEq β] in
theorem afterCall_kept (hinj : Function.Injective digest) (env : BundleEnv) :
    Triple (fun _ t => SessionHeld t) (SessionKept digest) (afterCall identity digest env)
      (fun _ => SessionKept digest) (fun _ => SessionHeld) := by
  refine Triple.pre fun t ht => ?_
  exact ((afterCall_triple hinj ht env).mono fun _ _ h => h.1).consequence (fun _ h => h)
    (fun _ _ h => h.1) fun _ _ h => h.1

/-- **A rescue keeps the session.** -/
theorem rescueSessions_kept (hinj : Function.Injective digest) (env : BundleEnv) :
    Triple (fun _ t => SessionHeld t) (SessionKept digest) (rescueSessions identity digest env)
      (fun _ => SessionKept digest) (fun _ => SessionHeld) := by
  unfold rescueSessions
  refine promoteCopies_kept.bind fun adopted => ?_
  have hseed : Triple (fun _ t => SessionHeld t) (SessionKept digest)
      (Prog.write fun s : SessionSystem β δ =>
        { s with now := s.now + 1, copies := reseed s.now s.copies s.world.session })
      (fun _ => SessionKept digest) (fun (_ : SessionError) => SessionHeld) :=
    Triple.write fun t ht => ⟨ht.toSessionHeld.moved _ _, ht.moved _ _⟩
  cases adopted with
  | false => exact hseed
  | true => exact (afterCall_kept hinj env).bind fun _ => hseed

/-- **So does the end of a walk.** -/
theorem leaveSessions_kept (hinj : Function.Injective digest) (env : BundleEnv) :
    Triple (fun _ t => SessionHeld t) (SessionKept digest) (leaveSessions identity digest env)
      (fun _ => SessionKept digest) (fun _ => SessionHeld) := by
  unfold leaveSessions
  refine promoteCopies_kept.bind fun adopted => Triple.get_bind fun t ht => ?_
  split
  · exact (afterCall_kept hinj env).consequence (fun u hu => by rw [hu]; exact ht) (fun _ _ h => h)
      fun _ _ h => h
  · exact Triple.pure fun u hu => by rw [hu]; exact ht

omit [DecidableEq β] [DecidableEq δ] in
/-- What the listings do to the session files does not matter. -/
theorem SessionKept.listing (h : SessionKept digest s) (us : List (Touch n β)) :
    SessionKept digest (s.listing us) := by
  have hmain : ∀ (us : List (Touch n β)) (s : SessionSystem β δ), SessionKept digest s →
      SessionKept digest (us.foldl SessionSystem.touchMain s) := by
    intro us
    induction us with
    | nil => exact fun _ h => h
    | cons u us ih =>
      intro s h
      exact ih _ ((h.called (s.touchedDir u)).moved _ _)
  unfold SessionSystem.listing
  split
  · exact hmain us s h
  · exact h.moved _ _

theorem keptRule (hinj : Function.Injective digest) (turns : List (SessionTurn n β)) :
    TurnRule identity digest turns (fun _ _ => SessionKept digest) SessionHeld SessionHeld where
  held _ h := h.toSessionHeld
  listing h := h.listing _
  rescue env _ _ := rescueSessions_kept hinj env

/-- **A walk keeps the session**, wherever it is cut short. -/
theorem sessionWalk_kept (hinj : Function.Injective digest) (turns : List (SessionTurn cfg.workers β))
    (push : BundleEnv) :
    Triple (fun _ st => SessionHeld st.sessions) (fun st => SessionKept digest st.sessions)
      (sessionWalk U cfg snapshotId identity digest turns push)
      (fun _ st => SessionKept digest st.sessions) (fun _ st => SessionHeld st.sessions) := by
  have hleave : Triple (fun _ st => SessionHeld st.sessions) (fun st => SessionKept digest st.sessions)
      (onSessions (leaveSessions identity digest push)) (fun _ st => SessionKept digest st.sessions)
      (fun (e : WalkError) st => e = .session ∧ SessionHeld st.sessions) :=
    onSessions_triple (leaveSessions_kept hinj push)
  have hclose : ∀ {P : SessionSystem β δ → Prop}, (∀ s, P s → SessionHeld s) →
      (∀ s copies, P s → P { s with copies }) →
      Triple (fun _ st => SessionHeld st.sessions) (fun st => P st.sessions)
        (Prog.write fun st : WalkSystem β δ => { st with sessions := { st.sessions with copies := [] } })
        (fun _ st => P st.sessions) (fun (_ : WalkError) st => SessionHeld st.sessions) :=
    fun hheld hcopies => Triple.write fun st hst => ⟨hheld _ (hcopies _ _ hst), hcopies _ _ hst⟩
  unfold sessionWalk
  refine Triple.get_bind fun st hst => ?_
  refine Triple.bind (M := fun _ st => SessionKept digest st.sessions)
    (Triple.write fun u hu => ?_) fun _ => ?_
  · rw [hu]
    exact ⟨hst.toSessionHeld.moved _ _, hst.moved _ _⟩
  refine Triple.tryFinally (M := fun _ st => SessionKept digest st.sessions)
    (N := fun _ st => SessionHeld st.sessions) ?_
    (fun _ => hclose (fun _ h => h.toSessionHeld) fun _ _ h => h.moved _ _)
    fun _ => hclose (fun _ h => h) fun _ _ h => h.moved _ _
  unfold sessionBody
  refine ((sessionLoop_rule (keptRule hinj turns) turns [] _ rfl).consequence (fun _ h => h)
    (fun _ _ ⟨_, _, _, h⟩ => h) fun _ _ h => ?_).bind fun stop => ?_
  · rcases h with ⟨-, h⟩ | ⟨_, _, -, h, -⟩
    · exact h
    · exact h.toSessionHeld
  cases stop with
  | running => exact Triple.pure fun _ h => h
  | stopped =>
    exact (hleave.consequence (fun _ h => h) (fun _ _ h => h) fun _ _ h => h.2).bind fun _ =>
      Triple.pure fun _ h => h
  | finished =>
    exact (hleave.consequence (fun _ h => h) (fun _ _ h => h) fun _ _ h => h.2).bind fun _ =>
      Triple.pure fun _ h => h

end Promote

section Runs

variable [DecidableEq β] [DecidableEq δ] {s' : SessionSystem β δ}

/-- **One step of the runs.** -/
theorem SessionKept.move (hinj : Function.Injective digest) (h : SessionKept digest s)
    (hmove : SessionMove U identity digest s s') : SessionKept digest s' := by
  cases hmove with
  | begun => exact h.toSessionHeld.ended
  | called dir env hok => exact ((afterCall_kept hinj env) _ (h.called dir)).2.1 _ hok
  | timedOut dir env herr =>
    exact ((afterCall_triple hinj (h.called dir) env _ rfl).2.2 _ herr).2.2 rfl
  | died t dir env ht =>
    refine SessionHeld.ended ?_
    rcases List.mem_cons.1 ht with rfl | ht
    · exact (h.called dir).toSessionHeld
    · exact (afterCall_kept hinj env).states (h.called dir) t ht
  | walked db cfg snapshotId turns push stop hok _ =>
    exact (sessionWalk_kept hinj turns push ⟨db, s⟩ h).2.1 _ hok
  | walkDied st db cfg snapshotId turns push hst =>
    exact SessionHeld.ended ((sessionWalk_kept hinj turns push).states (s := ⟨db, s⟩) h st hst)
  | restored machine env hbucket hok =>
    obtain ⟨c, -, hsealed⟩ := h.sealed
    obtain ⟨members, hmembers, hc⟩ := Option.bind_eq_some_iff.1 hsealed
    obtain ⟨h1, h2, h3⟩ :=
      (restore_triple identity digest env (hbucket.trans hmembers) machine rfl).2.1 () hok
    have hfile := get?_extracted env.time members machine.session hc
    rw [← h1] at hfile
    -- the session file is the one of the bucket
    have hin : ((restore identity digest env).final machine).sealed = some c := by
      rw [SessionWorld.sealed, h2, hbucket]
      exact hsealed
    have hheld : SessionHeld (s.left ((restore identity digest env).final machine)).settled := by
      refine (h.toSessionHeld.left (h2.trans hbucket)).settled fun f hf => ?_
      rw [show f = ⟨c, env.time⟩ from Option.some.inj (hf.symm.trans hfile)]
      exact hin
    refine ⟨hheld, fun d hd => ⟨c, ?_, ?_⟩⟩
    · rw [settled_world]
      exact hin
    · rw [settled_world] at hd
      change ((restore identity digest env).final machine).lastDigest = some d at hd
      rw [h3, sessionDigest, hfile] at hd
      exact Option.some.inj hd
  | unrestored machine t env hbucket ht =>
    refine SessionHeld.ended (h.toSessionHeld.left ?_)
    rcases List.mem_cons.1 ht with rfl | ht
    · exact hbucket
    · exact (restore_frame identity digest env machine t ht).trans hbucket

end Runs

end DropboxMirror
