import DropboxMirror.Model.Session

/-!
# The session in the bucket

A write-back leaves the session of the work directory in the bucket, or the one that was
there before (`writeback_triple`). So the bucket always has the session whose write-back was
answered last, or one the session file has had since (`SessionHeld`).

* `afterCall_triple`: the write-back of a phase.
* `rescueSessions_triple`, `leaveSessions_triple`: those of a walk.
-/

namespace DropboxMirror

open Text Crash Copies

variable {β δ : Type} [DecidableEq δ] {identity : Str} {digest : β → δ} {w : SessionWorld β δ}
  {s : SessionSystem β δ}

/-- The session in the bucket, as `restore` would extract it. -/
def SessionWorld.sealed (w : SessionWorld β δ) : Option β :=
  w.bucket.bind fun members => (Dict.ofList members).get? sessionFile

/-- What the files made for one call do not touch. -/
def SessionWorld.lasting (w : SessionWorld β δ) : SessionDir β × Option (SessionBundle β) × Option δ :=
  (w.session, w.bucket, w.lastDigest)

omit [DecidableEq δ] in
theorem onWork_frame {α : Type} (p : Prog (WorkDir (SessionBundle β)) CryptError α) :
    Frame SessionWorld.lasting (onWork p : SessionStep β δ α) := Frame.zoom fun _ _ => rfl

omit [DecidableEq δ] in
theorem unlinkBoth_frame (first second : Str) :
    Frame SessionWorld.lasting (unlinkBoth first second : SessionStep β δ Unit) :=
  (onWork_frame _).bind fun _ => onWork_frame _

omit [DecidableEq δ] in
theorem writeTar_frame (members : SessionBundle β) (tar : FileWrite) :
    Frame SessionWorld.lasting (writeTar members tar : SessionStep β δ Unit) := by
  cases tar with
  | done => exact onWork_frame _
  | refused => exact Frame.fail _
  | torn => exact (onWork_frame _).bind fun _ => Frame.fail _

omit [DecidableEq δ] in
/-- The files of a bundle are those of the directory. -/
theorem get?_bundleOf (dir : SessionDir β) {name : Str} (h : name ∈ sessionFiles) :
    (Dict.ofList (bundleOf dir)).get? name = (dir.get? name).map Copy.content := by
  have hbundle : bundleOf dir =
      sessionFiles.filterMap fun n => ((dir.get? n).map Copy.content).map fun c => (n, c) := by
    unfold bundleOf
    simp only [Option.map_map, Function.comp_def]
  rw [hbundle, Dict.get?_ofList_filterMap, if_pos h]

/-- The bucket has what it had, or the bundle of `source`. -/
structure Bundling (w : SessionWorld β δ) (source : SessionDir β) (v : SessionWorld β δ) : Prop where
  session : v.session = w.session
  lastDigest : v.lastDigest = w.lastDigest
  bucket : v.bucket = w.bucket ∨ v.bucket = some (bundleOf source)

omit [DecidableEq δ] in
theorem Bundling.of_lasting {source : SessionDir β} {v : SessionWorld β δ} {b : Option (SessionBundle β)}
    (hb : b = w.bucket ∨ b = some (bundleOf source)) (h : v.lasting = (w.session, b, w.lastDigest)) :
    Bundling w source v := by
  simp only [SessionWorld.lasting, Prod.mk.injEq] at h
  obtain ⟨h1, h2, h3⟩ := h
  exact ⟨h1, h3, by rw [h2]; exact hb⟩

omit [DecidableEq δ] in
/-- Removing the files of a call does not fail. -/
theorem unlinkBoth_triple (first second : Str) {I : SessionWorld β δ → Prop}
    (hI : ∀ d v, I v → I { v with work := d }) :
    Triple (fun _ v => I v) I (unlinkBoth first second : SessionStep β δ Unit) (fun _ v => I v)
      (fun _ _ => False) := by
  have hunlink : ∀ name, Triple (fun _ v => I v) I
      (onWork (unlinkFile name) : SessionStep β δ Unit) (fun _ v => I v) (fun _ _ => False) := by
    intro name
    unfold onWork unlinkFile
    rw [Prog.zoom_write]
    exact Triple.write fun v hv => ⟨hI _ v hv, hI _ v hv⟩
  unfold unlinkBoth
  exact (hunlink first).bind fun _ => hunlink second

omit [DecidableEq δ] in
/-- **A bundle that is uploaded is the directory's**, and nothing else changes; where the
encryption fails, neither does the bucket. -/
theorem bundle_triple (source : SessionDir β) (env : BundleEnv) :
    Triple (fun _ v => Bundling w source v) (fun v => v = w) (bundle identity source env)
      (fun _ v => v.lasting = (w.session, some (bundleOf source), w.lastDigest))
      (fun e v => Bundling w source v ∧ ∀ c, e = .crypt c → v.bucket = w.bucket) := by
  -- before the upload nothing changes
  have hkeep : ∀ {α : Type} {p : SessionStep β δ α}, Frame SessionWorld.lasting p →
      Triple (fun _ v => Bundling w source v) (fun v => v.lasting = w.lasting) p
        (fun _ v => v.lasting = w.lasting)
        (fun _ v => Bundling w source v ∧ v.bucket = w.bucket) := fun h =>
    ((h.triple w.lasting).mono fun _ _ => Bundling.of_lasting (Or.inl rfl)).consequence
      (fun _ h => h) (fun _ _ h => h) fun _ _ h =>
        ⟨Bundling.of_lasting (Or.inl rfl) h, congrArg (fun x => x.2.1) h⟩
  unfold bundle
  refine ((hkeep (writeTar_frame _ _)).consequence (fun v hv => by rw [hv]) (fun _ _ h => h)
    fun _ _ h => ⟨h.1, fun _ _ => h.2⟩).bind fun _ => ?_
  refine Triple.tryFinally (M := fun _ v => v.lasting = (w.session, some (bundleOf source), w.lastDigest))
    (N := fun e v => Bundling w source v ∧ ∀ c, e = .crypt c → v.bucket = w.bucket) ?_ ?_ ?_
  · refine ((hkeep (onWork_frame _)).consequence (fun _ h => h) (fun _ _ h => h)
      fun _ _ h => ⟨h.1, fun _ _ => h.2⟩).bind fun _ => ?_
    have hput : ∀ v : SessionWorld β δ, v.lasting = w.lasting →
        SessionWorld.lasting { v with bucket := some (bundleOf source) } =
          (w.session, some (bundleOf source), w.lastDigest) := by
      intro v hv
      simp only [SessionWorld.lasting, Prod.mk.injEq] at hv ⊢
      exact ⟨hv.1, trivial, hv.2.2⟩
    cases env.put with
    | done =>
      exact Triple.write fun v hv => ⟨Bundling.of_lasting (Or.inr rfl) (hput v hv), hput v hv⟩
    | refused e =>
      exact Triple.fail fun v hv => ⟨Bundling.of_lasting (Or.inl rfl) hv, fun _ h => by cases h⟩
    | lost e =>
      refine Triple.bind (M := fun _ v => Bundling w source v)
        (Triple.write fun v hv => ?_) fun _ => Triple.fail fun v hv => ⟨hv, fun _ h => by cases h⟩
      exact ⟨Bundling.of_lasting (Or.inr rfl) (hput v hv), Bundling.of_lasting (Or.inr rfl) (hput v hv)⟩
  · intro _
    refine ((unlinkBoth_triple _ _ fun _ _ h => h).mono fun _ v h => ?_).consequence
      (fun _ h => h) (fun _ _ h => h) fun _ _ h => h.elim
    exact Bundling.of_lasting (Or.inr rfl) h
  · intro e
    refine ((unlinkBoth_triple _ _ fun d v h => ?_).mono fun _ v h => ?_).consequence
      (fun _ h => h) (fun _ _ h => h) fun _ _ h => h.elim
    · exact ⟨⟨h.1.session, h.1.lastDigest, h.1.bucket⟩, h.2⟩
    · exact h.1

/-- What a write-back may do: the bucket has what it had, or the session of the directory. -/
structure Pushing (w v : SessionWorld β δ) : Prop where
  session : v.session = w.session
  bucket : v.bucket = w.bucket ∨
    (w.session.get? sessionFile).isSome ∧ v.bucket = some (bundleOf w.session)

/-- **A write-back.** An answered one pushes the session file, but where it is gone or has the
digest of the last push; one that fails in `crypt.py` leaves the bucket. -/
theorem writeback_triple (env : BundleEnv) :
    Triple (fun _ v => Pushing w v) (fun v => v = w) (writeback identity digest env)
      (fun _ v =>
        (v = w ∧ ∀ f, w.session.get? sessionFile = some f → w.lastDigest = some (digest f.content)) ∨
        ∃ f, w.session.get? sessionFile = some f ∧
          v.lasting = (w.session, some (bundleOf w.session), some (digest f.content)))
      (fun e v =>
        Pushing w v ∧ v.lastDigest = w.lastDigest ∧ ∀ c, e = .crypt c → v.bucket = w.bucket) := by
  unfold writeback
  refine Triple.get_bind fun v hv => ?_
  subst hv
  unfold sessionDigest
  cases hf : v.session.get? sessionFile with
  | none => exact Triple.pure fun u hu => Or.inl ⟨hu, fun f hf => by cases hf⟩
  | some f =>
    dsimp only [Option.map_some]
    split
    · rename_i hsame
      refine Triple.pure fun u hu => Or.inl ⟨hu, fun g hg => ?_⟩
      rw [← Option.some.inj hg]
      exact hsame
    · have hpushing : ∀ {u : SessionWorld β δ}, Bundling v v.session u → Pushing v u := fun h =>
        ⟨h.session, h.bucket.imp_right fun hb => ⟨by rw [hf]; rfl, hb⟩⟩
      refine ((bundle_triple v.session env).mono fun _ _ => hpushing).consequence (fun _ h => h)
        (fun _ _ h => h) (fun _ _ h => ⟨hpushing h.1, h.1.lastDigest, h.2⟩) |>.bind fun _ => ?_
      refine Triple.bind (M := fun _ u =>
          u.lasting = (v.session, some (bundleOf v.session), some (digest f.content)))
        (Triple.write fun u hu => ?_) fun _ => Triple.pure fun _ h => Or.inr ⟨f, rfl, h⟩
      simp only [SessionWorld.lasting, Prod.mk.injEq] at hu ⊢
      exact ⟨⟨hu.1, Or.inr ⟨by rw [hf]; rfl, hu.2.1⟩⟩, hu.1, hu.2.1, trivial⟩

section System

/-- **The bucket has a session that is not lost**: the one whose write-back was answered last,
or one the session file has had since; and the session file has the last of these. -/
structure SessionHeld (s : SessionSystem β δ) : Prop where
  sealed : ∃ c ∈ s.answered :: s.since, s.world.sealed = some c
  main : ∀ f, s.world.session.get? sessionFile = some f →
    (s.answered :: s.since).getLast? = some f.content

/-- What holds between two calls: the process remembers the digest of no other session than
the one in the bucket. -/
structure SessionKept (digest : β → δ) (s : SessionSystem β δ) : Prop extends SessionHeld s where
  tied : ∀ d, s.world.lastDigest = some d → ∃ c, s.world.sealed = some c ∧ digest c = d

omit [DecidableEq δ] in
/-- Whatever is done with the session file, the bucket is as good as before. -/
theorem SessionHeld.left (h : SessionHeld s) {world : SessionWorld β δ}
    (hb : world.bucket = s.world.bucket) : SessionHeld (s.left world) := by
  obtain ⟨c, hc, hsealed⟩ := h.sealed
  refine ⟨⟨c, ?_, ?_⟩, fun f hf => ?_⟩
  · unfold SessionSystem.left
    rw [← List.cons_append]
    exact List.mem_append_left _ hc
  · rw [← hsealed, SessionWorld.sealed, SessionWorld.sealed, ← hb]
    rfl
  · change world.session.get? sessionFile = some f at hf
    unfold SessionSystem.left
    dsimp only
    rw [← List.cons_append, hf, Option.map_some, Option.toList_some, List.getLast?_concat]

omit [DecidableEq δ] in
theorem SessionKept.called (h : SessionKept digest s) (dir : SessionDir β) :
    SessionKept digest (s.called dir) := ⟨h.toSessionHeld.left rfl, h.tied⟩

omit [DecidableEq δ] in
/-- A process that begins or ends. -/
theorem SessionHeld.ended (h : SessionHeld s) : SessionKept digest s.ended :=
  ⟨⟨h.sealed, h.main⟩, fun d hd => by cases hd⟩

omit [DecidableEq δ] in
/-- The copies of the workers and the time are no part of it. -/
theorem SessionHeld.moved (h : SessionHeld s) (copies : List (Option (Copy β))) (now : ℕ) :
    SessionHeld { s with copies, now } := ⟨h.sealed, h.main⟩

omit [DecidableEq δ] in
theorem SessionKept.moved (h : SessionKept digest s) (copies : List (Option (Copy β))) (now : ℕ) :
    SessionKept digest { s with copies, now } := ⟨h.toSessionHeld.moved copies now, h.tied⟩

omit [DecidableEq δ] in
@[simp] theorem settled_world (s : SessionSystem β δ) : s.settled.world = s.world := by
  unfold SessionSystem.settled
  split <;> rfl

omit [DecidableEq δ] in
/-- The bucket has the session file. -/
theorem SessionHeld.settled (h : SessionHeld s)
    (hmain : ∀ f, s.world.session.get? sessionFile = some f → s.world.sealed = some f.content) :
    SessionHeld s.settled := by
  unfold SessionSystem.settled
  split
  · exact h
  · rename_i f hf
    refine ⟨⟨f.content, List.mem_singleton_self _, hmain f hf⟩, fun g hg => ?_⟩
    change s.world.session.get? sessionFile = some g at hg
    rw [hf, Option.some.injEq] at hg
    rw [hg]
    rfl

omit [DecidableEq δ] in
/-- What a write-back may do keeps it. -/
theorem SessionHeld.pushing (h : SessionHeld s) {v : SessionWorld β δ} (hv : Pushing s.world v) :
    SessionHeld { s with world := v } := by
  refine ⟨?_, fun f hf => h.main f (by rw [← hv.session]; exact hf)⟩
  rcases hv.bucket with hb | ⟨hsome, hb⟩
  · obtain ⟨c, hc, hsealed⟩ := h.sealed
    exact ⟨c, hc, by rw [SessionWorld.sealed, hb]; exact hsealed⟩
  · obtain ⟨f, hf⟩ := Option.isSome_iff_exists.1 hsome
    refine ⟨f.content, List.mem_of_mem_getLast? (h.main f hf), ?_⟩
    rw [SessionWorld.sealed, hb, Option.bind_some, get?_bundleOf _ (by decide), hf, Option.map_some]

/-- What a write-back leaves of the rest; it is answered at most. -/
structure SameFiles (s t : SessionSystem β δ) : Prop where
  session : t.world.session = s.world.session
  copies : t.copies = s.copies
  now : t.now = s.now
  answered : (t.answered = s.answered ∧ t.since = s.since) ∨
    ∃ f, s.world.session.get? sessionFile = some f ∧ t.answered = f.content ∧ t.since = []

/-- **The write-back of a phase**: a session file that is there is in the bucket then. -/
theorem afterCall_triple (hinj : Function.Injective digest) (h : SessionKept digest s) (env : BundleEnv) :
    Triple (fun _ t => SessionHeld t ∧ SameFiles s t) (fun t => t = s) (afterCall identity digest env)
      (fun _ t => SessionKept digest t ∧ SameFiles s t ∧
        ∀ f, s.world.session.get? sessionFile = some f → t.answered = f.content ∧ t.since = [])
      (fun e t => SessionHeld t ∧ SameFiles s t ∧ (e = .crypt .timeout → SessionKept digest t)) := by
  unfold afterCall
  -- the write-back, and then the settlement
  refine Triple.bind (M := fun _ t => SessionKept digest t ∧ SameFiles s t ∧
    ∀ f, s.world.session.get? sessionFile = some f → t.world.sealed = some f.content) ?_ fun _ => ?_
  · refine Triple.zoom (fun _ => rfl) ?_ ?_ ?_
    · rintro t rfl v hv
      have hpush := (writeback_triple env).states rfl v hv
      exact ⟨h.toSessionHeld.pushing hpush, hpush.session, rfl, rfl, Or.inl ⟨rfl, rfl⟩⟩
    · rintro t rfl pushed hok
      rcases (writeback_triple env t.world rfl).2.1 pushed hok with ⟨hsame, hlast⟩ | ⟨f, hf, hpush⟩
      · rw [hsame]
        refine ⟨h, ⟨rfl, rfl, rfl, Or.inl ⟨rfl, rfl⟩⟩, fun f hf => ?_⟩
        -- nothing was pushed, so the bucket has a session of the same digest
        obtain ⟨c, hc, hd⟩ := h.tied _ (hlast f hf)
        rw [← hinj hd]
        exact hc
      · simp only [SessionWorld.lasting, Prod.mk.injEq] at hpush
        obtain ⟨h1, h2, h3⟩ := hpush
        have hv : Pushing t.world ((writeback identity digest env).final t.world) :=
          ⟨h1, Or.inr ⟨by rw [hf]; rfl, h2⟩⟩
        have hsealed : ((writeback identity digest env).final t.world).sealed = some f.content := by
          rw [SessionWorld.sealed, h2, Option.bind_some, get?_bundleOf _ (by decide), hf, Option.map_some]
        refine ⟨⟨h.toSessionHeld.pushing hv, fun d hd => ⟨_, hsealed, ?_⟩⟩,
          ⟨h1, rfl, rfl, Or.inl ⟨rfl, rfl⟩⟩, fun g hg => ?_⟩
        · exact Option.some.inj (h3.symm.trans hd)
        · rw [hf, Option.some.injEq] at hg
          rw [← hg]
          exact hsealed
    · rintro t rfl e herr
      obtain ⟨hpush, hlast, hcrypt⟩ := (writeback_triple env t.world rfl).2.2 e herr
      refine ⟨h.toSessionHeld.pushing hpush, ⟨hpush.session, rfl, rfl, Or.inl ⟨rfl, rfl⟩⟩,
        fun htimeout => ?_⟩
      refine ⟨h.toSessionHeld.pushing hpush, fun d hd => ?_⟩
      obtain ⟨c, hc, hd⟩ := h.tied d (hlast.symm.trans hd)
      exact ⟨c, by rw [SessionWorld.sealed, hcrypt _ htimeout]; exact hc, hd⟩
  · refine Triple.write fun t ⟨hkept, hsame, hsealed⟩ => ?_
    rw [← hsame.session] at hsealed
    have hheld := hkept.toSessionHeld.settled hsealed
    have hrest : SameFiles s t.settled := by
      unfold SessionSystem.settled
      split
      · exact hsame
      · rename_i f hf
        exact ⟨hsame.session, hsame.copies, hsame.now, Or.inr ⟨f, by rwa [← hsame.session], rfl, rfl⟩⟩
    refine ⟨⟨hheld, hrest⟩, ⟨hheld, by rw [settled_world]; exact hkept.tied⟩, hrest, fun f hf => ?_⟩
    rw [← hsame.session] at hf
    unfold SessionSystem.settled
    rw [hf]
    exact ⟨rfl, rfl⟩

end System

end DropboxMirror
