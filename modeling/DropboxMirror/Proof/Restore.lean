import DropboxMirror.Proof.Session

/-!
# The session that is restored

A run begins with the session of the bucket (`restore_triple`); one that was sealed on a
laptop comes back with both of its files (`sealed_session_restored`).
-/

namespace DropboxMirror

open Text Crash Copies

variable {β δ : Type} {identity : Str} {digest : β → δ}

/-- The directory after an extraction. -/
def extracted (t : ℕ) (members : SessionBundle β) (dir : SessionDir β) : SessionDir β :=
  members.foldl (fun dir m => dir.set m.1 ⟨m.2, t⟩) dir

theorem get?_extracted (t : ℕ) (members : SessionBundle β) (dir : SessionDir β) {name : Str} {c : β}
    (h : (Dict.ofList members).get? name = some c) :
    (extracted t members dir).get? name = some ⟨c, t⟩ := by
  have hfold : extracted t members dir =
      (members.map fun m => (m.1, (⟨m.2, t⟩ : Copy β))).foldl (Table.upsert Table.replace) dir := by
    rw [extracted, List.foldl_map]
    rfl
  rw [Dict.get?_ofList, Option.map_eq_some_iff] at h
  obtain ⟨⟨k, v⟩, hfind, rfl⟩ := h
  rw [hfold, Dict.get?, Table.find?_foldl_replace, ← List.map_reverse, List.find?_map]
  have hcomp : ((fun r : Str × Copy β => decide (r.1 = name)) ∘
      fun m : Str × β => (m.1, (⟨m.2, t⟩ : Copy β))) = fun m => decide (m.1 = name) := rfl
  rw [hcomp, hfind]
  rfl

/-- **What a `restore` that returns leaves.** -/
theorem restore_triple (identity : Str) (digest : β → δ) (env : RestoreEnv) {w : SessionWorld β δ}
    {members : SessionBundle β} (hbucket : w.bucket = some members) :
    Triple (fun _ _ => True) (fun v => v = w) (restore identity digest env)
      (fun _ v => v.session = extracted env.time members w.session ∧ v.bucket = w.bucket ∧
        v.lastDigest = sessionDigest digest v.session) (fun _ _ => True) := by
  -- what the files made for the call do not touch
  have hkeep : ∀ {α : Type} {p : SessionStep β δ α} {c}, Frame SessionWorld.lasting p →
      Triple (fun _ _ => True) (fun v => v.lasting = c) p (fun _ v => v.lasting = c)
        (fun _ _ => True) := fun h => ((h.triple _).mono fun _ _ _ => trivial).consequence
          (fun _ h => h) (fun _ _ h => h) fun _ _ _ => trivial
  have hrest : ∀ {v : SessionWorld β δ} {dir : SessionDir β}, v.lasting = (dir, w.bucket, w.lastDigest) →
      v.session = dir ∧ v.bucket = w.bucket := fun h => ⟨congrArg Prod.fst h, congrArg (fun x => x.2.1) h⟩
  unfold restore
  refine Triple.get_bind fun v hv => ?_
  subst hv
  rw [hbucket]
  split
  · exact Triple.fail fun _ _ => trivial
  dsimp only
  refine ((hkeep (c := v.lasting) (onWork_frame _)).consequence (fun u hu => by rw [hu]) (fun _ _ h => h)
    fun _ _ h => h).bind fun _ => ?_
  refine Triple.bind (M := fun _ u =>
    u.lasting = (extracted env.time members v.session, v.bucket, v.lastDigest)) ?_ fun _ => ?_
  · refine Triple.tryFinally (M := fun _ u =>
      u.lasting = (extracted env.time members v.session, v.bucket, v.lastDigest)) (N := fun _ _ => True) ?_
      (fun _ => hkeep (unlinkBoth_frame _ _)) fun _ => Triple.any.mono fun _ _ h => h
    refine (hkeep (onWork_frame _)).bind fun _ => ?_
    split
    · exact Triple.fail fun _ _ => trivial
    unfold extractMembers
    cases hx : env.extracted with
    | none =>
      dsimp only
      rw [if_pos rfl]
      refine Triple.bind (M := fun _ u =>
        u.lasting = (extracted env.time members v.session, v.bucket, v.lastDigest))
        (Triple.write fun u hu => ⟨trivial, ?_⟩) fun _ => Triple.pure fun _ h => h
      have hu' : u.session = v.session ∧ u.bucket = v.bucket ∧ u.lastDigest = v.lastDigest := by
        simpa only [SessionWorld.lasting, Prod.mk.injEq] using hu
      simp only [SessionWorld.lasting, hu'.1, hu'.2.1, hu'.2.2, extracted]
    | some n =>
      dsimp only
      rw [if_neg (by simp)]
      exact Triple.any.bind fun _ => Triple.fail fun _ _ => trivial
  · refine Triple.write fun u hu => ⟨trivial, ?_, ?_, rfl⟩
    · exact (hrest hu).1
    · exact (hrest hu).2.trans hbucket

/-- A `restore` leaves the bucket, however it ends. -/
theorem restore_frame (identity : Str) (digest : β → δ) (env : RestoreEnv) :
    Frame SessionWorld.bucket (restore identity digest env : SessionStep β δ Unit) := by
  have hwork : ∀ {α : Type} {p : Prog (WorkDir (SessionBundle β)) CryptError α},
      Frame SessionWorld.bucket (onWork p : SessionStep β δ α) := Frame.zoom fun _ _ => rfl
  unfold restore
  refine Frame.get.bind fun w => ?_
  split
  · exact Frame.fail _
  split
  · exact Frame.fail _
  refine hwork.bind fun _ => Frame.bind ?_ fun _ => Frame.write fun _ => rfl
  refine Frame.tryFinally (hwork.bind fun _ => ?_) (hwork.bind fun _ => hwork)
  split
  · exact Frame.fail _
  unfold extractMembers
  dsimp only
  refine Frame.bind (Frame.write fun _ => rfl) fun _ => ?_
  split
  · exact Frame.pure _
  · exact Frame.fail _

section RoundTrip

variable [DecidableEq δ]

omit [DecidableEq δ] in
/-- What a `seal` that returns leaves. -/
theorem sealSession_ok {source : SessionDir β} {env : BundleEnv} {w : SessionWorld β δ}
    (h : (sealSession identity source env).result w = .ok ()) :
    (∀ name ∈ sessionFiles, (source.get? name).isSome) ∧
      ((sealSession identity source env).final w).bucket = some (bundleOf source) := by
  unfold sealSession at h ⊢
  cases hfind : sessionFiles.find? fun name => (source.get? name).isNone with
  | some name =>
    rw [hfind] at h
    cases h
  | none =>
    rw [hfind] at h
    have hall := List.find?_eq_none.1 hfind
    refine ⟨fun name hname => ?_, ?_⟩
    · have := hall name hname
      rwa [Option.isNone_iff_eq_none, ← ne_eq, ← Option.isSome_iff_ne_none] at this
    · exact congrArg (fun x => x.2.1) ((bundle_triple source env w rfl).2.1 () h)

/-- **A session that is sealed is the one the next run restores**, with both of its files, and
a write-back has nothing to push then. -/
theorem sealed_session_restored {source : SessionDir β} {env : BundleEnv} {w v : SessionWorld β δ}
    {renv : RestoreEnv} (hseal : (sealSession identity source env).result w = .ok ())
    (hbucket : v.bucket = ((sealSession identity source env).final w).bucket)
    (hrestore : (restore identity digest renv).result v = .ok ()) :
    (∀ name ∈ sessionFiles, ∃ f, source.get? name = some f ∧
        ((restore identity digest renv).final v).session.get? name = some ⟨f.content, renv.time⟩) ∧
      ∀ again, writeback identity digest again ((restore identity digest renv).final v) =
        ⟨[], .ok false⟩ := by
  obtain ⟨hfiles, hmembers⟩ := sealSession_ok hseal
  obtain ⟨hsession, -, hdigest⟩ :=
    (restore_triple identity digest renv (hbucket.trans hmembers) v rfl).2.1 () hrestore
  have hrestored : ∀ name ∈ sessionFiles, ∃ f, source.get? name = some f ∧
      ((restore identity digest renv).final v).session.get? name = some ⟨f.content, renv.time⟩ := by
    intro name hname
    obtain ⟨f, hf⟩ := Option.isSome_iff_exists.1 (hfiles name hname)
    have hbundle : (Dict.ofList (bundleOf source)).get? name = some f.content := by
      rw [get?_bundleOf source hname, hf, Option.map_some]
    exact ⟨f, hf, by rw [hsession]; exact get?_extracted renv.time _ _ hbundle⟩
  refine ⟨hrestored, fun again => ?_⟩
  -- the digest of the restored file is the one the process remembers
  obtain ⟨f, -, hf⟩ := hrestored sessionFile (by decide)
  have hcurrent : sessionDigest digest ((restore identity digest renv).final v).session =
      some (digest f.content) := by
    rw [sessionDigest, hf, Option.map_some]
  unfold writeback
  rw [Prog.get_bind, hcurrent]
  dsimp only
  rw [hdigest, hcurrent, if_pos rfl]
  rfl

/-- A bundle that meets no failure. -/
def BundleEnv.served : BundleEnv := ⟨.done, ⟨⟨.done, .done⟩, .done⟩, .done⟩

/-- A laptop's session. -/
def laptopSession : SessionDir ℕ :=
  Dict.ofList [(sessionFile, ⟨7, 1⟩), ("clientUid.json".toList, ⟨8, 2⟩)]

/-- A machine with no session yet. -/
def emptyMachine (bucket : Option (SessionBundle ℕ)) : SessionWorld ℕ ℕ :=
  ⟨Table.empty, Table.empty, bucket, none⟩

theorem sealed_session_restored_laptop :
    ∃ f, laptopSession.get? sessionFile = some f ∧
      ((restore "k".toList id ⟨true, ⟨.done, .done⟩, 5, none⟩).final
        (emptyMachine (some [(sessionFile, 7), ("clientUid.json".toList, 8)]))).session.get? sessionFile =
          some ⟨f.content, 5⟩ := by
  have hseal : (sealSession "k".toList laptopSession .served).result
      (emptyMachine none : SessionWorld ℕ ℕ) = .ok () := by decide +kernel
  have hrestore : (restore "k".toList id ⟨true, ⟨.done, .done⟩, 5, none⟩).result
      (emptyMachine (some [(sessionFile, 7), ("clientUid.json".toList, 8)])) = .ok () := by decide +kernel
  exact (sealed_session_restored hseal (by decide +kernel) hrestore).1 _ (by decide)

end RoundTrip

end DropboxMirror
