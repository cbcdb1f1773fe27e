import DropboxMirror.Model.Session
import DropboxMirror.Model.StateFiles

/-!
# What a call leaves on the disk

The key and the plain texts are on the disk for one call. However the call ends, they are
gone with it, but for a file whose own write was cut short before the clean-up began.

* `Within`: a program that starts with the files of one set, and ends with those of another.
* `session_calls_leave`: any sequence of calls of `session.py`.
* `state_files_refine`: those of `statefile.py`, which are the calls of `Model/Statefile`.
-/

namespace DropboxMirror

open Text Crash

variable {σ κ ε α β γ δ : Type}

/-- The files of the work directory are among these. -/
def Leaves (S : Set Str) (d : WorkDir κ) : Prop := ∀ name, d.get? name ≠ none → name ∈ S

theorem Leaves.mono {S T : Set Str} {d : WorkDir κ} (h : Leaves S d) (hST : S ⊆ T) : Leaves T d :=
  fun name hname => hST (h name hname)

/-- **However the program ends**, the files are among those of the second set. -/
def Within (work : σ → WorkDir κ) (S T : Set Str) (p : Prog σ ε α) : Prop :=
  Triple (fun _ _ => True) (fun s => Leaves S (work s)) p (fun _ s => Leaves T (work s))
    fun _ s => Leaves T (work s)

namespace Within

variable {work : σ → WorkDir κ} {S S' T T' : Set Str} {p : Prog σ ε α}

theorem mono (h : Within work S T p) (hS : S' ⊆ S) (hT : T ⊆ T') : Within work S' T' p :=
  h.consequence (fun _ hs => hs.mono hS) (fun _ _ ht => ht.mono hT) fun _ _ ht => ht.mono hT

theorem pure {a : α} : Within work S S (Pure.pure a : Prog σ ε α) := Triple.pure fun _ h => h

theorem fail {e : ε} : Within work S S (Prog.fail e : Prog σ ε α) := Triple.fail fun _ h => h

/-- What does not touch the directory. -/
theorem quiet (h : Frame work p) : Within work S S p :=
  Triple.pre fun s hs => ((h.triple (work s)).mono fun _ _ _ => trivial).consequence
    (fun t ht => by rw [ht]) (fun _ t ht => by rw [ht]; exact hs) fun _ t ht => by rw [ht]; exact hs

theorem bind {q : α → Prog σ ε γ} (hp : Within work S T p) (hq : ∀ a, Within work T T (q a)) :
    Within work S T (p >>= q) := Triple.bind hp hq

/-- One commit, and what follows it. -/
theorem write_bind {f : σ → σ} {q : Unit → Prog σ ε α} (hf : ∀ s, Leaves S (work s) → Leaves T (work (f s)))
    (hq : Within work T T' (q ())) : Within work S T' (Prog.write f >>= q) :=
  Triple.bind (M := fun _ s => Leaves T (work s)) (Triple.write fun s hs => ⟨trivial, hf s hs⟩)
    fun _ => hq

theorem get_bind {q : σ → Prog σ ε α} (h : ∀ s, Within work S T (q s)) :
    Within work S T (Prog.get >>= q) :=
  Triple.get_bind fun s hs => (h s).consequence (fun t ht => by rw [ht]; exact hs) (fun _ _ h => h)
    fun _ _ h => h

/-- The clean-up runs whatever the program came to. -/
theorem tryFinally {q : Prog σ ε Unit} (hp : Within work S T p) (hq : Within work T T' q) :
    Within work S T' (p.tryFinally q) := Triple.tryFinally hp (fun _ => hq) fun _ => hq

/-- What a call that ends with these files leaves, however it ends. -/
theorem leaves (h : Within work S T p) {s : σ}
    (hs : Leaves S (work s)) : Leaves T (work (p.final s)) := by
  obtain ⟨-, hok, herr⟩ := h s hs
  cases hr : (p s).result with
  | ok a => exact hok a hr
  | error e => exact herr e hr

/-- A part of a program's state that has the directory. -/
theorem zoom {τ : Type} {part : τ → σ} {put : σ → τ → τ} {err : ε → δ}
    (hput : ∀ t, put (part t) t = t) (hpart : ∀ s t, part (put s t) = s) (h : Within work S T p) :
    Within (fun t => work (part t)) S T (p.zoom part put err) := by
  refine (Triple.zoom (I := fun _ => True) hput (fun _ _ _ _ => trivial) (fun t ht a ha => ?_)
    fun t ht e he => ?_).mono fun _ _ _ => trivial
  · change Leaves T (work (part (put (p.final (part t)) t)))
    rw [hpart]
    exact (h (part t) ht).2.1 a ha
  · change Leaves T (work (part (put (p.final (part t)) t)))
    rw [hpart]
    exact (h (part t) ht).2.2 e he

end Within

section Files

variable {S : Set Str} {name : Str} {file : WorkFile κ}

theorem Leaves.erase {d : WorkDir κ} (h : Leaves S d) : Leaves (S \ {name}) (d.erase name) := by
  intro n hn
  rw [Dict.get?_erase] at hn
  split at hn
  · exact absurd rfl hn
  · rename_i hne
    exact ⟨h n hn, fun heq => hne heq.symm⟩

theorem Leaves.set {d : WorkDir κ} (h : Leaves S d) : Leaves (insert name S) (d.set name file) := by
  intro n hn
  rw [Dict.get?_set] at hn
  split at hn
  · rename_i heq
    exact Or.inl heq.symm
  · exact Or.inr (h n hn)

theorem writeFile_within (h : name ∈ S) :
    Within id S S (writeFile name file : Prog (WorkDir κ) ε Unit) :=
  Triple.write fun _ hd => ⟨trivial, hd.set.mono (Set.insert_subset h subset_rfl)⟩

theorem unlinkFile_within : Within id S (S \ {name}) (unlinkFile name : Prog (WorkDir κ) ε Unit) :=
  Triple.write fun _ hd => ⟨trivial, hd.erase⟩

theorem writeWork_within (h : name ∈ S) (write : FileWrite) :
    Within id S S (writeWork name file write) := by
  cases write with
  | done => exact writeFile_within h
  | refused => exact Within.fail
  | torn => exact (writeFile_within h).bind fun _ => Within.fail

/-- **The key does not outlive the call it is written for**, unless its own write is cut
short. -/
theorem withIdentity_within {identity : Str} {key : FileWrite} {body : Prog (WorkDir κ) CryptError α}
    (hkey : key = .torn → ageKey ∈ S) (hbody : Within id (insert ageKey S) (insert ageKey S) body) :
    Within id S S (withIdentity identity key body) := by
  unfold withIdentity
  split
  · exact Within.fail
  cases key with
  | refused => exact Within.fail
  | torn => exact (writeFile_within (hkey rfl)).bind fun _ => Within.fail
  | done =>
    refine Within.write_bind (fun d hd => hd.set) (hbody.tryFinally (unlinkFile_within.mono subset_rfl ?_))
    exact fun n hn => hn.1.resolve_left hn.2

theorem runAge_within (h : name ∈ S) (run : AgeRun) :
    Within id S S (runAge run name file) := by
  cases run with
  | done => exact (writeFile_within h).bind fun _ => Within.pure
  | failed less begun =>
    cases begun with
    | true => exact (writeFile_within h).bind fun _ => Within.pure
    | false => exact Within.pure
  | timeout begun =>
    cases begun with
    | true => exact (writeFile_within h).bind fun _ => Within.fail
    | false => exact Within.fail

theorem checkAge_within (code : ℕ) (what : String) :
    Within id S S (checkAge code what : Prog (WorkDir κ) CryptError Unit) := by
  unfold checkAge
  split
  · exact Within.pure
  · exact Within.fail

theorem recipient_within {identity : Str} {env : KeyedRun} (hkey : env.key = .torn → ageKey ∈ S) :
    Within id S S (recipient identity env : Prog (WorkDir κ) CryptError Unit) := by
  refine (withIdentity_within hkey ?_).bind fun code => checkAge_within code _
  cases env.run with
  | done => exact Within.pure
  | failed less begun => exact Within.pure
  | timeout begun => exact Within.fail

theorem encrypt_within {identity : Str} {env : EncryptEnv} {body : κ} (h : name ∈ S)
    (hkey : env.recipient.key = .torn → ageKey ∈ S) : Within id S S (encrypt identity env body name) :=
  (recipient_within hkey).bind fun _ => (runAge_within h _).bind fun code => checkAge_within code _

theorem decrypt_within {identity : Str} {env : KeyedRun} {body : κ} (h : name ∈ S)
    (hkey : env.key = .torn → ageKey ∈ S) : Within id S S (decrypt identity env body name) :=
  (withIdentity_within hkey (runAge_within (Or.inr h) _)).bind fun code => checkAge_within code _

end Files

section Session

variable {S : Set Str} {identity : Str} {digest : β → δ}

theorem onWork_within {T : Set Str} {p : Prog (WorkDir (SessionBundle β)) CryptError α}
    (h : Within id S T p) : Within SessionWorld.work S T (onWork p : SessionStep β δ α) :=
  h.zoom (fun _ => rfl) fun _ _ => rfl

/-- The clean-up of a session call. -/
theorem unlinkBoth_within (first second : Str) :
    Within SessionWorld.work S ((S \ {first}) \ {second})
      (unlinkBoth first second : SessionStep β δ Unit) :=
  Within.write_bind (T := S \ {first}) (fun _ h => h.erase) (onWork_within unlinkFile_within)

theorem writeTar_within (members : SessionBundle β) (h : sessionTar ∈ S) (tar : FileWrite) :
    Within SessionWorld.work S S (writeTar members tar : SessionStep β δ Unit) := by
  cases tar with
  | done => exact onWork_within (writeFile_within h)
  | refused => exact Within.fail
  | torn => exact (onWork_within (writeFile_within h)).bind fun _ => Within.fail

theorem putSession_frame (members : SessionBundle β) (reply : Reply) :
    Frame SessionWorld.work (putSession members reply : SessionStep β δ Unit) := by
  cases reply with
  | done => exact Frame.write fun _ => rfl
  | refused e => exact Frame.fail _
  | lost e =>
    refine Frame.bind ?_ fun _ => Frame.fail _
    exact Frame.write fun _ => rfl

theorem bundle_within {source : SessionDir β} {env : BundleEnv} (htar : env.tar = .torn → sessionTar ∈ S)
    (hkey : env.encrypt.recipient.key = .torn → ageKey ∈ S) :
    Within SessionWorld.work S S (bundle identity source env : SessionStep β δ Unit) := by
  have hbody : Within SessionWorld.work (insert sessionTar S) S
      (Prog.tryFinally (do
          onWork (encrypt identity env.encrypt (bundleOf source) sealedTar)
          putSession (bundleOf source) env.put)
        (unlinkBoth sessionTar sealedTar) : SessionStep β δ Unit) := by
    have hopen : Within SessionWorld.work (insert sealedTar (insert sessionTar S))
        (insert sealedTar (insert sessionTar S)) (do
          onWork (encrypt identity env.encrypt (bundleOf source) sealedTar)
          putSession (bundleOf source) env.put : SessionStep β δ Unit) :=
      (onWork_within (encrypt_within (Or.inl rfl) fun h => Or.inr (Or.inr (hkey h)))).bind fun _ =>
        Within.quiet (putSession_frame _ _)
    refine (hopen.tryFinally (unlinkBoth_within _ _)).mono (Set.subset_insert _ _) ?_
    exact fun n hn => (hn.1.1.resolve_left hn.2).resolve_left hn.1.2
  unfold bundle
  cases ht : env.tar with
  | done => exact Within.write_bind (T := insert sessionTar S) (fun _ h => h.set) hbody
  | refused => exact Within.fail.bind fun _ => hbody.mono (Set.subset_insert _ _) subset_rfl
  | torn => exact (writeTar_within _ (htar ht) _).bind fun _ => hbody.mono (Set.subset_insert _ _) subset_rfl

/-- A call of `session.py`. -/
inductive SessionCall (β : Type)
  | restore (env : RestoreEnv)
  | writeback (env : BundleEnv)
  | sealSession (source : SessionDir β) (env : BundleEnv)

/-- The write of the key is cut short. -/
def SessionCall.KeyTorn : SessionCall β → Prop
  | .restore env => env.decrypt.key = .torn
  | .writeback env => env.encrypt.recipient.key = .torn
  | .sealSession _ env => env.encrypt.recipient.key = .torn

/-- The write of the archive is. -/
def SessionCall.TarTorn : SessionCall β → Prop
  | .restore _ => False
  | .writeback env => env.tar = .torn
  | .sealSession _ env => env.tar = .torn

variable [DecidableEq δ]

/-- The call. -/
def SessionCall.run (identity : Str) (digest : β → δ) : SessionCall β → SessionStep β δ Unit
  | .restore env => DropboxMirror.restore identity digest env
  | .writeback env => do
    let _ ← DropboxMirror.writeback identity digest env
    return ()
  | .sealSession source env => DropboxMirror.sealSession identity source env

theorem SessionCall.within {c : SessionCall β} (hkey : c.KeyTorn → ageKey ∈ S)
    (htar : c.TarTorn → sessionTar ∈ S) : Within SessionWorld.work S S (c.run identity digest) := by
  cases c with
  | sealSession source env =>
    change Within SessionWorld.work S S (DropboxMirror.sealSession identity source env)
    unfold DropboxMirror.sealSession
    split
    · exact Within.fail
    · exact bundle_within htar hkey
  | writeback env =>
    refine Within.bind (Within.get_bind fun w => ?_) fun _ => Within.pure
    split
    · exact Within.pure
    split
    · exact Within.pure
    refine (bundle_within htar hkey).bind fun _ => ?_
    refine Within.bind (Within.quiet ?_) fun _ => Within.pure
    exact Frame.write fun _ => rfl
  | restore env =>
    refine Within.get_bind fun w => ?_
    split
    · exact Within.fail
    cases w.bucket with
    | none => exact Within.fail
    | some members =>
      have hopen : Within SessionWorld.work (insert sessionTar (insert sealedTar S))
          (insert sessionTar (insert sealedTar S)) (do
            onWork (decrypt identity env.decrypt members sessionTar)
            if members.any fun m => !sessionFiles.contains m.1 then Prog.fail .unexpectedMember
            else extractMembers members env : SessionStep β δ Unit) := by
        refine (onWork_within (decrypt_within (Or.inl rfl) fun h => Or.inr (Or.inr (hkey h)))).bind
          fun _ => ?_
        split
        · exact Within.fail
        · refine Within.quiet (Frame.bind ?_ fun _ => ?_)
          · exact Frame.write fun _ => rfl
          · split
            · exact Frame.pure _
            · exact Frame.fail _
      refine Within.write_bind (T := insert sealedTar S) (fun _ h => h.set) (Within.bind (T := S) ?_ ?_)
      · refine (hopen.tryFinally (unlinkBoth_within _ _)).mono (Set.subset_insert _ _) ?_
        exact fun n hn => (hn.1.1.resolve_left hn.2).resolve_left hn.1.2
      · exact fun _ => Within.quiet (Frame.write fun _ => rfl)

/-- The machine after some calls, whatever each of them came to. -/
def afterCalls (identity : Str) (digest : β → δ) (calls : List (SessionCall β)) (w : SessionWorld β δ) :
    SessionWorld β δ := calls.foldl (fun w c => (c.run identity digest).final w) w

theorem afterCalls_leaves {calls : List (SessionCall β)} {w : SessionWorld β δ}
    (hkey : (∃ c ∈ calls, c.KeyTorn) → ageKey ∈ S) (htar : (∃ c ∈ calls, c.TarTorn) → sessionTar ∈ S)
    (h : Leaves S w.work) : Leaves S (afterCalls identity digest calls w).work := by
  unfold afterCalls
  refine List.foldlRecOn (motive := fun w : SessionWorld β δ => Leaves S w.work) calls _ h fun v hv c hc => ?_
  -- a call ends with its files gone, whether it returned or raised
  exact (SessionCall.within (fun h => hkey ⟨c, hc, h⟩) fun h => htar ⟨c, hc, h⟩).leaves hv

/-- **No call of `session.py` leaves a file of its own**, whatever fails in it, but a key or an
archive whose write was cut short. -/
theorem session_calls_leave (identity : Str) (digest : β → δ) (calls : List (SessionCall β))
    (w : SessionWorld β δ) :
    Leaves ({n | w.work.get? n ≠ none} ∪ {n | n = ageKey ∧ ∃ c ∈ calls, c.KeyTorn} ∪
      {n | n = sessionTar ∧ ∃ c ∈ calls, c.TarTorn}) (afterCalls identity digest calls w).work :=
  afterCalls_leaves (fun h => Or.inl (Or.inr ⟨rfl, h⟩)) (fun h => Or.inr ⟨rfl, h⟩)
    fun _ hn => Or.inl (Or.inl hn)

end Session

section State

variable {S : Set Str} {identity label : Str} {C : Codec β}

/-- How a file is written, for its caller. -/
def FileWrite.outcome : FileWrite → Except CryptError Unit
  | .done => .ok ()
  | _ => .error .os

/-- How a run of `age` ends, for its caller. -/
def AgeRun.outcome (what : String) : AgeRun → Except CryptError Unit
  | .done => .ok ()
  | .failed less _ => .error (.age what (less + 1))
  | .timeout _ => .error .timeout

/-- How a call with the key ends. -/
def KeyedRun.outcome (identity : Str) (what : String) (env : KeyedRun) : Except CryptError Unit :=
  if identity = [] then .error .unset
  else do
    env.key.outcome
    env.run.outcome what

/-- How an encryption ends. -/
def EncryptEnv.outcome (identity : Str) (env : EncryptEnv) : Except CryptError Unit := do
  env.recipient.outcome identity "keygen"
  env.run.outcome "encrypt"

theorem recipient_result (env : KeyedRun) (d : WorkDir κ) :
    (recipient identity env).result d = env.outcome identity "keygen" := by
  obtain ⟨key, run⟩ := env
  unfold recipient withIdentity KeyedRun.outcome
  split
  · rfl
  cases key with
  | done => cases run <;> rfl
  | refused => rfl
  | torn => rfl

theorem decrypt_result (env : KeyedRun) (body : κ) (target : Str) (d : WorkDir κ) :
    (decrypt identity env body target).result d = env.outcome identity "decrypt" := by
  obtain ⟨key, run⟩ := env
  unfold decrypt withIdentity KeyedRun.outcome
  split
  · rfl
  cases key with
  | done =>
    cases run with
    | done => rfl
    | failed less begun => cases begun <;> rfl
    | timeout begun => cases begun <;> rfl
  | refused => rfl
  | torn => rfl

theorem encrypt_result (env : EncryptEnv) (body : κ) (target : Str) (d : WorkDir κ) :
    (encrypt identity env body target).result d = env.outcome identity := by
  have hrecipient : (recipient identity env.recipient).result d = _ := recipient_result env.recipient d
  unfold encrypt EncryptEnv.outcome
  rw [Prog.result] at hrecipient ⊢
  cases hr : env.recipient.outcome identity "keygen" with
  | error e =>
    rw [hr] at hrecipient
    rw [Prog.bind_error hrecipient]
    rfl
  | ok u =>
    rw [hr] at hrecipient
    rw [Prog.bind_ok hrecipient]
    cases env.run with
    | done => rfl
    | failed less begun => cases begun <;> rfl
    | timeout begun => cases begun <;> rfl

/-- What the bucket's side is given of a push: the files come first. -/
def PushEnv.store (identity : Str) (env : PushEnv) : StoreEnv where
  snapshot := (do
    env.snapshot.outcome
    env.compress.outcome
    env.encrypt.outcome identity).mapError CryptError.failure
  put := env.put
  copy := env.copy

/-- A result, as a program. -/
def exceptStep (r : Except CryptError Unit) : DurableStep β Unit :=
  match r with
  | .ok () => return ()
  | .error e => Prog.fail e.failure

/-- A step in the work directory whose end does not depend on it. -/
theorem onFiles_refines {p : Prog (WorkDir StateDb) CryptError Unit} {r : Except CryptError Unit}
    (h : ∀ d, p.result d = r) : Refines Filed.durable (onFiles p) (exceptStep r : DurableStep β Unit) := by
  have hframe : Frame Filed.durable (onFiles p : FiledStep β Unit) := Frame.zoom fun _ _ => rfl
  refine ⟨fun f => ?_, fun f => ?_, fun f f' hf => Or.inl (hframe f f' hf)⟩
  · change ((p f.work).result).mapError CryptError.failure = (exceptStep r f.durable).result
    rw [show (p f.work).result = r from h f.work]
    cases r <;> rfl
  · rw [hframe.final]
    cases r <;> rfl

theorem writeWork_result (name : Str) (file : WorkFile κ) (write : FileWrite) (d : WorkDir κ) :
    (writeWork name file write).result d = write.outcome := by cases write <;> rfl

theorem unlinks_silent :
    Refines Filed.durable (do
      onFiles (unlinkFile stateSnapshot)
      onFiles (unlinkFile packedState)
      onFiles (unlinkFile sealedState) : FiledStep β Unit) (Pure.pure ()) :=
  Refines.silent_bind (Refines.silent fun _ => rfl)
    (Refines.silent_bind (Refines.silent fun _ => rfl) (Refines.silent fun _ => rfl))

theorem onDurable_refines (p : DurableStep β α) : Refines Filed.durable (onDurable p) p :=
  Refines.zoom fun _ _ => rfl

/-- **With its files, a push is the push of the database and the bucket.** -/
theorem pushFiles_refines (label : Str) (env : PushEnv) :
    Refines Filed.durable (pushFiles C identity label env) (pushState C label (env.store identity)) := by
  obtain ⟨snapshot, compress, sealing, put, copy⟩ := env
  refine Refines.tryFinally ?_ unlinks_silent
  have hbody : ∀ s : StateDb, Refines Filed.durable (do
      onFiles (writeWork stateSnapshot (.plain s) snapshot)
      onFiles (writeWork packedState (.plain s) compress)
      onFiles (encrypt identity sealing s sealedState)
      onDurable (bucketCall (Durable.upload label (C.pack s)) put)
      onDurable (bucketCall (Durable.copyState label) copy) : FiledStep β Unit) (do
      exceptStep snapshot.outcome
      exceptStep compress.outcome
      exceptStep (sealing.outcome identity)
      bucketCall (Durable.upload label (C.pack s)) put
      bucketCall (Durable.copyState label) copy) := fun s =>
    (onFiles_refines (writeWork_result _ _ _)).bind fun _ =>
      (onFiles_refines (writeWork_result _ _ _)).bind fun _ =>
        (onFiles_refines (encrypt_result _ _ _)).bind fun _ =>
          (onDurable_refines _).bind fun _ => onDurable_refines _
  -- the snapshot, the compression and the encryption are the first step of `pushState`
  have hseq : ∀ d : Durable β, (do
      exceptStep snapshot.outcome
      exceptStep compress.outcome
      exceptStep (sealing.outcome identity)
      bucketCall (Durable.upload label (C.pack d.world.db)) put
      bucketCall (Durable.copyState label) copy) d =
        pushState C label (PushEnv.store identity ⟨snapshot, compress, sealing, put, copy⟩) d := by
    intro d
    unfold pushState PushEnv.store
    dsimp only
    cases snapshot with
    | refused => rfl
    | torn => rfl
    | done =>
      cases compress with
      | refused => rfl
      | torn => rfl
      | done => cases sealing.outcome identity <;> rfl
  refine ⟨fun f => ?_, fun f => ?_, fun f => ?_⟩
  · exact ((hbody f.durable.world.db).result f).trans (congrArg Exec.result (hseq f.durable))
  · exact ((hbody f.durable.world.db).final f).trans
      (congrArg (fun x => x.states.getLastD f.durable) (hseq f.durable))
  · rw [← hseq f.durable]
    exact (hbody f.durable.world.db).states f

theorem onFiles_within {T : Set Str} {p : Prog (WorkDir StateDb) CryptError α} (h : Within id S T p) :
    Within Filed.work S T (onFiles p : FiledStep β α) := h.zoom (fun _ => rfl) fun _ _ => rfl

theorem onDurable_within (p : DurableStep β α) : Within Filed.work S S (onDurable p) :=
  Within.quiet (Frame.zoom fun _ _ => rfl)

/-- The files of a push are gone with it. -/
theorem pushFiles_within (label : Str) {env : PushEnv}
    (hkey : env.encrypt.recipient.key = .torn → ageKey ∈ S) :
    Within Filed.work S S (pushFiles C identity label env) := by
  have hbody : Within Filed.work (insert sealedState (insert packedState (insert stateSnapshot S)))
      (insert sealedState (insert packedState (insert stateSnapshot S))) (do
        let f ← Prog.get
        let s := f.durable.world.db
        onFiles (writeWork stateSnapshot (.plain s) env.snapshot)
        onFiles (writeWork packedState (.plain s) env.compress)
        onFiles (encrypt identity env.encrypt s sealedState)
        onDurable (bucketCall (Durable.upload label (C.pack s)) env.put)
        onDurable (bucketCall (Durable.copyState label) env.copy) : FiledStep β Unit) := by
    refine Within.get_bind fun f => ?_
    refine (onFiles_within (writeWork_within (Or.inr (Or.inr (Or.inl rfl))) _)).bind fun _ => ?_
    refine (onFiles_within (writeWork_within (Or.inr (Or.inl rfl)) _)).bind fun _ => ?_
    refine (onFiles_within (encrypt_within (Or.inl rfl) fun h => ?_)).bind fun _ => ?_
    · exact Or.inr (Or.inr (Or.inr (hkey h)))
    · exact (onDurable_within _).bind fun _ => onDurable_within _
  have hclean : Within Filed.work (insert sealedState (insert packedState (insert stateSnapshot S))) S (do
      onFiles (unlinkFile stateSnapshot)
      onFiles (unlinkFile packedState)
      onFiles (unlinkFile sealedState) : FiledStep β Unit) :=
    Within.write_bind (fun _ h => h.erase) (Within.write_bind (fun _ h => h.erase)
      ((onFiles_within unlinkFile_within).mono subset_rfl fun n hn =>
        ((hn.1.1.1.resolve_left hn.2).resolve_left hn.1.2).resolve_left hn.1.1.2))
  exact (hbody.mono (fun n hn => Or.inr (Or.inr (Or.inr hn))) subset_rfl).tryFinally hclean

/-- Whether the database of a `fetch` is restored, once its object is there. -/
def FetchFilesEnv.unpacks (identity : Str) (env : FetchFilesEnv) : Bool :=
  (env.decrypt.outcome identity "decrypt").toBool && env.read && decide (env.write = .done)

/-- What the bucket's side is given of a `fetch`. -/
def FetchFilesEnv.calls (identity : Str) (env : FetchFilesEnv) : FetchEnv where
  get := env.get
  unpack := env.unpacks identity
  list := env.list
  probe := env.probe

/-- The value `fetch` returns. -/
def Fetched.outcome : Fetched → FetchOutcome
  | .fresh => .fresh
  | .restored _ => .restored

/-- The local database after a `fetch` that returned. -/
def Fetched.file : Fetched → Option (WorkFile StateDb)
  | .fresh => none
  | .restored s => some (.plain s)

/-- The steps between the download and the clean-up. -/
theorem unpack_spec (env : FetchFilesEnv) (s : StateDb) :
    Triple (fun _ _ => True) (fun _ => True) (do
        onUnpack (decrypt identity env.decrypt s packedState)
        if env.read = false then Prog.fail .unpack
        else onUnpack (writeWork stateFile (.plain s) env.write))
      (fun _ d => env.unpacks identity = true ∧ d.get? stateFile = some (.plain s))
      (fun e _ => env.unpacks identity = false ∧ e = .unpack) := by
  unfold FetchFilesEnv.unpacks
  refine Triple.bind (M := fun _ _ => (env.decrypt.outcome identity "decrypt").toBool = true) ?_
    fun _ => ?_
  · refine Triple.zoom (fun _ => rfl) (fun _ _ _ _ => trivial) (fun d _ a ha => ?_) fun d _ e he => ?_
    · rw [decrypt_result] at ha
      rw [ha]
      rfl
    · rw [decrypt_result] at he
      rw [he]
      exact ⟨rfl, rfl⟩
  · split
    · rename_i hread
      exact Triple.fail fun d _ => ⟨by rw [hread]; simp, rfl⟩
    · rename_i hread
      refine Triple.pre fun d hd => ?_
      rw [hd, Bool.of_not_eq_false hread]
      cases env.write with
      | done => exact Triple.write fun t _ => ⟨trivial, rfl, by simp [Dict.get?_set]⟩
      | refused => exact Triple.fail fun _ _ => ⟨rfl, rfl⟩
      | torn =>
        exact Triple.zoom (fun _ => rfl) (fun _ _ _ _ => trivial) (fun _ _ _ h => by cases h)
          fun _ _ _ _ => ⟨rfl, rfl⟩

/-- **With its files, a `fetch` is the one of the bucket**, and it restores the database. -/
theorem fetchLocal_refines (env : FetchFilesEnv) (B : Bucket β) (d : WorkDir StateDb) :
    (fetchLocal C identity env B).result d = (fetchState C (env.calls identity) B).map Fetched.outcome ∧
      ∀ o, fetchState C (env.calls identity) B = .ok o →
        ((fetchLocal C identity env B).final d).get? stateFile = o.file := by
  have htriple : Triple (fun _ _ => True) (fun _ => True) (fetchLocal C identity env B)
      (fun a d => ∃ o, fetchState C (env.calls identity) B = .ok o ∧ a = o.outcome ∧
        d.get? stateFile = o.file)
      (fun e _ => fetchState C (env.calls identity) B = .error e) := by
    refine Triple.bind (M := fun _ d => d.get? stateFile = none)
      (Triple.write fun t _ => ⟨trivial, by simp [Dict.get?_erase]⟩) fun _ => ?_
    refine Triple.tryFinally (M := fun a d => ∃ o, fetchState C (env.calls identity) B = .ok o ∧
      a = o.outcome ∧ d.get? stateFile = o.file)
      (N := fun e _ => fetchState C (env.calls identity) B = .error e) ?_
      (fun a => Triple.write fun t ht => ⟨trivial, ?_⟩) fun e => Triple.write fun t he => ⟨trivial, he⟩
    · unfold fetchState FetchFilesEnv.calls
      dsimp only
      split
      · exact Triple.fail fun _ _ => rfl
      cases B.get? stateKey with
      | none =>
        dsimp only
        split
        · exact Triple.fail fun _ _ => rfl
        split
        · exact Triple.fail fun _ _ => rfl
        split
        · exact Triple.fail fun _ _ => rfl
        · exact Triple.pure fun t ht => ⟨.fresh, rfl, rfl, ht⟩
      | some blob =>
        refine Triple.bind (M := fun _ _ => True) (Triple.write fun _ _ => ⟨trivial, trivial⟩) fun _ => ?_
        refine Triple.bind (M := fun _ t => env.unpacks identity = true ∧
          t.get? stateFile = some (.plain (C.unpack blob))) ?_ fun _ => ?_
        · refine Triple.tryFinally ((unpack_spec env _).consequence (fun _ _ => trivial)
            (fun _ _ h => h) fun _ _ h => h) (fun _ => Triple.write fun t ht => ⟨trivial, ht.1, ?_⟩)
            fun e => Triple.write fun t he => ⟨trivial, ?_⟩
          · rw [Dict.get?_erase, if_neg (by decide)]
            exact ht.2
          · dsimp only
            rw [if_pos he.1, he.2]
        · refine Triple.pure fun t ht => ⟨.restored (C.unpack blob), ?_, rfl, ht.2⟩
          dsimp only
          rw [if_neg (by rw [ht.1]; exact Bool.noConfusion)]
    · obtain ⟨o, ho, ha, hfile⟩ := ht
      refine ⟨o, ho, ha, ?_⟩
      rw [Dict.get?_erase, if_neg (by decide)]
      exact hfile
  obtain ⟨-, hok, herr⟩ := htriple d trivial
  rw [Prog.result]
  cases hr : (fetchLocal C identity env B d).result with
  | ok a =>
    obtain ⟨o, ho, rfl, hfile⟩ := hok a hr
    rw [ho]
    refine ⟨rfl, fun o' ho' => ?_⟩
    cases ho'
    exact hfile
  | error e =>
    have he := herr e hr
    rw [he]
    exact ⟨rfl, fun o ho => by cases ho⟩

/-- The files of a `fetch` are gone with it, and the database stays. -/
theorem fetchLocal_within {env : FetchFilesEnv} {B : Bucket β} (hstate : stateFile ∈ S)
    (hkey : env.decrypt.key = .torn → ageKey ∈ S) :
    Within id S S (fetchLocal C identity env B) := by
  have hunpack : ∀ {p : Prog (WorkDir StateDb) CryptError Unit} {T : Set Str}, Within id T T p →
      Within id T T (onUnpack p) := fun h => h.zoom (fun _ => rfl) fun _ _ => rfl
  have herase : ∀ (d : WorkDir StateDb), Leaves S d → Leaves S (d.erase stateFile) := fun d h =>
    (Leaves.erase h).mono Set.sdiff_subset
  refine Within.write_bind herase ?_
  refine Within.tryFinally (T := insert sealedState S) ?_
    (unlinkFile_within.mono subset_rfl fun n hn => hn.1.resolve_left hn.2)
  refine Within.mono (S := insert sealedState S) ?_ (Set.subset_insert _ _) subset_rfl
  split
  · exact Within.fail
  cases B.get? stateKey with
  | none =>
    dsimp only
    split
    · exact Within.fail
    split
    · exact Within.fail
    split
    · exact Within.fail
    · exact Within.pure
  | some blob =>
    refine (writeFile_within (Or.inl rfl)).bind fun _ => Within.bind ?_ fun _ => Within.pure
    refine Within.mono (S := insert packedState (insert sealedState S)) (Within.tryFinally
      (T := insert packedState (insert sealedState S)) ?_ unlinkFile_within) (Set.subset_insert _ _)
      fun n hn => hn.1.resolve_left hn.2
    refine (hunpack (decrypt_within (Or.inl rfl) fun h => Or.inr (Or.inr (hkey h)))).bind fun _ => ?_
    split
    · exact Within.fail
    · exact hunpack (writeWork_within (Or.inr (Or.inr hstate)) _)

/-- **The files of `statefile.py` change nothing about its calls.** A push is `pushState`, a
`fetch` is `fetchState` and restores what it returns, and both leave no file but the database
and a key whose write was cut short. -/
theorem state_files_refine (C : Codec β) (identity label : Str) (push : PushEnv) (fetch : FetchFilesEnv)
    (B : Bucket β) (f : Filed β) (d : WorkDir StateDb) :
    Refines Filed.durable (pushFiles C identity label push) (pushState C label (push.store identity)) ∧
      Leaves ({n | f.work.get? n ≠ none} ∪ {n | n = ageKey ∧ push.encrypt.recipient.key = .torn})
        ((pushFiles C identity label push).final f).work ∧
      (fetchLocal C identity fetch B).result d =
        (fetchState C (fetch.calls identity) B).map Fetched.outcome ∧
      (∀ o, fetchState C (fetch.calls identity) B = .ok o →
        ((fetchLocal C identity fetch B).final d).get? stateFile = o.file) ∧
      Leaves ({n | d.get? n ≠ none} ∪ {n | n = ageKey ∧ fetch.decrypt.key = .torn} ∪ {stateFile})
        ((fetchLocal C identity fetch B).final d) := by
  set S : Set Str := {n | f.work.get? n ≠ none} ∪ {n | n = ageKey ∧ push.encrypt.recipient.key = .torn}
  set T : Set Str := {n | d.get? n ≠ none} ∪ {n | n = ageKey ∧ fetch.decrypt.key = .torn} ∪ {stateFile}
  have hpush : Within Filed.work S S (pushFiles C identity label push) :=
    pushFiles_within label fun h => Or.inr ⟨rfl, h⟩
  have hfetch : Within id T T (fetchLocal C identity fetch B) :=
    fetchLocal_within (Or.inr rfl) fun h => Or.inl (Or.inr ⟨rfl, h⟩)
  refine ⟨pushFiles_refines label push, hpush.leaves fun _ hn => Or.inl hn, ?_⟩
  have hleaves : Leaves T ((fetchLocal C identity fetch B).final d) :=
    hfetch.leaves fun _ hn => Or.inl (Or.inl hn)
  rw [← and_assoc]
  exact ⟨fetchLocal_refines fetch B d, hleaves⟩

end State

end DropboxMirror
