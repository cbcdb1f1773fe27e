import DropboxMirror.Proof.Provider

/-!
# The guard of the destination

A phase that changes something on Proton first asks `root_uid` for the folder it is about to
change. However the phase then goes on, and wherever it is killed, a row of a mutation stands
behind an observation of the UID that the configuration expects (`mutations_guarded`).

* `ByProvider`: the programs that reach the ledger through the provider alone.
* `Bookkept`: their rows are in the order of the calls, and only the last one may run.
-/

namespace DropboxMirror

open Text Crash

variable {U : Unicode} {cfg : ProtonConfig} {decode : Str → Option ListingJson} {α β γ : Type}
  {ops : Set String} {X Y L : Ledger} {new : List CommandRow}

/-- The rows a program adds to `commands`; it leaves the observations alone. -/
structure Ledger.Adds (ops : Set String) (X L : Ledger) (new : List CommandRow) : Prop where
  rows : L.commands.rows = X.commands.rows ++ new
  ids : new.map CommandRow.id = List.range' X.commands.nextKey new.length
  next : L.commands.nextKey = X.commands.nextKey + new.length
  phase : L.phaseRunId = X.phaseRunId
  ofPhase : ∀ r ∈ new, r.phaseRunId = X.phaseRunId ∧ r.operation ∈ ops
  observations : L.observations = X.observations

/-- Every call has ended. -/
def Ledger.Ended (ops : Set String) (X L : Ledger) : Prop :=
  ∃ new, X.Adds ops L new ∧ ∀ r ∈ new, r.exitCode.isSome

/-- Every call has ended, but for the last one. -/
def Ledger.Running (ops : Set String) (X L : Ledger) : Prop :=
  ∃ new, X.Adds ops L new ∧ ∀ r ∈ new.dropLast, r.exitCode.isSome

theorem Ledger.Ended.running (h : X.Ended ops L) : X.Running ops L := by
  obtain ⟨new, hadds, hended⟩ := h
  exact ⟨new, hadds, fun r hr => hended r (List.mem_of_mem_dropLast hr)⟩

theorem Ledger.Ended.refl (X : Ledger) : X.Ended ops X :=
  ⟨[], ⟨(List.append_nil _).symm, rfl, rfl, rfl, fun r hr => (by cases hr), rfl⟩,
    fun r hr => (by cases hr)⟩

/-- One more row. -/
theorem Ledger.Adds.upsert (h : X.Adds ops Y new) {r : CommandRow} (hid : r.id = Y.commands.nextKey)
    (hphase : r.phaseRunId = Y.phaseRunId) (hop : r.operation ∈ ops)
    (hL : L.commands = Y.commands.upsert Table.ignore r) (hrun : L.phaseRunId = Y.phaseRunId)
    (hobs : L.observations = Y.observations) : X.Adds ops L (new ++ [r]) where
  rows := by rw [hL, Table.rows_upsert_next hid, h.rows, List.append_assoc]
  ids := by
    rw [List.map_append, h.ids, List.length_append, List.length_singleton, List.range'_concat,
      List.map_singleton, hid, h.next, Nat.one_mul]
  next := by
    rw [hL, Table.nextKey_upsert_next hid, h.next, List.length_append, List.length_singleton,
      Nat.add_assoc]
  phase := hrun.trans h.phase
  ofPhase := by
    intro q hq
    rcases List.mem_append.1 hq with hq | hq
    · exact h.ofPhase q hq
    · rw [List.mem_singleton.1 hq]
      exact ⟨hphase.trans h.phase, hop⟩
  observations := hobs.trans h.observations

section Rows

variable {operation : String} {argv : List Str} {n : ℕ} {a : CliAttempt}

theorem Ledger.Ended.opened (h : X.Ended ops Y) (hop : operation ∈ ops) :
    X.Running ops (Y.opened operation argv n) := by
  obtain ⟨new, hadds, hended⟩ := h
  refine ⟨_, hadds.upsert rfl rfl hop rfl rfl rfl, fun r hr => hended r ?_⟩
  rwa [List.dropLast_concat] at hr

theorem Ledger.Ended.closed (h : X.Ended ops Y) (hop : operation ∈ ops) :
    X.Ended ops (Y.closed operation a) := by
  obtain ⟨new, hadds, hended⟩ := h
  refine ⟨_, hadds.upsert rfl rfl hop rfl rfl rfl, fun r hr => ?_⟩
  rcases List.mem_append.1 hr with hr | hr
  · exact hended r hr
  · rw [List.mem_singleton.1 hr]
    rfl

/-- What is logged and the waits are no rows. -/
theorem Ledger.Ended.same (h : X.Ended ops Y) (hcommands : L.commands = Y.commands)
    (hphase : L.phaseRunId = Y.phaseRunId) (hobs : L.observations = Y.observations) : X.Ended ops L := by
  obtain ⟨new, hadds, hended⟩ := h
  exact ⟨new, ⟨by rw [hcommands, hadds.rows], hadds.ids, by rw [hcommands, hadds.next],
    hphase.trans hadds.phase, hadds.ofPhase, hobs.trans hadds.observations⟩, hended⟩

theorem Ledger.Ended.recorded {o : Observer} (h : X.Ended ops Y) (hop : o.operation ∈ ops) :
    X.Ended ops (Y.recorded o a) := (h.closed hop).same rfl rfl rfl

theorem Ledger.Ended.waited (h : X.Ended ops Y) (waits : List ℚ) : X.Ended ops (Y.waited waits) :=
  h.same rfl rfl rfl

theorem Ledger.Ended.watched {o : Option Observer} (h : X.Ended ops Y)
    (hop : ∀ o', o = some o' → o'.operation ∈ ops) (made : List CliAttempt) :
    X.Ended ops (Y.watched o made) := by
  induction made using List.reverseRecOn with
  | nil =>
    cases o <;> exact h
  | append_singleton made a ih =>
    rw [watched_append]
    cases o with
    | none => exact ih
    | some o => exact ih.recorded (hop o rfl)

end Rows

/-- The errors that a phase may catch: a `ProtonCLIError`. -/
def CliError.IsCli (e : CliError) : Prop := e ≠ .run ∧ e ≠ .writeback

instance (e : CliError) : Decidable e.IsCli := by unfold CliError.IsCli; infer_instance

/-- **The books of a program**: its rows follow each other in the order of its calls, and only
the last one may run; all have ended when it returns, or raises a `ProtonCLIError`. -/
def Bookkept (ops : Set String) (p : CliStep α) : Prop :=
  ∀ X : Ledger, Triple (fun _ L => X.Running ops L) (fun L => X.Ended ops L) p (fun _ L => X.Ended ops L)
    (fun e L => X.Running ops L ∧ (e.IsCli → X.Ended ops L))

namespace Bookkept

variable {p : CliStep α} {f : α → CliStep β}

theorem pure (a : α) : Bookkept ops (Pure.pure a : CliStep α) := fun _ => Triple.pure fun _ h => h

theorem fail (e : CliError) : Bookkept ops (Prog.fail e : CliStep α) := fun _ =>
  Triple.fail fun _ h => ⟨h.running, fun _ => h⟩

theorem bind (hp : Bookkept ops p) (hf : ∀ a, Bookkept ops (f a)) : Bookkept ops (p >>= f) :=
  fun X => (hp X).bind fun a => hf a X

theorem foldlM {f : β → α → CliStep β} (hf : ∀ b x, Bookkept ops (f b x)) (xs : List α) (b : β) :
    Bookkept ops (xs.foldlM f b : CliStep β) := fun X =>
  Triple.foldlM (fun _ _ L => X.Ended ops L) xs b fun _ x _ _ b => hf b x X

/-- `except ProtonCLIError`. -/
theorem caught {handler : CliError → CliStep α} (hp : Bookkept ops p)
    (hh : ∀ e, Bookkept ops (handler e)) :
    Bookkept ops (p.catchError fun e => if e.IsCli then handler e else Prog.fail e) := by
  intro X
  refine (hp X).catchError fun e => ?_
  split
  · rename_i he
    exact (hh e X).consequence (fun L hL => hL.2 he) (fun _ _ h => h) fun _ _ h => h
  · exact Triple.fail fun L hL => hL

theorem logCall (call : LogCall) : Bookkept ops (logCall call) := fun X =>
  Triple.write fun L h => by
    have hsame : X.Ended ops { L with log := L.log ++ [call] } := h.same rfl rfl rfl
    exact ⟨hsame.running, hsame⟩

theorem logAttempt (phase operation : String) (record : CliAttempt) :
    Bookkept ops (logAttempt phase operation record) := by
  unfold DropboxMirror.logAttempt
  split
  · exact Bookkept.pure ()
  · exact Bookkept.logCall _

end Bookkept

section Calls

variable {phase operation : String} {argv : List Str} {attempts : ℕ} {calls : ℕ → CliCall}
  {writeback : Bool}

theorem invoke_bookkept {o : Option Observer} (hop : ∀ o', o = some o' → o'.operation ∈ ops) :
    Bookkept ops (invoke U cfg argv attempts writeback o calls) := by
  intro X
  unfold invoke
  refine Triple.bind (M := fun _ L => X.Ended ops L) ?_ fun r => by
    cases r <;> exact Triple.pure fun _ h => h
  refine Triple.retry (fun _ _ L => X.Ended ops L) attempts 1 _ (fun n d _ _ => ?_) fun _ _ h => h
  have hseen : ∀ n, (calls n).seen writeback = seenBy writeback calls n := fun _ => rfl
  refine Triple.pre fun Y hY => ?_
  refine (invokeAttempt_triple (hseen n) (fun o' ho => hY.opened (hop o' ho))
    (fun o' ho => (hY.closed (hop o' ho)).running) (hY.watched hop _).running
    ((hY.watched hop _).waited _).running).consequence (fun _ h => h) (fun r L h => ?_) fun e L h => ?_
  · obtain ⟨-, hdone, hagain⟩ := h
    refine ⟨fun x hx => ?_, fun d' hd => ?_⟩
    · rw [(hdone x.1 x.2 hx).2.1]
      exact hY.watched hop _
    · rw [(hagain d'.1 d'.2 hd).2.2.1]
      exact (hY.watched hop _).waited _
  · -- the row of the attempt that raised stays open
    obtain ⟨rfl, hwhy⟩ := h
    refine ⟨?_, fun hcli => ?_⟩
    · cases o with
      | none => exact hY.running
      | some o => exact hY.opened (hop o rfl)
    · rcases hwhy with ⟨rfl, -⟩ | ⟨rfl, -⟩
      · exact absurd rfl hcli.2
      · exact absurd rfl hcli.1

theorem parseOutput_bookkept {decode : Str → Option γ} {stdout : Option Str} {made : List CliAttempt} :
    Bookkept ops (parseOutput decode operation stdout made) := by
  unfold parseOutput
  split
  · split <;> exact Bookkept.fail _
  · split
    · exact Bookkept.fail _
    · exact Bookkept.pure _

theorem jsonCommand_bookkept (U : Unicode) (cfg : ProtonConfig) (decode : Str → Option γ)
    (phase : String) (argv : List Str) (attempts : ℕ) (calls : ℕ → CliCall) (hop : operation ∈ ops) :
    Bookkept ops (jsonCommand U cfg decode phase operation argv attempts calls) :=
  (invoke_bookkept fun o' ho => by cases ho; exact hop).bind fun _ => parseOutput_bookkept

theorem recordAttempts_bookkept {records : List CliAttempt} (hop : operation ∈ ops) :
    Bookkept ops (recordAttempts phase operation records) := by
  refine Bookkept.foldlM (fun _ a X => ?_) records ()
  refine Triple.pre fun Y hY => (startCommand_triple (hY.opened hop)).bind fun id =>
    Triple.pre fun Z hZ => ?_
  obtain ⟨rfl, rfl⟩ := hZ
  refine (endCommand_triple (hY.closed hop).running).bind fun _ => ?_
  exact (Bookkept.logAttempt phase operation a X).consequence
    (fun L hL => hL ▸ hY.closed hop) (fun _ _ h => h) fun _ _ h => h

theorem listingArray_bookkept (result : ListingJson) : Bookkept ops (listingArray result) := by
  cases result with
  | none => exact Bookkept.fail _
  | some entries => exact Bookkept.pure _

theorem workerListing_bookkept (U : Unicode) (cfg : ProtonConfig) (decode : Str → Option ListingJson)
    (path : Str) (phase : String) (calls : ℕ → CliCall) (hop : "filesystem_list" ∈ ops) :
    Bookkept ops (workerListing U cfg decode path phase calls) := by
  refine (invoke_bookkept fun o' ho => by cases ho).bind fun r =>
    (recordAttempts_bookkept hop).bind fun _ => ?_
  unfold collectListing
  split
  · exact Bookkept.pure _
  · exact parseOutput_bookkept.bind fun _ => (listingArray_bookkept _).bind fun _ => Bookkept.pure _

theorem mutation_bookkept {accepted : List ℤ} {call : CliCall} (hop : operation ∈ ops) :
    Bookkept ops (mutation U cfg phase operation argv accepted call) := by
  intro X
  unfold mutation
  refine Triple.pre fun Y hY => (startCommand_triple (hY.opened hop)).bind fun id =>
    Triple.pre fun Z hZ => ?_
  obtain ⟨rfl, rfl⟩ := hZ
  have hrunning : X.Running ops (Y.opened operation argv 1) := hY.opened hop
  refine Triple.bind ((runCli_triple (X := Y.opened operation argv 1)).consequence (fun _ h => h)
    (fun _ _ h => h) fun e L he => ?_) fun reply => Triple.pre fun Z hZ => ?_
  · obtain ⟨rfl, hwhy⟩ := he
    refine ⟨hrunning, fun hcli => ?_⟩
    rcases hwhy with ⟨rfl, -⟩ | ⟨rfl, -⟩
    · exact absurd rfl hcli.2
    · exact absurd rfl hcli.1
  obtain ⟨rfl, -, -⟩ := hZ
  have hend : ∀ code category, Triple (fun _ L => X.Running ops L)
      (fun L => L = Y.opened operation argv 1) (endCommand Y.commands.nextKey code category)
      (fun _ L => X.Ended ops L) (fun e L => X.Running ops L ∧ (e.IsCli → X.Ended ops L)) :=
    fun code category => by
      have hclosed : X.Ended ops (Y.closed operation ⟨argv, 1, code, category, [], []⟩) := hY.closed hop
      exact (endCommand_triple hclosed.running).consequence (fun _ h => h)
        (fun _ L hL => hL ▸ hclosed) fun _ _ h => h
  cases reply with
  | exited code stdout stderr =>
    refine (hend code _).bind fun _ => ?_
    split
    · exact ((Bookkept.logCall _).bind fun _ => Bookkept.fail _) X
    · split
      · exact ((Bookkept.logCall _).bind fun _ => Bookkept.pure _) X
      · exact Bookkept.pure _ X
  | timedOut stderr =>
    exact (hend (-1) _).bind fun _ => ((Bookkept.logCall _).bind fun _ => Bookkept.fail _) X
  | raised => exact Triple.fail fun L hL => ⟨hL ▸ hrunning, fun hcli => absurd rfl hcli.1⟩

end Calls

/-- The operations that change something on Proton. -/
def mutationOperations : Set String := {"upload", "trash", "empty_trash"}

/-- The operations of a phase behind the guard. -/
def phaseOperations : Set String := insert "filesystem_list" mutationOperations

/-- **The programs that reach the ledger through the provider alone**: what a phase does with
Proton once the guard has let it through. A phase may catch a `ProtonCLIError`. -/
inductive ByProvider (U : Unicode) (cfg : ProtonConfig) : {α : Type} → CliStep α → Prop
  | pure {α : Type} (a : α) : ByProvider U cfg (Pure.pure a)
  | fail {α : Type} (e : CliError) : ByProvider U cfg (Prog.fail e : CliStep α)
  | bind {α β : Type} {p : CliStep α} {f : α → CliStep β} (hp : ByProvider U cfg p)
      (hf : ∀ a, ByProvider U cfg (f a)) : ByProvider U cfg (p >>= f)
  | caught {α : Type} {p : CliStep α} {handler : CliError → CliStep α} (hp : ByProvider U cfg p)
      (hh : ∀ e, ByProvider U cfg (handler e)) :
      ByProvider U cfg (p.catchError fun e => if e.IsCli then handler e else Prog.fail e)
  | log (call : LogCall) : ByProvider U cfg (logCall call)
  | list (decode : Str → Option ListingJson) (path : Str) (phase : String) (calls : ℕ → CliCall) :
      ByProvider U cfg (listFolder U cfg decode path phase calls)
  | worker (decode : Str → Option ListingJson) (path : Str) (phase : String) (calls : ℕ → CliCall) :
      ByProvider U cfg (workerListing U cfg decode path phase calls)
  | upload (sources : List Str) (destination : Str) (phase : String) (call : CliCall) :
      ByProvider U cfg (uploadTree U cfg sources destination phase call)
  | trash (cliPaths : List Str) (phase : String) (call : CliCall) :
      ByProvider U cfg (trashNodes U cfg cliPaths phase call)
  | emptyTrash (phase : String) (call : CliCall) : ByProvider U cfg (emptyTrash U cfg phase call)

/-- **The books of a phase.** -/
theorem byProvider_bookkept {p : CliStep α} (h : ByProvider U cfg p) : Bookkept phaseOperations p := by
  have hupload : "upload" ∈ phaseOperations := by simp [phaseOperations, mutationOperations]
  have htrash : "trash" ∈ phaseOperations := by simp [phaseOperations, mutationOperations]
  have hempty : "empty_trash" ∈ phaseOperations := by simp [phaseOperations, mutationOperations]
  have hlist : "filesystem_list" ∈ phaseOperations := by simp [phaseOperations]
  induction h with
  | pure a => exact Bookkept.pure a
  | fail e => exact Bookkept.fail e
  | bind _ _ ihp ihf => exact ihp.bind ihf
  | caught _ _ ihp ihh => exact ihp.caught ihh
  | log call => exact Bookkept.logCall call
  | list decode path phase calls =>
    exact (jsonCommand_bookkept U cfg decode phase _ _ calls hlist).bind listingArray_bookkept
  | worker decode path phase calls => exact workerListing_bookkept U cfg decode path phase calls hlist
  | upload sources destination phase call => exact mutation_bookkept hupload
  | trash cliPaths phase call =>
    unfold trashNodes
    split
    · exact Bookkept.pure ()
    · exact (mutation_bookkept htrash).bind fun _ => Bookkept.pure ()
  | emptyTrash phase call => exact (mutation_bookkept hempty).bind fun _ => Bookkept.pure ()

section Destination

variable {phase : String} {calls : ℕ → CliCall}

/-- The call of `root_uid`. -/
def parentArgv (cfg : ProtonConfig) (parentPath : Str) : List Str :=
  [cfg.executable, "filesystem".toList, "list".toList, "-j".toList, parentPath]

/-- The parent of the destination lists one entry of its name: a folder with the expected UID. -/
def DestinationFound (U : Unicode) (cfg : ProtonConfig) (decode : Str → Option ListingJson)
    (calls : ℕ → CliCall) : Prop :=
  ∃ parentPath name, splitParentPath cfg.destination = .ok (parentPath, name) ∧
    ∃ k < cfg.listMaxAttempts,
      (attemptAt U (parentArgv cfg parentPath) (seenBy true calls) (k + 1)).category = successCategory ∧
      ∃ entries node,
        decode (attemptAt U (parentArgv cfg parentPath) (seenBy true calls) (k + 1)).stdout =
          some (some entries) ∧
        nameMatches name entries = [node] ∧ node.type = some "folder".toList ∧
        node.uid.join.getD [] = cfg.expectedDestinationUid

/-- The ledger with what `root_uid` observed. -/
def Ledger.checked (cfg : ProtonConfig) (phase : String) (Y : Ledger) (observed : Str) : Ledger :=
  { Y with
    observations := Y.observations.upsert Table.ignore
      ⟨Y.observations.nextKey, Y.phaseRunId, "proton", phase, cfg.expectedDestinationUid, observed,
        decide (observed = cfg.expectedDestinationUid)⟩ }

theorem checked_rows (cfg : ProtonConfig) (phase : String) (Y : Ledger) (observed : Str) :
    (Y.checked cfg phase observed).observations.rows =
    Y.observations.rows ++ [⟨Y.observations.nextKey, Y.phaseRunId, "proton", phase,
      cfg.expectedDestinationUid, observed, decide (observed = cfg.expectedDestinationUid)⟩] :=
  Table.rows_upsert_next rfl

/-- The operation of `root_uid`. -/
def guardOperations : Set String := {"filesystem_list_destination_parent"}

/-- **What the guard does**: it returns only where it has found the destination, and observed it. -/
theorem rootUidCheck_triple (U : Unicode) (cfg : ProtonConfig) (decode : Str → Option ListingJson)
    (phase : String) (calls : ℕ → CliCall) (X : Ledger) :
    Triple (fun _ L => X.Running guardOperations L ∨
        ∃ Y observed, X.Ended guardOperations Y ∧ L = Y.checked cfg phase observed)
      (fun L => L = X) (rootUidCheck U cfg decode phase calls)
      (fun uid L => uid = cfg.expectedDestinationUid ∧ DestinationFound U cfg decode calls ∧
        ∃ Y, X.Ended guardOperations Y ∧ L = Y.checked cfg phase uid)
      (fun _ _ => True) := by
  unfold rootUidCheck
  cases hsplit : splitParentPath cfg.destination with
  | error e => exact Triple.fail fun _ _ => trivial
  | ok parts =>
    obtain ⟨parentPath, name⟩ := parts
    dsimp only
    have hop : "filesystem_list_destination_parent" ∈ guardOperations := rfl
    have hbooks := jsonCommand_bookkept U cfg decode phase (parentArgv cfg parentPath)
      cfg.listMaxAttempts calls hop X
    have hlisted := jsonCommand_triple U cfg decode phase "filesystem_list_destination_parent"
      (parentArgv cfg parentPath) cfg.listMaxAttempts calls X
    refine Triple.bind (((hbooks.consequence
      (fun L (hL : L = X) => by rw [hL]; exact Ledger.Ended.refl X) (fun _ _ h => h)
      fun _ _ h => h).conj hlisted).mono (fun _ _ h => Or.inl h) |>.consequence (fun _ h => h)
        (fun _ _ h => h) fun _ _ _ => trivial) fun listing => Triple.pre fun Y hY => ?_
    obtain ⟨hended, k, hk, -, hsuccess, hdecode⟩ := hY
    cases listing with
    | none => exact Triple.fail fun _ _ => trivial
    | some entries =>
      dsimp only
      split
      · rename_i node hone
        split
        · exact Triple.fail fun _ _ => trivial
        · rename_i htype
          -- one folder of the name: its UID is observed, whatever it is
          refine Triple.bind (M := fun _ L => L = Y.checked cfg phase (node.uid.join.getD []))
            (Triple.write fun L hL => ?_) fun _ => ?_
          · subst hL
            exact ⟨Or.inr ⟨L, _, hended, rfl⟩, rfl⟩
          · split
            · rename_i hmatch
              rw [decide_eq_true_eq] at hmatch
              refine Triple.pure fun L hL => ⟨hmatch, ⟨parentPath, name, hsplit, k, hk, hsuccess, entries,
                node, hdecode, hone, not_not.1 htype, hmatch⟩, Y, hended, hL⟩
            · exact Triple.fail fun _ _ => trivial
      · exact Triple.fail fun _ _ => trivial

/-- The books of a guarded phase: the rows of the guard, then those of the phase. -/
structure GuardedBooks (U : Unicode) (cfg : ProtonConfig) (decode : Str → Option ListingJson)
    (phase : String) (calls : ℕ → CliCall) (X L : Ledger) (new : List CommandRow)
    (seen : List IdentityObservation) : Prop where
  rows : L.commands.rows = X.commands.rows ++ new
  ids : new.map CommandRow.id = List.range' X.commands.nextKey new.length
  ended : ∀ r ∈ new.dropLast, r.exitCode.isSome
  ofPhase : ∀ r ∈ new, r.phaseRunId = X.phaseRunId
  observations : L.observations.rows = X.observations.rows ++ seen
  guarded : (∃ r ∈ new, r.operation ∈ mutationOperations) → DestinationFound U cfg decode calls ∧
    ∃ o ∈ seen, o.operation = phase ∧ o.phaseRunId = X.phaseRunId ∧ o.matched = true ∧
      o.observedIdentifier = cfg.expectedDestinationUid

theorem not_mutation_of_guard {r : CommandRow} (h : r.operation ∈ guardOperations) :
    r.operation ∉ mutationOperations := by
  rw [Set.mem_singleton_iff.1 h]
  simp [mutationOperations]

/-- Before the guard has returned, nothing has changed. -/
theorem guardedBooks_of_guard {seen : List IdentityObservation} (h : X.Adds guardOperations Y new)
    (hended : ∀ r ∈ new.dropLast, r.exitCode.isSome) (hcommands : L.commands = Y.commands)
    (hobs : L.observations.rows = X.observations.rows ++ seen) :
    GuardedBooks U cfg decode phase calls X L new seen where
  rows := by rw [hcommands, h.rows]
  ids := h.ids
  ended := hended
  ofPhase := fun r hr => (h.ofPhase r hr).1
  observations := hobs
  guarded := fun ⟨r, hr, hmutation⟩ => absurd hmutation (not_mutation_of_guard (h.ofPhase r hr).2)

/-- The rows of the phase follow those of the guard. -/
theorem guardedBooks_of_phase {later : List CommandRow} {uid : Str}
    (hguard : X.Adds guardOperations Y new) (hended : ∀ r ∈ new, r.exitCode.isSome)
    (hphase : (Y.checked cfg phase uid).Adds ops L later)
    (hlater : ∀ r ∈ later.dropLast, r.exitCode.isSome) (huid : uid = cfg.expectedDestinationUid)
    (hfound : DestinationFound U cfg decode calls) :
    GuardedBooks U cfg decode phase calls X L (new ++ later)
      [⟨X.observations.nextKey, X.phaseRunId, "proton", phase, cfg.expectedDestinationUid, uid, true⟩] where
  rows := by rw [hphase.rows, Ledger.checked, hguard.rows, List.append_assoc]
  ids := by
    have hlaterIds := hphase.ids
    rw [Ledger.checked, hguard.next] at hlaterIds
    rw [List.map_append, hguard.ids, hlaterIds, List.length_append, List.range'_append_1]
  ended := by
    intro r hr
    cases hl : later with
    | nil =>
      rw [hl, List.append_nil] at hr
      exact hended r (List.mem_of_mem_dropLast hr)
    | cons q qs =>
      rw [List.dropLast_append_of_ne_nil (by rw [hl]; exact List.cons_ne_nil q qs)] at hr
      rcases List.mem_append.1 hr with hr | hr
      · exact hended r hr
      · exact hlater r hr
  ofPhase := by
    intro r hr
    rcases List.mem_append.1 hr with hr | hr
    · exact (hguard.ofPhase r hr).1
    · exact (hphase.ofPhase r hr).1.trans hguard.phase
  observations := by
    rw [hphase.observations, checked_rows, hguard.observations, hguard.phase, decide_eq_true huid]
  guarded := fun _ => ⟨hfound, _, List.mem_singleton_self _, rfl, rfl, rfl, huid⟩

/-- **Nothing changes on Proton but behind the guard.** Wherever a phase is killed, the rows of
its calls are in order and at most the last one runs. A row of a mutation stands behind a listing
of the destination's parent with one entry of its name, a folder with the expected UID, and
behind the observation of it. -/
theorem mutations_guarded {f : Str → CliStep α} (hf : ∀ uid, ByProvider U cfg (f uid))
    (decode : Str → Option ListingJson) (phase : String) (calls : ℕ → CliCall) (X : Ledger) :
    ∀ L ∈ ((rootUidCheck U cfg decode phase calls >>= f) X).states,
      ∃ new seen, GuardedBooks U cfg decode phase calls X L new seen := by
  have htriple : Triple (fun _ L => ∃ new seen, GuardedBooks U cfg decode phase calls X L new seen)
      (fun L => L = X) (rootUidCheck U cfg decode phase calls >>= f) (fun _ _ => True)
      (fun _ _ => True) := by
    refine Triple.bind ((rootUidCheck_triple U cfg decode phase calls X).mono fun _ L hL => ?_)
      fun uid => Triple.pre fun Z hZ => ?_
    · rcases hL with ⟨new, hadds, hended⟩ | ⟨Y, observed, ⟨new, hadds, hended⟩, rfl⟩
      · exact ⟨new, [], guardedBooks_of_guard hadds hended rfl
          (by rw [hadds.observations, List.append_nil])⟩
      · have hseen := checked_rows cfg phase Y observed
        rw [hadds.observations] at hseen
        exact ⟨new, _, guardedBooks_of_guard hadds
          (fun r hr => hended r (List.mem_of_mem_dropLast hr)) rfl hseen⟩
    · obtain ⟨huid, hfound, Y, ⟨new, hadds, hended⟩, rfl⟩ := hZ
      refine ((byProvider_bookkept (hf uid) (Y.checked cfg phase uid)).mono fun _ L hL => ?_).consequence
        (fun L hL => ?_) (fun _ _ _ => trivial) fun _ _ _ => trivial
      · obtain ⟨later, hlater, hlaterEnded⟩ := hL
        exact ⟨_, _, guardedBooks_of_phase hadds hended hlater hlaterEnded huid hfound⟩
      · rw [hL]
        exact Ledger.Ended.refl _
  exact fun L hL => htriple.states rfl L hL

theorem mutations_guarded_emptied :
    (∀ L ∈ (emptyTrashPhase Unicode.latin patientConfig mirrorListing true rateLimitedCalls
        ⟨.exited 0 [] [], .done⟩ freshLedger).states, ∃ new seen,
      GuardedBooks Unicode.latin patientConfig mirrorListing "80_empty_trash" rateLimitedCalls
        freshLedger L new seen) ∧
    ((emptyTrashPhase Unicode.latin patientConfig mirrorListing true rateLimitedCalls
        ⟨.exited 0 [] [], .done⟩).final freshLedger).commands.rows.map CommandRow.exitCode =
      [some (-1), some 1, some 0, some 0] := by
  have hphase : ∀ uid : Str, ByProvider Unicode.latin patientConfig (do
      let _ := uid
      emptyTrash Unicode.latin patientConfig "80_empty_trash" ⟨.exited 0 [] [], .done⟩
      logCall ⟨.info, "80_empty_trash", "gate", "Proton trash emptied by operator request".toList, none,
        none, none⟩
      return EmptyTrashOutputs.emptied) := fun uid =>
    (ByProvider.emptyTrash _ _).bind fun _ => (ByProvider.log _).bind fun _ => ByProvider.pure _
  exact ⟨mutations_guarded hphase mirrorListing "80_empty_trash" rateLimitedCalls freshLedger,
    by decide +kernel⟩

end Destination

end DropboxMirror
