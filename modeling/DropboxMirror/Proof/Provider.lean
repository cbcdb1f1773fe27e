import DropboxMirror.Model.Provider

/-!
# The ledger of the Proton CLI

What the calls of the provider leave in the tables. The rows of a retried command are its
attempts in order, each ended but the one that a kill or an exception cut short
(`json_command_ledger`), and a listing that a worker made is recorded as one made on the main
thread (`worker_listing_agrees`).
-/

namespace DropboxMirror

open Text Crash

variable {U : Unicode} {cfg : ProtonConfig} {argv : List Str} {calls : ℕ → CliCall}
  {replies : ℕ → CliReply} {L X : Ledger}

/-- The ledger with a row of a call that runs. -/
def Ledger.opened (X : Ledger) (operation : String) (argv : List Str) (attempt : ℕ) : Ledger :=
  { X with
    commands := X.commands.upsert Table.ignore
      ⟨X.commands.nextKey, X.phaseRunId, "proton", operation, argv, attempt, none, none⟩ }

/-- The ledger with the row of an attempt that ended. -/
def Ledger.closed (X : Ledger) (operation : String) (a : CliAttempt) : Ledger :=
  { X with
    commands := X.commands.upsert Table.ignore
      ⟨X.commands.nextKey, X.phaseRunId, "proton", operation, a.argv, a.attempt, some a.returncode,
        some a.category⟩ }

/-- The ledger with an attempt and what is logged of it. -/
def Ledger.recorded (o : Observer) (X : Ledger) (a : CliAttempt) : Ledger :=
  { X.closed o.operation a with log := X.log ++ (attemptLog o.phase o.operation a).toList }

/-- The end of the call that was opened last. -/
theorem endCommand_opened (operation : String) (a : CliAttempt) :
    endCommand X.commands.nextKey a.returncode a.category (X.opened operation a.argv a.attempt) =
      ⟨[X.closed operation a], .ok ()⟩ := by
  have hmodify := Table.modify_upsert_next (m := Table.ignore) (t := X.commands)
    (r := ⟨X.commands.nextKey, X.phaseRunId, "proton", operation, a.argv, a.attempt, none, none⟩) rfl
    (fun r => { r with exitCode := some a.returncode, responseCategory := some a.category }) rfl
    fun x => by split <;> rfl
  unfold endCommand Prog.write Ledger.opened Ledger.closed
  dsimp only
  rw [hmodify]

section Record

variable {I : Ledger → Prop} {E : CliError → Ledger → Prop}

theorem startCommand_triple {operation : String} {n : ℕ} (hI : I (X.opened operation argv n)) :
    Triple (fun _ L => I L) (fun L => L = X) (startCommand operation argv n)
      (fun id L => id = X.commands.nextKey ∧ L = X.opened operation argv n) E := by
  unfold startCommand
  refine Triple.get_bind fun l hl => ?_
  subst hl
  refine Triple.bind (M := fun _ L => L = l.opened operation argv n)
    (Triple.write fun s hs => ?_) fun _ => Triple.pure fun s hs => ⟨rfl, hs⟩
  rw [hs]
  exact ⟨hI, rfl⟩

theorem endCommand_triple {operation : String} {a : CliAttempt} (hI : I (X.closed operation a)) :
    Triple (fun _ L => I L) (fun L => L = X.opened operation a.argv a.attempt)
      (endCommand X.commands.nextKey a.returncode a.category) (fun _ L => L = X.closed operation a) E := by
  rintro L rfl
  have hend := endCommand_opened (X := X) operation a
  rw [Prog.final, hend]
  exact ⟨List.isChain_pair.2 hI, fun _ _ => rfl, fun e he => by cases he⟩

/-- What `subprocess.run` and the write-back come to. -/
theorem runCli_triple {R : Ledger → Ledger → Prop} {writeback : Bool} {call : CliCall} :
    Triple R (fun L => L = X) (runCli writeback call)
      (fun reply L => L = X ∧ reply = call.seen writeback ∧ call.seen writeback ≠ .raised)
      (fun e L => L = X ∧ (e = .writeback ∧ writeback = true ∧ call.written = .raised ∨
        e = .run ∧ call.seen writeback = .raised)) := by
  unfold runCli
  split
  · rename_i hw
    exact Triple.fail fun s hs => ⟨hs, Or.inl ⟨rfl, hw⟩⟩
  · cases hr : call.seen writeback with
    | raised => exact Triple.fail fun s hs => ⟨hs, Or.inr ⟨rfl, rfl⟩⟩
    | exited code stdout stderr => exact Triple.pure fun s hs => ⟨hs, rfl, CliReply.noConfusion⟩
    | timedOut stderr => exact Triple.pure fun s hs => ⟨hs, rfl, CliReply.noConfusion⟩

theorem logAttempt_triple {o : Observer} {a : CliAttempt} (hI : I (X.recorded o a)) :
    Triple (fun _ L => I L) (fun L => L = X.closed o.operation a) (logAttempt o.phase o.operation a)
      (fun _ L => L = X.recorded o a) E := by
  unfold logAttempt Ledger.recorded
  cases hlog : attemptLog o.phase o.operation a with
  | none =>
    refine Triple.pure fun s hs => ?_
    rw [hs, Option.toList_none, List.append_nil]
    rfl
  | some call =>
    refine Triple.write fun s hs => ?_
    rw [hs]
    rw [Ledger.recorded, hlog] at hI
    exact ⟨hI, rfl⟩

end Record

/-- Attempt `n` of a command, as its record has it. -/
def attemptAt (U : Unicode) (argv : List Str) (replies : ℕ → CliReply) (n : ℕ) : CliAttempt :=
  attemptRecord U argv n (replies n)

@[simp] theorem attemptAt_argv (n : ℕ) : (attemptAt U argv replies n).argv = argv := by
  unfold attemptAt attemptRecord
  split <;> rfl

@[simp] theorem attemptAt_attempt (n : ℕ) : (attemptAt U argv replies n).attempt = n := by
  unfold attemptAt attemptRecord
  split <;> rfl

/-- The first attempts. -/
def attemptsMade (U : Unicode) (argv : List Str) (replies : ℕ → CliReply) (k : ℕ) : List CliAttempt :=
  (List.range k).map fun i => attemptAt U argv replies (i + 1)

/-- An attempt another one may follow. -/
def CliAttempt.Retryable (a : CliAttempt) : Prop :=
  a.category ≠ successCategory ∧ a.category ≠ authCategory

theorem attemptsMade_succ (k : ℕ) : attemptsMade U argv replies (k + 1) =
    attemptsMade U argv replies k ++ [attemptAt U argv replies (k + 1)] := by
  rw [attemptsMade, List.range_succ, List.map_append]
  rfl

/-- The ledger with the call under way, where it is observed. -/
def Ledger.openedBy (o : Option Observer) (X : Ledger) (argv : List Str) (n : ℕ) : Ledger :=
  match o with
  | none => X
  | some o => X.opened o.operation argv n

/-- The ledger with the attempts, where they are observed. -/
def Ledger.watched (o : Option Observer) (X : Ledger) (made : List CliAttempt) : Ledger :=
  match o with
  | none => X
  | some o => made.foldl (Ledger.recorded o) X

/-- The ledger with more waits. -/
def Ledger.waited (X : Ledger) (waits : List ℚ) : Ledger := { X with slept := X.slept ++ waits }

theorem waited_watched (o : Option Observer) (X : Ledger) (a : CliAttempt) (waits : List ℚ) :
    (X.waited waits).watched o [a] = (X.watched o [a]).waited waits := by
  cases o <;> rfl

theorem watched_append (o : Option Observer) (X : Ledger) (made : List CliAttempt) (a : CliAttempt) :
    X.watched o (made ++ [a]) = (X.watched o made).watched o [a] := by
  cases o with
  | none => rfl
  | some o => exact List.foldl_append

section Invoke

variable {I : Ledger → Prop}

/-- What one attempt can do. -/
theorem invokeAttempt_triple {o : Option Observer} {attempts n : ℕ} {writeback : Bool} {wait : ℚ}
    {made : List CliAttempt} (hseen : (calls n).seen writeback = replies n)
    (hopen : ∀ o', o = some o' → I (X.opened o'.operation argv n))
    (hclosed : ∀ o', o = some o' → I (X.closed o'.operation (attemptAt U argv replies n)))
    (hrec : I (X.watched o [attemptAt U argv replies n]))
    (hwait : I ((X.watched o [attemptAt U argv replies n]).waited [wait])) :
    Triple (fun _ L => I L) (fun L => L = X)
      (invokeAttempt U cfg argv attempts writeback o calls n (wait, made))
      (fun r L => replies n ≠ .raised ∧ (∀ out made', r = .inl (out, made') →
          made' = made ++ [attemptAt U argv replies n] ∧ L = X.watched o [attemptAt U argv replies n] ∧
          (out = some (attemptAt U argv replies n).stdout ∧
              (attemptAt U argv replies n).category = successCategory ∨
            out = none ∧ (attemptAt U argv replies n).category ≠ successCategory ∧
              ((attemptAt U argv replies n).category = authCategory ∨ n = attempts))) ∧
        ∀ wait' made', r = .inr (wait', made') →
          wait' = min (wait * 2) cfg.maximumBackoffSeconds ∧
          made' = made ++ [attemptAt U argv replies n] ∧
          L = (X.watched o [attemptAt U argv replies n]).waited [wait] ∧
          (attemptAt U argv replies n).Retryable ∧ n ≠ attempts)
      (fun e L => L = X.openedBy o argv n ∧
        (e = .writeback ∧ writeback = true ∧ (calls n).written = .raised ∨
          e = .run ∧ replies n = .raised)) := by
  unfold invokeAttempt
  -- the row of the attempt
  refine Triple.bind (M := fun token L => L = X.openedBy o argv n ∧
    ∀ o', o = some o' → token = X.commands.nextKey) ?_ fun token => ?_
  · cases o with
    | none => exact Triple.pure fun s hs => ⟨hs, fun o' ho => by cases ho⟩
    | some o =>
      exact (startCommand_triple (hopen o rfl)).consequence (fun _ h => h)
        (fun _ _ h => ⟨h.2, fun _ _ => h.1⟩) fun _ _ h => h
  refine Triple.pre fun L hL => ?_
  refine Triple.bind (((runCli_triple (X := X.openedBy o argv n)).consequence (fun s hs => hs ▸ hL.1)
    (fun _ _ h => h) fun _ _ h => by rwa [hseen] at h)) fun reply => Triple.pre fun L' hL' => ?_
  obtain ⟨rfl, rfl, hraised⟩ := hL'
  rw [hseen] at hraised ⊢
  -- the record, and what follows from its category
  refine Triple.bind (M := fun _ L => L = X.watched o [attemptAt U argv replies n]) ?_ fun _ => ?_
  · cases o with
    | none => exact Triple.pure fun s hs => hs
    | some o =>
      have htoken := hL.2 o rfl
      subst htoken
      have hend := endCommand_triple (E := fun e L => L = X.opened o.operation argv n ∧
        (e = .writeback ∧ writeback = true ∧ (calls n).written = .raised ∨
          e = .run ∧ replies n = .raised)) (hclosed o rfl)
      rw [attemptAt_argv, attemptAt_attempt] at hend
      exact hend.bind fun _ => logAttempt_triple hrec
  · change Triple _ _ (if (attemptAt U argv replies n).category = successCategory then _ else _) _ _
    split
    · rename_i hs
      refine Triple.pure fun s hX => ⟨hraised, fun out made' h => ?_, fun _ _ h => by cases h⟩
      cases h
      exact ⟨rfl, hX, Or.inl ⟨rfl, hs⟩⟩
    · rename_i hs
      split
      · rename_i hlast
        refine Triple.pure fun s hX => ⟨hraised, fun out made' h => ?_, fun _ _ h => by cases h⟩
        cases h
        exact ⟨rfl, hX, Or.inr ⟨rfl, hs, hlast⟩⟩
      · rename_i hlast
        rw [not_or] at hlast
        refine Triple.bind (M := fun _ L => L = (X.watched o [attemptAt U argv replies n]).waited [wait])
          (Triple.write fun s hX => ?_) fun _ => Triple.pure fun s hX =>
            ⟨hraised, fun _ _ h => ?_, fun _ _ h => ?_⟩
        · rw [hX]
          exact ⟨hwait, rfl⟩
        · cases h
        · cases h
          exact ⟨rfl, rfl, hX, ⟨hs, hlast.1⟩, hlast.2⟩

/-- The waits before attempt `k + 1`. -/
def ProtonConfig.waits (cfg : ProtonConfig) (k : ℕ) : List ℚ :=
  (List.range k).map (backoff cfg.initialBackoffSeconds cfg.maximumBackoffSeconds)

/-- The rows of a command at a kill: its attempts, and the one under way. -/
def MidCommand (U : Unicode) (argv : List Str) (replies : ℕ → CliReply) (attempts : ℕ)
    (o : Option Observer) (X L : Ledger) : Prop :=
  ∃ k < attempts, (∀ a ∈ attemptsMade U argv replies k, a.Retryable) ∧
    (L.commands = ((X.watched o (attemptsMade U argv replies k)).openedBy o argv (k + 1)).commands ∨
      L.commands = (X.watched o (attemptsMade U argv replies (k + 1))).commands)

/-- How `_invoke` ends: with a success, a dead session, or its last attempt. -/
def InvokedUntil (U : Unicode) (argv : List Str) (replies : ℕ → CliReply) (attempts k : ℕ)
    (out : Option Str) : Prop :=
  (∀ a ∈ attemptsMade U argv replies k, a.Retryable) ∧ (∀ i ≤ k, replies (i + 1) ≠ .raised) ∧
    (out = some (attemptAt U argv replies (k + 1)).stdout ∧
        (attemptAt U argv replies (k + 1)).category = successCategory ∨
      out = none ∧ (attemptAt U argv replies (k + 1)).category ≠ successCategory ∧
        ((attemptAt U argv replies (k + 1)).category = authCategory ∨ k + 1 = attempts))

/-- What the loop of `_invoke` carries to attempt `k + 1`, with the wait before the one after it
and the attempts made. -/
structure Invoking (U : Unicode) (cfg : ProtonConfig) (argv : List Str) (replies : ℕ → CliReply)
    (o : Option Observer) (attempts : ℕ) (X : Ledger) (k : ℕ) (d : ℚ × List CliAttempt) (L : Ledger) :
    Prop where
  wait : d.1 = backoff cfg.initialBackoffSeconds cfg.maximumBackoffSeconds k
  made : d.2 = attemptsMade U argv replies k
  retried : ∀ a ∈ attemptsMade U argv replies k, a.Retryable
  ran : ∀ i < k, replies (i + 1) ≠ .raised
  more : k = attempts → attempts = 0
  ledger : L = (X.watched o (attemptsMade U argv replies k)).waited (cfg.waits k)

section Invoking

variable {o : Option Observer} {attempts k : ℕ} {d : ℚ × List CliAttempt}

/-- Nothing is recorded before the first attempt. -/
theorem before_first : (X.watched o (attemptsMade U argv replies 0)).waited (cfg.waits 0) = X := by
  cases o <;> simp [Ledger.waited, Ledger.watched, ProtonConfig.waits, attemptsMade]

theorem Invoking.start : Invoking U cfg argv replies o attempts X 0 (cfg.initialBackoffSeconds, []) X where
  wait := rfl
  made := rfl
  retried := fun a ha => by cases ha
  ran := fun i hi => absurd hi (Nat.not_lt_zero i)
  more := fun h => h.symm
  ledger := before_first.symm

/-- The ledger once attempt `k + 1` is recorded. -/
theorem Invoking.recorded (h : Invoking U cfg argv replies o attempts X k d L) :
    L.watched o [attemptAt U argv replies (k + 1)] =
      (X.watched o (attemptsMade U argv replies (k + 1))).waited (cfg.waits k) := by
  rw [h.ledger, waited_watched, attemptsMade_succ, watched_append]

theorem Invoking.ran_succ (h : Invoking U cfg argv replies o attempts X k d L)
    (hraised : replies (k + 1) ≠ .raised) : ∀ i ≤ k, replies (i + 1) ≠ .raised := by
  intro i hi
  rcases Nat.lt_or_eq_of_le hi with hlt | rfl
  · exact h.ran i hlt
  · exact hraised

/-- Attempt `k + 1` may be followed by another. -/
theorem Invoking.next (h : Invoking U cfg argv replies o attempts X k d L)
    (hraised : replies (k + 1) ≠ .raised) (hretry : (attemptAt U argv replies (k + 1)).Retryable)
    (hlast : k + 1 ≠ attempts) :
    Invoking U cfg argv replies o attempts X (k + 1)
      (min (d.1 * 2) cfg.maximumBackoffSeconds, d.2 ++ [attemptAt U argv replies (k + 1)])
      ((L.watched o [attemptAt U argv replies (k + 1)]).waited [d.1]) where
  wait := by rw [h.wait, backoff]
  made := by rw [h.made, attemptsMade_succ]
  retried := fun a ha => by
    rw [attemptsMade_succ, List.mem_append, List.mem_singleton] at ha
    rcases ha with ha | rfl
    · exact h.retried a ha
    · exact hretry
  ran := fun i hi => h.ran_succ hraised i (Nat.le_of_lt_succ hi)
  more := fun hk => absurd hk hlast
  ledger := by
    rw [h.recorded, h.wait]
    simp only [Ledger.waited, ProtonConfig.waits, List.range_succ, List.map_append,
      List.map_singleton, List.append_assoc]

/-- A kill while attempt `k + 1` runs. -/
theorem Invoking.mid_opened (h : Invoking U cfg argv replies o attempts X k d L) (hk : k < attempts)
    {o' : Observer} (ho : o = some o') :
    MidCommand U argv replies attempts o X (L.opened o'.operation argv (k + 1)) := by
  refine ⟨k, hk, h.retried, Or.inl ?_⟩
  rw [h.ledger, ho]
  rfl

/-- A kill once its row has ended. -/
theorem Invoking.mid_ended (h : Invoking U cfg argv replies o attempts X k d L) (hk : k < attempts)
    {L' : Ledger} (hL : L'.commands = (L.watched o [attemptAt U argv replies (k + 1)]).commands) :
    MidCommand U argv replies attempts o X L' := by
  refine ⟨k, hk, h.retried, Or.inr ?_⟩
  rw [hL, h.recorded]
  rfl

end Invoking

/-- **What `_invoke` does.** -/
theorem invoke_triple (U : Unicode) (cfg : ProtonConfig) (argv : List Str) (X : Ledger)
    (replies : ℕ → CliReply) (o : Option Observer) (attempts : ℕ) {writeback : Bool}
    (hseen : ∀ n, 1 ≤ n → n ≤ attempts → (calls n).seen writeback = replies n) :
    Triple (fun _ L => MidCommand U argv replies attempts o X L) (fun L => L = X)
      (invoke U cfg argv attempts writeback o calls)
      (fun r L => attempts = 0 ∧ r = (none, []) ∧ L = X ∨
        ∃ k < attempts, r.2 = attemptsMade U argv replies (k + 1) ∧
          L = (X.watched o (attemptsMade U argv replies (k + 1))).waited (cfg.waits k) ∧
          InvokedUntil U argv replies attempts k r.1)
      (fun e L => ∃ k < attempts, (∀ a ∈ attemptsMade U argv replies k, a.Retryable) ∧
        L = ((X.watched o (attemptsMade U argv replies k)).waited (cfg.waits k)).openedBy o argv (k + 1) ∧
        (e = .writeback ∧ writeback = true ∧ (calls (k + 1)).written = .raised ∨
          e = .run ∧ replies (k + 1) = .raised)) := by
  unfold invoke
  refine Triple.bind (M := fun r L => (∀ x, r = some x → ∃ k < attempts,
      x.2 = attemptsMade U argv replies (k + 1) ∧
      L = (X.watched o (attemptsMade U argv replies (k + 1))).waited (cfg.waits k) ∧
      InvokedUntil U argv replies attempts k x.1) ∧ (r = none → attempts = 0 ∧ L = X)) ?_ fun r => ?_
  · refine (Triple.retry (fun n d L => ∃ k, n = k + 1 ∧ Invoking U cfg argv replies o attempts X k d L)
      attempts 1 _ (fun n d h1 h2 => ?_) ?_).consequence (fun L hL => ⟨0, rfl, hL ▸ Invoking.start⟩)
      (fun _ _ h => h) fun _ _ h => h
    · refine Triple.pre fun Y hY => ?_
      obtain ⟨k, rfl, hY⟩ := hY
      have hk : k < attempts := by omega
      refine (invokeAttempt_triple (hseen _ h1 hk) (fun o' ho => hY.mid_opened hk ho)
        (fun o' ho => hY.mid_ended hk (by rw [ho]; rfl)) (hY.mid_ended hk rfl)
        (hY.mid_ended hk rfl)).consequence (fun _ h => h) (fun r L h => ?_)
        fun e L h => ⟨k, hk, hY.retried, hY.ledger ▸ h.1, h.2⟩
      obtain ⟨hraised, hdone, hagain⟩ := h
      refine ⟨fun a ha => ⟨fun x hx => ?_, fun hnone => by cases hnone⟩, fun d' hd => ?_⟩
      · cases hx
        obtain ⟨hmade, hL, hend⟩ := hdone a.1 a.2 ha
        refine ⟨k, hk, ?_, hL.trans hY.recorded, hY.retried, hY.ran_succ hraised, hend⟩
        rw [hmade, hY.made, attemptsMade_succ]
      · obtain ⟨hwait, hmade, hL, hretry, hlast⟩ := hagain d'.1 d'.2 hd
        have hd' : d' = (min (d.1 * 2) cfg.maximumBackoffSeconds,
            d.2 ++ [attemptAt U argv replies (k + 1)]) := Prod.ext hwait hmade
        rw [hd', hL]
        exact ⟨k + 1, rfl, hY.next hraised hretry hlast⟩
    · -- no attempt is left, and none ended the loop
      rintro d L ⟨k, hk, h⟩
      obtain rfl : k = attempts := by omega
      have hzero := h.more rfl
      subst hzero
      exact ⟨fun x hx => (by cases hx), fun _ => ⟨rfl, h.ledger.trans before_first⟩⟩
  · cases r with
    | none => exact Triple.pure fun L hL => Or.inl ⟨(hL.2 rfl).1, rfl, (hL.2 rfl).2⟩
    | some x => exact Triple.pure fun L hL => Or.inr (hL.1 x rfl)

end Invoke

section Rows

variable {o : Observer}

/-- The rows of the first attempts of a command. -/
def commandRows (U : Unicode) (argv : List Str) (replies : ℕ → CliReply) (operation : String) (X : Ledger)
    (k : ℕ) : List CommandRow :=
  (List.range k).map fun i => {
    id := X.commands.nextKey + i, phaseRunId := X.phaseRunId, provider := "proton", operation, argv
    attempt := i + 1
    exitCode := some (attemptAt U argv replies (i + 1)).returncode
    responseCategory := some (attemptAt U argv replies (i + 1)).category }

/-- The row of the attempt after them, while it runs. -/
def runningRow (argv : List Str) (operation : String) (X : Ledger) (k : ℕ) : CommandRow where
  id := X.commands.nextKey + k
  phaseRunId := X.phaseRunId
  provider := "proton"
  operation := operation
  argv := argv
  attempt := k + 1
  exitCode := none
  responseCategory := none

theorem closed_rows (operation : String) (a : CliAttempt) :
    (X.closed operation a).commands.rows = X.commands.rows ++ [⟨X.commands.nextKey, X.phaseRunId,
      "proton", operation, a.argv, a.attempt, some a.returncode, some a.category⟩] :=
  Table.rows_upsert_next rfl

theorem closed_nextKey (operation : String) (a : CliAttempt) :
    (X.closed operation a).commands.nextKey = X.commands.nextKey + 1 := Table.nextKey_upsert_next rfl

theorem opened_rows (operation : String) (n : ℕ) :
    (X.opened operation argv n).commands.rows = X.commands.rows ++ [⟨X.commands.nextKey, X.phaseRunId,
      "proton", operation, argv, n, none, none⟩] := Table.rows_upsert_next rfl

theorem rows_watched (U : Unicode) (argv : List Str) (replies : ℕ → CliReply) (o : Observer) (X : Ledger)
    (k : ℕ) :
    (X.watched (some o) (attemptsMade U argv replies k)).commands.rows =
        X.commands.rows ++ commandRows U argv replies o.operation X k ∧
      (X.watched (some o) (attemptsMade U argv replies k)).commands.nextKey = X.commands.nextKey + k ∧
      (X.watched (some o) (attemptsMade U argv replies k)).phaseRunId = X.phaseRunId := by
  induction k with
  | zero => exact ⟨(List.append_nil _).symm, rfl, rfl⟩
  | succ k ih =>
    obtain ⟨hrows, hnext, hphase⟩ := ih
    rw [attemptsMade_succ, watched_append]
    set Y := X.watched (some o) (attemptsMade U argv replies k)
    refine ⟨?_, ?_, hphase⟩
    · refine (closed_rows o.operation _).trans ?_
      rw [hrows, hnext, hphase, commandRows, commandRows, List.range_succ, List.map_append,
        List.append_assoc, attemptAt_argv, attemptAt_attempt]
      rfl
    · exact (closed_nextKey o.operation _).trans (by rw [hnext, Nat.add_assoc])

theorem rows_opened (k : ℕ) :
    ((X.watched (some o) (attemptsMade U argv replies k)).opened o.operation argv (k + 1)).commands.rows =
      X.commands.rows ++ commandRows U argv replies o.operation X k ++ [runningRow argv o.operation X k] := by
  obtain ⟨hrows, hnext, hphase⟩ := rows_watched U argv replies o X k
  rw [opened_rows, hrows, hnext, hphase]
  rfl

end Rows

section Json

variable {γ : Type} {decode : Str → Option γ} {operation phase : String} {attempts : ℕ}

/-- A command has ended after `k` retries: its rows, and the waits between them. -/
structure CommandEnded (U : Unicode) (cfg : ProtonConfig) (argv : List Str) (replies : ℕ → CliReply)
    (operation : String) (X L : Ledger) (k : ℕ) : Prop where
  rows : L.commands.rows = X.commands.rows ++ commandRows U argv replies operation X (k + 1)
  retried : ∀ i < k, (attemptAt U argv replies (i + 1)).Retryable
  slept : L.slept = X.slept ++ cfg.waits k
  rested : (cfg.waits k).sum ≤ cfg.initialBackoffSeconds + k * cfg.maximumBackoffSeconds

theorem sum_waits_le (k : ℕ) :
    (cfg.waits k).sum ≤ cfg.initialBackoffSeconds + k * cfg.maximumBackoffSeconds := by
  have hmost := cfg.maximumBackoff_pos
  cases k with
  | zero => simpa [ProtonConfig.waits] using cfg.initialBackoff_nonneg
  | succ k =>
    refine (sum_backoff_le k).trans ?_
    push_cast
    linarith

theorem forall_attemptsMade {p : CliAttempt → Prop} (k : ℕ) :
    (∀ a ∈ attemptsMade U argv replies k, p a) ↔ ∀ i < k, p (attemptAt U argv replies (i + 1)) := by
  simp [attemptsMade]

theorem slept_watched (o : Option Observer) (k : ℕ) :
    (X.watched o (attemptsMade U argv replies k)).slept = X.slept := by
  induction k with
  | zero => cases o <;> rfl
  | succ k ih =>
    rw [attemptsMade_succ, watched_append]
    cases o with
    | none => rfl
    | some o => exact ih

theorem commandEnded_of_eq {o : Observer} {k : ℕ}
    (hL : L = (X.watched (some o) (attemptsMade U argv replies (k + 1))).waited (cfg.waits k))
    (hretry : ∀ a ∈ attemptsMade U argv replies k, a.Retryable) :
    CommandEnded U cfg argv replies o.operation X L k where
  rows := by
    rw [hL]
    exact (rows_watched U argv replies _ X (k + 1)).1
  retried := (forall_attemptsMade k).1 hretry
  slept := by rw [hL, Ledger.waited, slept_watched (some o) (k + 1)]
  rested := sum_waits_le k

/-- How a command ends, and what it has recorded at a kill. -/
theorem jsonCommand_triple (U : Unicode) (cfg : ProtonConfig) (decode : Str → Option γ)
    (phase operation : String) (argv : List Str) (attempts : ℕ) (calls : ℕ → CliCall) (X : Ledger) :
    Triple (fun _ L => MidCommand U argv (seenBy true calls) attempts (some ⟨phase, operation⟩) X L)
      (fun L => L = X)
    (jsonCommand U cfg decode phase operation argv attempts calls)
    (fun v L => ∃ k < attempts, CommandEnded U cfg argv (seenBy true calls) operation X L k ∧
      (attemptAt U argv (seenBy true calls) (k + 1)).category = successCategory ∧
      decode (attemptAt U argv (seenBy true calls) (k + 1)).stdout = some v)
    (fun e L => (∃ k < attempts, (∀ i < k, (attemptAt U argv (seenBy true calls) (i + 1)).Retryable) ∧
        L.commands.rows = X.commands.rows ++ commandRows U argv (seenBy true calls) operation X k ++
          [runningRow argv operation X k] ∧
        (e = .writeback ∧ (calls (k + 1)).written = .raised ∨
          e = .run ∧ (calls (k + 1)).seen true = .raised)) ∨
      (∃ k < attempts, CommandEnded U cfg argv (seenBy true calls) operation X L k ∧
        (e = .invalidJson operation ∧ (attemptAt U argv (seenBy true calls) (k + 1)).category = successCategory ∧
            decode (attemptAt U argv (seenBy true calls) (k + 1)).stdout = none ∨
          e = .auth operation ∧ (attemptAt U argv (seenBy true calls) (k + 1)).category = authCategory ∨
          e = .exhausted operation ∧ k + 1 = attempts ∧ (attemptAt U argv (seenBy true calls) (k + 1)).Retryable)) ∨
      attempts = 0 ∧ e = .exhausted operation) := by
  unfold jsonCommand
  refine ((invoke_triple U cfg argv X (seenBy true calls) (some ⟨phase, operation⟩) attempts
    fun _ _ _ => rfl).consequence (fun _ h => h) (fun _ _ h => h)
    fun e L he => Or.inl ?_).bind fun r => Triple.pre fun L hL => ?_
  · -- an attempt that raised leaves its row open
    obtain ⟨k, hk, hretry, rfl, hwhy⟩ := he
    refine ⟨k, hk, (forall_attemptsMade k).1 hretry, rows_opened k, hwhy.imp_left fun h => ⟨h.1, h.2.2⟩⟩
  obtain ⟨out, made⟩ := r
  unfold parseOutput
  dsimp only at hL ⊢
  rcases hL with ⟨hzero, hr, -⟩ | ⟨k, hk, hmade, hL, hinvoked⟩
  · cases hr
    exact Triple.fail fun _ _ => Or.inr (Or.inr ⟨hzero, rfl⟩)
  obtain ⟨hretry, -, hend⟩ := hinvoked
  have hended := commandEnded_of_eq hL hretry
  have hlast : made.getLast?.map CliAttempt.category =
      some (attemptAt U argv (seenBy true calls) (k + 1)).category := by
    rw [hmade, attemptsMade_succ, List.getLast?_concat, Option.map_some]
  rcases hend with ⟨rfl, hsuccess⟩ | ⟨rfl, hfail, hwhy⟩
  · dsimp only
    cases hd : decode (attemptAt U argv (seenBy true calls) (k + 1)).stdout with
    | none =>
      exact Triple.fail fun s hs => Or.inr (Or.inl ⟨k, hk, hs ▸ hended, Or.inl ⟨rfl, hsuccess, hd⟩⟩)
    | some v => exact Triple.pure fun s hs => ⟨k, hk, hs ▸ hended, hsuccess, hd⟩
  · dsimp only
    rw [hlast]
    split
    · rename_i hauth
      exact Triple.fail fun s hs => Or.inr (Or.inl
        ⟨k, hk, hs ▸ hended, Or.inr (Or.inl ⟨rfl, Option.some.inj hauth⟩)⟩)
    · rename_i hauth
      have hne : (attemptAt U argv (seenBy true calls) (k + 1)).category ≠ authCategory := fun h =>
        hauth (by rw [h])
      exact Triple.fail fun s hs => Or.inr (Or.inl
        ⟨k, hk, hs ▸ hended, Or.inr (Or.inr ⟨rfl, hwhy.resolve_left hne, hfail, hne⟩)⟩)

/-- **The rows of a command are its attempts.** At any kill they are the attempts that ended, in
order, each but the last one retryable, and at most one that runs. A command that returns has
ended with a success; one that raises says why. -/
theorem json_command_ledger (U : Unicode) (cfg : ProtonConfig) (decode : Str → Option γ)
    (phase operation : String) (argv : List Str) (attempts : ℕ) (calls : ℕ → CliCall) (X : Ledger) :
    (∀ L ∈ (jsonCommand U cfg decode phase operation argv attempts calls X).states, ∃ k < attempts,
      (∀ i < k, (attemptAt U argv (seenBy true calls) (i + 1)).Retryable) ∧
      (L.commands.rows = X.commands.rows ++ commandRows U argv (seenBy true calls) operation X k ++
          [runningRow argv operation X k] ∨
        L.commands.rows = X.commands.rows ++ commandRows U argv (seenBy true calls) operation X (k + 1))) ∧
    (∀ v, (jsonCommand U cfg decode phase operation argv attempts calls).result X = .ok v →
      ∃ k < attempts, CommandEnded U cfg argv (seenBy true calls) operation X
          ((jsonCommand U cfg decode phase operation argv attempts calls).final X) k ∧
        (attemptAt U argv (seenBy true calls) (k + 1)).category = successCategory ∧
        decode (attemptAt U argv (seenBy true calls) (k + 1)).stdout = some v) ∧
    ∀ e, (jsonCommand U cfg decode phase operation argv attempts calls).result X = .error e →
      (∃ k < attempts, (∀ i < k, (attemptAt U argv (seenBy true calls) (i + 1)).Retryable) ∧
        ((jsonCommand U cfg decode phase operation argv attempts calls).final X).commands.rows =
          X.commands.rows ++ commandRows U argv (seenBy true calls) operation X k ++ [runningRow argv operation X k] ∧
        (e = .writeback ∧ (calls (k + 1)).written = .raised ∨
          e = .run ∧ (calls (k + 1)).seen true = .raised)) ∨
      (∃ k < attempts, CommandEnded U cfg argv (seenBy true calls) operation X
          ((jsonCommand U cfg decode phase operation argv attempts calls).final X) k ∧
        (e = .invalidJson operation ∧ (attemptAt U argv (seenBy true calls) (k + 1)).category = successCategory ∧
            decode (attemptAt U argv (seenBy true calls) (k + 1)).stdout = none ∨
          e = .auth operation ∧ (attemptAt U argv (seenBy true calls) (k + 1)).category = authCategory ∨
          e = .exhausted operation ∧ k + 1 = attempts ∧ (attemptAt U argv (seenBy true calls) (k + 1)).Retryable)) ∨
      attempts = 0 ∧ e = .exhausted operation := by
  have htriple := jsonCommand_triple U cfg decode phase operation argv attempts calls X
  refine ⟨fun L hL => ?_, (htriple X rfl).2.1, (htriple X rfl).2.2⟩
  obtain ⟨k, hk, hretry, hrows⟩ := htriple.states rfl L hL
  refine ⟨k, hk, (forall_attemptsMade k).1 hretry, hrows.imp (fun h => ?_) fun h => ?_⟩
  · rw [h]
    exact rows_opened k
  · rw [h]
    exact (rows_watched U argv _ _ X (k + 1)).1

end Json

section Worker

variable {o : Observer} {attempts : ℕ}

theorem waited_foldl (made : List CliAttempt) (waits : List ℚ) :
    (X.waited waits).watched (some o) made = (X.watched (some o) made).waited waits := by
  induction made using List.reverseRecOn with
  | nil => rfl
  | append_singleton made a ih => rw [watched_append, ih, waited_watched, ← watched_append]

/-- What `_record` leaves is what the attempts leave where they are observed. -/
theorem recordAttempts_triple (made : List CliAttempt) :
    Triple (fun _ _ => True) (fun L => L = X) (recordAttempts o.phase o.operation made)
      (fun _ L => L = X.watched (some o) made) (fun _ _ => False) := by
  refine Triple.foldlM (fun done _ L => L = X.watched (some o) done) made () fun done a todo _ _ => ?_
  refine Triple.pre fun Y hY => ?_
  refine (startCommand_triple trivial).bind fun id => Triple.pre fun Z hZ => ?_
  obtain ⟨rfl, rfl⟩ := hZ
  refine (endCommand_triple trivial).bind fun _ => ?_
  refine (logAttempt_triple trivial).consequence (fun _ h => h) (fun _ L hL => ?_) fun _ _ h => h
  rw [hL, watched_append, ← hY]
  rfl

theorem recordAttempts_ok (made : List CliAttempt) :
    (recordAttempts o.phase o.operation made).result X = .ok () ∧
      (recordAttempts o.phase o.operation made).final X = X.watched (some o) made := by
  obtain ⟨-, hrecord, hnever⟩ := recordAttempts_triple (o := o) (X := X) made X rfl
  cases hr : (recordAttempts o.phase o.operation made).result X with
  | ok u => exact ⟨rfl, hrecord u hr⟩
  | error e => exact (hnever e hr).elim

/-- The attempts of a command and their outcome are determined. -/
theorem invokedUntil_unique {k k' : ℕ} {out out' : Option Str} (hk : k < attempts) (hk' : k' < attempts)
    (h : InvokedUntil U argv replies attempts k out) (h' : InvokedUntil U argv replies attempts k' out') :
    k = k' ∧ out = out' := by
  -- the attempt that ends one of them is no attempt the other one retried
  have hnext : ∀ {i j : ℕ} {x y : Option Str}, j < attempts → InvokedUntil U argv replies attempts i x →
      InvokedUntil U argv replies attempts j y → ¬i < j := by
    intro i j x y hj hi hy hlt
    have hretry := (forall_attemptsMade j).1 hy.1 i hlt
    rcases hi.2.2 with ⟨-, hs⟩ | ⟨-, -, hauth | hlast⟩
    · exact hretry.1 hs
    · exact hretry.2 hauth
    · omega
  have heq : k = k' := by
    have h1 := hnext hk' h h'
    have h2 := hnext hk h' h
    omega
  subst heq
  refine ⟨rfl, ?_⟩
  rcases h.2.2 with ⟨hout, hs⟩ | ⟨hout, hs, -⟩ <;> rcases h'.2.2 with ⟨hout', hs'⟩ | ⟨hout', hs', -⟩
  · rw [hout, hout']
  · exact absurd hs hs'
  · exact absurd hs' hs
  · rw [hout, hout']

/-- What `_invoke` comes to where no call raises. -/
def QuietEnd (U : Unicode) (cfg : ProtonConfig) (argv : List Str) (replies : ℕ → CliReply)
    (attempts : ℕ) (o : Option Observer) (X L : Ledger) (out : Option Str) (made : List CliAttempt) :
    Prop :=
  attempts = 0 ∧ out = none ∧ made = [] ∧ L = X ∨
    ∃ k < attempts, made = attemptsMade U argv replies (k + 1) ∧
      L = (X.watched o (attemptsMade U argv replies (k + 1))).waited (cfg.waits k) ∧
      InvokedUntil U argv replies attempts k out

theorem invoke_quiet (U : Unicode) (cfg : ProtonConfig) (argv : List Str) (attempts : ℕ)
    (writeback : Bool) (o : Option Observer) (X : Ledger)
    (hreply : ∀ n, 1 ≤ n → n ≤ attempts → (calls n).reply ≠ .raised)
    (hwritten : ∀ n, 1 ≤ n → n ≤ attempts → (calls n).written = .done) :
    ∃ out made, (invoke U cfg argv attempts writeback o calls).result X = .ok (out, made) ∧
      QuietEnd U cfg argv (fun n => (calls n).reply) attempts o X
        ((invoke U cfg argv attempts writeback o calls).final X) out made := by
  have hseen : ∀ n, 1 ≤ n → n ≤ attempts → (calls n).seen writeback = (calls n).reply := by
    intro n h1 hn
    unfold CliCall.seen
    rw [hwritten n h1 hn]
    cases writeback <;> rfl
  obtain ⟨-, hok, herr⟩ := invoke_triple U cfg argv X (fun n => (calls n).reply) o attempts hseen X rfl
  cases hr : (invoke U cfg argv attempts writeback o calls).result X with
  | ok r =>
    refine ⟨r.1, r.2, rfl, (hok r hr).imp_left fun h => ?_⟩
    obtain ⟨hzero, rfl, hfinal⟩ := h
    exact ⟨hzero, rfl, rfl, hfinal⟩
  | error e =>
    exfalso
    obtain ⟨k, hk, -, -, ⟨-, -, hnot⟩ | ⟨-, hraised⟩⟩ := herr e hr
    · rw [hwritten (k + 1) (by omega) (by omega)] at hnot
      cases hnot
    · exact hreply (k + 1) (by omega) (by omega) hraised

/-- Two commands with the same replies make the same attempts, observed or not. -/
theorem QuietEnd.unique {out out' : Option Str} {made made' : List CliAttempt} {L L' : Ledger}
    (h : QuietEnd U cfg argv replies attempts (some o) X L out made)
    (h' : QuietEnd U cfg argv replies attempts none X L' out' made') :
    out' = out ∧ made' = made ∧ L'.watched (some o) made = L := by
  rcases h with ⟨hzero, rfl, rfl, rfl⟩ | ⟨k, hk, rfl, rfl, hinv⟩
  · rcases h' with ⟨-, rfl, rfl, rfl⟩ | ⟨k, hk, -⟩
    · exact ⟨rfl, rfl, rfl⟩
    · omega
  · rcases h' with ⟨hzero, -⟩ | ⟨k', hk', rfl, rfl, hinv'⟩
    · omega
    · obtain ⟨rfl, rfl⟩ := invokedUntil_unique hk hk' hinv hinv'
      refine ⟨rfl, rfl, ?_⟩
      rw [waited_foldl]
      rfl

/-- What a listing without an output says of its last attempt. -/
theorem QuietEnd.parse {made : List CliAttempt} {L : Ledger} {γ : Type} {decode : Str → Option γ}
    {operation : String} (h : QuietEnd U cfg argv replies attempts (some o) X L none made) :
    parseOutput decode operation none made =
      Prog.fail (if (made.getLast?.map CliAttempt.category).getD "EXIT_?".toList = authCategory then
        .auth operation else .exhausted operation) := by
  unfold parseOutput
  rcases h with ⟨-, -, rfl, -⟩ | ⟨k, -, rfl, -⟩
  · rfl
  · rw [attemptsMade_succ, List.getLast?_concat, Option.map_some, Option.getD_some]
    simp only [Option.some.injEq]
    split <;> rfl

/-- What the main thread makes of the same listing. -/
def WorkerListing.onMain : WorkerListing → Except CliError (List (Option ProtonNode))
  | .listed children => .ok children
  | .failed category =>
    .error (if category = authCategory then .auth "filesystem_list" else .exhausted "filesystem_list")

/-- What the two threads make of the same attempts. -/
theorem QuietEnd.collect {out : Option Str} {made : List CliAttempt}
    (h : QuietEnd U cfg argv replies attempts (some o) X L out made)
    (decode : Str → Option ListingJson) (Y : Ledger) :
    (parseOutput decode "filesystem_list" out made >>= listingArray).final Y =
        (collectListing decode out made).final Y ∧
      (parseOutput decode "filesystem_list" out made >>= listingArray).result Y =
        ((collectListing decode out made).result Y).bind WorkerListing.onMain := by
  cases out with
  | none =>
    rw [h.parse]
    exact ⟨rfl, rfl⟩
  | some text =>
    unfold collectListing parseOutput
    dsimp only
    cases decode text with
    | none => exact ⟨rfl, rfl⟩
    | some listing => cases listing <;> exact ⟨rfl, rfl⟩

/-- **A worker's listing is recorded as one of the main thread.** Where the CLI starts and the
write-backs return, both leave the same rows, the same log and the same waits, whatever the
replies. The main thread returns the children where the worker does, raises where the worker
does, and where the worker has the category of its last attempt it raises that. -/
theorem worker_listing_agrees (U : Unicode) (cfg : ProtonConfig) (decode : Str → Option ListingJson)
    (path : Str) (phase : String) (calls : ℕ → CliCall) (X : Ledger)
    (hreply : ∀ n, 1 ≤ n → n ≤ cfg.listMaxAttempts → (calls n).reply ≠ .raised)
    (hwritten : ∀ n, 1 ≤ n → n ≤ cfg.listMaxAttempts → (calls n).written = .done) :
    (listFolder U cfg decode path phase calls).final X =
        (workerListing U cfg decode path phase calls).final X ∧
      (listFolder U cfg decode path phase calls).result X =
        ((workerListing U cfg decode path phase calls).result X).bind WorkerListing.onMain := by
  set o : Observer := ⟨phase, "filesystem_list"⟩ with ho
  obtain ⟨out, made, hmain, hmainEnd⟩ := invoke_quiet U cfg
    [cfg.executable, "filesystem".toList, "list".toList, "-j".toList, path] cfg.listMaxAttempts true
    (some o) X hreply hwritten
  obtain ⟨out', made', hworker, hworkerEnd⟩ := invoke_quiet U cfg
    [cfg.executable, "filesystem".toList, "list".toList, "-j".toList, path] cfg.listMaxAttempts false
    none X hreply hwritten
  obtain ⟨rfl, rfl, hwatched⟩ := hmainEnd.unique hworkerEnd
  -- `_record` catches up, and both go on from the same ledger
  obtain ⟨hrecord, hrecorded⟩ := recordAttempts_ok (o := o) (X := (invoke U cfg
    [cfg.executable, "filesystem".toList, "list".toList, "-j".toList, path] cfg.listMaxAttempts false none
    calls).final X) made'
  rw [hwatched] at hrecorded
  unfold listFolder jsonCommand workerListing
  rw [Prog.bind_assoc]
  obtain ⟨hres, hfin⟩ := Prog.bind_from
    (f := fun r => parseOutput decode "filesystem_list" r.1 r.2 >>= listingArray) hmain
  obtain ⟨hres', hfin'⟩ := Prog.bind_from (f := fun r =>
    recordAttempts phase "filesystem_list" r.2 >>= fun _ => collectListing decode r.1 r.2) hworker
  obtain ⟨hres'', hfin''⟩ := Prog.bind_from (f := fun _ => collectListing decode out' made') hrecord
  rw [hrecorded] at hres'' hfin''
  have hsame := hmainEnd.collect decode ((invoke U cfg
    [cfg.executable, "filesystem".toList, "list".toList, "-j".toList, path] cfg.listMaxAttempts
    true (some o)
    calls).final X)
  exact ⟨hfin.trans (hsame.1.trans (hfin'.trans hfin'').symm), hres.trans
    (hsame.2.trans (congrArg (Except.bind · WorkerListing.onMain) (hres'.trans hres'').symm))⟩

/-- The tables of a phase that begins. -/
def freshLedger : Ledger := ⟨some 1, Table.empty, Table.empty, [], []⟩

/-- Waits of one second, then two. -/
def patientConfig : ProtonConfig where
  executable := "proton-drive".toList
  destination := "/my-files/mirror".toList
  expectedDestinationUid := "uid-1".toList
  listMaxAttempts := 3
  initialBackoffSeconds := 1
  maximumBackoffSeconds := 30
  commandTimeoutSeconds := 60
  transferTimeoutSeconds := 600
  initialBackoff_nonneg := by norm_num
  maximumBackoff_pos := by norm_num

/-- A call that times out, one over the rate, and one that succeeds. -/
def rateLimitedCalls : ℕ → CliCall
  | 1 => ⟨.timedOut [], .done⟩
  | 2 => ⟨.exited 1 [] "HTTP 429".toList, .done⟩
  | _ => ⟨.exited 0 "[]".toList [], .done⟩

/-- A parent that lists the destination, whatever the text. -/
def mirrorListing (_ : Str) : Option ListingJson :=
  some (some [none, some ⟨some "mirror".toList, some "folder".toList, some (some "uid-1".toList)⟩])

theorem worker_listing_agrees_third :
    (listFolder Unicode.latin patientConfig mirrorListing "/my-files".toList "60_reconcile"
        rateLimitedCalls).final freshLedger =
      (workerListing Unicode.latin patientConfig mirrorListing "/my-files".toList "60_reconcile"
        rateLimitedCalls).final freshLedger ∧
    (listFolder Unicode.latin patientConfig mirrorListing "/my-files".toList "60_reconcile"
        rateLimitedCalls).result freshLedger =
      ((workerListing Unicode.latin patientConfig mirrorListing "/my-files".toList "60_reconcile"
        rateLimitedCalls).result freshLedger).bind WorkerListing.onMain :=
  worker_listing_agrees Unicode.latin patientConfig mirrorListing "/my-files".toList "60_reconcile"
    rateLimitedCalls freshLedger
    (fun n h1 h3 => by
      change n ≤ 3 at h3
      interval_cases n <;> exact CliReply.noConfusion)
    (fun n h1 h3 => by
      change n ≤ 3 at h3
      interval_cases n <;> rfl)

end Worker

end DropboxMirror
