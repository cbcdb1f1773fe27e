import DropboxMirror.Proof.Recorded

/-!
# What survives a kill

A batch's confirmations become durable in three moves: the merge puts them into the
local mirror, the upload into the history, the copy into the canonical state. Whatever
the point at which a run stops, the canonical state reflects the confirmations of the
batches that ended, with or without those of the batch under way (`Safe`).

* `stateLoop_safe`: every commit of the loop.
* `runs_ok`: every run from an empty bucket.
* `killed_run_repeats_one`: what the next run fetches.
-/

namespace DropboxMirror

open Text Crash

variable {β : Type} {C : Codec β} {D : Digests} {B₀ : Bucket β} {K : List BatchItem}
  {m s : List Event → List BatchItem} {d : Durable β} {w : World}

section Bucket

theorem historyPrefix_prefix (label : Str) : historyPrefix <+: historyKey label := by
  rw [historyKey, List.append_assoc]
  exact List.prefix_append _ _

theorem historyKey_ne_stateKey (label : Str) : historyKey label ≠ stateKey := by
  intro h
  have hpre := historyPrefix_prefix label
  rw [h] at hpre
  exact absurd hpre (by decide)

theorem history_ne_nil {B : Bucket β} {label : Str} {blob : β}
    (h : B.get? (historyKey label) = some blob) : B.history ≠ [] := by
  obtain ⟨e, he, -⟩ := Option.map_eq_some_iff.1 h
  obtain ⟨he, hk⟩ := Table.find?_eq_some.1 he
  refine List.ne_nil_of_mem (a := e.1) (List.mem_filter.2 ⟨List.mem_map_of_mem he, decide_eq_true ?_⟩)
  rw [hk]
  exact historyPrefix_prefix label

end Bucket

/-- A blob holds a sound database that reflects some confirmations. -/
structure Stored (C : Codec β) (cs : List BatchItem) (blob : β) : Prop where
  tables : TablesOk (World.initial.withDb (C.unpack blob))
  mirror : Reflects (C.unpack blob).mirror cs

/-- The canonical state holds the confirmations `cs` of this run over the earlier ones `K`,
or nothing of this run and is as the run found it. -/
def CanonicalOk (C : Codec β) (B₀ : Bucket β) (K cs : List BatchItem) (B : Bucket β) : Prop :=
  (B.get? stateKey = B₀.get? stateKey ∧ cs = []) ∨
    ∃ blob, B.get? stateKey = some blob ∧ Stored C (K ++ cs) blob

/-- An empty history means that nothing was uploaded. -/
def UploadsOk (B₀ B : Bucket β) (log : List Event) : Prop :=
  B.history = [] → B₀.history = [] ∧ ∀ label, Event.uploaded label ∉ log

/-- Entries that are no upload. -/
theorem UploadsOk.append {B : Bucket β} {log log' : List Event} (h : UploadsOk B₀ B log)
    (hno : ∀ label, Event.uploaded label ∉ log') : UploadsOk B₀ B (log ++ log') := by
  intro hnil
  obtain ⟨hnil₀, hlog⟩ := h hnil
  refine ⟨hnil₀, fun label hl => ?_⟩
  rcases List.mem_append.1 hl with hl | hl
  · exact hlog label hl
  · exact hno label hl

/-- **The local mirror and the canonical state** reflect parts of the run's confirmations. -/
structure Consistent (C : Codec β) (B₀ : Bucket β) (K : List BatchItem)
    (m s : List Event → List BatchItem) (d : Durable β) : Prop where
  tables : TablesOk d.world
  mirror : Reflects d.world.mirror (K ++ m d.log)
  canonical : CanonicalOk C B₀ K (s d.log) d.bucket
  uploads : UploadsOk B₀ d.bucket d.log

/-- The settled confirmations, or all of them. -/
def Extent (m : List Event → List BatchItem) : Prop := m = settled ∨ m = confirmations

/-- **What holds wherever a run stops.** -/
def Safe (C : Codec β) (B₀ : Bucket β) (K : List BatchItem) (d : Durable β) : Prop :=
  ∃ m s, Extent m ∧ Extent s ∧ Consistent C B₀ K m s d

section Commit

/-- A change of the local database that confirms nothing and records nothing. -/
structure Unconfirming (v w : World) : Prop where
  tables : TablesOk v → TablesOk w
  recorded : ∀ p, recorded w.mirror p = recorded v.mirror p
  confirmed : ∀ i ∈ w.items, i.status = .confirmed → i ∈ v.items

theorem Unconfirming.refl : Unconfirming w w := ⟨id, fun _ => rfl, fun _ h _ => h⟩

theorem Unconfirming.trans {u v : World} (h : Unconfirming u v) (h' : Unconfirming v w) :
    Unconfirming u w where
  tables := h'.tables ∘ h.tables
  recorded p := (h'.recorded p).trans (h.recorded p)
  confirmed i hi hs := h.confirmed i (h'.confirmed i hi hs) hs

instance : Std.Refl Unconfirming := ⟨fun _ => Unconfirming.refl⟩

instance : IsTrans World Unconfirming := ⟨fun _ _ _ => Unconfirming.trans⟩

theorem Replanned.unconfirming {v w : World} (h : Replanned v w) : Unconfirming v w where
  tables := h.tables
  recorded p := by rw [h.mirror]
  confirmed i hi hs := (h.items i hi).resolve_right fun hp => by
    rw [hs] at hp
    cases hp

/-- A commit without confirmations leaves the log as it is. -/
theorem commit_of_unconfirming (h : ∀ i ∈ w.items, i.status = .confirmed → i ∈ d.world.items) :
    d.commit w = { d with world := w } := by
  rw [Durable.commit, newlyConfirmed_eq_nil h, List.map_nil, List.append_nil]

theorem commit_world (d : Durable β) : d.commit d.world = d :=
  commit_of_unconfirming fun _ h _ => h

theorem Consistent.commit (h : Consistent C B₀ K m s d) (hw : Unconfirming d.world w) :
    Consistent C B₀ K m s (d.commit w) := by
  rw [commit_of_unconfirming hw.confirmed]
  exact ⟨hw.tables h.tables, fun p => (hw.recorded p).trans (h.mirror p), h.canonical, h.uploads⟩

/-- Steps of the local machine, by what their commits and their ends leave. -/
theorem onWorld_triple {α : Type} {p : Step α} {P I : Durable β → Prop} {Q : α → Durable β → Prop}
    {E : Failure → Durable β → Prop} {R : Durable β → World → World → Prop}
    {Q' : Durable β → α → World → Prop} {E' : Durable β → Failure → World → Prop}
    (hp : ∀ d, P d → Triple (R d) (fun v => v = d.world) p (Q' d) (E' d))
    (hI : ∀ d, P d → ∀ v, Relation.ReflTransGen (R d) d.world v → I (d.commit v))
    (hQ : ∀ d, P d → ∀ a v, Relation.ReflTransGen (R d) d.world v → Q' d a v → Q a (d.commit v))
    (hE : ∀ d, P d → ∀ e v, Relation.ReflTransGen (R d) d.world v → E' d e v → E e (d.commit v)) :
    Triple (fun _ d => I d) P (onWorld p) Q E := by
  refine Triple.zoom commit_world (fun d hd v hv => ?_) (fun d hd a ha => ?_) (fun d hd e he => ?_)
  · exact hI d hd v ((hp d hd).killed rfl hv)
  · exact hQ d hd a _ ((hp d hd).final_reached rfl) ((hp d hd d.world rfl).2.1 a ha)
  · exact hE d hd e _ ((hp d hd).final_reached rfl) ((hp d hd d.world rfl).2.2 e he)

/-- One commit of the local machine. -/
theorem onWorld_write {f : World → World} {P I : Durable β → Prop} {Q : Unit → Durable β → Prop}
    {E : Failure → Durable β → Prop}
    (h : ∀ d, P d → I (d.commit (f d.world)) ∧ Q () (d.commit (f d.world))) :
    Triple (fun _ d => I d) P (onWorld (Prog.write f)) Q E := by
  refine Triple.zoom commit_world (fun d hd v hv => ?_) (fun d hd a _ => ?_) (fun d _ e he => ?_)
  · rw [List.mem_singleton.1 hv]
    exact (h d hd).1
  · exact (h d hd).2
  · cases he

theorem Unconfirming.of_reach {v : World} (h : Relation.ReflTransGen Unconfirming w v) :
    Unconfirming w v := by
  rwa [Relation.reflTransGen_eq_self] at h

end Commit

section Push

/-- The two commits of a push. -/
theorem pushState_triple (label : Str) (env : StoreEnv) :
    Triple (fun _ d' => d' = d.upload label (C.pack d.world.db) ∨
        d' = (d.upload label (C.pack d.world.db)).copyState label)
      (fun d' => d' = d) (pushState C label env)
      (fun _ d' => d' = (d.upload label (C.pack d.world.db)).copyState label)
      (fun _ d' => d' = d ∨ d' = d.upload label (C.pack d.world.db) ∨
        d' = (d.upload label (C.pack d.world.db)).copyState label) := by
  obtain ⟨snapshot, put, copy⟩ := env
  cases snapshot with
  | error e => exact Triple.fail fun _ h => Or.inl h
  | ok _ =>
    refine Triple.get_bind fun d' hd' => ?_
    rw [hd']
    refine Triple.bind (M := fun _ d' => d' = d.upload label (C.pack d.world.db)) ?_ fun _ => ?_
    · cases put with
      | done => exact Triple.write fun d' hd' => hd' ▸ ⟨Or.inl rfl, rfl⟩
      | refused e => exact Triple.fail fun _ h => Or.inl h
      | lost e =>
        refine Triple.bind (M := fun _ d' => d' = d.upload label (C.pack d.world.db))
          (Triple.write fun d' hd' => hd' ▸ ⟨Or.inl rfl, rfl⟩) fun _ => ?_
        exact Triple.fail fun _ h => Or.inr (Or.inl h)
    · cases copy with
      | done => exact Triple.write fun d' hd' => hd' ▸ ⟨Or.inr rfl, rfl⟩
      | refused e => exact Triple.fail fun _ h => Or.inr (Or.inl h)
      | lost e =>
        refine Triple.bind (M := fun _ d' => d' =
          (d.upload label (C.pack d.world.db)).copyState label)
          (Triple.write fun d' hd' => hd' ▸ ⟨Or.inr rfl, rfl⟩) fun _ => ?_
        exact Triple.fail fun _ h => Or.inr (Or.inr h)

theorem Extent.uploaded (hm : Extent m) (log : List Event) (label : Str) :
    m (log ++ [.uploaded label]) = m log := by
  have hconf : confirmations (log ++ [.uploaded label]) = confirmations log :=
    confirmations_concat rfl log
  rcases hm with rfl | rfl
  · rw [settled, settled, hconf, underWay_concat]
    rfl
  · exact hconf

variable {label : Str} {blob : β}

theorem get?_upload_history : (d.upload label blob).bucket.get? (historyKey label) = some blob := by
  rw [Durable.upload, Dict.get?_set, if_pos rfl]

/-- **The upload changes no canonical state.** -/
theorem Consistent.upload (h : Consistent C B₀ K m s d) (hm : Extent m) (hs : Extent s) :
    Consistent C B₀ K m s (d.upload label blob) where
  tables := h.tables
  mirror := by
    rw [show (d.upload label blob).log = d.log ++ [.uploaded label] from rfl, hm.uploaded]
    exact h.mirror
  canonical := by
    rw [show (d.upload label blob).log = d.log ++ [.uploaded label] from rfl, hs.uploaded]
    have hkey : (d.upload label blob).bucket.get? stateKey = d.bucket.get? stateKey := by
      rw [Durable.upload, Dict.get?_set, if_neg (historyKey_ne_stateKey label)]
    unfold CanonicalOk
    rw [hkey]
    exact h.canonical
  uploads hnil := absurd hnil (history_ne_nil get?_upload_history)

/-- **The copy makes the local mirror the canonical one.** -/
theorem Consistent.copied (h : Consistent C B₀ K m s d) (hm : Extent m) :
    Consistent C B₀ K m m ((d.upload label (C.pack d.world.db)).copyState label) := by
  have hcopy : (d.upload label (C.pack d.world.db)).copyState label =
      { d.upload label (C.pack d.world.db) with
        bucket := (d.upload label (C.pack d.world.db)).bucket.set stateKey (C.pack d.world.db) } := by
    rw [Durable.copyState, get?_upload_history]
  rw [hcopy]
  refine ⟨h.tables, ?_, Or.inr ⟨C.pack d.world.db, ?_, ?_, ?_⟩, fun hnil => absurd hnil ?_⟩
  · change Reflects d.world.mirror (K ++ m (d.log ++ [.uploaded label]))
    rw [hm.uploaded]
    exact h.mirror
  · rw [Dict.get?_set, if_pos rfl]
  · rw [C.unpack_pack]
    exact ⟨h.tables.ref, h.tables.count⟩
  · rw [C.unpack_pack]
    change Reflects d.world.mirror (K ++ m (d.log ++ [.uploaded label]))
    rw [hm.uploaded]
    exact h.mirror
  · have hkept : ((d.upload label (C.pack d.world.db)).bucket.set stateKey (C.pack d.world.db)).get?
        (historyKey label) = some (C.pack d.world.db) := by
      rw [Dict.get?_set, if_neg (historyKey_ne_stateKey label).symm]
      exact get?_upload_history
    exact history_ne_nil hkept

/-- A push, whatever becomes of it, is safe. -/
theorem pushState_safe (label : Str) (env : StoreEnv) :
    Triple (fun _ d => Safe C B₀ K d) (Safe C B₀ K) (pushState C label env)
      (fun _ => Safe C B₀ K) (fun _ => Safe C B₀ K) := by
  refine Triple.pre fun d ⟨m, s, hm, hs, h⟩ => ?_
  have hup : Safe C B₀ K (d.upload label (C.pack d.world.db)) := ⟨m, s, hm, hs, h.upload hm hs⟩
  have hcopied : Safe C B₀ K ((d.upload label (C.pack d.world.db)).copyState label) :=
    ⟨m, m, hm, hm, h.copied hm⟩
  refine ((pushState_triple label env).mono fun _ d' hd' => ?_).consequence (fun _ hd' => hd')
    (fun _ d' hd' => hd' ▸ hcopied) (fun _ d' hd' => ?_)
  · rcases hd' with rfl | rfl
    · exact hup
    · exact hcopied
  · rcases hd' with rfl | rfl | rfl
    · exact ⟨m, s, hm, hs, h⟩
    · exact hup
    · exact hcopied

end Push

section Batch

variable {b : ℕ} {todo : List Batch} {way : Option ℕ}

/-- **Where a batch stands**: `todo` are the batches after it, `way` is the batch under way,
and `m` and `s` are what the local mirror and the canonical state reflect. -/
structure Stage (C : Codec β) (B₀ : Bucket β) (K : List BatchItem) (todo : List Batch)
    (way : Option ℕ) (m s : List Event → List BatchItem) (d : Durable β) : Prop
    extends Consistent C B₀ K m s d where
  way : underWay d.log = way
  ready : Ready todo d.world
  done : ∀ i ∈ confirmations d.log, i.batchId ∉ todo.map Batch.id

/-- Before the merge: the log has the batch's confirmed items after the settled ones. -/
structure Unmerged (C : Codec β) (B₀ : Bucket β) (K : List BatchItem) (todo : List Batch) (b : ℕ)
    (d : Durable β) : Prop extends Stage C B₀ K todo (some b) settled settled d where
  apart : b ∉ todo.map Batch.id
  confirmed : ∃ cs, confirmations d.log = settled d.log ++ cs ∧
    ∀ i, i ∈ cs ↔ i ∈ d.world.items ∧ i.batchId = b ∧ i.status = .confirmed

theorem Stage.safe (h : Stage C B₀ K todo way m s d) (hm : Extent m) (hs : Extent s) :
    Safe C B₀ K d := ⟨m, s, hm, hs, h.toConsistent⟩

theorem Unmerged.safe (h : Unmerged C B₀ K todo b d) : Safe C B₀ K d :=
  h.toStage.safe (Or.inl rfl) (Or.inl rfl)

theorem settled_ne (h : underWay d.log = some b) : ∀ i ∈ settled d.log, i.batchId ≠ b := by
  intro i hi hib
  refine of_decide_eq_true (List.mem_filter.1 hi).2 ?_
  rw [h, hib]

/-- **A calm commit of the batch keeps it unmerged**: what it confirms goes to the log. -/
theorem Unmerged.commit (h : Unmerged C B₀ K todo b d) (hw : Calm b d.world w) :
    Unmerged C B₀ K todo b (d.commit w) := by
  obtain ⟨cs, hlog, hcs⟩ := h.confirmed
  have hway : underWay (d.commit w).log = some b :=
    (underWay_append_confirmed d.log (newlyConfirmed d.world w)).trans h.way
  have hconf : confirmations (d.commit w).log = settled d.log ++ (cs ++ newlyConfirmed d.world w) := by
    rw [Durable.commit, confirmations_append, confirmations_confirmed, hlog, List.append_assoc]
  have hmem : ∀ i, i ∈ cs ++ newlyConfirmed d.world w ↔
      i ∈ w.items ∧ i.batchId = b ∧ i.status = .confirmed := by
    intro i
    rw [List.mem_append, hcs, hw.confirmed_iff]
  -- the batch under way is not settled, so its confirmations do not count yet
  have hsettled : settled (d.commit w).log = settled d.log :=
    settled_of_some hway hconf (settled_ne h.way) fun i hi => ((hmem i).1 hi).2.1
  refine ⟨⟨⟨hw.tables h.tables, ?_, ?_, ?_⟩, hway, ⟨h.ready.nodup, ?_⟩, ?_⟩, h.apart, ?_⟩
  · rw [hsettled]
    change Reflects w.mirror _
    rw [hw.mirror]
    exact h.mirror
  · rw [hsettled]
    exact h.canonical
  · refine h.uploads.append fun label hl => ?_
    obtain ⟨i, -, hi⟩ := List.mem_map.1 hl
    cases hi
  · intro i hi hid
    have hib : i.batchId ≠ b := fun hib => h.apart (hib ▸ hid)
    exact h.ready.waiting i ((hw.others i hib).1 hi) hid
  · intro i hi
    rw [hconf] at hi
    rcases List.mem_append.1 hi with hi | hi
    · refine h.done i ?_
      rw [hlog]
      exact List.mem_append_left _ hi
    · rw [((hmem i).1 hi).2.1]
      exact h.apart
  · exact ⟨_, by rw [hconf, hsettled], hmem⟩

/-- A step of the batch before its checkpoint. -/
theorem Unmerged.step {α : Type} {p : Step α} {Q : World → α → World → Prop}
    {E : World → Failure → World → Prop}
    (hp : ∀ w, Triple (Quiet D {b}) (fun v => v = w) p (Q w) (E w)) :
    Triple (fun _ d => Safe C B₀ K d) (Unmerged C B₀ K todo b) (onWorld p)
      (fun _ => Unmerged C B₀ K todo b) (fun _ => Safe C B₀ K) := by
  have hcommit : ∀ d, Unmerged C B₀ K todo b d → ∀ v,
      Relation.ReflTransGen (Quiet D {b}) d.world v → Unmerged C B₀ K todo b (d.commit v) :=
    fun d hd v hv => hd.commit (Calm.of_reach hv)
  exact onWorld_triple (fun d _ => hp d.world) (fun d hd v hv => (hcommit d hd v hv).safe)
    (fun d hd _ v hv _ => hcommit d hd v hv) fun d hd _ v hv _ => (hcommit d hd v hv).safe

/-- **The merge**: the local mirror reflects the batch's confirmations too. -/
theorem Unmerged.merge (h : Unmerged C B₀ K todo b d) (hw : MergedFrom b d.world w) :
    Stage C B₀ K todo (some b) confirmations settled (d.commit w) := by
  obtain ⟨cs, hlog, hcs⟩ := h.confirmed
  rw [commit_of_unconfirming hw.confirmed]
  refine ⟨⟨hw.tables h.tables, fun p => ?_, h.canonical, h.uploads⟩, h.way, ⟨h.ready.nodup, ?_⟩,
    h.done⟩
  · change recorded w.mirror p = latest (K ++ confirmations d.log) p
    rw [hw.recorded cs hcs, h.mirror p, hlog, ← List.append_assoc, latest_append _ cs]
  · intro i hi hid
    have hib : i.batchId ≠ b := fun hib => h.apart (hib ▸ hid)
    exact h.ready.waiting i ((hw.others i hib).1 hi) hid

theorem merge_safe (runId : ℕ) : Triple (fun _ d => Safe C B₀ K d) (Unmerged C B₀ K todo b)
    (onWorld (mergeBatch runId b)) (fun _ => Stage C B₀ K todo (some b) confirmations settled)
    (fun _ => Safe C B₀ K) := by
  refine Triple.zoom commit_world (fun d hd v hv => ?_) (fun d hd a ha => ?_) (fun d hd e he => ?_)
  · refine (hd.merge ?_).safe (Or.inr rfl) (Or.inl rfl)
    exact mergeBatch_triple.states rfl v hv
  · exact hd.merge ((mergeBatch_triple d.world rfl).2.1 a ha)
  · rw [(mergeBatch_triple d.world rfl).2.2 e he, commit_world]
    exact hd.safe

/-- **The push**: the canonical state reflects the batch's confirmations too. -/
theorem pushState_stage (label : Str) (env : StoreEnv) :
    Triple (fun _ d => Safe C B₀ K d) (Stage C B₀ K todo (some b) confirmations settled)
      (pushState C label env) (fun _ => Stage C B₀ K todo (some b) confirmations confirmations)
      (fun _ => Safe C B₀ K) := by
  refine Triple.pre fun d hd => ?_
  have hsafe := hd.safe (Or.inr rfl) (Or.inl rfl)
  have hcopied : Stage C B₀ K todo (some b) confirmations confirmations
      ((d.upload label (C.pack d.world.db)).copyState label) := by
    refine ⟨hd.copied (Or.inr rfl), ?_, ?_, ?_⟩
    all_goals rw [Durable.copyState, get?_upload_history]
    · exact (underWay_concat d.log _).trans hd.way
    · exact hd.ready
    · intro i hi
      refine hd.done i ?_
      rwa [← confirmations_concat (e := .uploaded label) rfl d.log]
  have hpush := pushState_triple (C := C) (d := d) label env
  obtain ⟨-, hok, -⟩ := hpush d rfl
  refine fun d' hd' => ?_
  subst hd'
  exact ⟨(pushState_safe label env d' hsafe).1, fun a ha => hok a ha ▸ hcopied,
    (pushState_safe label env d' hsafe).2.2⟩

/-- A commit that touches no item, no batch but its status, and no mirror row. -/
structure Unmoved (v w : World) : Prop where
  items : w.items = v.items
  batches : SameBatches v w
  recorded : ∀ p, recorded w.mirror p = recorded v.mirror p

theorem Unmoved.unconfirming {v : World} (h : Unmoved v w) : Unconfirming v w where
  tables := TablesOk.of_same (by
    rw [h.items]
    exact List.forall₂_same.2 fun _ _ => ⟨rfl, rfl, rfl, rfl, rfl⟩) h.batches
  recorded := h.recorded
  confirmed i hi _ := h.items ▸ hi

theorem Stage.commit (h : Stage C B₀ K todo way m s d) (hw : Unmoved d.world w) :
    Stage C B₀ K todo way m s (d.commit w) := by
  refine ⟨h.toConsistent.commit hw.unconfirming, ?_, ⟨h.ready.nodup, ?_⟩, ?_⟩
  all_goals rw [commit_of_unconfirming hw.unconfirming.confirmed]
  · exact h.way
  · intro i hi
    exact h.ready.waiting i (hw.items ▸ hi)
  · exact h.done

theorem Safe.commit (h : Safe C B₀ K d) (hw : Unconfirming d.world w) : Safe C B₀ K (d.commit w) := by
  obtain ⟨m, s, hm, hs, h⟩ := h
  exact ⟨m, s, hm, hs, h.commit hw⟩

/-- **The five steps of a batch, with their push.** -/
theorem stateSteps_safe (runId : ℕ) (label : Str) (env : BatchEnv) (store : StoreEnv) :
    Triple (fun _ d => Safe C B₀ K d) (Unmerged C B₀ K todo b)
      (stateSteps C D runId b label env store)
      (fun _ => Stage C B₀ K todo (some b) confirmations confirmations)
      (fun _ => Safe C B₀ K) := by
  have hfetch : ∀ w, Triple (Quiet D {b}) (fun v => v = w) (fetchWithToken b env)
      (fun _ _ => True) (fun _ _ => True) := by
    intro w
    unfold fetchWithToken
    cases env.token with
    | error e => exact Triple.fail fun _ _ => trivial
    | ok _ =>
      exact (fetch_triple env.pool env.download).consequence (fun _ h => h) (fun _ _ _ => trivial)
        (fun _ _ h => h)
  unfold stateSteps
  refine (Unmerged.step hfetch).bind fun _ =>
    (Unmerged.step fun _ => verify_triple (D := D) env.readable).bind fun _ =>
      (Unmerged.step fun _ => upload_triple (D := D) env.upload).bind fun _ =>
        (Unmerged.step fun _ => confirm_triple (D := D)).bind fun _ =>
          Triple.bind (M := fun _ => Stage C B₀ K todo (some b) confirmations confirmations) ?_
            fun _ => Triple.pure fun _ h => h
  unfold checkpointState
  refine (merge_safe runId).bind fun _ => (pushState_stage label store).bind fun _ =>
    Triple.bind (M := fun _ => Stage C B₀ K todo (some b) confirmations confirmations) ?_
      fun _ => Triple.pure fun _ h => h
  refine onWorld_write fun d hd => ?_
  have hclear : Unmoved d.world { d.world with staging := Staging.cleared } :=
    ⟨rfl, SameBatches.of_eq rfl, fun _ => rfl⟩
  exact ⟨(hd.commit hclear).safe (Or.inr rfl) (Or.inr rfl), hd.commit hclear⟩

/-- The commit of `started_at`: the batch is under way, with nothing confirmed. -/
theorem began_safe {row : Batch} {rest : List Batch} :
    Triple (fun _ d => Safe C B₀ K d)
      (Stage C B₀ K (row :: rest) none confirmations confirmations) (note (.began row.id))
      (fun _ => Unmerged C B₀ K rest row.id) (fun _ => Safe C B₀ K) := by
  refine Triple.write fun d hd => (and_self_iff.2 ?_).imp_left Unmerged.safe
  have hnodup := hd.ready.nodup
  rw [List.map_cons, List.nodup_cons] at hnodup
  have hconf : confirmations (d.log ++ [.began row.id]) = confirmations d.log :=
    confirmations_concat rfl d.log
  have hway : underWay (d.log ++ [.began row.id]) = some row.id := underWay_concat d.log _
  have hsettled : settled (d.log ++ [.began row.id]) = confirmations d.log := by
    refine settled_of_some hway (hconf.trans (List.append_nil _).symm) ?_ (by simp)
    intro i hi hid
    exact hd.done i hi (by rw [hid]; exact List.mem_cons_self)
  refine ⟨⟨⟨hd.tables, ?_, ?_, hd.uploads.append (by simp)⟩, hway, ⟨hnodup.2, ?_⟩, ?_⟩,
    hnodup.1, [], ?_, ?_⟩
  · rw [hsettled]
    exact hd.mirror
  · rw [hsettled]
    exact hd.canonical
  · exact fun i hi hid => hd.ready.waiting i hi (List.mem_cons_of_mem _ hid)
  · intro i hi hid
    rw [hconf] at hi
    exact hd.done i hi (List.mem_cons_of_mem _ hid)
  · rw [hconf, hsettled, List.append_nil]
  · refine fun i => ⟨fun hi => absurd hi List.not_mem_nil, ?_⟩
    rintro ⟨hi, hid, hst⟩
    -- the batch's items wait
    have hwait := hd.ready.waiting i hi (by rw [hid]; exact List.mem_cons_self)
    rw [hst] at hwait
    cases hwait

/-- The commit of a batch's details: no batch is under way. -/
theorem ended_safe : Triple (fun _ d => Safe C B₀ K d)
    (Stage C B₀ K todo (some b) confirmations confirmations) (note (.ended b))
    (fun _ => Stage C B₀ K todo none confirmations confirmations) (fun _ => Safe C B₀ K) := by
  refine Triple.write fun d hd =>
    (and_self_iff.2 ?_).imp_left fun h => Stage.safe h (Or.inr rfl) (Or.inr rfl)
  have hconf : confirmations (d.log ++ [.ended b]) = confirmations d.log :=
    confirmations_concat rfl d.log
  refine ⟨⟨hd.tables, ?_, ?_, hd.uploads.append (by simp)⟩, underWay_concat d.log _, hd.ready, ?_⟩
  · rw [hconf]
    exact hd.mirror
  · rw [hconf]
    exact hd.canonical
  · rw [hconf]
    exact hd.done

/-- The handler of a step that raises. -/
theorem failBatch_safe {α : Type} (planned completed : ℕ) (e : Failure)
    {Q : α → Durable β → Prop} : Triple (fun _ d => Safe C B₀ K d) (Safe C B₀ K)
      (onWorld (failBatch planned completed b e)) Q (fun _ => Safe C B₀ K) := by
  have hmoved : ∀ w, Triple Unconfirming (fun v => v = w)
      (failBatch planned completed b e : Step α) (fun _ _ => False) (fun _ _ => True) := by
    intro w
    unfold failBatch
    refine Triple.bind (M := fun _ _ => True) (Triple.write fun v _ => ⟨?_, trivial⟩) fun _ =>
      Triple.bind (M := fun _ _ => True) (Triple.write fun v _ => ⟨?_, trivial⟩) fun _ =>
        Triple.fail fun _ _ => trivial
    · exact Unmoved.unconfirming ⟨rfl, SameBatches.of_setBatch rfl, fun _ => rfl⟩
    · exact Unmoved.unconfirming ⟨rfl, SameBatches.of_eq rfl, fun _ => rfl⟩
  exact onWorld_triple (fun d _ => hmoved d.world) (fun d hd v hv => hd.commit (.of_reach hv))
    (fun _ _ _ _ _ hf => hf.elim) fun d hd _ v hv _ => hd.commit (.of_reach hv)

/-- **The loop over the batches**: every commit of it is safe. -/
theorem stateLoop_safe (r : RunEnv) (planned : ℕ) (progress : Progress) :
    Triple (fun _ d => Safe C B₀ K d) (Stage C B₀ K todo none confirmations confirmations)
      (stateLoop C D r planned todo progress) (fun _ => Safe C B₀ K) (fun _ => Safe C B₀ K) := by
  induction todo generalizing progress with
  | nil =>
    unfold stateLoop
    exact Triple.pure fun _ h => h.safe (Or.inr rfl) (Or.inr rfl)
  | cons row rest ih =>
    unfold stateLoop
    split
    · refine began_safe.bind fun _ => (Triple.catchError (stateSteps_safe r.runId _ _ _)
        fun e => failBatch_safe planned progress.completed e).bind fun counts =>
          ended_safe.bind fun _ => Triple.get_bind fun d hd => ?_
      dsimp only
      split
      · exact Triple.pure fun d' hd' => hd' ▸ hd.safe (Or.inr rfl) (Or.inr rfl)
      · exact (ih _).consequence (fun d' hd' => hd' ▸ hd) (fun _ _ h => h) (fun _ _ h => h)
    · exact Triple.pure fun _ h => h.safe (Or.inr rfl) (Or.inr rfl)

/-- **The batches phase.** -/
theorem stateBatches_safe (r : RunEnv) :
    Triple (fun _ d => Safe C B₀ K d)
      (fun d => Stage C B₀ K (d.world.plannedBatches r.runId) none confirmations confirmations d)
      (stateBatches C D r) (fun _ => Safe C B₀ K) (fun _ => Safe C B₀ K) := by
  unfold stateBatches
  refine Triple.get_bind fun d hd => ?_
  have hsafe := hd.safe (Or.inr rfl) (Or.inr rfl)
  dsimp only
  cases r.root with
  | error e => exact Triple.fail fun d' hd' => hd' ▸ hsafe
  | ok _ =>
    refine ((stateLoop_safe r _ _).consequence (fun d' hd' => hd' ▸ hd) (fun _ _ h => h)
      (fun _ _ h => h)).bind fun progress => Triple.bind (M := fun _ => Safe C B₀ K) ?_ fun _ => ?_
    · refine onWorld_write fun d hd => and_self_iff.2 (hd.commit ?_)
      exact Unmoved.unconfirming ⟨rfl, SameBatches.of_eq rfl, fun _ => rfl⟩
    · cases progress.failedBatch with
      | some number => exact Triple.fail fun _ h => h
      | none =>
        dsimp only
        split
        · exact Triple.fail fun _ h => h
        · exact Triple.pure fun _ h => h

end Batch

section Runs

/-- **A run from its `state` step to its last batch** is safe wherever it stops. -/
theorem pipeline_safe (r : RunEnv) (htables : TablesOk w) (hmirror : Reflects w.mirror K) :
    Triple (fun _ d => Safe C B₀ K d) (fun d => d = ⟨w, B₀, []⟩) (pipeline C D r)
      (fun _ => Safe C B₀ K) (fun _ => Safe C B₀ K) := by
  have hstart : Stage C B₀ K [] none confirmations confirmations ⟨w, B₀, []⟩ := by
    refine ⟨⟨htables, ?_, Or.inl ⟨rfl, rfl⟩, fun hnil => ⟨hnil, fun _ => List.not_mem_nil⟩⟩, rfl,
      ⟨List.nodup_nil, fun _ _ hid => absurd hid List.not_mem_nil⟩, fun _ _ => List.not_mem_nil⟩
    change Reflects w.mirror (K ++ [])
    rw [List.append_nil]
    exact hmirror
  -- the new run row confirms nothing
  have hrun : Unmoved w { w with run := ⟨none, none, false⟩ } :=
    ⟨rfl, SameBatches.of_eq rfl, fun _ => rfl⟩
  have hcommit := hstart.commit hrun
  unfold pipeline
  refine Triple.bind (M := fun _ d => Stage C B₀ K [] none confirmations confirmations d ∧ d.log = [])
    (onWorld_write fun d hd => ?_) fun _ => ?_
  · subst hd
    exact ⟨hcommit.safe (Or.inr rfl) (Or.inr rfl), hcommit,
      congrArg Durable.log (commit_of_unconfirming hrun.unconfirming.confirmed)⟩
  refine Triple.bind (M := fun _ d =>
    Stage C B₀ K (d.world.plannedBatches r.runId) none confirmations confirmations d) ?_ fun _ =>
      Triple.bind (M := fun _ => Safe C B₀ K) (stateBatches_safe r) fun _ => Triple.pure fun _ h => h
  -- nor does any commit of the plan
  have hsafe : ∀ d, Stage C B₀ K [] none confirmations confirmations d ∧ d.log = [] →
      ∀ v, Unconfirming d.world v → Safe C B₀ K (d.commit v) := fun d hd v hv =>
    (hd.1.safe (Or.inr rfl) (Or.inr rfl)).commit hv
  refine onWorld_triple
    (fun d hd => (planRun_triple r.budget r.free r.runId r.listing r.delta hd.1.tables).mono
      fun _ _ h => h.1.unconfirming)
    (fun d hd v hv => hsafe d hd v (.of_reach hv)) (fun d hd a v hv hplan => ?_)
    (fun d hd e v hv _ => hsafe d hd v (.of_reach hv))
  obtain ⟨hd, hlog⟩ := hd
  have hw : Unconfirming d.world v := .of_reach hv
  refine ⟨hd.toConsistent.commit hw, ?_, ready_of_inserted hd.tables hplan _, ?_⟩
  all_goals rw [commit_of_unconfirming hw.confirmed]
  · exact hd.way
  · intro i hi
    dsimp only at hi
    rw [hlog] at hi
    exact absurd hi List.not_mem_nil

/-- **What comes after the batches, or after a failure**: phases that remove nothing, and
their pushes, each of which may be killed. -/
inductive Afterwards (C : Codec β) (d : Durable β) : Durable β → Prop
  | nothing : Afterwards C d d
  | phase {d' : Durable β} (h : Afterwards C d d') {w : World} (hw : Unmoved d'.world w) :
      Afterwards C d (d'.commit w)
  | push {d' d'' : Durable β} (h : Afterwards C d d') (label : Str) (env : StoreEnv)
      (hd : d'' ∈ (pushState C label env d').states) : Afterwards C d d''

theorem Afterwards.safe {d' : Durable β} (h : Afterwards C d d') (hd : Safe C B₀ K d) :
    Safe C B₀ K d' := by
  induction h with
  | nothing => exact hd
  | phase _ hw ih => exact ih.commit hw.unconfirming
  | push _ label env hd' ih => exact (pushState_safe label env).states ih _ hd'

/-- **Sequences of runs from an empty bucket**, with the log of each run. A run whose
`fetch` is refused does nothing. Any other run starts from what it fetched, on a machine
that may hold anything, is killed after any of its commits or fails, and may still push
afterwards. -/
inductive Runs (C : Codec β) (D : Digests) : List (List Event) → Bucket β → Prop
  | empty : Runs C D [] Table.empty
  | refused {logs : List (List Event)} {B : Bucket β} (h : Runs C D logs B) {env : FetchEnv}
      {e : FetchError} (hfetch : fetchState C env B = .error e) : Runs C D (logs ++ [[]]) B
  | run {logs : List (List Event)} {B : Bucket β} (h : Runs C D logs B) {env : FetchEnv}
      {fetched : Fetched} (hfetch : fetchState C env B = .ok fetched) (machine : World) (r : RunEnv)
      {commits : List (Durable β)}
      (hpre : commits <+: (pipeline C D r ⟨machine.withDb fetched.db, B, []⟩).states)
      {d : Durable β}
      (hafter : Afterwards C (commits.getLastD ⟨machine.withDb fetched.db, B, []⟩) d) :
      Runs C D (logs ++ [d.log]) d.bucket

/-- What may be left out of a run's confirmations: those of the batch under way when it
stopped. -/
def Kept (log : List Event) (cs : List BatchItem) : Prop := cs = settled log ∨ cs = confirmations log

/-- **A mirror that has recovered the runs**: for every path it has the size and the hash of
the latest confirmation, leaving out at most the batch under way when each run stopped. -/
def Recovered (logs : List (List Event)) (M : Mirror) : Prop :=
  ∃ kept, List.Forall₂ Kept logs kept ∧ Reflects M kept.flatten

/-- What holds of the bucket after a sequence of runs. -/
structure BucketOk (C : Codec β) (logs : List (List Event)) (B : Bucket β) : Prop where
  state : ∃ kept, List.Forall₂ Kept logs kept ∧
    (B.get? stateKey = none ∧ kept.flatten = [] ∨
      ∃ blob, B.get? stateKey = some blob ∧ Stored C kept.flatten blob)
  uploads : B.history = [] → ∀ log ∈ logs, ∀ label, Event.uploaded label ∉ log

/-- What a `fetch` that is not refused finds. -/
theorem fetchState_ok {env : FetchEnv} {B : Bucket β} {o : Fetched} (h : fetchState C env B = .ok o) :
    (o = .fresh ∧ B.get? stateKey = none ∧ B.history = []) ∨
      ∃ blob, B.get? stateKey = some blob ∧ o = .restored (C.unpack blob) := by
  unfold fetchState at h
  split at h
  · cases h
  split at h
  · rename_i hstate
    split at h
    · cases h
    split at h
    · cases h
    rename_i hnil
    split at h
    · cases h
    · cases h
      exact Or.inl ⟨rfl, hstate, not_not.1 hnil⟩
  · rename_i blob hstate
    split at h
    · cases h
    · cases h
      exact Or.inr ⟨blob, hstate, rfl⟩

/-- **A run keeps the bucket's law.** -/
theorem BucketOk.run {logs : List (List Event)} {B : Bucket β} (h : BucketOk C logs B)
    {env : FetchEnv} {o : Fetched} (hfetch : fetchState C env B = .ok o) (machine : World)
    (r : RunEnv) {commits : List (Durable β)}
    (hpre : commits <+: (pipeline C D r ⟨machine.withDb o.db, B, []⟩).states)
    (hafter : Afterwards C (commits.getLastD ⟨machine.withDb o.db, B, []⟩) d) :
    BucketOk C (logs ++ [d.log]) d.bucket := by
  obtain ⟨kept, hkept, hstate⟩ := h.state
  -- the run starts from an empty database or from the stored one
  have hdb : TablesOk (machine.withDb o.db) ∧ Reflects o.db.mirror kept.flatten := by
    rcases fetchState_ok hfetch with ⟨rfl, hnone, -⟩ | ⟨blob, hblob, rfl⟩
    · rcases hstate with ⟨-, hnil⟩ | ⟨blob, hblob, -⟩
      · rw [hnil]
        exact ⟨⟨fun i hi => absurd hi List.not_mem_nil, fun i hi => absurd hi List.not_mem_nil⟩,
          reflects_empty⟩
      · rw [hnone] at hblob
        cases hblob
    · rcases hstate with ⟨hnone, -⟩ | ⟨blob', hblob', hstored⟩
      · rw [hnone] at hblob
        cases hblob
      · obtain rfl := Option.some.inj (hblob.symm.trans hblob')
        exact ⟨⟨hstored.tables.ref, hstored.tables.count⟩, hstored.mirror⟩
  have hpipeline : Triple (fun _ d => Safe C B kept.flatten d)
      (fun d => d = ⟨machine.withDb o.db, B, []⟩) (pipeline C D r) (fun _ => Safe C B kept.flatten)
      (fun _ => Safe C B kept.flatten) := pipeline_safe r hdb.1 hdb.2
  have hstop : Safe C B kept.flatten (commits.getLastD ⟨machine.withDb o.db, B, []⟩) := by
    rcases List.eq_nil_or_concat commits with rfl | ⟨before, d₁, rfl⟩
    · -- killed before the first commit
      refine ⟨confirmations, confirmations, Or.inr rfl, Or.inr rfl, hdb.1, ?_, Or.inl ⟨rfl, rfl⟩,
        fun hnil => ⟨hnil, fun _ => List.not_mem_nil⟩⟩
      change Reflects o.db.mirror (kept.flatten ++ [])
      rw [List.append_nil]
      exact hdb.2
    · rw [List.concat_eq_append, List.getLastD_concat]
      exact hpipeline.states rfl d₁ (hpre.subset (by simp))
  -- whatever is kept of the log is what it settled, or all it confirmed
  obtain ⟨m, s, hm, hs, hd⟩ := hafter.safe hstop
  have hone : Kept d.log (s d.log) := by
    rcases hs with rfl | rfl
    · exact Or.inl rfl
    · exact Or.inr rfl
  refine ⟨⟨kept ++ [s d.log], List.rel_append hkept (List.Forall₂.cons hone List.Forall₂.nil), ?_⟩,
    fun hnil log hlog => ?_⟩
  · rw [List.flatten_append, List.flatten_singleton]
    rcases hd.canonical with ⟨hsame, hnil⟩ | hsome
    · rw [hsame, hnil, List.append_nil]
      exact hstate
    · exact Or.inr hsome
  · obtain ⟨hnil₀, hno⟩ := hd.uploads hnil
    rcases List.mem_append.1 hlog with hlog | hlog
    · exact h.uploads hnil₀ log hlog
    · rw [List.mem_singleton.1 hlog]
      exact hno

/-- **Every sequence of runs keeps the bucket's law.** -/
theorem runs_ok {logs : List (List Event)} {B : Bucket β} (h : Runs C D logs B) :
    BucketOk C logs B := by
  induction h with
  | empty =>
    exact ⟨⟨[], List.Forall₂.nil, Or.inl ⟨rfl, rfl⟩⟩,
      fun _ log hlog => absurd hlog List.not_mem_nil⟩
  | refused _ _ ih =>
    obtain ⟨kept, hkept, hstate⟩ := ih.state
    refine ⟨⟨kept ++ [[]], List.rel_append hkept (List.Forall₂.cons (Or.inr rfl) List.Forall₂.nil), ?_⟩,
      fun hnil log hlog => ?_⟩
    · rw [List.flatten_append, List.flatten_singleton, List.append_nil]
      exact hstate
    · rcases List.mem_append.1 hlog with hlog | hlog
      · exact ih.uploads hnil log hlog
      · rw [List.mem_singleton.1 hlog]
        exact fun _ => List.not_mem_nil
  | run _ hfetch machine r hpre hafter ih => exact ih.run hfetch machine r hpre hafter

/-- **A killed run repeats at most one batch and never looks like an empty mirror**: after
any sequence of runs, the next `fetch` is refused, or its mirror has recovered them; and it
answers `fresh` only if no push has ever completed its history upload. -/
theorem killed_run_repeats_one {logs : List (List Event)} {B : Bucket β} (h : Runs C D logs B)
    {env : FetchEnv} {o : Fetched} (hfetch : fetchState C env B = .ok o) :
    Recovered logs o.db.mirror ∧
      (o = .fresh → ∀ log ∈ logs, ∀ label, Event.uploaded label ∉ log) := by
  have hok := runs_ok h
  obtain ⟨kept, hkept, hstate⟩ := hok.state
  rcases fetchState_ok hfetch with ⟨rfl, hnone, hnil⟩ | ⟨blob, hblob, rfl⟩
  · refine ⟨⟨kept, hkept, ?_⟩, fun _ => hok.uploads hnil⟩
    rcases hstate with ⟨-, hempty⟩ | ⟨blob, hblob, -⟩
    · rw [hempty]
      exact reflects_empty
    · rw [hnone] at hblob
      cases hblob
  · refine ⟨⟨kept, hkept, ?_⟩, fun hfresh => by cases hfresh⟩
    rcases hstate with ⟨hnone, -⟩ | ⟨blob', hblob', hstored⟩
    · rw [hnone] at hblob
      cases hblob
    · obtain rfl := Option.some.inj (hblob.symm.trans hblob')
      exact hstored.mirror

end Runs

section OneRun

/-- Snapshots kept as they are. -/
def plainCodec : Codec StateDb := ⟨id, id, fun _ => rfl⟩

/-- A run with one batch of one file. -/
def oneRun : RunEnv where
  runId := 1
  epoch := 7
  budget := Budget.small
  minutes := 60
  free := 100
  listing := Table.empty
  delta := oneFileDelta
  root := .ok ()
  batch _ := smoothEnv
  store _ := ⟨.ok (), .done, .done⟩

/-- A new machine beside an empty bucket. -/
def oneRunStart : Durable StateDb := ⟨World.initial.withDb StateDb.empty, Table.empty, []⟩

/-- What the run leaves. -/
def oneRunEnd : Durable StateDb := (pipeline plainCodec Digests.plain oneRun).final oneRunStart

/-- What the next run restores. -/
def oneRunState : StateDb := (oneRunEnd.bucket.get? stateKey).getD StateDb.empty

theorem runs_oneRun : Runs plainCodec Digests.plain [oneRunEnd.log] oneRunEnd.bucket := by
  have hfetch : fetchState plainCodec ⟨true, true, true, true⟩ Table.empty = .ok .fresh := rfl
  exact Runs.run Runs.empty hfetch World.initial oneRun (List.prefix_refl _) Afterwards.nothing

/-- The next night finds another file. -/
def nextRun : RunEnv :=
  { oneRun with
    runId := 2
    epoch := 8
    delta := { oneFileDelta with
      changed := ⟨[⟨2, "/b".toList, "/B".toList, 2, "hi".toList⟩], List.nodup_singleton _⟩ } }

/-- A new machine with what the first run left. -/
def nextStart : Durable StateDb := ⟨World.initial.withDb oneRunState, oneRunEnd.bucket, []⟩

/-- The commits of the second run, up to its history upload. -/
def nextCommits : List (Durable StateDb) :=
  (pipeline plainCodec Digests.plain nextRun nextStart).states.take 13

/-- What the second run leaves: it is killed before the copy. -/
def nextKilled : Durable StateDb := nextCommits.getLastD nextStart

theorem runs_nextKilled :
    Runs plainCodec Digests.plain [oneRunEnd.log, nextKilled.log] nextKilled.bucket := by
  have hfetch : fetchState plainCodec ⟨true, true, true, true⟩ oneRunEnd.bucket =
      .ok (.restored oneRunState) := rfl
  exact Runs.run runs_oneRun hfetch World.initial nextRun (List.take_prefix 13 _) Afterwards.nothing

/-- After a run that ends and one that is killed between its history upload and its copy, the
next one restores the first one's file: the batch under way is repeated. -/
theorem killed_run_repeats_one_oneRun :
    Recovered [oneRunEnd.log, nextKilled.log] oneRunState.mirror ∧
      nextKilled.log.length = 3 ∧ nextKilled.bucket.size = 3 ∧
      recorded oneRunState.mirror "/a".toList = some (2, "hi".toList) ∧
      recorded oneRunState.mirror "/b".toList = none := by
  have hfetch : fetchState plainCodec ⟨true, true, true, true⟩ nextKilled.bucket =
      .ok (.restored oneRunState) := rfl
  exact ⟨(killed_run_repeats_one runs_nextKilled hfetch).1, rfl, rfl, rfl, rfl⟩

end OneRun

end DropboxMirror
