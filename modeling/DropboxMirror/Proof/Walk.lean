import DropboxMirror.Proof.Snapshot

/-!
# The walk loses and repeats nothing

Over any schedule of an honest CLI, the folders a snapshot still has to list are those
in the queues and in flight (`MemInv`), each commit keeps the tables sound (`DbInv`),
and so does each kill and each resumed walk (`Reached`).

* `dispatch_ok`, `collect_triple`, `walkTurn_triple`: the parts of a turn.
* `walkInventory_triple`: a walk from any sound database.
* `walk_exact`: nothing lost, nothing repeated, and a complete snapshot is the tree.
-/

namespace DropboxMirror

open Text Crash

variable {U : Unicode} {T : Tree} {F : ℕ → Tree} {cfg : WalkConfig} {snapshotId : ℕ}
  {db db' : ProtonDb}
  {v v' : SnapshotView} {mem mem' : Walk}

/-- The snapshots of the walk: those of its purpose and its destination. -/
def WalkConfig.Owns (cfg : WalkConfig) (s : ProtonSnapshot) : Prop :=
  s.purpose = cfg.purpose ∧ s.destinationRoot = cfg.destination

/-- No row has the id. -/
def SnapshotView.blank : SnapshotView := ⟨fun _ => none, fun _ => none, fun _ => False⟩

/-- **What the tables keep**, each snapshot about its own tree: the snapshots of the walk are
sound, the complete ones have no folder left to list, an id without a snapshot has no rows,
and no folder's listing was committed twice. -/
structure DbInv (U : Unicode) (F : ℕ → Tree) (cfg : WalkConfig) (db : ProtonDb) : Prop where
  sound : ∀ s ∈ db.snapshots, cfg.Owns s → Sound U (F s.id) (db.view s.id)
  closed : ∀ s ∈ db.snapshots, cfg.Owns s → s.status = .complete → ∀ u, ¬ (db.view s.id).Waiting u
  blank : ∀ id, (∀ s ∈ db.snapshots, s.id ≠ id) → db.view id = SnapshotView.blank
  once : db.commits.Nodup

/-- The snapshot being walked is open. -/
def Open (cfg : WalkConfig) (db : ProtonDb) (snapshotId : ℕ) : Prop :=
  ∃ s ∈ db.snapshots, s.id = snapshotId ∧ cfg.Owns s

/-- The folders in memory: those in the queues and those in flight. -/
def Walk.uids (mem : Walk) : List Str := mem.queues.flatten ++ mem.inFlight.map fun f => f.folder.uid

/-- **What the memory keeps**: the folders in the queues and in flight are those that
wait, each once. -/
structure MemInv (cfg : WalkConfig) (v : SnapshotView) (mem : Walk) : Prop where
  queues : mem.queues.length = cfg.workers
  worker : ∀ f ∈ mem.inFlight, f.worker < cfg.workers
  nodup : mem.uids.Nodup
  waiting : ∀ u, u ∈ mem.uids ↔ v.Waiting u
  folder : ∀ f ∈ mem.inFlight, v.folder f.folder.uid = some (f.folder.segments, .pending)

/-- The `PENDING` rows are the folders that wait. -/
theorem mem_pending {u : Str} :
    u ∈ (db.pending snapshotId).map ProtonFolder.uid ↔ (db.view snapshotId).Waiting u := by
  rw [List.mem_map]
  constructor
  · rintro ⟨f, hf, rfl⟩
    obtain ⟨hf, hs⟩ := List.mem_filter.1 hf
    obtain ⟨hid, hstatus⟩ := of_decide_eq_true hs
    have hfind : db.folders.find? (snapshotId, f.uid) = some f :=
      Table.find?_eq_some.2 ⟨hf, Prod.ext hid rfl⟩
    refine ⟨f.segments, ?_⟩
    change (db.folders.find? (snapshotId, f.uid)).map _ = _
    rw [hfind, Option.map_some, hstatus]
  · rintro ⟨p, hp⟩
    obtain ⟨f, hf, hfp⟩ := Option.map_eq_some_iff.1 hp
    obtain ⟨hf, hkey⟩ := Table.find?_eq_some.1 hf
    refine ⟨f, List.mem_filter.2 ⟨hf, decide_eq_true ⟨congrArg Prod.fst hkey, ?_⟩⟩,
      congrArg Prod.snd hkey⟩
    exact congrArg Prod.snd hfp

theorem nodup_pending : ((db.pending snapshotId).map ProtonFolder.uid).Nodup :=
  Table.nodup_filter_map Prod.mk snapshotId fun _ _ hp =>
    Prod.ext (of_decide_eq_true hp).1 rfl

/-- **The `PENDING` rows are the folders in memory, each once.** -/
theorem MemInv.pending_perm (h : MemInv cfg (db.view snapshotId) mem) :
    ((db.pending snapshotId).map ProtonFolder.uid).Perm mem.uids :=
  (List.perm_ext_iff_of_nodup nodup_pending h.nodup).2 fun u => by rw [mem_pending, h.waiting]

/-- `_load_pending` fills the queues with what waits. -/
theorem loadPending_inv : MemInv cfg (db.view snapshotId) (loadPending cfg snapshotId db) := by
  set rows := (db.pending snapshotId).insertionSort fun a b =>
    toLex (segmentsJson a.segments, a.uid) ≤ toLex (segmentsJson b.segments, b.uid) with hrows
  have hperm : rows.Perm (db.pending snapshotId) := List.perm_insertionSort _ _
  have hworker : ∀ f ∈ rows, cfg.crc32 (f.segments.headD []) % cfg.workers <
      (List.replicate cfg.workers ([] : List Str)).length := fun f _ => by
    rw [List.length_replicate]
    exact Nat.mod_lt _ cfg.workers_pos
  obtain ⟨hlen, hflat⟩ := Queues.foldl_push (f := ProtonFolder.uid) hworker
  have huids : (loadPending cfg snapshotId db).uids.Perm
      ((db.pending snapshotId).map ProtonFolder.uid) := by
    rw [Walk.uids, loadPending, List.map_nil, List.append_nil]
    refine hflat.trans ?_
    rw [List.flatten_replicate_nil, List.nil_append]
    exact hperm.map _
  refine ⟨?_, fun f hf => absurd hf List.not_mem_nil, huids.nodup_iff.2 nodup_pending,
    fun u => by rw [huids.mem_iff, mem_pending], fun f hf => absurd hf List.not_mem_nil⟩
  exact hlen.trans List.length_replicate

section Dispatch

/-- One worker takes the front of a queue, if there is one. -/
theorem dispatchWorker_ok {worker : ℕ} (h : MemInv cfg (db.view snapshotId) mem)
    (hw : worker < cfg.workers) :
    ∃ mem', dispatchWorker cfg snapshotId db mem worker = .ok mem' ∧
      MemInv cfg (db.view snapshotId) mem' ∧ mem.inFlight <+: mem'.inFlight ∧
      (mem'.inFlight = [] → mem.queues.flatten = []) := by
  unfold dispatchWorker
  split
  · rename_i hnil
    refine ⟨mem, rfl, h, List.prefix_refl _, fun _ => ?_⟩
    unfold sourceQueue at hnil
    split at hnil
    · exact Queues.flatten_eq_nil_of_longest hnil
    · rename_i hne
      exact absurd hnil hne
  · rename_i uid rest hq
    have hpop := Queues.flatten_pop_perm hq
    -- the front of a queue waits, so its row is there
    have huid : uid ∈ mem.uids := List.mem_append_left _ (hpop.mem_iff.2 List.mem_cons_self)
    obtain ⟨p, hp⟩ := (h.waiting uid).1 huid
    obtain ⟨folder, hfolder, hfp⟩ := Option.map_eq_some_iff.1 hp
    have hkey := congrArg Prod.snd (Table.find?_eq_some.1 hfolder).2
    rw [hfolder]
    set mem' : Walk := { mem with
      queues := mem.queues.modify (sourceQueue mem.queues worker) List.tail
      inFlight := mem.inFlight ++ [⟨worker, folder, listPath cfg.destination folder⟩] } with hmem'
    have huids : mem'.uids.Perm mem.uids := by
      rw [Walk.uids, Walk.uids, hmem', List.map_append, ← List.append_assoc]
      refine (List.perm_append_comm).trans ?_
      rw [List.map_singleton, List.singleton_append]
      change (folder.uid :: _).Perm _
      rw [show folder.uid = uid from hkey, ← List.cons_append]
      exact hpop.symm.append_right _
    refine ⟨mem', rfl, ⟨?_, ?_, huids.nodup_iff.2 h.nodup,
      fun u => by rw [huids.mem_iff, h.waiting], ?_⟩, List.prefix_append _ _,
      fun hnil => absurd hnil (List.append_ne_nil_of_right_ne_nil _ (List.cons_ne_nil _ _))⟩
    · exact (List.length_modify ..).trans h.queues
    · intro f hf
      rcases List.mem_append.1 hf with hf | hf
      · exact h.worker f hf
      · rw [List.mem_singleton.1 hf]
        exact hw
    · intro f hf
      rcases List.mem_append.1 hf with hf | hf
      · exact h.folder f hf
      · rw [List.mem_singleton.1 hf]
        change (db.view snapshotId).folder folder.uid = _
        rw [show folder.uid = uid from hkey, hp, ← hfp]
        exact congrArg some (Prod.ext rfl (congrArg Prod.snd hfp : folder.status = _))

/-- **`_dispatch` finds the row of every folder it takes, and leaves nothing in flight
only where the queues are empty.** -/
theorem dispatch_ok (h : MemInv cfg (db.view snapshotId) mem) :
    ∃ mem', dispatch cfg snapshotId db mem = .ok mem' ∧ MemInv cfg (db.view snapshotId) mem' ∧
      (mem'.inFlight = [] → mem'.uids = []) := by
  have key : ∀ ws : List ℕ, (∀ w ∈ ws, w < cfg.workers) → ∀ mem,
      MemInv cfg (db.view snapshotId) mem →
      ∃ mem', ws.foldlM (dispatchWorker cfg snapshotId db) mem = .ok mem' ∧
        MemInv cfg (db.view snapshotId) mem' ∧ mem.inFlight <+: mem'.inFlight ∧
        (ws ≠ [] → mem'.inFlight = [] → mem.queues.flatten = []) := by
    intro ws
    induction ws with
    | nil => exact fun _ mem h => ⟨mem, rfl, h, List.prefix_refl _, fun hne => absurd rfl hne⟩
    | cons w ws ih =>
      intro hws mem h
      obtain ⟨mem₁, h1, hinv, hpre, hnil⟩ := dispatchWorker_ok h (hws w List.mem_cons_self)
      obtain ⟨mem₂, h2, hinv₂, hpre₂, -⟩ :=
        ih (fun w hw => hws w (List.mem_cons_of_mem _ hw)) mem₁ hinv
      refine ⟨mem₂, by rw [List.foldlM_cons, h1]; exact h2, hinv₂, hpre.trans hpre₂, fun _ h => ?_⟩
      rw [h] at hpre₂
      exact hnil (List.prefix_nil.1 hpre₂)
  obtain ⟨mem', hmem, hinv, hpre, hnil⟩ := key
    ((List.range cfg.workers).filter fun w => decide (w ∉ mem.inFlight.map Flight.worker))
    (fun w hw => List.mem_range.1 (List.mem_filter.1 hw).1) mem h
  refine ⟨mem', hmem, hinv, fun hempty => ?_⟩
  rw [hempty] at hpre
  have hflight : mem.inFlight = [] := List.prefix_nil.1 hpre
  -- with nothing in flight no worker is busy, and the first finds the queues empty
  have hqueues : mem.queues.flatten = [] := by
    refine hnil (List.ne_nil_of_mem (a := 0) (List.mem_filter.2
      ⟨List.mem_range.2 cfg.workers_pos, ?_⟩)) hempty
    rw [hflight]
    exact decide_eq_true List.not_mem_nil
  have huids : mem.uids = [] := by rw [Walk.uids, hqueues, hflight]; rfl
  refine List.eq_nil_iff_forall_not_mem.2 fun u hu => ?_
  have := (h.waiting u).2 ((hinv.waiting u).1 hu)
  rw [huids] at this
  exact List.not_mem_nil this

end Dispatch

section Commits

/-- A failed listing changes nothing a snapshot keeps. -/
theorem view_noteFailure (folder : ProtonFolder) (category : Str) (other : ℕ) :
    (noteFailure snapshotId folder category db).view other = db.view other := by
  rw [noteFailure, view_updateFolder]
  refine SnapshotView.ext (funext fun u => ?_) rfl rfl
  simp only [id, ite_self, Prod.mk.eta]
  exact Option.map_id'

theorem DbInv.of_view (h : DbInv U F cfg db) (hs : db'.snapshots = db.snapshots)
    (hv : ∀ id, db'.view id = db.view id) (hc : db'.commits = db.commits) : DbInv U F cfg db' := by
  refine ⟨fun s hm hown => ?_, fun s hm hown hst => ?_, fun id hid => ?_, by rw [hc]; exact h.once⟩
  · rw [hv]
    exact h.sound s (hs ▸ hm) hown
  · rw [hv]
    exact h.closed s (hs ▸ hm) hown hst
  · rw [hv]
    exact h.blank id (hs ▸ hid)

/-- **A commit of a waiting folder's true children keeps the tables.** -/
theorem DbInv.grow (h : DbInv U F cfg db) (hopen : Open cfg db snapshotId) {uid : Str}
    {queued : List Str} (hw : (db.view snapshotId).Waiting uid)
    (hg : Grown U (F snapshotId) uid queued (db.view snapshotId) (db'.view snapshotId))
    (hother : ∀ other, other ≠ snapshotId → db'.view other = db.view other)
    (hs : db'.snapshots = db.snapshots) (hc : db'.commits = db.commits ++ [(snapshotId, uid)]) :
    DbInv U F cfg db' := by
  obtain ⟨s₀, hs₀, hid₀, hown₀⟩ := hopen
  have hsound : Sound U (F snapshotId) (db.view snapshotId) := hid₀ ▸ h.sound s₀ hs₀ hown₀
  refine ⟨fun s hm hown => ?_, fun s hm hown hst => ?_, fun id hid => ?_, ?_⟩
  · by_cases hid : s.id = snapshotId
    · rw [hid]
      exact hsound.grow hw hg
    · rw [hother _ hid]
      exact h.sound s (hs ▸ hm) hown
  · by_cases hid : s.id = snapshotId
    · exact absurd hw (hid ▸ h.closed s (hs ▸ hm) hown hst uid)
    · rw [hother _ hid]
      exact h.closed s (hs ▸ hm) hown hst
  · rw [hs] at hid
    rw [hother id fun he => hid s₀ hs₀ (he ▸ hid₀)]
    exact h.blank id hid
  · -- the folder waits, so its listing was not committed before
    rw [hc, List.nodup_append]
    refine ⟨h.once, List.nodup_singleton _, fun a ha b hb hab => ?_⟩
    rw [hab, List.mem_singleton.1 hb] at ha
    obtain ⟨p, hp⟩ := (hsound.committed uid).1 ha
    obtain ⟨q, hq⟩ := hw
    rw [hp] at hq
    cases hq

end Commits

/-- A walk under way. -/
structure Walking (U : Unicode) (F : ℕ → Tree) (cfg : WalkConfig) (snapshotId : ℕ) (mem : Walk)
    (db : ProtonDb) : Prop where
  inv : DbInv U F cfg db
  isOpen : Open cfg db snapshotId
  mem : MemInv cfg (db.view snapshotId) mem

/-- The listings of the CLI are those of the tree. -/
def Honest (T : Tree) (answer : Flight → Answer) : Prop :=
  ∀ f children, answer f = .listed children → Lists T f.folder.uid children

/-- The errors that come from the world outside: not the walk's own bookkeeping. -/
def WalkError.Outside : WalkError → Prop
  | .notArray | .exhausted | .unrecovered | .listing _ | .session => True
  | .noUid _ | .noName _ | .incomplete | .typeError => False

section Collect

variable {f : Flight} {answer : Flight → Answer}

/-- A listing under way is one of the folders in memory. -/
theorem Walk.uids_perm (hf : f ∈ mem.inFlight) :
    mem.uids.Perm (f.folder.uid ::
      (mem.queues.flatten ++ (mem.inFlight.erase f).map fun g => g.folder.uid)) := by
  refine ((((List.perm_cons_erase hf).map _).append_left _)).trans ?_
  rw [List.map_cons]
  exact List.perm_middle

/-- Its worker has a queue. -/
theorem MemInv.worker_lt (h : MemInv cfg v mem) (hf : f ∈ mem.inFlight) : f.worker < mem.queues.length := by
  rw [h.queues]
  exact h.worker f hf

/-- A folder whose listing failed goes back to its worker's queue. -/
theorem MemInv.requeue (h : MemInv cfg v mem) (hf : f ∈ mem.inFlight) :
    MemInv cfg v { mem with
      inFlight := mem.inFlight.erase f
      queues := mem.queues.modify f.worker (f.folder.uid :: ·) } := by
  have huids : ({ mem with
      inFlight := mem.inFlight.erase f
      queues := mem.queues.modify f.worker (f.folder.uid :: ·) } : Walk).uids.Perm mem.uids := by
    refine List.Perm.trans ?_ (Walk.uids_perm hf).symm
    refine ((Queues.flatten_modify_perm (fun q => (List.perm_append_singleton _ q).symm)
      (h.worker_lt hf)).append_right _).trans ?_
    rw [List.append_assoc, List.singleton_append]
    exact List.perm_middle
  exact ⟨(List.length_modify ..).trans h.queues, fun g hg => h.worker g (List.mem_of_mem_erase hg),
    huids.nodup_iff.2 h.nodup, fun u => by rw [huids.mem_iff, h.waiting],
    fun g hg => h.folder g (List.mem_of_mem_erase hg)⟩

/-- A listing that landed queues its subfolders. -/
theorem MemInv.extend {queued : List Str} (h : MemInv cfg v mem) (hf : f ∈ mem.inFlight)
    (hsound : Sound U T v) (hg : Grown U T f.folder.uid queued v v') (listed : ℕ) :
    MemInv cfg v' { mem with
      inFlight := mem.inFlight.erase f
      queues := mem.queues.modify f.worker (· ++ queued), listed } := by
  have hw : v.Waiting f.folder.uid := ⟨_, h.folder f hf⟩
  have hnew := hsound.not_mem_queued hw hg.mem_queued
  set rest := mem.queues.flatten ++ (mem.inFlight.erase f).map fun g => g.folder.uid with hrest
  have hperm : mem.uids.Perm (f.folder.uid :: rest) := Walk.uids_perm hf
  have hnd := List.nodup_cons.1 (hperm.nodup_iff.1 h.nodup)
  have hmem : ∀ u, u ∈ rest ↔ v.Waiting u ∧ u ≠ f.folder.uid := by
    intro u
    rw [← h.waiting, hperm.mem_iff, List.mem_cons]
    constructor
    · exact fun hu => ⟨Or.inr hu, fun he => hnd.1 (he ▸ hu)⟩
    · exact fun hu => hu.1.resolve_left hu.2
  -- the subfolders had no row, so none of them waited
  have hdisj : ∀ u ∈ rest, u ∉ queued := by
    intro u hu hq
    obtain ⟨p, hp⟩ := ((hmem u).1 hu).1
    rw [hnew u hq] at hp
    cases hp
  have huids : ({ mem with
      inFlight := mem.inFlight.erase f
      queues := mem.queues.modify f.worker (· ++ queued), listed } : Walk).uids.Perm
        (rest ++ queued) := by
    refine ((Queues.flatten_modify_perm (fun q => List.Perm.refl (q ++ queued))
      (h.worker_lt hf)).append_right _).trans ?_
    rw [hrest, List.append_assoc, List.append_assoc]
    exact (List.perm_append_comm).append_left _
  refine ⟨(List.length_modify ..).trans h.queues, fun g hg => h.worker g (List.mem_of_mem_erase hg),
    huids.nodup_iff.2 (List.nodup_append.2 ⟨hnd.2, hg.nodup, ?_⟩), fun u => ?_, fun g hg' => ?_⟩
  · exact fun a ha b hb hab => hdisj a ha (hab ▸ hb)
  · rw [huids.mem_iff, List.mem_append, hmem, hg.waiting_iff hsound hw]
  · have hgr : g.folder.uid ∈ rest := List.mem_append_right _ (List.mem_map_of_mem hg')
    rw [hg.otherFolder _ ((hmem _).1 hgr).2 (hdisj _ hgr)]
    exact h.folder g (List.mem_of_mem_erase hg')

/-- The folder has no subfolder, and its listing lands. -/
def Leaf (T : Tree) (answer : Flight → Answer) (f : Flight) : Prop :=
  (∃ children, answer f = .listed children) ∧ ∀ n ∈ T.children f.folder.uid, ¬ n.IsFolder

/-- What the listings that landed leave in memory: the other flights, and queues that are
empty exactly if they were and each of the folders is a leaf. -/
structure Landings (T : Tree) (answer : Flight → Answer) (mem : Walk) (done : List Flight)
    (acc : Walk × Outcome) : Prop where
  inFlight : (done ++ acc.1.inFlight).Perm mem.inFlight
  queues : acc.1.queues.flatten = [] ↔ mem.queues.flatten = [] ∧ ∀ f ∈ done, Leaf T answer f
  outcome : (∀ f ∈ done, Leaf T answer f) → acc.2 = .ok

theorem Landings.start : Landings T answer mem [] (mem, Outcome.ok) :=
  ⟨List.Perm.refl _, by simp, fun _ => rfl⟩

/-- One flight more. -/
theorem Landings.step {done : List Flight} {acc acc' : Walk × Outcome} {queued : List Str}
    (h : Landings T answer mem done acc) (hf : f ∈ acc.1.inFlight)
    (hflight : acc'.1.inFlight = acc.1.inFlight.erase f)
    (hperm : acc'.1.queues.flatten.Perm (acc.1.queues.flatten ++ queued))
    (hqueued : queued = [] ↔ Leaf T answer f) (hout : Leaf T answer f → acc'.2 = acc.2) :
    Landings T answer mem (done ++ [f]) acc' := by
  have hall : (∀ g ∈ done ++ [f], Leaf T answer g) ↔
      (∀ g ∈ done, Leaf T answer g) ∧ Leaf T answer f := by
    rw [List.forall_mem_append, List.forall_mem_singleton]
  refine ⟨?_, ?_, fun h' => ?_⟩
  · rw [hflight, List.append_assoc, List.singleton_append]
    exact ((List.perm_cons_erase hf).symm.append_left _).trans h.inFlight
  · rw [hall, ← and_assoc, ← h.queues, ← hqueued, ← List.append_eq_nil_iff]
    exact ⟨fun hnil => List.perm_nil.1 (hnil ▸ hperm.symm), fun hnil => List.perm_nil.1 (hnil ▸ hperm)⟩
  · obtain ⟨hdone, hf⟩ := hall.1 h'
    rw [hout hf, h.outcome hdone]

/-- **One listing lands.** -/
theorem collectOne_triple (honest : Honest (F snapshotId) answer) {done : List Flight}
    (acc : Walk × Outcome) :
    Triple (fun _ db' => DbInv U F cfg db')
      (fun db => Walking U F cfg snapshotId acc.1 db ∧ Landings (F snapshotId) answer mem done acc ∧
        f ∈ acc.1.inFlight)
      (collectOne U snapshotId answer acc f)
      (fun acc' db => Walking U F cfg snapshotId acc'.1 db ∧
        Landings (F snapshotId) answer mem (done ++ [f]) acc')
      (fun e _ => e.Outside ∧ ¬ Leaf (F snapshotId) answer f) := by
  unfold collectOne
  dsimp only
  have hnote : ∀ category db, DbInv U F cfg db →
      DbInv U F cfg (noteFailure snapshotId f.folder category db) := fun category db h =>
    h.of_view rfl (view_noteFailure f.folder category) rfl
  have hleaf : ∀ a, answer f = a → (∀ children, a ≠ .listed children) →
      ¬ Leaf (F snapshotId) answer f := by
    rintro a ha hne ⟨⟨children, hc⟩, -⟩
    exact hne children (ha.symm.trans hc)
  split
  · rename_i kind hanswer
    exact Triple.bind (M := fun _ _ => True)
      (Triple.write fun db h => ⟨hnote _ db h.1.inv, trivial⟩) fun _ =>
        Triple.fail fun _ _ => ⟨trivial, hleaf _ hanswer nofun⟩
  · rename_i category hanswer
    have hnot := hleaf _ hanswer nofun
    refine Triple.bind (M := fun _ db => Walking U F cfg snapshotId acc.1 db ∧
        Landings (F snapshotId) answer mem done acc ∧ f ∈ acc.1.inFlight)
      (Triple.write fun db h => ⟨hnote _ db h.1.inv, ⟨hnote _ db h.1.inv, h.1.isOpen, ?_⟩, h.2⟩)
      fun _ => Triple.pure fun db h => ⟨⟨h.1.inv, h.1.isOpen, h.1.mem.requeue h.2.2⟩, ?_⟩
    · rw [view_noteFailure]
      exact h.1.mem
    · exact h.2.1.step h.2.2 rfl
        (Queues.flatten_modify_perm (fun q => (List.perm_append_singleton _ q).symm)
          (h.1.mem.worker_lt h.2.2))
        ⟨fun hnil => absurd hnil (List.cons_ne_nil _ _), fun hl => absurd hl hnot⟩
        fun hl => absurd hl hnot
  · rename_i hanswer
    exact Triple.fail fun _ _ => ⟨trivial, hleaf _ hanswer nofun⟩
  · rename_i children hanswer
    refine Triple.get_bind fun db h => ?_
    obtain ⟨s, hs, hid, hown⟩ := h.1.isOpen
    have hsound : Sound U (F snapshotId) (db.view snapshotId) := hid ▸ h.1.inv.sound s hs hown
    have hfolder := h.1.mem.folder f h.2.2
    obtain ⟨db', queued, hcommit, hg, hother, hsnap, hcommits⟩ :=
      commitListing_grown hsound hfolder (honest f children hanswer)
    rw [hcommit]
    dsimp only
    have hinv := h.1.inv.grow h.1.isOpen ⟨_, hfolder⟩ hg hother hsnap hcommits
    refine Triple.bind (M := fun _ db₁ => db₁ = db') (Triple.write fun _ _ => ⟨hinv, rfl⟩)
      fun _ => Triple.pure fun db₁ hdb₁ => ?_
    rw [hdb₁]
    refine ⟨⟨hinv, ⟨s, hsnap ▸ hs, hid, hown⟩, h.1.mem.extend h.2.2 hsound hg _⟩, ?_⟩
    refine h.2.1.step h.2.2 rfl (Queues.flatten_modify_perm (fun q => List.Perm.refl (q ++ queued))
      (h.1.mem.worker_lt h.2.2)) ?_ fun _ => rfl
    -- nothing is queued where the folder has no subfolder
    rw [List.eq_nil_iff_forall_not_mem]
    refine ⟨fun hnone => ⟨⟨children, hanswer⟩, fun n hn hfn => ?_⟩, fun hl u hu => ?_⟩
    · exact hnone n.uid ((hg.mem_queued _).2 ⟨n, hn, hfn, rfl⟩)
    · obtain ⟨n, hn, hfn, -⟩ := (hg.mem_queued u).1 hu
      exact hl.2 n hn hfn

/-- **Listings land in any order.** -/
theorem collect_triple (honest : Honest (F snapshotId) answer) {done : List Flight}
    (hdone : done.Subperm mem.inFlight) :
    Triple (fun _ db' => DbInv U F cfg db') (Walking U F cfg snapshotId mem)
      (collect U snapshotId answer done mem)
      (fun acc db => Walking U F cfg snapshotId acc.1 db ∧ Landings (F snapshotId) answer mem done acc)
      (fun e _ => e.Outside ∧ ¬ ∀ f ∈ done, Leaf (F snapshotId) answer f) := by
  refine (Triple.foldlM (fun before acc db => Walking U F cfg snapshotId acc.1 db ∧
    Landings (F snapshotId) answer mem before acc) done (mem, Outcome.ok)
    fun before f after hsplit acc => ?_).consequence (fun db h => ⟨h, Landings.start⟩)
    (fun _ _ h => h) (fun _ _ h => h)
  refine Triple.pre fun db h => ?_
  -- what is left of `done` is still in flight
  have hf : f ∈ acc.1.inFlight := by
    rw [hsplit] at hdone
    have hsub := List.Subperm.trans hdone h.2.inFlight.symm.subperm
    exact ((List.subperm_append_left before).1 hsub).subset List.mem_cons_self
  refine (collectOne_triple honest acc).consequence (fun db' hdb' => ⟨hdb' ▸ h.1, h.2, hf⟩)
    (fun _ _ h' => h') (fun e db' h' => ⟨h'.1, fun hall => h'.2 (hall f ?_)⟩)
  rw [hsplit]
  simp

end Collect

section Loop

/-- A turn is honest if its listings are. -/
def Turn.Honest (T : Tree) (t : Turn) : Prop := DropboxMirror.Honest T t.answer

/-- **The turn lists all that is left**: nothing waits but the folders under way, none of
them has a subfolder, and all of their listings land. -/
structure Turn.Exhausts (T : Tree) (t : Turn) (mem : Walk) : Prop where
  queues : mem.queues.flatten = []
  leaves : ∀ f ∈ mem.inFlight, Leaf T t.answer f
  landed : t.lateFirst = true ∨ (t.done mem.inFlight).Perm mem.inFlight

variable {t : Turn}

/-- Nothing is in memory after the listings of a turn exactly if it lists all that is left. -/
theorem Landings.uids_eq_nil_iff {acc : Walk × Outcome}
    (h : Landings T t.answer mem (t.done mem.inFlight) acc) (hlate : t.lateFirst = false) :
    acc.1.uids = [] ↔ t.Exhausts T mem := by
  have huids : acc.1.uids = [] ↔ acc.1.queues.flatten = [] ∧ acc.1.inFlight = [] := by
    rw [Walk.uids, List.append_eq_nil_iff, List.map_eq_nil_iff]
  have hland : acc.1.inFlight = [] ↔ (t.done mem.inFlight).Perm mem.inFlight := by
    refine ⟨fun hnil => ?_, fun hperm => ?_⟩
    · have := h.inFlight
      rwa [hnil, List.append_nil] at this
    · have hlen := (h.inFlight.trans hperm.symm).length_eq
      rw [List.length_append] at hlen
      exact List.eq_nil_of_length_eq_zero (by omega)
  rw [huids, h.queues, hland]
  constructor
  · rintro ⟨⟨hq, hleaf⟩, hperm⟩
    exact ⟨hq, fun f hf => hleaf f (hperm.mem_iff.2 hf), Or.inr hperm⟩
  · intro hx
    have hperm := hx.landed.resolve_left (by rw [hlate]; exact Bool.false_ne_true)
    exact ⟨⟨hx.queues, fun f hf => hx.leaves f (hperm.mem_iff.1 hf)⟩, hperm⟩

/-- What the first listings of a turn, and those that land after them, leave. -/
theorem drain_triple (honest : t.Honest (F snapshotId)) (acc : Walk × Outcome) :
    Triple (fun _ db' => DbInv U F cfg db')
      (fun db => Walking U F cfg snapshotId acc.1 db ∧
        Landings (F snapshotId) t.answer mem (t.done mem.inFlight) acc)
      (drain U snapshotId t acc.1 acc.2)
      (fun acc' db => Walking U F cfg snapshotId acc'.1 db ∧
        (acc'.1.uids = [] ↔ t.Exhausts (F snapshotId) mem) ∧ (t.Exhausts (F snapshotId) mem → acc'.2 = .ok))
      (fun e _ => e.Outside ∧ ¬ t.Exhausts (F snapshotId) mem) := by
  unfold drain
  refine Triple.pre fun db h => ?_
  have hdone : t.Exhausts (F snapshotId) mem →
      ∀ f ∈ t.done mem.inFlight, Leaf (F snapshotId) t.answer f := fun hx f hf =>
    hx.leaves f ((t.done_subperm _).subset hf)
  split
  · rename_i hdrain
    have hrest := t.rest_perm acc.1.inFlight
    -- the rest of the flights are those that did not land first
    have hmem : ∀ f, f ∈ mem.inFlight ↔ f ∈ t.done mem.inFlight ∨ f ∈ t.rest acc.1.inFlight :=
      fun f => by rw [← h.2.inFlight.mem_iff, List.mem_append, hrest.mem_iff]
    refine Triple.bind ((collect_triple honest hrest.subperm).consequence
      (fun db' hdb' => hdb' ▸ h.1) (fun _ _ h' => h') fun e _ h' => ⟨h'.1, fun hx => h'.2 fun f hf =>
        hx.leaves f ((hmem f).2 (Or.inr hf))⟩) fun acc' => Triple.pure fun db' h' => ?_
    obtain ⟨hw, hc⟩ := h'
    have hnil : acc'.1.inFlight = [] := by
      have hlen := (hc.inFlight.trans hrest.symm).length_eq
      rw [List.length_append] at hlen
      exact List.eq_nil_of_length_eq_zero (by omega)
    refine ⟨hw, ?_, fun hx => ?_⟩
    · rw [Walk.uids, hnil, List.map_nil, List.append_nil, hc.queues, h.2.queues]
      constructor
      · rintro ⟨⟨hq, hd⟩, hr⟩
        refine ⟨hq, fun f hf => ((hmem f).1 hf).elim (hd f) (hr f), Or.inl ?_⟩
        exact hdrain.resolve_left fun hne => hne (h.2.outcome hd)
      · intro hx
        exact ⟨⟨hx.queues, hdone hx⟩, fun f hf => hx.leaves f ((hmem f).2 (Or.inr hf))⟩
    · have hok := h.2.outcome (hdone hx)
      rw [hok, if_neg fun hne => hne rfl]
      exact hc.outcome fun f hf => hx.leaves f ((hmem f).2 (Or.inr hf))
  · rename_i hno
    rw [not_or, not_not] at hno
    refine Triple.pure fun db' hdb' => ⟨hdb' ▸ h.1, ?_, fun _ => hno.1⟩
    exact h.2.uids_eq_nil_iff (Bool.not_eq_true _ ▸ hno.2)

/-- What a turn comes to: the memory of the next one, or a stop. -/
structure TurnEnd (U : Unicode) (F : ℕ → Tree) (cfg : WalkConfig) (snapshotId : ℕ) (t : Turn)
    (mem : Walk) (next : Option Walk) (db : ProtonDb) : Prop where
  inv : DbInv U F cfg db
  isOpen : Open cfg db snapshotId
  walking : ∀ mem', next = some mem' → Walking U F cfg snapshotId mem' db
  late : next = none ↔ t.lateLast = true
  waiting : (∀ u, ¬ (db.view snapshotId).Waiting u) ↔ t.Exhausts (F snapshotId) mem

theorem Walking.waiting_iff (h : Walking U F cfg snapshotId mem db) :
    (∀ u, ¬ (db.view snapshotId).Waiting u) ↔ mem.uids = [] := by
  rw [List.eq_nil_iff_forall_not_mem]
  exact forall_congr' fun u => not_congr (h.mem.waiting u).symm

/-- The rule at the end of a turn whose outcome is `outcome`. -/
theorem settleTurn_triple {mem' : Walk} (outcome : Outcome) :
    Triple (fun _ db' => DbInv U F cfg db')
      (fun db => Walking U F cfg snapshotId mem' db ∧ (mem'.uids = [] ↔ t.Exhausts (F snapshotId) mem) ∧
        (t.Exhausts (F snapshotId) mem → outcome = .ok))
      (settleTurn t mem' outcome) (TurnEnd U F cfg snapshotId t mem)
      (fun e _ => e.Outside ∧ ¬ t.Exhausts (F snapshotId) mem) := by
  -- past the deadline the walk stops, else it goes on with what the turn left
  have hnext : ∀ {mem₁ : Walk} {db : ProtonDb}, Walking U F cfg snapshotId mem₁ db →
      (mem₁.uids = [] ↔ t.Exhausts (F snapshotId) mem) →
      TurnEnd U F cfg snapshotId t mem (if t.lateLast then none else some mem₁) db := by
    intro mem₁ db h hx
    refine ⟨h.inv, h.isOpen, fun mem₂ hmem => ?_, ?_, h.waiting_iff.trans hx⟩
    · split at hmem
      · cases hmem
      · cases hmem
        exact h
    · cases t.lateLast <;> simp
  unfold settleTurn
  cases outcome with
  | failed => exact Triple.fail fun _ h => ⟨trivial, fun hx => absurd (h.2.2 hx) (by decide)⟩
  | ok => exact Triple.pure fun _ h => hnext h.1 h.2.1
  | auth =>
    refine Triple.bind (M := fun mem₁ db => Walking U F cfg snapshotId mem₁ db ∧
      (mem₁.uids = [] ↔ t.Exhausts (F snapshotId) mem)) ?_ fun mem₁ => Triple.pure fun _ h => hnext h.1 h.2
    have hnot : ∀ {db}, (Walking U F cfg snapshotId mem' db ∧ (mem'.uids = [] ↔ t.Exhausts (F snapshotId) mem) ∧
        (t.Exhausts (F snapshotId) mem → Outcome.auth = .ok)) → ¬ t.Exhausts (F snapshotId) mem := fun h hx =>
      absurd (h.2.2 hx) (by decide)
    -- a session that is renewed leaves the queues alone
    unfold rescue
    split
    · exact Triple.fail fun _ h => ⟨trivial, hnot h⟩
    · split
      · exact Triple.pure fun _ h => ⟨⟨h.1.inv, h.1.isOpen, h.1.mem.queues, h.1.mem.worker,
          h.1.mem.nodup, h.1.mem.waiting, h.1.mem.folder⟩, h.2.1⟩
      · exact Triple.fail fun _ h => ⟨trivial, hnot h⟩

/-- **A turn of the loop.** -/
theorem walkTurn_triple (honest : t.Honest (F snapshotId)) :
    Triple (fun _ db' => DbInv U F cfg db') (Walking U F cfg snapshotId mem)
      (walkTurn U snapshotId t mem) (TurnEnd U F cfg snapshotId t mem)
      (fun e _ => e.Outside ∧ ¬ t.Exhausts (F snapshotId) mem) := by
  unfold walkTurn
  refine Triple.bind ((collect_triple honest (t.done_subperm _)).consequence (fun _ h => h)
    (fun _ _ h => h) fun e _ h => ⟨h.1, fun hx => h.2 fun f hf =>
      hx.leaves f ((t.done_subperm _).subset hf)⟩) fun acc => ?_
  refine (drain_triple honest acc).bind fun acc' => ?_
  exact settleTurn_triple acc'.2

theorem dispatchStep_triple :
    Triple (fun _ db' => DbInv U F cfg db') (Walking U F cfg snapshotId mem)
      (dispatchStep cfg snapshotId mem)
      (fun mem' db => Walking U F cfg snapshotId mem' db ∧ (mem'.inFlight = [] → mem'.uids = []))
      (fun e _ => e.Outside) := by
  unfold dispatchStep
  refine Triple.get_bind fun db h => ?_
  obtain ⟨mem', hmem, hinv, hnil⟩ := dispatch_ok h.mem
  rw [hmem]
  dsimp only
  exact Triple.pure fun _ hdb => hdb ▸ ⟨⟨h.inv, h.isOpen, hinv⟩, hnil⟩

/-- What a walk leaves: every folder listed where it finished. -/
def Ended (U : Unicode) (F : ℕ → Tree) (cfg : WalkConfig) (snapshotId : ℕ) (stop : WalkEnd)
    (db : ProtonDb) : Prop :=
  DbInv U F cfg db ∧ Open cfg db snapshotId ∧
    (stop = .finished → ∀ u, ¬ (db.view snapshotId).Waiting u)

theorem Walking.ended (h : Walking U F cfg snapshotId mem db) (hnil : mem.uids = []) (stop : WalkEnd) :
    Ended U F cfg snapshotId stop db := by
  refine ⟨h.inv, h.isOpen, fun _ u hu => ?_⟩
  rw [← h.mem.waiting, hnil] at hu
  exact List.not_mem_nil hu

/-- **The loop**, over any turns. -/
theorem walkLoop_triple {turns : List Turn} (honest : ∀ t ∈ turns, t.Honest (F snapshotId)) (mem : Walk) :
    Triple (fun _ db' => DbInv U F cfg db') (Walking U F cfg snapshotId mem)
      (walkLoop U cfg snapshotId turns mem) (Ended U F cfg snapshotId)
      (fun e _ => e.Outside) := by
  induction turns generalizing mem with
  | nil =>
    unfold walkLoop
    refine dispatchStep_triple.bind fun mem' => Triple.pure fun db h => ?_
    split
    · exact h.1.ended (h.2 ‹_›) _
    · exact ⟨h.1.inv, h.1.isOpen, nofun⟩
  | cons t turns ih =>
    unfold walkLoop
    refine dispatchStep_triple.bind fun mem' => ?_
    split
    · exact Triple.pure fun db h => h.1.ended (h.2 ‹_›) _
    · refine Triple.bind ((walkTurn_triple (honest t List.mem_cons_self)).consequence
        (fun _ h => h.1) (fun _ _ h => h) fun _ _ h => h.1) fun next => ?_
      cases next with
      | none => exact Triple.pure fun db h => ⟨h.inv, h.isOpen, nofun⟩
      | some mem'' =>
        exact (ih (fun t ht => honest t (List.mem_cons_of_mem _ ht)) mem'').consequence
          (fun db h => h.walking _ rfl) (fun _ _ h => h) fun _ _ h => h

theorem mem_snapshots_completeSnapshot {s : ProtonSnapshot} :
    s ∈ (completeSnapshot snapshotId db).snapshots ↔ ∃ s₀ ∈ db.snapshots,
      (if s₀.id = snapshotId then { s₀ with status := .complete } else s₀) = s :=
  List.mem_map

/-- The snapshots after one was closed. -/
theorem of_mem_completeSnapshot (cfg : WalkConfig) {s : ProtonSnapshot}
    (h : s ∈ (completeSnapshot snapshotId db).snapshots) :
    ∃ s₀ ∈ db.snapshots, s₀.id = s.id ∧ (cfg.Owns s → cfg.Owns s₀) ∧
      (s.status = .complete → s.id = snapshotId ∨ s₀.status = .complete) := by
  obtain ⟨s₀, hs₀, rfl⟩ := mem_snapshots_completeSnapshot.1 h
  refine ⟨s₀, hs₀, ?_⟩
  split
  · rename_i hid
    exact ⟨rfl, id, fun _ => Or.inl hid⟩
  · exact ⟨rfl, id, Or.inr⟩

theorem mem_completeSnapshot (cfg : WalkConfig) (snapshotId : ℕ) {s₀ : ProtonSnapshot}
    (h : s₀ ∈ db.snapshots) :
    ∃ s ∈ (completeSnapshot snapshotId db).snapshots, s.id = s₀.id ∧ (cfg.Owns s₀ → cfg.Owns s) := by
  refine ⟨_, mem_snapshots_completeSnapshot.2 ⟨s₀, h, rfl⟩, ?_⟩
  split
  · exact ⟨rfl, id⟩
  · exact ⟨rfl, id⟩

theorem Open.close (h : Open cfg db snapshotId) :
    Open cfg (completeSnapshot snapshotId db) snapshotId := by
  obtain ⟨s₀, hs₀, hid, hown⟩ := h
  obtain ⟨s, hs, hsid, hsown⟩ := mem_completeSnapshot cfg snapshotId hs₀
  exact ⟨s, hs, hsid.trans hid, hsown hown⟩

theorem DbInv.close (h : DbInv U F cfg db) (hnone : ∀ u, ¬ (db.view snapshotId).Waiting u) :
    DbInv U F cfg (completeSnapshot snapshotId db) := by
  refine ⟨fun s hm hown => ?_, fun s hm hown hst => ?_, fun id hid => ?_, h.once⟩
  · obtain ⟨s₀, hs₀, hid, hown₀, -⟩ := of_mem_completeSnapshot cfg hm
    exact hid ▸ h.sound s₀ hs₀ (hown₀ hown)
  · obtain ⟨s₀, hs₀, hid, hown₀, hst₀⟩ := of_mem_completeSnapshot cfg hm
    rcases hst₀ hst with he | hst₀
    · exact he ▸ hnone
    · exact hid ▸ h.closed s₀ hs₀ (hown₀ hown) hst₀
  · refine h.blank id fun s₀ hs₀ hs₀id => ?_
    obtain ⟨s, hs, hsid, -⟩ := mem_completeSnapshot cfg snapshotId hs₀
    exact hid s hs (hsid.trans hs₀id)

/-- **A walk that finished closes its snapshot**: no folder is left to refuse it. -/
theorem closeSnapshot_triple :
    Triple (fun _ db' => DbInv U F cfg db') (Ended U F cfg snapshotId .finished)
      (closeSnapshot snapshotId) (fun _ db => DbInv U F cfg db ∧ Open cfg db snapshotId)
      (fun e _ => e.Outside) := by
  unfold closeSnapshot
  refine Triple.get_bind fun db h => ?_
  obtain ⟨hinv, hopen, hnone⟩ := h
  split
  · rename_i hany
    obtain ⟨f, hf, hs⟩ := List.any_eq_true.1 hany
    obtain ⟨hid, hstatus⟩ := of_decide_eq_true hs
    have hpending : f.status = .pending := by
      cases hst : f.status with
      | pending => rfl
      | complete => exact absurd hst hstatus
    refine absurd (mem_pending.1 (List.mem_map_of_mem (f := ProtonFolder.uid) ?_)) (hnone rfl f.uid)
    exact List.mem_filter.2 ⟨hf, decide_eq_true ⟨hid, hpending⟩⟩
  · refine Triple.write fun db' hdb' => ?_
    subst hdb'
    exact ⟨hinv.close (hnone rfl), hinv.close (hnone rfl), hopen.close⟩

end Loop

section Inventory

/-- A new snapshot: the destination waits, and nothing else is known. -/
def SnapshotView.fresh : SnapshotView where
  folder u := if u = rootUid then some ([], .pending) else none
  node _ := none
  committed _ := False

theorem sound_fresh : Sound U T SnapshotView.fresh := by
  have hnot : ∀ u, ¬ SnapshotView.fresh.Listed u := by
    rintro u ⟨p, hp⟩
    unfold SnapshotView.fresh at hp
    dsimp only at hp
    split at hp <;> cases hp
  refine ⟨by simp [SnapshotView.fresh], fun u p s hps => ?_, nofun,
    fun n _ hl => absurd hl (hnot _), fun n hn => ?_, fun u => ⟨False.elim, hnot u⟩⟩
  · unfold SnapshotView.fresh at hps
    dsimp only at hps
    split at hps
    · rename_i hu
      cases hps
      exact hu ▸ Tree.PathTo.root
    · cases hps
  · unfold SnapshotView.fresh
    dsimp only
    rw [if_neg (Tree.uid_ne_root hn)]
    exact ⟨nofun, fun h => absurd h.2 (hnot _)⟩

theorem ProtonDb.lt_nextId {s : ProtonSnapshot} (h : s ∈ db.snapshots) : s.id < db.nextId :=
  Nat.lt_succ_of_le (List.le_max_of_le (List.mem_map_of_mem h) le_rfl)

/-- What `_new_snapshot` leaves of each snapshot. -/
theorem view_insertSnapshot (cfg : WalkConfig) (hblank : db.view db.nextId = SnapshotView.blank) (id : ℕ) :
    (insertSnapshot cfg.purpose cfg.destination db).view id =
      if id = db.nextId then SnapshotView.fresh else db.view id := by
  have hfolder : ∀ u, ((insertSnapshot cfg.purpose cfg.destination db).view id).folder u =
      if (db.nextId, rootUid) = (id, u) then some ([], .pending) else (db.view id).folder u := by
    intro u
    change ((db.folders.upsert Table.replace (rootFolder db.nextId cfg.destination)).find?
      (id, u)).map _ = _
    rw [Table.find?_upsert]
    change (if (db.nextId, rootUid) = (id, u) then _ else _ : Option ProtonFolder).map _ = _
    split
    · cases db.folders.find? (id, u) <;> rfl
    · rfl
  by_cases hid : id = db.nextId
  · subst hid
    rw [if_pos rfl]
    refine SnapshotView.ext (funext fun u => ?_)
      (show (db.view db.nextId).node = _ by rw [hblank]; rfl)
      (show (db.view db.nextId).committed = _ by rw [hblank]; rfl)
    rw [hfolder, hblank]
    simp [SnapshotView.fresh, SnapshotView.blank, eq_comm]
  · rw [if_neg hid]
    refine SnapshotView.ext (funext fun u => ?_) rfl rfl
    rw [hfolder, if_neg fun h => hid (congrArg Prod.fst h).symm]

/-- **A new snapshot keeps the tables.** -/
theorem DbInv.insert (h : DbInv U F cfg db) :
    DbInv U F cfg (insertSnapshot cfg.purpose cfg.destination db) ∧
      Open cfg (insertSnapshot cfg.purpose cfg.destination db) db.nextId := by
  have hblank := h.blank db.nextId fun s hs he => absurd (ProtonDb.lt_nextId hs) (by omega)
  have hview := view_insertSnapshot cfg hblank
  have hnew : (⟨db.nextId, cfg.purpose, cfg.destination, .running⟩ : ProtonSnapshot) ∈
      (insertSnapshot cfg.purpose cfg.destination db).snapshots := by
    refine Table.mem_iff_find?.2 ((Table.find?_upsert _ _ _ _).trans ?_)
    rw [if_pos rfl]
    cases db.snapshots.find? db.nextId <;> rfl
  -- the insert is of a new id, so the other snapshots stay
  have hold : ∀ s : ProtonSnapshot, s.id ≠ db.nextId →
      (s ∈ (insertSnapshot cfg.purpose cfg.destination db).snapshots ↔ s ∈ db.snapshots) := by
    intro s hne
    rw [Table.mem_iff_find?, Table.mem_iff_find?]
    exact iff_of_eq (congrArg (· = some s) (Table.find?_upsert_of_ne fun he => hne he.symm))
  have hmem : ∀ s ∈ (insertSnapshot cfg.purpose cfg.destination db).snapshots,
      s.id = db.nextId ∧ s.status = .running ∨ s.id ≠ db.nextId ∧ s ∈ db.snapshots := by
    intro s hs
    by_cases he : s.id = db.nextId
    · have : s = ⟨db.nextId, cfg.purpose, cfg.destination, .running⟩ := Table.eq_of_key_eq hs hnew he
      exact Or.inl ⟨he, by rw [this]⟩
    · exact Or.inr ⟨he, (hold s he).1 hs⟩
  refine ⟨⟨fun s hs hown => ?_, fun s hs hown hst => ?_, fun id hid => ?_, h.once⟩,
    _, hnew, rfl, rfl, rfl⟩
  · rw [hview]
    rcases hmem s hs with ⟨he, -⟩ | ⟨he, hs⟩
    · rw [if_pos he]
      exact sound_fresh
    · rw [if_neg he]
      exact h.sound s hs hown
  · rcases hmem s hs with ⟨-, hrun⟩ | ⟨he, hs⟩
    · rw [hrun] at hst
      cases hst
    · rw [hview, if_neg he]
      exact h.closed s hs hown hst
  · have hne : id ≠ db.nextId := fun he => hid _ hnew he.symm
    rw [hview, if_neg hne]
    exact h.blank id fun s hs he => hid s ((hold s (he ▸ hne)).2 hs) he

/-- The newest snapshot is one of the walk's. -/
theorem latest_open {s : ProtonSnapshot} (h : db.latest cfg.purpose cfg.destination = some s) :
    Open cfg db s.id := by
  have hs := List.argmax_mem (Option.mem_def.2 h)
  obtain ⟨hs, hown⟩ := List.mem_filter.1 hs
  exact ⟨s, hs, rfl, by simpa [WalkConfig.Owns] using hown⟩

/-- The snapshot the next walk lists: the newest where it is open, else a new one. -/
def ProtonDb.walked (cfg : WalkConfig) (db : ProtonDb) : ℕ :=
  match db.latest cfg.purpose cfg.destination with
  | none => db.nextId
  | some s => if s.status = .running then s.id else db.nextId

theorem walked_none (h : db.latest cfg.purpose cfg.destination = none) :
    db.walked cfg = db.nextId := by
  unfold ProtonDb.walked
  rw [h]

theorem walked_some {s : ProtonSnapshot} (h : db.latest cfg.purpose cfg.destination = some s) :
    db.walked cfg = if s.status = .running then s.id else db.nextId := by
  unfold ProtonDb.walked
  rw [h]

theorem openSnapshot_triple (reuseComplete : Bool) (db₀ : ProtonDb) :
    Triple (fun _ db' => DbInv U F cfg db') (fun db => db = db₀ ∧ DbInv U F cfg db)
      (openSnapshot cfg reuseComplete)
      (fun o db => DbInv U F cfg db ∧ ∀ snapshotId, o = some snapshotId →
        Open cfg db snapshotId ∧ snapshotId = db₀.walked cfg)
      (fun e _ => e.Outside) := by
  unfold openSnapshot
  refine Triple.get_bind fun db h => ?_
  obtain ⟨rfl, h⟩ := h
  have hnew : db.walked cfg = db.nextId → Triple (fun _ db' => DbInv U F cfg db') (fun t => t = db)
      (do Prog.write (insertSnapshot cfg.purpose cfg.destination); return some db.nextId)
      (fun o db₁ => DbInv U F cfg db₁ ∧ ∀ snapshotId, o = some snapshotId →
        Open cfg db₁ snapshotId ∧ snapshotId = db.walked cfg)
      (fun e _ => WalkError.Outside e) := by
    intro hwalked
    refine Triple.bind (M := fun _ db₁ => DbInv U F cfg db₁ ∧ Open cfg db₁ db.nextId)
      (Triple.write fun db₁ hdb₁ => ?_) fun _ => Triple.pure fun _ h => ⟨h.1, ?_⟩
    · subst hdb₁
      exact ⟨h.insert.1, h.insert⟩
    · rintro _ ⟨⟩
      exact ⟨h.2, hwalked.symm⟩
  split
  · rename_i hlatest
    exact hnew (walked_none hlatest)
  · rename_i s hlatest
    split
    · rename_i hstatus
      refine Triple.pure fun db₁ hdb₁ => ?_
      subst hdb₁
      refine ⟨h, ?_⟩
      rintro _ ⟨⟩
      exact ⟨latest_open hlatest, ((walked_some hlatest).trans (if_pos hstatus)).symm⟩
    · rename_i hstatus
      split
      · exact Triple.pure fun db₁ hdb₁ => ⟨hdb₁ ▸ h, nofun⟩
      · exact hnew ((walked_some hlatest).trans (if_neg (by rw [hstatus]; decide)))

/-- A complete walk that is reused is one of the walk's. -/
theorem latestComplete_open (h : db.latestComplete cfg.purpose cfg.destination = some snapshotId) :
    Open cfg db snapshotId := by
  obtain ⟨s, hs, rfl⟩ := List.mem_map.1 (List.max?_mem h)
  obtain ⟨hs, hown⟩ := List.mem_filter.1 hs
  obtain ⟨hpurpose, hdestination, -⟩ := of_decide_eq_true hown
  exact ⟨s, hs, rfl, hpurpose, hdestination⟩

/-- **The walk of an open snapshot.** -/
theorem runWalk_triple {turns : List Turn} (honest : ∀ t ∈ turns, t.Honest (F snapshotId))
    (written : Bool) :
    Triple (fun _ db' => DbInv U F cfg db') (fun db => DbInv U F cfg db ∧ Open cfg db snapshotId)
      (runWalk U cfg snapshotId turns written)
      (fun _ db => DbInv U F cfg db ∧ Open cfg db snapshotId) (fun e _ => e.Outside) := by
  unfold runWalk
  refine Triple.get_bind fun db h => ?_
  refine Triple.bind ((walkLoop_triple honest _).consequence (fun db₁ hdb₁ => ?_) (fun _ _ h => h)
    fun _ _ h => h) fun stop => ?_
  · subst hdb₁
    exact ⟨h.1, h.2, loadPending_inv⟩
  · cases stop with
    | running => exact Triple.pure fun _ h => ⟨h.1, h.2.1⟩
    | stopped =>
      dsimp only
      split
      · exact Triple.pure fun _ h => ⟨h.1, h.2.1⟩
      · exact Triple.fail fun _ _ => trivial
    | finished =>
      dsimp only
      split
      · exact closeSnapshot_triple.bind fun _ => Triple.pure fun _ h => h
      · exact Triple.fail fun _ _ => trivial

/-- **A walk from any sound database**: it returns one of the walk's snapshots. -/
theorem walkInventory_triple (turns : List Turn) (reuseComplete written : Bool) :
    Triple (fun _ db' => DbInv U F cfg db')
      (fun db => DbInv U F cfg db ∧ ∀ t ∈ turns, t.Honest (F (db.walked cfg)))
      (walkInventory U cfg reuseComplete turns written)
      (fun o db => DbInv U F cfg db ∧ ∀ snapshotId, o = some snapshotId → Open cfg db snapshotId)
      (fun e _ => e.Outside) := by
  unfold walkInventory
  refine Triple.pre fun db₀ h => ?_
  refine Triple.bind ((openSnapshot_triple reuseComplete db₀).consequence
    (fun db hdb => ⟨hdb, hdb ▸ h.1⟩) (fun _ _ h' => h') fun _ _ h' => h') fun o => ?_
  cases o with
  | none =>
    refine Triple.get_bind fun db h' => Triple.pure fun _ hdb => ?_
    subst hdb
    exact ⟨h'.1, fun _ ho => latestComplete_open ho⟩
  | some snapshotId =>
    refine Triple.pre fun db h' => ?_
    obtain ⟨hopen, rfl⟩ := h'.2 _ rfl
    refine Triple.bind ((runWalk_triple h.2 written).consequence (fun _ hdb => hdb ▸ ⟨h'.1, hopen⟩)
      (fun _ _ h => h) fun _ _ h => h) fun stop => Triple.pure fun db' hdb' => ⟨hdb'.1, ?_⟩
    intro snapshotId ho
    split at ho
    · cases ho
    · cases ho
      exact hdb'.2

end Inventory

section Runs

/-- A database the walk has not touched: no snapshot of its own, no rows without a
snapshot. -/
structure Untouched (cfg : WalkConfig) (db : ProtonDb) : Prop where
  foreign : ∀ s ∈ db.snapshots, ¬ cfg.Owns s
  blank : ∀ id, (∀ s ∈ db.snapshots, s.id ≠ id) → db.view id = SnapshotView.blank
  commits : db.commits = []

/-- **The databases walks leave behind**: each walk may be killed after any commit, and
the next resumes it under any schedule. -/
inductive Reached (U : Unicode) (T : Tree) (cfg : WalkConfig) : ProtonDb → Prop
  | start {db : ProtonDb} (h : Untouched cfg db) : Reached U T cfg db
  | walk {db db' : ProtonDb} (h : Reached U T cfg db) (reuseComplete written : Bool)
      (turns : List Turn) (honest : ∀ t ∈ turns, t.Honest T)
      (hdb' : db' ∈ (walkInventory U cfg reuseComplete turns written db).states) :
      Reached U T cfg db'

/-- **The turns of the loop**: the memory and the tables where a turn begins. -/
inductive AtTurn (U : Unicode) (T : Tree) (cfg : WalkConfig) (snapshotId : ℕ) :
    Walk → ProtonDb → Prop
  | first {db : ProtonDb} (h : Reached U T cfg db) (hopen : Open cfg db snapshotId) :
      AtTurn U T cfg snapshotId (loadPending cfg snapshotId db) db
  | next {mem mem₁ mem₂ : Walk} {db : ProtonDb} (h : AtTurn U T cfg snapshotId mem db)
      (hd : dispatch cfg snapshotId db mem = .ok mem₁) (t : Turn) (honest : t.Honest T)
      (hr : (walkTurn U snapshotId t mem₁ db).result = .ok (some mem₂)) :
      AtTurn U T cfg snapshotId mem₂ ((walkTurn U snapshotId t mem₁).final db)

theorem Untouched.inv (h : Untouched cfg db) : DbInv U F cfg db := by
  refine ⟨fun s hs hown => absurd hown (h.foreign s hs), fun s hs hown => absurd hown (h.foreign s hs),
    h.blank, ?_⟩
  rw [h.commits]
  exact List.nodup_nil

/-- No walk yet. -/
theorem untouched_empty : Untouched cfg ProtonDb.empty :=
  ⟨fun _ hs => absurd hs List.not_mem_nil, fun _ _ => SnapshotView.ext rfl rfl
    (funext fun _ => propext ⟨fun h => absurd h List.not_mem_nil, False.elim⟩), rfl⟩

theorem inv_of_reached (h : Reached U T cfg db) : DbInv U (fun _ => T) cfg db := by
  induction h with
  | start h => exact h.inv
  | @walk db db' _ reuseComplete written turns honest hdb' ih =>
    have hreach := (walkInventory_triple turns reuseComplete written).killed ⟨ih, honest⟩ hdb'
    cases hreach with
    | refl => exact ih
    | tail _ hlast => exact hlast

theorem walking_of_atTurn (h : AtTurn U T cfg snapshotId mem db) :
    Walking U (fun _ => T) cfg snapshotId mem db := by
  induction h with
  | first h hopen => exact ⟨inv_of_reached h, hopen, loadPending_inv⟩
  | @next mem mem₁ mem₂ db _ hd t honest hr ih =>
    obtain ⟨mem', hmem, hinv, -⟩ := dispatch_ok ih.mem
    rw [hd] at hmem
    cases hmem
    obtain ⟨-, hok, -⟩ := walkTurn_triple honest db ⟨ih.inv, ih.isOpen, hinv⟩
    exact (hok _ hr).walking _ rfl

/-- A complete snapshot is its tree. -/
theorem DbInv.snapshotOf (h : DbInv U F cfg db) {s : ProtonSnapshot} (hs : s ∈ db.snapshots)
    (hown : cfg.Owns s) (hst : s.status = .complete) : SnapshotOf U (F s.id) db s.id := by
  have hsound := h.sound s hs hown
  have hnone := h.closed s hs hown hst
  have hcomplete : ∀ u p st, (db.view s.id).folder u = some (p, st) → st = .complete := by
    intro u p st hp
    cases st with
    | complete => rfl
    | pending => exact absurd ⟨p, hp⟩ (hnone u)
  have hlisted := hsound.complete hcomplete
  -- a closed snapshot has no waiting folder, so its rows are the tree's
  have hrecords : ∀ r ∈ db.nodesOf s.id, ∃ n ∈ (F s.id).nodes, Records U (F s.id) r n := by
    intro r hr
    obtain ⟨hr, hid⟩ := mem_nodesOf.1 hr
    have hfind : db.nodes.find? (s.id, r.uid) = some r :=
      Table.find?_eq_some.2 ⟨hr, Prod.ext hid rfl⟩
    obtain ⟨n, hn, -, hrec, -⟩ := hsound.node r.uid r hfind
    exact ⟨n, hn, hrec⟩
  refine ⟨(List.perm_ext_iff_of_nodup ?_ (List.nodup_cons.1 (F s.id).nodup).2).2 fun u => ?_,
    hrecords,
    fun f hf hid => ?_⟩
  · exact Table.nodup_filter_map Prod.mk s.id fun _ _ hp => Prod.ext (of_decide_eq_true hp) rfl
  · rw [List.mem_map, List.mem_map]
    constructor
    · rintro ⟨r, hr, rfl⟩
      obtain ⟨n, hn, hrec⟩ := hrecords r hr
      exact ⟨n, hn, hrec.uid.symm⟩
    · rintro ⟨n, hn, rfl⟩
      obtain ⟨r, hr⟩ := Option.isSome_iff_exists.1 (hsound.listed n hn (hlisted n hn))
      obtain ⟨hr, hkey⟩ := Table.find?_eq_some.1 hr
      exact ⟨r, mem_nodesOf.2 ⟨hr, congrArg Prod.fst hkey⟩, congrArg Prod.snd hkey⟩
  · have hfind : db.folders.find? (s.id, f.uid) = some f :=
      Table.find?_eq_some.2 ⟨hf, Prod.ext hid rfl⟩
    refine hcomplete f.uid f.segments f.status ?_
    change (db.folders.find? (s.id, f.uid)).map _ = _
    rw [hfind, Option.map_some]

/-- **What a walk owes**: at each turn the `PENDING` folders are those in the queues and in
flight, each once, before and after the dispatch; no listing is committed twice; a
complete snapshot is the tree. -/
structure WalkExact (U : Unicode) (T : Tree) (cfg : WalkConfig) : Prop where
  turn : ∀ snapshotId mem db, AtTurn U T cfg snapshotId mem db →
    mem.uids.Nodup ∧ ((db.pending snapshotId).map ProtonFolder.uid).Perm mem.uids ∧
      ∃ mem', dispatch cfg snapshotId db mem = .ok mem' ∧
        ((db.pending snapshotId).map ProtonFolder.uid).Perm mem'.uids
  once : ∀ db, Reached U T cfg db → db.commits.Nodup
  complete : ∀ db, Reached U T cfg db → ∀ s ∈ db.snapshots, cfg.Owns s → s.status = .complete →
    SnapshotOf U T db s.id

/-- **The walk loses and repeats nothing**, for every tree, every number of workers and
every schedule. -/
theorem walk_exact (U : Unicode) (T : Tree) (cfg : WalkConfig) : WalkExact U T cfg where
  turn := by
    intro snapshotId mem db h
    have hmem := (walking_of_atTurn h).mem
    obtain ⟨mem', hd, hmem', -⟩ := dispatch_ok hmem
    exact ⟨hmem.nodup, hmem.pending_perm, mem', hd, hmem'.pending_perm⟩
  once := fun _ h => (inv_of_reached h).once
  complete := fun _ h _ hs hown hst => (inv_of_reached h).snapshotOf hs hown hst

section Resumed

/-- A folder with one file. -/
def photosTree : Tree where
  nodes := [⟨"1".toList, rootUid, "a".toList, "folder".toList, none, none⟩,
    ⟨"2".toList, "1".toList, "b".toList, "file".toList, some 3, none⟩]
  nodup := by decide
  uid_ne := by decide
  rooted := by
    rintro (_ | ⟨x, _ | ⟨y, before⟩⟩) n after h
    · cases h
      exact Or.inl rfl
    · cases h
      exact Or.inr ⟨_, List.mem_cons_self, rfl, rfl⟩
    · simp at h

/-- A turn in which every listing lands. -/
def landing (T : Tree) : Turn where
  done := id
  rest := id
  answer f := .listed ((T.children f.folder.uid).map TreeNode.listed)
  lateFirst := false
  lateLast := false
  reseeded := true
  done_subperm := List.Subperm.refl
  done_ne := fun _ h => h
  rest_perm := List.Perm.refl

/-- Two workers. -/
def twoWorkers : WalkConfig := ⟨"/my-files/D".toList, "reconcile".toList, 2, List.length, by decide⟩

/-- The tables after a walk that was killed once its snapshot was open, and resumed. -/
def resumedDb : ProtonDb :=
  (walkInventory Unicode.latin twoWorkers false [landing photosTree, landing photosTree] true).final
    ((walkInventory Unicode.latin twoWorkers false [] true).final ProtonDb.empty)

/-- A walk that was killed once its snapshot was open. -/
theorem reached_opened : Reached Unicode.latin photosTree twoWorkers
    ((walkInventory Unicode.latin twoWorkers false [] true).final ProtonDb.empty) := by
  have hempty : Reached Unicode.latin photosTree twoWorkers ProtonDb.empty :=
    Reached.start untouched_empty
  exact hempty.walk false true [] (fun t ht => absurd ht List.not_mem_nil)
    (Prog.final_mem (p := walkInventory Unicode.latin twoWorkers false [] true) (by decide))

theorem honest_landing (T : Tree) : (landing T).Honest T := by
  intro f children h
  cases h
  exact List.Perm.refl _

theorem honest_landings (T : Tree) : ∀ t ∈ [landing T, landing T], t.Honest T := by
  intro t ht
  rcases List.mem_cons.1 ht with rfl | ht
  · exact honest_landing T
  · rw [List.mem_singleton.1 ht]
    exact honest_landing T

theorem reached_resumed : Reached Unicode.latin photosTree twoWorkers resumedDb :=
  reached_opened.walk false true [landing photosTree, landing photosTree] (honest_landings photosTree)
    (Prog.final_mem (p := walkInventory Unicode.latin twoWorkers false
      [landing photosTree, landing photosTree] true) (by decide))

theorem snapshotOf_resumed : SnapshotOf Unicode.latin photosTree resumedDb 1 :=
  (inv_of_reached reached_resumed).snapshotOf
    (s := ⟨1, "reconcile".toList, "/my-files/D".toList, .complete⟩) List.mem_cons_self ⟨rfl, rfl⟩ rfl

/-- A walk killed once its snapshot is open is resumed to a snapshot of the tree. -/
theorem walk_exact_resumed : resumedDb.commits.length = 2 ∧ resumedDb.commits.Nodup ∧
    SnapshotOf Unicode.latin photosTree resumedDb 1 :=
  have h := walk_exact Unicode.latin photosTree twoWorkers
  ⟨rfl, h.once _ reached_resumed, h.complete _ reached_resumed
    ⟨1, "reconcile".toList, "/my-files/D".toList, .complete⟩ List.mem_cons_self ⟨rfl, rfl⟩ rfl⟩

end Resumed

end Runs

end DropboxMirror
