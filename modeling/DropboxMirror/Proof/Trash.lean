import DropboxMirror.Lib.Lists
import DropboxMirror.Model.Trash
import DropboxMirror.Proof.Floor

/-!
# What the trash phase trashes

The phase passes a path to the trash call exactly for the deleted rows whose folder
lists with a file of their name (`trash_triple`). A deleted row may stand for a file
Dropbox still lists, under the same path or at the same place in Proton, and then a
live copy goes (`trash_only_gone_iff`).
-/

namespace DropboxMirror

open Text Crash

variable {U : Unicode} {destination : Str} {runId : ℕ} {Δ : Delta} {L : Listing} {M : Mirror}
  {list : Str → Option (List ProtonNode)} {rows : List DeltaDeleted} {v v' w : World}

/-- The folder of a deleted row lists with a file of its name. -/
def HasFile (U : Unicode) (destination : Str) (list : Str → Option (List ProtonNode))
    (r : DeltaDeleted) : Prop :=
  ∃ children, list (parentCliPath destination r.pathDisplay) = some children ∧
    fileCandidates U children r ≠ []

/-- The target stands for the row. -/
structure StandsFor (destination : Str) (t : TrashTarget) (r : DeltaDeleted) : Prop where
  row : t.row = r
  parent : t.parent = parentCliPath destination r.pathDisplay
  name : t.name = baseName r.pathDisplay

/-- The target stands for a deleted row with a file. -/
structure Genuine (U : Unicode) (destination : Str) (list : Str → Option (List ProtonNode))
    (rows : List DeltaDeleted) (t : TrashTarget) : Prop where
  mem : t.row ∈ rows
  stands : StandsFor destination t t.row
  hasFile : HasFile U destination list t.row

/-- Some call had a target for the row. -/
def Targeted (destination : Str) (v : World) (r : DeltaDeleted) : Prop :=
  ∃ call ∈ v.trashCalls, ∃ t ∈ call, StandsFor destination t r

/-- **One commit of the trash phase.** -/
structure TrashLink (U : Unicode) (destination : Str) (list : Str → Option (List ProtonNode))
    (runId : ℕ) (rows : List DeltaDeleted) (v v' : World) : Prop where
  items : v'.items = v.items
  batches : v'.batches = v.batches
  calls : v.trashCalls ⊆ v'.trashCalls ∧ ∀ call ∈ v'.trashCalls, call ∈ v.trashCalls ∨
    ∀ t ∈ call, Genuine U destination list rows t
  deletions : ∀ d ∈ v'.deletions, d ∈ v.deletions ∨
    d.runId = runId ∧ ∃ r ∈ rows, r.pathLower = d.pathLower
  mirror : v'.mirror = v.mirror ∨ v' = dropTrashed runId v

theorem chooseNode_eq_none {children : List ProtonNode} {r : DeltaDeleted} :
    chooseNode U children r = none ↔ fileCandidates U children r = [] := by
  unfold chooseNode
  dsimp only
  rw [Option.or_eq_none_iff, List.head?_eq_none_iff]
  constructor
  · exact And.right
  · intro h
    rw [h]
    exact ⟨rfl, rfl⟩

/-- `_record` of a row of the phase. -/
theorem record_triple {r : DeltaDeleted} {status : DeletionStatus} {uid : Option Str}
    {P : World → Prop} {E : Failure → World → Prop} (hr : r ∈ rows)
    (hP : ∀ v t, P v → P { v with deletions := t }) :
    Triple (TrashLink U destination list runId rows) P (record runId r status uid) (fun _ => P) E := by
  refine Triple.write fun v hv => ⟨⟨rfl, rfl, ⟨fun _ h => h, fun _ h => Or.inl h⟩, ?_, Or.inl rfl⟩,
    hP v _ hv⟩
  intro d hd
  by_cases hk : d.key = (runId, r.pathLower)
  · exact Or.inr ⟨congrArg Prod.fst hk, r, hr, (congrArg Prod.snd hk).symm⟩
  · left
    rw [Table.mem_iff_find?, Table.find?_upsert_of_ne] at hd
    · exact Table.mem_iff_find?.2 hd
    · exact fun h => hk h.symm

theorem recordAll_triple {α : Type} {xs : List α} {row : α → DeltaDeleted} {status : DeletionStatus}
    {uid : α → Option Str} {P : World → Prop} {E : Failure → World → Prop}
    (hxs : ∀ x ∈ xs, row x ∈ rows) (hP : ∀ v t, P v → P { v with deletions := t }) :
    Triple (TrashLink U destination list runId rows) P
      (xs.foldlM (fun _ x => record runId (row x) status (uid x)) ()) (fun _ => P) E :=
  Triple.foldlM (fun _ _ => P) xs () fun before x after hsplit _ =>
    record_triple (hxs x (by rw [hsplit]; simp)) hP

/-- Each node of each listing carries its UID. -/
def HasUids (list : Str → Option (List ProtonNode)) : Prop :=
  ∀ parent children, list parent = some children → ∀ n ∈ children, n.uid ≠ none

/-- Proton and the bucket answer every call of the phase. -/
structure Smooth (env : TrashEnv) : Prop where
  uids : HasUids env.list
  root : env.root = .ok ()
  trash : ∀ parent, env.trash parent = .ok ()
  push : env.push = .ok ()

/-- The targets of the rows of a folder so far. -/
structure Collected (U : Unicode) (destination : Str) (list : Str → Option (List ProtonNode))
    (rows done : List DeltaDeleted) (targets : List TrashTarget) : Prop where
  genuine : ∀ t ∈ targets, Genuine U destination list rows t
  complete : ∀ r ∈ done, HasFile U destination list r → ∃ t ∈ targets, StandsFor destination t r

theorem collectTarget_triple (U : Unicode) (runId : ℕ) {children : List ProtonNode}
    (done : List DeltaDeleted) {r : DeltaDeleted} (acc : TrashCounts × List TrashTarget) {P : World → Prop}
    (hr : r ∈ rows) (hlist : list (parentCliPath destination r.pathDisplay) = some children)
    (hP : ∀ v t, P v → P { v with deletions := t }) :
    Triple (TrashLink U destination list runId rows)
      (fun v => P v ∧ Collected U destination list rows done acc.2)
      (collectTarget U runId (parentCliPath destination r.pathDisplay) children acc r)
      (fun acc v => P v ∧ Collected U destination list rows (done ++ [r]) acc.2)
      (fun _ _ => ¬ HasUids list) := by
  unfold collectTarget
  cases hnode : chooseNode U children r with
  | none =>
    refine (record_triple hr fun v t hv => ⟨hP v t hv.1, hv.2⟩).bind fun _ => Triple.pure ?_
    rintro v ⟨hv, hcol⟩
    refine ⟨hv, hcol.genuine, fun x hx hfile => ?_⟩
    rcases List.mem_append.1 hx with hx | hx
    · exact hcol.complete x hx hfile
    · rw [List.mem_singleton.1 hx] at hfile
      obtain ⟨children', hl, hne⟩ := hfile
      rw [hlist] at hl
      cases hl
      exact absurd (chooseNode_eq_none.1 hnode) hne
  | some node =>
    have hne : fileCandidates U children r ≠ [] := fun h => by
      rw [chooseNode_eq_none.2 h] at hnode
      cases hnode
    dsimp only
    cases huid : node.uid with
    | none =>
      -- a node without a UID raises, which a listing with UIDs excludes
      refine Triple.fail fun v _ huids => huids _ _ hlist node ?_ huid
      have hmem : node ∈ fileCandidates U children r := by
        unfold chooseNode at hnode
        rcases Option.or_eq_some_iff.1 hnode with h | ⟨-, h⟩
        · exact List.mem_of_find?_eq_some h
        · exact List.mem_of_mem_head? h
      exact (List.mem_filter.1 (List.mem_filter.1 hmem).1).1
    | some uid =>
      refine Triple.pure ?_
      rintro v ⟨hv, hcol⟩
      have hstands : StandsFor destination
          (trashTarget children (parentCliPath destination r.pathDisplay) r (pyStr uid)) r :=
        ⟨rfl, rfl, rfl⟩
      refine ⟨hv, fun t ht => ?_, fun x hx hfile => ?_⟩
      · rcases List.mem_append.1 ht with ht | ht
        · exact hcol.genuine t ht
        · rw [List.mem_singleton.1 ht]
          exact ⟨hr, hstands, children, hlist, hne⟩
      · rcases List.mem_append.1 hx with hx | hx
        · obtain ⟨t, ht, hs⟩ := hcol.complete x hx hfile
          exact ⟨t, List.mem_append_left _ ht, hs⟩
        · rw [List.mem_singleton.1 hx]
          exact ⟨_, List.mem_append_right _ List.mem_cons_self, hstands⟩

/-- The rows done have their targets in some call, and the mirror is as it was. -/
structure GroupInv (U : Unicode) (destination : Str) (list : Str → Option (List ProtonNode))
    (w : World) (done : List DeltaDeleted) (v : World) : Prop where
  mirror : v.mirror = w.mirror
  targeted : ∀ r ∈ done, HasFile U destination list r → Targeted destination v r

theorem GroupInv.deletions {done : List DeltaDeleted} (h : GroupInv U destination list w done v)
    (t : Table Deletion.key) : GroupInv U destination list w done { v with deletions := t } :=
  ⟨h.mirror, h.targeted⟩

theorem trashTargets_triple {answer : Except Failure Unit} {targets : List TrashTarget}
    {counts : TrashCounts} {done group : List DeltaDeleted}
    (hcol : Collected U destination list rows group targets) :
    Triple (TrashLink U destination list runId rows) (GroupInv U destination list w done)
      (trashTargets runId answer targets counts)
      (fun _ => GroupInv U destination list w (done ++ group)) (fun _ _ => answer ≠ .ok ()) := by
  unfold trashTargets
  split
  · rename_i hnil
    refine Triple.pure fun v hv => ⟨hv.mirror, fun r hr hfile => ?_⟩
    rcases List.mem_append.1 hr with hr | hr
    · exact hv.targeted r hr hfile
    · obtain ⟨t, ht, -⟩ := hcol.complete r hr hfile
      rw [hnil] at ht
      exact absurd ht List.not_mem_nil
  · refine Triple.bind (M := fun _ => GroupInv U destination list w (done ++ group))
      (Triple.write fun v hv => ⟨⟨rfl, rfl, ⟨?_, ?_⟩, fun _ h => Or.inl h, Or.inl rfl⟩, hv.mirror,
        fun r hr hfile => ?_⟩) fun _ => ?_
    · exact List.subset_append_left _ _
    · intro call hcall
      rcases List.mem_append.1 hcall with h | h
      · exact Or.inl h
      · rw [List.mem_singleton.1 h]
        exact Or.inr hcol.genuine
    · rcases List.mem_append.1 hr with hr | hr
      · obtain ⟨call, hcall, t, ht, hs⟩ := hv.targeted r hr hfile
        exact ⟨call, List.mem_append_left _ hcall, t, ht, hs⟩
      · obtain ⟨t, ht, hs⟩ := hcol.complete r hr hfile
        exact ⟨targets, List.mem_append_right _ List.mem_cons_self, t, ht, hs⟩
    · cases answer with
      | error e => exact Triple.fail fun v _ h => by cases h
      | ok u =>
        refine (recordAll_triple (fun t ht => (hcol.genuine t ht).mem)
          fun v t hv => hv.deletions t).bind fun _ => Triple.pure fun _ h => h

/-- One folder of the trash phase. -/
theorem trashGroup_triple {env : TrashEnv} {counts : TrashCounts} {parent : Str}
    {done group : List DeltaDeleted} (hsub : ∀ r ∈ group, r ∈ rows)
    (hparent : ∀ r ∈ group, parentCliPath destination r.pathDisplay = parent) :
    Triple (TrashLink U destination env.list runId rows) (GroupInv U destination env.list w done)
      (trashGroup U runId env counts (parent, group))
      (fun _ => GroupInv U destination env.list w (done ++ group)) (fun _ _ => ¬ Smooth env) := by
  unfold trashGroup
  dsimp only
  cases hlist : env.list parent with
  | none =>
    refine Triple.bind (M := fun _ => GroupInv U destination env.list w (done ++ group))
      ((recordAll_triple hsub fun v t hv => hv.deletions t).consequence (fun v hv => ?_)
        (fun _ _ h => h) (fun _ _ h => h)) fun _ => Triple.pure fun _ h => h
    refine ⟨hv.mirror, fun r hr hfile => ?_⟩
    rcases List.mem_append.1 hr with hr | hr
    · exact hv.targeted r hr hfile
    · obtain ⟨children, hl, -⟩ := hfile
      rw [hparent r hr, hlist] at hl
      cases hl
  | some children =>
    refine Triple.bind (M := fun acc v => GroupInv U destination env.list w done v ∧
      Collected U destination env.list rows group acc.2) ?_ fun acc => ?_
    · refine (Triple.foldlM (E := fun _ _ => ¬ HasUids env.list)
        (fun before acc v => GroupInv U destination env.list w done v ∧
          Collected U destination env.list rows before acc.2) group (counts, [])
        fun before r after hsplit acc => ?_).consequence (fun v hv => ⟨hv, ?_, ?_⟩) (fun _ _ h => h)
        (fun _ _ h hs => h hs.uids)
      · have hr : r ∈ group := by rw [hsplit]; simp
        have := collectTarget_triple U runId before acc
          (hsub r hr) (by rw [hparent r hr]; exact hlist)
          (fun v t (hv : GroupInv U destination env.list w done v) => hv.deletions t)
        rwa [hparent r hr] at this
      · simp
      · simp
    · refine Triple.pre fun v hv => ?_
      refine Triple.bind (M := fun _ => GroupInv U destination env.list w (done ++ group)) ?_
        fun _ => Triple.pure fun _ h => h
      exact (trashTargets_triple hv.2).consequence (fun u hu => hu ▸ hv.1) (fun _ _ h => h)
        fun _ _ h hs => h (hs.trash parent)

theorem mem_byParent (group : Str × List DeltaDeleted) (h : group ∈ byParent destination rows) :
    ∀ r ∈ group.2, r ∈ rows ∧ parentCliPath destination r.pathDisplay = group.1 := by
  obtain ⟨p, -, rfl⟩ := List.mem_map.1 h
  intro r hr
  obtain ⟨hr, hp⟩ := List.mem_filter.1 hr
  exact ⟨hr, of_decide_eq_true hp⟩

/-- The groups hold every row once. -/
theorem perm_byParent (destination : Str) (rows : List DeltaDeleted) :
    ((byParent destination rows).flatMap Prod.snd).Perm rows := by
  have hnd : ((rows.map fun r => parentCliPath destination r.pathDisplay).dedup.insertionSort
      fun a b => a ≤ b).Nodup := (List.perm_insertionSort _ _).nodup_iff.2 (List.nodup_dedup _)
  unfold byParent
  dsimp only
  rw [List.flatMap_map]
  refine Lists.perm_groups hnd fun r hr => ?_
  rw [(List.perm_insertionSort _ _).mem_iff, List.mem_dedup]
  exact List.mem_map_of_mem hr

/-- The loop over the folders, by what each of them keeps of the rows done so far. -/
theorem trashGroups_triple {R : World → World → Prop} {E : Failure → World → Prop} {env : TrashEnv}
    (rows : List DeltaDeleted) (I : List DeltaDeleted → TrashCounts → World → Prop)
    (hgroup : ∀ done group counts, group ∈ byParent destination rows →
      Triple R (I done counts) (trashGroup U runId env counts group) (I (done ++ group.2)) E) :
    Triple R (I [] ⟨0, 0, 0, 0⟩)
      ((byParent destination rows).foldlM (trashGroup U runId env) ⟨0, 0, 0, 0⟩)
      (I ((byParent destination rows).flatMap Prod.snd)) E := by
  refine Triple.foldlM (fun done => I (done.flatMap Prod.snd)) (byParent destination rows)
    (⟨0, 0, 0, 0⟩ : TrashCounts) fun before group after hsplit counts => ?_
  rw [List.flatMap_append, List.flatMap_singleton]
  exact hgroup _ _ _ (by rw [hsplit]; simp)

/-- What a trash phase that returns leaves: the mirror without the rows it recorded as
gone, and a target for every deleted row with a file, unless it waited. -/
structure TrashPost (U : Unicode) (destination : Str) (list : Str → Option (List ProtonNode))
    (apply : Bool) (runId : ℕ) (Δ : Delta) (w v : World) : Prop where
  mirror : v.mirror = w.mirror ∧ v.deletions = w.deletions ∨
    ∃ u, v = dropTrashed runId u ∧ u.mirror = w.mirror
  targeted : apply = true → batchesRemain w = false → ∀ r ∈ Δ.deleted,
    HasFile U destination list r → Targeted destination v r

/-- **The trash phase.** -/
theorem trash_triple (U : Unicode) (destination : Str) (apply : Bool) (runId : ℕ) (Δ : Delta)
    (env : TrashEnv) :
    Triple (TrashLink U destination env.list runId Δ.deleted.rows) (fun v => v = w)
      (trashRun U destination apply runId Δ env)
      (fun _ v => TrashPost U destination env.list apply runId Δ w v) (fun _ _ => ¬ Smooth env) := by
  unfold trashRun
  refine Triple.get_bind fun s hs => ?_
  rw [hs]
  dsimp only
  set rows := Δ.deleted.rows.insertionSort fun a b => a.pathLower ≤ b.pathLower
  have hperm : rows.Perm Δ.deleted.rows := List.perm_insertionSort _ _
  split
  · rename_i happly
    refine Triple.pure ?_
    rintro v rfl
    exact ⟨Or.inl ⟨rfl, rfl⟩, fun h => by rw [happly] at h; cases h⟩
  split
  · rename_i hwait
    refine Triple.pure ?_
    rintro v rfl
    exact ⟨Or.inl ⟨rfl, rfl⟩, fun _ h => by rw [h] at hwait; cases hwait⟩
  split
  · rename_i hnil
    refine Triple.pure ?_
    rintro v rfl
    refine ⟨Or.inl ⟨rfl, rfl⟩, fun _ _ r hr => ?_⟩
    have : r ∈ rows := hperm.mem_iff.2 hr
    rw [hnil] at this
    exact absurd this List.not_mem_nil
  cases hroot : env.root with
  | error e =>
    refine Triple.fail fun _ _ h => ?_
    have := h.root
    rw [hroot] at this
    cases this
  | ok u =>
    have hloop := trashGroups_triple (R := TrashLink U destination env.list runId Δ.deleted.rows)
      (E := fun _ _ => ¬ Smooth env) rows (fun done _ => GroupInv U destination env.list w done)
      fun done group counts hgroup => trashGroup_triple
        (fun r hr => hperm.mem_iff.1 (mem_byParent group hgroup r hr).1)
        fun r hr => (mem_byParent group hgroup r hr).2
    refine Triple.bind (hloop.consequence ?_ (fun _ _ h => h) (fun _ _ h => h)) fun counts => ?_
    · intro v hv
      exact ⟨congrArg World.mirror hv, fun r hr => absurd hr List.not_mem_nil⟩
    refine Triple.bind (M := fun _ v => TrashPost U destination env.list apply runId Δ w v)
      (Triple.write fun v hv => ⟨?_, Or.inr ⟨v, rfl, hv.mirror⟩, fun _ _ r hr hfile => ?_⟩)
      fun _ => ?_
    · exact ⟨rfl, rfl, ⟨fun _ h => h, fun _ h => Or.inl h⟩, fun _ h => Or.inl h, Or.inr rfl⟩
    · have hrow := hperm.mem_iff.2 hr
      exact hv.targeted r ((perm_byParent destination rows).mem_iff.2 hrow) hfile
    · cases hpush : env.push with
      | error e =>
        refine Triple.fail fun _ _ h => ?_
        have := h.push
        rw [hpush] at this
        cases this
      | ok u => exact Triple.pure fun _ h => h

/-- Where Proton holds a display path: the folder's CLI path and the file's name. -/
def protonPlace (destination pathDisplay : Str) : Str × Str :=
  (parentCliPath destination pathDisplay, baseName pathDisplay)

/-- The listing contains a file, under the row's path or at the row's place in Proton. -/
def StillListed (U : Unicode) (destination : Str) (L : Listing) (r : DeltaDeleted) : Prop :=
  ∃ d ∈ L, d.tag = .file ∧ (d.pathLower = some r.pathLower ∨
    protonPlace destination (nfcDisplay U L d) = protonPlace destination r.pathDisplay)

/-- **No listed file is trashed**, whatever Proton answers to the phase over its folders
`list`: no target of a call is at the path or the place of a file the listing contains. -/
def NeverTrashesListed (U : Unicode) (destination : Str) (runId : ℕ) (L : Listing) (Δ : Delta)
    (list : Str → Option (List ProtonNode)) : Prop :=
  ∀ apply env w, env.list = list → w.trashCalls = [] →
    ∀ v ∈ (trashRun U destination apply runId Δ env w).states, ∀ call ∈ v.trashCalls, ∀ t ∈ call,
      ∀ d ∈ L, d.tag = .file → d.pathLower ≠ some t.row.pathLower ∧
        protonPlace destination (nfcDisplay U L d) ≠ (t.parent, t.name)

/-- Every target of a trash phase stands for a deleted row with a file. -/
theorem genuine_of_reached (h : Relation.ReflTransGen (TrashLink U destination list runId rows) w v)
    (hw : w.trashCalls = []) :
    ∀ call ∈ v.trashCalls, ∀ t ∈ call, Genuine U destination list rows t := by
  induction h with
  | refl =>
    intro call hcall
    rw [hw] at hcall
    exact absurd hcall List.not_mem_nil
  | tail _ hstep ih =>
    intro call hcall
    rcases hstep.calls.2 call hcall with h | h
    · exact ih call h
    · exact h

/-- A world whose batches have all landed. -/
def landedWorld : World := { World.initial with run := ⟨some 0, some 0, false⟩ }

/-- A trash phase that meets no error has a target for every deleted row with a file. -/
theorem exists_target (U : Unicode) (runId : ℕ) (huids : HasUids list) {r : DeltaDeleted}
    (hr : r ∈ Δ.deleted) (hfile : HasFile U destination list r) :
    ∃ v ∈ (trashRun U destination true runId Δ ⟨.ok (), list, fun _ => .ok (), .ok ()⟩
      landedWorld).states, Targeted destination v r := by
  set env : TrashEnv := ⟨.ok (), list, fun _ => .ok (), .ok ()⟩ with henv
  have hsmooth : Smooth env := ⟨huids, rfl, fun _ => rfl, rfl⟩
  obtain ⟨-, hok, herr⟩ := trash_triple U destination true runId Δ env landedWorld rfl
  have htarget : Targeted destination
      ((trashRun U destination true runId Δ env).final landedWorld) r := by
    cases hres : (trashRun U destination true runId Δ env landedWorld).result with
    | ok outputs => exact (hok outputs hres).targeted rfl rfl r hr hfile
    | error e => exact absurd hsmooth (herr e hres)
  refine ⟨_, ?_, htarget⟩
  rcases Prog.final_eq_or_mem (trashRun U destination true runId Δ env) landedWorld with h | h
  · rw [h] at htarget
    obtain ⟨call, hcall, -⟩ := htarget
    exact absurd hcall List.not_mem_nil
  · exact h

/-- A deleted row with a file stands for no listed file, if none is trashed. -/
theorem NeverTrashesListed.spares (hnever : NeverTrashesListed U destination runId L Δ list)
    (huids : HasUids list) {r : DeltaDeleted} (hr : r ∈ Δ.deleted)
    (hfile : HasFile U destination list r) : ¬ StillListed U destination L r := by
  rintro ⟨d, hd, htag, hd'⟩
  obtain ⟨v, hv, call, hcall, t, ht, hs⟩ :=
    exists_target U runId huids hr hfile
  obtain ⟨hpath, hplace⟩ := hnever true _ landedWorld rfl rfl v hv call hcall t ht d hd htag
  rcases hd' with h | h
  · exact hpath (by rw [hs.row]; exact h)
  · exact hplace (by rw [hs.parent, hs.name]; exact h)

/-- **The trash phase spares the listed files exactly when none of the rows it looks up
stands for one**: a mirrored path without a downloadable file of the listing, whose
Proton folder has a file of its name, is no listed file's path and no listed file's place. -/
theorem trash_only_gone_iff {ratio : ℚ} (hΔ : deltaRun U ratio runId (some L) M = .ok Δ)
    (huids : HasUids list) :
    NeverTrashesListed U destination runId L Δ list ↔
      ∀ m ∈ M, isDeleted L m = true → HasFile U destination list (deletedRow runId m) →
        ¬ StillListed U destination L (deletedRow runId m) := by
  obtain ⟨L', hL, -, -, hdel⟩ := deltaRun_ok hΔ
  cases hL
  have hmem : ∀ r, r ∈ Δ.deleted ↔ ∃ m ∈ M, isDeleted L m = true ∧ deletedRow runId m = r := by
    rw [hdel]
    exact fun r => mem_deletedRows
  constructor
  · exact fun hnever m hm hgone => hnever.spares huids ((hmem _).2 ⟨m, hm, hgone, rfl⟩)
  · rintro hspare apply env w rfl hw v hv call hcall t ht d hd htag
    have hreach := (trash_triple U destination apply runId Δ env).killed rfl hv
    have hgen := genuine_of_reached hreach hw call hcall t ht
    obtain ⟨m, hm, hgone, hrow⟩ := (hmem _).1 hgen.mem
    have hfile := hgen.hasFile
    have hstands := hgen.stands
    rw [← hrow] at hfile hstands ⊢
    refine ⟨fun h => hspare m hm hgone hfile ⟨d, hd, htag, Or.inl h⟩, fun h => ?_⟩
    rw [hstands.parent, hstands.name] at h
    exact hspare m hm hgone hfile ⟨d, hd, htag, Or.inr h⟩

/-- The mirrors a run may start from: checkpoints add rows of a delta's changed files,
the trash and reconcile phases drop rows, and reconcile refreshes Proton UIDs. -/
inductive ReachableMirror (U : Unicode) : Mirror → Prop
  | empty : ReachableMirror U Table.empty
  | checkpoint {M : Mirror} {ratio : ℚ} {runId : ℕ} {L : Listing} {Δ : Delta}
      {S : List DeltaChanged} {rows : List MirrorObject} (h : ReachableMirror U M)
      (hΔ : deltaRun U ratio runId (some (finishListing L)) M = .ok Δ)
      (hS : ∀ r ∈ S, r ∈ Δ.changed) (hrows : Checkpointed S rows) :
      ReachableMirror U (mergeConfirmed M rows)
  | drop {M : Mirror} (h : ReachableMirror U M) (p : MirrorObject → Bool) :
      ReachableMirror U (M.filter p)
  | refresh {M : Mirror} (h : ReachableMirror U M) (uid : MirrorObject → Option Str) :
      ReachableMirror U (M.modify (fun m => { m with protonUid := uid m }) fun _ => rfl)

section Nights

/-- The destination `/D` with one file of the name in it, and nothing below. -/
def oneFolder (name : String) (parent : Str) : Option (List ProtonNode) :=
  if parent = "/D".toList then
    some [⟨some name.toList, some "file".toList, some (some "uid".toList)⟩]
  else none

theorem hasUids_oneFolder (name : String) : HasUids (oneFolder name) := by
  intro parent children hlist n hn
  unfold oneFolder at hlist
  split at hlist
  · cases hlist
    rw [List.mem_singleton.1 hn]
    exact nofun
  · cases hlist

/-- A night that trashes a file its listing contains. -/
def TrashesListed (L : Listing) (name : String) : Prop :=
  ∃ M Δ, ReachableMirror Unicode.latin M ∧
    deltaRun Unicode.latin Budget.small.listingFloorRatio 2 (some (finishListing L)) M = .ok Δ ∧
    ¬ NeverTrashesListed Unicode.latin "/D".toList 2 (finishListing L) Δ (oneFolder name)

/-- Two files, both mirrored the night before. -/
def twoFiles : Listing := ⟨[plainFile "/a", plainFile "/b"], by decide⟩

/-- The rows of the night before. -/
def twoFileRows : List MirrorObject := [plainRow "/a", plainRow "/b"]

/-- The mirror of the night before. -/
def twoFileMirror : Mirror := mergeConfirmed Table.empty twoFileRows

/-- The file `/a` left Dropbox. -/
def leftListing : Listing := ⟨[plainFile "/b"], by decide⟩

/-- The file `/a` lost its hash. -/
def unhashedListing : Listing :=
  ⟨[{ plainFile "/a" with contentHash := none }, plainFile "/b"], by decide⟩

/-- A name written with a combining accent. -/
def decomposedListing : Listing := ⟨[plainFile "/cafe\u0301"], by decide⟩

/-- The name written with the composed letter. -/
def composedListing : Listing := ⟨[plainFile "/caf\u00e9"], by decide⟩

/-- The mirror row of the decomposed name: its display path is composed. -/
def decomposedRow : MirrorObject :=
  { plainRow "/cafe\u0301" with pathDisplay := "/caf\u00e9".toList }

/-- A file that left is trashed, and no other. -/
theorem trash_only_gone_left :
    ∃ Δ, deltaRun Unicode.latin Budget.small.listingFloorRatio 2 (some leftListing)
        twoFileMirror = .ok Δ ∧
      NeverTrashesListed Unicode.latin "/D".toList 2 leftListing Δ (oneFolder "a") := by
  have hfloor : FloorOk Budget.small.listingFloorRatio leftListing twoFileMirror :=
    fun _ => by decide +kernel
  have hrows : changedRows Unicode.latin 2 leftListing twoFileMirror = .ok [] := rfl
  have hrun := deltaRun_accepts hfloor hrows List.nodup_nil
  refine ⟨_, hrun, (trash_only_gone_iff hrun (hasUids_oneFolder "a")).2 ?_⟩
  rintro m hm hgone - ⟨d, hd, -, h⟩
  rw [List.mem_singleton.1 hd] at h
  rcases List.mem_cons.1 hm with rfl | hm
  · exact absurd h (by decide)
  · rw [List.mem_singleton.1 hm] at hgone
    exact absurd hgone (by decide)

/-- **A listed file is trashed**: the one whose name is now spelled with the composed
letter, and the one that lost its hash. -/
theorem listed_file_trashed :
    TrashesListed composedListing "caf\u00e9" ∧ TrashesListed unhashedListing "a" := by
  have hfirst : ∀ L, FloorOk Budget.small.listingFloorRatio L Table.empty := fun L h => absurd rfl h
  have hcafe : changedRows Unicode.latin 1 (finishListing decomposedListing) Table.empty =
      .ok [⟨1, "/cafe\u0301".toList, "/caf\u00e9".toList, 1, "h".toList⟩] := rfl
  have hcomposed : changedRows Unicode.latin 2 (finishListing composedListing)
      (mergeConfirmed Table.empty [decomposedRow]) =
        .ok [⟨2, "/caf\u00e9".toList, "/caf\u00e9".toList, 1, "h".toList⟩] := rfl
  have htwo : changedRows Unicode.latin 1 (finishListing twoFiles) Table.empty =
      .ok [⟨1, "/a".toList, "/a".toList, 1, "h".toList⟩,
        ⟨1, "/b".toList, "/b".toList, 1, "h".toList⟩] := rfl
  have hunhashed : changedRows Unicode.latin 2 (finishListing unhashedListing) twoFileMirror =
      .ok [] := rfl
  refine ⟨⟨mergeConfirmed Table.empty [decomposedRow], _,
      ReachableMirror.empty.checkpoint (deltaRun_accepts (hfirst _) hcafe (by decide))
        (fun _ h => h) (List.Forall₂.cons ⟨rfl, rfl, rfl, rfl⟩ List.Forall₂.nil),
      deltaRun_accepts (fun _ => by decide +kernel) hcomposed (by decide), fun hnever => ?_⟩,
    ⟨twoFileMirror, _, ReachableMirror.empty.checkpoint
        (deltaRun_accepts (hfirst _) htwo (by decide)) (fun _ h => h)
        (List.Forall₂.cons ⟨rfl, rfl, rfl, rfl⟩
          (List.Forall₂.cons ⟨rfl, rfl, rfl, rfl⟩ List.Forall₂.nil)),
      deltaRun_accepts (fun _ => by decide +kernel) hunhashed List.nodup_nil, fun hnever => ?_⟩⟩
  · refine hnever.spares (r := deletedRow 2 decomposedRow) (hasUids_oneFolder _)
      List.mem_cons_self ⟨_, rfl, ?_⟩ ⟨_, List.mem_cons_self, rfl, Or.inr ?_⟩ <;> decide
  · refine hnever.spares (r := deletedRow 2 (plainRow "/a")) (hasUids_oneFolder _)
      List.mem_cons_self ⟨_, rfl, ?_⟩ ⟨_, List.mem_cons_self, rfl, Or.inl ?_⟩ <;> decide

end Nights

end DropboxMirror
