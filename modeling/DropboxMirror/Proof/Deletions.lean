import DropboxMirror.Proof.Trash

/-!
# The books of the trash phase

What the listings say of a deleted row decides its record (`deletionOf`) and its path in
the trash call (`targetOf`). A phase that returns has recorded every row once, as its
counts say, and has dropped from the mirror exactly the rows recorded as gone. A trash
call that raises leaves the mirror as it was.

* `collect_loop`: the rows of one folder before the call.
* `trashGroup_books`: one folder.
* `trash_accounts`: the phase.
-/

namespace DropboxMirror

open Text Crash

variable {U : Unicode} {destination parent : Str} {runId : ℕ} {Δ : Delta}
  {list : Str → Option (List ProtonNode)} {children : List ProtonNode}
  {rows done group : List DeltaDeleted} {r : DeltaDeleted} {u v w : World}

/-- The record of a row, by what the listings say of it. -/
def deletionOf (U : Unicode) (destination : Str) (list : Str → Option (List ProtonNode)) (runId : ℕ)
    (r : DeltaDeleted) : Deletion :=
  match list (parentCliPath destination r.pathDisplay) with
  | none => ⟨runId, r.pathLower, r.pathDisplay, none, .listingFailed⟩
  | some children =>
    match chooseNode U children r with
    | none => ⟨runId, r.pathLower, r.pathDisplay, none, .notFound⟩
    | some node => ⟨runId, r.pathLower, r.pathDisplay, some node.uidText, .trashed⟩

/-- The target of a row in a listed folder. -/
def rowTarget (U : Unicode) (parent : Str) (children : List ProtonNode) (r : DeltaDeleted) :
    Option TrashTarget :=
  (chooseNode U children r).map fun node => trashTarget children parent r node.uidText

/-- The target of a row, by what the listings say of it. -/
def targetOf (U : Unicode) (destination : Str) (list : Str → Option (List ProtonNode))
    (r : DeltaDeleted) : Option TrashTarget :=
  (list (parentCliPath destination r.pathDisplay)).bind fun children =>
    rowTarget U (parentCliPath destination r.pathDisplay) children r

@[simp] theorem key_deletionOf : (deletionOf U destination list runId r).key = (runId, r.pathLower) := by
  unfold deletionOf
  split
  · rfl
  · split <;> rfl

/-- The records of some rows, in the order they were written. -/
def Written (U : Unicode) (destination : Str) (list : Str → Option (List ProtonNode)) (runId : ℕ)
    (w : World) (rows : List DeltaDeleted) (v : World) : Prop :=
  v.deletions = (rows.map (deletionOf U destination list runId)).foldl (Table.upsert Table.replace)
    w.deletions

/-- One more record. -/
theorem Written.snoc {d : Deletion} (h : Written U destination list runId w rows v)
    (hd : d = deletionOf U destination list runId r)
    (hu : u.deletions = v.deletions.upsert Table.replace d) :
    Written U destination list runId w (rows ++ [r]) u := by
  unfold Written at h ⊢
  rw [hu, h, hd, List.map_append, List.foldl_append]
  rfl

/-- The table has the record of each row, where the rows have different paths. -/
theorem Written.find? (h : Written U destination list runId w rows v)
    (hnd : (rows.map DeltaDeleted.pathLower).Nodup) (hr : r ∈ rows) :
    v.deletions.find? (runId, r.pathLower) = some (deletionOf U destination list runId r) := by
  have hkeys : ((rows.map (deletionOf U destination list runId)).map Deletion.key).Nodup := by
    have hmap : (rows.map (deletionOf U destination list runId)).map Deletion.key =
        (rows.map DeltaDeleted.pathLower).map fun p => (runId, p) := by
      rw [List.map_map, List.map_map]
      exact List.map_congr_left fun r _ => key_deletionOf
    rw [hmap]
    exact hnd.map fun a b hab => (Prod.mk.inj hab).2
  have hfind := Table.find?_foldl_upsert (m := Table.replace) (t := w.deletions) hkeys
    (List.mem_map_of_mem hr)
  rw [key_deletionOf] at hfind
  unfold Written at h
  rw [h, hfind]
  cases w.deletions.find? (runId, r.pathLower) <;> rfl

/-- How many rows end with a status. -/
def recordedAs (U : Unicode) (destination : Str) (list : Str → Option (List ProtonNode))
    (rows : List DeltaDeleted) (s : DeletionStatus) : ℕ :=
  rows.countP fun r => decide ((deletionOf U destination list 0 r).status = s)

/-- **The books after some rows**: their records, their counts and their trash calls; the
mirror is as it was. -/
structure Books (U : Unicode) (destination : Str) (env : TrashEnv) (runId : ℕ) (w : World)
    (rows : List DeltaDeleted) (counts : TrashCounts) (v : World) : Prop where
  mirror : v.mirror = w.mirror
  written : ∃ order : List DeltaDeleted, order.Perm rows ∧ Written U destination env.list runId w order v
  trashed : counts.trashed = recordedAs U destination env.list rows .trashed
  notFound : counts.notFound = recordedAs U destination env.list rows .notFound
  listingFailed : counts.listingFailed = recordedAs U destination env.list rows .listingFailed
  calls : ∃ calls, v.trashCalls = w.trashCalls ++ calls ∧
    calls.flatten = rows.filterMap (targetOf U destination env.list)
  answered : ∀ r ∈ rows, targetOf U destination env.list r ≠ none →
    env.trash (parentCliPath destination r.pathDisplay) = .ok ()

section Group

variable {env : TrashEnv} {counts : TrashCounts}

theorem deletionOf_failed (hlist : list (parentCliPath destination r.pathDisplay) = none) :
    deletionOf U destination list runId r =
      ⟨runId, r.pathLower, r.pathDisplay, none, .listingFailed⟩ := by
  unfold deletionOf
  rw [hlist]

theorem deletionOf_listed (hlist : list (parentCliPath destination r.pathDisplay) = some children) :
    deletionOf U destination list runId r = match chooseNode U children r with
      | none => ⟨runId, r.pathLower, r.pathDisplay, none, .notFound⟩
      | some node => ⟨runId, r.pathLower, r.pathDisplay, some node.uidText, .trashed⟩ := by
  unfold deletionOf
  rw [hlist]

/-- A row that was listed but has no node. -/
def isAbsent (U : Unicode) (children : List ProtonNode) (r : DeltaDeleted) : Bool :=
  (chooseNode U children r).isNone

/-- The rows of a folder done so far: the absent ones have their record, the others a target. -/
structure Collecting (U : Unicode) (destination : Str) (list : Str → Option (List ProtonNode))
    (runId : ℕ) (children : List ProtonNode) (parent : Str) (w : World) (order : List DeltaDeleted)
    (counts : TrashCounts) (calls : List (List TrashTarget)) (sub : List DeltaDeleted)
    (acc : TrashCounts × List TrashTarget) (v : World) : Prop where
  mirror : v.mirror = w.mirror
  calls : v.trashCalls = calls
  written : Written U destination list runId w (order ++ sub.filter (isAbsent U children)) v
  counts : acc.1 = { counts with notFound := counts.notFound + sub.countP (isAbsent U children) }
  targets : acc.2 = sub.filterMap (rowTarget U parent children)

/-- One row of a listed folder. -/
theorem collect_row {sub order : List DeltaDeleted} {calls : List (List TrashTarget)}
    {acc : TrashCounts × List TrashTarget}
    (hparent : parentCliPath destination r.pathDisplay = parent) (hlist : list parent = some children) :
    Triple (fun _ v => v.mirror = w.mirror)
      (Collecting U destination list runId children parent w order counts calls sub acc)
      (collectTarget U runId parent children acc r)
      (fun acc => Collecting U destination list runId children parent w order counts calls
        (sub ++ [r]) acc) (fun _ v => v.mirror = w.mirror) := by
  have hlist' : list (parentCliPath destination r.pathDisplay) = some children := by rw [hparent, hlist]
  unfold collectTarget
  cases hnode : chooseNode U children r with
  | none =>
    have habsent : isAbsent U children r = true := by rw [isAbsent, hnode]; rfl
    have hrow : rowTarget U parent children r = none := by rw [rowTarget, hnode]; rfl
    refine Triple.bind (M := fun _ v => Collecting U destination list runId children parent w order
      counts calls (sub ++ [r])
      ({ acc.1 with notFound := acc.1.notFound + 1 }, acc.2) v) (Triple.write fun v hv => ?_)
      fun _ => Triple.pure fun _ h => h
    refine ⟨hv.mirror, hv.mirror, hv.calls, ?_, ?_, ?_⟩
    · rw [List.filter_append, List.filter_singleton, habsent, ← List.append_assoc]
      refine hv.written.snoc ?_ rfl
      rw [deletionOf_listed hlist', hnode]
    · rw [hv.counts, List.countP_append, List.countP_singleton, habsent]
      rfl
    · rw [List.filterMap_append, List.filterMap_cons_none hrow, hv.targets, List.filterMap_nil,
        List.append_nil]
  | some node =>
    have habsent : isAbsent U children r = false := by rw [isAbsent, hnode]; rfl
    dsimp only
    cases huid : node.uid with
    | none => exact Triple.fail fun v hv => hv.mirror
    | some uid =>
      have hrow : rowTarget U parent children r =
          some (trashTarget children parent r (pyStr uid)) := by
        rw [rowTarget, hnode, Option.map_some, ProtonNode.uidText, huid]
        rfl
      refine Triple.pure fun v hv => ⟨hv.mirror, hv.calls, ?_, ?_, ?_⟩
      · rw [List.filter_append, List.filter_singleton, habsent]
        simpa using hv.written
      · rw [hv.counts, List.countP_append, List.countP_singleton, habsent]
        rfl
      · rw [List.filterMap_append, List.filterMap_cons_some hrow, hv.targets, List.filterMap_nil]

/-- The records of a loop, each the one the listings call for. -/
theorem recordAll_written {α : Type} {xs : List α} {row : α → DeltaDeleted} {status : DeletionStatus}
    {uid : α → Option Str} {calls : List (List TrashTarget)} {order : List DeltaDeleted}
    {E : Failure → World → Prop}
    (hxs : ∀ x ∈ xs, deletionOf U destination list runId (row x) =
      ⟨runId, (row x).pathLower, (row x).pathDisplay, uid x, status⟩) :
    Triple (fun _ v => v.mirror = w.mirror)
      (fun v => v.mirror = w.mirror ∧ v.trashCalls = calls ∧
        Written U destination list runId w order v)
      (xs.foldlM (fun _ x => record runId (row x) status (uid x)) ())
      (fun _ v => v.mirror = w.mirror ∧ v.trashCalls = calls ∧
        Written U destination list runId w (order ++ xs.map row) v) E := by
  refine (Triple.foldlM (fun sub _ v => v.mirror = w.mirror ∧ v.trashCalls = calls ∧
    Written U destination list runId w (order ++ sub.map row) v) xs ()
    fun before x after hsplit _ => ?_).consequence (fun v hv => ?_) (fun _ _ h => h)
      (fun _ _ h => h)
  · refine Triple.write fun v hv => ⟨hv.1, hv.1, hv.2.1, ?_⟩
    rw [List.map_append, List.map_singleton, ← List.append_assoc]
    exact hv.2.2.snoc (hxs x (by rw [hsplit]; simp)).symm rfl
  · rw [List.map_nil, List.append_nil]
    exact hv

/-- The targets of a folder are those of its rows that have a node. -/
theorem map_row_targets (sub : List DeltaDeleted) :
    (sub.filterMap (rowTarget U parent children)).map TrashTarget.row =
      sub.filter fun r => !isAbsent U children r := by
  induction sub with
  | nil => rfl
  | cons r sub ih =>
    cases hnode : chooseNode U children r with
    | none =>
      have hrow : rowTarget U parent children r = none := by rw [rowTarget, hnode]; rfl
      have habsent : isAbsent U children r = true := by rw [isAbsent, hnode]; rfl
      rw [List.filterMap_cons_none hrow, ih, List.filter_cons, habsent]
      rfl
    | some node =>
      have hrow : rowTarget U parent children r =
          some (trashTarget children parent r node.uidText) := by rw [rowTarget, hnode]; rfl
      have habsent : isAbsent U children r = false := by rw [isAbsent, hnode]; rfl
      rw [List.filterMap_cons_some hrow, List.map_cons, ih, List.filter_cons, habsent]
      rfl

/-- A target is recorded with the UID it names. -/
theorem deletionOf_target {t : TrashTarget} {sub : List DeltaDeleted}
    (hsub : ∀ r ∈ sub, list (parentCliPath destination r.pathDisplay) = some children)
    (ht : t ∈ sub.filterMap (rowTarget U parent children)) :
    deletionOf U destination list runId t.row =
      ⟨runId, t.row.pathLower, t.row.pathDisplay, some t.uid, .trashed⟩ := by
  obtain ⟨r, hr, htr⟩ := List.mem_filterMap.1 ht
  unfold rowTarget at htr
  obtain ⟨node, hnode, rfl⟩ := Option.map_eq_some_iff.1 htr
  change deletionOf U destination list runId r = _
  rw [deletionOf_listed (hsub r hr), hnode]
  rfl

/-- The statuses of the rows of a listed folder. -/
theorem recordedAs_listed (U : Unicode) (parent : Str) {sub : List DeltaDeleted}
    (hsub : ∀ r ∈ sub, list (parentCliPath destination r.pathDisplay) = some children) :
    recordedAs U destination list sub .trashed = (sub.filterMap (rowTarget U parent children)).length ∧
      recordedAs U destination list sub .notFound = sub.countP (isAbsent U children) ∧
      recordedAs U destination list sub .listingFailed = 0 := by
  refine ⟨?_, ?_, List.countP_eq_zero.2 fun r hr => ?_⟩
  · rw [← List.length_map TrashTarget.row, map_row_targets, ← List.countP_eq_length_filter]
    refine List.countP_congr fun r hr => ?_
    rw [deletionOf_listed (hsub r hr), isAbsent]
    cases chooseNode U children r <;> simp
  · refine List.countP_congr fun r hr => ?_
    rw [deletionOf_listed (hsub r hr), isAbsent]
    cases chooseNode U children r <;> simp
  · rw [deletionOf_listed (hsub r hr)]
    cases chooseNode U children r <;> simp

theorem recordedAs_append (s : DeletionStatus) : recordedAs U destination list (done ++ group) s =
    recordedAs U destination list done s + recordedAs U destination list group s :=
  List.countP_append

/-- The books of some rows more. -/
theorem Books.append {order : List DeltaDeleted} {more : TrashCounts} {new : List (List TrashTarget)}
    (h : Books U destination env runId w done counts u) (hmirror : v.mirror = w.mirror)
    (hperm : order.Perm (done ++ group)) (hwritten : Written U destination env.list runId w order v)
    (htrashed : more.trashed = counts.trashed + recordedAs U destination env.list group .trashed)
    (habsent : more.notFound = counts.notFound + recordedAs U destination env.list group .notFound)
    (hfailed : more.listingFailed =
      counts.listingFailed + recordedAs U destination env.list group .listingFailed)
    (hcalls : v.trashCalls = u.trashCalls ++ new)
    (hnew : new.flatten = group.filterMap (targetOf U destination env.list))
    (hans : ∀ r ∈ group, targetOf U destination env.list r ≠ none →
      env.trash (parentCliPath destination r.pathDisplay) = .ok ()) :
    Books U destination env runId w (done ++ group) more v := by
  obtain ⟨calls, hbefore, hflat⟩ := h.calls
  refine ⟨hmirror, ⟨order, hperm, hwritten⟩, ?_, ?_, ?_, ⟨calls ++ new, ?_, ?_⟩, ?_⟩
  · rw [recordedAs_append, htrashed, h.trashed]
  · rw [recordedAs_append, habsent, h.notFound]
  · rw [recordedAs_append, hfailed, h.listingFailed]
  · rw [hcalls, hbefore, List.append_assoc]
  · rw [List.flatten_append, List.filterMap_append, hflat, hnew]
  · intro r hr
    rcases List.mem_append.1 hr with hr | hr
    · exact h.answered r hr
    · exact hans r hr

/-- The statuses of the rows of a folder that was not listed. -/
theorem recordedAs_failed
    (hsub : ∀ r ∈ group, list (parentCliPath destination r.pathDisplay) = none)
    (s : DeletionStatus) :
    recordedAs U destination list group s = if s = .listingFailed then group.length else 0 := by
  split
  · rename_i hs
    refine List.countP_eq_length.2 fun r hr => ?_
    rw [deletionOf_failed (hsub r hr), hs]
    rfl
  · rename_i hs
    refine List.countP_eq_zero.2 fun r hr => ?_
    rw [deletionOf_failed (hsub r hr)]
    simpa using Ne.symm hs

/-- A folder that could not be listed. -/
theorem trashGroup_unlisted
    (hparent : ∀ r ∈ group, parentCliPath destination r.pathDisplay = parent)
    (hlist : env.list parent = none) :
    Triple (fun _ v => v.mirror = w.mirror) (Books U destination env runId w done counts)
      (trashGroup U runId env counts (parent, group))
      (fun counts => Books U destination env runId w (done ++ group) counts)
      (fun _ v => v.mirror = w.mirror) := by
  unfold trashGroup
  refine Triple.pre fun u hbooks => ?_
  obtain ⟨order, hperm, hwritten⟩ := hbooks.written
  have hfailed : ∀ r ∈ group, env.list (parentCliPath destination r.pathDisplay) = none := by
    intro r hr
    rw [hparent r hr, hlist]
  have hnone : ∀ r ∈ group, targetOf U destination env.list r = none := by
    intro r hr
    rw [targetOf, hfailed r hr]
    rfl
  dsimp only
  rw [hlist]
  refine Triple.bind (M := fun _ v => v.mirror = w.mirror ∧ v.trashCalls = u.trashCalls ∧
    Written U destination env.list runId w (order ++ group.map fun r => r) v)
    ((recordAll_written fun r hr => deletionOf_failed (hfailed r hr)).consequence ?_
      (fun _ _ h => h) (fun _ _ h => h)) fun _ => Triple.pure ?_
  · rintro v rfl
    exact ⟨hbooks.mirror, rfl, hwritten⟩
  · rintro v ⟨hmirror, hcalls, hv⟩
    rw [List.map_id'] at hv
    -- one record a row, and no call
    have hnew : v.trashCalls = u.trashCalls ++ [] := by rw [hcalls, List.append_nil]
    refine hbooks.append hmirror (hperm.append_right _) hv ?_ ?_ ?_ hnew ?_ ?_
    · rw [recordedAs_failed hfailed]
      rfl
    · rw [recordedAs_failed hfailed]
      rfl
    · rw [recordedAs_failed hfailed, if_pos rfl]
    · rw [List.filterMap_eq_nil_iff.2 hnone]
      rfl
    · intro r hr htarget
      exact absurd (hnone r hr) htarget

/-- The rows of a listed folder before the call. -/
theorem collect_loop (order : List DeltaDeleted) (calls : List (List TrashTarget))
    (hparent : ∀ r ∈ group, parentCliPath destination r.pathDisplay = parent)
    (hlist : list parent = some children) :
    Triple (fun _ v => v.mirror = w.mirror)
      (fun v => v.mirror = w.mirror ∧ v.trashCalls = calls ∧
        Written U destination list runId w order v)
      (group.foldlM (collectTarget U runId parent children) (counts, []))
      (fun acc => Collecting U destination list runId children parent w order counts calls group acc)
      (fun _ v => v.mirror = w.mirror) := by
  refine (Triple.foldlM (fun sub acc => Collecting U destination list runId children parent w
    order counts calls sub acc) group (counts, []) fun before r after hsplit acc => ?_).consequence
      ?_ (fun _ _ h => h) (fun _ _ h => h)
  · exact collect_row (hparent r (by rw [hsplit]; simp)) hlist
  · rintro v ⟨hmirror, hcalls, hv⟩
    exact ⟨hmirror, hcalls, by simpa using hv, by simp, rfl⟩

/-- What the trash call of a folder and its records leave. -/
theorem trashTargets_written {targets : List TrashTarget} {answer : Except Failure Unit}
    (order : List DeltaDeleted) (calls : List (List TrashTarget))
    (htargets : ∀ t ∈ targets, deletionOf U destination list runId t.row =
      ⟨runId, t.row.pathLower, t.row.pathDisplay, some t.uid, .trashed⟩) :
    Triple (fun _ v => v.mirror = w.mirror)
      (fun v => v.mirror = w.mirror ∧ v.trashCalls = calls ∧
        Written U destination list runId w order v)
      (trashTargets runId answer targets counts)
      (fun c v => v.mirror = w.mirror ∧ (targets ≠ [] → answer = .ok ()) ∧
        v.trashCalls = calls ++ (if targets = [] then [] else [targets]) ∧
        Written U destination list runId w (order ++ targets.map TrashTarget.row) v ∧
        c = { counts with trashed := counts.trashed + targets.length })
      (fun _ v => v.mirror = w.mirror) := by
  unfold trashTargets
  by_cases hnil : targets = []
  · rw [if_pos hnil]
    refine Triple.pure fun v hv => ⟨hv.1, fun h => absurd hnil h, ?_, ?_, ?_⟩
    · rw [if_pos hnil, List.append_nil, hv.2.1]
    · rw [hnil, List.map_nil, List.append_nil]
      exact hv.2.2
    · rw [hnil]
      rfl
  · rw [if_neg hnil]
    refine Triple.bind (M := fun _ v => v.mirror = w.mirror ∧ v.trashCalls = calls ++ [targets] ∧
      Written U destination list runId w order v) (Triple.write fun v hv => ?_) fun _ => ?_
    · exact ⟨hv.1, hv.1, congrArg (· ++ [targets]) hv.2.1, hv.2.2⟩
    cases answer with
    | error e => exact Triple.fail fun v hv => hv.1
    | ok _ =>
      refine Triple.bind (recordAll_written htargets) fun _ => Triple.pure ?_
      rintro v ⟨hmirror, hcalls, hv⟩
      exact ⟨hmirror, fun _ => rfl, by rw [hcalls, if_neg hnil], hv, rfl⟩

/-- A folder that was listed. -/
theorem trashGroup_listed
    (hparent : ∀ r ∈ group, parentCliPath destination r.pathDisplay = parent)
    (hlist : env.list parent = some children) :
    Triple (fun _ v => v.mirror = w.mirror) (Books U destination env runId w done counts)
      (trashGroup U runId env counts (parent, group))
      (fun counts => Books U destination env runId w (done ++ group) counts)
      (fun _ v => v.mirror = w.mirror) := by
  unfold trashGroup
  refine Triple.pre fun u hbooks => ?_
  obtain ⟨order, hperm, hwritten⟩ := hbooks.written
  have hlisted : ∀ r ∈ group, env.list (parentCliPath destination r.pathDisplay) = some children := by
    intro r hr
    rw [hparent r hr, hlist]
  have htarget : ∀ r ∈ group, targetOf U destination env.list r = rowTarget U parent children r := by
    intro r hr
    rw [targetOf, hlisted r hr, hparent r hr]
    rfl
  obtain ⟨htrashed, habsent, hfailed⟩ := recordedAs_listed U parent hlisted
  dsimp only
  rw [hlist]
  refine Triple.bind ((collect_loop order u.trashCalls hparent hlist).consequence ?_
    (fun _ _ h => h) (fun _ _ h => h)) fun acc => Triple.pre fun v hcol => ?_
  · rintro v rfl
    exact ⟨hbooks.mirror, rfl, hwritten⟩
  rw [hcol.targets, hcol.counts]
  set targets := group.filterMap (rowTarget U parent children) with htargets
  have hrows : (order ++ group.filter (isAbsent U children) ++ targets.map TrashTarget.row).Perm
      (done ++ group) := by
    rw [List.append_assoc, htargets, map_row_targets]
    exact hperm.append (List.filter_append_perm _ _)
  -- what the call and its records leave
  refine Triple.bind ((trashTargets_written (order ++ group.filter (isAbsent U children)) u.trashCalls
    fun t ht => deletionOf_target hlisted ht).consequence ?_ (fun _ _ h => h) (fun _ _ h => h))
      fun c => Triple.pure ?_
  · rintro v rfl
    exact ⟨hcol.mirror, hcol.calls, hcol.written⟩
  · rintro v ⟨hmirror, hans, hcalls, hv, rfl⟩
    refine hbooks.append hmirror hrows hv ?_ ?_ ?_ hcalls ?_ fun r hr hsome => ?_
    · rw [htrashed]
    · rw [habsent]
    · rw [hfailed]
      rfl
    · rw [List.filterMap_congr htarget, ← htargets]
      split
      · rename_i hnil
        rw [hnil]
        rfl
      · simp
    · -- a row with a target was in the call
      rw [hparent r hr]
      refine hans fun hnil => hsome ?_
      rw [htarget r hr]
      exact List.filterMap_eq_nil_iff.1 hnil r hr

/-- **One folder of the phase.** -/
theorem trashGroup_books (hparent : ∀ r ∈ group, parentCliPath destination r.pathDisplay = parent) :
    Triple (fun _ v => v.mirror = w.mirror) (Books U destination env runId w done counts)
      (trashGroup U runId env counts (parent, group))
      (fun counts => Books U destination env runId w (done ++ group) counts)
      (fun _ v => v.mirror = w.mirror) := by
  cases hlist : env.list parent with
  | none => exact trashGroup_unlisted hparent hlist
  | some children => exact trashGroup_listed hparent hlist

end Group

section Phase

variable {env : TrashEnv}

/-- **A target names the file of its row**: a file child of the row's own parent folder with
the row's basename, the one with the recorded UID where there is one. Its path is the
child's name where no other child has it, and the child's UID otherwise. -/
structure NamesFile (U : Unicode) (destination : Str) (list : Str → Option (List ProtonNode))
    (t : TrashTarget) : Prop where
  parent : t.parent = parentCliPath destination t.row.pathDisplay
  name : t.name = baseName t.row.pathDisplay
  child : ∃ children node, list t.parent = some children ∧ node ∈ fileCandidates U children t.row ∧
    node.uidText = t.uid ∧
    ((∃ n ∈ fileCandidates U children t.row, some n.uidText = t.row.protonUid) →
      some t.uid = t.row.protonUid) ∧
    (childrenNamed children t.name = [node] ∧ t.cliPath = childCliPath t.parent t.name t.uid false ∨
      t.cliPath = childCliPath t.parent t.name t.uid true)

/-- The node of a row is a file of its name, with the recorded UID where there is one. -/
theorem chooseNode_spec {node : ProtonNode} (h : chooseNode U children r = some node) :
    node ∈ fileCandidates U children r ∧
      ((∃ n ∈ fileCandidates U children r, some n.uidText = r.protonUid) →
        some node.uidText = r.protonUid) := by
  unfold chooseNode at h
  rcases Option.or_eq_some_iff.1 h with h | ⟨hnone, h⟩
  · have hp := List.find?_some h
    exact ⟨List.mem_of_find?_eq_some h, fun _ => of_decide_eq_true hp⟩
  · refine ⟨List.mem_of_mem_head? h, ?_⟩
    rintro ⟨n, hn, huid⟩
    exact absurd (decide_eq_true huid) (List.find?_eq_none.1 hnone n hn)

theorem namesFile_targetOf {t : TrashTarget} (h : targetOf U destination list r = some t) :
    t.row = r ∧ NamesFile U destination list t := by
  obtain ⟨children, hlist, hrow⟩ := Option.bind_eq_some_iff.1 h
  obtain ⟨node, hnode, rfl⟩ := Option.map_eq_some_iff.1 hrow
  obtain ⟨hmem, huid⟩ := chooseNode_spec hnode
  refine ⟨rfl, rfl, rfl, children, node, hlist, hmem, rfl, huid, ?_⟩
  have hnamed : node ∈ childrenNamed children (baseName r.pathDisplay) := (List.mem_filter.1 hmem).1
  change _ ∧ childCliPath _ _ _ (decide (_ > 1)) = _ ∨ childCliPath _ _ _ (decide (_ > 1)) = _
  by_cases hdup : (childrenNamed children (baseName r.pathDisplay)).length > 1
  · right
    rw [decide_eq_true hdup]
    rfl
  · left
    rw [decide_eq_false hdup]
    refine ⟨?_, rfl⟩
    obtain ⟨n, hn⟩ := List.length_eq_one_iff.1
      (le_antisymm (not_lt.1 hdup) (List.length_pos_of_mem hnamed))
    change childrenNamed children (baseName r.pathDisplay) = _
    rw [hn] at hnamed ⊢
    rw [List.mem_singleton.1 hnamed]

/-- The run recorded the path as gone. -/
def GoneOnRecord (runId : ℕ) (v : World) (p : Str) : Prop :=
  ∃ d ∈ v.deletions, d.key = (runId, p) ∧ (d.status = .trashed ∨ d.status = .notFound)

/-- **What a trash phase that returns has on its books.** -/
structure TrashBooks (U : Unicode) (destination : Str) (list : Str → Option (List ProtonNode))
    (runId : ℕ) (Δ : Delta) (counts : TrashCounts) (w v : World) : Prop where
  one : ∀ r ∈ Δ.deleted, ∃! d, d ∈ v.deletions ∧ d.key = (runId, r.pathLower)
  total : counts.trashed + counts.notFound + counts.listingFailed = Δ.deleted.rows.length
  lost : Δ.deleted.rows ≠ [] →
    ∀ m, m ∈ v.mirror ↔ m ∈ w.mirror ∧ ¬ GoneOnRecord runId v m.pathLower
  idle : Δ.deleted.rows = [] → v = w
  calls : ∃ calls, v.trashCalls = w.trashCalls ++ calls ∧
    (∀ call ∈ calls, ∀ t ∈ call, t.row ∈ Δ.deleted ∧ NamesFile U destination list t) ∧
    ∀ d ∈ v.deletions, ∀ r ∈ Δ.deleted, d.key = (runId, r.pathLower) →
      (d.status = .trashed ↔ ∃ call ∈ calls, ∃ t ∈ call, t.row = r ∧ d.protonUid = some t.uid)

/-- Every row ends with one of the three statuses. -/
theorem recordedAs_total (U : Unicode) (destination : Str) (list : Str → Option (List ProtonNode))
    (rows : List DeltaDeleted) : recordedAs U destination list rows .trashed +
      recordedAs U destination list rows .notFound +
      recordedAs U destination list rows .listingFailed = rows.length := by
  induction rows with
  | nil => rfl
  | cons r rows ih =>
    unfold recordedAs at ih ⊢
    rw [List.countP_cons, List.countP_cons, List.countP_cons, List.length_cons]
    cases (deletionOf U destination list 0 r).status <;> simp <;> omega

/-- A row is recorded as trashed with the UID of its target. -/
theorem deletionOf_trashed : (deletionOf U destination list runId r).status = .trashed ↔
    ∃ t, targetOf U destination list r = some t ∧
      (deletionOf U destination list runId r).protonUid = some t.uid := by
  unfold targetOf
  cases hlist : list (parentCliPath destination r.pathDisplay) with
  | none =>
    rw [deletionOf_failed hlist]
    simp
  | some children =>
    rw [deletionOf_listed hlist, Option.bind_some, rowTarget]
    cases chooseNode U children r with
    | none => simp
    | some node =>
      refine ⟨fun _ => ⟨_, rfl, rfl⟩, fun _ => rfl⟩

/-- What the `DELETE` leaves. -/
theorem mem_dropTrashed {m : MirrorObject} :
    m ∈ (dropTrashed runId v).mirror ↔ m ∈ v.mirror ∧ ¬ GoneOnRecord runId v m.pathLower := by
  unfold dropTrashed GoneOnRecord
  rw [Table.mem_filter, Bool.not_eq_true', List.any_eq_false]
  refine and_congr_right fun _ => ?_
  simp only [decide_eq_true_eq, Table.mem_def, Deletion.key, Prod.mk.injEq]
  constructor
  · rintro h ⟨d, hd, ⟨hr, hp⟩, hs⟩
    exact h d hd ⟨hr, hp, hs⟩
  · rintro h d hd ⟨hr, hp, hs⟩
    exact h ⟨d, hd, ⟨hr, hp⟩, hs⟩

/-- The books over all rows, once the mirror lost those recorded as gone. -/
theorem TrashBooks.of_books {counts : TrashCounts}
    (h : Books U destination env runId w rows counts u) (hperm : rows.Perm Δ.deleted.rows)
    (hne : Δ.deleted.rows ≠ []) :
    TrashBooks U destination env.list runId Δ counts w (dropTrashed runId u) := by
  obtain ⟨order, horder, hwritten⟩ := h.written
  obtain ⟨calls, hcalls, hflat⟩ := h.calls
  have hnd : (order.map DeltaDeleted.pathLower).Nodup :=
    ((horder.trans hperm).map DeltaDeleted.pathLower).nodup_iff.2 Δ.deleted.nodup
  have hfind : ∀ r ∈ Δ.deleted, u.deletions.find? (runId, r.pathLower) =
      some (deletionOf U destination env.list runId r) := fun r hr =>
    hwritten.find? hnd ((horder.trans hperm).mem_iff.2 hr)
  -- the records of the run are those the listings call for
  have hmem : ∀ d ∈ u.deletions, ∀ r ∈ Δ.deleted, d.key = (runId, r.pathLower) →
      d = deletionOf U destination env.list runId r := by
    intro d hd r hr hk
    have hd' := Table.mem_iff_find?.1 hd
    rw [hk, hfind r hr] at hd'
    exact (Option.some.inj hd').symm
  -- and the targets are those of the rows
  have htarget : ∀ call ∈ calls, ∀ t ∈ call, ∃ r ∈ Δ.deleted,
      targetOf U destination env.list r = some t := by
    intro call hcall t ht
    have htf : t ∈ calls.flatten := List.mem_flatten.2 ⟨call, hcall, ht⟩
    rw [hflat] at htf
    obtain ⟨r, hr, hrt⟩ := List.mem_filterMap.1 htf
    exact ⟨r, hperm.mem_iff.1 hr, hrt⟩
  refine ⟨fun r hr => ⟨_, ⟨?_, key_deletionOf⟩, fun d hd => hmem d hd.1 r hr hd.2⟩, ?_,
    fun _ m => ?_, fun hnil => absurd hnil hne, calls, hcalls, fun call hcall t ht => ?_,
    fun d hd r hr hk => ?_⟩
  · exact Table.mem_iff_find?.2 (by rw [key_deletionOf]; exact hfind r hr)
  · rw [h.trashed, h.notFound, h.listingFailed, recordedAs_total, hperm.length_eq]
  · rw [mem_dropTrashed, h.mirror]
    rfl
  · obtain ⟨r, hr, hrt⟩ := htarget call hcall t ht
    obtain ⟨hrow, hnames⟩ := namesFile_targetOf hrt
    exact ⟨hrow ▸ hr, hnames⟩
  · rw [hmem d hd r hr hk, deletionOf_trashed]
    constructor
    · rintro ⟨t, ht, huid⟩
      have htf : t ∈ calls.flatten := by
        rw [hflat]
        exact List.mem_filterMap.2 ⟨r, hperm.mem_iff.2 hr, ht⟩
      obtain ⟨call, hcall, htc⟩ := List.mem_flatten.1 htf
      exact ⟨call, hcall, t, htc, (namesFile_targetOf ht).1, huid⟩
    · rintro ⟨call, hcall, t, ht, hrow, huid⟩
      obtain ⟨r', hr', hrt⟩ := htarget call hcall t ht
      obtain rfl : r' = r := (namesFile_targetOf hrt).1.symm.trans hrow
      exact ⟨t, hrt, huid⟩

/-- Every trash call the rows need is answered. -/
def CallsAnswered (U : Unicode) (destination : Str) (Δ : Delta) (env : TrashEnv) : Prop :=
  ∀ r ∈ Δ.deleted, targetOf U destination env.list r ≠ none →
    env.trash (parentCliPath destination r.pathDisplay) = .ok ()

/-- **The trash phase past its gate.** -/
theorem trashRun_books (U : Unicode) (destination : Str) (runId : ℕ) (Δ : Delta) (env : TrashEnv)
    (hgate : batchesRemain w = false) :
    Triple (fun _ v => v.mirror = w.mirror ∨ CallsAnswered U destination Δ env) (fun v => v = w)
      (trashRun U destination true runId Δ env)
      (fun out v => CallsAnswered U destination Δ env ∧ ∃ counts,
        out = .ran Δ.deleted.rows.length counts ∧
          TrashBooks U destination env.list runId Δ counts w v) (fun _ _ => True) := by
  unfold trashRun
  refine Triple.get_bind fun s hs => ?_
  rw [hs]
  dsimp only
  set rows := Δ.deleted.rows.insertionSort fun a b => a.pathLower ≤ b.pathLower
  have hperm : rows.Perm Δ.deleted.rows := List.perm_insertionSort _ _
  rw [if_neg (by decide), if_neg (by rw [hgate]; decide)]
  split
  · rename_i hnil
    have hempty : Δ.deleted.rows = [] := by
      rw [hnil] at hperm
      exact hperm.nil_eq.symm
    have hno : ∀ r, ¬ r ∈ Δ.deleted := fun r hr => by
      rw [Table.mem_def, hempty] at hr
      exact absurd hr List.not_mem_nil
    refine Triple.pure ?_
    rintro v rfl
    refine ⟨fun r hr => absurd hr (hno r), ⟨0, 0, 0, 0⟩, by rw [hempty]; rfl,
      fun r hr => absurd hr (hno r), by rw [hempty]; rfl, fun h => absurd hempty h, fun _ => rfl,
      [], (List.append_nil _).symm, fun call hcall => absurd hcall List.not_mem_nil,
      fun d _ r hr => absurd hr (hno r)⟩
  rename_i hne
  have hne' : Δ.deleted.rows ≠ [] := fun h => hne (by
    rw [h] at hperm
    exact hperm.eq_nil)
  cases hroot : env.root with
  | error e => exact Triple.fail fun _ _ => trivial
  | ok _ =>
    -- the loop over the folders leaves the mirror alone
    have hloop := trashGroups_triple (E := fun _ v => v.mirror = w.mirror) rows
      (Books U destination env runId w) fun done group counts hgroup =>
        trashGroup_books fun r hr => (mem_byParent group hgroup r hr).2
    refine Triple.bind ((hloop.mono fun _ _ h => Or.inl h).consequence ?_ (fun _ _ h => h)
      (fun _ _ _ => trivial)) fun counts => ?_
    · intro v hv
      subst hv
      exact ⟨rfl, ⟨[], List.Perm.refl _, rfl⟩, rfl, rfl, rfl, ⟨[], (List.append_nil _).symm, rfl⟩,
        fun r hr => absurd hr List.not_mem_nil⟩
    refine Triple.pre fun u hu => ?_
    have hall : ((byParent destination rows).flatMap Prod.snd).Perm Δ.deleted.rows :=
      (perm_byParent destination rows).trans hperm
    have hanswered : CallsAnswered U destination Δ env := fun r hr =>
      hu.answered r (hall.mem_iff.2 hr)
    refine Triple.bind (M := fun _ v => v = dropTrashed runId u) (Triple.write ?_) fun _ => ?_
    · rintro v rfl
      exact ⟨Or.inr hanswered, rfl⟩
    · cases env.push with
      | error e => exact Triple.fail fun _ _ => trivial
      | ok _ =>
        refine Triple.pure ?_
        rintro v rfl
        rw [← hperm.length_eq]
        exact ⟨hanswered, counts, rfl, TrashBooks.of_books hu hall hne'⟩

/-- **The trash phase accounts for every deletion.** Past its gate, a phase that returns has
its books right; where a trash call it needs raises, the phase raises, and no commit of it
changes the mirror. -/
theorem trash_accounts (U : Unicode) (destination : Str) (runId : ℕ) (Δ : Delta) (env : TrashEnv)
    (w : World) (hgate : batchesRemain w = false) :
    (∀ out, (trashRun U destination true runId Δ env).result w = .ok out →
      ∃ counts, out = .ran Δ.deleted.rows.length counts ∧
        TrashBooks U destination env.list runId Δ counts w
          ((trashRun U destination true runId Δ env).final w)) ∧
    (¬ CallsAnswered U destination Δ env →
      (∀ out, (trashRun U destination true runId Δ env).result w ≠ .ok out) ∧
        ∀ v ∈ (trashRun U destination true runId Δ env w).states, v.mirror = w.mirror) := by
  have hbooks := trashRun_books U destination runId Δ env hgate
  obtain ⟨-, hok, -⟩ := hbooks w rfl
  refine ⟨fun out hout => (hok out hout).2, fun hraise => ⟨fun out hout => hraise (hok out hout).1,
    fun v hv => ?_⟩⟩
  exact (hbooks.states rfl v hv).resolve_right hraise

/-- Two mirrored files left Dropbox, one of them from a folder Proton does not list. -/
def goneDelta : Delta where
  changed := Table.empty
  deleted := ⟨[⟨2, "/a".toList, "/a".toList, none⟩, ⟨2, "/x/b".toList, "/x/b".toList, none⟩],
    by decide⟩
  listedFiles := 0
  mirroredFiles := 2

/-- Both are mirrored. -/
def goneWorld : World :=
  { landedWorld with mirror := mergeConfirmed Table.empty [plainRow "/a", plainRow "/x/b"] }

/-- What Proton answers; the trash call may be refused. -/
def goneEnv (answer : Except Failure Unit) : TrashEnv :=
  ⟨.ok (), oneFolder "a", fun _ => answer, .ok ()⟩

/-- One file is trashed and leaves the mirror, the other stays for the next run; where the
trash call is refused, both stay. -/
theorem trash_accounts_left :
    TrashBooks Unicode.latin "/D".toList (oneFolder "a") 2 goneDelta ⟨1, 0, 1, 1⟩ goneWorld
        ((trashRun Unicode.latin "/D".toList true 2 goneDelta (goneEnv (.ok ()))).final goneWorld) ∧
      ∀ v ∈ (trashRun Unicode.latin "/D".toList true 2 goneDelta
        (goneEnv (.error .provider)) goneWorld).states, v.mirror = goneWorld.mirror := by
  constructor
  · obtain ⟨counts, hout, hbooks⟩ := (trash_accounts Unicode.latin "/D".toList 2 goneDelta
      (goneEnv (.ok ())) goneWorld rfl).1 (.ran 2 ⟨1, 0, 1, 1⟩) (by rfl)
    obtain ⟨-, rfl⟩ := TrashOutputs.ran.inj hout
    exact hbooks
  · refine ((trash_accounts Unicode.latin "/D".toList 2 goneDelta (goneEnv (.error .provider))
      goneWorld rfl).2 fun hall => ?_).2
    have hans := hall ⟨2, "/a".toList, "/a".toList, none⟩ List.mem_cons_self (by decide)
    cases hans

end Phase

end DropboxMirror
