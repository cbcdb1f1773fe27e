import DropboxMirror.Model.Statefile
import DropboxMirror.Proof.Accounted

/-!
# What a mirror records of the confirmations

The mirror reflects some confirmations (`Reflects`) where it has, for every path, the
size and the hash of the latest of them, and nothing else. The steps of a batch leave
the other batches and the mirror alone until the merge (`Calm`), and the merge records
the batch's confirmed items.

* `confirmed_commit`: what a commit adds to the confirmations.
* `mergeBatch_triple`: the merge.
* `planRun_ready`: the batches a plan leaves have items that wait.
-/

namespace DropboxMirror

open Text Crash

variable {D : Digests} {b : ℕ} {v v' w : World} {cs ds : List BatchItem} {p : Str}

/-- The size and the hash the mirror has for a path. -/
def recorded (M : Mirror) (p : Str) : Option (ℕ × Str) :=
  (M.find? p).map fun m => (m.size, m.contentHash)

/-- The size and the hash of the latest confirmation of a path. -/
def latest (cs : List BatchItem) (p : Str) : Option (ℕ × Str) :=
  (cs.reverse.find? fun i => decide (i.pathLower = p)).map fun i => (i.size, i.contentHash)

/-- **The mirror records the latest confirmation of each path**, and no other path. -/
def Reflects (M : Mirror) (cs : List BatchItem) : Prop := ∀ p, recorded M p = latest cs p

theorem latest_append (cs ds : List BatchItem) (p : Str) :
    latest (cs ++ ds) p = (latest ds p).or (latest cs p) := by
  rw [latest, latest, latest, List.reverse_append, List.find?_append, Option.map_or]

theorem latest_of_mem {i : BatchItem} (hi : i ∈ cs)
    (hone : ∀ j ∈ cs, j.pathLower = i.pathLower → j = i) :
    latest cs i.pathLower = some (i.size, i.contentHash) := by
  rw [latest]
  cases hf : cs.reverse.find? fun j => decide (j.pathLower = i.pathLower) with
  | none => exact absurd (decide_eq_true rfl) (List.find?_eq_none.1 hf i (List.mem_reverse.2 hi))
  | some j =>
    have hp := List.find?_some hf
    rw [hone j (List.mem_reverse.1 (List.mem_of_find?_eq_some hf)) (of_decide_eq_true hp)]
    rfl

theorem latest_of_not_mem (h : ∀ i ∈ cs, i.pathLower ≠ p) : latest cs p = none := by
  rw [latest, Option.map_eq_none_iff, List.find?_eq_none]
  intro i hi hp
  exact h i (List.mem_reverse.1 hi) (of_decide_eq_true hp)

theorem reflects_empty : Reflects Table.empty [] := fun _ => rfl

section Log

/-- The item an entry of the log confirms. -/
def Event.item? : Event → Option BatchItem
  | .confirmed i => some i
  | _ => none

/-- The batch under way after an entry. -/
def Event.advance (s : Option ℕ) : Event → Option ℕ
  | .began b => some b
  | .ended _ => none
  | _ => s

/-- The confirmations of a run, in order. -/
def confirmations (log : List Event) : List BatchItem := log.filterMap Event.item?

/-- The batch under way when a run stopped. -/
def underWay (log : List Event) : Option ℕ := log.foldl Event.advance none

/-- The confirmations of a run without those of the batch under way when it stopped. -/
def settled (log : List Event) : List BatchItem :=
  (confirmations log).filter fun i => decide (some i.batchId ≠ underWay log)

theorem confirmations_append (log log' : List Event) :
    confirmations (log ++ log') = confirmations log ++ confirmations log' := List.filterMap_append

/-- An entry that confirms nothing. -/
theorem confirmations_concat {e : Event} (he : e.item? = none) (log : List Event) :
    confirmations (log ++ [e]) = confirmations log := by
  rw [confirmations_append, confirmations, confirmations, List.filterMap_cons_none he,
    List.filterMap_nil, List.append_nil]

theorem underWay_concat (log : List Event) (e : Event) :
    underWay (log ++ [e]) = e.advance (underWay log) := by
  rw [underWay, List.foldl_append]
  rfl

theorem underWay_append_confirmed (log : List Event) (cs : List BatchItem) :
    underWay (log ++ cs.map .confirmed) = underWay log := by
  rw [underWay, List.foldl_append]
  change List.foldl _ (underWay log) _ = _
  induction cs with
  | nil => rfl
  | cons i cs ih => exact ih

theorem confirmations_confirmed (cs : List BatchItem) : confirmations (cs.map .confirmed) = cs := by
  induction cs with
  | nil => rfl
  | cons i cs ih => exact congrArg (i :: ·) ih

/-- The confirmations of the batch under way come last. -/
theorem settled_of_some {log : List Event} (h : underWay log = some b)
    (hlog : confirmations log = cs ++ ds) (hcs : ∀ i ∈ cs, i.batchId ≠ b)
    (hds : ∀ i ∈ ds, i.batchId = b) : settled log = cs := by
  rw [settled, h, hlog, List.filter_append, List.filter_eq_self.2, List.filter_eq_nil_iff.2,
    List.append_nil]
  · intro i hi
    simp [hds i hi]
  · intro i hi
    simpa using hcs i hi

end Log

section Calm

/-- **What the steps before the checkpoint of a batch leave alone**: the mirror, the other
batches, and what is confirmed. -/
structure Calm (b : ℕ) (v w : World) : Prop where
  mirror : w.mirror = v.mirror
  tables : TablesOk v → TablesOk w
  others : ∀ i, i.batchId ≠ b → (i ∈ w.items ↔ i ∈ v.items)
  confirmed : ∀ i ∈ v.items, i.status = .confirmed → i ∈ w.items

theorem Calm.refl : Calm b w w := ⟨rfl, id, fun _ _ => Iff.rfl, fun _ h _ => h⟩

theorem Calm.trans (h : Calm b v v') (h' : Calm b v' w) : Calm b v w where
  mirror := h'.mirror.trans h.mirror
  tables := h'.tables ∘ h.tables
  others i hi := (h'.others i hi).trans (h.others i hi)
  confirmed i hi hs := h'.confirmed i (h.confirmed i hi hs) hs

instance : Std.Refl (Calm b) := ⟨fun _ => Calm.refl⟩

instance : IsTrans World (Calm b) := ⟨fun _ _ _ => Calm.trans⟩

theorem Quiet.calm (h : Quiet D {b} v w) : Calm b v w where
  mirror := h.sameMirror
  tables := TablesOk.of_link h.toLink
  others i hib := by
    constructor
    · intro hi
      obtain ⟨i₀, hi₀, hii⟩ := Pointwise.exists_left h.items hi
      rcases hii with rfl | ⟨hb, hm⟩
      · exact hi₀
      · exact absurd (hm.batchId.trans hb) hib
    · intro hi
      obtain ⟨i', hi', hii⟩ := Pointwise.exists_right h.items hi
      rcases hii with rfl | ⟨hb, -⟩
      · exact hi'
      · exact absurd hb hib
  confirmed i hi hs := by
    obtain ⟨i', hi', hii⟩ := Pointwise.exists_right h.items hi
    rcases hii with rfl | ⟨-, hm⟩
    · exact hi'
    · -- the only move of a confirmed item is into `CHECKPOINTED`
      have hmove := hm.move
      rw [hs] at hmove
      have hs' : i'.status = .checkpointed := by
        cases hst : i'.status <;> rw [hst] at hmove <;> first | rfl | cases hmove
      have hkey : i'.key = i.key := by rw [BatchItem.key, BatchItem.key, hm.batchId, hm.pathLower]
      rw [Table.eq_of_key_eq (h.uncheckpointed i' hi' hs') hi hkey, hs] at hs'
      cases hs'

/-- Every state such steps reach is calm. -/
theorem Calm.of_reach (h : Relation.ReflTransGen (Quiet D {b}) v w) : Calm b v w :=
  Relation.reflTransGen_le_of_le (fun _ _ hstep => hstep.calm) v w h

theorem mem_newlyConfirmed {i : BatchItem} : i ∈ newlyConfirmed v w ↔ i ∈ w.items ∧
    i.status = .confirmed ∧ ∀ j ∈ v.items, j.key = i.key → j.status ≠ .confirmed := by
  rw [newlyConfirmed, List.mem_filter, Bool.and_eq_true, decide_eq_true_eq, Bool.not_eq_true',
    List.any_eq_false]
  simp only [decide_eq_true_eq, not_and, Table.mem_def, ne_eq]

/-- Where no item becomes confirmed, the log stays as it is. -/
theorem newlyConfirmed_eq_nil (h : ∀ i ∈ w.items, i.status = .confirmed → i ∈ v.items) :
    newlyConfirmed v w = [] := by
  rw [List.eq_nil_iff_forall_not_mem]
  intro i hi
  obtain ⟨hi, hs, hno⟩ := mem_newlyConfirmed.1 hi
  exact hno i (h i hi hs) rfl hs

/-- The confirmed items of a batch after a calm step: those before it, and the new ones. -/
theorem Calm.confirmed_iff (h : Calm b v w) (i : BatchItem) :
    (i ∈ w.items ∧ i.batchId = b ∧ i.status = .confirmed) ↔
      (i ∈ v.items ∧ i.batchId = b ∧ i.status = .confirmed) ∨ i ∈ newlyConfirmed v w := by
  constructor
  · rintro ⟨hi, hb, hs⟩
    by_cases hnew : ∀ j ∈ v.items, j.key = i.key → j.status ≠ .confirmed
    · exact Or.inr (mem_newlyConfirmed.2 ⟨hi, hs, hnew⟩)
    · push Not at hnew
      obtain ⟨j, hj, hk, hjs⟩ := hnew
      obtain rfl := Table.eq_of_key_eq (h.confirmed j hj hjs) hi hk
      exact Or.inl ⟨hj, hb, hs⟩
  · rintro (⟨hi, hb, hs⟩ | hi)
    · exact ⟨h.confirmed i hi hs, hb, hs⟩
    · obtain ⟨hi, hs, hno⟩ := mem_newlyConfirmed.1 hi
      refine ⟨hi, ?_, hs⟩
      by_contra hb
      exact hno i ((h.others i hb).1 hi) rfl hs

end Calm

section Merge

variable {runId : ℕ}

/-- **What the merge of a batch leaves**: its confirmed items are recorded over what was. -/
structure MergedFrom (b : ℕ) (w v : World) : Prop where
  tables : TablesOk w → TablesOk v
  recorded : ∀ cs, (∀ i, i ∈ cs ↔ i ∈ w.items ∧ i.batchId = b ∧ i.status = .confirmed) →
    ∀ p, recorded v.mirror p = (latest cs p).or (recorded w.mirror p)
  others : ∀ i, i.batchId ≠ b → (i ∈ v.items ↔ i ∈ w.items)
  confirmed : ∀ i ∈ v.items, i.status = .confirmed → i ∈ w.items

theorem mergedFrom_checkpointed {rows : List MirrorObject} {status : BatchStatus}
    (h : (w.itemsIn b .confirmed).mapM (mirrorRow runId) = .ok rows) :
    MergedFrom b w (w.checkpointed b rows status) := by
  have hitem : ∀ i, i ∈ (w.checkpointed b rows status).items ↔
      ∃ i₀ ∈ w.items, (if isConfirmed b i₀ then i₀.setStatus .checkpointed {} else i₀) = i :=
    fun i => mem_updateItems
  refine ⟨TablesOk.of_link (D := Digests.plain) (checkpointed_link h), fun cs hcs p => ?_,
    fun i hib => ?_, fun i hi hs => ?_⟩
  · by_cases hp : ∃ i ∈ cs, i.pathLower = p
    · -- the batch has one item of the path
      obtain ⟨i, hi, rfl⟩ := hp
      obtain ⟨hiw, hib, his⟩ := (hcs i).1 hi
      have hone : ∀ j ∈ cs, j.pathLower = i.pathLower → j = i := by
        intro j hj hpath
        obtain ⟨hjw, hjb, -⟩ := (hcs j).1 hj
        exact Table.eq_of_key_eq hjw hiw (by rw [BatchItem.key, BatchItem.key, hjb, hib, hpath])
      obtain ⟨m, hfind, hrow⟩ := find?_mergeConfirmed h (mem_itemsIn.2 ⟨hiw, hib, his⟩)
      rw [latest_of_mem hi hone, Option.some_or, DropboxMirror.recorded]
      change ((mergeConfirmed w.mirror rows).find? i.pathLower).map _ = _
      rw [hfind, Option.map_some, hrow.size, hrow.contentHash]
    -- no item of the path: the merge leaves its row alone
    · have hnone : latest cs p = none := latest_of_not_mem fun i hi hpath => hp ⟨i, hi, hpath⟩
      rw [hnone, Option.none_or, DropboxMirror.recorded, DropboxMirror.recorded]
      exact congrArg _ (find?_mergeConfirmed_of_ne h fun i hi hpath =>
        hp ⟨i, (hcs i).2 (mem_itemsIn.1 hi), hpath⟩)
  -- the items of another batch
  · rw [hitem]
    constructor
    · rintro ⟨i₀, hi₀, rfl⟩
      split at hib
      · rename_i hc
        simp only [isConfirmed, Bool.and_eq_true, decide_eq_true_eq] at hc
        exact absurd hc.1 hib
      · rename_i hc
        rw [if_neg hc]
        exact hi₀
    · intro hi
      refine ⟨i, hi, if_neg fun hc => hib ?_⟩
      simp only [isConfirmed, Bool.and_eq_true, decide_eq_true_eq] at hc
      exact hc.1
  · obtain ⟨i₀, hi₀, rfl⟩ := (hitem i).1 hi
    split at hs
    · cases hs
    · rename_i hc
      rw [if_neg hc]
      exact hi₀

/-- **The merge commits once**, or not at all. -/
theorem mergeBatch_triple : Triple (fun _ v => MergedFrom b w v) (fun v => v = w)
    (mergeBatch runId b) (fun _ v => MergedFrom b w v) (fun _ v => v = w) := by
  unfold mergeBatch
  refine Triple.get_bind fun s hs => ?_
  rw [hs]
  dsimp only
  split
  · exact Triple.fail fun _ h => h
  · rename_i rows hrows
    refine Triple.bind (M := fun _ v => MergedFrom b w v) (Triple.write ?_) fun _ =>
      Triple.pure fun _ h => h
    rintro v rfl
    exact ⟨mergedFrom_checkpointed hrows, mergedFrom_checkpointed hrows⟩

end Merge

/-- The items of the batches to do wait, and the batches are different ones. -/
structure Ready (todo : List Batch) (w : World) : Prop where
  nodup : (todo.map Batch.id).Nodup
  waiting : ∀ i ∈ w.items, i.batchId ∈ todo.map Batch.id → i.status = .planned

/-- **The batches a plan leaves are ready.** -/
theorem ready_of_inserted {rows : List DeltaChanged} {runId : ℕ} (htables : TablesOk w)
    (h : Inserted runId rows (dropPlanned w) v) (r : ℕ) : Ready (v.plannedBatches r) v := by
  obtain ⟨newItems, hitems, hrows, -⟩ := h.items
  obtain ⟨newBatches, hbatches, -⟩ := h.batches
  refine ⟨nodup_plannedBatches v r, fun i hi hid => ?_⟩
  obtain ⟨x, hx, hxi⟩ := List.mem_map.1 hid
  obtain ⟨hxv, -, hxs⟩ := mem_plannedBatches.1 hx
  rw [Table.mem_def, hitems, List.mem_append] at hi
  rcases hi with hi | hi
  · -- an old item belongs to an old batch, which does not wait
    obtain ⟨y, hy, hyi⟩ := (dropPlanned_ok htables).ref i hi
    have hyv : y ∈ v.batches := by
      rw [Table.mem_def, hbatches]
      exact List.mem_append_left _ hy
    have hxy : x = y := Table.eq_of_key_eq hxv hyv (hxi.trans hyi.symm)
    exact absurd (hxy ▸ hxs) (of_decide_eq_true (Table.mem_filter.1 hy).2)
  · obtain ⟨_, -, id, rfl⟩ := Pointwise.exists_left hrows hi
    rfl

end DropboxMirror
