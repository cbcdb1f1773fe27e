import DropboxMirror.Model.Batches

/-!
# Batch items

What one commit of a batch step does to `batch_items` and `mirror_objects`: rows keep
their place and identity, a row moves along one edge of `Move` or stays (`Moved`), and
a mirror row changes only for an item that becomes `CHECKPOINTED` (`Link`).

* `settle`: the table after some rows of a batch were settled one by one.
* `setItem_settle`: `_set_item` settles one more row.
* `tally_settle`: how many items of a status there are then.
-/

namespace DropboxMirror

open Text Crash

variable {D : Digests} {S : Set ℕ} {b : ℕ} {t : Table BatchItem.key} {v w : World}

/-- The moves of a batch item. -/
inductive Move : ItemStatus → ItemStatus → Prop
  | vanish : Move .planned .vanished
  | fetch : Move .planned .fetched
  | mismatch : Move .fetched .hashMismatch
  | verify : Move .fetched .verified
  | confirmFail : Move .verified .confirmFailed
  | confirm : Move .verified .confirmed
  | checkpoint : Move .confirmed .checkpointed

/-- The row's size, content hash and digests are those of the bytes staged for it. -/
def VerifiedIn (D : Digests) (v : World) (i : BatchItem) : Prop :=
  ∃ body, v.staging.files.get? (localPath i.pathDisplay) = some body ∧
    (hashFile D body).size = i.size ∧ (hashFile D body).dropboxContentHash = i.contentHash ∧
    i.sha1 = some (hashFile D body).sha1 ∧ i.sha256 = some (hashFile D body).sha256

/-- A row keeps its identity. -/
structure SameItem (i i' : BatchItem) : Prop where
  batchId : i'.batchId = i.batchId
  pathLower : i'.pathLower = i.pathLower
  pathDisplay : i'.pathDisplay = i.pathDisplay
  size : i'.size = i.size
  contentHash : i'.contentHash = i.contentHash

/-- A row makes one move: `verify` records the digests of the staged bytes, and no other
move touches them. -/
structure Moved (D : Digests) (v : World) (i i' : BatchItem) : Prop extends SameItem i i' where
  move : Move i.status i'.status
  digests : i'.status ≠ .verified → i'.sha1 = i.sha1 ∧ i'.sha256 = i.sha256
  evidence : i'.status = .verified → VerifiedIn D v i'

/-- The mirror row carries what the item has on record. -/
structure MirrorsItem (m : MirrorObject) (i : BatchItem) : Prop where
  pathLower : m.pathLower = i.pathLower
  pathDisplay : m.pathDisplay = i.pathDisplay
  size : m.size = i.size
  contentHash : m.contentHash = i.contentHash
  sha1 : some m.sha1 = i.sha1
  sha256 : some m.sha256 = i.sha256

/-- An item of the path, of a batch in `S`, becomes `CHECKPOINTED`, and the mirror has its
row. -/
def Checkpoints (D : Digests) (S : Set ℕ) (v v' : World) (p : Str) (i : BatchItem) : Prop :=
  i ∈ v.items ∧ i.batchId ∈ S ∧ i.pathLower = p ∧
    (∃ i' ∈ v'.items, Moved D v i i' ∧ i'.status = .checkpointed) ∧
    ∃ m, v'.mirror.find? p = some m ∧ MirrorsItem m i

/-- Batch rows keep everything but their status. -/
def SameBatches (v v' : World) : Prop :=
  List.Forall₂ (fun r r' => r' = { r with status := r'.status }) v.batches.rows v'.batches.rows

theorem SameBatches.of_eq (h : w.batches = v.batches) : SameBatches v w := by
  unfold SameBatches
  rw [h]
  exact List.forall₂_same.2 fun _ _ => rfl

theorem SameBatches.of_setBatch {status : BatchStatus} (h : w.batches = setBatch b status v.batches) :
    SameBatches v w := by
  unfold SameBatches
  rw [h]
  refine List.forall₂_map_right_iff.2 (List.forall₂_same.2 fun r _ => ?_)
  split <;> rfl

/-- **One commit of a step of the batches `S`.** -/
structure Link (D : Digests) (S : Set ℕ) (v v' : World) : Prop where
  items : List.Forall₂ (fun i i' => i' = i ∨ i.batchId ∈ S ∧ Moved D v i i') v.items.rows v'.items.rows
  mirror : ∀ p, (∃ i, Checkpoints D S v v' p i) ∨
    v'.mirror.find? p = v.mirror.find? p ∧
      ∀ i' ∈ v'.items, i'.pathLower = p → i'.status = .checkpointed → i' ∈ v.items
  batches : SameBatches v v'
  deletions : v'.deletions = v.deletions

/-- A commit that leaves the mirror alone and checkpoints nothing. -/
structure Quiet (D : Digests) (S : Set ℕ) (v v' : World) : Prop extends Link D S v v' where
  sameMirror : v'.mirror = v.mirror
  uncheckpointed : ∀ i' ∈ v'.items, i'.status = .checkpointed → i' ∈ v.items

/-- A commit that changes rows one by one, none of them into `CHECKPOINTED`. -/
theorem Quiet.of_modify (g : BatchItem → BatchItem) (hg : ∀ i, (g i).key = i.key)
    (hi : w.items = v.items.modify g hg) (hm : w.mirror = v.mirror) (hb : SameBatches v w)
    (hd : w.deletions = v.deletions)
    (hmove : ∀ i ∈ v.items, g i = i ∨
      (i.batchId ∈ S ∧ Moved D v i (g i)) ∧ (g i).status ≠ .checkpointed) :
    Quiet D S v w := by
  have hold : ∀ i' ∈ w.items, i'.status = .checkpointed → i' ∈ v.items := by
    intro i' hi' hs
    rw [hi] at hi'
    obtain ⟨i, hiv, rfl⟩ := Table.mem_modify.1 hi'
    rcases hmove i hiv with h | h
    · rw [h]
      exact hiv
    · exact absurd hs h.2
  refine ⟨⟨?_, fun p => Or.inr ⟨by rw [hm], fun i' hi' _ hs => hold i' hi' hs⟩, hb, hd⟩, hm, hold⟩
  rw [hi]
  refine List.forall₂_map_right_iff.2 (List.forall₂_same.2 fun i hi => ?_)
  exact (hmove i hi).imp id And.left

/-- A commit that touches no item and no mirror row. -/
theorem Quiet.of_eq (hi : w.items = v.items) (hm : w.mirror = v.mirror) (hb : SameBatches v w)
    (hd : w.deletions = v.deletions) : Quiet D S v w := by
  refine Quiet.of_modify id (fun _ => rfl) ?_ hm hb hd fun i _ => Or.inl rfl
  rw [hi]
  exact Table.ext (by simp [Table.modify])

/-- A commit outside the tables. -/
theorem Quiet.of_frame (hi : w.items = v.items) (hm : w.mirror = v.mirror)
    (hb : w.batches = v.batches) (hd : w.deletions = v.deletions) : Quiet D S v w :=
  Quiet.of_eq hi hm (SameBatches.of_eq hb) hd

theorem mem_updateItems {p : BatchItem → Bool} {s : ItemStatus} {c : ItemColumns} {i : BatchItem} :
    i ∈ updateItems p s c t ↔ ∃ i₀ ∈ t, (if p i₀ then i₀.setStatus s c else i₀) = i :=
  Table.mem_modify

/-- The rows of an `UPDATE` move. -/
theorem Quiet.of_updateItems {p : BatchItem → Bool} {s : ItemStatus} {c : ItemColumns}
    (hmove : ∀ i ∈ v.items, p i = true → i.batchId ∈ S ∧ Moved D v i (i.setStatus s c))
    (hs : s ≠ .checkpointed) :
    Quiet D S v (v.updateItems p s c) := by
  refine Quiet.of_modify (fun i => if p i then i.setStatus s c else i)
    (fun i => by split <;> rfl) rfl rfl (SameBatches.of_eq rfl) rfl fun i hi => ?_
  split
  · rename_i hp
    exact Or.inr ⟨hmove i hi hp, hs⟩
  · exact Or.inl rfl

/-- One row moves. -/
theorem Quiet.of_setItem {row : BatchItem} {s : ItemStatus} {c : ItemColumns} (hrow : row ∈ v.items)
    (hb : row.batchId ∈ S) (hmove : Moved D v row (row.setStatus s c)) (hs : s ≠ .checkpointed) :
    Quiet D S v (v.updateItems (fun i => decide (i.key = row.key)) s c) := by
  refine Quiet.of_updateItems (fun i hi hk => ?_) hs
  rw [Table.eq_of_key_eq hi hrow (of_decide_eq_true hk)]
  exact ⟨hb, hmove⟩

section Settle

/-- What a step decides for a row: nothing, or a status and columns. -/
abbrev Decision := Option (ItemStatus × ItemColumns)

/-- The row after a decision. -/
def BatchItem.decided (i : BatchItem) : Decision → BatchItem
  | none => i
  | some (s, c) => i.setStatus s c

@[simp] theorem BatchItem.key_decided (i : BatchItem) (u : Decision) : (i.decided u).key = i.key := by
  cases u <;> rfl

/-- The items after the rows `done` were decided by `u`. -/
def settle (u : BatchItem → Decision) (done : List BatchItem) (t : Table BatchItem.key) :
    Table BatchItem.key :=
  t.modify (fun i => if i ∈ done then i.decided (u i) else i) (fun i => by split <;> simp)

variable {u : BatchItem → Decision} {done : List BatchItem} {row i : BatchItem}

@[simp] theorem settle_nil : settle u [] t = t := Table.ext (by simp [settle, Table.modify])

theorem mem_settle :
    i ∈ settle u done t ↔ ∃ i₀ ∈ t, (if i₀ ∈ done then i₀.decided (u i₀) else i₀) = i :=
  Table.mem_modify

/-- `_set_item` of a row that was not settled yet. -/
theorem setItem_settle {s : ItemStatus} {c : ItemColumns} (hrow : row ∈ t) (hnew : row ∉ done)
    (hu : u row = some (s, c)) :
    updateItems (fun i => decide (i.key = row.key)) s c (settle u done t) =
      settle u (done ++ [row]) t := by
  apply Table.ext
  simp only [updateItems, settle, Table.modify, List.map_map]
  refine List.map_congr_left fun i hi => ?_
  simp only [Function.comp_apply, List.mem_append, List.mem_singleton, decide_eq_true_eq]
  by_cases hd : i ∈ done
  · have hk : i.key ≠ row.key := by
      intro hk
      rw [Table.eq_of_key_eq hi hrow hk] at hd
      exact hnew hd
    simp [hd, hk]
  · by_cases hr : i = row
    · subst hr
      simp [hd, hu, BatchItem.decided]
    · have hk : i.key ≠ row.key := fun hk => hr (Table.eq_of_key_eq hi hrow hk)
      simp [hd, hr, hk]

/-- A row no decision was taken for. -/
theorem settle_skip (hu : u row = none) : settle u (done ++ [row]) t = settle u done t := by
  apply Table.ext
  refine List.map_congr_left fun i _ => ?_
  by_cases hr : i = row
  · subst hr
    by_cases hd : i ∈ done <;> simp [hd, hu, BatchItem.decided]
  · simp [hr]

/-- An `UPDATE` of the rows that are left settles them all. -/
theorem updateItems_settle {rows : List BatchItem} {p : BatchItem → Bool} {s : ItemStatus}
    {c : ItemColumns} (hrows : ∀ i ∈ t, i ∈ rows ↔ p i = true) (hsub : ∀ i ∈ done, i ∈ rows)
    (hdone : ∀ i ∈ done, p (i.decided (u i)) = false)
    (hrest : ∀ i ∈ rows, i ∉ done → u i = some (s, c)) :
    updateItems p s c (settle u done t) = settle u rows t := by
  apply Table.ext
  simp only [updateItems, settle, Table.modify, List.map_map]
  refine List.map_congr_left fun i hi => ?_
  rw [Function.comp_apply]
  by_cases hd : i ∈ done
  · rw [if_pos hd, hdone i hd, if_pos (hsub i hd), if_neg Bool.false_ne_true]
  · rw [if_neg hd]
    by_cases hp : p i = true
    · have hr := (hrows i hi).2 hp
      rw [if_pos hp, if_pos hr, hrest i hr hd]
      rfl
    · rw [if_neg hp, if_neg fun hr => hp ((hrows i hi).1 hr)]

/-- A row that is not settled yet is still there. -/
theorem mem_settle_of_not_mem (hrow : row ∈ t) (hnew : row ∉ done) : row ∈ settle u done t :=
  mem_settle.2 ⟨row, hrow, if_neg hnew⟩

end Settle

section Tally

/-- The items of a batch with a status. -/
def inStatus (b : ℕ) (s : ItemStatus) (i : BatchItem) : Bool :=
  decide (i.batchId = b) && decide (i.status = s)

/-- How many items of a batch have a status. -/
def tally (t : Table BatchItem.key) (b : ℕ) (s : ItemStatus) : ℕ := t.rows.countP (inStatus b s)

theorem itemsIn_perm (w : World) (b : ℕ) (s : ItemStatus) :
    (w.itemsIn b s).Perm (w.items.rows.filter (inStatus b s)) := List.perm_insertionSort _ _

theorem mem_itemsIn {s : ItemStatus} {i : BatchItem} :
    i ∈ w.itemsIn b s ↔ i ∈ w.items ∧ i.batchId = b ∧ i.status = s := by
  rw [(itemsIn_perm w b s).mem_iff, List.mem_filter]
  simp [inStatus, Table.mem_def]

theorem length_itemsIn (w : World) (b : ℕ) (s : ItemStatus) :
    (w.itemsIn b s).length = tally w.items b s := by
  rw [(itemsIn_perm w b s).length_eq, tally, List.countP_eq_length_filter]

theorem nodup_itemsIn (w : World) (b : ℕ) (s : ItemStatus) : (w.itemsIn b s).Nodup := by
  rw [(itemsIn_perm w b s).nodup_iff]
  exact (List.Nodup.of_map _ w.items.nodup).filter _

/-- The status a decision leaves. -/
def Decision.status (u : Decision) (s : ItemStatus) : ItemStatus := (u.map Prod.fst).getD s

theorem BatchItem.status_decided (i : BatchItem) (u : Decision) :
    (i.decided u).status = u.status i.status := by cases u <;> rfl

theorem BatchItem.batchId_decided (i : BatchItem) (u : Decision) :
    (i.decided u).batchId = i.batchId := by cases u <;> rfl

/-- **Counting after all rows of a status were settled.** -/
theorem tally_settle (u : BatchItem → Decision) (w : World) (b : ℕ) (s₀ s : ItemStatus) :
    tally (settle u (w.itemsIn b s₀) w.items) b s =
      (w.itemsIn b s₀).countP (fun i => decide ((u i).status s₀ = s)) +
        if s = s₀ then 0 else tally w.items b s := by
  have hrow : ∀ i ∈ w.items.rows, i ∈ w.itemsIn b s₀ ↔ inStatus b s₀ i = true := by
    intro i hi
    rw [mem_itemsIn]
    simp [inStatus, Table.mem_def, hi]
  rw [tally, settle, Table.modify, List.countP_map,
    List.countP_eq_countP_filter_add _ _ (inStatus b s₀)]
  congr 1
  -- the settled rows count by their decisions, the others by their status
  · rw [(itemsIn_perm w b s₀).countP_eq]
    refine List.countP_congr fun i hi => ?_
    obtain ⟨hi, hs⟩ := List.mem_filter.1 hi
    have hs' := hs
    simp only [inStatus, Bool.and_eq_true, decide_eq_true_eq] at hs'
    simp [(hrow i hi).2 hs, inStatus, BatchItem.status_decided, BatchItem.batchId_decided, hs']
  · rw [List.countP_filter]
    split
    · rename_i h
      subst h
      refine List.countP_eq_zero.2 fun i hi => ?_
      have := hrow i hi
      by_cases hs : inStatus b s i = true <;> simp [this, hs]
    · rename_i h
      refine List.countP_congr fun i hi => ?_
      have := hrow i hi
      by_cases hs : inStatus b s₀ i = true
      · have hs' := hs
        simp only [inStatus, Bool.and_eq_true, decide_eq_true_eq] at hs'
        have hf : inStatus b s i = false := by simp [inStatus, hs'.2, Ne.symm h]
        simp [hs, hf]
      · simp [this, hs]

end Tally

end DropboxMirror
