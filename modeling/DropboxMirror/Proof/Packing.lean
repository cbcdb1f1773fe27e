import DropboxMirror.Model.Plan

/-!
# Packing is a greedy partition

`pack` closes a batch only where the next file would pass a bound (`Full`), or beside
a file that is over the byte bound by itself.

* `head_packRows`: the first batch begins with the batch under way.
* `pack_full`: two batches in a row could not have been one.
* `pack_greedy`: conservation, both bounds and maximality together.
-/

namespace DropboxMirror

variable {batchBytes batchFiles : ℕ} {c c' : List DeltaChanged}

/-- A batch without a file over the byte bound. -/
def Small (batchBytes : ℕ) (c : List DeltaChanged) : Prop := ∀ row ∈ c, row.size ≤ batchBytes

/-- The first file of the next batch would take a batch over one of the bounds. -/
def Full (batchBytes batchFiles : ℕ) (c c' : List DeltaChanged) : Prop :=
  Small batchBytes c → Small batchBytes c' →
    ∀ row ∈ c'.head?, batchBytes < totalSize c + row.size ∨ batchFiles < c.length + 1

theorem size_le_totalSize {row : DeltaChanged} (h : row ∈ c) : row.size ≤ totalSize c :=
  List.single_le_sum (fun _ _ => Nat.zero_le _) _ (List.mem_map_of_mem h)

/-- A file over the bound stands alone, so nothing is asked of its neighbours. -/
theorem full_of_large_right {row : DeltaChanged} (h : batchBytes < row.size) :
    Full batchBytes batchFiles c [row] := fun _ hs =>
  absurd (hs row (List.mem_singleton.2 rfl)) (Nat.not_le.2 h)

theorem full_of_large_left {row : DeltaChanged} (h : batchBytes < row.size) :
    Full batchBytes batchFiles [row] c' := fun hs =>
  absurd (hs row (List.mem_singleton.2 rfl)) (Nat.not_le.2 h)

/-- **The first batch begins with the batch under way.** -/
theorem head_packRows {row : DeltaChanged} (current rows : List DeltaChanged) (bytes : ℕ) :
    ∃ tail rest, packRows batchBytes batchFiles (row :: current) rows bytes = (row :: tail) :: rest := by
  induction rows generalizing current bytes with
  | nil => exact ⟨current, [], by rw [packRows, if_neg (List.cons_ne_nil _ _)]⟩
  | cons x rows ih =>
    rw [packRows, if_neg (List.cons_ne_nil _ _)]
    split
    · exact ⟨current, _, rfl⟩
    · split
      · exact ⟨current, _, rfl⟩
      · exact ih (current ++ [x]) _

/-- **Two batches in a row could not have been one.** The batch under way holds no file
over the bound, and `bytes` is its total. -/
theorem packRows_full (current rows : List DeltaChanged) (bytes : ℕ)
    (hbytes : bytes = totalSize current) :
    List.IsChain (Full batchBytes batchFiles) (packRows batchBytes batchFiles current rows bytes) := by
  induction rows generalizing current bytes with
  | nil =>
    rw [packRows]
    split
    · exact List.isChain_nil
    · exact List.isChain_singleton _
  | cons row rows ih =>
    have hone : totalSize [row] = row.size := by simp [totalSize]
    rw [packRows]
    split
    · rename_i hlarge
      have hnext : List.IsChain (Full batchBytes batchFiles)
          ([row] :: packRows batchBytes batchFiles [] rows 0) :=
        (ih [] 0 rfl).cons fun c _ => full_of_large_left hlarge
      split
      · exact hnext
      · exact hnext.cons fun c hc => by
          obtain rfl : [row] = c := Option.some.inj hc
          exact full_of_large_right hlarge
    · split
      · -- `row` did not fit, and it begins the next batch
        rename_i hfull
        obtain ⟨tail, rest, hhead⟩ : ∃ tail rest,
            packRows batchBytes batchFiles [row] rows row.size = (row :: tail) :: rest :=
          head_packRows [] rows row.size
        refine (ih [row] row.size hone.symm).cons fun c hc => ?_
        rw [hhead] at hc
        obtain rfl : row :: tail = c := Option.some.inj hc
        intro _ _ x hx
        obtain rfl : row = x := Option.some.inj hx
        have hover := hfull.2
        rw [hbytes] at hover
        omega
      · exact ih (current ++ [row]) _ (by rw [totalSize_append, hone, hbytes])

theorem pack_full (rows : List DeltaChanged) :
    List.IsChain (Full batchBytes batchFiles) (pack rows batchBytes batchFiles) :=
  packRows_full [] rows 0 rfl

/-- What `pack` makes: no empty batch, and one large file or files within both bounds. -/
theorem pack_batches (hfiles : 1 ≤ batchFiles) (rows : List DeltaChanged) :
    ∀ c ∈ pack rows batchBytes batchFiles, c ≠ [] ∧
      ((∃ row, c = [row] ∧ batchBytes < row.size) ∨
        totalSize c ≤ batchBytes ∧ c.length ≤ batchFiles ∧ Small batchBytes c) := by
  intro c hc
  rcases pack_bounds hfiles rows c hc with ⟨row, rfl, hlarge⟩ | ⟨hbytes, hlen, hne⟩
  · exact ⟨List.cons_ne_nil _ _, Or.inl ⟨row, rfl, hlarge⟩⟩
  · exact ⟨hne, Or.inr ⟨hbytes, hlen, fun row hrow => (size_le_totalSize hrow).trans hbytes⟩⟩

/-- **Packing is a lossless greedy partition.** -/
theorem pack_greedy (hfiles : 1 ≤ batchFiles) (rows : List DeltaChanged) :
    (pack rows batchBytes batchFiles).flatten = rows ∧
      (∀ c ∈ pack rows batchBytes batchFiles, c ≠ [] ∧
        ((∃ row, c = [row] ∧ batchBytes < row.size) ∨
          totalSize c ≤ batchBytes ∧ c.length ≤ batchFiles ∧ Small batchBytes c)) ∧
      List.IsChain (Full batchBytes batchFiles) (pack rows batchBytes batchFiles) :=
  ⟨flatten_pack rows, pack_batches hfiles rows, pack_full rows⟩

section Sizes

/-- A changed file of a size. -/
def sizedRow (size : ℕ) : DeltaChanged := ⟨1, toString size |>.toList, "/a".toList, size, []⟩

/-- Two small files in one batch, an empty one at the cap, one alone, one after it. -/
theorem pack_greedy_sizes :
    pack [sizedRow 4, sizedRow 6, sizedRow 0, sizedRow 11, sizedRow 3] 10 2 =
        [[sizedRow 4, sizedRow 6], [sizedRow 0], [sizedRow 11], [sizedRow 3]] ∧
      List.IsChain (Full 10 2) (pack [sizedRow 4, sizedRow 6, sizedRow 0, sizedRow 11, sizedRow 3] 10 2) :=
  ⟨by decide, (pack_greedy (by decide) _).2.2⟩

end Sizes

end DropboxMirror
