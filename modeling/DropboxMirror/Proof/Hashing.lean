import DropboxMirror.Lib.Blocks
import DropboxMirror.Model.Hashing

/-!
# The one-pass hasher computes Dropbox's content hash

`hash_stream` carries a partly filled block from chunk to chunk. What it has seen is
whole blocks, whose digests are in `dropbox`, and the fill of the current one
(`Absorbed`), however the stream was cut.

* `hashChunk_absorbed`, `hashChunks_absorbed`: one chunk, then all of them.
* `hashStream_contentHash`, `hashFile_eq`: the hashes of a stream, and of a file.
-/

namespace DropboxMirror

open Blocks

variable {D : Digests}

/-- The digests of the blocks of some bytes, one after the other. -/
def blockDigests (D : Digests) (bytes : Bytes) : Bytes :=
  (blocks dropboxBlockSize bytes).flatMap D.sha256

/-- The hashes of some bytes, as Dropbox defines its content hash. -/
def contentHashes (D : Digests) (bytes : Bytes) : FileHashes where
  size := bytes.length
  sha256 := D.hex (D.sha256 bytes)
  sha1 := D.hex (D.sha1 bytes)
  dropboxContentHash := D.hex (D.sha256 (blockDigests D bytes))

theorem dropboxBlockSize_pos : 0 < dropboxBlockSize := by decide

/-- **The block hashes after the bytes `seen`**: whole blocks are digested, the rest is
in the current block. -/
structure Absorbed (D : Digests) (seen : Bytes) (st : HashState) : Prop where
  whole : ∃ full, seen = full ++ st.blockHash ∧ dropboxBlockSize ∣ full.length ∧
    st.dropbox = blockDigests D full
  fill : st.blockSize = st.blockHash.length
  room : st.blockSize < dropboxBlockSize

/-- A block that is full is digested, and a new one begins. -/
theorem blockDigests_full {full block : Bytes} (hfull : dropboxBlockSize ∣ full.length)
    (hblock : block.length = dropboxBlockSize) :
    blockDigests D (full ++ block) = blockDigests D full ++ D.sha256 block := by
  have hne : block ≠ [] := by
    rintro rfl
    exact dropboxBlockSize_pos.ne hblock
  rw [blockDigests, blocks_append dropboxBlockSize_pos hfull,
    blocks_of_length_le dropboxBlockSize_pos hne hblock.le, List.flatMap_append,
    List.flatMap_singleton]
  rfl

/-- **One chunk**, wherever its boundaries fall in the blocks. -/
theorem hashChunk_absorbed {fuel : ℕ} {chunk seen : Bytes} {st : HashState}
    (hfuel : chunk.length ≤ fuel) (h : Absorbed D seen st) :
    Absorbed D (seen ++ chunk) (hashChunk D fuel chunk st) := by
  induction fuel generalizing chunk seen st with
  | zero =>
    obtain rfl := List.eq_nil_of_length_eq_zero (Nat.le_zero.1 hfuel)
    rwa [List.append_nil]
  | succ fuel ih =>
    rw [hashChunk]
    split
    · rename_i hnil
      rwa [hnil, List.append_nil]
    rename_i hne
    have hpos := List.length_pos_iff.2 hne
    obtain ⟨full, rfl, hdvd, hdrop⟩ := h.whole
    have hfill := h.fill
    have hroom := h.room
    -- the turn takes at least one byte, and at most what the block has room for
    set take := min (dropboxBlockSize - st.blockSize) chunk.length
    have htake : 0 < take ∧ take ≤ chunk.length ∧ take ≤ dropboxBlockSize - st.blockSize := by
      omega
    have hlen : (st.blockHash ++ chunk.take take).length = st.blockSize + take := by
      rw [List.length_append, List.length_take, min_eq_left htake.2.1, hfill]
    have hrest : (chunk.drop take).length ≤ fuel := by
      rw [List.length_drop]
      omega
    have hsplit : full ++ st.blockHash ++ chunk =
        full ++ (st.blockHash ++ chunk.take take) ++ chunk.drop take := by
      simp only [List.append_assoc, List.take_append_drop]
    dsimp only
    rw [hsplit]
    refine ih hrest ?_
    split
    · rename_i hfullBlock
      have hblock := hlen.trans hfullBlock
      refine ⟨⟨full ++ (st.blockHash ++ chunk.take take), ?_, ?_, ?_⟩, rfl, dropboxBlockSize_pos⟩
      · rw [List.append_nil]
      · rw [List.length_append, hblock]
        exact Nat.dvd_add hdvd (Nat.dvd_refl _)
      · rw [blockDigests_full hdvd hblock, hdrop]
    · rename_i hpart
      have hle : st.blockSize + take ≤ dropboxBlockSize := by omega
      exact ⟨⟨full, rfl, hdvd, hdrop⟩, hlen.symm, lt_of_le_of_ne hle hpart⟩

/-- The inner loop leaves the size and the plain digests alone. -/
theorem hashChunk_plain (fuel : ℕ) (chunk : Bytes) (st : HashState) :
    (hashChunk D fuel chunk st).size = st.size ∧ (hashChunk D fuel chunk st).sha256 = st.sha256 ∧
      (hashChunk D fuel chunk st).sha1 = st.sha1 := by
  induction fuel generalizing chunk st with
  | zero => exact ⟨rfl, rfl, rfl⟩
  | succ fuel ih =>
    rw [hashChunk]
    split
    · exact ⟨rfl, rfl, rfl⟩
    · dsimp only
      obtain ⟨h1, h2, h3⟩ := ih (chunk.drop (min (dropboxBlockSize - st.blockSize) chunk.length))
        (if st.blockSize + min (dropboxBlockSize - st.blockSize) chunk.length = dropboxBlockSize then
          { st with
            dropbox := st.dropbox ++ D.sha256 (st.blockHash ++
              chunk.take (min (dropboxBlockSize - st.blockSize) chunk.length))
            blockHash := [], blockSize := 0 }
        else
          { st with
            blockHash := st.blockHash ++
              chunk.take (min (dropboxBlockSize - st.blockSize) chunk.length)
            blockSize := st.blockSize + min (dropboxBlockSize - st.blockSize) chunk.length })
      rw [h1, h2, h3]
      split <;> exact ⟨rfl, rfl, rfl⟩

/-- What the hash objects hold after the bytes `seen`. -/
structure Consumed (D : Digests) (seen : Bytes) (st : HashState) : Prop extends
    Absorbed D seen st where
  size : st.size = seen.length
  sha256 : st.sha256 = seen
  sha1 : st.sha1 = seen

/-- **All chunks.** -/
theorem hashChunks_absorbed {chunks : List Bytes} {seen : Bytes} {st : HashState}
    (h : Consumed D seen st) : Consumed D (seen ++ chunks.flatten) (hashChunks D chunks st) := by
  induction chunks generalizing seen st with
  | nil => rwa [List.flatten_nil, List.append_nil]
  | cons chunk rest ih =>
    rw [List.flatten_cons, ← List.append_assoc, hashChunks]
    obtain ⟨h1, h2, h3⟩ := hashChunk_plain (D := D) chunk.length chunk
      { st with
        size := st.size + chunk.length, sha256 := st.sha256 ++ chunk, sha1 := st.sha1 ++ chunk }
    refine ih ⟨hashChunk_absorbed le_rfl ⟨h.whole, h.fill, h.room⟩, ?_, ?_, ?_⟩
    · rw [h1, List.length_append, h.size]
    · rw [h2, h.sha256]
    · rw [h3, h.sha1]

/-- The hashes do not depend on how the stream is cut into chunks. -/
theorem hashStream_eq (D : Digests) (chunks : List Bytes) :
    hashStream D chunks = contentHashes D chunks.flatten := by
  have h0 : Consumed D [] ⟨0, [], [], [], [], 0⟩ :=
    ⟨⟨⟨[], rfl, dvd_zero _, by rw [blockDigests, blocks_nil]; rfl⟩, rfl, dropboxBlockSize_pos⟩,
      rfl, rfl, rfl⟩
  have h : Consumed D ([] ++ chunks.flatten) (hashChunks D chunks ⟨0, [], [], [], [], 0⟩) :=
    hashChunks_absorbed h0
  rw [List.nil_append] at h
  unfold hashStream
  dsimp only
  generalize hashChunks D chunks ⟨0, [], [], [], [], 0⟩ = st at h
  obtain ⟨full, hseen, hdvd, hdrop⟩ := h.whole
  have hlast : (if st.blockSize ≠ 0 then st.dropbox ++ D.sha256 st.blockHash else st.dropbox) =
      blockDigests D chunks.flatten := by
    rw [hseen, hdrop, h.fill]
    split
    · -- a partly filled block is digested at the end
      rename_i hpart
      have hne : st.blockHash ≠ [] := List.length_pos_iff.1 (Nat.pos_of_ne_zero hpart)
      have hle : st.blockHash.length ≤ dropboxBlockSize := by
        rw [← h.fill]
        exact h.room.le
      rw [blockDigests, blockDigests, blocks_append dropboxBlockSize_pos hdvd,
        blocks_of_length_le dropboxBlockSize_pos hne hle, List.flatMap_append,
        List.flatMap_singleton]
    · rename_i hempty
      rw [List.eq_nil_of_length_eq_zero (not_not.1 hempty), List.append_nil]
  rw [hlast, h.size, h.sha256, h.sha1]
  rfl

/-- **Dropbox's content hash, for every cut of the stream into chunks**: the digest of
the digests of the consecutive blocks, all full but perhaps the last. -/
theorem hashStream_contentHash (D : Digests) (chunks : List Bytes) : ∃ bs : List Bytes,
    bs.flatten = chunks.flatten ∧ (∀ b ∈ bs, b ≠ [] ∧ b.length ≤ dropboxBlockSize) ∧
      (∀ b ∈ bs.dropLast, b.length = dropboxBlockSize) ∧
      hashStream D chunks = {
        size := chunks.flatten.length
        sha256 := D.hex (D.sha256 chunks.flatten)
        sha1 := D.hex (D.sha1 chunks.flatten)
        dropboxContentHash := D.hex (D.sha256 (bs.flatMap D.sha256)) } :=
  ⟨blocks dropboxBlockSize chunks.flatten, flatten_blocks dropboxBlockSize_pos _,
    fun _ hb => mem_blocks dropboxBlockSize_pos hb,
    fun _ hb => length_of_mem_dropLast dropboxBlockSize_pos hb, hashStream_eq D chunks⟩

/-- The chunks a file is read in are the file. -/
theorem flatten_readChunks {n fuel : ℕ} {bytes : Bytes} (hn : 0 < n) (hfuel : bytes.length ≤ fuel) :
    (readChunks n fuel bytes).flatten = bytes := by
  induction fuel generalizing bytes with
  | zero =>
    rw [List.eq_nil_of_length_eq_zero (Nat.le_zero.1 hfuel)]
    rfl
  | succ fuel ih =>
    rw [readChunks]
    split
    · rename_i hnil
      rw [hnil, List.flatten_nil]
    · rename_i hne
      have hpos := List.length_pos_iff.2 hne
      rw [List.flatten_cons, ih, List.take_append_drop]
      rw [List.length_drop]
      omega

/-- **The hashes of a file.** -/
theorem hashFile_eq (D : Digests) (bytes : Bytes) : hashFile D bytes = contentHashes D bytes := by
  rw [hashFile, hashStream_eq, flatten_readChunks (by decide) le_rfl]

end DropboxMirror
