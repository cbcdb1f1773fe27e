import DropboxMirror.Lib.Text

/-!
# The one-pass hasher

`hashing.py` over a pair of digest functions. A hash object is the bytes it was
updated with, so an update appends; `hexdigest` is left to the digests.
-/

namespace DropboxMirror

/-- Bytes of a file. -/
abbrev Bytes := List UInt8

/-- The digest functions of `hashlib`, and the printing of a digest. -/
structure Digests where
  sha256 : Bytes → Bytes
  sha1 : Bytes → Bytes
  hex : Bytes → Str

/-- Digests for runs on concrete bytes: the digest of bytes is the bytes. -/
def Digests.plain : Digests := ⟨id, id, List.map fun x => Char.ofNat x.toNat⟩

/-- `DROPBOX_BLOCK_SIZE`. -/
def dropboxBlockSize : ℕ := 4 * 1024 * 1024

/-- `STREAM_SIZE`. -/
def streamSize : ℕ := 1024 * 1024

/-- `FileHashes`. -/
structure FileHashes where
  size : ℕ
  sha256 : Str
  sha1 : Str
  dropboxContentHash : Str
  deriving DecidableEq, Repr

/-- The hash objects of `hash_stream` and the fill of the current block. -/
structure HashState where
  size : ℕ
  sha256 : Bytes
  sha1 : Bytes
  dropbox : Bytes
  blockHash : Bytes
  blockSize : ℕ

/-- The inner loop over one chunk. Each turn takes at least one byte, so the chunk's
length is enough fuel. -/
def hashChunk (D : Digests) : ℕ → Bytes → HashState → HashState
  | 0, _, st => st
  | fuel + 1, chunk, st =>
    if chunk = [] then st
    else
      let take := min (dropboxBlockSize - st.blockSize) chunk.length
      let st := { st with
        blockHash := st.blockHash ++ chunk.take take, blockSize := st.blockSize + take }
      let st := if st.blockSize = dropboxBlockSize then
          { st with dropbox := st.dropbox ++ D.sha256 st.blockHash, blockHash := [], blockSize := 0 }
        else st
      hashChunk D fuel (chunk.drop take) st

/-- The outer loop over the chunks the stream delivers. -/
def hashChunks (D : Digests) : List Bytes → HashState → HashState
  | [], st => st
  | chunk :: rest, st =>
    let st := { st with
      size := st.size + chunk.length, sha256 := st.sha256 ++ chunk, sha1 := st.sha1 ++ chunk }
    hashChunks D rest (hashChunk D chunk.length chunk st)

/-- `hash_stream`. -/
def hashStream (D : Digests) (chunks : List Bytes) : FileHashes :=
  let st := hashChunks D chunks ⟨0, [], [], [], [], 0⟩
  let dropbox := if st.blockSize ≠ 0 then st.dropbox ++ D.sha256 st.blockHash else st.dropbox
  { size := st.size, sha256 := D.hex (D.sha256 st.sha256), sha1 := D.hex (D.sha1 st.sha1),
    dropboxContentHash := D.hex (D.sha256 dropbox) }

/-- The chunks of at most `n` bytes a file is read in. -/
def readChunks (n : ℕ) : ℕ → Bytes → List Bytes
  | 0, _ => []
  | fuel + 1, bytes => if bytes = [] then [] else bytes.take n :: readChunks n fuel (bytes.drop n)

/-- `hash_file` of a file that does not change while it is read. -/
def hashFile (D : Digests) (bytes : Bytes) : FileHashes :=
  hashStream D (readChunks streamSize bytes.length bytes)

end DropboxMirror
