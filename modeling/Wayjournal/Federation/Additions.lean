import Wayjournal.Federation.Document
import Wayjournal.Layout

namespace Wayjournal

open Collections Text

def MAX_CANONICAL_PATH_BYTES : Nat := 223
def MAX_ENCODED_ADDITION_BYTES : Nat := 265
def MAX_ADDITION_INDEX_BYTES : Nat := 16 * 1024
def ADDITION_MAGIC : Bytes := asBytes "wayjournal.sync-additions/v1\x00"
def ADDITION_HEADER_BYTES : Nat := 64
def MAX_CHUNK_BYTES : Nat := ADDITION_HEADER_BYTES + ADDITIONS_PER_CHUNK * MAX_ENCODED_ADDITION_BYTES
def INDEX_MAGIC : Bytes := asBytes "wayjournal.sync-additions-index/v1\x00"
def INDEX_HEADER_BYTES : Nat := 64
def INDEX_ENTRY_BYTES : Nat := 48

/-- `to_be_bytes` of a number of `width` bytes. -/
def beBytes : Nat → Nat → Bytes
  | 0, _ => []
  | width + 1, n => UInt8.ofNat (n >>> (8 * width)) :: beBytes width n

def fromBeBytes (bytes : Bytes) : Nat := bytes.foldl (fun n b => n * 256 + b.toNat) 0

def nibblePairs : List (Fin 16) → Bytes
  | a :: b :: t => UInt8.ofNat (a.val * 16 + b.val) :: nibblePairs t
  | _ => []

/-- The 32 bytes of a digest. -/
def Digest.toBytes (d : Digest) : Bytes := nibblePairs d.nibbles

def byteNibbles (b : UInt8) : List (Fin 16) :=
  [⟨b.toNat / 16, by have := b.toNat_lt; omega⟩, ⟨b.toNat % 16, by omega⟩]

/-- A digest of 32 bytes. -/
def Digest.ofBytes (bytes : Bytes) : Option Digest :=
  if h : (bytes.flatMap byteNibbles).length = 64 then some ⟨⟨bytes.flatMap byteNibbles, h⟩⟩ else none

structure AdditionEntry where
  path : Bytes
  byteLength : Nat
  contentDigest : Digest
  deriving DecidableEq

/-- The checks of an addition against the path before it. -/
def additionPathOk (previous : Option Bytes) (path : Bytes) : Bool :=
  !path.isEmpty && path.length ≤ MAX_CANONICAL_PATH_BYTES && path.all (·.toNat < 0x80) &&
    (classifyPath path).isCanonical && previous.all (· < path)

def encodeEntries : Option Bytes → List AdditionEntry → Except PendingError Bytes
  | _, [] => .ok []
  | previous, entry :: entries =>
    if additionPathOk previous entry.path then do
      let rest ← encodeEntries (some entry.path) entries
      return beBytes 2 entry.path.length ++ entry.path ++ beBytes 8 entry.byteLength ++
        entry.contentDigest.toBytes ++ rest
    else .error (.invalid "addition path is not sorted canonical ASCII")

def encodeChunk (chunkNumber : Nat) (entries : List AdditionEntry) : Except PendingError Bytes := do
  if chunkNumber ≥ MAX_ADDITION_CHUNKS || entries.isEmpty || entries.length > ADDITIONS_PER_CHUNK then
    throw (.invalid "addition chunk number or count is outside bounds")
  let header := ADDITION_MAGIC ++ beBytes 4 chunkNumber ++ beBytes 4 entries.length
  let header := header ++ List.replicate (ADDITION_HEADER_BYTES - header.length) 0
  let body ← encodeEntries none entries
  let bytes := header ++ body
  if bytes.length > MAX_CHUNK_BYTES then throw (.invalid "encoded addition chunk exceeds bound")
  return bytes

/-- The next bytes and what follows them. -/
def take (bytes : Bytes) (length : Nat) : Except PendingError (Bytes × Bytes) :=
  if bytes.length < length then .error (.invalid "addition chunk is truncated")
  else .ok (bytes.take length, bytes.drop length)

def takeNat (bytes : Bytes) (width : Nat) : Except PendingError (Nat × Bytes) := do
  let (value, rest) ← take bytes width
  return (fromBeBytes value, rest)

def takeDigest (bytes : Bytes) : Except PendingError (Digest × Bytes) := do
  let (value, rest) ← take bytes 32
  let some digest := Digest.ofBytes value | throw (.invalid "addition chunk is truncated")
  return (digest, rest)

def decodeEntries : Nat → Bytes → Except PendingError (List AdditionEntry × Bytes)
  | 0, bytes => .ok ([], bytes)
  | count + 1, bytes => do
    let (pathLength, bytes) ← takeNat bytes 2
    if pathLength = 0 || pathLength > MAX_CANONICAL_PATH_BYTES then
      throw (.invalid "addition path length is outside bounds")
    let (path, bytes) ← take bytes pathLength
    let (byteLength, bytes) ← takeNat bytes 8
    let (contentDigest, bytes) ← takeDigest bytes
    let (entries, bytes) ← decodeEntries count bytes
    return (⟨path, byteLength, contentDigest⟩ :: entries, bytes)

def decodeChunk (bytes : Bytes) : Except PendingError (Nat × List AdditionEntry) := do
  if bytes.length < ADDITION_HEADER_BYTES || bytes.length > MAX_CHUNK_BYTES then
    throw (.invalid "addition chunk byte length is outside bounds")
  let header := bytes.take ADDITION_HEADER_BYTES
  if header.take ADDITION_MAGIC.length ≠ ADDITION_MAGIC
      || (header.drop (ADDITION_MAGIC.length + 8)).any (· ≠ 0) then
    throw (.invalid "addition chunk header is invalid")
  let chunkNumber := fromBeBytes ((header.drop ADDITION_MAGIC.length).take 4)
  let count := fromBeBytes ((header.drop (ADDITION_MAGIC.length + 4)).take 4)
  if chunkNumber ≥ MAX_ADDITION_CHUNKS || count = 0 || count > ADDITIONS_PER_CHUNK then
    throw (.invalid "addition chunk number or count is outside bounds")
  let (entries, rest) ← decodeEntries count (bytes.drop ADDITION_HEADER_BYTES)
  if !rest.isEmpty then throw (.invalid "addition chunk has trailing bytes")
  let canonical ← encodeChunk chunkNumber entries
  if canonical ≠ bytes then throw (.invalid "addition chunk is noncanonical")
  return (chunkNumber, entries)

structure IndexEntry where
  number : Nat
  count : Nat
  encodedLength : Nat
  digest : Digest
  deriving DecidableEq

def encodeIndex (count totalBytes : Nat) (chunks : List IndexEntry) : Except PendingError Bytes := do
  if chunks.length > MAX_ADDITION_CHUNKS then throw (.invalid "index chunk count exceeds bound")
  let header := INDEX_MAGIC ++ beBytes 8 count ++ beBytes 8 totalBytes ++ beBytes 4 chunks.length
  let header := header ++ List.replicate (INDEX_HEADER_BYTES - header.length) 0
  let bytes := header ++ chunks.flatMap (fun chunk =>
    beBytes 4 chunk.number ++ beBytes 4 chunk.count ++ beBytes 8 chunk.encodedLength ++
      chunk.digest.toBytes)
  if bytes.length > MAX_ADDITION_INDEX_BYTES then throw (.invalid "addition index exceeds 16 KiB")
  return bytes

def decodeIndexEntries : Nat → Nat → Bytes → Except PendingError (List IndexEntry)
  | _, 0, _ => .ok []
  | expected, chunks + 1, bytes => do
    let (number, bytes) ← takeNat bytes 4
    let (count, bytes) ← takeNat bytes 4
    let (encodedLength, bytes) ← takeNat bytes 8
    let (digest, bytes) ← takeDigest bytes
    if number ≠ expected || count = 0 || count > ADDITIONS_PER_CHUNK then
      throw (.invalid "addition index entry is invalid")
    let entries ← decodeIndexEntries (expected + 1) chunks bytes
    return ⟨number, count, encodedLength, digest⟩ :: entries

def decodeIndex (bytes : Bytes) : Except PendingError (Nat × Nat × List IndexEntry) := do
  if bytes.length < INDEX_HEADER_BYTES || bytes.length > MAX_ADDITION_INDEX_BYTES then
    throw (.invalid "addition index size is outside bounds")
  if bytes.take INDEX_MAGIC.length ≠ INDEX_MAGIC then throw (.invalid "addition index magic is invalid")
  let header := (bytes.take INDEX_HEADER_BYTES).drop INDEX_MAGIC.length
  let count := fromBeBytes (header.take 8)
  let totalBytes := fromBeBytes ((header.drop 8).take 8)
  let chunks := fromBeBytes ((header.drop 16).take 4)
  if (header.drop 20).any (· ≠ 0) || chunks > MAX_ADDITION_CHUNKS
      || bytes.length ≠ INDEX_HEADER_BYTES + chunks * INDEX_ENTRY_BYTES then
    throw (.invalid "addition index header is invalid")
  let entries ← decodeIndexEntries 0 chunks (bytes.drop INDEX_HEADER_BYTES)
  let canonical ← encodeIndex count totalBytes entries
  if canonical ≠ bytes then throw (.invalid "addition index is noncanonical")
  return (count, totalBytes, entries)

end Wayjournal
