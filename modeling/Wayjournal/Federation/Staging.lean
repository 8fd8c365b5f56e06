import Wayjournal.Federation.Pending
import Wayjournal.Store.Transaction

namespace Wayjournal

open Crash Fs Text

section

variable [Blake3] [ReadDir] [Url]

/-- The loop variables of `stage_known_additions`; `rest` is what the stream still has. -/
structure StagingState where
  rest : List (Bytes × Bytes)
  observedCount : Nat
  observedBytes : Nat
  previousPath : Option Bytes
  metadata : List AdditionEntry
  index : List IndexEntry

def stageBlob (blobChunk : Directory) (chunkNumber : Nat) (state : StagingState) (position : Nat) :
    PendingM StagingState := do
  let (path, bytes) :: rest := state.rest |
    throw (.invalid "addition stream ended before its declared count")
  if state.previousPath.any (fun previous => path ≤ previous) then
    throw (.invalid "addition stream is not globally ordered")
  writeNew blobChunk (ordinalBlob (chunkNumber * ADDITIONS_PER_CHUNK + position)) bytes
  return { state with
    rest := rest
    observedCount := state.observedCount + 1
    observedBytes := state.observedBytes + bytes.length
    previousPath := some path
    metadata := state.metadata ++ [⟨path, bytes.length, Blake3.hash bytes⟩] }

def stageChunk (additionCount : Nat) (chunksDir blobsDir : Directory) (state : StagingState) (chunkNumber : Nat) :
    PendingM StagingState := do
  let (blobChunk, created) ← blobsDir.ensureDir (chunkDir chunkNumber)
  if !created then throw (.invalid "blob chunk already exists")
  let groupCount := min (additionCount - state.observedCount) ADDITIONS_PER_CHUNK
  let state ← (List.range groupCount).foldlM (stageBlob blobChunk chunkNumber) { state with metadata := [] }
  let encoded ← .ofExcept (encodeChunk chunkNumber state.metadata)
  writeNew chunksDir (chunkBin chunkNumber) encoded
  return { state with
    index := state.index ++ [⟨chunkNumber, state.metadata.length, encoded.length, Blake3.hash encoded⟩] }

def u64 (n : Nat) (message : String) : Except PendingError (Fin (2 ^ 64)) :=
  if h : n < 2 ^ 64 then .ok ⟨n, h⟩ else .error (.invalid message)

/-- The document with the totals and the digest of what was staged. -/
def stageKnownAdditions (operation : Directory) (document : PendingDocument) (additionCount totalBytes : Nat)
    (additions : List (Bytes × Bytes)) : PendingM PendingDocument := do
  .ofExcept (validateAdditionTotals additionCount totalBytes)
  let (additionsDir, created) ← operation.ensureDir .additions
  if !created then throw (.invalid "additions directory already exists")
  let (chunksDir, _) ← additionsDir.ensureDir .chunks
  let (blobsDir, _) ← additionsDir.ensureDir .blobs
  let chunks ← .ofExcept (chunkCount additionCount)
  let state ← (List.range chunks).foldlM (stageChunk additionCount chunksDir blobsDir)
    ⟨additions, 0, 0, none, [], []⟩
  if !state.rest.isEmpty || state.observedCount ≠ additionCount || state.observedBytes ≠ totalBytes then
    throw (.invalid "addition stream does not match its declared totals")
  let index ← .ofExcept (encodeIndex additionCount totalBytes state.index)
  writeNew additionsDir .indexBin index
  let count ← .ofExcept (u64 additionCount "addition count exceeds u64")
  let total ← .ofExcept (u64 totalBytes "addition byte count exceeds u64")
  return { document with
    additionsCount := count
    additionsTotalBytes := total
    additionsIndexDigest := Blake3.hash index }

/-- An open file is its content. -/
structure StagedAddition where
  path : Bytes
  bytes : Bytes
  deriving DecidableEq

/-- The loop variables of `for_each_addition`; `value` is what the visitor has captured. -/
structure VisitState (β : Type) where
  observedCount : Nat
  observedBytes : Nat
  previousPath : Option Bytes
  value : β

variable {β : Type}

def boundedFile (directory : Directory) (name : Name) (limit : Nat) : PendingM Bytes := do
  let file ← directory.openFile name
  .ofExcept ((readFileBounded file limit (directory.join name)).mapError .store)

/-- One blob as its metadata binds it. -/
def readBlob (blobChunk : Directory) (number position : Nat) (metadata : AdditionEntry) : PendingM Bytes := do
  let bytes ← boundedFile blobChunk (ordinalBlob (number * ADDITIONS_PER_CHUNK + position)) metadata.byteLength
  if bytes.length ≠ metadata.byteLength || Blake3.hash bytes ≠ metadata.contentDigest then
    throw (.invalid "staged blob binding mismatch")
  return bytes

/-- The metadata of a chunk as the index binds it, and its directory of blobs. -/
def readChunk (chunks blobs : Directory) (entry : IndexEntry) : PendingM (List AdditionEntry × Directory) := do
  let encoded ← boundedFile chunks (chunkBin entry.number) MAX_CHUNK_BYTES
  if encoded.length ≠ entry.encodedLength || Blake3.hash encoded ≠ entry.digest then
    throw (.invalid "addition chunk binding mismatch")
  let (_, metadata) ← .ofExcept (decodeChunk encoded)
  if metadata.length ≠ entry.count then throw (.invalid "addition chunk count mismatch")
  let blobChunk ← blobs.openDir (chunkDir entry.number)
  requireExactNames blobChunk ((List.range metadata.length).map
    (fun position => ordinalBlob (entry.number * ADDITIONS_PER_CHUNK + position)))
  return (metadata, blobChunk)

structure AdditionIndex where
  count : Nat
  totalBytes : Nat
  entries : List IndexEntry
  chunks : Directory
  blobs : Directory

/-- The index as the document binds it, in its closed layout. -/
def readIndex (pending : DurablePending) : PendingM AdditionIndex := do
  let additions ← pending.directory.openDir .additions
  let index ← boundedFile additions .indexBin MAX_ADDITION_INDEX_BYTES
  if Blake3.hash index ≠ pending.document.additionsIndexDigest then
    throw (.invalid "addition index digest mismatch")
  let (count, totalBytes, entries) ← .ofExcept (decodeIndex index)
  if count ≠ pending.document.additionsCount.val || totalBytes ≠ pending.document.additionsTotalBytes.val then
    throw (.invalid "addition totals mismatch")
  let chunks ← additions.openDir .chunks
  let blobs ← additions.openDir .blobs
  requireExactNames additions [.blobs, .chunks, .indexBin]
  requireExactNames chunks (entries.map (fun entry => chunkBin entry.number))
  requireExactNames blobs (entries.map (fun entry => chunkDir entry.number))
  return ⟨count, totalBytes, entries, chunks, blobs⟩

section Visitor

variable {σ ε : Type} (lift : {α : Type} → PendingM α → Program σ ε α)
  (visit : β → StagedAddition → Program σ ε β)

def visitBlobIn (blobChunk : Directory) (number : Nat) (state : VisitState β) (entry : AdditionEntry × Nat) :
    Program σ ε (VisitState β) := do
  let bytes ← lift (readBlob blobChunk number entry.2 entry.1)
  if state.previousPath.any (fun previous => entry.1.path ≤ previous) then
    lift (throw (.invalid "staged additions are not globally ordered"))
  let value ← visit state.value ⟨entry.1.path, bytes⟩
  return ⟨state.observedCount + 1, state.observedBytes + entry.1.byteLength, some entry.1.path, value⟩

def visitChunkIn (chunks blobs : Directory) (state : VisitState β) (entry : IndexEntry) :
    Program σ ε (VisitState β) := do
  let (metadata, blobChunk) ← lift (readChunk chunks blobs entry)
  metadata.zipIdx.foldlM (visitBlobIn lift visit blobChunk entry.number) state

/-- `for_each_addition` with what its visitor captures, which may use more than the disk. -/
def foldAdditionsIn (pending : DurablePending) (init : β) : Program σ ε β := do
  let index ← lift (readIndex pending)
  let state ← index.entries.foldlM (visitChunkIn lift visit index.chunks index.blobs) ⟨0, 0, none, init⟩
  if state.observedCount ≠ index.count || state.observedBytes ≠ index.totalBytes then
    lift (throw (.invalid "staged additions do not match index totals"))
  return state.value

end Visitor

abbrev visitBlob (visit : β → StagedAddition → PendingM β) := visitBlobIn (fun p => p) visit

abbrev visitChunk (visit : β → StagedAddition → PendingM β) := visitChunkIn (fun p => p) visit

def foldAdditions (pending : DurablePending) (visit : β → StagedAddition → PendingM β) (init : β) : PendingM β :=
  foldAdditionsIn (fun p => p) visit pending init

def forEachAddition (pending : DurablePending) (visit : StagedAddition → PendingM Unit) : PendingM Unit :=
  foldAdditions pending (fun _ addition => visit addition) ()

/-- The additions of a slot, when all of them can be read. -/
def stagedAdditions (pending : DurablePending) : PendingM (List StagedAddition) :=
  foldAdditions pending (fun additions addition => pure (additions ++ [addition])) []

end

def publicationRank (path : Bytes) : Nat :=
  match classifyPath path with
  | .legacyEvent | .journalRecord => 0
  | .legacyBatch | .journalBatch => 1
  | .invalidReserved | .nonCanonical => 2

/-- A component of an addition, which has no UTF-8 to be checked. -/
def byteComponent (directory : Directory) (bytes : Bytes) : DiskM Name :=
  match Name.parse bytes with
  | none => throw (.invalidLayout directory.display "invalid descriptor-relative path component")
  | some name => pure name

def ensureSyncedBytes (parent : Directory) (bytes : Bytes) : DiskM Directory := do
  let (directory, _) ← parent.ensureDir (← byteComponent parent bytes)
  return directory

def targetParent (path : Bytes) : DiskM (Directory × Name) :=
  match classifyPath path, path.splitOn SLASH with
  | .legacyBatch, [root, file] => do
    if root ≠ asBytes "batches" then throw (.invalidLayout [] "bulk publication path is not canonical")
    return (Store.batchesDir, ← byteComponent Store.batchesDir file)
  | .legacyEvent, [root, entity, file] => do
    if root ≠ asBytes "events" then throw (.invalidLayout [] "bulk publication path is not canonical")
    let entity ← ensureSyncedBytes Store.eventsDir entity
    return (entity, ← byteComponent entity file)
  | .journalBatch, [root, batches, file] => do
    if root ≠ asBytes "journal" || batches ≠ asBytes "batches" then
      throw (.invalidLayout [] "bulk publication path is not canonical")
    return (Store.journalBatchesDir, ← byteComponent Store.journalBatchesDir file)
  | .journalRecord, [root, records, domain, entity, file] => do
    if root ≠ asBytes "journal" || records ≠ asBytes "records" then
      throw (.invalidLayout [] "bulk publication path is not canonical")
    let domain ← ensureSyncedBytes Store.recordsDir domain
    let entity ← ensureSyncedBytes domain entity
    return (entity, ← byteComponent entity file)
  | _, _ => throw (.invalidLayout [] "bulk publication path is not canonical")

def publishAddition (addition : StagedAddition) : DiskM Unit := do
  let (parent, name) ← targetParent addition.path
  linkFdNoClobber addition.bytes parent name addition.bytes

section

variable [Blake3] [ReadDir] [Url]

def publishRank (pending : DurablePending) (rank : Nat) : PendingM Unit :=
  forEachAddition pending fun addition => do
    if publicationRank addition.path = rank then publishAddition addition

/-- Records and events precede the markers of their batches. -/
def publishAdditions (pending : DurablePending) : PendingM Unit := do
  publishRank pending 0
  publishRank pending 1

end

end Wayjournal
