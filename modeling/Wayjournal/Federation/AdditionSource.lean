import Wayjournal.Federation.RepositoryTransfer

namespace Wayjournal

open Crash Fs Text

def ENUMERATE : String := "enumerate candidate additions"
def COUNT_ADDITIONS : String := "count candidate additions"

/-- `TreeAdditionSource`: the records of the diff that are still to come, and what the blob process has written beyond
the blobs read so far. -/
structure TreeAdditionSource where
  records : List Bytes
  problem : Option FramingProblem
  cursor : TreeDiffCursor
  buffer : Bytes

def TreeAdditionSource.new (diff : Bytes) : TreeAdditionSource := ⟨(nulRecords diff).1, (nulRecords diff).2, .new, []⟩

namespace SyncRepository

variable {γ : Type} [Git γ] (repository : SyncRepository)

/-- `spool_tree_additions`: the spooled diff. -/
def spoolTreeAdditions (base candidate : GitOid) : AdmissionM γ Bytes := do
  if base.format ≠ repository.format || candidate.format ≠ repository.format then
    throw (.git (ioFailure ENUMERATE "tree diff object format does not match repository"))
  runSnapshotCommandToFile ENUMERATE ⟨repository.place, .diffRaw base candidate⟩ MAX_TREE_DIFF_OUTPUT

def treeAdditionSource (diff : Bytes) : GitM γ TreeAdditionSource := do
  startBatch repository.place
  return .new diff

def nextFile (source : TreeAdditionSource) : AdmissionM γ (Option RawFile × TreeAdditionSource) :=
  match source.records with
  | [] => do
    .ofExcept (treeStreamEnd source.problem)
    return (none, source)
  | [_] => do
    .ofExcept (treeStreamEnd source.problem)
    throw (hostileSnapshotError "parse tree diff" "tree diff ended before an addition path")
  | metadata :: path :: records => do
    let (entry, cursor) ← .ofExcept (source.cursor.nextAddition repository.format metadata path)
    let (file, buffer) ← readEntry repository.place source.buffer entry
    return (some file, { source with records, cursor, buffer })

/-- The loop of `totals`; every round takes a pair of records. -/
def totalsFrom : Nat → TreeAdditionSource → Nat → Nat → AdmissionM γ (Nat × Nat)
  | 0, _, count, totalBytes => return (count, totalBytes)
  | rounds + 1, source, count, totalBytes => do
    let (some file, source) ← repository.nextFile source | return (count, totalBytes)
    if totalBytes + file.bytes.length > MAX_TOTAL_CANONICAL_BYTES then
      throw (hostileSnapshotError COUNT_ADDITIONS "addition bytes exceed the canonical store limit")
    totalsFrom rounds source (count + 1) (totalBytes + file.bytes.length)

def totals (source : TreeAdditionSource) : AdmissionM γ (Nat × Nat) := do
  let totals ← repository.totalsFrom (source.records.length + 1) source 0 0
  (finishBatch repository.place : GitM γ Unit)
  return totals

end SyncRepository

section Staging

variable [Blake3] [ReadDir] [Url] {σ ε ρ : Type}

/-- The loop variables of `stage_known_additions` over a stream that is read as it goes. -/
structure SourceStaging (ρ : Type) where
  source : ρ
  observedCount : Nat
  observedBytes : Nat
  previousPath : Option Bytes
  metadata : List AdditionEntry
  index : List IndexEntry

variable (lift : {α : Type} → PendingM α → Program σ ε α) (next : ρ → Program σ ε (Option (Bytes × Bytes) × ρ))

def stageBlobFrom (blobChunk : Directory) (chunkNumber : Nat) (state : SourceStaging ρ) (position : Nat) :
    Program σ ε (SourceStaging ρ) := do
  let (some (path, bytes), source) ← next state.source |
    lift (throw (.invalid "addition stream ended before its declared count"))
  if state.previousPath.any (fun previous => path ≤ previous) then
    lift (throw (.invalid "addition stream is not globally ordered"))
  lift (writeNew blobChunk (ordinalBlob (chunkNumber * ADDITIONS_PER_CHUNK + position)) bytes)
  return { state with
    source := source
    observedCount := state.observedCount + 1
    observedBytes := state.observedBytes + bytes.length
    previousPath := some path
    metadata := state.metadata ++ [⟨path, bytes.length, Blake3.hash bytes⟩] }

def stageChunkFrom (additionCount : Nat) (chunksDir blobsDir : Directory) (state : SourceStaging ρ) (chunkNumber : Nat) :
    Program σ ε (SourceStaging ρ) := do
  let (blobChunk, created) ← lift (blobsDir.ensureDir (chunkDir chunkNumber))
  if !created then lift (throw (.invalid "blob chunk already exists"))
  let groupCount := min (additionCount - state.observedCount) ADDITIONS_PER_CHUNK
  let state ← (List.range groupCount).foldlM (stageBlobFrom lift next blobChunk chunkNumber) { state with metadata := [] }
  let encoded ← lift (.ofExcept (encodeChunk chunkNumber state.metadata))
  lift (writeNew chunksDir (chunkBin chunkNumber) encoded)
  return { state with
    index := state.index ++ [⟨chunkNumber, state.metadata.length, encoded.length, Blake3.hash encoded⟩] }

/-- What `stage_known_additions` has read and written before it asks whether the stream has ended. -/
structure StagedChunks (ρ : Type) where
  additionsDir : Directory
  state : SourceStaging ρ

def stageChunksFrom (operation : Directory) (additionCount totalBytes : Nat) (additions : ρ) :
    Program σ ε (StagedChunks ρ) := do
  lift (.ofExcept (validateAdditionTotals additionCount totalBytes))
  let (additionsDir, created) ← lift (operation.ensureDir .additions)
  if !created then lift (throw (.invalid "additions directory already exists"))
  let (chunksDir, _) ← lift (additionsDir.ensureDir .chunks)
  let (blobsDir, _) ← lift (additionsDir.ensureDir .blobs)
  let chunks ← lift (.ofExcept (chunkCount additionCount))
  let state ← (List.range chunks).foldlM (stageChunkFrom lift next additionCount chunksDir blobsDir)
    ⟨additions, 0, 0, none, [], []⟩
  return ⟨additionsDir, state⟩

end Staging

section

variable [Blake3] [Url] {ρ : Type}

/-- The rest of `stage_known_additions`; `more` is whether the stream has not ended. -/
def finishStaging (document : PendingDocument) (additionCount totalBytes : Nat) (staged : StagedChunks ρ) (more : Bool) :
    PendingM PendingDocument := do
  if more || staged.state.observedCount ≠ additionCount || staged.state.observedBytes ≠ totalBytes then
    throw (.invalid "addition stream does not match its declared totals")
  let index ← .ofExcept (encodeIndex additionCount totalBytes staged.state.index)
  writeNew staged.additionsDir .indexBin index
  let count ← .ofExcept (u64 additionCount "addition count exceeds u64")
  let total ← .ofExcept (u64 totalBytes "addition byte count exceeds u64")
  return { document with
    additionsCount := count
    additionsTotalBytes := total
    additionsIndexDigest := Blake3.hash index }

end

end Wayjournal
