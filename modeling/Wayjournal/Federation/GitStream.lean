import Wayjournal.Federation.Checkpoint
import Wayjournal.Federation.GitCommand
import Wayjournal.Store.Streaming

namespace Wayjournal

open Collections Crash Fs Text

def MAX_TREE_RECORD_BYTES : Nat := 512
def NEWLINE : UInt8 := 0x0a
def SPACE : UInt8 := 0x20
def TAB : UInt8 := 0x09

inductive GitAdmissionError
  | checkpoint (source : CheckpointError)
  | git (source : GitCommandError)
  | hostileSnapshot (source : GitCommandError)
  | store (source : StoreError)
  | localTrustMismatch
  | unapprovedRemote
  | unapprovedRef
  | missingIdentity
  | identityMismatch
  | candidateRevisionMismatch
  | checkpointIdentityMismatch
  | checkpointObjectFormatMismatch
  | nonCanonicalTrackedPath
  | invalidTreeEntry

def hostileSnapshotError (operation message : String) : GitAdmissionError :=
  .hostileSnapshot (ioFailure operation message)

abbrev AdmissionM (γ : Type) := Program (World γ) GitAdmissionError

instance {γ : Type} : MonadLift (GitM γ) (AdmissionM γ) := ⟨Program.mapError .git⟩

inductive FramingProblem
  | truncated
  | tooLong
  deriving DecidableEq

/-- The delimited records of a stream and how it ends; `record` is what stands before. -/
def splitRecords (delimiter : UInt8) (limit : Nat) : Bytes → Bytes → List Bytes × Option FramingProblem
  | [], record => ([], if record.isEmpty then none else some .truncated)
  | b :: rest, record =>
    if b = delimiter then
      let (records, problem) := splitRecords delimiter limit rest []
      (record :: records, problem)
    else if record.length ≥ limit then ([], some .tooLong)
    else splitRecords delimiter limit rest (record ++ [b])

def nulRecords (stream : Bytes) : List Bytes × Option FramingProblem :=
  splitRecords 0 MAX_TREE_RECORD_BYTES stream []

/-- The end of a stream of tree records. -/
def treeStreamEnd : Option FramingProblem → Except GitAdmissionError Unit
  | none => .ok ()
  | some .truncated => .error (hostileSnapshotError "stream canonical tree" "tree listing ended inside a record")
  | some .tooLong => .error (hostileSnapshotError "stream canonical tree" "tree record exceeds byte limit")

structure TreeListingEntry where
  path : Bytes
  blob : GitOid
  pathClass : PathClass
  deriving DecidableEq

def parseBlobOid (operation : String) (format : GitObjectFormat) (blob : Bytes) : Except GitAdmissionError GitOid := do
  let some text := fromUtf8 blob | throw (hostileSnapshotError operation "blob id is not UTF-8")
  let some oid := GitOid.parse format text | throw (.hostileSnapshot ⟨operation, .reported, .io⟩)
  return oid

/-- The cursor of a tree listing. -/
structure TreeListingCursor where
  entryBudget : CanonicalEntryBudget
  previousPath : Option Bytes

def TreeListingCursor.new : TreeListingCursor := ⟨.new, none⟩

/-- The metadata before the first tabulator and the path after it. -/
def splitTab (record : Bytes) : Option (Bytes × Bytes) :=
  match record.dropWhile (· ≠ TAB) with
  | [] => none
  | _ :: path => some (record.takeWhile (· ≠ TAB), path)

def TreeListingCursor.nextEntry (cursor : TreeListingCursor) (format : GitObjectFormat) (record : Bytes) :
    Except GitAdmissionError (TreeListingEntry × TreeListingCursor) := do
  let some (metadata, path) := splitTab record |
    throw (hostileSnapshotError "parse tree" "tree entry has no path separator")
  let parts := metadata.splitOn SPACE
  if parts.getD 0 [] ≠ asBytes "100644" || parts.getD 1 [] ≠ asBytes "blob" || parts.length > 3 then
    throw .invalidTreeEntry
  if !(classifyPath path).isCanonical then throw .nonCanonicalTrackedPath
  if cursor.previousPath.any (path ≤ ·) then throw .invalidTreeEntry
  let blob ← parseBlobOid "parse tree" format (parts.getD 2 [])
  let some entryBudget := cursor.entryBudget.pushSortedFile path MAX_CANONICAL_ENTRIES |
    throw (hostileSnapshotError "parse tree" "canonical entry-count limit exceeded")
  return (⟨path, blob, classifyPath path⟩, ⟨entryBudget, some path⟩)

/-- The cursor of a tree diff. -/
structure TreeDiffCursor where
  entries : Nat
  previousPath : Option Bytes

def TreeDiffCursor.new : TreeDiffCursor := ⟨0, none⟩

def TreeDiffCursor.nextAddition (cursor : TreeDiffCursor) (format : GitObjectFormat) (metadata path : Bytes) :
    Except GitAdmissionError (TreeListingEntry × TreeDiffCursor) := do
  if cursor.entries ≥ MAX_CANONICAL_ENTRIES then
    throw (hostileSnapshotError "parse tree diff" "canonical entry-count limit exceeded")
  let parts := metadata.splitOn SPACE
  let oldBlob := parts.getD 2 []
  if parts.getD 0 [] ≠ asBytes ":000000" || parts.getD 1 [] ≠ asBytes "100644" || oldBlob.length ≠ format.hexLen
      || oldBlob.any (· ≠ 0x30) || parts.getD 4 [] ≠ asBytes "A" || parts.length > 5 then
    throw .invalidTreeEntry
  if !(classifyPath path).isCanonical then throw .nonCanonicalTrackedPath
  if cursor.previousPath.any (path ≤ ·) then throw .invalidTreeEntry
  let blob ← parseBlobOid "parse tree diff" format (parts.getD 3 [])
  return (⟨path, blob, classifyPath path⟩, ⟨cursor.entries + 1, some path⟩)

/-- Why a response could not be read: it may only be incomplete, or it is not what was asked for. -/
inductive ResponseProblem
  | incomplete (message : String)
  | hostile (message : String)

def HEADER_LIMIT : Nat := 256

/-- A blob length without sign or leading zeros. -/
def parseBlobLength (size : Bytes) : Except ResponseProblem Nat :=
  if size.length > 1 && size.head? = some 0x30 then
    .error (.hostile "cat-file blob length is not canonical decimal")
  else
    match parseDecimal size with
    | none => .error (.hostile "cat-file blob length is not canonical decimal")
    | some length =>
      if length < 2 ^ 64 then .ok length else .error (.hostile "cat-file blob length exceeds usize")

/-- The blob of a response and what follows it. -/
def readCatFileResponse (stream : Bytes) (expected : GitOid) (byteLimit : Nat) :
    Except ResponseProblem (Bytes × Bytes) := do
  let header := stream.takeWhile (· ≠ NEWLINE)
  if header.length > HEADER_LIMIT then throw (.hostile "cat-file response header exceeds byte limit")
  let _ :: stream := stream.drop header.length |
    throw (.incomplete (if header.isEmpty then "cat-file ended before a response header"
      else "cat-file ended inside a response header"))
  let parts := header.splitOn SPACE
  if parts.getD 0 [] ≠ asBytes expected.hex || parts.getD 1 [] ≠ asBytes "blob" || parts.length > 3 then
    throw (.hostile "cat-file response does not match the requested blob")
  let length ← parseBlobLength (parts.getD 2 [])
  if length > byteLimit then throw (.hostile "cat-file blob exceeds byte limit")
  if stream.length < length then throw (.incomplete "cat-file blob ended before its declared length")
  let terminator :: rest := stream.drop length | throw (.incomplete "cat-file blob ended before its terminator")
  if terminator ≠ NEWLINE then throw (.hostile "cat-file blob has an invalid terminator")
  return (stream.take length, rest)

section

variable {γ : Type} [Git γ]

def BLOB_BATCH : String := "read canonical blob batch"

def startBatch (place : GitPlace) : GitM γ Unit := do
  match ← runGit ⟨place, .batchStart⟩ with
  | .failed failure => throw (failure.error "start canonical blob batch")
  | _ => return ()

/-- The reader of the responses waits for more until the process has ended or is out of time. -/
def readBlobResponse (buffer : Bytes) (outcome : GitOutcome) (expected : GitOid) (byteLimit : Nat) :
    Except GitAdmissionError (Bytes × Bytes) :=
  let read := fun stdout incomplete =>
    match readCatFileResponse (buffer ++ stdout) expected byteLimit with
    | .ok response => Except.ok response
    | .error (.hostile message) => .error (hostileSnapshotError BLOB_BATCH message)
    | .error (.incomplete message) => .error (incomplete message)
  match outcome with
  | .failed failure => .error (.git (failure.error BLOB_BATCH))
  | .running stdout => read stdout fun _ => .git (ProcessFailure.timeout.error BLOB_BATCH)
  | .exited code stdout => read stdout fun message =>
    if code = some 0 then hostileSnapshotError BLOB_BATCH message else .git (statusError BLOB_BATCH code)

/-- `buffer` is what the process has written beyond the responses read so far. -/
def readBatchBlob (place : GitPlace) (buffer : Bytes) (expected : GitOid) (byteLimit : Nat) :
    AdmissionM γ (Bytes × Bytes) := do
  let outcome ← runGit ⟨place, .batchRequest expected⟩
  .ofExcept (readBlobResponse buffer outcome expected byteLimit)

def finishBatch (place : GitPlace) : GitM γ Unit := do
  match ← runGit ⟨place, .batchEnd⟩ with
  | .failed failure => throw (failure.error "finish canonical blob batch")
  | .running _ => throw (ProcessFailure.timeout.error "finish canonical blob batch")
  | .exited code _ => if code ≠ some 0 then throw ⟨"finish canonical blob batch", .reported, .nonZeroExit⟩

/-- A command whose output beyond the limit is hostile. -/
def runSnapshotCommandToFile (operation : String) (command : GitCommand) (limit : Nat) : AdmissionM γ Bytes :=
  Program.mapError (fun error => if error.kind = .stdoutLimit then .hostileSnapshot error else .git error)
    (outputToFile operation command limit)

/-- The blob of an entry within the limit of its class. -/
def readEntry (place : GitPlace) (buffer : Bytes) (entry : TreeListingEntry) : AdmissionM γ (RawFile × Bytes) := do
  let some byteLimit := canonicalFileLimit entry.pathClass | throw .nonCanonicalTrackedPath
  let (bytes, buffer) ← readBatchBlob place buffer entry.blob byteLimit
  return (⟨entry.path, bytes⟩, buffer)

/-- The loop variables of `scan_streamed_tree`; `used` is what the replay has written. -/
structure TreeScan where
  cursor : TreeListingCursor
  buffer : Bytes
  totalBytes : Nat
  builder : CanonicalReplayBuilder
  used : Nat

def TreeScan.new : TreeScan := ⟨.new, [], 0, replayBuilder, 0⟩

def scanTreeRecord (place : GitPlace) (format : GitObjectFormat) (scan : TreeScan) (record : Bytes) :
    AdmissionM γ TreeScan := do
  let (entry, cursor) ← .ofExcept (scan.cursor.nextEntry format record)
  let (file, buffer) ← readEntry place scan.buffer entry
  if scan.totalBytes + file.bytes.length > MAX_TOTAL_CANONICAL_BYTES then
    throw (hostileSnapshotError "read streamed canonical tree" "canonical aggregate byte limit exceeded")
  let (builder, used) ← .ofExcept (((scan.builder.push file).run scan.used).mapError .store)
  return ⟨cursor, buffer, scan.totalBytes + file.bytes.length, builder, used⟩

variable [Jiff] [Blake3]

def finishTreeScan (store : Store) (scan : TreeScan) : Except GitAdmissionError ValidatedStoreState :=
  (StateT.run' (do validateBoundedReplay store (← scan.builder.finish)) scan.used).mapError .store

/-- `tree_snapshot_streaming` and `local_tree_snapshot_streaming`. -/
def treeSnapshot (store : Store) (place : GitPlace) (format : GitObjectFormat) (oid : GitOid) :
    AdmissionM γ ValidatedStoreState := do
  if oid.format ≠ format then throw .checkpointObjectFormatMismatch
  let listing ← runSnapshotCommandToFile "spool canonical tree listing" ⟨place, .listTree oid⟩ MAX_TREE_OUTPUT
  (startBatch place : GitM γ Unit)
  let (records, problem) := nulRecords listing
  let scan ← records.foldlM (scanTreeRecord place format) .new
  .ofExcept (treeStreamEnd problem)
  (finishBatch place : GitM γ Unit)
  .ofExcept (finishTreeScan store scan)

end

end Wayjournal
