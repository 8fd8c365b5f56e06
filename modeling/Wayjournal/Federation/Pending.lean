import Wayjournal.Federation.Additions
import Wayjournal.Store.Directory

namespace Wayjournal

open Crash Fs Text

abbrev PendingM := Program Disk PendingError

instance : MonadLift DiskM PendingM := ⟨Program.mapError .store⟩

namespace Name

def additions : Name := ⟨asBytes "additions", by decide⟩
def blobs : Name := ⟨asBytes "blobs", by decide⟩
def chunks : Name := ⟨asBytes "chunks", by decide⟩
def indexBin : Name := ⟨asBytes "index.bin", by decide⟩
def pendingJson : Name := ⟨asBytes "pending.json", by decide⟩
def repoGit : Name := ⟨asBytes "repo.git", by decide⟩

end Name

def LocalId.name {k : LocalIdKind} (id : LocalId k) : Name := uuidName id.uuid

structure DurablePending [Url] where
  name : GitSyncOperationId
  directory : Directory
  document : PendingDocument

structure PendingDiscovery [Url] where
  active : Option DurablePending
  disposable : List (GitSyncOperationId × Directory)
  predecessor : Option DurablePending

inductive GateAction
  | allow
  | cleanDisposable
  deriving DecidableEq

def CLEANUP_BATCH : Nat := 4096
def MAX_PENDING_REPO_FS_ENTRIES : Nat := 7100000

def maximumCleanupEntries : Nat :=
  MAX_PENDING_REPO_FS_ENTRIES + MAX_BULK_ADDITIONS + MAX_ADDITION_CHUNKS * 3 + 64

def PendingError.message : PendingError → String
  | .store _ => "pending store I/O failed"
  | .invalid message => "pending synchronization state is invalid: " ++ message
  | .malformed => "pending synchronization state is invalid"
  | .oversized => "pending synchronization root exceeds 64 KiB"

def mapPendingError : PendingError → StoreError
  | .store error => error
  | other => .invalidGitSyncState other.message

def createOperation (operationId : GitSyncOperationId) : PendingM Directory := do
  let (operation, created) ← Store.syncPendingDir.ensureDir operationId.name
  if !created then throw (.invalid "operation id collided")
  return operation

def writeNew (directory : Directory) (name : Name) (bytes : Bytes) : PendingM Unit := do
  directory.createFile name
  directory.writeAll name bytes

section Cleanup

variable [ReadDir]

def cleanupCountError : StoreError :=
  .invalidGitSyncState "disposable pending residue exceeds cleanup count"

/-- One entry of a batch; `descend` empties a directory. -/
def removeEntry (descend : Directory → Nat → DiskM Nat) (directory : Directory) (budget : Nat)
    (name : Name) : DiskM Nat := do
  if budget = 0 then throw cleanupCountError
  let budget := budget - 1
  if (← directory.kind name) = .directory then
    let child ← directory.openDir name
    let budget ← descend child budget
    if !(← directory.entryIs name child) then
      throw (.invalidGitSyncState "disposable pending child binding was replaced")
    directory.unlinkDir name
    return budget
  else
    directory.unlinkFile name
    return budget

/-- The loop over batches. Each round but the last takes from the budget, so as
many rounds as the budget allows are enough. -/
def removeBatches (descend : Directory → Nat → DiskM Nat) (directory : Directory) :
    Nat → Nat → DiskM Nat
  | 0, _ => throw cleanupCountError
  | rounds + 1, budget => do
    if min budget CLEANUP_BATCH = 0 then throw cleanupCountError
    let names ← directory.nameBatch (min budget CLEANUP_BATCH)
    if names.isEmpty then return budget
    let budget ← names.foldlM (removeEntry descend directory) budget
    removeBatches descend directory rounds budget

/-- `levels` is one more than the depth that may still be entered. -/
def removeContents : Nat → Directory → Nat → DiskM Nat
  | 0, _, _ => throw (.invalidGitSyncState "disposable pending residue exceeds cleanup depth")
  | levels + 1, directory, budget =>
    removeBatches (removeContents levels) directory (budget + 1) budget

def CLEANUP_LEVELS : Nat := 65

/-- The cleanup of a whole slot, or false when its name stands for another
directory by then. -/
def removeSlot (name : GitSyncOperationId) (directory : Directory) : DiskM Bool := do
  let _ ← removeContents CLEANUP_LEVELS directory maximumCleanupEntries
  if !(← Store.syncPendingDir.entryIs name.name directory) then return false
  Store.syncPendingDir.unlinkDir name.name
  return true

end Cleanup

section

variable [Url] [ReadDir]

def publishDocument (operation : Directory) (document : PendingDocument) : PendingM Unit := do
  let bytes ← .ofExcept (encodeDocument document)
  writeNew operation .pendingJson bytes

/-- The document is replaced through a temporary file of the given name. -/
def replaceDocument (pending : DurablePending) (document : PendingDocument) (temporary : Uuid) :
    PendingM DurablePending := do
  let bytes ← .ofExcept (encodeDocument document)
  writeNew pending.directory (temporaryName temporary) bytes
  pending.directory.renameFile (temporaryName temporary) .pendingJson
  let file ← pending.directory.openFile .pendingJson
  let current ← .ofExcept ((readFileBounded file MAX_PENDING_ROOT_BYTES
    (pending.directory.join .pendingJson)).mapError PendingError.store)
  if current ≠ bytes then throw (.invalid "pending phase replacement mismatch")
  return { pending with document := document }

def retireOperation (pending : DurablePending) : PendingM Unit := do
  if !(← removeSlot pending.name pending.directory) then
    throw (.invalid "pending operation binding was replaced")

/-- What the loop over the slots has found. -/
abbrev Slots := List DurablePending × List (GitSyncOperationId × Directory)

/-- The content of the document of a slot, if it has one. -/
def openDocument (directory : Directory) : PendingM (Option Bytes) := .reads fun disk =>
  match directory.child? .pendingJson disk with
  | none => .ok none
  | some (.regular bytes) => .ok (some bytes)
  | some _ => .error (.store (.invalidLayout (directory.join .pendingJson)
      "path is not an ordinary regular file"))

def discoverSlot (slots : Slots) (rawName : Name) : PendingM Slots := do
  let some text := fromUtf8 rawName.bytes | throw (.invalid "operation name is not UTF-8")
  let name ← .ofExcept ((LocalId.parse .operation text).mapError .invalid)
  if (← Store.syncPendingDir.kind rawName) ≠ .directory then
    throw (.invalid "operation entry is not a directory")
  let directory ← Store.syncPendingDir.openDir rawName
  let some bytes ← openDocument directory | return (slots.1, slots.2 ++ [(name, directory)])
  if bytes.length > MAX_PENDING_ROOT_BYTES then throw .oversized
  let document ← .ofExcept (decodeDocument bytes)
  if document.operationId ≠ name then throw (.invalid "operation directory and document differ")
  return (slots.1 ++ [⟨name, directory, document⟩], slots.2)

/-- The eleven conditions on a stale operation and its successor. -/
def boundSuccession (successor predecessor : PendingDocument) : Bool :=
  predecessor.phase = .remoteCasStale &&
  successor.originalBaseCommit = predecessor.originalBaseCommit &&
  successor.originalBaseRevision = predecessor.originalBaseRevision &&
  successor.logicalStoreId = predecessor.logicalStoreId &&
  successor.localTrustBinding = predecessor.localTrustBinding &&
  successor.approvedRemote = predecessor.approvedRemote &&
  successor.objectFormat = predecessor.objectFormat &&
  successor.advanceFromCommit = predecessor.candidateCommit &&
  successor.advanceFromRevision = predecessor.candidateRevision &&
  successor.observedLocalTip = predecessor.candidateCommit &&
  some successor.expectedRemoteTip = predecessor.staleRemoteOid

def bindSuccession (successor predecessor : DurablePending) :
    Except PendingError (Option DurablePending × Option DurablePending) :=
  if boundSuccession successor.document predecessor.document then .ok (some successor, some predecessor)
  else .error (.invalid "two pending slots are not a fully bound stale succession")

/-- The active operation and its predecessor among the durable slots. -/
def linkSlots : List DurablePending →
    Except PendingError (Option DurablePending × Option DurablePending)
  | [] => .ok (none, none)
  | [only] => .ok (some only, none)
  | [left, right] =>
    if left.document.predecessorOperationId = some right.name then bindSuccession left right
    else if right.document.predecessorOperationId = some left.name then bindSuccession right left
    else .error (.invalid "two pending slots have no unique predecessor linkage")
  | _ => .error (.invalid "more than two pending operation slots")

def discover : PendingM PendingDiscovery := do
  let names ← Store.syncPendingDir.boundedNames 2
  let (durable, disposable) ← names.foldlM discoverSlot ([], [])
  if durable.length > 2 || durable.length + disposable.length > 2 then
    throw (.invalid "more than two pending operation slots")
  let (active, predecessor) ← .ofExcept (linkSlots durable)
  return ⟨active, disposable, predecessor⟩

def hasTransactionResidue : DiskM Bool := .reads fun disk =>
  if (Store.recoveryDir.names disk).length > MAX_CANONICAL_ENTRIES then
    .error (.invalidLayout Store.recoveryDir.display "directory exceeds entry-count limit")
  else if !(Store.recoveryDir.names disk).isEmpty then .ok true
  else if (Store.stagesDir.names disk).length > MAX_CANONICAL_ENTRIES then
    .error (.invalidLayout Store.stagesDir.display "directory exceeds entry-count limit")
  else .ok (!(Store.stagesDir.names disk).isEmpty)

def gateWithoutGit : DiskM GateAction := do
  let discovery ← discover.mapError mapPendingError
  if let some active := discovery.active then
    if ← hasTransactionResidue then throw .conflictingRecoveryState
    throw (.gitSyncPending active.name active.document.phase)
  if discovery.predecessor.isSome then
    throw (.invalidGitSyncState "pending predecessor exists without an active successor")
  return if discovery.disposable.isEmpty then .allow else .cleanDisposable

def retireNamedDisposable (disposable : List (GitSyncOperationId × Directory))
    (expected : Option GitSyncOperationId) : PendingM Unit :=
  disposable.forM fun (name, directory) => do
    if expected.isSome && some name ≠ expected then
      throw (.invalid "disposable pending slot is not the active successor's predecessor")
    if !(← removeSlot name directory) then throw (.invalid "disposable predecessor binding changed")

def cleanDisposableLocked : DiskM Unit := do
  let discovery ← discover.mapError mapPendingError
  if let some active := discovery.active then
    throw (.gitSyncPending active.name active.document.phase)
  discovery.disposable.forM fun (name, directory) => do
    if !(← removeSlot name directory) then
      throw (.invalidGitSyncState "disposable pending binding was replaced")

def requireExactNames (directory : Directory) (expected : List Name) : PendingM Unit := do
  if (← directory.boundedNames (expected.length + 1)) ≠ expected.insertionSort (· ≤ ·) then
    throw (.invalid "unexpected entry in closed pending layout")

/-- The identifier of a temporary document, by its name. -/
def temporaryId (name : Name) : Except PendingError Uuid := do
  let some text := fromUtf8 name.bytes | throw (.invalid "non-UTF-8 pending residue")
  let some suffix := text.toList.dropPrefix? ".pending.tmp-".toList |
    throw (.invalid "unexpected pending operation entry")
  let some id := Uuid.parseStr (String.ofList suffix) | throw (.invalid "invalid pending temporary")
  return id

def removeTemporary (directory : Directory) (name : Name) : PendingM Unit := do
  if name = .additions || name = .pendingJson || name = .repoGit then return ()
  let id ← .ofExcept (temporaryId name)
  if id.versionNum ≠ 7 || !id.isRfc4122 then throw (.invalid "invalid pending temporary")
  if (← directory.kind name) ≠ .regularFile then throw (.invalid "invalid pending temporary")
  directory.unlinkFile name

def requireDirectory (directory : Directory) (name : Name) (label : String) : PendingM Unit := do
  if (← directory.kind name) ≠ .directory then throw (.invalid (label ++ " is not a directory"))

def validateClosedLayout (pending : DurablePending) : PendingM Unit := do
  let names ← pending.directory.boundedNames 4
  names.forM (removeTemporary pending.directory)
  requireExactNames pending.directory [.additions, .pendingJson, .repoGit]
  requireDirectory pending.directory .additions "additions"
  requireDirectory pending.directory .repoGit "repo.git"

end

end Wayjournal
