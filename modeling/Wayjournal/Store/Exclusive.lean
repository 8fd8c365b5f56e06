import Wayjournal.Collections.BinarySearch
import Wayjournal.Crash.Fault
import Wayjournal.Store.Transaction

namespace Wayjournal

open Collections Crash Fs Text

inductive ExclusiveOperationError
  | recoveryRequired
  | stateInvalidated
  | pendingCleanupRequired
  | invalidRecoveryObservation
  | store (source : StoreError)

structure ObservedTransactionRecovery where
  journals : List BatchId
  stages : List BatchId
  union : List BatchId
  deriving DecidableEq

structure ExclusiveRecoveryObservation where
  journalBatchIds : List BatchId
  stageBatchIds : List BatchId
  batchIds : List BatchId
  gitCleanupRequired : Bool
  deriving DecidableEq

section

variable [ReadDir]

def stageId (name : Name) : DiskM BatchId := do
  let some text := fromUtf8 name.bytes |
    throw (.invalidJournal Store.stagesDir.display (.text "stage name is not UTF-8"))
  if (← Store.stagesDir.kind name) ≠ .directory then
    throw (.invalidJournal (Store.stagesDir.join name) (.text "stage is not a directory"))
  let .ok batchId := (FromStr.fromStr text : Except _ BatchId) |
    throw (.invalidJournal Store.stagesDir.display (.text "stage name is not canonical UUIDv7"))
  return batchId

def listedStages : DiskM (List BatchId) := do
  let names ← Store.stagesDir.boundedNames MAX_LOCAL_ENTRIES
  let ids ← names.mapM stageId
  let ids := ids.insertionSort (· ≤ ·)
  if !ascending ids then
    throw (.invalidJournal Store.stagesDir.display (.text "duplicate stage batch id"))
  return ids

def observeTransactionRecovery : DiskM ObservedTransactionRecovery := do
  let journals ← listedJournals
  let stages ← listedStages
  if journals.any (fun batchId => !binarySearch stages batchId) then
    throw (.invalidJournal Store.recoveryDir.display
      (.text "recovery journal has no matching stage directory"))
  return ⟨journals, stages, dedupAdjacent ((stages ++ journals).insertionSort (· ≤ ·))⟩

end

def sanitizeRecoveryObservationError : StoreError → ExclusiveOperationError
  | .gitSyncPending operationId phase => .store (.gitSyncPending operationId phase)
  | .conflictingRecoveryState => .store .conflictingRecoveryState
  | _ => .invalidRecoveryObservation

variable [Jiff]

/-- An operation that holds the lock of its store, and the disk below the store. -/
structure ExclusiveStoreOperation where
  disk : Disk
  snapshot : Option StoreSnapshot
  recovered : Bool
  invalidated : Bool

abbrev OperationM := Program ExclusiveStoreOperation ExclusiveOperationError

/-- Which of the disk programs of a call meet a failing call of the system. -/
abbrev Faults := Nat → Option (Fault Disk StoreError)

namespace ExclusiveStoreOperation

/-- `begin_exclusive_operation`, once the locks are held. -/
def beginOn (disk : Disk) : ExclusiveStoreOperation := ⟨disk, none, false, false⟩

def withDisk (disk : Disk) (op : ExclusiveStoreOperation) : ExclusiveStoreOperation := { op with disk }

def onDiskMapping {α : Type} (f : StoreError → ExclusiveOperationError) (fault : Option (Fault Disk StoreError))
    (p : DiskM α) : OperationM α :=
  ((p.under fault).mapError f).zoom disk withDisk

def onDisk {α : Type} (fault : Option (Fault Disk StoreError)) (p : DiskM α) : OperationM α :=
  onDiskMapping .store fault p

def stateError (op : ExclusiveStoreOperation) : ExclusiveOperationError :=
  if op.invalidated then .stateInvalidated else .recoveryRequired

def requireRecovered : OperationM Unit := .reads fun op =>
  if op.recovered then .ok () else .error op.stateError

/-- `self.snapshot.as_ref().ok_or_else(|| self.state_error())`. -/
def ownedSnapshot : OperationM StoreSnapshot := .reads fun op =>
  match op.snapshot with
  | some snapshot => .ok snapshot
  | none => .error op.stateError

def setSnapshot (snapshot : Option StoreSnapshot) : OperationM Unit := .update fun op => .ok { op with snapshot }

def invalidate : OperationM Unit := .update fun op =>
  .ok { op with snapshot := none, recovered := false, invalidated := true }

/-- `p`, after whose error the operation has to be recovered again. -/
def orInvalidate {α : Type} (p : OperationM α) : OperationM α := p.tryCatch fun error => do
  invalidate
  throw error

def snapshotLocked : OperationM StoreSnapshot := do
  requireRecovered
  ownedSnapshot

variable [Blake3] [ReadDir] [Url]

def observeRecoveryLocked (faults : Faults) : OperationM ExclusiveRecoveryObservation := do
  .reads fun op => if op.invalidated then .error op.stateError else .ok ()
  let gate ← onDiskMapping sanitizeRecoveryObservationError (faults 0) gateWithoutGit
  let observed ← onDiskMapping (fun _ => .invalidRecoveryObservation) (faults 1) observeTransactionRecovery
  return ⟨observed.journals, observed.stages, observed.union, gate = .cleanDisposable⟩

def recoverLocked (store : Store) (faults : Faults) : OperationM Unit := do
  .update fun op => .ok { op with snapshot := none, recovered := false, invalidated := false }
  onDisk (faults 0) (recoverWithoutSnapshot store)
  let snapshot ← onDisk (faults 1) (.reads (scanVisible store))
  .update fun op => .ok { op with snapshot := some snapshot, recovered := true }

/-- `require_pending_allow`. -/
def requireAllow (fault : Option (Fault Disk StoreError)) : OperationM Unit := do
  if (← onDisk fault gateWithoutGit) = .cleanDisposable then throw .pendingCleanupRequired

def previewAppendLocked (store : Store) (faults : Faults) (prepared : PreparedBatch)
    (expected : StoreRevisionRef) : OperationM AppendPreview := do
  requireRecovered
  requireAllow (faults 0)
  let snapshot ← ownedSnapshot
  onDisk (faults 1) (.reads (previewFromSnapshot store snapshot prepared expected))

/-- The writes of an append and the scan after them. -/
def publish (store : Store) (prepared : PreparedBatch) (expected : StoreRevisionRef) :
    DiskM (CommitOutcome × StoreSnapshot) := do
  stageBatch prepared expected
  recoverOne store prepared.manifest.batchId
  let committed ← .reads (scanVisible store)
  return (.published prepared.manifest.batchId committed.revision, committed)

def appendLocked (store : Store) (faults : Faults) (prepared : PreparedBatch)
    (expected : StoreRevisionRef) : OperationM (CommitOutcome × StoreSnapshot) := do
  requireRecovered
  match ← orInvalidate (previewAppendLocked store faults prepared expected) with
  | .replay batchId revision => return (.replay batchId revision, ← ownedSnapshot)
  | .publish _ =>
    orInvalidate (requireAllow (faults 2))
    setSnapshot none
    let (outcome, snapshot) ← orInvalidate (onDisk (faults 3) (publish store prepared expected))
    setSnapshot (some snapshot)
    return (outcome, ← ownedSnapshot)

/-- The calls an operation takes. -/
inductive Call
  | observeRecovery
  | recover
  | snapshot
  | previewAppend (prepared : PreparedBatch) (expected : StoreRevisionRef)
  | append (prepared : PreparedBatch) (expected : StoreRevisionRef)

def Call.perform (store : Store) (faults : Faults) : Call → OperationM Unit
  | .observeRecovery => do let _ ← observeRecoveryLocked faults
  | .recover => recoverLocked store faults
  | .snapshot => do let _ ← snapshotLocked
  | .previewAppend prepared expected => do let _ ← previewAppendLocked store faults prepared expected
  | .append prepared expected => do let _ ← appendLocked store faults prepared expected

/-- Sequences of calls, each with some faults, of which `allowed` holds. -/
def Runs (store : Store) (allowed : Call → Except ExclusiveOperationError Unit → Prop) :
    ExclusiveStoreOperation → ExclusiveStoreOperation → Prop :=
  Relation.ReflTransGen fun op op' => ∃ (call : Call) (faults : Faults),
    allowed call ((call.perform store faults).result op) ∧ op' = (call.perform store faults).final op

end ExclusiveStoreOperation

end Wayjournal
