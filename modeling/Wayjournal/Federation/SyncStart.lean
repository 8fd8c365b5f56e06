import Wayjournal.Federation.AdditionSource
import Wayjournal.Federation.History
import Wayjournal.Federation.Multi

namespace Wayjournal

open Crash Fs Text

/-- How a synchronization ends before its last statement: with an outcome or with an error. -/
inductive SyncExit
  | outcome (outcome : GitSyncOutcome)
  | failed (error : GitSyncError)

abbrev SyncM (γ : Type) := Program (World γ) SyncExit

namespace SyncM

variable {γ : Type}

def git (p : GitM γ α) : SyncM γ α := p.mapError fun e => .failed (.git e)
def admission (p : AdmissionM γ α) : SyncM γ α := p.mapError fun e => .failed (.admission e)
def store (p : DiskM α) : SyncM γ α := (onDisk p).mapError fun e => .failed (.store e)
def pending (p : PendingM α) : SyncM γ α := (onDisk p).mapError fun e => .failed (.pendingState e)
def checkpoint (p : CheckpointM α) : SyncM γ α := (onDisk p).mapError fun e => .failed (.checkpoint e)
def quarantine (p : QuarantineM α) : SyncM γ α := (onDisk p).mapError fun e => .failed (.quarantine e)

/-- The outcome or the error a caller gets. -/
def settled (p : SyncM γ GitSyncOutcome) : Program (World γ) GitSyncError GitSyncOutcome := fun world =>
  ⟨(p world).trace,
    match p.result world with
    | .ok outcome => .ok outcome
    | .error (.outcome outcome) => .ok outcome
    | .error (.failed error) => .error error⟩

end SyncM

/-- The identifiers that a call draws. -/
structure Draws where
  operation : GitSyncOperationId
  incident : QuarantineIncidentId
  document : GitSyncPendingPhase → Uuid
  checkpoint : GitSyncPendingPhase → Bool → Uuid

def requireSameStore (candidate current : ValidatedStoreState) : Except GitAdmissionError Unit := do
  let some candidate := candidate.identity | throw .missingIdentity
  let some current := current.identity | throw .missingIdentity
  if candidate.logicalId ≠ current.logicalId then throw .identityMismatch

section

variable [Url] [Blake3]

/-- `PendingDocument::new`, whose parents are sorted by the caller already. -/
def PendingDocument.new (operationId : GitSyncOperationId) (request : GitSyncRequest) (format : GitObjectFormat)
    (originalBase advanceFrom : AdmissionCheckpoint) (localTip remoteTip candidate : GitOid)
    (candidateRevision : StoreRevisionRef) (candidateParents : List GitOid) (predecessor : Option GitSyncOperationId) :
    PendingDocument where
  schema := PENDING_SCHEMA
  operationId := operationId
  phase := .prepared
  logicalStoreId := advanceFrom.logicalStoreId
  localTrustBinding := request.localTrust
  approvedRemote := request.approvedRemote
  objectFormat := format
  originalBaseCommit := originalBase.acceptedCommit
  originalBaseRevision := originalBase.acceptedRevision
  advanceFromCommit := advanceFrom.acceptedCommit
  advanceFromRevision := advanceFrom.acceptedRevision
  observedLocalTip := localTip
  expectedRemoteTip := remoteTip
  candidateCommit := candidate
  candidateRevision := candidateRevision
  candidateParents := Collections.sortDedup candidateParents
  additionsCount := 0
  additionsTotalBytes := 0
  additionsIndexDigest := Blake3.hash []
  predecessorOperationId := predecessor
  staleRemoteOid := none

variable [ReadDir] {γ : Type} [Git γ]

section Candidate

inductive StagingFailure
  | pending (error : PendingError)
  | source (error : GitAdmissionError)

def stagingStep (p : PendingM α) : Program (World γ) StagingFailure α := (onDisk p).mapError .pending

def nextAddition (repository : SyncRepository) (source : TreeAdditionSource) :
    Program (World γ) StagingFailure (Option (Bytes × Bytes) × TreeAdditionSource) :=
  Program.mapError .source do
    let (file, source) ← repository.nextFile source
    return (file.map fun file => (file.path, file.bytes), source)

/-- The additions are staged as they are read; an error of their source is the one that counts, and then that of the
process that reads the blobs. -/
def stageCandidate (repository : SyncRepository) (operation : Directory) (document : PendingDocument)
    (count totalBytes : Nat) (source : TreeAdditionSource) : SyncM γ PendingDocument := do
  let chunks ← Program.attempt
    (stageChunksFrom stagingStep (nextAddition repository) operation count totalBytes source)
  match chunks with
  | .error (.source error) =>
    let _ : Except GitCommandError Unit ← Program.attempt (finishBatch repository.place)
    throw (.failed (.admission error))
  | .error (.pending error) =>
    SyncM.git (finishBatch repository.place)
    throw (.failed (.pendingState error))
  | .ok staged =>
    let last ← Program.attempt (repository.nextFile staged.state.source)
    let more := match last with
      | .ok (file, _) => file.isSome
      | .error _ => false
    let staged ← Program.attempt (onDisk (finishStaging document count totalBytes staged more))
    let finished ← Program.attempt (finishBatch repository.place)
    if let .error error := last then throw (.failed (.admission error))
    if let .error error := finished then throw (.failed (.git error))
    match staged with
    | .error error => throw (.failed (.pendingState error))
    | .ok document => return document

end Candidate

variable [Jiff] (store : Store) (request : GitSyncRequest) (draws : Draws)

/-- A hostile finding ends the synchronization with an incident on the base it started from. -/
def quarantineBase (original : AdmissionCheckpoint) (reason : GitQuarantineReason) (observed : Option GitOid)
    (operation : Option GitSyncOperationId) : SyncM γ α := do
  let incident ← SyncM.quarantine (persist draws.incident original.logicalStoreId request original.acceptedCommit
    original.acceptedRevision reason observed operation)
  throw (.outcome (.quarantined incident.incidentId incident.reason))

def orUnsafe (p : GitM γ α) (hostile : SyncM γ α) : SyncM γ α := do
  match ← Program.attempt p with
  | .ok a => return a
  | .error error => if error.isHostileRepositoryState then hostile else throw (.failed (.git error))

def orHostile (p : AdmissionM γ α) (hostile : GitQuarantineReason → SyncM γ α) : SyncM γ α := do
  match ← Program.attempt p with
  | .ok a => return a
  | .error error =>
    match admissionQuarantineReason error with
    | some reason => hostile reason
    | none => throw (.failed (.admission error))

/-- The repository of the store stands where its files do, and the remote has the approved ref. -/
def inspectStart (original : AdmissionCheckpoint) (current : ValidatedStoreState) : SyncM γ LocalRepository := do
  let localRepository ← orUnsafe (inspectLocal request)
    (quarantineBase request draws original .unsafeRepositoryState none none)
  SyncM.git (requireLocalCommit localRepository.tip)
  let snapshot ← SyncM.admission (treeSnapshot store .layout localRepository.format localRepository.tip)
  SyncM.admission (.ofExcept (requireSameStore snapshot current))
  if snapshot.revision ≠ current.revision then throw (.failed (.admission .candidateRevisionMismatch))
  if (← SyncM.git (observeRemoteRef request localRepository.format)).isNone then
    quarantineBase request draws original .missingApprovedRef none none
  return localRepository

/-- Both histories are valid from the base on. -/
def admitHistories (original : AdmissionCheckpoint) (repository : SyncRepository) (localTip remoteTip : GitOid) :
    SyncM γ Unit := do
  match ← Program.attempt (validateHistories store repository original.acceptedCommit localTip remoteTip) with
  | .ok () => return ()
  | .error (.hostile reason) =>
    quarantineBase request draws original reason (some remoteTip) (some draws.operation)
  | .error (.operational error) => throw (.failed (.admission error))

def chooseCandidate (original : AdmissionCheckpoint) (repository : SyncRepository) (localTip remoteTip : GitOid) :
    SyncM γ GitOid := do
  match ← Program.attempt (selectCandidate repository localTip remoteTip) with
  | .ok candidate => return candidate
  | .error error =>
    if error.operation = "create union tree" then
      quarantineBase request draws original .pathCollision (some remoteTip) (some draws.operation)
    else throw (.failed (.git error))

/-- The candidate, its tree and what it adds, all of it below the operation's directory. -/
def prepareCandidate (original advanceFrom : AdmissionCheckpoint) (current : ValidatedStoreState)
    (localRepository : LocalRepository) (predecessor : Option GitSyncOperationId) (operation : Directory) :
    SyncM γ PendingDocument := do
  let (repository, localTip, remoteTip) ← orUnsafe (createSyncRepository request operation localRepository)
    (quarantineBase request draws original .unsafeRepositoryState none (some draws.operation))
  admitHistories store request draws original repository localTip remoteTip
  let candidate ← chooseCandidate request draws original repository localTip remoteTip
  let snapshot ← orHostile (repository.treeSnapshot store candidate) fun reason =>
    quarantineBase request draws original reason (some remoteTip) (some draws.operation)
  SyncM.admission (.ofExcept (requireSameStore snapshot current))
  let parents ← SyncM.git (repository.commitParents candidate)
  let document := PendingDocument.new draws.operation request localRepository.format original advanceFrom localTip
    remoteTip candidate snapshot.revision parents predecessor
  let diff ← orHostile (repository.spoolTreeAdditions localTip candidate) fun reason =>
    quarantineBase request draws original reason (some remoteTip) (some draws.operation)
  let source ← SyncM.git (repository.treeAdditionSource diff)
  let (count, totalBytes) ← SyncM.admission (repository.totals source)
  let source ← SyncM.git (repository.treeAdditionSource diff)
  let document ← stageCandidate repository operation document count totalBytes source
  SyncM.git (syncRepositoryDurable repository)
  return document

/-- Once the new operation is durable the one it succeeds is retired. -/
def startSyncOperation (original advanceFrom : AdmissionCheckpoint) (current : ValidatedStoreState)
    (predecessor : Option DurablePending) : SyncM γ DurablePending := do
  let some identity := current.identity | throw (.failed (.admission .missingIdentity))
  if identity.logicalId ≠ advanceFrom.logicalStoreId then throw (.failed (.admission .checkpointIdentityMismatch))
  let localRepository ← inspectStart store request draws original current
  let operation ← SyncM.pending (createOperation draws.operation)
  let document ← prepareCandidate store request draws original advanceFrom current localRepository
    (predecessor.map DurablePending.name) operation
  SyncM.pending (publishDocument operation document)
  if let some predecessor := predecessor then SyncM.pending (retireOperation predecessor)
  return ⟨draws.operation, operation, document⟩

end

end Wayjournal
