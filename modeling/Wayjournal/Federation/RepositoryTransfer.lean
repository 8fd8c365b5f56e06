import Wayjournal.Federation.LocalRepository

namespace Wayjournal

open Crash Fs Text

def INVENTORY : String := "inventory fetched objects"

def inventoryStreamEnd : FramingProblem → GitCommandError
  | .truncated => ioFailure INVENTORY "reachable object inventory ended inside a record"
  | .tooLong => ioFailure INVENTORY "reachable object inventory record exceeds byte limit"

def countReachableInventory (output : Bytes) (limit : Nat) : Except GitCommandError Nat :=
  match splitRecords NEWLINE MAX_TREE_RECORD_BYTES output [] with
  | (records, problem) =>
    if records.length > limit then .error (ioFailure INVENTORY "reachable object count exceeds bound")
    else
      match problem with
      | none => .ok records.length
      | some problem => .error (inventoryStreamEnd problem)

def LOCAL_REF : String := "refs/wayjournal/local"
def REMOTE_REF : String := "refs/wayjournal/remote"

def COMPACT : String := "compact reachable synchronization objects"

section

variable {γ : Type}

def onFiles (p : RepositoryM α) : GitM γ α := onDisk p

/-- A directory that is not there yet. -/
def createDirectory (operation message : String) (parent : Directory) (name : Name) : GitM γ Directory := do
  let (directory, created) ← onFiles (reported operation (parent.ensureDir name))
  if !created then throw (ioFailure operation message)
  return directory

variable [Git γ] [Url] [ReadDir]

def verifyReachableObjects (repository : SyncRepository) : GitM γ Unit := do
  let localTip ← repository.refOid LOCAL_REF
  let remoteTip ← repository.refOid REMOTE_REF
  let _ ← gitOutput "validate fetched object graph" repository.place (.fsck localTip remoteTip)
  let objects ← outputToFile INVENTORY ⟨repository.place, .revListObjects⟩ MAX_TREE_OUTPUT
  let _ ← .ofExcept (countReachableInventory objects MAX_PENDING_REPO_OBJECTS)

/-- What the network controls lands in a repository that is thrown away. -/
def fetchDisposable (request : GitSyncRequest) (attempt : Directory) (format : GitObjectFormat) :
    GitM γ (SyncRepository × GitOid × GitOid) := do
  let fetched ← createDirectory "create disposable fetched repository" "fetched repository already exists" attempt .repoGit
  onFiles (initializeBareRepository fetched format)
  let reference := request.approvedRemote.reference.asStr
  let _ ← gitOutput "fetch local synchronization tip" (.bare fetched)
    (.fetch (.repository .layout) ("+" ++ reference ++ ":" ++ LOCAL_REF))
  let _ ← gitOutput "fetch remote synchronization tip" (.bare fetched)
    (.fetch (.remote request.approvedRemote.locator.asStr) ("+" ++ reference ++ ":" ++ REMOTE_REF))
  onFiles (auditRepositoryMetadata fetched)
  onFiles (auditRepositoryPhysicalBounds fetched)
  let repository : SyncRepository := ⟨fetched, format⟩
  let localTip ← repository.refOid LOCAL_REF
  let remoteTip ← repository.refOid REMOTE_REF
  verifyReachableObjects repository
  return (repository, localTip, remoteTip)

/-- The second tip is only read where the first one is the same. -/
def hasTips (repository : SyncRepository) (localTip remoteTip : GitOid) : GitM γ Bool := do
  if (← repository.refOid LOCAL_REF) ≠ localTip then return false
  return (← repository.refOid REMOTE_REF) = remoteTip

/-- The durable repository has what is reachable from the two tips, and they are still the same. -/
def compactRepository (operation : Directory) (fetched : SyncRepository) (localTip remoteTip : GitOid) :
    GitM γ SyncRepository := do
  let bare ← createDirectory "create compact synchronization repository"
    "compact synchronization repository already exists" operation .repoGit
  onFiles (initializeBareRepository bare fetched.format)
  [LOCAL_REF, REMOTE_REF].forM fun reference => do
    let _ ← gitOutput COMPACT (.bare bare)
      (.fetch (.repository fetched.place) ("+" ++ reference ++ ":" ++ reference))
  let _ ← gitOutput "bind synchronization HEAD" (.bare bare) (.updateRef "refs/heads/wayjournal" LOCAL_REF)
  let repository : SyncRepository := ⟨bare, fetched.format⟩
  if !(← hasTips repository localTip remoteTip) then throw (ioFailure COMPACT "compacted authority refs changed")
  verifyReachableObjects repository
  onFiles (auditRepositoryPhysicalBounds bare)
  onFiles (syncDirectoryTree bare)
  return repository

def createSyncRepository (request : GitSyncRequest) (operation : Directory) (localRepository : LocalRepository) :
    GitM γ (SyncRepository × GitOid × GitOid) := do
  let attempt ← createDirectory "create disposable synchronization attempt" "synchronization attempt already exists"
    operation .transferAttempt
  let (fetched, localTip, remoteTip) ← fetchDisposable request attempt localRepository.format
  let repository ← compactRepository operation fetched localTip remoteTip
  let _ ← onFiles (removeDirectoryTree REPOSITORY_LEVELS attempt (MAX_PENDING_REPO_FS_ENTRIES + 64))
  onFiles (reported RETIRE_ATTEMPT (operation.unlinkDir .transferAttempt))
  return (repository, localTip, remoteTip)

def openSyncRepository (operation : Directory) (format : GitObjectFormat) : GitM γ SyncRepository := do
  let bare ← onFiles (reported "open synchronization repository" (operation.openDir .repoGit))
  onFiles (auditRepositoryMetadata bare)
  onFiles (auditRepositoryPhysicalBounds bare)
  return ⟨bare, format⟩

def syncRepositoryDurable (repository : SyncRepository) : GitM γ Unit := do
  onFiles (auditRepositoryMetadata repository.bare)
  onFiles (auditRepositoryPhysicalBounds repository.bare)
  onFiles (syncDirectoryTree repository.bare)
  [LOCAL_REF, REMOTE_REF, CANDIDATE_REF].forM fun reference => do
    let _ ← repository.refOid reference

/-- One tip where it has the other, and else a commit of their merged trees. -/
def mergeTips (repository : SyncRepository) (localTip remoteTip : GitOid) : GitM γ GitOid := do
  if ← repository.isAncestor localTip remoteTip then return remoteTip
  if ← repository.isAncestor remoteTip localTip then return localTip
  let output ← gitOutput "create union tree" repository.place (.mergeTree localTip remoteTip)
  let tree ← .ofExcept (parseOidOutput repository.format output)
  let output ← gitOutput "create union commit" repository.place (.commitTree tree localTip remoteTip)
  .ofExcept (parseOidOutput repository.format output)

def selectCandidate (repository : SyncRepository) (localTip remoteTip : GitOid) : GitM γ GitOid := do
  let candidate ← mergeTips repository localTip remoteTip
  [localTip, remoteTip].forM fun tip => do
    if !(← repository.isAncestor tip candidate) then
      throw (ioFailure "validate union candidate ancestry" "candidate does not descend every admitted tip")
  let _ ← gitOutput "publish internal candidate ref" repository.place (.updateRef CANDIDATE_REF candidate.hex)
  syncRepositoryDurable repository
  return candidate

end

end Wayjournal
