import Wayjournal.Federation.SyncStart

namespace Wayjournal

open Crash Fs Text

namespace PendingDocument

variable [Url] (document : PendingDocument)

def checkpointAt (commit : GitOid) (revision : StoreRevisionRef) : AdmissionCheckpoint :=
  ⟨document.logicalStoreId, document.localTrustBinding, document.approvedRemote, commit, revision⟩

def originalCheckpoint : AdmissionCheckpoint := document.checkpointAt document.originalBaseCommit document.originalBaseRevision

def expectedCheckpoint : AdmissionCheckpoint := document.checkpointAt document.advanceFromCommit document.advanceFromRevision

def candidateCheckpoint : AdmissionCheckpoint := document.checkpointAt document.candidateCommit document.candidateRevision

def inPhase (phase : GitSyncPendingPhase) : PendingDocument := { document with phase := phase }

end PendingDocument

/-- How many times the loop over the phases may still go round. -/
def GitSyncPendingPhase.rounds : GitSyncPendingPhase → Nat
  | .prepared => 5
  | .filesPublished => 4
  | .localRefPublished => 3
  | .checkpointPublished => 2
  | .remoteCasStale => 1
  | .remoteCasConfirmed => 1

section

variable [Url] [Blake3] [ReadDir] [Jiff] {γ : Type} [Git γ] (store : Store) (request : GitSyncRequest) (draws : Draws)

def quarantinePublication (checkpoint : AdmissionCheckpoint) (active : DurablePending) (reason : GitQuarantineReason) :
    SyncM γ α := do
  let incident ← SyncM.quarantine (persist draws.incident checkpoint.logicalStoreId request checkpoint.acceptedCommit
    checkpoint.acceptedRevision reason (some active.document.candidateCommit) (some active.name))
  throw (.outcome (.quarantined incident.incidentId incident.reason))

section Verification

variable (checkpoint : AdmissionCheckpoint) (active : DurablePending)

def hostilePublication : SyncM γ α := quarantinePublication request draws checkpoint active .hostilePublicationState

def requireOwnOperation : SyncM γ Unit := do
  if active.document.localTrustBinding ≠ request.localTrust || active.document.approvedRemote ≠ request.approvedRemote ||
      active.document.logicalStoreId ≠ checkpoint.logicalStoreId then
    throw (.failed (.admission .localTrustMismatch))

def publicationSnapshot (repository : SyncRepository) (oid : GitOid) : SyncM γ ValidatedStoreState :=
  orHostile (repository.treeSnapshot store oid) fun _ => hostilePublication request draws checkpoint active

def ofStore (id : LogicalStoreId) (snapshot : ValidatedStoreState) : Bool :=
  snapshot.identity.any fun identity => identity.logicalId = id

def isAncestry (repository : SyncRepository) : List (GitOid × GitOid) → GitM γ Bool
  | [] => return true
  | (ancestor, descendant) :: rest => do
    if ← repository.isAncestor ancestor descendant then isAncestry repository rest else return false

/-- The commits and trees that the document names are what it says. -/
def verifyCommits (repository : SyncRepository) : SyncM γ ValidatedStoreState := do
  let document := active.document
  SyncM.git (SyncRepository.requireCommitObject repository.place document.candidateCommit)
  let candidate ← publicationSnapshot store request draws checkpoint active repository document.candidateCommit
  let parents ← SyncM.git (repository.commitParents document.candidateCommit)
  let ancestryValid ← SyncM.git (isAncestry repository
    [(document.originalBaseCommit, document.observedLocalTip), (document.originalBaseCommit, document.expectedRemoteTip),
      (document.observedLocalTip, document.candidateCommit), (document.expectedRemoteTip, document.candidateCommit)])
  if candidate.revision ≠ document.candidateRevision || !ofStore document.logicalStoreId candidate ||
      parents ≠ document.candidateParents || !ancestryValid then
    hostilePublication request draws checkpoint active
  let original ← publicationSnapshot store request draws checkpoint active repository document.originalBaseCommit
  let advance ← publicationSnapshot store request draws checkpoint active repository document.advanceFromCommit
  if original.revision ≠ document.originalBaseRevision || advance.revision ≠ document.advanceFromRevision ||
      !ofStore document.logicalStoreId original || !ofStore document.logicalStoreId advance then
    hostilePublication request draws checkpoint active
  let base ← publicationSnapshot store request draws checkpoint active repository document.observedLocalTip
  if !ofStore document.logicalStoreId base then hostilePublication request draws checkpoint active
  return base

inductive RecheckFailure
  | pending (error : PendingError)
  | source (error : GitAdmissionError)
  | mismatch

def recheckStep (p : PendingM α) : Program (World γ) RecheckFailure α := (onDisk p).mapError .pending

/-- A staged addition is the next one of the candidate. -/
def recheckAddition (repository : SyncRepository) (state : TreeAdditionSource × Nat) (staged : StagedAddition) :
    Program (World γ) RecheckFailure (TreeAdditionSource × Nat) := do
  let (some expected, source) ← Program.mapError .source (repository.nextFile state.1) | throw .mismatch
  if expected.path ≠ staged.path || expected.bytes ≠ staged.bytes then throw .mismatch
  return (source, state.2 + 1)

def isHostileSnapshot : GitAdmissionError → Bool
  | .hostileSnapshot _ => true
  | _ => false

def orHostileSnapshot (p : AdmissionM γ α) : SyncM γ α := do
  match ← Program.attempt p with
  | .ok a => return a
  | .error error =>
    if isHostileSnapshot error then hostilePublication request draws checkpoint active
    else throw (.failed (.admission error))

/-- The staged additions are, one after the other, those of the candidate. -/
def verifyAdditions (repository : SyncRepository) : SyncM γ Unit := do
  let diff ← orHostileSnapshot request draws checkpoint active
    (repository.spoolTreeAdditions active.document.observedLocalTip active.document.candidateCommit)
  let source ← SyncM.admission (repository.treeAdditionSource diff : GitM γ _)
  let (source, observed) ←
    match ← Program.attempt (foldAdditionsIn recheckStep (recheckAddition repository) active (source, 0)) with
    | .ok state => pure state
    | .error (.source error) =>
      if isHostileSnapshot error then hostilePublication request draws checkpoint active
      else throw (.failed (.admission error))
    | .error .mismatch => hostilePublication request draws checkpoint active
    | .error (.pending error) => throw (.failed (.pendingState error))
  let (next, _) ← orHostileSnapshot request draws checkpoint active (repository.nextFile source)
  if next.isSome then hostilePublication request draws checkpoint active
  SyncM.admission (finishBatch repository.place : GitM γ _)
  if observed ≠ active.document.additionsCount.val then hostilePublication request draws checkpoint active

end Verification

section Surfaces

/-- The visible files are made those of the candidate, if they are still those of the base. -/
def reachFiles (base : ValidatedStoreState) (checkpoint : AdmissionCheckpoint) (active : DurablePending) :
    SyncM γ Unit := do
  let before ← SyncM.store (.reads (validateVisible store))
  if before.revision = base.revision then
    match ← Program.attempt (onDisk (publishAdditions active)) with
    | .error (_ : PendingError) => hostilePublication request draws checkpoint active
    | .ok () =>
      let visible ← SyncM.store (.reads (validateVisible store))
      if visible.revision ≠ active.document.candidateRevision then hostilePublication request draws checkpoint active
  else if before.revision ≠ active.document.candidateRevision then hostilePublication request draws checkpoint active

def reachLocalRef (repository : SyncRepository) (checkpoint : AdmissionCheckpoint) (active : DurablePending) :
    SyncM γ Unit := do
  let localRepository ← SyncM.git (inspectLocal request)
  if localRepository.tip ≠ active.document.observedLocalTip && localRepository.tip ≠ active.document.candidateCommit then
    hostilePublication request draws checkpoint active
  SyncM.git (advanceLocalRef request localRepository repository active.document.observedLocalTip
    active.document.candidateCommit)

def reachCheckpoint (checkpoint : AdmissionCheckpoint) (active : DurablePending) : SyncM γ Unit := do
  let some durable ← SyncM.checkpoint readCheckpoint | throw (.failed .bootstrapRequired)
  if durable = active.document.expectedCheckpoint then
    SyncM.checkpoint (replaceExpected active.document.expectedCheckpoint active.document.candidateCheckpoint
      (draws.checkpoint active.document.phase true))
  else if durable ≠ active.document.candidateCheckpoint then hostilePublication request draws checkpoint active

/-- Files, ref and checkpoint are those of the candidate, whatever the phase. -/
def reachCandidate (repository : SyncRepository) (base : ValidatedStoreState) (checkpoint : AdmissionCheckpoint)
    (active : DurablePending) : SyncM γ Unit := do
  reachFiles store request draws base checkpoint active
  reachLocalRef request draws repository checkpoint active
  reachCheckpoint request draws checkpoint active

end Surfaces

section Phases

variable (repository : SyncRepository) (active : DurablePending)

def replacePhase (document : PendingDocument) : SyncM γ DurablePending :=
  SyncM.pending (replaceDocument active document (draws.document active.document.phase))

def prepared : SyncM γ DurablePending := do
  match ← Program.attempt (onDisk (publishAdditions active)) with
  | .error (_ : PendingError) => hostilePublication request draws active.document.candidateCheckpoint active
  | .ok () =>
    let visible ← SyncM.store (.reads (validateVisible store))
    if visible.revision ≠ active.document.candidateRevision then
      hostilePublication request draws active.document.candidateCheckpoint active
    replacePhase draws active (active.document.inPhase .filesPublished)

def filesPublished : SyncM γ DurablePending := do
  let localRepository ← SyncM.git (inspectLocal request)
  SyncM.git (advanceLocalRef request localRepository repository active.document.observedLocalTip
    active.document.candidateCommit)
  replacePhase draws active (active.document.inPhase .localRefPublished)

def localRefPublished : SyncM γ DurablePending := do
  SyncM.checkpoint (replaceExpected active.document.expectedCheckpoint active.document.candidateCheckpoint
    (draws.checkpoint active.document.phase false))
  replacePhase draws active (active.document.inPhase .checkpointPublished)

/-- What the remote has after a push decides. -/
def settlePush (pushed : Bool) (observed : Option GitOid) : SyncM γ DurablePending := do
  match observed with
  | none => quarantinePublication request draws active.document.candidateCheckpoint active .missingApprovedRef
  | some observed =>
    if observed = active.document.candidateCommit then
      replacePhase draws active (active.document.inPhase .remoteCasConfirmed)
    else if observed = active.document.expectedRemoteTip then
      throw (.failed (.git (if pushed then
        ioFailure "confirm synchronization push" "successful push was not remotely observable"
        else ioFailure "push synchronization candidate" "exact lease was rejected without remote movement")))
    else
      let _ ← replacePhase draws active
        { active.document.inPhase .remoteCasStale with staleRemoteOid := some observed }
      throw (.outcome (.staleRemoteCas active.document.candidateCommit observed))

def checkpointPublished : SyncM γ DurablePending := do
  let pushed ← SyncM.git (pushCandidateExactLease request repository active.document.expectedRemoteTip)
  let observed ← SyncM.git (observeRemoteRef request active.document.objectFormat)
  settlePush request draws active pushed observed

/-- A stale operation is succeeded by one that starts from its candidate. -/
def remoteCasStale (recoverSuccessor : AdmissionCheckpoint → DurablePending → SyncM γ GitSyncOutcome) :
    SyncM γ DurablePending := do
  let current ← SyncM.store (.reads (validateVisible store))
  let successor ← startSyncOperation store request draws active.document.originalCheckpoint
    active.document.candidateCheckpoint current (some active)
  throw (.outcome (← recoverSuccessor active.document.candidateCheckpoint successor))

def remoteCasConfirmed (predecessor : Option DurablePending) : SyncM γ DurablePending := do
  let document := active.document
  let visible ← SyncM.store (.reads (validateVisible store))
  let localRepository ← SyncM.git (inspectLocal request)
  let some durable ← SyncM.checkpoint readCheckpoint | throw (.failed .bootstrapRequired)
  let remote ← SyncM.git (observeRemoteRef request document.objectFormat)
  if visible.revision ≠ document.candidateRevision || localRepository.tip ≠ document.candidateCommit ||
      durable.acceptedCommit ≠ document.candidateCommit || durable.acceptedRevision ≠ document.candidateRevision ||
      remote ≠ some document.candidateCommit then
    hostilePublication request draws document.candidateCheckpoint active
  SyncM.git removeInternalLocalCandidate
  if let some predecessor := predecessor then SyncM.pending (retireOperation predecessor)
  SyncM.pending (retireOperation active)
  throw (.outcome (
    if document.candidateCommit = document.advanceFromCommit && document.expectedRemoteTip = document.candidateCommit then
      .upToDate document.candidateCommit document.candidateRevision
    else .advanced document.candidateCommit document.candidateRevision))

/-- One phase, with the operation in the next one; whoever is done leaves. -/
def advancePhase (recoverSuccessor : AdmissionCheckpoint → DurablePending → SyncM γ GitSyncOutcome)
    (predecessor : Option DurablePending) : SyncM γ DurablePending :=
  match active.document.phase with
  | .prepared => prepared store request draws active
  | .filesPublished => filesPublished request draws repository active
  | .localRefPublished => localRefPublished draws active
  | .checkpointPublished => checkpointPublished request draws repository active
  | .remoteCasStale => remoteCasStale store request draws active recoverSuccessor
  | .remoteCasConfirmed => remoteCasConfirmed store request draws active predecessor

end Phases

section Recovery

variable (recoverSuccessor : AdmissionCheckpoint → DurablePending → SyncM γ GitSyncOutcome)
  (repository : SyncRepository) (base : ValidatedStoreState) (predecessor : Option DurablePending)

/-- The loop. Every round that does not leave goes on to a later phase, so `rounds` of them are enough. -/
def recoverPhases : Nat → AdmissionCheckpoint → DurablePending → SyncM γ GitSyncOutcome
  | 0, _, _ => throw (.failed .advanceRequired)
  | rounds + 1, checkpoint, active => do
    reachCandidate store request draws repository base checkpoint active
    let next ← advancePhase store request draws repository active recoverSuccessor predecessor
    recoverPhases rounds active.document.candidateCheckpoint next

def recoverWith (checkpoint : AdmissionCheckpoint) (active : DurablePending) : SyncM γ GitSyncOutcome := do
  requireOwnOperation request checkpoint active
  SyncM.pending (validateClosedLayout active)
  let repository ← orUnsafe (openSyncRepository active.directory active.document.objectFormat)
    (quarantinePublication request draws checkpoint active .unsafeRepositoryState)
  let base ← verifyCommits store request draws checkpoint active repository
  verifyAdditions request draws checkpoint active repository
  recoverPhases store request draws recoverSuccessor repository base predecessor active.document.phase.rounds checkpoint
    active

end Recovery

/-- A successor starts prepared and is never succeeded within the same call. -/
def recoverSuccessor (checkpoint : AdmissionCheckpoint) (active : DurablePending) : SyncM γ GitSyncOutcome :=
  recoverWith store request draws (fun _ _ => throw (.failed .advanceRequired)) none checkpoint active

def recoverSyncOperation (next : Draws) (predecessor : Option DurablePending) (checkpoint : AdmissionCheckpoint)
    (active : DurablePending) : SyncM γ GitSyncOutcome :=
  recoverWith store request draws (recoverSuccessor store request next) predecessor checkpoint active

end

end Wayjournal
