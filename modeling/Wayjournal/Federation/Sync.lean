import Wayjournal.Federation.SyncRecover

namespace Wayjournal

open Crash Fs Text

section

variable [Url] [Blake3] [ReadDir] [Jiff] {γ : Type} [Git γ] (store : Store) (request : GitSyncRequest)

/-- The checkpoint to start from, when the caller does not bring one. -/
def approvedCheckpoint : SyncM γ AdmissionCheckpoint := do
  let some checkpoint ← SyncM.checkpoint readCheckpoint | throw (.failed .bootstrapRequired)
  match requireCheckpointAuthority checkpoint request with
  | .ok () => return checkpoint
  | .error error => throw (.failed error)

def requireNoIncident : SyncM γ Unit := do
  if let some incident ← SyncM.quarantine (active request) then
    throw (.outcome (.quarantined incident.incidentId incident.reason))
  SyncM.quarantine ensureCapacity

/-- `draws` are the identifiers of this operation and `next` those of the one that may succeed it. -/
def synchronize (draws next : Draws) (authorized : Option AdmissionCheckpoint) : SyncM γ GitSyncOutcome := do
  requireNoIncident request
  let checkpoint ←
    match authorized with
    | some checkpoint => pure checkpoint
    | none => approvedCheckpoint request
  let discovery ← SyncM.pending discover
  match discovery.active with
  | some active =>
    if ← SyncM.store hasTransactionResidue then throw (.failed (.store .conflictingRecoveryState))
    SyncM.pending (retireNamedDisposable discovery.disposable active.document.predecessorOperationId)
    recoverSyncOperation store request draws next discovery.predecessor checkpoint active
  | none =>
    SyncM.store cleanDisposableLocked
    SyncM.store (recoverLocked store)
    let current ← SyncM.store (.reads (validateVisible store))
    let active ← startSyncOperation store request draws checkpoint checkpoint current none
    recoverSyncOperation store request draws next none checkpoint active

def syncGitUnionLocked (draws next : Draws) (authorized : Option AdmissionCheckpoint) :
    Program (World γ) GitSyncError GitSyncOutcome :=
  (synchronize store request draws next authorized).settled

def syncGitUnion (draws next : Draws) : Program (World γ) GitSyncError GitSyncOutcome := do
  .ofExcept (store.legacy.requireStreaming.mapError GitSyncError.legacyStreaming)
  syncGitUnionLocked store request draws next none

end

/-- What a process synchronizes one of its stores with. -/
def transferOf [Url] [Blake3] [ReadDir] [Jiff] {γ : Type} [Git γ] (draws next : Draws) : Transfer γ :=
  fun store request checkpoint => syncGitUnionLocked store request draws next (some checkpoint)

end Wayjournal
