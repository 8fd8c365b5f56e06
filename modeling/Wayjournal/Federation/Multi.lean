import Wayjournal.Capability
import Wayjournal.Federation.Quarantine
import Wayjournal.ProofCache.Cache

namespace Wayjournal

open Collections Crash Fs Text

/-- Maximum number of stores accepted by one preflighted synchronization call. -/
def MAX_MULTI_SYNC_TARGETS : Nat := 256

inductive GitSyncError
  | bootstrapRequired
  | advanceRequired
  | checkpoint (source : CheckpointError)
  | git (source : GitCommandError)
  | store (source : StoreError)
  | quarantine (source : QuarantineError)
  | legacyStreaming (source : LegacyStreamingError)
  | pendingState (source : PendingError)
  | admission (source : GitAdmissionError)

inductive GitSyncOutcome
  | upToDate (commit : GitOid) (revision : StoreRevisionRef)
  | advanced (commit : GitOid) (revision : StoreRevisionRef)
  | staleRemoteCas (candidate observedRemote : GitOid)
  | quarantined (incidentId : QuarantineIncidentId) (reason : GitQuarantineReason)

inductive CheckpointObservationError
  | checkpoint (source : CheckpointError)
  | missingCheckpoint

inductive AuthorizedGitSyncError
  | handshakeIdentityMismatch
  | staleHandshake
  | missingNegotiatedSyncCapability
  | sync (source : GitSyncError)

inductive MultiStoreSyncError
  | empty
  | tooManyTargets
  | unsortedTargets
  | duplicateTarget
  | checkpointAuthority (store : LogicalStoreId) (source : GitSyncError)
  | missingCheckpoint (store : LogicalStoreId)
  | targetStoreIdentityMismatch (store : LogicalStoreId)
  | handshakeCheckpointMismatch (store : LogicalStoreId)
  | requestAuthorityMismatch (store : LogicalStoreId)
  | missingSyncCapability (store : LogicalStoreId)

structure PerStoreSyncResult where
  store : LogicalStoreId
  before : StoreRevisionRef
  after : Except CheckpointObservationError StoreRevisionRef
  cacheDisposition : ProofCacheDisposition
  syncResult : Except AuthorizedGitSyncError GitSyncOutcome

section

variable [Url]

structure StoreSyncTarget where
  expectedStore : LogicalStoreId
  store : StoreHandle
  request : GitSyncRequest
  handshake : NegotiatedHandshake

def requireCheckpointAuthority (checkpoint : AdmissionCheckpoint) (request : GitSyncRequest) : Except GitSyncError Unit := do
  if checkpoint.localTrustBinding ≠ request.localTrust then throw (.admission .localTrustMismatch)
  if checkpoint.approvedRemote.locator ≠ request.approvedRemote.locator then throw (.admission .unapprovedRemote)
  if checkpoint.approvedRemote.reference ≠ request.approvedRemote.reference then throw (.admission .unapprovedRef)

def validateTargetOrder : List LogicalStoreId → Except MultiStoreSyncError Unit
  | a :: b :: rest =>
    if a < b then validateTargetOrder (b :: rest)
    else if a = b then .error .duplicateTarget
    else .error .unsortedTargets
  | _ => .ok ()

def validateTargetShape (targets : List StoreSyncTarget) : Except MultiStoreSyncError Unit := do
  if targets.isEmpty then throw .empty
  if targets.length > MAX_MULTI_SYNC_TARGETS then throw .tooManyTargets
  validateTargetOrder (targets.map StoreSyncTarget.expectedStore)

/-- The stores and caches of a process, the Git side of all of them, how many times a lock was taken, and with
which store the synchronization proper was entered so far. -/
structure MultiWorld (γ : Type) extends CacheWorld where
  git : γ
  sessions : Nat
  entered : List (StoreSyncTarget × Disk)

abbrev MultiM (γ : Type) := Program (MultiWorld γ)

/-- What others do to the stores and to the Git side before each of our locks is granted. -/
abbrev Interference (γ : Type) := Nat → (RootIdentity → Disk) × γ → (RootIdentity → Disk) × γ

/-- `sync_git_union_locked` with the checkpoint it is given. -/
abbrev Transfer (γ : Type) := Store → GitSyncRequest → AdmissionCheckpoint → Program (World γ) GitSyncError GitSyncOutcome

namespace MultiWorld

variable {γ ε α : Type}

def interfere (env : Interference γ) (w : MultiWorld γ) : MultiWorld γ :=
  { w with
    disks := (env w.sessions (w.disks, w.git)).1
    git := (env w.sessions (w.disks, w.git)).2
    sessions := w.sessions + 1 }

/-- A lock is granted. -/
def lock (env : Interference γ) : MultiM γ ε Unit := .update fun w => .ok (w.interfere env)

def withStore (root : RootIdentity) (disk : Disk) (w : MultiWorld γ) : MultiWorld γ :=
  { w with disks := Function.update w.disks root disk }

def onStore (root : RootIdentity) (p : Program Disk ε α) : MultiM γ ε α :=
  p.zoom (fun w => w.disks root) (withStore root)

def worldOf (root : RootIdentity) (w : MultiWorld γ) : World γ := ⟨w.disks root, w.git, none⟩

def withWorld (root : RootIdentity) (world : World γ) (w : MultiWorld γ) : MultiWorld γ :=
  { w with disks := Function.update w.disks root world.disk, git := world.git }

def onWorld (root : RootIdentity) (p : Program (World γ) ε α) : MultiM γ ε α := p.zoom (worldOf root) (withWorld root)

def onCaches (p : Program CacheWorld ε α) : MultiM γ ε α := p.zoom toCacheWorld fun caches w => { w with toCacheWorld := caches }

def enter (target : StoreSyncTarget) : MultiM γ ε Unit :=
  .update fun w => .ok { w with entered := w.entered ++ [(target, w.disks target.store.root)] }

end MultiWorld

open MultiWorld

variable [Jiff] [Blake3] [ReadDir] [Ambient] {γ : Type}

def StoreSyncTarget.opened (target : StoreSyncTarget) : Store := Ambient.store target.store

/-- The checkpoint and the identity of a target under its lock. -/
def preflightAuthority (env : Interference γ) (target : StoreSyncTarget) :
    MultiM γ MultiStoreSyncError (AdmissionCheckpoint × LogicalStoreId) := do
  .ofExcept (target.opened.legacy.requireStreaming.mapError fun source =>
    .checkpointAuthority target.expectedStore (.legacyStreaming source))
  lock env
  let some checkpoint ← onStore target.store.root (readCheckpoint.mapError fun source =>
    .checkpointAuthority target.expectedStore (.checkpoint source)) | throw (.missingCheckpoint target.expectedStore)
  let current ← onStore target.store.root (.reads fun disk => (validateVisible target.opened disk).mapError fun source =>
    .checkpointAuthority target.expectedStore (.store source))
  let some identity := current.identity |
    throw (.checkpointAuthority target.expectedStore (.admission .missingIdentity))
  return (checkpoint, identity.logicalId)

def preflightTarget (env : Interference γ) (target : StoreSyncTarget) :
    MultiM γ MultiStoreSyncError AdmissionCheckpoint := do
  let (checkpoint, currentStore) ← preflightAuthority env target
  if currentStore ≠ target.expectedStore || checkpoint.logicalStoreId ≠ target.expectedStore then
    throw (.targetStoreIdentityMismatch target.expectedStore)
  if target.handshake.logicalStoreId ≠ target.expectedStore || target.handshake.boundCheckpoint ≠ checkpoint then
    throw (.handshakeCheckpointMismatch target.expectedStore)
  if checkpoint.localTrustBinding ≠ target.request.localTrust ||
      checkpoint.approvedRemote ≠ target.request.approvedRemote then
    throw (.requestAuthorityMismatch target.expectedStore)
  if !target.handshake.supportsGitUnionCas then throw (.missingSyncCapability target.expectedStore)
  return checkpoint

/-- The checkpoint a target may be synchronized from, read and compared under its lock. -/
def authorize (target : StoreSyncTarget) : MultiM γ AuthorizedGitSyncError AdmissionCheckpoint := do
  let some checkpoint ← onStore target.store.root (readCheckpoint.mapError fun source => .sync (.checkpoint source)) |
    throw (.sync .bootstrapRequired)
  if target.handshake.logicalStoreId ≠ checkpoint.logicalStoreId then throw .handshakeIdentityMismatch
  if target.handshake.boundCheckpoint ≠ checkpoint then throw .staleHandshake
  let current ← onStore target.store.root (.reads fun disk => (validateVisible target.opened disk).mapError fun source =>
    .sync (.store source))
  if current.identity.all (fun identity => identity.logicalId ≠ checkpoint.logicalStoreId) then
    throw (.sync (.admission .checkpointIdentityMismatch))
  .ofExcept ((requireCheckpointAuthority checkpoint target.request).mapError .sync)
  if !target.handshake.supportsGitUnionCas then throw .missingNegotiatedSyncCapability
  return checkpoint

def syncGitUnionAuthorized (env : Interference γ) (transfer : Transfer γ) (target : StoreSyncTarget) :
    MultiM γ AuthorizedGitSyncError GitSyncOutcome := do
  .ofExcept (target.opened.legacy.requireStreaming.mapError fun source => .sync (.legacyStreaming source))
  lock env
  let checkpoint ← authorize target
  enter target
  onWorld target.store.root ((transfer target.opened target.request checkpoint).mapError .sync)

def observeCheckpoint (env : Interference γ) (target : StoreSyncTarget) :
    MultiM γ CheckpointObservationError AdmissionCheckpoint := do
  lock env
  let some checkpoint ← onStore target.store.root (readCheckpoint.mapError .checkpoint) | throw .missingCheckpoint
  return checkpoint

/-- The cache is told of a revision that has moved; an invalidation itself does not fail. -/
def cacheDisposition (env : Interference γ) (cache : Option CacheHandle) (store : LogicalStoreId)
    (before : StoreRevisionRef) (after : Except CheckpointObservationError StoreRevisionRef) :
    MultiM γ MultiStoreSyncError ProofCacheDisposition := do
  match after with
  | .error _ => return .unavailable
  | .ok revision =>
    if revision = before then return .unchanged
    let some cache := cache | return .unavailable
    lock env
    match ← (onCaches (ProofCache.invalidateStore cache store before revision)).attempt with
    | .ok disposition => return disposition
    | .error _ => return .unavailable

def syncTarget (env : Interference γ) (transfer : Transfer γ) (cache : Option CacheHandle)
    (authorized : StoreSyncTarget × AdmissionCheckpoint) : MultiM γ MultiStoreSyncError PerStoreSyncResult := do
  let target := authorized.1
  let before := authorized.2.acceptedRevision
  let syncResult ← (syncGitUnionAuthorized env transfer target).attempt
  let observed ← (observeCheckpoint env target).attempt
  let after := observed.map AdmissionCheckpoint.acceptedRevision
  let disposition ← cacheDisposition env cache target.expectedStore before after
  return ⟨target.expectedStore, before, after, disposition, syncResult⟩

def syncStores (env : Interference γ) (transfer : Transfer γ) (cache : Option CacheHandle)
    (targets : List StoreSyncTarget) : MultiM γ MultiStoreSyncError (List PerStoreSyncResult) := do
  .ofExcept (validateTargetShape targets)
  let checkpoints ← targets.mapM (preflightTarget env)
  (targets.zip checkpoints).mapM (syncTarget env transfer cache)

end

end Wayjournal
