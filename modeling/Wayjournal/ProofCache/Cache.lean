import Wayjournal.Crash.Fault
import Wayjournal.ProofCache.Entry
import Wayjournal.Store.Streaming
import Wayjournal.Store.Transaction

namespace Wayjournal

open Collections Crash Fs Text

/-- The disks below all retained roots, how often each cache has looked at its name, and what it concluded. -/
structure CacheWorld where
  disks : RootIdentity → Disk
  checks : CacheHandle → Nat
  reset : CacheHandle → Bool

/-- What the caches and stores of a process were opened as. Whether the name of a cache still stands for the
retained root may change from one check to the next. -/
class Ambient where
  isBound : CacheHandle → Nat → Bool
  store : StoreHandle → Store

abbrev CacheM := Program CacheWorld ProofCacheError

namespace CacheWorld

def withDisk (root : RootIdentity) (disk : Disk) (w : CacheWorld) : CacheWorld :=
  { w with disks := Function.update w.disks root disk }

def observe (cache : CacheHandle) (isBound : Bool) (w : CacheWorld) : CacheWorld :=
  { w with
    checks := Function.update w.checks cache (w.checks cache + 1)
    reset := Function.update w.reset cache (!isBound) }

/-- A program over the disk below one root. -/
def onRoot {ε α : Type} (root : RootIdentity) (f : ε → ProofCacheError) (p : Program Disk ε α) : CacheM α :=
  (p.mapError f).zoom (fun w => w.disks root) (withDisk root)

end CacheWorld

open CacheWorld

inductive ProofCacheInsert
  | inserted
  | alreadyPresent
  deriving DecidableEq

inductive ProofCacheDisposition
  | unchanged
  | invalidated
  | reset
  | unavailable
  deriving DecidableEq

inductive OperationStart
  | reset
  | unavailable

section

variable [Jiff]

inductive ProofCacheLookup
  | hit (proof : VerifiedProof)
  | miss
  | stale
  | reset
  | unavailable

end

abbrev AuthorityM := Program Disk AuthorityProblem

instance : MonadLift DiskM AuthorityM := ⟨Program.mapError .store⟩

instance : MonadLift CheckpointM AuthorityM := ⟨Program.mapError .checkpoint⟩

section

variable [Jiff] [Blake3] [ReadDir] [Url]

/-- What is done to a store as soon as its lock is held. -/
def lockAuthority (store : Store) : AuthorityM Unit := do
  cleanDisposableLocked
  if (← gateWithoutGit) ≠ .allow then throw (.text "pending/recovery gate did not converge")
  recoverLocked store

/-- The entry of a locked store in the dependency vector. -/
def currentDependency (store : Store) (expected : LogicalStoreId) : AuthorityM RevisionVectorEntry := do
  let some checkpoint ← readCheckpoint | throw (.text "current durable admission checkpoint is missing")
  let snapshot ← Program.reads fun disk => (validateVisible store disk).mapError .store
  let some identity := snapshot.identity | throw (.text "strict initialized store identity is missing")
  if checkpoint.logicalStoreId ≠ expected || identity.logicalId ≠ expected ||
      checkpoint.logicalStoreId ≠ identity.logicalId then
    throw (.text "resolver, checkpoint, and strict store identities disagree")
  if checkpoint.acceptedRevision ≠ snapshot.revision then
    throw (.text "checkpoint revision disagrees with the strict canonical snapshot")
  return ⟨expected, checkpoint.acceptedRevision⟩

variable [Ambient]

def lockAuthorities (authorities : List DependencyStore) : CacheM RevisionVector := do
  authorities.forM fun authority =>
    onRoot authority.store.root .authorityUnavailable (lockAuthority (Ambient.store authority.store))
  let entries ← authorities.mapM fun authority =>
    onRoot authority.store.root .authorityUnavailable
      (currentDependency (Ambient.store authority.store) authority.expectedStore)
  .ofExcept ((RevisionVector.new entries).mapError (fun e => .authorityUnavailable (.projection e)))

end

namespace ProofCache

section

variable [Ambient]

def bindingMatches (cache : CacheHandle) : CacheM Bool := do
  if ← .reads (fun w => .ok (w.reset cache)) then return false
  let isBound ← .reads fun w => .ok (Ambient.isBound cache (w.checks cache))
  .update fun w => .ok (w.observe cache isBound)
  return isBound

variable [ReadDir]

def beginOperation (cache : CacheHandle) : CacheM (Except OperationStart Unit) := do
  if !(← bindingMatches cache) then return .error .reset
  let cleaned ← (onRoot cache.root id cleanupTemporaries).attempt
  if let .error _ := cleaned then return .error .unavailable
  if !(← bindingMatches cache) then return .error .reset
  return .ok ()

end

/-- The name is looked at once more when an operation ends, whichever way it does. -/
def duringOperation [Ambient] {α : Type} (cache : CacheHandle) (p : CacheM α) : CacheM α := do
  let result ← p.attempt
  let _ ← bindingMatches cache
  .ofExcept result

variable [Jiff] [Blake3] [ReadDir] [Ambient]

def requestedEntry (proofId : ProofId) (requested : Option (Bytes × CacheEntry)) (id : ProofId) (bytes : Bytes)
    (entry : CacheEntry) : Option (Bytes × CacheEntry) :=
  if id = proofId then some (bytes, entry) else requested

def classify (fresh : RevisionVector) : Option (Bytes × CacheEntry) → ProofCacheLookup
  | none => .miss
  | some (_, entry) =>
    if !sameDependencyStores entry.dependencies fresh then .unavailable
    else if entry.dependencies ≠ fresh then .stale
    else .hit entry.proof

/-- `finish_failed_lookup`, and what a lookup without its authorities returns. -/
def failedLookup (cache : CacheHandle) : CacheM ProofCacheLookup := do
  return if ← bindingMatches cache then .unavailable else .reset

/-- What a lookup does once its operation has begun. -/
def visitRequested (cache : CacheHandle) (proofId : ProofId) (fresh : RevisionVector) : CacheM ProofCacheLookup := do
  match ← (onRoot cache.root id (visitEntries (requestedEntry proofId) none)).attempt with
  | .error _ => failedLookup cache
  | .ok (requested, _) =>
    if !(← bindingMatches cache) then return .reset
    return classify fresh requested

section

variable [Url]

def lookup (cache : CacheHandle) (proofId : ProofId) (authorities : List DependencyStore) :
    CacheM ProofCacheLookup := do
  if !(← bindingMatches cache) then return .reset
  if let .error error := validateAuthorityInputs cache authorities then
    let _ ← bindingMatches cache
    throw error
  match ← (lockAuthorities authorities).attempt with
  | .error (.authorityUnavailable _) => failedLookup cache
  | .error error =>
    let _ ← bindingMatches cache
    throw error
  | .ok fresh =>
    match ← beginOperation cache with
    | .error .reset => return .reset
    | .error .unavailable => return .unavailable
    | .ok () => duringOperation cache (visitRequested cache proofId fresh)

/-- An error of an insertion, unless the name of the cache no longer stands for its root. -/
def orReset {α : Type} (cache : CacheHandle) (error : ProofCacheError) : CacheM α := do
  if !(← bindingMatches cache) then throw .reset
  throw error

def prepareInsert (cache : CacheHandle) (proof : VerifiedProof) (authorities : List DependencyStore) :
    CacheM Bytes := do
  if !(← bindingMatches cache) then throw .reset
  if let .error error := validateAuthorityInputs cache authorities then
    let _ ← bindingMatches cache
    throw error
  match ← (lockAuthorities authorities).attempt with
  | .error error => orReset cache error
  | .ok fresh =>
    match validateCurrentSourceDependency fresh proof with
    | .error error => orReset cache error
    | .ok () =>
      match encodeCacheEntry fresh proof with
      | .error error => orReset cache error
      | .ok encoded => return encoded

end

def existingBytes (proofId : ProofId) (existing : Option Bytes) (id : ProofId) (bytes : Bytes) (_ : CacheEntry) :
    Option Bytes :=
  if id = proofId then some bytes else existing

/-- The entry is written under a temporary name and renamed once it is read back. -/
def publishEntry (temporary : Uuid) (proofId : ProofId) (encoded : Bytes) : CacheDirM Unit := do
  (CacheHandle.rootDir.createFile (cacheTemporary temporary)).mapError .io
  (CacheHandle.rootDir.writeAll (cacheTemporary temporary) encoded).mapError .io
  let observed ← (CacheHandle.rootDir.openFile (cacheTemporary temporary)).mapError .io
  if observed.take (MAX_PROOF_CACHE_ENTRY_BYTES + 1) ≠ encoded then
    throw (.invalidLayout "cache temporary changed before publication")
  (CacheHandle.rootDir.renameFile (cacheTemporary temporary) (finalName proofId)).mapError .io

def insertEntry (cache : CacheHandle) (temporary : Uuid) (proof : VerifiedProof) (encoded : Bytes) :
    CacheM ProofCacheInsert := do
  let (existing, layout) ← onRoot cache.root id (visitEntries (existingBytes proof.proofId) none)
  if existing = some encoded then
    if !(← bindingMatches cache) then throw .reset
    return .alreadyPresent
  if existing.isNone && layout.entries = MAX_PROOF_CACHE_ENTRIES then
    throw (.invalidLayout "cache entry-count limit would be exceeded")
  let _ ← .ofExcept (checkedTotalBytes (layout.totalBytes - (existing.map List.length).getD 0) encoded.length)
  onRoot cache.root id ((publishEntry temporary proof.proofId encoded).tryCatch fun error => do
    let _ ← (CacheHandle.rootDir.unlinkFile (cacheTemporary temporary)).attempt
    throw error)
  let (published, _) ← onRoot cache.root id (visitEntries (existingBytes proof.proofId) none)
  if published ≠ some encoded then throw (.invalidLayout "published entry changed during post-validation")
  if !(← bindingMatches cache) then throw .reset
  return .inserted

/-- `insert`, with the identifier of its temporary file. -/
def insert [Url] (cache : CacheHandle) (temporary : Uuid) (proof : VerifiedProof) (authorities : List DependencyStore) :
    CacheM ProofCacheInsert := do
  let encoded ← prepareInsert cache proof authorities
  match ← beginOperation cache with
  | .error .reset => throw .reset
  | .error .unavailable => throw (.invalidLayout "cache root is unavailable")
  | .ok () => duringOperation cache (insertEntry cache temporary proof encoded)

def failedDisposition (cache : CacheHandle) : CacheM ProofCacheDisposition := do
  return if ← bindingMatches cache then .unavailable else .reset

/-- The entries that depend on the old revision. -/
def staleNames (store : LogicalStoreId) (old new : StoreRevisionRef) (remove : List Name) (id : ProofId) (_ : Bytes)
    (entry : CacheEntry) : List Name :=
  if old ≠ new && entry.dependencies.entries.any (fun d => d.store = store && d.revision = old) then
    remove ++ [finalName id]
  else remove

/-- The stale entries of a cache, once they are unlinked. -/
def removeStale (store : LogicalStoreId) (old new : StoreRevisionRef) : CacheDirM (List Name) := do
  let (remove, _) ← visitEntries (staleNames store old new) []
  remove.forM fun name => (CacheHandle.rootDir.unlinkFile name).mapError .io
  let _ ← visitEntries (fun _ _ _ _ => ()) ()
  return remove

def invalidateStore (cache : CacheHandle) (store : LogicalStoreId) (old new : StoreRevisionRef) :
    CacheM ProofCacheDisposition := do
  match ← beginOperation cache with
  | .error .reset => return .reset
  | .error .unavailable => return .unavailable
  | .ok () => duringOperation cache do
    match ← (onRoot cache.root id (removeStale store old new)).attempt with
    | .error _ => failedDisposition cache
    | .ok remove =>
      if !(← bindingMatches cache) then return .reset
      return if remove.isEmpty then .unchanged else .invalidated

end ProofCache

end Wayjournal
