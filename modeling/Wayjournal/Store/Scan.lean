import Wayjournal.Domains.Fold
import Wayjournal.Domains.Payload
import Wayjournal.Identity

namespace Wayjournal

open Collections Text

def MAX_LEGACY_FILE_BYTES : Nat := 1024 * 1024
def MAX_CANONICAL_ENTRIES : Nat := 1000000
def MAX_TOTAL_CANONICAL_BYTES : Nat := 1024 * 1024 * 1024

structure RawFile where
  path : Bytes
  bytes : Bytes
  deriving DecidableEq

structure LegacyEntry where
  path : Bytes
  bytes : Bytes
  pathClass : PathClass
  deriving DecidableEq

inductive LegacyStreamingError
  | unsupportedFullDomain
  | source (message : String)
  | invalid (message : String)
  deriving DecidableEq

/-- What a pull source yields: entries, and then its end or a failure. -/
structure LegacySource where
  entries : List LegacyEntry
  failure : Option String

/-- The adapter of the frozen files. `validateStream` also says how many entries
it pulled from its source; both streaming methods are for the bounded requirement. -/
structure LegacyStoreAdapter where
  validate : List LegacyEntry → Except String Unit
  validateStream : LegacySource → Except LegacyStreamingError Unit × Nat
  requireStreaming : Except LegacyStreamingError Unit

inductive FoldFailure
  | operation (error : OperationError)
  | fold (error : FoldError)
  | message (text : String)

/-- The texts of other errors are kept as the errors they print. -/
inductive StoreCorruption
  | nonRegularPath (path : Bytes)
  | invalidCanonicalPath (path : Bytes)
  | invalidRevision (source : RevisionError)
  | invalidManifest (path : Bytes) (source : BatchError)
  | invalidRecord (path : Bytes) (source : RecordCodecError)
  | duplicateGlobalRecordId (recordId : RecordId) (paths : List Bytes)
  | genericOwnership (source : BatchError)
  | invalidGenesis (source : GenesisError)
  | invalidDomainFold (domain entity : String) (source : FoldFailure)
  | invalidLegacy (message : String)
  | unsupportedLegacy (source : LegacyStreamingError)

/-- A store as it was opened. -/
structure Store where
  registry : DomainRegistry
  legacy : LegacyStoreAdapter
  strictDomains : Bool

section

variable [Jiff] [Blake3]

structure StoreSnapshot where
  revision : StoreRevisionRef
  manifests : List BatchManifest
  records : List Record
  identity : Option StoreIdentity
  legacy : List LegacyEntry

inductive DecodedFile
  | manifest (manifest : BatchManifest)
  | record (record : Record)
  | legacy (entry : LegacyEntry)

def decodeVisibleFile (file : RawFile) (registry : DomainRegistry) :
    Except StoreCorruption DecodedFile :=
  match classifyPath file.path with
  | .journalBatch => do
    let manifest ← (decodeBatchManifest file.bytes).mapError (.invalidManifest file.path)
    if asBytes manifest.canonicalPath ≠ file.path then throw (.invalidCanonicalPath file.path)
    return .manifest manifest
  | .journalRecord => do
    let record ← (decodeRecord file.bytes registry).mapError (.invalidRecord file.path)
    if asBytes record.canonicalPath ≠ file.path then throw (.invalidCanonicalPath file.path)
    return .record record
  | .legacyBatch => .ok (.legacy ⟨file.path, file.bytes, .legacyBatch⟩)
  | .legacyEvent => .ok (.legacy ⟨file.path, file.bytes, .legacyEvent⟩)
  | .invalidReserved => .error (.invalidCanonicalPath file.path)
  | .nonCanonical => .error (.invalidCanonicalPath file.path)

def Record.isFolded (record : Record) : Bool :=
  record.domain.asStr = PROFILE_DOMAIN || record.domain.asStr = CATALOG_DOMAIN

/-- The key of a fold group. -/
def Record.foldKey (record : Record) : String ×ₗ String :=
  toLex (record.domain.asStr, record.entityId.display)

def operationFromRecord (record : Record) : Except StoreCorruption DomainOperation :=
  (DomainOperation.tryFrom record).mapError
    (fun e => .invalidDomainFold record.domain.asStr record.entityId.display (.operation e))

def groupRecord (grouped : BTreeMap (String ×ₗ String) (List DomainOperation)) (record : Record) :
    Except StoreCorruption (BTreeMap (String ×ₗ String) (List DomainOperation)) :=
  if !record.isFolded then .ok grouped
  else do
    let operation ← operationFromRecord record
    return grouped.update record.foldKey [] (· ++ [operation])

def foldGroup (domain : String) (operations : List DomainOperation) : Except FoldError Unit :=
  if domain = PROFILE_DOMAIN then (foldProfile operations).map (fun _ => ())
  else (foldCatalogs operations).map (fun _ => ())

def validateBuiltinFolds (records : List Record) : Except StoreCorruption Unit := do
  let grouped ← records.foldlM groupRecord ∅
  for (key, operations) in grouped.entries do
    (foldGroup (ofLex key).1 operations).mapError
      (fun e => .invalidDomainFold (ofLex key).1 (ofLex key).2 (.fold e))

def validateGlobalIdempotency (manifests : List BatchManifest) : Except StoreCorruption Unit :=
  let owners := manifests.foldl (fun (o : BTreeMap (ActorId ×ₗ String) (List BatchId)) m =>
    o.update (toLex (m.actor, m.idempotencyKeyDigest.display)) [] (· ++ [m.batchId])) ∅
  match owners.values.find? (fun ids => ids.length > 1) with
  | some ids => .error (.genericOwnership (.duplicateIdempotencyOwnership ids))
  | none => .ok ()

/-- What the scan has decoded so far. -/
structure Decoded where
  manifests : List BatchManifest
  recordsByPath : BTreeMap Bytes (Record × Bytes)
  ids : BTreeMap RecordId (List Bytes)
  legacy : List LegacyEntry

def decodeFile (registry : DomainRegistry) (decoded : Decoded) (file : RawFile) :
    Except StoreCorruption Decoded := do
  match ← decodeVisibleFile file registry with
  | .manifest manifest => return { decoded with manifests := decoded.manifests ++ [manifest] }
  | .record record =>
    return { decoded with
      ids := decoded.ids.update record.recordId [] (· ++ [file.path])
      recordsByPath := decoded.recordsByPath.insert file.path (record, file.bytes) }
  | .legacy entry => return { decoded with legacy := decoded.legacy ++ [entry] }

def Record.isReservedBuiltin (record : Record) : Bool := record.inIdentityDomain || record.isFolded

def validateLegacy (store : Store) (legacy : List LegacyEntry) : Except StoreCorruption Unit :=
  (store.legacy.validate legacy).mapError .invalidLegacy

def scanCollected (store : Store) (files : List RawFile) (nonregular : List Bytes) :
    Except StoreCorruption StoreSnapshot := do
  if let some path := nonregular.head? then throw (.nonRegularPath path)
  let decoded ← files.foldlM (decodeFile store.registry) ⟨[], ∅, ∅, []⟩
  if let some (recordId, paths) := decoded.ids.entries.find? (fun e => e.2.length > 1) then
    throw (.duplicateGlobalRecordId recordId (paths.insertionSort (· ≤ ·)))
  let manifests := decoded.manifests.insertionSort (fun a b => a.batchId ≤ b.batchId)
  validateGlobalIdempotency manifests
  let stored := decoded.recordsByPath.entries.map (fun e => (⟨e.1, e.2.2⟩ : StoredMember))
  let records := decoded.recordsByPath.values.map Prod.fst
  (validateBatchOwnership stored manifests store.registry).mapError .genericOwnership
  if !store.strictDomains && records.any Record.isReservedBuiltin then
    throw (.invalidDomainFold "wayjournal.reserved" "legacy-s1-s2"
      (.message "S3 built-in data cannot be opened in legacy mode"))
  let identity ←
    if store.strictDomains then do
      let identity ← (validateStoreIdentity manifests stored store.registry).mapError .invalidGenesis
      validateBuiltinFolds records
      pure identity
    else pure none
  validateLegacy store decoded.legacy
  let revision ← (computeStoreRevision (files.map (fun f => ⟨f.path, f.bytes, true⟩))).mapError
    .invalidRevision
  return ⟨revision, manifests, records, identity, decoded.legacy⟩

end

end Wayjournal
