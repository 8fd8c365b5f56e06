import Wayjournal.Batch.Manifest
import Wayjournal.Revision

namespace Wayjournal

open Collections Serde Text

def IDENTITY_SCHEMA_V1 : String := "wayjournal.identity/v1"
def IDENTITY_DOMAIN : String := "wayjournal.identity"
def GENESIS_FINGERPRINT_DOMAIN : Bytes := asBytes "wayjournal-genesis-v1\x00"

structure ForkProvenance where
  parent : LogicalStoreId
  parentRevision : StoreRevisionRef
  deriving DecidableEq

instance : Deserialize ForkProvenance where
  fromValue v := do
    let [parent, parentRevision] ← structFields ["parent", "parent_revision"] v | none
    return ⟨← required parent, ← required parentRevision⟩

structure StoreIdentity where
  logicalId : LogicalStoreId
  storeKind : KindId
  forkedFrom : Option ForkProvenance
  genesisRecordId : RecordId
  deriving DecidableEq

/-- `malformedPayload` is `InvalidRecord` with the text of the JSON library, and
the other texts of `InvalidRecord` are kept as the errors they print. -/
inductive GenesisError
  | missingGenesis
  | duplicateGenesis
  | genesisNotFirst
  | entityMismatch
  | forkReusesParentUuid
  | invalidRecord (message : String)
  | invalidBatch (source : BatchError)
  | undecodableRecord (source : RecordCodecError)
  | malformedPayload
  | memberIdentityMismatch
  | memberActorMismatch
  | memberBatchMismatch
  | duplicateMember
  | incompleteMembers
  deriving DecidableEq

def GenesisError.ofBatch : BatchError → GenesisError
  | .memberIdentityMismatch _ => .memberIdentityMismatch
  | .memberActorMismatch _ => .memberActorMismatch
  | .memberBatchMismatch _ => .memberBatchMismatch
  | other => .invalidBatch other

structure GenesisPayload where
  storeKind : KindId
  storeUuid : StoreUuid
  forkedFrom : Option ForkProvenance
  deriving DecidableEq

instance : Deserialize GenesisPayload where
  fromValue v := do
    let [storeKind, storeUuid, forkedFrom] ←
      structFields ["store_kind", "store_uuid", "forked_from"] v | none
    return ⟨← required storeKind, ← required storeUuid, ← defaulted none forkedFrom⟩

def GenesisPayload.reusesParent (payload : GenesisPayload) : Bool :=
  payload.forkedFrom.any (fun fork => fork.parent.storeUuid = payload.storeUuid)

section

variable [Jiff] [Blake3]

def genesisFingerprint (path bytes : Bytes) : Digest :=
  Blake3.hash (GENESIS_FINGERPRINT_DOMAIN ++ (frame path ++ frame bytes))

def Record.inIdentityDomain (record : Record) : Bool := record.domain.asStr = IDENTITY_DOMAIN

def Record.unsupportedIdentity (record : Record) : Bool :=
  record.inIdentityDomain && record.recordSchema.asStr ≠ IDENTITY_SCHEMA_V1

def Record.isGenesis (record : Record) : Bool :=
  record.inIdentityDomain && record.recordSchema.asStr = IDENTITY_SCHEMA_V1 &&
    record.kind.asStr = "store.genesis"

/-- The end of both identity checks, on the only genesis record. -/
def identityOfGenesis (path bytes : Bytes) (record : Record) :
    Except GenesisError (Option StoreIdentity) :=
  match (fromValue record.payload : Option GenesisPayload) with
  | none => .error .malformedPayload
  | some payload =>
    if record.entityId.uuid ≠ payload.storeUuid.uuid then .error .entityMismatch
    else if payload.reusesParent then .error .forkReusesParentUuid
    else .ok (some
      { logicalId := ⟨payload.storeUuid, genesisFingerprint path bytes⟩
        storeKind := payload.storeKind
        forkedFrom := payload.forkedFrom
        genesisRecordId := record.recordId })

def checkManifestMembers (byPath : BTreeMap Bytes Bytes) (registry : DomainRegistry)
    (ids : BTreeSet BatchId) (manifest : BatchManifest) : Except GenesisError (BTreeSet BatchId) := do
  if ids.containsKey manifest.batchId then throw .incompleteMembers
  let members ← manifest.members.mapM (fun reference =>
    match byPath.get? (asBytes reference.path) with
    | none => Except.error GenesisError.incompleteMembers
    | some bytes => .ok (⟨asBytes reference.path, bytes⟩ : StoredMember))
  let _ ← (validateBatchMembers manifest members registry).mapError .ofBatch
  return ids.insert manifest.batchId ()

def decodeIdentityMember (registry : DomainRegistry) (member : StoredMember) :
    Except GenesisError (StoredMember × Record) := do
  let record ← (decodeRecord member.bytes registry).mapError .undecodableRecord
  if asBytes record.canonicalPath ≠ member.path then
    throw (.invalidRecord "member path does not equal record canonical path")
  return (member, record)

def validateStoreIdentity (manifests : List BatchManifest) (members : List StoredMember)
    (registry : DomainRegistry) : Except GenesisError (Option StoreIdentity) := do
  if manifests.isEmpty && members.isEmpty then return none
  let byPath := BTreeMap.ofList (members.map (fun m => (m.path, m.bytes)))
  if byPath.entries.length ≠ members.length then throw .duplicateMember
  let sorted := manifests.insertionSort (fun a b => a.canonicalPath ≤ b.canonicalPath)
  let _ ← sorted.foldlM (checkManifestMembers byPath registry) ∅
  let manifestPaths := BTreeSet.ofKeys
    (manifests.flatMap (fun m => m.members.map (fun r => asBytes r.path)))
  if manifestPaths.keys ≠ byPath.keys then throw .incompleteMembers
  let decoded ← members.mapM (decodeIdentityMember registry)
  if decoded.any (fun d => d.2.unsupportedIdentity) then
    throw (.invalidRecord "unsupported record in reserved identity domain")
  match decoded.filter (fun d => d.2.isGenesis) with
  | [] => throw .missingGenesis
  | [(member, record)] =>
    let some first := sorted.head? | throw .missingGenesis
    if record.batchId ≠ first.batchId then throw .genesisNotFirst
    if first.members.map RecordRef.recordId ≠ [record.recordId] then throw .genesisNotFirst
    identityOfGenesis member.path member.bytes record
  | _ => throw .duplicateGenesis

/-- The first batch by path, its number of members and its first member. -/
structure FirstBatch where
  batchId : BatchId
  memberCount : Nat
  firstMember : Option RecordId
  deriving DecidableEq

def validateReplayedIdentity (manifests members : Nat) (firstBatch : Option FirstBatch)
    (unsupportedIdentitySchema : Bool) (genesisCount : Nat)
    (genesis : Option (StoredMember × Record)) : Except GenesisError (Option StoreIdentity) := do
  if manifests = 0 ∧ members = 0 then return none
  if unsupportedIdentitySchema then
    throw (.invalidRecord "unsupported record in reserved identity domain")
  if genesisCount = 0 then throw .missingGenesis
  if genesisCount ≠ 1 then throw .duplicateGenesis
  let some (member, record) := genesis | throw .missingGenesis
  let some first := firstBatch | throw .missingGenesis
  if record.batchId ≠ first.batchId || first.memberCount ≠ 1
      || first.firstMember ≠ some record.recordId then
    throw .genesisNotFirst
  identityOfGenesis member.path member.bytes record

end

end Wayjournal
