import Wayjournal.Layout
import Wayjournal.Json.Serde
import Wayjournal.Record.Codec

namespace Wayjournal

open Collections Serde Text

def BATCH_SCHEMA_V1 : String := "wayjournal.batch/v1"
def MAX_BATCH_BYTES : Nat := 1024 * 1024
def CONTENT_DIGEST_DOMAIN : Bytes := asBytes "wayjournal-content-v1\x00"
def REQUEST_DIGEST_DOMAIN : Bytes := asBytes "wayjournal-batch-request-v1\x00"
def IDEMPOTENCY_DIGEST_DOMAIN : Bytes := asBytes "wayjournal-idempotency-key-v1\x00"

structure RecordRef where
  path : String
  recordId : RecordId
  recordSchema : RecordSchemaId
  contentDigest : Digest
  deriving DecidableEq

structure BatchManifest where
  batchId : BatchId
  actor : ActorId
  members : List RecordRef
  idempotencyKeyDigest : Digest
  requestDigest : Digest
  deriving DecidableEq

def BatchManifest.canonicalPath (manifest : BatchManifest) : String :=
  "journal/batches/" ++ manifest.batchId.display ++ ".json"

structure StoredMember where
  path : Bytes
  bytes : Bytes
  deriving DecidableEq

/-- `malformedManifest` is `InvalidManifest` with the text of the JSON library. -/
inductive BatchError
  | emptyBatch
  | mixedBatchId (recordId : RecordId) (expected actual : BatchId)
  | mixedActor (recordId : RecordId) (expected actual : String)
  | duplicateRecordId (recordId : RecordId)
  | invalidRecord (recordId : RecordId) (source : RecordCodecError)
  | manifestTooLarge
  | invalidJson (source : StrictJsonError)
  | manifestNotObject
  | malformedManifest
  | invalidManifest (message : String)
  | unsupportedSchema (schema : String)
  | unsortedMembers
  | duplicateStoredPath (path : Bytes)
  | missingMember (path : String)
  | extraMember (path : Bytes)
  | invalidStoredRecord (path : Bytes) (source : RecordCodecError)
  | memberIdentityMismatch (path : String)
  | memberBatchMismatch (path : String)
  | memberActorMismatch (path : String)
  | memberDigestMismatch (path : String)
  | requestDigestMismatch
  | unownedRecord (path : Bytes)
  | multiplyOwnedRecord (path : Bytes)
  | ownershipMissingMember (path : Bytes)
  | idempotencyRequestMismatch (batchId : BatchId)
  | duplicateIdempotencyOwnership (batchIds : List BatchId)
  | nonCanonical
  | invalidDigest (value : String)
  deriving DecidableEq

structure RawRecordRef where
  contentDigest : String
  path : String
  recordId : String
  recordSchema : String

structure RawManifest where
  actor : String
  batchId : String
  idempotencyKeyDigest : String
  members : List RawRecordRef
  requestDigest : String
  schema : String

instance : Deserialize RawRecordRef where
  fromValue v := do
    let [contentDigest, path, recordId, recordSchema] ←
      structFields ["content_digest", "path", "record_id", "record_schema"] v | none
    return ⟨← required contentDigest, ← required path, ← required recordId, ← required recordSchema⟩

instance : Deserialize RawManifest where
  fromValue v := do
    let [actor, batchId, idempotencyKeyDigest, members, requestDigest, schema] ←
      structFields ["actor", "batch_id", "idempotency_key_digest", "members", "request_digest",
        "schema"] v | none
    return ⟨← required actor, ← required batchId, ← required idempotencyKeyDigest,
      ← required members, ← required requestDigest, ← required schema⟩

def recordRefMembers (member : RecordRef) : List (String × Json) :=
  [("content_digest", .string member.contentDigest.display),
    ("path", .string member.path),
    ("record_id", .string member.recordId.display),
    ("record_schema", .string member.recordSchema.asStr)]

def manifestMembers (manifest : BatchManifest) : List (String × Json) :=
  [("actor", .string manifest.actor.asStr),
    ("batch_id", .string manifest.batchId.display),
    ("idempotency_key_digest", .string manifest.idempotencyKeyDigest.display),
    ("members", .array (manifest.members.map (fun m => .object (.ofList (recordRefMembers m))))),
    ("request_digest", .string manifest.requestDigest.display),
    ("schema", .string BATCH_SCHEMA_V1)]

/-- `serde_json::to_value` of the raw manifest. -/
def manifestValue (manifest : BatchManifest) : Json := .object (.ofList (manifestMembers manifest))

def encodeManifest (manifest : BatchManifest) : Except BatchError Bytes := do
  let bytes ← (encodePretty (manifestValue manifest)).mapError .invalidJson
  if bytes.length > MAX_BATCH_BYTES then throw .manifestTooLarge
  return bytes

def parseDigest (input : String) : Except BatchError Digest :=
  match Digest.parse input with
  | none => .error (.invalidDigest input)
  | some digest => .ok digest

def parseManifestField (α : Type) [FromStr α] (field input : String) : Except BatchError α :=
  (FromStr.fromStr input).mapError (fun e => .invalidManifest (field ++ ": " ++ e.message))

def endsWith (s suffix : String) : Bool := suffix.toList.isSuffixOf s.toList

def decodeMember (member : RawRecordRef) : Except BatchError RecordRef := do
  let recordId ← parseManifestField RecordId "record_id" member.recordId
  let recordSchema ← parseManifestField RecordSchemaId "record_schema" member.recordSchema
  let pathDomain := (splitPath member.path)[2]?
  let schemaDomain := (splitOnce '/' recordSchema.asStr.toList).map (fun p => String.ofList p.1)
  if !validateJournalRecordPath member.path || !endsWith member.path ("/" ++ recordId.display ++ ".json")
      || pathDomain ≠ schemaDomain then
    throw (.invalidManifest ("member path does not match record identity: " ++ member.path))
  let contentDigest ← parseDigest member.contentDigest
  return ⟨member.path, recordId, recordSchema, contentDigest⟩

def sortedMembers (members : List RecordRef) : Bool :=
  ascending (members.map RecordRef.path) && decide (members.map RecordRef.recordId).Nodup

def decodeBatchManifest (bytes : Bytes) : Except BatchError BatchManifest := do
  if bytes.length > MAX_BATCH_BYTES then throw .manifestTooLarge
  let value ← (decodeStrict bytes).mapError .invalidJson
  let .object object := value.view | throw .manifestNotObject
  let some schema := (object.get? "schema").bind (fromValue (α := String)) |
    throw (.invalidManifest "schema must be a string")
  if schema ≠ BATCH_SCHEMA_V1 then throw (.unsupportedSchema schema)
  let some raw := (fromValue value : Option RawManifest) | throw .malformedManifest
  if raw.members.isEmpty then throw .emptyBatch
  let members ← raw.members.mapM decodeMember
  if !sortedMembers members then throw .unsortedMembers
  let batchId ← parseManifestField BatchId "batch_id" raw.batchId
  let actor ← parseManifestField ActorId "actor" raw.actor
  let idempotencyKeyDigest ← parseDigest raw.idempotencyKeyDigest
  let requestDigest ← parseDigest raw.requestDigest
  let manifest : BatchManifest := ⟨batchId, actor, members, idempotencyKeyDigest, requestDigest⟩
  let encoded ← encodeManifest manifest
  if encoded ≠ bytes then throw .nonCanonical
  return manifest

section

variable [Jiff] [Blake3]

structure PreparedRecord where
  record : Record
  path : String
  bytes : Bytes

structure PreparedBatch where
  manifest : BatchManifest
  manifestPath : String
  manifestBytes : Bytes
  records : List PreparedRecord

def contentDigest (bytes : Bytes) : Digest := hashBytes CONTENT_DIGEST_DOMAIN bytes

def idempotencyDigest (actor : ActorId) (key : String) : Digest :=
  framedHash IDEMPOTENCY_DIGEST_DOMAIN [(asBytes actor.asStr, asBytes key)]

/-- The record ids seen so far and the records by path. -/
abbrev Prepared := BTreeSet RecordId × BTreeMap String PreparedRecord

def prepareRecord (expectedBatch : BatchId) (expectedActor : ActorId) (registry : DomainRegistry)
    (prepared : Prepared) (record : Record) : Except BatchError Prepared := do
  if record.batchId ≠ expectedBatch then
    throw (.mixedBatchId record.recordId expectedBatch record.batchId)
  if record.actor ≠ expectedActor then
    throw (.mixedActor record.recordId expectedActor.asStr record.actor.asStr)
  if prepared.1.containsKey record.recordId then throw (.duplicateRecordId record.recordId)
  let bytes ← (encodeRecord record registry).mapError (.invalidRecord record.recordId)
  let path := record.canonicalPath
  return (prepared.1.insert record.recordId (), prepared.2.insert path ⟨record, path, bytes⟩)

def prepareBatch (records : List Record) (idempotencyKey : String) (registry : DomainRegistry) :
    Except BatchError PreparedBatch := do
  let first :: _ := records | throw .emptyBatch
  let (_, sorted) ← records.foldlM (prepareRecord first.batchId first.actor registry) (∅, ∅)
  let records := sorted.values
  let manifest : BatchManifest :=
    { batchId := first.batchId
      actor := first.actor
      members := records.map (fun r =>
        ⟨r.path, r.record.recordId, r.record.recordSchema, contentDigest r.bytes⟩)
      idempotencyKeyDigest := idempotencyDigest first.actor idempotencyKey
      requestDigest := framedHash REQUEST_DIGEST_DOMAIN (records.map (fun r => (asBytes r.path, r.bytes))) }
  let manifestBytes ← encodeManifest manifest
  return ⟨manifest, manifest.canonicalPath, manifestBytes, records⟩

/-- The checks of one member of a manifest against the stored bytes. -/
def validateMember (manifest : BatchManifest) (registry : DomainRegistry) (reference : RecordRef)
    (bytes : Bytes) : Except BatchError Record := do
  if contentDigest bytes ≠ reference.contentDigest then throw (.memberDigestMismatch reference.path)
  let record ← (decodeRecord bytes registry).mapError (.invalidStoredRecord (asBytes reference.path))
  if record.canonicalPath ≠ reference.path || record.recordId ≠ reference.recordId
      || record.recordSchema ≠ reference.recordSchema then
    throw (.memberIdentityMismatch reference.path)
  if record.batchId ≠ manifest.batchId then throw (.memberBatchMismatch reference.path)
  if record.actor ≠ manifest.actor then throw (.memberActorMismatch reference.path)
  return record

/-- The members not claimed yet, what is hashed and the decoded records. -/
abbrev Claimed := BTreeMap Bytes Bytes × List (Bytes × Bytes) × List Record

def claimMember (manifest : BatchManifest) (registry : DomainRegistry) (claimed : Claimed)
    (reference : RecordRef) : Except BatchError Claimed := do
  let path := asBytes reference.path
  let some bytes := claimed.1.get? path | throw (.missingMember reference.path)
  let record ← validateMember manifest registry reference bytes
  return (claimed.1.erase path, claimed.2.1 ++ [(path, bytes)], claimed.2.2 ++ [record])

def insertMember (byPath : BTreeMap Bytes Bytes) (member : StoredMember) :
    Except BatchError (BTreeMap Bytes Bytes) :=
  if byPath.containsKey member.path then .error (.duplicateStoredPath member.path)
  else .ok (byPath.insert member.path member.bytes)

def validateBatchMembers (manifest : BatchManifest) (members : List StoredMember)
    (registry : DomainRegistry) : Except BatchError (List Record) := do
  let byPath ← members.foldlM insertMember ∅
  let (rest, hashed, decoded) ← manifest.members.foldlM (claimMember manifest registry) (byPath, [], [])
  if let some path := rest.keys.head? then throw (.extraMember path)
  if framedHash REQUEST_DIGEST_DOMAIN hashed ≠ manifest.requestDigest then throw .requestDigestMismatch
  return decoded

def checkStoredRecord (registry : DomainRegistry) (paths : BTreeSet Bytes) (record : StoredMember) :
    Except BatchError (BTreeSet Bytes) := do
  if paths.containsKey record.path then throw (.duplicateStoredPath record.path)
  let _ ← (decodeRecord record.bytes registry).mapError (.invalidStoredRecord record.path)
  return paths.insert record.path ()

/-- How many manifests name each path. -/
abbrev Ownership := BTreeMap Bytes Nat

def ownManifest (byPath : BTreeMap Bytes Bytes) (registry : DomainRegistry) (ownership : Ownership)
    (manifest : BatchManifest) : Except BatchError Ownership := do
  let members ← manifest.members.mapM (fun member =>
    match byPath.get? (asBytes member.path) with
    | none => Except.error (.ownershipMissingMember (asBytes member.path))
    | some bytes => .ok (⟨asBytes member.path, bytes⟩ : StoredMember))
  let _ ← validateBatchMembers manifest members registry
  return manifest.members.foldl (fun o member => o.update (asBytes member.path) 0 (· + 1)) ownership

def validateBatchOwnership (records : List StoredMember) (manifests : List BatchManifest)
    (registry : DomainRegistry) : Except BatchError Unit := do
  let recordPaths ← records.foldlM (checkStoredRecord registry) ∅
  let byPath := BTreeMap.ofList (records.map (fun r => (r.path, r.bytes)))
  let ownership ← manifests.foldlM (ownManifest byPath registry) ∅
  for path in recordPaths.keys do
    match (ownership.get? path).getD 0 with
    | 0 => throw (.unownedRecord path)
    | 1 => pure ()
    | _ => throw (.multiplyOwnedRecord path)
  if let some path := ownership.keys.find? (fun path => !recordPaths.containsKey path) then
    throw (.ownershipMissingMember path)

inductive IdempotencyDecision
  | new
  | replay (manifest : BatchManifest)
  deriving DecidableEq

def classifyIdempotency (manifests : List BatchManifest) (actor : ActorId) (key : String)
    (requestDigest : Digest) : Except BatchError IdempotencyDecision :=
  let digest := idempotencyDigest actor key
  let owners := (manifests.filter (fun m => m.actor = actor && m.idempotencyKeyDigest = digest)).insertionSort
    (fun a b => a.batchId ≤ b.batchId)
  match owners with
  | [] => .ok .new
  | [manifest] =>
    if manifest.requestDigest = requestDigest then .ok (.replay manifest)
    else .error (.idempotencyRequestMismatch manifest.batchId)
  | owners => .error (.duplicateIdempotencyOwnership (owners.map BatchManifest.batchId))

end

end Wayjournal
