import Wayjournal.Collections.Sorted
import Wayjournal.Federation.Types
import Wayjournal.Record.Codec

namespace Wayjournal

open Collections Serde Text

def REVISION_VECTOR_SCHEMA_V1 : String := "wayjournal.revision-vector/v1"
def VERIFIED_PROOF_SCHEMA_V1 : String := "wayjournal.verified-proof/v1"
def MAX_VECTOR_STORES : Nat := 256
def MAX_PROJECTION_BYTES : Nat := 8 * 1024 * 1024

def PROOF_ID_DOMAIN : Bytes := asBytes "wayjournal-proof-v1\x00"

/-- The texts of the JSON library's own errors are left out. -/
inductive ProjectionError
  | tooLarge
  | tooManyStores
  | tooManyProofs
  | invalidJson
  | duplicateKey (key : String)
  | floatNotAllowed
  | invalidDocument
  | unsupportedSchema
  | invalidRevisionOrder
  | invalidProofOrder
  | proofIdMismatch
  | nonCanonical
  deriving DecidableEq

def ProjectionError.ofStrict : StrictJsonError → ProjectionError
  | .invalid => .invalidJson
  | .duplicateKey key => .duplicateKey key
  | .floatNotAllowed => .floatNotAllowed

def StoreRevisionRef.toValue (revision : StoreRevisionRef) : Json :=
  .object (.ofList [("algorithm", .string revision.algorithm.asStr), ("digest", .string revision.digest.display)])

def LogicalStoreId.toValue (store : LogicalStoreId) : Json :=
  .object (.ofList [("store_uuid", .string store.storeUuid.display),
    ("genesis_fingerprint", .string store.genesisFingerprint.display)])

def QualifiedEntityRef.toValue (subject : QualifiedEntityRef) : Json :=
  .object (.ofList [("store", subject.store.toValue), ("domain", .string subject.domain.asStr),
    ("entity_id", .string subject.entityId.display)])

def requireSize (bytes : Bytes) : Except ProjectionError Unit :=
  if bytes.length > MAX_PROJECTION_BYTES then throw .tooLarge else return ()

/-- `encode_raw` of the value a raw document serializes to. -/
def encodeRaw (value : Json) : Except ProjectionError Bytes := do
  let bytes ← (encodePretty value).mapError .ofStrict
  requireSize bytes
  return bytes

structure RevisionVectorEntry where
  store : LogicalStoreId
  revision : StoreRevisionRef
  deriving DecidableEq

namespace RevisionVectorEntry

def fields : List String := ["revision", "store"]

def toValue (entry : RevisionVectorEntry) : Json :=
  .object (.ofList (fields.zip [entry.revision.toValue, entry.store.toValue]))

end RevisionVectorEntry

instance : Deserialize RevisionVectorEntry where
  fromValue v := do
    let [revision, store] ← structFields RevisionVectorEntry.fields v | none
    let revision ← required revision
    return ⟨← required store, revision⟩

def validateRevisionEntries (entries : List RevisionVectorEntry) : Except ProjectionError Unit := do
  if entries.length > MAX_VECTOR_STORES then throw .tooManyStores
  if !ascending (entries.map RevisionVectorEntry.store) then throw .invalidRevisionOrder

structure RevisionVector where
  entries : List RevisionVectorEntry
  valid : validateRevisionEntries entries = .ok ()
  deriving DecidableEq

def RevisionVector.new (entries : List RevisionVectorEntry) : Except ProjectionError RevisionVector :=
  match h : validateRevisionEntries entries with
  | .error e => .error e
  | .ok () => .ok ⟨entries, h⟩

theorem RevisionVector.entries_of_new {entries : List RevisionVectorEntry} {vector : RevisionVector}
    (h : RevisionVector.new entries = .ok vector) : vector.entries = entries := by
  unfold RevisionVector.new at h
  split at h
  · cases h
  · cases h
    rfl

structure RawRevisionVector where
  entries : List RevisionVectorEntry
  schema : String

namespace RawRevisionVector

def fields : List String := ["entries", "schema"]

def toValue (raw : RawRevisionVector) : Json :=
  .object (.ofList (fields.zip [.array (raw.entries.map RevisionVectorEntry.toValue), .string raw.schema]))

end RawRevisionVector

instance : Deserialize RawRevisionVector where
  fromValue v := do
    let [entries, schema] ← structFields RawRevisionVector.fields v | none
    return ⟨← required entries, ← required schema⟩

def encodeRevisionVector (vector : RevisionVector) : Except ProjectionError Bytes := do
  validateRevisionEntries vector.entries
  encodeRaw (RawRevisionVector.toValue ⟨vector.entries, REVISION_VECTOR_SCHEMA_V1⟩)

def decodeRevisionVector (bytes : Bytes) : Except ProjectionError RevisionVector := do
  requireSize bytes
  let value ← (decodeStrict bytes).mapError .ofStrict
  let some raw := (fromValue value : Option RawRevisionVector) | throw .invalidDocument
  if raw.schema ≠ REVISION_VECTOR_SCHEMA_V1 then throw .unsupportedSchema
  if raw.entries.length > MAX_VECTOR_STORES then throw .tooManyStores
  let vector ← RevisionVector.new raw.entries
  if (← encodeRevisionVector vector) ≠ bytes then throw .nonCanonical
  return vector

structure ProofId where
  asDigest : Digest
  deriving DecidableEq

namespace ProofId

theorem asDigest_injective : Function.Injective asDigest := by
  rintro ⟨a⟩ ⟨b⟩ h
  cases h
  rfl

instance : LinearOrder ProofId := LinearOrder.lift' asDigest asDigest_injective

def parse (input : String) : Option ProofId := (Digest.parse input).map ProofId.mk

def display (id : ProofId) : String := id.asDigest.display

end ProofId

instance : Deserialize ProofId where
  fromValue v := (fromValue v : Option String).bind ProofId.parse

section

variable [Jiff]

instance : Deserialize RecordTimestamp := ⟨fromText⟩

structure VerifiedProof where
  proofId : ProofId
  subject : QualifiedEntityRef
  recordId : RecordId
  sourceRevision : StoreRevisionRef
  localTrustBinding : LocalTrustBinding
  observedAt : RecordTimestamp
  deriving DecidableEq

section

variable [Blake3]

def computeProofId (subject : QualifiedEntityRef) (recordId : RecordId) (sourceRevision : StoreRevisionRef)
    (localTrustBinding : LocalTrustBinding) (observedAt : RecordTimestamp) : ProofId :=
  ⟨Blake3.hash (PROOF_ID_DOMAIN ++ [asBytes VERIFIED_PROOF_SCHEMA_V1, asBytes subject.store.storeUuid.display,
    asBytes subject.store.genesisFingerprint.display, asBytes subject.domain.asStr, asBytes subject.entityId.display,
    asBytes recordId.display, asBytes sourceRevision.algorithm.asStr, asBytes sourceRevision.digest.display,
    asBytes localTrustBinding.asDigest.display, asBytes observedAt.display].flatMap frame)⟩

namespace VerifiedProof

def fromCheckpoint (subject : QualifiedEntityRef) (recordId : RecordId) (sourceRevision : StoreRevisionRef)
    (localTrustBinding : LocalTrustBinding) (observedAt : RecordTimestamp) : VerifiedProof :=
  ⟨computeProofId subject recordId sourceRevision localTrustBinding observedAt, subject, recordId, sourceRevision,
    localTrustBinding, observedAt⟩

def recomputedProofId (proof : VerifiedProof) : ProofId :=
  computeProofId proof.subject proof.recordId proof.sourceRevision proof.localTrustBinding proof.observedAt

end VerifiedProof

structure RawVerifiedProof where
  localTrustBinding : LocalTrustBinding
  observedAt : RecordTimestamp
  proofId : ProofId
  recordId : RecordId
  schema : String
  sourceRevision : StoreRevisionRef
  subject : QualifiedEntityRef

namespace RawVerifiedProof

def fields : List String :=
  ["local_trust_binding", "observed_at", "proof_id", "record_id", "schema", "source_revision", "subject"]

def values (raw : RawVerifiedProof) : List Json :=
  [.string raw.localTrustBinding.asDigest.display, .string raw.observedAt.display, .string raw.proofId.display,
    .string raw.recordId.display, .string raw.schema, raw.sourceRevision.toValue, raw.subject.toValue]

def toValue (raw : RawVerifiedProof) : Json := .object (.ofList (fields.zip raw.values))

def ofProof (proof : VerifiedProof) : RawVerifiedProof :=
  ⟨proof.localTrustBinding, proof.observedAt, proof.proofId, proof.recordId, VERIFIED_PROOF_SCHEMA_V1,
    proof.sourceRevision, proof.subject⟩

def toProof (raw : RawVerifiedProof) : Except ProjectionError VerifiedProof := do
  if raw.schema ≠ VERIFIED_PROOF_SCHEMA_V1 then throw .unsupportedSchema
  let proof : VerifiedProof :=
    ⟨raw.proofId, raw.subject, raw.recordId, raw.sourceRevision, raw.localTrustBinding, raw.observedAt⟩
  if proof.proofId ≠ proof.recomputedProofId then throw .proofIdMismatch
  return proof

end RawVerifiedProof

instance : Deserialize RawVerifiedProof where
  fromValue v := do
    let [localTrustBinding, observedAt, proofId, recordId, schema, sourceRevision, subject] ←
      structFields RawVerifiedProof.fields v | none
    return ⟨← required localTrustBinding, ← required observedAt, ← required proofId, ← required recordId,
      ← required schema, ← required sourceRevision, ← required subject⟩

def encodeVerifiedProof (proof : VerifiedProof) : Except ProjectionError Bytes := do
  if proof.proofId ≠ proof.recomputedProofId then throw .proofIdMismatch
  encodeRaw (RawVerifiedProof.ofProof proof).toValue

def decodeVerifiedProof (bytes : Bytes) : Except ProjectionError VerifiedProof := do
  requireSize bytes
  let value ← (decodeStrict bytes).mapError .ofStrict
  let some raw := (fromValue value : Option RawVerifiedProof) | throw .invalidDocument
  let proof ← raw.toProof
  if (← encodeVerifiedProof proof) ≠ bytes then throw .nonCanonical
  return proof

end

end

end Wayjournal
