import Wayjournal.Federation.Types
import Wayjournal.Store.Error

namespace Wayjournal

open Collections Serde

def MAX_PENDING_ROOT_BYTES : Nat := 64 * 1024
def MAX_BULK_ADDITIONS : Nat := MAX_CANONICAL_ENTRIES
def MAX_BULK_ADDITION_BYTES : Nat := MAX_TOTAL_CANONICAL_BYTES
def ADDITIONS_PER_CHUNK : Nat := 4096
def MAX_ADDITION_CHUNKS : Nat := 245
def PENDING_SCHEMA : String := "wayjournal.sync-pending/v1"

/-- `malformed` is `Invalid` with the text of the JSON library. -/
inductive PendingError
  | store (source : StoreError)
  | invalid (message : String)
  | malformed
  | oversized

structure PendingDocument [Url] where
  schema : String
  operationId : GitSyncOperationId
  phase : GitSyncPendingPhase
  logicalStoreId : LogicalStoreId
  localTrustBinding : LocalTrustBinding
  approvedRemote : ApprovedRemote
  objectFormat : GitObjectFormat
  originalBaseCommit : GitOid
  originalBaseRevision : StoreRevisionRef
  advanceFromCommit : GitOid
  advanceFromRevision : StoreRevisionRef
  observedLocalTip : GitOid
  expectedRemoteTip : GitOid
  candidateCommit : GitOid
  candidateRevision : StoreRevisionRef
  candidateParents : List GitOid
  additionsCount : Fin (2 ^ 64)
  additionsTotalBytes : Fin (2 ^ 64)
  additionsIndexDigest : Digest
  predecessorOperationId : Option GitSyncOperationId
  staleRemoteOid : Option GitOid
  deriving DecidableEq

def chunkCount (count : Nat) : Except PendingError Nat :=
  let chunks := (count + (ADDITIONS_PER_CHUNK - 1)) / ADDITIONS_PER_CHUNK
  if chunks > MAX_ADDITION_CHUNKS then .error (.invalid "addition chunk count exceeds capacity")
  else .ok chunks

def validateAdditionTotals (count bytes : Nat) : Except PendingError Unit := do
  if count > MAX_BULK_ADDITIONS then throw (.invalid "addition count exceeds store capacity")
  if bytes > MAX_BULK_ADDITION_BYTES then throw (.invalid "addition bytes exceed store capacity")
  let _ ← chunkCount count

section

variable [Url]

namespace PendingDocument

/-- The object ids whose format the document fixes. -/
def oids (document : PendingDocument) : List GitOid :=
  [document.originalBaseCommit, document.advanceFromCommit, document.observedLocalTip,
    document.expectedRemoteTip, document.candidateCommit] ++ document.candidateParents ++
    document.staleRemoteOid.toList

def validate (document : PendingDocument) : Except PendingError Unit := do
  if document.schema ≠ PENDING_SCHEMA then throw (.invalid "unsupported schema")
  validateAdditionTotals document.additionsCount document.additionsTotalBytes
  if document.oids.any (fun oid => oid.format ≠ document.objectFormat) then
    throw (.invalid "object formats do not agree")
  if document.candidateParents.isEmpty || !ascending document.candidateParents then
    throw (.invalid "candidate parents are not sorted and unique")
  match document.phase with
  | .remoteCasStale =>
    if document.staleRemoteOid.isNone then throw (.invalid "stale phase has no observed remote")
  | .remoteCasConfirmed =>
    if document.staleRemoteOid.isSome then
      throw (.invalid "confirmed phase has stale remote evidence")
  | _ => pure ()

def fields : List String :=
  ["schema", "operation_id", "phase", "logical_store_id", "local_trust_binding", "approved_remote",
    "object_format", "original_base_commit", "original_base_revision", "advance_from_commit",
    "advance_from_revision", "observed_local_tip", "expected_remote_tip", "candidate_commit",
    "candidate_revision", "candidate_parents", "additions_count", "additions_total_bytes",
    "additions_index_digest", "predecessor_operation_id", "stale_remote_oid"]

def logicalStoreIdValue (id : LogicalStoreId) : Json :=
  .object (.ofList [("store_uuid", .string id.storeUuid.display),
    ("genesis_fingerprint", .string id.genesisFingerprint.display)])

def revisionValue (revision : StoreRevisionRef) : Json :=
  .object (.ofList [("algorithm", .string revision.algorithm.asStr),
    ("digest", .string revision.digest.display)])

def remoteValue (remote : ApprovedRemote) : Json :=
  .object (.ofList [("locator", .string remote.locator.asStr),
    ("reference", .string remote.reference.asStr)])

def optionValue {α : Type} (value : α → Json) : Option α → Json
  | none => .null
  | some a => value a

/-- The values of `fields`. -/
def values (document : PendingDocument) : List Json :=
  [.string document.schema, .string document.operationId.display, .string document.phase.asStr,
    logicalStoreIdValue document.logicalStoreId,
    .string document.localTrustBinding.asDigest.display, remoteValue document.approvedRemote,
    .string document.objectFormat.asStr, document.originalBaseCommit.toValue,
    revisionValue document.originalBaseRevision, document.advanceFromCommit.toValue,
    revisionValue document.advanceFromRevision, document.observedLocalTip.toValue,
    document.expectedRemoteTip.toValue, document.candidateCommit.toValue,
    revisionValue document.candidateRevision, .array (document.candidateParents.map GitOid.toValue),
    .number (.posInt document.additionsCount), .number (.posInt document.additionsTotalBytes),
    .string document.additionsIndexDigest.display,
    optionValue (fun id => .string id.display) document.predecessorOperationId,
    optionValue GitOid.toValue document.staleRemoteOid]

/-- `serde_json::to_value`. -/
def toValue (document : PendingDocument) : Json := .object (.ofList (fields.zip document.values))

instance : Deserialize PendingDocument where
  fromValue v := do
    let [schema, operationId, phase, logicalStoreId, localTrustBinding, approvedRemote, objectFormat,
      originalBaseCommit, originalBaseRevision, advanceFromCommit, advanceFromRevision,
      observedLocalTip, expectedRemoteTip, candidateCommit, candidateRevision, candidateParents,
      additionsCount, additionsTotalBytes, additionsIndexDigest, predecessorOperationId,
      staleRemoteOid] ← structFields fields v | none
    return ⟨← required schema, ← required operationId, ← required phase, ← required logicalStoreId,
      ← required localTrustBinding, ← required approvedRemote, ← required objectFormat,
      ← required originalBaseCommit, ← required originalBaseRevision, ← required advanceFromCommit,
      ← required advanceFromRevision, ← required observedLocalTip, ← required expectedRemoteTip,
      ← required candidateCommit, ← required candidateRevision, ← required candidateParents,
      ← required additionsCount, ← required additionsTotalBytes, ← required additionsIndexDigest,
      ← optional v predecessorOperationId, ← optional v staleRemoteOid⟩

end PendingDocument

def encodeDocument (document : PendingDocument) : Except PendingError Bytes := do
  document.validate
  let bytes ← (encodePretty document.toValue).mapError (fun _ => .malformed)
  if bytes.length > MAX_PENDING_ROOT_BYTES then throw .oversized
  return bytes

def decodeDocument (bytes : Bytes) : Except PendingError PendingDocument := do
  if bytes.length > MAX_PENDING_ROOT_BYTES then throw .oversized
  let value ← (decodeStrict bytes).mapError (fun _ => .malformed)
  let some document := (fromValue value : Option PendingDocument) | throw .malformed
  document.validate
  let canonical ← (encodePretty value).mapError (fun _ => .malformed)
  if canonical ≠ bytes then throw (.invalid "pending root is not canonical JSON")
  return document

end

end Wayjournal
