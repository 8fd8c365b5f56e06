import Wayjournal.Federation.Pending

namespace Wayjournal

open Collections Crash Fs Serde Text

def QUARANTINE_SCHEMA : String := "wayjournal.git-quarantine/v1"
def MAX_INCIDENT_BYTES : Nat := 16 * 1024
def MAX_INCIDENTS : Nat := 1024

inductive GitQuarantineReason
  | deletion
  | modification
  | rollbackNonAncestry
  | missingApprovedRef
  | invalidCommitSnapshot
  | malformedHistory
  | pathCollision
  | uuidCollision
  | idempotencyCollision
  | logicalIdentityMismatch
  | trustMismatch
  | unapprovedRemoteRef
  | unsafeRepositoryState
  | hostilePublicationState
  deriving DecidableEq

namespace GitQuarantineReason

/-- `reason_string`, which is also the name the derived codec writes. -/
def reasonString : GitQuarantineReason → String
  | .deletion => "deletion"
  | .modification => "modification"
  | .rollbackNonAncestry => "rollback_non_ancestry"
  | .missingApprovedRef => "missing_approved_ref"
  | .invalidCommitSnapshot => "invalid_commit_snapshot"
  | .malformedHistory => "malformed_history"
  | .pathCollision => "path_collision"
  | .uuidCollision => "uuid_collision"
  | .idempotencyCollision => "idempotency_collision"
  | .logicalIdentityMismatch => "logical_identity_mismatch"
  | .trustMismatch => "trust_mismatch"
  | .unapprovedRemoteRef => "unapproved_remote_ref"
  | .unsafeRepositoryState => "unsafe_repository_state"
  | .hostilePublicationState => "hostile_publication_state"

def all : List GitQuarantineReason :=
  [.deletion, .modification, .rollbackNonAncestry, .missingApprovedRef, .invalidCommitSnapshot,
    .malformedHistory, .pathCollision, .uuidCollision, .idempotencyCollision, .logicalIdentityMismatch,
    .trustMismatch, .unapprovedRemoteRef, .unsafeRepositoryState, .hostilePublicationState]

def parse (input : String) : Option GitQuarantineReason := all.find? (fun r => r.reasonString = input)

theorem parse_reasonString (r : GitQuarantineReason) : parse r.reasonString = some r := by
  cases r <;> decide

end GitQuarantineReason

instance : Deserialize GitQuarantineReason where
  fromValue v :=
    match v.view with
    | .string s => GitQuarantineReason.parse s
    | .object members =>
      match members.entries with
      | [(name, value)] =>
        match value.view with
        | .null => GitQuarantineReason.parse name
        | _ => none
      | _ => none
    | _ => none

/-- `malformed` is `Invalid` with the text of the JSON library. -/
inductive QuarantineError
  | store (source : StoreError)
  | oversized
  | invalid (message : String)
  | malformed
  | capacityExhausted
  | authorityMismatch

abbrev QuarantineM := Program Disk QuarantineError

instance : MonadLift DiskM QuarantineM := ⟨Program.mapError .store⟩

section

variable [Url]

/-- The parts of a request that the protocol reads; the executable is the Git that runs. -/
structure GitSyncRequest where
  localTrust : LocalTrustBinding
  approvedRemote : ApprovedRemote
  deriving DecidableEq

structure QuarantineIncident where
  schema : String
  incidentId : QuarantineIncidentId
  reason : GitQuarantineReason
  logicalStoreId : LogicalStoreId
  localTrustBinding : LocalTrustBinding
  approvedRemote : ApprovedRemote
  checkpointCommit : GitOid
  checkpointRevision : StoreRevisionRef
  observedCommit : Option GitOid
  evidenceDigest : Digest
  deriving DecidableEq

namespace QuarantineIncident

def validate (incident : QuarantineIncident) : Except QuarantineError Unit := do
  if incident.schema ≠ QUARANTINE_SCHEMA then throw (.invalid "unsupported schema")
  if incident.observedCommit.any (fun observed => observed.format ≠ incident.checkpointCommit.format) then
    throw (.invalid "observed and checkpoint object formats differ")

def fields : List String :=
  ["schema", "incident_id", "reason", "logical_store_id", "local_trust_binding", "approved_remote",
    "checkpoint_commit", "checkpoint_revision", "observed_commit", "evidence_digest"]

/-- The values of `fields`. -/
def values (incident : QuarantineIncident) : List Json :=
  [.string incident.schema, .string incident.incidentId.display, .string incident.reason.reasonString,
    PendingDocument.logicalStoreIdValue incident.logicalStoreId,
    .string incident.localTrustBinding.asDigest.display, PendingDocument.remoteValue incident.approvedRemote,
    incident.checkpointCommit.toValue, PendingDocument.revisionValue incident.checkpointRevision,
    PendingDocument.optionValue GitOid.toValue incident.observedCommit, .string incident.evidenceDigest.display]

/-- `serde_json::to_value`. -/
def toValue (incident : QuarantineIncident) : Json := .object (.ofList (fields.zip incident.values))

instance : Deserialize QuarantineIncident where
  fromValue v := do
    let [schema, incidentId, reason, logicalStoreId, localTrustBinding, approvedRemote, checkpointCommit,
      checkpointRevision, observedCommit, evidenceDigest] ← structFields fields v | none
    return ⟨← required schema, ← required incidentId, ← required reason, ← required logicalStoreId,
      ← required localTrustBinding, ← required approvedRemote, ← required checkpointCommit,
      ← required checkpointRevision, ← optional v observedCommit, ← required evidenceDigest⟩

end QuarantineIncident

def encodeIncident (incident : QuarantineIncident) : Except QuarantineError Bytes := do
  incident.validate
  let bytes ← (encodePretty incident.toValue).mapError (fun _ => .malformed)
  if bytes.length > MAX_INCIDENT_BYTES then throw .oversized
  return bytes

def decodeIncident (bytes : Bytes) : Except QuarantineError QuarantineIncident := do
  if bytes.length > MAX_INCIDENT_BYTES then throw .oversized
  let value ← (decodeStrict bytes).mapError (fun _ => .malformed)
  let some incident := (fromValue value : Option QuarantineIncident) | throw .malformed
  incident.validate
  let canonical ← (encodePretty value).mapError (fun _ => .malformed)
  if canonical ≠ bytes then throw (.invalid "incident is not canonical JSON")
  return incident

section

variable [ReadDir]

def ensureCapacity : QuarantineM Unit := do
  if (← Store.quarantineDir.boundedNames MAX_INCIDENTS).length ≥ MAX_INCIDENTS then throw .capacityExhausted

/-- The identifier in the name of an incident file. -/
def incidentIdOfName (name : Name) : Except QuarantineError QuarantineIncidentId := do
  let some text := fromUtf8 name.bytes | throw (.invalid "incident filename is not UTF-8")
  let some stem := text.toList.reverse.dropPrefix? ".json".toList.reverse |
    throw (.invalid "incident filename is not canonical")
  (LocalId.parse .incident (String.ofList stem.reverse)).mapError .invalid

def active (request : GitSyncRequest) : QuarantineM (Option QuarantineIncident) := do
  let names ← Store.quarantineDir.boundedNames MAX_INCIDENTS
  let some name := names.head? | return none
  if (← Store.quarantineDir.kind name) ≠ .regularFile then
    throw (.invalid "incident entry is not a regular file")
  let incidentId ← .ofExcept (incidentIdOfName name)
  let bytes ← Store.quarantineDir.openFile name
  if bytes.length > MAX_INCIDENT_BYTES then throw .oversized
  let incident ← .ofExcept (decodeIncident bytes)
  if incident.incidentId ≠ incidentId then throw (.invalid "incident filename and document differ")
  if incident.localTrustBinding ≠ request.localTrust || incident.approvedRemote ≠ request.approvedRemote then
    throw .authorityMismatch
  return some incident

section

variable [Blake3]

def QUARANTINE_EVIDENCE_DOMAIN : Bytes := asBytes "wayjournal-quarantine-evidence-v1\x00"

def evidenceDigest (reason : GitQuarantineReason) (checkpointCommit : GitOid) (observedCommit : Option GitOid)
    (operationId : Option GitSyncOperationId) : Digest :=
  Blake3.hash (QUARANTINE_EVIDENCE_DOMAIN ++ asBytes reason.reasonString ++ asBytes checkpointCommit.hex ++
    (observedCommit.map (fun oid => asBytes oid.hex)).getD [] ++
    (operationId.map (fun id => asBytes id.display)).getD [])

def QuarantineIncident.fileName (incident : QuarantineIncident) : Name := uuidJsonName incident.incidentId.uuid

/-- `incidentId` is the identifier that is drawn for a new incident. -/
def persist (incidentId : QuarantineIncidentId) (logicalStoreId : LogicalStoreId) (request : GitSyncRequest)
    (checkpointCommit : GitOid) (checkpointRevision : StoreRevisionRef) (reason : GitQuarantineReason)
    (observedCommit : Option GitOid) (operationId : Option GitSyncOperationId) :
    QuarantineM QuarantineIncident := do
  if let some existing ← active request then return existing
  ensureCapacity
  let incident : QuarantineIncident :=
    { schema := QUARANTINE_SCHEMA
      incidentId := incidentId
      reason := reason
      logicalStoreId := logicalStoreId
      localTrustBinding := request.localTrust
      approvedRemote := request.approvedRemote
      checkpointCommit := checkpointCommit
      checkpointRevision := checkpointRevision
      observedCommit := observedCommit
      evidenceDigest := evidenceDigest reason checkpointCommit observedCommit operationId }
  let bytes ← .ofExcept (encodeIncident incident)
  Store.quarantineDir.createFile incident.fileName
  Store.quarantineDir.writeAll incident.fileName bytes
  return incident

end

end

end

end Wayjournal
