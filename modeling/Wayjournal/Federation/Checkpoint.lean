import Wayjournal.Federation.Pending

namespace Wayjournal

open Collections Crash Fs Serde Text

def ADMISSION_CHECKPOINT_FILENAME : String := "admission-v1.json"
def MAX_ADMISSION_CHECKPOINT_BYTES : Nat := 8 * 1024
def CHECKPOINT_SCHEMA : String := "wayjournal.admission-checkpoint/v1"

/-- `malformed` is `Invalid` with the text of another error. -/
inductive CheckpointError
  | store (source : StoreError)
  | oversized
  | invalid (message : String)
  | malformed
  | expectedOldMismatch
  | replacementMismatch

abbrev CheckpointM := Program Disk CheckpointError

instance : MonadLift DiskM CheckpointM := ⟨Program.mapError .store⟩

def Name.admissionCheckpoint : Name := ⟨asBytes ADMISSION_CHECKPOINT_FILENAME, by decide⟩

def CHECKPOINT_TEMPORARY : String := "." ++ ADMISSION_CHECKPOINT_FILENAME ++ ".tmp-"

/-- `.admission-v1.json.tmp-{uuid}`. -/
def checkpointTemporary (u : Uuid) : Name :=
  ⟨asBytes (CHECKPOINT_TEMPORARY ++ u.hyphenated),
    validComponent_dotted ⟨0x61, asBytes "dmission-v1.json.tmp-", by decide, by decide⟩ (by decide) u⟩

section

variable [Url]

structure AdmissionCheckpoint where
  logicalStoreId : LogicalStoreId
  localTrustBinding : LocalTrustBinding
  approvedRemote : ApprovedRemote
  acceptedCommit : GitOid
  acceptedRevision : StoreRevisionRef
  deriving DecidableEq

structure RawCheckpoint where
  acceptedCommit : String
  acceptedGitObjectFormat : GitObjectFormat
  acceptedRevisionAlgorithm : String
  acceptedRevisionDigest : String
  genesisFingerprint : String
  localTrustBinding : String
  remoteLocator : String
  remoteRef : String
  schema : String
  storeUuid : String

def RawCheckpoint.fields : List String :=
  ["accepted_commit", "accepted_git_object_format", "accepted_revision_algorithm", "accepted_revision_digest",
    "genesis_fingerprint", "local_trust_binding", "remote_locator", "remote_ref", "schema", "store_uuid"]

instance : Deserialize RawCheckpoint where
  fromValue v := do
    let [acceptedCommit, acceptedGitObjectFormat, acceptedRevisionAlgorithm, acceptedRevisionDigest,
      genesisFingerprint, localTrustBinding, remoteLocator, remoteRef, schema, storeUuid] ←
        structFields RawCheckpoint.fields v | none
    return ⟨← required acceptedCommit, ← required acceptedGitObjectFormat, ← required acceptedRevisionAlgorithm,
      ← required acceptedRevisionDigest, ← required genesisFingerprint, ← required localTrustBinding,
      ← required remoteLocator, ← required remoteRef, ← required schema, ← required storeUuid⟩

/-- The values of `RawCheckpoint.fields`. -/
def AdmissionCheckpoint.values (checkpoint : AdmissionCheckpoint) : List Json :=
  [.string checkpoint.acceptedCommit.hex, .string checkpoint.acceptedCommit.format.asStr,
    .string checkpoint.acceptedRevision.algorithm.asStr, .string checkpoint.acceptedRevision.digest.display,
    .string checkpoint.logicalStoreId.genesisFingerprint.display,
    .string checkpoint.localTrustBinding.asDigest.display, .string checkpoint.approvedRemote.locator.asStr,
    .string checkpoint.approvedRemote.reference.asStr, .string CHECKPOINT_SCHEMA,
    .string checkpoint.logicalStoreId.storeUuid.display]

/-- `serde_json::to_value` of the raw checkpoint. -/
def AdmissionCheckpoint.toValue (checkpoint : AdmissionCheckpoint) : Json :=
  .object (.ofList (RawCheckpoint.fields.zip checkpoint.values))

def encodeAdmissionCheckpoint (checkpoint : AdmissionCheckpoint) : Except CheckpointError Bytes := do
  let bytes ← (encodePretty checkpoint.toValue).mapError (fun _ => .malformed)
  if bytes.length > MAX_ADMISSION_CHECKPOINT_BYTES then throw .oversized
  return bytes

/-- The checked fields of a raw checkpoint. -/
def RawCheckpoint.check (raw : RawCheckpoint) : Option AdmissionCheckpoint := do
  let storeUuid ← (FromStr.fromStr raw.storeUuid : Except _ StoreUuid).toOption
  let genesisFingerprint ← Digest.parse raw.genesisFingerprint
  let acceptedCommit ← GitOid.parse raw.acceptedGitObjectFormat raw.acceptedCommit
  let acceptedRevision ← StoreRevisionRef.parse raw.acceptedRevisionAlgorithm raw.acceptedRevisionDigest
  let localTrustBinding ← Digest.parse raw.localTrustBinding
  if hlocator : validLocator raw.remoteLocator = true then
    if href : validRef raw.remoteRef = true then
      return ⟨⟨storeUuid, genesisFingerprint⟩, ⟨localTrustBinding⟩, ⟨⟨raw.remoteLocator, hlocator⟩, ⟨raw.remoteRef, href⟩⟩,
        acceptedCommit, acceptedRevision⟩
    else none
  else none

def decodeAdmissionCheckpoint (bytes : Bytes) : Except CheckpointError AdmissionCheckpoint := do
  if bytes.length > MAX_ADMISSION_CHECKPOINT_BYTES then throw .oversized
  let value ← (decodeStrict bytes).mapError (fun _ => .malformed)
  let some raw := (fromValue value : Option RawCheckpoint) | throw .malformed
  if raw.schema ≠ CHECKPOINT_SCHEMA then throw (.invalid "unsupported schema")
  let canonical ← (encodePretty value).mapError (fun _ => .malformed)
  if canonical ≠ bytes then throw (.invalid "noncanonical JSON bytes")
  let some checkpoint := raw.check | throw .malformed
  return checkpoint

/-- The identifier of a temporary checkpoint, by its name. -/
def checkpointTemporaryId (name : Name) : Except CheckpointError Uuid := do
  let some text := fromUtf8 name.bytes | throw (.invalid "unknown checkpoint-directory entry")
  let some suffix := text.toList.dropPrefix? CHECKPOINT_TEMPORARY.toList |
    throw (.invalid "unknown checkpoint-directory entry")
  let some id := Uuid.parseStr (String.ofList suffix) | throw (.invalid "invalid checkpoint temporary name")
  return id

/-- One name of the directory; the temporary file found so far is carried along. -/
def checkResidue (temporary : Option Name) (name : Name) : CheckpointM (Option Name) := do
  if name = .admissionCheckpoint then
    if (← Store.checkpointsDir.kind name) ≠ .regularFile then
      throw (.invalid "checkpoint target is not a regular file")
    return temporary
  let id ← .ofExcept (checkpointTemporaryId name)
  if id.versionNum ≠ 7 || !id.isRfc4122 || temporary.isSome then
    throw (.invalid "invalid or multiple checkpoint temporary files")
  if (← Store.checkpointsDir.kind name) ≠ .regularFile then
    throw (.invalid "checkpoint temporary is not a regular file")
  let file ← Store.checkpointsDir.openFile name
  if file.length > MAX_ADMISSION_CHECKPOINT_BYTES then throw .oversized
  return some name

section

variable [ReadDir]

def recoverResidue : CheckpointM Unit := do
  let names ← Store.checkpointsDir.boundedNames 4
  let temporary ← names.foldlM checkResidue none
  if let some name := temporary then Store.checkpointsDir.unlinkFile name

/-- The bytes of the checkpoint, if there is one. -/
def openCheckpoint : CheckpointM (Option Bytes) := .reads fun disk =>
  match Store.checkpointsDir.child? .admissionCheckpoint disk with
  | none => .ok none
  | some (.regular bytes) => .ok (some bytes)
  | some _ => .error (.store (.invalidLayout (Store.checkpointsDir.join .admissionCheckpoint)
      "path is not an ordinary regular file"))

def readCheckpoint : CheckpointM (Option AdmissionCheckpoint) := do
  recoverResidue
  let some bytes ← openCheckpoint | return none
  if bytes.length > MAX_ADMISSION_CHECKPOINT_BYTES then throw .oversized
  let checkpoint ← .ofExcept (decodeAdmissionCheckpoint bytes)
  return some checkpoint

end

def readCurrentBytes : CheckpointM Bytes := do
  let bytes ← Store.checkpointsDir.openFile .admissionCheckpoint
  if bytes.length > MAX_ADMISSION_CHECKPOINT_BYTES then throw .oversized
  return bytes

/-- `checkpoint::write`, with the identifier of its temporary file. -/
def writeCheckpoint (checkpoint : AdmissionCheckpoint) (temporary : Uuid) : CheckpointM Unit := do
  let bytes ← .ofExcept (encodeAdmissionCheckpoint checkpoint)
  Store.checkpointsDir.createFile (checkpointTemporary temporary)
  Store.checkpointsDir.writeAll (checkpointTemporary temporary) bytes
  Store.checkpointsDir.renameFile (checkpointTemporary temporary) .admissionCheckpoint

/-- The checkpoint is replaced through a temporary file of the given name. -/
def replaceExpected (expected candidate : AdmissionCheckpoint) (temporary : Uuid) : CheckpointM Unit := do
  let expectedBytes ← .ofExcept (encodeAdmissionCheckpoint expected)
  let candidateBytes ← .ofExcept (encodeAdmissionCheckpoint candidate)
  let current ← readCurrentBytes
  if current = candidateBytes then
    let _ ← Program.ofExcept (decodeAdmissionCheckpoint current)
    return ()
  if current ≠ expectedBytes then throw .expectedOldMismatch
  Store.checkpointsDir.createFile (checkpointTemporary temporary)
  Store.checkpointsDir.writeAll (checkpointTemporary temporary) candidateBytes
  if (← readCurrentBytes) ≠ expectedBytes then
    Store.checkpointsDir.unlinkFile (checkpointTemporary temporary)
    throw .expectedOldMismatch
  Store.checkpointsDir.renameFile (checkpointTemporary temporary) .admissionCheckpoint
  let published ← readCurrentBytes
  if published ≠ candidateBytes then throw .replacementMismatch
  let decoded ← .ofExcept (decodeAdmissionCheckpoint published)
  if decoded ≠ candidate then throw .replacementMismatch

end

end Wayjournal
