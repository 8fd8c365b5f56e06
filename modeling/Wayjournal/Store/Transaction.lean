import Wayjournal.Federation.Pending
import Wayjournal.Store.Visible

namespace Wayjournal

open Collections Crash Fs Serde Text

def JOURNAL_SCHEMA_V1 : String := "wayjournal.transaction/v1"
def MAX_JOURNAL_BYTES : Nat := 4096
def MAX_JOURNAL_MEMBERS : Nat := 16384
def MAX_LOCAL_ENTRIES : Nat := MAX_JOURNAL_MEMBERS + 8
def MAX_LOCAL_DEPTH : Nat := 256

namespace Name

def manifestJson : Name := ⟨asBytes "manifest.json", by decide⟩
def journalTmp : Name := ⟨asBytes "journal.tmp", by decide⟩

end Name

structure RawJournal where
  baseAlgorithm : String
  baseDigest : String
  batchId : String
  manifestHash : String
  memberCount : Fin (2 ^ 64)
  schema : String
  deriving DecidableEq

structure Journal where
  base : StoreRevisionRef
  batchId : BatchId
  manifestHash : String
  memberCount : Nat
  deriving DecidableEq

def RawJournal.members (raw : RawJournal) : List (String × Json.Raw) :=
  [("base_algorithm", .string raw.baseAlgorithm), ("base_digest", .string raw.baseDigest),
    ("batch_id", .string raw.batchId), ("manifest_hash", .string raw.manifestHash),
    ("member_count", .number (.posInt raw.memberCount)), ("schema", .string raw.schema)]

instance : Deserialize RawJournal where
  fromValue v := do
    let [baseAlgorithm, baseDigest, batchId, manifestHash, memberCount, schema] ←
      structFields ["base_algorithm", "base_digest", "batch_id", "manifest_hash", "member_count",
        "schema"] v | none
    return ⟨← required baseAlgorithm, ← required baseDigest, ← required batchId,
      ← required manifestHash, ← required memberCount, ← required schema⟩

def encodeJournal (raw : RawJournal) (path : StorePath) : Except StoreError Bytes :=
  let bytes := Json.compactObject raw.members
  if bytes.length > MAX_JOURNAL_BYTES then
    .error (.invalidJournal path (.text "journal exceeds byte limit"))
  else .ok bytes

def decodeJournal (path : StorePath) (bytes : Bytes) : Except StoreError Journal := do
  if bytes.length > MAX_JOURNAL_BYTES then
    throw (.invalidJournal path (.text "journal exceeds byte limit"))
  let value ← (decodeStrict bytes).mapError (fun _ => .invalidJournal path .malformed)
  let some raw := (fromValue value : Option RawJournal) | throw (.invalidJournal path .malformed)
  if raw.schema ≠ JOURNAL_SCHEMA_V1 then
    throw (.invalidJournal path (.text "unsupported or noncanonical journal"))
  if (← encodeJournal raw path) ≠ bytes then
    throw (.invalidJournal path (.text "unsupported or noncanonical journal"))
  let memberCount := raw.memberCount.val
  if memberCount = 0 || memberCount > MAX_JOURNAL_MEMBERS then
    throw (.invalidJournal path (.text "member count outside bounds"))
  let some base := StoreRevisionRef.parse raw.baseAlgorithm raw.baseDigest |
    throw (.invalidJournal path .malformed)
  let .ok batchId := (FromStr.fromStr raw.batchId : Except _ BatchId) |
    throw (.invalidJournal path (.text "batch id is not UUIDv7"))
  return ⟨base, batchId, raw.manifestHash, memberCount⟩

def BatchId.stageName (batchId : BatchId) : Name := uuidName batchId.uuid

def BatchId.journalName (batchId : BatchId) : Name := uuidJsonName batchId.uuid

/-- `write_new_synced`; the file it returns is its content. -/
def writeNewSynced (directory : Directory) (name : Name) (bytes : Bytes) : DiskM Unit := do
  directory.createFile name
  directory.writeAll name bytes

def boundedRegular (directory : Directory) (name : Name) (limit : Nat) : DiskM Bytes := do
  let file ← directory.openFile name
  if file.length > limit then
    throw (.invalidJournal (directory.join name) (.text "staged or recovery file exceeds byte limit"))
  return file

def linkFdNoClobber (source : Bytes) (targetDir : Directory) (targetName : Name) (expected : Bytes) :
    DiskM Unit := do
  match ← Program.reads (fun disk => .ok (targetDir.child? targetName disk)) with
  | none =>
    targetDir.change "publish immutable descriptor" targetName
      (·.create targetDir.path targetName (.regular source))
  | some (.regular actual) =>
    if actual ≠ expected then throw (.publicationConflict (targetDir.join targetName))
  | some _ => throw (.publicationConflict (targetDir.join targetName))

/-- A component of a target path, as the directory operations check it. -/
def component (directory : Directory) (text : String) : DiskM Name :=
  match Name.parse (asBytes text) with
  | none => throw (.invalidLayout directory.display "invalid descriptor-relative path component")
  | some name => pure name

def ensureSynced (parent : Directory) (text : String) : DiskM Directory := do
  let (directory, _) ← parent.ensureDir (← component parent text)
  return directory

def recordTargetParent (target : String) : DiskM (Directory × Name) := do
  let [journal, records, domain, entity, file] := splitPath target |
    throw (.invalidJournal [asBytes target] (.text "record target is not canonical"))
  if journal ≠ "journal" || records ≠ "records" then
    throw (.invalidJournal [asBytes target] (.text "record target is not canonical"))
  let domain ← ensureSynced Store.recordsDir domain
  let entity ← ensureSynced domain entity
  return (entity, ← component entity file)

section Removal

variable [ReadDir]

/-- The explicit stack of the source as a recursion: `levels` more directories may
be nested. The counter of listed entries is passed along. -/
def removeTree : Nat → Directory → Nat → Name → DiskM Nat
  | levels, parent, consumed, name => do
    if (← parent.kind name) ≠ .directory then
      parent.unlinkFile name
      return consumed
    match levels with
    | 0 => throw (.invalidJournal parent.display (.text "cleanup depth limit exceeded"))
    | levels + 1 =>
      let directory ← parent.openDir name
      let names ← directory.boundedNames (MAX_LOCAL_ENTRIES - consumed)
      let consumed ← names.foldlM (removeTree levels directory) (consumed + names.length)
      parent.unlinkDir name
      return consumed

def cleanUnpreparedStages : DiskM Unit := do
  let names ← Store.stagesDir.boundedNames MAX_LOCAL_ENTRIES
  let _ ← names.foldlM (removeTree MAX_LOCAL_DEPTH Store.stagesDir) names.length

def journalId (name : Name) : DiskM BatchId := do
  let some text := fromUtf8 name.bytes |
    throw (.invalidJournal Store.recoveryDir.display (.text "journal filename is not UTF-8"))
  if (← Store.recoveryDir.kind name) ≠ .regularFile then
    throw (.invalidJournal (Store.recoveryDir.join name) (.text "journal is not a regular file"))
  let some stem := stripJson text |
    throw (.invalidJournal Store.recoveryDir.display (.text "journal filename is not canonical"))
  let .ok batchId := (FromStr.fromStr stem : Except _ BatchId) |
    throw (.invalidJournal Store.recoveryDir.display (.text "journal filename is not UUIDv7"))
  return batchId

def listedJournals : DiskM (List BatchId) := do
  let names ← Store.recoveryDir.boundedNames MAX_LOCAL_ENTRIES
  let ids ← names.mapM journalId
  let ids := ids.insertionSort (· ≤ ·)
  if !ascending ids then
    throw (.invalidJournal Store.recoveryDir.display (.text "duplicate recovery journal batch id"))
  return ids

def requireNames (directory : Directory) (expected : List Name) (message : String) : DiskM Unit := do
  let names ← directory.boundedNames MAX_LOCAL_ENTRIES
  if BTreeSet.ofKeys names ≠ BTreeSet.ofKeys expected then
    throw (.invalidJournal directory.display (.text message))

def validateStageRoot (stage : Directory) : DiskM Unit := do
  requireNames stage [.journalTmp, .manifestJson, .records] "stage entries are incomplete or unexpected"
  if (← stage.kind .records) ≠ .directory then
    throw (.invalidJournal stage.display (.text "staged records is not a directory"))

def validateOrdinals (directory : Directory) (count : Nat) : DiskM Unit :=
  requireNames directory ((List.range count).map ordinalJson)
    "staged record ordinals are incomplete or unexpected"

end Removal

section

variable [Jiff] [Blake3]

def manifestHash (bytes : Bytes) : String := (Blake3.hash bytes).display

structure StagedRecord where
  target : String
  bytes : Bytes

structure StagedManifest where
  manifest : BatchManifest
  bytes : Bytes

/-- The bytes the batch publishes, by path. -/
def publicationTargets (manifest : StagedManifest) (staged : List StagedRecord) : BTreeMap Bytes Bytes :=
  BTreeMap.ofList (staged.map (fun r => (asBytes r.target, r.bytes)) ++
    [(asBytes manifest.manifest.canonicalPath, manifest.bytes)])

/-- The visible files that are not targets, and the targets among them. -/
def splitBase (targets : BTreeMap Bytes Bytes) (state : List RawFile × BTreeSet Bytes)
    (file : RawFile) : Except StoreError (List RawFile × BTreeSet Bytes) :=
  match targets.get? file.path with
  | some expected =>
    if file.bytes ≠ expected then .error (.publicationConflict [file.path])
    else .ok (state.1, state.2.insert file.path ())
  | none => .ok (state.1 ++ [file], state.2)

def candidateFiles (base : List RawFile) (manifest : StagedManifest) (staged : List StagedRecord) :
    List RawFile :=
  sortFiles (base ++ staged.map (fun r => ⟨asBytes r.target, r.bytes⟩) ++
    [⟨asBytes manifest.manifest.canonicalPath, manifest.bytes⟩])

def candidateSizes (base : List RawFile) (manifest : StagedManifest) (staged : List StagedRecord) :
    List (Bytes × Nat) :=
  base.map (fun f => (f.path, f.bytes.length)) ++
    staged.map (fun r => (asBytes r.target, r.bytes.length)) ++
    [(asBytes manifest.manifest.canonicalPath, manifest.bytes.length)]

def validateRecoveryBase (store : Store) (journal : Journal) (manifest : StagedManifest)
    (staged : List StagedRecord) (disk : Disk) : Except StoreError Unit := do
  let targets := publicationTargets manifest staged
  let found ← visibleInventory disk
  let (base, present) ← found.files.foldlM (splitBase targets) ([], ∅)
  if present.entries.length = targets.entries.length then
    let _ ← scanVisible store disk
    return ()
  enforceLimits (candidateSizes base manifest staged) found.nonregular found.inventory
  let snapshot ← scanFiles store base found.nonregular
  if snapshot.revision ≠ journal.base then
    throw (.recoveryBaseChanged journal.base snapshot.revision)
  let _ ← scanFiles store (candidateFiles base manifest staged) []

section

variable [ReadDir]

structure StagedBatch where
  journal : Journal
  manifest : StagedManifest
  records : List StagedRecord

def loadRecord (store : Store) (journalPath : StorePath) (directory : Directory) (index : Nat) :
    DiskM StagedRecord := do
  let bytes ← boundedRegular directory (ordinalJson index) MAX_RECORD_BYTES
  let record ← .ofExcept ((decodeRecord bytes store.registry).mapError
    (fun e => StoreError.invalidJournal journalPath (.record e)))
  return ⟨record.canonicalPath, bytes⟩

/-- The part of `recover_one` that reads the journal and the stage. -/
def loadStage (store : Store) (batchId : BatchId) : DiskM StagedBatch := do
  let journalPath := Store.recoveryDir.join batchId.journalName
  let journalBytes ← boundedRegular Store.recoveryDir batchId.journalName MAX_JOURNAL_BYTES
  let journal ← .ofExcept (decodeJournal journalPath journalBytes)
  if journal.batchId ≠ batchId then
    throw (.invalidJournal journalPath (.text "journal filename and batch id differ"))
  let stage ← Store.stagesDir.openDir batchId.stageName
  validateStageRoot stage
  if (← boundedRegular stage .journalTmp MAX_JOURNAL_BYTES) ≠ journalBytes then
    throw (.invalidJournal journalPath (.text "published and staged journals differ"))
  let manifestBytes ← boundedRegular stage .manifestJson MAX_BATCH_BYTES
  if manifestHash manifestBytes ≠ journal.manifestHash then
    throw (.invalidJournal journalPath (.text "staged manifest hash mismatch"))
  let manifest ← .ofExcept ((decodeBatchManifest manifestBytes).mapError
    (fun e => StoreError.invalidJournal journalPath (.batch e)))
  if manifest.batchId ≠ batchId || manifest.members.length ≠ journal.memberCount then
    throw (.invalidJournal journalPath (.text "journal ownership or count mismatch"))
  let recordsDir ← stage.openDir .records
  validateOrdinals recordsDir journal.memberCount
  let staged ← (List.range journal.memberCount).mapM (loadRecord store journalPath recordsDir)
  let staged := staged.insertionSort (fun a b => a.target ≤ b.target)
  if !ascending (staged.map StagedRecord.target) then
    throw (.invalidJournal journalPath (.text "duplicate staged record path"))
  let _ ← .ofExcept ((validateBatchMembers manifest
    (staged.map (fun r => ⟨asBytes r.target, r.bytes⟩)) store.registry).mapError
      (fun e => StoreError.invalidJournal journalPath (.batch e)))
  return ⟨journal, ⟨manifest, manifestBytes⟩, staged⟩

def publishRecord (record : StagedRecord) : DiskM Unit := do
  let (parent, name) ← recordTargetParent record.target
  linkFdNoClobber record.bytes parent name record.bytes

/-- The journal is taken away first, then the stage. -/
def discardStage (batchId : BatchId) : DiskM Unit := do
  Store.recoveryDir.unlinkFile batchId.journalName
  let _ ← removeTree MAX_LOCAL_DEPTH Store.stagesDir 1 batchId.stageName

/-- An invalid fold is the one error of the base after which the batch is given up. -/
def StoreError.isInvalidDomainFold : StoreError → Bool
  | .corrupt (.invalidDomainFold ..) => true
  | _ => false

def recoverOne (store : Store) (batchId : BatchId) : DiskM Unit := do
  let batch ← loadStage store batchId
  Program.tryCatch (.reads (validateRecoveryBase store batch.journal batch.manifest batch.records))
    fun error => do
      if error.isInvalidDomainFold then discardStage batchId
      throw error
  batch.records.forM publishRecord
  linkFdNoClobber batch.manifest.bytes Store.journalBatchesDir
    (BatchId.journalName batch.manifest.manifest.batchId) batch.manifest.bytes
  discardStage batchId

def recoverLocked (store : Store) : DiskM Unit := do
  let journals ← listedJournals
  journals.forM (recoverOne store)
  cleanUnpreparedStages

def stageRecords (records : Directory) : Nat → List PreparedRecord → DiskM Unit
  | _, [] => pure ()
  | index, record :: rest => do
    writeNewSynced records (ordinalJson index) record.bytes
    stageRecords records (index + 1) rest

def stageJournal (prepared : PreparedBatch) (base : StoreRevisionRef) (count : Fin (2 ^ 64)) :
    RawJournal :=
  { baseAlgorithm := base.algorithm.asStr
    baseDigest := base.digest.display
    batchId := prepared.manifest.batchId.display
    manifestHash := manifestHash prepared.manifestBytes
    memberCount := count
    schema := JOURNAL_SCHEMA_V1 }

/-- `stage_batch` up to the link that publishes the journal, and the bytes it links. -/
def writeStage (prepared : PreparedBatch) (base : StoreRevisionRef) : DiskM Bytes := do
  let (stage, created) ← Store.stagesDir.ensureDir prepared.manifest.batchId.stageName
  if !created then throw (.invalidJournal stage.display (.text "stage already exists"))
  let (records, created) ← stage.ensureDir .records
  if !created then throw (.invalidJournal records.display (.text "staged records already exists"))
  stageRecords records 0 prepared.records
  writeNewSynced stage .manifestJson prepared.manifestBytes
  if h : prepared.records.length < 2 ^ 64 then
    let bytes ← .ofExcept
      (encodeJournal (stageJournal prepared base ⟨prepared.records.length, h⟩) stage.display)
    writeNewSynced stage .journalTmp bytes
    return bytes
  else throw (.invalidJournal stage.display (.text "member count exceeds u64"))

def stageBatch (prepared : PreparedBatch) (base : StoreRevisionRef) : DiskM Unit := do
  let bytes ← writeStage prepared base
  linkFdNoClobber bytes Store.recoveryDir prepared.manifest.batchId.journalName bytes

inductive AppendPreview
  | publish (revision : StoreRevisionRef)
  | replay (batchId : BatchId) (revision : StoreRevisionRef)
  deriving DecidableEq

inductive CommitOutcome
  | published (batchId : BatchId) (revision : StoreRevisionRef)
  | replay (batchId : BatchId) (revision : StoreRevisionRef)
  deriving DecidableEq

def classifyPrepared (manifests : List BatchManifest) (prepared : PreparedBatch) :
    Except StoreError (Option BatchId) :=
  let target := prepared.manifest
  let owners := (manifests.filter (fun m => m.actor = target.actor &&
    m.idempotencyKeyDigest = target.idempotencyKeyDigest)).insertionSort
      (fun a b => a.batchId ≤ b.batchId)
  match owners with
  | [] => .ok none
  | [manifest] =>
    if manifest.requestDigest = target.requestDigest then .ok (some manifest.batchId)
    else .error (.batch (.idempotencyRequestMismatch manifest.batchId))
  | owners => .error (.batch (.duplicateIdempotencyOwnership (owners.map BatchManifest.batchId)))

/-- One file of the batch next to the files already there. -/
def addFile (files : List RawFile) (file : RawFile) : Except StoreError (List RawFile) :=
  if files.any (fun f => f.path = file.path) then .error (.publicationConflict [file.path])
  else .ok (files ++ [file])

def PreparedBatch.files (prepared : PreparedBatch) : List RawFile :=
  prepared.records.map (fun r => ⟨asBytes r.path, r.bytes⟩) ++
    [⟨asBytes prepared.manifestPath, prepared.manifestBytes⟩]

def validateCandidate (store : Store) (prepared : PreparedBatch) (disk : Disk) :
    Except StoreError StoreSnapshot := do
  let found ← visibleInventory disk
  enforceLimits ((found.files ++ prepared.files).map (fun f => (f.path, f.bytes.length)))
    found.nonregular found.inventory
  let files ← prepared.files.foldlM addFile found.files
  scanFiles store (sortFiles files) found.nonregular

def previewFromSnapshot (store : Store) (snapshot : StoreSnapshot) (prepared : PreparedBatch)
    (expected : StoreRevisionRef) (disk : Disk) : Except StoreError AppendPreview := do
  if snapshot.revision ≠ expected then throw (.revisionMismatch expected snapshot.revision)
  if let some batchId ← classifyPrepared snapshot.manifests prepared then
    return .replay batchId snapshot.revision
  let candidate ← validateCandidate store prepared disk
  return .publish candidate.revision

variable [Url]

def requirePendingAllow : DiskM Unit := do
  if (← gateWithoutGit) = .cleanDisposable then
    throw (.invalidGitSyncState "Git synchronization residue appeared during append")

def recoverWithoutSnapshot (store : Store) : DiskM Unit := do
  cleanDisposableLocked
  if (← gateWithoutGit) ≠ .allow then
    throw (.invalidGitSyncState "disposable pending cleanup did not converge")
  recoverLocked store

/-- `preview_append_locked` after the recovery of its operation. -/
def previewAppend (store : Store) (prepared : PreparedBatch) (expected : StoreRevisionRef) :
    DiskM AppendPreview := do
  recoverWithoutSnapshot store
  let snapshot ← .reads (scanVisible store)
  requirePendingAllow
  .reads (previewFromSnapshot store snapshot prepared expected)

/-- `append` under its locks, which no other program interleaves with. -/
def append (store : Store) (prepared : PreparedBatch) (expected : StoreRevisionRef) :
    DiskM CommitOutcome := do
  recoverWithoutSnapshot store
  let snapshot ← .reads (scanVisible store)
  requirePendingAllow
  match ← Program.reads (previewFromSnapshot store snapshot prepared expected) with
  | .replay batchId revision => return .replay batchId revision
  | .publish _ =>
    requirePendingAllow
    stageBatch prepared expected
    recoverOne store prepared.manifest.batchId
    let committed ← .reads (scanVisible store)
    return .published prepared.manifest.batchId committed.revision

end

end

end Wayjournal
