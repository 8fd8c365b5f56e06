import Wayjournal.Domains.LoadedFold
import Wayjournal.Federation.Additions
import Wayjournal.Store.Visible

namespace Wayjournal

open Collections Fs Text

def SORT_RUN_BYTES : Nat := 8 * 1024 * 1024
def MAX_FACT_BYTES : Nat := 2 * 1024
def MAX_REPLAY_TEMPORARY_BYTES : Nat := 32 * MAX_TOTAL_CANONICAL_BYTES

/-- The path of errors that name no file. -/
def HERE : StorePath := [asBytes "."]

/-- The bytes written to temporary files so far. -/
abbrev ReplayM := StateT Nat (Except StoreError)

def reserveTemporary (bytes : Nat) : ReplayM Unit := do
  let used := (← get) + bytes
  if used > MAX_REPLAY_TEMPORARY_BYTES then
    throw (.invalidLayout [] "semantic replay exceeds temporary-byte amplification limit")
  set used

/-- A key and a value. -/
abbrev Fact := Bytes × Bytes

def Fact.size (fact : Fact) : Nat := fact.1.length + fact.2.length + 8

def sortFacts (facts : List Fact) : List Fact := facts.insertionSort (fun a b => toLex a ≤ toLex b)

/-- A run is the facts of its file, in the order they were written. -/
structure ExternalSorter where
  runBytes : Nat
  buffered : List Fact
  bufferedBytes : Nat
  runs : List (List Fact)

namespace ExternalSorter

def new : ExternalSorter := ⟨SORT_RUN_BYTES, [], 0, []⟩

def writeRecord (fact : Fact) : ReplayM Unit := reserveTemporary fact.size

def flushRun (sorter : ExternalSorter) : ReplayM ExternalSorter := do
  let run := sortFacts sorter.buffered
  run.forM writeRecord
  return { sorter with runs := sorter.runs ++ [run], buffered := [], bufferedBytes := 0 }

def push (sorter : ExternalSorter) (fact : Fact) : ReplayM ExternalSorter := do
  if fact.size > MAX_FACT_BYTES then throw (.invalidLayout [] "external semantic fact exceeds byte limit")
  let sorter ←
    if sorter.bufferedBytes + fact.size > sorter.runBytes && !sorter.buffered.isEmpty then sorter.flushRun
    else pure sorter
  return { sorter with
    buffered := sorter.buffered ++ [fact]
    bufferedBytes := sorter.bufferedBytes + fact.size }

/-- The least of the current facts of all readers and what is left to read. -/
def popLeast : List (List Fact) → Option (Fact × List (List Fact))
  | [] => none
  | [] :: readers => (popLeast readers).map (fun (fact, rest) => (fact, [] :: rest))
  | (current :: run) :: readers =>
    match popLeast readers with
    | none => some (current, run :: readers)
    | some (fact, rest) =>
      if toLex current ≤ toLex fact then some (current, run :: readers)
      else some (fact, (current :: run) :: rest)

/-- The merge of all runs; `facts` bounds how many there are. -/
def merge : Nat → List (List Fact) → ReplayM (List Fact)
  | 0, _ => pure []
  | facts + 1, readers =>
    match popLeast readers with
    | none => pure []
    | some (fact, readers) => do
      writeRecord fact
      return fact :: (← merge facts readers)

def finish (sorter : ExternalSorter) : ReplayM (List Fact) := do
  let sorter ← if !sorter.buffered.isEmpty || sorter.runs.isEmpty then sorter.flushRun else pure sorter
  match sorter.runs with
  | [run] => return run
  | runs => merge (runs.map List.length).sum runs

end ExternalSorter

/-- Where a payload stands. -/
structure Location where
  offset : Nat
  length : Nat
  deriving DecidableEq

def Location.encode (location : Location) : Bytes := beBytes 8 location.offset ++ beBytes 4 location.length

def decodeLocation (value : Bytes) : Except StoreError Location :=
  if value.length ≠ 12 then .error (.invalidLayout HERE "invalid replay location")
  else .ok ⟨fromBeBytes (value.take 8), fromBeBytes (value.drop 8)⟩

structure CanonicalReplayBuilder where
  payloads : Bytes
  entries : ExternalSorter
  totalBytes : Nat

/-- Every location was written with its payload, so there is always enough to read. -/
structure CanonicalReplay where
  payloads : Bytes
  entries : List Fact

def replayBuilder : CanonicalReplayBuilder := ⟨[], .new, 0⟩

/-- The files and directories that a stream of sorted paths stands for. -/
structure CanonicalEntryBudget where
  entries : Nat
  previousFile : Option Bytes

namespace CanonicalEntryBudget

def new : CanonicalEntryBudget := ⟨0, none⟩

def alreadyCounted (previous : Option Bytes) (parent : Bytes) : Bool :=
  previous.any (fun previous => parent.isPrefixOf previous && previous[parent.length]? = some SLASH)

def pushSortedFile (budget : CanonicalEntryBudget) (path : Bytes) (limit : Nat) : Option CanonicalEntryBudget :=
  let parents := (slashPrefixes path).filter (fun parent =>
    !isRootPath parent && !alreadyCounted budget.previousFile parent)
  if budget.previousFile.any (path ≤ ·) then none
  else if budget.entries + (1 + parents.length) > limit then none
  else some ⟨budget.entries + (1 + parents.length), some path⟩

end CanonicalEntryBudget

namespace CanonicalReplayBuilder

def push (builder : CanonicalReplayBuilder) (file : RawFile) : ReplayM CanonicalReplayBuilder := do
  let some limit := canonicalFileLimit (classifyPath file.path) | throw (.corrupt (.invalidCanonicalPath file.path))
  if file.bytes.length > limit then throw (.invalidLayout [] "canonical file exceeds its byte limit")
  if builder.totalBytes + file.bytes.length > MAX_TOTAL_CANONICAL_BYTES then
    throw (.invalidLayout HERE "canonical store exceeds aggregate-byte limit")
  reserveTemporary file.bytes.length
  let location : Location := ⟨builder.payloads.length, file.bytes.length⟩
  let entries ← builder.entries.push (file.path, location.encode)
  return ⟨builder.payloads ++ file.bytes, entries, builder.totalBytes + file.bytes.length⟩

def countEntry (budget : CanonicalEntryBudget) (entry : Fact) : Except StoreError CanonicalEntryBudget :=
  match budget.pushSortedFile entry.1 MAX_CANONICAL_ENTRIES with
  | none => .error (.invalidLayout [] "canonical store exceeds entry-count limit")
  | some budget => .ok budget

def finish (builder : CanonicalReplayBuilder) : ReplayM CanonicalReplay := do
  let entries ← builder.entries.finish
  let _ ← liftM (entries.foldlM countEntry CanonicalEntryBudget.new)
  return ⟨builder.payloads, entries⟩

end CanonicalReplayBuilder

namespace CanonicalReplay

def readAt (replay : CanonicalReplay) (location : Location) : Bytes :=
  (replay.payloads.drop location.offset).take location.length

/-- What a cursor yields from its start to its end. -/
def cursor (replay : CanonicalReplay) : Except StoreError (List (RawFile × Location)) :=
  replay.entries.mapM fun entry => do
    let location ← decodeLocation entry.2
    return (⟨entry.1, replay.readAt location⟩, location)

end CanonicalReplay

structure ValidatedStoreState where
  revision : StoreRevisionRef
  identity : Option StoreIdentity
  deriving DecidableEq

section

variable [Jiff] [Blake3]

def isLegacy (pathClass : PathClass) : Bool := pathClass = .legacyEvent || pathClass = .legacyBatch

/-- The legacy files come first in the order of paths; the builder has admitted
no other class than theirs and the two of the journal. -/
def legacyEntries (files : List (RawFile × Location)) : List LegacyEntry :=
  (files.takeWhile (fun file => isLegacy (classifyPath file.1.path))).map
    (fun file => ⟨file.1.path, file.1.bytes, classifyPath file.1.path⟩)

def validateLegacyReplay (store : Store) (files : List (RawFile × Location)) : Except StoreError Unit := do
  let entries := legacyEntries files
  let (validation, pulled) := store.legacy.validateStream ⟨entries, none⟩
  validation.mapError (fun error => .corrupt (.unsupportedLegacy error))
  if pulled < entries.length then
    throw (.corrupt (.invalidLegacy "bounded legacy adapter did not consume every legacy entry"))

/-- Length-prefixed values. -/
def fields (values : List Bytes) : Bytes := values.flatMap (fun value => beBytes 2 value.length ++ value)

/-- The next length-prefixed value and what follows it. -/
def takeValue (message : String) (value : Bytes) : Except StoreError (Bytes × Bytes) :=
  if value.length < 2 then .error (.invalidLayout HERE message)
  else
    let length := fromBeBytes (value.take 2)
    if value.length < 2 + length then .error (.invalidLayout HERE message)
    else .ok ((value.drop 2).take length, value.drop (2 + length))

def takeValues (message : String) : Nat → Bytes → Except StoreError (List Bytes × Bytes)
  | 0, value => .ok ([], value)
  | expected + 1, value => do
    let (first, value) ← takeValue message value
    let (rest, value) ← takeValues message expected value
    return (first :: rest, value)

def parseFields (value : Bytes) (expected : Nat) : Except StoreError (List Bytes) := do
  let (values, rest) ← takeValues "truncated semantic fields" expected value
  if !rest.isEmpty then throw (.invalidLayout HERE "trailing semantic fields")
  return values

def parseFact (α : Type) [FromStr α] (message : String) (bytes : Bytes) : Except StoreError α :=
  match (fromUtf8 bytes).bind (fun text => (FromStr.fromStr text : Except _ α).toOption) with
  | none => .error (.invalidLayout HERE message)
  | some value => .ok value

def parseBatch (bytes : Bytes) : Except StoreError BatchId := parseFact BatchId "invalid batch fact" bytes

def parseDigestFact (bytes : Bytes) : Except StoreError Digest :=
  match (fromUtf8 bytes).bind Digest.parse with
  | none => .error (.invalidLayout HERE "invalid digest fact")
  | some digest => .ok digest

/-- A decimal number, without sign. -/
def parseDecimal (bytes : Bytes) : Option Nat :=
  if bytes.isEmpty || !bytes.all (fun b => 0x30 ≤ b.toNat && b.toNat ≤ 0x39) then none
  else some (bytes.foldl (fun n b => n * 10 + (b.toNat - 0x30)) 0)

def parseUsize (bytes : Bytes) : Except StoreError Nat :=
  match parseDecimal bytes with
  | none => .error (.invalidLayout HERE "invalid count fact")
  | some count => .ok count

/-- The loop variables of `collect_facts`. -/
structure ReplayCollector where
  revision : StoreRevisionAccumulator
  recordIds : ExternalSorter
  records : ExternalSorter
  idempotency : ExternalSorter
  claims : ExternalSorter
  headers : ExternalSorter
  manifestCount : Nat
  recordCount : Nat
  firstBatch : Option FirstBatch
  unsupportedIdentitySchema : Bool
  genesisCount : Nat
  genesis : Option (Bytes × Location)
  reservedBuiltin : Bool

def ReplayCollector.new : ReplayCollector :=
  ⟨.new, .new, .new, .new, .new, .new, 0, 0, none, false, 0, none, false⟩

def manifestClaim (manifest : BatchManifest) (member : RecordRef) : Fact :=
  (asBytes member.path, fields
    [asBytes manifest.batchId.display, asBytes manifest.actor.asStr, asBytes manifest.requestDigest.display,
      asBytes member.recordId.display, asBytes member.recordSchema.asStr, asBytes member.contentDigest.display])

def manifestHeader (manifest : BatchManifest) : Fact :=
  (asBytes manifest.batchId.display, fields
    [asBytes manifest.actor.asStr, asBytes manifest.requestDigest.display, Json.decimal manifest.members.length])

def idempotencyFact (manifest : BatchManifest) : Fact :=
  (asBytes manifest.actor.asStr ++ [0] ++ manifest.idempotencyKeyDigest.toBytes,
    asBytes manifest.batchId.display)

def decodeManifestFile (file : RawFile) : Except StoreError BatchManifest := do
  let manifest ← (decodeBatchManifest file.bytes).mapError (fun error => .corrupt (.invalidManifest file.path error))
  if asBytes manifest.canonicalPath ≠ file.path then throw (.corrupt (.invalidCanonicalPath file.path))
  return manifest

def collectManifest (collector : ReplayCollector) (file : RawFile) : ReplayM ReplayCollector := do
  let manifest ← decodeManifestFile file
  let idempotency ← collector.idempotency.push (idempotencyFact manifest)
  let headers ← collector.headers.push (manifestHeader manifest)
  let claims ← (manifest.members.map (manifestClaim manifest)).foldlM ExternalSorter.push collector.claims
  return { collector with
    manifestCount := collector.manifestCount + 1
    firstBatch := collector.firstBatch.or (some
      ⟨manifest.batchId, manifest.members.length, manifest.members.head?.map RecordRef.recordId⟩)
    idempotency
    headers
    claims }

def decodeBuiltinRecord (registry : DomainRegistry) (file : RawFile) : Except StoreError Record :=
  (decodeRecord file.bytes registry).mapError (fun error => .corrupt (.invalidRecord file.path error))

def decodeRecordFile (registry : DomainRegistry) (file : RawFile) : Except StoreError Record := do
  let record ← decodeBuiltinRecord registry file
  if asBytes record.canonicalPath ≠ file.path then throw (.corrupt (.invalidCanonicalPath file.path))
  return record

def collectRecord (registry : DomainRegistry) (collector : ReplayCollector) (file : RawFile) (location : Location) :
    ReplayM ReplayCollector := do
  let record ← decodeRecordFile registry file
  let recordIds ← collector.recordIds.push (asBytes record.recordId.display, file.path)
  let records ← collector.records.push (file.path, location.encode)
  return { collector with
    recordCount := collector.recordCount + 1
    recordIds
    records
    reservedBuiltin := collector.reservedBuiltin || record.isReservedBuiltin
    unsupportedIdentitySchema := collector.unsupportedIdentitySchema || record.unsupportedIdentity
    genesisCount := if record.isGenesis then collector.genesisCount + 1 else collector.genesisCount
    genesis :=
      if record.isGenesis then collector.genesis.or (some (file.path, location)) else collector.genesis }

def collectFile (registry : DomainRegistry) (collector : ReplayCollector) (file : RawFile × Location) :
    ReplayM ReplayCollector := do
  let revision ← (collector.revision.push file.1.path file.1.bytes).mapError
    (fun error => StoreError.corrupt (.invalidRevision error))
  let collector := { collector with revision }
  match classifyPath file.1.path with
  | .legacyEvent | .legacyBatch => return collector
  | .journalBatch => collectManifest collector file.1
  | .journalRecord => collectRecord registry collector file.1 file.2
  | .invalidReserved | .nonCanonical => throw (.corrupt (.invalidCanonicalPath file.1.path))

/-- The collected facts, each kind sorted. -/
structure ReplayFacts where
  recordIds : List Fact
  records : List Fact
  idempotency : List Fact
  claims : List Fact
  headers : List Fact

def collectFacts (registry : DomainRegistry) (files : List (RawFile × Location)) :
    ReplayM (ReplayCollector × ReplayFacts) := do
  let collector ← files.foldlM (collectFile registry) .new
  let recordIds ← collector.recordIds.finish
  let records ← collector.records.finish
  let idempotency ← collector.idempotency.finish
  let claims ← collector.claims.finish
  let headers ← collector.headers.finish
  return (collector, ⟨recordIds, records, idempotency, claims, headers⟩)

/-- The neighbouring facts with one key. -/
def groupFacts (facts : List Fact) : List (List Fact) := facts.splitBy (fun a b => a.1 = b.1)

def validateDuplicateRecordIds (facts : List Fact) : Except StoreError Unit :=
  (groupFacts facts).forM fun group =>
    match group with
    | (key, first) :: second :: rest => do
      let recordId ← parseFact RecordId "invalid record-id fact" key
      let paths := (first :: second.2 :: rest.map Prod.snd).insertionSort (· ≤ ·)
      throw (.corrupt (.duplicateGlobalRecordId recordId paths))
    | _ => pure ()

def validateDuplicateIdempotency (facts : List Fact) : Except StoreError Unit :=
  (groupFacts facts).forM fun group => do
    let batchIds ← group.mapM (fun fact => parseBatch fact.2)
    if batchIds.length > 1 then throw (.corrupt (.genericOwnership (.duplicateIdempotencyOwnership batchIds)))

/-- The status of one claimed member: its path, the claim and where the record stands. -/
def enrichedFact (claim : Fact) (location : Option Location) : Except StoreError Fact := do
  let [batch, actor, request, recordId, recordSchema, contentDigest] ← parseFields claim.2 6 |
    throw (.invalidLayout HERE "truncated semantic fields")
  let value := fields [claim.1, actor, request, recordId, recordSchema, contentDigest]
  return (batch ++ [0] ++ claim.1,
    match location with
    | none => value ++ [0]
    | some location => value ++ [1] ++ location.encode)

def pushEnriched (enriched : ExternalSorter) (claim : Fact) (location : Option Location) : ReplayM ExternalSorter := do
  enriched.push (← enrichedFact claim location)

/-- The merge join of the claims with the records, both in the order of their paths. `steps` bounds
its rounds, each of which takes a claim or a record. -/
def joinClaims : Nat → List Fact → List Fact → ExternalSorter → Option BatchError →
    ReplayM (ExternalSorter × Option BatchError)
  | 0, _, _, enriched, issue => pure (enriched, issue)
  | steps + 1, claims, records, enriched, issue =>
    match claims, records with
    | [], [] => pure (enriched, issue)
    | claim :: claims, [] => do joinClaims steps claims [] (← pushEnriched enriched claim none) issue
    | [], record :: records => joinClaims steps [] records enriched (issue.or (some (.unownedRecord record.1)))
    | claim :: claims, record :: records =>
      if claim.1 < record.1 then do
        joinClaims steps claims (record :: records) (← pushEnriched enriched claim none) issue
      else if record.1 < claim.1 then
        joinClaims steps (claim :: claims) records enriched (issue.or (some (.unownedRecord record.1)))
      else do
        let location ← decodeLocation record.2
        let owners := (claim :: claims).takeWhile (fun other => other.1 = claim.1)
        let enriched ← owners.foldlM (fun enriched other => pushEnriched enriched other (some location)) enriched
        joinClaims steps ((claim :: claims).drop owners.length) records enriched
          (if owners.length > 1 then issue.or (some (.multiplyOwnedRecord claim.1)) else issue)

structure Status where
  path : Bytes
  recordId : RecordId
  recordSchema : String
  contentDigest : Digest
  location : Option Location

def parseStatusLocation (tail : Bytes) : Except StoreError (Option Location) :=
  match tail with
  | [0] => .ok none
  | 1 :: rest =>
    if rest.length = 12 then .ok (some ⟨fromBeBytes (rest.take 8), fromBeBytes (rest.drop 8)⟩)
    else .error (.invalidLayout HERE "invalid enriched status location")
  | _ => .error (.invalidLayout HERE "invalid enriched status location")

def parseStatus (value : Bytes) : Except StoreError Status := do
  let (values, tail) ← takeValues "truncated enriched status" 6 value
  let location ← parseStatusLocation tail
  let [path, _, _, recordId, recordSchema, contentDigest] := values |
    throw (.invalidLayout HERE "truncated enriched status")
  let recordId ← parseFact RecordId "invalid record-id claim" recordId
  let some recordSchema := fromUtf8 recordSchema | throw (.invalidLayout HERE "invalid record-schema claim")
  let contentDigest ← parseDigestFact contentDigest
  return ⟨path, recordId, recordSchema, contentDigest, location⟩

def ownership {α : Type} (error : BatchError) : Except StoreError α := .error (.corrupt (.genericOwnership error))

/-- The path of a member in an error. -/
def memberText (path : Bytes) : String := (fromUtf8 path).getD ""

/-- One member of a batch against its stored bytes, which are returned. -/
def validateStatus (registry : DomainRegistry) (replay : CanonicalReplay) (batchId : BatchId) (actor : String)
    (status : Status) : Except StoreError (Bytes × Bytes) := do
  let some location := status.location | ownership (.ownershipMissingMember status.path)
  let bytes := replay.readAt location
  if contentDigest bytes ≠ status.contentDigest then ownership (.memberDigestMismatch (memberText status.path))
  let record ← (decodeRecord bytes registry).mapError
    (fun source => .corrupt (.genericOwnership (.invalidStoredRecord status.path source)))
  if asBytes record.canonicalPath ≠ status.path || record.recordId ≠ status.recordId
      || record.recordSchema.asStr ≠ status.recordSchema then
    ownership (.memberIdentityMismatch (memberText status.path))
  if record.batchId ≠ batchId then ownership (.memberBatchMismatch (memberText status.path))
  if record.actor.asStr ≠ actor then ownership (.memberActorMismatch (memberText status.path))
  return (status.path, bytes)

def belongsTo (batchKey : Bytes) (status : Fact) : Bool :=
  batchKey.isPrefixOf status.1 && status.1[batchKey.length]? = some 0

/-- One header with the statuses that follow; the rest is returned. -/
def validateBatch (registry : DomainRegistry) (replay : CanonicalReplay) (statuses : List Fact) (header : Fact) :
    Except StoreError (List Fact) := do
  let [actor, request, count] ← parseFields header.2 3 |
    throw (.invalidLayout HERE "truncated semantic fields")
  let some actor := fromUtf8 actor | throw (.invalidLayout HERE "invalid actor fact")
  let expectedRequest ← parseDigestFact request
  let memberCount ← parseUsize count
  let own := statuses.takeWhile (belongsTo header.1)
  let batchStatuses ← own.mapM (fun status => parseStatus status.2)
  if batchStatuses.length ≠ memberCount then throw (.invalidLayout HERE "manifest status count mismatch")
  if let some status := batchStatuses.find? (fun status => status.location.isNone) then
    ownership (.ownershipMissingMember status.path)
  let batchId ← parseBatch header.1
  let members ← batchStatuses.mapM (validateStatus registry replay batchId actor)
  if framedHash REQUEST_DIGEST_DOMAIN members ≠ expectedRequest then ownership .requestDigestMismatch
  return statuses.drop own.length

def validateBatches (registry : DomainRegistry) (replay : CanonicalReplay) (headers enriched : List Fact) :
    Except StoreError Unit := do
  let rest ← headers.foldlM (validateBatch registry replay) enriched
  if !rest.isEmpty then throw (.invalidLayout HERE "unowned batch status facts")

def validateOwnershipAndBatches (registry : DomainRegistry) (replay : CanonicalReplay) (facts : ReplayFacts) :
    ReplayM Unit := do
  let (enriched, issue) ← joinClaims (facts.claims.length + facts.records.length) facts.claims facts.records
    .new none
  let enriched ← enriched.finish
  validateBatches registry replay facts.headers enriched
  if let some error := issue then ownership error

structure FoldSummary where
  count : Nat
  edges : Nat

namespace FoldSummary

def new : FoldSummary := ⟨0, 0⟩

def observe (summary : FoldSummary) (operation : DomainOperation) : FoldSummary :=
  ⟨summary.count + 1, summary.edges + operation.parents.length⟩

def withinCausalLimits (summary : FoldSummary) : Bool :=
  summary.count ≤ MAX_CAUSAL_OPERATIONS && summary.edges ≤ MAX_CAUSAL_EDGES

def causalLimit (summary : FoldSummary) : Option CausalError :=
  if summary.count > MAX_CAUSAL_OPERATIONS then some (.tooManyOperations MAX_CAUSAL_OPERATIONS summary.count)
  else if summary.edges > MAX_CAUSAL_EDGES then some (.tooManyEdges MAX_CAUSAL_EDGES summary.edges)
  else none

end FoldSummary

/-- The group of records that the fold is at. -/
structure FoldGroup where
  key : Option (String × String)
  operations : List DomainOperationHeader
  sources : List (Bytes × Location)
  summary : FoldSummary

def FoldGroup.new : FoldGroup := ⟨none, [], [], .new⟩

def foldOperation (record : Record) : Except StoreError DomainOperation :=
  (operationFromRecord record).mapError .corrupt

def loadOperation (registry : DomainRegistry) (replay : CanonicalReplay) (sources : List (Bytes × Location))
    (source : Nat) : Except StoreError DomainOperation := do
  let some (path, location) := sources[source]? | throw (.invalidLayout HERE "invalid replay location")
  let record ← decodeBuiltinRecord registry ⟨path, replay.readAt location⟩
  foldOperation record

def finishFold (registry : DomainRegistry) (replay : CanonicalReplay) (group : FoldGroup) : Except StoreError Unit :=
  match group.key with
  | none => .ok ()
  | some (domain, entity) =>
    match group.summary.causalLimit with
    | some error => .error (.corrupt (.invalidDomainFold domain entity (.fold (.causal error))))
    | none =>
      match validateLoadedBuiltinFold group.operations (loadOperation registry replay group.sources) with
      | .ok () => .ok ()
      | .error (.load error) => .error error
      | .error (.fold error) => .error (.corrupt (.invalidDomainFold domain entity (.fold error)))

/-- The record of a file that is folded. -/
def foldedRecord (registry : DomainRegistry) (file : RawFile) : Except StoreError (Option Record) := do
  if classifyPath file.path ≠ .journalRecord then return none
  let record ← decodeBuiltinRecord registry file
  return if record.isFolded then some record else none

def foldFile (registry : DomainRegistry) (replay : CanonicalReplay) (group : FoldGroup)
    (file : RawFile × Location) : Except StoreError FoldGroup := do
  let some record ← foldedRecord registry file.1 | return group
  let key := (record.domain.asStr, record.entityId.display)
  let changed := group.key.any (· ≠ key)
  if changed then finishFold registry replay group
  let group := if changed then .new else group
  let operation ← foldOperation record
  let summary := group.summary.observe operation
  if summary.withinCausalLimits then
    return ⟨some key, group.operations ++ [operation.intoHeader group.sources.length],
      group.sources ++ [(file.1.path, file.2)], summary⟩
  else return { group with key := some key, summary }

def validateOperationPayload (registry : DomainRegistry) (file : RawFile × Location) : Except StoreError Unit := do
  let some record ← foldedRecord registry file.1 | return ()
  let _ ← foldOperation record

def validateBuiltinFoldsBounded (registry : DomainRegistry) (replay : CanonicalReplay)
    (files : List (RawFile × Location)) : Except StoreError Unit := do
  files.forM (validateOperationPayload registry)
  let group ← files.foldlM (foldFile registry replay) .new
  finishFold registry replay group

def decodeGenesis (registry : DomainRegistry) (replay : CanonicalReplay) (genesis : Bytes × Location) :
    Except StoreError (StoredMember × Record) := do
  let bytes := replay.readAt genesis.2
  let record ← (decodeRecord bytes registry).mapError
    (fun error => StoreError.corrupt (.invalidGenesis (.undecodableRecord error)))
  return (⟨genesis.1, bytes⟩, record)

/-- The identity of a strict store. -/
def replayedIdentity (registry : DomainRegistry) (replay : CanonicalReplay) (files : List (RawFile × Location))
    (collector : ReplayCollector) : Except StoreError (Option StoreIdentity) := do
  let genesis ← collector.genesis.mapM (decodeGenesis registry replay)
  let identity ← (validateReplayedIdentity collector.manifestCount collector.recordCount collector.firstBatch
    collector.unsupportedIdentitySchema collector.genesisCount genesis).mapError
      (fun error => StoreError.corrupt (.invalidGenesis error))
  validateBuiltinFoldsBounded registry replay files
  return identity

def validateBoundedReplay (store : Store) (replay : CanonicalReplay) : ReplayM ValidatedStoreState := do
  let files ← replay.cursor
  validateLegacyReplay store files
  let (collector, facts) ← collectFacts store.registry files
  validateDuplicateRecordIds facts.recordIds
  validateDuplicateIdempotency facts.idempotency
  validateOwnershipAndBatches store.registry replay facts
  if !store.strictDomains && collector.reservedBuiltin then
    throw (.corrupt (.invalidDomainFold "wayjournal.reserved" "legacy-s1-s2"
      (.message "S3 built-in data cannot be opened in legacy mode")))
  let identity ← if store.strictDomains then replayedIdentity store.registry replay files collector else pure none
  return ⟨collector.revision.finish, identity⟩

/-- A list of files through the builder and the validation of its replay. -/
def validateStreamed (store : Store) (files : List RawFile) : Except StoreError ValidatedStoreState :=
  StateT.run' (do
    let builder ← files.foldlM CanonicalReplayBuilder.push replayBuilder
    let replay ← builder.finish
    validateBoundedReplay store replay) 0

/-- One entry of the recursion over the visible directories. -/
def spoolEntry (state : CanonicalReplayBuilder × ScanBudget) (e : List Name × Entry) :
    ReplayM (CanonicalReplayBuilder × ScanBudget) := do
  let (builder, budget) := state
  let path := e.1.map Name.bytes
  let relative := relative e.1
  let budget ← budget.entry path.dropLast
  match e.2 with
  | .directory =>
    if !validCanonicalDirectory relative then throw (.corrupt (.invalidCanonicalPath relative))
    return (builder, budget)
  | .regular bytes =>
    let some limit := canonicalFileLimit (classifyPath relative) | throw (.corrupt (.invalidCanonicalPath relative))
    if bytes.length > limit then throw (.invalidLayout path "canonical file exceeds its byte limit")
    let budget ← budget.reserveBytes bytes.length path
    return (← builder.push ⟨relative, bytes⟩, budget)
  | .other => throw (.corrupt (.nonRegularPath relative))

def visibleReplay (disk : Disk) : ReplayM CanonicalReplay := do
  let (builder, _) ← (visibleEntries disk).foldlM spoolEntry (replayBuilder, ⟨0, 0⟩)
  builder.finish

/-- `validate_visible_s4b_locked`. -/
def validateVisible (store : Store) (disk : Disk) : Except StoreError ValidatedStoreState :=
  StateT.run' (do validateBoundedReplay store (← visibleReplay disk)) 0

end

end Wayjournal
