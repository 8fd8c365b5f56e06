import Wayjournal.Store.FactSize
import Wayjournal.Store.FirstBatch
import Wayjournal.Store.ReplayFailures

namespace Wayjournal

open Collections Fs Json SortFiles Text

section Enriched

theorem length_of_takeValue_ok {message : String} {value first rest : Bytes} (h : takeValue message value = .ok (first, rest)) :
    value.length = first.length + 2 + rest.length := by
  unfold takeValue at h
  split at h
  · cases h
  · dsimp only at h
    split at h
    · cases h
    · cases h
      rw [List.length_take, List.length_drop, List.length_drop]
      omega

theorem length_of_takeValues {message : String} {expected : Nat} {value rest : Bytes} {values : List Bytes}
    (h : takeValues message expected value = .ok (values, rest)) : value.length = (fields values).length + rest.length := by
  induction expected generalizing value values with
  | zero =>
    cases h
    exact (Nat.zero_add _).symm
  | succ expected ih =>
    obtain ⟨⟨first, value⟩, hfirst, h⟩ := except_bind_eq_ok.mp h
    obtain ⟨⟨others, rest⟩, hothers, h⟩ := except_bind_eq_ok.mp h
    cases h
    have hvalue := ih hothers
    have hlength := length_of_takeValue_ok hfirst
    rw [length_fields] at hvalue
    rw [length_fields, List.map_cons, List.sum_cons]
    omega

theorem length_of_parseFields {value : Bytes} {expected : Nat} {values : List Bytes} (h : parseFields value expected = .ok values) :
    value.length = (fields values).length ∧ values.length = expected := by
  obtain ⟨⟨taken, rest⟩, htaken, h⟩ := except_bind_eq_ok.mp h
  obtain ⟨hrest, h⟩ := guard_bind_eq_ok.mp h
  cases h
  simp only [Bool.not_eq_true', Bool.not_eq_false, List.isEmpty_iff] at hrest
  have hlength := length_of_takeValues htaken
  rw [hrest] at hlength
  exact ⟨hlength, (of_takeValues htaken).1⟩

/-- How long the status of a claim can get. -/
def statusSize (claim : Fact) : Nat := claim.size + claim.1.length + 14

/-- The fields of a status: those of the claim, with its path for the batch. -/
theorem enrichedFact_eq_ok {claim fact : Fact} {location : Option Location} (h : enrichedFact claim location = .ok fact) :
    ∃ batch values, claim.2.length = (fields (batch :: values)).length ∧
      fact = (batch ++ [0] ++ claim.1, fields (claim.1 :: values) ++ locationBytes location) := by
  obtain ⟨parsed, hparsed, h⟩ := except_bind_eq_ok.mp h
  obtain ⟨hlength, hcount⟩ := length_of_parseFields hparsed
  match parsed, hcount with
  | [batch, actor, request, recordId, recordSchema, contentDigest], _ =>
    refine ⟨batch, [actor, request, recordId, recordSchema, contentDigest], hlength, ?_⟩
    cases h
    cases location <;> simp [locationBytes]

theorem size_enrichedFact_le {claim fact : Fact} {location : Option Location} (h : enrichedFact claim location = .ok fact) :
    fact.size ≤ statusSize claim := by
  obtain ⟨batch, values, hlength, rfl⟩ := enrichedFact_eq_ok h
  have hlocation : (locationBytes location).length ≤ 13 := by
    cases location with
    | none => decide
    | some location =>
      rw [locationBytes, List.length_cons, length_encode_location]
  have hsize : Fact.size (batch ++ [0] ++ claim.1, fields (claim.1 :: values) ++ locationBytes location) =
      (batch ++ [0] ++ claim.1).length + (fields (claim.1 :: values) ++ locationBytes location).length + 8 := rfl
  have hclaim : claim.size = claim.1.length + claim.2.length + 8 := rfl
  rw [length_fields, List.map_cons, List.sum_cons] at hlength
  rw [hsize, List.length_append, List.length_append, List.length_append, List.length_singleton, length_fields, List.map_cons,
    List.sum_cons, statusSize]
  omega

end Enriched

section Join

variable {used : Nat} {enriched : ExternalSorter}

/-- What the statuses of these claims can cost. -/
def joinDebt (claims : List Fact) : Nat := (claims.map (fun claim => 2 * statusSize claim)).sum

theorem joinDebt_append (a b : List Fact) : joinDebt (a ++ b) = joinDebt a + joinDebt b := by
  rw [joinDebt, List.map_append, List.sum_append]
  rfl

theorem joinDebt_cons (claim : Fact) (claims : List Fact) : joinDebt (claim :: claims) = 2 * statusSize claim + joinDebt claims := by
  rw [joinDebt, List.map_cons, List.sum_cons]
  rfl

theorem joinDebt_perm {a b : List Fact} (h : a.Perm b) : joinDebt a = joinDebt b := (h.map _).sum_eq

theorem safely_pushEnriched {claim : Fact} {location : Option Location} (hclaim : statusSize claim ≤ MAX_FACT_BYTES)
    (h : used + enriched.debt + 2 * statusSize claim ≤ MAX_REPLAY_TEMPORARY_BYTES) :
    Safely OutOfScratch (pushEnriched enriched claim location) used
      (fun pushed used' => used' + pushed.debt ≤ used + enriched.debt + 2 * statusSize claim) := by
  refine .liftBind (avoids_enrichedFact claim location) fun fact hfact => ?_
  have hsize := size_enrichedFact_le hfact
  refine (ExternalSorter.safely_push (hsize.trans hclaim) (by omega)).mono ?_
  intro pushed used' hpushed
  omega

theorem safely_pushOwners {owners : List Fact} {location : Option Location} (howners : ∀ claim ∈ owners, statusSize claim ≤ MAX_FACT_BYTES)
    (h : used + enriched.debt + joinDebt owners ≤ MAX_REPLAY_TEMPORARY_BYTES) :
    Safely OutOfScratch (owners.foldlM (fun enriched other => pushEnriched enriched other location) enriched) used
      (fun pushed used' => used' + pushed.debt ≤ used + enriched.debt + joinDebt owners) := by
  induction owners generalizing used enriched with
  | nil => exact .pure (Nat.le_refl _)
  | cons claim owners ih =>
    obtain ⟨hclaim, howners⟩ := List.forall_mem_cons.mp howners
    rw [joinDebt_cons] at h ⊢
    rw [List.foldlM_cons]
    refine .bind (safely_pushEnriched hclaim (by omega)) fun pushed used' hpushed => ?_
    refine (ih howners (by omega)).mono fun _ _ hle => ?_
    omega

theorem safely_joinClaims {steps : Nat} {claims records : List Fact} {issue : Option BatchError}
    (hclaims : ∀ claim ∈ claims, statusSize claim ≤ MAX_FACT_BYTES)
    (h : used + enriched.debt + joinDebt claims ≤ MAX_REPLAY_TEMPORARY_BYTES) :
    Safely OutOfScratch (joinClaims steps claims records enriched issue) used
      (fun joined used' => used' + joined.1.debt ≤ MAX_REPLAY_TEMPORARY_BYTES) := by
  induction steps generalizing claims records enriched issue used with
  | zero => exact .pure (by dsimp only; omega)
  | succ steps ih =>
    have htake : ∀ {claim : Fact} {rest records : List Fact} {issue : Option BatchError}, claim :: rest = claims →
        Safely OutOfScratch (do joinClaims steps rest records (← pushEnriched enriched claim none) issue) used
          (fun joined used' => used' + joined.1.debt ≤ MAX_REPLAY_TEMPORARY_BYTES) := by
      rintro claim rest records issue rfl
      obtain ⟨hclaim, hrest⟩ := List.forall_mem_cons.mp hclaims
      rw [joinDebt_cons] at h
      exact .bind (safely_pushEnriched hclaim (by omega)) fun pushed used' hpushed => ih hrest (by omega)
    unfold joinClaims
    split
    · exact .pure (by dsimp only; omega)
    · exact htake rfl
    · exact ih hclaims h
    · rename_i claim rest record others
      refine .ite (fun _ => htake rfl) fun _ => .ite (fun _ => ih hclaims h) fun _ => ?_
      refine .liftBind (avoids_decodeLocation _) fun location _ => ?_
      have hsplit := List.prefix_iff_eq_append.mp (List.takeWhile_prefix (fun other : Fact => decide (other.1 = claim.1))
        : (claim :: rest).takeWhile _ <+: claim :: rest)
      rw [← hsplit, joinDebt_append] at h
      rw [← hsplit, List.forall_mem_append] at hclaims
      refine .bind (safely_pushOwners hclaims.1 (by omega)) fun pushed used' hpushed => ?_
      exact ih hclaims.2 (by omega)

end Join

section Collect

variable {used spent : Nat} {collector : ReplayCollector} {file : RawFile} {manifest : BatchManifest}

/-- A byte of a canonical file costs at most so many bytes of facts. -/
def BYTE_COST : Nat := 27

theorem decodeManifestFile_eq_ok (h : decodeManifestFile file = .ok manifest) : decodeBatchManifest file.bytes = .ok manifest := by
  obtain ⟨decoded, hdecoded, h⟩ := except_bind_eq_ok.mp h
  obtain ⟨-, h⟩ := guard_bind_eq_ok.mp h
  cases h
  exact mapError_eq_ok.mp hdecoded

theorem statusSize_manifestClaim_le (h : decodeManifestFile file = .ok manifest) :
    ∀ member ∈ manifest.members, statusSize (manifestClaim manifest member) ≤ 1708 := by
  intro member hmember
  have hsize := size_manifestClaim_le manifest member
  have hpath := length_memberPath_le (memberPath_of_decode (decodeManifestFile_eq_ok h) member hmember)
  have hschema := length_asBytes_schema_le member.recordSchema
  have hkey : (manifestClaim manifest member).1 = asBytes member.path := rfl
  rw [statusSize, hkey]
  omega

theorem cost_claims_le (manifest : BatchManifest) (members : List RecordRef) :
    2 * bytesOf (members.map (manifestClaim manifest)) + joinDebt (members.map (manifestClaim manifest)) ≤
      BYTE_COST * (members.map (fun member =>
        (asBytes member.path).length + (asBytes member.recordSchema.asStr).length + 202)).sum := by
  induction members with
  | nil => exact Nat.le_refl _
  | cons member members ih =>
    have hsize := size_manifestClaim_le manifest member
    have hkey : (manifestClaim manifest member).1 = asBytes member.path := rfl
    have hbytes : bytesOf (manifestClaim manifest member :: members.map (manifestClaim manifest)) =
        (manifestClaim manifest member).size + bytesOf (members.map (manifestClaim manifest)) := rfl
    rw [List.map_cons, List.map_cons, joinDebt_cons, List.sum_cons, hbytes, statusSize, hkey]
    rw [BYTE_COST] at ih ⊢
    omega

theorem cost_manifest_le (h : decodeManifestFile file = .ok manifest) :
    2 * (idempotencyFact manifest).size + 2 * (manifestHeader manifest).size +
      2 * bytesOf (manifest.members.map (manifestClaim manifest)) + joinDebt (manifest.members.map (manifestClaim manifest)) ≤
        BYTE_COST * file.bytes.length := by
  have hlength := length_manifest_ge (encode_decodeBatchManifest (decodeManifestFile_eq_ok h)).1
  have hclaims := cost_claims_le manifest manifest.members
  have hidempotency := size_idempotencyFact_le manifest
  have hheader := size_manifestHeader_le manifest
  rw [BYTE_COST] at hclaims ⊢
  omega

/-- The fields of the status of a claim. -/
def statusValues (manifest : BatchManifest) (member : RecordRef) : List Bytes :=
  asBytes member.path :: (claimValues manifest member).tail

/-- A value that is these fields, each of a length that is written in two bytes, and what follows them. -/
def Encodes (value : Bytes) (values : List Bytes) (tail : Bytes) : Prop :=
  value = fields values ++ tail ∧ ∀ field ∈ values, field.length < 65536

theorem encodes_of_size {key : Bytes} {values : List Bytes} (h : Fact.size (key, fields values) ≤ 2048) :
    Encodes (fields values) values [] :=
  ⟨(List.append_nil _).symm, lengths_of_size h⟩

/-- What a manifest gives the sorters. -/
structure ManifestFactsFit (manifest : BatchManifest) : Prop where
  idempotency : Writable (idempotencyFact manifest)
  header : Writable (manifestHeader manifest) ∧ Encodes (manifestHeader manifest).2 (headerValues manifest) []
  claim : ∀ member ∈ manifest.members, Writable (manifestClaim manifest member) ∧
    Encodes (manifestClaim manifest member).2 (claimValues manifest member) []
  status : ∀ member ∈ manifest.members, ∀ location, ∃ fact, enrichedFact (manifestClaim manifest member) location = .ok fact ∧
    Writable fact ∧ Encodes fact.2 (statusValues manifest member) (locationBytes location)

theorem manifestFactsFit (h : decodeManifestFile file = .ok manifest) : ManifestFactsFit manifest := by
  have hsize : ∀ member ∈ manifest.members, (manifestClaim manifest member).size ≤ 2048 := by
    intro member hmember
    have hstatus := statusSize_manifestClaim_le h member hmember
    rw [statusSize] at hstatus
    omega
  have hheader : (manifestHeader manifest).size ≤ 2048 := (size_manifestHeader_le manifest).trans (by decide)
  refine ⟨.of_size ((size_idempotencyFact_le manifest).trans (by decide)), ⟨.of_size hheader, encodes_of_size hheader⟩, ?_, ?_⟩
  · intro member hmember
    exact ⟨.of_size (hsize member hmember), encodes_of_size (hsize member hmember)⟩
  · intro member hmember location
    have hlengths : ∀ field ∈ claimValues manifest member, field.length < 65536 := lengths_of_size (hsize member hmember)
    have hparse : parseFields (manifestClaim manifest member).2 6 = .ok (claimValues manifest member) := parseFields_fields hlengths
    have hpath := length_memberPath_le (memberPath_of_decode (decodeManifestFile_eq_ok h) member hmember)
    have henriched : enrichedFact (manifestClaim manifest member) location =
        .ok (asBytes manifest.batchId.display ++ [0] ++ asBytes member.path,
          fields (statusValues manifest member) ++ locationBytes location) := by
      unfold enrichedFact
      rw [hparse]
      cases location with
      | none => rfl
      | some location =>
        change Except.ok (_, fields (statusValues manifest member) ++ [1] ++ location.encode) = _
        rw [List.append_assoc (fields _)]
        rfl
    refine ⟨_, henriched, .of_size ((size_enrichedFact_le henriched).trans ?_), rfl, ?_⟩
    · exact (statusSize_manifestClaim_le h member hmember).trans (by decide)
    · refine List.forall_mem_cons.mpr ⟨by omega, fun field hfield => ?_⟩
      exact hlengths field (List.mem_of_mem_tail hfield)

/-- What is still to be written of the facts collected. -/
def ReplayCollector.debt (collector : ReplayCollector) : Nat :=
  collector.recordIds.debt + collector.records.debt + collector.idempotency.debt + collector.claims.debt +
    collector.headers.debt

/-- With all that is still to be written of the facts and of the statuses of the claims, not more than `spent`. -/
def ReplayCollector.Within (collector : ReplayCollector) (used spent : Nat) : Prop :=
  ∃ claims, collector.claims.Sorts claims ∧ (∀ claim ∈ claims, statusSize claim ≤ MAX_FACT_BYTES) ∧
    used + collector.debt + joinDebt claims ≤ spent

theorem safely_collectManifest (h : collector.Within used spent)
    (hspent : spent + BYTE_COST * file.bytes.length ≤ MAX_REPLAY_TEMPORARY_BYTES) :
    Safely OutOfScratch (collectManifest collector file) used
      (fun collected used' => collected.Within used' (spent + BYTE_COST * file.bytes.length)) := by
  obtain ⟨claims, hsorts, hclaims, hused⟩ := h
  refine .liftBind (avoids_decodeManifestFile file) fun manifest hmanifest => ?_
  have hcost := cost_manifest_le hmanifest
  have hstatus := statusSize_manifestClaim_le hmanifest
  have hidempotency := size_idempotencyFact_le manifest
  have hheader := size_manifestHeader_le manifest
  have hmembers : ∀ claim ∈ manifest.members.map (manifestClaim manifest), statusSize claim ≤ MAX_FACT_BYTES := by
    intro claim hclaim
    obtain ⟨member, hmember, rfl⟩ := List.mem_map.mp hclaim
    exact (hstatus member hmember).trans (by decide)
  have hfits : ∀ claim ∈ manifest.members.map (manifestClaim manifest), Fits claim := by
    intro claim hclaim
    have hle := hmembers claim hclaim
    rw [statusSize] at hle
    exact (by omega : claim.size ≤ MAX_FACT_BYTES)
  have hdebt : collector.debt = collector.recordIds.debt + collector.records.debt + collector.idempotency.debt +
      collector.claims.debt + collector.headers.debt := rfl
  refine .bind (ExternalSorter.safely_push (hidempotency.trans (by decide)) (by omega)) fun idempotency used₁ h₁ => ?_
  refine .bind (ExternalSorter.safely_push (hheader.trans (by decide)) (by omega)) fun headers used₂ h₂ => ?_
  refine .bind (ExternalSorter.safely_pushAll hfits hsorts (by omega)) ?_
  rintro pushed used₃ ⟨hpushed, h₃⟩
  refine .pure ⟨_, hpushed, List.forall_mem_append.mpr ⟨hclaims, hmembers⟩, ?_⟩
  have hcollected : used₃ + (collector.recordIds.debt + collector.records.debt + idempotency.debt + pushed.debt + headers.debt) +
      joinDebt (claims ++ manifest.members.map (manifestClaim manifest)) ≤ spent + BYTE_COST * file.bytes.length := by
    rw [joinDebt_append]
    omega
  exact hcollected

theorem size_recordIdFact_le (hpath : file.path.length ≤ 223) (recordId : RecordId) :
    Fact.size (asBytes recordId.display, file.path) ≤ 267 := by
  have hid := length_asBytes_uuidId_le recordId
  have hsize : Fact.size (asBytes recordId.display, file.path) = (asBytes recordId.display).length + file.path.length + 8 := rfl
  omega

/-- The bytes of these files. -/
def totalLength (files : List (RawFile × Location)) : Nat := (files.map (fun file => file.1.bytes.length)).sum

theorem totalLength_append (a b : List (RawFile × Location)) : totalLength (a ++ b) = totalLength a + totalLength b := by
  rw [totalLength, List.map_append, List.sum_append]
  rfl

section Records

variable [Jiff] {registry : DomainRegistry} {record : Record}

theorem decodeRecordFile_eq_ok (h : decodeRecordFile registry file = .ok record) : decodeRecord file.bytes registry = .ok record := by
  obtain ⟨decoded, hdecoded, h⟩ := except_bind_eq_ok.mp h
  obtain ⟨-, h⟩ := guard_bind_eq_ok.mp h
  cases h
  exact mapError_eq_ok.mp hdecoded

theorem length_recordFile_ge (h : decodeRecordFile registry file = .ok record) : 38 ≤ file.bytes.length := by
  obtain ⟨-, hencode, -⟩ := encodeRecord_eq_ok.mp (encode_decode (decodeRecordFile_eq_ok h))
  obtain ⟨-, hbytes⟩ := encodePretty_eq_ok.mp hencode
  have hmember : ("record_id", Json.string record.recordId.display) ∈ envelopeMembers record := by
    simp [envelopeMembers]
  have hobject : (print (0 + 1) (Json.string record.recordId.display).raw).length ≤ (print 0 (envelope record).raw).length :=
    length_le_object (nodup_envelopeMembers record) hmember
  have hprint : print (0 + 1) (Json.string record.recordId.display).raw = printString record.recordId.display := by
    rw [Json.string, print]
  rw [hprint, length_printString_uuidId] at hobject
  rw [hbytes, List.length_append]
  omega

theorem safely_collectRecord (hclass : (classifyPath file.path).isCanonical = true) (location : Location)
    (h : collector.Within used spent) (hspent : spent + BYTE_COST * file.bytes.length ≤ MAX_REPLAY_TEMPORARY_BYTES) :
    Safely OutOfScratch (collectRecord registry collector file location) used
      (fun collected used' => collected.Within used' (spent + BYTE_COST * file.bytes.length)) := by
  obtain ⟨claims, hsorts, hclaims, hused⟩ := h
  refine .liftBind (avoids_decodeRecordFile registry file) fun record hrecord => ?_
  have hlength := length_recordFile_ge hrecord
  have hid := size_recordIdFact_le (length_canonicalPath_le hclass) record.recordId
  have hentry := size_entry_le hclass location
  have hcost : 27 * file.bytes.length = BYTE_COST * file.bytes.length := rfl
  have hdebt : collector.debt = collector.recordIds.debt + collector.records.debt + collector.idempotency.debt +
      collector.claims.debt + collector.headers.debt := rfl
  refine .bind (ExternalSorter.safely_push (hid.trans (by decide)) (by omega)) fun recordIds used₁ h₁ => ?_
  refine .bind (ExternalSorter.safely_push (hentry.trans (by decide)) (by omega)) fun records used₂ h₂ => ?_
  refine .pure ⟨claims, hsorts, hclaims, ?_⟩
  have hcollected : used₂ + (recordIds.debt + records.debt + collector.idempotency.debt + collector.claims.debt +
      collector.headers.debt) + joinDebt claims ≤ spent + BYTE_COST * file.bytes.length := by
    omega
  exact hcollected

theorem safely_collectFile {file : RawFile × Location} (h : collector.Within used spent)
    (hspent : spent + BYTE_COST * file.1.bytes.length ≤ MAX_REPLAY_TEMPORARY_BYTES) :
    Safely OutOfScratch (collectFile registry collector file) used
      (fun collected used' => collected.Within used' (spent + BYTE_COST * file.1.bytes.length)) := by
  refine .liftBind (.mapError fun _ => not_outOfScratch_corrupt _) fun revision _ => ?_
  have hwithin : ReplayCollector.Within { collector with revision } used spent := h
  have hweak : ReplayCollector.Within { collector with revision } used (spent + BYTE_COST * file.1.bytes.length) := by
    obtain ⟨claims, hsorts, hclaims, hused⟩ := hwithin
    exact ⟨claims, hsorts, hclaims, hused.trans (Nat.le_add_right _ _)⟩
  split
  · exact .pure hweak
  · exact .pure hweak
  · exact safely_collectManifest hwithin hspent
  · rename_i hclass
    exact safely_collectRecord (by rw [hclass]; rfl) file.2 hwithin hspent
  · exact .throw (not_outOfScratch_corrupt _)
  · exact .throw (not_outOfScratch_corrupt _)

theorem safely_collectFacts {files : List (RawFile × Location)}
    (h : used + BYTE_COST * totalLength files ≤ MAX_REPLAY_TEMPORARY_BYTES) :
    Safely OutOfScratch (collectFacts registry files) used (fun collected used' =>
      (∀ claim ∈ collected.2.claims, statusSize claim ≤ MAX_FACT_BYTES) ∧
        used' + joinDebt collected.2.claims ≤ used + BYTE_COST * totalLength files) := by
  have hcollect : Safely OutOfScratch (files.foldlM (collectFile registry) .new) used
      (fun collector used' => collector.Within used' (used + BYTE_COST * totalLength files)) := by
    refine .foldlM (fun done (collector : ReplayCollector) used' => collector.Within used' (used + BYTE_COST * totalLength done))
      ⟨[], ExternalSorter.sorts_new, fun _ h => absurd h List.not_mem_nil, Nat.le_refl _⟩ ?_
    rintro done file rest collector used' rfl hdone
    have hsingle : totalLength [file] = file.1.bytes.length := rfl
    have hcons : totalLength (file :: rest) = totalLength [file] + totalLength rest := totalLength_append [file] rest
    rw [totalLength_append, hcons, Nat.mul_add, Nat.mul_add, hsingle] at h
    rw [totalLength_append, Nat.mul_add, hsingle, ← Nat.add_assoc]
    exact safely_collectFile hdone (by omega)
  refine .bind hcollect ?_
  rintro collector used₀ ⟨claims, hsorts, hclaims, hused⟩
  have hdebt : collector.debt = collector.recordIds.debt + collector.records.debt + collector.idempotency.debt +
      collector.claims.debt + collector.headers.debt := rfl
  refine .bind (ExternalSorter.safely_finish (by omega)) fun recordIds used₁ h₁ => ?_
  refine .bind (ExternalSorter.safely_finish (by omega)) fun records used₂ h₂ => ?_
  refine .bind (ExternalSorter.safely_finish (by omega)) fun idempotency used₃ h₃ => ?_
  refine .bind ((ExternalSorter.safely_finish (by omega)).ensures hsorts.finish) ?_
  rintro sorted used₄ ⟨⟨-, hperm⟩, h₄⟩
  refine .bind (ExternalSorter.safely_finish (by omega)) fun headers used₅ h₅ => .pure ⟨?_, ?_⟩
  · intro claim hclaim
    exact hclaims claim (hperm.mem_iff.mp hclaim)
  · have hsorted : used₅ + joinDebt sorted ≤ used + BYTE_COST * totalLength files := by
      rw [joinDebt_perm hperm]
      omega
    exact hsorted

end Records

end Collect

section Builder

variable {used : Nat}

/-- What the entry of a file can cost. -/
def ENTRY_COST : Nat := 486

/-- The builder holds these files and has not spent more on them than it may. -/
structure CanonicalReplayBuilder.Affords (builder : CanonicalReplayBuilder) (placed : List (RawFile × Location)) (used : Nat) : Prop where
  builds : builder.Builds placed
  total : totalLength placed = builder.totalBytes
  spent : used + builder.entries.debt ≤ builder.totalBytes + ENTRY_COST * placed.length

namespace CanonicalReplayBuilder

variable {builder : CanonicalReplayBuilder} {placed : List (RawFile × Location)}

theorem affords_new : replayBuilder.Affords [] 0 := ⟨builds_new, rfl, Nat.le_refl _⟩

theorem Affords.push (h : builder.Affords placed used) (hcount : placed.length < MAX_CANONICAL_ENTRIES) (file : RawFile) :
    Safely OutOfScratch (builder.push file) used (fun pushed used' =>
      ∃ location, pushed.Affords (placed ++ [(file, location)]) used') := by
  have hspent := h.spent
  have hcost : Safely OutOfScratch (builder.push file) used (fun pushed used' =>
      pushed.totalBytes = builder.totalBytes + file.bytes.length ∧
        used' + pushed.entries.debt ≤ pushed.totalBytes + ENTRY_COST * (placed.length + 1)) := by
    unfold CanonicalReplayBuilder.push
    split
    · rename_i limit hlimit
      refine .guard (not_outOfScratch_message (by decide) (by decide)) fun _ => .guard (not_outOfScratch_here _) fun htotal => ?_
      have hentry := size_entry_le (isCanonical_of_limit hlimit) ⟨builder.payloads.length, file.bytes.length⟩
      rw [MAX_TOTAL_CANONICAL_BYTES] at htotal
      rw [MAX_CANONICAL_ENTRIES] at hcount
      rw [ENTRY_COST] at hspent ⊢
      have hmax : MAX_REPLAY_TEMPORARY_BYTES = 34359738368 := rfl
      refine .bind (safely_reserveTemporary (by omega)) ?_
      rintro _ used₁ rfl
      refine .bind (ExternalSorter.safely_push (hentry.trans (by decide)) (by omega)) fun entries used₂ h₂ => .pure ⟨rfl, ?_⟩
      change used₂ + entries.debt ≤ builder.totalBytes + file.bytes.length + 486 * (placed.length + 1)
      omega
    · exact .throw (not_outOfScratch_corrupt _)
  refine (hcost.ensures (h.builds.push file)).mono ?_
  rintro pushed used' ⟨⟨location, hbuilds⟩, htotal, hused⟩
  refine ⟨location, hbuilds, ?_, ?_⟩
  · rw [totalLength_append, h.total, htotal]
    rfl
  · rw [List.length_append, List.length_singleton]
    exact hused

/-- What is left is enough for the validation. -/
theorem Affords.finish (h : builder.Affords placed used) (hcount : placed.length ≤ MAX_CANONICAL_ENTRIES) :
    Safely OutOfScratch builder.finish used (fun replay used' => ∃ files, replay.cursor = .ok files ∧
      used' + BYTE_COST * totalLength files ≤ MAX_REPLAY_TEMPORARY_BYTES) := by
  have hspent := h.spent
  have htotal := h.total
  have hbounded := h.builds.bounded
  have hmax : MAX_REPLAY_TEMPORARY_BYTES = 34359738368 := rfl
  rw [MAX_TOTAL_CANONICAL_BYTES] at hbounded
  rw [MAX_CANONICAL_ENTRIES] at hcount
  rw [ENTRY_COST] at hspent
  have hfinish : Safely OutOfScratch builder.finish used (fun _ used' => used' ≤ used + builder.entries.debt) := by
    refine .bind (ExternalSorter.safely_finish (by omega)) fun entries used' hused => ?_
    exact .liftBind (.foldlM avoids_countEntry _ _) fun _ _ => .pure hused
  refine (hfinish.ensures h.builds.finish).mono ?_
  rintro replay used' ⟨⟨files, hfiles, hperm⟩, hused⟩
  have hlength : totalLength files = totalLength placed := (hperm.map _).sum_eq
  refine ⟨files, hfiles, ?_⟩
  rw [hlength, BYTE_COST]
  omega

end CanonicalReplayBuilder

theorem safely_spoolEntry {builder : CanonicalReplayBuilder} {budget : ScanBudget} {placed : List (RawFile × Location)}
    (h : builder.Affords placed used) (hcount : placed.length ≤ budget.entries) (e : List Name × Entry) :
    Safely OutOfScratch (spoolEntry (builder, budget) e) used (fun state used' =>
      ∃ placed, state.1.Affords placed used' ∧ placed.length ≤ state.2.entries ∧ state.2.entries ≤ MAX_CANONICAL_ENTRIES) := by
  have hentry : ∀ path, Avoids OutOfScratch (budget.entry path) :=
    fun _ => .ite (.error (not_outOfScratch_message (by decide) (by decide))) (.ok _)
  refine .liftBind (hentry _) fun counted hcounted => ?_
  have hentries : counted.entries = budget.entries + 1 ∧ counted.entries ≤ MAX_CANONICAL_ENTRIES := by
    unfold ScanBudget.entry at hcounted
    split at hcounted
    · cases hcounted
    · cases hcounted
      exact ⟨rfl, by dsimp only; omega⟩
  split
  · refine .guard (not_outOfScratch_corrupt _) fun _ => .pure ⟨placed, h, ?_, hentries.2⟩
    dsimp only
    omega
  · split
    · refine .guard (not_outOfScratch_message (by decide) (by decide)) fun _ => ?_
      refine .liftBind (.ite (.error (not_outOfScratch_message (by decide) (by decide))) (.ok _)) fun reserved hreserved => ?_
      have hkept : reserved.entries = counted.entries := by
        unfold ScanBudget.reserveBytes at hreserved
        split at hreserved
        · cases hreserved
        · cases hreserved
          rfl
      refine .bind (h.push (by omega) _) ?_
      rintro pushed used' ⟨location, hpushed⟩
      refine .pure ⟨_, hpushed, ?_, ?_⟩
      · rw [List.length_append, List.length_singleton]
        dsimp only
        omega
      · dsimp only
        omega
    · exact .throw (not_outOfScratch_corrupt _)
  · exact .throw (not_outOfScratch_corrupt _)

end Builder

section Replay

variable [Jiff] [Blake3] {store : Store} {used : Nat}

theorem safely_validateOwnershipAndBatches {registry : DomainRegistry} {replay : CanonicalReplay} {facts : ReplayFacts}
    (hclaims : ∀ claim ∈ facts.claims, statusSize claim ≤ MAX_FACT_BYTES)
    (h : used + joinDebt facts.claims ≤ MAX_REPLAY_TEMPORARY_BYTES) :
    Safely OutOfScratch (validateOwnershipAndBatches registry replay facts) used (fun _ _ => True) := by
  have hnew : ExternalSorter.new.debt = 0 := rfl
  refine .bind (safely_joinClaims hclaims (by omega)) fun joined used₁ h₁ => ?_
  refine .bind (ExternalSorter.safely_finish h₁) fun enriched used₂ _ => ?_
  refine .liftBind (avoids_validateBatches _ _ _ _) fun _ _ => ?_
  split
  · exact .lift (avoids_corrupt _) fun _ _ => trivial
  · exact .pure trivial

theorem safely_validateBoundedReplay {replay : CanonicalReplay} {files : List (RawFile × Location)} (hfiles : replay.cursor = .ok files)
    (h : used + BYTE_COST * totalLength files ≤ MAX_REPLAY_TEMPORARY_BYTES) :
    Safely OutOfScratch (validateBoundedReplay store replay) used (fun _ _ => True) := by
  refine .liftBind (avoids_cursor replay) fun read hread => ?_
  cases Except.ok.inj (hread.symm.trans hfiles)
  refine .liftBind (avoids_validateLegacyReplay _ _) fun _ _ => .bind (safely_collectFacts h) ?_
  rintro ⟨collector, facts⟩ used' ⟨hclaims, hused⟩
  refine .liftBind (avoids_validateDuplicateRecordIds _) fun _ _ => ?_
  refine .liftBind (avoids_validateDuplicateIdempotency _) fun _ _ => ?_
  refine .bind (safely_validateOwnershipAndBatches hclaims (hused.trans h)) fun _ used₁ _ => ?_
  refine .guard (not_outOfScratch_corrupt _) fun _ => .ite (fun _ => ?_) fun _ => .pure trivial
  exact .liftBind (avoids_replayedIdentity _ _ _ _) fun _ _ => .pure trivial

theorem avoids_validateStreamed {files : List RawFile} (h : files.length ≤ MAX_CANONICAL_ENTRIES) :
    Avoids OutOfScratch (validateStreamed store files) := by
  have hbuild : Safely OutOfScratch (files.foldlM CanonicalReplayBuilder.push replayBuilder) 0 (fun builder used =>
      ∃ placed, placed.map Prod.fst = files ∧ builder.Affords placed used) := by
    refine .foldlM (fun done (builder : CanonicalReplayBuilder) used => ∃ placed, placed.map Prod.fst = done ∧ builder.Affords placed used)
      ⟨[], rfl, CanonicalReplayBuilder.affords_new⟩ ?_
    rintro done file rest builder used rfl ⟨placed, rfl, hplaced⟩
    rw [List.length_append, List.length_map, List.length_cons] at h
    refine (hplaced.push (by omega) file).mono ?_
    rintro pushed used' ⟨location, hpushed⟩
    exact ⟨placed ++ [(file, location)], List.map_append, hpushed⟩
  refine Safely.run' (.bind hbuild ?_)
  rintro builder used ⟨placed, rfl, hplaced⟩
  rw [List.length_map] at h
  refine .bind (hplaced.finish h) ?_
  rintro replay used' ⟨read, hread, hused⟩
  exact safely_validateBoundedReplay hread hused

theorem avoids_validateVisible (disk : Disk) : Avoids OutOfScratch (validateVisible store disk) := by
  have hspool : Safely OutOfScratch ((visibleEntries disk).foldlM spoolEntry (replayBuilder, ⟨0, 0⟩)) 0 (fun state used =>
      ∃ placed, state.1.Affords placed used ∧ placed.length ≤ state.2.entries ∧ state.2.entries ≤ MAX_CANONICAL_ENTRIES) := by
    refine .foldlM (fun _ (state : CanonicalReplayBuilder × ScanBudget) used => ∃ placed, state.1.Affords placed used ∧
      placed.length ≤ state.2.entries ∧ state.2.entries ≤ MAX_CANONICAL_ENTRIES)
      ⟨[], CanonicalReplayBuilder.affords_new, Nat.le_refl _, Nat.zero_le _⟩ ?_
    rintro done e rest ⟨builder, budget⟩ used - ⟨placed, hplaced, hcount, -⟩
    exact safely_spoolEntry hplaced hcount e
  have hreplay : Safely OutOfScratch (visibleReplay disk) 0 (fun replay used => ∃ files, replay.cursor = .ok files ∧
      used + BYTE_COST * totalLength files ≤ MAX_REPLAY_TEMPORARY_BYTES) := by
    refine .bind hspool ?_
    rintro ⟨builder, budget⟩ used ⟨placed, hplaced, hcount, hbudget⟩
    exact hplaced.finish (hcount.trans hbudget)
  refine Safely.run' (.bind hreplay ?_)
  rintro replay used ⟨files, hfiles, hused⟩
  exact safely_validateBoundedReplay hfiles hused

/-- Whatever the files, a replay has room for its facts and for all that it writes of them. -/
theorem replay_within_scratch (store : Store) :
    (∀ files : List RawFile, files.length ≤ MAX_CANONICAL_ENTRIES → ∀ e, validateStreamed store files = .error e → ¬ OutOfScratch e) ∧
    (∀ (disk : Disk) (e : StoreError), validateVisible store disk = .error e → ¬ OutOfScratch e) ∧
    (∀ (file : RawFile) (limit : Nat), canonicalFileLimit (classifyPath file.path) = some limit → file.bytes.length ≤ limit →
      file.bytes.length < 2 ^ 32 ∧ ∀ location : Location, Writable (file.path, location.encode)) ∧
    (∀ (file : RawFile) (manifest : BatchManifest), decodeManifestFile file = .ok manifest → ManifestFactsFit manifest) ∧
    ∀ (file : RawFile) (record : Record), classifyPath file.path = .journalRecord →
      decodeRecordFile store.registry file = .ok record → Writable (asBytes record.recordId.display, file.path) := by
  refine ⟨fun files h => avoids_validateStreamed h, fun disk => avoids_validateVisible disk, ?_, ?_, ?_⟩
  · intro file limit hlimit hlength
    refine ⟨?_, fun location => .of_size ((size_entry_le (isCanonical_of_limit hlimit) location).trans (by decide))⟩
    have hlimit : limit ≤ MAX_LEGACY_FILE_BYTES ∨ limit ≤ MAX_RECORD_BYTES ∨ limit ≤ MAX_BATCH_BYTES := by
      unfold canonicalFileLimit at hlimit
      split at hlimit <;> cases hlimit <;> simp
    rw [MAX_LEGACY_FILE_BYTES, MAX_RECORD_BYTES, MAX_BATCH_BYTES] at hlimit
    omega
  · exact fun file manifest h => manifestFactsFit h
  · intro file record hclass _
    have hcanonical : (classifyPath file.path).isCanonical = true := by
      rw [hclass]
      rfl
    exact .of_size ((size_recordIdFact_le (length_canonicalPath_le hcanonical) record.recordId).trans (by decide))

end Replay

section

attribute [local instance] Sample.jiff Sample.blake3

/-- A manifest without its record fails for that and for nothing else. -/
theorem genesis_manifest_within_scratch : ∃ prepared, prepareBatch [Sample.genesis] "genesis" Sample.strictStore.registry = .ok prepared ∧
    ManifestFactsFit prepared.manifest ∧
      ∀ e, validateStreamed Sample.strictStore [prepared.manifestFile] = .error e → ¬ OutOfScratch e := by
  obtain ⟨prepared, hprepare, hrecords⟩ := prepareBatch_singleton "genesis" Sample.encodeRecord_genesis
  have hreadable := Sample.readable_genesis hprepare hrecords
  have hdecode : decodeManifestFile prepared.manifestFile = .ok prepared.manifest := by
    refine except_bind_eq_ok.mpr ⟨_, mapError_eq_ok.mpr hreadable.decodeBatchManifest_ok, ?_⟩
    refine guard_bind_eq_ok.mpr ⟨not_not.mpr ?_, rfl⟩
    rw [← hreadable.wellFormed.manifestPath_eq]
    rfl
  refine ⟨prepared, hprepare, ?_, ?_⟩
  · exact (replay_within_scratch Sample.strictStore).2.2.2.1 _ _ hdecode
  · exact (replay_within_scratch Sample.strictStore).1 _ (by rw [List.length_singleton, MAX_CANONICAL_ENTRIES]; omega)

end

end Wayjournal
