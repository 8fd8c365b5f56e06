import Wayjournal.Batch.PreparedLaws
import Wayjournal.Record.Length
namespace Wayjournal
open Collections Text

theorem entries_manifestMembers (manifest : BatchManifest) :
    (BTreeMap.ofList (manifestMembers manifest)).entries = manifestMembers manifest := by
  apply BTreeMap.entries_ofList_of_sorted
  simp only [manifestMembers, List.map_cons, List.map_nil]
  decide

theorem entries_recordRefMembers (member : RecordRef) :
    (BTreeMap.ofList (recordRefMembers member)).entries = recordRefMembers member := by
  apply BTreeMap.entries_ofList_of_sorted
  simp only [recordRefMembers, List.map_cons, List.map_nil]
  decide

theorem noFloats_manifestValue (manifest : BatchManifest) : (manifestValue manifest).noFloats = true := by
  rw [manifestValue, Json.noFloats_object, entries_manifestMembers]
  simp only [manifestMembers, List.forall_mem_cons, List.not_mem_nil, false_implies, implies_true, and_true]
  refine ⟨rfl, rfl, rfl, ?_, rfl, rfl⟩
  rw [Json.noFloats_array, List.forall_mem_map]
  intro member _
  rw [Json.noFloats_object, entries_recordRefMembers]
  simp only [recordRefMembers, List.forall_mem_cons, List.not_mem_nil, false_implies, implies_true, and_true]
  exact ⟨rfl, rfl, rfl, rfl⟩

theorem length_print_recordRef (member : RecordRef) (hpath : member.path.toList.length ≤ 223) :
    (Json.print 2 (Json.object (.ofList (recordRefMembers member))).raw).length ≤ 12000 := by
  have h₁ := Json.length_printString_le_chars member.contentDigest.display
  have h₂ := Json.length_printString_le_chars member.path
  have h₃ := Json.length_printString_le_chars member.recordId.display
  have h₄ := Json.length_printString_le_chars member.recordSchema.asStr
  have h₅ := RecordSchemaId.length_le member.recordSchema
  rw [length_display] at h₁
  rw [UuidId.length_display_chars] at h₃
  have k₁ : (Json.printString "content_digest").length = 16 := by decide
  have k₂ : (Json.printString "path").length = 6 := by decide
  have k₃ : (Json.printString "record_id").length = 11 := by decide
  have k₄ : (Json.printString "record_schema").length = 15 := by decide
  simp only [Json.object, entries_recordRefMembers]
  simp only [recordRefMembers, List.map_cons, List.map_nil, Json.print, Json.printMembers, Json.string, Json.newline, List.length_append, List.length_cons, List.length_nil,
    List.length_replicate, k₁, k₂, k₃, k₄]
  omega

theorem length_print_manifest {manifest : BatchManifest} {member : RecordRef}
    (h : manifest.members = [member]) (hpath : member.path.toList.length ≤ 223) :
    (Json.print 0 (manifestValue manifest).raw).length ≤ 30000 := by
  have hmember := length_print_recordRef member hpath
  have h₁ := Json.length_printString_le_chars manifest.actor.asStr
  have h₂ := Json.length_printString_le_chars manifest.batchId.display
  have h₃ := Json.length_printString_le_chars manifest.idempotencyKeyDigest.display
  have h₅ := Json.length_printString_le_chars manifest.requestDigest.display
  have h₇ := ActorId.length_le manifest.actor
  rw [length_display] at h₃ h₅
  rw [UuidId.length_display_chars] at h₂
  have k₁ : (Json.printString "actor").length = 7 := by decide
  have k₂ : (Json.printString "batch_id").length = 10 := by decide
  have k₃ : (Json.printString "idempotency_key_digest").length = 24 := by decide
  have k₄ : (Json.printString "members").length = 9 := by decide
  have k₅ : (Json.printString "request_digest").length = 16 := by decide
  have k₆ : (Json.printString "schema").length = 8 := by decide
  have k₇ : (Json.printString BATCH_SCHEMA_V1).length ≤ 100 := by decide
  simp only [manifestValue, Json.object, entries_manifestMembers, entries_recordRefMembers] at hmember ⊢
  simp only [manifestMembers, h, List.map_cons, List.map_nil, Json.object, entries_recordRefMembers, Json.print, Json.printMembers, Json.string, Json.array, Json.printItems, Json.newline, List.length_append,
    List.length_cons, List.length_nil, List.length_replicate, k₁, k₂, k₃, k₄, k₅, k₆, Nat.reduceAdd]
  omega

/-- A manifest of one member is well below the limit. -/
theorem encodeManifest_singleton {manifest : BatchManifest} {member : RecordRef}
    (h : manifest.members = [member]) (hpath : member.path.toList.length ≤ 223) :
    ∃ bytes, encodeManifest manifest = .ok bytes := by
  have hlength := length_print_manifest h hpath
  refine ⟨_, except_bind_eq_ok.mpr ⟨_, mapError_eq_ok.mpr (encodePretty_eq_ok.mpr
    ⟨noFloats_manifestValue manifest, rfl⟩), guard_bind_eq_ok.mpr ⟨?_, rfl⟩⟩⟩
  rw [List.length_append, List.length_singleton, MAX_BATCH_BYTES]
  omega

variable [Jiff] [Blake3]

/-- A record that can be written is a batch of its own. -/
theorem prepareBatch_singleton {record : Record} {registry : DomainRegistry} {bytes : Bytes} (key : String)
    (h : encodeRecord record registry = .ok bytes) :
    ∃ prepared, prepareBatch [record] key registry = .ok prepared ∧
      prepared.records = [⟨record, record.canonicalPath, bytes⟩] := by
  have hfold : [record].foldlM (prepareRecord record.batchId record.actor registry) (∅, ∅) =
      .ok ((∅ : BTreeSet RecordId).insert record.recordId (),
        (∅ : BTreeMap String PreparedRecord).insert record.canonicalPath ⟨record, record.canonicalPath, bytes⟩) := by
    rw [List.foldlM_cons]
    refine except_bind_eq_ok.mpr ⟨_, ?_, rfl⟩
    unfold prepareRecord
    refine guard_bind_eq_ok.mpr ⟨not_not.mpr rfl, guard_bind_eq_ok.mpr ⟨not_not.mpr rfl, guard_bind_eq_ok.mpr
      ⟨Bool.false_ne_true, except_bind_eq_ok.mpr ⟨bytes, mapError_eq_ok.mpr h, rfl⟩⟩⟩⟩
  have hvalues : ((∅ : BTreeMap String PreparedRecord).insert record.canonicalPath
      ⟨record, record.canonicalPath, bytes⟩).values = [⟨record, record.canonicalPath, bytes⟩] := rfl
  let manifest : BatchManifest :=
    { batchId := record.batchId
      actor := record.actor
      members := [⟨record.canonicalPath, record.recordId, record.recordSchema, contentDigest bytes⟩]
      idempotencyKeyDigest := idempotencyDigest record.actor key
      requestDigest := framedHash REQUEST_DIGEST_DOMAIN [(asBytes record.canonicalPath, bytes)] }
  have hmembers : manifest.members =
    [⟨record.canonicalPath, record.recordId, record.recordSchema, contentDigest bytes⟩] := rfl
  obtain ⟨manifestBytes, hmanifest⟩ := encodeManifest_singleton hmembers record.length_canonicalPath_le
  refine ⟨⟨manifest, manifest.canonicalPath, manifestBytes, [⟨record, record.canonicalPath, bytes⟩]⟩, ?_, rfl⟩
  unfold prepareBatch
  exact except_bind_eq_ok.mpr ⟨_, hfold, except_bind_eq_ok.mpr ⟨manifestBytes, hmanifest, rfl⟩⟩

end Wayjournal
