import Wayjournal.Json.Length
import Wayjournal.Record.CodecLaws

namespace Wayjournal

open Collections Text

theorem length_le_byteLen (cs : List Char) : cs.length ≤ byteLen cs := by
  induction cs with
  | nil => exact Nat.le_refl 0
  | cons c t ih =>
    have hc : 0 < c.utf8Size := c.utf8Size_pos
    simp only [byteLen, List.map_cons, List.sum_cons, List.length_cons] at ih ⊢
    omega

theorem TokenId.length_le {k : TokenKind} (x : TokenId k) : x.asStr.toList.length ≤ 128 := by
  have h := x.valid
  rw [TokenKind.check, validNamespacedToken, Bool.and_eq_true, Bool.and_eq_true, decide_eq_true_eq] at h
  exact (length_le_byteLen _).trans h.1.1

theorem RecordSchemaId.length_le (x : RecordSchemaId) : x.asStr.toList.length ≤ 128 := by
  have h := x.valid
  rw [validRecordSchema, Bool.and_eq_true, decide_eq_true_eq] at h
  exact (length_le_byteLen _).trans h.1

theorem ActorId.length_le (x : ActorId) : x.asStr.toList.length ≤ 129 := by
  have h := x.valid
  unfold validActor at h
  split at h
  · cases h
  · simp only [Bool.and_eq_true, decide_eq_true_eq] at h
    exact h.2

theorem UuidId.length_display_chars {k : UuidKind} (x : UuidId k) : x.display.toList.length = 36 := by
  rw [UuidId.display, Uuid.hyphenated, String.toList_ofList, Uuid.length_hyphenate (Hex.length_toChars _)]

theorem length_recordPath_le (domain : DomainId) (entity : EntityId) (id : RecordId) :
    ("journal/records/" ++ domain.asStr ++ "/" ++ entity.display ++ "/" ++ id.display ++ ".json").toList.length ≤ 223 := by
  have hdomain := TokenId.length_le domain
  have hentity := entity.length_display_chars
  have hid := id.length_display_chars
  have hbelow : "journal/records/".toList.length = 16 := by decide
  have hslash : "/".toList.length = 1 := by decide
  have hjson : ".json".toList.length = 5 := by decide
  generalize domain.asStr = a at *
  generalize entity.display = b at *
  generalize id.display = c at *
  generalize "journal/records/" = d at *
  generalize "/" = e at *
  generalize ".json" = f at *
  simp only [String.toList_append, List.length_append]
  omega

section

variable [Jiff]

theorem Record.length_canonicalPath_le (record : Record) : record.canonicalPath.toList.length ≤ 223 :=
  length_recordPath_le record.domain record.entityId record.recordId

/-- What the envelope adds to the payload of a record without parents. -/
theorem length_print_envelope_le {record : Record} (h : record.parents = []) :
    (Json.print 0 (envelope record).raw).length ≤ 16000 +
      24 * (record.occurredAt.display.toList.length + record.recordedAt.display.toList.length) +
      (Json.print 1 record.payload.raw).length := by
  have h₁ := Json.length_printString_le_chars record.actor.asStr
  have h₂ := Json.length_printString_le_chars record.batchId.display
  have h₃ := Json.length_printString_le_chars record.domain.asStr
  have h₄ := Json.length_printString_le_chars record.entityId.display
  have h₅ := Json.length_printString_le_chars record.kind.asStr
  have h₆ := Json.length_printString_le_chars record.occurredAt.display
  have h₇ := Json.length_printString_le_chars record.recordId.display
  have h₈ := Json.length_printString_le_chars record.recordSchema.asStr
  have h₉ := Json.length_printString_le_chars record.recordedAt.display
  rw [UuidId.length_display_chars] at h₂ h₄ h₇
  have b₁ := ActorId.length_le record.actor
  have b₃ := TokenId.length_le record.domain
  have b₅ := TokenId.length_le record.kind
  have b₈ := RecordSchemaId.length_le record.recordSchema
  have k₁ : (Json.printString "actor").length = 7 := by decide
  have k₂ : (Json.printString "batch_id").length = 10 := by decide
  have k₃ : (Json.printString "domain").length = 8 := by decide
  have k₄ : (Json.printString "entity_id").length = 11 := by decide
  have k₅ : (Json.printString "kind").length = 6 := by decide
  have k₆ : (Json.printString "occurred_at").length = 13 := by decide
  have k₇ : (Json.printString "parents").length = 9 := by decide
  have k₈ : (Json.printString "payload").length = 9 := by decide
  have k₉ : (Json.printString "record_id").length = 11 := by decide
  have k₁₀ : (Json.printString "record_schema").length = 15 := by decide
  have k₁₁ : (Json.printString "recorded_at").length = 13 := by decide
  have k₁₂ : (Json.printString "schema").length = 8 := by decide
  have k₁₃ : (Json.printString RECORD_SCHEMA_V1).length = 22 := by decide
  simp only [envelope, Json.object, entries_envelope]
  simp only [envelopeMembers, h, List.map_cons, List.map_nil, Json.print, Json.printMembers, Json.string, Json.array,
    Json.newline, List.length_append, List.length_cons, List.length_nil, List.length_replicate, k₁, k₂, k₃, k₄, k₅,
    k₆, k₇, k₈, k₉, k₁₀, k₁₁, k₁₂, k₁₃, Nat.reduceAdd]
  omega

end

end Wayjournal
