import Wayjournal.Batch.ManifestLaws
import Wayjournal.Json.Compact
import Wayjournal.Store.Paths
import Wayjournal.Store.Transaction

namespace Wayjournal

open Collections Serde Text

namespace RawJournal

variable (raw : RawJournal)

def fields : List (String × Json) :=
  [("base_algorithm", .string raw.baseAlgorithm), ("base_digest", .string raw.baseDigest),
    ("batch_id", .string raw.batchId), ("manifest_hash", .string raw.manifestHash),
    ("member_count", .number (.posInt raw.memberCount)), ("schema", .string raw.schema)]

theorem sorted_fields : (raw.fields.map Prod.fst).Pairwise (· < ·) := by
  simp only [fields, List.map_cons, List.map_nil]
  decide

theorem raw_object : (Json.object (.ofList raw.fields)).raw = .object raw.members := by
  change Json.Raw.object _ = _
  rw [BTreeMap.entries_ofList_of_sorted raw.sorted_fields]
  rfl

theorem fromValue_object : (fromValue (Json.object (.ofList raw.fields)) : Option RawJournal) = some raw := by
  have hfields := structFields_members (raw.sorted_fields.imp ne_of_lt)
  have hnames : raw.fields.map Prod.fst =
      ["base_algorithm", "base_digest", "batch_id", "manifest_hash", "member_count", "schema"] := rfl
  rw [hnames] at hfields
  simp only [fromValue, hfields]
  rfl

theorem decodeStrict_members : decodeStrict (Json.compactObject raw.members) =
    .ok (.object (.ofList raw.fields)) := by
  rw [decodeStrict_eq_ok, raw_object]
  refine Json.parse_compactObject (by simp [members]) raw.sorted_fields ?_
  simp only [members, List.mem_cons, List.not_mem_nil, or_false, forall_eq_or_imp, forall_eq]
  exact ⟨⟨rfl, rfl, rfl⟩, ⟨rfl, rfl, rfl⟩, ⟨rfl, rfl, rfl⟩, ⟨rfl, rfl, rfl⟩, ⟨rfl, rfl, rfl⟩, ⟨rfl, rfl, rfl⟩⟩

theorem length_members (n₁ n₂ n₃ n₄ n₆ : Nat) (h₁ : (Json.utf8 raw.baseAlgorithm).length ≤ n₁)
    (h₂ : (Json.utf8 raw.baseDigest).length ≤ n₂) (h₃ : (Json.utf8 raw.batchId).length ≤ n₃)
    (h₄ : (Json.utf8 raw.manifestHash).length ≤ n₄) (h₆ : (Json.utf8 raw.schema).length ≤ n₆) :
    (Json.compactObject raw.members).length ≤ 6 * (n₁ + n₂ + n₃ + n₄ + n₆) + 200 := by
  have h₁' := Json.length_printString_le raw.baseAlgorithm
  have h₂' := Json.length_printString_le raw.baseDigest
  have h₃' := Json.length_printString_le raw.batchId
  have h₄' := Json.length_printString_le raw.manifestHash
  have h₅' := Json.length_decimal_le raw.memberCount.val
  have h₆' := Json.length_printString_le raw.schema
  have k₁ : (Json.printString "base_algorithm").length = 16 := by decide
  have k₂ : (Json.printString "base_digest").length = 13 := by decide
  have k₃ : (Json.printString "batch_id").length = 10 := by decide
  have k₄ : (Json.printString "manifest_hash").length = 15 := by decide
  have k₅ : (Json.printString "member_count").length = 14 := by decide
  have k₆ : (Json.printString "schema").length = 8 := by decide
  simp only [Json.compactObject, members, List.map_cons, List.map_nil, Json.compactMember, Json.print,
    Json.printNumber, List.intercalate_cons_cons, List.intercalate_singleton, List.length_cons,
    List.length_append, List.length_nil, k₁, k₂, k₃, k₄, k₅, k₆]
  omega

variable {raw}

theorem decodeJournal_members {path : StorePath} {base : StoreRevisionRef} {batchId : BatchId}
    (hlength : (Json.compactObject raw.members).length ≤ MAX_JOURNAL_BYTES)
    (hschema : raw.schema = JOURNAL_SCHEMA_V1) (hpos : 0 < raw.memberCount.val)
    (hmax : raw.memberCount.val ≤ MAX_JOURNAL_MEMBERS)
    (hbase : StoreRevisionRef.parse raw.baseAlgorithm raw.baseDigest = some base)
    (hbatch : (FromStr.fromStr raw.batchId : Except _ BatchId) = .ok batchId) :
    decodeJournal path (Json.compactObject raw.members) =
      .ok ⟨base, batchId, raw.manifestHash, raw.memberCount.val⟩ := by
  have hencode : encodeJournal raw path = .ok (Json.compactObject raw.members) := by
    rw [encodeJournal, if_neg (by omega)]
  have hcount : ¬ (decide (raw.memberCount.val = 0) ||
      decide (raw.memberCount.val > MAX_JOURNAL_MEMBERS)) = true := by
    simp only [Bool.or_eq_true, decide_eq_true_eq, not_or]
    omega
  simp only [decodeJournal, guard_bind_eq_ok, except_bind_eq_ok, mapError_eq_ok]
  refine ⟨by omega, _, raw.decodeStrict_members, ?_⟩
  simp only [raw.fromValue_object, guard_bind_eq_ok, except_bind_eq_ok, hbase, hbatch]
  exact ⟨not_not.mpr hschema, _, hencode, not_not.mpr rfl, hcount, rfl⟩

end RawJournal

theorem length_utf8_nameChars {s : String} (h : ∀ c ∈ s.toList, isNameChar c = true) :
    (Json.utf8 s).length = s.toList.length := by
  rw [Json.utf8, encode_nameChars h, List.length_map]

theorem isNameChar_digest (d : Digest) : ∀ c ∈ d.display.toList, isNameChar c = true := by
  intro c hc
  rw [Digest.display, String.toList_ofList] at hc
  obtain ⟨n, -, rfl⟩ := List.mem_map.mp hc
  exact (isNameChar_hexDigit n).1

section

variable [Jiff] [Blake3] {prepared : PreparedBatch} {base : StoreRevisionRef} {count : Fin (2 ^ 64)}

theorem length_stageJournal_le :
    (Json.compactObject (stageJournal prepared base count).members).length ≤ MAX_JOURNAL_BYTES := by
  have hdigest : ∀ d : Digest, (Json.utf8 d.display).length ≤ 64 := by
    intro d
    rw [length_utf8_nameChars (isNameChar_digest d), length_display]
  have hbatch : (Json.utf8 prepared.manifest.batchId.display).length ≤ 36 := by
    rw [UuidId.display, length_utf8_nameChars (isNameChar_uuid _), Uuid.hyphenated, String.toList_ofList,
      Uuid.length_hyphenate (Hex.length_toChars _)]
  have halgorithm : (Json.utf8 base.algorithm.asStr).length ≤ 33 := by
    cases base.algorithm <;> decide
  have hschema : (Json.utf8 JOURNAL_SCHEMA_V1).length ≤ 25 := by decide
  have hlength := (stageJournal prepared base count).length_members 33 64 36 64 25 halgorithm
    (hdigest _) hbatch (hdigest _) hschema
  have hmax : MAX_JOURNAL_BYTES = 4096 := rfl
  omega

/-- The journal of a stage reads back. -/
theorem decode_stageJournal (h : prepared.WellFormed) (hcount : count.val = prepared.records.length)
    (path : StorePath) :
    decodeJournal path (Json.compactObject (stageJournal prepared base count).members) =
      .ok ⟨base, prepared.manifest.batchId, manifestHash prepared.manifestBytes, prepared.records.length⟩ := by
  have hlength := h.length_records_le
  have hpos := List.length_pos_iff.mpr h.nonempty
  have hdecode : decodeJournal path (Json.compactObject (stageJournal prepared base count).members) =
      .ok ⟨base, prepared.manifest.batchId, manifestHash prepared.manifestBytes, count.val⟩ :=
    RawJournal.decodeJournal_members length_stageJournal_le rfl (show 0 < count.val by omega)
      (show count.val ≤ MAX_JOURNAL_MEMBERS by rw [MAX_JOURNAL_MEMBERS]; omega) base.parse_display
      (UuidId.parse_display prepared.manifest.batchId)
  rw [hdecode, hcount]

end

end Wayjournal
