import Wayjournal.Federation.WireLaws
import Wayjournal.Projection

namespace Wayjournal

open Collections Json Serde

theorem fromValue_array {α : Type} [Deserialize α] {value : α → Json} (h : ∀ a, fromValue (value a) = some a)
    (l : List α) : (fromValue (Json.array (l.map value)) : Option (List α)) = some l := by
  simp only [fromValue, view_array]
  induction l with
  | nil => rfl
  | cons a l ih =>
    rw [List.map_cons, List.mapM_cons, h a, ih]
    rfl

theorem fromValue_storeId (store : LogicalStoreId) : fromValue store.toValue = some store :=
  writtenAs_logicalStoreId.read store

theorem fromValue_revision (revision : StoreRevisionRef) : fromValue revision.toValue = some revision :=
  writtenAs_revision.read revision

theorem fromValue_token {k : TokenKind} (x : TokenId k) :
    (fromValue (Json.string x.asStr) : Option (TokenId k)) = some x :=
  toOption_fromStr_eq_some.mpr rfl

theorem fromValue_subject (subject : QualifiedEntityRef) : fromValue subject.toValue = some subject := by
  have hslots : structFields ["store", "domain", "entity_id"] subject.toValue =
      some [some subject.store.toValue, some (.string subject.domain.asStr), some (.string subject.entityId.display)] :=
    structFields_members (by simp)
  refine Option.bind_eq_some_iff.mpr ⟨_, hslots, ?_⟩
  refine Option.bind_eq_some_iff.mpr ⟨_, fromValue_storeId _, ?_⟩
  refine Option.bind_eq_some_iff.mpr ⟨_, fromValue_token _, ?_⟩
  exact Option.bind_eq_some_iff.mpr ⟨_, writtenAs_uuidId.read _, rfl⟩

theorem fromValue_vectorEntry (entry : RevisionVectorEntry) : fromValue entry.toValue = some entry := by
  have hslots : structFields RevisionVectorEntry.fields entry.toValue =
      some [some entry.revision.toValue, some entry.store.toValue] :=
    structFields_zip (by decide) rfl
  refine Option.bind_eq_some_iff.mpr ⟨_, hslots, ?_⟩
  refine Option.bind_eq_some_iff.mpr ⟨_, fromValue_revision _, ?_⟩
  exact Option.bind_eq_some_iff.mpr ⟨_, fromValue_storeId _, rfl⟩

theorem fromValue_rawRevisionVector (raw : RawRevisionVector) : fromValue raw.toValue = some raw := by
  have hslots : structFields RawRevisionVector.fields raw.toValue =
      some [some (.array (raw.entries.map RevisionVectorEntry.toValue)), some (.string raw.schema)] :=
    structFields_zip (by decide) rfl
  refine Option.bind_eq_some_iff.mpr ⟨_, hslots, ?_⟩
  refine Option.bind_eq_some_iff.mpr ⟨_, fromValue_array fromValue_vectorEntry _, ?_⟩
  exact Option.bind_eq_some_iff.mpr ⟨_, fromValue_string _, rfl⟩

theorem fromValue_proofId (id : ProofId) : fromValue (Json.string id.display) = some id := by
  change (Digest.parse id.asDigest.display).map ProofId.mk = some id
  rw [Digest.parse_display]
  rfl

section Plain

theorem noFloats_storeId (store : LogicalStoreId) : store.toValue.noFloats = true := noFloats_texts

theorem noFloats_revision (revision : StoreRevisionRef) : revision.toValue.noFloats = true := noFloats_texts

theorem noFloats_subject (subject : QualifiedEntityRef) : subject.toValue.noFloats = true := by
  refine noFloats_object_ofList fun e he => ?_
  simp only [List.mem_cons, List.not_mem_nil, or_false] at he
  obtain rfl | rfl | rfl := he
  · exact noFloats_storeId _
  · rfl
  · rfl

theorem noFloats_vectorEntry (entry : RevisionVectorEntry) : entry.toValue.noFloats = true := by
  refine noFloats_struct fun v hv => ?_
  simp only [List.mem_cons, List.not_mem_nil, or_false] at hv
  obtain rfl | rfl := hv
  · exact noFloats_revision _
  · exact noFloats_storeId _

theorem noFloats_rawRevisionVector (raw : RawRevisionVector) : raw.toValue.noFloats = true := by
  refine noFloats_struct fun v hv => ?_
  simp only [List.mem_cons, List.not_mem_nil, or_false] at hv
  obtain rfl | rfl := hv
  · refine noFloats_array.mpr fun w hw => ?_
    obtain ⟨entry, -, rfl⟩ := List.mem_map.mp hw
    exact noFloats_vectorEntry entry
  · rfl

theorem depth_texts {a b s t : String} (n : Nat) :
    (Json.object (.ofList [(a, .string s), (b, .string t)])).depth ≤ n + 1 := by
  refine depth_object_ofList_le fun e he => ?_
  simp only [List.mem_cons, List.not_mem_nil, or_false] at he
  obtain rfl | rfl := he <;> exact Nat.zero_le n

theorem depth_storeId (store : LogicalStoreId) (n : Nat) : store.toValue.depth ≤ n + 1 := depth_texts n

theorem depth_revision (revision : StoreRevisionRef) (n : Nat) : revision.toValue.depth ≤ n + 1 := depth_texts n

theorem depth_subject (subject : QualifiedEntityRef) : subject.toValue.depth ≤ 2 := by
  refine depth_object_ofList_le fun e he => ?_
  simp only [List.mem_cons, List.not_mem_nil, or_false] at he
  obtain rfl | rfl | rfl := he
  · exact depth_storeId _ 0
  · exact Nat.zero_le 1
  · exact Nat.zero_le 1

theorem depth_vectorEntry (entry : RevisionVectorEntry) : entry.toValue.depth ≤ 2 := by
  refine depth_struct_le fun v hv => ?_
  simp only [List.mem_cons, List.not_mem_nil, or_false] at hv
  obtain rfl | rfl := hv
  · exact depth_revision _ 0
  · exact depth_storeId _ 0

theorem depth_rawRevisionVector (raw : RawRevisionVector) : raw.toValue.depth ≤ 4 := by
  refine depth_struct_le fun v hv => ?_
  simp only [List.mem_cons, List.not_mem_nil, or_false] at hv
  obtain rfl | rfl := hv
  · refine depth_array_le.mpr fun w hw => ?_
    obtain ⟨entry, -, rfl⟩ := List.mem_map.mp hw
    exact depth_vectorEntry entry
  · exact Nat.zero_le 3

end Plain

section RoundTrip

theorem requireSize_eq_ok {bytes : Bytes} {u : Unit} :
    requireSize bytes = .ok u ↔ bytes.length ≤ MAX_PROJECTION_BYTES := by
  unfold requireSize
  rw [guard_eq_ok, not_lt]
  exact and_iff_left rfl

theorem encodeRaw_eq_ok {value : Json} {bytes : Bytes} :
    encodeRaw value = .ok bytes ↔ encodePretty value = .ok bytes ∧ bytes.length ≤ MAX_PROJECTION_BYTES := by
  simp only [encodeRaw, except_bind_eq_ok, mapError_eq_ok, requireSize_eq_ok, pure_eq_ok]
  constructor
  · rintro ⟨_, hencode, -, hlength, rfl⟩
    exact ⟨hencode, hlength⟩
  · rintro ⟨hencode, hlength⟩
    exact ⟨bytes, hencode, (), hlength, rfl⟩

theorem RevisionVector.new_entries (vector : RevisionVector) : RevisionVector.new vector.entries = .ok vector := by
  unfold RevisionVector.new
  split
  · rename_i h
    rw [vector.valid] at h
    cases h
  · rfl

theorem length_entries_le (vector : RevisionVector) : vector.entries.length ≤ MAX_VECTOR_STORES := by
  have h := vector.valid
  unfold validateRevisionEntries at h
  rw [guard_bind_eq_ok] at h
  exact not_lt.mp h.1

/-- The document of a vector. -/
def RevisionVector.raw (vector : RevisionVector) : RawRevisionVector := ⟨vector.entries, REVISION_VECTOR_SCHEMA_V1⟩

theorem encodeRevisionVector_eq_ok {vector : RevisionVector} {bytes : Bytes} :
    encodeRevisionVector vector = .ok bytes ↔
      encodePretty vector.raw.toValue = .ok bytes ∧ bytes.length ≤ MAX_PROJECTION_BYTES := by
  unfold encodeRevisionVector
  rw [vector.valid, ok_bind, encodeRaw_eq_ok]
  rfl

theorem decodeRevisionVector_encode {vector : RevisionVector} {bytes : Bytes}
    (h : encodeRevisionVector vector = .ok bytes) : decodeRevisionVector bytes = .ok vector := by
  obtain ⟨hpretty, hlength⟩ := encodeRevisionVector_eq_ok.mp h
  have hread := decodeStrict_encodePretty hpretty ((depth_rawRevisionVector vector.raw).trans (by decide))
  have hschema : ¬ vector.raw.schema ≠ REVISION_VECTOR_SCHEMA_V1 := not_not.mpr rfl
  have hsize : ¬ vector.raw.entries.length > MAX_VECTOR_STORES := not_lt.mpr (length_entries_le vector)
  have hnew : RevisionVector.new vector.raw.entries = .ok vector := vector.new_entries
  unfold decodeRevisionVector
  rw [requireSize_eq_ok (u := ()).mpr hlength, ok_bind, hread]
  simp only [mapError_ok, ok_bind, fromValue_rawRevisionVector]
  rw [if_neg hschema, if_neg hsize, hnew, ok_bind, h, ok_bind, if_neg (not_not.mpr rfl)]
  rfl

variable [Jiff]

theorem noFloats_rawVerifiedProof (raw : RawVerifiedProof) : raw.toValue.noFloats = true := by
  refine noFloats_struct fun v hv => ?_
  simp only [RawVerifiedProof.values, List.mem_cons, List.not_mem_nil, or_false] at hv
  obtain rfl | rfl | rfl | rfl | rfl | rfl | rfl := hv
  any_goals rfl
  · exact noFloats_revision _
  · exact noFloats_subject _

theorem depth_rawVerifiedProof (raw : RawVerifiedProof) : raw.toValue.depth ≤ 3 := by
  refine depth_struct_le fun v hv => ?_
  simp only [RawVerifiedProof.values, List.mem_cons, List.not_mem_nil, or_false] at hv
  obtain rfl | rfl | rfl | rfl | rfl | rfl | rfl := hv
  any_goals exact Nat.zero_le 2
  · exact depth_revision _ 1
  · exact depth_subject _

theorem fromValue_rawVerifiedProof (raw : RawVerifiedProof) : fromValue raw.toValue = some raw := by
  have hslots : structFields RawVerifiedProof.fields raw.toValue = some (raw.values.map some) :=
    structFields_zip (by decide) rfl
  refine Option.bind_eq_some_iff.mpr ⟨_, hslots, ?_⟩
  refine Option.bind_eq_some_iff.mpr ⟨_, writtenAs_trust.read _, ?_⟩
  refine Option.bind_eq_some_iff.mpr ⟨_, toOption_fromStr_eq_some.mpr rfl, ?_⟩
  refine Option.bind_eq_some_iff.mpr ⟨_, fromValue_proofId _, ?_⟩
  refine Option.bind_eq_some_iff.mpr ⟨_, writtenAs_uuidId.read _, ?_⟩
  refine Option.bind_eq_some_iff.mpr ⟨_, fromValue_string _, ?_⟩
  refine Option.bind_eq_some_iff.mpr ⟨_, fromValue_revision _, ?_⟩
  exact Option.bind_eq_some_iff.mpr ⟨_, fromValue_subject _, rfl⟩

variable [Blake3] {proof : VerifiedProof}

theorem encodeVerifiedProof_eq_ok {bytes : Bytes} :
    encodeVerifiedProof proof = .ok bytes ↔ proof.proofId = proof.recomputedProofId ∧
      encodePretty (RawVerifiedProof.ofProof proof).toValue = .ok bytes ∧ bytes.length ≤ MAX_PROJECTION_BYTES := by
  unfold encodeVerifiedProof
  rw [guard_bind_eq_ok, not_not, encodeRaw_eq_ok]

theorem RawVerifiedProof.toProof_ofProof (h : proof.proofId = proof.recomputedProofId) :
    (RawVerifiedProof.ofProof proof).toProof = .ok proof := by
  have hschema : ¬ (ofProof proof).schema ≠ VERIFIED_PROOF_SCHEMA_V1 := not_not.mpr rfl
  unfold toProof
  dsimp only
  rw [if_neg hschema]
  exact if_neg (not_not.mpr h)

theorem decodeVerifiedProof_encode {bytes : Bytes} (h : encodeVerifiedProof proof = .ok bytes) :
    decodeVerifiedProof bytes = .ok proof := by
  obtain ⟨hid, hpretty, hlength⟩ := encodeVerifiedProof_eq_ok.mp h
  have hread := decodeStrict_encodePretty hpretty ((depth_rawVerifiedProof _).trans (by decide))
  unfold decodeVerifiedProof
  rw [requireSize_eq_ok (u := ()).mpr hlength, ok_bind, hread]
  simp only [mapError_ok, ok_bind, fromValue_rawVerifiedProof]
  rw [RawVerifiedProof.toProof_ofProof hid, ok_bind, h, ok_bind, if_neg (not_not.mpr rfl)]
  rfl

end RoundTrip

end Wayjournal
