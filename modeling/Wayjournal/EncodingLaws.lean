import Wayjournal.CapabilityLaws
import Wayjournal.Collections.Separated
import Wayjournal.OfferCodec
import Wayjournal.ProofCache.EntryLaws
import Wayjournal.ProofVector

namespace Wayjournal

open Collections Json Serde Text

/-- Every valid value has an encoding that is read back as it, and whatever is read has no other encoding. -/
structure OneEncoding {α ε : Type} (Valid : α → Prop) (encode : α → Except ε Bytes) (decode : Bytes → Except ε α) : Prop where
  encodes : ∀ a, Valid a → ∃ bytes, encode a = .ok bytes ∧ decode bytes = .ok a
  canonical : ∀ bytes a, decode bytes = .ok a → encode a = .ok bytes

theorem length_print_array_map_le {α : Type} {value : α → Json} {l : List α} {indent n : Nat}
    (h : ∀ a ∈ l, (print (indent + 1) (value a).raw).length ≤ n) :
    (print indent (Json.array (l.map value)).raw).length ≤ 2 * indent + 3 + l.length * (n + (2 * indent + 4)) := by
  have hraw : (Json.array (l.map value)).raw = .array (l.map fun a => (value a).raw) := by
    simp only [Json.array, List.map_map]
    rfl
  have hitem : ∀ m ∈ l.map ((fun v => (print (indent + 1) v).length + (2 * indent + 4)) ∘ fun a => (value a).raw),
      m ≤ n + (2 * indent + 4) := by
    intro m hm
    obtain ⟨a, ha, rfl⟩ := List.mem_map.mp hm
    exact Nat.add_le_add_right (h a ha) _
  have hsum := List.sum_le_card_nsmul _ _ hitem
  have harray := length_print_array_le indent (l.map fun a => (value a).raw)
  rw [List.map_map] at harray
  rw [List.length_map] at hsum
  rw [hraw]
  exact harray.trans (Nat.add_le_add_left hsum _)

section RevisionVectors

theorem length_printString_algorithm_le (a : RevisionAlgorithm) : (printString a.asStr).length ≤ 35 := by
  revert a
  rintro (_ | _) <;> decide

theorem revisionVector_encodes (vector : RevisionVector) :
    ∃ bytes, encodeRevisionVector vector = .ok bytes ∧ decodeRevisionVector bytes = .ok vector := by
  have hencode : ∃ bytes, encodeRevisionVector vector = .ok bytes := by
    by_cases h : vector.entries = []
    · refine ⟨_, encodeRevisionVector_eq_ok.mpr ⟨encodePretty_eq_ok.mpr ⟨noFloats_rawRevisionVector _, rfl⟩, ?_⟩⟩
      rw [RevisionVector.raw, h]
      decide +kernel
    · exact encodeRevisionVector_ok h
  obtain ⟨bytes, hbytes⟩ := hencode
  exact ⟨bytes, hbytes, decodeRevisionVector_encode hbytes⟩

theorem encodeRevisionVector_of_decode {bytes : Bytes} {vector : RevisionVector} (h : decodeRevisionVector bytes = .ok vector) :
    encodeRevisionVector vector = .ok bytes := by
  unfold decodeRevisionVector at h
  obtain ⟨-, -, h⟩ := except_bind_eq_ok.mp h
  obtain ⟨value, -, h⟩ := except_bind_eq_ok.mp h
  split at h
  · obtain ⟨-, h⟩ := guard_bind_eq_ok.mp h
    obtain ⟨-, h⟩ := guard_bind_eq_ok.mp h
    obtain ⟨vector', -, h⟩ := except_bind_eq_ok.mp h
    obtain ⟨bytes', hbytes', h⟩ := except_bind_eq_ok.mp h
    obtain ⟨heq, h⟩ := guard_bind_eq_ok.mp h
    cases h
    rw [hbytes', not_not.mp heq]
  · cases h

end RevisionVectors

section Proofs

theorem length_printString_domain_le (domain : DomainId) : (printString domain.asStr).length ≤ 258 := by
  have hprint := length_printString_nameChars (isNameChar_token domain).1
  have hlength : domain.asStr.toList.length ≤ 128 := by
    have hvalid := domain.valid
    simp only [TokenKind.check, validNamespacedToken, Bool.and_eq_true, decide_eq_true_eq] at hvalid
    exact (length_le_byteLen _).trans hvalid.1.1
  omega

variable [Jiff]

theorem noFloats_rawProofVector (raw : RawProofVector) : raw.toValue.noFloats = true := by
  refine noFloats_struct fun v hv => ?_
  simp only [List.mem_cons, List.not_mem_nil, or_false] at hv
  obtain rfl | rfl := hv
  · refine noFloats_array.mpr fun w hw => ?_
    obtain ⟨proof, -, rfl⟩ := List.mem_map.mp hw
    exact noFloats_rawVerifiedProof proof
  · rfl

theorem depth_rawProofVector (raw : RawProofVector) : raw.toValue.depth ≤ 5 := by
  refine depth_struct_le fun v hv => ?_
  simp only [List.mem_cons, List.not_mem_nil, or_false] at hv
  obtain rfl | rfl := hv
  · refine depth_array_le.mpr fun w hw => ?_
    obtain ⟨proof, -, rfl⟩ := List.mem_map.mp hw
    exact depth_rawVerifiedProof proof
  · exact Nat.zero_le 4

theorem fromValue_rawProofVector (raw : RawProofVector) : fromValue raw.toValue = some raw := by
  have hslots : structFields RawProofVector.fields raw.toValue =
      some [some (.array (raw.proofs.map RawVerifiedProof.toValue)), some (.string raw.schema)] :=
    structFields_zip (by decide) rfl
  refine Option.bind_eq_some_iff.mpr ⟨_, hslots, ?_⟩
  refine Option.bind_eq_some_iff.mpr ⟨_, fromValue_array fromValue_rawVerifiedProof _, ?_⟩
  exact Option.bind_eq_some_iff.mpr ⟨_, fromValue_string _, rfl⟩

variable (hjiff : ∀ timestamp : Jiff.Timestamp, (Jiff.toText timestamp).toList.length ≤ 33)

include hjiff in
theorem textLength_le (proof : VerifiedProof) : proof.textLength ≤ 1087 := by
  have htimestamp := length_printString_le_chars proof.observedAt.display
  have hchars : proof.observedAt.display.toList.length ≤ 33 := hjiff proof.observedAt.value
  have halgorithm := length_printString_algorithm_le proof.sourceRevision.algorithm
  have hdomain := length_printString_domain_le proof.subject.domain
  rw [VerifiedProof.textLength]
  omega

variable [Blake3]

include hjiff in
theorem verifiedProof_encodes {proof : VerifiedProof} (hid : proof.proofId = proof.recomputedProofId) :
    ∃ bytes, encodeVerifiedProof proof = .ok bytes ∧ decodeVerifiedProof bytes = .ok proof := by
  have htext := textLength_le hjiff proof
  have hencode := encodeVerifiedProof_ok hid (by rw [MAX_PROJECTION_BYTES]; omega)
  exact ⟨_, hencode, decodeVerifiedProof_encode hencode⟩

theorem encodeVerifiedProof_of_decode {bytes : Bytes} {proof : VerifiedProof} (h : decodeVerifiedProof bytes = .ok proof) :
    encodeVerifiedProof proof = .ok bytes := by
  unfold decodeVerifiedProof at h
  obtain ⟨-, -, h⟩ := except_bind_eq_ok.mp h
  obtain ⟨value, -, h⟩ := except_bind_eq_ok.mp h
  split at h
  · obtain ⟨proof', -, h⟩ := except_bind_eq_ok.mp h
    obtain ⟨bytes', hbytes', h⟩ := except_bind_eq_ok.mp h
    obtain ⟨heq, h⟩ := guard_bind_eq_ok.mp h
    cases h
    rw [hbytes', not_not.mp heq]
  · cases h

/-- The document of a vector. -/
def ProofVector.raw (vector : ProofVector) : RawProofVector :=
  ⟨vector.proofs.map RawVerifiedProof.ofProof, PROOF_VECTOR_SCHEMA_V1⟩

theorem ProofVector.new_proofs (vector : ProofVector) : ProofVector.new vector.proofs = .ok vector := by
  unfold ProofVector.new
  split
  · rename_i h
    rw [vector.valid] at h
    cases h
  · rfl

theorem ProofVector.of_valid (vector : ProofVector) :
    vector.proofs.length ≤ MAX_PROOFS ∧ ∀ proof ∈ vector.proofs, proof.proofId = proof.recomputedProofId := by
  have h := vector.valid
  unfold validateProofs at h
  obtain ⟨hlength, h⟩ := guard_bind_eq_ok.mp h
  obtain ⟨-, h⟩ := guard_bind_eq_ok.mp h
  obtain ⟨hids, -⟩ := guard_eq_ok.mp h
  refine ⟨not_lt.mp hlength, fun proof hproof => ?_⟩
  by_contra hne
  exact hids (List.any_eq_true.mpr ⟨proof, hproof, decide_eq_true hne⟩)

theorem ProofVector.mapM_toProof (vector : ProofVector) : vector.raw.proofs.mapM RawVerifiedProof.toProof = .ok vector.proofs := by
  rw [ProofVector.raw, mapM_eq_ok, List.forall₂_map_left_iff, List.forall₂_same]
  exact fun proof hproof => RawVerifiedProof.toProof_ofProof (vector.of_valid.2 proof hproof)

include hjiff in
theorem length_print_rawProofVector_le (vector : ProofVector) : (print 0 vector.raw.toValue.raw).length + 1 ≤ MAX_PROJECTION_BYTES := by
  have hproofs : (print 1 (Json.array (vector.proofs.map fun proof => (RawVerifiedProof.ofProof proof).toValue)).raw).length ≤ _ :=
    length_print_array_map_le fun proof _ => (length_print_proof 2 proof).le.trans
      (Nat.add_le_add_left (textLength_le hjiff proof) _)
  have hcount := vector.of_valid.1
  have k₁ : (printString "proofs").length = 8 := by decide
  have k₂ : (printString "schema").length = 8 := by decide
  have k₃ : (printString PROOF_VECTOR_SCHEMA_V1).length = 28 := by decide
  have hobject : (print 0 vector.raw.toValue.raw).length = _ := length_print_ofList
    (l := [("proofs", .array (vector.raw.proofs.map RawVerifiedProof.toValue)), ("schema", .string PROOF_VECTOR_SCHEMA_V1)])
    (by simp) (List.cons_ne_nil _ _)
  rw [hobject]
  simp only [List.map_cons, List.map_nil, List.sum_cons, List.sum_nil, k₁, k₂, Json.string, print, k₃, ProofVector.raw,
    List.map_map, Function.comp_def, Nat.zero_add]
  rw [MAX_PROOFS] at hcount
  rw [MAX_PROJECTION_BYTES]
  omega

theorem encodeProofVector_eq_ok {vector : ProofVector} {bytes : Bytes} :
    encodeProofVector vector = .ok bytes ↔
      encodePretty vector.raw.toValue = .ok bytes ∧ bytes.length ≤ MAX_PROJECTION_BYTES := by
  unfold encodeProofVector
  rw [vector.valid, ok_bind, encodeRaw_eq_ok]
  rfl

include hjiff in
theorem proofVector_encodes (vector : ProofVector) :
    ∃ bytes, encodeProofVector vector = .ok bytes ∧ decodeProofVector bytes = .ok vector := by
  have hpretty : encodePretty vector.raw.toValue = .ok (print 0 vector.raw.toValue.raw ++ [0x0a]) :=
    encodePretty_eq_ok.mpr ⟨noFloats_rawProofVector _, rfl⟩
  have hlength : (print 0 vector.raw.toValue.raw ++ [0x0a]).length ≤ MAX_PROJECTION_BYTES := by
    rw [List.length_append]
    exact length_print_rawProofVector_le hjiff vector
  have hencode := encodeProofVector_eq_ok.mpr ⟨hpretty, hlength⟩
  refine ⟨_, hencode, ?_⟩
  have hread := decodeStrict_encodePretty hpretty ((depth_rawProofVector vector.raw).trans (by decide))
  have hschema : ¬ vector.raw.schema ≠ PROOF_VECTOR_SCHEMA_V1 := not_not.mpr rfl
  have hsize : ¬ vector.raw.proofs.length > MAX_PROOFS := by
    rw [ProofVector.raw, List.length_map]
    exact not_lt.mpr vector.of_valid.1
  unfold decodeProofVector
  rw [requireSize_eq_ok (u := ()).mpr hlength, ok_bind, hread]
  simp only [mapError_ok, ok_bind, fromValue_rawProofVector]
  rw [if_neg hschema, if_neg hsize, vector.mapM_toProof, ok_bind, vector.new_proofs, ok_bind, hencode, ok_bind,
    if_neg (not_not.mpr rfl)]
  rfl

theorem encodeProofVector_of_decode {bytes : Bytes} {vector : ProofVector} (h : decodeProofVector bytes = .ok vector) :
    encodeProofVector vector = .ok bytes := by
  unfold decodeProofVector at h
  obtain ⟨-, -, h⟩ := except_bind_eq_ok.mp h
  obtain ⟨value, -, h⟩ := except_bind_eq_ok.mp h
  split at h
  · obtain ⟨-, h⟩ := guard_bind_eq_ok.mp h
    obtain ⟨-, h⟩ := guard_bind_eq_ok.mp h
    obtain ⟨proofs, -, h⟩ := except_bind_eq_ok.mp h
    obtain ⟨vector', -, h⟩ := except_bind_eq_ok.mp h
    obtain ⟨bytes', hbytes', h⟩ := except_bind_eq_ok.mp h
    obtain ⟨heq, h⟩ := guard_bind_eq_ok.mp h
    cases h
    rw [hbytes', not_not.mp heq]
  · cases h

end Proofs

section Offers

theorem isUnescaped_of_toNat {c : Char} (h : 0x2d ≤ c.toNat ∧ c.toNat ≤ 0x7a ∧ c.toNat ≠ 0x5c) : isUnescaped c = true := by
  have hquote : c ≠ '"' := by
    rintro rfl
    exact absurd h.1 (by decide)
  have hbackslash : c ≠ '\\' := by
    rintro rfl
    exact absurd rfl h.2.2
  simp only [isUnescaped, Bool.and_eq_true, decide_eq_true_eq, ne_eq]
  exact ⟨⟨⟨by omega, by omega⟩, hquote⟩, hbackslash⟩

/-- The letters, digits and marks of identifiers. -/
theorem isUnescaped_of_mark {c : Char}
    (h : (isLowerLetter c || isDecimalDigit c || c = '.' || c = '_' || c = '-' || c = '/') = true) : isUnescaped c = true := by
  have hle : ∀ a b : Char, a ≤ b → a.toNat ≤ b.toNat := fun _ _ h => h
  simp only [isLowerLetter, isDecimalDigit, Bool.or_eq_true, Bool.and_eq_true, decide_eq_true_eq] at h
  obtain ((((⟨hlow, hhigh⟩ | ⟨hlow, hhigh⟩) | rfl) | rfl) | rfl) | rfl := h
  · have hlow := hle 'a' c hlow
    have hhigh := hle c 'z' hhigh
    exact isUnescaped_of_toNat ⟨by simp at hlow; omega, by simpa using hhigh, by simp at hlow; omega⟩
  · have hlow := hle '0' c hlow
    have hhigh := hle c '9' hhigh
    exact isUnescaped_of_toNat ⟨by simp at hlow; omega, by simp at hhigh; omega, by simp at hhigh; omega⟩
  all_goals decide

theorem isUnescaped_identifier {k : CapabilityKind} (id : CapabilityIdentifier k) : ∀ c ∈ id.asStr.toList, isUnescaped c = true := by
  intro c hmem
  apply isUnescaped_of_mark
  have hvalid := id.valid
  simp only [validIdentifier, Bool.and_eq_true] at hvalid
  obtain ⟨-, hvalid⟩ := hvalid
  split at hvalid
  · rename_i namespaces version hsplit
    simp only [Bool.and_eq_true, validVersion, List.all_eq_true] at hvalid
    obtain ⟨⟨⟨-, hversion⟩, hsegments⟩, -⟩ := hvalid
    have hparts : ['/'].intercalate (id.asStr.toList.splitOn '/') = id.asStr.toList := List.intercalate_splitOn '/'
    have hnamespaces : ['.'].intercalate (namespaces.splitOn '.') = namespaces := List.intercalate_splitOn '.'
    rw [← hparts, hsplit] at hmem
    obtain rfl | ⟨part, hpart, hin⟩ := mem_intercalate hmem
    · rfl
    obtain rfl | hpart := List.mem_cons.mp hpart
    · rw [← hnamespaces] at hin
      obtain rfl | ⟨segment, hsegment, hc⟩ := mem_intercalate hin
      · rfl
      have hsegment := hsegments segment hsegment
      simp only [validNamespaceSegment, Bool.and_eq_true, List.all_eq_true] at hsegment
      have hmark := hsegment.2 c hc
      simp only [Bool.or_eq_true] at hmark ⊢
      tauto
    · rw [List.mem_singleton.mp hpart] at hin
      have hmark := hversion c hin
      simp only [Bool.or_eq_true] at hmark ⊢
      tauto
  · cases hvalid

theorem length_print_identifier_le {k : CapabilityKind} (id : CapabilityIdentifier k) (indent : Nat) :
    (print indent id.toValue.raw).length ≤ 130 := by
  have hlength : id.asStr.toList.length ≤ 128 := by
    have hvalid := id.valid
    simp only [validIdentifier, Bool.and_eq_true, decide_eq_true_eq] at hvalid
    exact hvalid.1.1
  have hprint := length_printString (isUnescaped_identifier id)
  rw [CapabilityIdentifier.toValue, Json.string, print]
  omega

theorem fromValue_identifier {k : CapabilityKind} (id : CapabilityIdentifier k) : fromValue id.toValue = some id := by
  change (CapabilityIdentifier.parse k id.asStr).toOption = some id
  rw [CapabilityIdentifier.parse, dif_pos id.valid]
  rfl

theorem length_le_of_validateSet {α : Type} [LinearOrder α] {values : List α} {set : String} (h : validateSet values set = .ok ()) :
    values.length ≤ MAX_CAPABILITY_SET_ENTRIES := by
  unfold validateSet at h
  exact not_lt.mp (guard_bind_eq_ok.mp h).1

theorem length_print_set_le {k : CapabilityKind} {ids : List (CapabilityIdentifier k)} {set : String}
    (h : validateSet ids set = .ok ()) : (print 1 (Json.array (ids.map CapabilityIdentifier.toValue)).raw).length ≤ 8709 := by
  have hlength := length_le_of_validateSet h
  have hprint : (print 1 (Json.array (ids.map CapabilityIdentifier.toValue)).raw).length ≤ _ :=
    length_print_array_map_le fun id _ => length_print_identifier_le id 2
  rw [MAX_CAPABILITY_SET_ENTRIES] at hlength
  omega

/-- The document of an offer. -/
def CapabilityOffer.raw (offer : CapabilityOffer) : RawCapabilityOffer :=
  ⟨offer.toCapabilitySets, offer.logicalStoreId, CAPABILITY_OFFER_SCHEMA_V1⟩

theorem noFloats_set {k : CapabilityKind} (ids : List (CapabilityIdentifier k)) :
    (Json.array (ids.map CapabilityIdentifier.toValue)).noFloats = true := by
  refine noFloats_array.mpr fun v hv => ?_
  obtain ⟨id, -, rfl⟩ := List.mem_map.mp hv
  rfl

theorem depth_set {k : CapabilityKind} (ids : List (CapabilityIdentifier k)) :
    (Json.array (ids.map CapabilityIdentifier.toValue)).depth ≤ 1 := by
  refine depth_array_le.mpr fun v hv => ?_
  obtain ⟨id, -, rfl⟩ := List.mem_map.mp hv
  exact Nat.le_refl 0

theorem noFloats_rawCapabilityOffer (raw : RawCapabilityOffer) : raw.toValue.noFloats = true := by
  refine noFloats_struct fun v hv => ?_
  simp only [RawCapabilityOffer.values, List.mem_cons, List.not_mem_nil, or_false] at hv
  obtain rfl | rfl | rfl | rfl | rfl | rfl := hv
  · exact noFloats_storeId _
  · exact noFloats_set _
  · exact noFloats_set _
  · rfl
  · exact noFloats_set _
  · exact noFloats_set _

theorem depth_rawCapabilityOffer (raw : RawCapabilityOffer) : raw.toValue.depth ≤ 2 := by
  refine depth_struct_le fun v hv => ?_
  simp only [RawCapabilityOffer.values, List.mem_cons, List.not_mem_nil, or_false] at hv
  obtain rfl | rfl | rfl | rfl | rfl | rfl := hv
  · exact depth_storeId _ 0
  · exact depth_set _
  · exact depth_set _
  · exact Nat.zero_le 1
  · exact depth_set _
  · exact depth_set _

theorem fromValue_rawCapabilityOffer (raw : RawCapabilityOffer) : fromValue raw.toValue = some raw := by
  have hslots : structFields RawCapabilityOffer.fields raw.toValue = some (raw.values.map some) :=
    structFields_zip (by decide) rfl
  refine Option.bind_eq_some_iff.mpr ⟨_, hslots, ?_⟩
  refine Option.bind_eq_some_iff.mpr ⟨_, fromValue_storeId _, ?_⟩
  refine Option.bind_eq_some_iff.mpr ⟨_, fromValue_array fromValue_identifier _, ?_⟩
  refine Option.bind_eq_some_iff.mpr ⟨_, fromValue_array fromValue_identifier _, ?_⟩
  refine Option.bind_eq_some_iff.mpr ⟨_, fromValue_string _, ?_⟩
  refine Option.bind_eq_some_iff.mpr ⟨_, fromValue_array fromValue_identifier _, ?_⟩
  exact Option.bind_eq_some_iff.mpr ⟨_, fromValue_array fromValue_identifier _, rfl⟩

theorem length_print_rawCapabilityOffer_le (offer : CapabilityOffer) :
    (print 0 offer.raw.toValue.raw).length + 1 ≤ MAX_CAPABILITY_OFFER_BYTES := by
  have hsets := offer.validSets
  unfold validateOfferSets at hsets
  obtain ⟨⟨⟩, h₁, hsets⟩ := except_bind_eq_ok.mp hsets
  obtain ⟨⟨⟩, h₂, hsets⟩ := except_bind_eq_ok.mp hsets
  obtain ⟨⟨⟩, h₃, h₄⟩ := except_bind_eq_ok.mp hsets
  have h₁ := length_print_set_le h₁
  have h₂ := length_print_set_le h₂
  have h₃ := length_print_set_le h₃
  have h₄ := length_print_set_le h₄
  have k₁ : (printString "logical_store_id").length = 18 := by decide
  have k₂ : (printString "required_capabilities").length = 23 := by decide
  have k₃ : (printString "required_projections").length = 22 := by decide
  have k₄ : (printString "schema").length = 8 := by decide
  have k₅ : (printString "supported_capabilities").length = 24 := by decide
  have k₆ : (printString "supported_projections").length = 23 := by decide
  have k₇ : (printString CAPABILITY_OFFER_SCHEMA_V1).length = 32 := by decide
  have hobject : (print 0 offer.raw.toValue.raw).length = _ := length_print_ofList
    (l := RawCapabilityOffer.fields.zip offer.raw.values)
    (by simp [RawCapabilityOffer.fields, RawCapabilityOffer.values]) (List.cons_ne_nil _ _)
  rw [hobject]
  simp only [RawCapabilityOffer.fields, RawCapabilityOffer.values, CapabilityOffer.raw, List.zip_cons_cons, List.zip_nil_right,
    List.map_cons, List.map_nil, List.sum_cons, List.sum_nil, k₁, k₂, k₃, k₄, k₅, k₆, length_print_storeId, Json.string, print, k₇,
    Nat.zero_add]
  rw [MAX_CAPABILITY_OFFER_BYTES]
  omega

theorem CapabilityOffer.new_sets (offer : CapabilityOffer) :
    CapabilityOffer.new offer.logicalStoreId offer.toCapabilitySets = .ok offer := by
  unfold CapabilityOffer.new
  split
  · rename_i h
    rw [offer.validSets] at h
    cases h
  · rfl

theorem capabilityOffer_encodes (offer : CapabilityOffer) :
    ∃ bytes, encodeCapabilityOffer offer = .ok bytes ∧ decodeCapabilityOffer bytes = .ok offer := by
  have hpretty : encodePretty offer.raw.toValue = .ok (print 0 offer.raw.toValue.raw ++ [0x0a]) :=
    encodePretty_eq_ok.mpr ⟨noFloats_rawCapabilityOffer _, rfl⟩
  have hlength : ¬ (print 0 offer.raw.toValue.raw ++ [0x0a]).length > MAX_CAPABILITY_OFFER_BYTES := by
    rw [List.length_append]
    exact not_lt.mpr (length_print_rawCapabilityOffer_le offer)
  have hencode : encodeCapabilityOffer offer = .ok (print 0 offer.raw.toValue.raw ++ [0x0a]) := by
    unfold encodeCapabilityOffer
    rw [offer.validSets, ok_bind]
    change ((encodePretty offer.raw.toValue).mapError CapabilityOfferError.ofStrict >>= _) = _
    rw [mapError_eq_ok.mpr hpretty, ok_bind, if_neg hlength]
    rfl
  refine ⟨_, hencode, ?_⟩
  have hread := decodeStrict_encodePretty hpretty ((depth_rawCapabilityOffer offer.raw).trans (by decide))
  have hschema : ¬ offer.raw.schema ≠ CAPABILITY_OFFER_SCHEMA_V1 := not_not.mpr rfl
  have hnew : CapabilityOffer.new offer.raw.logicalStoreId offer.raw.toCapabilitySets = .ok offer := offer.new_sets
  unfold decodeCapabilityOffer
  rw [if_neg hlength, hread]
  simp only [mapError_ok, ok_bind, fromValue_rawCapabilityOffer]
  rw [if_neg hschema, hnew, ok_bind, hencode, ok_bind, if_neg (not_not.mpr rfl)]
  rfl

theorem encodeCapabilityOffer_of_decode {bytes : Bytes} {offer : CapabilityOffer} (h : decodeCapabilityOffer bytes = .ok offer) :
    encodeCapabilityOffer offer = .ok bytes := by
  unfold decodeCapabilityOffer at h
  obtain ⟨-, h⟩ := guard_bind_eq_ok.mp h
  obtain ⟨value, -, h⟩ := except_bind_eq_ok.mp h
  split at h
  · obtain ⟨-, h⟩ := guard_bind_eq_ok.mp h
    obtain ⟨offer', -, h⟩ := except_bind_eq_ok.mp h
    obtain ⟨bytes', hbytes', h⟩ := except_bind_eq_ok.mp h
    obtain ⟨heq, h⟩ := guard_bind_eq_ok.mp h
    cases h
    rw [hbytes', not_not.mp heq]
  · cases h

end Offers

/-- Projections and offers always have an encoding, and only one. Timestamps have the texts of RFC 3339 with at most nine
digits of a second. -/
theorem documents_have_one_encoding [Jiff] [Blake3]
    (hjiff : ∀ timestamp : Jiff.Timestamp, (Jiff.toText timestamp).toList.length ≤ 33) :
    OneEncoding (fun vector => ∃ entries, RevisionVector.new entries = .ok vector) encodeRevisionVector decodeRevisionVector ∧
    OneEncoding (fun proof => ∃ subject recordId revision trust observedAt,
      proof = VerifiedProof.fromCheckpoint subject recordId revision trust observedAt) encodeVerifiedProof decodeVerifiedProof ∧
    OneEncoding (fun vector => ∃ proofs, ProofVector.new proofs = .ok vector) encodeProofVector decodeProofVector ∧
    OneEncoding (fun offer => ∃ logicalStoreId sets, CapabilityOffer.new logicalStoreId sets = .ok offer) encodeCapabilityOffer
      decodeCapabilityOffer := by
  refine ⟨⟨fun vector _ => revisionVector_encodes vector, fun _ _ => encodeRevisionVector_of_decode⟩, ⟨?_,
    fun _ _ => encodeVerifiedProof_of_decode⟩, ⟨fun vector _ => proofVector_encodes hjiff vector,
    fun _ _ => encodeProofVector_of_decode⟩, fun offer _ => capabilityOffer_encodes offer,
    fun _ _ => encodeCapabilityOffer_of_decode⟩
  rintro proof ⟨subject, recordId, revision, trust, observedAt, rfl⟩
  exact verifiedProof_encodes hjiff rfl

section

attribute [local instance] Sample.jiff Sample.blake3

theorem one_proof_encodes :
    ∃ bytes, encodeVerifiedProof (.fromCheckpoint Sample.crowdSubject (Sample.recordId 1)
        (Sample.crowdRevision Sample.crowdSubject.store) ⟨Sample.digest⟩ Sample.timestamp) = .ok bytes ∧
      decodeVerifiedProof bytes = .ok (.fromCheckpoint Sample.crowdSubject (Sample.recordId 1)
        (Sample.crowdRevision Sample.crowdSubject.store) ⟨Sample.digest⟩ Sample.timestamp) :=
  (documents_have_one_encoding (by decide : ∀ _ : Unit, "2026-08-12T13:00:00Z".toList.length ≤ 33)).2.1.encodes _
    ⟨_, _, _, _, _, rfl⟩

end

end Wayjournal
