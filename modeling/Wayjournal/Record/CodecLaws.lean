import Wayjournal.Json.RoundTrip
import Wayjournal.Record.Codec

namespace Wayjournal

open Collections

theorem takeField_ok {object : BTreeMap String Json} {field : String} {value : Json}
    (h : object.get? field = some value) :
    takeField object field = .ok (value, object.erase field) := by
  simp [takeField, h]

theorem takeField_eq_ok {object object' : BTreeMap String Json} {field : String} {value : Json}
    (h : takeField object field = .ok (value, object')) :
    object.get? field = some value ∧ object' = object.erase field := by
  simp only [takeField] at h
  split at h
  · cases h
  · rename_i v hv
    cases h
    exact ⟨hv, rfl⟩

theorem takeString_ok {object : BTreeMap String Json} {field s : String}
    (h : object.get? field = some (.string s)) :
    takeString object field = .ok (s, object.erase field) := by
  simp only [takeString, takeField_ok h]
  rfl

theorem parseField_ok {α : Type} [FromStr α] {object : BTreeMap String Json} {field : String} {x : α}
    (h : object.get? field = some (.string (FromStr.toText x))) :
    parseField α object field = .ok (x, object.erase field) := by
  simp only [parseField, takeString_ok h]
  change (do
    let y ← (FromStr.fromStr (FromStr.toText x) : Except IdentifierError α).mapError _
    return (y, object.erase field)) = _
  rw [FromStr.fromStr_toText]
  rfl

theorem mapM_ok {α β ε : Type} {f : α → Except ε β} {l : List α} {g : α → β}
    (h : ∀ a ∈ l, f a = .ok (g a)) : l.mapM f = .ok (l.map g) := by
  induction l with
  | nil => rfl
  | cons a t ih =>
    rw [List.mapM_cons, h a List.mem_cons_self, ih (fun b hb => h b (List.mem_cons_of_mem _ hb))]
    rfl

theorem takeStringArray_ok {object : BTreeMap String Json} {field : String} {l : List String}
    (h : object.get? field = some (.array (l.map .string))) :
    takeStringArray object field = .ok (l, object.erase field) := by
  simp only [takeStringArray, takeField_ok h, except_bind_eq_ok, Except.ok.injEq, exists_eq_left',
    Json.view_array]
  refine ⟨l, ?_, rfl⟩
  rw [List.mapM_map, mapM_ok (g := fun s => s)]
  · rw [List.map_id']
  · intro s _
    rfl

theorem parents_ok (parents : List RecordId) :
    (parents.map UuidId.display).mapM (fun s =>
      (FromStr.fromStr s : Except IdentifierError RecordId).mapError
        (fun e => RecordCodecError.invalidField "parents" e.message)) = .ok parents := by
  rw [List.mapM_map, mapM_ok (g := fun p => p)]
  · rw [List.map_id']
  · intro p _
    change (FromStr.fromStr (FromStr.toText p) : Except IdentifierError RecordId).mapError _ = _
    rw [FromStr.fromStr_toText]
    rfl

theorem takeField_sub {object object' : BTreeMap String Json} {field : String} {value : Json}
    (h : takeField object field = .ok (value, object')) :
    ∀ k v, object'.get? k = some v → object.get? k = some v := by
  obtain ⟨-, rfl⟩ := takeField_eq_ok h
  intro k v hv
  rw [BTreeMap.get?_erase] at hv
  split at hv
  · cases hv
  · exact hv

theorem takeString_sub {object object' : BTreeMap String Json} {field s : String}
    (h : takeString object field = .ok (s, object')) :
    ∀ k v, object'.get? k = some v → object.get? k = some v := by
  simp only [takeString, except_bind_eq_ok, Prod.exists] at h
  obtain ⟨value, rest, htake, h⟩ := h
  split at h
  · cases h
    exact takeField_sub htake
  · cases h

theorem parseField_sub {α : Type} [FromStr α] {object object' : BTreeMap String Json}
    {field : String} {x : α} (h : parseField α object field = .ok (x, object')) :
    ∀ k v, object'.get? k = some v → object.get? k = some v := by
  simp only [parseField, except_bind_eq_ok, Prod.exists] at h
  obtain ⟨s, rest, htake, y, -, h⟩ := h
  cases h
  exact takeString_sub htake

theorem takeStringArray_sub {object object' : BTreeMap String Json} {field : String}
    {l : List String} (h : takeStringArray object field = .ok (l, object')) :
    ∀ k v, object'.get? k = some v → object.get? k = some v := by
  simp only [takeStringArray, except_bind_eq_ok, Prod.exists] at h
  obtain ⟨value, rest, htake, h⟩ := h
  split at h
  · simp only [except_bind_eq_ok] at h
    obtain ⟨strings, -, h⟩ := h
    cases h
    exact takeField_sub htake
  · cases h

theorem encodePretty_eq_ok {value : Json} {bytes : Bytes} :
    encodePretty value = .ok bytes ↔
      value.noFloats = true ∧ bytes = Json.print 0 value.raw ++ [0x0a] := by
  unfold encodePretty
  split
  · rename_i h
    simp [h, eq_comm]
  · rename_i h
    simp [h]

theorem decodeStrict_eq_ok {bytes : Bytes} {value : Json} :
    decodeStrict bytes = .ok value ↔ Json.parse bytes = .ok value.raw := by
  unfold decodeStrict
  split
  · rename_i e h
    simp [h]
  · rename_i raw h
    constructor
    · intro hvalue
      cases hvalue
      exact h
    · intro hparse
      rw [Except.ok.injEq]
      exact Json.raw_injective (Except.ok.inj (h.symm.trans hparse))

theorem decodeStrict_encodePretty {value : Json} {bytes : Bytes}
    (h : encodePretty value = .ok bytes) (hd : value.depth ≤ Json.MAX_NESTING) :
    decodeStrict bytes = .ok value := by
  obtain ⟨hfloats, rfl⟩ := encodePretty_eq_ok.mp h
  exact decodeStrict_eq_ok.mpr (Json.parse_print hd hfloats value.sorted)

/-- What is left of a text that was cut off is not canonical. -/
theorem encodePretty_ne_of_prefix {value other : Json} {bytes cut : Bytes} (h : encodePretty value = .ok bytes)
    (hd : value.depth ≤ Json.MAX_NESTING) (hcut : cut <+: bytes) (hne : cut ≠ bytes)
    (hother : decodeStrict cut = .ok other) : encodePretty other ≠ .ok cut := by
  intro hcanonical
  obtain ⟨hfloats, rfl⟩ := encodePretty_eq_ok.mp h
  obtain ⟨hfloats', rfl⟩ := encodePretty_eq_ok.mp hcanonical
  obtain ⟨rest, hrest⟩ := hcut
  have hother := (Json.parse_sound (decodeStrict_eq_ok.mp hother)).1
  rw [List.append_assoc, List.singleton_append] at hrest
  have hnil := Json.print_prefix_free hd hfloats value.sorted hother hfloats' other.sorted hrest.symm
  rw [hnil] at hrest
  exact hne hrest

section

variable [Jiff]

theorem nodup_envelopeMembers (record : Record) :
    ((envelopeMembers record).map Prod.fst).Nodup := by
  simp only [envelopeMembers, List.map_cons, List.map_nil]
  decide

theorem get?_envelope {record : Record} {field : String} {value : Json} :
    (BTreeMap.ofList (envelopeMembers record)).get? field = some value ↔
      (field, value) ∈ envelopeMembers record :=
  BTreeMap.get?_ofList (nodup_envelopeMembers record)

/-- An object with the members of the envelope reads back as the record. -/
theorem recordFromObject_ok {object : BTreeMap String Json} {record : Record}
    (h : ∀ e ∈ envelopeMembers record, e.1 ≠ "schema" → object.get? e.1 = some e.2) :
    recordFromObject object = .ok record := by
  simp only [envelopeMembers, List.forall_mem_cons] at h
  obtain ⟨hactor, hbatch, hdomain, hentity, hkind, hoccurred, hparents, hpayload, hrecord, hschema,
    hrecorded, -⟩ := h
  simp only [recordFromObject, except_bind_eq_ok, Prod.exists]
  refine ⟨_, _, parseField_ok (hschema (by decide)), _, _, parseField_ok (x := record.domain) ?_,
    _, _, parseField_ok (x := record.kind) ?_, _, _, parseField_ok (x := record.recordId) ?_,
    _, _, parseField_ok (x := record.entityId) ?_, _, _, parseField_ok (x := record.batchId) ?_,
    _, _, parseField_ok (x := record.actor) ?_, _, _, parseField_ok (x := record.occurredAt) ?_,
    _, _, parseField_ok (x := record.recordedAt) ?_,
    _, _, takeStringArray_ok (l := record.parents.map UuidId.display) ?_, _, parents_ok _,
    _, _, takeField_ok ?_, rfl⟩
  all_goals simp only [BTreeMap.get?_erase]
  · exact hdomain (by decide)
  · exact hkind (by decide)
  · exact hrecord (by decide)
  · exact hentity (by decide)
  · exact hbatch (by decide)
  · exact hactor (by decide)
  · exact hoccurred (by decide)
  · exact hrecorded (by decide)
  · simpa [List.map_map, Function.comp_def] using hparents (by decide)
  · exact hpayload (by decide)

theorem map_fst_envelopeMembers (record : Record) :
    (envelopeMembers record).map Prod.fst = ENVELOPE_FIELDS ++ ["schema"] := rfl

theorem keys_envelope {record : Record} {field : String}
    (h : field ∈ (BTreeMap.ofList (envelopeMembers record)).keys) :
    field ∈ ENVELOPE_FIELDS ∨ field = "schema" := by
  obtain ⟨value, hvalue⟩ := BTreeMap.mem_keys_iff.mp h
  have hmem := List.mem_map_of_mem (f := Prod.fst) (get?_envelope.mp hvalue)
  rw [map_fst_envelopeMembers] at hmem
  simpa only [List.mem_append, List.mem_singleton] using hmem

theorem entries_envelope (record : Record) :
    (BTreeMap.ofList (envelopeMembers record)).entries = envelopeMembers record := by
  apply BTreeMap.entries_ofList_of_sorted
  rw [map_fst_envelopeMembers]
  decide

theorem recordFromValue_envelope (record : Record) :
    recordFromValue (envelope record) = .ok record := by
  have hschema : (BTreeMap.ofList (envelopeMembers record)).get? "schema" =
      some (.string RECORD_SCHEMA_V1) := get?_envelope.mpr (by simp [envelopeMembers])
  have hunknown : ((BTreeMap.ofList (envelopeMembers record)).erase "schema").keys.find?
      (fun f => !ENVELOPE_FIELDS.contains f && f ≠ "schema") = none := by
    rw [List.find?_eq_none]
    intro field hfield
    obtain h | h := keys_envelope (BTreeMap.mem_keys_erase.mp hfield).1
    · simp [h]
    · simp [h]
  have hrecord : recordFromObject ((BTreeMap.ofList (envelopeMembers record)).erase "schema") =
      .ok record := by
    apply recordFromObject_ok
    intro e he hne
    rw [BTreeMap.get?_erase, if_neg hne]
    exact get?_envelope.mpr he
  simp only [recordFromValue, envelope, Json.view_object, takeString_ok hschema]
  simp only [bind, Except.bind, hunknown, ne_eq, not_true_eq_false, if_false]
  exact hrecord

theorem forall_envelope {P : Json → Prop} (hstring : ∀ s, P (.string s)) (record : Record)
    (hparents : P (.array (record.parents.map (fun p => .string p.display)))) :
    (∀ e ∈ (BTreeMap.ofList (envelopeMembers record)).entries, P e.2) ↔ P record.payload := by
  constructor
  · intro h
    exact h ("payload", record.payload) (BTreeMap.mem_entries_iff.mpr
      (get?_envelope.mpr (by simp [envelopeMembers])))
  · rintro h ⟨field, value⟩ he
    have hmem := get?_envelope.mp (BTreeMap.mem_entries_iff.mp he)
    simp only [envelopeMembers, List.mem_cons, List.not_mem_nil, or_false, Prod.mk.injEq] at hmem
    obtain ⟨-, rfl⟩ | ⟨-, rfl⟩ | ⟨-, rfl⟩ | ⟨-, rfl⟩ | ⟨-, rfl⟩ | ⟨-, rfl⟩ | ⟨-, rfl⟩ | ⟨-, rfl⟩ |
      ⟨-, rfl⟩ | ⟨-, rfl⟩ | ⟨-, rfl⟩ | ⟨-, rfl⟩ := hmem
    all_goals first | exact hstring _ | exact hparents | exact h

theorem noFloats_envelope (record : Record) :
    (envelope record).noFloats = record.payload.noFloats := by
  rw [Bool.eq_iff_iff, ← forall_envelope (P := fun v => v.noFloats = true) (fun _ => rfl) record]
  · exact Json.noFloats_object
  · rw [Json.noFloats_array, List.forall_mem_map]
    exact fun _ _ => rfl

theorem depth_envelope_le (record : Record) {n : Nat} :
    (envelope record).depth ≤ n + 2 ↔ record.payload.depth ≤ n + 1 := by
  rw [← forall_envelope (P := fun v => v.depth ≤ n + 1) (fun _ => Nat.zero_le _) record]
  · exact Json.depth_object_le
  · rw [Json.depth_array_le, List.forall_mem_map]
    exact fun _ _ => Nat.zero_le _

theorem recordFromObject_payload {object : BTreeMap String Json} {record : Record}
    (h : recordFromObject object = .ok record) :
    object.get? "payload" = some record.payload := by
  simp only [recordFromObject, except_bind_eq_ok, Prod.exists] at h
  obtain ⟨_, _, h1, _, _, h2, _, _, h3, _, _, h4, _, _, h5, _, _, h6, _, _, h7, _, _, h8, _, _, h9,
    _, _, h10, _, -, payload, _, h11, h⟩ := h
  cases h
  apply parseField_sub h1
  apply parseField_sub h2
  apply parseField_sub h3
  apply parseField_sub h4
  apply parseField_sub h5
  apply parseField_sub h6
  apply parseField_sub h7
  apply parseField_sub h8
  apply parseField_sub h9
  apply takeStringArray_sub h10
  exact (takeField_eq_ok h11).1

theorem recordFromValue_payload {value : Json} {record : Record}
    (h : recordFromValue value = .ok record) :
    ∃ members : BTreeMap String Json, value = .object members ∧
      members.get? "payload" = some record.payload := by
  simp only [recordFromValue] at h
  split at h
  · rename_i object hview
    refine ⟨object, ?_, ?_⟩
    · rw [← Json.ofView_view value, hview]
      rfl
    · simp only [except_bind_eq_ok, Prod.exists] at h
      obtain ⟨schema, rest, htake, h⟩ := h
      apply takeString_sub htake
      split at h
      · cases h
      · split at h
        · cases h
        · exact recordFromObject_payload h
  · cases h

theorem depth_payload_le {value : Json} {record : Record} {n : Nat}
    (h : recordFromValue value = .ok record) (hn : value.depth ≤ n + 1) :
    record.payload.depth ≤ n := by
  obtain ⟨members, rfl, hget⟩ := recordFromValue_payload h
  exact Json.depth_object_le.mp hn _ (BTreeMap.mem_entries_iff.mpr hget)

theorem encodeRecord_eq_ok {record : Record} {registry : DomainRegistry} {bytes : Bytes} :
    encodeRecord record registry = .ok bytes ↔
      validateRecord record registry = .ok () ∧ encodePretty (envelope record) = .ok bytes ∧
        bytes.length ≤ MAX_RECORD_BYTES := by
  simp only [encodeRecord, except_bind_eq_ok, mapError_eq_ok]
  constructor
  · rintro ⟨⟨⟩, hvalid, encoded, hencode, h⟩
    split at h
    · cases h
    · cases h
      exact ⟨hvalid, hencode, by omega⟩
  · rintro ⟨hvalid, hencode, hlen⟩
    refine ⟨(), hvalid, bytes, hencode, ?_⟩
    rw [if_neg (by omega)]
    rfl

theorem decodeRecord_eq_ok {bytes : Bytes} {registry : DomainRegistry} {record : Record} :
    decodeRecord bytes registry = .ok record ↔
      ∃ value, decodeStrict bytes = .ok value ∧ recordFromValue value = .ok record ∧
        encodeRecord record registry = .ok bytes := by
  constructor
  · intro h
    simp only [decodeRecord] at h
    split at h
    · cases h
    · simp only [except_bind_eq_ok, mapError_eq_ok] at h
      obtain ⟨value, hvalue, read, hread, ⟨⟩, -, encoded, hencode, h⟩ := h
      by_cases heq : encoded = bytes
      · rw [if_neg (not_ne_iff.mpr heq)] at h
        cases h
        exact ⟨value, hvalue, hread, heq ▸ hencode⟩
      · rw [if_pos heq] at h
        cases h
  · rintro ⟨value, hvalue, hread, hencode⟩
    obtain ⟨hvalid, -, hlen⟩ := encodeRecord_eq_ok.mp hencode
    simp only [decodeRecord, if_neg (show ¬ bytes.length > MAX_RECORD_BYTES by omega),
      except_bind_eq_ok, mapError_eq_ok]
    refine ⟨value, hvalue, record, hread, (), hvalid, bytes, hencode, ?_⟩
    rw [if_neg (not_ne_iff.mpr rfl)]
    rfl

/-- What the encoder wrote can be read back exactly when the payload leaves a
level of nesting to the envelope. -/
theorem decode_encode_iff {record : Record} {registry : DomainRegistry} {bytes : Bytes}
    (h : encodeRecord record registry = .ok bytes) :
    decodeRecord bytes registry = .ok record ↔ record.payload.depth < Json.MAX_NESTING := by
  rw [decodeRecord_eq_ok]
  constructor
  · rintro ⟨value, hvalue, hread, -⟩
    have hdepth : value.depth ≤ Json.MAX_NESTING :=
      (Json.parse_sound (decodeStrict_eq_ok.mp hvalue)).1
    exact Nat.lt_succ_of_le (depth_payload_le (n := 126) hread hdepth)
  · intro hdepth
    have hencode := (encodeRecord_eq_ok.mp h).2.1
    refine ⟨envelope record, decodeStrict_encodePretty hencode ?_, recordFromValue_envelope record, h⟩
    exact (depth_envelope_le record (n := 125)).mpr (Nat.le_of_lt_succ hdepth)

theorem encode_decode {bytes : Bytes} {registry : DomainRegistry} {record : Record}
    (h : decodeRecord bytes registry = .ok record) :
    encodeRecord record registry = .ok bytes := by
  obtain ⟨value, -, -, hencode⟩ := decodeRecord_eq_ok.mp h
  exact hencode

end

end Wayjournal
