import Mathlib.Algebra.Order.BigOperators.Group.List
import Wayjournal.Batch.TextLength
import Wayjournal.Store.PathGrammar
import Wayjournal.Store.SortFilesLaws

namespace Wayjournal

open Collections Json SortFiles Text

theorem length_fields (values : List Bytes) : (fields values).length = (values.map (fun value => value.length + 2)).sum := by
  induction values with
  | nil => rfl
  | cons value values ih =>
    have hcons : fields (value :: values) = beBytes 2 value.length ++ value ++ fields values := rfl
    rw [hcons, List.length_append, List.length_append, length_beBytes, ih, List.map_cons, List.sum_cons]
    omega

theorem length_le_fields {values : List Bytes} {value : Bytes} (h : value ∈ values) : value.length ≤ (fields values).length := by
  rw [length_fields]
  exact (Nat.le_add_right _ 2).trans (List.single_le_sum (fun _ _ => Nat.zero_le _) _ (List.mem_map_of_mem h))

/-- A fact that `write_record` and the sorter take. -/
structure Writable (fact : Fact) : Prop where
  fits : Fits fact
  key : fact.1.length < 2 ^ 32
  value : fact.2.length < 2 ^ 32

theorem Writable.of_size {fact : Fact} (h : fact.size ≤ 2048) : Writable fact := by
  have hsize : fact.size = fact.1.length + fact.2.length + 8 := rfl
  exact ⟨h, by omega, by omega⟩

theorem lengths_of_size {key : Bytes} {values : List Bytes} (h : Fact.size (key, fields values) ≤ 2048) :
    ∀ value ∈ values, value.length < 65536 := by
  intro value hvalue
  have hle := length_le_fields hvalue
  have hsize : Fact.size (key, fields values) = key.length + (fields values).length + 8 := rfl
  omega

theorem length_encode_location (location : Location) : location.encode.length = 12 := by
  simp [Location.encode]

section Paths

theorem isCanonical_of_limit {pathClass : PathClass} {limit : Nat} (h : canonicalFileLimit pathClass = some limit) :
    pathClass.isCanonical = true := by
  cases pathClass <;> first | rfl | cases h

theorem length_canonicalPath_le {path : Bytes} (h : (classifyPath path).isCanonical = true) : path.length ≤ 223 :=
  (CanonicalName.canonical_bounds h).2

theorem size_entry_le {path : Bytes} (h : (classifyPath path).isCanonical = true) (location : Location) :
    Fact.size (path, location.encode) ≤ 243 := by
  have hpath := length_canonicalPath_le h
  have hlocation := length_encode_location location
  have hsize : Fact.size (path, location.encode) = path.length + location.encode.length + 8 := rfl
  omega

theorem length_memberPath_le {path : String} (h : validateJournalRecordPath path = true) : (asBytes path).length ≤ 223 := by
  obtain ⟨domain, entity, id, rfl⟩ := CanonicalName.validateJournalRecordPath_iff.mp h
  exact (CanonicalName.asBytes_path_bounds _).2

theorem memberPath_of_decodeMember {raw : RawRecordRef} {member : RecordRef} (h : decodeMember raw = .ok member) :
    validateJournalRecordPath member.path = true := by
  simp only [decodeMember, guard_bind_eq_ok, except_bind_eq_ok, pure_eq_ok] at h
  obtain ⟨recordId, -, recordSchema, -, hpath, digest, -, rfl⟩ := h
  simp only [Bool.or_eq_true, Bool.not_eq_true', not_or, Bool.not_eq_false] at hpath
  exact hpath.1.1

theorem memberPath_of_forall₂ {raw : List RawRecordRef} {members : List RecordRef}
    (h : List.Forall₂ (fun a b => decodeMember a = .ok b) raw members) :
    ∀ member ∈ members, validateJournalRecordPath member.path = true := by
  induction h with
  | nil => exact fun _ h => absurd h List.not_mem_nil
  | cons hmember _ ih => exact List.forall_mem_cons.mpr ⟨memberPath_of_decodeMember hmember, ih⟩

theorem memberPath_of_decode {bytes : Bytes} {manifest : BatchManifest} (h : decodeBatchManifest bytes = .ok manifest) :
    ∀ member ∈ manifest.members, validateJournalRecordPath member.path = true := by
  simp only [decodeBatchManifest, guard_bind_eq_ok, except_bind_eq_ok, mapError_eq_ok] at h
  obtain ⟨-, value, -, h⟩ := h
  split at h
  · split at h
    · simp only [guard_bind_eq_ok] at h
      obtain ⟨-, h⟩ := h
      split at h
      · simp only [guard_bind_eq_ok, except_bind_eq_ok, mapM_eq_ok, pure_eq_ok] at h
        obtain ⟨-, members, hmembers, -, batchId, -, actor, -, key, -, request, -, encoded, -, -, rfl⟩ := h
        exact memberPath_of_forall₂ hmembers
      · cases h
    · cases h
  · cases h

end Paths

section Manifest

variable {manifest : BatchManifest} {member : RecordRef}

/-- The fields of a claim. -/
def claimValues (manifest : BatchManifest) (member : RecordRef) : List Bytes :=
  [asBytes manifest.batchId.display, asBytes manifest.actor.asStr, asBytes manifest.requestDigest.display,
    asBytes member.recordId.display, asBytes member.recordSchema.asStr, asBytes member.contentDigest.display]

/-- The fields of a header. -/
def headerValues (manifest : BatchManifest) : List Bytes :=
  [asBytes manifest.actor.asStr, asBytes manifest.requestDigest.display, decimal manifest.members.length]

theorem size_manifestClaim_le (manifest : BatchManifest) (member : RecordRef) :
    (manifestClaim manifest member).size ≤ (asBytes member.path).length + (asBytes member.recordSchema.asStr).length + 736 := by
  have h₁ := length_asBytes_uuidId_le manifest.batchId
  have h₂ := length_asBytes_actor_le manifest.actor
  have h₃ := length_asBytes_digest_le manifest.requestDigest
  have h₄ := length_asBytes_uuidId_le member.recordId
  have h₅ := length_asBytes_digest_le member.contentDigest
  have hsize : (manifestClaim manifest member).size = (asBytes member.path).length + (fields (claimValues manifest member)).length + 8 := rfl
  rw [hsize, length_fields]
  simp only [claimValues, List.map_cons, List.map_nil, List.sum_cons, List.sum_nil]
  omega

theorem size_manifestHeader_le (manifest : BatchManifest) : (manifestHeader manifest).size ≤ 650 := by
  have h₁ := length_asBytes_uuidId_le manifest.batchId
  have h₂ := length_asBytes_actor_le manifest.actor
  have h₃ := length_asBytes_digest_le manifest.requestDigest
  have h₄ := length_decimal_le manifest.members.length
  have hsize : (manifestHeader manifest).size = (asBytes manifest.batchId.display).length + (fields (headerValues manifest)).length + 8 := rfl
  rw [hsize, length_fields]
  simp only [headerValues, List.map_cons, List.map_nil, List.sum_cons, List.sum_nil]
  omega

theorem size_idempotencyFact_le (manifest : BatchManifest) : (idempotencyFact manifest).size ≤ 593 := by
  have h₁ := length_asBytes_uuidId_le manifest.batchId
  have h₂ := length_asBytes_actor_le manifest.actor
  have h₃ := Digest.length_toBytes manifest.idempotencyKeyDigest
  have hsize : (idempotencyFact manifest).size = (asBytes manifest.actor.asStr ++ [0] ++ manifest.idempotencyKeyDigest.toBytes).length +
      (asBytes manifest.batchId.display).length + 8 := rfl
  rw [hsize, List.length_append, List.length_append, List.length_singleton]
  omega

theorem length_recordRef_ge (member : RecordRef) :
    (asBytes member.path).length + (asBytes member.recordSchema.asStr).length + 202 ≤
      (print 2 (Json.object (.ofList (recordRefMembers member))).raw).length := by
  have k₁ : (printString "content_digest").length = 16 := by decide
  have k₂ : (printString "path").length = 6 := by decide
  have k₃ : (printString "record_id").length = 11 := by decide
  have k₄ : (printString "record_schema").length = 15 := by decide
  have hpath := length_asBytes_le_printString member.path
  have hschema := length_asBytes_le_printString member.recordSchema.asStr
  rw [length_print_ofList (nodup_recordRefMembers member) (List.cons_ne_nil _ _)]
  simp only [recordRefMembers, List.map_cons, List.map_nil, List.sum_cons, List.sum_nil, k₁, k₂, k₃, k₄, Json.string, print,
    length_printString_digest, length_printString_uuidId]
  omega

/-- A manifest is as long as its members and as its other texts together. -/
theorem length_manifest_ge {bytes : Bytes} (h : encodeManifest manifest = .ok bytes) :
    (manifest.members.map (fun member =>
      (asBytes member.path).length + (asBytes member.recordSchema.asStr).length + 202)).sum + 170 ≤ bytes.length := by
  obtain ⟨-, rfl⟩ := encodePretty_eq_ok.mp (encodeManifest_eq_ok.mp h).1
  have hraw : (Json.array (manifest.members.map (fun m => .object (.ofList (recordRefMembers m))))).raw =
      .array (manifest.members.map (fun m => (Json.object (.ofList (recordRefMembers m))).raw)) := by
    change Json.Raw.array _ = _
    rw [List.map_map]
    rfl
  have harray := sum_le_print_array (0 + 1) (manifest.members.map (fun m => (Json.object (.ofList (recordRefMembers m))).raw))
  rw [List.map_map] at harray
  have hmembers : (manifest.members.map (fun member =>
      (asBytes member.path).length + (asBytes member.recordSchema.asStr).length + 202)).sum ≤ _ :=
    (List.sum_le_sum fun member _ => length_recordRef_ge member).trans harray
  rw [List.length_append, manifestValue, length_print_ofList (nodup_manifestMembers manifest) (List.cons_ne_nil _ _)]
  simp only [manifestMembers, List.map_cons, List.map_nil, List.sum_cons, List.sum_nil, hraw]
  have hprint : ∀ indent s, print indent (Json.string s).raw = printString s := by
    intro indent s
    rw [Json.string, print]
  simp only [hprint, length_printString_digest, length_printString_uuidId]
  omega

end Manifest

end Wayjournal
