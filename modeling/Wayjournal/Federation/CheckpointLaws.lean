import Wayjournal.Federation.WireLaws

namespace Wayjournal

open Collections Crash Json Serde

section Raw

/-- The values of the fields. -/
def RawCheckpoint.values (raw : RawCheckpoint) : List Json :=
  [.string raw.acceptedCommit, .string raw.acceptedGitObjectFormat.asStr, .string raw.acceptedRevisionAlgorithm,
    .string raw.acceptedRevisionDigest, .string raw.genesisFingerprint, .string raw.localTrustBinding,
    .string raw.remoteLocator, .string raw.remoteRef, .string raw.schema, .string raw.storeUuid]

theorem RawCheckpoint.fromValue_of_slots {raw : RawCheckpoint} {v : Json}
    (hslots : structFields fields v = some (raw.values.map some)) : fromValue v = some raw := by
  refine Option.bind_eq_some_iff.mpr ⟨_, hslots, ?_⟩
  simp only [values, List.map_cons, List.map_nil, required_string, required_objectFormat, Option.bind_eq_bind,
    Option.bind_some, Option.pure_def]

theorem RawCheckpoint.writtenAs :
    WrittenAs isObject (fun raw : RawCheckpoint => Json.object (.ofList (fields.zip raw.values))) := by
  intro v raw
  have hnodup : fields.Nodup := by decide
  constructor
  · rintro ⟨hobject, hv⟩
    obtain ⟨members, rfl⟩ := isObject_iff.mp hobject
    obtain ⟨slots, hslots, hv⟩ := Option.bind_eq_some_iff.mp hv
    obtain ⟨hkeys, rfl⟩ := structFields_object_eq_some.mp hslots
    obtain ⟨a₁, e₁, hv⟩ := Option.bind_eq_some_iff.mp hv
    obtain ⟨a₂, e₂, hv⟩ := Option.bind_eq_some_iff.mp hv
    obtain ⟨a₃, e₃, hv⟩ := Option.bind_eq_some_iff.mp hv
    obtain ⟨a₄, e₄, hv⟩ := Option.bind_eq_some_iff.mp hv
    obtain ⟨a₅, e₅, hv⟩ := Option.bind_eq_some_iff.mp hv
    obtain ⟨a₆, e₆, hv⟩ := Option.bind_eq_some_iff.mp hv
    obtain ⟨a₇, e₇, hv⟩ := Option.bind_eq_some_iff.mp hv
    obtain ⟨a₈, e₈, hv⟩ := Option.bind_eq_some_iff.mp hv
    obtain ⟨a₉, e₉, hv⟩ := Option.bind_eq_some_iff.mp hv
    obtain ⟨a₁₀, e₁₀, hv⟩ := Option.bind_eq_some_iff.mp hv
    cases hv
    refine congrArg Json.object (object_eq_of_fields hnodup hkeys ?_)
    simp only [fields, values, List.map_cons, List.map_nil, WrittenAs.string.required_eq e₁,
      writtenAs_objectFormat.required_eq e₂, WrittenAs.string.required_eq e₃, WrittenAs.string.required_eq e₄,
      WrittenAs.string.required_eq e₅, WrittenAs.string.required_eq e₆, WrittenAs.string.required_eq e₇,
      WrittenAs.string.required_eq e₈, WrittenAs.string.required_eq e₉, WrittenAs.string.required_eq e₁₀]
  · rintro rfl
    exact ⟨isObject_iff.mpr ⟨_, rfl⟩, fromValue_of_slots (structFields_zip hnodup rfl)⟩

theorem head?_encodePretty_object {members : BTreeMap String Json} {bytes : Bytes}
    (h : encodePretty (.object members) = .ok bytes) : bytes.head? = some 0x7b := by
  obtain ⟨-, rfl⟩ := encodePretty_eq_ok.mp h
  have hraw : (Json.object members).raw = .object (members.entries.map fun e : String × Json => (e.1, e.2.raw)) := rfl
  rw [hraw]
  cases members.entries with
  | nil => rfl
  | cons e es => rfl

theorem head?_encodePretty_array {items : List Json} {bytes : Bytes}
    (h : encodePretty (.array items) = .ok bytes) : bytes.head? = some 0x5b := by
  obtain ⟨-, rfl⟩ := encodePretty_eq_ok.mp h
  cases items with
  | nil => rfl
  | cons v vs => rfl

@[simp] theorem wp_liftCheckpoint {α : Type} {s : Disk} {crash : Disk → Prop} {p : DiskM α} {post : α → Disk → Prop} {fail : CheckpointError → Disk → Prop} :
    (liftM p : CheckpointM α).wp crash post fail s ↔ p.wp crash post (fun e => fail (.store e)) s :=
  Program.wp_mapError

end Raw

section Wire

variable [Url]

/-- The texts of a checkpoint. -/
def AdmissionCheckpoint.raw (checkpoint : AdmissionCheckpoint) : RawCheckpoint where
  acceptedCommit := checkpoint.acceptedCommit.hex
  acceptedGitObjectFormat := checkpoint.acceptedCommit.format
  acceptedRevisionAlgorithm := checkpoint.acceptedRevision.algorithm.asStr
  acceptedRevisionDigest := checkpoint.acceptedRevision.digest.display
  genesisFingerprint := checkpoint.logicalStoreId.genesisFingerprint.display
  localTrustBinding := checkpoint.localTrustBinding.asDigest.display
  remoteLocator := checkpoint.approvedRemote.locator.asStr
  remoteRef := checkpoint.approvedRemote.reference.asStr
  schema := CHECKPOINT_SCHEMA
  storeUuid := checkpoint.logicalStoreId.storeUuid.display

theorem RawCheckpoint.check_eq_some {raw : RawCheckpoint} {checkpoint : AdmissionCheckpoint}
    (hschema : raw.schema = CHECKPOINT_SCHEMA) : raw.check = some checkpoint ↔ raw = checkpoint.raw := by
  constructor
  · intro h
    obtain ⟨storeUuid, h₁, h⟩ := Option.bind_eq_some_iff.mp h
    obtain ⟨genesis, h₂, h⟩ := Option.bind_eq_some_iff.mp h
    obtain ⟨commit, h₃, h⟩ := Option.bind_eq_some_iff.mp h
    obtain ⟨revision, h₄, h⟩ := Option.bind_eq_some_iff.mp h
    obtain ⟨trust, h₅, h⟩ := Option.bind_eq_some_iff.mp h
    obtain ⟨hformat, hhex⟩ := GitOid.parse_format_eq_some.mp h₃
    obtain ⟨halgorithm, hdigest⟩ := StoreRevisionRef.parse_eq_some.mp h₄
    split at h
    · split at h
      · cases h
        obtain ⟨_, _, _, _, _, _, _, _, _, _⟩ := raw
        simp only at hschema hformat hhex halgorithm hdigest h₁ h₂ h₅
        rw [AdmissionCheckpoint.raw, RawCheckpoint.mk.injEq]
        exact ⟨hhex, hformat, halgorithm, hdigest, Digest.parse_eq_some.mp h₂, Digest.parse_eq_some.mp h₅, rfl, rfl,
          hschema, toOption_fromStr_eq_some.mp h₁⟩
      · cases h
    · cases h
  · rintro rfl
    refine Option.bind_eq_some_iff.mpr ⟨_, toOption_fromStr_eq_some.mpr rfl, ?_⟩
    refine Option.bind_eq_some_iff.mpr ⟨_, Digest.parse_display _, ?_⟩
    refine Option.bind_eq_some_iff.mpr ⟨_, checkpoint.acceptedCommit.parse_hex, ?_⟩
    refine Option.bind_eq_some_iff.mpr ⟨_, checkpoint.acceptedRevision.parse_display, ?_⟩
    refine Option.bind_eq_some_iff.mpr ⟨_, Digest.parse_display _, ?_⟩
    have hlocator : validLocator checkpoint.raw.remoteLocator = true := checkpoint.approvedRemote.locator.valid
    have href : validRef checkpoint.raw.remoteRef = true := checkpoint.approvedRemote.reference.valid
    rw [dif_pos hlocator, dif_pos href]
    rfl

theorem AdmissionCheckpoint.toValue_eq (checkpoint : AdmissionCheckpoint) :
    checkpoint.toValue = Json.object (.ofList (RawCheckpoint.fields.zip checkpoint.raw.values)) := rfl

theorem AdmissionCheckpoint.mem_values {checkpoint : AdmissionCheckpoint} {v : Json} (h : v ∈ checkpoint.raw.values) :
    ∃ s, v = .string s := by
  simp only [RawCheckpoint.values, List.mem_cons, List.not_mem_nil, or_false] at h
  obtain rfl | rfl | rfl | rfl | rfl | rfl | rfl | rfl | rfl | rfl := h
  all_goals exact ⟨_, rfl⟩

theorem AdmissionCheckpoint.noFloats_values (checkpoint : AdmissionCheckpoint) :
    ∀ v ∈ checkpoint.raw.values, v.noFloats = true := by
  intro v hv
  obtain ⟨s, rfl⟩ := mem_values hv
  rfl

theorem AdmissionCheckpoint.depth_values_le (checkpoint : AdmissionCheckpoint) :
    ∀ v ∈ checkpoint.raw.values, v.depth ≤ 0 := by
  intro v hv
  obtain ⟨s, rfl⟩ := mem_values hv
  exact Nat.le_refl 0

theorem encodeAdmissionCheckpoint_eq_ok {checkpoint : AdmissionCheckpoint} {bytes : Bytes} :
    encodeAdmissionCheckpoint checkpoint = .ok bytes ↔ encodePretty checkpoint.toValue = .ok bytes ∧
      bytes.length ≤ MAX_ADMISSION_CHECKPOINT_BYTES := by
  simp only [encodeAdmissionCheckpoint, except_bind_eq_ok, mapError_eq_ok, guard_bind_eq_ok, pure_eq_ok, not_lt]
  constructor
  · rintro ⟨_, hencode, hlength, rfl⟩
    exact ⟨hencode, hlength⟩
  · rintro ⟨hencode, hlength⟩
    exact ⟨bytes, hencode, hlength, rfl⟩

theorem decodeAdmissionCheckpoint_eq_ok {checkpoint : AdmissionCheckpoint} {bytes : Bytes} :
    decodeAdmissionCheckpoint bytes = .ok checkpoint ↔ bytes.length ≤ MAX_ADMISSION_CHECKPOINT_BYTES ∧
      ∃ value, decodeStrict bytes = .ok value ∧ fromValue value = some checkpoint.raw ∧
        encodePretty value = .ok bytes := by
  simp only [decodeAdmissionCheckpoint, except_bind_eq_ok, mapError_eq_ok, guard_bind_eq_ok, not_lt]
  refine and_congr_right fun _ => ?_
  constructor
  · rintro ⟨value, hvalue, h⟩
    split at h
    · rename_i raw hread
      simp only [except_bind_eq_ok, mapError_eq_ok, guard_bind_eq_ok, not_not] at h
      obtain ⟨hschema, canonical, hcanonical, rfl, h⟩ := h
      split at h
      · rename_i checked hcheck
        cases h
        obtain rfl := (RawCheckpoint.check_eq_some hschema).mp hcheck
        exact ⟨value, hvalue, hread, hcanonical⟩
      · cases h
    · cases h
  · rintro ⟨value, hvalue, hread, hcanonical⟩
    refine ⟨value, hvalue, ?_⟩
    rw [hread]
    simp only [except_bind_eq_ok, mapError_eq_ok, guard_bind_eq_ok, not_not]
    refine ⟨rfl, bytes, hcanonical, rfl, ?_⟩
    rw [(RawCheckpoint.check_eq_some rfl).mpr rfl]
    rfl

theorem decodeAdmissionCheckpoint_encode {checkpoint : AdmissionCheckpoint} {bytes : Bytes}
    (h : encodeAdmissionCheckpoint checkpoint = .ok bytes) : decodeAdmissionCheckpoint bytes = .ok checkpoint := by
  obtain ⟨hencode, hlength⟩ := encodeAdmissionCheckpoint_eq_ok.mp h
  have hdepth : checkpoint.toValue.depth ≤ 1 := depth_struct_le checkpoint.depth_values_le
  exact decodeAdmissionCheckpoint_eq_ok.mpr ⟨hlength, checkpoint.toValue,
    decodeStrict_encodePretty hencode (hdepth.trans (by decide)), RawCheckpoint.writtenAs.read checkpoint.raw, hencode⟩

theorem encodeAdmissionCheckpoint_iff {checkpoint : AdmissionCheckpoint} {bytes : Bytes}
    (h : decodeAdmissionCheckpoint bytes = .ok checkpoint) :
    encodeAdmissionCheckpoint checkpoint = .ok bytes ↔ bytes.head? = some 0x7b := by
  obtain ⟨hlength, value, -, hread, hcanonical⟩ := decodeAdmissionCheckpoint_eq_ok.mp h
  constructor
  · intro hencode
    exact head?_encodePretty_object (encodeAdmissionCheckpoint_eq_ok.mp hencode).1
  · intro hhead
    obtain ⟨slots, hslots, -⟩ := Option.bind_eq_some_iff.mp hread
    obtain ⟨members, rfl⟩ | ⟨items, rfl⟩ := object_or_array_of_structFields hslots
    · have hvalue := RawCheckpoint.writtenAs.eq_value (isObject_iff.mpr ⟨_, rfl⟩) hread
      rw [hvalue] at hcanonical
      exact encodeAdmissionCheckpoint_eq_ok.mpr ⟨hcanonical, hlength⟩
    · rw [head?_encodePretty_array hcanonical] at hhead
      cases hhead

/-- What is written is read back, and what is read was written when it is an object. -/
theorem checkpoint_wire_bijection_iff :
    (∀ (checkpoint : AdmissionCheckpoint) (bytes : Bytes), encodeAdmissionCheckpoint checkpoint = .ok bytes →
      decodeAdmissionCheckpoint bytes = .ok checkpoint) ∧
    ∀ (checkpoint : AdmissionCheckpoint) (bytes : Bytes), decodeAdmissionCheckpoint bytes = .ok checkpoint →
      (encodeAdmissionCheckpoint checkpoint = .ok bytes ↔ bytes.head? = some 0x7b) :=
  ⟨fun _ _ h => decodeAdmissionCheckpoint_encode h, fun _ _ h => encodeAdmissionCheckpoint_iff h⟩

/-- The values of a checkpoint in a sequence. -/
theorem decodeAdmissionCheckpoint_sequence {checkpoint : AdmissionCheckpoint}
    (hlength : (print 0 (Json.array checkpoint.raw.values).raw).length + 1 ≤ MAX_ADMISSION_CHECKPOINT_BYTES) :
    ∃ bytes, decodeAdmissionCheckpoint bytes = .ok checkpoint ∧ bytes.head? = some 0x5b := by
  have hencode : encodePretty (Json.array checkpoint.raw.values) =
      .ok (print 0 (Json.array checkpoint.raw.values).raw ++ [0x0a]) :=
    encodePretty_eq_ok.mpr ⟨Json.noFloats_array.mpr checkpoint.noFloats_values, rfl⟩
  have hdepth : (Json.array checkpoint.raw.values).depth ≤ 1 := Json.depth_array_le.mpr checkpoint.depth_values_le
  have hdecode := decodeStrict_encodePretty hencode (hdepth.trans (by decide))
  have hslots : structFields RawCheckpoint.fields (Json.array checkpoint.raw.values) =
      some (checkpoint.raw.values.map some) := by
    rw [structFields, view_array]
    rfl
  refine ⟨_, decodeAdmissionCheckpoint_eq_ok.mpr ⟨?_, _, hdecode, RawCheckpoint.fromValue_of_slots hslots, hencode⟩,
    head?_encodePretty_array hencode⟩
  rw [List.length_append]
  exact hlength

section Read

variable [ReadDir] {s : Disk} {crash : Disk → Prop}

/-- A directory that holds the checkpoint and nothing else. -/
structure HoldsCheckpoint (s : Disk) (bytes : Bytes) : Prop where
  names : Store.checkpointsDir.names s = [.admissionCheckpoint]
  entry : Store.checkpointsDir.child? .admissionCheckpoint s = some (.regular bytes)

theorem wp_readCheckpoint {bytes : Bytes} {checkpoint : AdmissionCheckpoint}
    {post : Option AdmissionCheckpoint → Disk → Prop} {fail : CheckpointError → Disk → Prop} (h : HoldsCheckpoint s bytes)
    (hencode : encodeAdmissionCheckpoint checkpoint = .ok bytes) (hpost : post (some checkpoint) s) :
    readCheckpoint.wp crash post fail s := by
  have hlength := (encodeAdmissionCheckpoint_eq_ok.mp hencode).2
  have hresidue : recoverResidue.wp crash (fun _ t => t = s) fail s := by
    rw [recoverResidue, Program.wp_bind, wp_liftCheckpoint,
      Directory.wp_boundedNames (by rw [h.names]; decide), h.names, show [Name.admissionCheckpoint].insertionSort (· ≤ ·) = [.admissionCheckpoint] from rfl, Program.wp_bind,
      List.foldlM_cons, Program.wp_bind, checkResidue, if_pos rfl, Program.wp_bind, wp_liftCheckpoint,
      Directory.wp_kind h.entry]
    exact Program.wp_pure.mpr (Program.wp_pure.mpr (Program.wp_pure.mpr rfl))
  have hopen : openCheckpoint.wp crash (fun found t => found = some bytes ∧ t = s) fail s := by
    rw [openCheckpoint, Program.wp_reads, h.entry]
    exact ⟨rfl, rfl⟩
  rw [readCheckpoint, Program.wp_bind]
  refine Program.wp_mono hresidue (fun _ h => h) ?_ (fun _ _ h => h)
  rintro - _ rfl
  rw [Program.wp_bind]
  refine Program.wp_mono hopen (fun _ h => h) ?_ (fun _ _ h => h)
  rintro _ _ ⟨rfl, rfl⟩
  dsimp only
  rw [if_neg (not_lt.mpr hlength), Program.wp_bind, Program.wp_ofExcept_ok (decodeAdmissionCheckpoint_encode hencode)]
  exact Program.wp_pure.mpr hpost

end Read

end Wire

attribute [local instance] Sample.url

namespace Sample

def checkpoint : AdmissionCheckpoint := ⟨logicalStoreId, ⟨digest⟩, approvedRemote, oid 1, revision⟩

theorem encode_checkpoint : ∃ bytes, encodeAdmissionCheckpoint checkpoint = .ok bytes := by
  have hlength : (print 0 checkpoint.toValue.raw ++ [0x0a]).length ≤ MAX_ADMISSION_CHECKPOINT_BYTES := by decide +kernel
  exact ⟨_, encodeAdmissionCheckpoint_eq_ok.mpr
    ⟨encodePretty_eq_ok.mpr ⟨noFloats_struct checkpoint.noFloats_values, rfl⟩, hlength⟩⟩

end Sample

theorem sequence_read_as_checkpoint :
    ¬ ∀ (checkpoint : AdmissionCheckpoint) (bytes : Bytes), decodeAdmissionCheckpoint bytes = .ok checkpoint →
      encodeAdmissionCheckpoint checkpoint = .ok bytes := by
  intro h
  have hlength : (print 0 (Json.array Sample.checkpoint.raw.values).raw).length + 1 ≤ MAX_ADMISSION_CHECKPOINT_BYTES := by
    decide +kernel
  obtain ⟨bytes, hdecode, hhead⟩ := decodeAdmissionCheckpoint_sequence hlength
  have hobject := (encodeAdmissionCheckpoint_iff hdecode).mp (h _ _ hdecode)
  rw [hhead] at hobject
  cases hobject

theorem checkpoint_wire_bijection_iff_sample :
    ∃ bytes, encodeAdmissionCheckpoint Sample.checkpoint = .ok bytes ∧
      decodeAdmissionCheckpoint bytes = .ok Sample.checkpoint ∧ bytes.head? = some 0x7b := by
  obtain ⟨bytes, hbytes⟩ := Sample.encode_checkpoint
  have hread := checkpoint_wire_bijection_iff.1 Sample.checkpoint bytes hbytes
  exact ⟨bytes, hbytes, hread, (checkpoint_wire_bijection_iff.2 Sample.checkpoint bytes hread).mp hbytes⟩

end Wayjournal
