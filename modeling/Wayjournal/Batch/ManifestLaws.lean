import Wayjournal.Batch.Manifest
import Wayjournal.Json.Length
import Wayjournal.Record.CodecLaws

namespace Wayjournal

open Collections Serde Text

theorem encodeManifest_eq_ok {manifest : BatchManifest} {bytes : Bytes} :
    encodeManifest manifest = .ok bytes ↔
      encodePretty (manifestValue manifest) = .ok bytes ∧ bytes.length ≤ MAX_BATCH_BYTES := by
  simp only [encodeManifest, except_bind_eq_ok, mapError_eq_ok, guard_bind_eq_ok, pure_eq_ok]
  constructor
  · rintro ⟨_, hencode, hlength, rfl⟩
    exact ⟨hencode, by omega⟩
  · rintro ⟨hencode, hlength⟩
    exact ⟨bytes, hencode, by omega, rfl⟩

theorem nodup_recordRefMembers (member : RecordRef) : ((recordRefMembers member).map Prod.fst).Nodup := by
  simp only [recordRefMembers, List.map_cons, List.map_nil]
  decide

theorem nodup_manifestMembers (manifest : BatchManifest) :
    ((manifestMembers manifest).map Prod.fst).Nodup := by
  simp only [manifestMembers, List.map_cons, List.map_nil]
  decide

/-- Equal objects have equal fields. -/
theorem field_eq_of_object_eq {l l' : List (String × Json)} {k : String} {v v' : Json}
    (h : Json.object (.ofList l) = .object (.ofList l')) (hl : (l.map Prod.fst).Nodup)
    (hl' : (l'.map Prod.fst).Nodup) (hv : (k, v) ∈ l) (hv' : (k, v') ∈ l') : v = v' := by
  have hview := congrArg Json.view h
  simp only [Json.view_object, Json.View.object.injEq] at hview
  have hget := (BTreeMap.get?_ofList hl).mpr hv
  rw [hview, (BTreeMap.get?_ofList hl').mpr hv'] at hget
  exact (Option.some.inj hget).symm

theorem text_eq_of_object_eq {l l' : List (String × Json)} {k s t : String}
    (h : Json.object (.ofList l) = .object (.ofList l')) (hl : (l.map Prod.fst).Nodup)
    (hl' : (l'.map Prod.fst).Nodup) (hv : (k, .string s) ∈ l) (hv' : (k, .string t) ∈ l') : s = t := by
  have hview := congrArg Json.view (field_eq_of_object_eq h hl hl' hv hv')
  exact Json.View.string.inj hview

theorem Digest.display_injective : Function.Injective Digest.display := by
  intro a b h
  have ha := parse_display a
  rw [h, parse_display] at ha
  exact (Option.some.inj ha).symm

theorem recordRef_injective {a b : RecordRef}
    (h : Json.object (.ofList (recordRefMembers a)) = .object (.ofList (recordRefMembers b))) : a = b := by
  have hfield : ∀ {k s t : String}, (k, .string s) ∈ recordRefMembers a →
      (k, .string t) ∈ recordRefMembers b → s = t :=
    text_eq_of_object_eq h (nodup_recordRefMembers a) (nodup_recordRefMembers b)
  have hdigest : a.contentDigest.display = b.contentDigest.display :=
    hfield List.mem_cons_self List.mem_cons_self
  have hpath : a.path = b.path :=
    hfield (.tail _ List.mem_cons_self) (.tail _ List.mem_cons_self)
  have hid : a.recordId.display = b.recordId.display :=
    hfield (.tail _ (.tail _ List.mem_cons_self)) (.tail _ (.tail _ List.mem_cons_self))
  have hschema : a.recordSchema.asStr = b.recordSchema.asStr :=
    hfield (.tail _ (.tail _ (.tail _ List.mem_cons_self))) (.tail _ (.tail _ (.tail _ List.mem_cons_self)))
  obtain ⟨path, recordId, recordSchema, contentDigest⟩ := a
  obtain ⟨path', recordId', recordSchema', contentDigest'⟩ := b
  rw [RecordRef.mk.injEq]
  exact ⟨hpath, FromStr.toText_injective hid, CheckedText.asStr_injective hschema,
    Digest.display_injective hdigest⟩

theorem manifestValue_injective : Function.Injective manifestValue := by
  intro a b h
  have hnodup := nodup_manifestMembers a
  have hnodup' := nodup_manifestMembers b
  have hactor : a.actor.asStr = b.actor.asStr :=
    text_eq_of_object_eq h hnodup hnodup' List.mem_cons_self List.mem_cons_self
  have hbatch : a.batchId.display = b.batchId.display :=
    text_eq_of_object_eq h hnodup hnodup' (.tail _ List.mem_cons_self) (.tail _ List.mem_cons_self)
  have hkey : a.idempotencyKeyDigest.display = b.idempotencyKeyDigest.display :=
    text_eq_of_object_eq h hnodup hnodup' (.tail _ (.tail _ List.mem_cons_self))
      (.tail _ (.tail _ List.mem_cons_self))
  have hmembers := field_eq_of_object_eq h hnodup hnodup' (.tail _ (.tail _ (.tail _ List.mem_cons_self)))
      (.tail _ (.tail _ (.tail _ List.mem_cons_self)))
  have hrequest : a.requestDigest.display = b.requestDigest.display :=
    text_eq_of_object_eq h hnodup hnodup'
      (.tail _ (.tail _ (.tail _ (.tail _ List.mem_cons_self))))
      (.tail _ (.tail _ (.tail _ (.tail _ List.mem_cons_self))))
  have hitems := congrArg Json.view hmembers
  simp only [Json.view_array, Json.View.array.injEq] at hitems
  obtain ⟨batchId, actor, members, key, request⟩ := a
  obtain ⟨batchId', actor', members', key', request'⟩ := b
  rw [BatchManifest.mk.injEq]
  exact ⟨FromStr.toText_injective hbatch, CheckedText.asStr_injective hactor,
    List.map_injective_iff.mpr (fun _ _ => recordRef_injective) hitems, Digest.display_injective hkey,
    Digest.display_injective hrequest⟩

theorem depth_recordRef_le (member : RecordRef) :
    (Json.object (.ofList (recordRefMembers member))).depth ≤ 1 := by
  rw [Json.depth_object_le]
  rintro ⟨k, v⟩ he
  have hmem := (BTreeMap.get?_ofList (nodup_recordRefMembers member)).mp (BTreeMap.mem_entries_iff.mp he)
  simp only [recordRefMembers, List.mem_cons, List.not_mem_nil, or_false, Prod.mk.injEq] at hmem
  obtain ⟨-, rfl⟩ | ⟨-, rfl⟩ | ⟨-, rfl⟩ | ⟨-, rfl⟩ := hmem <;> exact Nat.le_refl 0

theorem depth_manifestValue_le (manifest : BatchManifest) : (manifestValue manifest).depth ≤ 3 := by
  rw [manifestValue, Json.depth_object_le]
  rintro ⟨k, v⟩ he
  have hmem := (BTreeMap.get?_ofList (nodup_manifestMembers manifest)).mp (BTreeMap.mem_entries_iff.mp he)
  simp only [manifestMembers, List.mem_cons, List.not_mem_nil, or_false, Prod.mk.injEq] at hmem
  obtain ⟨-, rfl⟩ | ⟨-, rfl⟩ | ⟨-, rfl⟩ | ⟨-, rfl⟩ | ⟨-, rfl⟩ | ⟨-, rfl⟩ := hmem
  case inr.inr.inr.inl =>
    rw [Json.depth_array_le]
    intro v hv
    obtain ⟨member, -, rfl⟩ := List.mem_map.mp hv
    exact depth_recordRef_le member
  all_goals exact Nat.zero_le 2

/-- A manifest is determined by its bytes. -/
theorem encodeManifest_injective {a b : BatchManifest} {bytes : Bytes} (ha : encodeManifest a = .ok bytes)
    (hb : encodeManifest b = .ok bytes) : a = b := by
  have hdepth : ∀ m : BatchManifest, (manifestValue m).depth ≤ Json.MAX_NESTING :=
    fun m => (depth_manifestValue_le m).trans (by decide)
  have hreadA := decodeStrict_encodePretty (encodeManifest_eq_ok.mp ha).1 (hdepth a)
  have hreadB := decodeStrict_encodePretty (encodeManifest_eq_ok.mp hb).1 (hdepth b)
  exact manifestValue_injective (Except.ok.inj (hreadA.symm.trans hreadB))

/-- What is read is what was written, not empty and sorted. -/
theorem encode_decodeBatchManifest {bytes : Bytes} {manifest : BatchManifest}
    (h : decodeBatchManifest bytes = .ok manifest) :
    encodeManifest manifest = .ok bytes ∧ manifest.members ≠ [] ∧ sortedMembers manifest.members = true := by
  simp only [decodeBatchManifest, guard_bind_eq_ok, except_bind_eq_ok, mapError_eq_ok] at h
  obtain ⟨-, value, -, h⟩ := h
  split at h
  · split at h
    · simp only [guard_bind_eq_ok] at h
      obtain ⟨-, h⟩ := h
      split at h
      · rename_i raw _
        simp only [guard_bind_eq_ok, except_bind_eq_ok, mapM_eq_ok, pure_eq_ok] at h
        obtain ⟨hempty, members, hmembers, hsorted, batchId, -, actor, -, key, -, request, -, encoded, hencode, heq,
          rfl⟩ := h
        rw [not_not] at heq
        rw [heq] at hencode
        refine ⟨hencode, ?_, by simpa using hsorted⟩
        rintro rfl
        rw [List.forall₂_nil_right_iff.mp hmembers] at hempty
        exact hempty rfl
      · cases h
    · cases h
  · cases h

theorem length_display (d : Digest) : d.display.toList.length = 64 := by
  rw [Digest.display, String.toList_ofList, Hex.length_toChars]

theorem length_le_object {indent : Nat} {l : List (String × Json)} {k : String} {v : Json}
    (hl : (l.map Prod.fst).Nodup) (h : (k, v) ∈ l) :
    (Json.print (indent + 1) v.raw).length ≤ (Json.print indent (Json.object (.ofList l)).raw).length := by
  have hmem : (k, v) ∈ (BTreeMap.ofList l).entries :=
    BTreeMap.mem_entries_iff.mpr ((BTreeMap.get?_ofList hl).mpr h)
  have hraw : (k, v.raw) ∈ (BTreeMap.ofList l).entries.map (fun e => (e.1, e.2.raw)) :=
    List.mem_map.mpr ⟨_, hmem, rfl⟩
  exact Json.length_le_print_object hraw

theorem length_recordRef (indent : Nat) (member : RecordRef) :
    64 ≤ (Json.print indent (Json.object (.ofList (recordRefMembers member))).raw).length := by
  have hdigest := Json.length_le_printString member.contentDigest.display
  have hobject : (Json.print (indent + 1) (Json.string member.contentDigest.display).raw).length ≤ _ :=
    length_le_object (nodup_recordRefMembers member) List.mem_cons_self
  rw [length_display] at hdigest
  have hprint : Json.print (indent + 1) (Json.string member.contentDigest.display).raw =
      Json.printString member.contentDigest.display := by
    rw [Json.string, Json.print]
  rw [hprint] at hobject
  omega

/-- A member takes 64 bytes at least. -/
theorem length_members_le {manifest : BatchManifest} {bytes : Bytes}
    (h : encodeManifest manifest = .ok bytes) : 64 * manifest.members.length ≤ bytes.length := by
  obtain ⟨-, rfl⟩ := encodePretty_eq_ok.mp (encodeManifest_eq_ok.mp h).1
  have hobject : (Json.print 1 (Json.array (manifest.members.map
      (fun m => .object (.ofList (recordRefMembers m))))).raw).length ≤ _ :=
    length_le_object (nodup_manifestMembers manifest) (.tail _ (.tail _ (.tail _ List.mem_cons_self)))
  have hsum : 64 * manifest.members.length ≤ ((manifest.members.map
      (fun m => (Json.object (.ofList (recordRefMembers m))).raw)).map
        (fun v => (Json.print (1 + 1) v).length)).sum := by
    induction manifest.members with
    | nil => simp
    | cons m ms ih =>
      have := length_recordRef (1 + 1) m
      simp only [List.map_cons, List.sum_cons, List.length_cons]
      omega
  have harray := Json.sum_le_print_array 1 (manifest.members.map
      (fun m => (Json.object (.ofList (recordRefMembers m))).raw))
  have hraw : (Json.array (manifest.members.map (fun m => .object (.ofList (recordRefMembers m))))).raw =
      .array (manifest.members.map (fun m => (Json.object (.ofList (recordRefMembers m))).raw)) := by
    change Json.Raw.array _ = _
    rw [List.map_map]
    rfl
  rw [hraw] at hobject
  rw [List.length_append]
  change _ ≤ (Json.print 0 (manifestValue manifest).raw).length at hobject
  omega

section

variable [Jiff]

/-- What `prepare_batch` promises of its result. -/
structure PreparedBatch.WellFormed (prepared : PreparedBatch) : Prop where
  nonempty : prepared.records ≠ []
  sorted : (prepared.records.map PreparedRecord.path).Pairwise (· < ·)
  path_eq : ∀ r ∈ prepared.records, r.path = r.record.canonicalPath
  size : ∀ r ∈ prepared.records, r.bytes.length ≤ MAX_RECORD_BYTES
  members_eq : prepared.manifest.members.map RecordRef.path = prepared.records.map PreparedRecord.path
  manifestPath_eq : prepared.manifestPath = prepared.manifest.canonicalPath
  encoded : encodeManifest prepared.manifest = .ok prepared.manifestBytes

/-- The records gathered so far stand under their paths. -/
def PreparedRecords (sorted : BTreeMap String PreparedRecord) : Prop :=
  ∀ path r, sorted.get? path = some r →
    r.path = path ∧ r.path = r.record.canonicalPath ∧ r.bytes.length ≤ MAX_RECORD_BYTES

theorem prepareRecord_records {batch : BatchId} {actor : ActorId} {registry : DomainRegistry}
    {prepared prepared' : Prepared} {record : Record} (hp : PreparedRecords prepared.2)
    (h : prepareRecord batch actor registry prepared record = .ok prepared') :
    PreparedRecords prepared'.2 ∧ record.canonicalPath ∈ prepared'.2.keys ∧
      ∀ path ∈ prepared.2.keys, path ∈ prepared'.2.keys := by
  simp only [prepareRecord, guard_bind_eq_ok, except_bind_eq_ok, mapError_eq_ok, pure_eq_ok] at h
  obtain ⟨-, -, -, bytes, hencode, rfl⟩ := h
  refine ⟨?_, BTreeMap.mem_keys_insert.mpr (.inl rfl), fun path hpath => BTreeMap.mem_keys_insert.mpr (.inr hpath)⟩
  intro path r hr
  rw [BTreeMap.get?_insert] at hr
  split at hr
  · rename_i hpath
    cases hr
    exact ⟨hpath.symm, rfl, (encodeRecord_eq_ok.mp hencode).2.2⟩
  · exact hp path r hr

theorem PreparedBatch.WellFormed.length_members {prepared : PreparedBatch} (h : prepared.WellFormed) :
    prepared.manifest.members.length = prepared.records.length := by
  have := congrArg List.length h.members_eq
  rwa [List.length_map, List.length_map] at this

theorem PreparedBatch.WellFormed.length_records_le {prepared : PreparedBatch} (h : prepared.WellFormed) :
    prepared.records.length ≤ 16384 := by
  have hlength := length_members_le h.encoded
  have hsize := (encodeManifest_eq_ok.mp h.encoded).2
  rw [h.length_members] at hlength
  have hmax : MAX_BATCH_BYTES = 1048576 := rfl
  omega

variable [Blake3]

theorem prepareBatch_wellFormed {records : List Record} {key : String} {registry : DomainRegistry}
    {prepared : PreparedBatch} (h : prepareBatch records key registry = .ok prepared) :
    prepared.WellFormed := by
  cases records with
  | nil => simp [prepareBatch, throw_eq_ok] at h
  | cons first rest =>
    simp only [prepareBatch, except_bind_eq_ok, pure_eq_ok, Prod.exists] at h
    obtain ⟨ids, sorted, hfold, bytes, hencode, rfl⟩ := h
    have hinv : PreparedRecords sorted ∧ first.canonicalPath ∈ sorted.keys := by
      rw [List.foldlM_cons, except_bind_eq_ok] at hfold
      obtain ⟨start, hstart, hfold⟩ := hfold
      have hfirst := prepareRecord_records (fun path r hr => by cases hr) hstart
      refine foldlM_invariant (fun _ (p : Prepared) => PreparedRecords p.2 ∧ first.canonicalPath ∈ p.2.keys)
        ?_ ⟨hfirst.1, hfirst.2.1⟩ hfold
      rintro p record r p' ⟨hp, hmem⟩ hstep
      have hnext := prepareRecord_records hp hstep
      exact ⟨hnext.1, hnext.2.2 _ hmem⟩
    obtain ⟨hrecords, hmem⟩ := hinv
    have hvalue : ∀ r ∈ sorted.values, sorted.get? r.path = some r ∧ r.path = r.record.canonicalPath ∧
        r.bytes.length ≤ MAX_RECORD_BYTES := by
      intro r hr
      obtain ⟨path, hget⟩ := BTreeMap.mem_values_iff.mp hr
      obtain ⟨rfl, hpath, hsize⟩ := hrecords path r hget
      exact ⟨hget, hpath, hsize⟩
    have hkeys : sorted.values.map PreparedRecord.path = sorted.keys := by
      rw [BTreeMap.values, BTreeMap.keys, List.map_map]
      refine List.map_congr_left fun e he => ?_
      exact (hrecords e.1 e.2 (BTreeMap.mem_entries_iff.mp he)).1
    constructor
    · intro hnil
      change sorted.values = [] at hnil
      rw [hnil, List.map_nil] at hkeys
      rw [← hkeys] at hmem
      cases hmem
    · change (sorted.values.map PreparedRecord.path).Pairwise (· < ·)
      rw [hkeys]
      exact sorted.keys_sorted
    · exact fun r hr => (hvalue r hr).2.1
    · exact fun r hr => (hvalue r hr).2.2
    · change List.map _ (List.map _ _) = _
      rw [List.map_map]
      rfl
    · rfl
    · exact hencode

end

end Wayjournal
