import Wayjournal.Batch.ManifestLaws
import Wayjournal.Store.Paths

namespace Wayjournal

open Collections Serde Text

def RecordRef.raw (member : RecordRef) : RawRecordRef :=
  ⟨member.contentDigest.display, member.path, member.recordId.display, member.recordSchema.asStr⟩

def BatchManifest.raw (manifest : BatchManifest) : RawManifest :=
  ⟨manifest.actor.asStr, manifest.batchId.display, manifest.idempotencyKeyDigest.display,
    manifest.members.map RecordRef.raw, manifest.requestDigest.display, BATCH_SCHEMA_V1⟩

theorem fromValue_recordRef (member : RecordRef) :
    (fromValue (Json.object (.ofList (recordRefMembers member))) : Option RawRecordRef) = some member.raw := by
  have hfields := structFields_members (nodup_recordRefMembers member)
  simp only [fromValue]
  change (structFields ["content_digest", "path", "record_id", "record_schema"] _ >>= _) = _
  rw [show ["content_digest", "path", "record_id", "record_schema"] = (recordRefMembers member).map Prod.fst from rfl,
    hfields]
  rfl

theorem fromValue_manifest (manifest : BatchManifest) :
    (fromValue (manifestValue manifest) : Option RawManifest) = some manifest.raw := by
  have hfields := structFields_members (nodup_manifestMembers manifest)
  have hmembers : (fromValue (Json.array (manifest.members.map
      (fun m => .object (.ofList (recordRefMembers m))))) : Option (List RawRecordRef)) =
        some (manifest.members.map RecordRef.raw) := by
    simp only [fromValue, Json.view_array]
    induction manifest.members with
    | nil => rfl
    | cons m ms ih =>
      rw [List.map_cons, List.mapM_cons]
      rw [ih]
      have hm := fromValue_recordRef m
      simp only [fromValue] at hm
      rw [hm]
      rfl
  simp only [fromValue]
  change (structFields ["actor", "batch_id", "idempotency_key_digest", "members", "request_digest", "schema"] _ >>= _) = _
  rw [show ["actor", "batch_id", "idempotency_key_digest", "members", "request_digest", "schema"] =
    (manifestMembers manifest).map Prod.fst from rfl, manifestValue, hfields]
  simp only [manifestMembers, List.map_cons, List.map_nil, Option.bind_eq_bind, Option.bind_some, required, hmembers]
  rfl

/-- What a reference of a manifest must satisfy to be read. -/
structure RecordRef.Consistent (member : RecordRef) : Prop where
  path : validateJournalRecordPath member.path = true
  name : endsWith member.path ("/" ++ member.recordId.display ++ ".json") = true
  domain : (splitPath member.path)[2]? =
    (splitOnce '/' member.recordSchema.asStr.toList).map (fun p => String.ofList p.1)

theorem decodeMember_raw {member : RecordRef} (h : member.Consistent) : decodeMember member.raw = .ok member := by
  have hid : parseManifestField RecordId "record_id" member.recordId.display = .ok member.recordId :=
    mapError_eq_ok.mpr (FromStr.fromStr_toText member.recordId)
  have hschema : parseManifestField RecordSchemaId "record_schema" member.recordSchema.asStr =
      .ok member.recordSchema := mapError_eq_ok.mpr (FromStr.fromStr_toText member.recordSchema)
  have hdigest : parseDigest member.contentDigest.display = .ok member.contentDigest := by
    rw [parseDigest, Digest.parse_display]
  have hguard : ¬(!validateJournalRecordPath member.path ||
      !endsWith member.path ("/" ++ member.recordId.display ++ ".json") ||
      decide ((splitPath member.path)[2]? ≠
        (splitOnce '/' member.recordSchema.asStr.toList).map (fun p => String.ofList p.1))) = true := by
    rw [h.path, h.name, h.domain]
    simp
  unfold decodeMember
  refine except_bind_eq_ok.mpr ⟨_, hid, except_bind_eq_ok.mpr ⟨_, hschema, ?_⟩⟩
  refine guard_bind_eq_ok.mpr ⟨hguard, except_bind_eq_ok.mpr ⟨_, hdigest, rfl⟩⟩

/-- What was written can be read. -/
theorem decode_encodeManifest {manifest : BatchManifest} {bytes : Bytes}
    (h : encodeManifest manifest = .ok bytes) (hne : manifest.members ≠ [])
    (hsorted : sortedMembers manifest.members = true) (hmembers : ∀ m ∈ manifest.members, m.Consistent) :
    decodeBatchManifest bytes = .ok manifest := by
  obtain ⟨hpretty, hlength⟩ := encodeManifest_eq_ok.mp h
  have hread : decodeStrict bytes = .ok (manifestValue manifest) :=
    decodeStrict_encodePretty hpretty ((depth_manifestValue_le manifest).trans (by decide))
  have hschema : ((BTreeMap.ofList (manifestMembers manifest)).get? "schema").bind
      (fromValue (α := String)) = some BATCH_SCHEMA_V1 := by
    have hmem : ("schema", Json.string BATCH_SCHEMA_V1) ∈ manifestMembers manifest := by
      simp [manifestMembers]
    rw [(BTreeMap.get?_ofList (nodup_manifestMembers manifest)).mpr hmem]
    rfl
  have hrefs : manifest.raw.members.mapM decodeMember = .ok manifest.members := by
    rw [mapM_eq_ok]
    change List.Forall₂ _ (manifest.members.map RecordRef.raw) _
    rw [List.forall₂_map_left_iff, List.forall₂_same]
    exact fun m hm => decodeMember_raw (hmembers m hm)
  have hempty : manifest.raw.members.isEmpty = false := by
    rw [List.isEmpty_eq_false_iff]
    change manifest.members.map RecordRef.raw ≠ []
    simpa using hne
  have hview : (manifestValue manifest).view = .object (.ofList (manifestMembers manifest)) := Json.view_object _
  have hbatch : parseManifestField BatchId "batch_id" manifest.batchId.display = .ok manifest.batchId :=
    mapError_eq_ok.mpr (FromStr.fromStr_toText manifest.batchId)
  have hactor : parseManifestField ActorId "actor" manifest.actor.asStr = .ok manifest.actor :=
    mapError_eq_ok.mpr (FromStr.fromStr_toText manifest.actor)
  have hdigest : ∀ d : Digest, parseDigest d.display = .ok d := by
    intro d
    rw [parseDigest, Digest.parse_display]
  simp only [decodeBatchManifest, guard_bind_eq_ok, except_bind_eq_ok, mapError_eq_ok]
  refine ⟨by omega, _, hread, ?_⟩
  simp only [hview, hschema, fromValue_manifest, guard_bind_eq_ok, except_bind_eq_ok]
  refine ⟨by simp, by simp [hempty], _, hrefs, by simp [hsorted], _, hbatch, _, hactor, _, hdigest _, _, hdigest _, _, h, ?_⟩
  exact ⟨not_not.mpr rfl, rfl⟩

theorem foldlM_insertMember {members : List StoredMember} {m : BTreeMap Bytes Bytes}
    (hnodup : (members.map StoredMember.path).Nodup) (hnew : ∀ x ∈ members, m.get? x.path = none) :
    members.foldlM insertMember m = .ok (members.foldl (fun m x => m.insert x.path x.bytes) m) := by
  induction members generalizing m with
  | nil => rfl
  | cons x rest ih =>
    rw [List.map_cons, List.nodup_cons] at hnodup
    have hinsert : insertMember m x = .ok (m.insert x.path x.bytes) := by
      rw [insertMember, if_neg]
      rw [BTreeMap.containsKey, hnew x List.mem_cons_self]
      exact Bool.false_ne_true
    rw [List.foldlM_cons, hinsert]
    refine ih hnodup.2 fun y hy => ?_
    rw [BTreeMap.get?_insert, if_neg]
    · exact hnew y (List.mem_cons_of_mem _ hy)
    · rintro heq
      exact hnodup.1 (List.mem_map.mpr ⟨y, hy, by rw [heq]⟩)

theorem foldl_insertMember (members : List StoredMember) :
    members.foldl (fun m x => m.insert x.path x.bytes) ∅ =
      BTreeMap.ofList (members.map (fun x => (x.path, x.bytes))) := by
  rw [BTreeMap.ofList, List.foldl_map]
  rfl

private theorem endsWith_tail (a b c d e f g : String) :
    endsWith (a ++ b ++ c ++ d ++ e ++ f ++ g) (e ++ f ++ g) = true := by
  rw [endsWith, List.isSuffixOf_iff_suffix]
  refine ⟨(a ++ b ++ c ++ d).toList, ?_⟩
  rw [← String.toList_append]
  simp only [String.append_assoc]

section

variable [Jiff]

namespace Record

variable (record : Record)

/-- The schema is one of the record's own domain. -/
def schemaOfDomain : Prop :=
  (splitOnce '/' record.recordSchema.asStr.toList).map (fun p => String.ofList p.1) = some record.domain.asStr

theorem endsWith_canonicalPath :
    endsWith record.canonicalPath ("/" ++ record.recordId.display ++ ".json") = true := by
  unfold canonicalPath
  exact endsWith_tail ..

end Record

theorem get?_foldl_erase {l : List PreparedRecord} {m : BTreeMap Bytes Bytes} {k : Bytes} :
    (l.foldl (fun m r => m.erase (asBytes r.path)) m).get? k =
      if k ∈ l.map (fun r => asBytes r.path) then none else m.get? k := by
  induction l generalizing m with
  | nil => simp
  | cons r rest ih =>
    rw [List.foldl_cons, ih, BTreeMap.get?_erase]
    by_cases hk : asBytes r.path = k
    · simp [hk]
    · simp [Ne.symm hk]

/-- The records gathered so far are those of one batch. -/
structure Gathered (batchId : BatchId) (actor : ActorId) (registry : DomainRegistry) (prepared : Prepared) :
    Prop where
  encodes : ∀ path r, prepared.2.get? path = some r → encodeRecord r.record registry = .ok r.bytes
  batchId : ∀ path r, prepared.2.get? path = some r → r.record.batchId = batchId
  actor : ∀ path r, prepared.2.get? path = some r → r.record.actor = actor
  seen : ∀ path r, prepared.2.get? path = some r → r.record.recordId ∈ prepared.1.keys
  distinct : ∀ path path' r r', prepared.2.get? path = some r → prepared.2.get? path' = some r' →
    r.record.recordId = r'.record.recordId → path = path'

theorem prepareRecord_gathered {batchId : BatchId} {actor : ActorId} {registry : DomainRegistry}
    {prepared prepared' : Prepared} {record : Record} (hp : Gathered batchId actor registry prepared)
    (h : prepareRecord batchId actor registry prepared record = .ok prepared') :
    Gathered batchId actor registry prepared' := by
  simp only [prepareRecord, guard_bind_eq_ok, except_bind_eq_ok, mapError_eq_ok, pure_eq_ok, not_not] at h
  obtain ⟨hbatch, hactor, hnew, bytes, hencode, rfl⟩ := h
  have hfresh : ∀ path r, prepared.2.get? path = some r → r.record.recordId ≠ record.recordId := by
    intro path r hr heq
    exact hnew (BTreeMap.containsKey_iff.mpr (heq ▸ hp.seen path r hr))
  constructor
  · intro path r hr
    rw [BTreeMap.get?_insert] at hr
    split at hr
    · cases hr
      exact hencode
    · exact hp.encodes path r hr
  · intro path r hr
    rw [BTreeMap.get?_insert] at hr
    split at hr
    · cases hr
      exact hbatch
    · exact hp.batchId path r hr
  · intro path r hr
    rw [BTreeMap.get?_insert] at hr
    split at hr
    · cases hr
      exact hactor
    · exact hp.actor path r hr
  · intro path r hr
    rw [BTreeMap.get?_insert] at hr
    split at hr
    · cases hr
      exact BTreeMap.mem_keys_insert.mpr (.inl rfl)
    · exact BTreeMap.mem_keys_insert.mpr (.inr (hp.seen path r hr))
  · intro path path' r r' hr hr' heq
    rw [BTreeMap.get?_insert] at hr hr'
    split at hr <;> split at hr'
    · simp_all
    · cases hr
      exact absurd heq.symm (hfresh path' r' hr')
    · cases hr'
      exact absurd heq (hfresh path r hr)
    · exact hp.distinct path path' r r' hr hr' heq

variable [Blake3]

def PreparedRecord.ref (r : PreparedRecord) : RecordRef :=
  ⟨r.path, r.record.recordId, r.record.recordSchema, contentDigest r.bytes⟩

/-- A prepared batch whose parts belong together. -/
structure PreparedBatch.Sealed (prepared : PreparedBatch) (registry : DomainRegistry) : Prop where
  wellFormed : prepared.WellFormed
  encodes : ∀ r ∈ prepared.records, encodeRecord r.record registry = .ok r.bytes
  batchId : ∀ r ∈ prepared.records, r.record.batchId = prepared.manifest.batchId
  actor : ∀ r ∈ prepared.records, r.record.actor = prepared.manifest.actor
  ids : (prepared.records.map (fun r => r.record.recordId)).Nodup
  members : prepared.manifest.members = prepared.records.map PreparedRecord.ref
  request : prepared.manifest.requestDigest =
    framedHash REQUEST_DIGEST_DOMAIN (prepared.records.map (fun r => (asBytes r.path, r.bytes)))

theorem prepareBatch_sealed {records : List Record} {key : String} {registry : DomainRegistry}
    {prepared : PreparedBatch} (h : prepareBatch records key registry = .ok prepared) :
    prepared.Sealed registry := by
  have hwf := prepareBatch_wellFormed h
  cases records with
  | nil => simp [prepareBatch, throw_eq_ok] at h
  | cons first rest =>
    simp only [prepareBatch, except_bind_eq_ok, pure_eq_ok, Prod.exists] at h
    obtain ⟨ids, sorted, hfold, bytes, hencode, rfl⟩ := h
    have hgathered : Gathered first.batchId first.actor registry (ids, sorted) := by
      refine foldlM_invariant (fun _ (p : Prepared) => Gathered first.batchId first.actor registry p) ?_ ?_ hfold
      · intro p record r p' hp hstep
        exact prepareRecord_gathered hp hstep
      · constructor <;> intros <;> contradiction
    have hvalue : ∀ r ∈ sorted.values, ∃ path, sorted.get? path = some r :=
      fun r hr => BTreeMap.mem_values_iff.mp hr
    refine ⟨hwf, ?_, ?_, ?_, ?_, rfl, rfl⟩
    · intro r hr
      obtain ⟨path, hget⟩ := hvalue r hr
      exact hgathered.encodes path r hget
    · intro r hr
      obtain ⟨path, hget⟩ := hvalue r hr
      exact hgathered.batchId path r hget
    · intro r hr
      obtain ⟨path, hget⟩ := hvalue r hr
      exact hgathered.actor path r hget
    · change (sorted.values.map _).Nodup
      rw [BTreeMap.values, List.map_map, List.nodup_map_iff_inj_on sorted.keys_nodup.of_map]
      rintro ⟨path, r⟩ hr ⟨path', r'⟩ hr' heq
      have hget := BTreeMap.mem_entries_iff.mp hr
      have hget' := BTreeMap.mem_entries_iff.mp hr'
      obtain rfl := hgathered.distinct path path' r r' hget hget' heq
      rw [hget] at hget'
      cases hget'
      rfl

/-- A sealed batch whose parts can be read back. -/
structure PreparedBatch.Readable (prepared : PreparedBatch) (registry : DomainRegistry) : Prop extends
    prepared.Sealed registry where
  decodes : ∀ r ∈ prepared.records, decodeRecord r.bytes registry = .ok r.record
  schemas : ∀ r ∈ prepared.records, r.record.schemaOfDomain

def PreparedRecord.stored (r : PreparedRecord) : StoredMember := ⟨asBytes r.path, r.bytes⟩

namespace PreparedBatch.Readable

variable {prepared : PreparedBatch} {registry : DomainRegistry}

theorem consistent (h : prepared.Readable registry) : ∀ m ∈ prepared.manifest.members, m.Consistent := by
  intro m hm
  rw [h.members] at hm
  obtain ⟨r, hr, rfl⟩ := List.mem_map.mp hm
  have hpath : r.ref.path = r.record.canonicalPath := h.wellFormed.path_eq r hr
  constructor
  · rw [hpath]
    exact r.record.validateJournalRecordPath_canonicalPath
  · rw [hpath]
    exact r.record.endsWith_canonicalPath
  · rw [hpath, r.record.splitPath_canonicalPath]
    exact (h.schemas r hr).symm

theorem sortedMembers (h : prepared.Readable registry) : sortedMembers prepared.manifest.members = true := by
  rw [Wayjournal.sortedMembers, Bool.and_eq_true, ascending_iff, decide_eq_true_eq, h.wellFormed.members_eq,
    h.members, List.map_map]
  exact ⟨h.wellFormed.sorted, h.ids⟩

theorem decodeBatchManifest_ok (h : prepared.Readable registry) :
    decodeBatchManifest prepared.manifestBytes = .ok prepared.manifest := by
  refine decode_encodeManifest h.wellFormed.encoded ?_ h.sortedMembers h.consistent
  rw [h.members]
  simpa using h.wellFormed.nonempty

theorem validateMember_ok (h : prepared.Readable registry) {r : PreparedRecord} (hr : r ∈ prepared.records) :
    validateMember prepared.manifest registry r.ref r.bytes = .ok r.record := by
  have hpath : r.record.canonicalPath = r.ref.path := (h.wellFormed.path_eq r hr).symm
  unfold validateMember
  refine guard_bind_eq_ok.mpr ⟨not_not.mpr rfl, except_bind_eq_ok.mpr ⟨_, mapError_eq_ok.mpr (h.decodes r hr), ?_⟩⟩
  refine guard_bind_eq_ok.mpr ⟨?_, guard_bind_eq_ok.mpr ⟨not_not.mpr (h.batchId r hr),
    guard_bind_eq_ok.mpr ⟨not_not.mpr (h.actor r hr), rfl⟩⟩⟩
  simp [hpath, PreparedRecord.ref]

theorem nodup_paths (h : prepared.Readable registry) :
    (prepared.records.map (fun r => asBytes r.path)).Nodup := by
  have hpaths := h.wellFormed.sorted.imp ne_of_lt
  have hmap := List.Nodup.map asBytes_injective hpaths
  rwa [List.map_map] at hmap

theorem foldlM_claimMember (h : prepared.Readable registry) {l : List PreparedRecord} {claimed : Claimed}
    (hl : ∀ r ∈ l, r ∈ prepared.records) (hnodup : (l.map (fun r => asBytes r.path)).Nodup)
    (hget : ∀ r ∈ l, claimed.1.get? (asBytes r.path) = some r.bytes) :
    (l.map PreparedRecord.ref).foldlM (claimMember prepared.manifest registry) claimed =
      .ok (l.foldl (fun m r => m.erase (asBytes r.path)) claimed.1,
        claimed.2.1 ++ l.map (fun r => (asBytes r.path, r.bytes)), claimed.2.2 ++ l.map PreparedRecord.record) := by
  induction l generalizing claimed with
  | nil => simp [pure_eq_ok]
  | cons r rest ih =>
    rw [List.map_cons, List.nodup_cons] at hnodup
    have hclaim : claimMember prepared.manifest registry claimed r.ref =
        .ok (claimed.1.erase (asBytes r.path), claimed.2.1 ++ [(asBytes r.path, r.bytes)],
          claimed.2.2 ++ [r.record]) := by
      have hpath : claimed.1.get? (asBytes r.ref.path) = some r.bytes := hget r List.mem_cons_self
      have hmember := h.validateMember_ok (hl r List.mem_cons_self)
      simp only [claimMember, hpath, hmember]
      rfl
    rw [List.map_cons, List.foldlM_cons, hclaim]
    refine (ih (fun x hx => hl x (List.mem_cons_of_mem _ hx)) hnodup.2 ?_).trans ?_
    · intro x hx
      rw [BTreeMap.get?_erase, if_neg]
      · exact hget x (List.mem_cons_of_mem _ hx)
      · intro heq
        exact hnodup.1 (List.mem_map.mpr ⟨x, hx, heq⟩)
    · simp

/-- The records of the batch are the members its manifest names. -/
theorem validateBatchMembers_ok (h : prepared.Readable registry) :
    validateBatchMembers prepared.manifest (prepared.records.map PreparedRecord.stored) registry =
      .ok (prepared.records.map PreparedRecord.record) := by
  have hnodup : ((prepared.records.map PreparedRecord.stored).map StoredMember.path).Nodup := by
    rw [List.map_map]
    exact h.nodup_paths
  have hentries : (((prepared.records.map PreparedRecord.stored).map (fun x => (x.path, x.bytes))).map
      Prod.fst).Nodup := by
    rw [List.map_map]
    exact hnodup
  have hinsert := foldlM_insertMember hnodup (m := ∅) fun _ _ => rfl
  rw [foldl_insertMember] at hinsert
  have hget : ∀ r ∈ prepared.records, (BTreeMap.ofList ((prepared.records.map PreparedRecord.stored).map
      (fun x => (x.path, x.bytes)))).get? (asBytes r.path) = some r.bytes := by
    intro r hr
    rw [BTreeMap.get?_ofList hentries, List.map_map]
    exact List.mem_map.mpr ⟨r, hr, rfl⟩
  have hkeys : ∀ k v, (BTreeMap.ofList ((prepared.records.map PreparedRecord.stored).map
      (fun x => (x.path, x.bytes)))).get? k = some v → k ∈ prepared.records.map (fun r => asBytes r.path) := by
    intro k v hv
    rw [BTreeMap.get?_ofList hentries, List.map_map] at hv
    obtain ⟨r, hr, heq⟩ := List.mem_map.mp hv
    exact List.mem_map.mpr ⟨r, hr, congrArg Prod.fst heq⟩
  generalize BTreeMap.ofList ((prepared.records.map PreparedRecord.stored).map (fun x => (x.path, x.bytes))) =
    byPath at hinsert hget hkeys
  have hstart : ∀ r ∈ prepared.records, ((byPath, [], []) : Claimed).1.get? (asBytes r.path) = some r.bytes := hget
  have hclaim := h.foldlM_claimMember (fun _ hr => hr) h.nodup_paths hstart
  rw [← h.members] at hclaim
  have hrest : (prepared.records.foldl (fun m r => m.erase (asBytes r.path)) byPath).keys.head? = none := by
    rw [List.head?_eq_none_iff, List.eq_nil_iff_forall_not_mem]
    intro k hk
    obtain ⟨v, hv⟩ := BTreeMap.mem_keys_iff.mp hk
    rw [get?_foldl_erase] at hv
    split at hv
    · cases hv
    · rename_i hnot
      exact hnot (hkeys k v hv)
  unfold validateBatchMembers
  refine except_bind_eq_ok.mpr ⟨_, hinsert, except_bind_eq_ok.mpr ⟨_, hclaim, ?_⟩⟩
  simp only [hrest, List.nil_append]
  exact guard_bind_eq_ok.mpr ⟨not_not.mpr h.request.symm, rfl⟩

end PreparedBatch.Readable

end

end Wayjournal
