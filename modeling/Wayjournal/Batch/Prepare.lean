import Wayjournal.Batch.Ownership
import Wayjournal.Builtin

namespace Wayjournal

open Collections Serde Text

/-- A registry is only ever made by checking its registrations. -/
def DomainRegistry.Constructed (registry : DomainRegistry) : Prop :=
  DomainRegistry.validateAndCollect registry.registrations = .ok { registry with sealedBuiltins := false }

theorem DomainRegistry.constructed_of_withBuiltins {builtins additional : List DomainRegistration}
    {registry : DomainRegistry} (h : DomainRegistry.withBuiltins builtins additional = .ok registry) :
    registry.Constructed := by
  unfold DomainRegistry.withBuiltins at h
  split at h
  · cases h
  · simp only [except_bind_eq_ok, pure_eq_ok] at h
    obtain ⟨collected, hcollect, rfl⟩ := h
    have hsame := hcollect
    simp only [DomainRegistry.validateAndCollect, except_bind_eq_ok, pure_eq_ok] at hsame
    obtain ⟨_, _, rfl⟩ := hsame
    exact hcollect

theorem schema_of_checkRegistration {registrations : List DomainRegistration} {pairs pairs' : List (String × String)}
    (h : registrations.foldlM checkRegistration pairs = .ok pairs') : ∀ r ∈ registrations,
      (splitOnce '/' r.schema.toList).map (fun p => String.ofList p.1) = some r.domain := by
  induction registrations generalizing pairs with
  | nil => simp
  | cons r t ih =>
    simp only [List.foldlM_cons, except_bind_eq_ok] at h
    obtain ⟨next, hcheck, h⟩ := h
    simp only [checkRegistration, except_bind_eq_ok, guard_bind_eq_ok, not_not] at hcheck
    obtain ⟨-, -, -, -, hschema, -⟩ := hcheck
    rw [List.forall_mem_cons]
    exact ⟨hschema, ih h⟩

section

variable [Jiff]

theorem DomainRegistry.Constructed.schemaOfDomain {registry : DomainRegistry} (hregistry : registry.Constructed)
    {record : Record} (h : validateRecord record registry = .ok ()) : record.schemaOfDomain := by
  simp only [DomainRegistry.Constructed, DomainRegistry.validateAndCollect, except_bind_eq_ok] at hregistry
  obtain ⟨pairs, hpairs, -⟩ := hregistry
  rw [validateRecord] at h
  split at h
  · cases h
  rw [DomainRegistry.validate] at h
  split at h
  · cases h
  rename_i registration hfind
  have hmatch := List.find?_some hfind
  simp only [Bool.and_eq_true, decide_eq_true_eq] at hmatch
  have hschema := schema_of_checkRegistration hpairs registration (List.mem_of_find?_eq_some hfind)
  rwa [hmatch.1, hmatch.2] at hschema

theorem Record.recordId_of_canonicalPath_eq {a b : Record} (h : a.canonicalPath = b.canonicalPath) :
    a.recordId = b.recordId := by
  have hparts : a.parts = b.parts := by rw [← a.splitPath_canonicalPath, h, b.splitPath_canonicalPath]
  simp only [Record.parts, List.cons.injEq] at hparts
  have hname := hparts.2.2.2.2.1
  rw [String.append_left_inj] at hname
  exact FromStr.toText_injective hname

def preparedRecord (registry : DomainRegistry) (record : Record) : PreparedRecord :=
  ⟨record, record.canonicalPath, (encodeRecord record registry).toOption.getD []⟩

/-- The records of a batch that `prepare_record` takes one after the other. -/
structure Preparable (batchId : BatchId) (actor : ActorId) (registry : DomainRegistry) (records : List Record) :
    Prop where
  batchId : ∀ r ∈ records, r.batchId = batchId
  actor : ∀ r ∈ records, r.actor = actor
  encodes : ∀ r ∈ records, ∃ bytes, encodeRecord r registry = .ok bytes
  ids : (records.map Record.recordId).Nodup

theorem Preparable.perm {batchId : BatchId} {actor : ActorId} {registry : DomainRegistry}
    {records records' : List Record} (h : Preparable batchId actor registry records) (hp : records.Perm records') :
    Preparable batchId actor registry records' where
  batchId := fun r hr => h.batchId r (hp.mem_iff.mpr hr)
  actor := fun r hr => h.actor r (hp.mem_iff.mpr hr)
  encodes := fun r hr => h.encodes r (hp.mem_iff.mpr hr)
  ids := (hp.map _).nodup_iff.mp h.ids

theorem preparable_cons {batchId : BatchId} {actor : ActorId} {registry : DomainRegistry} {record : Record}
    {rest : List Record} :
    Preparable batchId actor registry (record :: rest) ↔
      (record.batchId = batchId ∧ record.actor = actor ∧ (∃ bytes, encodeRecord record registry = .ok bytes) ∧
        record.recordId ∉ rest.map Record.recordId) ∧ Preparable batchId actor registry rest := by
  constructor
  · intro h
    have hids := h.ids
    rw [List.map_cons, List.nodup_cons] at hids
    exact ⟨⟨h.batchId _ List.mem_cons_self, h.actor _ List.mem_cons_self, h.encodes _ List.mem_cons_self, hids.1⟩,
      fun r hr => h.batchId r (List.mem_cons_of_mem _ hr), fun r hr => h.actor r (List.mem_cons_of_mem _ hr),
      fun r hr => h.encodes r (List.mem_cons_of_mem _ hr), hids.2⟩
  · rintro ⟨⟨hbatch, hactor, hencode, hid⟩, h⟩
    exact ⟨List.forall_mem_cons.mpr ⟨hbatch, h.batchId⟩, List.forall_mem_cons.mpr ⟨hactor, h.actor⟩,
      List.forall_mem_cons.mpr ⟨hencode, h.encodes⟩, List.nodup_cons.mpr ⟨hid, h.ids⟩⟩

theorem foldlM_prepareRecord_eq_ok {batchId : BatchId} {actor : ActorId} {registry : DomainRegistry}
    {records : List Record} {prepared prepared' : Prepared} :
    records.foldlM (prepareRecord batchId actor registry) prepared = .ok prepared' ↔
      Preparable batchId actor registry records ∧ (∀ r ∈ records, r.recordId ∉ prepared.1.keys) ∧
        prepared' = (records.foldl (fun ids r => ids.insert r.recordId ()) prepared.1,
          records.foldl (fun m r => m.insert r.canonicalPath (preparedRecord registry r)) prepared.2) := by
  induction records generalizing prepared with
  | nil =>
    rw [List.foldlM_nil, pure_eq_ok]
    constructor
    · rintro rfl
      exact ⟨⟨by simp, by simp, by simp, List.nodup_nil⟩, by simp, rfl⟩
    · exact fun h => h.2.2
  | cons record rest ih =>
    simp only [List.foldlM_cons, except_bind_eq_ok, prepareRecord, guard_bind_eq_ok, not_not, mapError_eq_ok,
      pure_eq_ok, BTreeMap.containsKey_iff, ih, preparable_cons, List.forall_mem_cons, List.foldl_cons]
    constructor
    · rintro ⟨_, ⟨hbatch, hactor, hnew, bytes, hencode, rfl⟩, hrest, hfresh, rfl⟩
      have hprepared : preparedRecord registry record = ⟨record, record.canonicalPath, bytes⟩ := by
        rw [preparedRecord, hencode]
        rfl
      refine ⟨⟨⟨hbatch, hactor, ⟨bytes, hencode⟩, fun hmem => ?_⟩, hrest⟩, ⟨hnew, fun r hr hkey => ?_⟩, ?_⟩
      · obtain ⟨r, hr, hid⟩ := List.mem_map.mp hmem
        exact hfresh r hr (BTreeMap.mem_keys_insert.mpr (.inl hid))
      · exact hfresh r hr (BTreeMap.mem_keys_insert.mpr (.inr hkey))
      · rw [hprepared]
    · rintro ⟨⟨⟨hbatch, hactor, ⟨bytes, hencode⟩, hid⟩, hrest⟩, ⟨hnew, hfresh⟩, rfl⟩
      have hprepared : preparedRecord registry record = ⟨record, record.canonicalPath, bytes⟩ := by
        rw [preparedRecord, hencode]
        rfl
      refine ⟨_, ⟨hbatch, hactor, hnew, bytes, hencode, rfl⟩, hrest, fun r hr hkey => ?_, ?_⟩
      · obtain hid' | hkey := BTreeMap.mem_keys_insert.mp hkey
        · exact hid (hid' ▸ List.mem_map_of_mem hr)
        · exact hfresh r hr hkey
      · rw [hprepared]

/-- The records by path, in the order they are kept. -/
def byCanonicalPath (registry : DomainRegistry) (records : List Record) : BTreeMap String PreparedRecord :=
  .ofList (records.map (fun r => (r.canonicalPath, preparedRecord registry r)))

theorem Preparable.paths {batchId : BatchId} {actor : ActorId} {registry : DomainRegistry} {records : List Record}
    (h : Preparable batchId actor registry records) :
    ((records.map (fun r => (r.canonicalPath, preparedRecord registry r))).map Prod.fst).Nodup := by
  rw [List.map_map]
  have hids := List.Nodup.of_map _ h.ids
  refine (List.nodup_map_iff_inj_on hids).mpr ?_
  intro a ha b hb heq
  exact List.inj_on_of_nodup_map h.ids ha hb (Record.recordId_of_canonicalPath_eq heq)

theorem Preparable.byCanonicalPath_perm {batchId : BatchId} {actor : ActorId} {registry : DomainRegistry}
    {records records' : List Record} (h : Preparable batchId actor registry records) (hp : records.Perm records') :
    byCanonicalPath registry records = byCanonicalPath registry records' := by
  apply BTreeMap.ext_get?
  intro path
  ext r
  rw [byCanonicalPath, byCanonicalPath, BTreeMap.get?_ofList h.paths, BTreeMap.get?_ofList (h.perm hp).paths,
    (hp.map _).mem_iff]

theorem Preparable.values_perm {batchId : BatchId} {actor : ActorId} {registry : DomainRegistry}
    {records : List Record} (h : Preparable batchId actor registry records) :
    ((byCanonicalPath registry records).values.map PreparedRecord.record).Perm records := by
  have hentries := (BTreeMap.entries_ofList_perm h.paths).map (fun e => e.2.record)
  rw [List.map_map] at hentries
  rw [byCanonicalPath, BTreeMap.values, List.map_map]
  simpa [Function.comp_def, preparedRecord] using hentries

variable [Blake3]

/-- The second half of `prepare_batch`: the manifest of the sorted records. -/
def sealBatch (batchId : BatchId) (actor : ActorId) (key : String) (records : List PreparedRecord) :
    Except BatchError PreparedBatch := do
  let manifest : BatchManifest :=
    { batchId
      actor
      members := records.map PreparedRecord.ref
      idempotencyKeyDigest := idempotencyDigest actor key
      requestDigest := framedHash REQUEST_DIGEST_DOMAIN (records.map (fun r => (asBytes r.path, r.bytes))) }
  let bytes ← encodeManifest manifest
  return ⟨manifest, manifest.canonicalPath, bytes, records⟩

theorem records_of_sealBatch {batchId : BatchId} {actor : ActorId} {key : String} {records : List PreparedRecord}
    {prepared : PreparedBatch} (h : sealBatch batchId actor key records = .ok prepared) :
    prepared.records = records := by
  simp only [sealBatch, except_bind_eq_ok, pure_eq_ok] at h
  obtain ⟨bytes, -, rfl⟩ := h
  rfl

theorem prepareBatch_eq_ok {records : List Record} {key : String} {registry : DomainRegistry}
    {prepared : PreparedBatch} :
    prepareBatch records key registry = .ok prepared ↔
      ∃ first ∈ records, Preparable first.batchId first.actor registry records ∧
        sealBatch first.batchId first.actor key (byCanonicalPath registry records).values = .ok prepared := by
  cases records with
  | nil => simp [prepareBatch, throw_eq_ok]
  | cons first rest =>
    have hmap : (first :: rest).foldl (fun m r => m.insert r.canonicalPath (preparedRecord registry r)) ∅ =
        byCanonicalPath registry (first :: rest) := by
      rw [byCanonicalPath, BTreeMap.ofList, List.foldl_map]
      rfl
    have hfresh : ∀ r ∈ first :: rest, r.recordId ∉ (∅ : BTreeSet RecordId).keys := fun _ _ => List.not_mem_nil
    have hseal : prepareBatch (first :: rest) key registry =
        ((first :: rest).foldlM (prepareRecord first.batchId first.actor registry) (∅, ∅) >>= fun prepared =>
          sealBatch first.batchId first.actor key prepared.2.values) := rfl
    simp only [hseal, except_bind_eq_ok, foldlM_prepareRecord_eq_ok, hmap]
    constructor
    · rintro ⟨_, ⟨hprep, -, rfl⟩, hsealed⟩
      exact ⟨first, List.mem_cons_self, hprep, hsealed⟩
    · rintro ⟨other, hmem, hprep, hsealed⟩
      have hbatch := hprep.batchId first List.mem_cons_self
      have hactor := hprep.actor first List.mem_cons_self
      rw [← hbatch, ← hactor] at hprep hsealed
      exact ⟨_, ⟨hprep, hfresh, rfl⟩, hsealed⟩

theorem prepareBatch_perm {records records' : List Record} {key : String} {registry : DomainRegistry}
    {prepared : PreparedBatch} (h : prepareBatch records key registry = .ok prepared) (hp : records.Perm records') :
    prepareBatch records' key registry = .ok prepared := by
  rw [prepareBatch_eq_ok] at h ⊢
  obtain ⟨first, hmem, hprep, hsealed⟩ := h
  refine ⟨first, hp.mem_iff.mp hmem, hprep.perm hp, ?_⟩
  rwa [← hprep.byCanonicalPath_perm hp]

theorem prepareBatch_records {records : List Record} {key : String} {registry : DomainRegistry}
    {prepared : PreparedBatch} (h : prepareBatch records key registry = .ok prepared) :
    (prepared.records.map PreparedRecord.record).Perm records := by
  obtain ⟨first, -, hprep, hsealed⟩ := prepareBatch_eq_ok.mp h
  rw [records_of_sealBatch hsealed]
  exact hprep.values_perm

theorem prepareBatch_readable {records : List Record} {key : String} {registry : DomainRegistry}
    {prepared : PreparedBatch} (hregistry : registry.Constructed)
    (hdepth : ∀ r ∈ records, r.payload.depth < Json.MAX_NESTING)
    (h : prepareBatch records key registry = .ok prepared) : prepared.Readable registry := by
  have hsealed := prepareBatch_sealed h
  refine ⟨hsealed, ?_, ?_⟩
  · intro r hr
    have hmem := (prepareBatch_records h).mem_iff.mp (List.mem_map_of_mem hr)
    exact (decode_encode_iff (hsealed.encodes r hr)).mpr (hdepth _ hmem)
  · intro r hr
    exact hregistry.schemaOfDomain (encodeRecord_eq_ok.mp (hsealed.encodes r hr)).1

end

section

attribute [local instance] Sample.jiff Sample.blake3

end

end Wayjournal
