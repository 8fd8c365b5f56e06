import Wayjournal.Batch.PreparedLaws
import Wayjournal.RevisionLaws
import Wayjournal.Store.ScanLaws
import Wayjournal.Store.Transaction

namespace Wayjournal

open Collections Text

section

theorem validateGlobalIdempotency_singleton (manifest : BatchManifest) :
    validateGlobalIdempotency [manifest] = .ok () := by
  simp [validateGlobalIdempotency, BTreeMap.values, BTreeMap.update, BTreeMap.insert]
  rfl

variable [Jiff]

theorem validateBuiltinFolds_singleton {record : Record} (h : record.isFolded = false) :
    validateBuiltinFolds [record] = .ok () := by
  have hgroup : groupRecord ∅ record = .ok ∅ := by
    rw [groupRecord, h]
    rfl
  unfold validateBuiltinFolds
  rw [List.foldlM_cons, hgroup]
  rfl

variable [Blake3]

def PreparedRecord.file (r : PreparedRecord) : RawFile := ⟨asBytes r.path, r.bytes⟩

def PreparedBatch.manifestFile (prepared : PreparedBatch) : RawFile :=
  ⟨asBytes prepared.manifestPath, prepared.manifestBytes⟩

namespace PreparedBatch.Readable

variable {prepared : PreparedBatch} {registry : DomainRegistry}

theorem decode_record (h : prepared.Readable registry) {r : PreparedRecord} (hr : r ∈ prepared.records) :
    decodeVisibleFile r.file registry = .ok (.record r.record) := by
  have hpath : asBytes r.record.canonicalPath = asBytes r.path := by rw [h.wellFormed.path_eq r hr]
  have hclass : classifyPath (asBytes r.path) = .journalRecord := by
    rw [← hpath, Record.classifyPath_canonicalPath]
  simp only [decodeVisibleFile, PreparedRecord.file, hclass]
  refine except_bind_eq_ok.mpr ⟨_, mapError_eq_ok.mpr (h.decodes r hr), ?_⟩
  exact guard_bind_eq_ok.mpr ⟨not_not.mpr hpath, rfl⟩

theorem decode_manifest (h : prepared.Readable registry) :
    decodeVisibleFile prepared.manifestFile registry = .ok (.manifest prepared.manifest) := by
  have hpath : asBytes prepared.manifest.canonicalPath = asBytes prepared.manifestPath := by
    rw [h.wellFormed.manifestPath_eq]
  have hclass : classifyPath (asBytes prepared.manifestPath) = .journalBatch := by
    rw [← hpath, BatchManifest.classifyPath_canonicalPath]
  simp only [decodeVisibleFile, PreparedBatch.manifestFile, hclass]
  refine except_bind_eq_ok.mpr ⟨_, mapError_eq_ok.mpr h.decodeBatchManifest_ok, ?_⟩
  exact guard_bind_eq_ok.mpr ⟨not_not.mpr hpath, rfl⟩

end PreparedBatch.Readable

/-- The files of a batch of one record, in either order. -/
structure SingleBatch (store : Store) (prepared : PreparedBatch) (r : PreparedRecord) (files : List RawFile) :
    Prop where
  readable : prepared.Readable store.registry
  records : prepared.records = [r]
  files : files = [prepared.manifestFile, r.file] ∨ files = [r.file, prepared.manifestFile]

namespace SingleBatch

variable {store : Store} {prepared : PreparedBatch} {r : PreparedRecord} {files : List RawFile}

theorem mem_records (h : SingleBatch store prepared r files) : r ∈ prepared.records := by
  rw [h.records]
  exact List.mem_cons_self

theorem decodes (h : SingleBatch store prepared r files) : ∀ f ∈ files, Decodes store.registry f := by
  have hmanifest : Decodes store.registry prepared.manifestFile := ⟨_, h.readable.decode_manifest⟩
  have hrecord : Decodes store.registry r.file := ⟨_, h.readable.decode_record h.mem_records⟩
  obtain hfiles | hfiles := h.files
  all_goals
    rw [hfiles]
    simp only [List.mem_cons, List.not_mem_nil, or_false, forall_eq_or_imp, forall_eq]
  · exact ⟨hmanifest, hrecord⟩
  · exact ⟨hrecord, hmanifest⟩

theorem manifestsOf_eq (h : SingleBatch store prepared r files) :
    manifestsOf store.registry files = [prepared.manifest] := by
  have hmanifest : manifestOf store.registry prepared.manifestFile = some prepared.manifest := by
    rw [manifestOf, h.readable.decode_manifest]
  have hrecord : manifestOf store.registry r.file = none := by
    rw [manifestOf, h.readable.decode_record h.mem_records]
  obtain hfiles | hfiles := h.files <;> simp [manifestsOf, hfiles, hmanifest, hrecord]

theorem recordOf_files (h : SingleBatch store prepared r files) :
    files.filterMap (recordOf store.registry) = [(asBytes r.path, r.record, r.bytes)] := by
  have hmanifest : recordOf store.registry prepared.manifestFile = none := by
    rw [recordOf, h.readable.decode_manifest]
  have hrecord : recordOf store.registry r.file = some (asBytes r.path, r.record, r.bytes) := by
    rw [recordOf, h.readable.decode_record h.mem_records]
    rfl
  obtain hfiles | hfiles := h.files <;> simp [hfiles, hmanifest, hrecord]

theorem legacyOf_files (h : SingleBatch store prepared r files) :
    files.filterMap (legacyOf store.registry) = [] := by
  have hmanifest : legacyOf store.registry prepared.manifestFile = none := by
    rw [legacyOf, h.readable.decode_manifest]
  have hrecord : legacyOf store.registry r.file = none := by
    rw [legacyOf, h.readable.decode_record h.mem_records]
  obtain hfiles | hfiles := h.files <;> simp [hfiles, hmanifest, hrecord]

theorem storedOf_eq (h : SingleBatch store prepared r files) : storedOf store.registry files = [r.stored] := by
  rw [storedOf, recordsByPathOf, h.recordOf_files]
  rfl

theorem recordsOf_eq (h : SingleBatch store prepared r files) : recordsOf store.registry files = [r.record] := by
  rw [recordsOf, recordsByPathOf, h.recordOf_files]
  rfl

theorem idsOf_le (h : SingleBatch store prepared r files) :
    ∀ e ∈ (idsOf store.registry files).entries, e.2.length ≤ 1 := by
  rw [idsOf, h.recordOf_files]
  rintro e he
  obtain rfl := List.mem_singleton.mp he
  exact Nat.le_refl 1

theorem members_eq (h : SingleBatch store prepared r files) : prepared.manifest.members = [r.ref] := by
  rw [h.readable.members, h.records]
  rfl

theorem validateBatchMembers_ok (h : SingleBatch store prepared r files) :
    validateBatchMembers prepared.manifest [r.stored] store.registry = .ok [r.record] := by
  have hvalid := h.readable.validateBatchMembers_ok
  rw [h.records] at hvalid
  exact hvalid

theorem ownership (h : SingleBatch store prepared r files) :
    validateBatchOwnership [r.stored] [prepared.manifest] store.registry = .ok () := by
  have hcheck : checkStoredRecord store.registry ∅ r.stored =
      .ok ((∅ : BTreeSet Bytes).insert (asBytes r.path) ()) := by
    unfold checkStoredRecord
    refine guard_bind_eq_ok.mpr ⟨Bool.false_ne_true, except_bind_eq_ok.mpr
      ⟨r.record, mapError_eq_ok.mpr (h.readable.decodes r h.mem_records), rfl⟩⟩
  have hget : (BTreeMap.ofList [(asBytes r.path, r.bytes)]).get? (asBytes r.path) = some r.bytes := by
    simp [BTreeMap.ofList]
  have hown : ownManifest (BTreeMap.ofList [(asBytes r.path, r.bytes)]) store.registry ∅ prepared.manifest =
      .ok ((∅ : Ownership).update (asBytes r.path) 0 (· + 1)) := by
    rw [ownManifest, h.members_eq]
    refine except_bind_eq_ok.mpr ⟨[r.stored], ?_, except_bind_eq_ok.mpr ⟨_, h.validateBatchMembers_ok, rfl⟩⟩
    have href : asBytes r.ref.path = asBytes r.path := rfl
    simp only [List.mapM_cons, List.mapM_nil, href, hget]
    rfl
  have hpaths : ((∅ : BTreeSet Bytes).insert (asBytes r.path) ()).keys = [asBytes r.path] := rfl
  have howned : ((∅ : Ownership).update (asBytes r.path) 0 (· + 1)).keys = [asBytes r.path] := rfl
  have hcount : ((∅ : Ownership).update (asBytes r.path) 0 (· + 1)).get? (asBytes r.path) = some 1 := by simp
  have hcontains : ((∅ : BTreeSet Bytes).insert (asBytes r.path) ()).containsKey (asBytes r.path) = true := by
    simp [BTreeMap.containsKey]
  unfold validateBatchOwnership
  refine except_bind_eq_ok.mpr ⟨(∅ : BTreeSet Bytes).insert (asBytes r.path) (), ?_, except_bind_eq_ok.mpr
    ⟨(∅ : Ownership).update (asBytes r.path) 0 (· + 1), ?_, ?_⟩⟩
  · rw [List.foldlM_cons, hcheck]
    rfl
  · rw [List.foldlM_cons]
    exact except_bind_eq_ok.mpr ⟨_, hown, rfl⟩
  · rw [hpaths, howned]
    simp only [List.forIn_cons, List.forIn_nil, hcount, Option.getD_some, List.find?_cons, hcontains, Bool.not_true,
      List.find?_nil]
    rfl

/-- The only record of the store is its genesis. -/
theorem validateStoreIdentity_eq (h : SingleBatch store prepared r files) (hgenesis : r.record.isGenesis = true) :
    validateStoreIdentity [prepared.manifest] [r.stored] store.registry =
      identityOfGenesis (asBytes r.path) r.bytes r.record := by
  have hget : (BTreeMap.ofList [(asBytes r.path, r.bytes)]).get? (asBytes r.path) = some r.bytes := by
    simp [BTreeMap.ofList]
  have hcheck : checkManifestMembers (BTreeMap.ofList [(asBytes r.path, r.bytes)]) store.registry ∅
      prepared.manifest = .ok ((∅ : BTreeSet BatchId).insert prepared.manifest.batchId ()) := by
    rw [checkManifestMembers, h.members_eq]
    refine guard_bind_eq_ok.mpr ⟨Bool.false_ne_true, except_bind_eq_ok.mpr ⟨[r.stored], ?_, ?_⟩⟩
    · have href : asBytes r.ref.path = asBytes r.path := rfl
      simp only [List.mapM_cons, List.mapM_nil, href, hget]
      rfl
    · exact except_bind_eq_ok.mpr ⟨_, mapError_eq_ok.mpr h.validateBatchMembers_ok, rfl⟩
  have hdecode : decodeIdentityMember store.registry r.stored = .ok (r.stored, r.record) := by
    unfold decodeIdentityMember
    refine except_bind_eq_ok.mpr ⟨r.record, mapError_eq_ok.mpr (h.readable.decodes r h.mem_records), ?_⟩
    refine guard_bind_eq_ok.mpr ⟨not_not.mpr ?_, rfl⟩
    rw [← h.readable.wellFormed.path_eq r h.mem_records]
    rfl
  have hsupported : r.record.unsupportedIdentity = false := by
    rw [Record.isGenesis, Bool.and_eq_true, Bool.and_eq_true, decide_eq_true_eq] at hgenesis
    rw [Record.unsupportedIdentity, hgenesis.1.2]
    simp
  have hbatch : r.record.batchId = prepared.manifest.batchId := h.readable.batchId r h.mem_records
  have hpaths : BTreeSet.ofKeys ([prepared.manifest].flatMap
      (fun m => m.members.map (fun r => asBytes r.path))) = BTreeSet.ofKeys [asBytes r.path] := by
    rw [List.flatMap_singleton, h.members_eq]
    rfl
  have hids : prepared.manifest.members.map RecordRef.recordId = [r.record.recordId] := by
    rw [h.members_eq]
    rfl
  have hkeys : (BTreeSet.ofKeys [asBytes r.path]).keys =
      (BTreeMap.ofList [(asBytes r.path, r.bytes)]).keys := rfl
  have hlength : (BTreeMap.ofList [(asBytes r.path, r.bytes)]).entries.length = 1 := rfl
  have hmembers : [r.stored].map (fun m => (m.path, m.bytes)) = [(asBytes r.path, r.bytes)] := rfl
  have hfold : [prepared.manifest].foldlM
      (checkManifestMembers (BTreeMap.ofList [(asBytes r.path, r.bytes)]) store.registry) ∅ =
        .ok ((∅ : BTreeSet BatchId).insert prepared.manifest.batchId ()) := by
    rw [List.foldlM_cons, hcheck]
    rfl
  have hdecoded : [r.stored].mapM (decodeIdentityMember store.registry) = .ok [(r.stored, r.record)] := by
    rw [List.mapM_cons, hdecode]
    rfl
  have hfilter : [(r.stored, r.record)].filter (fun d => d.2.isGenesis) = [(r.stored, r.record)] := by
    simp only [List.filter_cons, hgenesis, if_true, List.filter_nil]
  have hany : [(r.stored, r.record)].any (fun d => d.2.unsupportedIdentity) = false := by
    rw [List.any_cons, hsupported]
    rfl
  unfold validateStoreIdentity
  simp only [hmembers, List.insertionSort_cons, List.insertionSort_nil, List.orderedInsert_nil, hfold, hpaths, hkeys,
    hlength, hdecoded, List.length_singleton, ne_eq, not_true_eq_false, if_false, List.isEmpty_cons,
    Bool.and_false, Bool.false_eq_true]
  change (if ([(r.stored, r.record)].any fun d => d.2.unsupportedIdentity) = true then _ else _) = _
  rw [hany, if_neg Bool.false_ne_true, hfilter]
  simp only [List.head?_cons, hbatch, hids, not_true_eq_false, if_false]
  rfl

theorem classifyPath_record (h : SingleBatch store prepared r files) :
    classifyPath (asBytes r.path) = .journalRecord := by
  rw [h.readable.wellFormed.path_eq r h.mem_records, Record.classifyPath_canonicalPath]

theorem classifyPath_manifest (h : SingleBatch store prepared r files) :
    classifyPath (asBytes prepared.manifestPath) = .journalBatch := by
  rw [h.readable.wellFormed.manifestPath_eq, BatchManifest.classifyPath_canonicalPath]

theorem nodup_paths (h : SingleBatch store prepared r files) : (files.map RawFile.path).Nodup := by
  have hne : asBytes r.path ≠ asBytes prepared.manifestPath := by
    intro heq
    have hrecord := h.classifyPath_record
    rw [heq, h.classifyPath_manifest] at hrecord
    cases hrecord
  obtain hfiles | hfiles := h.files
  · rw [hfiles]
    simpa [PreparedRecord.file, PreparedBatch.manifestFile] using hne.symm
  · rw [hfiles]
    simpa [PreparedRecord.file, PreparedBatch.manifestFile] using hne

theorem revision_ok (h : SingleBatch store prepared r files) :
    ∃ revision, computeStoreRevision (files.map (fun f => ⟨f.path, f.bytes, true⟩)) = .ok revision := by
  have hcanonical : ∀ f ∈ files, (classifyPath f.path).isCanonical = true := by
    obtain hfiles | hfiles := h.files
    all_goals
      rw [hfiles]
      simp only [List.mem_cons, List.not_mem_nil, or_false, forall_eq_or_imp, forall_eq, PreparedRecord.file,
        PreparedBatch.manifestFile, h.classifyPath_record, h.classifyPath_manifest]
      exact ⟨rfl, rfl⟩
  refine computeStoreRevision_ok ?_ ?_ ?_
  · rw [List.map_map]
    exact h.nodup_paths
  · rintro e he
    obtain ⟨f, hf, rfl⟩ := List.mem_map.mp he
    exact hcanonical f hf
  · rintro e he
    obtain ⟨f, -, rfl⟩ := List.mem_map.mp he
    rfl

theorem scans {identity : Option StoreIdentity} (h : SingleBatch store prepared r files)
    (hidentity : identityOf store files = .ok identity)
    (hreserved : (!store.strictDomains && r.record.isReservedBuiltin) = false)
    (hlegacy : validateLegacy store [] = .ok ()) :
    ∃ revision, Scans store files ⟨revision, [prepared.manifest], [r.record], identity, []⟩ := by
  obtain ⟨revision, hrevision⟩ := h.revision_ok
  refine ⟨revision, h.decodes, h.idsOf_le, ?_, ?_, ?_, hidentity, ?_, hrevision, ?_, ?_, ?_⟩
  · rw [h.manifestsOf_eq, validateGlobalIdempotency_singleton]
  · rw [h.storedOf_eq, h.manifestsOf_eq, h.ownership]
  · rw [h.recordsOf_eq, List.any_cons, List.any_nil, Bool.or_false, hreserved]
  · rw [h.legacyOf_files, hlegacy]
  · rw [h.manifestsOf_eq]
  · rw [h.recordsOf_eq]
  · rw [h.legacyOf_files]

/-- A strict store whose only batch is its genesis. -/
theorem scans_genesis {identity : Option StoreIdentity} (h : SingleBatch store prepared r files)
    (hstrict : store.strictDomains = true) (hgenesis : r.record.isGenesis = true)
    (hidentity : identityOfGenesis (asBytes r.path) r.bytes r.record = .ok identity)
    (hlegacy : validateLegacy store [] = .ok ()) :
    ∃ revision, Scans store files ⟨revision, [prepared.manifest], [r.record], identity, []⟩ := by
  refine h.scans ?_ (by rw [hstrict]; rfl) hlegacy
  have hfolded : r.record.isFolded = false := by
    rw [Record.isGenesis, Bool.and_eq_true, Bool.and_eq_true, Record.inIdentityDomain, decide_eq_true_eq] at hgenesis
    rw [Record.isFolded, hgenesis.1.1]
    decide
  rw [identityOf, hstrict, if_pos rfl, h.manifestsOf_eq, h.storedOf_eq, h.recordsOf_eq,
    h.validateStoreIdentity_eq hgenesis, hidentity]
  exact except_bind_eq_ok.mpr ⟨_, rfl, except_bind_eq_ok.mpr ⟨(), validateBuiltinFolds_singleton hfolded, rfl⟩⟩

end SingleBatch

end

end Wayjournal
