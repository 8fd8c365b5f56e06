import Wayjournal.Store.Extension
import Wayjournal.Store.JournalLaws
import Wayjournal.Store.ScanLaws

namespace Wayjournal

open Collections Fs Text

theorem foldlM_addFile {files files' base : List RawFile} (h : files.foldlM addFile base = .ok files')
    (hbase : (base.map RawFile.path).Nodup) :
    files' = base ++ files ∧ ((base ++ files).map RawFile.path).Nodup := by
  induction files generalizing base with
  | nil =>
    cases h
    simpa using hbase
  | cons file r ih =>
    rw [List.foldlM_cons, except_bind_eq_ok] at h
    obtain ⟨_, hadd, h⟩ := h
    obtain ⟨hnew, hadd⟩ := guard_eq_ok.mp hadd
    cases hadd
    have hnodup : ((base ++ [file]).map RawFile.path).Nodup := by
      rw [List.map_append, List.nodup_append]
      refine ⟨hbase, List.nodup_singleton _, ?_⟩
      rintro a ha b hb rfl
      obtain ⟨f, hf, hpath⟩ := List.mem_map.mp ha
      obtain rfl := List.mem_singleton.mp hb
      exact hnew (List.any_eq_true.mpr ⟨f, hf, decide_eq_true hpath⟩)
    obtain ⟨rfl, hall⟩ := ih h hnodup
    rw [List.append_assoc] at hall ⊢
    exact ⟨rfl, hall⟩

section Keys

theorem isReached_of {p : List Name} {a : Name} {t : List Name} (hp : p = a :: t) (ha : a ∈ canonicalRoots)
    (ht : t ≠ [])
    (h : ∀ n, 2 ≤ n → n < p.length → validCanonicalDirectory (relative (p.take n)) = true) :
    isReached p = true := by
  simp only [isReached, Bool.and_eq_true, decide_eq_true_eq, List.all_eq_true, List.mem_inits,
    Bool.or_eq_true]
  have htail := List.length_pos_iff.mpr ht
  refine ⟨⟨by rw [hp, List.length_cons]; omega, ?_⟩, ?_⟩
  · rw [hp]
    simpa [canonicalRoots] using ha
  · intro q hq
    have hlength := hq.length_le
    by_cases hshort : q.length < 2
    · exact .inl (.inl hshort)
    · by_cases hfull : q.length = p.length
      · exact .inl (.inr hfull)
      · right
        rw [List.prefix_iff_eq_take.mp hq]
        exact h _ (by omega) (by omega)

theorem isReached_manifestKey (manifest : BatchManifest) : isReached manifest.key = true := by
  refine isReached_of rfl (by decide) (by simp) ?_
  intro n hmin hmax
  obtain rfl : n = 2 := by
    change n < 3 at hmax
    omega
  exact validCanonicalDirectory_batches

theorem isReached_recordKey [Jiff] (record : Record) : isReached record.key = true := by
  refine isReached_of rfl (by decide) (by simp) ?_
  intro n hmin hmax
  change n < 5 at hmax
  obtain rfl | rfl | rfl : n = 2 ∨ n = 3 ∨ n = 4 := by omega
  · exact validCanonicalDirectory_records
  · exact validCanonicalDirectory_domain record.domain
  · exact validCanonicalDirectory_entity record.domain record.entityId

theorem not_validCanonicalDirectory_recordKey [Jiff] (record : Record) :
    validCanonicalDirectory (relative record.key) = false := by
  rw [record.relative_key, validCanonicalDirectory, fromUtf8_asBytes]
  simp only [record.splitPath_canonicalPath, Record.parts]

theorem not_validCanonicalDirectory_manifestKey (manifest : BatchManifest) :
    validCanonicalDirectory (relative manifest.key) = false := by
  obtain ⟨path, hpath, hsplit⟩ := validCanonicalDirectory_parts manifest.key
    ["journal", "batches", manifest.batchId.display ++ ".json"] rfl
    (by
      simp only [List.mem_cons, List.not_mem_nil, or_false, forall_eq_or_imp, forall_eq]
      exact ⟨by decide, by decide, slash_notMem_uuidJson _⟩) (by simp)
  rw [validCanonicalDirectory, hpath]
  simp [hsplit]

end Keys

/-- No canonical file has the path of a canonical directory. -/
theorem isCanonical_of_directory {path : Bytes} (h : validCanonicalDirectory path = true) :
    (classifyPath path).isCanonical = false := by
  rw [validCanonicalDirectory] at h
  rw [classifyPath]
  cases htext : fromUtf8 path with
  | none =>
    rw [htext] at h
    cases h
  | some text =>
    rw [htext] at h
    simp only at h ⊢
    have hvalid : validLegacyEvent text = false ∧ validLegacyBatch text = false ∧
        validateJournalRecordPath text = false ∧ validJournalBatch text = false := by
      rw [validLegacyEvent, validLegacyBatch, validateJournalRecordPath, validJournalBatch]
      split at h
      · rename_i root name hsplit
        simp only [hsplit, true_and, and_true]
        simp only [Bool.or_eq_true, Bool.and_eq_true, decide_eq_true_eq] at h
        obtain ⟨rfl, -⟩ | ⟨rfl, -⟩ := h
        · rfl
        · rfl
      · rename_i root records domain hsplit
        simp only [Bool.and_eq_true, decide_eq_true_eq] at h
        obtain ⟨⟨rfl, rfl⟩, -⟩ := h
        simp only [hsplit, true_and]
        exact ⟨rfl, rfl⟩
      · rename_i root records domain entity hsplit
        simp only [hsplit, and_self]
      · cases h
    simp only [hvalid, Bool.false_eq_true, if_false]
    repeat' split
    all_goals rfl

theorem not_decodes_of_isCanonical [Jiff] {registry : DomainRegistry} {file : RawFile}
    (h : (classifyPath file.path).isCanonical = false) : ¬ Decodes registry file := by
  rintro ⟨decoded, hdecoded⟩
  unfold decodeVisibleFile at hdecoded
  cases hclass : classifyPath file.path with
  | invalidReserved =>
    simp only [hclass] at hdecoded
    cases hdecoded
  | nonCanonical =>
    simp only [hclass] at hdecoded
    cases hdecoded
  | _ =>
    rw [hclass] at h
    cases h

/-- No entry stands where a file is new. -/
theorem get?_eq_none_of_new {s : Disk} {p : List Name} (hreached : isReached p = true)
    (hleaf : validCanonicalDirectory (relative p) = false)
    (hnonregular : (inventoryOf (visibleEntries s)).nonregular = [])
    (hnew : relative p ∉ ((visibleEntries s).filterMap fileOf).map RawFile.path) :
    (s .canonical).get? p = none := by
  cases hget : (s .canonical).get? p with
  | none => rfl
  | some e =>
    have hmem : (p, e) ∈ visibleEntries s := mem_visibleEntries.mpr ⟨hget, hreached⟩
    have hfile : ∀ file, fileOf (p, e) = some file → False := by
      intro file hfile
      refine hnew (List.mem_map.mpr ⟨file, List.mem_filterMap.mpr ⟨_, hmem, hfile⟩, ?_⟩)
      exact path_of_fileOf hfile
    cases e with
    | directory =>
      refine (hfile ⟨relative p, []⟩ ?_).elim
      rw [fileOf, hleaf]
      rfl
    | regular bytes => exact (hfile ⟨relative p, bytes⟩ rfl).elim
    | other =>
      have hother : relative p ∈ (inventoryOf (visibleEntries s)).nonregular :=
        (List.perm_insertionSort _ _).mem_iff.mpr (List.mem_filterMap.mpr ⟨_, hmem, rfl⟩)
      rw [hnonregular] at hother
      cases hother

theorem nodup_inventory (s : Disk) : ((inventoryOf (visibleEntries s)).files.map RawFile.path).Nodup :=
  ((sortFiles_perm _).map _).nodup_iff.mpr (nodup_files (nodup_visible s))

section

variable [Jiff]

/-- The files of a batch, by components. -/
def PreparedBatch.targets (prepared : PreparedBatch) : Additions :=
  prepared.records.map (fun r => (r.record.key, r.bytes)) ++
    [(prepared.manifest.key, prepared.manifestBytes)]

namespace PreparedBatch.WellFormed

variable {prepared : PreparedBatch}

theorem raw_targets (h : prepared.WellFormed) : prepared.targets.raw = prepared.files := by
  rw [Additions.raw, targets, files, List.map_append, List.map_map]
  congr 1
  · refine List.map_congr_left fun r hr => ?_
    simp only [Function.comp_def, Record.relative_key, h.path_eq r hr]
  · simp only [List.map_cons, List.map_nil, BatchManifest.relative_key, h.manifestPath_eq]

theorem mem_targets {f : List Name × Bytes} : f ∈ prepared.targets ↔
    (∃ r ∈ prepared.records, f = (r.record.key, r.bytes)) ∨
      f = (prepared.manifest.key, prepared.manifestBytes) := by
  simp only [targets, List.mem_append, List.mem_map, List.mem_singleton, eq_comm]

end PreparedBatch.WellFormed

/-- A file at the path of a record holds that record. -/
theorem decodes_record {registry : DomainRegistry} {record : Record} {bytes : Bytes}
    (h : Decodes registry ⟨asBytes record.canonicalPath, bytes⟩) :
    ∃ stored, decodeRecord bytes registry = .ok stored ∧ stored.canonicalPath = record.canonicalPath ∧
        decodeVisibleFile ⟨asBytes record.canonicalPath, bytes⟩ registry = .ok (.record stored) := by
  obtain ⟨decoded, hdecoded⟩ := h
  have heq := hdecoded
  simp only [decodeVisibleFile, record.classifyPath_canonicalPath, except_bind_eq_ok, mapError_eq_ok,
    guard_bind_eq_ok, pure_eq_ok, not_not] at heq
  obtain ⟨stored, hstored, hpath, rfl⟩ := heq
  exact ⟨stored, hstored, asBytes_injective hpath, hdecoded⟩

theorem decodes_manifest {registry : DomainRegistry} {manifest : BatchManifest} {bytes : Bytes}
    (h : Decodes registry ⟨asBytes manifest.canonicalPath, bytes⟩) :
    ∃ stored, decodeBatchManifest bytes = .ok stored ∧
        decodeVisibleFile ⟨asBytes manifest.canonicalPath, bytes⟩ registry = .ok (.manifest stored) := by
  obtain ⟨decoded, hdecoded⟩ := h
  have heq := hdecoded
  simp only [decodeVisibleFile, manifest.classifyPath_canonicalPath, except_bind_eq_ok, mapError_eq_ok,
    guard_bind_eq_ok, pure_eq_ok, not_not] at heq
  obtain ⟨stored, hstored, -, rfl⟩ := heq
  exact ⟨stored, hstored, hdecoded⟩

theorem PreparedBatch.WellFormed.nodup_files {prepared : PreparedBatch} (h : prepared.WellFormed) :
    (prepared.files.map RawFile.path).Nodup := by
  have hrecords : (prepared.records.map (fun r => asBytes r.path)).Nodup := by
    have hpaths : (prepared.records.map PreparedRecord.path).Nodup := h.sorted.imp ne_of_lt
    have hmap := hpaths.map asBytes_injective
    rwa [List.map_map] at hmap
  rw [PreparedBatch.files, List.map_append, List.map_map, List.map_singleton]
  refine hrecords.append (List.nodup_singleton _) fun k hk hmanifest => ?_
  obtain ⟨r, hr, rfl⟩ := List.mem_map.mp hk
  have hclass := congrArg classifyPath (List.mem_singleton.mp hmanifest)
  rw [h.path_eq r hr, h.manifestPath_eq, Record.classifyPath_canonicalPath,
    BatchManifest.classifyPath_canonicalPath] at hclass
  cases hclass

theorem addable_targets {prepared : PreparedBatch} (h : prepared.WellFormed)
    (hnodup : (prepared.files.map RawFile.path).Nodup) : Addable prepared.targets := by
  constructor
  · have hmap : prepared.files.map RawFile.path = (prepared.targets.map Prod.fst).map relative := by
      rw [← h.raw_targets, Additions.raw, List.map_map, List.map_map]
      rfl
    rw [hmap] at hnodup
    exact hnodup.of_map
  · intro f hf
    obtain ⟨r, -, rfl⟩ | rfl := PreparedBatch.WellFormed.mem_targets.mp hf
    · exact isReached_recordKey r.record
    · exact isReached_manifestKey prepared.manifest
  · intro f hf
    obtain ⟨r, -, rfl⟩ | rfl := PreparedBatch.WellFormed.mem_targets.mp hf
    · exact not_validCanonicalDirectory_recordKey r.record
    · exact not_validCanonicalDirectory_manifestKey prepared.manifest
  · intro f hf
    obtain ⟨r, hr, rfl⟩ | rfl := PreparedBatch.WellFormed.mem_targets.mp hf
    · rintro bytes ⟨⟩
      rw [Record.relative_key, Record.classifyPath_canonicalPath]
      exact h.size r hr
    · rintro bytes ⟨⟩
      rw [BatchManifest.relative_key, BatchManifest.classifyPath_canonicalPath]
      exact (encodeManifest_eq_ok.mp h.encoded).2

variable [Blake3]

/-- A batch that the preview would publish on the store as it is. -/
structure Previewed (store : Store) (prepared : PreparedBatch) (base : StoreRevisionRef) (s : Disk) :
    Prop where
  wellFormed : prepared.WellFormed
  publishable : Publishable s prepared.targets
  nonregular : (inventoryOf (visibleEntries s)).nonregular = []
  scansBase : ∃ snapshot, snapshot.revision = base ∧
    Scans store (inventoryOf (visibleEntries s)).files snapshot
  scansCandidate : ∃ snapshot,
    Scans store (sortFiles ((inventoryOf (visibleEntries s)).files ++ prepared.files)) snapshot

theorem scanFiles_eq_ok {store : Store} {files : List RawFile} {nonregular : List Bytes}
    {snapshot : StoreSnapshot} :
    scanFiles store files nonregular = .ok snapshot ↔ nonregular = [] ∧ Scans store files snapshot := by
  rw [scanFiles, mapError_eq_ok, scanCollected_eq_ok]

theorem scanVisible_eq_ok {store : Store} {s : Disk} {snapshot : StoreSnapshot} :
    scanVisible store s = .ok snapshot ↔
      WithinLimits (visibleEntries s) ∧ (inventoryOf (visibleEntries s)).nonregular = [] ∧
        Scans store (inventoryOf (visibleEntries s)).files snapshot := by
  simp only [scanVisible, except_bind_eq_ok, visibleInventory_eq_ok, scanFiles_eq_ok]
  constructor
  · rintro ⟨_, ⟨hwithin, rfl⟩, hscan⟩
    exact ⟨hwithin, hscan⟩
  · rintro ⟨hwithin, hscan⟩
    exact ⟨_, ⟨hwithin, rfl⟩, hscan⟩

/-- What a preview that predicts a publication has checked. -/
theorem candidate_of_publish {store : Store} {prepared : PreparedBatch} {base revision : StoreRevisionRef}
    {s : Disk} {snapshot : StoreSnapshot}
    (hpreview : previewFromSnapshot store snapshot prepared base s = .ok (.publish revision)) :
    snapshot.revision = base ∧ ∃ candidate files, candidate.revision = revision ∧
      enforceLimits (((inventoryOf (visibleEntries s)).files ++ prepared.files).map (fun f => (f.path, f.bytes.length)))
        (inventoryOf (visibleEntries s)).nonregular (inventoryOf (visibleEntries s)).inventory = .ok () ∧
      prepared.files.foldlM addFile (inventoryOf (visibleEntries s)).files = .ok files ∧
      Scans store (sortFiles files) candidate := by
  simp only [previewFromSnapshot, guard_bind_eq_ok, except_bind_eq_ok] at hpreview
  obtain ⟨hrevision, owner, -, hpreview⟩ := hpreview
  cases owner with
  | some batchId => cases hpreview
  | none =>
    simp only [except_bind_eq_ok, validateCandidate, visibleInventory_eq_ok, pure_eq_ok] at hpreview
    obtain ⟨candidate, ⟨found, ⟨-, rfl⟩, ⟨⟩, hlimits, files, hfiles, hcandidate⟩, hpublish⟩ := hpreview
    cases hpublish
    exact ⟨not_not.mp hrevision, candidate, files, rfl, hlimits, hfiles, (scanFiles_eq_ok.mp hcandidate).2⟩

/-- The revision a preview predicts is that of the files with the batch among them. -/
theorem scans_of_publish {store : Store} {prepared : PreparedBatch} {base revision : StoreRevisionRef}
    {s : Disk} {snapshot : StoreSnapshot}
    (hpreview : previewFromSnapshot store snapshot prepared base s = .ok (.publish revision)) :
    ∃ candidate, candidate.revision = revision ∧
      Scans store (sortFiles ((inventoryOf (visibleEntries s)).files ++ prepared.files)) candidate := by
  obtain ⟨-, candidate, files, hrevision, -, hfiles, hcandidate⟩ := candidate_of_publish hpreview
  obtain ⟨rfl, -⟩ := foldlM_addFile hfiles (nodup_inventory s)
  exact ⟨candidate, hrevision, hcandidate⟩

theorem previewed_of_publish {store : Store} {prepared : PreparedBatch} {base revision : StoreRevisionRef}
    {s : Disk} {snapshot : StoreSnapshot} (hwf : prepared.WellFormed)
    (hscan : scanVisible store s = .ok snapshot)
    (hpreview : previewFromSnapshot store snapshot prepared base s = .ok (.publish revision)) :
    Previewed store prepared base s := by
  obtain ⟨hwithin, hnonregular, hbase⟩ := scanVisible_eq_ok.mp hscan
  obtain ⟨hrevision, candidate, files, -, hlimits, hfiles, hcandidate⟩ := candidate_of_publish hpreview
  obtain ⟨rfl, hnodup⟩ := foldlM_addFile hfiles (nodup_inventory s)
  rw [List.map_append, List.nodup_append] at hnodup
  have haddable := addable_targets hwf hnodup.2.1
  have hfresh : ∀ f ∈ prepared.targets, (s .canonical).get? f.1 = none := by
    intro f hf
    refine get?_eq_none_of_new (haddable.reached f hf) (haddable.leaf f hf) hnonregular ?_
    intro hmem
    have hold : relative f.1 ∈ (inventoryOf (visibleEntries s)).files.map RawFile.path :=
      ((sortFiles_perm _).map _).mem_iff.mpr hmem
    refine hnodup.2.2 _ hold (relative f.1) ?_ rfl
    rw [← hwf.raw_targets]
    exact List.mem_map.mpr ⟨_, List.mem_map.mpr ⟨f, hf, rfl⟩, rfl⟩
  refine ⟨hwf, ⟨haddable, hwithin, hfresh, ?_⟩, hnonregular, ⟨snapshot, hrevision, hbase⟩, candidate, hcandidate⟩
  rw [hwf.raw_targets]
  exact hlimits

/-- What stands at the place of a canonical directory is one. -/
theorem directory_of_scans {store : Store} {s : Disk} {snapshot : StoreSnapshot} {p : List Name} {e : Entry}
    (hnonregular : (inventoryOf (visibleEntries s)).nonregular = [])
    (hscan : Scans store (inventoryOf (visibleEntries s)).files snapshot) (hreached : isReached p = true)
    (hvalid : validCanonicalDirectory (relative p) = true) (he : (s .canonical).get? p = some e) :
    e = .directory := by
  have hmem : (p, e) ∈ visibleEntries s := mem_visibleEntries.mpr ⟨he, hreached⟩
  cases e with
  | directory => rfl
  | regular bytes =>
    have hfile : ⟨relative p, bytes⟩ ∈ (inventoryOf (visibleEntries s)).files :=
      (sortFiles_perm _).mem_iff.mpr (List.mem_filterMap.mpr ⟨_, hmem, rfl⟩)
    exact (not_decodes_of_isCanonical (isCanonical_of_directory hvalid) (hscan.decodes _ hfile)).elim
  | other =>
    have hother : relative p ∈ (inventoryOf (visibleEntries s)).nonregular :=
      (List.perm_insertionSort _ _).mem_iff.mpr (List.mem_filterMap.mpr ⟨_, hmem, rfl⟩)
    rw [hnonregular] at hother
    cases hother

end

end Wayjournal
