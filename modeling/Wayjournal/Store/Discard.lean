import Wayjournal.Crash.View
import Wayjournal.Store.CrashAtomic
import Wayjournal.Store.ResidueLaws

namespace Wayjournal

open Collections Crash Fs FileSystem Text

section

variable [ReadDir]

/-- A removal that fails leaves the entry it was about. -/
theorem wp_removeTree_stays (levels : Nat) (parent : Directory) (consumed : Nat) (name : Name) {s : Disk} {e : Entry}
    (he : parent.child? name s = some e) :
    (removeTree levels parent consumed name).wp (fun _ => True) (fun _ _ => True)
      (fun _ t => parent.child? name t ≠ none) s := by
  have hstays : parent.child? name s ≠ none := by simp [he]
  unfold removeTree
  rw [Program.wp_bind, Directory.wp_kind he]
  split
  · rw [Program.wp_bind]
    exact Directory.wp_change_any (fun _ _ => ⟨trivial, Program.wp_pure.mpr trivial⟩) fun _ => hstays
  · split
    · exact Program.wp_throw.mpr hstays
    · rename_i levels
      rw [Program.wp_bind, Directory.readOnly_openDir.wp]
      split
      · rename_i directory hdirectory
        obtain rfl := Directory.child_of_openDir hdirectory
        rw [Program.wp_bind, Directory.readOnly_boundedNames.wp]
        split
        · rename_i names hnames
          have hkeeps : (names.foldlM (removeTree levels (parent.child name)) (consumed + names.length)).Keeps
              (Guarantee.same (parent.child? name)) := by
            refine .foldlM (fun consumed n => (within_removeTree levels _ consumed n).mono fun s t h => ?_) _ _
            refine h.2 _ fun hbelow => ?_
            have hlength := hbelow.length_le
            simp [Directory.child] at hlength
          rw [Program.wp_bind]
          refine Program.wp_mono (hkeeps.wp s) (fun _ _ => trivial) ?_ ?_
          · intro _ t ht
            have ht' : parent.child? name t = parent.child? name s := ht
            rw [Program.wp_bind]
            refine Directory.wp_change_any (fun _ _ => ⟨trivial, Program.wp_pure.mpr trivial⟩) fun _ => ?_
            rwa [ht']
          · intro _ t ht
            have ht' : parent.child? name t = parent.child? name s := ht
            rwa [ht']
        · exact hstays
      · exact hstays

theorem canonical_discardStage {batchId : BatchId} :
    (discardStage batchId).Keeps (Guarantee.same fun disk : Disk => disk .canonical) := by
  refine .bind (Directory.within_unlinkFile.mono fun s t h => ?_) fun _ =>
    .bind ((within_removeTree _ _ _ _).mono fun s t h => ?_) fun _ => .pure _
  · exact h.1 .canonical (by decide)
  · exact h.1 .canonical (by decide)

/-- A discard that fails leaves the journal or the stage. -/
theorem wp_discardStage_stays {batchId : BatchId} {s : Disk} {P : Disk → Prop}
    (hjournal : Store.recoveryDir.child? batchId.journalName s ≠ none)
    (hstage : Store.stagesDir.child? batchId.stageName s = some .directory) :
    (discardStage batchId).wp (fun _ => True) (fun _ _ => True)
      (fun _ t => Store.recoveryDir.child? batchId.journalName t = none →
        Store.stagesDir.child? batchId.stageName t = none → P t) s := by
  rw [discardStage, Program.wp_bind]
  refine Directory.wp_change_any (fun fs _ => ⟨trivial, ?_⟩) fun _ hnone => absurd hnone hjournal
  have hstage' : Store.stagesDir.child? batchId.stageName (s.set Store.recoveryDir.area fs) = some .directory := by
    rw [Directory.child?, Disk.set_of_ne _ (by decide)]
    exact hstage
  rw [Program.wp_bind]
  refine Program.wp_mono (wp_removeTree_stays _ _ _ _ hstage') (fun _ h => h) ?_ ?_
  · exact fun _ _ _ => Program.wp_pure.mpr trivial
  · exact fun _ t ht _ hnone => absurd hnone ht

variable [Jiff] [Blake3] {store : Store} {batchId : BatchId} {s : Disk} {e : StoreError}

theorem stage_of_loadStage {batch : StagedBatch} (h : (loadStage store batchId).result s = .ok batch) :
    Store.stagesDir.child? batchId.stageName s = some .directory := by
  obtain ⟨bytes, -, h⟩ := (Program.result_bind_eq_ok readOnly_boundedRegular).mp h
  obtain ⟨journal, -, h⟩ := (Program.result_bind_eq_ok (.ofExcept _)).mp h
  obtain ⟨-, h⟩ := Program.guard_eq_ok.mp h
  obtain ⟨stage, hstage, -⟩ := (Program.result_bind_eq_ok Directory.readOnly_openDir).mp h
  rw [Directory.openDir, Program.result_reads] at hstage
  split at hstage
  · cases hstage
  · assumption
  · cases hstage

/-- The recovery fails and has taken the journal and the stage away. -/
structure Discards (store : Store) (batchId : BatchId) (s : Disk) (e : StoreError) : Prop where
  error : (recoverOne store batchId).result s = .error e
  stood : Store.recoveryDir.child? batchId.journalName s ≠ none
  journal : Store.recoveryDir.child? batchId.journalName ((recoverOne store batchId).final s) = none
  stage : Store.stagesDir.child? batchId.stageName ((recoverOne store batchId).final s) = none

/-- What is published stays as it is when a batch is given up. -/
theorem Discards.canonical (h : Discards store batchId s e) :
    (∃ batch, (loadStage store batchId).result s = .ok batch) ∧
      (recoverOne store batchId).final s .canonical = s .canonical := by
  have hstood {t : Disk} (ht : (within .canonical []).rel s t) :
      Store.recoveryDir.child? batchId.journalName t ≠ none := by
    rw [Directory.child?, ht.1 Store.recoveryDir.area (by decide)]
    exact h.stood
  have hwp : (recoverOne store batchId).wp (fun _ => True) (fun _ _ => True)
      (fun _ t => Store.recoveryDir.child? batchId.journalName t = none → Store.stagesDir.child? batchId.stageName t = none →
        (∃ batch, (loadStage store batchId).result s = .ok batch) ∧ t .canonical = s .canonical) s := by
    rw [recoverOne, Program.wp_bind, readOnly_loadStage.wp]
    split
    · rename_i batch hbatch
      rw [Program.wp_bind, Program.wp_tryCatch, Program.wp_reads]
      split
      · rw [Program.wp_bind]
        refine Program.wp_mono ((Program.Keeps.forM within_publishRecord _).wp s) (fun _ _ => trivial) ?_ ?_
        · intro _ u hu
          rw [Program.wp_bind]
          have hlink : (linkFdNoClobber batch.manifest.bytes Store.journalBatchesDir
              (BatchId.journalName batch.manifest.manifest.batchId) batch.manifest.bytes).Keeps (within .canonical []) :=
            within_linkFdNoClobber.mono fun _ _ => within_mono List.nil_prefix
          refine Program.wp_mono (hlink.wp u) (fun _ _ => trivial) ?_ ?_
          · intro _ v hv
            have hrel := (within .canonical []).trans hu hv
            refine wp_discardStage_stays ?_ ?_
            · exact hstood hrel
            · rw [Directory.child?, hrel.1 Store.stagesDir.area (by decide)]
              exact stage_of_loadStage hbatch
          · exact fun _ v hv hnone => absurd hnone (hstood ((within .canonical []).trans hu hv))
        · exact fun _ u hu hnone => absurd hnone (hstood hu)
      · split
        · rw [Program.wp_bind]
          refine Program.wp_mono (canonical_discardStage.wp s) (fun _ _ => trivial) ?_ ?_
          · exact fun _ t ht => Program.wp_throw.mpr fun _ _ => ⟨⟨batch, hbatch⟩, ht⟩
          · exact fun _ t ht _ _ => ⟨⟨batch, hbatch⟩, ht⟩
        · exact Program.wp_throw.mpr fun hnone => absurd hnone h.stood
    · exact fun hnone => absurd hnone h.stood
  have hfail := hwp.2
  rw [h.error] at hfail
  exact hfail h.journal h.stage

/-- The paths the batch publishes. -/
def StagedBatch.paths (batch : StagedBatch) : List Bytes :=
  batch.records.map (fun r => asBytes r.target) ++ [asBytes batch.manifest.manifest.canonicalPath]

def IsVisible (disk : Disk) (path : Bytes) : Prop :=
  ∃ files bytes, visibleMap disk = .ok files ∧ files.get? path = some bytes

/-- A batch that is given up leaves nothing of it visible exactly when nothing of it was. -/
theorem discarded_batch_invisible_iff (h : Discards store batchId s e) :
    ∃ batch, (loadStage store batchId).result s = .ok batch ∧
      ((∀ path ∈ batch.paths, ¬IsVisible ((recoverOne store batchId).final s) path) ↔
        ∀ path ∈ batch.paths, ¬IsVisible s path) := by
  obtain ⟨⟨batch, hbatch⟩, hcanonical⟩ := h.canonical
  have hmap : visibleMap ((recoverOne store batchId).final s) = visibleMap s := by
    rw [visibleMap, visibleMap, visibleInventory_congr hcanonical]
  refine ⟨batch, hbatch, ?_⟩
  simp only [IsVisible, hmap]

end

section

variable [Jiff] [Blake3] {store : Store}

/-- The same files opened as a store of the first two stages. -/
def Store.asLegacy (store : Store) : Store := { store with strictDomains := false }

/-- Built-in records are refused by a store of the first two stages. -/
theorem scanCollected_asLegacy {files : List RawFile} {snapshot : StoreSnapshot} (h : Scans store files snapshot)
    (hreserved : (recordsOf store.registry files).any Record.isReservedBuiltin = true) :
    scanCollected store.asLegacy files [] = .error (.invalidDomainFold "wayjournal.reserved" "legacy-s1-s2"
      (.message "S3 built-in data cannot be opened in legacy mode")) := by
  have hdecode : files.foldlM (decodeFile store.registry) ⟨[], ∅, ∅, []⟩ =
      .ok ⟨files.filterMap (manifestOf store.registry), recordsByPathOf store.registry files,
        idsOf store.registry files, files.filterMap (legacyOf store.registry)⟩ :=
    foldlM_decodeFile.mpr ⟨h.decodes, (decodedOf_eq ..).symm⟩
  have hids := find?_ids_eq_none.mpr h.ids
  have hidempotency := h.idempotency
  have hownership : (validateBatchOwnership (storedOf store.registry files) (manifestsOf store.registry files)
      store.registry).mapError StoreCorruption.genericOwnership = .ok () := mapError_eq_ok.mpr h.ownership
  unfold manifestsOf at hidempotency hownership
  unfold storedOf at hownership
  unfold recordsOf at hreserved
  simp only [scanCollected, List.head?_nil, Store.asLegacy, hdecode, ok_bind, hids, hidempotency, hownership,
    hreserved]
  rfl

variable {prepared : PreparedBatch} {base : StoreRevisionRef} {s t : Disk}

/-- The refusal of a batch with built-in records. -/
def reservedError : StoreError :=
  .corrupt (.invalidDomainFold "wayjournal.reserved" "legacy-s1-s2"
    (.message "S3 built-in data cannot be opened in legacy mode"))

theorem scanFiles_asLegacy {files : List RawFile} {snapshot : StoreSnapshot} (h : Scans store files snapshot)
    (hreserved : (recordsOf store.registry files).any Record.isReservedBuiltin = true) :
    scanFiles store.asLegacy files [] = .error reservedError := by
  rw [scanFiles, scanCollected_asLegacy h hreserved]
  rfl

/-- However much of the batch is published, its built-in records are found. -/
theorem Previewed.validateRecoveryBase_asLegacy (h : Previewed store prepared base s)
    (hext : Extends (s .canonical) prepared.targets (t .canonical))
    (hreserved : (recordsOf store.registry (sortFiles ((inventoryOf (visibleEntries s)).files ++ prepared.files))).any
      Record.isReservedBuiltin = true)
    (hbase : ∃ snapshot, snapshot.revision = base ∧
      Scans store.asLegacy (inventoryOf (visibleEntries s)).files snapshot) {journal : Journal}
    (hjournal : journal.base = base) :
    validateRecoveryBase store.asLegacy journal prepared.stagedManifest prepared.stagedRecords t =
      .error reservedError := by
  obtain ⟨inventory, hfound, hsub⟩ := h.publishable.visibleInventory_extended hext
  obtain ⟨present, hsplit, hpresent⟩ := h.splitBase_extended t
  obtain ⟨candidate, hcandidate⟩ := h.scansCandidate
  simp only [validateRecoveryBase, hfound, ok_bind, hsplit]
  by_cases hall : present.entries.length =
      (publicationTargets prepared.stagedManifest prepared.stagedRecords).entries.length
  · have hfull : presentIn (t .canonical) prepared.targets = prepared.targets :=
      presentIn_eq_self (by rw [← hpresent, hall, h.length_publicationTargets])
    rw [hfull, ← h.candidate_eq] at hfound
    rw [if_pos hall, scanVisible, hfound, ok_bind]
    dsimp only
    rw [h.nonregular, scanFiles_asLegacy hcandidate hreserved]
    rfl
  · obtain ⟨snapshot, hrevision, hscan⟩ := hbase
    have hsnapshot : scanFiles store.asLegacy (inventoryOf (visibleEntries s)).files
        (inventoryOf (visibleEntries s)).nonregular = .ok snapshot := scanFiles_eq_ok.mpr ⟨h.nonregular, hscan⟩
    rw [if_neg hall, h.enforceLimits_extended hsub]
    simp only [ok_bind, hsnapshot]
    rw [if_neg (by rw [not_not, hjournal, hrevision]), PreparedBatch.candidateFiles_eq h.wellFormed,
      scanFiles_asLegacy hcandidate hreserved]
    rfl

/-- What is linked of a batch is visible. -/
theorem Previewed.isVisible (h : Previewed store prepared base s)
    (hext : Extends (s .canonical) prepared.targets (t .canonical)) {r : PreparedRecord} (hr : r ∈ prepared.records)
    (hlinked : (t .canonical).get? r.record.key = some (.regular r.bytes)) : IsVisible t (asBytes r.path) := by
  obtain ⟨inventory, hfound, -⟩ := h.publishable.visibleInventory_extended hext
  have htarget : (r.record.key, r.bytes) ∈ prepared.targets := PreparedBatch.WellFormed.mem_targets.mpr (.inl ⟨r, hr, rfl⟩)
  have hpresent : (r.record.key, r.bytes) ∈ presentIn (t .canonical) prepared.targets :=
    (hext.mem_present h.publishable.addable).mpr ⟨htarget, hlinked⟩
  have hpath : relative r.record.key = asBytes r.path := by rw [Record.relative_key, h.wellFormed.path_eq r hr]
  refine ⟨_, r.bytes, by rw [visibleMap, hfound]; rfl, (BTreeMap.get?_ofList ?_).mpr ?_⟩
  · rw [List.map_map]
    refine ((sortFiles_perm _).map _).nodup_iff.mpr (h.publishable.nodup_raw.sublist (List.Sublist.map _ ?_))
    exact (List.Sublist.refl _).append (List.filter_sublist.map _)
  · refine List.mem_map.mpr ⟨⟨asBytes r.path, r.bytes⟩, (sortFiles_perm _).mem_iff.mpr ?_, rfl⟩
    rw [← hpath]
    exact List.mem_append_right _ (List.mem_map.mpr ⟨_, hpresent, rfl⟩)

variable [ReadDir]

/-- A batch of built-in records is given up by a store of the first two stages. -/
theorem Journaled.discards (h : Previewed store prepared base s) (ht : Journaled prepared base s t)
    (hreserved : (recordsOf store.registry (sortFiles ((inventoryOf (visibleEntries s)).files ++ prepared.files))).any
      Record.isReservedBuiltin = true)
    (hbase : ∃ snapshot, snapshot.revision = base ∧
      Scans store.asLegacy (inventoryOf (visibleEntries s)).files snapshot) :
    Discards store.asLegacy prepared.manifest.batchId t reservedError ∧
      (loadStage store.asLegacy prepared.manifest.batchId).result t =
        .ok ⟨⟨base, prepared.manifest.batchId, manifestHash prepared.manifestBytes, prepared.records.length⟩,
          prepared.stagedManifest, prepared.stagedRecords⟩ := by
  have hload : (loadStage store prepared.manifest.batchId).wp (fun _ => True) (fun batch u => u = t ∧ batch =
      ⟨⟨base, prepared.manifest.batchId, manifestHash prepared.manifestBytes, prepared.records.length⟩,
        prepared.stagedManifest, prepared.stagedRecords⟩) (fun _ _ => False) t :=
    ht.staged.wp_loadStage h ⟨rfl, rfl⟩
  obtain ⟨_, hloaded, -, rfl⟩ := Program.ok_of_wp hload
  refine ⟨?_, hloaded⟩
  have hwp : (recoverOne store.asLegacy prepared.manifest.batchId).wp (fun _ => True) (fun _ _ => False)
      (fun e u => e = reservedError ∧ u = (t.set .recovery ∅).set .stages ∅) t := by
    have hdiscard : (discardStage prepared.manifest.batchId).wp (fun _ => True)
        (fun _ u => u = (t.set .recovery ∅).set .stages ∅) (fun _ _ => False) t :=
      wp_discardStage h.wellFormed ht.staged (fun _ _ => trivial) rfl
    rw [recoverOne, Program.wp_bind]
    refine Program.wp_mono hload (fun _ h => h) ?_ (fun _ _ h => h.elim)
    rintro _ _ ⟨rfl, rfl⟩
    rw [Program.wp_bind, Program.wp_tryCatch, Program.wp_reads]
    dsimp only
    rw [h.validateRecoveryBase_asLegacy ht.published hreserved hbase rfl]
    dsimp only
    rw [if_pos (show reservedError.isInvalidDomainFold = true from rfl), Program.wp_bind]
    refine Program.wp_mono hdiscard (fun _ h => h) ?_ (fun _ _ h => h.elim)
    rintro _ _ rfl
    exact Program.wp_throw.mpr ⟨rfl, rfl⟩
  have hjournal : Store.recoveryDir.child? prepared.manifest.batchId.journalName t =
      some (.regular (prepared.journalBytes base)) := (ht.staged.recovery _ _).mpr List.mem_cons_self
  have hfail := hwp.2
  split at hfail
  · exact hfail.elim
  · rename_i e he
    obtain ⟨rfl, hfinal⟩ := hfail
    refine ⟨he, by simp [hjournal], ?_, ?_⟩
    · change ((recoverOne store.asLegacy prepared.manifest.batchId).final t .recovery).get? _ = none
      rw [hfinal, Disk.set_of_ne _ (by decide), Disk.set_same, get?_empty]
    · change ((recoverOne store.asLegacy prepared.manifest.batchId).final t .stages).get? _ = none
      rw [hfinal, Disk.set_same, get?_empty]

end

attribute [local instance] Sample.jiff Sample.blake3 Sample.readDir

theorem Sample.vacant_strict : Vacant strictStore disk := ⟨vacant.found, rfl⟩

theorem Sample.vacant_legacy : Vacant strictStore.asLegacy disk := ⟨vacant.found, rfl⟩

/-- The genesis batch on an empty store. -/
theorem Sample.previewed_genesis :
    ∃ prepared base, prepareBatch [genesis] "genesis" strictStore.registry = .ok prepared ∧
      prepared.records = [⟨genesis, genesis.canonicalPath, genesisBytes⟩] ∧
      Previewed strictStore prepared base disk ∧
      (recordsOf strictStore.registry (sortFiles ((inventoryOf (visibleEntries disk)).files ++ prepared.files))).any
        Record.isReservedBuiltin = true ∧
      ∃ snapshot, snapshot.revision = base ∧
        Scans strictStore.asLegacy (inventoryOf (visibleEntries disk)).files snapshot := by
  obtain ⟨prepared, revision, hprepare, hrecords, -, hscans⟩ := genesis_scans
  obtain ⟨base, hscan⟩ := vacant_strict.scanVisible_ok
  obtain ⟨revision', hpreview⟩ := vacant_strict.preview_publish (readable_genesis hprepare hrecords) hrecords
    hscans.identity rfl base
  have hempty : (inventoryOf (visibleEntries disk)).files = [] := by
    obtain ⟨inventory, hfound, -⟩ := vacant_strict.found
    rw [← (visibleInventory_eq_ok.mp hfound).2]
  refine ⟨prepared, base, hprepare, hrecords,
    previewed_of_publish (prepareBatch_wellFormed hprepare) hscan hpreview, ?_, ?_⟩
  · have hgenesis : [genesis].any Record.isReservedBuiltin = true := by decide
    rw [hempty, List.nil_append, ← hscans.records_eq]
    exact hgenesis
  · obtain ⟨revision, hlegacy⟩ := scans_nil vacant_legacy.legacy
    have hrevision := (scanVisible_eq_ok.mp hscan).2.2.revision
    rw [hempty] at hrevision ⊢
    refine ⟨_, ?_, hlegacy⟩
    exact Except.ok.inj (hlegacy.revision.symm.trans hrevision)

/-- An append of the genesis batch cut off before its manifest is linked, and the root opened for the first two
stages: the journal is gone and the record stays. -/
theorem genesis_record_orphaned :
    ∃ prepared base, prepareBatch [Sample.genesis] "genesis" Sample.strictStore.registry = .ok prepared ∧
      ∃ s batch, s = (stageBatch prepared base >>= fun _ => prepared.stagedRecords.forM publishRecord).final Sample.disk ∧
        Discards Sample.strictStore.asLegacy prepared.manifest.batchId s reservedError ∧
        (loadStage Sample.strictStore.asLegacy prepared.manifest.batchId).result s = .ok batch ∧
        ∃ path ∈ batch.paths,
          IsVisible ((recoverOne Sample.strictStore.asLegacy prepared.manifest.batchId).final s) path := by
  obtain ⟨prepared, base, hprepare, hrecords, h, hreserved, hbase⟩ := Sample.previewed_genesis
  have hwp : (stageBatch prepared base >>= fun _ => prepared.stagedRecords.forM publishRecord).wp (fun _ => True)
      (fun _ t => Journaled prepared base Sample.disk t ∧
        ∀ r ∈ prepared.records, (t .canonical).get? r.record.key = some (.regular r.bytes)) (fun _ _ => False)
        Sample.disk := by
    rw [Program.wp_bind]
    refine Program.wp_mono (h.wp_stageBatch rfl rfl) (fun _ h => h) ?_ (fun _ _ h => h)
    rintro _ t ⟨ht, -⟩
    refine Program.wp_mono (h.wp_publishRecords Sample.opened ht fun gs hgs hlinked => ?_) (fun _ _ => trivial)
      (fun _ _ h => h) (fun _ _ h => h)
    refine ⟨ht.set_canonical hgs, ?_⟩
    rw [Disk.set_same]
    exact hlinked
  obtain ⟨_, -, ht, hlinked⟩ := Program.ok_of_wp hwp
  obtain ⟨hdiscards, hload⟩ := ht.discards h hreserved hbase
  refine ⟨prepared, base, hprepare, _, _, rfl, hdiscards, hload, asBytes Sample.genesis.canonicalPath, ?_, ?_⟩
  · refine List.mem_append_left _ (List.mem_map.mpr ⟨⟨Sample.genesis.canonicalPath, Sample.genesisBytes⟩, ?_, rfl⟩)
    rw [PreparedBatch.stagedRecords, hrecords]
    exact List.mem_cons_self
  · have hmem : (⟨Sample.genesis, Sample.genesis.canonicalPath, Sample.genesisBytes⟩ : PreparedRecord) ∈
        prepared.records := by
      rw [hrecords]
      exact List.mem_cons_self
    obtain ⟨files, bytes, hfiles, hget⟩ := h.isVisible ht.published hmem (hlinked _ hmem)
    refine ⟨files, bytes, ?_, hget⟩
    rw [← hfiles, visibleMap, visibleMap, visibleInventory_congr hdiscards.canonical.2]

/-- The same batch with nothing linked: nothing of it stays. -/
theorem discarded_batch_invisible_iff_genesis :
    ∃ prepared s batch, prepareBatch [Sample.genesis] "genesis" Sample.strictStore.registry = .ok prepared ∧
      (loadStage Sample.strictStore.asLegacy prepared.manifest.batchId).result s = .ok batch ∧
      ∀ path ∈ batch.paths,
        ¬IsVisible ((recoverOne Sample.strictStore.asLegacy prepared.manifest.batchId).final s) path := by
  obtain ⟨prepared, base, hprepare, hrecords, h, hreserved, hbase⟩ := Sample.previewed_genesis
  obtain ⟨_, -, ht, hcanonical⟩ := Program.ok_of_wp (h.wp_stageBatch rfl rfl)
  obtain ⟨hdiscards, -⟩ := ht.discards h hreserved hbase
  obtain ⟨batch, hload, hiff⟩ := discarded_batch_invisible_iff hdiscards
  refine ⟨prepared, _, batch, hprepare, hload, hiff.mpr ?_⟩
  rintro path - ⟨files, bytes, hfiles, hget⟩
  obtain ⟨inventory, hfound, -⟩ := Sample.vacant_strict.found
  rw [visibleMap, visibleInventory_congr hcanonical, hfound] at hfiles
  cases hfiles
  cases hget

end Wayjournal
