import Wayjournal.Batch.TextLength
import Wayjournal.Builtin
import Wayjournal.Crypto.Blake3
import Wayjournal.Record.RoundTrip
import Wayjournal.Store.Publication
import Wayjournal.Store.SingleBatch

namespace Wayjournal

open Collections Text

theorem length_slashPrefixes_le (path : Bytes) : (slashPrefixes path).length ≤ path.length := by
  induction path with
  | nil => exact Nat.le_refl 0
  | cons b t ih =>
    rw [slashPrefixes, List.length_append, List.length_map, List.length_cons]
    split
    · rw [List.length_singleton]
      omega
    · rw [List.length_nil]
      omega

theorem length_canonicalParents_le (path : Bytes) : (canonicalParents path).length ≤ path.length := by
  have hle := (List.takeWhile_prefix (!isRootPath ·) (l := (slashPrefixes path).reverse)).length_le
  rw [List.length_reverse] at hle
  exact hle.trans (length_slashPrefixes_le path)

theorem length_limitSet_le (a b : Bytes) (existing : BTreeSet Bytes) :
    (limitSet [a, b] existing).keys.length ≤ existing.keys.length + (a.length + 1) + (b.length + 1) := by
  have hsub : ∀ k ∈ (limitSet [a, b] existing).keys,
      k ∈ existing.keys ++ (a :: canonicalParents a ++ (b :: canonicalParents b)) := by
    intro k hk
    simp only [mem_limitSet, List.exists_mem_cons_iff, List.not_mem_nil, false_and, exists_false, or_false] at hk
    simp only [List.mem_append, List.mem_cons]
    tauto
  have hle := (limitSet [a, b] existing).keys_nodup.length_le_of_subset hsub
  have ha := length_canonicalParents_le a
  have hb := length_canonicalParents_le b
  simp only [List.length_append, List.length_cons] at hle
  omega

theorem foldlM_addFile_ok {files base : List RawFile} (h : ((base ++ files).map RawFile.path).Nodup) :
    files.foldlM addFile base = .ok (base ++ files) := by
  induction files generalizing base with
  | nil =>
    rw [List.append_nil]
    rfl
  | cons file rest ih =>
    have hnew : ¬ base.any (fun f => decide (f.path = file.path)) = true := by
      intro hany
      obtain ⟨f, hf, hpath⟩ := List.any_eq_true.mp hany
      rw [List.map_append, List.nodup_append] at h
      exact h.2.2 _ (List.mem_map.mpr ⟨f, hf, rfl⟩) _ (List.mem_map.mpr ⟨file, List.mem_cons_self, rfl⟩)
        (of_decide_eq_true hpath)
    have happend : base ++ [file] ++ rest = base ++ file :: rest := by simp
    rw [← happend] at h ⊢
    rw [List.foldlM_cons, addFile, if_neg hnew]
    exact ih h

theorem BatchManifest.length_canonicalPath (manifest : BatchManifest) :
    manifest.canonicalPath.toList.length = 57 := by
  have hid := manifest.batchId.length_display_chars
  have hroot : "journal/batches/".toList.length = 16 := by decide
  have hjson : ".json".toList.length = 5 := by decide
  unfold BatchManifest.canonicalPath
  generalize manifest.batchId.display = a at *
  generalize "journal/batches/" = b at *
  generalize ".json" = c at *
  simp only [String.toList_append, List.length_append]
  omega

section

variable [Jiff] [Blake3] {store : Store} {prepared : PreparedBatch} {r : PreparedRecord} {s : Disk}

/-- A store whose canonical directories hold no file yet. -/
structure Vacant (store : Store) (s : Disk) : Prop where
  found : ∃ inventory : BTreeSet Bytes, visibleInventory s = .ok ⟨[], [], inventory⟩ ∧ inventory.keys.length ≤ 1000
  legacy : validateLegacy store [] = .ok ()

theorem scans_nil (hlegacy : validateLegacy store [] = .ok ()) :
    ∃ revision, Scans store [] ⟨revision, [], [], none, []⟩ := by
  obtain ⟨revision, hrevision⟩ : ∃ revision, computeStoreRevision [] = .ok revision :=
    computeStoreRevision_ok List.nodup_nil (fun _ h => absurd h List.not_mem_nil)
      fun _ h => absurd h List.not_mem_nil
  refine ⟨revision, ?_, ?_, rfl, rfl, ?_, ?_, hlegacy, hrevision, rfl, rfl, rfl⟩
  · intro f hf
    cases hf
  · intro e he
    cases he
  · exact Bool.and_false _
  · rw [identityOf]
    split
    · rfl
    · rfl

theorem Vacant.scanVisible_ok (h : Vacant store s) :
    ∃ revision, scanVisible store s = .ok ⟨revision, [], [], none, []⟩ := by
  obtain ⟨inventory, hfound, -⟩ := h.found
  obtain ⟨revision, hscan⟩ := scans_nil h.legacy
  exact ⟨revision, except_bind_eq_ok.mpr ⟨_, hfound, scanFiles_eq_ok.mpr ⟨rfl, hscan⟩⟩⟩

theorem SingleBatch.of_records (hreadable : prepared.Readable store.registry) (hrecords : prepared.records = [r]) :
    SingleBatch store prepared r (sortFiles prepared.files) := by
  refine ⟨hreadable, hrecords, ?_⟩
  have hfiles : prepared.files = [r.file, prepared.manifestFile] := by
    rw [PreparedBatch.files, hrecords]
    rfl
  rw [hfiles, sortFiles, List.insertionSort_cons, List.insertionSort_cons, List.insertionSort_nil,
    List.orderedInsert_nil, List.orderedInsert_cons]
  split
  · exact .inr rfl
  · exact .inl rfl

theorem Vacant.enforceLimits_ok (hreadable : prepared.Readable store.registry) (hrecords : prepared.records = [r])
    {inventory : BTreeSet Bytes} (hinventory : inventory.keys.length ≤ 1000) :
    enforceLimits (prepared.files.map (fun f => (f.path, f.bytes.length))) [] inventory = .ok () := by
  have hr : r ∈ prepared.records := by
    rw [hrecords]
    exact List.mem_cons_self
  have hfiles : prepared.files = [r.file, prepared.manifestFile] := by
    rw [PreparedBatch.files, hrecords]
    rfl
  have hlimit := length_limitSet_le (asBytes r.path) (asBytes prepared.manifestPath) inventory
  have hpath := length_asBytes_le r.path
  have hmanifest := length_asBytes_le prepared.manifestPath
  have hrecord := r.record.length_canonicalPath_le
  rw [hreadable.wellFormed.path_eq r hr] at hpath hlimit
  rw [hreadable.wellFormed.manifestPath_eq] at hmanifest hlimit
  rw [BatchManifest.length_canonicalPath] at hmanifest
  rw [enforceLimits_eq_ok, hfiles]
  refine ⟨?_, ?_⟩
  · change (limitSet [asBytes r.path, asBytes prepared.manifestPath] inventory).keys.length ≤ 1000000
    rw [hreadable.wellFormed.path_eq r hr, hreadable.wellFormed.manifestPath_eq]
    omega
  · have hsize := hreadable.wellFormed.size r hr
    have hmanifestSize := (encodeManifest_eq_ok.mp hreadable.wellFormed.encoded).2
    have hmax : MAX_RECORD_BYTES ≤ 4194304 := by decide
    have hbatch : MAX_BATCH_BYTES = 1048576 := rfl
    change r.bytes.length + (prepared.manifestBytes.length + 0) ≤ 1024 * 1024 * 1024
    omega

/-- The first batch of a store is one to publish. -/
theorem Vacant.preview_publish {identity : Option StoreIdentity} (h : Vacant store s)
    (hreadable : prepared.Readable store.registry) (hrecords : prepared.records = [r])
    (hidentity : identityOf store (sortFiles prepared.files) = .ok identity)
    (hreserved : (!store.strictDomains && r.record.isReservedBuiltin) = false) (base : StoreRevisionRef) :
    ∃ revision, previewFromSnapshot store ⟨base, [], [], none, []⟩ prepared base s = .ok (.publish revision) := by
  obtain ⟨inventory, hfound, hinventory⟩ := h.found
  have hsingle : SingleBatch store prepared r (sortFiles prepared.files) := .of_records hreadable hrecords
  obtain ⟨revision, hscan⟩ := hsingle.scans hidentity hreserved h.legacy
  have hnodup : (([] ++ prepared.files).map RawFile.path).Nodup :=
    ((sortFiles_perm _).map _).nodup_iff.mp hsingle.nodup_paths
  have hcandidate : validateCandidate store prepared s =
      .ok ⟨revision, [prepared.manifest], [r.record], identity, []⟩ := by
    unfold validateCandidate
    exact except_bind_eq_ok.mpr ⟨_, hfound, except_bind_eq_ok.mpr ⟨(), Vacant.enforceLimits_ok hreadable hrecords
      hinventory, except_bind_eq_ok.mpr ⟨_, foldlM_addFile_ok hnodup, scanFiles_eq_ok.mpr ⟨rfl, hscan⟩⟩⟩⟩
  refine ⟨revision, ?_⟩
  unfold previewFromSnapshot
  exact guard_bind_eq_ok.mpr ⟨not_not.mpr rfl, except_bind_eq_ok.mpr ⟨none, rfl, except_bind_eq_ok.mpr
    ⟨_, hcandidate, rfl⟩⟩⟩

end

namespace Sample

@[reducible] def blake3 : Blake3 := ⟨fun bytes => ⟨Crypto.Blake3.digits bytes, Crypto.Blake3.length_digits bytes⟩⟩

attribute [local instance] jiff blake3

/-- A strict store with the built-in domains and no frozen files. -/
def strictStore : Store where
  registry := ⟨BUILTIN_DOMAINS, true⟩
  legacy := ⟨fun _ => .ok (), fun _ => (.ok (), 0), .ok ()⟩
  strictDomains := true

def storeUuid : StoreUuid where
  uuid := ⟨[0, 1, 9, 1, 3, 15, 1, 13, 8, 14, 2, 10, 7, 12, 3, 0, 8, 15, 4, 10, 4, 2, 6, 6, 1, 4, 1, 7,
    4, 0, 5, 5], rfl⟩
  accepted := by decide

def storeKind : KindId := ⟨"project.plan", by decide⟩

def genesisPayload : Json :=
  .object (.ofList [("store_kind", .string storeKind.asStr), ("store_uuid", .string storeUuid.display)])

def genesis : Record where
  recordSchema := ⟨IDENTITY_SCHEMA_V1, by decide⟩
  domain := ⟨IDENTITY_DOMAIN, by decide⟩
  kind := ⟨"store.genesis", by decide⟩
  recordId := recordId 1
  entityId := ⟨storeUuid.uuid, by decide⟩
  batchId := batchId
  actor := ⟨"human:robin", validActor_robin⟩
  occurredAt := timestamp
  recordedAt := timestamp
  parents := []
  payload := genesisPayload

theorem fromValue_genesisPayload :
    (fromValue genesisPayload : Option GenesisPayload) = some ⟨storeKind, storeUuid, none⟩ := by
  decide +kernel

theorem encodeRecord_genesis : encodeRecord genesis strictStore.registry =
    .ok (Json.print 0 (envelope genesis).raw ++ [0x0a]) := by
  have hpayload : validateIdentityPayload genesis.kind genesis.payload = .ok () := by
    have hfrom : (fromValue genesis.payload : Option GenesisPayload) = some ⟨storeKind, storeUuid, none⟩ :=
      fromValue_genesisPayload
    unfold validateIdentityPayload
    rw [if_neg (by decide), hfrom]
    rfl
  have hfind : strictStore.registry.registrations.find? (fun r => r.domain = genesis.domain.asStr &&
      r.schema = genesis.recordSchema.asStr) =
        some ⟨"wayjournal.identity", IDENTITY_SCHEMA_V1, IDENTITY_KINDS, validateIdentityPayload⟩ :=
    List.find?_cons_of_pos (by decide)
  refine encodeRecord_eq_ok.mpr ⟨?_, encodePretty_eq_ok.mpr ⟨?_, rfl⟩, ?_⟩
  · unfold validateRecord DomainRegistry.validate
    rw [if_neg (by decide), hfind]
    simp only [hpayload]
    rw [if_neg (by decide)]
    rfl
  · rw [noFloats_envelope]
    decide +kernel
  · have hlength := length_print_envelope_le (show genesis.parents = [] from rfl)
    have hdisplay : timestamp.display.toList.length = 20 := by decide
    have hprint : (Json.print 1 genesisPayload.raw).length ≤ 1000 := by decide +kernel
    change _ ≤ 16000 + 24 * (timestamp.display.toList.length + timestamp.display.toList.length) +
      (Json.print 1 genesisPayload.raw).length at hlength
    rw [hdisplay] at hlength
    rw [List.length_append, List.length_singleton, MAX_RECORD_BYTES]
    omega

theorem isGenesis_genesis : genesis.isGenesis = true := by decide

/-- The bytes of the genesis record. -/
def genesisBytes : Bytes := Json.print 0 (envelope genesis).raw ++ [0x0a]

def genesisIdentity : StoreIdentity where
  logicalId := ⟨storeUuid, genesisFingerprint (asBytes genesis.canonicalPath) genesisBytes⟩
  storeKind := storeKind
  forkedFrom := none
  genesisRecordId := genesis.recordId

theorem identityOfGenesis_genesis :
    identityOfGenesis (asBytes genesis.canonicalPath) genesisBytes genesis = .ok (some genesisIdentity) := by
  have hfrom : (fromValue genesis.payload : Option GenesisPayload) = some ⟨storeKind, storeUuid, none⟩ :=
    fromValue_genesisPayload
  unfold identityOfGenesis
  rw [hfrom]
  rfl

theorem readable_genesis {prepared : PreparedBatch} {key : String}
    (hprepare : prepareBatch [genesis] key strictStore.registry = .ok prepared)
    (hrecords : prepared.records = [⟨genesis, genesis.canonicalPath, genesisBytes⟩]) :
    prepared.Readable strictStore.registry := by
  refine ⟨prepareBatch_sealed hprepare, ?_, ?_⟩
  all_goals
    intro r hr
    rw [hrecords] at hr
    obtain rfl := List.mem_singleton.mp hr
  · refine (decode_encode_iff encodeRecord_genesis).mpr ?_
    decide +kernel
  · change (splitOnce '/' IDENTITY_SCHEMA_V1.toList).map (fun p => String.ofList p.1) = some IDENTITY_DOMAIN
    decide

/-- A strict store of one batch, its genesis. -/
theorem genesis_scans : ∃ prepared revision, prepareBatch [genesis] "genesis" strictStore.registry = .ok prepared ∧
    prepared.records = [⟨genesis, genesis.canonicalPath, genesisBytes⟩] ∧
    ((sortFiles prepared.files).map RawFile.path).Nodup ∧
    Scans strictStore (sortFiles prepared.files)
      ⟨revision, [prepared.manifest], [genesis], some genesisIdentity, []⟩ := by
  obtain ⟨prepared, hprepare, hrecords⟩ := prepareBatch_singleton "genesis" encodeRecord_genesis
  have hreadable := readable_genesis hprepare hrecords
  have hsingle := SingleBatch.of_records hreadable hrecords
  obtain ⟨revision, hscan⟩ := hsingle.scans_genesis rfl isGenesis_genesis identityOfGenesis_genesis rfl
  exact ⟨prepared, revision, hprepare, hrecords, hsingle.nodup_paths, hscan⟩

end Sample

end Wayjournal
