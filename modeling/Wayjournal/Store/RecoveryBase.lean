import Wayjournal.Store.Publication

namespace Wayjournal

open Collections Fs Text

theorem length_keys_eq {κ υ : Type} [LinearOrder κ] {m : BTreeMap κ υ} {l : List κ} (hl : l.Nodup)
    (h : ∀ k, k ∈ m.keys ↔ k ∈ l) : m.entries.length = l.length := by
  have hperm := (List.perm_ext_iff_of_nodup m.keys_nodup hl).mpr h
  rw [← hperm.length_eq, BTreeMap.keys, List.length_map]

theorem length_entries_ofList {κ υ : Type} [LinearOrder κ] {l : List (κ × υ)} (hl : (l.map Prod.fst).Nodup) :
    (BTreeMap.ofList l).entries.length = l.length := by
  rw [length_keys_eq hl, List.length_map]
  intro k
  rw [BTreeMap.mem_keys_iff, List.mem_map]
  constructor
  · rintro ⟨v, hv⟩
    exact ⟨_, (BTreeMap.get?_ofList hl).mp hv, rfl⟩
  · rintro ⟨e, he, rfl⟩
    exact ⟨e.2, (BTreeMap.get?_ofList hl).mpr he⟩

/-- The loop that takes the targets out of the visible files. -/
theorem foldlM_splitBase {targets : BTreeMap Bytes Bytes} {files : List RawFile}
    {state : List RawFile × BTreeSet Bytes}
    (h : ∀ f ∈ files, ∀ bytes, targets.get? f.path = some bytes → f.bytes = bytes) :
    files.foldlM (splitBase targets) state = .ok
      (state.1 ++ files.filter (fun f => (targets.get? f.path).isNone),
        ((files.filter (fun f => (targets.get? f.path).isSome)).map RawFile.path).foldl
          (fun s a => s.insert a ()) state.2) := by
  induction files generalizing state with
  | nil => simp [pure, Except.pure]
  | cons file r ih =>
    have hr := fun f hf => h f (List.mem_cons_of_mem _ hf)
    rw [List.foldlM_cons]
    cases hget : targets.get? file.path with
    | none =>
      have hstep : splitBase targets state file = .ok (state.1 ++ [file], state.2) := by
        simp only [splitBase, hget]
      rw [hstep]
      change r.foldlM (splitBase targets) _ = _
      rw [ih hr]
      simp [hget]
    | some bytes =>
      have hstep : splitBase targets state file = .ok (state.1, state.2.insert file.path ()) := by
        simp only [splitBase, hget]
        rw [if_neg (not_not.mpr (h file List.mem_cons_self bytes hget))]
      rw [hstep]
      change r.foldlM (splitBase targets) _ = _
      rw [ih hr]
      simp [hget]

theorem splitBase_sorted {targets : BTreeMap Bytes Bytes} {old new : List RawFile}
    (hold : ∀ f ∈ old, targets.get? f.path = none)
    (hnew : ∀ f ∈ new, targets.get? f.path = some f.bytes)
    (hnodup : ((old ++ new).map RawFile.path).Nodup) :
    ∃ present, (sortFiles (old ++ new)).foldlM (splitBase targets) ([], ∅) = .ok (sortFiles old, present) ∧
      present.entries.length = new.length := by
  have hperm := sortFiles_perm (old ++ new)
  have hmatch : ∀ f ∈ sortFiles (old ++ new), ∀ bytes, targets.get? f.path = some bytes → f.bytes = bytes := by
    intro f hf bytes hget
    obtain hf | hf := List.mem_append.mp (hperm.mem_iff.mp hf)
    · rw [hold f hf] at hget
      cases hget
    · rw [hnew f hf] at hget
      exact Option.some.inj hget
  have hbase : (sortFiles (old ++ new)).filter (fun f => (targets.get? f.path).isNone) = sortFiles old := by
    refine eq_sortFiles ((sorted_sortFiles _).filter _) ?_ ?_
    · refine (hperm.filter _).trans ?_
      have h₁ : old.filter (fun f => (targets.get? f.path).isNone) = old :=
        List.filter_eq_self.mpr (fun f hf => by rw [hold f hf]; rfl)
      have h₂ : new.filter (fun f => (targets.get? f.path).isNone) = [] :=
        List.filter_eq_nil_iff.mpr (fun f hf => by rw [hnew f hf]; exact Bool.false_ne_true)
      rw [List.filter_append, h₁, h₂, List.append_nil]
    · rw [List.map_append] at hnodup
      exact hnodup.of_append_left
  have hpresent : ((sortFiles (old ++ new)).filter (fun f => (targets.get? f.path).isSome)).Perm new := by
    refine (hperm.filter _).trans ?_
    have h₁ : old.filter (fun f => (targets.get? f.path).isSome) = [] :=
      List.filter_eq_nil_iff.mpr (fun f hf => by rw [hold f hf]; exact Bool.false_ne_true)
    have h₂ : new.filter (fun f => (targets.get? f.path).isSome) = new :=
      List.filter_eq_self.mpr (fun f hf => by rw [hnew f hf]; rfl)
    rw [List.filter_append, h₁, h₂, List.nil_append]
  rw [foldlM_splitBase hmatch, hbase]
  refine ⟨_, rfl, ?_⟩
  rw [List.map_append] at hnodup
  rw [length_keys_eq (((hpresent.map RawFile.path).nodup_iff).mpr hnodup.of_append_right), List.length_map,
    hpresent.length_eq]
  intro k
  rw [BTreeSet.mem_keys_foldl_insert]
  exact or_iff_right List.not_mem_nil

section

variable [Jiff]

def PreparedRecord.staged (record : PreparedRecord) : StagedRecord := ⟨record.path, record.bytes⟩

namespace PreparedBatch

variable (prepared : PreparedBatch)

def stagedManifest : StagedManifest := ⟨prepared.manifest, prepared.manifestBytes⟩

def stagedRecords : List StagedRecord := prepared.records.map PreparedRecord.staged

variable {prepared}

theorem publicationTargets_eq (h : prepared.WellFormed) :
    publicationTargets prepared.stagedManifest prepared.stagedRecords =
      BTreeMap.ofList (prepared.files.map (fun f => (f.path, f.bytes))) := by
  rw [publicationTargets, stagedRecords, files, List.map_append, List.map_map, List.map_map, List.map_cons,
    List.map_nil, h.manifestPath_eq]
  rfl

theorem candidateFiles_eq (h : prepared.WellFormed) (base : List RawFile) :
    candidateFiles base prepared.stagedManifest prepared.stagedRecords = sortFiles (base ++ prepared.files) := by
  rw [candidateFiles, stagedRecords, files, List.map_map, h.manifestPath_eq, List.append_assoc]
  rfl

theorem candidateSizes_eq (h : prepared.WellFormed) (base : List RawFile) :
    candidateSizes base prepared.stagedManifest prepared.stagedRecords =
      (base ++ prepared.files).map RawFile.sized := by
  rw [candidateSizes, stagedRecords, files, List.map_map, List.map_append, List.map_append, List.map_map,
    h.manifestPath_eq, List.append_assoc]
  rfl

end PreparedBatch

variable [Blake3] {store : Store} {prepared : PreparedBatch} {base : StoreRevisionRef} {s t : Disk}

namespace Previewed

theorem nodup_files (h : Previewed store prepared base s) : (prepared.files.map RawFile.path).Nodup := by
  have hnodup := h.publishable.nodup_raw
  rw [h.wellFormed.raw_targets, List.map_append] at hnodup
  exact hnodup.of_append_right

theorem get?_targets (h : Previewed store prepared base s) {path bytes : Bytes} :
    (publicationTargets prepared.stagedManifest prepared.stagedRecords).get? path = some bytes ↔
      ⟨path, bytes⟩ ∈ prepared.files := by
  have hnodup : ((prepared.files.map (fun f => (f.path, f.bytes))).map Prod.fst).Nodup := by
    rw [List.map_map]
    exact h.nodup_files
  rw [PreparedBatch.publicationTargets_eq h.wellFormed, BTreeMap.get?_ofList hnodup, List.mem_map]
  constructor
  · rintro ⟨f, hf, heq⟩
    cases heq
    exact hf
  · exact fun hf => ⟨_, hf, rfl⟩

theorem decodes (h : Previewed store prepared base s) {f : RawFile} (hf : f ∈ prepared.files) :
    Decodes store.registry f := by
  obtain ⟨snapshot, hscan⟩ := h.scansCandidate
  exact hscan.decodes f ((sortFiles_perm _).mem_iff.mpr (List.mem_append_right _ hf))

theorem decodeVisible_manifest (h : Previewed store prepared base s) :
    decodeBatchManifest prepared.manifestBytes = .ok prepared.manifest ∧
      decodeVisibleFile ⟨asBytes prepared.manifestPath, prepared.manifestBytes⟩ store.registry =
        .ok (.manifest prepared.manifest) := by
  have hdecodes := h.decodes (f := ⟨asBytes prepared.manifestPath, prepared.manifestBytes⟩)
    (List.mem_append_right _ List.mem_cons_self)
  rw [h.wellFormed.manifestPath_eq] at hdecodes ⊢
  obtain ⟨stored, hstored, hvisible⟩ := decodes_manifest hdecodes
  obtain rfl := encodeManifest_injective (encode_decodeBatchManifest hstored).1 h.wellFormed.encoded
  exact ⟨hstored, hvisible⟩

theorem decodeVisible_record (h : Previewed store prepared base s) {r : PreparedRecord}
    (hr : r ∈ prepared.records) :
    ∃ stored, decodeRecord r.bytes store.registry = .ok stored ∧ stored.canonicalPath = r.path ∧
      decodeVisibleFile ⟨asBytes r.path, r.bytes⟩ store.registry = .ok (.record stored) := by
  have hdecodes := h.decodes (f := ⟨asBytes r.path, r.bytes⟩)
    (List.mem_append_left _ (List.mem_map.mpr ⟨r, hr, rfl⟩))
  rw [h.wellFormed.path_eq r hr] at hdecodes ⊢
  exact decodes_record hdecodes

theorem candidate_eq (h : Previewed store prepared base s) :
    sortFiles ((inventoryOf (visibleEntries s)).files ++ prepared.files) =
      sortFiles ((visibleEntries s).filterMap fileOf ++ prepared.targets.raw) := by
  refine sortFiles_congr ?_ h.publishable.nodup_raw
  rw [h.wellFormed.raw_targets]
  exact (sortFiles_perm _).append_right _

/-- The staged records are the members of the manifest. -/
theorem validateBatchMembers_ok (h : Previewed store prepared base s) :
    ∃ decoded, validateBatchMembers prepared.manifest
      (prepared.stagedRecords.map (fun r => ⟨asBytes r.target, r.bytes⟩)) store.registry = .ok decoded := by
  obtain ⟨snapshot, hscan⟩ := h.scansCandidate
  have hnodup : ((sortFiles ((inventoryOf (visibleEntries s)).files ++ prepared.files)).map
      RawFile.path).Nodup := by
    rw [h.candidate_eq]
    exact ((sortFiles_perm _).map _).nodup_iff.mpr h.publishable.nodup_raw
  have hmem : ∀ f ∈ prepared.files,
      f ∈ sortFiles ((inventoryOf (visibleEntries s)).files ++ prepared.files) :=
    fun f hf => (sortFiles_perm _).mem_iff.mpr (List.mem_append_right _ hf)
  have hmanifest : prepared.manifest ∈ manifestsOf store.registry
      (sortFiles ((inventoryOf (visibleEntries s)).files ++ prepared.files)) := by
    refine (List.perm_insertionSort _ _).mem_iff.mpr (List.mem_filterMap.mpr
      ⟨_, hmem ⟨asBytes prepared.manifestPath, prepared.manifestBytes⟩
        (List.mem_append_right _ List.mem_cons_self), ?_⟩)
    rw [manifestOf, h.decodeVisible_manifest.2]
  obtain ⟨members, decoded, hforall, hvalid⟩ := validateBatchMembers_of_ownership hscan.ownership hmanifest
  have hstored : ∀ r ∈ prepared.records, (storedBytes (storedOf store.registry
      (sortFiles ((inventoryOf (visibleEntries s)).files ++ prepared.files)))).get? (asBytes r.path) =
        some r.bytes := by
    intro r hr
    obtain ⟨stored, -, -, hvisible⟩ := h.decodeVisible_record hr
    rw [get?_storedBytes (nodup_stored _ _), mem_storedOf]
    exact ⟨stored, (get?_recordsByPathOf hnodup).mpr
      ⟨hmem _ (List.mem_append_left _ (List.mem_map.mpr ⟨r, hr, rfl⟩)), hvisible⟩⟩
  generalize storedBytes _ = lookup at hforall hstored
  have hmap : prepared.manifest.members.map (fun r => (asBytes r.path, lookup.get? (asBytes r.path))) =
      members.map (fun s => (s.path, some s.bytes)) := by
    rw [← List.forall₂_eq_eq_eq, List.forall₂_map_left_iff, List.forall₂_map_right_iff]
    refine hforall.imp fun r s hs => ?_
    rw [hs.1, hs.2]
  have hpaths : prepared.manifest.members.map (fun r => (asBytes r.path, lookup.get? (asBytes r.path))) =
      prepared.records.map (fun r => (asBytes r.path, some r.bytes)) := by
    have heq := congrArg (List.map (fun path => (asBytes path, lookup.get? (asBytes path)))) h.wellFormed.members_eq
    rw [List.map_map, List.map_map] at heq
    refine Eq.trans heq (List.map_congr_left fun r hr => ?_)
    simp only [Function.comp_def, hstored r hr]
  have hinj : Function.Injective (fun s : StoredMember => (s.path, some s.bytes)) := by
    rintro ⟨a, b⟩ ⟨c, d⟩ heq
    cases heq
    rfl
  have hmembers : members = prepared.stagedRecords.map (fun r => ⟨asBytes r.target, r.bytes⟩) := by
    apply List.map_injective_iff.mpr hinj
    rw [← hmap, hpaths, PreparedBatch.stagedRecords, List.map_map, List.map_map]
    rfl
  exact ⟨decoded, hmembers ▸ hvalid⟩

theorem get?_targets_old (h : Previewed store prepared base s) {f : RawFile}
    (hf : f ∈ (visibleEntries s).filterMap fileOf) :
    (publicationTargets prepared.stagedManifest prepared.stagedRecords).get? f.path = none := by
  have hnodup := h.publishable.nodup_raw
  rw [h.wellFormed.raw_targets, List.map_append, List.nodup_append] at hnodup
  rw [Option.eq_none_iff_forall_ne_some]
  intro bytes hget
  exact hnodup.2.2 _ (List.mem_map.mpr ⟨f, hf, rfl⟩) f.path
    (List.mem_map.mpr ⟨_, h.get?_targets.mp hget, rfl⟩) rfl

theorem get?_targets_new (h : Previewed store prepared base s) {f : RawFile}
    (hf : f ∈ (presentIn (t .canonical) prepared.targets).raw) :
    (publicationTargets prepared.stagedManifest prepared.stagedRecords).get? f.path = some f.bytes := by
  rw [h.get?_targets, ← h.wellFormed.raw_targets]
  obtain ⟨g, hg, rfl⟩ := List.mem_map.mp hf
  exact List.mem_map.mpr ⟨g, List.mem_of_mem_filter hg, rfl⟩

/-- What the scan of a partly published batch finds, split at its targets. -/
theorem splitBase_extended (h : Previewed store prepared base s) (t : Disk) :
    ∃ present, (sortFiles ((visibleEntries s).filterMap fileOf ++
          (presentIn (t .canonical) prepared.targets).raw)).foldlM
        (splitBase (publicationTargets prepared.stagedManifest prepared.stagedRecords)) ([], ∅) =
          .ok ((inventoryOf (visibleEntries s)).files, present) ∧
      present.entries.length = (presentIn (t .canonical) prepared.targets).length := by
  have hnodup : (((visibleEntries s).filterMap fileOf ++ (presentIn (t .canonical) prepared.targets).raw).map
      RawFile.path).Nodup := by
    refine h.publishable.nodup_raw.sublist (List.Sublist.map _ ?_)
    exact (List.Sublist.refl _).append (List.filter_sublist.map _)
  obtain ⟨present, hsplit, hlength⟩ :=
    splitBase_sorted (fun f => h.get?_targets_old) (fun f => h.get?_targets_new) hnodup
  refine ⟨present, hsplit, hlength.trans ?_⟩
  exact List.length_map ..

theorem enforceLimits_extended (h : Previewed store prepared base s) {inventory : BTreeSet Bytes}
    (hsub : ∀ k ∈ inventory.keys, k ∈ (fullSet s prepared.targets).keys) :
    enforceLimits (candidateSizes (inventoryOf (visibleEntries s)).files prepared.stagedManifest
      prepared.stagedRecords) (inventoryOf (visibleEntries s)).nonregular inventory = .ok () := by
  obtain ⟨hcount, hsize⟩ := enforceLimits_eq_ok.mp h.publishable.limits
  rw [PreparedBatch.candidateSizes_eq h.wellFormed, ← h.wellFormed.raw_targets, enforceLimits_eq_ok]
  refine ⟨le_trans (keys_length_le ?_) hcount, hsize⟩
  intro k hk
  obtain hk | hk := mem_limitSet.mp hk
  · exact hsub k hk
  · exact mem_limitSet.mpr (.inr hk)

/-- A batch of which all is published is scanned like the candidate. -/
theorem scanVisible_candidate (h : Previewed store prepared base s)
    (hext : Extends (s .canonical) prepared.targets (t .canonical))
    (hfull : presentIn (t .canonical) prepared.targets = prepared.targets) {snapshot : StoreSnapshot}
    (hscan : Scans store (sortFiles ((inventoryOf (visibleEntries s)).files ++ prepared.files)) snapshot) :
    scanVisible store t = .ok snapshot := by
  obtain ⟨inventory, hfound, -⟩ := h.publishable.visibleInventory_extended hext
  rw [hfull, ← h.candidate_eq] at hfound
  rw [scanVisible, except_bind_eq_ok]
  exact ⟨_, hfound, scanFiles_eq_ok.mpr ⟨h.nonregular, hscan⟩⟩

theorem scanVisible_full (h : Previewed store prepared base s)
    (hext : Extends (s .canonical) prepared.targets (t .canonical))
    (hfull : presentIn (t .canonical) prepared.targets = prepared.targets) :
    ∃ snapshot, scanVisible store t = .ok snapshot := by
  obtain ⟨snapshot, hscan⟩ := h.scansCandidate
  exact ⟨snapshot, h.scanVisible_candidate hext hfull hscan⟩

theorem length_publicationTargets (h : Previewed store prepared base s) :
    (publicationTargets prepared.stagedManifest prepared.stagedRecords).entries.length = prepared.targets.length := by
  have hnodup : ((prepared.files.map (fun f => (f.path, f.bytes))).map Prod.fst).Nodup := by
    rw [List.map_map]
    exact h.nodup_files
  rw [PreparedBatch.publicationTargets_eq h.wellFormed, length_entries_ofList hnodup, List.length_map,
    ← h.wellFormed.raw_targets]
  exact List.length_map ..

/-- The base check passes whatever part of the batch is published. -/
theorem validateRecoveryBase_ok (h : Previewed store prepared base s)
    (hext : Extends (s .canonical) prepared.targets (t .canonical)) {journal : Journal}
    (hjournal : journal.base = base) :
    validateRecoveryBase store journal prepared.stagedManifest prepared.stagedRecords t = .ok () := by
  obtain ⟨inventory, hfound, hsub⟩ := h.publishable.visibleInventory_extended hext
  obtain ⟨present, hsplit, hpresent⟩ := h.splitBase_extended t
  simp only [validateRecoveryBase, except_bind_eq_ok]
  refine ⟨_, hfound, _, hsplit, ?_⟩
  simp only [hpresent, h.length_publicationTargets]
  split
  · rename_i hall
    obtain ⟨snapshot, hscan⟩ := h.scanVisible_full hext (presentIn_eq_self hall)
    rw [hscan]
    rfl
  · obtain ⟨snapshot, hrevision, hbase⟩ := h.scansBase
    obtain ⟨candidate, hcandidate⟩ := h.scansCandidate
    simp only [except_bind_eq_ok, guard_bind_eq_ok]
    refine ⟨(), h.enforceLimits_extended hsub, snapshot, scanFiles_eq_ok.mpr ⟨h.nonregular, hbase⟩, ?_,
      candidate, ?_, rfl⟩
    · rw [not_not, hjournal, hrevision]
    · rw [PreparedBatch.candidateFiles_eq h.wellFormed]
      exact scanFiles_eq_ok.mpr ⟨rfl, hcandidate⟩

end Previewed

end

end Wayjournal
