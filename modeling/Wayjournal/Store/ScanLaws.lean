import Wayjournal.Store.Scan

namespace Wayjournal

open Collections Text

theorem find?_ids_eq_none {ids : BTreeMap RecordId (List Bytes)} :
    ids.entries.find? (fun e => decide (e.2.length > 1)) = none ↔ ∀ e ∈ ids.entries, e.2.length ≤ 1 := by
  simp only [List.find?_eq_none, decide_eq_true_eq, Nat.not_lt]

/-- The bytes of the stored records, by path. -/
def storedBytes (stored : List StoredMember) : BTreeMap Bytes Bytes :=
  BTreeMap.ofList (stored.map (fun r => (r.path, r.bytes)))

theorem get?_storedBytes {stored : List StoredMember} (h : (stored.map StoredMember.path).Nodup)
    {path bytes : Bytes} : (storedBytes stored).get? path = some bytes ↔ ⟨path, bytes⟩ ∈ stored := by
  have hnodup : ((stored.map (fun r => (r.path, r.bytes))).map Prod.fst).Nodup := by
    rw [List.map_map]
    exact h
  rw [storedBytes, BTreeMap.get?_ofList hnodup, List.mem_map]
  constructor
  · rintro ⟨⟨path', bytes'⟩, hmem, heq⟩
    cases heq
    exact hmem
  · exact fun hmem => ⟨_, hmem, rfl⟩

variable [Jiff]

/-- The record map of a list of files in order of their paths. -/
def addDecoded (registry : DomainRegistry) (decoded : Decoded) (file : RawFile) : Decoded :=
  match decodeVisibleFile file registry with
  | .ok (.manifest manifest) => { decoded with manifests := decoded.manifests ++ [manifest] }
  | .ok (.record record) =>
    { decoded with
      ids := decoded.ids.update record.recordId [] (· ++ [file.path])
      recordsByPath := decoded.recordsByPath.insert file.path (record, file.bytes) }
  | .ok (.legacy entry) => { decoded with legacy := decoded.legacy ++ [entry] }
  | .error _ => decoded

def Decodes (registry : DomainRegistry) (file : RawFile) : Prop :=
  ∃ decoded, decodeVisibleFile file registry = .ok decoded

theorem decodeFile_eq_ok {registry : DomainRegistry} {decoded decoded' : Decoded} {file : RawFile} :
    decodeFile registry decoded file = .ok decoded' ↔
      Decodes registry file ∧ decoded' = addDecoded registry decoded file := by
  simp only [decodeFile, except_bind_eq_ok, Decodes, addDecoded]
  constructor
  · rintro ⟨d, hd, h⟩
    rw [hd]
    cases d <;> exact ⟨⟨_, rfl⟩, pure_eq_ok.mp h⟩
  · rintro ⟨⟨d, hd⟩, rfl⟩
    refine ⟨d, hd, ?_⟩
    rw [hd]
    cases d <;> rfl

def decodedOf (registry : DomainRegistry) (files : List RawFile) : Decoded :=
  files.foldl (addDecoded registry) ⟨[], ∅, ∅, []⟩

theorem foldlM_decodeFile {registry : DomainRegistry} {files : List RawFile} {decoded decoded' : Decoded} :
    files.foldlM (decodeFile registry) decoded = .ok decoded' ↔
      (∀ f ∈ files, Decodes registry f) ∧ decoded' = files.foldl (addDecoded registry) decoded := by
  induction files generalizing decoded with
  | nil => simp [pure_eq_ok]
  | cons file r ih =>
    simp only [List.foldlM_cons, except_bind_eq_ok, decodeFile_eq_ok, ih, List.forall_mem_cons,
      List.foldl_cons]
    constructor
    · rintro ⟨_, ⟨hfile, rfl⟩, hr, rfl⟩
      exact ⟨⟨hfile, hr⟩, rfl⟩
    · rintro ⟨⟨hfile, hr⟩, rfl⟩
      exact ⟨_, ⟨hfile, rfl⟩, hr, rfl⟩

def manifestOf (registry : DomainRegistry) (file : RawFile) : Option BatchManifest :=
  match decodeVisibleFile file registry with
  | .ok (.manifest manifest) => some manifest
  | _ => none

def recordOf (registry : DomainRegistry) (file : RawFile) : Option (Bytes × Record × Bytes) :=
  match decodeVisibleFile file registry with
  | .ok (.record record) => some (file.path, record, file.bytes)
  | _ => none

def legacyOf (registry : DomainRegistry) (file : RawFile) : Option LegacyEntry :=
  match decodeVisibleFile file registry with
  | .ok (.legacy entry) => some entry
  | _ => none

theorem addDecoded_eq (registry : DomainRegistry) (decoded : Decoded) (file : RawFile) :
    addDecoded registry decoded file =
      { manifests := decoded.manifests ++ (manifestOf registry file).toList
        recordsByPath := (recordOf registry file).elim decoded.recordsByPath
          (fun e => decoded.recordsByPath.insert e.1 e.2)
        ids := (recordOf registry file).elim decoded.ids
          (fun e => decoded.ids.update e.2.1.recordId [] (· ++ [e.1]))
        legacy := decoded.legacy ++ (legacyOf registry file).toList } := by
  unfold addDecoded manifestOf recordOf legacyOf
  split <;> simp_all

theorem foldl_addDecoded (registry : DomainRegistry) (files : List RawFile) (decoded : Decoded) :
    files.foldl (addDecoded registry) decoded =
      { manifests := decoded.manifests ++ files.filterMap (manifestOf registry)
        recordsByPath := (files.filterMap (recordOf registry)).foldl (fun m e => m.insert e.1 e.2)
          decoded.recordsByPath
        ids := (files.filterMap (recordOf registry)).foldl
          (fun m e => m.update e.2.1.recordId [] (· ++ [e.1])) decoded.ids
        legacy := decoded.legacy ++ files.filterMap (legacyOf registry) } := by
  induction files generalizing decoded with
  | nil => simp
  | cons file r ih =>
    rw [List.foldl_cons, ih, addDecoded_eq]
    cases hm : manifestOf registry file <;> cases hr : recordOf registry file <;>
      cases hl : legacyOf registry file <;> simp [hm, hr, hl]

def manifestsOf (registry : DomainRegistry) (files : List RawFile) : List BatchManifest :=
  (files.filterMap (manifestOf registry)).insertionSort (fun a b => a.batchId ≤ b.batchId)

def recordsByPathOf (registry : DomainRegistry) (files : List RawFile) : BTreeMap Bytes (Record × Bytes) :=
  BTreeMap.ofList (files.filterMap (recordOf registry))

def storedOf (registry : DomainRegistry) (files : List RawFile) : List StoredMember :=
  (recordsByPathOf registry files).entries.map (fun e => ⟨e.1, e.2.2⟩)

def recordsOf (registry : DomainRegistry) (files : List RawFile) : List Record :=
  (recordsByPathOf registry files).values.map Prod.fst

def idsOf (registry : DomainRegistry) (files : List RawFile) : BTreeMap RecordId (List Bytes) :=
  (files.filterMap (recordOf registry)).foldl (fun m e => m.update e.2.1.recordId [] (· ++ [e.1])) ∅

theorem decodedOf_eq (registry : DomainRegistry) (files : List RawFile) :
    files.foldl (addDecoded registry) ⟨[], ∅, ∅, []⟩ =
      ⟨files.filterMap (manifestOf registry), recordsByPathOf registry files, idsOf registry files,
        files.filterMap (legacyOf registry)⟩ := by
  rw [foldl_addDecoded]
  rfl

theorem recordOf_eq_some {registry : DomainRegistry} {file : RawFile} {e : Bytes × Record × Bytes} :
    recordOf registry file = some e ↔
      e = (file.path, e.2.1, file.bytes) ∧ decodeVisibleFile file registry = .ok (.record e.2.1) := by
  unfold recordOf
  split
  · rename_i record h
    rw [Option.some.injEq]
    constructor
    · rintro rfl
      exact ⟨rfl, h⟩
    · rintro ⟨heq, hrecord⟩
      rw [hrecord] at h
      cases h
      exact heq.symm
  · rename_i h
    constructor
    · intro hnone
      cases hnone
    · rintro ⟨-, hrecord⟩
      exact absurd hrecord (h e.2.1)

theorem nodup_recordKeys {registry : DomainRegistry} {files : List RawFile}
    (h : (files.map RawFile.path).Nodup) :
    ((files.filterMap (recordOf registry)).map Prod.fst).Nodup := by
  induction files with
  | nil => simp
  | cons file r ih =>
    rw [List.map_cons, List.nodup_cons] at h
    cases hf : recordOf registry file with
    | none => simpa [hf] using ih h.2
    | some e =>
      rw [List.filterMap_cons_some hf, List.map_cons, List.nodup_cons]
      refine ⟨?_, ih h.2⟩
      intro hmem
      obtain ⟨e', he', heq⟩ := List.mem_map.mp hmem
      obtain ⟨file', hfile', hrecord⟩ := List.mem_filterMap.mp he'
      refine h.1 (List.mem_map.mpr ⟨file', hfile', ?_⟩)
      have hpath := congrArg Prod.fst (recordOf_eq_some.mp hf).1
      have hpath' := congrArg Prod.fst (recordOf_eq_some.mp hrecord).1
      exact hpath'.symm.trans (heq.trans hpath)

/-- The record map holds the record files. -/
theorem get?_recordsByPathOf {registry : DomainRegistry} {files : List RawFile} {path bytes : Bytes}
    {record : Record} (h : (files.map RawFile.path).Nodup) :
    (recordsByPathOf registry files).get? path = some (record, bytes) ↔
      ⟨path, bytes⟩ ∈ files ∧ decodeVisibleFile ⟨path, bytes⟩ registry = .ok (.record record) := by
  rw [recordsByPathOf, BTreeMap.get?_ofList (nodup_recordKeys h), List.mem_filterMap]
  constructor
  · rintro ⟨⟨path', bytes'⟩, hfile, hrecord⟩
    obtain ⟨heq, hdecode⟩ := recordOf_eq_some.mp hrecord
    cases heq
    exact ⟨hfile, hdecode⟩
  · rintro ⟨hfile, hdecode⟩
    exact ⟨_, hfile, recordOf_eq_some.mpr ⟨rfl, hdecode⟩⟩

theorem mem_storedOf {registry : DomainRegistry} {files : List RawFile} {member : StoredMember} :
    member ∈ storedOf registry files ↔
      ∃ record, (recordsByPathOf registry files).get? member.path = some (record, member.bytes) := by
  rw [storedOf, List.mem_map]
  constructor
  · rintro ⟨⟨path, record, bytes⟩, he, rfl⟩
    exact ⟨record, BTreeMap.mem_entries_iff.mp he⟩
  · rintro ⟨record, hget⟩
    exact ⟨_, BTreeMap.mem_entries_iff.mpr hget, rfl⟩

theorem nodup_stored (registry : DomainRegistry) (files : List RawFile) :
    ((storedOf registry files).map StoredMember.path).Nodup := by
  rw [storedOf, List.map_map]
  exact (recordsByPathOf registry files).keys_nodup

variable [Blake3]

/-- Each manifest of an owned store is checked against the bytes of its members. -/
theorem validateBatchMembers_of_ownership {stored : List StoredMember} {manifests : List BatchManifest}
    {registry : DomainRegistry} (h : validateBatchOwnership stored manifests registry = .ok ())
    {manifest : BatchManifest} (hm : manifest ∈ manifests) :
    ∃ members decoded, List.Forall₂ (fun (r : RecordRef) (s : StoredMember) =>
        (storedBytes stored).get? (asBytes r.path) = some s.bytes ∧ s.path = asBytes r.path)
          manifest.members members ∧
      validateBatchMembers manifest members registry = .ok decoded := by
  simp only [validateBatchOwnership, except_bind_eq_ok] at h
  obtain ⟨paths, -, ownership, hown, -⟩ := h
  have hinv := foldlM_invariant (fun r (_ : Ownership) => ∀ m ∈ manifests, m ∈ r ∨
    ∃ o o', ownManifest (storedBytes stored) registry o m = .ok o') ?_ (fun m hm => .inl hm) hown
  · obtain hnil | ⟨o, o', hm⟩ := hinv manifest hm
    · cases hnil
    · simp only [ownManifest, except_bind_eq_ok, mapM_eq_ok] at hm
      obtain ⟨members, hmembers, decoded, hdecoded, -⟩ := hm
      refine ⟨members, decoded, ?_, hdecoded⟩
      refine hmembers.imp fun r s hs => ?_
      split at hs
      · cases hs
      · rename_i hget
        cases hs
        exact ⟨hget, rfl⟩
  · intro o m r o' hinv hstep m' hm'
    obtain hmem | hdone := hinv m' hm'
    · obtain rfl | hmem := List.mem_cons.mp hmem
      · exact .inr ⟨o, o', hstep⟩
      · exact .inl hmem
    · exact .inr hdone

def identityOf (store : Store) (files : List RawFile) : Except StoreCorruption (Option StoreIdentity) :=
  if store.strictDomains then do
    let identity ← (validateStoreIdentity (manifestsOf store.registry files)
      (storedOf store.registry files) store.registry).mapError .invalidGenesis
    validateBuiltinFolds (recordsOf store.registry files)
    pure identity
  else pure none

/-- What the scan of the files of a store amounts to. -/
structure Scans (store : Store) (files : List RawFile) (snapshot : StoreSnapshot) : Prop where
  decodes : ∀ f ∈ files, Decodes store.registry f
  ids : ∀ e ∈ (idsOf store.registry files).entries, e.2.length ≤ 1
  idempotency : validateGlobalIdempotency (manifestsOf store.registry files) = .ok ()
  ownership : validateBatchOwnership (storedOf store.registry files) (manifestsOf store.registry files)
    store.registry = .ok ()
  reserved : (!store.strictDomains && (recordsOf store.registry files).any Record.isReservedBuiltin) = false
  identity : identityOf store files = .ok snapshot.identity
  legacy : validateLegacy store (files.filterMap (legacyOf store.registry)) = .ok ()
  revision : computeStoreRevision (files.map (fun f => ⟨f.path, f.bytes, true⟩)) = .ok snapshot.revision
  manifests_eq : snapshot.manifests = manifestsOf store.registry files
  records_eq : snapshot.records = recordsOf store.registry files
  legacy_eq : snapshot.legacy = files.filterMap (legacyOf store.registry)

theorem scanCollected_eq_ok {store : Store} {files : List RawFile} {nonregular : List Bytes}
    {snapshot : StoreSnapshot} :
    scanCollected store files nonregular = .ok snapshot ↔ nonregular = [] ∧ Scans store files snapshot := by
  cases nonregular with
  | cons path r =>
    simp only [scanCollected, List.head?_cons]
    constructor
    · intro h
      simp only [except_bind_eq_ok, throw_eq_ok, false_and, exists_false] at h
    · rintro ⟨h, -⟩
      cases h
  | nil =>
    simp only [scanCollected, List.head?_nil, except_bind_eq_ok, foldlM_decodeFile, decodedOf_eq]
    constructor
    · rintro ⟨_, ⟨hdecodes, rfl⟩, h⟩
      cases hfind : (idsOf store.registry files).entries.find? (fun e => decide (e.2.length > 1)) with
      | some e =>
        simp only [hfind, except_bind_eq_ok, throw_eq_ok, false_and, exists_false] at h
      | none =>
        simp only [hfind, except_bind_eq_ok, mapError_eq_ok, guard_bind_eq_ok] at h
        obtain ⟨⟨⟩, hidempotency, ⟨⟩, hownership, hreserved, h⟩ := h
        refine ⟨trivial, ?_⟩
        have hids := find?_ids_eq_none.mp hfind
        by_cases hstrict : store.strictDomains = true
        · simp only [hstrict, if_true, except_bind_eq_ok, mapError_eq_ok, pure_eq_ok] at h
          obtain ⟨identity, hidentity, ⟨⟩, hfolds, _, rfl, ⟨⟩, hlegacy, revision, hrevision, rfl⟩ := h
          refine ⟨hdecodes, hids, hidempotency, hownership, Bool.eq_false_iff.mpr hreserved, ?_, hlegacy, hrevision,
            rfl, rfl, rfl⟩
          simp only [identityOf, hstrict, if_true, except_bind_eq_ok, mapError_eq_ok, pure_eq_ok]
          exact ⟨_, hidentity, (), hfolds, rfl⟩
        · simp only [hstrict, if_false, except_bind_eq_ok, mapError_eq_ok, pure_eq_ok, Bool.false_eq_true] at h
          obtain ⟨_, rfl, ⟨⟩, hlegacy, revision, hrevision, rfl⟩ := h
          refine ⟨hdecodes, hids, hidempotency, hownership, Bool.eq_false_iff.mpr hreserved, ?_, hlegacy, hrevision,
            rfl, rfl, rfl⟩
          simp only [identityOf, hstrict, if_false, Bool.false_eq_true]
          rfl
    · rintro ⟨-, h⟩
      refine ⟨_, ⟨h.decodes, rfl⟩, ?_⟩
      obtain ⟨revision, manifests, records, identity, legacy⟩ := snapshot
      obtain rfl := h.manifests_eq
      obtain rfl := h.records_eq
      obtain rfl := h.legacy_eq
      have hidentity := h.identity
      simp only [find?_ids_eq_none.mpr h.ids, except_bind_eq_ok, mapError_eq_ok, guard_bind_eq_ok]
      refine ⟨(), h.idempotency, (), h.ownership, Bool.eq_false_iff.mp h.reserved, ?_⟩
      by_cases hstrict : store.strictDomains = true
      · simp only [identityOf, hstrict, if_true, except_bind_eq_ok, mapError_eq_ok, pure_eq_ok] at hidentity ⊢
        obtain ⟨identity, hidentity, ⟨⟩, hfolds, rfl⟩ := hidentity
        exact ⟨_, hidentity, (), hfolds, _, rfl, (), h.legacy, _, h.revision, rfl⟩
      · simp only [identityOf, hstrict, if_false, pure_eq_ok, Bool.false_eq_true, except_bind_eq_ok,
          mapError_eq_ok] at hidentity ⊢
        exact ⟨_, rfl, (), h.legacy, _, h.revision, by rw [← hidentity]; rfl⟩

end Wayjournal
