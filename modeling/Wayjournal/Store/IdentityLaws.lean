import Wayjournal.Store.FirstBatch

namespace Wayjournal

open Collections Text

/-- The files of a store given as a map from paths to bytes. -/
def filesOf (m : BTreeMap Bytes Bytes) : List RawFile := m.entries.map (fun e => ⟨e.1, e.2⟩)

theorem mem_filesOf {m : BTreeMap Bytes Bytes} {file : RawFile} :
    file ∈ filesOf m ↔ m.get? file.path = some file.bytes := by
  rw [filesOf, List.mem_map]
  constructor
  · rintro ⟨⟨path, bytes⟩, he, rfl⟩
    exact BTreeMap.mem_entries_iff.mp he
  · exact fun h => ⟨_, BTreeMap.mem_entries_iff.mpr h, rfl⟩

theorem nodup_filesOf (m : BTreeMap Bytes Bytes) : ((filesOf m).map RawFile.path).Nodup := by
  rw [filesOf, List.map_map]
  exact m.keys_nodup

theorem filesOf_sortFiles {files : List RawFile} (h : ((sortFiles files).map RawFile.path).Nodup) :
    filesOf (.ofList ((sortFiles files).map RawFile.entry)) = sortFiles files := by
  have hle : ((sortFiles files).map RawFile.path).Pairwise (· ≤ ·) :=
    List.pairwise_map.mpr (List.pairwise_insertionSort _ _)
  have hlt : (((sortFiles files).map RawFile.entry).map Prod.fst).Pairwise (· < ·) := by
    rw [List.map_map]
    exact (hle.and h).imp fun h => lt_of_le_of_ne h.1 h.2
  rw [filesOf, BTreeMap.entries_ofList_of_sorted hlt, List.map_map]
  exact List.map_id _

/-- One store holds every file of the other. -/
def ContainedIn (s t : BTreeMap Bytes Bytes) : Prop := ∀ path bytes, s.get? path = some bytes → t.get? path = some bytes

def AgreeOnCommonPaths (s t : BTreeMap Bytes Bytes) : Prop :=
  ∀ path a b, s.get? path = some a → t.get? path = some b → a = b

def unionOf (s t : BTreeMap Bytes Bytes) : BTreeMap Bytes Bytes := t.entries.foldl (fun m e => m.insert e.1 e.2) s

theorem get?_unionOf {s t : BTreeMap Bytes Bytes} {path bytes : Bytes} :
    (unionOf s t).get? path = some bytes ↔ t.get? path = some bytes ∨ (t.get? path = none ∧ s.get? path = some bytes) := by
  rw [unionOf, BTreeMap.get?_foldl_insert t.keys_nodup, BTreeMap.mem_entries_iff]
  exact or_congr_right (and_congr_left' BTreeMap.notMem_keys_iff)

theorem containedIn_unionOf_left {s t : BTreeMap Bytes Bytes} (h : AgreeOnCommonPaths s t) :
    ContainedIn s (unionOf s t) := by
  intro path bytes hs
  rw [get?_unionOf]
  cases ht : t.get? path with
  | none => exact .inr ⟨rfl, hs⟩
  | some other => exact .inl (by rw [h path bytes other hs ht])

theorem containedIn_unionOf_right (s t : BTreeMap Bytes Bytes) : ContainedIn t (unionOf s t) :=
  fun _ _ h => get?_unionOf.mpr (.inl h)

section

variable [Jiff]

/-- What a file decodes to does not depend on the registry it passes. -/
theorem decodeRecord_congr {bytes : Bytes} {registry registry' : DomainRegistry} {record record' : Record}
    (h : decodeRecord bytes registry = .ok record) (h' : decodeRecord bytes registry' = .ok record') :
    record = record' := by
  obtain ⟨value, hvalue, hread, -⟩ := decodeRecord_eq_ok.mp h
  obtain ⟨value', hvalue', hread', -⟩ := decodeRecord_eq_ok.mp h'
  cases hvalue.symm.trans hvalue'
  exact Except.ok.inj (hread.symm.trans hread')

theorem decodeVisibleFile_record {file : RawFile} {registry : DomainRegistry} {record : Record} :
    decodeVisibleFile file registry = .ok (.record record) ↔
      classifyPath file.path = .journalRecord ∧ decodeRecord file.bytes registry = .ok record ∧
        asBytes record.canonicalPath = file.path := by
  unfold decodeVisibleFile
  split
  · rename_i hclass
    simp only [except_bind_eq_ok, guard_bind_eq_ok, pure_eq_ok, hclass]
    constructor
    · rintro ⟨_, -, -, h⟩
      cases h
    · rintro ⟨h, -⟩
      cases h
  · rename_i hclass
    simp only [except_bind_eq_ok, mapError_eq_ok, guard_bind_eq_ok, pure_eq_ok, not_not, hclass, true_and]
    constructor
    · rintro ⟨_, hdecode, hpath, h⟩
      cases h
      exact ⟨hdecode, hpath⟩
    · rintro ⟨hdecode, hpath⟩
      exact ⟨record, hdecode, hpath, rfl⟩
  all_goals
    rename_i hclass
    simp [hclass]

theorem decodeVisibleFile_record_congr {file : RawFile} {registry registry' : DomainRegistry} {record : Record}
    (h : decodeVisibleFile file registry = .ok (.record record)) (h' : Decodes registry' file) :
    decodeVisibleFile file registry' = .ok (.record record) := by
  obtain ⟨hclass, hdecode, hpath⟩ := decodeVisibleFile_record.mp h
  obtain ⟨decoded, hdecoded⟩ := h'
  have hdecoded' := hdecoded
  unfold decodeVisibleFile at hdecoded
  rw [hclass] at hdecoded
  simp only [except_bind_eq_ok, mapError_eq_ok] at hdecoded
  obtain ⟨record', hdecode', -⟩ := hdecoded
  rw [decodeRecord_congr hdecode hdecode'] at hpath ⊢
  exact decodeVisibleFile_record.mpr ⟨hclass, hdecode', hpath⟩

theorem mem_storedOf_iff {registry : DomainRegistry} {files : List RawFile} (hnodup : (files.map RawFile.path).Nodup)
    {member : StoredMember} : member ∈ storedOf registry files ↔
      ∃ record, ⟨member.path, member.bytes⟩ ∈ files ∧
        decodeVisibleFile ⟨member.path, member.bytes⟩ registry = .ok (.record record) := by
  rw [mem_storedOf]
  exact exists_congr fun record => get?_recordsByPathOf hnodup

theorem storedOf_eq_nil {registry : DomainRegistry} {files : List RawFile} :
    storedOf registry files = [] ↔ recordsOf registry files = [] := by
  rw [storedOf, recordsOf, BTreeMap.values, List.map_map, List.map_eq_nil_iff, List.map_eq_nil_iff]

theorem decodeIdentityMember_eq_ok {registry : DomainRegistry} {member : StoredMember} {d : StoredMember × Record} :
    decodeIdentityMember registry member = .ok d ↔
      decodeRecord member.bytes registry = .ok d.2 ∧ asBytes d.2.canonicalPath = member.path ∧ d.1 = member := by
  simp only [decodeIdentityMember, except_bind_eq_ok, mapError_eq_ok, guard_bind_eq_ok, pure_eq_ok, not_not]
  constructor
  · rintro ⟨record, hdecode, hpath, rfl⟩
    exact ⟨hdecode, hpath, rfl⟩
  · rintro ⟨hdecode, hpath, hmember⟩
    exact ⟨d.2, hdecode, hpath, Prod.ext hmember rfl⟩

theorem mem_decoded {registry : DomainRegistry} {members : List StoredMember} {decoded : List (StoredMember × Record)}
    (h : List.Forall₂ (fun m d => decodeIdentityMember registry m = .ok d) members decoded)
    {d : StoredMember × Record} :
    d ∈ decoded ↔ d.1 ∈ members ∧ decodeRecord d.1.bytes registry = .ok d.2 ∧
      asBytes d.2.canonicalPath = d.1.path := by
  induction h with
  | nil => simp
  | cons hhead _ ih =>
    rename_i m d' _ _
    obtain ⟨hdecode, hpath, hmember⟩ := decodeIdentityMember_eq_ok.mp hhead
    rw [List.mem_cons, List.mem_cons, ih]
    constructor
    · rintro (rfl | ⟨hmem, hrest⟩)
      · exact ⟨.inl hmember, hmember ▸ hdecode, hmember ▸ hpath⟩
      · exact ⟨.inr hmem, hrest⟩
    · rintro ⟨hm | hmem, hrest⟩
      · refine .inl (Prod.ext (hm.trans hmember.symm) ?_)
        rw [hm] at hrest
        exact decodeRecord_congr hrest.1 hdecode
      · exact .inr ⟨hmem, hrest⟩

variable [Blake3]

/-- The one genesis file of a store and the identity it gives. -/
structure GenesisFile (registry : DomainRegistry) (files : List RawFile) (identity : Option StoreIdentity)
    (file : RawFile) (record : Record) : Prop where
  mem : file ∈ files
  decode : decodeVisibleFile file registry = .ok (.record record)
  genesis : record.isGenesis = true
  identity : identityOfGenesis file.path file.bytes record = .ok identity
  unique : ∀ other ∈ files, ∀ r, decodeVisibleFile other registry = .ok (.record r) → r.isGenesis = true →
    other = file

/-- The identity check names the only genesis among the decoded members. -/
theorem genesis_of_validateStoreIdentity {manifests : List BatchManifest} {members : List StoredMember}
    {registry : DomainRegistry} {identity : Option StoreIdentity} (hne : members ≠ [])
    (h : validateStoreIdentity manifests members registry = .ok identity) :
    ∃ decoded member record, List.Forall₂ (fun m d => decodeIdentityMember registry m = .ok d) members decoded ∧
      decoded.filter (fun d => d.2.isGenesis) = [(member, record)] ∧
      identityOfGenesis member.path member.bytes record = .ok identity := by
  unfold validateStoreIdentity at h
  have hempty : ¬(manifests.isEmpty && members.isEmpty) = true := by
    intro hempty
    rw [Bool.and_eq_true, List.isEmpty_iff, List.isEmpty_iff] at hempty
    exact hne hempty.2
  rw [if_neg hempty] at h
  simp only [guard_bind_eq_ok, except_bind_eq_ok, mapM_eq_ok] at h
  obtain ⟨-, -, -, -, decoded, hdecoded, -, h⟩ := h
  split at h
  · cases h
  · rename_i member record hfilter
    refine ⟨decoded, member, record, hdecoded, hfilter, ?_⟩
    split at h
    · simp only [guard_bind_eq_ok] at h
      exact h.2.2
    · cases h
  · cases h

/-- Without members there is no identity. -/
theorem validateStoreIdentity_nil {manifests : List BatchManifest} {registry : DomainRegistry}
    {identity : Option StoreIdentity} (h : validateStoreIdentity manifests [] registry = .ok identity) :
    identity = none := by
  unfold validateStoreIdentity at h
  split at h
  · exact pure_eq_ok.mp h
  · simp only [guard_bind_eq_ok, except_bind_eq_ok, List.mapM_nil, pure_eq_ok] at h
    obtain ⟨-, -, -, -, _, rfl, -, h⟩ := h
    cases h

/-- An accepted strict store with a record has exactly one genesis file. -/
theorem genesisFile_of_scans {store : Store} {files : List RawFile} {snapshot : StoreSnapshot}
    (hstrict : store.strictDomains = true) (hnodup : (files.map RawFile.path).Nodup)
    (h : Scans store files snapshot) (hrecords : snapshot.records ≠ []) :
    ∃ file record, GenesisFile store.registry files snapshot.identity file record := by
  have hstored : storedOf store.registry files ≠ [] := by
    intro hnil
    exact hrecords (h.records_eq.trans (storedOf_eq_nil.mp hnil))
  have hidentity := h.identity
  simp only [identityOf, hstrict, if_true, except_bind_eq_ok, mapError_eq_ok, pure_eq_ok] at hidentity
  obtain ⟨identity, hvalidate, -, -, rfl⟩ := hidentity
  obtain ⟨decoded, member, record, hdecoded, hfilter, hgenesis⟩ := genesis_of_validateStoreIdentity hstored hvalidate
  have hmem : (member, record) ∈ decoded.filter (fun d => d.2.isGenesis) := by
    rw [hfilter]
    exact List.mem_cons_self
  obtain ⟨hmem, hisGenesis⟩ := List.mem_filter.mp hmem
  obtain ⟨hmember, hdecode, hpath⟩ := (mem_decoded hdecoded).mp hmem
  obtain ⟨other, hfile, hvisible⟩ := (mem_storedOf_iff hnodup).mp hmember
  have hother := (decodeVisibleFile_record.mp hvisible).2.1
  obtain rfl := decodeRecord_congr hdecode hother
  refine ⟨⟨member.path, member.bytes⟩, record, hfile, hvisible, hisGenesis, hgenesis, ?_⟩
  intro file hmem' r hr hrGenesis
  obtain ⟨-, hrdecode, hrpath⟩ := decodeVisibleFile_record.mp hr
  have hd : ((⟨file.path, file.bytes⟩ : StoredMember), r) ∈ decoded.filter (fun d => d.2.isGenesis) :=
    List.mem_filter.mpr ⟨(mem_decoded hdecoded).mpr ⟨(mem_storedOf_iff hnodup).mpr ⟨r, hmem', hr⟩, hrdecode, hrpath⟩,
      hrGenesis⟩
  rw [hfilter] at hd
  cases List.mem_singleton.mp hd
  rfl

/-- More files do not change which file is the genesis. -/
theorem GenesisFile.identity_eq {registry registry' : DomainRegistry} {files files' : List RawFile}
    {identity identity' : Option StoreIdentity} {file file' : RawFile} {record record' : Record}
    (h : GenesisFile registry files identity file record) (h' : GenesisFile registry' files' identity' file' record')
    (hsub : ∀ f ∈ files, f ∈ files') (hdecodes : ∀ f ∈ files', Decodes registry' f) : identity = identity' := by
  have hmem := hsub file h.mem
  have hdecode := decodeVisibleFile_record_congr h.decode (hdecodes file hmem)
  obtain rfl := h'.unique file hmem record hdecode h.genesis
  have heq := hdecode.symm.trans h'.decode
  simp only [Except.ok.injEq, DecodedFile.record.injEq] at heq
  subst heq
  exact Except.ok.inj (h.identity.symm.trans h'.identity)

theorem identityOfGenesis_isSome {path bytes : Bytes} {record : Record} {identity : Option StoreIdentity}
    (h : identityOfGenesis path bytes record = .ok identity) : identity ≠ none := by
  unfold identityOfGenesis at h
  split at h
  · cases h
  · split at h
    · cases h
    · split at h
      · cases h
      · rw [← Except.ok.inj h]
        exact Option.some_ne_none _

theorem records_ne_nil_of_identity {store : Store} {files : List RawFile} {snapshot : StoreSnapshot}
    {identity : StoreIdentity} (h : Scans store files snapshot) (hidentity : snapshot.identity = some identity) :
    snapshot.records ≠ [] := by
  rw [h.records_eq, Ne, ← storedOf_eq_nil]
  intro hnil
  have hscan := h.identity
  rw [identityOf, hnil, hidentity] at hscan
  split at hscan
  · simp only [except_bind_eq_ok, mapError_eq_ok, pure_eq_ok] at hscan
    obtain ⟨found, hvalidate, -, -, rfl⟩ := hscan
    cases validateStoreIdentity_nil hvalidate
  · cases hscan

section

variable {S T : Store} {s t : BTreeMap Bytes Bytes} {a b : StoreSnapshot}

theorem identity_of_containedIn (hS : S.strictDomains = true) (hT : T.strictDomains = true)
    (ha : scanCollected S (filesOf s) [] = .ok a) (hb : scanCollected T (filesOf t) [] = .ok b)
    (hrecords : a.records ≠ []) (hsub : ContainedIn s t) : ∃ identity, a.identity = some identity ∧
      b.identity = some identity := by
  have hscan := (scanCollected_eq_ok.mp ha).2
  have hscan' := (scanCollected_eq_ok.mp hb).2
  obtain ⟨file, record, hgenesis⟩ := genesisFile_of_scans hS (nodup_filesOf s) hscan hrecords
  have hmem : ∀ f ∈ filesOf s, f ∈ filesOf t := fun f hf => mem_filesOf.mpr (hsub _ _ (mem_filesOf.mp hf))
  have hrecords' : b.records ≠ [] := by
    rw [hscan'.records_eq, Ne, ← storedOf_eq_nil]
    have hfile := hmem file hgenesis.mem
    have hdecode := decodeVisibleFile_record_congr hgenesis.decode (hscan'.decodes file hfile)
    have hmember : (⟨file.path, file.bytes⟩ : StoredMember) ∈ storedOf T.registry (filesOf t) :=
      (mem_storedOf_iff (nodup_filesOf t)).mpr ⟨record, hfile, hdecode⟩
    exact List.ne_nil_of_mem hmember
  obtain ⟨file', record', hgenesis'⟩ := genesisFile_of_scans hT (nodup_filesOf t) hscan' hrecords'
  have heq := hgenesis.identity_eq hgenesis' hmem hscan'.decodes
  obtain ⟨identity, hidentity⟩ := Option.ne_none_iff_exists'.mp (identityOfGenesis_isSome hgenesis.identity)
  exact ⟨identity, hidentity, heq ▸ hidentity⟩

end

end

attribute [local instance] Sample.jiff Sample.blake3

theorem unionOf_self (s : BTreeMap Bytes Bytes) : unionOf s s = s := by
  refine BTreeMap.ext_get? fun path => Option.ext fun bytes => ?_
  rw [get?_unionOf]
  constructor
  · rintro (h | ⟨-, h⟩)
    · exact h
    · exact h
  · exact .inl

end Wayjournal
