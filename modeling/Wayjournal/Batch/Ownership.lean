import Wayjournal.Batch.PreparedLaws
import Wayjournal.Store.FirstBatch

namespace Wayjournal

open Collections Serde Text

def RecordRef.storedPath (reference : RecordRef) : Bytes := asBytes reference.path

def BatchManifest.memberPaths (manifest : BatchManifest) : List Bytes := manifest.members.map RecordRef.storedPath

theorem nodup_memberPaths {bytes : Bytes} {manifest : BatchManifest}
    (h : decodeBatchManifest bytes = .ok manifest) : manifest.memberPaths.Nodup := by
  have hsorted := (encode_decodeBatchManifest h).2.2
  rw [sortedMembers, Bool.and_eq_true, ascending_iff] at hsorted
  have hpaths := List.Nodup.map asBytes_injective (hsorted.1.imp ne_of_lt)
  rwa [List.map_map] at hpaths

theorem foldlM_insertMember_eq_ok {members : List StoredMember} {byPath : BTreeMap Bytes Bytes} :
    members.foldlM insertMember ∅ = .ok byPath ↔
      (members.map StoredMember.path).Nodup ∧ byPath = .ofList (members.map (fun x => (x.path, x.bytes))) := by
  have hnodup : ∀ (l : List StoredMember) (m : BTreeMap Bytes Bytes), l.foldlM insertMember m = .ok byPath →
      (l.map StoredMember.path).Nodup ∧ ∀ x ∈ l, x.path ∉ m.keys := by
    intro l
    induction l with
    | nil => simp
    | cons a t ih =>
      intro m h
      rw [List.foldlM_cons, except_bind_eq_ok] at h
      obtain ⟨m', hstep, h⟩ := h
      rw [insertMember] at hstep
      split at hstep
      · cases hstep
      · rename_i hnew
        cases hstep
        rw [BTreeMap.containsKey_iff] at hnew
        obtain ⟨ht, hfresh⟩ := ih _ h
        refine ⟨?_, ?_⟩
        · rw [List.map_cons, List.nodup_cons]
          refine ⟨?_, ht⟩
          intro hmem
          obtain ⟨x, hx, hpath⟩ := List.mem_map.mp hmem
          exact hfresh x hx (BTreeMap.mem_keys_insert.mpr (.inl hpath))
        · intro x hx hkey
          obtain rfl | hx := List.mem_cons.mp hx
          · exact hnew hkey
          · exact hfresh x hx (BTreeMap.mem_keys_insert.mpr (.inr hkey))
  constructor
  · intro h
    have hpaths := (hnodup members ∅ h).1
    have hinsert := foldlM_insertMember hpaths (m := ∅) fun _ _ => rfl
    rw [h, foldl_insertMember] at hinsert
    exact ⟨hpaths, Except.ok.inj hinsert⟩
  · rintro ⟨hpaths, rfl⟩
    rw [foldlM_insertMember hpaths (m := ∅) fun _ _ => rfl, foldl_insertMember]

theorem get?_ofList_members {members : List StoredMember} (h : (members.map StoredMember.path).Nodup)
    {path bytes : Bytes} :
    (BTreeMap.ofList (members.map (fun x => (x.path, x.bytes)))).get? path = some bytes ↔
      ⟨path, bytes⟩ ∈ members := by
  rw [BTreeMap.get?_ofList (by rwa [List.map_map]), List.mem_map]
  constructor
  · rintro ⟨x, hx, heq⟩
    cases heq
    exact hx
  · intro hx
    exact ⟨_, hx, rfl⟩

theorem get?_foldl_erase_storedPath {l : List RecordRef} {m : BTreeMap Bytes Bytes} {k : Bytes} :
    (l.foldl (fun m r => m.erase r.storedPath) m).get? k =
      if k ∈ l.map RecordRef.storedPath then none else m.get? k := by
  induction l generalizing m with
  | nil => simp
  | cons r rest ih =>
    rw [List.foldl_cons, ih, BTreeMap.get?_erase]
    by_cases hk : r.storedPath = k
    · simp [hk]
    · simp [Ne.symm hk]

theorem mapM_lookup_eq_ok {byPath : BTreeMap Bytes Bytes} {references : List RecordRef}
    {stored : List StoredMember} :
    references.mapM (fun member =>
      match byPath.get? (asBytes member.path) with
      | none => Except.error (BatchError.ownershipMissingMember (asBytes member.path))
      | some bytes => .ok (⟨asBytes member.path, bytes⟩ : StoredMember)) = .ok stored ↔
      List.Forall₂ (fun reference (x : StoredMember) => x.path = reference.storedPath ∧
        byPath.get? reference.storedPath = some x.bytes) references stored := by
  rw [mapM_eq_ok]
  refine Iff.of_eq (congrArg (fun R => List.Forall₂ R references stored) ?_)
  funext reference x
  change _ = (x.path = asBytes reference.path ∧ byPath.get? (asBytes reference.path) = some x.bytes)
  cases hget : byPath.get? (asBytes reference.path) with
  | none => simp
  | some bytes =>
    simp only [Except.ok.injEq, Option.some.injEq, eq_iff_iff]
    constructor
    · rintro rfl
      exact ⟨rfl, rfl⟩
    · rintro ⟨hpath, rfl⟩
      cases x
      cases hpath
      rfl

theorem forall₂_zip {R : α → β → Prop} {l : List α} {m : List β} (h : List.Forall₂ R l m) :
    List.Forall₂ (fun a x => x.1 = a ∧ R a x.2) l (l.zip m) := by
  induction h with
  | nil => exact .nil
  | cons hab _ ih => exact .cons ⟨rfl, hab⟩ ih

theorem exists_pairs_of_forall₂ {P : α → β → γ → Prop} {l : List α} {m : List β}
    (h : List.Forall₂ (fun a b => ∃ c, P a b c) l m) :
    ∃ n : List (β × γ), List.Forall₂ (fun a x => P a x.1 x.2) l n ∧ n.map Prod.fst = m := by
  induction h with
  | nil => exact ⟨[], .nil, rfl⟩
  | cons hab _ ih =>
    obtain ⟨c, hc⟩ := hab
    obtain ⟨n, hn, rfl⟩ := ih
    exact ⟨(_, c) :: n, .cons hc hn, rfl⟩

def addOwner (ownership : Ownership) (path : Bytes) : Ownership := ownership.update path 0 (· + 1)

theorem getD_foldl_addOwner (paths : List Bytes) (ownership : Ownership) (path : Bytes) :
    ((paths.foldl addOwner ownership).get? path).getD 0 = (ownership.get? path).getD 0 + paths.count path := by
  induction paths generalizing ownership with
  | nil => simp
  | cons p t ih =>
    rw [List.foldl_cons, ih, addOwner, BTreeMap.get?_update, List.count_cons]
    by_cases hp : path = p
    · subst hp
      simp only [if_true, Option.getD_some, beq_self_eq_true]
      omega
    · simp [hp, Ne.symm hp]

theorem mem_keys_foldl_addOwner {paths : List Bytes} {ownership : Ownership} {path : Bytes} :
    path ∈ (paths.foldl addOwner ownership).keys ↔ path ∈ ownership.keys ∨ path ∈ paths := by
  induction paths generalizing ownership with
  | nil => simp
  | cons p t ih =>
    rw [List.foldl_cons, ih, addOwner, BTreeMap.update, BTreeMap.mem_keys_insert, List.mem_cons]
    tauto

/-- Exactly one owner for each of `paths`, and no owner of anything else. -/
theorem count_eq_one_iff {paths owners : List Bytes} :
    ((∀ path ∈ paths, owners.count path = 1) ∧ ∀ path ∈ owners, path ∈ paths) ↔
      owners.Nodup ∧ ∀ path, path ∈ paths ↔ path ∈ owners := by
  constructor
  · rintro ⟨hone, hsub⟩
    refine ⟨List.nodup_iff_count_le_one.mpr (fun path => ?_), fun path => ⟨fun hmem => ?_, hsub path⟩⟩
    · by_cases hmem : path ∈ owners
      · exact (hone path (hsub path hmem)).le
      · rw [List.count_eq_zero.mpr hmem]
        exact Nat.zero_le _
    · exact List.count_pos_iff.mp (hone path hmem ▸ Nat.one_pos)
  · rintro ⟨hnodup, heq⟩
    exact ⟨fun path hmem => List.count_eq_one_of_mem hnodup ((heq path).mp hmem), fun path => (heq path).mpr⟩

theorem forIn_owners_eq_ok {ownership : Ownership} {paths : List Bytes} :
    (∃ u, (forIn paths PUnit.unit.{1} fun path (_ : PUnit.{1}) =>
      (match (ownership.get? path).getD 0 with
        | 0 => do
          throw (BatchError.unownedRecord path)
          pure (ForInStep.yield PUnit.unit)
        | 1 => pure (ForInStep.yield PUnit.unit)
        | _ => do
          throw (BatchError.multiplyOwnedRecord path)
          pure (ForInStep.yield PUnit.unit) : Except BatchError (ForInStep PUnit.{1}))) = .ok u) ↔
      ∀ path ∈ paths, (ownership.get? path).getD 0 = 1 := by
  apply forIn_eq_ok
  intro path s
  generalize (ownership.get? path).getD 0 = count
  match count with
  | 0 => exact iff_of_false (fun h => by cases h) (fun h => by cases h.1)
  | 1 => simp [pure_eq_ok]
  | n + 2 => exact iff_of_false (fun h => by cases h) (fun h => by cases h.1)

theorem find_missing_eq_ok {paths : BTreeSet Bytes} {owners : List Bytes} :
    (match owners.find? (fun path => !paths.containsKey path) with
      | some path => throw (BatchError.ownershipMissingMember path)
      | _ => pure () : Except BatchError Unit) = .ok () ↔ ∀ path ∈ owners, path ∈ paths.keys := by
  cases hfind : owners.find? (fun path => !paths.containsKey path) with
  | none =>
    simp only [List.find?_eq_none, Bool.not_eq_true', Bool.not_eq_false, BTreeMap.containsKey_iff] at hfind
    exact iff_of_true rfl hfind
  | some path =>
    refine iff_of_false (fun h => by cases h) (fun h => ?_)
    have hnot := List.find?_some hfind
    have hmem := h path (List.mem_of_find?_eq_some hfind)
    rw [BTreeMap.containsKey_iff.mpr hmem] at hnot
    cases hnot

section

variable [Jiff]

theorem foldlM_checkStoredRecord_eq_ok {registry : DomainRegistry} {records : List StoredMember}
    {paths paths' : BTreeSet Bytes} :
    records.foldlM (checkStoredRecord registry) paths = .ok paths' ↔
      (records.map StoredMember.path).Nodup ∧ (∀ r ∈ records, r.path ∉ paths.keys) ∧
        (∀ r ∈ records, ∃ record, decodeRecord r.bytes registry = .ok record) ∧
        paths' = records.foldl (fun s r => s.insert r.path ()) paths := by
  induction records generalizing paths with
  | nil => simp [pure_eq_ok]
  | cons r t ih =>
    simp only [List.foldlM_cons, except_bind_eq_ok, checkStoredRecord, guard_bind_eq_ok, mapError_eq_ok, pure_eq_ok,
      BTreeMap.containsKey_iff, ih, List.forall_mem_cons, List.map_cons, List.nodup_cons, List.foldl_cons]
    constructor
    · rintro ⟨_, ⟨hnew, record, hdecode, rfl⟩, ht, hfresh, hdecodes, rfl⟩
      refine ⟨⟨?_, ht⟩, ⟨hnew, fun x hx => ?_⟩, ⟨⟨record, hdecode⟩, hdecodes⟩, rfl⟩
      · intro hmem
        obtain ⟨x, hx, hpath⟩ := List.mem_map.mp hmem
        exact hfresh x hx (BTreeMap.mem_keys_insert.mpr (.inl hpath))
      · exact fun hkey => hfresh x hx (BTreeMap.mem_keys_insert.mpr (.inr hkey))
    · rintro ⟨⟨hnew, ht⟩, ⟨hfresh, hrest⟩, ⟨⟨record, hdecode⟩, hdecodes⟩, rfl⟩
      refine ⟨_, ⟨hfresh, record, hdecode, rfl⟩, ht, fun x hx hkey => ?_, hdecodes, rfl⟩
      obtain hpath | hkey := BTreeMap.mem_keys_insert.mp hkey
      · exact hnew (hpath ▸ List.mem_map_of_mem hx)
      · exact hrest x hx hkey

variable [Blake3]

/-- The stored bytes are the ones the reference of the manifest names. -/
structure MemberMatches (manifest : BatchManifest) (registry : DomainRegistry) (reference : RecordRef)
    (bytes : Bytes) (record : Record) : Prop where
  digest : contentDigest bytes = reference.contentDigest
  decodes : decodeRecord bytes registry = .ok record
  path : record.canonicalPath = reference.path
  recordId : record.recordId = reference.recordId
  recordSchema : record.recordSchema = reference.recordSchema
  batchId : record.batchId = manifest.batchId
  actor : record.actor = manifest.actor

variable {manifest : BatchManifest} {registry : DomainRegistry}

theorem validateMember_eq_ok {reference : RecordRef} {bytes : Bytes} {record : Record} :
    validateMember manifest registry reference bytes = .ok record ↔
      MemberMatches manifest registry reference bytes record := by
  simp only [validateMember, guard_bind_eq_ok, except_bind_eq_ok, mapError_eq_ok, pure_eq_ok, not_not,
    Bool.not_eq_true, Bool.or_eq_false_iff, decide_eq_false_iff_not]
  constructor
  · rintro ⟨hdigest, r, hdecode, ⟨⟨hpath, hid⟩, hschema⟩, hbatch, hactor, rfl⟩
    exact ⟨hdigest, hdecode, hpath, hid, hschema, hbatch, hactor⟩
  · rintro ⟨hdigest, hdecode, hpath, hid, hschema, hbatch, hactor⟩
    exact ⟨hdigest, record, hdecode, ⟨⟨hpath, hid⟩, hschema⟩, hbatch, hactor, rfl⟩

theorem claimMember_eq_ok {claimed claimed' : Claimed} {reference : RecordRef} :
    claimMember manifest registry claimed reference = .ok claimed' ↔
      ∃ bytes record, claimed.1.get? reference.storedPath = some bytes ∧
        MemberMatches manifest registry reference bytes record ∧
        claimed' = (claimed.1.erase reference.storedPath, claimed.2.1 ++ [(reference.storedPath, bytes)],
          claimed.2.2 ++ [record]) := by
  simp only [claimMember]
  change (match claimed.1.get? reference.storedPath with | some bytes => _ | _ => _) = _ ↔ _
  cases hget : claimed.1.get? reference.storedPath with
  | none => simp [throw_eq_ok]
  | some bytes =>
    simp only [except_bind_eq_ok, validateMember_eq_ok, pure_eq_ok, Option.some.injEq]
    constructor
    · rintro ⟨record, hmatch, rfl⟩
      exact ⟨bytes, record, rfl, hmatch, rfl⟩
    · rintro ⟨bytes, record, rfl, hmatch, rfl⟩
      exact ⟨record, hmatch, rfl⟩

theorem foldlM_claimMember_eq_ok {l : List RecordRef} (hnodup : (l.map RecordRef.storedPath).Nodup)
    {claimed claimed' : Claimed} :
    l.foldlM (claimMember manifest registry) claimed = .ok claimed' ↔
      ∃ found : List (Bytes × Record),
        List.Forall₂ (fun reference (x : Bytes × Record) => claimed.1.get? reference.storedPath = some x.1 ∧
          MemberMatches manifest registry reference x.1 x.2) l found ∧
        claimed' = (l.foldl (fun m r => m.erase r.storedPath) claimed.1,
          claimed.2.1 ++ (l.map RecordRef.storedPath).zip (found.map Prod.fst),
          claimed.2.2 ++ found.map Prod.snd) := by
  induction l generalizing claimed with
  | nil =>
    rw [List.foldlM_nil, pure_eq_ok]
    constructor
    · rintro rfl
      exact ⟨[], .nil, by simp⟩
    · rintro ⟨found, hfound, rfl⟩
      cases hfound
      simp
  | cons reference t ih =>
    rw [List.map_cons, List.nodup_cons] at hnodup
    have herase : ∀ found : List (Bytes × Record),
        List.Forall₂ (fun r (x : Bytes × Record) => (claimed.1.erase reference.storedPath).get? r.storedPath =
          some x.1 ∧ MemberMatches manifest registry r x.1 x.2) t found ↔
        List.Forall₂ (fun r (x : Bytes × Record) => claimed.1.get? r.storedPath = some x.1 ∧
          MemberMatches manifest registry r x.1 x.2) t found := by
      intro found
      have hother : ∀ r ∈ t, (claimed.1.erase reference.storedPath).get? r.storedPath =
          claimed.1.get? r.storedPath := by
        intro r hr
        rw [BTreeMap.get?_erase, if_neg]
        intro heq
        exact hnodup.1 (List.mem_map.mpr ⟨r, hr, heq⟩)
      constructor <;> intro h <;> refine List.forall₂_iff_zip.mpr ⟨h.length_eq, fun {r x} hmem => ?_⟩
      · have hx := (List.forall₂_iff_zip.mp h).2 hmem
        rwa [hother r (List.of_mem_zip hmem).1] at hx
      · have hx := (List.forall₂_iff_zip.mp h).2 hmem
        rwa [hother r (List.of_mem_zip hmem).1]
    simp only [List.foldlM_cons, except_bind_eq_ok, claimMember_eq_ok, ih hnodup.2]
    constructor
    · rintro ⟨_, ⟨bytes, record, hget, hmatch, rfl⟩, found, hfound, rfl⟩
      refine ⟨(bytes, record) :: found, .cons ⟨hget, hmatch⟩ ((herase found).mp hfound), ?_⟩
      simp
    · rintro ⟨found, hfound, rfl⟩
      cases hfound with
      | cons hhead htail =>
        exact ⟨_, ⟨_, _, hhead.1, hhead.2, rfl⟩, _, (herase _).mpr htail, by simp⟩

/-- The bytes of every member, in the order of the manifest, hashed to its request digest. -/
def RequestMatches (manifest : BatchManifest) (contents : List Bytes) : Prop :=
  framedHash REQUEST_DIGEST_DOMAIN (manifest.memberPaths.zip contents) = manifest.requestDigest

theorem validateBatchMembers_eq_ok (hnodup : manifest.memberPaths.Nodup) {members : List StoredMember}
    {records : List Record} :
    validateBatchMembers manifest members registry = .ok records ↔
      (members.map StoredMember.path).Nodup ∧ (∀ x ∈ members, x.path ∈ manifest.memberPaths) ∧
        ∃ found : List (Bytes × Record),
          List.Forall₂ (fun reference (x : Bytes × Record) => ⟨reference.storedPath, x.1⟩ ∈ members ∧
            MemberMatches manifest registry reference x.1 x.2) manifest.members found ∧
          RequestMatches manifest (found.map Prod.fst) ∧ records = found.map Prod.snd := by
  have hrest : ∀ (byPath : BTreeMap Bytes Bytes),
      (manifest.members.foldl (fun m r => m.erase r.storedPath) byPath).keys.head? = none ↔
        ∀ path ∈ byPath.keys, path ∈ manifest.memberPaths := by
    intro byPath
    rw [List.head?_eq_none_iff, List.eq_nil_iff_forall_not_mem]
    constructor
    · intro h path hpath
      by_contra hnot
      refine BTreeMap.notMem_keys_iff.mpr ?_ hpath
      have hget := BTreeMap.notMem_keys_iff.mp (h path)
      rw [get?_foldl_erase_storedPath] at hget
      exact (if_neg hnot).symm.trans hget
    · intro h path
      rw [BTreeMap.notMem_keys_iff, get?_foldl_erase_storedPath]
      split
      · rfl
      · rename_i hnot
        exact BTreeMap.notMem_keys_iff.mp (fun hpath => hnot (h path hpath))
  simp only [validateBatchMembers, except_bind_eq_ok, foldlM_insertMember_eq_ok,
    foldlM_claimMember_eq_ok hnodup, Prod.exists]
  constructor
  · rintro ⟨_, ⟨hpaths, rfl⟩, rest, hashed, decoded, ⟨found, hfound, heq⟩, h⟩
    cases heq
    simp only [get?_ofList_members hpaths] at hfound
    split at h
    · cases h
    · rename_i hnone
      simp only [guard_bind_eq_ok, not_not, pure_eq_ok, List.nil_append] at h
      have hkeys := (hrest _).mp (Option.eq_none_iff_forall_ne_some.mpr hnone)
      refine ⟨hpaths, ?_, found, hfound, h.1, h.2⟩
      intro x hx
      exact hkeys x.path (BTreeMap.mem_keys_iff.mpr ⟨x.bytes, (get?_ofList_members hpaths).mpr hx⟩)
  · rintro ⟨hpaths, hsub, found, hfound, hrequest, rfl⟩
    have hkeys : ∀ path ∈ (BTreeMap.ofList (members.map (fun x => (x.path, x.bytes)))).keys,
        path ∈ manifest.memberPaths := by
      intro path hpath
      obtain ⟨bytes, hget⟩ := BTreeMap.mem_keys_iff.mp hpath
      exact hsub _ ((get?_ofList_members hpaths).mp hget)
    refine ⟨_, ⟨hpaths, rfl⟩, _, _, _, ⟨found, ?_, rfl⟩, ?_⟩
    · simp only [get?_ofList_members hpaths]
      exact hfound
    · simp only [(hrest _).mpr hkeys, List.nil_append, guard_bind_eq_ok, not_not, pure_eq_ok, and_true]
      exact hrequest

theorem validateBatchMembers_perm (hnodup : manifest.memberPaths.Nodup) {members members' : List StoredMember}
    (hp : members.Perm members') {records : List Record}
    (h : validateBatchMembers manifest members registry = .ok records) :
    validateBatchMembers manifest members' registry = .ok records := by
  rw [validateBatchMembers_eq_ok hnodup] at h ⊢
  obtain ⟨hpaths, hsub, found, hfound, hrequest, rfl⟩ := h
  refine ⟨(hp.map _).nodup_iff.mp hpaths, fun x hx => hsub x (hp.mem_iff.mpr hx), found, ?_, hrequest, rfl⟩
  exact hfound.imp (fun _ _ hx => ⟨hp.mem_iff.mp hx.1, hx.2⟩)

/-- The members of the manifest lie among the stored records as it says. -/
def Owns (lookup : Bytes → Option Bytes) (registry : DomainRegistry) (manifest : BatchManifest) : Prop :=
  ∃ contents : List Bytes,
    List.Forall₂ (fun reference bytes => lookup reference.storedPath = some bytes ∧
      ∃ record, MemberMatches manifest registry reference bytes record) manifest.members contents ∧
    RequestMatches manifest contents

theorem ownManifest_eq_ok (hnodup : manifest.memberPaths.Nodup) {byPath : BTreeMap Bytes Bytes}
    {ownership ownership' : Ownership} :
    ownManifest byPath registry ownership manifest = .ok ownership' ↔
      Owns byPath.get? registry manifest ∧ ownership' = manifest.memberPaths.foldl addOwner ownership := by
  have hfold : manifest.members.foldl (fun o member => o.update (asBytes member.path) 0 (· + 1)) ownership =
      manifest.memberPaths.foldl addOwner ownership := by
    rw [BatchManifest.memberPaths, List.foldl_map]
    rfl
  simp only [ownManifest, except_bind_eq_ok, pure_eq_ok, hfold, validateBatchMembers_eq_ok hnodup]
  constructor
  · rintro ⟨stored, hmapM, _, ⟨-, -, found, hfound, hrequest, -⟩, rfl⟩
    have hstored := mapM_lookup_eq_ok.mp hmapM
    refine ⟨⟨found.map Prod.fst, ?_, hrequest⟩, rfl⟩
    have hget : ∀ x ∈ stored, byPath.get? x.path = some x.bytes := by
      intro x hx
      obtain ⟨i, hi, rfl⟩ := List.getElem_of_mem hx
      have hi' : i < manifest.members.length := hstored.length_eq ▸ hi
      obtain ⟨hpath, hbytes⟩ := hstored.get hi' hi
      simp only [List.get_eq_getElem] at hpath hbytes
      rw [hpath, hbytes]
    rw [List.forall₂_map_right_iff]
    exact hfound.imp (fun _ x hx => ⟨hget _ hx.1, x.2, hx.2⟩)
  · rintro ⟨⟨contents, hcontents, hrequest⟩, rfl⟩
    obtain ⟨found, hfound, rfl⟩ := exists_pairs_of_forall₂
      (hcontents.imp (fun _ _ h => (exists_and_left.mpr h : ∃ record, _ ∧ _)))
    have hlength := hfound.length_eq
    let stored := (manifest.members.zip found).map (fun x => (⟨x.1.storedPath, x.2.1⟩ : StoredMember))
    have hpaths : stored.map StoredMember.path = manifest.memberPaths := by
      rw [List.map_map]
      change (manifest.members.zip found).map (RecordRef.storedPath ∘ Prod.fst) = _
      rw [← List.map_map, List.map_fst_zip hlength.le, BatchManifest.memberPaths]
    refine ⟨stored, mapM_lookup_eq_ok.mpr ?_, _, ⟨by rwa [hpaths], ?_, found, ?_, hrequest, rfl⟩, rfl⟩
    · rw [List.forall₂_map_right_iff]
      exact (forall₂_zip hfound).imp (fun _ x hx => ⟨congrArg RecordRef.storedPath hx.1, hx.2.1⟩)
    · intro x hx
      rw [← hpaths]
      exact List.mem_map_of_mem hx
    · rw [List.forall₂_iff_zip] at hfound ⊢
      refine ⟨hlength, fun {reference x} hmem => ⟨?_, (hfound.2 hmem).2⟩⟩
      exact List.mem_map.mpr ⟨_, hmem, rfl⟩

variable {records : List StoredMember} {manifests : List BatchManifest}

theorem foldlM_ownManifest_eq_ok (hnodup : ∀ m ∈ manifests, m.memberPaths.Nodup) {byPath : BTreeMap Bytes Bytes}
    {ownership ownership' : Ownership} :
    manifests.foldlM (ownManifest byPath registry) ownership = .ok ownership' ↔
      (∀ m ∈ manifests, Owns byPath.get? registry m) ∧
        ownership' = (manifests.flatMap BatchManifest.memberPaths).foldl addOwner ownership := by
  induction manifests generalizing ownership with
  | nil => simp [pure_eq_ok]
  | cons m t ih =>
    have hm := hnodup m List.mem_cons_self
    have ht := fun n hn => hnodup n (List.mem_cons_of_mem _ hn)
    simp only [List.foldlM_cons, except_bind_eq_ok, ownManifest_eq_ok hm, ih ht, List.forall_mem_cons,
      List.flatMap_cons, List.foldl_append]
    constructor
    · rintro ⟨_, ⟨howns, rfl⟩, hrest, rfl⟩
      exact ⟨⟨howns, hrest⟩, rfl⟩
    · rintro ⟨⟨howns, hrest⟩, rfl⟩
      exact ⟨_, ⟨howns, rfl⟩, hrest, rfl⟩

/-- Every record belongs to exactly one manifest, and every manifest has its records. -/
structure OwnershipPartition (records : List StoredMember) (manifests : List BatchManifest)
    (registry : DomainRegistry) : Prop where
  distinct : (records.map StoredMember.path).Nodup
  decodes : ∀ r ∈ records, ∃ record, decodeRecord r.bytes registry = .ok record
  disjoint : manifests.Pairwise (fun a b => a.memberPaths.Disjoint b.memberPaths)
  covers : ∀ path, path ∈ records.map StoredMember.path ↔ ∃ m ∈ manifests, path ∈ m.memberPaths
  owned : ∀ manifest ∈ manifests, ∃ contents : List Bytes,
    List.Forall₂ (fun reference bytes => ⟨reference.storedPath, bytes⟩ ∈ records ∧
      ∃ record, MemberMatches manifest registry reference bytes record) manifest.members contents ∧
    RequestMatches manifest contents

theorem OwnershipPartition.perm {records' : List StoredMember} {manifests' : List BatchManifest}
    (h : OwnershipPartition records manifests registry) (hr : records.Perm records')
    (hm : manifests.Perm manifests') : OwnershipPartition records' manifests' registry where
  distinct := (hr.map _).nodup_iff.mp h.distinct
  decodes := fun r hmem => h.decodes r (hr.mem_iff.mpr hmem)
  disjoint := h.disjoint.perm hm (fun hab => hab.symm)
  covers := by
    intro path
    rw [← (hr.map _).mem_iff, h.covers path]
    simp only [hm.mem_iff]
  owned := by
    intro m hmem
    obtain ⟨contents, hcontents, hrequest⟩ := h.owned m (hm.mem_iff.mpr hmem)
    exact ⟨contents, hcontents.imp (fun _ _ hx => ⟨hr.mem_iff.mp hx.1, hx.2⟩), hrequest⟩

theorem owns_iff (hpaths : (records.map StoredMember.path).Nodup) :
    Owns (BTreeMap.ofList (records.map (fun r => (r.path, r.bytes)))).get? registry manifest ↔
      ∃ contents : List Bytes,
        List.Forall₂ (fun reference bytes => ⟨reference.storedPath, bytes⟩ ∈ records ∧
          ∃ record, MemberMatches manifest registry reference bytes record) manifest.members contents ∧
        RequestMatches manifest contents := by
  simp only [Owns, get?_ofList_members hpaths]

theorem validateBatchOwnership_eq_ok (hnodup : ∀ m ∈ manifests, m.memberPaths.Nodup) :
    validateBatchOwnership records manifests registry = .ok () ↔
      OwnershipPartition records manifests registry := by
  have hkeys : ∀ path, path ∈ (records.foldl (fun s r => s.insert r.path ()) (∅ : BTreeSet Bytes)).keys ↔
      path ∈ records.map StoredMember.path := by
    intro path
    rw [← List.foldl_map (f := StoredMember.path) (g := fun (s : BTreeSet Bytes) p => s.insert p ()),
      BTreeSet.mem_keys_foldl_insert]
    exact or_iff_right (fun h => by cases h)
  have hcount : ∀ path, (((manifests.flatMap BatchManifest.memberPaths).foldl addOwner ∅).get? path).getD 0 =
      (manifests.flatMap BatchManifest.memberPaths).count path := by
    intro path
    rw [getD_foldl_addOwner]
    simp
  have howners : ∀ path, path ∈ ((manifests.flatMap BatchManifest.memberPaths).foldl addOwner ∅).keys ↔
      path ∈ manifests.flatMap BatchManifest.memberPaths := by
    intro path
    rw [mem_keys_foldl_addOwner]
    exact or_iff_right (fun h => by cases h)
  simp only [validateBatchOwnership, except_bind_eq_ok, foldlM_checkStoredRecord_eq_ok,
    foldlM_ownManifest_eq_ok hnodup]
  constructor
  · rintro ⟨_, ⟨hdistinct, -, hdecodes, rfl⟩, _, ⟨howns, rfl⟩, u, hu, hfind⟩
    have hone := forIn_owners_eq_ok.mp ⟨u, hu⟩
    have hsub := find_missing_eq_ok.mp hfind
    simp only [hkeys, hcount, howners] at hone hsub
    obtain ⟨hflat, hcovers⟩ := count_eq_one_iff.mp ⟨hone, hsub⟩
    refine ⟨hdistinct, hdecodes, (List.nodup_flatMap.mp hflat).2, ?_, fun m hm => (owns_iff hdistinct).mp (howns m hm)⟩
    simpa only [List.mem_flatMap] using hcovers
  · intro h
    have hflat : (manifests.flatMap BatchManifest.memberPaths).Nodup :=
      List.nodup_flatMap.mpr ⟨hnodup, h.disjoint⟩
    have hcovers : ∀ path, path ∈ records.map StoredMember.path ↔
        path ∈ manifests.flatMap BatchManifest.memberPaths := by
      simpa only [List.mem_flatMap] using h.covers
    obtain ⟨hone, hsub⟩ := count_eq_one_iff.mpr ⟨hflat, hcovers⟩
    simp only [← hkeys, ← hcount, ← howners] at hone hsub
    obtain ⟨u, hu⟩ := forIn_owners_eq_ok.mpr hone
    have hfresh : ∀ r ∈ records, r.path ∉ (∅ : BTreeSet Bytes).keys := fun _ _ => List.not_mem_nil
    refine ⟨_, ⟨h.distinct, hfresh, h.decodes, rfl⟩, _,
      ⟨fun m hm => (owns_iff h.distinct).mpr (h.owned m hm), rfl⟩, u, hu, find_missing_eq_ok.mpr hsub⟩

end

section

attribute [local instance] Sample.jiff Sample.blake3

end

end Wayjournal
