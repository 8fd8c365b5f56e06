import Wayjournal.Batch.TextLength
import Wayjournal.ProjectionLaws
import Wayjournal.ProofCache.HitLaws
import Wayjournal.Store.FirstBatch

namespace Wayjournal

open Collections Json Serde Text

section Length

theorem length_print_storeId (indent : Nat) (store : LogicalStoreId) :
    (print indent store.toValue.raw).length = 6 * indent + 151 := by
  have k₁ : (printString "store_uuid").length = 12 := by decide
  have k₂ : (printString "genesis_fingerprint").length = 21 := by decide
  refine (length_print_ofList (by simp) (List.cons_ne_nil _ _)).trans ?_
  simp only [List.map_cons, List.map_nil, List.sum_cons, List.sum_nil, k₁, k₂, Json.string, print,
    length_printString_digest, length_printString_uuidId]
  omega

theorem length_print_revision (indent : Nat) (revision : StoreRevisionRef) :
    (print indent revision.toValue.raw).length = 6 * indent + 99 + (printString revision.algorithm.asStr).length := by
  have k₁ : (printString "algorithm").length = 11 := by decide
  have k₂ : (printString "digest").length = 8 := by decide
  refine (length_print_ofList (by simp) (List.cons_ne_nil _ _)).trans ?_
  simp only [List.map_cons, List.map_nil, List.sum_cons, List.sum_nil, k₁, k₂, Json.string, print,
    length_printString_digest]
  omega

theorem length_print_vectorEntry (indent : Nat) (entry : RevisionVectorEntry) :
    (print indent entry.toValue.raw).length =
      18 * indent + 293 + (printString entry.revision.algorithm.asStr).length := by
  have k₁ : (printString "revision").length = 10 := by decide
  have k₂ : (printString "store").length = 7 := by decide
  refine (length_print_ofList (l := [("revision", entry.revision.toValue), ("store", entry.store.toValue)]) (by simp)
    (List.cons_ne_nil _ _)).trans ?_
  simp only [List.map_cons, List.map_nil, List.sum_cons, List.sum_nil, k₁, k₂, length_print_storeId,
    length_print_revision]
  omega

theorem length_print_entries (indent : Nat) {entries : List RevisionVectorEntry} (h : entries ≠ []) :
    (print indent (Json.array (entries.map RevisionVectorEntry.toValue)).raw).length = 2 * indent + 2 +
      (entries.map fun entry => 20 * indent + 315 + (printString entry.revision.algorithm.asStr).length).sum := by
  have hraw : (Json.array (entries.map RevisionVectorEntry.toValue)).raw =
      .array (entries.map fun entry => entry.toValue.raw) := by
    simp only [Json.array, List.map_map]
    rfl
  rw [hraw, length_print_array fun hnil => h (List.map_eq_nil_iff.mp hnil), List.map_map]
  refine congrArg (2 * indent + 2 + ·) (congrArg List.sum (List.map_congr_left fun entry _ => ?_))
  rw [Function.comp_apply, length_print_vectorEntry]
  omega

theorem length_print_rawRevisionVector (indent : Nat) {vector : RevisionVector} (h : vector.entries ≠ []) :
    (print indent vector.raw.toValue.raw).length = 8 * indent + 66 +
      (vector.entries.map fun entry => 20 * indent + 335 + (printString entry.revision.algorithm.asStr).length).sum := by
  have k₁ : (printString "entries").length = 9 := by decide
  have k₂ : (printString "schema").length = 8 := by decide
  have k₃ : (printString REVISION_VECTOR_SCHEMA_V1).length = 31 := by decide
  have hentries := length_print_entries (indent + 1) h
  rw [show 20 * (indent + 1) + 315 = 20 * indent + 335 by omega] at hentries
  refine (length_print_ofList (l := [("entries", .array (vector.entries.map RevisionVectorEntry.toValue)),
    ("schema", .string REVISION_VECTOR_SCHEMA_V1)]) (by simp) (List.cons_ne_nil _ _)).trans ?_
  simp only [List.map_cons, List.map_nil, List.sum_cons, List.sum_nil, k₁, k₂, hentries, Json.string, print, k₃]
  omega

theorem length_print_subject (indent : Nat) (subject : QualifiedEntityRef) :
    (print indent subject.toValue.raw).length = 14 * indent + 241 + (printString subject.domain.asStr).length := by
  have k₁ : (printString "store").length = 7 := by decide
  have k₂ : (printString "domain").length = 8 := by decide
  have k₃ : (printString "entity_id").length = 11 := by decide
  refine (length_print_ofList (by simp) (List.cons_ne_nil _ _)).trans ?_
  simp only [List.map_cons, List.map_nil, List.sum_cons, List.sum_nil, k₁, k₂, k₃, length_print_storeId, Json.string,
    print, length_printString_uuidId]
  omega

variable [Jiff]

/-- The parts of a proof whose length is not fixed. -/
def VerifiedProof.textLength (proof : VerifiedProof) : Nat :=
  (printString proof.observedAt.display).length + (printString proof.sourceRevision.algorithm.asStr).length +
    (printString proof.subject.domain.asStr).length

theorem length_print_proof (indent : Nat) (proof : VerifiedProof) :
    (print indent (RawVerifiedProof.ofProof proof).toValue.raw).length = 36 * indent + 693 + proof.textLength := by
  have k₁ : (printString "local_trust_binding").length = 21 := by decide
  have k₂ : (printString "observed_at").length = 13 := by decide
  have k₃ : (printString "proof_id").length = 10 := by decide
  have k₄ : (printString "record_id").length = 11 := by decide
  have k₅ : (printString "schema").length = 8 := by decide
  have k₆ : (printString "source_revision").length = 17 := by decide
  have k₇ : (printString "subject").length = 9 := by decide
  have k₈ : (printString VERIFIED_PROOF_SCHEMA_V1).length = 30 := by decide
  refine (length_print_ofList (l := RawVerifiedProof.fields.zip (RawVerifiedProof.ofProof proof).values)
    (by simp [RawVerifiedProof.fields, RawVerifiedProof.values]) (List.cons_ne_nil _ _)).trans ?_
  simp only [RawVerifiedProof.fields, RawVerifiedProof.values, RawVerifiedProof.ofProof, List.zip_cons_cons,
    List.zip_nil_right, List.map_cons, List.map_nil, List.sum_cons, List.sum_nil, k₁, k₂, k₃, k₄, k₅, k₆, k₇,
    length_print_revision, length_print_subject, Json.string, print, length_printString_digest,
    length_printString_uuidId, ProofId.display, k₈, VerifiedProof.textLength]
  omega

end Length

section Entry

theorem pairwise_store (dependencies : RevisionVector) :
    dependencies.entries.Pairwise fun a b => a.store < b.store := by
  have h := dependencies.valid
  unfold validateRevisionEntries at h
  rw [guard_bind_eq_ok, guard_eq_ok] at h
  have hascending : ascending (dependencies.entries.map RevisionVectorEntry.store) = true := by
    simpa using h.2.1
  rwa [ascending_iff, List.pairwise_map] at hascending

/-- The largest vector is far from the limit of a projection. -/
theorem encodeRevisionVector_ok {dependencies : RevisionVector} (h : dependencies.entries ≠ []) :
    ∃ bytes, encodeRevisionVector dependencies = .ok bytes := by
  have hpretty : encodePretty dependencies.raw.toValue = .ok (print 0 dependencies.raw.toValue.raw ++ [0x0a]) :=
    encodePretty_eq_ok.mpr ⟨noFloats_rawRevisionVector _, rfl⟩
  refine ⟨_, encodeRevisionVector_eq_ok.mpr ⟨hpretty, ?_⟩⟩
  have hentry : ∀ n ∈ dependencies.entries.map (fun entry => 335 + (printString entry.revision.algorithm.asStr).length),
      n ≤ 370 := by
    intro n hn
    obtain ⟨entry, -, rfl⟩ := List.mem_map.mp hn
    have halgorithm : ∀ a : RevisionAlgorithm, (printString a.asStr).length ≤ 35 := by
      rintro (_ | _) <;> decide
    have := halgorithm entry.revision.algorithm
    omega
  have hsum := List.sum_le_card_nsmul _ _ hentry
  rw [List.length_map, show ∀ n : Nat, n • 370 = n * 370 from fun _ => rfl] at hsum
  have hcount := length_entries_le dependencies
  rw [List.length_append, List.length_singleton, length_print_rawRevisionVector 0 h]
  simp only [Nat.mul_zero, Nat.zero_add, MAX_PROJECTION_BYTES, MAX_VECTOR_STORES] at hsum hcount ⊢
  omega

theorem filter_store {entries : List RevisionVectorEntry} {entry : RevisionVectorEntry}
    (h : entries.Pairwise fun a b => a.store < b.store) (hmem : entry ∈ entries) :
    entries.filter (fun other => other.store = entry.store) = [entry] := by
  induction entries with
  | nil => cases hmem
  | cons a rest ih =>
    obtain ⟨hfirst, hrest⟩ := List.pairwise_cons.mp h
    obtain rfl | hmem := List.mem_cons.mp hmem
    · have hnil : rest.filter (fun other => other.store = entry.store) = [] := by
        refine List.filter_eq_nil_iff.mpr fun other hother => ?_
        rw [decide_eq_true_eq]
        exact (hfirst other hother).ne'
      rw [List.filter_cons, if_pos (decide_eq_true rfl), hnil]
    · have hne : ¬ decide (a.store = entry.store) = true := by
        rw [decide_eq_true_eq]
        exact (hfirst entry hmem).ne
      rw [List.filter_cons, if_neg hne, ih hrest hmem]

variable [Jiff]

def cacheEntryMembers (dependencies : RevisionVector) (proof : VerifiedProof) : List (String × Json) :=
  [("dependencies", dependencies.raw.toValue), ("proof", (RawVerifiedProof.ofProof proof).toValue),
    ("schema", .string PROJECTION_CACHE_ENTRY_SCHEMA_V1)]

/-- The value a cache entry is the text of. -/
def cacheEntryValue (dependencies : RevisionVector) (proof : VerifiedProof) : Json :=
  .object (.ofList (cacheEntryMembers dependencies proof))

/-- The length of a cache entry, by the number of its dependencies and the texts that vary. -/
def cacheEntryLength (dependencies : RevisionVector) (proof : VerifiedProof) : Nat :=
  891 + (dependencies.entries.map fun entry => 355 + (printString entry.revision.algorithm.asStr).length).sum +
    proof.textLength

variable {dependencies : RevisionVector} {proof : VerifiedProof}

theorem nodup_cacheEntryMembers : ((cacheEntryMembers dependencies proof).map Prod.fst).Nodup := by
  simp [cacheEntryMembers]

theorem get?_cacheEntryMembers (dependencies : RevisionVector) (proof : VerifiedProof) {e : String × Json}
    (h : e ∈ cacheEntryMembers dependencies proof) :
    (BTreeMap.ofList (cacheEntryMembers dependencies proof)).get? e.1 = some e.2 :=
  (BTreeMap.get?_ofList nodup_cacheEntryMembers).mpr h

theorem length_print_cacheEntry (proof : VerifiedProof) (h : dependencies.entries ≠ []) :
    (print 0 (cacheEntryValue dependencies proof).raw ++ [0x0a]).length = cacheEntryLength dependencies proof := by
  have k₁ : (printString "dependencies").length = 14 := by decide
  have k₂ : (printString "proof").length = 7 := by decide
  have k₃ : (printString "schema").length = 8 := by decide
  have k₄ : (printString PROJECTION_CACHE_ENTRY_SCHEMA_V1).length = 38 := by decide
  have hvector : (print (0 + 1) dependencies.raw.toValue.raw).length = 74 + (dependencies.entries.map fun entry =>
      355 + (printString entry.revision.algorithm.asStr).length).sum := length_print_rawRevisionVector 1 h
  rw [List.length_append, List.length_singleton, cacheEntryValue, cacheEntryLength,
    length_print_ofList nodup_cacheEntryMembers (List.cons_ne_nil _ _)]
  simp only [cacheEntryMembers, List.map_cons, List.map_nil, List.sum_cons, List.sum_nil, k₁, k₂, k₃, hvector,
    length_print_proof, Json.string, print, k₄]
  omega

theorem noFloats_cacheEntryValue : (cacheEntryValue dependencies proof).noFloats = true := by
  refine noFloats_object_ofList fun e he => ?_
  simp only [cacheEntryMembers, List.mem_cons, List.not_mem_nil, or_false] at he
  obtain rfl | rfl | rfl := he
  · exact noFloats_rawRevisionVector _
  · exact noFloats_rawVerifiedProof _
  · rfl

theorem depth_cacheEntryValue : (cacheEntryValue dependencies proof).depth ≤ 5 := by
  refine depth_object_ofList_le fun e he => ?_
  simp only [cacheEntryMembers, List.mem_cons, List.not_mem_nil, or_false] at he
  obtain rfl | rfl | rfl := he
  · exact depth_rawRevisionVector _
  · exact (depth_rawVerifiedProof _).trans (Nat.le_succ 3)
  · exact Nat.zero_le 4

theorem validateSourceDependency_of_mem (h : ⟨proof.subject.store, proof.sourceRevision⟩ ∈ dependencies.entries) :
    validateSourceDependency dependencies proof = .ok () := by
  unfold validateSourceDependency
  rw [filter_store (pairwise_store dependencies) h]
  exact if_neg (not_not.mpr rfl)

variable [Blake3]

/-- An entry is encoded once its parts are, unless it is too large. -/
theorem encodeCacheEntry_eq {proofBytes : Bytes}
    (h : ⟨proof.subject.store, proof.sourceRevision⟩ ∈ dependencies.entries)
    (hproof : encodeVerifiedProof proof = .ok proofBytes) :
    encodeCacheEntry dependencies proof =
      if cacheEntryLength dependencies proof ≤ MAX_PROOF_CACHE_ENTRY_BYTES then
        .ok (print 0 (cacheEntryValue dependencies proof).raw ++ [0x0a])
      else .error .entryTooLarge := by
  have hne := List.ne_nil_of_mem h
  obtain ⟨bytes, hvector⟩ := encodeRevisionVector_ok hne
  have hreadVector := decodeStrict_encodePretty (encodeRevisionVector_eq_ok.mp hvector).1
    ((depth_rawRevisionVector _).trans (by decide))
  have hreadProof := decodeStrict_encodePretty (encodeVerifiedProof_eq_ok.mp hproof).2.1
    ((depth_rawVerifiedProof _).trans (by decide))
  have hpretty : encodePretty (cacheEntryValue dependencies proof) =
      .ok (print 0 (cacheEntryValue dependencies proof).raw ++ [0x0a]) :=
    encodePretty_eq_ok.mpr ⟨noFloats_cacheEntryValue, rfl⟩
  unfold encodeCacheEntry
  rw [validateSourceDependency_of_mem h, ok_bind, hvector]
  simp only [mapError_ok, ok_bind, hreadVector, hproof, hreadProof]
  change (encodePretty (cacheEntryValue dependencies proof)).mapError _ >>= _ = _
  rw [hpretty]
  simp only [mapError_ok, ok_bind, length_print_cacheEntry proof hne]
  by_cases hfits : cacheEntryLength dependencies proof ≤ MAX_PROOF_CACHE_ENTRY_BYTES
  · rw [if_pos hfits, if_neg (not_lt.mpr hfits)]
    rfl
  · rw [if_neg hfits, if_pos (not_le.mp hfits)]
    rfl

theorem encodeVerifiedProof_ok (hid : proof.proofId = proof.recomputedProofId)
    (h : 694 + proof.textLength ≤ MAX_PROJECTION_BYTES) :
    encodeVerifiedProof proof = .ok (print 0 (RawVerifiedProof.ofProof proof).toValue.raw ++ [0x0a]) := by
  refine encodeVerifiedProof_eq_ok.mpr ⟨hid, encodePretty_eq_ok.mpr ⟨noFloats_rawVerifiedProof _, rfl⟩, ?_⟩
  rw [List.length_append, List.length_singleton, length_print_proof]
  omega

theorem of_encodeCacheEntry {bytes : Bytes} (h : encodeCacheEntry dependencies proof = .ok bytes) :
    validateSourceDependency dependencies proof = .ok () ∧
      (∃ vectorBytes, encodeRevisionVector dependencies = .ok vectorBytes) ∧
        ∃ proofBytes, encodeVerifiedProof proof = .ok proofBytes := by
  simp only [encodeCacheEntry, except_bind_eq_ok, mapError_eq_ok] at h
  obtain ⟨_, hsource, vectorBytes, hvector, _, -, proofBytes, hproof, -⟩ := h
  exact ⟨hsource, ⟨vectorBytes, hvector⟩, proofBytes, hproof⟩

/-- What was encoded is read back. -/
theorem decodeCacheEntry_encode {bytes : Bytes} (h : encodeCacheEntry dependencies proof = .ok bytes) :
    decodeCacheEntry bytes = .ok ⟨dependencies, proof⟩ := by
  obtain ⟨hsource, ⟨vectorBytes, hvector⟩, proofBytes, hproof⟩ := of_encodeCacheEntry h
  have hmem := validateSourceDependency_eq_ok hsource
  have hvectorPretty := (encodeRevisionVector_eq_ok.mp hvector).1
  have hproofPretty := (encodeVerifiedProof_eq_ok.mp hproof).2.1
  have hentry := encodeCacheEntry_eq hmem hproof
  rw [h] at hentry
  split at hentry
  · rename_i hfits
    have hlength := length_print_cacheEntry proof (List.ne_nil_of_mem hmem)
    rw [← Except.ok.inj hentry] at hlength
    have hread := decodeStrict_encodePretty
      (encodePretty_eq_ok.mpr ⟨noFloats_cacheEntryValue, Except.ok.inj hentry⟩) (depth_cacheEntryValue.trans (by decide))
    have hcount : (BTreeMap.ofList (cacheEntryMembers dependencies proof)).entries.length = 3 :=
      (BTreeMap.entries_ofList_perm nodup_cacheEntryMembers).length_eq
    have hschema := get?_cacheEntryMembers dependencies proof
      (List.mem_cons_of_mem _ (List.mem_cons_of_mem _ List.mem_cons_self))
    have hmemberVector := get?_cacheEntryMembers dependencies proof List.mem_cons_self
    have hmemberProof := get?_cacheEntryMembers dependencies proof
      (List.mem_cons_of_mem _ List.mem_cons_self)
    unfold decodeCacheEntry
    rw [if_neg (not_lt.mpr (hlength.trans_le hfits)), hread]
    simp only [mapError_ok, ok_bind, cacheEntryValue, view_object, hcount, hschema, hmemberVector, hmemberProof,
      Option.bind_some, fromValue_string, hvectorPretty, hproofPretty, decodeRevisionVector_encode hvector,
      decodeVerifiedProof_encode hproof, hsource, h]
    rw [if_neg (by decide), if_neg (not_not.mpr rfl)]
    rfl
  · cases hentry

end Entry

section Cacheable

theorem checkAuthorityRoots_of_nodup {cache : CacheHandle} {physical : List RootIdentity}
    {authorities : List DependencyStore} (hnodup : (authorities.map fun authority => authority.store.root).Nodup)
    (h : ∀ authority ∈ authorities, authority.store.root ≠ cache.root ∧ authority.store.root ∉ physical) :
    checkAuthorityRoots cache physical authorities = .ok () := by
  induction authorities generalizing physical with
  | nil => rfl
  | cons authority rest ih =>
    rw [List.map_cons, List.nodup_cons] at hnodup
    obtain ⟨hcache, hphysical⟩ := h authority List.mem_cons_self
    rw [checkAuthorityRoots, if_neg hcache, if_neg hphysical]
    refine ih hnodup.2 fun other hother => ?_
    obtain ⟨hcache, hphysical⟩ := h other (List.mem_cons_of_mem _ hother)
    refine ⟨hcache, fun hmem => ?_⟩
    obtain heq | hmem := List.mem_cons.mp hmem
    · exact hnodup.1 (List.mem_map.mpr ⟨other, hother, heq⟩)
    · exact hphysical hmem

/-- The entries of the dependency vector of some authorities. -/
def currentEntries (authorities : List DependencyStore) (current : LogicalStoreId → StoreRevisionRef) :
    List RevisionVectorEntry :=
  authorities.map fun authority => ⟨authority.expectedStore, current authority.expectedStore⟩

theorem new_currentEntries {cache : CacheHandle} {authorities : List DependencyStore}
    (h : validateAuthorityInputs cache authorities = .ok ()) (current : LogicalStoreId → StoreRevisionRef) :
    ∃ vector, RevisionVector.new (currentEntries authorities current) = .ok vector ∧
      vector.entries = currentEntries authorities current := by
  obtain ⟨hlength, hordered, -⟩ := validateAuthorityInputs_eq_ok.mp h
  have hascending : ascending ((currentEntries authorities current).map RevisionVectorEntry.store) = true := by
    rw [ascending_iff, currentEntries, List.map_map]
    exact hordered
  have hvalid : validateRevisionEntries (currentEntries authorities current) = .ok () := by
    unfold validateRevisionEntries
    rw [if_neg, hascending]
    · rfl
    · rw [currentEntries, List.length_map]
      exact not_lt.mpr hlength
  exact ⟨⟨_, hvalid⟩, RevisionVector.new_entries ⟨_, hvalid⟩, rfl⟩

variable [Jiff] [Blake3]

/-- An accepted set of dependencies can be cached when its entry is at most 64 KiB long, and only then. -/
theorem cacheable_iff_entry_fits {cache : CacheHandle} {authorities : List DependencyStore}
    (h : validateAuthorityInputs cache authorities = .ok ()) (current : LogicalStoreId → StoreRevisionRef)
    (subject : QualifiedEntityRef) (recordId : RecordId) (trust : LocalTrustBinding) (observedAt : RecordTimestamp)
    (hsource : ∃ authority ∈ authorities, authority.expectedStore = subject.store) :
    ∃ vector, RevisionVector.new (currentEntries authorities current) = .ok vector ∧
      vector.entries = currentEntries authorities current ∧
      let proof := VerifiedProof.fromCheckpoint subject recordId (current subject.store) trust observedAt
      (cacheEntryLength vector proof ≤ MAX_PROOF_CACHE_ENTRY_BYTES ↔
        ∃ bytes, encodeCacheEntry vector proof = .ok bytes ∧ decodeCacheEntry bytes = .ok ⟨vector, proof⟩) ∧
      (MAX_PROOF_CACHE_ENTRY_BYTES < cacheEntryLength vector proof →
        694 + proof.textLength ≤ MAX_PROJECTION_BYTES → encodeCacheEntry vector proof = .error .entryTooLarge) := by
  obtain ⟨vector, hnew, hentries⟩ := new_currentEntries h current
  refine ⟨vector, hnew, hentries, ?_⟩
  intro proof
  have hmem : ⟨proof.subject.store, proof.sourceRevision⟩ ∈ vector.entries := by
    obtain ⟨authority, hauthority, hstore⟩ := hsource
    rw [hentries, currentEntries]
    exact List.mem_map.mpr ⟨authority, hauthority, by rw [hstore]; rfl⟩
  have hid : proof.proofId = proof.recomputedProofId := rfl
  refine ⟨⟨fun hfits => ?_, ?_⟩, fun hlarge htext => ?_⟩
  · have htext : 694 + proof.textLength ≤ MAX_PROJECTION_BYTES := by
      simp only [cacheEntryLength, MAX_PROOF_CACHE_ENTRY_BYTES] at hfits
      simp only [MAX_PROJECTION_BYTES]
      omega
    have hencode := encodeCacheEntry_eq hmem (encodeVerifiedProof_ok hid htext)
    rw [if_pos hfits] at hencode
    exact ⟨_, hencode, decodeCacheEntry_encode hencode⟩
  · rintro ⟨bytes, hencode, -⟩
    obtain ⟨-, -, proofBytes, hproof⟩ := of_encodeCacheEntry hencode
    rw [encodeCacheEntry_eq hmem hproof] at hencode
    by_contra hlarge
    rw [if_neg hlarge] at hencode
    cases hencode
  · have hencode := encodeCacheEntry_eq hmem (encodeVerifiedProof_ok hid htext)
    rwa [if_neg (not_le.mpr hlarge)] at hencode

end Cacheable

namespace Sample

def crowdLabel (i : Nat) : LogicalStoreId :=
  ⟨storeUuid, ⟨Fin.ofNat 16 (i / 16) :: Fin.ofNat 16 i :: List.replicate 62 0, rfl⟩⟩

/-- Stores in roots of their own, in the order of their labels. -/
def crowd (n : Nat) : List DependencyStore := (List.range n).map fun i => ⟨crowdLabel i, ⟨i, ⟨1, i + 1⟩⟩⟩

def crowdCache : CacheHandle := ⟨0, ⟨1, 0⟩⟩

theorem accepted_crowd {n : Nat} (hn : n ≤ MAX_VECTOR_STORES)
    (h : ascending ((crowd n).map DependencyStore.expectedStore) = true) :
    validateAuthorityInputs crowdCache (crowd n) = .ok () := by
  refine validateAuthorityInputs_eq_ok.mpr ⟨?_, ascending_iff.mp h, checkAuthorityRoots_of_nodup ?_ ?_⟩
  · rwa [crowd, List.length_map, List.length_range]
  · rw [crowd, List.map_map]
    exact List.nodup_range.map fun i j hij => Nat.succ.inj (RootIdentity.mk.inj hij).2
  · intro authority hauthority
    obtain ⟨i, -, rfl⟩ := List.mem_map.mp hauthority
    exact ⟨fun heq => Nat.succ_ne_zero i (RootIdentity.mk.inj heq).2, List.not_mem_nil⟩

def crowdRevision (_ : LogicalStoreId) : StoreRevisionRef := ⟨.waytaskBlake3FramedV1, digest⟩

def crowdSubject : QualifiedEntityRef := ⟨crowdLabel 0, ⟨"example.notes", check_notes⟩, entityId⟩

theorem crowd_source {n : Nat} (hn : 0 < n) :
    ∃ authority ∈ crowd n, authority.expectedStore = crowdSubject.store :=
  ⟨_, List.mem_map.mpr ⟨0, List.mem_range.mpr hn, rfl⟩, rfl⟩

end Sample

section

attribute [local instance] Sample.jiff Sample.blake3

theorem largest_dependency_set_not_cacheable :
    ¬ ∀ (cache : CacheHandle) (authorities : List DependencyStore) (current : LogicalStoreId → StoreRevisionRef)
        (subject : QualifiedEntityRef) (recordId : RecordId) (trust : LocalTrustBinding) (observedAt : RecordTimestamp),
      validateAuthorityInputs cache authorities = .ok () →
      (∃ authority ∈ authorities, authority.expectedStore = subject.store) →
      ∃ vector bytes, RevisionVector.new (currentEntries authorities current) = .ok vector ∧
        encodeCacheEntry vector (.fromCheckpoint subject recordId (current subject.store) trust observedAt) =
          .ok bytes := by
  intro hclaim
  have hascending : ascending ((Sample.crowd 256).map DependencyStore.expectedStore) = true := by decide +kernel
  obtain ⟨vector, bytes, hnew, hencode⟩ := hclaim Sample.crowdCache (Sample.crowd 256) Sample.crowdRevision
    Sample.crowdSubject (Sample.recordId 1) ⟨Sample.digest⟩ Sample.timestamp
    (Sample.accepted_crowd (Nat.le_refl _) hascending) (Sample.crowd_source (by decide))
  obtain ⟨hsource, -, proofBytes, hproof⟩ := of_encodeCacheEntry hencode
  rw [encodeCacheEntry_eq (validateSourceDependency_eq_ok hsource) hproof, if_neg] at hencode
  · cases hencode
  · have hentries := RevisionVector.entries_of_new hnew
    have hsum := List.card_nsmul_le_sum
      (vector.entries.map fun entry => 355 + (printString entry.revision.algorithm.asStr).length) 355 (by
        intro n hn
        obtain ⟨entry, -, rfl⟩ := List.mem_map.mp hn
        exact Nat.le_add_right _ _)
    have hcount : vector.entries.length = 256 := by
      rw [hentries, currentEntries, List.length_map, Sample.crowd, List.length_map, List.length_range]
    rw [List.length_map, hcount, show 256 • 355 = 90880 from rfl] at hsum
    simp only [cacheEntryLength, MAX_PROOF_CACHE_ENTRY_BYTES]
    omega

theorem two_dependencies_cacheable :
    ∃ vector bytes, RevisionVector.new (currentEntries (Sample.crowd 2) Sample.crowdRevision) = .ok vector ∧
      encodeCacheEntry vector (.fromCheckpoint Sample.crowdSubject (Sample.recordId 1)
        (Sample.crowdRevision Sample.crowdSubject.store) ⟨Sample.digest⟩ Sample.timestamp) = .ok bytes := by
  have hascending : ascending ((Sample.crowd 2).map DependencyStore.expectedStore) = true := by decide +kernel
  obtain ⟨vector, hnew, hentries, hfits, -⟩ := cacheable_iff_entry_fits
    (Sample.accepted_crowd (by decide) hascending) Sample.crowdRevision Sample.crowdSubject (Sample.recordId 1)
    ⟨Sample.digest⟩ Sample.timestamp (Sample.crowd_source (by decide))
  obtain ⟨bytes, hencode, -⟩ := hfits.mp (by
    rw [cacheEntryLength, hentries]
    decide +kernel)
  exact ⟨vector, bytes, hnew, hencode⟩

end

end Wayjournal
