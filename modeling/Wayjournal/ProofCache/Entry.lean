import Wayjournal.ProofCache.Authorities
import Wayjournal.Store.Directory

namespace Wayjournal

open Collections Crash Fs Text

def PROJECTION_CACHE_ENTRY_SCHEMA_V1 : String := "wayjournal.projection-cache-entry/v1"
def MAX_PROOF_CACHE_ENTRY_BYTES : Nat := 64 * 1024
def MAX_PROOF_CACHE_ENTRIES : Nat := 16384
def MAX_PROOF_CACHE_TOTAL_BYTES : Nat := 256 * 1024 * 1024
def CACHE_TEMPORARY : String := ".wayjournal-cache-tmp-"

/-- The retained root of a cache, on a disk of its own. -/
def CacheHandle.rootDir : Directory := .root .canonical

theorem ProofId.validComponent_json (id : ProofId) : validComponent (asBytes (id.display ++ ".json")) = true := by
  have hchars : id.display ++ ".json" = String.ofList (id.asDigest.toChars ++ ".json".toList) := by
    rw [String.ofList_append, String.ofList_toList]
    rfl
  have hdigits : ∀ c ∈ id.asDigest.toChars, isNameChar c = true ∧ c ≠ '.' := by
    intro c hc
    obtain ⟨n, -, rfl⟩ := List.mem_map.mp hc
    exact isNameChar_hexDigit n
  have hending : ∀ c ∈ ".json".toList, isNameChar c = true := List.all_eq_true.mp (by decide)
  have hlength := id.asDigest.length_toChars
  rw [hchars]
  cases h : id.asDigest.toChars with
  | nil =>
    rw [h] at hlength
    cases hlength
  | cons c cs =>
    rw [h] at hdigits
    refine validComponent_asBytes (hdigits c List.mem_cons_self).2 fun a ha => ?_
    exact (List.mem_append.mp (show a ∈ (c :: cs) ++ ".json".toList from ha)).elim (fun ha => (hdigits a ha).1) (hending a)

/-- `{id}.json`. -/
def finalName (id : ProofId) : Name := ⟨asBytes (id.display ++ ".json"), id.validComponent_json⟩

/-- `.wayjournal-cache-tmp-{uuid}`. -/
def cacheTemporary (u : Uuid) : Name :=
  ⟨asBytes (CACHE_TEMPORARY ++ u.hyphenated),
    validComponent_dotted ⟨0x77, asBytes "ayjournal-cache-tmp-", by decide, by decide⟩ (by decide) u⟩

def isPrivateTemporary (name : Name) : Bool :=
  match name.bytes.dropPrefix? (asBytes CACHE_TEMPORARY) with
  | none => false
  | some suffix => ((fromUtf8 suffix).bind Uuid.parseStr).isSome

def checkedTotalBytes (current addition : Nat) : Except ProofCacheError Nat :=
  if current + addition > MAX_PROOF_CACHE_TOTAL_BYTES then .error (.invalidLayout "cache total-byte limit exceeded")
  else .ok (current + addition)

def sameDependencyStores (left right : RevisionVector) : Bool :=
  left.entries.map RevisionVectorEntry.store = right.entries.map RevisionVectorEntry.store

section

variable [Jiff]

def validateSourceDependency (dependencies : RevisionVector) (proof : VerifiedProof) : Except ProofCacheError Unit :=
  match dependencies.entries.filter (fun entry => entry.store = proof.subject.store) with
  | [source] => if source.revision ≠ proof.sourceRevision then .error .invalidSourceDependency else .ok ()
  | _ => .error .invalidSourceDependency

def validateCurrentSourceDependency (dependencies : RevisionVector) (proof : VerifiedProof) :
    Except ProofCacheError Unit :=
  match dependencies.entries.find? (fun entry => entry.store = proof.subject.store) with
  | none => .error .invalidSourceDependency
  | some source => if source.revision ≠ proof.sourceRevision then .error .staleProof else .ok ()

structure CacheEntry where
  dependencies : RevisionVector
  proof : VerifiedProof

structure LayoutSummary where
  entries : Nat
  totalBytes : Nat

variable [Blake3]

/-- The values inside are read back from their own encodings, which strict decoding reads alike. -/
def encodeCacheEntry (dependencies : RevisionVector) (proof : VerifiedProof) : Except ProofCacheError Bytes := do
  validateSourceDependency dependencies proof
  let dependencyBytes ← (encodeRevisionVector dependencies).mapError (fun _ => .malformed)
  let dependencies ← (decodeStrict dependencyBytes).mapError (fun _ => .malformed)
  let proofBytes ← (encodeVerifiedProof proof).mapError (fun _ => .malformed)
  let proof ← (decodeStrict proofBytes).mapError (fun _ => .malformed)
  let bytes ← (encodePretty (.object (.ofList [("dependencies", dependencies), ("proof", proof),
    ("schema", .string PROJECTION_CACHE_ENTRY_SCHEMA_V1)]))).mapError (fun _ => .malformed)
  if bytes.length > MAX_PROOF_CACHE_ENTRY_BYTES then throw .entryTooLarge
  return bytes

def decodeCacheEntry (bytes : Bytes) : Except ProofCacheError CacheEntry := do
  if bytes.length > MAX_PROOF_CACHE_ENTRY_BYTES then throw .entryTooLarge
  let value ← (decodeStrict bytes).mapError (fun _ => .malformed)
  let .object members := value.view | throw (.invalidLayout "cache entry root is not an object")
  if members.entries.length ≠ 3 || (members.get? "schema").bind fromValue ≠ some PROJECTION_CACHE_ENTRY_SCHEMA_V1 then
    throw (.invalidLayout "cache entry root is not the exact closed v1 document")
  let some dependencies := members.get? "dependencies" |
    throw (.invalidLayout "cache entry root is not the exact closed v1 document")
  let some proof := members.get? "proof" |
    throw (.invalidLayout "cache entry root is not the exact closed v1 document")
  let dependencyBytes ← (encodePretty dependencies).mapError (fun _ => .malformed)
  let proofBytes ← (encodePretty proof).mapError (fun _ => .malformed)
  let dependencies ← (decodeRevisionVector dependencyBytes).mapError (fun _ => .malformed)
  let proof ← (decodeVerifiedProof proofBytes).mapError (fun _ => .malformed)
  validateSourceDependency dependencies proof
  if (← encodeCacheEntry dependencies proof) ≠ bytes then
    throw (.invalidLayout "cache entry JSON is not canonical")
  return ⟨dependencies, proof⟩

abbrev CacheDirM := Program Disk ProofCacheError

/-- The identifier in a file name. -/
def finalId (name : Name) : Except ProofCacheError ProofId := do
  let some text := fromUtf8 name.bytes | throw (.invalidLayout "cache filename is not canonical ASCII")
  let some stem := stripJson text | throw (.invalidLayout "unknown cache-root entry name")
  if (asBytes stem).length ≠ 64 then throw (.invalidLayout "cache filename is not an exact proof id")
  let some id := ProofId.parse stem | throw .malformed
  return id

/-- One file of the cache; the state of the visitor and the bytes so far are carried along. -/
def visitEntry {κ : Type} (visit : κ → ProofId → Bytes → CacheEntry → κ) (state : κ × Nat) (name : Name) :
    CacheDirM (κ × Nat) := do
  let id ← .ofExcept (finalId name)
  let bytes ← (CacheHandle.rootDir.openFile name).mapError (fun _ => .malformed)
  if bytes.length > MAX_PROOF_CACHE_ENTRY_BYTES then throw .entryTooLarge
  let total ← .ofExcept (checkedTotalBytes state.2 bytes.length)
  let entry ← .ofExcept (decodeCacheEntry bytes)
  if entry.proof.proofId ≠ id then throw (.invalidLayout "filename and embedded proof ids disagree")
  return (visit state.1 id bytes entry, total)

variable [ReadDir]

def visitEntries {κ : Type} (visit : κ → ProofId → Bytes → CacheEntry → κ) (state : κ) :
    CacheDirM (κ × LayoutSummary) := do
  let names ← (CacheHandle.rootDir.boundedNames (MAX_PROOF_CACHE_ENTRIES + 1)).mapError (fun _ => .malformed)
  if names.length > MAX_PROOF_CACHE_ENTRIES then throw (.invalidLayout "cache final-entry limit exceeded")
  let (state, total) ← names.foldlM (visitEntry visit) (state, 0)
  return (state, ⟨names.length, total⟩)

end

section

variable [ReadDir]

def cleanupTemporaries : CacheDirM Unit := do
  let names ← (CacheHandle.rootDir.boundedNames (MAX_PROOF_CACHE_ENTRIES + 1)).mapError (fun _ => .malformed)
  names.forM fun name =>
    if isPrivateTemporary name then (CacheHandle.rootDir.unlinkFile name).mapError (fun _ => .malformed)
    else return ()

end

end Wayjournal
