import Wayjournal.Batch.ManifestLaws
import Wayjournal.Identity
import Wayjournal.Projection
import Wayjournal.RevisionLaws

namespace Wayjournal

open Collections Text

theorem UuidId.display_injective {k : UuidKind} : Function.Injective (UuidId.display : UuidId k → String) := by
  intro a b h
  have ha := UuidId.parse_display a
  rw [h, UuidId.parse_display] at ha
  exact (Except.ok.inj ha).symm

theorem RecordTimestamp.display_injective [Jiff] : Function.Injective RecordTimestamp.display := by
  intro a b h
  have ha := RecordTimestamp.parse_display a
  rw [h, RecordTimestamp.parse_display] at ha
  exact (Except.ok.inj ha).symm

section Accumulator

/-- The incremental form of the request digest, as the bytes fed to its hasher so far. -/
structure RequestDigestAccumulator where
  fed : Bytes

namespace RequestDigestAccumulator

def new : RequestDigestAccumulator := ⟨REQUEST_DIGEST_DOMAIN⟩

def push (acc : RequestDigestAccumulator) (path bytes : Bytes) : RequestDigestAccumulator :=
  ⟨acc.fed ++ (frame path ++ frame bytes)⟩

def finish [Blake3] (acc : RequestDigestAccumulator) : Digest := Blake3.hash acc.fed

theorem fed_foldl_push (members : List (Bytes × Bytes)) (acc : RequestDigestAccumulator) :
    (members.foldl (fun acc member => acc.push member.1 member.2) acc).fed =
      acc.fed ++ members.flatMap fun member => frame member.1 ++ frame member.2 := by
  induction members generalizing acc with
  | nil => rw [List.foldl_nil, List.flatMap_nil, List.append_nil]
  | cons member members ih => rw [List.foldl_cons, ih, push, List.flatMap_cons, List.append_assoc]

end RequestDigestAccumulator

end Accumulator

section Kinds

inductive DigestKind
  | content
  | request
  | idempotency
  | revision
  | genesis
  | proof
  deriving DecidableEq

namespace DigestKind

def domain : DigestKind → Bytes
  | .content => CONTENT_DIGEST_DOMAIN
  | .request => REQUEST_DIGEST_DOMAIN
  | .idempotency => IDEMPOTENCY_DIGEST_DOMAIN
  | .revision => STORE_REVISION_DOMAIN
  | .genesis => GENESIS_FINGERPRINT_DOMAIN
  | .proof => PROOF_ID_DOMAIN

/-- The domain up to the zero byte that ends it. -/
def tag : DigestKind → Bytes
  | .content => asBytes "wayjournal-content-v1"
  | .request => asBytes "wayjournal-batch-request-v1"
  | .idempotency => asBytes "wayjournal-idempotency-key-v1"
  | .revision => asBytes "wayjournal-store-v1"
  | .genesis => asBytes "wayjournal-genesis-v1"
  | .proof => asBytes "wayjournal-proof-v1"

theorem domain_eq (k : DigestKind) : k.domain = k.tag ++ [0] := by
  cases k <;> decide +kernel

theorem zero_notMem_tag (k : DigestKind) : 0 ∉ k.tag := by
  cases k <;> decide +kernel

theorem tag_injective : Function.Injective tag := by
  intro k l h
  cases k <;> cases l <;> first | rfl | exact absurd h (by decide +kernel)

/-- No domain begins another, so the kind can be read off. -/
theorem append_injective {k l : DigestKind} {r t : Bytes} (h : k.domain ++ r = l.domain ++ t) : k = l ∧ r = t := by
  rw [domain_eq, domain_eq] at h
  obtain ⟨htag, hrest⟩ := SelfDelimiting.terminated 0 _ k.zero_notMem_tag _ l.zero_notMem_tag _ _ h
  exact ⟨tag_injective htag, hrest⟩

end DigestKind

end Kinds

section Inputs

variable [Jiff]

/-- What a digest of each kind is a digest of. -/
inductive DigestInput
  | content (bytes : Bytes)
  | request (members : List (Bytes × Bytes))
  | idempotency (actor : ActorId) (key : String)
  | revision (files : List (Bytes × Bytes))
  | genesis (path bytes : Bytes)
  | proof (subject : QualifiedEntityRef) (recordId : RecordId) (sourceRevision : StoreRevisionRef)
    (localTrustBinding : LocalTrustBinding) (observedAt : RecordTimestamp)

namespace DigestInput

def kind : DigestInput → DigestKind
  | .content _ => .content
  | .request _ => .request
  | .idempotency _ _ => .idempotency
  | .revision _ => .revision
  | .genesis _ _ => .genesis
  | .proof _ _ _ _ _ => .proof

/-- The ten fields of a proof. -/
def proofFields (subject : QualifiedEntityRef) (recordId : RecordId) (sourceRevision : StoreRevisionRef)
    (localTrustBinding : LocalTrustBinding) (observedAt : RecordTimestamp) : List Bytes :=
  [asBytes VERIFIED_PROOF_SCHEMA_V1, asBytes subject.store.storeUuid.display,
    asBytes subject.store.genesisFingerprint.display, asBytes subject.domain.asStr, asBytes subject.entityId.display,
    asBytes recordId.display, asBytes sourceRevision.algorithm.asStr, asBytes sourceRevision.digest.display,
    asBytes localTrustBinding.asDigest.display, asBytes observedAt.display]

def payload : DigestInput → Bytes
  | .content bytes => bytes
  | .request members => members.flatMap fun member => frame member.1 ++ frame member.2
  | .idempotency actor key => frame (asBytes actor.asStr) ++ frame (asBytes key)
  | .revision files => files.flatMap fun file => frame file.1 ++ frame file.2
  | .genesis path bytes => frame path ++ frame bytes
  | .proof subject recordId sourceRevision localTrustBinding observedAt =>
    (proofFields subject recordId sourceRevision localTrustBinding observedAt).flatMap frame

/-- The bytes fed to the hasher. -/
def preimage (input : DigestInput) : Bytes := input.kind.domain ++ input.payload

/-- The lengths that are framed fit in 64 bits. -/
def Fits : DigestInput → Prop
  | .content _ => True
  | .request members => ∀ member ∈ members, member ∈ framable ×ˢ framable
  | .idempotency actor key => (asBytes actor.asStr, asBytes key) ∈ framable ×ˢ framable
  | .revision files => ∀ file ∈ files, file ∈ framable ×ˢ framable
  | .genesis path bytes => (path, bytes) ∈ framable ×ˢ framable
  | .proof subject recordId sourceRevision localTrustBinding observedAt =>
    ∀ field ∈ proofFields subject recordId sourceRevision localTrustBinding observedAt, field ∈ framable

theorem proofFields_injective {subject subject' : QualifiedEntityRef} {recordId recordId' : RecordId}
    {sourceRevision sourceRevision' : StoreRevisionRef} {localTrustBinding localTrustBinding' : LocalTrustBinding}
    {observedAt observedAt' : RecordTimestamp}
    (h : proofFields subject recordId sourceRevision localTrustBinding observedAt =
      proofFields subject' recordId' sourceRevision' localTrustBinding' observedAt') :
    proof subject recordId sourceRevision localTrustBinding observedAt =
      proof subject' recordId' sourceRevision' localTrustBinding' observedAt' := by
  obtain ⟨⟨storeUuid, fingerprint⟩, domain, entityId⟩ := subject
  obtain ⟨⟨storeUuid', fingerprint'⟩, domain', entityId'⟩ := subject'
  obtain ⟨algorithm, digest⟩ := sourceRevision
  obtain ⟨algorithm', digest'⟩ := sourceRevision'
  obtain ⟨trust⟩ := localTrustBinding
  obtain ⟨trust'⟩ := localTrustBinding'
  simp only [proofFields, List.cons.injEq, asBytes_injective.eq_iff, true_and, and_true] at h
  obtain ⟨huuid, hfingerprint, hdomain, hentity, hrecord, halgorithm, hdigest, htrust, hobserved⟩ := h
  obtain rfl := UuidId.display_injective huuid
  obtain rfl := Digest.display_injective hfingerprint
  obtain rfl := CheckedText.asStr_injective hdomain
  obtain rfl := UuidId.display_injective hentity
  obtain rfl := UuidId.display_injective hrecord
  obtain rfl := RevisionAlgorithm.asStr_injective halgorithm
  obtain rfl := Digest.display_injective hdigest
  obtain rfl := Digest.display_injective htrust
  obtain rfl := RecordTimestamp.display_injective hobserved
  rfl

theorem preimage_injOn : Set.InjOn preimage {input | input.Fits} := by
  intro a ha b hb h
  obtain ⟨hkind, hpayload⟩ := DigestKind.append_injective h
  cases a with
  | content bytes =>
    cases b with
    | content bytes' => exact congrArg content hpayload
    | _ => cases hkind
  | request members =>
    cases b with
    | request members' => exact congrArg request (flatMap_frames_injOn ha hb hpayload)
    | _ => cases hkind
  | idempotency actor key =>
    cases b with
    | idempotency actor' key' =>
      obtain ⟨hactor, hkey⟩ := frames_injective ha hb hpayload
      rw [CheckedText.asStr_injective (asBytes_injective hactor), asBytes_injective hkey]
    | _ => cases hkind
  | revision files =>
    cases b with
    | revision files' => exact congrArg revision (flatMap_frames_injOn ha hb hpayload)
    | _ => cases hkind
  | genesis path bytes =>
    cases b with
    | genesis path' bytes' =>
      obtain ⟨rfl, rfl⟩ := frames_injective ha hb hpayload
      rfl
    | _ => cases hkind
  | proof subject recordId sourceRevision localTrustBinding observedAt =>
    cases b with
    | proof => exact proofFields_injective (flatMap_frame_injOn ha hb hpayload)
    | _ => cases hkind

end DigestInput

/-- The six digests are digests of preimages that are equal only for the same input of the same kind. -/
theorem digest_preimages_unambiguous [Blake3] :
    (∀ a b : DigestInput, a.Fits → b.Fits → a.preimage = b.preimage → a = b) ∧
    (∀ bytes, contentDigest bytes = Blake3.hash (DigestInput.content bytes).preimage) ∧
    (∀ members, framedHash REQUEST_DIGEST_DOMAIN members = Blake3.hash (DigestInput.request members).preimage) ∧
    (∀ members : List (Bytes × Bytes),
      (members.foldl (fun acc member => acc.push member.1 member.2) RequestDigestAccumulator.new).finish =
        Blake3.hash (DigestInput.request members).preimage) ∧
    (∀ actor key, idempotencyDigest actor key = Blake3.hash (DigestInput.idempotency actor key).preimage) ∧
    (∀ entries revision, computeStoreRevision entries = .ok revision → revision.digest = Blake3.hash
      (DigestInput.revision (canonicalFiles (entries.insertionSort fun a b => a.path ≤ b.path))).preimage) ∧
    (∀ (files : List (Bytes × Bytes)) acc,
      files.foldlM (fun acc file => acc.push file.1 file.2) StoreRevisionAccumulator.new = .ok acc →
      acc.finish.digest = Blake3.hash (DigestInput.revision files).preimage) ∧
    (∀ path bytes, genesisFingerprint path bytes = Blake3.hash (DigestInput.genesis path bytes).preimage) ∧
    (∀ subject recordId sourceRevision localTrustBinding observedAt,
      (computeProofId subject recordId sourceRevision localTrustBinding observedAt).asDigest = Blake3.hash
        (DigestInput.proof subject recordId sourceRevision localTrustBinding observedAt).preimage) := by
  refine ⟨fun a b ha hb h => DigestInput.preimage_injOn ha hb h, fun _ => rfl, fun _ => rfl, fun members => ?_,
    fun actor key => ?_, fun entries revision h => ?_, fun files acc h => ?_, fun _ _ => rfl, fun _ _ _ _ _ => rfl⟩
  · exact congrArg Blake3.hash (RequestDigestAccumulator.fed_foldl_push members .new)
  · rw [idempotencyDigest, framedHash, List.flatMap_singleton]
    rfl
  · obtain ⟨fed, hfed, rfl⟩ := computeStoreRevision_eq_ok.mp h
    obtain ⟨-, -, rfl⟩ := storeRevisionPreimage_eq_ok.mp hfed
    rfl
  · exact congrArg Blake3.hash (fed_foldlM_pushFile h)

end Inputs

end Wayjournal
