import Wayjournal.Capability
import Wayjournal.Federation.CheckpointLaws

namespace Wayjournal

open Collections Crash Fs

section

theorem sorted_of_validateSet {α : Type} [LinearOrder α] {values : List α} {set : String}
    (h : validateSet values set = .ok ()) : values.Pairwise (· < ·) := by
  obtain ⟨-, h⟩ := guard_bind_eq_ok.mp h
  obtain ⟨h, -⟩ := guard_eq_ok.mp h
  apply ascending_iff.mp
  simpa using h

/-- All four sets of a side are strictly increasing. -/
structure CapabilitySets.Sorted (sets : CapabilitySets) : Prop where
  requiredCapabilities : sets.requiredCapabilities.Pairwise (· < ·)
  requiredProjections : sets.requiredProjections.Pairwise (· < ·)
  supportedCapabilities : sets.supportedCapabilities.Pairwise (· < ·)
  supportedProjections : sets.supportedProjections.Pairwise (· < ·)

theorem sorted_of_validateOfferSets {sets : CapabilitySets} (h : validateOfferSets sets = .ok ()) : sets.Sorted := by
  obtain ⟨_, h₁, h⟩ := except_bind_eq_ok.mp h
  obtain ⟨_, h₂, h⟩ := except_bind_eq_ok.mp h
  obtain ⟨_, h₃, h₄⟩ := except_bind_eq_ok.mp h
  exact ⟨sorted_of_validateSet h₁, sorted_of_validateSet h₂, sorted_of_validateSet h₃, sorted_of_validateSet h₄⟩

theorem mem_of_requireSubset {α : Type} [LinearOrder α] {required supported : List α} {error : α → NegotiationError}
    (hsorted : supported.Pairwise (· < ·)) (h : requireSubset required supported error = .ok ()) {a : α}
    (ha : a ∈ required) : a ∈ supported := by
  unfold requireSubset at h
  split at h
  · cases h
  · rename_i hnone
    have hfound := List.find?_eq_none.mp hnone a ha
    apply (binarySearch_iff hsorted).mp
    simpa using hfound

/-- A list that is strictly increasing and has exactly the common elements of two others. -/
structure IsIntersection {α : Type} [LinearOrder α] (result left right : List α) : Prop where
  sorted : result.Pairwise (· < ·)
  mem_iff : ∀ a, a ∈ result ↔ a ∈ left ∧ a ∈ right

theorem isIntersection {α : Type} [LinearOrder α] {left right : List α} (hleft : left.Pairwise (· < ·))
    (hright : right.Pairwise (· < ·)) : IsIntersection (intersection left right) left right :=
  ⟨sorted_intersection hleft hright, fun _ => mem_intersection hleft hright⟩

/-- What a side requires is what the other side has, and it is granted when the side has it itself. -/
structure Granted {α : Type} (required own other : List α) (supports : α → Bool) : Prop where
  supported : ∀ a ∈ required, a ∈ other
  granted_iff : ∀ a ∈ required, supports a = true ↔ a ∈ own

theorem granted {α : Type} [LinearOrder α] {result required own other : List α} (h : IsIntersection result own other)
    (hrequired : ∀ a ∈ required, a ∈ other) : Granted required own other (binarySearch result) := by
  refine ⟨hrequired, fun a ha => ?_⟩
  rw [binarySearch_iff h.sorted, h.mem_iff]
  exact ⟨fun hmem => hmem.1, fun hown => ⟨hown, hrequired a ha⟩⟩

theorem IsIntersection.symm {α : Type} [LinearOrder α] {result left right : List α} (h : IsIntersection result left right) :
    IsIntersection result right left :=
  ⟨h.sorted, fun a => (h.mem_iff a).trans And.comm⟩

variable [Url]

theorem negotiate_eq_ok {checkpoint : AdmissionCheckpoint} {expectedStore : LogicalStoreId}
    {expectedTrust : LocalTrustBinding} {requirements : HandshakeRequirements} {remote : CapabilityOffer}
    {handshake : NegotiatedHandshake} (h : negotiate checkpoint expectedStore expectedTrust requirements remote = .ok handshake) :
    handshake = ⟨checkpoint, intersection requirements.supportedCapabilities remote.supportedCapabilities,
      intersection requirements.supportedProjections remote.supportedProjections⟩ ∧
    requireSubset requirements.requiredCapabilities remote.supportedCapabilities .localCapabilityRequirement = .ok () ∧
    requireSubset remote.requiredCapabilities requirements.supportedCapabilities .remoteCapabilityRequirement = .ok () ∧
    requireSubset requirements.requiredProjections remote.supportedProjections .localProjectionRequirement = .ok () ∧
    requireSubset remote.requiredProjections requirements.supportedProjections .remoteProjectionRequirement = .ok () := by
  unfold negotiate at h
  obtain ⟨-, h⟩ := guard_bind_eq_ok.mp h
  obtain ⟨-, h⟩ := guard_bind_eq_ok.mp h
  obtain ⟨-, h⟩ := guard_bind_eq_ok.mp h
  cases hcapability : remote.requiredCapabilities.find? (!knownCapability ·) with
  | some capability =>
    rw [hcapability] at h
    cases h
  | none =>
    rw [hcapability] at h
    cases hprojection : remote.requiredProjections.find? (!knownProjection ·) with
    | some projection =>
      rw [hprojection] at h
      cases h
    | none =>
      rw [hprojection] at h
      obtain ⟨_, h₁, h⟩ := except_bind_eq_ok.mp h
      obtain ⟨_, h₂, h⟩ := except_bind_eq_ok.mp h
      obtain ⟨_, h₃, h⟩ := except_bind_eq_ok.mp h
      obtain ⟨_, h₄, h⟩ := except_bind_eq_ok.mp h
      exact ⟨pure_eq_ok.mp h, h₁, h₂, h₃, h₄⟩

theorem negotiate_ok {checkpoint : AdmissionCheckpoint} {expectedStore : LogicalStoreId}
    {expectedTrust : LocalTrustBinding} {requirements : HandshakeRequirements} {remote : CapabilityOffer}
    (hstore : checkpoint.logicalStoreId = expectedStore) (hremote : remote.logicalStoreId = expectedStore)
    (htrust : checkpoint.localTrustBinding = expectedTrust)
    (hcapability : remote.requiredCapabilities.find? (!knownCapability ·) = none)
    (hprojection : remote.requiredProjections.find? (!knownProjection ·) = none)
    (h₁ : requireSubset requirements.requiredCapabilities remote.supportedCapabilities .localCapabilityRequirement = .ok ())
    (h₂ : requireSubset remote.requiredCapabilities requirements.supportedCapabilities .remoteCapabilityRequirement = .ok ())
    (h₃ : requireSubset requirements.requiredProjections remote.supportedProjections .localProjectionRequirement = .ok ())
    (h₄ : requireSubset remote.requiredProjections requirements.supportedProjections .remoteProjectionRequirement = .ok ()) :
    negotiate checkpoint expectedStore expectedTrust requirements remote =
      .ok ⟨checkpoint, intersection requirements.supportedCapabilities remote.supportedCapabilities,
        intersection requirements.supportedProjections remote.supportedProjections⟩ := by
  unfold negotiate
  rw [if_neg (not_not.mpr hstore), if_neg (not_not.mpr hremote), if_neg (not_not.mpr htrust), hcapability, hprojection,
    h₁, h₂, h₃, h₄]
  rfl

variable [ReadDir] [Jiff] [Blake3]

/-- The handshake has the common capabilities and projections. What one side requires the other side supports,
and the handshake supports it exactly when the side that requires it does. -/
theorem negotiated_handshake_is_intersection {store : Store} {expectedStore : LogicalStoreId}
    {expectedTrust : LocalTrustBinding} {requirements : HandshakeRequirements} {remote : CapabilityOffer} {disk : Disk}
    {handshake : NegotiatedHandshake}
    (h : (negotiateHandshake store expectedStore expectedTrust requirements remote).result disk = .ok handshake) :
    IsIntersection handshake.capabilities requirements.supportedCapabilities remote.supportedCapabilities ∧
    IsIntersection handshake.projections requirements.supportedProjections remote.supportedProjections ∧
    Granted requirements.requiredCapabilities requirements.supportedCapabilities remote.supportedCapabilities
      handshake.supportsCapability ∧
    Granted remote.requiredCapabilities remote.supportedCapabilities requirements.supportedCapabilities
      handshake.supportsCapability ∧
    Granted requirements.requiredProjections requirements.supportedProjections remote.supportedProjections
      handshake.supportsProjection ∧
    Granted remote.requiredProjections remote.supportedProjections requirements.supportedProjections
      handshake.supportsProjection := by
  unfold negotiateHandshake at h
  obtain ⟨found, -, h⟩ := Program.bind_eq_ok.mp h
  split at h
  · obtain ⟨rfl, h₁, h₂, h₃, h₄⟩ := negotiate_eq_ok h
    have hlocal := sorted_of_validateOfferSets requirements.validSets
    have hremote := sorted_of_validateOfferSets remote.validSets
    have hcapabilities := isIntersection hlocal.supportedCapabilities hremote.supportedCapabilities
    have hprojections := isIntersection hlocal.supportedProjections hremote.supportedProjections
    exact ⟨hcapabilities, hprojections,
      granted hcapabilities fun _ ha => mem_of_requireSubset hremote.supportedCapabilities h₁ ha,
      granted hcapabilities.symm fun _ ha => mem_of_requireSubset hlocal.supportedCapabilities h₂ ha,
      granted hprojections fun _ ha => mem_of_requireSubset hremote.supportedProjections h₃ ha,
      granted hprojections.symm fun _ ha => mem_of_requireSubset hlocal.supportedProjections h₄ ha⟩
  · cases h

/-- A store at rest with a checkpoint. -/
theorem negotiateHandshake_ok {store : Store} {expectedStore : LogicalStoreId} {expectedTrust : LocalTrustBinding}
    {requirements : HandshakeRequirements} {remote : CapabilityOffer} {s : Disk} {snapshot : StoreSnapshot} {bytes : Bytes}
    {checkpoint : AdmissionCheckpoint} {handshake : NegotiatedHandshake} (hclean : Clean s)
    (hscan : scanVisible store s = .ok snapshot) (hheld : HoldsCheckpoint s bytes)
    (hencode : encodeAdmissionCheckpoint checkpoint = .ok bytes)
    (hnegotiate : negotiate checkpoint expectedStore expectedTrust requirements remote = .ok handshake) :
    (negotiateHandshake store expectedStore expectedTrust requirements remote).result s = .ok handshake := by
  have hread : (admissionCheckpoint store).wp (fun _ => True) (fun found _ => found = some checkpoint)
      (fun _ _ => False) s := by
    rw [admissionCheckpoint, Program.wp_bind, Program.wp_mapError, Program.wp_bind]
    refine wp_recoverWithoutSnapshot_clean hclean ?_
    rw [Program.wp_bind, Program.wp_reads_ok hscan, Program.wp_pure, Program.wp_mapError]
    exact wp_readCheckpoint hheld hencode rfl
  obtain ⟨_, hresult, rfl⟩ := Program.ok_of_wp hread
  refine Program.bind_eq_ok.mpr ⟨some checkpoint, ?_, hnegotiate⟩
  rw [Program.result_mapError, hresult]
  rfl

end

attribute [local instance] Sample.url Sample.readDir Sample.jiff Sample.blake3

namespace Sample

def json : CapabilityId := ⟨"wayjournal.json/v1", by decide⟩

def gitUnionCas : CapabilityId := ⟨GIT_UNION_CAS_CAPABILITY, by decide⟩

/-- A side that requires what it does not support itself. -/
def requirements : HandshakeRequirements := ⟨⟨[gitUnionCas], [], [json], []⟩, rfl, rfl⟩

def offer : CapabilityOffer := ⟨⟨[json], [], [json, gitUnionCas], []⟩, logicalStoreId, rfl⟩

/-- An empty store with the checkpoint. -/
def admitted (bytes : Bytes) : Disk := fun area =>
  if area = .checkpoints then
    (∅ : FileSystem Name).place [] .admissionCheckpoint (.regular bytes) FileSystem.isDir_root_empty (by decide)
  else disk area

theorem holds_admitted (bytes : Bytes) : HoldsCheckpoint (admitted bytes) bytes := by
  refine ⟨?_, ?_⟩
  · rfl
  · rfl

theorem negotiate_sample : ∃ bytes handshake,
    (negotiateHandshake store logicalStoreId ⟨digest⟩ requirements offer).result (admitted bytes) = .ok handshake ∧
      handshake.capabilities = [json] := by
  obtain ⟨bytes, hbytes⟩ := encode_checkpoint
  obtain ⟨base, hscan⟩ := vacant.scanVisible_ok
  have hnegotiate : negotiate checkpoint logicalStoreId ⟨digest⟩ requirements offer = .ok ⟨checkpoint, [json], []⟩ := by
    have hcapabilities : intersection [json] [json, gitUnionCas] = [json] := by decide +kernel
    have hprojections : intersection ([] : List ProjectionId) [] = [] := by rw [intersection]
    have hlocal : requireSubset [gitUnionCas] [json, gitUnionCas] .localCapabilityRequirement = .ok () :=
      isOk_eq_true.mp (by decide +kernel)
    have hremote : requireSubset [json] [json] .remoteCapabilityRequirement = .ok () := isOk_eq_true.mp (by decide +kernel)
    have hnegotiated : negotiate checkpoint logicalStoreId ⟨digest⟩ requirements offer =
        .ok ⟨checkpoint, intersection [json] [json, gitUnionCas], intersection [] []⟩ :=
      negotiate_ok rfl rfl rfl (by decide +kernel) rfl hlocal hremote rfl rfl
    rw [hnegotiated, hcapabilities, hprojections]
  exact ⟨bytes, _, negotiateHandshake_ok ⟨rfl, rfl, rfl⟩ hscan (holds_admitted bytes) hbytes hnegotiate, rfl⟩

end Sample

/-- The capability that was required is not part of the handshake. -/
theorem required_capability_not_negotiated :
    ¬ ∀ (store : Store) (expectedStore : LogicalStoreId) (expectedTrust : LocalTrustBinding)
      (requirements : HandshakeRequirements) (remote : CapabilityOffer) (disk : Disk) (handshake : NegotiatedHandshake),
      (negotiateHandshake store expectedStore expectedTrust requirements remote).result disk = .ok handshake →
      ∀ capability ∈ requirements.requiredCapabilities, capability ∈ handshake.capabilities := by
  intro h
  obtain ⟨bytes, handshake, hresult, hcapabilities⟩ := Sample.negotiate_sample
  have hmem := h _ _ _ _ _ _ _ hresult Sample.gitUnionCas (List.mem_singleton_self _)
  rw [hcapabilities] at hmem
  exact absurd hmem (by decide)

theorem negotiated_handshake_is_intersection_sample :
    ∃ bytes handshake, (negotiateHandshake Sample.store Sample.logicalStoreId ⟨Sample.digest⟩ Sample.requirements
        Sample.offer).result (Sample.admitted bytes) = .ok handshake ∧
      IsIntersection handshake.capabilities [Sample.json] [Sample.json, Sample.gitUnionCas] := by
  obtain ⟨bytes, handshake, hresult, -⟩ := Sample.negotiate_sample
  exact ⟨bytes, handshake, hresult, (negotiated_handshake_is_intersection hresult).1⟩

end Wayjournal
