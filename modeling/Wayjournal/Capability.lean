import Wayjournal.Collections.BinarySearch
import Wayjournal.Federation.GitStream

namespace Wayjournal

open Collections Crash

def MAX_CAPABILITY_SET_ENTRIES : Nat := 64

def GIT_UNION_CAS_CAPABILITY : String := "wayjournal.sync/git-union-cas-v1"

def S5_CAPABILITIES : List String :=
  ["wayjournal.json/v1", "wayjournal.record/v1", "wayjournal.batch/v1", "wayjournal.layout/v1",
    "wayjournal.store/blake3-framed-v1", "wayjournal.identity/v1", "wayjournal.profile/v1", "wayjournal.catalog/v1",
    "wayjournal.admission-checkpoint/v1", GIT_UNION_CAS_CAPABILITY, "wayjournal.verified-proof/v1",
    "wayjournal.revision-vector/v1", "wayjournal.proof-vector/v1", "wayjournal.projection-cache/v1", "waytask.layout/v1",
    "waytask.store/blake3-framed-v1"]

def S5_PROJECTIONS : List String :=
  ["wayjournal.projection/proof-vector-v1", "wayjournal.projection/revision-vector-v1",
    "wayjournal.projection/verified-proof-v1"]

def isLowerLetter (c : Char) : Bool := 'a' ≤ c && c ≤ 'z'

def isDecimalDigit (c : Char) : Bool := '0' ≤ c && c ≤ '9'

def validVersion (version : List Char) : Bool :=
  !version.isEmpty && version.length ≤ 64 && version.head?.all (fun c => isLowerLetter c || isDecimalDigit c) &&
    version.all (fun c => isLowerLetter c || isDecimalDigit c || c = '.' || c = '_' || c = '-')

def validNamespaceSegment (segment : List Char) : Bool :=
  !segment.isEmpty && segment.length ≤ 63 && segment.head?.all isLowerLetter &&
    segment.all (fun c => isLowerLetter c || isDecimalDigit c || c = '_' || c = '-')

/-- Two or more segments of a namespace, a slash and a version. -/
def validIdentifier (value : String) : Bool :=
  let cs := value.toList
  cs.length ≤ 128 && cs.all (fun c => c.toNat < 128) &&
    match cs.splitOn '/' with
    | [namespaces, version] =>
      validVersion version && (namespaces.splitOn '.').all validNamespaceSegment && (namespaces.splitOn '.').length ≥ 2
    | _ => false

inductive CapabilityKind
  | capability
  | projection
  deriving DecidableEq

def CapabilityKind.label : CapabilityKind → String
  | .capability => "capability id"
  | .projection => "projection id"

/-- The two identifiers of the handshake. -/
structure CapabilityIdentifier (k : CapabilityKind) where
  asStr : String
  valid : validIdentifier asStr = true
  deriving DecidableEq

abbrev CapabilityId := CapabilityIdentifier .capability
abbrev ProjectionId := CapabilityIdentifier .projection

inductive CapabilityIdError
  | invalid (kind value : String)

namespace CapabilityIdentifier

variable {k : CapabilityKind}

def parse (k : CapabilityKind) (value : String) : Except CapabilityIdError (CapabilityIdentifier k) :=
  if h : validIdentifier value = true then .ok ⟨value, h⟩ else .error (.invalid k.label value)

theorem asStr_injective : Function.Injective (asStr : CapabilityIdentifier k → String) := by
  rintro ⟨a, _⟩ ⟨b, _⟩ h
  cases h
  rfl

instance : LinearOrder (CapabilityIdentifier k) := LinearOrder.lift' asStr asStr_injective

end CapabilityIdentifier

/-- The texts of the JSON library's own errors are left out. -/
inductive CapabilityOfferError
  | tooManyEntries (set : String)
  | invalidSetOrder (set : String)
  | tooLarge
  | invalidJson
  | duplicateKey (key : String)
  | floatNotAllowed
  | invalidDocument
  | unsupportedSchema
  | nonCanonical
  | unknownLocalCapability (capability : CapabilityId)
  | unknownLocalProjection (projection : ProjectionId)

def validateSet {α : Type} [LinearOrder α] (values : List α) (set : String) : Except CapabilityOfferError Unit := do
  if values.length > MAX_CAPABILITY_SET_ENTRIES then throw (.tooManyEntries set)
  if !ascending values then throw (.invalidSetOrder set)

/-- What a side asks for and what it has. -/
structure CapabilitySets where
  requiredCapabilities : List CapabilityId
  requiredProjections : List ProjectionId
  supportedCapabilities : List CapabilityId
  supportedProjections : List ProjectionId
  deriving DecidableEq

def validateOfferSets (sets : CapabilitySets) : Except CapabilityOfferError Unit := do
  validateSet sets.requiredCapabilities "required_capabilities"
  validateSet sets.requiredProjections "required_projections"
  validateSet sets.supportedCapabilities "supported_capabilities"
  validateSet sets.supportedProjections "supported_projections"

def knownCapability (capability : CapabilityId) : Bool := S5_CAPABILITIES.contains capability.asStr

def knownProjection (projection : ProjectionId) : Bool := binarySearch S5_PROJECTIONS projection.asStr

structure CapabilityOffer extends CapabilitySets where
  logicalStoreId : LogicalStoreId
  validSets : validateOfferSets toCapabilitySets = .ok ()

def CapabilityOffer.new (logicalStoreId : LogicalStoreId) (sets : CapabilitySets) :
    Except CapabilityOfferError CapabilityOffer :=
  match h : validateOfferSets sets with
  | .error e => .error e
  | .ok () => .ok ⟨sets, logicalStoreId, h⟩

/-- The identifiers of a local side are those of the vocabulary. -/
def validateKnown (sets : CapabilitySets) : Except CapabilityOfferError Unit := do
  if let some capability := (sets.requiredCapabilities ++ sets.supportedCapabilities).find? (!knownCapability ·) then
    throw (.unknownLocalCapability capability)
  if let some projection := (sets.requiredProjections ++ sets.supportedProjections).find? (!knownProjection ·) then
    throw (.unknownLocalProjection projection)

structure HandshakeRequirements extends CapabilitySets where
  validSets : validateOfferSets toCapabilitySets = .ok ()
  known : validateKnown toCapabilitySets = .ok ()

def HandshakeRequirements.new (sets : CapabilitySets) : Except CapabilityOfferError HandshakeRequirements :=
  match h : validateOfferSets sets, k : validateKnown sets with
  | .error e, _ => .error e
  | _, .error e => .error e
  | .ok (), .ok () => .ok ⟨sets, h, k⟩

inductive NegotiationError
  | checkpointAuthority (source : GitAdmissionError)
  | missingCheckpoint
  | expectedStoreMismatch
  | remoteStoreMismatch
  | trustMismatch
  | unknownRequiredCapability (capability : CapabilityId)
  | unknownRequiredProjection (projection : ProjectionId)
  | localCapabilityRequirement (capability : CapabilityId)
  | remoteCapabilityRequirement (capability : CapabilityId)
  | localProjectionRequirement (projection : ProjectionId)
  | remoteProjectionRequirement (projection : ProjectionId)

def requireSubset {α : Type} [LinearOrder α] (required supported : List α) (error : α → NegotiationError) :
    Except NegotiationError Unit :=
  match required.find? (!binarySearch supported ·) with
  | some identifier => .error (error identifier)
  | none => .ok ()

section

variable [Url]

structure NegotiatedHandshake where
  checkpoint : AdmissionCheckpoint
  capabilities : List CapabilityId
  projections : List ProjectionId

namespace NegotiatedHandshake

def logicalStoreId (handshake : NegotiatedHandshake) : LogicalStoreId := handshake.checkpoint.logicalStoreId

def boundCheckpoint (handshake : NegotiatedHandshake) : AdmissionCheckpoint := handshake.checkpoint

def supportsCapability (handshake : NegotiatedHandshake) (capability : CapabilityId) : Bool :=
  binarySearch handshake.capabilities capability

def supportsProjection (handshake : NegotiatedHandshake) (projection : ProjectionId) : Bool :=
  binarySearch handshake.projections projection

def supportsGitUnionCas (handshake : NegotiatedHandshake) : Bool :=
  binarySearchBy CapabilityIdentifier.asStr handshake.capabilities GIT_UNION_CAS_CAPABILITY

end NegotiatedHandshake

/-- `negotiate_handshake` once the checkpoint is read. -/
def negotiate (checkpoint : AdmissionCheckpoint) (expectedStore : LogicalStoreId) (expectedTrust : LocalTrustBinding)
    (requirements : HandshakeRequirements) (remote : CapabilityOffer) : Except NegotiationError NegotiatedHandshake := do
  if checkpoint.logicalStoreId ≠ expectedStore then throw .expectedStoreMismatch
  if remote.logicalStoreId ≠ expectedStore then throw .remoteStoreMismatch
  if checkpoint.localTrustBinding ≠ expectedTrust then throw .trustMismatch
  if let some capability := remote.requiredCapabilities.find? (!knownCapability ·) then
    throw (.unknownRequiredCapability capability)
  if let some projection := remote.requiredProjections.find? (!knownProjection ·) then
    throw (.unknownRequiredProjection projection)
  requireSubset requirements.requiredCapabilities remote.supportedCapabilities .localCapabilityRequirement
  requireSubset remote.requiredCapabilities requirements.supportedCapabilities .remoteCapabilityRequirement
  requireSubset requirements.requiredProjections remote.supportedProjections .localProjectionRequirement
  requireSubset remote.requiredProjections requirements.supportedProjections .remoteProjectionRequirement
  return ⟨checkpoint, intersection requirements.supportedCapabilities remote.supportedCapabilities,
    intersection requirements.supportedProjections remote.supportedProjections⟩

variable [ReadDir] [Jiff] [Blake3]

/-- The checkpoint as it is read under the exclusive lock, after a recovery. -/
def admissionCheckpoint (store : Store) : Program Disk GitAdmissionError (Option AdmissionCheckpoint) := do
  Program.mapError GitAdmissionError.store (do
    recoverWithoutSnapshot store
    let _ ← Program.reads (scanVisible store))
  Program.mapError GitAdmissionError.checkpoint readCheckpoint

def negotiateHandshake (store : Store) (expectedStore : LogicalStoreId) (expectedTrust : LocalTrustBinding)
    (requirements : HandshakeRequirements) (remote : CapabilityOffer) : Program Disk NegotiationError NegotiatedHandshake := do
  let some checkpoint ← Program.mapError NegotiationError.checkpointAuthority (admissionCheckpoint store) |
    throw .missingCheckpoint
  .ofExcept (negotiate checkpoint expectedStore expectedTrust requirements remote)

end

end Wayjournal
