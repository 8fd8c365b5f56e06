import Wayjournal.Control.Except
import Wayjournal.Domains.Payload
import Wayjournal.Identity

namespace Wayjournal

open Text

def IDENTITY_KINDS : List String := ["store.genesis"]

def PROFILE_KINDS : List String :=
  ["profile.alias.add", "profile.alias.remove", "profile.application.resolve", "profile.application.set",
    "profile.capability.add", "profile.capability.remove", "profile.description.resolve",
    "profile.description.set", "profile.display_name.resolve", "profile.display_name.set",
    "profile.policy_hint.add", "profile.policy_hint.remove", "profile.relation.add", "profile.relation.remove",
    "profile.remote.add", "profile.remote.remove"]

def CATALOG_KINDS : List String :=
  ["catalog.alias.add", "catalog.alias.remove", "catalog.default_store.resolve", "catalog.default_store.set",
    "catalog.enabled.resolve", "catalog.enabled.set", "catalog.group.add", "catalog.group.remove",
    "catalog.name.resolve", "catalog.name.set", "catalog.relation.add", "catalog.relation.remove",
    "catalog.remote.add", "catalog.remote.remove"]

/-- The text of an error, less what the JSON library adds to it. -/
def OperationError.message : OperationError → String
  | .unsupported => "unsupported profile/catalog domain schema or kind"
  | .malformedPayload => "invalid closed operation payload: "
  | .invalidPayload message => "invalid closed operation payload: " ++ message

def validateIdentityPayload (kind : KindId) (payload : Json) : Except String Unit :=
  if kind.asStr ≠ "store.genesis" then .error "identity schema supports only store.genesis"
  else
    match (fromValue payload : Option GenesisPayload) with
    | none => .error "invalid closed genesis payload: "
    | some parsed =>
      if parsed.reusesParent then .error "logical fork must mint a new store UUID" else .ok ()

inductive RegistryError
  | invalidRegistration (subject message : String)
  | duplicateRegistration (domain schema : String)
  | invalidKind (kind : String)
  deriving DecidableEq

/-- The checks of one registration, given the pairs before it. -/
def checkRegistration (pairs : List (String × String)) (registration : DomainRegistration) :
    Except RegistryError (List (String × String)) := do
  let _ ← (FromStr.fromStr registration.domain : Except _ DomainId).mapError
    (fun e => .invalidRegistration registration.domain e.message)
  let _ ← (FromStr.fromStr registration.schema : Except _ RecordSchemaId).mapError
    (fun e => .invalidRegistration registration.schema e.message)
  if (splitOnce '/' registration.schema.toList).map (fun p => String.ofList p.1) ≠ some registration.domain then
    throw (.invalidRegistration registration.schema "schema prefix must equal its registered domain")
  if pairs.contains (registration.domain, registration.schema) then
    throw (.duplicateRegistration registration.domain registration.schema)
  let _ ← registration.kinds.foldlM (fun (kinds : List String) kind =>
    if !parses KindId kind || kinds.contains kind then Except.error (.invalidKind kind)
    else .ok (kind :: kinds)) []
  return (registration.domain, registration.schema) :: pairs

def DomainRegistry.validateAndCollect (registrations : List DomainRegistration) :
    Except RegistryError DomainRegistry := do
  let _ ← registrations.foldlM checkRegistration []
  return ⟨registrations, false⟩

def reservedDomains : List String := ["wayjournal.identity", "wayjournal.profile", "wayjournal.catalog"]

def DomainRegistry.withBuiltins (builtins additional : List DomainRegistration) :
    Except RegistryError DomainRegistry := do
  if let some registration := additional.find? (fun r => reservedDomains.contains r.domain) then
    throw (.invalidRegistration registration.domain "reserved built-in domain cannot be extended or overridden")
  let registry ← DomainRegistry.validateAndCollect (builtins ++ additional)
  return { registry with sealedBuiltins := true }

/-- The checks do not look at the validators. -/
theorem foldlM_checkRegistration_congr {l l' : List DomainRegistration} (pairs : List (String × String))
    (h : l.map (fun r => (r.domain, r.schema, r.kinds)) = l'.map (fun r => (r.domain, r.schema, r.kinds))) :
    l.foldlM checkRegistration pairs = l'.foldlM checkRegistration pairs := by
  induction l generalizing l' pairs with
  | nil => rw [List.map_eq_nil_iff.mp h.symm]
  | cons r rest ih =>
    obtain ⟨r', rest', rfl, hr, hrest⟩ := List.map_eq_cons_iff.mp h.symm
    obtain ⟨domain, schema, kinds, validator⟩ := r
    obtain ⟨domain', schema', kinds', validator'⟩ := r'
    cases hr
    rw [List.foldlM_cons, List.foldlM_cons]
    exact bind_congr fun pairs' => ih pairs' hrest.symm

section

variable [Jiff]

/-- The payload is checked in a record made up for it. -/
def validatePayload (domain schema : String) (kind : KindId) (payload : Json) : Except String Unit := do
  let recordSchema ← (FromStr.fromStr schema).mapError IdentifierError.message
  let domain ← (FromStr.fromStr domain).mapError IdentifierError.message
  let recordId ← (FromStr.fromStr "01913f1d-8e2a-7c30-8f4a-426614174001").mapError IdentifierError.message
  let entityId ← (FromStr.fromStr "123e4567-e89b-42d3-a456-426614174000").mapError IdentifierError.message
  let batchId ← (FromStr.fromStr "01913f1d-8e2a-7c30-8f4a-426614174002").mapError IdentifierError.message
  let actor ← (FromStr.fromStr "system:validator").mapError IdentifierError.message
  let occurredAt ← (FromStr.fromStr "2026-01-01T00:00:00Z").mapError IdentifierError.message
  let recordedAt ← (FromStr.fromStr "2026-01-01T00:00:00Z").mapError IdentifierError.message
  let fake : Record :=
    ⟨recordSchema, domain, kind, recordId, entityId, batchId, actor, occurredAt, recordedAt, [], payload⟩
  let _ ← (DomainOperation.tryFrom fake).mapError OperationError.message
  return ()

def validateProfilePayload : KindId → Json → Except String Unit :=
  validatePayload "wayjournal.profile" PROFILE_SCHEMA_V1

def validateCatalogPayload : KindId → Json → Except String Unit :=
  validatePayload "wayjournal.catalog" CATALOG_SCHEMA_V1

def BUILTIN_DOMAINS : List DomainRegistration :=
  [⟨"wayjournal.identity", IDENTITY_SCHEMA_V1, IDENTITY_KINDS, validateIdentityPayload⟩,
    ⟨"wayjournal.profile", PROFILE_SCHEMA_V1, PROFILE_KINDS, validateProfilePayload⟩,
    ⟨"wayjournal.catalog", CATALOG_SCHEMA_V1, CATALOG_KINDS, validateCatalogPayload⟩]

def wayjournalDomainRegistryWith (additional : List DomainRegistration) : Except RegistryError DomainRegistry :=
  DomainRegistry.withBuiltins BUILTIN_DOMAINS additional

def wayjournalDomainRegistry : Except RegistryError DomainRegistry := wayjournalDomainRegistryWith []

/-- The built-in declarations pass their own checks. -/
theorem wayjournalDomainRegistry_eq : wayjournalDomainRegistry = .ok ⟨BUILTIN_DOMAINS, true⟩ := by
  have hcongr : BUILTIN_DOMAINS.foldlM checkRegistration [] =
      [⟨"wayjournal.identity", IDENTITY_SCHEMA_V1, IDENTITY_KINDS, fun _ _ => .ok ()⟩,
        ⟨"wayjournal.profile", PROFILE_SCHEMA_V1, PROFILE_KINDS, fun _ _ => .ok ()⟩,
        ⟨"wayjournal.catalog", CATALOG_SCHEMA_V1, CATALOG_KINDS, fun _ _ => .ok ()⟩].foldlM checkRegistration [] :=
    foldlM_checkRegistration_congr [] rfl
  have hpairs : BUILTIN_DOMAINS.foldlM checkRegistration [] =
      .ok [("wayjournal.catalog", CATALOG_SCHEMA_V1), ("wayjournal.profile", PROFILE_SCHEMA_V1),
        ("wayjournal.identity", IDENTITY_SCHEMA_V1)] := by
    rw [hcongr]
    decide +kernel
  unfold wayjournalDomainRegistry wayjournalDomainRegistryWith DomainRegistry.withBuiltins
  refine except_bind_eq_ok.mpr ⟨⟨BUILTIN_DOMAINS, false⟩, ?_, rfl⟩
  rw [List.append_nil]
  exact except_bind_eq_ok.mpr ⟨_, hpairs, rfl⟩

end

end Wayjournal
