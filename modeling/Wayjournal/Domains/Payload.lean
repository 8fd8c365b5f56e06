import Wayjournal.Domains.Operation
import Wayjournal.Json.Serde
import Wayjournal.Record.Codec

namespace Wayjournal

open Collections Serde Text

def MAX_TEXT : Nat := 4096
def MAX_KEY : Nat := 128
def MAX_LOCATOR : Nat := 2048
def MAX_REFERENCES : Nat := 4096

/-- `malformedPayload` is `InvalidPayload` with the text of the JSON library. -/
inductive OperationError
  | unsupported
  | malformedPayload
  | invalidPayload (message : String)
  deriving DecidableEq

instance : Deserialize RemoteLocator where
  fromValue v := do
    let [locator, requires] ← structFields ["locator", "requires_identity_validation"] v | none
    return ⟨← required locator, ← required requires⟩

/-- The fields of a variant of an internally tagged enum: the members beside the
tag, or the elements after it. -/
def taggedContent (tag : String) (v : Json) : Option (String × Json) :=
  match v.view with
  | .object members => do
    let kind ← members.get? tag
    return (← fromValue kind, .object (members.erase tag))
  | .array (kind :: rest) => do
    return (← fromValue kind, .array rest)
  | _ => none

instance : Deserialize CatalogRelation where
  fromValue v := do
    let (kind, content) ← taggedContent "kind" v
    if kind = "qualified" then
      let [reference] ← structFields ["reference"] content | none
      return .qualified (← required reference)
    else if kind = "private.task_run_pair" then
      let [left, right] ← structFields ["left", "right"] content | none
      return .privateTaskRunPair (← required left) (← required right)
    else none

structure ScalarPayload (α : Type) where
  value : α

instance [Deserialize α] : Deserialize (ScalarPayload α) where
  fromValue v := do
    let [value] ← structFields ["value"] v | none
    return ⟨← required value⟩

structure ResolvePayload (α : Type) where
  candidates : List RecordId
  value : α

instance [Deserialize α] : Deserialize (ResolvePayload α) where
  fromValue v := do
    let [candidates, value] ← structFields ["candidates", "value"] v | none
    return ⟨← required candidates, ← required value⟩

structure AddPayload (α : Type) where
  key : String
  value : α

instance [Deserialize α] : Deserialize (AddPayload α) where
  fromValue v := do
    let [key, value] ← structFields ["key", "value"] v | none
    return ⟨← required key, ← required value⟩

structure RemovePayload where
  adds : List RecordId
  key : String

instance : Deserialize RemovePayload where
  fromValue v := do
    let [adds, key] ← structFields ["adds", "key"] v | none
    return ⟨← required adds, ← required key⟩

structure CatalogScalarPayload (α : Type) where
  target : LogicalStoreId
  value : α

instance [Deserialize α] : Deserialize (CatalogScalarPayload α) where
  fromValue v := do
    let [target, value] ← structFields ["target", "value"] v | none
    return ⟨← required target, ← required value⟩

structure CatalogResolvePayload (α : Type) where
  candidates : List RecordId
  target : LogicalStoreId
  value : α

instance [Deserialize α] : Deserialize (CatalogResolvePayload α) where
  fromValue v := do
    let [candidates, target, value] ← structFields ["candidates", "target", "value"] v | none
    return ⟨← required candidates, ← required target, ← required value⟩

structure CatalogAddPayload (α : Type) where
  key : String
  target : LogicalStoreId
  value : α

instance [Deserialize α] : Deserialize (CatalogAddPayload α) where
  fromValue v := do
    let [key, target, value] ← structFields ["key", "target", "value"] v | none
    return ⟨← required key, ← required target, ← required value⟩

structure CatalogRemovePayload where
  adds : List RecordId
  key : String
  target : LogicalStoreId

instance : Deserialize CatalogRemovePayload where
  fromValue v := do
    let [adds, key, target] ← structFields ["adds", "key", "target"] v | none
    return ⟨← required adds, ← required key, ← required target⟩

def parsePayload (α : Type) [Deserialize α] (value : Json) : Except OperationError α :=
  match fromValue value with
  | none => .error .malformedPayload
  | some x => .ok x

def bounded (value : String) (maximum : Nat) (name : String) : Except OperationError String :=
  if value.toList.isEmpty || value.toList.length > maximum || value.toList.any isControl then
    .error (.invalidPayload (name ++ " must be nonempty, bounded, and contain no controls"))
  else .ok value

def validateIds (ids : List RecordId) (name : String) : Except OperationError (List RecordId) :=
  if ids.isEmpty || ids.length > MAX_REFERENCES || !ascending ids then
    .error (.invalidPayload (name ++ " must be nonempty, bounded, sorted, and duplicate-free"))
  else .ok ids

def text (value : String) : Except OperationError String := bounded value MAX_TEXT "value"

def key (value : String) : Except OperationError String := bounded value MAX_KEY "key"

def RemoteLocator.validate (r : RemoteLocator) : Except OperationError RemoteLocator := do
  let _ ← bounded r.locator MAX_LOCATOR "locator"
  if !r.requiresIdentityValidation then
    throw (.invalidPayload "catalog/profile locators must require identity validation")
  return r

/-- A policy hint is keyed by a domain. -/
def policyKey (value : String) : Except OperationError String :=
  match (FromStr.fromStr value : Except IdentifierError DomainId) with
  | .error e => .error (.invalidPayload e.message)
  | .ok domain => .ok domain.asStr

/-- The operations of one domain, their values fitting their fields. -/
abbrev TypedKind (catalog : Bool) := { kind : OperationKind // kind.typed catalog = true }

section Profile

def profileText (field : ScalarField) (h : ∀ s, field.accepts (.text s) = true) (payload : Json) :
    Except OperationError (TypedKind false) := do
  let raw ← parsePayload (ScalarPayload String) payload
  let value ← text raw.value
  return ⟨.scalarSet field (.text value), h value⟩

def profileResolve (field : ScalarField) (h : ∀ s, field.accepts (.text s) = true) (payload : Json) :
    Except OperationError (TypedKind false) := do
  let raw ← parsePayload (ResolvePayload String) payload
  let candidates ← validateIds raw.candidates "candidates"
  let value ← text raw.value
  return ⟨.scalarResolve field (.text value) candidates, h value⟩

def profileAddText (field : SetField) (h : ∀ s, field.accepts false (.text s) = true)
    (key : String → Except OperationError String) (payload : Json) :
    Except OperationError (TypedKind false) := do
  let raw ← parsePayload (AddPayload String) payload
  let key ← key raw.key
  let value ← text raw.value
  return ⟨.add field key (.text value), h value⟩

def profileRemove (field : SetField) (key : String → Except OperationError String) (payload : Json) :
    Except OperationError (TypedKind false) := do
  let raw ← parsePayload RemovePayload payload
  let adds ← validateIds raw.adds "adds"
  let key ← key raw.key
  return ⟨.remove field key adds, rfl⟩

def profileKind (kind : String) (payload : Json) : Except OperationError (TypedKind false) :=
  match kind with
  | "profile.display_name.set" => profileText .displayName (fun _ => rfl) payload
  | "profile.description.set" => profileText .description (fun _ => rfl) payload
  | "profile.application.set" => profileText .application (fun _ => rfl) payload
  | "profile.display_name.resolve" => profileResolve .displayName (fun _ => rfl) payload
  | "profile.description.resolve" => profileResolve .description (fun _ => rfl) payload
  | "profile.application.resolve" => profileResolve .application (fun _ => rfl) payload
  | "profile.remote.add" => do
    let raw ← parsePayload (AddPayload RemoteLocator) payload
    let value ← raw.value.validate
    return ⟨.add .remote (← key raw.key) (.remote value), rfl⟩
  | "profile.relation.add" => do
    let raw ← parsePayload (AddPayload QualifiedEntityRef) payload
    return ⟨.add .relation (← key raw.key) (.qualified raw.value), rfl⟩
  | "profile.capability.add" => profileAddText .capability (fun _ => rfl) key payload
  | "profile.alias.add" => profileAddText .alias (fun _ => rfl) key payload
  | "profile.policy_hint.add" => profileAddText .policy (fun _ => rfl) policyKey payload
  | "profile.remote.remove" => profileRemove .remote key payload
  | "profile.relation.remove" => profileRemove .relation key payload
  | "profile.capability.remove" => profileRemove .capability key payload
  | "profile.alias.remove" => profileRemove .alias key payload
  | "profile.policy_hint.remove" => profileRemove .policy policyKey payload
  | _ => .error .unsupported

end Profile

section Catalog

abbrev CatalogKind := LogicalStoreId × TypedKind true

def catalogSet (α : Type) [Deserialize α] (field : ScalarField)
    (value : α → Except OperationError { v : ScalarValue // field.accepts v = true })
    (payload : Json) : Except OperationError CatalogKind := do
  let raw ← parsePayload (CatalogScalarPayload α) payload
  let value ← value raw.value
  return (raw.target, ⟨.scalarSet field value.1, value.2⟩)

def catalogResolve (α : Type) [Deserialize α] (field : ScalarField)
    (value : α → Except OperationError { v : ScalarValue // field.accepts v = true })
    (payload : Json) : Except OperationError CatalogKind := do
  let raw ← parsePayload (CatalogResolvePayload α) payload
  let candidates ← validateIds raw.candidates "candidates"
  let value ← value raw.value
  return (raw.target, ⟨.scalarResolve field value.1 candidates, value.2⟩)

def entryNameValue (s : String) :
    Except OperationError { v : ScalarValue // ScalarField.entryName.accepts v = true } := do
  return ⟨.text (← text s), rfl⟩

def enabledValue (b : Bool) :
    Except OperationError { v : ScalarValue // ScalarField.enabled.accepts v = true } :=
  .ok ⟨.bool b, rfl⟩

def defaultStoreValue (s : LogicalStoreId) :
    Except OperationError { v : ScalarValue // ScalarField.defaultStore.accepts v = true } :=
  .ok ⟨.store s, rfl⟩

def catalogAddText (field : SetField) (h : ∀ s, field.accepts true (.text s) = true)
    (payload : Json) : Except OperationError CatalogKind := do
  let raw ← parsePayload (CatalogAddPayload String) payload
  let key ← key raw.key
  let value ← text raw.value
  return (raw.target, ⟨.add field key (.text value), h value⟩)

def catalogRemove (field : SetField) (payload : Json) : Except OperationError CatalogKind := do
  let raw ← parsePayload CatalogRemovePayload payload
  let adds ← validateIds raw.adds "adds"
  let key ← key raw.key
  return (raw.target, ⟨.remove field key adds, rfl⟩)

def catalogKind (kind : String) (payload : Json) : Except OperationError CatalogKind :=
  match kind with
  | "catalog.name.set" => catalogSet String .entryName entryNameValue payload
  | "catalog.enabled.set" => catalogSet Bool .enabled enabledValue payload
  | "catalog.default_store.set" => catalogSet LogicalStoreId .defaultStore defaultStoreValue payload
  | "catalog.name.resolve" => catalogResolve String .entryName entryNameValue payload
  | "catalog.enabled.resolve" => catalogResolve Bool .enabled enabledValue payload
  | "catalog.default_store.resolve" =>
    catalogResolve LogicalStoreId .defaultStore defaultStoreValue payload
  | "catalog.remote.add" => do
    let raw ← parsePayload (CatalogAddPayload RemoteLocator) payload
    let value ← raw.value.validate
    return (raw.target, ⟨.add .remote (← key raw.key) (.remote value), rfl⟩)
  | "catalog.relation.add" => do
    let raw ← parsePayload (CatalogAddPayload CatalogRelation) payload
    return (raw.target, ⟨.add .relation (← key raw.key) (.relation raw.value), rfl⟩)
  | "catalog.alias.add" => catalogAddText .alias (fun _ => rfl) payload
  | "catalog.group.add" => catalogAddText .group (fun _ => rfl) payload
  | "catalog.remote.remove" => catalogRemove .remote payload
  | "catalog.relation.remove" => catalogRemove .relation payload
  | "catalog.alias.remove" => catalogRemove .alias payload
  | "catalog.group.remove" => catalogRemove .group payload
  | _ => .error .unsupported

end Catalog

namespace DomainOperation

variable [Jiff]

def profileOperation (record : Record) (h : record.domain.asStr = PROFILE_DOMAIN) :
    Except OperationError DomainOperation := do
  let kind ← profileKind record.kind.asStr record.payload
  return ⟨record.recordId, record.entityId, record.parents, record.domain, none, kind.1, by
    simp [wellTyped, h, kind.2]⟩

def catalogOperation (record : Record) (h : record.domain.asStr = CATALOG_DOMAIN) :
    Except OperationError DomainOperation := do
  let (target, kind) ← catalogKind record.kind.asStr record.payload
  return ⟨record.recordId, record.entityId, record.parents, record.domain, some target, kind.1, by
    simp [wellTyped, h, kind.2]⟩

/-- `DomainOperation::try_from`. -/
def tryFrom (record : Record) : Except OperationError DomainOperation :=
  if h : record.domain.asStr = PROFILE_DOMAIN ∧ record.recordSchema.asStr = PROFILE_SCHEMA_V1 then
    profileOperation record h.1
  else if h : record.domain.asStr = CATALOG_DOMAIN ∧
      record.recordSchema.asStr = CATALOG_SCHEMA_V1 then
    catalogOperation record h.1
  else .error .unsupported

end DomainOperation

end Wayjournal
