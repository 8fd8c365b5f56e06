import Mathlib.Data.Sum.Order
import Wayjournal.Causal.Graph
import Wayjournal.LogicalStore

namespace Wayjournal

def PROFILE_DOMAIN : String := "wayjournal.profile"
def CATALOG_DOMAIN : String := "wayjournal.catalog"
def PROFILE_SCHEMA_V1 : String := "wayjournal.profile/v1"
def CATALOG_SCHEMA_V1 : String := "wayjournal.catalog/v1"

structure RemoteLocator where
  locator : String
  requiresIdentityValidation : Bool

namespace RemoteLocator

def key (r : RemoteLocator) : String ×ₗ Bool := toLex (r.locator, r.requiresIdentityValidation)

theorem key_injective : Function.Injective key := by
  rintro ⟨a, b⟩ ⟨c, d⟩ h
  cases h
  rfl

instance : LinearOrder RemoteLocator := LinearOrder.lift' key key_injective

end RemoteLocator

inductive CatalogRelation
  | qualified (reference : QualifiedEntityRef)
  | privateTaskRunPair (left right : QualifiedEntityRef)

namespace CatalogRelation

def key : CatalogRelation → QualifiedEntityRef ⊕ₗ (QualifiedEntityRef ×ₗ QualifiedEntityRef)
  | .qualified reference => Sum.inlₗ reference
  | .privateTaskRunPair left right => Sum.inrₗ (toLex (left, right))

theorem key_injective : Function.Injective key := by
  intro a b h
  cases a <;> cases b <;> cases h <;> rfl

instance : LinearOrder CatalogRelation := LinearOrder.lift' key key_injective

end CatalogRelation

inductive ScalarValue
  | text (value : String)
  | bool (value : Bool)
  | store (value : LogicalStoreId)
  deriving DecidableEq

inductive SetValue
  | text (value : String)
  | remote (value : RemoteLocator)
  | qualified (value : QualifiedEntityRef)
  | relation (value : CatalogRelation)
  deriving DecidableEq

inductive ScalarField
  | displayName
  | description
  | application
  | entryName
  | enabled
  | defaultStore

namespace ScalarField

def index : ScalarField → Nat
  | .displayName => 0
  | .description => 1
  | .application => 2
  | .entryName => 3
  | .enabled => 4
  | .defaultStore => 5

theorem index_injective : Function.Injective index := by
  intro a b h
  cases a <;> cases b <;> first | rfl | cases h

instance : LinearOrder ScalarField := LinearOrder.lift' index index_injective

/-- The values `DomainOperation::try_from` pairs with a scalar field. -/
def accepts : ScalarField → ScalarValue → Bool
  | .displayName, .text _ => true
  | .description, .text _ => true
  | .application, .text _ => true
  | .entryName, .text _ => true
  | .enabled, .bool _ => true
  | .defaultStore, .store _ => true
  | _, _ => false

end ScalarField

inductive SetField
  | remote
  | relation
  | capability
  | alias
  | policy
  | group

namespace SetField

def index : SetField → Nat
  | .remote => 0
  | .relation => 1
  | .capability => 2
  | .alias => 3
  | .policy => 4
  | .group => 5

theorem index_injective : Function.Injective index := by
  intro a b h
  cases a <;> cases b <;> first | rfl | cases h

instance : LinearOrder SetField := LinearOrder.lift' index index_injective

/-- The values `DomainOperation::try_from` pairs with a keyed-set field. -/
def accepts (catalog : Bool) : SetField → SetValue → Bool
  | .remote, .remote _ => true
  | .relation, .qualified _ => !catalog
  | .relation, .relation _ => catalog
  | .capability, .text _ => true
  | .alias, .text _ => true
  | .policy, .text _ => true
  | .group, .text _ => true
  | _, _ => false

end SetField

inductive OperationKind
  | scalarSet (field : ScalarField) (value : ScalarValue)
  | scalarResolve (field : ScalarField) (value : ScalarValue) (candidates : List RecordId)
  | add (field : SetField) (key : String) (value : SetValue)
  | remove (field : SetField) (key : String) (adds : List RecordId)
  deriving DecidableEq

namespace OperationKind

def typed (catalog : Bool) : OperationKind → Bool
  | .scalarSet field value => field.accepts value
  | .scalarResolve field value _ => field.accepts value
  | .add field _ value => field.accepts catalog value
  | .remove _ _ _ => true

/-- The scalar field a set or a resolve writes, with the value. -/
def scalarWrite? : OperationKind → Option (ScalarField × ScalarValue)
  | .scalarSet field value => some (field, value)
  | .scalarResolve field value _ => some (field, value)
  | _ => none

def add? : OperationKind → Option (SetField × String × SetValue)
  | .add field key value => some (field, key, value)
  | _ => none

/-- The candidates a resolve names. -/
def candidates : OperationKind → List RecordId
  | .scalarResolve _ _ candidates => candidates
  | _ => []

/-- The adds a remove names. -/
def removed : OperationKind → List RecordId
  | .remove _ _ adds => adds
  | _ => []

end OperationKind

/-- The operations `try_from` can return: a profile operation has no target, a
catalog operation has one, and the value fits the field. -/
def wellTyped (domain : DomainId) (target : Option LogicalStoreId) (kind : OperationKind) : Bool :=
  match target with
  | none => domain.asStr = PROFILE_DOMAIN && kind.typed false
  | some _ => domain.asStr = CATALOG_DOMAIN && kind.typed true

structure DomainOperation where
  recordId : RecordId
  entityId : EntityId
  parents : List RecordId
  domain : DomainId
  target : Option LogicalStoreId
  kind : OperationKind
  typed : wellTyped domain target kind = true
  deriving DecidableEq

instance : CausalNode DomainOperation := ⟨DomainOperation.recordId, DomainOperation.parents⟩

namespace DomainOperation

def Writes (x : DomainOperation) (field : ScalarField) : Prop :=
  ∃ value, x.kind.scalarWrite? = some (field, value)

def Adds (x : DomainOperation) (field : SetField) (key : String) : Prop :=
  ∃ value, x.kind.add? = some (field, key, value)

theorem target_of_profile {x : DomainOperation} (h : x.domain.asStr = PROFILE_DOMAIN) :
    x.target = none := by
  have ht := x.typed
  cases hx : x.target with
  | none => rfl
  | some t =>
    simp only [wellTyped, hx, h, Bool.and_eq_true, decide_eq_true_eq] at ht
    exact absurd ht.1 (by decide)

theorem target_of_catalog {x : DomainOperation} (h : x.domain.asStr = CATALOG_DOMAIN) :
    ∃ t, x.target = some t := by
  have ht := x.typed
  cases hx : x.target with
  | none =>
    simp only [wellTyped, hx, h, Bool.and_eq_true, decide_eq_true_eq] at ht
    exact absurd ht.1 (by decide)
  | some t => exact ⟨t, rfl⟩

theorem kind_typed (x : DomainOperation) : x.kind.typed x.target.isSome = true := by
  have ht := x.typed
  cases hx : x.target with
  | none =>
    simp only [wellTyped, hx, Bool.and_eq_true] at ht
    exact ht.2
  | some t =>
    simp only [wellTyped, hx, Bool.and_eq_true] at ht
    exact ht.2

end DomainOperation

end Wayjournal
