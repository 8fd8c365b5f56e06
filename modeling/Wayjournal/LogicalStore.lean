import Mathlib.Data.Prod.Lex
import Wayjournal.Hash

namespace Wayjournal

structure LogicalStoreId where
  storeUuid : StoreUuid
  genesisFingerprint : Digest

namespace LogicalStoreId

def key (s : LogicalStoreId) : StoreUuid ×ₗ Digest := toLex (s.storeUuid, s.genesisFingerprint)

theorem key_injective : Function.Injective key := by
  rintro ⟨a, b⟩ ⟨c, d⟩ h
  cases h
  rfl

instance : LinearOrder LogicalStoreId := LinearOrder.lift' key key_injective

end LogicalStoreId

structure QualifiedEntityRef where
  store : LogicalStoreId
  domain : DomainId
  entityId : EntityId

namespace QualifiedEntityRef

def key (r : QualifiedEntityRef) : LogicalStoreId ×ₗ DomainId ×ₗ EntityId :=
  toLex (r.store, toLex (r.domain, r.entityId))

theorem key_injective : Function.Injective key := by
  rintro ⟨a, b, c⟩ ⟨d, e, f⟩ h
  cases h
  rfl

instance : LinearOrder QualifiedEntityRef := LinearOrder.lift' key key_injective

end QualifiedEntityRef

inductive IdentityRelation
  | replica
  | uuidCollision
  | distinct
  deriving DecidableEq

def classifyLogicalIdentity (left right : LogicalStoreId) : IdentityRelation :=
  if left = right then .replica
  else if left.storeUuid = right.storeUuid then .uuidCollision
  else .distinct

end Wayjournal
