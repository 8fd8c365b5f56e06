import Wayjournal.Concurrency.Locking
import Wayjournal.ProofCache.Authorities

namespace Wayjournal

open Concurrency

/-- Roots of stores and of caches are locked alike, by their directory. -/
inductive Lock
  | store (store : StoreHandle)
  | cache (cache : CacheHandle)
  | root (root : RootIdentity)
  deriving DecidableEq

def StoreHandle.lockShared (store : StoreHandle) : List (Request Lock) :=
  [⟨.store store, false⟩, ⟨.root store.root, false⟩]

def StoreHandle.lockExclusive (store : StoreHandle) : List (Request Lock) :=
  [⟨.store store, true⟩, ⟨.root store.root, true⟩]

def CacheHandle.beginOperation (cache : CacheHandle) : List (Request Lock) :=
  [⟨.cache cache, true⟩, ⟨.root cache.root, true⟩]

/-- The locks of a lookup or an insertion. -/
def dependencyLocks (cache : CacheHandle) (authorities : List DependencyStore) : List (Request Lock) :=
  authorities.flatMap (fun authority => authority.store.lockExclusive) ++ cache.beginOperation

/-- A call and the handles it is given; an operation is any call that locks one store once. -/
inductive Call
  | lookup (cache : CacheHandle) (authorities : List DependencyStore)
  | insert (cache : CacheHandle) (authorities : List DependencyStore)
  | invalidateStore (cache : CacheHandle)
  | syncStores (targets : List StoreHandle) (cache : Option CacheHandle)
  | operation (store : StoreHandle)
  | read (store : StoreHandle)

namespace Call

def authorities : Call → List DependencyStore
  | lookup _ authorities => authorities
  | insert _ authorities => authorities
  | _ => []

def caches : Call → List CacheHandle
  | lookup cache _ => [cache]
  | insert cache _ => [cache]
  | invalidateStore cache => [cache]
  | syncStores _ cache => cache.toList
  | _ => []

def stores : Call → List StoreHandle
  | lookup _ authorities => authorities.map DependencyStore.store
  | insert _ authorities => authorities.map DependencyStore.store
  | syncStores targets _ => targets
  | operation store => [store]
  | read store => [store]
  | invalidateStore _ => []

/-- A target is synchronized and observed, and the cache is told when the target has moved. -/
def syncRound (cache : Option CacheHandle) (target : StoreHandle × Bool) : List (List (Request Lock)) :=
  [target.1.lockExclusive, target.1.lockExclusive] ++
    if target.2 then cache.toList.map CacheHandle.beginOperation else []

/-- A reader that finds residue recovers the store and starts over. -/
def readRound (store : StoreHandle) : List (List (Request Lock)) := [store.lockShared, store.lockExclusive]

/-- What a call locks from session to session; between sessions it holds nothing. -/
inductive Plan : Call → List (List (Request Lock)) → Prop
  | refused (call : Call) : Plan call []
  | lookup {authorities : List DependencyStore} : validateAuthorityInputs cache authorities = .ok () →
      Plan (.lookup cache authorities) [dependencyLocks cache authorities]
  | insert {authorities : List DependencyStore} : validateAuthorityInputs cache authorities = .ok () →
      Plan (.insert cache authorities) [dependencyLocks cache authorities]
  | invalidateStore : Plan (.invalidateStore cache) [cache.beginOperation]
  | preflight (n : Nat) : Plan (.syncStores targets cache) ((targets.take n).map StoreHandle.lockExclusive)
  | synced (advanced : List (StoreHandle × Bool)) : advanced.map Prod.fst = targets →
      Plan (.syncStores targets cache) (targets.map StoreHandle.lockExclusive ++ advanced.flatMap (syncRound cache))
  | operation : Plan (.operation store) [store.lockExclusive]
  | read (n : Nat) : Plan (.read store) ((List.replicate n (readRound store)).flatten ++ [store.lockShared])

end Call

/-- No call has taken a lock yet. -/
def Starts (calls : ι → Call) (σ : ι → Thread Lock) : Prop :=
  ∀ i, ∃ sessions, (calls i).Plan sessions ∧ σ i = .start sessions

end Wayjournal
