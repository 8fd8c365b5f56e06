import Wayjournal.Federation.Checkpoint
import Wayjournal.Projection

namespace Wayjournal

open Collections

/-- The device and the inode of a retained directory. -/
structure RootIdentity where
  device : Nat
  inode : Nat
  deriving DecidableEq

/-- An opened store: its process-local lock and the root directory it retains. -/
structure StoreHandle where
  localLock : Nat
  root : RootIdentity
  deriving DecidableEq

/-- An opened cache. -/
structure CacheHandle where
  localLock : Nat
  root : RootIdentity
  deriving DecidableEq

structure DependencyStore where
  expectedStore : LogicalStoreId
  store : StoreHandle

/-- The text of `AuthorityUnavailable`, by the error it prints. -/
inductive AuthorityProblem
  | store (source : StoreError)
  | checkpoint (source : CheckpointError)
  | projection (source : ProjectionError)
  | text (message : String)

/-- `malformed` is `InvalidLayout` with the text of another error. -/
inductive ProofCacheError
  | io (source : StoreError)
  | reset
  | tooManyAuthorities
  | invalidAuthorityOrder
  | aliasedAuthorityRoots
  | cacheAuthorityAlias
  | authorityUnavailable (problem : AuthorityProblem)
  | invalidSourceDependency
  | staleProof
  | entryTooLarge
  | invalidLayout (message : String)
  | malformed

/-- The roots seen so far are carried along. -/
def checkAuthorityRoots (cache : CacheHandle) : List RootIdentity → List DependencyStore → Except ProofCacheError Unit
  | _, [] => .ok ()
  | physical, authority :: rest =>
    if authority.store.root = cache.root then .error .cacheAuthorityAlias
    else if authority.store.root ∈ physical then .error .aliasedAuthorityRoots
    else checkAuthorityRoots cache (authority.store.root :: physical) rest

def validateAuthorityInputs (cache : CacheHandle) (authorities : List DependencyStore) :
    Except ProofCacheError Unit := do
  if authorities.length > MAX_VECTOR_STORES then throw .tooManyAuthorities
  if !ascending (authorities.map DependencyStore.expectedStore) then throw .invalidAuthorityOrder
  checkAuthorityRoots cache [] authorities

theorem validateAuthorityInputs_eq_ok {cache : CacheHandle} {authorities : List DependencyStore} :
    validateAuthorityInputs cache authorities = .ok () ↔
      authorities.length ≤ MAX_VECTOR_STORES ∧
        (authorities.map DependencyStore.expectedStore).Pairwise (· < ·) ∧
          checkAuthorityRoots cache [] authorities = .ok () := by
  rw [← ascending_iff]
  unfold validateAuthorityInputs
  by_cases hlength : authorities.length > MAX_VECTOR_STORES
  · rw [if_pos hlength]
    exact ⟨fun h => (nomatch h), fun h => absurd h.1 (not_le_of_gt hlength)⟩
  · rw [if_neg hlength]
    cases hordered : ascending (authorities.map DependencyStore.expectedStore) with
    | true => exact ⟨fun h => ⟨not_lt.mp hlength, rfl, h⟩, fun h => h.2.2⟩
    | false => exact ⟨fun h => (nomatch h), fun h => (nomatch h.2.1)⟩

theorem roots_of_checkAuthorityRoots {cache : CacheHandle} {physical : List RootIdentity}
    {authorities : List DependencyStore} (h : checkAuthorityRoots cache physical authorities = .ok ()) :
    (authorities.map (fun authority => authority.store.root)).Nodup ∧
      ∀ authority ∈ authorities, authority.store.root ≠ cache.root ∧ authority.store.root ∉ physical := by
  induction authorities generalizing physical with
  | nil => exact ⟨List.nodup_nil, fun _ h => absurd h List.not_mem_nil⟩
  | cons authority rest ih =>
    unfold checkAuthorityRoots at h
    split at h
    · cases h
    · rename_i hcache
      split at h
      · cases h
      · rename_i hphysical
        obtain ⟨hnodup, hrest⟩ := ih h
        refine ⟨?_, ?_⟩
        · rw [List.map_cons, List.nodup_cons]
          refine ⟨fun hmem => ?_, hnodup⟩
          obtain ⟨other, hother, heq⟩ := List.mem_map.mp hmem
          exact (hrest other hother).2 (heq ▸ List.mem_cons_self)
        · intro other hother
          obtain rfl | hother := List.mem_cons.mp hother
          · exact ⟨hcache, hphysical⟩
          · exact ⟨(hrest other hother).1, fun hmem => (hrest other hother).2 (List.mem_cons_of_mem _ hmem)⟩

/-- Accepted authorities lie in roots of their own, none of them the root of the cache. -/
theorem roots_of_validateAuthorityInputs {cache : CacheHandle} {authorities : List DependencyStore}
    (h : validateAuthorityInputs cache authorities = .ok ()) :
    (authorities.map (fun authority => authority.store.root)).Nodup ∧
      ∀ authority ∈ authorities, authority.store.root ≠ cache.root := by
  obtain ⟨hnodup, hroots⟩ := roots_of_checkAuthorityRoots (validateAuthorityInputs_eq_ok.mp h).2.2
  exact ⟨hnodup, fun authority hauthority => (hroots authority hauthority).1⟩

end Wayjournal
