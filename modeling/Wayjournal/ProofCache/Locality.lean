import Wayjournal.Crash.Simulation
import Wayjournal.ProofCache.Cache

namespace Wayjournal

open Crash

variable {ε α : Type} {roots : Set RootIdentity} {handles : Set CacheHandle} {cache : CacheHandle}

theorem update_alike {disks disks' : RootIdentity → Disk} (h : ∀ root ∈ roots, disks root = disks' root)
    (changed : RootIdentity) (disk : Disk) :
    ∀ root ∈ roots, Function.update disks changed disk root = Function.update disks' changed disk root := by
  intro root hroot
  by_cases heq : root = changed
  · subst heq
    rw [Function.update_self, Function.update_self]
  · rw [Function.update_of_ne heq, Function.update_of_ne heq]
    exact h root hroot

/-- The worlds agree on some of the disks and on what some of the caches have seen. -/
structure CacheWorld.Alike (roots : Set RootIdentity) (handles : Set CacheHandle) (w t : CacheWorld) : Prop where
  disks : ∀ root ∈ roots, w.disks root = t.disks root
  checks : ∀ cache ∈ handles, w.checks cache = t.checks cache
  reset : ∀ cache ∈ handles, w.reset cache = t.reset cache

theorem simulates_onRoot {root : RootIdentity} (hroot : root ∈ roots) {f : ε → ProofCacheError} (p : Program Disk ε α) :
    Program.Simulates (CacheWorld.Alike roots handles) (CacheWorld.Alike roots handles) (CacheWorld.onRoot root f p)
      (CacheWorld.onRoot root f p) := by
  have hself : ∀ w : CacheWorld, w.withDisk root (w.disks root) = w := fun w => by
    rw [CacheWorld.withDisk, Function.update_eq_self]
  exact .zoom _ hself hself (fun _ _ h => h.disks root hroot) fun _ _ disk h =>
    ⟨update_alike h.disks root disk, h.checks, h.reset⟩

variable [Ambient]

theorem simulates_bindingMatches (hcache : cache ∈ handles) : Program.Simulates (CacheWorld.Alike roots handles)
    (CacheWorld.Alike roots handles) (ProofCache.bindingMatches cache) (ProofCache.bindingMatches cache) := by
  refine .bind (.reads fun _ _ h => by rw [h.reset cache hcache]) fun found => .ite (.pure _) ?_
  refine .bind (.reads fun _ _ h => by rw [h.checks cache hcache]) fun isBound => .bind ?_ fun _ => .pure _
  refine fun w t h => ⟨rfl, h.disks, fun other hother => ?_, fun other hother => ?_⟩
  · change Function.update w.checks cache (w.checks cache + 1) other = Function.update t.checks cache (t.checks cache + 1) other
    by_cases heq : other = cache
    · subst heq
      rw [Function.update_self, Function.update_self, h.checks other hother]
    · rw [Function.update_of_ne heq, Function.update_of_ne heq, h.checks other hother]
  · change Function.update w.reset cache (!isBound) other = Function.update t.reset cache (!isBound) other
    by_cases heq : other = cache
    · subst heq
      rw [Function.update_self, Function.update_self]
    · rw [Function.update_of_ne heq, Function.update_of_ne heq, h.reset other hother]

theorem simulates_duringOperation (hcache : cache ∈ handles) {p q : CacheM α}
    (h : Program.Simulates (CacheWorld.Alike roots handles) (CacheWorld.Alike roots handles) p q) :
    Program.Simulates (CacheWorld.Alike roots handles) (CacheWorld.Alike roots handles) (ProofCache.duringOperation cache p)
      (ProofCache.duringOperation cache q) :=
  .bind h.attempt fun _ => .bind (simulates_bindingMatches hcache) fun _ => .ofExcept _

variable [ReadDir]

theorem simulates_beginOperation (hroot : cache.root ∈ roots) (hcache : cache ∈ handles) :
    Program.Simulates (CacheWorld.Alike roots handles) (CacheWorld.Alike roots handles) (ProofCache.beginOperation cache)
      (ProofCache.beginOperation cache) := by
  refine .bind (simulates_bindingMatches hcache) fun isBound => .ite (.pure _) ?_
  refine .bind (simulates_onRoot hroot _).attempt fun cleaned => ?_
  cases cleaned with
  | error e => exact .pure _
  | ok _ => exact .bind (simulates_bindingMatches hcache) fun isBound => .ite (.pure _) (.pure _)

variable [Jiff] [Blake3]

theorem simulates_invalidateStore (hroot : cache.root ∈ roots) (hcache : cache ∈ handles) {store : LogicalStoreId}
    {old new : StoreRevisionRef} :
    Program.Simulates (CacheWorld.Alike roots handles) (CacheWorld.Alike roots handles) (ProofCache.invalidateStore cache store old new)
      (ProofCache.invalidateStore cache store old new) := by
  refine .bind (simulates_beginOperation hroot hcache) fun begun => ?_
  cases begun with
  | error start =>
    cases start with
    | reset => exact .pure _
    | unavailable => exact .pure _
  | ok _ =>
    refine simulates_duringOperation hcache (.bind (simulates_onRoot hroot _).attempt fun removed => ?_)
    cases removed with
    | error e => exact .bind (simulates_bindingMatches hcache) fun _ => .pure _
    | ok remove => exact .bind (simulates_bindingMatches hcache) fun _ => .ite (.pure _) (.pure _)

end Wayjournal
