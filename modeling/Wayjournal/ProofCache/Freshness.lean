import Wayjournal.ProofCache.HitLaws
import Wayjournal.Store.CrashAtomic

namespace Wayjournal

open Collections Crash Fs Text CacheWorld ProofCache

/-- Caches that were just opened. -/
def CacheWorld.opened (disks : RootIdentity → Disk) : CacheWorld := ⟨disks, fun _ => 0, fun _ => false⟩

theorem CacheWorld.latched_opened [Ambient] {disks : RootIdentity → Disk} : (opened disks).Latched :=
  fun _ ⟨_, hn, _⟩ => absurd hn (Nat.not_lt_zero _)

section

variable [Jiff] [Blake3] [ReadDir] [Url] [Ambient]

/-- A call on some cache, or whatever else happens to the files of stores and caches between two calls. -/
inductive CacheStep (w : CacheWorld) : CacheWorld → Prop
  | lookup (cache : CacheHandle) (proofId : ProofId) (authorities : List DependencyStore) :
      CacheStep w ((lookup cache proofId authorities).final w)
  | insert (cache : CacheHandle) (temporary : Uuid) (proof : VerifiedProof) (authorities : List DependencyStore) :
      CacheStep w ((insert cache temporary proof authorities).final w)
  | invalidateStore (cache : CacheHandle) (store : LogicalStoreId) (old new : StoreRevisionRef) :
      CacheStep w ((invalidateStore cache store old new).final w)
  | change (disks : RootIdentity → Disk) : CacheStep w { w with disks }

def CacheRuns : CacheWorld → CacheWorld → Prop := Relation.ReflTransGen CacheStep

variable {w t : CacheWorld} {cache : CacheHandle} {proofId : ProofId} {authorities : List DependencyStore}

theorem CacheStep.latch (h : CacheStep w t) : CacheWorld.latch.rel w t := by
  cases h with
  | lookup => exact keeps_latch_lookup.final w
  | insert => exact keeps_latch_insert.final w
  | invalidateStore => exact keeps_latch_invalidateStore.final w
  | change => exact ⟨fun _ h => h, fun h => h⟩

theorem CacheRuns.latch (h : CacheRuns w t) : CacheWorld.latch.rel w t := by
  induction h with
  | refl => exact CacheWorld.latch.refl w
  | tail _ hstep ih => exact CacheWorld.latch.trans ih hstep.latch

theorem lookup_of_reset (h : w.reset cache = true) : (lookup cache proofId authorities).result w = .ok .reset := by
  have hwp : (lookup cache proofId authorities).wp (fun _ => True) (fun result _ => result = .reset)
      (fun _ _ => False) w := by
    rw [lookup, Program.wp_bind, wp_bindingMatches_reset h]
    exact Program.wp_pure.mpr rfl
  obtain ⟨result, hresult, rfl⟩ := Program.ok_of_wp hwp
  exact hresult

theorem insert_of_reset {temporary : Uuid} {proof : VerifiedProof} (h : w.reset cache = true) :
    (insert cache temporary proof authorities).result w = .error .reset := by
  have hwp : (insert cache temporary proof authorities).wp (fun _ => True) (fun _ _ => False)
      (fun e _ => e = .reset) w := by
    rw [ProofCache.insert, Program.wp_bind, prepareInsert, Program.wp_bind, wp_bindingMatches_reset h]
    exact Program.wp_bind.mpr (Program.wp_throw.mpr rfl)
  have hresult := hwp.2
  split at hresult
  · exact hresult.elim
  · rename_i e he
    rw [he, hresult]

/-- A hit is fresh in every run, and a cache that once lost its root gives nothing back for good. -/
theorem cache_hit_fresh_or_reset {disks : RootIdentity → Disk} (hrun : CacheRuns (.opened disks) w)
    (cache : CacheHandle) :
    (∀ proofId authorities proof, (lookup cache proofId authorities).result w = .ok (.hit proof) →
      FreshHit cache proofId authorities proof ((lookup cache proofId authorities).final w)) ∧
    (w.Seen cache → ∀ t, CacheRuns w t → ∀ authorities,
      (∀ proofId, (lookup cache proofId authorities).result t = .ok .reset) ∧
        ∀ temporary proof, (insert cache temporary proof authorities).result t = .error .reset) := by
  constructor
  · intro proofId authorities proof hhit
    exact Program.post_of_wp wp_lookup hhit proof rfl
  · intro hseen t ht authorities
    have hreset : t.reset cache = true := ht.latch.1 cache (hrun.latch.2 latched_opened cache hseen)
    exact ⟨fun _ => lookup_of_reset hreset, fun _ _ => insert_of_reset hreset⟩

end

namespace Sample

/-- A cache whose name stands for another directory at the first look, and for its root ever after. -/
@[reducible] def replacedOnce : Ambient := ⟨fun _ n => n ≠ 0, fun _ => strictStore⟩

def replacedCache : CacheHandle := ⟨0, ⟨1, 2⟩⟩

def requestedId : ProofId := ⟨⟨List.replicate 64 0, Digest.length_zeros⟩⟩

end Sample

section

attribute [local instance] Sample.jiff Sample.blake3 Sample.url Sample.readDir Sample.replacedOnce

theorem replaced_cache_stays_reset :
    let w := (lookup Sample.replacedCache Sample.requestedId []).final (.opened fun _ _ => ∅)
    w.Seen Sample.replacedCache ∧
      ∀ disks, (lookup Sample.replacedCache Sample.requestedId []).result { w with disks } = .ok .reset := by
  have hrun : CacheRuns (.opened fun _ _ => ∅)
      ((lookup Sample.replacedCache Sample.requestedId []).final (.opened fun _ _ => ∅)) :=
    .single (.lookup _ _ _)
  have hseen : ((lookup Sample.replacedCache Sample.requestedId []).final (.opened fun _ _ => ∅)).Seen
      Sample.replacedCache := ⟨0, Nat.zero_lt_one, rfl⟩
  exact ⟨hseen, fun disks => ((cache_hit_fresh_or_reset hrun Sample.replacedCache).2 hseen _
    (.single (.change disks)) []).1 _⟩

end

end Wayjournal
