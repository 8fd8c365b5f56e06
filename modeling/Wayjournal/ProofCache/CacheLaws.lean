import Wayjournal.Crash.Guarantee
import Wayjournal.ProofCache.Cache

namespace Wayjournal

open Collections Crash Fs Text CacheWorld

namespace CacheWorld

section

variable {cache other : CacheHandle} {isBound : Bool} {w : CacheWorld}

theorem observe_checks_self : (w.observe cache isBound).checks cache = w.checks cache + 1 := Function.update_self ..

theorem observe_checks_of_ne (h : other ≠ cache) : (w.observe cache isBound).checks other = w.checks other :=
  Function.update_of_ne h ..

theorem observe_reset_self : (w.observe cache isBound).reset cache = !isBound := Function.update_self ..

theorem observe_reset_of_ne (h : other ≠ cache) : (w.observe cache isBound).reset other = w.reset other :=
  Function.update_of_ne h ..

end

@[simp] theorem withDisk_same {root : RootIdentity} {disk : Disk} {w : CacheWorld} :
    (w.withDisk root disk).disks root = disk := Function.update_self ..

@[simp] theorem withDisk_self {root : RootIdentity} {w : CacheWorld} : w.withDisk root (w.disks root) = w := by
  rw [withDisk, Function.update_eq_self]

/-- No disk changes but those below the given roots. -/
def only (roots : List RootIdentity) : Guarantee CacheWorld where
  rel w t := ∀ r, r ∉ roots → t.disks r = w.disks r
  refl _ _ _ := rfl
  trans h h' r hr := (h' r hr).trans (h r hr)

section

variable [Ambient]

/-- The name of the cache once did not stand for its root. -/
def Seen (cache : CacheHandle) (w : CacheWorld) : Prop := ∃ n, n < w.checks cache ∧ Ambient.isBound cache n = false

/-- What a cache has seen it knows. -/
def Latched (w : CacheWorld) : Prop := ∀ cache, w.Seen cache → w.reset cache = true

def latch : Guarantee CacheWorld where
  rel w t := (∀ cache, w.reset cache = true → t.reset cache = true) ∧ (w.Latched → t.Latched)
  refl _ := ⟨fun _ h => h, fun h => h⟩
  trans h h' := ⟨fun cache hc => h'.1 cache (h.1 cache hc), fun hl => h'.2 (h.2 hl)⟩

theorem keeps_latch_onRoot {ε α : Type} {root : RootIdentity} {f : ε → ProofCacheError} (p : Program Disk ε α) :
    (onRoot root f p).Keeps latch :=
  .zoom _ fun _ _ => ⟨fun _ h => h, fun h => h⟩

end

theorem keeps_only_onRoot {ε α : Type} {roots : List RootIdentity} {root : RootIdentity} (h : root ∈ roots)
    {f : ε → ProofCacheError} (p : Program Disk ε α) : (onRoot root f p).Keeps (only roots) :=
  .zoom _ fun _ _ r hr => Function.update_of_ne (show r ≠ root from fun heq => hr (heq ▸ h)) ..

theorem wp_onRoot {ε α : Type} {root : RootIdentity} {f : ε → ProofCacheError} {p : Program Disk ε α}
    {post : α → CacheWorld → Prop} {fail : ProofCacheError → CacheWorld → Prop} {w : CacheWorld} :
    (onRoot root f p).wp (fun _ => True) post fail w ↔
      p.wp (fun _ => True) (fun a disk => post a (w.withDisk root disk))
        (fun e disk => fail (f e) (w.withDisk root disk)) (w.disks root) := by
  rw [onRoot, Program.wp_zoom withDisk_self, Program.wp_mapError]

end CacheWorld

namespace ProofCache

variable [Ambient]

theorem bindingMatches_apply (cache : CacheHandle) (w : CacheWorld) :
    bindingMatches cache w =
      if w.reset cache then ⟨[], .ok false⟩
      else ⟨[w.observe cache (Ambient.isBound cache (w.checks cache))],
        .ok (Ambient.isBound cache (w.checks cache))⟩ := by
  unfold bindingMatches
  cases h : w.reset cache with
  | true =>
    rw [if_pos rfl, show ∀ (p : CacheM Bool) f, (p >>= f) = Program.bind p f from fun _ _ => rfl]
    rw [Program.bind_apply_ok (a := true)]
    · rfl
    · rw [Program.result_reads, h]
  | false =>
    rw [if_neg Bool.false_ne_true, show ∀ (p : CacheM Bool) f, (p >>= f) = Program.bind p f from fun _ _ => rfl]
    rw [Program.bind_apply_ok (a := false)]
    · rfl
    · rw [Program.result_reads, h]

theorem wp_bindingMatches {cache : CacheHandle} {w : CacheWorld} :
    (bindingMatches cache).wp (fun _ => True) (fun _ t => t.disks = w.disks) (fun _ _ => False) w := by
  refine ⟨fun _ _ => trivial, ?_⟩
  unfold Program.result Program.final
  rw [bindingMatches_apply]
  cases w.reset cache with
  | true => rfl
  | false => rfl

theorem wp_bindingMatches_reset {cache : CacheHandle} {w : CacheWorld} (h : w.reset cache = true)
    {crash : CacheWorld → Prop} {post : Bool → CacheWorld → Prop} {fail : ProofCacheError → CacheWorld → Prop} :
    (bindingMatches cache).wp crash post fail w ↔ post false w := by
  unfold Program.wp Program.result Program.final
  rw [bindingMatches_apply, if_pos h]
  simp

theorem keeps_only_bindingMatches {roots : List RootIdentity} {cache : CacheHandle} :
    (bindingMatches cache).Keeps (only roots) := by
  intro w t ht
  rw [bindingMatches_apply] at ht
  split at ht
  · cases ht
  · obtain rfl := List.mem_singleton.mp ht
    exact fun _ _ => rfl

/-- A check that fails is remembered. -/
theorem keeps_latch_bindingMatches {cache : CacheHandle} : (bindingMatches cache).Keeps latch := by
  intro w t ht
  rw [bindingMatches_apply] at ht
  split at ht
  · cases ht
  · rename_i hreset
    obtain rfl := List.mem_singleton.mp ht
    constructor
    · intro other hother
      by_cases heq : other = cache
      · exact absurd (heq ▸ hother) hreset
      · rw [observe_reset_of_ne heq]
        exact hother
    · rintro hlatched other ⟨n, hn, hbound⟩
      by_cases heq : other = cache
      · subst heq
        rw [observe_checks_self] at hn
        rw [observe_reset_self]
        obtain hn | rfl := Nat.lt_succ_iff_lt_or_eq.mp hn
        · exact absurd (hlatched other ⟨n, hn, hbound⟩) hreset
        · rw [hbound]
          rfl
      · rw [observe_checks_of_ne heq] at hn
        rw [observe_reset_of_ne heq]
        exact hlatched other ⟨n, hn, hbound⟩

section

variable {G : Guarantee CacheWorld} {α : Type} {cache : CacheHandle}

theorem keeps_duringOperation {p : CacheM α} (hbinding : (bindingMatches cache).Keeps G) (h : p.Keeps G) :
    (duringOperation cache p).Keeps G :=
  .bind h.attempt fun _ => .bind hbinding fun _ => .ofExcept _

variable [ReadDir]

theorem keeps_beginOperation (hbinding : (bindingMatches cache).Keeps G)
    (hroot : ∀ {α : Type} (p : CacheDirM α), (onRoot cache.root id p).Keeps G) : (beginOperation cache).Keeps G := by
  refine .bind hbinding fun _ => .ite (.pure _) (.bind (hroot _).attempt fun cleaned => ?_)
  cases cleaned with
  | error e => exact .pure _
  | ok _ => exact .bind hbinding fun _ => .ite (.pure _) (.pure _)

theorem wp_beginOperation_only {cache : CacheHandle} {w : CacheWorld} :
    (beginOperation cache).wp (fun _ => True) (fun _ t => (only [cache.root]).rel w t) (fun _ _ => True) w :=
  Program.wp_mono ((keeps_beginOperation keeps_only_bindingMatches
    fun p => keeps_only_onRoot List.mem_cons_self p).wp w) (fun _ _ => trivial) (fun _ _ h => h) (fun _ _ _ => trivial)

variable [Jiff] [Blake3]

theorem keeps_visitRequested (hbinding : (bindingMatches cache).Keeps G)
    (hroot : ∀ {α : Type} (p : CacheDirM α), (onRoot cache.root id p).Keeps G) {proofId : ProofId} {fresh : RevisionVector} :
    (visitRequested cache proofId fresh).Keeps G := by
  refine .bind (hroot _).attempt fun result => ?_
  cases result with
  | error e => exact .bind hbinding fun _ => .pure _
  | ok _ => exact .bind hbinding fun _ => .ite (.pure _) (.pure _)

end

section

variable {cache : CacheHandle} {proofId : ProofId} {authorities : List DependencyStore} {α : Type}

theorem keeps_latch_duringOperation {p : CacheM α} (h : p.Keeps latch) : (duringOperation cache p).Keeps latch :=
  keeps_duringOperation keeps_latch_bindingMatches h

theorem keeps_latch_orReset {error : ProofCacheError} : (orReset cache error : CacheM α).Keeps latch :=
  .bind keeps_latch_bindingMatches fun _ => .guard (.throw _)

variable [ReadDir]

theorem keeps_latch_beginOperation : (beginOperation cache).Keeps latch :=
  keeps_beginOperation keeps_latch_bindingMatches keeps_latch_onRoot

variable [Jiff] [Blake3]

theorem keeps_latch_insertEntry {temporary : Uuid} {proof : VerifiedProof} {encoded : Bytes} :
    (insertEntry cache temporary proof encoded).Keeps latch := by
  refine .bind (keeps_latch_onRoot _) fun _ => .ite ?_ (.guard (.bind (.ofExcept _) fun _ => ?_))
  · exact .bind keeps_latch_bindingMatches fun _ => .guard (.pure _)
  · refine .bind (keeps_latch_onRoot _) fun _ => .bind (keeps_latch_onRoot _) fun _ => .guard ?_
    exact .bind keeps_latch_bindingMatches fun _ => .guard (.pure _)

theorem keeps_latch_invalidateStore {store : LogicalStoreId} {old new : StoreRevisionRef} :
    (invalidateStore cache store old new).Keeps latch := by
  refine .bind keeps_latch_beginOperation fun started => ?_
  split
  · exact .pure _
  · exact .pure _
  · refine keeps_latch_duringOperation (.bind (keeps_latch_onRoot _).attempt fun removed => ?_)
    split
    · exact .bind keeps_latch_bindingMatches fun _ => .pure _
    · exact .bind keeps_latch_bindingMatches fun _ => .ite (.pure _) (.pure _)

variable [Url]

theorem keeps_latch_lockAuthorities : (lockAuthorities authorities).Keeps latch :=
  .bind (.forM (fun _ => keeps_latch_onRoot _) _) fun _ =>
    .bind (.mapM (fun _ => keeps_latch_onRoot _) _) fun _ => .ofExcept _

theorem keeps_latch_lookup : (lookup cache proofId authorities).Keeps latch := by
  refine .bind keeps_latch_bindingMatches fun _ => .ite (.pure _) ?_
  split
  · exact .bind keeps_latch_bindingMatches fun _ => .throwBind
  · refine .bind keeps_latch_lockAuthorities.attempt fun locked => ?_
    split
    · exact .bind keeps_latch_bindingMatches fun _ => .pure _
    · exact .bind keeps_latch_bindingMatches fun _ => .throw _
    · refine .bind keeps_latch_beginOperation fun started => ?_
      split
      · exact .pure _
      · exact .pure _
      · exact keeps_latch_duringOperation (keeps_visitRequested keeps_latch_bindingMatches keeps_latch_onRoot)

theorem keeps_latch_prepareInsert {proof : VerifiedProof} : (prepareInsert cache proof authorities).Keeps latch := by
  refine .bind keeps_latch_bindingMatches fun _ => .guard ?_
  split
  · exact .bind keeps_latch_bindingMatches fun _ => .throwBind
  · refine .bind keeps_latch_lockAuthorities.attempt fun locked => ?_
    split
    · exact keeps_latch_orReset
    · split
      · exact keeps_latch_orReset
      · split
        · exact keeps_latch_orReset
        · exact .pure _

theorem keeps_latch_insert {temporary : Uuid} {proof : VerifiedProof} :
    (insert cache temporary proof authorities).Keeps latch := by
  refine .bind keeps_latch_prepareInsert fun encoded => .bind keeps_latch_beginOperation fun started => ?_
  split
  · exact .throw _
  · exact .throw _
  · exact keeps_latch_duringOperation keeps_latch_insertEntry

end

end ProofCache

end Wayjournal
