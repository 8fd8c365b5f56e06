import Wayjournal.Crash.Guarantee
import Wayjournal.Crash.Simulation
import Wayjournal.Federation.Multi
import Wayjournal.ProofCache.HitLaws
import Wayjournal.ProofCache.Locality

namespace Wayjournal

open Collections Crash Fs Text MultiWorld

variable [Url] {γ ε α : Type}

namespace MultiWorld

/-- The synchronization proper is not entered. -/
def quiet : Guarantee (MultiWorld γ) where
  rel w t := t.entered = w.entered
  refl _ := rfl
  trans h h' := h'.trans h

theorem keeps_quiet_lock {env : Interference γ} : (lock env : MultiM γ ε Unit).Keeps quiet :=
  .update fun _ _ h => by
    cases h
    rfl

theorem keeps_quiet_onStore {root : RootIdentity} (p : Program Disk ε α) : (onStore root p : MultiM γ ε α).Keeps quiet :=
  .zoom _ fun _ _ => rfl

theorem keeps_quiet_onCaches (p : Program CacheWorld ε α) : (onCaches p : MultiM γ ε α).Keeps quiet :=
  .zoom _ fun _ _ => rfl

theorem withStore_self {root : RootIdentity} (w : MultiWorld γ) : w.withStore root (w.disks root) = w := by
  rw [withStore, Function.update_eq_self]

theorem withWorld_self {root : RootIdentity} (w : MultiWorld γ) : w.withWorld root (w.worldOf root) = w := by
  rw [withWorld, worldOf, Function.update_eq_self]

/-- Two changes that do the same to some of the stores and to the Git side, if they find them the same. -/
def ActAlike (roots : Set RootIdentity) (f f' : (RootIdentity → Disk) × γ → (RootIdentity → Disk) × γ) : Prop :=
  ∀ disks disks' git, (∀ root ∈ roots, disks root = disks' root) →
    (f (disks, git)).2 = (f' (disks', git)).2 ∧ ∀ root ∈ roots, (f (disks, git)).1 root = (f' (disks', git)).1 root

/-- The worlds agree on some of the stores, on some of the caches and on the Git side, and the same will happen to
these in both. -/
structure Alike (roots : Set RootIdentity) (handles : Set CacheHandle) (env env' : Interference γ) (w t : MultiWorld γ) :
    Prop where
  disks : ∀ root ∈ roots, w.disks root = t.disks root
  checks : ∀ cache ∈ handles, w.checks cache = t.checks cache
  reset : ∀ cache ∈ handles, w.reset cache = t.reset cache
  git : w.git = t.git
  ahead : ∀ k, ActAlike roots (env (w.sessions + k)) (env' (t.sessions + k))

/-- The two worlds become alike when the next lock is granted. -/
structure Meet (roots : Set RootIdentity) (handles : Set CacheHandle) (env env' : Interference γ) (w t : MultiWorld γ) :
    Prop where
  disks : ∀ root ∈ roots, (env w.sessions (w.disks, w.git)).1 root = (env' t.sessions (t.disks, t.git)).1 root
  git : (env w.sessions (w.disks, w.git)).2 = (env' t.sessions (t.disks, t.git)).2
  checks : ∀ cache ∈ handles, w.checks cache = t.checks cache
  reset : ∀ cache ∈ handles, w.reset cache = t.reset cache
  ahead : ∀ k, ActAlike roots (env (w.sessions + (k + 1))) (env' (t.sessions + (k + 1)))

section

variable {env env' : Interference γ} {roots : Set RootIdentity} {handles : Set CacheHandle} {w t : MultiWorld γ}

theorem Alike.meet (h : Alike roots handles env env' w t) : Meet roots handles env env' w t := by
  have hnow := h.ahead 0 w.disks t.disks w.git h.disks
  rw [Nat.add_zero, Nat.add_zero] at hnow
  have hgit := h.git
  refine ⟨fun root hroot => ?_, ?_, h.checks, h.reset, fun k => h.ahead (k + 1)⟩
  · rw [hnow.2 root hroot, hgit]
  · rw [hnow.1, hgit]

theorem Meet.interfere (h : Meet roots handles env env' w t) :
    Alike roots handles env env' (w.interfere env) (t.interfere env') := by
  refine ⟨h.disks, h.checks, h.reset, h.git, fun k => ?_⟩
  have hahead := h.ahead k
  rw [MultiWorld.interfere, MultiWorld.interfere, Nat.add_assoc, Nat.add_assoc, Nat.add_comm 1 k]
  exact hahead

theorem simulates_lock_of_meet : Program.Simulates (Meet roots handles env env') (Alike roots handles env env')
    (lock env : MultiM γ ε Unit) (lock env') :=
  fun _ _ h => ⟨rfl, h.interfere⟩

theorem simulates_lock : Program.Simulates (Alike roots handles env env') (Alike roots handles env env')
    (lock env : MultiM γ ε Unit) (lock env') :=
  fun _ _ h => ⟨rfl, h.meet.interfere⟩

theorem simulates_onStore {root : RootIdentity} (hroot : root ∈ roots) (p : Program Disk ε α) :
    Program.Simulates (Alike roots handles env env') (Alike roots handles env env') (onStore root p : MultiM γ ε α)
      (onStore root p) :=
  .zoom p withStore_self withStore_self (fun _ _ h => h.disks root hroot) fun _ _ disk h =>
    ⟨update_alike h.disks root disk, h.checks, h.reset, h.git, h.ahead⟩

theorem simulates_onWorld {root : RootIdentity} (hroot : root ∈ roots) (p : Program (World γ) ε α) :
    Program.Simulates (Alike roots handles env env') (Alike roots handles env env') (onWorld root p : MultiM γ ε α)
      (onWorld root p) := by
  refine .zoom p withWorld_self withWorld_self (fun w t h => ?_) fun _ _ world h =>
    ⟨update_alike h.disks root world.disk, h.checks, h.reset, rfl, h.ahead⟩
  rw [worldOf, worldOf, h.disks root hroot, h.git]

theorem simulates_enter {target : StoreSyncTarget} : Program.Simulates (Alike roots handles env env')
    (Alike roots handles env env') (enter target : MultiM γ ε Unit) (enter target) :=
  fun _ _ h => ⟨rfl, h.disks, h.checks, h.reset, h.git, h.ahead⟩

theorem simulates_onCaches {p q : Program CacheWorld ε α}
    (h : Program.Simulates (CacheWorld.Alike roots handles) (CacheWorld.Alike roots handles) p q) :
    Program.Simulates (Alike roots handles env env') (Alike roots handles env env') (onCaches p : MultiM γ ε α) (onCaches q) :=
  h.zoomOf (fun _ => rfl) (fun _ => rfl) (fun _ _ h => ⟨h.disks, h.checks, h.reset⟩) fun _ _ _ _ h hcaches =>
    ⟨hcaches.disks, hcaches.checks, hcaches.reset, h.git, h.ahead⟩

end

end MultiWorld

theorem keeps_quiet_observeCheckpoint [ReadDir] {env : Interference γ} {target : StoreSyncTarget} :
    (observeCheckpoint env target).Keeps quiet := by
  refine .bind keeps_quiet_lock fun _ => .bind (keeps_quiet_onStore _) fun checkpoint => ?_
  cases checkpoint with
  | none => exact .throw _
  | some checkpoint => exact .pure _

theorem simulates_observeCheckpoint [ReadDir] {env env' : Interference γ} {roots : Set RootIdentity}
    {handles : Set CacheHandle} {target : StoreSyncTarget} (hroot : target.store.root ∈ roots) :
    Program.Simulates (Alike roots handles env env') (Alike roots handles env env') (observeCheckpoint env target)
      (observeCheckpoint env' target) := by
  refine .bind simulates_lock fun _ => .bind (simulates_onStore hroot _) fun checkpoint => ?_
  cases checkpoint with
  | none => exact .throw _
  | some checkpoint => exact .pure _

section

variable [Jiff] [Blake3] [ReadDir] [Ambient] {env env' : Interference γ} {transfer : Transfer γ}
  {cache : Option CacheHandle} {target : StoreSyncTarget} {roots : Set RootIdentity} {handles : Set CacheHandle}

theorem keeps_quiet_preflightAuthority : (preflightAuthority env target).Keeps quiet := by
  refine .bind (.ofExcept _) fun _ => .bind keeps_quiet_lock fun _ => .bind (keeps_quiet_onStore _) fun checkpoint => ?_
  cases checkpoint with
  | none => exact .throw _
  | some checkpoint =>
    refine .bind (keeps_quiet_onStore _) fun current => ?_
    cases current.identity with
    | none => exact .throw _
    | some identity => exact .pure _

theorem keeps_quiet_preflightTarget : (preflightTarget env target).Keeps quiet :=
  .bind keeps_quiet_preflightAuthority fun _ => .guard (.guard (.guard (.guard (.pure _))))

theorem keeps_quiet_authorize : (authorize target : MultiM γ _ _).Keeps quiet := by
  refine .bind (keeps_quiet_onStore _) fun checkpoint => ?_
  cases checkpoint with
  | none => exact .throw _
  | some checkpoint =>
    exact .guard (.guard (.bind (keeps_quiet_onStore _) fun _ => .guard (.bind (.ofExcept _) fun _ => .guard (.pure _))))

theorem keeps_quiet_cacheDisposition {store : LogicalStoreId} {before : StoreRevisionRef}
    {after : Except CheckpointObservationError StoreRevisionRef} :
    (cacheDisposition env cache store before after).Keeps quiet := by
  cases after with
  | error e => exact .pure _
  | ok revision =>
    refine .ite (.pure _) ?_
    cases cache with
    | none => exact .pure _
    | some cache =>
      refine .bind keeps_quiet_lock fun _ => .bind (keeps_quiet_onCaches _).attempt fun result => ?_
      cases result with
      | error e => exact .pure _
      | ok disposition => exact .pure _

theorem simulates_authorize (hroot : target.store.root ∈ roots) :
    Program.Simulates (Alike roots handles env env') (Alike roots handles env env') (authorize target) (authorize target) := by
  refine .bind (simulates_onStore hroot _) fun checkpoint => ?_
  cases checkpoint with
  | none => exact .throw _
  | some checkpoint =>
    exact .guard (.guard (.bind (simulates_onStore hroot _) fun _ =>
      .guard (.bind (.ofExcept _) fun _ => .guard (.pure _))))

/-- A target that passed its preflight depends on nothing but the store and the Git side it meets. -/
theorem simulates_syncGitUnionAuthorized (hlegacy : target.opened.legacy.requireStreaming = .ok ())
    (hroot : target.store.root ∈ roots) :
    Program.Simulates (Meet roots handles env env') (Alike roots handles env env')
      (syncGitUnionAuthorized env transfer target) (syncGitUnionAuthorized env' transfer target) := by
  have hskip : ∀ env : Interference γ, syncGitUnionAuthorized env transfer target = (do
      lock env
      let checkpoint ← authorize target
      enter target
      onWorld target.store.root ((transfer target.opened target.request checkpoint).mapError .sync)) := by
    intro env
    rw [syncGitUnionAuthorized, hlegacy]
    rfl
  rw [hskip env, hskip env']
  exact .bind simulates_lock_of_meet fun _ => .bind (simulates_authorize hroot) fun _ => .bind simulates_enter fun _ =>
    simulates_onWorld hroot _

theorem simulates_cacheDisposition (hcache : ∀ handle ∈ cache, handle.root ∈ roots ∧ handle ∈ handles)
    {store : LogicalStoreId} {before : StoreRevisionRef} {after : Except CheckpointObservationError StoreRevisionRef} :
    Program.Simulates (Alike roots handles env env') (Alike roots handles env env')
      (cacheDisposition env cache store before after) (cacheDisposition env' cache store before after) := by
  cases after with
  | error e => exact .pure _
  | ok revision =>
    refine .ite (.pure _) ?_
    cases cache with
    | none => exact .pure _
    | some handle =>
      obtain ⟨hroot, hhandle⟩ := hcache handle rfl
      refine .bind simulates_lock fun _ =>
        .bind (simulates_onCaches (simulates_invalidateStore hroot hhandle)).attempt fun result => ?_
      cases result with
      | error e => exact .pure _
      | ok disposition => exact .pure _

theorem simulates_syncTarget {checkpoint : AdmissionCheckpoint} (hlegacy : target.opened.legacy.requireStreaming = .ok ())
    (hroot : target.store.root ∈ roots) (hcache : ∀ handle ∈ cache, handle.root ∈ roots ∧ handle ∈ handles) :
    Program.Simulates (Meet roots handles env env') (Alike roots handles env env')
      (syncTarget env transfer cache (target, checkpoint)) (syncTarget env' transfer cache (target, checkpoint)) :=
  .bind (simulates_syncGitUnionAuthorized hlegacy hroot).attempt fun _ =>
    .bind (simulates_observeCheckpoint hroot).attempt fun _ => .bind (simulates_cacheDisposition hcache) fun _ => .pure _

end

end Wayjournal
