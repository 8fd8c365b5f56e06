import Wayjournal.Federation.MultiLaws

namespace Wayjournal

open Collections Crash Fs Text MultiWorld

variable [Url] {γ : Type}

/-- What a target is entitled to by the checkpoint of its store. -/
structure Authorized (target : StoreSyncTarget) (checkpoint : AdmissionCheckpoint) (disk : Disk) : Prop where
  durable : Durable checkpoint disk
  bound : target.handshake.boundCheckpoint = checkpoint
  trust : checkpoint.localTrustBinding = target.request.localTrust
  remote : checkpoint.approvedRemote.locator = target.request.approvedRemote.locator
  reference : checkpoint.approvedRemote.reference = target.request.approvedRemote.reference
  capability : target.handshake.supportsGitUnionCas = true

/-- Some of the targets, in their order, each with its store at the moment it was entered. -/
inductive AuthorizedEntries : List StoreSyncTarget → List (StoreSyncTarget × Disk) → Prop
  | nil : AuthorizedEntries [] []
  | skip {target : StoreSyncTarget} {targets : List StoreSyncTarget} {log : List (StoreSyncTarget × Disk)} :
    AuthorizedEntries targets log → AuthorizedEntries (target :: targets) log
  | enter {target : StoreSyncTarget} {targets : List StoreSyncTarget} {log : List (StoreSyncTarget × Disk)} {disk : Disk}
    (checkpoint : AdmissionCheckpoint) :
    Authorized target checkpoint disk → AuthorizedEntries targets log → AuthorizedEntries (target :: targets) ((target, disk) :: log)

theorem keeps_quiet_onWorld {ε α : Type} {root : RootIdentity} (p : Program (World γ) ε α) : (onWorld root p : MultiM γ ε α).Keeps quiet :=
  .zoom _ fun _ _ => rfl

theorem wp_lock {ε : Type} {env : Interference γ} {w : MultiWorld γ} {post : Unit → MultiWorld γ → Prop} {fail : ε → MultiWorld γ → Prop} :
    (lock env : MultiM γ ε Unit).wp (fun _ => True) post fail w ↔ post () (w.interfere env) := by
  rw [lock, Program.wp_update]
  exact ⟨fun h => h.2, fun h => ⟨trivial, h⟩⟩

theorem wp_enter {ε : Type} {target : StoreSyncTarget} {w : MultiWorld γ} {post : Unit → MultiWorld γ → Prop}
    {fail : ε → MultiWorld γ → Prop} : (enter target : MultiM γ ε Unit).wp (fun _ => True) post fail w ↔
      post () { w with entered := w.entered ++ [(target, w.disks target.store.root)] } := by
  rw [enter, Program.wp_update]
  exact ⟨fun h => h.2, fun h => ⟨trivial, h⟩⟩

theorem of_requireCheckpointAuthority {checkpoint : AdmissionCheckpoint} {request : GitSyncRequest}
    (h : requireCheckpointAuthority checkpoint request = .ok ()) :
    checkpoint.localTrustBinding = request.localTrust ∧ checkpoint.approvedRemote.locator = request.approvedRemote.locator ∧
      checkpoint.approvedRemote.reference = request.approvedRemote.reference := by
  obtain ⟨htrust, h⟩ := guard_bind_eq_ok.mp h
  obtain ⟨hlocator, h⟩ := guard_bind_eq_ok.mp h
  refine ⟨not_not.mp htrust, not_not.mp hlocator, ?_⟩
  by_contra hreference
  rw [if_pos hreference] at h
  cases h

section

variable [Jiff] [Blake3] [ReadDir] [Ambient] {env env' : Interference γ} {transfer : Transfer γ}
  {cache : Option CacheHandle} {target : StoreSyncTarget} {targets : List StoreSyncTarget} {w : MultiWorld γ}

/-- What is returned is the checkpoint that stands in the store, and the target is entitled by it. -/
theorem wp_authorize : (authorize target : MultiM γ _ _).wp (fun _ => True)
    (fun checkpoint t => t.entered = w.entered ∧ Authorized target checkpoint (t.disks target.store.root))
    (fun _ t => t.entered = w.entered) w := by
  have hread : (onStore target.store.root (readCheckpoint.mapError fun source => .sync (.checkpoint source)) :
      MultiM γ AuthorizedGitSyncError _).wp (fun _ => True)
        (fun checkpoint? t => t.entered = w.entered ∧
          ∀ checkpoint, checkpoint? = some checkpoint → Durable checkpoint (t.disks target.store.root))
        (fun _ t => t.entered = w.entered) w := by
    refine (Program.wp_zoom (withStore_self w)).mpr (Program.wp_mapError.mpr ?_)
    refine Program.wp_mono wp_readCheckpoint_durable (fun _ h => h) ?_ (fun _ _ _ => rfl)
    intro checkpoint? disk hdurable
    refine ⟨rfl, fun checkpoint hcheckpoint => ?_⟩
    change Durable checkpoint (Function.update w.disks target.store.root disk target.store.root)
    rw [Function.update_self]
    exact hdurable checkpoint hcheckpoint
  rw [authorize, Program.wp_bind]
  refine Program.wp_mono hread (fun _ h => h) ?_ (fun _ _ h => h)
  rintro checkpoint? t ⟨hquiet, hdurable⟩
  cases checkpoint? with
  | none => exact Program.wp_throw.mpr hquiet
  | some checkpoint =>
    refine Program.wp_guard.mpr ⟨fun _ => hquiet, fun _ => Program.wp_guard.mpr ⟨fun _ => hquiet, fun hbound => ?_⟩⟩
    rw [Program.wp_bind]
    refine ((Program.ReadOnly.reads _).zoom.wp).mpr ?_
    rw [Program.result_zoom, Program.result_reads]
    split
    · refine Program.wp_guard.mpr ⟨fun _ => hquiet, fun _ => ?_⟩
      rw [Program.wp_bind]
      refine ((Program.ReadOnly.ofExcept _).wp).mpr ?_
      rw [Program.result_ofExcept]
      split
      · rename_i hauthority
        obtain ⟨htrust, hlocator, hreference⟩ := of_requireCheckpointAuthority (mapError_eq_ok.mp hauthority)
        refine Program.wp_guard.mpr ⟨fun _ => hquiet, fun hcapability => ?_⟩
        refine Program.wp_pure.mpr ⟨hquiet, hdurable checkpoint rfl, not_not.mp hbound, htrust, hlocator, hreference, ?_⟩
        simpa using hcapability
      · exact hquiet
    · exact hquiet

/-- A target that is entered was entitled at that moment. -/
theorem wp_syncGitUnionAuthorized : (syncGitUnionAuthorized env transfer target).wp (fun _ => True)
    (fun _ t => t.entered = w.entered ∨ ∃ checkpoint disk, Authorized target checkpoint disk ∧ t.entered = w.entered ++ [(target, disk)])
    (fun _ t => t.entered = w.entered ∨ ∃ checkpoint disk, Authorized target checkpoint disk ∧ t.entered = w.entered ++ [(target, disk)])
    w := by
  rw [syncGitUnionAuthorized, Program.wp_bind]
  refine ((Program.ReadOnly.ofExcept _).wp).mpr ?_
  rw [Program.result_ofExcept]
  split
  · rw [Program.wp_bind]
    refine Program.wp_mono (keeps_quiet_lock.wp w) (fun _ _ => trivial) ?_ (fun _ _ h => .inl h)
    intro _ t ht
    rw [Program.wp_bind]
    refine Program.wp_mono wp_authorize (fun _ h => h) ?_ (fun _ _ h => .inl (h.trans ht))
    rintro checkpoint u ⟨hquiet, hauthorized⟩
    have hentered : u.entered ++ [(target, u.disks target.store.root)] = w.entered ++ [(target, u.disks target.store.root)] := by
      rw [hquiet]
      exact congrArg (· ++ _) ht
    rw [Program.wp_bind]
    refine wp_enter.mpr ?_
    refine Program.wp_mono ((keeps_quiet_onWorld _).wp _) (fun _ _ => trivial) ?_ ?_
    · exact fun _ v hv => .inr ⟨checkpoint, _, hauthorized, hv.trans hentered⟩
    · exact fun _ v hv => .inr ⟨checkpoint, _, hauthorized, hv.trans hentered⟩
  · exact .inl rfl

theorem wp_cacheDisposition {store : LogicalStoreId} {before : StoreRevisionRef}
    {after : Except CheckpointObservationError StoreRevisionRef} :
    (cacheDisposition env cache store before after).wp (fun _ => True) (fun _ t => t.entered = w.entered) (fun _ _ => False) w := by
  cases after with
  | error e => exact Program.wp_pure.mpr rfl
  | ok revision =>
    unfold cacheDisposition
    dsimp only
    split
    · exact Program.wp_pure.mpr rfl
    · cases cache with
      | none => exact Program.wp_pure.mpr rfl
      | some cache =>
        dsimp only
        rw [Program.wp_bind]
        refine wp_lock.mpr ?_
        rw [Program.wp_bind]
        refine Program.wp_attempt.mpr (Program.wp_mono ((keeps_quiet_onCaches _).wp _) (fun _ _ => trivial) ?_ ?_)
        · exact fun disposition t ht => Program.wp_pure.mpr ht
        · exact fun e t ht => Program.wp_pure.mpr ht

/-- The turn of a target always has a result, and enters it only if it is entitled. -/
theorem wp_syncTarget {checkpoint : AdmissionCheckpoint} : (syncTarget env transfer cache (target, checkpoint)).wp (fun _ => True)
    (fun r t => r.store = target.expectedStore ∧ (t.entered = w.entered ∨
      ∃ checkpoint disk, Authorized target checkpoint disk ∧ t.entered = w.entered ++ [(target, disk)]))
    (fun _ _ => False) w := by
  rw [syncTarget, Program.wp_bind]
  refine Program.wp_attempt.mpr (Program.wp_mono wp_syncGitUnionAuthorized (fun _ h => h) ?_ ?_)
  all_goals
    intro result t ht
    rw [Program.wp_bind]
    refine Program.wp_attempt.mpr (Program.wp_mono (keeps_quiet_observeCheckpoint.wp t) (fun _ _ => trivial) ?_ ?_)
    all_goals
      intro observed u hu
      rw [Program.wp_bind]
      refine Program.wp_mono wp_cacheDisposition (fun _ h => h) (fun disposition v hv => ?_) (fun _ _ h => h)
      refine Program.wp_pure.mpr ⟨rfl, ?_⟩
      have hentered : v.entered = t.entered := hv.trans hu
      rw [hentered]
      exact ht

/-- A target with the checkpoint it passes its preflight with. -/
def StoreSyncTarget.withBound (target : StoreSyncTarget) : StoreSyncTarget × AdmissionCheckpoint :=
  (target, target.handshake.boundCheckpoint)

/-- Each target has its turn, in order. -/
theorem wp_turns : ((targets.map StoreSyncTarget.withBound).mapM (syncTarget env transfer cache)).wp (fun _ => True)
    (fun results t => results.map PerStoreSyncResult.store = targets.map StoreSyncTarget.expectedStore ∧
      ∃ log, t.entered = w.entered ++ log ∧ AuthorizedEntries targets log) (fun _ _ => False) w := by
  induction targets generalizing w with
  | nil => exact Program.wp_pure.mpr ⟨rfl, [], (List.append_nil _).symm, .nil⟩
  | cons target targets ih =>
    rw [List.map_cons, List.mapM_cons, Program.wp_bind]
    refine Program.wp_mono wp_syncTarget (fun _ h => h) ?_ (fun _ _ h => h)
    rintro r t ⟨hstore, hentered⟩
    rw [Program.wp_bind]
    refine Program.wp_mono ih (fun _ h => h) ?_ (fun _ _ h => h)
    rintro rs u ⟨hstores, log, hlog, hauthorized⟩
    refine Program.wp_pure.mpr ⟨by rw [List.map_cons, List.map_cons, hstore, hstores], ?_⟩
    obtain ht | ⟨checkpoint, disk, htarget, ht⟩ := hentered
    · exact ⟨log, by rw [hlog, ht], .skip hauthorized⟩
    · refine ⟨(target, disk) :: log, ?_, .enter checkpoint htarget hauthorized⟩
      rw [hlog, ht, List.append_assoc]
      rfl

/-- All targets are checked before the first of them has its turn. -/
def preflight (env : Interference γ) (targets : List StoreSyncTarget) : MultiM γ MultiStoreSyncError (List AdmissionCheckpoint) := do
  .ofExcept (validateTargetShape targets)
  targets.mapM (preflightTarget env)

/-- The call up to the turn of the target at `i`. -/
def turnsBefore (env : Interference γ) (transfer : Transfer γ) (cache : Option CacheHandle) (targets : List StoreSyncTarget)
    (i : Nat) : MultiM γ MultiStoreSyncError (List PerStoreSyncResult) := do
  let checkpoints ← preflight env targets
  ((targets.zip checkpoints).take i).mapM (syncTarget env transfer cache)

theorem syncStores_eq_preflight : syncStores env transfer cache targets = (do
    let checkpoints ← preflight env targets
    (targets.zip checkpoints).mapM (syncTarget env transfer cache)) := by
  rw [syncStores, preflight, bind_assoc]

theorem preflightTarget_eq_ok {checkpoint : AdmissionCheckpoint} (h : (preflightTarget env target).result w = .ok checkpoint) :
    checkpoint = target.handshake.boundCheckpoint ∧ target.opened.legacy.requireStreaming = .ok () := by
  obtain ⟨⟨read, current⟩, hread, h⟩ := Program.bind_eq_ok.mp h
  obtain ⟨-, h⟩ := Program.guard_eq_ok.mp h
  obtain ⟨hbound, h⟩ := Program.guard_eq_ok.mp h
  obtain ⟨-, h⟩ := Program.guard_eq_ok.mp h
  obtain ⟨-, h⟩ := Program.guard_eq_ok.mp h
  cases h
  obtain ⟨⟨⟩, hlegacy, -⟩ := Program.bind_eq_ok.mp hread
  simp only [Bool.or_eq_true, decide_eq_true_eq, not_or, not_not, ne_eq] at hbound
  exact ⟨hbound.2.symm, mapError_eq_ok.mp hlegacy⟩

theorem preflightTargets_eq_ok {checkpoints : List AdmissionCheckpoint} (h : (targets.mapM (preflightTarget env)).result w = .ok checkpoints) :
    targets.zip checkpoints = targets.map StoreSyncTarget.withBound ∧
      ∀ target ∈ targets, target.opened.legacy.requireStreaming = .ok () := by
  induction targets generalizing w checkpoints with
  | nil =>
    cases h
    exact ⟨rfl, fun _ h => absurd h List.not_mem_nil⟩
  | cons target targets ih =>
    rw [List.mapM_cons] at h
    obtain ⟨checkpoint, hcheckpoint, h⟩ := Program.bind_eq_ok.mp h
    obtain ⟨rest, hrest, h⟩ := Program.bind_eq_ok.mp h
    cases h
    obtain ⟨rfl, hlegacy⟩ := preflightTarget_eq_ok hcheckpoint
    obtain ⟨hzip, hall⟩ := ih hrest
    refine ⟨?_, List.forall_mem_cons.mpr ⟨hlegacy, hall⟩⟩
    rw [List.zip_cons_cons, hzip]
    rfl

theorem preflight_eq_ok {checkpoints : List AdmissionCheckpoint} (h : (preflight env targets).result w = .ok checkpoints) :
    targets.zip checkpoints = targets.map StoreSyncTarget.withBound ∧
      ∀ target ∈ targets, target.opened.legacy.requireStreaming = .ok () := by
  obtain ⟨⟨⟩, -, h⟩ := Program.bind_eq_ok.mp h
  exact preflightTargets_eq_ok h

theorem keeps_quiet_preflight : (preflight env targets).Keeps quiet :=
  .bind (.ofExcept _) fun _ => .mapM (fun _ => keeps_quiet_preflightTarget) _

/-- The synchronization of a target and the look at its checkpoint afterwards. -/
def syncAndObserve (env : Interference γ) (transfer : Transfer γ) (target : StoreSyncTarget) :
    MultiM γ MultiStoreSyncError (Except AuthorizedGitSyncError GitSyncOutcome × Except CheckpointObservationError AdmissionCheckpoint) := do
  let syncResult ← (syncGitUnionAuthorized env transfer target).attempt
  let observed ← (observeCheckpoint env target).attempt
  return (syncResult, observed)

theorem simulates_syncAndObserve {roots : Set RootIdentity} {handles : Set CacheHandle}
    (hlegacy : target.opened.legacy.requireStreaming = .ok ()) (hroot : target.store.root ∈ roots) :
    Program.Simulates (Meet roots handles env env') (Alike roots handles env env') (syncAndObserve env transfer target)
      (syncAndObserve env' transfer target) :=
  .bind (simulates_syncGitUnionAuthorized hlegacy hroot).attempt fun _ =>
    .bind (simulates_observeCheckpoint hroot).attempt fun _ => .pure _

theorem syncTarget_eq_ok {checkpoint : AdmissionCheckpoint} {r : PerStoreSyncResult}
    (h : (syncTarget env transfer cache (target, checkpoint)).result w = .ok r) :
    ∃ disposition seen, (syncAndObserve env transfer target).result w = .ok seen ∧
      r = ⟨target.expectedStore, checkpoint.acceptedRevision, seen.2.map AdmissionCheckpoint.acceptedRevision, disposition, seen.1⟩ := by
  have hparts : syncTarget env transfer cache (target, checkpoint) = (do
      let seen ← syncAndObserve env transfer target
      let after := seen.2.map AdmissionCheckpoint.acceptedRevision
      let disposition ← cacheDisposition env cache target.expectedStore checkpoint.acceptedRevision after
      return ⟨target.expectedStore, checkpoint.acceptedRevision, after, disposition, seen.1⟩) := by
    simp only [syncTarget, syncAndObserve, bind_assoc, pure_bind]
  rw [hparts] at h
  obtain ⟨seen, hseen, h⟩ := Program.bind_eq_ok.mp h
  obtain ⟨disposition, -, h⟩ := Program.bind_eq_ok.mp h
  cases h
  exact ⟨disposition, seen, hseen, rfl⟩

end

/-- The same but for what became of the cache. -/
def PerStoreSyncResult.SameSync (r r' : PerStoreSyncResult) : Prop :=
  r.store = r'.store ∧ r.before = r'.before ∧ r.after = r'.after ∧ r.syncResult = r'.syncResult

/-- The stores that the turn of a target reads or writes. -/
def rootsOf (target : StoreSyncTarget) (cache : Option CacheHandle) : Set RootIdentity :=
  {root | root = target.store.root ∨ ∃ handle ∈ cache, root = handle.root}

def handlesOf (cache : Option CacheHandle) : Set CacheHandle := {handle | handle ∈ cache}

section

variable [Jiff] [Blake3] [ReadDir] [Ambient]

/-- What a target gets and does in its turn is what it gets and does in a call of its own that meets its store and
the Git side as the turn does; and if it meets the cache as the turn does, also for the cache. -/
structure AsAlone (env : Interference γ) (transfer : Transfer γ) (cache : Option CacheHandle) (targets : List StoreSyncTarget)
    (w : MultiWorld γ) (results : List PerStoreSyncResult) (i : Nat) (target : StoreSyncTarget) : Prop where
  synced : ∀ env' cache' t results', (syncStores env' transfer cache' [target]).result t = .ok results' →
    Meet {target.store.root} ∅ env env' ((turnsBefore env transfer cache targets i).final w) ((preflight env' [target]).final t) →
      (∃ r r', results[i]? = some r ∧ results' = [r'] ∧ r.SameSync r') ∧
        Alike {target.store.root} ∅ env env'
          ((syncAndObserve env transfer target).final ((turnsBefore env transfer cache targets i).final w))
          ((syncAndObserve env' transfer target).final ((preflight env' [target]).final t))
  whole : ∀ env' t results', (syncStores env' transfer cache [target]).result t = .ok results' →
    Meet (rootsOf target cache) (handlesOf cache) env env' ((turnsBefore env transfer cache targets i).final w)
      ((preflight env' [target]).final t) →
      (∃ r, results[i]? = some r ∧ results' = [r]) ∧
        Alike (rootsOf target cache) (handlesOf cache) env env' ((turnsBefore env transfer cache targets (i + 1)).final w)
          ((syncStores env' transfer cache [target]).final t)

variable {env : Interference γ} {transfer : Transfer γ} {cache : Option CacheHandle} {target : StoreSyncTarget}
  {targets : List StoreSyncTarget} {w : MultiWorld γ} {results : List PerStoreSyncResult}

/-- The turn of the target at `i`. -/
theorem turn_eq_ok (h : (syncStores env transfer cache targets).result w = .ok results) {i : Nat} (htarget : targets[i]? = some target) :
    target.opened.legacy.requireStreaming = .ok () ∧ ∃ r, results[i]? = some r ∧
      (syncTarget env transfer cache target.withBound).result ((turnsBefore env transfer cache targets i).final w) = .ok r ∧
      (turnsBefore env transfer cache targets (i + 1)).final w =
        (syncTarget env transfer cache target.withBound).final ((turnsBefore env transfer cache targets i).final w) := by
  rw [syncStores_eq_preflight] at h
  obtain ⟨checkpoints, hpreflight, h⟩ := Program.bind_eq_ok.mp h
  obtain ⟨hzip, hlegacy⟩ := preflight_eq_ok hpreflight
  rw [hzip] at h
  have hget : (targets.map StoreSyncTarget.withBound)[i]? = some target.withBound := by
    rw [List.getElem?_map, htarget]
    rfl
  have hbefore : ∀ k, (turnsBefore env transfer cache targets k).final w =
      (((targets.map StoreSyncTarget.withBound).take k).mapM (syncTarget env transfer cache)).final ((preflight env targets).final w) := by
    intro k
    rw [turnsBefore, Program.final_bind hpreflight, hzip]
  obtain ⟨r, hr, hresults, hfinal⟩ := Program.mapM_turn h hget
  refine ⟨hlegacy target (List.mem_of_getElem? htarget), r, hresults, ?_, ?_⟩
  · rw [hbefore]
    exact hr
  · rw [hbefore, hbefore]
    exact hfinal

/-- A call with one target is its preflight and its turn. -/
theorem syncStores_single {env' : Interference γ} {t : MultiWorld γ}
    (h : (syncStores env' transfer cache [target]).result t = .ok results) : ∃ r, results = [r] ∧
      (syncTarget env' transfer cache target.withBound).result ((preflight env' [target]).final t) = .ok r ∧
      (syncStores env' transfer cache [target]).final t =
        (syncTarget env' transfer cache target.withBound).final ((preflight env' [target]).final t) := by
  rw [syncStores_eq_preflight] at h ⊢
  obtain ⟨checkpoints, hpreflight, h⟩ := Program.bind_eq_ok.mp h
  obtain ⟨hzip, -⟩ := preflight_eq_ok hpreflight
  rw [Program.final_bind hpreflight, hzip]
  rw [hzip] at h
  obtain ⟨r, hr, h⟩ := Program.bind_eq_ok.mp h
  cases h
  refine ⟨r, rfl, hr, ?_⟩
  exact Program.final_bind_pure _ _

theorem asAlone_of_ok (h : (syncStores env transfer cache targets).result w = .ok results) {i : Nat}
    (htarget : targets[i]? = some target) : AsAlone env transfer cache targets w results i target := by
  obtain ⟨hlegacy, r, hresults, hr, hfinal⟩ := turn_eq_ok h htarget
  constructor
  · intro env' cache' t results' halone hmeet
    obtain ⟨r', rfl, hr', -⟩ := syncStores_single halone
    have hsimulates : Program.Simulates (Meet {target.store.root} ∅ env env') (Alike {target.store.root} ∅ env env')
        (syncAndObserve env transfer target) (syncAndObserve env' transfer target) :=
      simulates_syncAndObserve hlegacy (Set.mem_singleton _)
    obtain ⟨hsame, halike⟩ := hsimulates _ _ hmeet
    obtain ⟨disposition, seen, hseen, rfl⟩ := syncTarget_eq_ok hr
    obtain ⟨disposition', seen', hseen', rfl⟩ := syncTarget_eq_ok hr'
    rw [hseen, hseen'] at hsame
    cases hsame
    exact ⟨⟨_, _, hresults, rfl, rfl, rfl, rfl, rfl⟩, halike⟩
  · intro env' t results' halone hmeet
    obtain ⟨r', rfl, hr', hfinal'⟩ := syncStores_single halone
    have hcache : ∀ handle ∈ cache, handle.root ∈ rootsOf target cache ∧ handle ∈ handlesOf cache :=
      fun handle hhandle => ⟨.inr ⟨handle, hhandle, rfl⟩, hhandle⟩
    have hsimulates : Program.Simulates (Meet (rootsOf target cache) (handlesOf cache) env env')
        (Alike (rootsOf target cache) (handlesOf cache) env env') (syncTarget env transfer cache target.withBound)
        (syncTarget env' transfer cache target.withBound) :=
      simulates_syncTarget hlegacy (.inl rfl) hcache
    obtain ⟨hsame, halike⟩ := hsimulates _ _ hmeet
    have heq : r = r' := Except.ok.inj (hr.symm.trans (hsame.trans hr'))
    subst heq
    refine ⟨⟨r, hresults, rfl⟩, ?_⟩
    rw [hfinal, hfinal']
    exact halike

/-- A call that is refused enters no target; one that returns has entered, each in its turn, targets that were entitled
at that moment, and each of them fared as in a call of its own. -/
theorem multi_sync_all_or_nothing_then_independent (env : Interference γ) (transfer : Transfer γ) (cache : Option CacheHandle)
    (targets : List StoreSyncTarget) (w : MultiWorld γ) :
    match (syncStores env transfer cache targets).result w with
    | .error _ => ((syncStores env transfer cache targets).final w).entered = w.entered
    | .ok results =>
      results.map PerStoreSyncResult.store = targets.map StoreSyncTarget.expectedStore ∧
      (∃ log, ((syncStores env transfer cache targets).final w).entered = w.entered ++ log ∧ AuthorizedEntries targets log) ∧
      ∀ i target, targets[i]? = some target → AsAlone env transfer cache targets w results i target := by
  have hspec : (syncStores env transfer cache targets).wp (fun _ => True)
      (fun results t => results.map PerStoreSyncResult.store = targets.map StoreSyncTarget.expectedStore ∧
        ∃ log, t.entered = w.entered ++ log ∧ AuthorizedEntries targets log) (fun _ t => t.entered = w.entered) w := by
    rw [syncStores_eq_preflight, Program.wp_bind]
    refine ⟨fun _ _ => trivial, ?_⟩
    have hquiet : ((preflight env targets).final w).entered = w.entered := keeps_quiet_preflight.final w
    split
    · rename_i checkpoints hpreflight
      dsimp only
      rw [(preflight_eq_ok hpreflight).1]
      refine Program.wp_mono wp_turns (fun _ h => h) ?_ (fun _ _ h => h.elim)
      rintro results t ⟨hstores, log, hlog, hauthorized⟩
      exact ⟨hstores, log, by rw [hlog, hquiet], hauthorized⟩
    · exact hquiet
  obtain ⟨-, hresult⟩ := hspec
  split at hresult
  · rename_i results hok
    rw [hok]
    exact ⟨hresult.1, hresult.2, fun i target htarget => asAlone_of_ok hok htarget⟩
  · rename_i e herror
    rw [herror]
    exact hresult

end

end Wayjournal
