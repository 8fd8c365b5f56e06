import Mathlib.Data.Prod.Lex
import Wayjournal.ProofCache.Locks

namespace Wayjournal

open Concurrency

section

variable {label : RootIdentity → LogicalStoreId} {IsCache : RootIdentity → Prop} [DecidablePred IsCache]

/-- The locks of stores by label, each before its root, and then the locks of caches. -/
def Lock.rank (label : RootIdentity → LogicalStoreId) (IsCache : RootIdentity → Prop) [DecidablePred IsCache] :
    Lock → ℕ ×ₗ LogicalStoreId ×ₗ ℕ
  | .store handle => toLex (0, toLex (label handle.root, 0))
  | .cache handle => toLex (1, toLex (label handle.root, 0))
  | .root identity => toLex (if IsCache identity then 1 else 0, toLex (label identity, 1))

theorem increasing_lockShared (store : StoreHandle) (h : ¬IsCache store.root) :
    Thread.Increasing (Lock.rank label IsCache) store.lockShared := by
  simp [Thread.Increasing, StoreHandle.lockShared, Lock.rank, h, Prod.Lex.toLex_lt_toLex]

theorem increasing_lockExclusive (store : StoreHandle) (h : ¬IsCache store.root) :
    Thread.Increasing (Lock.rank label IsCache) store.lockExclusive := by
  simp [Thread.Increasing, StoreHandle.lockExclusive, Lock.rank, h, Prod.Lex.toLex_lt_toLex]

theorem increasing_beginOperation (cache : CacheHandle) (h : IsCache cache.root) :
    Thread.Increasing (Lock.rank label IsCache) cache.beginOperation := by
  simp [Thread.Increasing, CacheHandle.beginOperation, Lock.rank, h, Prod.Lex.toLex_lt_toLex]

theorem rank_of_mem_lockExclusive {store : StoreHandle} {request : Request Lock} (h : ¬IsCache store.root)
    (hrequest : request ∈ store.lockExclusive) :
    ∃ n, request.lock.rank label IsCache = toLex (0, toLex (label store.root, n)) := by
  simp only [StoreHandle.lockExclusive, List.mem_cons, List.not_mem_nil, or_false] at hrequest
  obtain rfl | rfl := hrequest
  · exact ⟨0, rfl⟩
  · exact ⟨1, by rw [Lock.rank, if_neg h]⟩

theorem rank_of_mem_beginOperation {cache : CacheHandle} {request : Request Lock} (h : IsCache cache.root)
    (hrequest : request ∈ cache.beginOperation) :
    ∃ n, request.lock.rank label IsCache = toLex (1, toLex (label cache.root, n)) := by
  simp only [CacheHandle.beginOperation, List.mem_cons, List.not_mem_nil, or_false] at hrequest
  obtain rfl | rfl := hrequest
  · exact ⟨0, rfl⟩
  · exact ⟨1, by rw [Lock.rank, if_pos h]⟩

/-- Authorities that carry the labels of their roots are locked upwards. -/
theorem increasing_dependencyLocks {cache : CacheHandle} {authorities : List DependencyStore}
    (hvalid : validateAuthorityInputs cache authorities = .ok ()) (hcache : IsCache cache.root)
    (hstores : ∀ d ∈ authorities, ¬IsCache d.store.root)
    (hlabel : ∀ d ∈ authorities, d.expectedStore = label d.store.root) :
    Thread.Increasing (Lock.rank label IsCache) (dependencyLocks cache authorities) := by
  rw [validateAuthorityInputs_eq_ok, List.pairwise_map] at hvalid
  rw [Thread.Increasing, dependencyLocks, List.pairwise_append]
  refine ⟨?_, increasing_beginOperation cache hcache, ?_⟩
  · rw [List.flatMap, List.pairwise_flatten, List.forall_mem_map, List.pairwise_map]
    refine ⟨fun d hd => increasing_lockExclusive d.store (hstores d hd), ?_⟩
    refine hvalid.2.1.imp_of_mem fun {d e} hd he hlt a ha b hb => ?_
    obtain ⟨m, ha⟩ := rank_of_mem_lockExclusive (hstores d hd) ha
    obtain ⟨n, hb⟩ := rank_of_mem_lockExclusive (hstores e he) hb
    rw [ha, hb, ← hlabel d hd, ← hlabel e he]
    simp [Prod.Lex.toLex_lt_toLex, hlt]
  · intro a ha b hb
    obtain ⟨d, hd, ha⟩ := List.mem_flatMap.mp ha
    obtain ⟨m, ha⟩ := rank_of_mem_lockExclusive (hstores d hd) ha
    obtain ⟨n, hb⟩ := rank_of_mem_beginOperation hcache hb
    rw [ha, hb]
    simp [Prod.Lex.toLex_lt_toLex]

theorem Call.Plan.increasing {call : Call} {sessions : List (List (Request Lock))} (h : call.Plan sessions)
    (hcaches : ∀ c ∈ call.caches, IsCache c.root) (hstores : ∀ s ∈ call.stores, ¬IsCache s.root)
    (hlabel : ∀ d ∈ call.authorities, d.expectedStore = label d.store.root) :
    ∀ session ∈ sessions, Thread.Increasing (Lock.rank label IsCache) session := by
  cases h with
  | refused => exact fun _ h => absurd h List.not_mem_nil
  | lookup hvalid =>
    rw [Call.stores, List.forall_mem_map] at hstores
    rintro _ (_ | ⟨_, ⟨⟩⟩)
    exact increasing_dependencyLocks hvalid (hcaches _ List.mem_cons_self) hstores hlabel
  | insert hvalid =>
    rw [Call.stores, List.forall_mem_map] at hstores
    rintro _ (_ | ⟨_, ⟨⟩⟩)
    exact increasing_dependencyLocks hvalid (hcaches _ List.mem_cons_self) hstores hlabel
  | invalidateStore =>
    rintro _ (_ | ⟨_, ⟨⟩⟩)
    exact increasing_beginOperation _ (hcaches _ List.mem_cons_self)
  | preflight n =>
    rw [List.forall_mem_map]
    exact fun store h => increasing_lockExclusive store (hstores store (List.mem_of_mem_take h))
  | synced advanced htargets =>
    rw [List.forall_mem_append, List.forall_mem_map]
    refine ⟨fun store h => increasing_lockExclusive store (hstores store h), ?_⟩
    intro session hsession
    obtain ⟨target, htarget, hsession⟩ := List.mem_flatMap.mp hsession
    have hstore := hstores target.1 (htargets ▸ List.mem_map_of_mem htarget)
    obtain hsession | hsession := List.mem_append.mp hsession
    · simp only [List.mem_cons, List.not_mem_nil, or_false, or_self] at hsession
      exact hsession ▸ increasing_lockExclusive target.1 hstore
    · split at hsession
      · obtain ⟨c, hc, rfl⟩ := List.mem_map.mp hsession
        exact increasing_beginOperation c (hcaches c hc)
      · cases hsession
  | operation =>
    rintro _ (_ | ⟨_, ⟨⟩⟩)
    exact increasing_lockExclusive _ (hstores _ List.mem_cons_self)
  | read n =>
    have hstore := hstores _ List.mem_cons_self
    rw [List.forall_mem_append]
    refine ⟨fun session hsession => ?_, ?_⟩
    · obtain ⟨round, hround, hsession⟩ := List.mem_flatten.mp hsession
      rw [List.eq_of_mem_replicate hround, Call.readRound] at hsession
      obtain _ | ⟨_, _ | ⟨_, ⟨⟩⟩⟩ := hsession
      · exact increasing_lockShared _ hstore
      · exact increasing_lockExclusive _ hstore
    · rintro _ (_ | ⟨_, ⟨⟩⟩)
      exact increasing_lockShared _ hstore

end

open Classical in
/-- Calls whose labels agree on every root never wait in a circle, as long as no cache lies in a store's root. -/
theorem not_deadlocked_of_labels_agree [DecidableEq ι] {calls : ι → Call} {σ τ : ι → Thread Lock}
    (label : RootIdentity → LogicalStoreId)
    (hlabel : ∀ i, ∀ d ∈ (calls i).authorities, d.expectedStore = label d.store.root)
    (hroots : ∀ i, ∀ c ∈ (calls i).caches, ∀ j, ∀ s ∈ (calls j).stores, c.root ≠ s.root)
    (hstart : Starts calls σ) (hrun : Reachable σ τ) : ¬Deadlocked τ := by
  have hordered : ∀ i, (σ i).Ordered
      (Lock.rank label fun root => ∃ i, ∃ c ∈ (calls i).caches, c.root = root) := by
    intro i
    obtain ⟨sessions, hplan, hi⟩ := hstart i
    rw [hi]
    refine .start (hplan.increasing (fun c hc => ⟨i, c, hc, rfl⟩) ?_ (hlabel i))
    rintro s hs ⟨j, c, hc, hroot⟩
    exact hroots j c hc i s hs hroot
  exact not_deadlocked_of_ordered (hrun.ordered hordered)

namespace Sample

def lockedUuid : StoreUuid where
  uuid := ⟨[0, 1, 9, 1, 3, 15, 1, 13, 8, 14, 2, 10, 7, 12, 3, 0, 8, 15, 4, 10, 4, 2, 6, 6, 1, 4, 1, 7,
    4, 0, 5, 6], rfl⟩
  accepted := by decide

def firstLabel : LogicalStoreId := ⟨lockedUuid, ⟨List.replicate 64 0, Digest.length_zeros⟩⟩
def secondLabel : LogicalStoreId := ⟨lockedUuid, ⟨List.replicate 64 1, rfl⟩⟩

def leftStore : StoreHandle := ⟨0, ⟨1, 10⟩⟩
def rightStore : StoreHandle := ⟨1, ⟨1, 11⟩⟩
def leftCache : CacheHandle := ⟨2, ⟨1, 12⟩⟩
def rightCache : CacheHandle := ⟨3, ⟨1, 13⟩⟩

def straight : List DependencyStore := [⟨firstLabel, leftStore⟩, ⟨secondLabel, rightStore⟩]
def swapped : List DependencyStore := [⟨firstLabel, rightStore⟩, ⟨secondLabel, leftStore⟩]

/-- Two lookups that agree on the labels of both stores. -/
def agreeing : Bool → Call
  | false => .lookup leftCache straight
  | true => .lookup rightCache straight

/-- Two lookups that label the same two stores the other way round. -/
def crossing : Bool → Call
  | false => .lookup leftCache straight
  | true => .lookup rightCache swapped

def lookups (authorities : List DependencyStore) : Bool → Thread Lock
  | false => .start [dependencyLocks leftCache straight]
  | true => .start [dependencyLocks rightCache authorities]

theorem starts_agreeing : Starts agreeing (lookups straight)
  | false => ⟨_, .lookup (validateAuthorityInputs_eq_ok.mpr ⟨by decide, by decide +kernel, rfl⟩), rfl⟩
  | true => ⟨_, .lookup (validateAuthorityInputs_eq_ok.mpr ⟨by decide, by decide +kernel, rfl⟩), rfl⟩

theorem starts_crossing : Starts crossing (lookups swapped)
  | false => ⟨_, .lookup (validateAuthorityInputs_eq_ok.mpr ⟨by decide, by decide +kernel, rfl⟩), rfl⟩
  | true => ⟨_, .lookup (validateAuthorityInputs_eq_ok.mpr ⟨by decide, by decide +kernel, rfl⟩), rfl⟩

/-- The first lookup has locked the left store and the second has only begun. -/
def oneHolds (authorities : List DependencyStore) : Bool → Thread Lock
  | false => ⟨leftStore.lockExclusive.reverse, rightStore.lockExclusive ++ leftCache.beginOperation, []⟩
  | true => ⟨[], dependencyLocks rightCache authorities, []⟩

/-- Each lookup has locked the store the other one asks for next. -/
def bothHold : Bool → Thread Lock
  | false => ⟨leftStore.lockExclusive.reverse, rightStore.lockExclusive ++ leftCache.beginOperation, []⟩
  | true => ⟨rightStore.lockExclusive.reverse, leftStore.lockExclusive ++ rightCache.beginOperation, []⟩

theorem reachable_oneHolds (authorities : List DependencyStore) :
    Reachable (lookups authorities) (oneHolds authorities) := by
  refine .head (.enter false _ _ rfl rfl rfl) (.head (.acquire false _ _ rfl ?_) (.head (.acquire false _ _ rfl ?_)
    (.head (.enter true _ _ rfl rfl rfl) ?_)))
  · rintro (_ | _) other hother
    · cases hother
    · cases hother
  · rintro (_ | _) other hother
    · obtain rfl := List.mem_singleton.mp hother
      decide
    · cases hother
  · convert Relation.ReflTransGen.refl using 1
    funext i
    cases i with
    | false => rfl
    | true => rfl

theorem reachable_bothHold : Reachable (lookups swapped) bothHold := by
  refine (reachable_oneHolds swapped).trans (.head (.acquire true _ _ rfl ?_) (.head (.acquire true _ _ rfl ?_) ?_))
  · decide
  · decide
  · convert Relation.ReflTransGen.refl using 1
    funext i
    cases i with
    | false => rfl
    | true => rfl

end Sample

theorem agreeing_lookups_not_deadlocked :
    WaitsFor (Sample.oneHolds Sample.straight) true false ∧ ¬Deadlocked (Sample.oneHolds Sample.straight) := by
  refine ⟨⟨_, _, rfl, _, List.mem_cons_of_mem _ List.mem_cons_self, rfl⟩, ?_⟩
  refine not_deadlocked_of_labels_agree (fun root => if root = Sample.leftStore.root then Sample.firstLabel
    else Sample.secondLabel) ?_ ?_ Sample.starts_agreeing (Sample.reachable_oneHolds _)
  · rintro (_ | _) d hd
    · obtain _ | ⟨_, _ | ⟨_, ⟨⟩⟩⟩ := hd
      · rfl
      · rfl
    · obtain _ | ⟨_, _ | ⟨_, ⟨⟩⟩⟩ := hd
      · rfl
      · rfl
  · decide

theorem crossing_lookups_deadlock : ∃ τ, Starts Sample.crossing (Sample.lookups Sample.swapped) ∧
    Reachable (Sample.lookups Sample.swapped) τ ∧ Deadlocked τ := by
  refine ⟨Sample.bothHold, Sample.starts_crossing, Sample.reachable_bothHold, false, ?_⟩
  have hfirst : WaitsFor Sample.bothHold false true :=
    ⟨_, _, rfl, _, List.mem_cons_of_mem _ List.mem_cons_self, rfl⟩
  have hsecond : WaitsFor Sample.bothHold true false :=
    ⟨_, _, rfl, _, List.mem_cons_of_mem _ List.mem_cons_self, rfl⟩
  exact .head hfirst (.single hsecond)

end Wayjournal
