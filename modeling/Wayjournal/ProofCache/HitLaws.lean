import Wayjournal.ProofCache.CacheLaws
import Wayjournal.Store.DirectoryLaws
import Wayjournal.Store.Paths

namespace Wayjournal

open Collections Crash Fs Text CacheWorld

section

variable [Jiff]

theorem validateSourceDependency_eq_ok {dependencies : RevisionVector} {proof : VerifiedProof}
    (h : validateSourceDependency dependencies proof = .ok ()) :
    ⟨proof.subject.store, proof.sourceRevision⟩ ∈ dependencies.entries := by
  unfold validateSourceDependency at h
  split at h
  · rename_i source hsource
    split at h
    · cases h
    · rename_i hrevision
      have hmem : source ∈ dependencies.entries.filter (fun entry => entry.store = proof.subject.store) := by
        rw [hsource]
        exact List.mem_singleton_self _
      rw [List.mem_filter, decide_eq_true_eq] at hmem
      rw [not_not] at hrevision
      rw [← hmem.2, ← hrevision]
      exact hmem.1
  · cases h

variable [Blake3]

theorem RawVerifiedProof.identified_of_toProof {raw : RawVerifiedProof} {proof : VerifiedProof}
    (h : raw.toProof = .ok proof) : proof.proofId = proof.recomputedProofId := by
  rw [toProof, guard_bind_eq_ok] at h
  obtain ⟨-, h⟩ := h
  dsimp only at h
  rw [guard_bind_eq_ok, pure_eq_ok] at h
  obtain ⟨hid, rfl⟩ := h
  exact not_not.mp hid

theorem identified_of_decodeVerifiedProof {bytes : Bytes} {proof : VerifiedProof}
    (h : decodeVerifiedProof bytes = .ok proof) : proof.proofId = proof.recomputedProofId := by
  unfold decodeVerifiedProof at h
  rw [except_bind_eq_ok] at h
  obtain ⟨_, -, h⟩ := h
  rw [except_bind_eq_ok] at h
  obtain ⟨value, -, h⟩ := h
  split at h
  · rw [except_bind_eq_ok] at h
    obtain ⟨other, hproof, h⟩ := h
    rw [except_bind_eq_ok] at h
    obtain ⟨_, -, h⟩ := h
    rw [guard_bind_eq_ok, pure_eq_ok] at h
    obtain ⟨-, rfl⟩ := h
    exact RawVerifiedProof.identified_of_toProof hproof
  · cases h

/-- What every entry that is read satisfies, whatever its bytes. -/
theorem of_decodeCacheEntry {bytes : Bytes} {entry : CacheEntry} (h : decodeCacheEntry bytes = .ok entry) :
    entry.proof.proofId = entry.proof.recomputedProofId ∧
      ⟨entry.proof.subject.store, entry.proof.sourceRevision⟩ ∈ entry.dependencies.entries := by
  unfold decodeCacheEntry at h
  rw [guard_bind_eq_ok, except_bind_eq_ok] at h
  obtain ⟨-, value, -, h⟩ := h
  split at h
  · rw [guard_bind_eq_ok] at h
    obtain ⟨-, h⟩ := h
    split at h
    · split at h
      · simp only [except_bind_eq_ok, mapError_eq_ok] at h
        obtain ⟨_, -, _, -, dependencies, -, proof, hproof, _, hsource, _, -, h⟩ := h
        rw [guard_bind_eq_ok, pure_eq_ok] at h
        obtain ⟨-, rfl⟩ := h
        exact ⟨identified_of_decodeVerifiedProof hproof, validateSourceDependency_eq_ok hsource⟩
      · cases h
    · cases h
  · cases h

end

theorem finalName_of_finalId {name : Name} {id : ProofId} (h : finalId name = .ok id) : name = finalName id := by
  unfold finalId at h
  split at h
  · rename_i text htext
    split at h
    · rename_i stem hstem
      rw [guard_bind_eq_ok] at h
      obtain ⟨-, h⟩ := h
      split at h
      · rename_i other hid
        rw [pure_eq_ok] at h
        subst h
        obtain ⟨digest, hdigest, rfl⟩ := Option.map_eq_some_iff.mp hid
        apply Name.bytes_injective
        change name.bytes = asBytes (digest.display ++ ".json")
        rw [Digest.display_of_parse hdigest, ← append_of_stripJson hstem, asBytes_of_fromUtf8 htext]
      · cases h
    · cases h
  · cases h

section

variable [Jiff] [Blake3]

/-- The entry of a proof in the directory of a cache. -/
def HoldsEntry (proofId : ProofId) (bytes : Bytes) (entry : CacheEntry) (disk : Disk) : Prop :=
  CacheHandle.rootDir.child? (finalName proofId) disk = some (.regular bytes) ∧ decodeCacheEntry bytes = .ok entry ∧
    entry.proof.proofId = proofId

theorem readOnly_visitEntry {κ : Type} {visit : κ → ProofId → Bytes → CacheEntry → κ} (state : κ × Nat) (name : Name) :
    (visitEntry visit state name).ReadOnly := by
  refine .bind (.ofExcept _) fun _ => .bind (Directory.readOnly_openFile.mapError _) fun _ => ?_
  refine .ite (.bind (.throw _) fun _ => ?_) ?_
  all_goals
    refine .bind (.ofExcept _) fun _ => .bind (.ofExcept _) fun _ => ?_
    exact .ite (.bind (.throw _) fun _ => .pure _) (.pure _)

theorem readOnly_visitEntries [ReadDir] {κ : Type} {visit : κ → ProofId → Bytes → CacheEntry → κ} {state : κ} :
    (visitEntries visit state).ReadOnly := by
  refine .bind (Directory.readOnly_boundedNames.mapError _) fun _ => ?_
  exact .ite (.bind (.throw _) fun _ => .bind (.foldlM readOnly_visitEntry _ _) fun _ => .pure _)
    (.bind (.foldlM readOnly_visitEntry _ _) fun _ => .pure _)

/-- A visited file is an entry under its own name. -/
theorem visitEntry_eq_ok {κ : Type} {visit : κ → ProofId → Bytes → CacheEntry → κ} {state state' : κ × Nat} {name : Name}
    {disk : Disk} (h : (visitEntry visit state name).result disk = .ok state') :
    ∃ id bytes entry, HoldsEntry id bytes entry disk ∧ state'.1 = visit state.1 id bytes entry := by
  unfold visitEntry at h
  rw [Program.result_bind_eq_ok (.ofExcept _)] at h
  obtain ⟨id, hid, h⟩ := h
  rw [Program.result_bind_eq_ok (Directory.readOnly_openFile.mapError _)] at h
  obtain ⟨bytes, hbytes, h⟩ := h
  rw [Program.guard_eq_ok, Program.result_bind_eq_ok (.ofExcept _)] at h
  obtain ⟨-, total, -, h⟩ := h
  rw [Program.result_bind_eq_ok (.ofExcept _)] at h
  obtain ⟨entry, hentry, h⟩ := h
  rw [Program.guard_eq_ok] at h
  obtain ⟨hproof, h⟩ := h
  rw [Program.result_mapError, mapError_eq_ok, Directory.openFile, Program.result_reads] at hbytes
  refine ⟨id, bytes, entry, ⟨?_, hentry, not_not.mp hproof⟩, ?_⟩
  · rw [← finalName_of_finalId hid]
    split at hbytes
    · cases hbytes
    · rename_i hchild
      rw [hchild, Except.ok.inj hbytes]
    · cases hbytes
  · cases h
    rfl

/-- The entry a lookup asks for is the one under its name. -/
theorem visitEntries_requested [ReadDir] {proofId : ProofId} {bytes : Bytes} {entry : CacheEntry} {layout : LayoutSummary}
    {disk : Disk}
    (h : (visitEntries (ProofCache.requestedEntry proofId) none).result disk = .ok (some (bytes, entry), layout)) :
    HoldsEntry proofId bytes entry disk := by
  unfold visitEntries at h
  rw [Program.result_bind_eq_ok (Directory.readOnly_boundedNames.mapError _)] at h
  obtain ⟨names, -, h⟩ := h
  rw [Program.guard_eq_ok, Program.result_bind_eq_ok (.foldlM readOnly_visitEntry _ _)] at h
  obtain ⟨-, state, hfold, h⟩ := h
  rw [Program.result_foldlM readOnly_visitEntry] at hfold
  have hinv : ∀ bytes entry, state.1 = some (bytes, entry) → HoldsEntry proofId bytes entry disk := by
    refine foldlM_invariant (fun _ state => ∀ bytes entry, state.1 = some (bytes, entry) →
      HoldsEntry proofId bytes entry disk) ?_ (fun _ _ h => by cases h) hfold
    intro state name _ state' hstate hstep bytes entry hsome
    obtain ⟨id, bytes', entry', hholds, heq⟩ := visitEntry_eq_ok hstep
    rw [heq, ProofCache.requestedEntry] at hsome
    split at hsome
    · rename_i hid
      cases hsome
      exact hid ▸ hholds
    · exact hstate bytes entry hsome
  exact hinv bytes entry (congrArg Prod.fst (Except.ok.inj h))

end

theorem ProofCache.wp_failedLookup [Jiff] [Ambient] {cache : CacheHandle} {post : VerifiedProof → CacheWorld → Prop} {w : CacheWorld} :
    (failedLookup cache).wp (fun _ => True) (fun result t => ∀ proof, result = .hit proof → post proof t)
      (fun _ _ => True) w := by
  refine Program.wp_last fun bound t => Program.wp_pure.mpr fun proof hhit => ?_
  split at hhit
  · cases hhit
  · cases hhit

section

variable [Url]

/-- The checkpoint that stands in the checkpoint directory. -/
def Durable (checkpoint : AdmissionCheckpoint) (disk : Disk) : Prop :=
  ∃ bytes, Store.checkpointsDir.child? .admissionCheckpoint disk = some (.regular bytes) ∧
    decodeAdmissionCheckpoint bytes = .ok checkpoint

theorem wp_readCheckpoint_durable [ReadDir] {disk : Disk} :
    readCheckpoint.wp (fun _ => True) (fun checkpoint? t => ∀ checkpoint, checkpoint? = some checkpoint →
      Durable checkpoint t) (fun _ _ => True) disk := by
  refine Program.wp_last fun _ t => ?_
  rw [Program.wp_bind, openCheckpoint, Program.wp_reads]
  split
  · rename_i bytes? hbytes
    cases bytes? with
    | none =>
      rw [Program.wp_pure]
      rintro _ ⟨⟩
    | some bytes =>
      dsimp only
      refine Program.wp_guard.mpr ⟨fun _ => trivial, fun _ => ?_⟩
      rw [Program.wp_bind, Program.ofExcept, Program.wp_reads]
      split
      · rename_i checkpoint hdecode
        rw [Program.wp_pure]
        rintro _ ⟨⟩
        refine ⟨bytes, ?_, hdecode⟩
        split at hbytes
        · cases hbytes
        · rename_i hchild
          rw [hchild, Option.some.inj (Except.ok.inj hbytes)]
        · cases hbytes
      · trivial
  · trivial

variable [Jiff] [Blake3]

/-- The revision of a dependency, as the checkpoint and the visible files of its store both have it. -/
structure CurrentAt (store : Store) (expected : LogicalStoreId) (disk : Disk) (entry : RevisionVectorEntry) : Prop where
  store_eq : entry.store = expected
  checkpoint : ∃ checkpoint, Durable checkpoint disk ∧ checkpoint.logicalStoreId = expected ∧
    checkpoint.acceptedRevision = entry.revision
  visible : ∃ snapshot identity, validateVisible store disk = .ok snapshot ∧ snapshot.identity = some identity ∧
    identity.logicalId = expected ∧ snapshot.revision = entry.revision

theorem wp_currentDependency [ReadDir] {store : Store} {expected : LogicalStoreId} {disk : Disk} :
    (currentDependency store expected).wp (fun _ => True) (fun entry t => CurrentAt store expected t entry)
      (fun _ _ => True) disk := by
  rw [currentDependency, Program.wp_bind]
  refine Program.wp_mono (Program.wp_mapError.mpr wp_readCheckpoint_durable) (fun _ h => h) ?_ (fun _ _ h => h)
  intro checkpoint? t hcheckpoint
  split
  · rename_i checkpoint
    rw [Program.wp_bind, Program.wp_reads]
    split
    · rename_i snapshot hsnapshot
      rw [mapError_eq_ok] at hsnapshot
      split
      · rename_i identity hidentity
        refine Program.wp_guard.mpr ⟨fun _ => trivial, fun hstore => ?_⟩
        simp only [Bool.or_eq_true, decide_eq_true_eq, not_or, not_not] at hstore
        refine Program.wp_guard.mpr ⟨fun _ => trivial, fun hrevision => Program.wp_pure.mpr ?_⟩
        exact ⟨rfl, ⟨checkpoint, hcheckpoint _ rfl, hstore.1.1, rfl⟩,
          ⟨snapshot, identity, hsnapshot, hidentity, hstore.1.2, (not_not.mp hrevision).symm⟩⟩
      · exact Program.wp_throw.mpr trivial
    · trivial
  · exact Program.wp_throw.mpr trivial

variable [Ambient]

/-- A dependency that is current in the store of its authority. -/
def Current (w : CacheWorld) (authority : DependencyStore) (entry : RevisionVectorEntry) : Prop :=
  CurrentAt (Ambient.store authority.store) authority.expectedStore (w.disks authority.store.root) entry

/-- What a hit says about the cache and about the stores it depends on. -/
structure FreshHit (cache : CacheHandle) (proofId : ProofId) (authorities : List DependencyStore) (proof : VerifiedProof)
    (w : CacheWorld) : Prop where
  requested : proof.proofId = proofId
  identified : proof.proofId = proof.recomputedProofId
  entry : ∃ bytes dependencies, HoldsEntry proofId bytes ⟨dependencies, proof⟩ (w.disks cache.root) ∧
    List.Forall₂ (Current w) authorities dependencies.entries
  source : ∃ authority ∈ authorities, Current w authority ⟨proof.subject.store, proof.sourceRevision⟩

theorem Current.congr {w t : CacheWorld} {authority : DependencyStore} {entry : RevisionVectorEntry}
    (h : Current w authority entry) (hdisk : t.disks authority.store.root = w.disks authority.store.root) :
    Current t authority entry := by
  rw [Current, hdisk]
  exact h

theorem FreshHit.congr {cache : CacheHandle} {proofId : ProofId} {authorities : List DependencyStore}
    {proof : VerifiedProof} {w t : CacheWorld} (h : FreshHit cache proofId authorities proof w)
    (hdisks : t.disks = w.disks) : FreshHit cache proofId authorities proof t := by
  obtain ⟨bytes, dependencies, hholds, hcurrent⟩ := h.entry
  obtain ⟨authority, hauthority, hsource⟩ := h.source
  exact ⟨h.requested, h.identified,
    ⟨bytes, dependencies, hdisks ▸ hholds, hcurrent.imp fun a _ ha => ha.congr (congrFun hdisks a.store.root)⟩,
    ⟨authority, hauthority, hsource.congr (congrFun hdisks _)⟩⟩

theorem FreshHit.of_holds {cache : CacheHandle} {proofId : ProofId} {authorities : List DependencyStore} {bytes : Bytes}
    {entry : CacheEntry} {w : CacheWorld} (hholds : HoldsEntry proofId bytes entry (w.disks cache.root))
    (hcurrent : List.Forall₂ (Current w) authorities entry.dependencies.entries) :
    FreshHit cache proofId authorities entry.proof w := by
  obtain ⟨hidentified, hsource⟩ := of_decodeCacheEntry hholds.2.1
  refine ⟨hholds.2.2, hidentified, ⟨bytes, entry.dependencies, hholds, hcurrent⟩, ?_⟩
  obtain ⟨i, hi, heq⟩ := List.getElem_of_mem hsource
  have hlength := hcurrent.length_eq
  refine ⟨authorities[i], List.getElem_mem _, ?_⟩
  rw [← heq]
  exact hcurrent.get (hlength ▸ hi) hi

namespace ProofCache

/-- The last look at the name changes no disk, so a hit stays fresh. -/
theorem wp_duringOperation {cache : CacheHandle} {proofId : ProofId} {authorities : List DependencyStore}
    {p : CacheM ProofCacheLookup} {w : CacheWorld}
    (h : p.wp (fun _ => True) (fun result t => ∀ proof, result = .hit proof → FreshHit cache proofId authorities proof t)
      (fun _ _ => True) w) :
    (duringOperation cache p).wp (fun _ => True)
      (fun result t => ∀ proof, result = .hit proof → FreshHit cache proofId authorities proof t) (fun _ _ => True) w := by
  rw [duringOperation, Program.wp_bind, Program.wp_attempt]
  refine Program.wp_mono h (fun _ h => h) ?_ ?_
  · intro result t hfresh
    rw [Program.wp_bind]
    refine Program.wp_mono wp_bindingMatches (fun _ h => h) ?_ (fun _ _ h => h.elim)
    intro _ u hdisks
    refine (Program.wp_ofExcept_ok rfl).mpr fun proof hhit => ?_
    exact (hfresh proof hhit).congr hdisks
  · intro e t _
    exact Program.wp_last fun _ _ => Program.wp_reads.mpr trivial

end ProofCache

variable [ReadDir]

/-- Each authority is read below its own root, so what was read before it stays. -/
theorem wp_mapM_currentDependency {authorities : List DependencyStore} {w : CacheWorld}
    (hroots : (authorities.map (fun authority => authority.store.root)).Nodup) :
    (authorities.mapM fun authority => onRoot authority.store.root .authorityUnavailable
        (currentDependency (Ambient.store authority.store) authority.expectedStore)).wp (fun _ => True)
      (fun entries t => List.Forall₂ (Current t) authorities entries) (fun _ _ => True) w := by
  induction authorities generalizing w with
  | nil => exact Program.wp_pure.mpr .nil
  | cons authority rest ih =>
    rw [List.map_cons, List.nodup_cons] at hroots
    rw [List.mapM_cons, Program.wp_bind, wp_onRoot]
    refine Program.wp_mono wp_currentDependency (fun _ h => h) ?_ (fun _ _ _ => trivial)
    intro entry disk hcurrent
    have hkeeps : (rest.mapM fun authority => onRoot authority.store.root .authorityUnavailable
        (currentDependency (Ambient.store authority.store) authority.expectedStore)).Keeps
          (only (rest.map fun authority => authority.store.root)) :=
      .mapMOf fun a ha => keeps_only_onRoot (List.mem_map_of_mem ha) _
    rw [Program.wp_bind]
    refine Program.wp_mono (Program.wp_and (ih hroots.2) (hkeeps.wp _)) (fun _ _ => trivial) ?_ (fun _ _ _ => trivial)
    rintro entries t ⟨hentries, honly⟩
    refine Program.wp_pure.mpr (.cons ?_ hentries)
    rw [Current, honly _ hroots.1, withDisk_same]
    exact hcurrent

theorem wp_lockAuthorities {authorities : List DependencyStore} {w : CacheWorld}
    (hroots : (authorities.map (fun authority => authority.store.root)).Nodup) :
    (lockAuthorities authorities).wp (fun _ => True)
      (fun fresh t => List.Forall₂ (Current t) authorities fresh.entries) (fun _ _ => True) w := by
  refine Program.wp_last fun _ t => ?_
  rw [Program.wp_bind]
  refine Program.wp_mono (wp_mapM_currentDependency hroots) (fun _ h => h) ?_ (fun _ _ h => h)
  intro entries t hentries
  rw [Program.ofExcept, Program.wp_reads]
  split
  · rename_i vector hvector
    rw [mapError_eq_ok] at hvector
    rwa [RevisionVector.entries_of_new hvector]
  · trivial

namespace ProofCache

/-- Whatever the cache holds, a hit is the requested entry and all its dependencies are the current ones. -/
theorem wp_visitRequested {cache : CacheHandle} {proofId : ProofId} {authorities : List DependencyStore}
    {fresh : RevisionVector} {w : CacheWorld} (hcurrent : List.Forall₂ (Current w) authorities fresh.entries) :
    (visitRequested cache proofId fresh).wp (fun _ => True)
      (fun result t => ∀ proof, result = .hit proof → FreshHit cache proofId authorities proof t)
      (fun _ _ => True) w := by
  rw [visitRequested, Program.wp_bind, Program.wp_attempt, wp_onRoot, readOnly_visitEntries.wp]
  have hsame : w.withDisk cache.root (w.disks cache.root) = w := withDisk_self
  rw [hsame]
  split
  · rename_i result hresult
    obtain ⟨requested, layout⟩ := result
    dsimp only
    rw [Program.wp_bind]
    refine Program.wp_mono wp_bindingMatches (fun _ h => h) ?_ (fun _ _ h => h.elim)
    intro bound t hdisks
    split
    · rw [Program.wp_pure]
      rintro _ ⟨⟩
    · rw [Program.wp_pure]
      intro proof hhit
      unfold classify at hhit
      split at hhit
      · cases hhit
      · rename_i bytes entry
        split at hhit
        · cases hhit
        · split at hhit
          · cases hhit
          · rename_i hfresh
            cases hhit
            have hholds := visitEntries_requested hresult
            rw [not_not] at hfresh
            refine .of_holds (hdisks ▸ hholds) ?_
            rw [hfresh]
            exact hcurrent.imp fun a _ ha => ha.congr (congrFun hdisks a.store.root)
  · exact wp_failedLookup

theorem wp_lookup {cache : CacheHandle} {proofId : ProofId} {authorities : List DependencyStore} {w : CacheWorld} :
    (lookup cache proofId authorities).wp (fun _ => True)
      (fun result t => ∀ proof, result = .hit proof → FreshHit cache proofId authorities proof t)
      (fun _ _ => True) w := by
  refine Program.wp_last fun _ t => ?_
  split
  · rw [Program.wp_pure]
    rintro _ ⟨⟩
  · cases hvalid : validateAuthorityInputs cache authorities with
    | error e => exact Program.wp_last fun _ _ => Program.wp_bind.mpr (Program.wp_throw.mpr trivial)
    | ok _ =>
      obtain ⟨hnodup, hroots⟩ := roots_of_validateAuthorityInputs hvalid
      dsimp only
      rw [Program.wp_bind, Program.wp_attempt]
      refine Program.wp_mono (wp_lockAuthorities hnodup) (fun _ h => h) ?_ ?_
      · intro fresh u hcurrent
        dsimp only
        rw [Program.wp_bind]
        refine Program.wp_mono wp_beginOperation_only (fun _ h => h) ?_ (fun _ _ h => h)
        intro started v honly
        have hcurrent' : List.Forall₂ (Current v) authorities fresh.entries := by
          rw [List.forall₂_iff_zip] at hcurrent ⊢
          refine ⟨hcurrent.1, fun hmem => (hcurrent.2 hmem).congr (honly _ fun hroot => ?_)⟩
          exact hroots _ (List.of_mem_zip hmem).1 (List.mem_singleton.mp hroot)
        cases started with
        | error state => 
          cases state with
          | reset =>
            rw [Program.wp_pure]
            rintro _ ⟨⟩
          | unavailable =>
            rw [Program.wp_pure]
            rintro _ ⟨⟩
        | ok _ => exact wp_duringOperation (wp_visitRequested hcurrent')
      · intro e u _
        cases e with
        | authorityUnavailable problem => exact wp_failedLookup
        | _ => exact Program.wp_last fun _ _ => Program.wp_throw.mpr trivial

end ProofCache

end

end Wayjournal
