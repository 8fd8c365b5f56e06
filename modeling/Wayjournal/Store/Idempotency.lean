import Wayjournal.Batch.Prepare
import Wayjournal.Collections.Grouping
import Wayjournal.Store.Conflict
import Wayjournal.Store.PreviewExact
import Wayjournal.Store.ReplayLaws

namespace Wayjournal

open Collections Crash Fs FileSystem Text

/-- Who a batch was written for: the actor and the digest of the key. -/
def BatchManifest.owner (manifest : BatchManifest) : ActorId × Digest := (manifest.actor, manifest.idempotencyKeyDigest)

section Classification

variable {manifests : List BatchManifest}

/-- The check of a collected store is that no two batches have one owner. -/
theorem validateGlobalIdempotency_eq_ok :
    validateGlobalIdempotency manifests = .ok () ↔ (manifests.map BatchManifest.owner).Nodup := by
  have hkey : manifests.map (fun m => toLex (m.actor, m.idempotencyKeyDigest.display)) =
      (manifests.map BatchManifest.owner).map (fun owner => toLex (owner.1, owner.2.display)) := by
    rw [List.map_map]
    rfl
  have hinjective : Function.Injective (fun owner : ActorId × Digest => toLex (owner.1, owner.2.display)) := by
    intro a b h
    obtain ⟨hactor, hdigest⟩ := Prod.mk.inj (toLex.injective h)
    exact Prod.ext hactor (Digest.display_injective hdigest)
  have hgroups := @groups_le_one_iff _ _ _ _
    (fun m : BatchManifest => toLex (m.actor, m.idempotencyKeyDigest.display)) BatchManifest.batchId manifests
  rw [← List.nodup_map_iff hinjective, ← hkey, ← hgroups, validateGlobalIdempotency]
  split
  · rename_i ids hfind
    have hlong := List.find?_some hfind
    simp only [gt_iff_lt, decide_eq_true_eq] at hlong
    refine iff_of_false (fun h => by cases h) fun h => ?_
    have := h ids (List.mem_of_find?_eq_some hfind)
    omega
  · rename_i hfind
    refine iff_of_true rfl fun ids hids => ?_
    have hshort := List.find?_eq_none.mp hfind ids hids
    simpa using hshort

/-- The owners of one actor and key, in order. -/
def ownersOf (manifests : List BatchManifest) (owner : ActorId × Digest) : List BatchManifest :=
  (manifests.filter (fun m => m.actor = owner.1 && m.idempotencyKeyDigest = owner.2)).insertionSort
    (fun a b => a.batchId ≤ b.batchId)

theorem mem_ownersOf {owner : ActorId × Digest} {m : BatchManifest} :
    m ∈ ownersOf manifests owner ↔ m ∈ manifests ∧ m.owner = owner := by
  rw [ownersOf, (List.perm_insertionSort _ _).mem_iff, List.mem_filter, Bool.and_eq_true, decide_eq_true_eq,
    decide_eq_true_eq, BatchManifest.owner, Prod.ext_iff]

/-- Where no two batches have one owner, a batch is the only one of its owner. -/
theorem ownersOf_eq (h : (manifests.map BatchManifest.owner).Nodup) {b : BatchManifest} (hb : b ∈ manifests) :
    ownersOf manifests b.owner = [b] := by
  have hnodup : (ownersOf manifests b.owner).Nodup :=
    (List.perm_insertionSort _ _).nodup_iff.mpr (h.of_map.filter _)
  refine List.perm_singleton.mp ((List.perm_ext_iff_of_nodup hnodup (List.nodup_singleton b)).mpr fun m => ?_)
  rw [mem_ownersOf, List.mem_singleton]
  constructor
  · rintro ⟨hm, howner⟩
    exact List.inj_on_of_nodup_map h hm hb howner
  · rintro rfl
    exact ⟨hb, rfl⟩

theorem ownersOf_short (h : (manifests.map BatchManifest.owner).Nodup) (owner : ActorId × Digest) :
    ownersOf manifests owner = [] ∨ ∃ b ∈ manifests, ownersOf manifests owner = [b] := by
  cases howners : ownersOf manifests owner with
  | nil => exact .inl rfl
  | cons b r =>
    have hb : b ∈ ownersOf manifests owner := by
      rw [howners]
      exact List.mem_cons_self
    obtain ⟨hmem, rfl⟩ := mem_ownersOf.mp hb
    rw [← howners]
    exact .inr ⟨b, hmem, ownersOf_eq h hmem⟩

/-- What both classifiers decide from the owners they find. -/
def decideOwners (owners : List BatchManifest) (requestDigest : Digest) : Except BatchError IdempotencyDecision :=
  match owners with
  | [] => .ok .new
  | [manifest] =>
    if manifest.requestDigest = requestDigest then .ok (.replay manifest)
    else .error (.idempotencyRequestMismatch manifest.batchId)
  | owners => .error (.duplicateIdempotencyOwnership (owners.map BatchManifest.batchId))

/-- The batch that a decision replays. -/
def IdempotencyDecision.replayed : IdempotencyDecision → Option BatchId
  | .new => none
  | .replay manifest => some manifest.batchId

theorem classifyPrepared_eq [Jiff] (manifests : List BatchManifest) (prepared : PreparedBatch) :
    classifyPrepared manifests prepared =
      ((decideOwners (ownersOf manifests prepared.manifest.owner) prepared.manifest.requestDigest).map
        IdempotencyDecision.replayed).mapError .batch := by
  unfold classifyPrepared decideOwners
  change (match ownersOf manifests prepared.manifest.owner with
    | [] => _ | [manifest] => _ | owners => _) = _
  split
  · rfl
  · split <;> rfl
  · rfl

theorem classifyIdempotency_eq [Blake3] (manifests : List BatchManifest) (actor : ActorId) (key : String)
    (requestDigest : Digest) :
    classifyIdempotency manifests actor key requestDigest =
      decideOwners (ownersOf manifests (actor, idempotencyDigest actor key)) requestDigest := rfl

theorem decideOwners_ne_duplicate (h : (manifests.map BatchManifest.owner).Nodup) (owner : ActorId × Digest)
    (requestDigest : Digest) (batchIds : List BatchId) :
    decideOwners (ownersOf manifests owner) requestDigest ≠ .error (.duplicateIdempotencyOwnership batchIds) := by
  obtain hnil | ⟨b, -, hsingle⟩ := ownersOf_short h owner
  · rw [hnil]
    exact (nomatch ·)
  · rw [hsingle, decideOwners]
    split
    · exact (nomatch ·)
    · exact (nomatch ·)

end Classification

theorem key_of_owner {a b : BatchManifest} (h : a.owner = b.owner) : (idempotencyFact a).1 = (idempotencyFact b).1 := by
  obtain ⟨hactor, hdigest⟩ := Prod.mk.inj h
  rw [idempotencyFact, idempotencyFact, hactor, hdigest]

theorem manifestOf_eq [Jiff] (registry : DomainRegistry) (file : RawFile) : manifestOf registry file = replayedManifest file := by
  rw [manifestOf, replayedManifest, decodeVisibleFile, decodeManifestFile]
  cases hclass : classifyPath file.path with
  | journalBatch =>
    simp only [if_true]
    cases hdecode : decodeBatchManifest file.bytes with
    | error e => rfl
    | ok manifest =>
      by_cases hpath : asBytes manifest.canonicalPath ≠ file.path
      · simp only [mapError_ok, ok_bind, if_pos hpath]
        rfl
      · simp only [mapError_ok, ok_bind, if_neg hpath]
        rfl
  | journalRecord =>
    simp only [reduceCtorEq, if_false]
    cases hdecode : decodeRecord file.bytes registry with
    | error e => rfl
    | ok record =>
      by_cases hpath : asBytes record.canonicalPath ≠ file.path
      · simp only [mapError_ok, ok_bind, if_pos hpath]
        rfl
      · simp only [mapError_ok, ok_bind, if_neg hpath]
        rfl
  | _ => rfl

theorem ensures_spoolEntry {builder : CanonicalReplayBuilder} {budget : ScanBudget}
    {placed : List (RawFile × Location)} (h : builder.Builds placed) (e : List Name × Entry) :
    Ensures (spoolEntry (builder, budget) e) (fun spooled => ∃ placed', spooled.1.Builds placed' ∧
      placed'.map Prod.fst = placed.map Prod.fst ++ (fileOf e).toList) := by
  obtain ⟨p, e⟩ := e
  refine .skip fun budget => ?_
  cases e with
  | directory =>
    refine .guard fun hvalid => .pure ⟨placed, h, ?_⟩
    simp only [Bool.not_eq_true', Bool.not_eq_false] at hvalid
    rw [fileOf, if_pos hvalid, Option.toList_none, List.append_nil]
  | other => exact .throw _
  | regular bytes =>
    dsimp only
    split
    · refine .guard fun _ => .skip fun budget => .bind (h.push _) ?_
      rintro pushed ⟨location, hpushed⟩
      refine .pure ⟨_, hpushed, ?_⟩
      rw [List.map_append]
      rfl
    · exact .throw _

section Streaming

variable [Jiff] [Blake3] {store : Store}

theorem ensures_validateBoundedReplay {replay : CanonicalReplay} {files : List (RawFile × Location)}
    (hcursor : replay.cursor = .ok files) :
    Ensures (validateBoundedReplay store replay) (fun _ =>
      ((files.filterMap (fun file => replayedManifest file.1)).map BatchManifest.owner).Nodup) := by
  refine .bind (Ensures.lift fun found hfound => hfound) fun found hfound => .skip fun _ => ?_
  rw [hcursor] at hfound
  cases hfound
  refine .bind ensures_collectFacts fun ⟨collector, facts⟩ ⟨hsorted, hperm⟩ => .skip fun _ => ?_
  refine .bind (Ensures.lift fun _ hchecked => hchecked) fun _ hchecked => ?_
  have hkeys := nodup_of_validateDuplicateIdempotency hsorted hchecked
  have howners : ((files.filterMap (fun file => replayedManifest file.1)).map BatchManifest.owner).Nodup := by
    have hfacts := (hperm.map Prod.fst).nodup_iff.mp hkeys
    rw [List.map_map] at hfacts
    exact (List.nodup_map_iff_inj_on hfacts.of_map).mpr fun a ha b hb howner =>
      List.inj_on_of_nodup_map hfacts ha hb (key_of_owner howner)
  exact fun _ _ _ _ => howners

theorem ensures_validateFiles {replay : CanonicalReplay} {files : List (RawFile × Location)} {placed : List RawFile}
    (hcursor : replay.cursor = .ok files) (hperm : (files.map Prod.fst).Perm placed) :
    Ensures (validateBoundedReplay store replay) (fun _ =>
      ((placed.filterMap (manifestOf store.registry)).map BatchManifest.owner).Nodup) := by
  refine (ensures_validateBoundedReplay hcursor).mono fun _ hnodup => ?_
  have hmanifests := hperm.filterMap (manifestOf store.registry)
  rw [List.filterMap_map] at hmanifests
  simp only [Function.comp_def, manifestOf_eq] at hmanifests
  refine (List.Perm.map _ ?_).nodup_iff.mp hnodup
  simpa only [manifestOf_eq] using hmanifests

/-- What the streaming validator accepts has one owner for each batch. -/
theorem owners_of_validateStreamed {files : List RawFile} {state : ValidatedStoreState}
    (h : validateStreamed store files = .ok state) :
    ((files.filterMap (manifestOf store.registry)).map BatchManifest.owner).Nodup := by
  have hall : Ensures (do
      let builder ← files.foldlM CanonicalReplayBuilder.push replayBuilder
      let replay ← builder.finish
      validateBoundedReplay store replay)
      (fun _ => ((files.filterMap (manifestOf store.registry)).map BatchManifest.owner).Nodup) := by
    refine .bind CanonicalReplayBuilder.Builds.foldlM ?_
    rintro builder ⟨placed, rfl, hbuilder⟩
    refine .bind hbuilder.finish ?_
    rintro replay ⟨found, hcursor, hperm⟩
    exact ensures_validateFiles hcursor (hperm.map _)
  exact hall.run' h

/-- The same of a store that was validated in place. -/
theorem owners_of_validateVisible {disk : Disk} {state : ValidatedStoreState}
    (h : validateVisible store disk = .ok state) :
    ((((visibleEntries disk).filterMap fileOf).filterMap (manifestOf store.registry)).map BatchManifest.owner).Nodup := by
  have hspool : Ensures ((visibleEntries disk).foldlM spoolEntry (replayBuilder, ⟨0, 0⟩)) (fun spooled =>
      ∃ placed, spooled.1.Builds placed ∧ placed.map Prod.fst = (visibleEntries disk).filterMap fileOf) := by
    refine .foldlM (fun done (spooled : CanonicalReplayBuilder × ScanBudget) =>
      ∃ placed, spooled.1.Builds placed ∧ placed.map Prod.fst = done.filterMap fileOf)
      ⟨[], CanonicalReplayBuilder.builds_new, rfl⟩ ?_
    rintro done e ⟨builder, budget⟩ - ⟨placed, hbuilder, hplaced⟩
    refine (ensures_spoolEntry hbuilder e).mono ?_
    rintro spooled ⟨placed', hspooled, heq⟩
    refine ⟨placed', hspooled, ?_⟩
    rw [heq, hplaced, List.filterMap_append, List.filterMap_cons]
    cases fileOf e <;> rfl
  have hall : Ensures (do validateBoundedReplay store (← visibleReplay disk)) (fun _ =>
      ((((visibleEntries disk).filterMap fileOf).filterMap (manifestOf store.registry)).map
        BatchManifest.owner).Nodup) := by
    refine .via (fun replay : CanonicalReplay => ∃ found, replay.cursor = .ok found ∧
      (found.map Prod.fst).Perm ((visibleEntries disk).filterMap fileOf)) ?_ ?_
    · refine .bind hspool ?_
      rintro ⟨builder, budget⟩ ⟨placed, hbuilder, hplaced⟩
      refine hbuilder.finish.mono ?_
      rintro replay ⟨found, hcursor, hperm⟩
      exact ⟨found, hcursor, hplaced ▸ hperm.map _⟩
    · rintro replay ⟨found, hcursor, hperm⟩
      exact ensures_validateFiles hcursor hperm
  exact hall.run' h

end Streaming

theorem Opened.mono {s t : Disk} (h : Opened s) (hgrows : canonicalGrows.rel s t) : Opened t :=
  ⟨hgrows _ _ h.records, hgrows _ _ h.batches⟩

section

variable [Jiff] [Blake3] {store : Store} {s t : Disk} {a c : StoreSnapshot}

theorem manifests_nodup_of_scanVisible (h : scanVisible store s = .ok a) : (a.manifests.map BatchManifest.owner).Nodup := by
  obtain ⟨-, -, hscan⟩ := scanVisible_eq_ok.mp h
  rw [hscan.manifests_eq]
  exact validateGlobalIdempotency_eq_ok.mp hscan.idempotency

theorem mem_manifests_of_scanVisible (h : scanVisible store s = .ok a) {b : BatchManifest} :
    b ∈ a.manifests ↔ ∃ e ∈ visibleEntries s, ∃ file, fileOf e = some file ∧ manifestOf store.registry file = some b := by
  obtain ⟨-, -, hscan⟩ := scanVisible_eq_ok.mp h
  rw [hscan.manifests_eq, manifestsOf, (List.perm_insertionSort _ _).mem_iff, List.mem_filterMap]
  constructor
  · rintro ⟨file, hfile, hb⟩
    obtain ⟨e, he, hfile⟩ := List.mem_filterMap.mp ((sortFiles_perm _).mem_iff.mp hfile)
    exact ⟨e, he, file, hfile, hb⟩
  · rintro ⟨e, he, file, hfile, hb⟩
    exact ⟨file, (sortFiles_perm _).mem_iff.mpr (List.mem_filterMap.mpr ⟨e, he, hfile⟩), hb⟩

/-- A batch that was visible once is one of the manifests of every later valid state. -/
theorem manifest_persists (hgrows : canonicalGrows.rel s t) (ha : scanVisible store s = .ok a)
    (hc : scanVisible store t = .ok c) {b : BatchManifest} (hb : b ∈ a.manifests) : b ∈ c.manifests := by
  obtain ⟨e, he, file, hfile, hmanifest⟩ := (mem_manifests_of_scanVisible ha).mp hb
  obtain ⟨hget, hreached⟩ := mem_visibleEntries.mp he
  exact (mem_manifests_of_scanVisible hc).mpr
    ⟨e, mem_visibleEntries.mpr ⟨hgrows _ _ hget, hreached⟩, file, hfile, hmanifest⟩

/-- A batch for the owner of a visible one is not published, and the decision names the visible one. -/
theorem previewFromSnapshot_owned (hc : scanVisible store t = .ok c) {b : BatchManifest} (hb : b ∈ c.manifests)
    {prepared : PreparedBatch} (howner : prepared.manifest.owner = b.owner) (expected : StoreRevisionRef) (disk : Disk) :
    previewFromSnapshot store c prepared expected disk =
      if c.revision ≠ expected then .error (.revisionMismatch expected c.revision)
      else if b.requestDigest = prepared.manifest.requestDigest then .ok (.replay b.batchId c.revision)
      else .error (.batch (.idempotencyRequestMismatch b.batchId)) := by
  have howners : ownersOf c.manifests prepared.manifest.owner = [b] := by
    rw [howner]
    exact ownersOf_eq (manifests_nodup_of_scanVisible hc) hb
  rw [previewFromSnapshot, classifyPrepared_eq, howners, decideOwners]
  by_cases hrevision : c.revision ≠ expected
  · rw [if_pos hrevision, if_pos hrevision]
    rfl
  · rw [if_neg hrevision, if_neg hrevision]
    by_cases hrequest : b.requestDigest = prepared.manifest.requestDigest
    · rw [if_pos hrequest, if_pos hrequest]
      rfl
    · rw [if_neg hrequest, if_neg hrequest]
      rfl

/-- A batch whose files all stand there is one of the manifests. -/
theorem mem_manifests_of_published {prepared : PreparedBatch} (hwf : prepared.WellFormed) (hnodup : (prepared.files.map RawFile.path).Nodup)
    (hpublished : Published prepared s t) (hc : scanVisible store t = .ok c) : prepared.manifest ∈ c.manifests := by
  have hmem : (prepared.manifest.key, prepared.manifestBytes) ∈ presentIn (t .canonical) prepared.targets := by
    rw [hpublished.full]
    exact PreparedBatch.WellFormed.mem_targets.mpr (.inr rfl)
  have hget := ((hpublished.published.mem_present (addable_targets hwf hnodup)).mp hmem).2
  have hentry : (prepared.manifest.key, Entry.regular prepared.manifestBytes) ∈ visibleEntries t :=
    mem_visibleEntries.mpr ⟨hget, isReached_manifestKey prepared.manifest⟩
  obtain ⟨-, -, hscan⟩ := scanVisible_eq_ok.mp hc
  have hfileOf : fileOf (prepared.manifest.key, .regular prepared.manifestBytes) =
      some ⟨asBytes prepared.manifest.canonicalPath, prepared.manifestBytes⟩ := by
    rw [fileOf, BatchManifest.relative_key]
  have hfile := (sortFiles_perm _).mem_iff.mpr (List.mem_filterMap.mpr ⟨_, hentry, hfileOf⟩)
  obtain ⟨stored, hstored, hdecode⟩ := decodes_manifest (hscan.decodes _ hfile)
  obtain rfl : stored = prepared.manifest :=
    encodeManifest_injective (encode_decodeBatchManifest hstored).1 hwf.encoded
  exact (mem_manifests_of_scanVisible hc).mpr ⟨_, hentry, _, hfileOf, by rw [manifestOf, hdecode]⟩

theorem owner_of_prepareBatch {prepared : PreparedBatch} {records : List Record} {key : String} {registry : DomainRegistry}
    (h : prepareBatch records key registry = .ok prepared) :
    prepared.manifest.owner = (prepared.manifest.actor, idempotencyDigest prepared.manifest.actor key) := by
  obtain ⟨first, -, -, hsealed⟩ := prepareBatch_eq_ok.mp h
  simp only [sealBatch, except_bind_eq_ok, pure_eq_ok] at hsealed
  obtain ⟨bytes, -, rfl⟩ := hsealed
  rfl

variable [ReadDir] [Url] {b : BatchManifest} {prepared : PreparedBatch} {expected : StoreRevisionRef}

/-- What an append for the owner of a visible batch comes to once its recovery has returned. -/
def replayOutcome (store : Store) (b : BatchManifest) (prepared : PreparedBatch) (expected : StoreRevisionRef)
    (disk : Disk) : Except StoreError CommitOutcome := do
  let snapshot ← scanVisible store disk
  requirePendingAllow.result disk
  if snapshot.revision ≠ expected then .error (.revisionMismatch expected snapshot.revision)
  else if b.requestDigest = prepared.manifest.requestDigest then .ok (.replay b.batchId snapshot.revision)
  else .error (.batch (.idempotencyRequestMismatch b.batchId))

/-- The append writes nothing but what its recovery does. -/
theorem append_owned (hgrows : canonicalGrows.rel s t) (ha : scanVisible store s = .ok a) (hb : b ∈ a.manifests)
    (howner : prepared.manifest.owner = b.owner) (expected : StoreRevisionRef) :
    (append store prepared expected).final t = (recoverWithoutSnapshot store).final t ∧
      (append store prepared expected).result t = ((recoverWithoutSnapshot store).result t >>= fun _ =>
        replayOutcome store b prepared expected ((recoverWithoutSnapshot store).final t)) := by
  have hwp : (append store prepared expected).wp (fun _ => True)
      (fun r u => u = (recoverWithoutSnapshot store).final t ∧
        ((recoverWithoutSnapshot store).result t >>= fun _ => replayOutcome store b prepared expected
          ((recoverWithoutSnapshot store).final t)) = .ok r)
      (fun e u => u = (recoverWithoutSnapshot store).final t ∧
        ((recoverWithoutSnapshot store).result t >>= fun _ => replayOutcome store b prepared expected
          ((recoverWithoutSnapshot store).final t)) = .error e) t := by
    rw [append, Program.wp_bind]
    refine ⟨fun _ _ => trivial, ?_⟩
    cases hrecover : (recoverWithoutSnapshot store).result t with
    | error e => exact ⟨rfl, rfl⟩
    | ok _ =>
      have hlater : canonicalGrows.rel s ((recoverWithoutSnapshot store).final t) :=
        canonicalGrows.trans hgrows (keeps_recoverWithoutSnapshot.final t)
      generalize (recoverWithoutSnapshot store).final t = u at hlater
      change Program.wp _ _ (fun r v => v = u ∧ replayOutcome store b prepared expected u = .ok r)
        (fun e v => v = u ∧ replayOutcome store b prepared expected u = .error e) u
      rw [Program.wp_bind, Program.wp_reads]
      cases hscan : scanVisible store u with
      | error e =>
        refine ⟨rfl, ?_⟩
        rw [replayOutcome, hscan]
        rfl
      | ok c =>
        have hpreview := previewFromSnapshot_owned hscan (manifest_persists hlater ha hscan hb) howner expected u
        rw [replayOutcome, hscan]
        change Program.wp _ _ (fun r v => v = u ∧ (requirePendingAllow.result u >>= _) = .ok r)
          (fun e v => v = u ∧ (requirePendingAllow.result u >>= _) = .error e) u
        rw [Program.wp_bind, readOnly_requirePendingAllow.wp]
        cases requirePendingAllow.result u with
        | error e => exact ⟨rfl, rfl⟩
        | ok _ =>
          dsimp only
          rw [Program.wp_bind, Program.wp_reads, hpreview]
          by_cases hrevision : c.revision ≠ expected
          · simp only [if_pos hrevision]
            exact ⟨trivial, rfl⟩
          · simp only [if_neg hrevision]
            by_cases hrequest : b.requestDigest = prepared.manifest.requestDigest
            · simp only [if_pos hrequest]
              exact Program.wp_pure.mpr ⟨rfl, rfl⟩
            · simp only [if_neg hrequest]
              exact ⟨trivial, rfl⟩
  have hresult := hwp.2
  split at hresult
  · rename_i r hr
    exact ⟨hresult.1, hr.trans hresult.2.symm⟩
  · rename_i e he
    exact ⟨hresult.1, he.trans hresult.2.symm⟩

theorem recoverWithoutSnapshot_gone (h : (recoverWithoutSnapshot store).result s = .ok ()) :
    (recoverWithoutSnapshot store).final s .recovery = ∅ ∧ (recoverWithoutSnapshot store).final s .stages = ∅ := by
  have hwp : (recoverWithoutSnapshot store).wp (fun _ => True) (fun _ t => t .recovery = ∅ ∧ t .stages = ∅)
      (fun _ _ => True) s := by
    refine Program.wp_last fun _ _ => Program.wp_last fun gate t => Program.wp_guard.mpr ⟨fun _ => trivial, fun _ => ?_⟩
    exact wp_recoverLocked_gone t
  exact Program.post_of_wp hwp h

/-- What an append has published is a manifest of the valid state it leaves. -/
theorem published_manifest {registry : DomainRegistry} {records : List Record} {key : String} {id : BatchId}
    {revision : StoreRevisionRef} (hprepare : prepareBatch records key registry = .ok prepared) (hopen : Opened s)
    (h : (append store prepared expected).result s = .ok (.published id revision)) :
    id = prepared.manifest.batchId ∧
      ∃ c, scanVisible store ((append store prepared expected).final s) = .ok c ∧ prepared.manifest ∈ c.manifests := by
  have hwf := prepareBatch_wellFormed hprepare
  have hwp : (append store prepared expected).wp (fun _ => True)
      (fun r t => ∀ id revision, r = .published id revision → id = prepared.manifest.batchId ∧
        ∃ c, scanVisible store t = .ok c ∧ prepared.manifest ∈ c.manifests) (fun _ _ => True) s := by
    rw [append, Program.wp_bind]
    refine ⟨fun _ _ => trivial, ?_⟩
    split
    · rename_i hrecover
      obtain ⟨hrecovery, hstages⟩ := recoverWithoutSnapshot_gone hrecover
      have hgrows : canonicalGrows.rel s ((recoverWithoutSnapshot store).final s) :=
        keeps_recoverWithoutSnapshot.final s
      have hopen := hopen.mono hgrows
      rw [Program.wp_bind, Program.wp_reads]
      split
      · rename_i snapshot hscan
        rw [Program.wp_bind, readOnly_requirePendingAllow.wp]
        split
        · rw [Program.wp_bind, Program.wp_reads]
          split
          · rename_i preview hpreview
            cases preview with
            | replay batchId revision =>
              refine Program.wp_pure.mpr fun id revision h => ?_
              cases h
            | publish revision =>
              have hprev := previewed_of_publish hwf hscan hpreview
              obtain ⟨candidate, -, hcandidate⟩ := scans_of_publish hpreview
              dsimp only
              rw [Program.wp_bind, readOnly_requirePendingAllow.wp]
              split
              · rw [Program.wp_bind]
                refine Program.wp_mono (hprev.wp_stageBatch hrecovery hstages) (fun _ h => h) ?_ (fun _ _ h => h.elim)
                rintro _ t ⟨hjournaled, -⟩
                rw [Program.wp_bind]
                refine Program.wp_mono (hprev.wp_recoverOne hopen hjournaled) (fun _ _ => trivial) ?_
                  (fun _ _ h => h.elim)
                rintro _ u ⟨hu, -⟩
                have hcommitted := hprev.scanVisible_candidate hu.published hu.full hcandidate
                rw [Program.wp_bind, Program.wp_reads_ok hcommitted, Program.wp_pure]
                rintro id revision ⟨⟩
                exact ⟨rfl, candidate, hcommitted, mem_manifests_of_published hwf hwf.nodup_files hu hcommitted⟩
              · trivial
          · trivial
        · trivial
      · trivial
    · trivial
  exact Program.post_of_wp hwp h id revision rfl

/-- One owner for each batch in every valid state, and one batch for each owner over
the life of a store. -/
theorem appends_idempotent (store : Store) :
    (∀ s snapshot, scanVisible store s = .ok snapshot → (snapshot.manifests.map BatchManifest.owner).Nodup) ∧
    (∀ s state, validateVisible store s = .ok state →
      ((((visibleEntries s).filterMap fileOf).filterMap (manifestOf store.registry)).map BatchManifest.owner).Nodup) ∧
    (∀ files state, validateStreamed store files = .ok state →
      ((files.filterMap (manifestOf store.registry)).map BatchManifest.owner).Nodup) ∧
    (∀ s records key registry (published : PreparedBatch) expected id revision, Opened s →
      prepareBatch records key registry = .ok published →
      (append store published expected).result s = .ok (.published id revision) →
        published.manifest.batchId = id ∧ ∃ snapshot,
          scanVisible store ((append store published expected).final s) = .ok snapshot ∧
          published.manifest ∈ snapshot.manifests) ∧
    (∀ s t snapshot (b : BatchManifest) (prepared : PreparedBatch) expected, scanVisible store s = .ok snapshot →
      b ∈ snapshot.manifests → Relation.ReflTransGen (StoreStep store) s t → prepared.manifest.owner = b.owner →
        (append store prepared expected).final t = (recoverWithoutSnapshot store).final t ∧
        ∀ current, (recoverWithoutSnapshot store).result t = .ok () →
          scanVisible store ((recoverWithoutSnapshot store).final t) = .ok current →
          requirePendingAllow.result ((recoverWithoutSnapshot store).final t) = .ok () → current.revision = expected →
            b ∈ current.manifests ∧ (append store prepared expected).result t =
              if b.requestDigest = prepared.manifest.requestDigest then .ok (.replay b.batchId expected)
              else .error (.batch (.idempotencyRequestMismatch b.batchId))) ∧
    ∀ s snapshot records key registry prepared, scanVisible store s = .ok snapshot →
      prepareBatch records key registry = .ok prepared →
        classifyPrepared snapshot.manifests prepared =
          ((classifyIdempotency snapshot.manifests prepared.manifest.actor key prepared.manifest.requestDigest).map
            IdempotencyDecision.replayed).mapError .batch ∧
        ∀ batchIds, classifyIdempotency snapshot.manifests prepared.manifest.actor key prepared.manifest.requestDigest ≠
          .error (.duplicateIdempotencyOwnership batchIds) := by
  refine ⟨fun s snapshot => manifests_nodup_of_scanVisible, fun s state => owners_of_validateVisible,
    fun files state => owners_of_validateStreamed, ?_, ?_, ?_⟩
  · intro s records key registry published expected id revision hopen hprepare happend
    obtain ⟨rfl, hvisible⟩ := published_manifest hprepare hopen happend
    exact ⟨rfl, hvisible⟩
  · intro s t snapshot b prepared expected hscan hb hlater howner
    have hgrows : canonicalGrows.rel s t := by
      induction hlater with
      | refl => exact canonicalGrows.refl s
      | tail _ hstep ih => exact canonicalGrows.trans ih hstep.grows
    obtain ⟨hfinal, hresult⟩ := append_owned hgrows hscan hb howner expected
    refine ⟨hfinal, fun current hrecover hcurrent hallow hrevision => ⟨?_, ?_⟩⟩
    · exact manifest_persists (canonicalGrows.trans hgrows (keeps_recoverWithoutSnapshot.final t)) hscan hcurrent hb
    · rw [hresult, hrecover, ok_bind, replayOutcome, hcurrent, ok_bind, hallow, ok_bind, if_neg (not_not.mpr hrevision),
        hrevision]
  · intro s snapshot records key registry prepared hscan hprepare
    have hnodup := manifests_nodup_of_scanVisible hscan
    rw [classifyPrepared_eq, owner_of_prepareBatch hprepare, classifyIdempotency_eq]
    exact ⟨rfl, decideOwners_ne_duplicate hnodup _ _⟩

end

end Wayjournal
