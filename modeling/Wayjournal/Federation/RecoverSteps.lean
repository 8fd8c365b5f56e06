import Wayjournal.Federation.PhaseLaws

namespace Wayjournal

open Collections Crash Fs FileSystem Relation Text

section

variable [Url] [Jiff] [Blake3] [ReadDir] {γ : Type} {store : Store} {request : GitSyncRequest} {left : List Name}
  {draws : Draws} {checkpoint : AdmissionCheckpoint} {pending : DurablePending} {others : List Name}
  {repository : SyncRepository}

section Surfaces

theorem leads_publish {A B : Disk → Prop} (hB : ∀ s t, A s → (onlyAreas batchAreas).rel s t → B t) :
    Leads store request left A (Program.attempt (onDisk (publishAdditions pending)) : SyncM γ (Except PendingError Unit))
      fun _ => B := by
  refine (Leads.attemptDisk (B := fun _ => B) (F := fun _ => B) fun s hs => ?_).post fun result s hs => ?_
  · exact Program.wp_mono wp_publishAdditions_follows (fun _ ht => ht) (fun _ t ht => hB s t hs ht) fun _ t ht => hB s t hs ht
  · cases result with
    | ok => exact hs
    | error => exact hs

theorem leads_visible {A : Disk → Prop} :
    Leads store request left A (SyncM.store (.reads (validateVisible store)) : SyncM γ _)
      fun visible s => validateVisible store s = .ok visible ∧ A s :=
  .look (fun _ h => by cases h) (.reads _)

theorem leads_reachFiles {base : ValidatedStoreState} :
    Leads store request left (Underway pending others) (reachFiles store request draws base checkpoint pending : SyncM γ Unit)
      fun _ => FilesReached store pending others := by
  refine .bind leads_visible fun before => .ite (fun _ => ?_) fun _ => .ite (fun _ => ?_) fun hsame => ?_
  · refine .bind (leads_publish fun _ _ hs ht => hs.2.of_area (ht .syncPending (by decide))) fun result => ?_
    cases result with
    | error error => exact .quarantinePublication stable_underway
    | ok =>
      refine .bind leads_visible fun visible => .ite (fun _ => ?_) fun hsame => .pure fun s hs => ?_
      · exact .pre (.quarantinePublication stable_underway) fun _ hs => hs.2
      · exact ⟨hs.2, visible, hs.1, not_not.mp hsame⟩
  · exact .pre (.quarantinePublication stable_underway) fun _ hs => hs.2
  · exact .pure fun s hs => ⟨hs.2, before, hs.1, not_not.mp hsame⟩

theorem leads_reachCheckpoint :
    Leads store request left (FilesReached store pending others) (reachCheckpoint request draws checkpoint pending : SyncM γ Unit)
      fun _ => CandidateReached store pending others := by
  refine .bind (.keeps (fun _ h => by cases h) keeps_readCheckpoint stable_filesReached) fun durable => ?_
  cases durable with
  | none => exact .failed fun h => by cases h
  | some durable =>
    refine .ite (fun _ => ?_) fun _ => .ite (fun _ => ?_) fun hsame => .pure ?_
    · exact .onDisk (fun _ h => by cases h) fun s hs => wp_replaceExpected_follows hs.2
    · exact .pre (.quarantinePublication stable_filesReached) fun _ hs => hs.2
    · rintro _ ⟨⟨t, hread, rfl⟩, hreached⟩
      exact ⟨hreached, not_not.mp hsame ▸ accepts_of_readCheckpoint hread⟩

variable [Git γ]

theorem leads_reachLocalRef {A : Disk → Prop} (hA : Stable A) :
    Leads store request left A (reachLocalRef request draws repository checkpoint pending : SyncM γ Unit) fun _ => A := by
  refine .bind (.git (keeps_inspectLocal _) hA) fun localRepository => .guard (fun _ => .quarantinePublication hA) fun _ => ?_
  exact .git (keeps_advanceLocalRef _ _ _ _ _) hA

/-- After the three surfaces the candidate is published everywhere but at the remote. -/
theorem leads_reachCandidate {base : ValidatedStoreState} :
    Leads store request left (Underway pending others)
      (reachCandidate store request draws repository base checkpoint pending : SyncM γ Unit)
      fun _ => CandidateReached store pending others :=
  .bind leads_reachFiles fun _ => .bind (leads_reachLocalRef stable_filesReached) fun _ => leads_reachCheckpoint

end Surfaces

section Phases

/-- What a phase leaves to the next one. -/
def NextPhase (store : Store) (pending : DurablePending) (others : List Name) (next : DurablePending) (disk : Disk) : Prop :=
  (∃ phase stale, next = pending.advanced phase stale ∧ phase ∈ pending.document.phase.successors ∧ phase ≠ .remoteCasStale) ∧
    CandidateReached store next others disk

theorem leads_replacePhase {phase : GitSyncPendingPhase} (stale : Option GitOid)
    (hphase : phase ∈ pending.document.phase.successors) :
    Leads store request left (CandidateReached store pending others)
      (replacePhase draws pending (pending.document.advance phase stale) : SyncM γ DurablePending)
      fun next s => next = pending.advanced phase stale ∧ CandidateReached store next others s :=
  .onDisk (fun _ h => by cases h) fun _ hs => wp_replaceDocument_follows hs hphase

theorem leads_nextPhase {phase : GitSyncPendingPhase} (hphase : phase ∈ pending.document.phase.successors)
    (hstale : phase ≠ .remoteCasStale) :
    Leads store request left (CandidateReached store pending others)
      (replacePhase draws pending (pending.document.inPhase phase) : SyncM γ DurablePending) (NextPhase store pending others) :=
  (leads_replacePhase pending.document.staleRemoteOid hphase).post fun _ _ hs =>
    ⟨⟨_, _, hs.1, hphase, hstale⟩, hs.2⟩

omit [ReadDir] in
/-- What is left of a published candidate while its files are written again. -/
theorem accepts_of_files {s t : Disk} (h : CandidateReached store pending others s) (hst : (onlyAreas batchAreas).rel s t) :
    Underway pending others t ∧ t.Accepts pending.document.candidateCheckpoint :=
  ⟨h.toUnderway.of_area (hst .syncPending (by decide)),
    accepts_congr (checkpointEntry_of_area (hst .checkpoints (by decide))) h.accepts⟩

theorem leads_prepared (hphase : pending.document.phase = .prepared) :
    Leads store request left (CandidateReached store pending others) (prepared store request draws pending : SyncM γ _)
      (NextPhase store pending others) := by
  have hstable : Stable fun s => Underway pending others s ∧ s.Accepts pending.document.candidateCheckpoint :=
    fun s t hapart h => ⟨h.1.of_apart hapart, accepts_congr (checkpointEntry_of_preserving (surface_of_apart hapart)) h.2⟩
  refine .bind (leads_publish fun _ _ => accepts_of_files) fun result => ?_
  cases result with
  | error error => exact .quarantinePublication hstable
  | ok =>
    refine .bind leads_visible fun visible => .guard (fun _ => ?_) fun hsame => ?_
    · exact .pre (.quarantinePublication hstable) fun _ hs => hs.2
    · refine .pre (leads_nextPhase ?_ (by decide)) fun s hs => ⟨⟨hs.2.1, visible, hs.1, not_not.mp hsame⟩, hs.2.2⟩
      rw [hphase]
      decide

theorem leads_localRefPublished (hphase : pending.document.phase = .localRefPublished) :
    Leads store request left (CandidateReached store pending others) (localRefPublished draws pending : SyncM γ _)
      (NextPhase store pending others) := by
  refine .bind (.onDisk (fun _ h => by cases h) fun _ hs => wp_replaceExpected_follows hs.toFilesReached) fun _ => ?_
  refine leads_nextPhase ?_ (by decide)
  rw [hphase]
  decide

/-- The pushed candidate stands at the remote, or the operation is stale, or it has to be tried again. -/
theorem leads_settlePush (hphase : pending.document.phase = .checkpointPublished) {pushed : Bool} {observed : Option GitOid} :
    Leads store request left (CandidateReached store pending others)
      (settlePush request draws pending pushed observed : SyncM γ _) (NextPhase store pending others) := by
  have hnext : .remoteCasConfirmed ∈ pending.document.phase.successors ∧
      .remoteCasStale ∈ pending.document.phase.successors := by
    rw [hphase]
    decide
  cases observed with
  | none => exact .quarantinePublication stable_candidateReached
  | some observed =>
    refine .ite (fun _ => leads_nextPhase hnext.1 (by decide)) fun _ => .ite (fun _ => .failed fun h => by cases h) fun _ => ?_
    refine .bind (leads_replacePhase (some observed) hnext.2) fun next => .outcome ?_
    rintro s ⟨rfl, hreached⟩
    exact ⟨_, _, hreached.slot.2, rfl, rfl, rfl, hreached.shows, hreached.accepts⟩

section Retirement

variable {s t : Disk} {names : List Name}

/-- The candidate is published and these slots are left. -/
structure Settled (store : Store) (pending : DurablePending) (names : List Name) (disk : Disk) : Prop where
  shows : disk.Shows store pending.document.candidateRevision
  accepts : disk.Accepts pending.document.candidateCheckpoint
  slots : SlotsWithin names disk

omit [ReadDir] in
theorem Settled.retired {raw : Name} (h : Settled store pending (raw :: names) s)
    (hst : (retiring fun other => other = raw).rel s t) (hgone : (t .syncPending).get? [raw] = none) :
    Settled store pending names t :=
  ⟨shows_congr (canonical_of_retiring hst) h.shows, accepts_congr (checkpointEntry_of_retiring hst) h.accepts,
    (h.slots.congr (slotRoot_of_retiring hst)).removed hgone⟩

theorem wp_retireOperation_follows (hd : pending.directory = Store.syncPendingDir.child pending.name.name) :
    (retireOperation pending).wp (Follows store s) (fun _ t => (retiring fun raw => raw = pending.name.name).rel s t ∧
      (t .syncPending).get? [pending.name.name] = none) (fun _ _ => True) s := by
  have hkeeps : (retireOperation pending).Keeps (retiring fun raw => raw = pending.name.name) :=
    keeps_retireOperation hd rfl
  have hroot : (retireOperation pending).wp (fun _ => True) (fun _ t => (t .syncPending).get? [pending.name.name] = none)
      (fun _ _ => True) s := Program.wp_of_result fun _ h => slotRoot_of_retireOperation h
  refine Program.wp_mono (Program.wp_and (hkeeps.wp s) hroot) ?_ (fun _ _ ht => ht) fun _ _ _ => trivial
  exact fun _ ht => follows_of_retiring ht.1

theorem leads_retire {slot : DurablePending} (hd : slot.directory = Store.syncPendingDir.child slot.name.name) :
    Leads store request left (Settled store pending (slot.name.name :: names))
      (SyncM.pending (retireOperation slot) : SyncM γ Unit) fun _ => Settled store pending names :=
  .onDisk (fun _ h => by cases h) fun _ hs => Program.wp_mono (wp_retireOperation_follows hd) (fun _ ht => ht)
    (fun _ _ ht => hs.retired ht.1 ht.2) fun _ _ _ => trivial

end Retirement

variable [Git γ]

theorem leads_filesPublished (hphase : pending.document.phase = .filesPublished) :
    Leads store request left (CandidateReached store pending others)
      (filesPublished request draws repository pending : SyncM γ _) (NextPhase store pending others) := by
  refine .bind (.git (keeps_inspectLocal _) stable_candidateReached) fun localRepository => ?_
  refine .bind (.git (keeps_advanceLocalRef _ _ _ _ _) stable_candidateReached) fun _ => leads_nextPhase ?_ (by decide)
  rw [hphase]
  decide

/-- A push runs where the operation is published everywhere else. -/
theorem leads_push (hphase : pending.document.phase = .checkpointPublished)
    (hremote : pending.document.approvedRemote = request.approvedRemote)
    (hbare : repository.bare = pending.directory.child .repoGit) :
    Leads store request left (CandidateReached store pending others)
      (SyncM.git (pushCandidateExactLease request repository pending.document.expectedRemoteTip) : SyncM γ _)
      fun _ => CandidateReached store pending others := by
  have hgit : ∀ {ε : Type}, (runGit ⟨repository.place, .push request.approvedRemote.locator.asStr
      request.approvedRemote.reference.asStr pending.document.expectedRemoteTip⟩ : Program (World γ) ε GitOutcome).Triple
      (protocol store) (Still (CandidateReached store pending others)) (fun _ => Still (CandidateReached store pending others))
      fun _ => Still (CandidateReached store pending others) := by
    intro ε w hw
    have hstarted : Ready store ({ w with running := some ⟨repository.place, .push request.approvedRemote.locator.asStr
        request.approvedRemote.reference.asStr pending.document.expectedRemoteTip⟩ } : World γ) := by
      refine ⟨_, _, hw.2.slot.2, hphase, hw.2.shows, hw.2.accepts, ?_⟩
      rw [SyncRepository.place, hbare, hremote, ← hw.2.slot.1]
    have happart := allowed_place hw.2.slot.1 hbare _ _ (Git.confined (γ := γ) ⟨repository.place,
      .push request.approvedRemote.locator.asStr request.approvedRemote.reference.asStr
        pending.document.expectedRemoteTip⟩ w.disk w.git)
    have hended : ∀ v : World γ, v.running = none → ¬v.Pushing := by
      rintro v hnone ⟨command, hcommand, -⟩
      rw [hnone] at hcommand
      cases hcommand
    refine wp_runGit.mpr ⟨⟨⟨.refl _, fun _ => .inr hstarted⟩, follows_of_apart happart, ?_⟩, hended _ rfl, ?_⟩
    · exact fun hpush => absurd hpush (hended _ rfl)
    · exact hw.2.of_apart happart
  exact .mapError ((triple_gitSucceeds hgit).mono (fun _ hs => hs) (fun _ _ hs => hs) fun _ _ _ h => by cases h)

theorem leads_checkpointPublished (hphase : pending.document.phase = .checkpointPublished)
    (hremote : pending.document.approvedRemote = request.approvedRemote)
    (hbare : repository.bare = pending.directory.child .repoGit) :
    Leads store request left (CandidateReached store pending others)
      (checkpointPublished request draws repository pending : SyncM γ _) (NextPhase store pending others) :=
  .bind (leads_push hphase hremote hbare) fun _ =>
    .bind (.git (keeps_observeRemoteRef _ _) stable_candidateReached) fun _ => leads_settlePush hphase

/-- A confirmed operation is retired with its predecessor. -/
theorem leads_remoteCasConfirmed {predecessor : Option DurablePending} {rest : List Name}
    (hpredecessor : ∀ slot ∈ predecessor, slot.directory = Store.syncPendingDir.child slot.name.name)
    (hothers : others = predecessor.toList.map (fun slot => slot.name.name) ++ rest) (hrest : rest ⊆ left) :
    Leads store request left (CandidateReached store pending others)
      (remoteCasConfirmed store request draws pending predecessor : SyncM γ DurablePending) fun _ _ => False := by
  refine .bind (leads_visible.post fun _ _ hs => hs.2) fun visible => ?_
  refine .bind (.git (keeps_inspectLocal _) stable_candidateReached) fun localRepository => ?_
  refine .bind (.post (.keeps (fun _ h => by cases h) keeps_readCheckpoint stable_candidateReached) fun _ _ hs => hs.2)
    fun durable => ?_
  cases durable with
  | none => exact .failed fun h => by cases h
  | some durable =>
    refine .bind (.git (keeps_observeRemoteRef _ _) stable_candidateReached) fun remote => ?_
    refine .guard (fun _ => .quarantinePublication stable_candidateReached) fun _ => ?_
    refine .bind (.git keeps_removeInternalLocalCandidate stable_candidateReached) fun _ => ?_
    have hfinish : pending.directory = Store.syncPendingDir.child pending.name.name →
        Leads store request left (Settled store pending (pending.name.name :: rest)) (do
          SyncM.pending (retireOperation pending)
          throw (.outcome (
            if pending.document.candidateCommit = pending.document.advanceFromCommit &&
                pending.document.expectedRemoteTip = pending.document.candidateCommit then
              .upToDate pending.document.candidateCommit pending.document.candidateRevision
            else .advanced pending.document.candidateCommit pending.document.candidateRevision)) : SyncM γ DurablePending)
          fun _ _ => False := by
      refine fun hd => .bind (leads_retire hd) fun _ => .outcome fun s hs => ?_
      have htold : s.Shows store pending.document.candidateRevision ∧ SlotsWithin left s ∧ ∃ checkpoint,
          s.Accepts checkpoint ∧ checkpoint.acceptedCommit = pending.document.candidateCommit ∧
            checkpoint.acceptedRevision = pending.document.candidateRevision :=
        ⟨hs.shows, fun n hn => hrest (hs.slots n hn), _, hs.accepts, rfl, rfl⟩
      split
      · exact htold
      · exact htold
    subst hothers
    cases predecessor with
    | none => exact (Leads.pull hfinish).pre fun s hs => ⟨hs.slot.1, hs.shows, hs.accepts, hs.slots⟩
    | some predecessor =>
      refine (Leads.pull fun hd => .bind (leads_retire (hpredecessor _ rfl)) fun _ => hfinish hd).pre fun s hs =>
        ⟨hs.slot.1, hs.shows, hs.accepts, fun n hn => ?_⟩
      have hmem := hs.slots n hn
      simp only [Option.toList_some, List.map_cons, List.map_nil, List.singleton_append, List.mem_cons] at hmem ⊢
      exact or_left_comm.mp hmem

end Phases

end

end Wayjournal
