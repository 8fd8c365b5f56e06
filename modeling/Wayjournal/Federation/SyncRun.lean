import Wayjournal.Federation.StartSteps

namespace Wayjournal

open Collections Crash Fs FileSystem Relation Text

section Leftover

variable [Url]

theorem error_of_requireCheckpointAuthority {checkpoint : AdmissionCheckpoint} {request : GitSyncRequest} {error : GitSyncError}
    (h : requireCheckpointAuthority checkpoint request = .error error) : error ≠ .advanceRequired := by
  rintro rfl
  unfold requireCheckpointAuthority at h
  by_cases htrust : checkpoint.localTrustBinding ≠ request.localTrust
  · rw [if_pos htrust] at h
    cases h
  · rw [if_neg htrust] at h
    by_cases hlocator : checkpoint.approvedRemote.locator ≠ request.approvedRemote.locator
    · rw [if_pos hlocator] at h
      cases h
    · rw [if_neg hlocator] at h
      split at h
      · cases h
      · cases h

/-- The slots a success may leave: those beside an operation that was already stale when it was found. -/
def PendingDiscovery.leftover (found : PendingDiscovery) : List Name :=
  match found.active with
  | some active =>
    if active.document.phase = .remoteCasStale then found.predecessor.toList.map fun slot => slot.name.name else []
  | none => []

theorem leftover_of_stale {found : PendingDiscovery} {active : DurablePending} (hactive : found.active = some active)
    (hstale : active.document.phase = .remoteCasStale) :
    found.leftover = found.predecessor.toList.map fun slot => slot.name.name := by
  rw [PendingDiscovery.leftover, hactive]
  exact if_pos hstale

variable [ReadDir] {left : List Name}

/-- What a synchronization may leave of the slots that stand in its way. -/
def MayLeave (left : List Name) (disk : Disk) : Prop := ∀ found, discover.result disk = .ok found → found.leftover ⊆ left

theorem MayLeave.of_area {s t : Disk} (h : MayLeave left s) (harea : t .syncPending = s .syncPending) : MayLeave left t :=
  fun found hfound => h found ((sees_discover.result_eq (show Disk.view .syncPending t = Disk.view .syncPending s from harea)) ▸
    hfound)

end Leftover

theorem rounds_lt_of_successor {phase next : GitSyncPendingPhase} (h : next ∈ phase.successors) :
    next.rounds < phase.rounds := by
  revert h
  cases phase <;> cases next <;> decide

section

variable [Url] [Jiff] [Blake3] [ReadDir] {γ : Type} {store : Store} {request : GitSyncRequest} {left : List Name}

theorem leads_requireNoIncident {A : Disk → Prop} :
    Leads store request left A (requireNoIncident request : SyncM γ Unit) fun _ => A := by
  refine .bind (.look (fun _ h => by cases h) readOnly_active) fun incident => ?_
  cases incident with
  | some incident => exact .never (.outcome fun s hs => ⟨incident, hs.1, rfl, rfl⟩)
  | none =>
    exact .mono (.look (fun _ h => by cases h) readOnly_ensureCapacity) (fun _ hs => hs.2) fun _ _ hs => hs.2

theorem leads_approvedCheckpoint :
    Leads store request left (MayLeave left) (approvedCheckpoint request : SyncM γ _) fun _ => MayLeave left := by
  have hread : Leads store request left (MayLeave left) (SyncM.checkpoint readCheckpoint : SyncM γ _)
      fun _ => MayLeave left := by
    refine .onDisk (fun _ h => by cases h) fun s hs => Program.wp_mono (Program.wp_and (keeps_readCheckpoint.wp s)
      (onlyAreas_readCheckpoint.wp s)) (fun t ht => follows_of_apart ht.1) ?_ fun _ _ _ => trivial
    exact fun _ t ht => hs.of_area (ht.2 .syncPending (by decide))
  refine .bind hread fun checkpoint => ?_
  cases checkpoint with
  | none => exact .failed fun h => by cases h
  | some checkpoint =>
    dsimp only
    split
    · exact .pure fun _ hs => hs
    · exact .failed (error_of_requireCheckpointAuthority ‹_›)

end

section

variable [Url] [Jiff] [Blake3] [ReadDir] {γ : Type} [Git γ] {store : Store} {request : GitSyncRequest} {left : List Name}
  {draws next : Draws} {checkpoint : AdmissionCheckpoint} {pending : DurablePending} {others rest : List Name}
  {predecessor : Option DurablePending} {recover : AdmissionCheckpoint → DurablePending → SyncM γ GitSyncOutcome}

/-- How a successor is recovered: it starts prepared, and never returns but with an outcome. -/
def Recovers (store : Store) (request : GitSyncRequest) (left others : List Name)
    (recover : AdmissionCheckpoint → DurablePending → SyncM γ GitSyncOutcome) : Prop :=
  ∀ checkpoint successor, successor.document.phase = .prepared →
    Leads store request left (Underway successor others) (recover checkpoint successor) fun _ _ => False

theorem leads_remoteCasStale (hrecover : Recovers store request left others recover) :
    Leads store request left (CandidateReached store pending others)
      (remoteCasStale store request draws pending recover : SyncM γ DurablePending) fun _ _ => False := by
  refine .bind (leads_visible.post fun _ _ hs => hs.2) fun current => ?_
  have hstart : Leads store request left (CandidateReached store pending others)
      (startSyncOperation store request draws pending.document.originalCheckpoint pending.document.candidateCheckpoint
        current (some pending) : SyncM γ DurablePending)
      fun successor s => successor.document.phase = .prepared ∧ Underway successor others s :=
    leads_startSyncOperation.pre fun s hs => ⟨hs.slots, fun slot hslot => by
      cases hslot
      exact hs.slot⟩
  exact .bind hstart fun successor => .pull fun hphase => .never (hrecover _ _ hphase)

/-- What the way an operation was found says of the slots that may be left. -/
structure Leaves (left others : List Name) (pending : DurablePending) (predecessor : Option DurablePending)
    (rest : List Name) : Prop where
  held : ∀ slot ∈ predecessor, slot.directory = Store.syncPendingDir.child slot.name.name
  others_eq : others = predecessor.toList.map (fun slot => slot.name.name) ++ rest
  rest_subset : rest ⊆ left
  stale : pending.document.phase = .remoteCasStale → others ⊆ left

section Phases

variable {repository : SyncRepository} {base : ValidatedStoreState}
  (hremote : pending.document.approvedRemote = request.approvedRemote)
  (hbare : repository.bare = pending.directory.child .repoGit) (hleaves : Leaves left others pending predecessor rest)
  (hrecover : pending.document.phase = .remoteCasStale → Recovers store request left others recover)

include hremote hbare hleaves hrecover

theorem leads_advancePhase :
    Leads store request left (CandidateReached store pending others)
      (advancePhase store request draws repository pending recover predecessor : SyncM γ DurablePending)
      (NextPhase store pending others) := by
  unfold advancePhase
  split
  · exact leads_prepared ‹_›
  · exact leads_filesPublished ‹_›
  · exact leads_localRefPublished ‹_›
  · exact leads_checkpointPublished ‹_› hremote hbare
  · exact (leads_remoteCasStale (hrecover ‹_›)).post fun _ _ hs => hs.elim
  · exact (leads_remoteCasConfirmed hleaves.held hleaves.others_eq hleaves.rest_subset).post fun _ _ hs => hs.elim

end Phases

/-- As many rounds as the phase needs are enough: the loop only ends with an outcome or an error. -/
theorem leads_recoverPhases {repository : SyncRepository} {base : ValidatedStoreState} (rounds : Nat)
    (checkpoint : AdmissionCheckpoint) (pending : DurablePending) (hrounds : pending.document.phase.rounds ≤ rounds)
    (hremote : pending.document.approvedRemote = request.approvedRemote)
    (hbare : repository.bare = pending.directory.child .repoGit) (hleaves : Leaves left others pending predecessor rest)
    (hrecover : pending.document.phase = .remoteCasStale → Recovers store request left others recover) :
    Leads store request left (Underway pending others)
      (recoverPhases store request draws recover repository base predecessor rounds checkpoint pending : SyncM γ _)
      fun _ _ => False := by
  induction rounds generalizing checkpoint pending with
  | zero =>
    exfalso
    cases hphase : pending.document.phase <;> simp [hphase, GitSyncPendingPhase.rounds] at hrounds
  | succ rounds ih =>
    refine .bind leads_reachCandidate fun _ => ?_
    refine .bind (leads_advancePhase hremote hbare hleaves hrecover) fun next => .pull ?_
    rintro ⟨phase, stale, rfl, hsuccessor, hstale⟩
    have hlt := rounds_lt_of_successor hsuccessor
    refine .pre (ih _ (pending.advanced phase stale) ?_ hremote hbare ?_ ?_) fun s hs => hs.toUnderway
    · exact Nat.le_of_lt_succ (Nat.lt_of_lt_of_le hlt hrounds)
    · exact ⟨hleaves.held, hleaves.others_eq, hleaves.rest_subset, fun h => absurd h hstale⟩
    · exact fun h => absurd h hstale

theorem leads_recoverWith (hleaves : Leaves left others pending predecessor rest)
    (hrecover : pending.document.phase = .remoteCasStale → Recovers store request left others recover) :
    Leads store request left (Underway pending others)
      (recoverWith store request draws recover predecessor checkpoint pending : SyncM γ _) fun _ _ => False := by
  refine .bind leads_requireOwnOperation fun _ => .pull fun hremote => ?_
  have hslot : pending.directory = Store.syncPendingDir.child pending.name.name →
      Leads store request left (Underway pending others) (do
        SyncM.pending (validateClosedLayout pending)
        let repository ← orUnsafe (openSyncRepository pending.directory pending.document.objectFormat)
          (quarantinePublication request draws checkpoint pending .unsafeRepositoryState)
        let base ← verifyCommits store request draws checkpoint pending repository
        verifyAdditions request draws checkpoint pending repository
        recoverPhases store request draws recover repository base predecessor pending.document.phase.rounds checkpoint
          pending : SyncM γ _) fun _ _ => False := by
    intro hd
    refine .bind (.post (.keeps (fun _ h => by cases h) (keeps_validateClosedLayout hd) stable_underway) fun _ _ hs => hs.2)
      fun _ => ?_
    refine .bind (.orUnsafe (keeps_openSyncRepository _) stable_underway (.quarantinePublication stable_underway))
      fun repository => .pull fun ⟨w, hopened⟩ => ?_
    have hbare := bare_of_openSyncRepository hopened
    have hplace := allowed_place hd hbare
    refine .bind (leads_verifyCommits hplace stable_underway) fun base => ?_
    refine .bind (leads_verifyAdditions hplace stable_underway) fun _ => ?_
    exact leads_recoverPhases _ _ _ le_rfl hremote hbare hleaves hrecover
  exact (Leads.pull hslot).pre fun s hs => ⟨hs.slot.1, hs⟩

theorem recovers_recoverSuccessor (hothers : others ⊆ left) :
    Recovers store request left others (recoverSuccessor (γ := γ) store request draws) := by
  intro checkpoint successor hphase
  have hleaves : Leaves left others successor none others :=
    ⟨fun slot hslot => (by cases hslot), rfl, hothers, fun _ => hothers⟩
  refine leads_recoverWith hleaves fun hstale => ?_
  rw [hphase] at hstale
  cases hstale

theorem leads_recoverSyncOperation (hleaves : Leaves left others pending predecessor rest) :
    Leads store request left (Underway pending others)
      (recoverSyncOperation store request draws next predecessor checkpoint pending : SyncM γ _) fun _ _ => False :=
  leads_recoverWith hleaves fun hstale => recovers_recoverSuccessor (hleaves.stale hstale)

/-- An operation that was found is recovered beside its predecessor alone. -/
theorem leads_found {found : PendingDiscovery} {active : DurablePending} (hactive : found.active = some active)
    (hleft : found.leftover ⊆ left) :
    Leads store request left (fun s => discover.result s = .ok found) (do
      if ← SyncM.store hasTransactionResidue then throw (.failed (.store .conflictingRecoveryState))
      SyncM.pending (retireNamedDisposable found.disposable active.document.predecessorOperationId)
      recoverSyncOperation store request draws next found.predecessor checkpoint active : SyncM γ _) fun _ _ => False := by
  refine .bind (.post (.look (fun _ h => by cases h) (.reads _)) fun _ _ hs => hs.2) fun residue => ?_
  refine .ite (fun _ => .never (.failed fun h => by cases h)) fun _ => ?_
  have hrest : ((∀ slot ∈ found.disposable, slot.2 = Store.syncPendingDir.child slot.1.name ∧ slot.1.name ≠ active.name.name) ∧
      ∀ slot ∈ found.predecessor, slot.directory = Store.syncPendingDir.child slot.name.name) →
      Leads store request left (fun s => HoldsSlot active s ∧ SlotsWithin (found.disposable.map (fun slot => slot.1.name) ++
        active.name.name :: found.predecessor.toList.map fun slot => slot.name.name) s) (do
        SyncM.pending (retireNamedDisposable found.disposable active.document.predecessorOperationId)
        recoverSyncOperation store request draws next found.predecessor checkpoint active : SyncM γ _) fun _ _ => False := by
    rintro ⟨hdisposable, hpredecessor⟩
    refine .bind (B := fun _ => Underway active (found.predecessor.toList.map fun slot => slot.name.name)) ?_ fun _ => ?_
    · have hkeeps : (retireNamedDisposable found.disposable active.document.predecessorOperationId).Keeps
          (retiring fun raw => raw ≠ active.name.name) := keeps_retireNamedDisposable hdisposable
      refine .onDisk (fun _ h => by cases h) fun s hs => Program.wp_mono (Program.wp_and (hkeeps.wp s)
        (wp_retireNamedDisposable_slots (fun slot hslot => (hdisposable slot hslot).1) hs.2))
        (fun t ht => follows_of_retiring ht.1) ?_ fun _ _ _ => trivial
      rintro _ t ⟨hretiring, hslots⟩
      exact ⟨hs.1.congr ((documentEntry_of_retiring hretiring _).resolve_right fun h => h.1 rfl), hslots⟩
    · have hleaves : Leaves left (found.predecessor.toList.map fun slot => slot.name.name) active found.predecessor [] := by
        refine ⟨hpredecessor, (List.append_nil _).symm, List.nil_subset _, fun hstale => ?_⟩
        rwa [leftover_of_stale hactive hstale] at hleft
      exact leads_recoverSyncOperation hleaves
  refine (Leads.pull hrest).pre fun s hs => ?_
  obtain ⟨hwithin, hheld, hpredecessor, hdisposable⟩ := discover_slots hs
  have hslot := hheld active hactive
  refine ⟨⟨fun slot hmem => ⟨(hdisposable slot hmem).1, fun heq => ?_⟩, fun slot hmem => (hpredecessor slot hmem).1⟩, hslot,
    fun n hn => ?_⟩
  · obtain ⟨bytes, hentry, -⟩ := hslot.2
    have hnone := (hdisposable slot hmem).2
    rw [heq, hentry] at hnone
    cases hnone
  · have hmem := hwithin n hn
    rw [PendingDiscovery.names, hactive] at hmem
    simp only [Option.toList_some, List.map_cons, List.map_nil, List.cons_append, List.mem_cons,
      List.mem_append] at hmem ⊢
    obtain heq | (hnil | hmem) | hmem := hmem
    · exact .inr (.inl heq)
    · cases hnil
    · exact .inr (.inr hmem)
    · exact .inl hmem

/-- Where nothing was found the slots are cleaned and an operation is started. -/
theorem leads_started :
    Leads store request left (MayLeave left) (do
      SyncM.store cleanDisposableLocked
      SyncM.store (recoverLocked store)
      let current ← SyncM.store (.reads (validateVisible store))
      let active ← startSyncOperation store request draws checkpoint checkpoint current none
      recoverSyncOperation store request draws next none checkpoint active : SyncM γ _) fun _ _ => False := by
  have hclean : Leads store request left (MayLeave left) (SyncM.store cleanDisposableLocked : SyncM γ Unit)
      fun _ => SlotsWithin [] := by
    refine .onDisk (fun _ h => by cases h) fun s _ => Program.wp_mono (Program.wp_and (keeps_retiring_cleanDisposableLocked.wp s)
      wp_cleanDisposableLocked_slots) (fun t ht => follows_of_retiring ht.1) (fun _ t ht => ht.2) fun _ _ _ => trivial
  have hbatches : Leads store request left (SlotsWithin []) (SyncM.store (recoverLocked store) : SyncM γ Unit)
      fun _ => SlotsWithin [] := by
    refine .onDisk (fun _ h => by cases h) fun s hs => Program.wp_mono (Program.wp_and (keeps_recoverLocked.wp s)
      (onlyAreas_recoverLocked.wp s)) (fun t ht => follows_of_files ht.1 ht.2) ?_ fun _ _ _ => trivial
    exact fun _ t ht => hs.congr fun n => .inl (by rw [ht.2 .syncPending (by decide)])
  refine .bind hclean fun _ => .bind hbatches fun _ => .bind (leads_visible.post fun _ _ hs => hs.2) fun current => ?_
  have hstart : Leads store request left (SlotsWithin []) (startSyncOperation store request draws checkpoint checkpoint current
      none : SyncM γ _) fun pending s => pending.document.phase = .prepared ∧ Underway pending [] s :=
    leads_startSyncOperation.pre fun s hs => ⟨hs, fun slot hslot => by cases hslot⟩
  refine .bind hstart fun active => .pull fun hphase => ?_
  have hleaves : Leaves left [] active none [] :=
    ⟨fun slot hslot => (by cases hslot), rfl, List.nil_subset _, fun _ => List.nil_subset _⟩
  exact leads_recoverSyncOperation hleaves

theorem leads_synchronize {authorized : Option AdmissionCheckpoint} :
    Leads store request left (MayLeave left) (synchronize store request draws next authorized : SyncM γ GitSyncOutcome)
      fun _ _ => False := by
  refine .bind leads_requireNoIncident fun _ => ?_
  cases authorized
  case' none => refine .bind leads_approvedCheckpoint fun checkpoint => ?_
  case' some => refine .bind (B := fun _ => MayLeave left) (.pure fun _ hs => hs) fun checkpoint => ?_
  all_goals
    refine .bind (.look (fun _ h => by cases h) readOnly_discover) fun found => ?_
    cases hactive : found.active with
    | none => exact leads_started.pre fun _ hs => hs.2
    | some active =>
      exact (Leads.pull fun hleft => leads_found hactive hleft).pre fun s hs => ⟨hs.2 found hs.1, hs.1⟩

end

end Wayjournal
