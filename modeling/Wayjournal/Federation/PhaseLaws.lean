import Wayjournal.Federation.VerifyLaws

namespace Wayjournal

open Collections Crash Fs FileSystem Relation Text

section States

variable [Url] {s t : Disk} {pending : DurablePending} {others : List Name}

/-- An operation has its slot, beside these others. -/
structure Underway (pending : DurablePending) (others : List Name) (disk : Disk) : Prop where
  slot : HoldsSlot pending disk
  slots : SlotsWithin (pending.name.name :: others) disk

theorem Underway.of_apart (h : Underway pending others s) (hapart : apart.rel s t) : Underway pending others t :=
  ⟨h.slot.of_apart hapart, h.slots.of_apart hapart⟩

theorem Underway.of_area (h : Underway pending others s) (harea : t .syncPending = s .syncPending) :
    Underway pending others t :=
  ⟨h.slot.congr (documentEntry_of_area harea _), fun n hn => h.slots n (harea ▸ hn)⟩

theorem stable_underway : Stable (Underway pending others) := fun _ _ hapart h => h.of_apart hapart

variable [Jiff] [Blake3] {store : Store}

/-- The visible files are those of its candidate. -/
structure FilesReached (store : Store) (pending : DurablePending) (others : List Name) (disk : Disk) : Prop
    extends Underway pending others disk where
  shows : disk.Shows store pending.document.candidateRevision

theorem FilesReached.of_apart (h : FilesReached store pending others s) (hapart : apart.rel s t) :
    FilesReached store pending others t :=
  ⟨h.toUnderway.of_apart hapart, shows_congr (canonical_of_preserving (surface_of_apart hapart)) h.shows⟩

theorem stable_filesReached : Stable (FilesReached store pending others) := fun _ _ hapart h => h.of_apart hapart

/-- And so is the checkpoint. -/
structure CandidateReached (store : Store) (pending : DurablePending) (others : List Name) (disk : Disk) : Prop
    extends FilesReached store pending others disk where
  accepts : disk.Accepts pending.document.candidateCheckpoint

theorem CandidateReached.of_apart (h : CandidateReached store pending others s) (hapart : apart.rel s t) :
    CandidateReached store pending others t :=
  ⟨h.toFilesReached.of_apart hapart,
    accepts_congr (checkpointEntry_of_preserving (surface_of_apart hapart)) h.accepts⟩

theorem stable_candidateReached : Stable (CandidateReached store pending others) := fun _ _ hapart h => h.of_apart hapart

end States

section Files

variable [Url] [Jiff] [Blake3] [ReadDir] {s : Disk} {store : Store}

/-- Publishing additions only adds canonical files. -/
theorem wp_publishAdditions_follows {pending : DurablePending} :
    (publishAdditions pending).wp (Follows store s) (fun _ t => (onlyAreas batchAreas).rel s t)
      (fun _ t => (onlyAreas batchAreas).rel s t) s := by
  refine Program.wp_mono (Program.wp_and (keeps_publishAdditions.wp s) (onlyAreas_publishAdditions.wp s)) ?_ ?_ ?_
  · exact fun t ht => follows_of_files ht.1 ht.2
  · exact fun _ t ht => ht.2
  · exact fun _ t ht => ht.2

end Files

section Checkpoint

variable {s t : Disk} {temporary : Uuid}

theorem onlyAreas_checkpoints {operation : String} {name : Name} {f : FileSystem Name → Except Errno (FileSystem Name)} :
    (Store.checkpointsDir.change operation name f).Keeps (onlyAreas [.checkpoints]) :=
  onlyAreas_of_forall fun _ harea => Directory.keeps_other fun heq => harea (List.mem_singleton.mpr heq.symm)

theorem onlyAreas_readCheckpoint [Url] [ReadDir] : readCheckpoint.Keeps (onlyAreas [.checkpoints]) := by
  have hresidue : recoverResidue.Keeps (onlyAreas [.checkpoints]) := by
    refine .bind (.readOnly (Directory.readOnly_boundedNames.mapError _)) fun names => ?_
    refine .bind (.readOnly (.foldlM readOnly_checkResidue _ _)) fun found => ?_
    cases found with
    | none => exact .pure _
    | some name => exact onlyAreas_checkpoints.mapError _
  refine .bind hresidue fun _ => .bind (.readOnly readOnly_openCheckpoint) fun file => ?_
  cases file with
  | none => exact .pure _
  | some bytes => exact .guard (.bind (.ofExcept _) fun _ => .pure _)

theorem onlyAreas_replaceExpected [Url] {expected candidate : AdmissionCheckpoint} :
    (replaceExpected expected candidate temporary).Keeps (onlyAreas [.checkpoints]) := by
  refine .bind (.ofExcept _) fun _ => .bind (.ofExcept _) fun _ => .bind (.readOnly readOnly_readCurrentBytes) fun current => ?_
  refine .ite (.bind (.ofExcept _) fun _ => .pure _) (.guard ?_)
  refine .bind (onlyAreas_checkpoints.mapError _) fun _ => .bind (onlyAreas_checkpoints.mapError _) fun _ => ?_
  refine .bind (.readOnly readOnly_readCurrentBytes) fun again => .ite (.bind (onlyAreas_checkpoints.mapError _) fun _ => .throwBind) ?_
  refine .bind (onlyAreas_checkpoints.mapError _) fun _ => .bind (.readOnly readOnly_readCurrentBytes) fun installed => .guard ?_
  exact .bind (.ofExcept _) fun _ => .ite (.throw _) (.pure _)

variable [Url] [Jiff] [Blake3] {store : Store} {pending : DurablePending} {others : List Name}

/-- The checkpoint of an operation is replaced after its files. -/
theorem follows_of_checkpoint (h : FilesReached store pending others s) (hareas : (onlyAreas [.checkpoints]).rel s t)
    (hbecomes : CheckpointBecomes pending.document.expectedCheckpoint pending.document.candidateCheckpoint s t) :
    Follows store s t ∧ FilesReached store pending others t := by
  have hcanonical : t .canonical = s .canonical := hareas .canonical (by decide)
  have hpending : t .syncPending = s .syncPending := hareas .syncPending (by decide)
  refine ⟨?_, h.toUnderway.of_area hpending, shows_congr hcanonical h.shows⟩
  obtain heq | ⟨old, new, hold, hexpected, hnew, hcandidate⟩ := hbecomes
  · exact ⟨fun p e hp => hcanonical ▸ hp, heq ▸ .refl, .inl heq, fun raw => documentEntry_of_area hpending raw ▸ .refl,
      fun raw => .inl (documentEntry_of_area hpending raw)⟩
  · refine ⟨fun p e hp => hcanonical ▸ hp, ?_, .inr ⟨pending.document.candidateCheckpoint, ⟨new, hnew, hcandidate⟩, ?_⟩,
      fun raw => documentEntry_of_area hpending raw ▸ .refl, fun raw => .inl (documentEntry_of_area hpending raw)⟩
    · rw [hold, hnew]
      exact .single (.replace hexpected hcandidate)
    · exact (shows_congr hcanonical h.shows).reached

theorem wp_replaceExpected_follows (h : FilesReached store pending others s) :
    (replaceExpected pending.document.expectedCheckpoint pending.document.candidateCheckpoint temporary).wp
      (Follows store s) (fun _ => CandidateReached store pending others) (fun _ _ => True) s := by
  refine Program.wp_mono (Program.wp_and (onlyAreas_replaceExpected.wp s) wp_replaceExpected_entry) ?_ ?_ ?_
  · exact fun t ht => (follows_of_checkpoint h ht.1 ht.2).1
  · exact fun _ t ht => ⟨(follows_of_checkpoint h ht.1 ht.2.1).2, ht.2.2⟩
  · exact fun _ _ _ => trivial

end Checkpoint

section Document

variable [Url] [Jiff] [Blake3] {s t : Disk} {store : Store} {pending : DurablePending} {others : List Name}
  {phase : GitSyncPendingPhase} {stale : Option GitOid}

def DurablePending.advanced (pending : DurablePending) (phase : GitSyncPendingPhase) (stale : Option GitOid) :
    DurablePending :=
  { pending with document := pending.document.advance phase stale }

/-- The document of an operation goes on to a next phase after everything else has. -/
theorem follows_of_document (h : CandidateReached store pending others s) (hphase : phase ∈ pending.document.phase.successors)
    (hframe : (exceptDocument pending.name.name).rel s t)
    (hbecomes : DocumentBecomes pending.name.name (pending.document.advance phase stale) s t) : Follows store s t := by
  have hfiles : t .canonical = s .canonical := ext_get? fun p => hframe .canonical p ⟨.inl trivial, fun h => by cases h.1⟩
  have hcheckpoint : checkpointEntry t = checkpointEntry s :=
    hframe .checkpoints _ ⟨.inl rfl, fun h => by cases h.1⟩
  have hothers : ∀ raw, raw ≠ pending.name.name → documentEntry raw t = documentEntry raw s := fun raw hraw =>
    hframe .syncPending _ ⟨.inl ⟨raw, rfl⟩, fun h => hraw (List.cons.inj h.2).1⟩
  refine ⟨fun p e hp => hfiles ▸ hp, hcheckpoint ▸ .refl, .inl hcheckpoint, fun raw => ?_, fun raw => ?_⟩
  · by_cases hraw : raw = pending.name.name
    · subst hraw
      obtain heq | ⟨next, hnext, hdecodeNext⟩ := hbecomes
      · exact heq ▸ .refl
      · obtain ⟨bytes, hbytes, hdecode⟩ := h.slot.2
        rw [hbytes, hnext]
        exact .single (.advance hdecode hdecodeNext hphase)
    · exact hothers raw hraw ▸ .refl
  · by_cases hraw : raw = pending.name.name
    · subst hraw
      obtain heq | ⟨next, hnext, hdecodeNext⟩ := hbecomes
      · exact .inl heq
      · right
        rintro bytes document hentry hdecode -
        obtain rfl : next = bytes := by
          rw [hnext] at hentry
          exact Entry.regular.inj (Option.some.inj hentry)
        obtain rfl : _ = document := Except.ok.inj (hdecodeNext.symm.trans hdecode)
        obtain ⟨accepted, haccepted, hdecodeAccepted⟩ := h.accepts
        refine ⟨(shows_congr hfiles h.shows).reached, fun _ => ⟨accepted, hdecodeAccepted, ?_⟩⟩
        rw [hcheckpoint, haccepted]
    · exact .inl (hothers raw hraw)

theorem CandidateReached.advanced (h : CandidateReached store pending others s)
    (hframe : (exceptDocument pending.name.name).rel s t)
    (hdocument : t.Documents pending.name.name (pending.document.advance phase stale)) :
    CandidateReached store (pending.advanced phase stale) others t := by
  have hfiles : t .canonical = s .canonical := ext_get? fun p => hframe .canonical p ⟨.inl trivial, fun h => by cases h.1⟩
  have hcheckpoint : checkpointEntry t = checkpointEntry s :=
    hframe .checkpoints _ ⟨.inl rfl, fun h => by cases h.1⟩
  refine ⟨⟨⟨⟨h.slot.1, hdocument⟩, h.slots.congr fun n => .inl ?_⟩, shows_congr hfiles h.shows⟩,
    accepts_congr hcheckpoint h.accepts⟩
  exact hframe .syncPending [n] ⟨.inr ⟨rfl, n, rfl⟩, fun h => by cases h.2⟩

theorem wp_replaceDocument_follows [ReadDir] {temporary : Uuid} (h : CandidateReached store pending others s)
    (hphase : phase ∈ pending.document.phase.successors) :
    (replaceDocument pending (pending.document.advance phase stale) temporary).wp (Follows store s)
      (fun next t => next = pending.advanced phase stale ∧ CandidateReached store next others t) (fun _ _ => True) s := by
  have hd : pending.directory = Store.syncPendingDir.child pending.name.name := h.slot.1
  refine Program.wp_mono (Program.wp_and ((keeps_replaceDocument hd).wp s) (wp_replaceDocument_entry hd)) ?_ ?_ ?_
  · exact fun t ht => follows_of_document h hphase ht.1 ht.2
  · rintro _ t ⟨hframe, rfl, hdocument⟩
    exact ⟨rfl, h.advanced hframe hdocument⟩
  · exact fun _ _ _ => trivial

end Document

end Wayjournal
