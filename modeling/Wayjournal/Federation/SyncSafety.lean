import Wayjournal.Federation.SyncRun

namespace Wayjournal

open Collections Crash Fs FileSystem Relation Text

section Operations

variable [Url] [Jiff] [Blake3] {store : Store}

theorem published_of_files {ε α : Type} {p : Program Disk ε α} (hgrows : p.Keeps canonicalGrows)
    (hareas : p.Keeps (onlyAreas batchAreas)) : p.Keeps (published store) :=
  fun s t ht => follows_of_files (hgrows s t ht) (hareas s t ht)

variable [ReadDir] {prepared : PreparedBatch} {expected : StoreRevisionRef}

theorem published_recoverWithoutSnapshot : (recoverWithoutSnapshot store).Keeps (published store) := by
  refine .bind (keeps_retiring_cleanDisposableLocked.mono fun _ _ => follows_of_retiring) fun _ => ?_
  refine .bind (.readOnly readOnly_gateWithoutGit) fun _ => .guard ?_
  exact published_of_files keeps_recoverLocked onlyAreas_recoverLocked

theorem published_append : (append store prepared expected).Keeps (published store) := by
  refine .bind published_recoverWithoutSnapshot fun _ => .bind (.reads _) fun snapshot => ?_
  refine .bind (.readOnly readOnly_requirePendingAllow) fun _ => .bind (.reads _) fun preview => ?_
  cases preview with
  | replay batchId revision => exact .pure _
  | publish revision =>
    refine .bind (.readOnly readOnly_requirePendingAllow) fun _ => ?_
    refine .bind (published_of_files (.bind keeps_writeStage fun _ => keeps_linkFdNoClobber) onlyAreas_stageBatch) fun _ => ?_
    refine .bind (published_of_files (keeps_recoverOne _) (onlyAreas_recoverOne _)) fun _ => .bind (.reads _) fun _ => .pure _

theorem published_previewAppend : (previewAppend store prepared expected).Keeps (published store) := by
  refine .bind published_recoverWithoutSnapshot fun _ => .bind (.reads _) fun snapshot => ?_
  exact .bind (.readOnly readOnly_requirePendingAllow) fun _ => .reads _

end Operations

section Leftover

variable [Url] [ReadDir]

/-- The slots a success may leave at this disk. -/
def leftoverOf (disk : Disk) : List Name :=
  match discover.result disk with
  | .ok found => found.leftover
  | .error _ => []

theorem mayLeave_leftoverOf (disk : Disk) : MayLeave (leftoverOf disk) disk := by
  intro found hfound
  rw [leftoverOf, hfound]
  exact List.Subset.refl _

end Leftover

section System

theorem not_pushing_of_none {γ : Type} {w : World γ} (h : w.running = none) : ¬w.Pushing := by
  rintro ⟨command, hcommand, -⟩
  rw [h] at hcommand
  cases hcommand

theorem settled_eq_ok {γ : Type} {w : World γ} {p : SyncM γ GitSyncOutcome} {outcome : GitSyncOutcome} :
    p.settled.result w = .ok outcome ↔ p.result w = .ok outcome ∨ p.result w = .error (.outcome outcome) := by
  unfold SyncM.settled Program.result
  dsimp only
  cases (p w).result with
  | ok value => simp
  | error exit => cases exit <;> simp

theorem settled_eq_error {γ : Type} {w : World γ} {p : SyncM γ GitSyncOutcome} {error : GitSyncError} :
    p.settled.result w = .error error ↔ p.result w = .error (.failed error) := by
  unfold SyncM.settled Program.result
  dsimp only
  cases (p w).result with
  | ok value => simp
  | error exit => cases exit <;> simp

variable [Url] [Jiff] [Blake3] [ReadDir] {γ : Type} [Git γ]

/-- One step of a store and the world around it: an operation of the store or a synchronization that ran to its end or
was cut off after some writes, or any change to the Git side. -/
inductive SystemStep (store : Store) : World γ → World γ → Prop
  | append (w : World γ) (prepared : PreparedBatch) (expected : StoreRevisionRef) (n : Nat) :
    SystemStep store w { w with disk := (Wayjournal.append store prepared expected).cut w.disk n }
  | preview (w : World γ) (prepared : PreparedBatch) (expected : StoreRevisionRef) (n : Nat) :
    SystemStep store w { w with disk := (previewAppend store prepared expected).cut w.disk n }
  | recover (w : World γ) (n : Nat) : SystemStep store w { w with disk := (recoverWithoutSnapshot store).cut w.disk n }
  | checkpoint (w : World γ) (n : Nat) : SystemStep store w { w with disk := readCheckpoint.cut w.disk n }
  | sync (w : World γ) (request : GitSyncRequest) (draws next : Draws) (authorized : Option AdmissionCheckpoint) (n : Nat) :
    SystemStep store w ((syncGitUnionLocked store request draws next authorized).cut w n).halted
  | git (w : World γ) (git : γ) : SystemStep store w { w with git }

variable {store : Store} {request : GitSyncRequest} {draws next : Draws} {authorized : Option AdmissionCheckpoint}
  {w v : World γ}

/-- A whole synchronization from a world at rest. -/
theorem wp_synchronize (store : Store) (request : GitSyncRequest) (draws next : Draws)
    (authorized : Option AdmissionCheckpoint) (h : w.running = none) :
    (synchronize store request draws next authorized).wp ((protocol store).rel w) (fun _ _ => False)
      (Ends store request (leftoverOf w.disk)) w :=
  Program.wp_mono (leads_synchronize w ⟨not_pushing_of_none h, mayLeave_leftoverOf w.disk⟩) (fun _ ht => ht)
    (fun _ _ ht => ht.2) fun _ _ ht => ht

/-- An outcome that is returned is one the synchronization ended with. -/
theorem told_of_outcome {outcome : GitSyncOutcome} (h : w.running = none)
    (hresult : (syncGitUnionLocked store request draws next authorized).result w = .ok outcome) :
    Told store request (leftoverOf w.disk) outcome
      ((syncGitUnionLocked store request draws next authorized).final w).disk := by
  have hends := (wp_synchronize store request draws next authorized h).2
  obtain hr | hr := settled_eq_ok.mp hresult
  · rw [hr] at hends
    exact hends.elim
  · rw [hr] at hends
    exact hends.2

theorem SystemStep.follows (h : w.running = none) (hstep : SystemStep store w v) :
    Follows store w.disk v.disk ∧ v.running = none := by
  cases hstep with
  | append prepared expected n => exact ⟨published_append.cut w.disk n, h⟩
  | preview prepared expected n => exact ⟨published_previewAppend.cut w.disk n, h⟩
  | recover n => exact ⟨published_recoverWithoutSnapshot.cut w.disk n, h⟩
  | checkpoint n => exact ⟨follows_of_apart (keeps_readCheckpoint.cut w.disk n), h⟩
  | git git => exact ⟨.refl _, h⟩
  | sync request draws next authorized n =>
    refine ⟨?_, rfl⟩
    obtain heq | hmem := Program.cut_mem (syncGitUnionLocked store request draws next authorized) w n
    · change Follows store w.disk ((syncGitUnionLocked store request draws next authorized).cut w n).disk
      rw [heq]
      exact .refl _
    · exact ((wp_synchronize store request draws next authorized h).1 _ hmem).1

theorem follows_of_run (h : w.running = none) (hrun : ReflTransGen (SystemStep store) w v) :
    Follows store w.disk v.disk ∧ v.running = none := by
  induction hrun with
  | refl => exact ⟨.refl _, h⟩
  | tail _ hstep ih =>
    obtain ⟨hfollows, hidle⟩ := ih
    obtain ⟨hnext, hidle⟩ := hstep.follows hidle
    exact ⟨hfollows.trans hnext, hidle⟩

/-- The accepted checkpoint is of files that are there. -/
def Anchored (store : Store) (disk : Disk) : Prop :=
  ∀ checkpoint, disk.Accepts checkpoint → disk.Reached store checkpoint.acceptedRevision

omit [ReadDir] in
theorem Anchored.mono {s t : Disk} (h : Anchored store s) (hst : Follows store s t) : Anchored store t := by
  rintro checkpoint ⟨bytes, hentry, hdecode⟩
  obtain heq | ⟨accepted, ⟨found, hfound, haccepted⟩, hreached⟩ := hst.anchored
  · exact (h checkpoint ⟨bytes, heq.symm.trans hentry, hdecode⟩).mono hst.files
  · obtain rfl := Entry.regular.inj (Option.some.inj (hentry.symm.trans hfound))
    obtain rfl := Except.ok.inj (hdecode.symm.trans haccepted)
    exact hreached

/-- While a push may be moving the remote, its operation is durable, and published in the files and in the checkpoint. -/
theorem push_after_publication (disk : Disk) (git : γ) :
    (syncGitUnionLocked store request draws next authorized).wp (fun t => t.Pushing → Ready store t)
      (fun _ _ => True) (fun _ _ => True) ⟨disk, git, none⟩ := by
  have hwp := wp_synchronize store request draws next authorized (w := (⟨disk, git, none⟩ : World γ)) rfl
  refine ⟨fun t ht hpush => ?_, ?_⟩
  · obtain ⟨hrunning, -⟩ | hready := (hwp.1 t ht).2 hpush
    · exact absurd hpush (not_pushing_of_none hrunning)
    · exact hready
  · split
    · trivial
    · trivial

/-- What a call returns is durable when it returns. -/
theorem outcome_is_durable (disk : Disk) (git : γ) :
    (syncGitUnionLocked store request draws next authorized).wp (fun _ => True)
      (fun outcome t => Told store request (leftoverOf disk) outcome t.disk) (fun _ _ => True) ⟨disk, git, none⟩ :=
  Program.wp_of_result fun _ hresult => told_of_outcome rfl hresult

/-- No call fails because the rounds of its loop run out, or because a successor would have to be succeeded: the loop over
the phases ends by itself. -/
theorem recovery_within_rounds (disk : Disk) (git : γ) :
    (syncGitUnionLocked store request draws next authorized).wp (fun _ => True) (fun _ _ => True)
      (fun error _ => error ≠ .advanceRequired) ⟨disk, git, none⟩ := by
  refine ⟨fun _ _ => trivial, ?_⟩
  split
  · trivial
  · rename_i hresult
    rintro rfl
    have hends := (wp_synchronize store request draws next authorized (w := (⟨disk, git, none⟩ : World γ)) rfl).2
    rw [settled_eq_error.mp hresult] at hends
    exact hends rfl

def GitSyncOutcome.isSuccess : GitSyncOutcome → Bool
  | .upToDate .. | .advanced .. => true
  | .staleRemoteCas .. | .quarantined .. => false

theorem slots_of_told {left : List Name} {outcome : GitSyncOutcome} {disk : Disk} (h : Told store request left outcome disk)
    (hsuccess : outcome.isSuccess) : SlotsWithin left disk := by
  cases outcome with
  | upToDate | advanced => exact h.2.1
  | staleRemoteCas | quarantined => cases hsuccess

/-- A success clears the way for the store's own operations, unless it started from a stale operation that had itself a
predecessor. -/
theorem success_clears_slots (disk : Disk) (git : γ) :
    (syncGitUnionLocked store request draws next authorized).wp (fun _ => True)
      (fun outcome t => outcome.isSuccess → leftoverOf disk = [] →
        t.disk .syncPending = ∅ ∧ gateWithoutGit.result t.disk = .ok .allow) (fun _ _ => True) ⟨disk, git, none⟩ := by
  refine Program.wp_of_result fun outcome hresult hsuccess hleft => ?_
  have hslots := slots_of_told (told_of_outcome (w := (⟨disk, git, none⟩ : World γ)) rfl hresult) hsuccess
  rw [hleft] at hslots
  have hempty := syncPending_eq_empty hslots
  refine ⟨hempty, ?_⟩
  have hwp : gateWithoutGit.wp (fun _ => True) (fun gate _ => gate = .allow) (fun _ _ => False)
      ((syncGitUnionLocked store request draws next authorized).final (⟨disk, git, none⟩ : World γ)).disk :=
    (wp_gateWithoutGit_none hempty).mpr rfl
  obtain ⟨gate, hgate, rfl⟩ := Program.ok_of_wp hwp
  exact hgate

end System

section Sample

theorem GitPlace.confines_self (place : GitPlace) (disk : Disk) : place.Confines disk disk := by
  cases place with
  | bare d => exact ⟨fun _ _ => rfl, fun _ _ => rfl⟩
  | layout => rfl
  | standalone => rfl

attribute [local instance] Sample.jiff Sample.blake3 Sample.url Sample.readDir

namespace Sample

/-- A Git that cannot be run. -/
@[reducible] def absentGit : Git Unit where
  run _ disk git := (.failed .spawn, disk, git)
  confined command disk _ := command.place.confines_self disk
  inspectLayout _ := .ok ()
  syncLayout _ := .ok ()

def syncRequest : GitSyncRequest := ⟨⟨digest⟩, approvedRemote⟩

def incidentId (n : Fin 16) : QuarantineIncidentId := ⟨(operationId n).uuid, (operationId n).version, (operationId n).variant⟩

def draws : Draws := ⟨operationId 1, incidentId 2, fun _ => (operationId 3).uuid, fun _ _ => (operationId 4).uuid⟩

/-- A store that was never synchronized. -/
theorem anchored_disk : Anchored store disk := by
  rintro checkpoint ⟨bytes, hentry, -⟩
  cases hentry

theorem sound_disk (raw : Name) : SoundDocument store (documentEntry raw disk) disk := by
  intro bytes document hentry
  cases hentry

end Sample

attribute [local instance] Sample.absentGit

end Sample

end Wayjournal
