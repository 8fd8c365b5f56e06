import Wayjournal.Federation.CheckpointReplace
import Wayjournal.Federation.DocumentReplace
import Wayjournal.Federation.Protocol

namespace Wayjournal

open Collections Crash Fs FileSystem Relation Text

section Checkpoint

variable {s t : Disk} {temporary : Uuid}

theorem readOnly_readCurrentBytes : readCurrentBytes.ReadOnly :=
  .bind (Directory.readOnly_openFile.mapError _) fun _ => .ite (.bind (.throw _) fun _ => .pure _) (.pure _)

theorem checkpointEntry_of_readCurrentBytes {bytes : Bytes} (h : readCurrentBytes.result s = .ok bytes) :
    checkpointEntry s = some (.regular bytes) := by
  obtain ⟨found, hfound, h⟩ := Program.bind_eq_ok.mp h
  obtain ⟨-, h⟩ := Program.guard_eq_ok.mp h
  cases h
  exact Directory.openFile_eq_ok.mp (mapError_eq_ok.mp hfound)

theorem checkpointEntry_of_sets {fs : FileSystem Name} {o : Option Entry}
    (hsets : (t .checkpoints).Sets (Store.checkpointsDir.path ++ [checkpointTemporary temporary]) o fs) :
    checkpointEntry (t.set .checkpoints fs) = checkpointEntry t := by
  have hne : [Name.admissionCheckpoint] ≠ [checkpointTemporary temporary] := fun heq =>
    checkpointTemporary_ne temporary (List.cons.inj heq).1.symm
  change ((t.set .checkpoints fs) .checkpoints).get? [.admissionCheckpoint] = _
  rw [Disk.set_same]
  exact hsets.elsewhere _ hne

theorem child_of_sets {d : Directory} {name : Name} {fs : FileSystem Name} {o : Option Entry}
    (hsets : (t d.area).Sets (d.path ++ [name]) o fs) : d.child? name (t.set d.area fs) = o := by
  rw [Directory.child?, Disk.set_same]
  exact hsets.here

/-- The renamed file is the checkpoint. -/
theorem checkpointEntry_of_rename {fs : FileSystem Name} {bytes : Bytes}
    (hwritten : Store.checkpointsDir.child? (checkpointTemporary temporary) t = some (.regular bytes))
    (h : (t .checkpoints).rename Store.checkpointsDir.path (checkpointTemporary temporary) .admissionCheckpoint = .ok fs) :
    checkpointEntry (t.set .checkpoints fs) = some (.regular bytes) := by
  obtain ⟨e, hold, hnew, -, -⟩ := Directory.sets_of_rename (checkpointTemporary_ne temporary) h
  obtain rfl : e = .regular bytes := Option.some.inj (hold.symm.trans hwritten)
  change ((t.set .checkpoints fs) .checkpoints).get? [.admissionCheckpoint] = _
  rw [Disk.set_same]
  exact hnew

theorem readOnly_openCheckpoint : openCheckpoint.ReadOnly := .reads _

theorem checkpointEntry_of_openCheckpoint {file : Option Bytes} (h : openCheckpoint.result s = .ok file) :
    checkpointEntry s = file.map .regular := by
  rw [openCheckpoint, Program.result_reads] at h
  unfold checkpointEntry
  split at h
  · rename_i hnone
    cases h
    exact hnone
  · rename_i bytes hbytes
    cases h
    exact hbytes
  · cases h

/-- Only a temporary file is found as residue. -/
theorem ne_of_checkResidue {residue found : Option Name} {name : Name} (hresidue : residue ≠ some .admissionCheckpoint)
    (h : (checkResidue residue name).result s = .ok found) : found ≠ some .admissionCheckpoint := by
  unfold checkResidue at h
  split at h
  · obtain ⟨kind, -, h⟩ := Program.bind_eq_ok.mp h
    obtain ⟨-, h⟩ := Program.guard_eq_ok.mp h
    cases h
    exact hresidue
  · rename_i hname
    obtain ⟨id, -, h⟩ := Program.bind_eq_ok.mp h
    obtain ⟨-, h⟩ := Program.guard_eq_ok.mp h
    obtain ⟨kind, -, h⟩ := Program.bind_eq_ok.mp h
    obtain ⟨-, h⟩ := Program.guard_eq_ok.mp h
    obtain ⟨file, -, h⟩ := Program.bind_eq_ok.mp h
    obtain ⟨-, h⟩ := Program.guard_eq_ok.mp h
    cases h
    exact fun heq => hname (Option.some.inj heq)

theorem ne_of_checkResidues {names : List Name} {residue found : Option Name}
    (hresidue : residue ≠ some .admissionCheckpoint) (h : (names.foldlM checkResidue residue).result s = .ok found) :
    found ≠ some .admissionCheckpoint := by
  induction names generalizing residue s with
  | nil =>
    cases h
    exact hresidue
  | cons name names ih =>
    rw [List.foldlM_cons] at h
    obtain ⟨next, hnext, h⟩ := Program.bind_eq_ok.mp h
    exact ih (ne_of_checkResidue hresidue hnext) h

theorem readOnly_checkResidue (residue : Option Name) (name : Name) : (checkResidue residue name).ReadOnly := by
  unfold checkResidue
  have hlift : ∀ {α : Type} {p : DiskM α}, p.ReadOnly → (liftM p : CheckpointM α).ReadOnly := fun h => h.mapError _
  refine .ite ?_ ?_
  · refine .bind (hlift Directory.readOnly_kind) fun _ => .ite (.bind (.throw _) fun _ => .pure _) (.pure _)
  · refine .bind (.ofExcept _) fun id => .ite (.bind (.throw _) fun _ => ?_) ?_
    all_goals
      refine .bind (hlift Directory.readOnly_kind) fun _ => .ite (.bind (.throw _) fun _ => ?_) ?_
      all_goals
        refine .bind (hlift Directory.readOnly_openFile) fun _ => .ite (.bind (.throw _) fun _ => .pure _) (.pure _)

theorem keeps_recoverResidue [ReadDir] : recoverResidue.Keeps apart := by
  refine .bind (.readOnly (Directory.readOnly_boundedNames.mapError _)) fun names => ?_
  refine .bindOf (.readOnly (.foldlM readOnly_checkResidue _ _)) fun s found hfound => ?_
  have hne := ne_of_checkResidues (fun h => by cases h) hfound
  cases found with
  | none => exact .pure _
  | some name =>
    refine .mapError (Directory.keeps_preserving_change (fun _ _ h => ⟨_, sets_of_unlink h⟩) ?_) _
    rintro (hsurface | ⟨harea, -⟩)
    · exact hne (congrArg some (List.cons.inj hsurface).1)
    · cases harea

variable [Url] {expected candidate checkpoint : AdmissionCheckpoint}

/-- The checkpoint is as it was, or the expected one has been replaced. -/
def CheckpointBecomes (expected candidate : AdmissionCheckpoint) (s t : Disk) : Prop :=
  checkpointEntry t = checkpointEntry s ∨ ∃ old new, checkpointEntry s = some (.regular old) ∧
    decodeAdmissionCheckpoint old = .ok expected ∧ checkpointEntry t = some (.regular new) ∧
    decodeAdmissionCheckpoint new = .ok candidate

/-- A replacement only takes place where the expected checkpoint stands. -/
theorem wp_replaceExpected_entry :
    (replaceExpected expected candidate temporary).wp (CheckpointBecomes expected candidate s)
      (fun _ t => CheckpointBecomes expected candidate s t ∧ t.Accepts candidate)
      (fun _ t => CheckpointBecomes expected candidate s t) s := by
  unfold replaceExpected
  rw [Program.wp_bind, (Program.ReadOnly.ofExcept _).wp, Program.result_ofExcept]
  split
  case h_2 => exact .inl rfl
  rename_i expectedBytes hexpected
  rw [Program.wp_bind, (Program.ReadOnly.ofExcept _).wp, Program.result_ofExcept]
  split
  case h_2 => exact .inl rfl
  rename_i candidateBytes hcandidate
  have hdecode := decodeAdmissionCheckpoint_encode hcandidate
  rw [Program.wp_bind, readOnly_readCurrentBytes.wp]
  split
  case h_2 => exact .inl rfl
  rename_i current hcurrent
  have hentry := checkpointEntry_of_readCurrentBytes hcurrent
  split
  · rename_i heq
    subst heq
    rw [Program.wp_bind, Program.wp_ofExcept_ok hdecode]
    exact Program.wp_pure.mpr ⟨.inl rfl, current, hentry, hdecode⟩
  refine Program.wp_guard.mpr ⟨fun _ => .inl rfl, fun hold => ?_⟩
  obtain rfl := not_not.mp hold
  rw [Program.wp_bind, wp_liftCheckpoint]
  refine Directory.wp_change_any (fun fs hfs => ?_) fun _ => .inl rfl
  have hfs := checkpointEntry_of_sets (sets_of_create hfs).2.2
  refine ⟨.inl hfs, ?_⟩
  rw [Program.wp_bind, wp_liftCheckpoint]
  refine Directory.wp_change_any (fun gs hgs => ?_) fun _ => .inl hfs
  have hwritten : Store.checkpointsDir.child? (checkpointTemporary temporary) _ = some (.regular candidateBytes) :=
    child_of_sets (d := Store.checkpointsDir) (sets_of_write hgs).2
  have hgs := (checkpointEntry_of_sets (sets_of_write hgs).2).trans hfs
  refine ⟨.inl hgs, ?_⟩
  rw [Program.wp_bind, readOnly_readCurrentBytes.wp]
  split
  case h_2 => exact .inl hgs
  split
  · rw [Program.wp_bind, wp_liftCheckpoint]
    refine Directory.wp_change_any (fun gone hgone => ?_) fun _ => .inl hgs
    have hunlinked := (checkpointEntry_of_sets (sets_of_unlink hgone)).trans hgs
    exact ⟨.inl hunlinked, Program.wp_bind.mpr (Program.wp_throw.mpr (.inl hunlinked))⟩
  rw [Program.wp_bind, wp_liftCheckpoint]
  refine Directory.wp_change_any (fun renamed hrenamed => ?_) fun _ => .inl hgs
  have hnew := checkpointEntry_of_rename hwritten hrenamed
  have hbecomes : CheckpointBecomes expected candidate s _ :=
    .inr ⟨_, _, hentry, decodeAdmissionCheckpoint_encode hexpected, hnew, hdecode⟩
  refine ⟨hbecomes, ?_⟩
  rw [Program.wp_bind, readOnly_readCurrentBytes.wp]
  split
  case h_2 => exact hbecomes
  refine Program.wp_guard.mpr ⟨fun _ => hbecomes, fun _ => ?_⟩
  rw [Program.wp_bind, (Program.ReadOnly.ofExcept _).wp, Program.result_ofExcept]
  split
  case h_2 => exact hbecomes
  split
  · exact Program.wp_throw.mpr hbecomes
  · exact Program.wp_pure.mpr ⟨hbecomes, _, hnew, hdecode⟩

variable [ReadDir]

theorem keeps_readCheckpoint : readCheckpoint.Keeps apart := by
  refine .bind keeps_recoverResidue fun _ => .bind (.readOnly readOnly_openCheckpoint) fun file => ?_
  cases file with
  | none => exact .pure _
  | some bytes => exact .guard (.bind (.ofExcept _) fun _ => .pure _)

/-- What is read is what the file holds. -/
theorem accepts_of_readCheckpoint (h : readCheckpoint.result s = .ok (some checkpoint)) :
    (readCheckpoint.final s).Accepts checkpoint := by
  have hentry : checkpointEntry (readCheckpoint.final s) = checkpointEntry s :=
    checkpointEntry_of_preserving (surface_of_apart (keeps_readCheckpoint.final s))
  obtain ⟨_, hrecover, h⟩ := Program.bind_eq_ok.mp h
  obtain ⟨file, hfile, h⟩ := Program.bind_eq_ok.mp h
  have hfile := checkpointEntry_of_openCheckpoint hfile
  have hsame := checkpointEntry_of_preserving (surface_of_apart (keeps_recoverResidue.final s))
  cases file with
  | none => cases h
  | some bytes =>
    obtain ⟨-, h⟩ := Program.guard_eq_ok.mp h
    obtain ⟨found, hfound, h⟩ := Program.bind_eq_ok.mp h
    cases h
    exact ⟨bytes, (hentry.trans hsame.symm).trans hfile, hfound⟩

end Checkpoint

section Documents

/-- Of what is published only the document of one slot may change. -/
def exceptDocument (raw : Name) : Guarantee Disk :=
  preserving fun area p => (IsSurface area p ∨ IsSlotRoot area p) ∧ ¬(area = .syncPending ∧ p = [raw, .pendingJson])

variable {s t : Disk} {raw : Name} {d : Directory} {operation : String} {name : Name}
  {f : FileSystem Name → Except Errno (FileSystem Name)}

theorem notSurface_of_ne (hname : name ≠ .pendingJson) :
    ¬(IsSurface .syncPending [raw, name] ∨ IsSlotRoot .syncPending [raw, name]) := by
  rintro (⟨other, heq⟩ | ⟨-, other, heq⟩)
  · exact hname (List.cons.inj (List.cons.inj heq).2).1
  · cases heq

theorem temporaryName_ne (temporary : Uuid) : temporaryName temporary ≠ .pendingJson := fun heq =>
  temporaryName_notMem temporary (heq ▸ by decide)

theorem Directory.keeps_slot_change (hd : d = Store.syncPendingDir.child raw)
    (h : ∀ fs gs, f fs = .ok gs → ∃ e, fs.Sets (d.path ++ [name]) e gs) :
    (d.change operation name f).Keeps (exceptDocument raw) := by
  subst hd
  refine Directory.keeps_preserving_change h fun hsurface => ?_
  by_cases hname : name = .pendingJson
  · subst hname
    exact hsurface.2 ⟨rfl, rfl⟩
  · exact notSurface_of_ne hname hsurface.1

theorem Directory.keeps_slot_rename {old : Name} (hd : d = Store.syncPendingDir.child raw) (hold : old ≠ .pendingJson) :
    (d.renameFile old .pendingJson).Keeps (exceptDocument raw) := by
  subst hd
  refine .update fun s t ht area p hp => ?_
  split at ht
  · cases ht
  · rename_i fs hfs
    cases ht
    by_cases harea : area = .syncPending
    · subst harea
      obtain ⟨e, -, -, -, helse⟩ := Directory.sets_of_rename hold hfs
      refine (congrArg (FileSystem.get? · p) (Disk.set_same _ _ _)).trans (helse p ?_ ?_)
      · rintro rfl
        exact notSurface_of_ne hold hp.1
      · rintro rfl
        exact hp.2 ⟨rfl, rfl⟩
    · exact congrArg (FileSystem.get? · p) (Disk.set_of_ne s harea fs)

theorem documentEntry_of_sets {fs : FileSystem Name} {o : Option Entry} (hname : name ≠ .pendingJson)
    (hsets : (t .syncPending).Sets ((Store.syncPendingDir.child raw).path ++ [name]) o fs) :
    documentEntry raw (t.set .syncPending fs) = documentEntry raw t := by
  have hne : [raw, Name.pendingJson] ≠ [raw, name] := fun heq => hname (List.cons.inj (List.cons.inj heq).2).1.symm
  change ((t.set .syncPending fs) .syncPending).get? [raw, .pendingJson] = _
  rw [Disk.set_same]
  exact hsets.elsewhere _ hne

theorem documentEntry_of_rename {fs : FileSystem Name} {bytes : Bytes} {old : Name} (hold : old ≠ .pendingJson)
    (hwritten : (Store.syncPendingDir.child raw).child? old t = some (.regular bytes))
    (h : (t .syncPending).rename (Store.syncPendingDir.child raw).path old .pendingJson = .ok fs) :
    documentEntry raw (t.set .syncPending fs) = some (.regular bytes) := by
  obtain ⟨e, hfile, hnew, -, -⟩ := Directory.sets_of_rename hold h
  obtain rfl : e = .regular bytes := Option.some.inj (hfile.symm.trans hwritten)
  change ((t.set .syncPending fs) .syncPending).get? [raw, .pendingJson] = _
  rw [Disk.set_same]
  exact hnew

variable [Url] {pending : DurablePending} {document : PendingDocument} {temporary : Uuid}

/-- The document of a slot is as it was, or the new one. -/
def DocumentBecomes (raw : Name) (document : PendingDocument) (s t : Disk) : Prop :=
  documentEntry raw t = documentEntry raw s ∨ t.Documents raw document

theorem keeps_replaceDocument (hd : pending.directory = Store.syncPendingDir.child raw) :
    (replaceDocument pending document temporary).Keeps (exceptDocument raw) := by
  refine .bind (.ofExcept _) fun bytes => .bind (.bind ?_ fun _ => ?_) fun _ => .bind ?_ fun _ => ?_
  · exact (Directory.keeps_slot_change hd fun _ _ h => ⟨_, (sets_of_create h).2.2⟩).mapError _
  · exact (Directory.keeps_slot_change hd fun _ _ h => ⟨_, (sets_of_write h).2⟩).mapError _
  · exact (Directory.keeps_slot_rename hd (temporaryName_ne temporary)).mapError _
  · refine .bind (.readOnly (Directory.readOnly_openFile.mapError _)) fun file => ?_
    exact .bind (.ofExcept _) fun current => .guard (.pure _)

theorem wp_replaceDocument_entry (hd : pending.directory = Store.syncPendingDir.child raw) :
    (replaceDocument pending document temporary).wp (DocumentBecomes raw document s)
      (fun next t => next = { pending with document := document } ∧ t.Documents raw document)
      (fun _ => DocumentBecomes raw document s) s := by
  have hne := temporaryName_ne temporary
  unfold replaceDocument
  rw [Program.wp_bind, (Program.ReadOnly.ofExcept _).wp, Program.result_ofExcept]
  split
  case h_2 => exact .inl rfl
  rename_i bytes hencode
  have hdecode := decodeDocument_encodeDocument hencode
  simp only [Program.wp_bind, writeNew, wp_liftPending, hd]
  refine Directory.wp_change_any (fun fs hfs => ?_) fun _ => .inl rfl
  have hfs := documentEntry_of_sets hne (sets_of_create hfs).2.2
  refine ⟨.inl hfs, Directory.wp_change_any (fun gs hgs => ?_) fun _ => .inl hfs⟩
  have hwritten : (Store.syncPendingDir.child raw).child? (temporaryName temporary) _ = some (.regular bytes) :=
    child_of_sets (d := Store.syncPendingDir.child raw) (sets_of_write hgs).2
  have hgs := (documentEntry_of_sets hne (sets_of_write hgs).2).trans hfs
  refine ⟨.inl hgs, Directory.wp_change_any (fun renamed hrenamed => ?_) fun _ => .inl hgs⟩
  have hnew : Disk.Documents _ raw document := ⟨bytes, documentEntry_of_rename hne hwritten hrenamed, hdecode⟩
  refine ⟨.inr hnew, ?_⟩
  rw [Directory.readOnly_openFile.wp]
  split
  case h_2 => exact .inr hnew
  rw [(Program.ReadOnly.ofExcept _).wp, Program.result_ofExcept]
  split
  case h_2 => exact .inr hnew
  exact Program.wp_guard.mpr ⟨fun _ => .inr hnew, fun _ => Program.wp_pure.mpr ⟨rfl, hnew⟩⟩

/-- The document of a new slot is there, torn or not at all. -/
def DocumentAppears (raw : Name) (document : PendingDocument) (s t : Disk) : Prop :=
  documentEntry raw t = documentEntry raw s ∨
    documentEntry raw s = none ∧ (documentEntry raw t = some (.regular []) ∨ t.Documents raw document)

theorem keeps_publishDocument (hd : d = Store.syncPendingDir.child raw) :
    (publishDocument d document).Keeps (exceptDocument raw) := by
  refine .bind (.ofExcept _) fun bytes => .bind ?_ fun _ => ?_
  · exact (Directory.keeps_slot_change hd fun _ _ h => ⟨_, (sets_of_create h).2.2⟩).mapError _
  · exact (Directory.keeps_slot_change hd fun _ _ h => ⟨_, (sets_of_write h).2⟩).mapError _

theorem wp_publishDocument_entry (hd : d = Store.syncPendingDir.child raw) :
    (publishDocument d document).wp (DocumentAppears raw document s)
      (fun _ t => DocumentAppears raw document s t ∧ t.Documents raw document)
      (fun _ => DocumentAppears raw document s) s := by
  subst hd
  unfold publishDocument
  rw [Program.wp_bind, (Program.ReadOnly.ofExcept _).wp, Program.result_ofExcept]
  split
  case h_2 => exact .inl rfl
  rename_i bytes hencode
  simp only [Program.wp_bind, writeNew, wp_liftPending]
  refine Directory.wp_change_any (fun fs hfs => ?_) fun _ => .inl rfl
  obtain ⟨-, hfree, hsets⟩ := sets_of_create hfs
  have htorn : documentEntry raw _ = some (.regular []) := child_of_sets (d := Store.syncPendingDir.child raw) hsets
  have htorn : DocumentAppears raw document s _ := .inr ⟨hfree, .inl htorn⟩
  refine ⟨htorn, Directory.wp_change_any (fun gs hgs => ?_) fun _ => htorn⟩
  have hnew : documentEntry raw _ = some (.regular bytes) :=
    child_of_sets (d := Store.syncPendingDir.child raw) (sets_of_write hgs).2
  have hnew : Disk.Documents _ raw document := ⟨bytes, hnew, decodeDocument_encodeDocument hencode⟩
  exact ⟨.inr ⟨hfree, .inr hnew⟩, .inr ⟨hfree, .inr hnew⟩, hnew⟩

end Documents

end Wayjournal
