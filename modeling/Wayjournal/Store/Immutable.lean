import Wayjournal.Crash.Guarantee
import Wayjournal.Federation.PendingLaws
import Wayjournal.Federation.StagingLaws
import Wayjournal.Store.Publication
import Wayjournal.Store.ReadLaws

namespace Wayjournal

open Collections Crash Fs FileSystem Text

/-- No entry of the canonical area is changed or taken away. -/
def canonicalGrows : Guarantee Disk where
  rel s t := ∀ p e, (s .canonical).get? p = some e → (t .canonical).get? p = some e
  refl _ _ _ h := h
  trans h₁ h₂ p e h := h₂ p e (h₁ p e h)

section

variable {α : Type} {p : DiskM α} {G : Guarantee Disk}

theorem keeps_liftPending (h : p.Keeps G) : (liftM p : PendingM α).Keeps G := h.mapError _

end

namespace Directory

variable {d : Directory} {name : Name} {G : Guarantee Disk}

/-- A new entry leaves the others alone. -/
theorem keeps_create {operation : String} {e : Entry} :
    (d.change operation name (·.create d.path name e)).Keeps canonicalGrows := by
  refine .update fun s t h => ?_
  split at h
  · cases h
  · rename_i fs hfs
    cases h
    obtain ⟨-, hfree, hsets⟩ := sets_of_create hfs
    intro q e hq
    by_cases harea : d.area = .canonical
    · rw [← harea] at hq ⊢
      rw [Disk.set_same, hsets.elsewhere q]
      · exact hq
      · rintro rfl
        rw [hfree] at hq
        cases hq
    · rw [Disk.set_of_ne _ (Ne.symm harea)]
      exact hq

theorem keeps_local {operation : String} {f : FileSystem Name → Except Errno (FileSystem Name)}
    (h : d.area ≠ .canonical) : (d.change operation name f).Keeps canonicalGrows := by
  refine .update fun s t ht => ?_
  split at ht
  · cases ht
  · cases ht
    intro q e hq
    rw [Disk.set_of_ne _ (Ne.symm h)]
    exact hq

theorem keeps_ensureDir : (d.ensureDir name).Keeps canonicalGrows := by
  refine .bind (.reads _) fun found => ?_
  cases found with
  | none => exact .bind keeps_create fun _ => .bind (.readOnly readOnly_openDir) fun _ => .pure _
  | some e =>
    refine .ite (.bind (.throw _) fun _ => ?_) ?_
    all_goals exact .bind (.readOnly readOnly_openDir) fun _ => .pure _

end Directory

section Removal

theorem keeps_removeEntry {descend : Directory → Nat → DiskM Nat} {directory : Directory}
    (h : directory.area ≠ .canonical)
    (hdescend : ∀ child budget, child.area ≠ .canonical → (descend child budget).Keeps canonicalGrows)
    (budget : Nat) (name : Name) : (removeEntry descend directory budget name).Keeps canonicalGrows := by
  unfold removeEntry
  refine .ite (.bind (.throw _) fun _ => ?_) ?_
  all_goals
    refine .bind (.readOnly Directory.readOnly_kind) fun kind => .ite ?_ ?_
    · refine .bindOf (.readOnly Directory.readOnly_openDir) fun s child hchild => ?_
      obtain rfl := Directory.child_of_openDir hchild
      refine .bind (hdescend _ _ h) fun budget => .bind (.reads _) fun same => ?_
      refine .ite (.bind (.throw _) fun _ => ?_) ?_
      all_goals exact .bind (Directory.keeps_local h) fun _ => .pure _
    · exact .bind (Directory.keeps_local h) fun _ => .pure _

variable [ReadDir]

theorem keeps_removeTree {parent : Directory} (h : parent.area ≠ .canonical) (levels consumed : Nat) (name : Name) :
    (removeTree levels parent consumed name).Keeps canonicalGrows := by
  induction levels generalizing parent consumed name with
  | zero =>
    unfold removeTree
    refine .bind (.readOnly Directory.readOnly_kind) fun kind => .ite ?_ ?_
    · exact .bind (Directory.keeps_local h) fun _ => .pure _
    · exact .throw _
  | succ levels ih =>
    unfold removeTree
    refine .bind (.readOnly Directory.readOnly_kind) fun kind => .ite ?_ ?_
    · exact .bind (Directory.keeps_local h) fun _ => .pure _
    · refine .bindOf (.readOnly Directory.readOnly_openDir) fun s directory hdirectory => ?_
      obtain rfl := Directory.child_of_openDir hdirectory
      refine .bind (.readOnly Directory.readOnly_boundedNames) fun names => ?_
      have hchild : (parent.child name).area ≠ .canonical := h
      refine .bind (.foldlM (ih hchild) _ _) fun consumed => ?_
      exact .bind (Directory.keeps_local h) fun _ => .pure _

theorem keeps_removeBatches {descend : Directory → Nat → DiskM Nat} {directory : Directory}
    (h : directory.area ≠ .canonical)
    (hdescend : ∀ child budget, child.area ≠ .canonical → (descend child budget).Keeps canonicalGrows)
    (rounds budget : Nat) : (removeBatches descend directory rounds budget).Keeps canonicalGrows := by
  induction rounds generalizing budget with
  | zero => exact .throw _
  | succ rounds ih =>
    unfold removeBatches
    refine .ite (.bind (.throw _) fun _ => ?_) ?_
    all_goals
      refine .bind (.reads _) fun names => .ite (.pure _) ?_
      exact .bind (.foldlM (keeps_removeEntry h hdescend) _ _) fun budget => ih budget

theorem keeps_removeContents {directory : Directory} (h : directory.area ≠ .canonical) (levels budget : Nat) :
    (removeContents levels directory budget).Keeps canonicalGrows := by
  induction levels generalizing directory budget with
  | zero => exact .throw _
  | succ levels ih =>
    unfold removeContents
    exact keeps_removeBatches h (fun child budget hchild => ih hchild budget) _ _

theorem keeps_removeSlot {name : GitSyncOperationId} {directory : Directory} (h : directory.area ≠ .canonical) :
    (removeSlot name directory).Keeps canonicalGrows := by
  refine .bind (keeps_removeContents h _ _) fun _ => .bind (.reads _) fun same => ?_
  exact .ite (.pure _) (.bind (Directory.keeps_local (by decide)) fun _ => .pure _)

end Removal

section Publication

private theorem stages_ne : Area.stages ≠ .canonical := by decide

private theorem slots_ne : Area.syncPending ≠ .canonical := by decide

theorem keeps_linkFdNoClobber {source expected : Bytes} {targetDir : Directory} {targetName : Name} :
    (linkFdNoClobber source targetDir targetName expected).Keeps canonicalGrows := by
  refine .bind (.reads _) fun found => ?_
  cases found with
  | none => exact Directory.keeps_create
  | some e =>
    cases e with
    | regular actual => exact .ite (.throw _) (.pure _)
    | _ => exact .throw _

theorem keeps_ensureSynced {parent : Directory} {text : String} : (ensureSynced parent text).Keeps canonicalGrows :=
  .bind (.readOnly readOnly_component) fun _ => .bind Directory.keeps_ensureDir fun _ => .pure _

theorem keeps_recordTargetParent {target : String} : (recordTargetParent target).Keeps canonicalGrows := by
  unfold recordTargetParent
  split
  · refine .ite (.bind (.throw _) fun _ => ?_) ?_
    all_goals
      refine .bind keeps_ensureSynced fun domain => .bind keeps_ensureSynced fun entity => ?_
      exact .bind (.readOnly readOnly_component) fun _ => .pure _
  · exact .throw _

theorem keeps_publishRecord (record : StagedRecord) : (publishRecord record).Keeps canonicalGrows :=
  .bind keeps_recordTargetParent fun _ => keeps_linkFdNoClobber

theorem keeps_writeNewSynced {directory : Directory} (h : directory.area ≠ .canonical) (name : Name) (bytes : Bytes) :
    (writeNewSynced directory name bytes).Keeps canonicalGrows :=
  .bind (Directory.keeps_local h) fun _ => Directory.keeps_local h

theorem keeps_stageRecords [Jiff] {records : Directory} (h : records.area ≠ .canonical) (index : Nat)
    (prepared : List PreparedRecord) : (stageRecords records index prepared).Keeps canonicalGrows := by
  induction prepared generalizing index with
  | nil => exact .pure _
  | cons record rest ih => exact .bind (keeps_writeNewSynced h _ _) fun _ => ih (index + 1)

theorem keeps_writeStage [Jiff] [Blake3] {prepared : PreparedBatch} {base : StoreRevisionRef} :
    (writeStage prepared base).Keeps canonicalGrows := by
  unfold writeStage
  refine .bindOf Directory.keeps_ensureDir fun s (stage, created) hstage => ?_
  obtain rfl : stage = _ := Directory.child_of_ensureDir hstage
  refine .ite (.bind (.throw _) fun _ => ?_) ?_
  all_goals
    refine .bindOf Directory.keeps_ensureDir fun s (records, created) hrecords => ?_
    obtain rfl : records = _ := Directory.child_of_ensureDir hrecords
    refine .ite (.bind (.throw _) fun _ => ?_) ?_
    all_goals
      refine .bind (keeps_stageRecords stages_ne _ _) fun _ => ?_
      refine .bind (keeps_writeNewSynced stages_ne _ _) fun _ => ?_
      split
      · refine .bind (.ofExcept _) fun bytes => ?_
        exact .bind (keeps_writeNewSynced stages_ne _ _) fun _ => .pure _
      · exact .throw _

section

variable [ReadDir]

theorem keeps_discardStage {batchId : BatchId} : (discardStage batchId).Keeps canonicalGrows := by
  refine .bind (Directory.keeps_local (by decide)) fun _ => ?_
  exact .bind (keeps_removeTree (by decide) _ _ _) fun _ => .pure _

theorem keeps_cleanUnpreparedStages : cleanUnpreparedStages.Keeps canonicalGrows := by
  refine .bind (.readOnly Directory.readOnly_boundedNames) fun names => ?_
  exact .bind (.foldlM (keeps_removeTree (by decide) _) _ _) fun _ => .pure _

theorem keeps_cleanDisposableLocked [Url] : cleanDisposableLocked.Keeps canonicalGrows := by
  refine .bindOf (.readOnly (readOnly_discover.mapError _)) fun s found hfound => ?_
  obtain ⟨-, -, hdisposable⟩ := discover_spec (mapError_eq_ok.mp hfound)
  have hslots : (found.disposable.forM fun slot => do
      if !(← removeSlot slot.1 slot.2) then
        throw (.invalidGitSyncState "disposable pending binding was replaced") : DiskM Unit).Keeps canonicalGrows := by
    refine .forMOf fun slot hslot => ?_
    obtain ⟨raw, hdirectory⟩ := (hdisposable slot hslot).directory
    have harea : slot.2.area ≠ .canonical := by
      rw [hdirectory]
      exact slots_ne
    exact .bind (keeps_removeSlot harea) fun _ => .ite (.throw _) (.pure _)
  split
  · exact .bind (.throw _) fun _ => hslots
  · exact hslots

variable [Jiff] [Blake3]

theorem keeps_recoverOne {store : Store} (batchId : BatchId) : (recoverOne store batchId).Keeps canonicalGrows := by
  refine .bind (.readOnly readOnly_loadStage) fun batch => .bind ?_ fun _ => ?_
  · refine .tryCatch (.reads _) fun e => ?_
    exact .ite (.bind keeps_discardStage fun _ => .throw _) (.throw _)
  · refine .bind (.forM keeps_publishRecord _) fun _ => .bind keeps_linkFdNoClobber fun _ => ?_
    exact keeps_discardStage

theorem keeps_recoverLocked {store : Store} : (recoverLocked store).Keeps canonicalGrows :=
  .bind (.readOnly readOnly_listedJournals) fun _ => .bind (.forM keeps_recoverOne _) fun _ =>
    keeps_cleanUnpreparedStages

variable [Url]

theorem keeps_recoverWithoutSnapshot {store : Store} : (recoverWithoutSnapshot store).Keeps canonicalGrows := by
  refine .bind keeps_cleanDisposableLocked fun _ => .bind (.readOnly readOnly_gateWithoutGit) fun gate => ?_
  refine .ite (.bind (.throw _) fun _ => ?_) ?_
  all_goals exact keeps_recoverLocked

theorem keeps_append {store : Store} {prepared : PreparedBatch} {expected : StoreRevisionRef} :
    (append store prepared expected).Keeps canonicalGrows := by
  refine .bind keeps_recoverWithoutSnapshot fun _ => .bind (.reads _) fun snapshot => ?_
  refine .bind (.readOnly readOnly_requirePendingAllow) fun _ => .bind (.reads _) fun preview => ?_
  cases preview with
  | replay batchId revision => exact .pure _
  | publish revision =>
    refine .bind (.readOnly readOnly_requirePendingAllow) fun _ => ?_
    refine .bind (.bind keeps_writeStage fun _ => keeps_linkFdNoClobber) fun _ => ?_
    exact .bind (keeps_recoverOne _) fun _ => .bind (.reads _) fun _ => .pure _

theorem keeps_previewAppend {store : Store} {prepared : PreparedBatch} {expected : StoreRevisionRef} :
    (previewAppend store prepared expected).Keeps canonicalGrows := by
  refine .bind keeps_recoverWithoutSnapshot fun _ => .bind (.reads _) fun snapshot => ?_
  exact .bind (.readOnly readOnly_requirePendingAllow) fun _ => .reads _

end

end Publication

section Additions

theorem readOnly_byteComponent {directory : Directory} {bytes : Bytes} : (byteComponent directory bytes).ReadOnly := by
  unfold byteComponent
  split
  · exact .throw _
  · exact .pure _

theorem keeps_ensureSyncedBytes {parent : Directory} {bytes : Bytes} :
    (ensureSyncedBytes parent bytes).Keeps canonicalGrows :=
  .bind (.readOnly readOnly_byteComponent) fun _ => .bind Directory.keeps_ensureDir fun _ => .pure _

theorem keeps_targetParent {path : Bytes} : (targetParent path).Keeps canonicalGrows := by
  unfold targetParent
  split
  · refine .ite (.bind (.throw _) fun _ => ?_) ?_
    all_goals exact .bind (.readOnly readOnly_byteComponent) fun _ => .pure _
  · refine .ite (.bind (.throw _) fun _ => ?_) ?_
    all_goals
      exact .bind keeps_ensureSyncedBytes fun _ => .bind (.readOnly readOnly_byteComponent) fun _ => .pure _
  · refine .ite (.bind (.throw _) fun _ => ?_) ?_
    all_goals exact .bind (.readOnly readOnly_byteComponent) fun _ => .pure _
  · refine .ite (.bind (.throw _) fun _ => ?_) ?_
    all_goals
      refine .bind keeps_ensureSyncedBytes fun _ => .bind keeps_ensureSyncedBytes fun _ => ?_
      exact .bind (.readOnly readOnly_byteComponent) fun _ => .pure _
  · exact .throw _

theorem keeps_publishAddition {addition : StagedAddition} : (publishAddition addition).Keeps canonicalGrows :=
  .bind keeps_targetParent fun _ => keeps_linkFdNoClobber

variable [Blake3] [ReadDir] [Url]

theorem keeps_publishAdditions {pending : DurablePending} : (publishAdditions pending).Keeps canonicalGrows := by
  have hrank : ∀ rank, (publishRank pending rank).Keeps canonicalGrows := fun rank =>
    keeps_foldAdditions (fun _ _ => .ite (keeps_liftPending keeps_publishAddition) (.pure _)) ()
  exact .bind (hrank 0) fun _ => hrank 1

end Additions

/-- One durable step of a store: an operation that was cut off after some writes or ran to its end, or any change
outside the canonical area. -/
inductive StoreStep [Jiff] [Blake3] [ReadDir] [Url] (store : Store) : Disk → Disk → Prop
  | append (s : Disk) (prepared : PreparedBatch) (expected : StoreRevisionRef) (n : Nat) :
    StoreStep store s ((Wayjournal.append store prepared expected).cut s n)
  | recoverLocked (s : Disk) (n : Nat) : StoreStep store s ((Wayjournal.recoverLocked store).cut s n)
  | recover (s : Disk) (n : Nat) : StoreStep store s ((recoverWithoutSnapshot store).cut s n)
  | preview (s : Disk) (prepared : PreparedBatch) (expected : StoreRevisionRef) (n : Nat) :
    StoreStep store s ((previewAppend store prepared expected).cut s n)
  | publishAdditions (s : Disk) (pending : DurablePending) (n : Nat) :
    StoreStep store s ((Wayjournal.publishAdditions pending).cut s n)
  | elsewhere (s t : Disk) (h : t .canonical = s .canonical) : StoreStep store s t

end Wayjournal
