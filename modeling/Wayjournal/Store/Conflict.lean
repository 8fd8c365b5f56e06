import Wayjournal.Store.CrashAtomic
import Wayjournal.Store.Immutable
import Wayjournal.Store.Paths

namespace Wayjournal

open Collections Crash Fs FileSystem Text

/-- A canonical path at which the walk over the store finds a file. -/
def VisibleFile (s : Disk) (path bytes : Bytes) : Prop :=
  (classifyPath path).isCanonical = true ∧
    ∃ p, isReached p = true ∧ relative p = path ∧ (s .canonical).get? p = some (.regular bytes)

theorem VisibleFile.mono {s t : Disk} {path bytes : Bytes} (h : VisibleFile s path bytes)
    (hst : canonicalGrows.rel s t) : VisibleFile t path bytes := by
  obtain ⟨hclass, p, hreached, hpath, hget⟩ := h
  exact ⟨hclass, p, hreached, hpath, hst p _ hget⟩

section Targets

variable {s : Disk} {name : Name} {parent : Directory}

theorem bytes_of_component {text : String} (h : (component parent text).result s = .ok name) :
    name.bytes = asBytes text := by
  unfold component at h
  split at h
  · cases h
  · rename_i hparse
    cases h
    exact Name.bytes_of_parse hparse

theorem bytes_of_byteComponent {bytes : Bytes} (h : (byteComponent parent bytes).result s = .ok name) :
    name.bytes = bytes := by
  unfold byteComponent at h
  split at h
  · cases h
  · rename_i hparse
    cases h
    exact Name.bytes_of_parse hparse

theorem child_of_ensureSynced {text : String} {directory : Directory}
    (h : (ensureSynced parent text).result s = .ok directory) :
    ∃ name : Name, name.bytes = asBytes text ∧ directory = parent.child name := by
  unfold ensureSynced at h
  obtain ⟨name, hname, h⟩ := Program.bind_eq_ok.mp h
  obtain ⟨⟨child, created⟩, hchild, h⟩ := Program.bind_eq_ok.mp h
  cases h
  exact ⟨name, bytes_of_component hname, Directory.child_of_ensureDir hchild⟩

theorem child_of_ensureSyncedBytes {bytes : Bytes} {directory : Directory}
    (h : (ensureSyncedBytes parent bytes).result s = .ok directory) :
    ∃ name : Name, name.bytes = bytes ∧ directory = parent.child name := by
  unfold ensureSyncedBytes at h
  obtain ⟨name, hname, h⟩ := Program.bind_eq_ok.mp h
  obtain ⟨⟨child, created⟩, hchild, h⟩ := Program.bind_eq_ok.mp h
  cases h
  exact ⟨name, bytes_of_byteComponent hname, Directory.child_of_ensureDir hchild⟩

/-- A place below the canonical root that stands for a path. -/
def Targets (path : Bytes) (target : Directory × Name) : Prop :=
  target.1.area = .canonical ∧ relative (target.1.path ++ [target.2]) = path

theorem targets_of_recordTargetParent {target : String} {place : Directory × Name}
    (h : (recordTargetParent target).result s = .ok place) : Targets (asBytes target) place := by
  unfold recordTargetParent at h
  split at h
  · rename_i journal records domain entity file hsplit
    split at h
    · cases h
    · rename_i hroot
      simp only [Bool.or_eq_true, decide_eq_true_eq, not_or, ne_eq, not_not] at hroot
      obtain ⟨rfl, rfl⟩ := hroot
      obtain ⟨first, hfirst, h⟩ := Program.bind_eq_ok.mp h
      obtain ⟨second, hsecond, h⟩ := Program.bind_eq_ok.mp h
      obtain ⟨name, hname, h⟩ := Program.bind_eq_ok.mp h
      obtain ⟨domainName, hdomain, rfl⟩ := child_of_ensureSynced hfirst
      obtain ⟨entityName, hentity, rfl⟩ := child_of_ensureSynced hsecond
      have hfile := bytes_of_component hname
      cases h
      refine ⟨rfl, ?_⟩
      rw [← joinPath_splitPath target, hsplit]
      refine relative_eq_asBytes ?_
      simp only [Directory.child, Store.recordsDir, List.cons_append, List.nil_append, List.map_cons,
        List.map_nil, hdomain, hentity, hfile]
      rfl
  · cases h

theorem targets_of_components {path : Bytes} {place : Directory × Name} (harea : place.1.area = .canonical)
    (h : (place.1.path ++ [place.2]).map Name.bytes = path.splitOn SLASH) : Targets path place := by
  refine ⟨harea, ?_⟩
  rw [relative, h, List.intercalate_splitOn]

theorem targets_of_targetParent {path : Bytes} {place : Directory × Name}
    (h : (targetParent path).result s = .ok place) : Targets path place := by
  unfold targetParent at h
  split at h
  · rename_i root file hclass hsplit
    split at h
    · cases h
    · rename_i hroot
      obtain ⟨name, hname, h⟩ := Program.bind_eq_ok.mp h
      have hfile := bytes_of_byteComponent hname
      cases h
      refine targets_of_components rfl ?_
      rw [hsplit, not_not.mp hroot, ← hfile]
      rfl
  · rename_i root entity file hclass hsplit
    split at h
    · cases h
    · rename_i hroot
      obtain ⟨directory, hdirectory, h⟩ := Program.bind_eq_ok.mp h
      obtain ⟨name, hname, h⟩ := Program.bind_eq_ok.mp h
      obtain ⟨entityName, hentity, rfl⟩ := child_of_ensureSyncedBytes hdirectory
      have hfile := bytes_of_byteComponent hname
      cases h
      refine targets_of_components rfl ?_
      rw [hsplit, not_not.mp hroot, ← hfile, ← hentity]
      rfl
  · rename_i root batches file hclass hsplit
    split at h
    · cases h
    · rename_i hroot
      simp only [Bool.or_eq_true, decide_eq_true_eq, not_or, ne_eq, not_not] at hroot
      obtain ⟨name, hname, h⟩ := Program.bind_eq_ok.mp h
      have hfile := bytes_of_byteComponent hname
      cases h
      refine targets_of_components rfl ?_
      rw [hsplit, hroot.1, hroot.2, ← hfile]
      rfl
  · rename_i root records domain entity file hclass hsplit
    split at h
    · cases h
    · rename_i hroot
      simp only [Bool.or_eq_true, decide_eq_true_eq, not_or, ne_eq, not_not] at hroot
      obtain ⟨first, hfirst, h⟩ := Program.bind_eq_ok.mp h
      obtain ⟨second, hsecond, h⟩ := Program.bind_eq_ok.mp h
      obtain ⟨name, hname, h⟩ := Program.bind_eq_ok.mp h
      obtain ⟨domainName, hdomain, rfl⟩ := child_of_ensureSyncedBytes hfirst
      obtain ⟨entityName, hentity, rfl⟩ := child_of_ensureSyncedBytes hsecond
      have hfile := bytes_of_byteComponent hname
      cases h
      refine targets_of_components rfl ?_
      rw [hsplit, hroot.1, hroot.2, ← hfile, ← hentity, ← hdomain]
      rfl
  · cases h

end Targets

section Elsewhere

variable {area : Area} {d : Directory} {name : Name}

theorem Directory.keeps_other {operation : String} {f : FileSystem Name → Except Errno (FileSystem Name)}
    (h : d.area ≠ area) : (d.change operation name f).Keeps (.same (Disk.view area)) := by
  refine .update fun s t ht => ?_
  split at ht
  · cases ht
  · cases ht
    exact Disk.set_of_ne s (Ne.symm h) _

theorem Directory.keeps_other_ensureDir (h : d.area ≠ area) : (d.ensureDir name).Keeps (.same (Disk.view area)) := by
  refine .bind (.reads _) fun found => ?_
  cases found with
  | none => exact .bind (keeps_other h) fun _ => .bind (.readOnly readOnly_openDir) fun _ => .pure _
  | some e =>
    refine .ite (.bind (.throw _) fun _ => ?_) ?_
    all_goals exact .bind (.readOnly readOnly_openDir) fun _ => .pure _

theorem keeps_other_linkFdNoClobber {source expected : Bytes} (h : d.area ≠ area) :
    (linkFdNoClobber source d name expected).Keeps (.same (Disk.view area)) := by
  refine .bind (.reads _) fun found => ?_
  cases found with
  | none => exact Directory.keeps_other h
  | some e =>
    cases e with
    | regular actual => exact .ite (.throw _) (.pure _)
    | _ => exact .throw _

theorem keeps_other_ensureSyncedBytes {bytes : Bytes} (h : d.area ≠ area) :
    (ensureSyncedBytes d bytes).Keeps (.same (Disk.view area)) :=
  .bind (.readOnly readOnly_byteComponent) fun _ => .bind (Directory.keeps_other_ensureDir h) fun _ => .pure _

theorem keeps_other_targetParent (h : area ≠ .canonical) (path : Bytes) :
    (targetParent path).Keeps (.same (Disk.view area)) := by
  have hcanonical : Area.canonical ≠ area := Ne.symm h
  unfold targetParent
  split
  · refine .ite (.bind (.throw _) fun _ => ?_) ?_
    all_goals exact .bind (.readOnly readOnly_byteComponent) fun _ => .pure _
  · refine .ite (.bind (.throw _) fun _ => ?_) ?_
    all_goals
      refine .bind (keeps_other_ensureSyncedBytes hcanonical) fun _ => ?_
      exact .bind (.readOnly readOnly_byteComponent) fun _ => .pure _
  · refine .ite (.bind (.throw _) fun _ => ?_) ?_
    all_goals exact .bind (.readOnly readOnly_byteComponent) fun _ => .pure _
  · refine .ite (.bind (.throw _) fun _ => ?_) ?_
    all_goals
      refine .bindOf (keeps_other_ensureSyncedBytes hcanonical) fun s directory hdirectory => ?_
      obtain ⟨domain, -, rfl⟩ := child_of_ensureSyncedBytes hdirectory
      refine .bind (keeps_other_ensureSyncedBytes hcanonical) fun _ => ?_
      exact .bind (.readOnly readOnly_byteComponent) fun _ => .pure _
  · exact .throw _

/-- A publication writes nothing but canonical entries. -/
theorem keeps_other_publishAddition (h : area ≠ .canonical) (addition : StagedAddition) :
    (publishAddition addition).Keeps (.same (Disk.view area)) := by
  refine .bindOf (keeps_other_targetParent h _) fun s place hplace => ?_
  obtain ⟨harea, -⟩ := targets_of_targetParent hplace
  refine keeps_other_linkFdNoClobber ?_
  rw [harea]
  exact Ne.symm h

end Elsewhere

section Occupied

variable {s : Disk} {path actual : Bytes}

/-- The link primitive refuses a place that other bytes hold. -/
theorem linkFdNoClobber_occupied {source expected : Bytes} {place : Directory × Name} (hvisible : VisibleFile s path actual)
    (hplace : Targets path place) (hne : actual ≠ expected) :
    (linkFdNoClobber source place.1 place.2 expected).result s =
      .error (.publicationConflict (place.1.join place.2)) := by
  obtain ⟨-, p, hreached, hpath, hget⟩ := hvisible
  have hp : p = place.1.path ++ [place.2] :=
    relative_injective (ne_nil_of_isReached hreached) (by simp) (hpath.trans hplace.2.symm)
  have hentry : place.1.child? place.2 s = some (.regular actual) := by
    rw [Directory.child?, hplace.1, ← hp]
    exact hget
  rw [linkFdNoClobber, Program.result_bind (.reads _), Program.result_reads, hentry]
  exact congrArg (fun p : DiskM Unit => p.result s) (if_pos hne)

theorem publishRecord_occupied {record : StagedRecord} (hvisible : VisibleFile s (asBytes record.target) actual)
    (hne : actual ≠ record.bytes) : (publishRecord record).result s ≠ .ok () := by
  intro h
  obtain ⟨place, hplace, h⟩ := Program.bind_eq_ok.mp h
  have hlater : VisibleFile ((recordTargetParent record.target).final s) _ actual :=
    hvisible.mono (keeps_recordTargetParent.final s)
  rw [linkFdNoClobber_occupied hlater (targets_of_recordTargetParent hplace) hne] at h
  cases h

theorem publishAddition_occupied {addition : StagedAddition} (hvisible : VisibleFile s addition.path actual)
    (hne : actual ≠ addition.bytes) : (publishAddition addition).result s ≠ .ok () := by
  intro h
  obtain ⟨place, hplace, h⟩ := Program.bind_eq_ok.mp h
  have hlater : VisibleFile ((targetParent addition.path).final s) _ actual :=
    hvisible.mono (keeps_targetParent.final s)
  rw [linkFdNoClobber_occupied hlater (targets_of_targetParent hplace) hne] at h
  cases h

section

variable [Jiff] [Blake3]

/-- A batch is published only where none of its paths is taken. -/
theorem not_visible_of_publish {store : Store} {prepared : PreparedBatch} {snapshot : StoreSnapshot}
    {expected revision : StoreRevisionRef} {file : RawFile} (hfile : file ∈ prepared.files)
    (h : previewFromSnapshot store snapshot prepared expected s = .ok (.publish revision)) :
    ¬ VisibleFile s file.path actual := by
  rintro ⟨-, p, hreached, hpath, hget⟩
  unfold previewFromSnapshot at h
  obtain ⟨-, h⟩ := guard_bind_eq_ok.mp h
  obtain ⟨found?, -, h⟩ := except_bind_eq_ok.mp h
  cases found? with
  | some batchId => cases h
  | none =>
    obtain ⟨candidate, hcandidate, -⟩ := except_bind_eq_ok.mp h
    unfold validateCandidate at hcandidate
    obtain ⟨found, hfound, hcandidate⟩ := except_bind_eq_ok.mp hcandidate
    obtain ⟨_, -, hcandidate⟩ := except_bind_eq_ok.mp hcandidate
    obtain ⟨files, hfiles, -⟩ := except_bind_eq_ok.mp hcandidate
    obtain ⟨-, rfl⟩ := visibleInventory_eq_ok.mp hfound
    have hperm := sortFiles_perm ((visibleEntries s).filterMap fileOf)
    have hnodup := (foldlM_addFile hfiles ((hperm.map _).nodup_iff.mpr (nodup_files (nodup_visible s)))).2
    have hmem : (⟨relative p, actual⟩ : RawFile) ∈ sortFiles ((visibleEntries s).filterMap fileOf) :=
      hperm.mem_iff.mpr (List.mem_filterMap.mpr ⟨(p, .regular actual), mem_visibleEntries.mpr ⟨hget, hreached⟩, rfl⟩)
    rw [List.map_append, List.nodup_append] at hnodup
    exact hnodup.2.2 _ (List.mem_map_of_mem hmem) _ (List.mem_map_of_mem hfile) hpath

variable [ReadDir]

/-- The files that recovery publishes for a staged batch. -/
def StagedBatch.files (batch : StagedBatch) : List RawFile :=
  batch.records.map (fun r => ⟨asBytes r.target, r.bytes⟩) ++
    [⟨asBytes batch.manifest.manifest.canonicalPath, batch.manifest.bytes⟩]

theorem recoverOne_occupied {store : Store} {batchId : BatchId} {batch : StagedBatch} {file : RawFile}
    (hbatch : (loadStage store batchId).result s = .ok batch) (hfile : file ∈ batch.files)
    (hvisible : VisibleFile s file.path actual) (hne : actual ≠ file.bytes) :
    (recoverOne store batchId).result s ≠ .ok () := by
  intro h
  unfold recoverOne at h
  obtain ⟨loaded, hloaded, h⟩ := (Program.result_bind_eq_ok readOnly_loadStage).mp h
  rw [hbatch] at hloaded
  cases hloaded
  obtain ⟨_, -, h⟩ := Program.bind_eq_ok.mp h
  have hbase : canonicalGrows.rel s ((Program.tryCatch
      (.reads (validateRecoveryBase store batch.journal batch.manifest batch.records)) fun error => do
        if error.isInvalidDomainFold then discardStage batchId
        throw error).final s) :=
    (Program.Keeps.tryCatch (.reads _) fun _ => .ite (.bind keeps_discardStage fun _ => .throw _) (.throw _)).final s
  obtain ⟨_, hrecords, h⟩ := Program.bind_eq_ok.mp h
  obtain ⟨_, hmanifest, -⟩ := Program.bind_eq_ok.mp h
  obtain hfile | hfile := List.mem_append.mp hfile
  · obtain ⟨record, hrecord, rfl⟩ := List.mem_map.mp hfile
    refine Program.forM_ne_ok (G := canonicalGrows) keeps_publishRecord hrecord (fun t ht => ?_) hrecords
    exact publishRecord_occupied (hvisible.mono (canonicalGrows.trans hbase ht)) hne
  · obtain rfl := List.mem_singleton.mp hfile
    have hplace : Targets (asBytes batch.manifest.manifest.canonicalPath)
        (Store.journalBatchesDir, BatchId.journalName batch.manifest.manifest.batchId) :=
      ⟨rfl, batch.manifest.manifest.relative_key⟩
    have hlater := hvisible.mono (canonicalGrows.trans hbase
      ((Program.Keeps.forM keeps_publishRecord batch.records).final _))
    rw [linkFdNoClobber_occupied hlater hplace hne] at hmanifest
    cases hmanifest

variable [Url]

theorem previewAppend_occupied {store : Store} {prepared : PreparedBatch} {expected revision : StoreRevisionRef}
    {file : RawFile} (hfile : file ∈ prepared.files) (hvisible : VisibleFile s file.path actual) :
    (previewAppend store prepared expected).result s ≠ .ok (.publish revision) := by
  intro h
  obtain ⟨_, -, h⟩ := Program.bind_eq_ok.mp h
  obtain ⟨snapshot, -, h⟩ := (Program.result_bind_eq_ok (.reads _)).mp h
  obtain ⟨_, -, h⟩ := (Program.result_bind_eq_ok readOnly_requirePendingAllow).mp h
  exact not_visible_of_publish hfile h (hvisible.mono (keeps_recoverWithoutSnapshot.final s))

theorem append_occupied {store : Store} {prepared : PreparedBatch} {expected revision : StoreRevisionRef}
    {batchId : BatchId} {file : RawFile} (hfile : file ∈ prepared.files) (hvisible : VisibleFile s file.path actual) :
    (append store prepared expected).result s ≠ .ok (.published batchId revision) := by
  intro h
  obtain ⟨_, -, h⟩ := Program.bind_eq_ok.mp h
  obtain ⟨snapshot, -, h⟩ := (Program.result_bind_eq_ok (.reads _)).mp h
  obtain ⟨_, -, h⟩ := (Program.result_bind_eq_ok readOnly_requirePendingAllow).mp h
  obtain ⟨preview, hpreview, h⟩ := (Program.result_bind_eq_ok (.reads _)).mp h
  cases preview with
  | replay batchId revision => cases h
  | publish revision =>
    exact not_visible_of_publish hfile hpreview (hvisible.mono (keeps_recoverWithoutSnapshot.final s))

end

section

variable [Blake3] [ReadDir] [Url] {pending : DurablePending} {additions : List StagedAddition}

/-- The two passes over the additions of a slot. -/
theorem publishRank_eq (hslot : pending.directory.area = .syncPending)
    (h : (stagedAdditions pending).result s = .ok additions) (rank : Nat) {t : Disk}
    (ht : t .syncPending = s .syncPending) :
    publishRank pending rank t = (additions.foldlM (fun _ addition => do
      if publicationRank addition.path = rank then publishAddition addition) () : PendingM Unit) t := by
  refine foldAdditions_eq hslot (fun _ addition => ?_) h ht ()
  exact .ite (keeps_liftPending (keeps_other_publishAddition (by decide) addition)) (.pure _)

theorem publishRank_occupied {addition : StagedAddition} (hslot : pending.directory.area = .syncPending)
    (h : (stagedAdditions pending).result s = .ok additions) (haddition : addition ∈ additions) {t : Disk}
    (ht : t .syncPending = s .syncPending) (hvisible : VisibleFile t addition.path actual)
    (hne : actual ≠ addition.bytes) :
    (publishRank pending (publicationRank addition.path)).result t ≠ .ok () := by
  rw [Program.result, publishRank_eq hslot h _ ht]
  refine Program.foldlM_ne_ok (G := canonicalGrows) (fun _ other => ?_) haddition (fun u _ _ hu => ?_) _ _
  · exact .ite (keeps_liftPending keeps_publishAddition) (.pure _)
  · rw [if_pos rfl]
    exact fun hok => publishAddition_occupied (hvisible.mono hu) hne (mapError_eq_ok.mp hok)

theorem publishAdditions_occupied {addition : StagedAddition} (hslot : pending.directory.area = .syncPending)
    (h : (stagedAdditions pending).result s = .ok additions) (haddition : addition ∈ additions)
    (hvisible : VisibleFile s addition.path actual) (hne : actual ≠ addition.bytes) :
    (publishAdditions pending).result s ≠ .ok () := by
  intro hok
  obtain ⟨_, hfirst, hsecond⟩ := Program.bind_eq_ok.mp hok
  have hrank : publicationRank addition.path = 0 ∨ publicationRank addition.path = 1 := by
    have hcanonical := hvisible.1
    unfold publicationRank
    revert hcanonical
    cases classifyPath addition.path <;> decide
  have hgrows : canonicalGrows.rel s ((publishRank pending 0).final s) :=
    (keeps_foldAdditions (fun _ _ => .ite (keeps_liftPending keeps_publishAddition) (.pure _)) ()).final s
  have hsame : (publishRank pending 0).final s .syncPending = s .syncPending :=
    (keeps_foldAdditions (G := .same (Disk.view .syncPending)) (fun _ addition =>
      .ite (keeps_liftPending (keeps_other_publishAddition (by decide) addition)) (.pure _)) ()).final s
  obtain hzero | hone := hrank
  · rw [← hzero] at hfirst
    exact publishRank_occupied hslot h haddition rfl hvisible hne hfirst
  · rw [← hone] at hsecond
    exact publishRank_occupied hslot h haddition hsame (hvisible.mono hgrows) hne hsecond

end

end Occupied

section

variable [Jiff] [Blake3] [ReadDir] [Url] {store : Store} {s t : Disk}

theorem StoreStep.grows (h : StoreStep store s t) : canonicalGrows.rel s t := by
  cases h with
  | append prepared expected n => exact keeps_append.cut s n
  | recoverLocked n => exact keeps_recoverLocked.cut s n
  | recover n => exact keeps_recoverWithoutSnapshot.cut s n
  | preview prepared expected n => exact keeps_previewAppend.cut s n
  | publishAdditions pending n => exact keeps_publishAdditions.cut s n
  | elsewhere _ hsame =>
    intro p e hget
    rw [hsame]
    exact hget

/-- A file that is visible stays as it is in every later state, and an operation that would put other bytes in its
place is refused: recovery and the publication of staged additions fail, and an append or a preview does not publish. -/
theorem canonical_files_immutable (store : Store) :
    (∀ s t path bytes, Relation.ReflTransGen (StoreStep store) s t → VisibleFile s path bytes →
      VisibleFile t path bytes) ∧
    ∀ s path actual, VisibleFile s path actual →
      (∀ batchId batch, (loadStage store batchId).result s = .ok batch →
        (∃ file ∈ batch.files, file.path = path ∧ file.bytes ≠ actual) →
        ∃ e, (recoverOne store batchId).result s = .error e) ∧
      (∀ pending additions, pending.directory.area = .syncPending →
        (stagedAdditions pending).result s = .ok additions →
        (∃ addition ∈ additions, addition.path = path ∧ addition.bytes ≠ actual) →
        ∃ e, (publishAdditions pending).result s = .error e) ∧
      ∀ prepared expected, (∃ file ∈ prepared.files, file.path = path ∧ file.bytes ≠ actual) →
        (∀ batchId revision, (append store prepared expected).result s ≠ .ok (.published batchId revision)) ∧
        ∀ revision, (previewAppend store prepared expected).result s ≠ .ok (.publish revision) := by
  refine ⟨?_, ?_⟩
  · intro s t path bytes hrun hvisible
    induction hrun with
    | refl => exact hvisible
    | tail _ hstep ih => exact ih.mono hstep.grows
  · intro s path actual hvisible
    refine ⟨?_, ?_, ?_⟩
    · rintro batchId batch hbatch ⟨file, hfile, rfl, hne⟩
      exact error_of_ne_ok (recoverOne_occupied hbatch hfile hvisible (Ne.symm hne))
    · rintro pending additions hslot hadditions ⟨addition, haddition, rfl, hne⟩
      exact error_of_ne_ok (publishAdditions_occupied hslot hadditions haddition hvisible (Ne.symm hne))
    · rintro prepared expected ⟨file, hfile, rfl, hne⟩
      exact ⟨fun _ _ => append_occupied hfile hvisible, fun _ => previewAppend_occupied hfile hvisible⟩

end

attribute [local instance] Sample.jiff Sample.blake3 Sample.url Sample.readDir

/-- A store in which other bytes stand at the place of the note. -/
def Sample.occupied : Disk :=
  let domain := canonical.place [.journal, .records] (domainName note.domain) .directory (.inr (by decide +kernel))
    (by decide +kernel)
  let entity := domain.place [.journal, .records, domainName note.domain] (uuidName note.entityId.uuid) .directory
    (.inr (by decide +kernel)) (by decide +kernel)
  let file := entity.place [.journal, .records, domainName note.domain, uuidName note.entityId.uuid]
    (uuidJsonName note.recordId.uuid) (.regular [0x7b]) (.inr (by decide +kernel)) (by decide +kernel)
  fun area => if area = .canonical then file else ∅

theorem Sample.visible_occupied : VisibleFile occupied (asBytes note.canonicalPath) [0x7b] := by
  refine ⟨?_, note.key, isReached_recordKey note, note.relative_key, by decide +kernel⟩
  rw [note.classifyPath_canonicalPath]
  rfl

/-- The note is not published over the other bytes, and they are still there when its append was cut off. -/
theorem canonical_files_immutable_note :
    ∃ prepared, prepareBatch [Sample.note] "first" Sample.registry = .ok prepared ∧
      ∀ expected n, VisibleFile ((append Sample.store prepared expected).cut Sample.occupied n)
          (asBytes Sample.note.canonicalPath) [0x7b] ∧
        ∀ batchId revision, (append Sample.store prepared expected).result Sample.occupied ≠
          .ok (.published batchId revision) := by
  obtain ⟨prepared, hprepare, hrecords⟩ :=
    prepareBatch_singleton "first" (Sample.encodeRecord_nested (n := 1) (by decide))
  refine ⟨prepared, hprepare, fun expected n => ⟨?_, ?_⟩⟩
  · exact (canonical_files_immutable Sample.store).1 _ _ _ _ (.single (.append _ prepared expected n))
      Sample.visible_occupied
  · refine (((canonical_files_immutable Sample.store).2 _ _ _ Sample.visible_occupied).2.2 prepared expected ?_).1
    refine ⟨⟨asBytes Sample.note.canonicalPath, Json.print 0 (envelope Sample.note).raw ++ [0x0a]⟩, ?_, rfl, ?_⟩
    · rw [PreparedBatch.files, hrecords]
      exact List.mem_append_left _ (List.mem_singleton_self _)
    · intro heq
      have hlast := congrArg List.getLast? heq
      rw [List.getLast?_append] at hlast
      cases hlast

end Wayjournal
