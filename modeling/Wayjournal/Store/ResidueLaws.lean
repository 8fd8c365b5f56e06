import Wayjournal.Crash.Fault
import Wayjournal.Store.Immutable
import Wayjournal.Store.RecoverLaws

namespace Wayjournal

open Collections Crash Fs FileSystem Text

/-- Only what stands at or below a path of one area changes. -/
def within (area : Area) (p : List Name) : Guarantee Disk where
  rel s t := (∀ a, a ≠ area → t a = s a) ∧ ∀ k, ¬p <+: k → (t area).get? k = (s area).get? k
  refl _ := ⟨fun _ _ => rfl, fun _ _ => rfl⟩
  trans h₁ h₂ := ⟨fun a ha => (h₂.1 a ha).trans (h₁.1 a ha), fun k hk => (h₂.2 k hk).trans (h₁.2 k hk)⟩

/-- Of the journals and the stages only those of one batch change. -/
def ownResidue (batchId : BatchId) : Guarantee Disk where
  rel s t := (∀ k, ¬[batchId.journalName] <+: k → (t .recovery).get? k = (s .recovery).get? k) ∧
    ∀ k, ¬[batchId.stageName] <+: k → (t .stages).get? k = (s .stages).get? k
  refl _ := ⟨fun _ _ => rfl, fun _ _ => rfl⟩
  trans h₁ h₂ := ⟨fun k hk => (h₂.1 k hk).trans (h₁.1 k hk), fun k hk => (h₂.2 k hk).trans (h₁.2 k hk)⟩

theorem within_mono {area : Area} {p q : List Name} (h : q <+: p) {s t : Disk} (hrel : (within area p).rel s t) :
    (within area q).rel s t :=
  ⟨hrel.1, fun k hk => hrel.2 k fun hp => hk (h.trans hp)⟩

section

variable {batchId : BatchId} {s t : Disk}

theorem ownResidue_of_canonical (h : (within .canonical []).rel s t) : (ownResidue batchId).rel s t :=
  ⟨fun k _ => by rw [h.1 .recovery (by decide)], fun k _ => by rw [h.1 .stages (by decide)]⟩

theorem ownResidue_of_stage (h : (within .stages [batchId.stageName]).rel s t) : (ownResidue batchId).rel s t :=
  ⟨fun k _ => by rw [h.1 .recovery (by decide)], h.2⟩

theorem ownResidue_of_journal (h : (within .recovery [batchId.journalName]).rel s t) : (ownResidue batchId).rel s t :=
  ⟨h.2, fun k _ => by rw [h.1 .stages (by decide)]⟩

end

/-- A directory whose root has no entry is empty. -/
theorem eq_empty_of_root {fs : FileSystem Name} (h : ∀ n, fs.get? [n] = none) : fs = ∅ := by
  refine ext_get? fun k => ?_
  rw [get?_empty, Option.eq_none_iff_forall_ne_some]
  intro e he
  have hne : [] ≠ k := by
    rintro rfl
    rw [get?_root] at he
    cases he
  obtain ⟨n, hn, -⟩ := under_names he List.nil_prefix hne
  obtain ⟨e', he'⟩ := mem_names.mp hn
  rw [List.nil_append, h n] at he'
  cases he'

/-- A batch staged where nothing stood and recovered leaves nothing. -/
theorem residue_of_recoverOne {batchId : BatchId} {s t : Disk} (hrecovery : s .recovery = ∅) (hstages : s .stages = ∅)
    (hown : (ownResidue batchId).rel s t) (hjournal : Store.recoveryDir.child? batchId.journalName t = none)
    (hstage : Store.stagesDir.child? batchId.stageName t = none) : t .recovery = ∅ ∧ t .stages = ∅ := by
  constructor
  · refine eq_empty_of_root fun n => ?_
    by_cases hname : n = batchId.journalName
    · subst hname
      exact hjournal
    · rw [hown.1 [n] fun hbelow => hname (List.cons_prefix_cons.mp hbelow).1.symm, hrecovery, get?_empty]
  · refine eq_empty_of_root fun n => ?_
    by_cases hname : n = batchId.stageName
    · subst hname
      exact hstage
    · rw [hown.2 [n] fun hbelow => hname (List.cons_prefix_cons.mp hbelow).1.symm, hstages, get?_empty]

namespace Directory

variable {d : Directory} {name : Name} {operation : String}
  {f : FileSystem Name → Except Errno (FileSystem Name)}

/-- A change of one entry stays at that entry. -/
theorem within_change (h : ∀ fs gs, f fs = .ok gs → ∃ e, fs.Sets (d.path ++ [name]) e gs) :
    (d.change operation name f).Keeps (within d.area (d.path ++ [name])) := by
  refine .update fun s t ht => ?_
  split at ht
  · cases ht
  · rename_i fs hfs
    cases ht
    obtain ⟨e, hsets⟩ := h _ _ hfs
    refine ⟨fun a ha => Disk.set_of_ne _ ha _, fun k hk => ?_⟩
    rw [Disk.set_same, hsets.elsewhere k]
    rintro rfl
    exact hk (List.prefix_refl _)

theorem within_create {e : Entry} :
    (d.change operation name (·.create d.path name e)).Keeps (within d.area (d.path ++ [name])) :=
  within_change fun _ _ h => ⟨_, (sets_of_create h).2.2⟩

theorem within_writeAll {bytes : Bytes} : (d.writeAll name bytes).Keeps (within d.area (d.path ++ [name])) :=
  within_change fun _ _ h => ⟨_, (sets_of_write h).2⟩

theorem within_unlinkFile : (d.unlinkFile name).Keeps (within d.area (d.path ++ [name])) :=
  within_change fun _ _ h => ⟨_, sets_of_unlink h⟩

theorem within_unlinkDir : (d.unlinkDir name).Keeps (within d.area (d.path ++ [name])) :=
  within_change fun _ _ h => ⟨_, sets_of_rmdir h⟩

theorem within_ensureDir : (d.ensureDir name).Keeps (within d.area (d.path ++ [name])) := by
  refine .bind (.reads _) fun found => ?_
  cases found with
  | none => exact .bind within_create fun _ => .bind (.readOnly readOnly_openDir) fun _ => .pure _
  | some e =>
    refine .ite (.bind (.throw _) fun _ => ?_) ?_
    all_goals exact .bind (.readOnly readOnly_openDir) fun _ => .pure _

theorem wp_unlinkFile_gone {s : Disk} :
    (d.unlinkFile name).wp (fun _ => True) (fun _ t => d.child? name t = none) (fun _ _ => True) s := by
  refine wp_change_any (fun fs hfs => ⟨trivial, ?_⟩) fun _ => trivial
  rw [Directory.child?, Disk.set_same]
  exact (sets_of_unlink hfs).here

theorem wp_unlinkDir_gone {s : Disk} :
    (d.unlinkDir name).wp (fun _ => True) (fun _ t => d.child? name t = none) (fun _ _ => True) s := by
  refine wp_change_any (fun fs hfs => ⟨trivial, ?_⟩) fun _ => trivial
  rw [Directory.child?, Disk.set_same]
  exact (sets_of_rmdir hfs).here

end Directory

section Publication

theorem within_linkFdNoClobber {source expected : Bytes} {d : Directory} {name : Name} :
    (linkFdNoClobber source d name expected).Keeps (within d.area (d.path ++ [name])) := by
  refine .bind (.reads _) fun found => ?_
  cases found with
  | none => exact Directory.within_create
  | some e =>
    cases e with
    | regular actual => exact .ite (.throw _) (.pure _)
    | _ => exact .throw _

theorem within_writeNewSynced {d : Directory} {name : Name} {bytes : Bytes} :
    (writeNewSynced d name bytes).Keeps (within d.area (d.path ++ [name])) :=
  .bind Directory.within_create fun _ => Directory.within_writeAll

/-- The areas other than the canonical one stay as they are. -/
theorem within_ensureSynced {parent : Directory} {text : String} (h : parent.area = .canonical) :
    (ensureSynced parent text).Keeps (within .canonical []) := by
  refine .bind (.readOnly readOnly_component) fun name => .bind ?_ fun _ => .pure _
  rw [← h]
  exact Directory.within_ensureDir.mono fun _ _ => within_mono List.nil_prefix

theorem area_of_ensureSynced {parent directory : Directory} {text : String} {s : Disk}
    (h : (ensureSynced parent text).result s = .ok directory) : directory.area = parent.area := by
  obtain ⟨name, -, h⟩ := Program.bind_eq_ok.mp h
  obtain ⟨⟨child, created⟩, hchild, h⟩ := Program.bind_eq_ok.mp h
  cases h
  rw [show directory = _ from Directory.child_of_ensureDir hchild]
  rfl

theorem within_publishRecord (record : StagedRecord) : (publishRecord record).Keeps (within .canonical []) := by
  have hparent : (recordTargetParent record.target).Keeps (within .canonical []) := by
    unfold recordTargetParent
    split
    · refine .ite (.bind (.throw _) fun _ => ?_) ?_
      all_goals
        refine .bindOf (within_ensureSynced rfl) fun s domain hdomain => ?_
        refine .bind (within_ensureSynced (area_of_ensureSynced hdomain)) fun entity => ?_
        exact .bind (.readOnly readOnly_component) fun _ => .pure _
    · exact .throw _
  refine .bindOf hparent fun s (directory, name) hdirectory => ?_
  have harea : directory.area = .canonical := by
    unfold recordTargetParent at hdirectory
    split at hdirectory
    · split at hdirectory
      · cases hdirectory
      · obtain ⟨domain, hdomain, hdirectory⟩ := Program.bind_eq_ok.mp hdirectory
        obtain ⟨entity, hentity, hdirectory⟩ := Program.bind_eq_ok.mp hdirectory
        obtain ⟨file, -, hdirectory⟩ := Program.bind_eq_ok.mp hdirectory
        cases hdirectory
        exact (area_of_ensureSynced hentity).trans (area_of_ensureSynced hdomain)
    · cases hdirectory
  rw [← harea]
  exact within_linkFdNoClobber.mono fun _ _ => within_mono List.nil_prefix

theorem within_stageRecords [Jiff] {records : Directory} (index : Nat) (prepared : List PreparedRecord) :
    (stageRecords records index prepared).Keeps (within records.area records.path) := by
  induction prepared generalizing index with
  | nil => exact .pure _
  | cons record rest ih =>
    refine .bind ?_ fun _ => ih (index + 1)
    exact within_writeNewSynced.mono fun _ _ => within_mono (List.prefix_append _ _)

variable [Jiff] [Blake3] {prepared : PreparedBatch} {base : StoreRevisionRef}

theorem within_writeStage :
    (writeStage prepared base).Keeps (within .stages [prepared.manifest.batchId.stageName]) := by
  unfold writeStage
  refine .bindOf (Directory.within_ensureDir (d := Store.stagesDir)) fun s (stage, created) hstage => ?_
  obtain rfl : stage = _ := Directory.child_of_ensureDir hstage
  refine .ite (.bind (.throw _) fun _ => ?_) ?_
  all_goals
    refine .bindOf (Directory.within_ensureDir.mono fun _ _ => within_mono (List.prefix_append _ _))
      fun s (records, created) hrecords => ?_
    obtain rfl : records = _ := Directory.child_of_ensureDir hrecords
    refine .ite (.bind (.throw _) fun _ => ?_) ?_
    all_goals
      refine .bind ((within_stageRecords _ _).mono fun _ _ => within_mono (List.prefix_append _ _)) fun _ => ?_
      refine .bind (within_writeNewSynced.mono fun _ _ => within_mono (List.prefix_append _ _)) fun _ => ?_
      split
      · refine .bind (.ofExcept _) fun bytes => .bind ?_ fun _ => .pure _
        exact within_writeNewSynced.mono fun _ _ => within_mono (List.prefix_append _ _)
      · exact .throw _

theorem ownResidue_stageBatch : (stageBatch prepared base).Keeps (ownResidue prepared.manifest.batchId) :=
  .bind (within_writeStage.mono fun _ _ => ownResidue_of_stage) fun _ =>
    within_linkFdNoClobber.mono fun _ _ => ownResidue_of_journal

end Publication

section Removal

theorem name_of_journalId {batchId : BatchId} {name : Name} {s : Disk} (h : (journalId name).result s = .ok batchId) :
    name = batchId.journalName := by
  unfold journalId at h
  split at h
  · rename_i text htext
    obtain ⟨kind, -, h⟩ := (Program.result_bind_eq_ok Directory.readOnly_kind).mp h
    obtain ⟨-, h⟩ := Program.guard_eq_ok.mp h
    split at h
    · rename_i stem hstem
      split at h
      · rename_i id hid
        cases h
        apply Name.bytes_injective
        rw [← asBytes_of_fromUtf8 htext, append_of_stripJson hstem, ← FromStr.toText_of_fromStr hid]
        rfl
      · cases h
    · cases h
  · cases h

variable [ReadDir]

/-- Every journal that stands in the recovery directory is listed. -/
theorem mem_listedJournals {s : Disk} {ids : List BatchId} (h : listedJournals.result s = .ok ids) {n : Name}
    (hn : (s .recovery).get? [n] ≠ none) : ∃ id ∈ ids, n = id.journalName := by
  obtain ⟨names, hnames, h⟩ := (Program.result_bind_eq_ok Directory.readOnly_boundedNames).mp h
  obtain ⟨found, hfound, h⟩ := (Program.result_bind_eq_ok (.mapM readOnly_journalId _)).mp h
  obtain ⟨-, h⟩ := Program.guard_eq_ok.mp h
  cases h
  have hmem : n ∈ names :=
    (Directory.mem_of_boundedNames hnames).mpr (Directory.mem_names.mpr (Option.ne_none_iff_exists'.mp hn))
  rw [Program.result_mapM readOnly_journalId] at hfound
  obtain ⟨id, hid, hresult⟩ := exists_of_mapM hfound hmem
  exact ⟨id, (List.perm_insertionSort _ _).mem_iff.mpr hid, name_of_journalId hresult⟩

theorem within_removeTree (levels : Nat) (parent : Directory) (consumed : Nat) (name : Name) :
    (removeTree levels parent consumed name).Keeps (within parent.area (parent.path ++ [name])) := by
  induction levels generalizing parent consumed name with
  | zero =>
    unfold removeTree
    refine .bind (.readOnly Directory.readOnly_kind) fun kind => .ite ?_ ?_
    · exact .bind Directory.within_unlinkFile fun _ => .pure _
    · exact .throw _
  | succ levels ih =>
    unfold removeTree
    refine .bind (.readOnly Directory.readOnly_kind) fun kind => .ite ?_ ?_
    · exact .bind Directory.within_unlinkFile fun _ => .pure _
    · refine .bindOf (.readOnly Directory.readOnly_openDir) fun s directory hdirectory => ?_
      obtain rfl := Directory.child_of_openDir hdirectory
      refine .bind (.readOnly Directory.readOnly_boundedNames) fun names => ?_
      refine .bind (.foldlM (fun consumed n => ?_) _ _) fun consumed => ?_
      · exact (ih (parent.child name) consumed n).mono fun _ _ => within_mono (List.prefix_append _ _)
      · exact .bind Directory.within_unlinkDir fun _ => .pure _

/-- What is removed is gone, whatever stood there. -/
theorem wp_removeTree_gone (levels : Nat) (parent : Directory) (consumed : Nat) (name : Name) (s : Disk) :
    (removeTree levels parent consumed name).wp (fun _ => True) (fun _ t => parent.child? name t = none)
      (fun _ _ => True) s := by
  unfold removeTree
  refine Program.wp_last fun kind t => ?_
  split
  · exact Program.wp_bind.mpr (Program.wp_mono Directory.wp_unlinkFile_gone (fun _ h => h)
      (fun _ _ h => Program.wp_pure.mpr h) (fun _ _ h => h))
  · split
    · exact Program.wp_throw.mpr trivial
    · refine Program.wp_last fun directory _ => Program.wp_last fun names _ => Program.wp_last fun consumed _ => ?_
      exact Program.wp_bind.mpr (Program.wp_mono Directory.wp_unlinkDir_gone (fun _ h => h)
        (fun _ _ h => Program.wp_pure.mpr h) (fun _ _ h => h))

theorem wp_cleanUnpreparedStages_gone (s : Disk) :
    cleanUnpreparedStages.wp (fun _ => True) (fun _ t => t .stages = ∅ ∧ t .recovery = s .recovery)
      (fun _ _ => True) s := by
  unfold cleanUnpreparedStages
  rw [Program.wp_bind, Directory.readOnly_boundedNames.wp]
  split
  · rename_i names hnames
    rw [Program.wp_bind]
    refine Program.wp_foldlM (fun r _ t => t .recovery = s .recovery ∧ ∀ n, (t .stages).get? [n] ≠ none → n ∈ r)
      ?_ ⟨rfl, ?_⟩ ?_
    · rintro c n r t ⟨hrecovery, ht⟩
      have hkeeps := (within_removeTree MAX_LOCAL_DEPTH Store.stagesDir c n).wp t
      have hgone := wp_removeTree_gone MAX_LOCAL_DEPTH Store.stagesDir c n t
      refine Program.wp_mono (Program.wp_and hkeeps hgone) (fun _ _ => trivial) ?_ (fun _ _ _ => trivial)
      rintro _ u ⟨hu, hnone⟩
      refine ⟨(hu.1 .recovery (by decide)).trans hrecovery, fun m hm => ?_⟩
      by_cases hmn : m = n
      · subst hmn
        exact absurd hnone hm
      · have hnot : ¬Store.stagesDir.path ++ [n] <+: [m] := fun hbelow =>
          hmn (List.cons_prefix_cons.mp hbelow).1.symm
        rw [show (u .stages).get? [m] = _ from hu.2 [m] hnot] at hm
        exact (List.mem_cons.mp (ht m hm)).resolve_left hmn
    · intro n hn
      refine (Directory.mem_of_boundedNames hnames).mpr (Directory.mem_names.mpr ?_)
      exact Option.ne_none_iff_exists'.mp hn
    · rintro c t ⟨hrecovery, ht⟩
      refine Program.wp_pure.mpr ⟨eq_empty_of_root fun n => ?_, hrecovery⟩
      exact not_not.mp fun hn => absurd (ht n hn) List.not_mem_nil
  · trivial

variable {batchId : BatchId}

theorem ownResidue_discardStage : (discardStage batchId).Keeps (ownResidue batchId) :=
  .bind (Directory.within_unlinkFile.mono fun _ _ => ownResidue_of_journal) fun _ =>
    .bind ((within_removeTree _ _ _ _).mono fun _ _ => ownResidue_of_stage) fun _ => .pure _

theorem wp_discardStage_gone (s : Disk) :
    (discardStage batchId).wp (fun _ => True) (fun _ t => Store.recoveryDir.child? batchId.journalName t = none ∧
      Store.stagesDir.child? batchId.stageName t = none) (fun _ _ => True) s := by
  rw [discardStage, Program.wp_bind]
  refine Program.wp_mono Directory.wp_unlinkFile_gone (fun _ h => h) ?_ (fun _ _ h => h)
  intro _ t ht
  have hkeeps := (within_removeTree MAX_LOCAL_DEPTH Store.stagesDir 1 batchId.stageName).wp t
  have hgone := wp_removeTree_gone MAX_LOCAL_DEPTH Store.stagesDir 1 batchId.stageName t
  rw [Program.wp_bind]
  refine Program.wp_mono (Program.wp_and hkeeps hgone) (fun _ _ => trivial) ?_ (fun _ _ _ => trivial)
  rintro _ u ⟨hu, hnone⟩
  refine Program.wp_pure.mpr ⟨?_, hnone⟩
  rw [Directory.child?, hu.1 Store.recoveryDir.area (by decide)]
  exact ht

variable [Jiff] [Blake3] {store : Store}

theorem ownResidue_recoverOne : (recoverOne store batchId).Keeps (ownResidue batchId) := by
  refine .bind (.readOnly readOnly_loadStage) fun batch => .bind ?_ fun _ => ?_
  · refine .tryCatch (.reads _) fun e => ?_
    exact .ite (.bind ownResidue_discardStage fun _ => .throw _) (.throw _)
  · refine .bind (.forM (fun r => (within_publishRecord r).mono fun _ _ => ownResidue_of_canonical) _) fun _ => ?_
    refine .bind ?_ fun _ => ownResidue_discardStage
    refine within_linkFdNoClobber.mono fun _ _ h => ownResidue_of_canonical ?_
    exact within_mono List.nil_prefix h

theorem wp_recoverOne_gone (s : Disk) :
    (recoverOne store batchId).wp (fun _ => True) (fun _ t => Store.recoveryDir.child? batchId.journalName t = none ∧
      Store.stagesDir.child? batchId.stageName t = none) (fun _ _ => True) s :=
  Program.wp_last fun _ _ => Program.wp_last fun _ _ => Program.wp_last fun _ _ => Program.wp_last fun _ _ =>
    wp_discardStage_gone _

/-- A recovery that returns leaves no journal and no stage. -/
theorem wp_recoverLocked_gone (s : Disk) :
    (recoverLocked store).wp (fun _ => True) (fun _ t => t .recovery = ∅ ∧ t .stages = ∅) (fun _ _ => True) s := by
  rw [recoverLocked, Program.wp_bind, readOnly_listedJournals.wp]
  split
  · rename_i journals hjournals
    rw [Program.wp_bind]
    refine Program.wp_forM (fun r t => ∀ n, (t .recovery).get? [n] ≠ none → ∃ id ∈ r, n = id.journalName) ?_ ?_ ?_
    · intro id r t ht
      refine Program.wp_mono (Program.wp_and (ownResidue_recoverOne.wp t) (wp_recoverOne_gone t)) (fun _ _ => trivial)
        ?_ (fun _ _ _ => trivial)
      rintro _ u ⟨hu, hnone, -⟩ n hn
      by_cases hname : n = id.journalName
      · subst hname
        exact absurd hnone hn
      · have hnot : ¬[id.journalName] <+: [n] := fun hbelow => hname (List.cons_prefix_cons.mp hbelow).1.symm
        rw [hu.1 [n] hnot] at hn
        obtain ⟨id', hid', rfl⟩ := ht n hn
        obtain rfl | hid' := List.mem_cons.mp hid'
        · exact absurd rfl hname
        · exact ⟨id', hid', rfl⟩
    · exact fun n hn => mem_listedJournals hjournals hn
    · intro t ht
      refine Program.wp_mono (wp_cleanUnpreparedStages_gone t) (fun _ h => h) ?_ (fun _ _ h => h)
      rintro _ u ⟨hstages, hrecovery⟩
      refine ⟨?_, hstages⟩
      rw [hrecovery]
      refine eq_empty_of_root fun n => not_not.mp fun hn => ?_
      obtain ⟨id, hid, -⟩ := ht n hn
      cases hid
  · trivial

end Removal

end Wayjournal
