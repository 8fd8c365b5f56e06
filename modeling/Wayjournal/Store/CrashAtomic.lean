import Wayjournal.Federation.PendingLaws
import Wayjournal.Store.FirstBatch
import Wayjournal.Store.RecoverLaws

namespace Wayjournal

open Collections Crash Fs FileSystem Text

/-- The visible canonical files, by path. -/
def visibleMap (disk : Disk) : Except StoreError (BTreeMap Bytes Bytes) := do
  let found ← visibleInventory disk
  return BTreeMap.ofList (found.files.map RawFile.entry)

/-- The map with some more files. -/
def withFiles (m : BTreeMap Bytes Bytes) (files : List RawFile) : BTreeMap Bytes Bytes :=
  files.foldl (fun m f => m.insert f.path f.bytes) m

theorem withFiles_ofList (files more : List RawFile) :
    withFiles (BTreeMap.ofList (files.map RawFile.entry)) more =
      BTreeMap.ofList ((files ++ more).map RawFile.entry) := by
  rw [withFiles, BTreeMap.ofList, BTreeMap.ofList, List.map_append, List.foldl_append, List.foldl_map,
    List.foldl_map]
  rfl

theorem ofList_congr {l l' : List (Bytes × Bytes)} (h : l.Perm l') (hnodup : (l.map Prod.fst).Nodup) :
    BTreeMap.ofList l = BTreeMap.ofList l' := by
  refine BTreeMap.ext_get? fun k => Option.ext fun v => ?_
  rw [BTreeMap.get?_ofList hnodup, BTreeMap.get?_ofList ((h.map _).nodup_iff.mp hnodup), h.mem_iff]

theorem visibleInventory_congr {s t : Disk} (h : t .canonical = s .canonical) :
    visibleInventory t = visibleInventory s := by
  rw [visibleInventory, visibleInventory, visibleEntries, visibleEntries, h]

/-- A store without residue of an append or of a synchronization. -/
structure Clean (s : Disk) : Prop where
  recovery : s .recovery = ∅
  stages : s .stages = ∅
  syncPending : s .syncPending = ∅

theorem wp_requirePendingAllow_none [Url] [ReadDir] {s : Disk} {crash : Disk → Prop} {post : Unit → Disk → Prop}
    {fail : StoreError → Disk → Prop} (h : s .syncPending = ∅) :
    requirePendingAllow.wp crash post fail s ↔ post () s := by
  rw [requirePendingAllow, Program.wp_bind, wp_gateWithoutGit_none h]
  exact Program.wp_pure

section

variable [Jiff] {prepared : PreparedBatch} {s t : Disk}

namespace Unprepared

theorem start (hrecovery : s .recovery = ∅) (hstages : s .stages = ∅) : Unprepared prepared s s where
  canonical := rfl
  recovery := hrecovery
  stages := by
    rw [hstages]
    exact .empty

theorem visibleMap_eq (h : Unprepared prepared s t) : visibleMap t = visibleMap s := by
  rw [visibleMap, visibleMap, visibleInventory_congr h.canonical]

end Unprepared

/-- The journal of the batch stands in the recovery directory. -/
def JournalLinked (prepared : PreparedBatch) (t : Disk) : Prop :=
  Store.recoveryDir.child? prepared.manifest.batchId.journalName t ≠ none

theorem Unprepared.not_journalLinked (h : Unprepared prepared s t) : ¬JournalLinked prepared t := by
  rw [JournalLinked, not_not, Directory.child?]
  change (t .recovery).get? _ = none
  rw [h.recovery, get?_empty]

variable [Blake3] {store : Store} {base : StoreRevisionRef}

namespace Previewed

theorem nodup_extended (h : Previewed store prepared base s) :
    ((((inventoryOf (visibleEntries s)).files ++ prepared.files).map RawFile.entry).map Prod.fst).Nodup := by
  have hnodup := h.publishable.nodup_raw
  rw [h.wellFormed.raw_targets] at hnodup
  rw [List.map_map]
  exact (((sortFiles_perm _).append_right _).map _).nodup_iff.mpr hnodup

/-- The files of the batch are new to the store. -/
theorem visibleMap_new (h : Previewed store prepared base s) :
    ∃ files, visibleMap s = .ok files ∧ withFiles files prepared.files ≠ files := by
  have hbase : visibleInventory s = .ok (inventoryOf (visibleEntries s)) :=
    visibleInventory_eq_ok.mpr ⟨h.publishable.within, rfl⟩
  refine ⟨_, by rw [visibleMap, hbase]; rfl, ?_⟩
  have hnodup := h.nodup_extended
  intro heq
  have hmanifest : RawFile.entry ⟨asBytes prepared.manifestPath, prepared.manifestBytes⟩ ∈
      ((inventoryOf (visibleEntries s)).files ++ prepared.files).map RawFile.entry :=
    List.mem_map.mpr ⟨_, List.mem_append_right _ (List.mem_append_right _ List.mem_cons_self), rfl⟩
  have hget := (BTreeMap.get?_ofList hnodup).mpr hmanifest
  rw [← withFiles_ofList, heq] at hget
  rw [List.map_append, List.map_append, List.nodup_append] at hnodup
  have hold := (BTreeMap.get?_ofList hnodup.1).mp hget
  exact hnodup.2.2 _ (List.mem_map.mpr ⟨_, hold, rfl⟩) _ (List.mem_map.mpr
    ⟨_, List.mem_map.mpr ⟨_, List.mem_append_right _ List.mem_cons_self, rfl⟩, rfl⟩) rfl

end Previewed

theorem Published.visibleMap_eq {files : BTreeMap Bytes Bytes} (ht : Published prepared s t)
    (h : Previewed store prepared base s) (hfiles : visibleMap s = .ok files) :
    visibleMap t = .ok (withFiles files prepared.files) := by
  obtain ⟨inventory, hfound, -⟩ := h.publishable.visibleInventory_extended ht.published
  have hbase : visibleInventory s = .ok (inventoryOf (visibleEntries s)) :=
    visibleInventory_eq_ok.mpr ⟨h.publishable.within, rfl⟩
  rw [visibleMap, hbase] at hfiles
  cases hfiles
  rw [visibleMap, hfound, withFiles_ofList, ht.full, h.wellFormed.raw_targets]
  have hnodup := h.publishable.nodup_raw
  rw [h.wellFormed.raw_targets] at hnodup
  refine congrArg Except.ok (ofList_congr (List.Perm.map _ ?_) ?_)
  · exact (sortFiles_perm _).trans ((sortFiles_perm _).symm.append_right _)
  · rw [List.map_map]
    exact ((sortFiles_perm _).map _).nodup_iff.mpr hnodup

/-- The first write after the stage is complete is the link of the journal. -/
theorem twoPhase_linkJournal {α : Type} {k : Unit → DiskM α} (hs : Unprepared prepared s t)
    (hstaged : (t .stages).Holds (prepared.stageEntries (prepared.journalBytes base)))
    (hfresh : ∀ f ∈ prepared.targets, (s .canonical).get? f.1 = none)
    (hk : ∀ u, Journaled prepared base s u → (k ()).wp (Committed prepared base s) (fun _ _ => True)
      (fun _ _ => False) u) :
    (linkFdNoClobber (prepared.journalBytes base) Store.recoveryDir prepared.manifest.batchId.journalName
      (prepared.journalBytes base) >>= k).TwoPhase (Unprepared prepared s) (Committed prepared base s)
        (JournalLinked prepared) t := by
  have hnone : Store.recoveryDir.child? prepared.manifest.batchId.journalName t = none :=
    not_not.mp hs.not_journalLinked
  obtain ⟨fs, hfs, hsets⟩ := create_ok (d := Store.recoveryDir.path) (.inl rfl) hnone
    (.regular (prepared.journalBytes base))
  have hjournaled : Journaled prepared base s (t.set .recovery fs) := by
    refine ⟨⟨?_, ?_⟩, ?_⟩
    · rw [Disk.set_of_ne _ (by decide)]
      exact hstaged
    · rw [Disk.set_same]
      have hempty : (t .recovery).Holds [] := holds_nil.mpr hs.recovery
      exact hempty.add (by simp) hsets
    · rw [Disk.set_of_ne _ (by decide), hs.canonical]
      exact .refl hfresh
  have hlinked : JournalLinked prepared (t.set .recovery fs) := by
    change ((t.set .recovery fs) .recovery).get? _ ≠ none
    rw [Disk.set_same, hsets.here]
    simp
  rw [linkFdNoClobber, bind_assoc]
  refine Program.twoPhase_bind hs (fun _ h => h.not_journalLinked) ?_
  rw [Program.wp_reads]
  simp only [hnone]
  refine Program.twoPhase_update ?_ hs hlinked (.inl hjournaled) (hk _ hjournaled)
  simp only [hfs]
  rfl

variable [ReadDir]

/-- Recovery of a store without residue writes nothing. -/
theorem wp_recoverLocked_clean {crash : Disk → Prop} {post : Unit → Disk → Prop}
    (hrecovery : s .recovery = ∅) (hstages : s .stages = ∅) (hpost : post () s) :
    (recoverLocked store).wp crash post (fun _ _ => False) s := by
  rw [recoverLocked, Program.wp_bind, wp_listedJournals_none hrecovery, Program.wp_bind]
  refine Program.wp_pure.mpr ?_
  have hnames : Store.stagesDir.names s = [] := Directory.names_of_empty hstages
  rw [cleanUnpreparedStages, Program.wp_bind, Directory.wp_boundedNames (by rw [hnames]; exact Nat.zero_le _),
    hnames]
  rw [List.insertionSort_nil, List.foldlM_nil, Program.wp_bind, Program.wp_pure, Program.wp_pure]
  exact hpost

variable [Url]

theorem wp_recoverWithoutSnapshot_clean {crash : Disk → Prop} {post : Unit → Disk → Prop} (h : Clean s)
    (hpost : post () s) : (recoverWithoutSnapshot store).wp crash post (fun _ _ => False) s := by
  rw [recoverWithoutSnapshot, Program.wp_bind, wp_cleanDisposableLocked_none h.syncPending, Program.wp_bind,
    wp_gateWithoutGit_none h.syncPending]
  simp only [ne_eq, not_true_eq_false, if_false]
  exact wp_recoverLocked_clean h.recovery h.stages hpost

theorem append_twoPhase {snapshot : StoreSnapshot} {revision : StoreRevisionRef}
    (h : Previewed store prepared base s) (hopen : Opened s) (hclean : Clean s)
    (hscan : scanVisible store s = .ok snapshot)
    (hpreview : previewFromSnapshot store snapshot prepared base s = .ok (.publish revision)) :
    (append store prepared base).TwoPhase (Unprepared prepared s) (Committed prepared base s)
      (JournalLinked prepared) s := by
  have hstart : Unprepared prepared s s := .start hclean.recovery hclean.stages
  have hnot : ∀ t, Unprepared prepared s t → ¬JournalLinked prepared t := fun _ h => h.not_journalLinked
  rw [append]
  refine Program.twoPhase_bind hstart hnot (wp_recoverWithoutSnapshot_clean hclean ?_)
  refine Program.twoPhase_bind hstart hnot ((Program.wp_reads_ok hscan).mpr ?_)
  refine Program.twoPhase_bind hstart hnot ((wp_requirePendingAllow_none hclean.syncPending).mpr ?_)
  refine Program.twoPhase_bind hstart hnot ((Program.wp_reads_ok hpreview).mpr ?_)
  refine Program.twoPhase_bind hstart hnot ((wp_requirePendingAllow_none hclean.syncPending).mpr ?_)
  rw [stageBatch, bind_assoc]
  have hstaging : ∀ fs, prepared.PartlyStaged fs → Unprepared prepared s (s.set .stages fs) := by
    intro fs hfs
    refine ⟨Disk.set_of_ne _ (by decide) _, ?_, ?_⟩
    · rw [Disk.set_of_ne _ (by decide)]
      exact hclean.recovery
    · rw [Disk.set_same]
      exact hfs
  refine Program.twoPhase_bind hstart hnot (PreparedBatch.wp_writeStage h.wellFormed hclean.stages hstaging ?_)
  intro fs hfs
  have hheld : ((s.set .stages fs) .stages).Holds (prepared.stageEntries (prepared.journalBytes base)) := by
    rw [Disk.set_same]
    exact hfs
  refine twoPhase_linkJournal (hstaging fs (.of_stageEntries hfs)) hheld h.publishable.fresh fun u hu => ?_
  rw [Program.wp_bind]
  refine Program.wp_mono (h.wp_recoverOne hopen hu) (fun _ h => h) ?_ (fun _ _ h => h)
  rintro _ v ⟨hv, -⟩
  obtain ⟨committed, hcommitted⟩ := h.scanVisible_full hv.published hv.full
  rw [Program.wp_bind, Program.wp_reads_ok hcommitted, Program.wp_pure]
  trivial

/-- Wherever an append and any number of recoveries after it are cut off, the next
recovery leaves all of the batch or nothing of it. -/
theorem append_crash_atomic {registry : DomainRegistry} {records : List Record} {key : String}
    {snapshot : StoreSnapshot} {revision : StoreRevisionRef} {n : Nat}
    (hprepare : prepareBatch records key registry = .ok prepared) (hopen : Opened s) (hclean : Clean s)
    (hscan : scanVisible store s = .ok snapshot)
    (hpreview : previewFromSnapshot store snapshot prepared base s = .ok (.publish revision))
    (hruns : (recoverLocked store).CutRuns ((append store prepared base).cut s n) t) :
    ∃ files, visibleMap s = .ok files ∧ (recoverLocked store).result t = .ok () ∧
      (recoverLocked store).final t .recovery = ∅ ∧ (recoverLocked store).final t .stages = ∅ ∧
      (visibleMap ((recoverLocked store).final t) = .ok files ∨
        visibleMap ((recoverLocked store).final t) = .ok (withFiles files prepared.files)) ∧
      (visibleMap ((recoverLocked store).final t) = .ok (withFiles files prepared.files) ↔
        ∃ d ∈ (append store prepared base s).trace.take n, JournalLinked prepared d) := by
  have hwf := prepareBatch_wellFormed hprepare
  have h := previewed_of_publish hwf hscan hpreview
  obtain ⟨files, hfiles, hnew⟩ := h.visibleMap_new
  refine ⟨files, hfiles, ?_⟩
  obtain ⟨hnot, hcut⟩ | ⟨hlinked, hcut⟩ := append_twoPhase h hopen hclean hscan hpreview n
  · have ht := Program.cutRuns_invariant (fun _ h => h.wp_recoverLocked hwf) hcut hruns
    obtain ⟨_, hresult, hfinal, hrecovery, hstages⟩ := Program.ok_of_wp (ht.wp_recoverLocked hwf)
    have hmap := hfinal.visibleMap_eq.trans hfiles
    refine ⟨hresult, hrecovery, hstages, .inl hmap, ?_⟩
    rw [hmap, Except.ok.injEq]
    exact ⟨fun heq => absurd heq.symm hnew, fun ⟨d, hd, hlinked⟩ => absurd hlinked (hnot d hd)⟩
  · have ht := Program.cutRuns_invariant (fun _ ht => ht.wp_recoverLocked h hopen) hcut hruns
    obtain ⟨_, hresult, hfinal, hrecovery, hstages⟩ := Program.ok_of_wp (ht.wp_recoverLocked h hopen)
    have hmap := hfinal.visibleMap_eq h hfiles
    exact ⟨hresult, hrecovery, hstages, .inr hmap, fun _ => hlinked, fun _ => hmap⟩

end

namespace Sample

@[reducible] def url : Url where
  parse s :=
    if s = "file:///srv/journal.git" then
      some ⟨"", none, none, none, "file", none, none, "/srv/journal.git", "file:///srv/journal.git"⟩
    else none

@[reducible] def readDir : ReadDir := ⟨fun _ names => names, fun _ _ => .refl _⟩

/-- A store without frozen files. -/
def store : Store where
  registry := registry
  legacy := ⟨fun _ => .ok (), fun _ => (.ok (), 0), .ok ()⟩
  strictDomains := false

/-- The canonical directories as opening a store makes them. -/
def canonical : FileSystem Name :=
  let journal := (∅ : FileSystem Name).place [] .journal .directory FileSystem.isDir_root_empty (by decide)
  let records := journal.place [.journal] .records .directory (.inr (by decide)) (by decide)
  records.place [.journal] .batches .directory (.inr (by decide)) (by decide)

def disk : Disk := fun area => if area = .canonical then canonical else ∅

end Sample

attribute [local instance] Sample.jiff Sample.blake3 Sample.url Sample.readDir

theorem Sample.visibleEntries_disk :
    visibleEntries disk = [([.journal, .batches], .directory), ([.journal, .records], .directory)] := by
  decide +kernel

theorem Sample.vacant : Vacant store disk := by
  have hbatches : validCanonicalDirectory (relative [.journal, .batches]) = true := by decide +kernel
  have hrecords : validCanonicalDirectory (relative [.journal, .records]) = true := by decide +kernel
  have hfiles : (visibleEntries disk).filterMap fileOf = [] := by
    rw [visibleEntries_disk]
    simp [fileOf, hbatches, hrecords]
  refine ⟨⟨(inventoryOf (visibleEntries disk)).inventory, ?_, ?_⟩, rfl⟩
  · refine visibleInventory_eq_ok.mpr ⟨?_, ?_⟩
    · rw [visibleEntries_disk]
      exact ⟨by decide, by simp [FitsLimit], by decide⟩
    · rw [inventoryOf, hfiles]
      rw [visibleEntries_disk]
      rfl
  · rw [visibleEntries_disk]
    decide +kernel

theorem Sample.opened : Opened disk := ⟨by decide, by decide⟩

theorem Sample.clean : Clean disk := ⟨rfl, rfl, rfl⟩

/-- A note with the payload `[null]`. -/
def Sample.note : Record := record (nested 1)

theorem Sample.readable_note {prepared : PreparedBatch} {key : String}
    (hprepare : prepareBatch [note] key registry = .ok prepared)
    (hrecords : prepared.records = [⟨note, note.canonicalPath, Json.print 0 (envelope note).raw ++ [0x0a]⟩]) :
    prepared.Readable registry := by
  refine ⟨prepareBatch_sealed hprepare, ?_, ?_⟩
  all_goals
    intro r hr
    rw [hrecords] at hr
    obtain rfl := List.mem_singleton.mp hr
  · exact (decode_encode_iff (encodeRecord_nested (by decide))).mpr ((depth_nested 1).trans_lt (by decide))
  · change (splitOnce '/' "example.notes/v1".toList).map (fun p => String.ofList p.1) = some "example.notes"
    decide

/-- The first batch of an empty store, cut off after three writes. -/
theorem append_crash_atomic_note :
    ∃ prepared base files, prepareBatch [Sample.note] "first" Sample.registry = .ok prepared ∧
      visibleMap Sample.disk = .ok files ∧
      (recoverLocked Sample.store).result ((append Sample.store prepared base).cut Sample.disk 3) = .ok () ∧
      (visibleMap ((recoverLocked Sample.store).final ((append Sample.store prepared base).cut Sample.disk 3)) =
          .ok files ∨
        visibleMap ((recoverLocked Sample.store).final ((append Sample.store prepared base).cut Sample.disk 3)) =
          .ok (withFiles files prepared.files)) := by
  obtain ⟨prepared, hprepare, hrecords⟩ :=
    prepareBatch_singleton "first" (Sample.encodeRecord_nested (n := 1) (by decide))
  obtain ⟨base, hscan⟩ := Sample.vacant.scanVisible_ok
  have hreadable := Sample.readable_note hprepare hrecords
  obtain ⟨revision, hpreview⟩ := Sample.vacant.preview_publish hreadable hrecords rfl (by decide) base
  obtain ⟨files, hfiles, hresult, -, -, hmaps, -⟩ := append_crash_atomic hprepare Sample.opened Sample.clean hscan
    hpreview (.refl (a := (append Sample.store prepared base).cut Sample.disk 3))
  exact ⟨prepared, base, files, hprepare, hfiles, hresult, hmaps⟩

end Wayjournal
