import Wayjournal.Store.ExclusiveLaws

namespace Wayjournal

open Collections Crash Fs FileSystem Text

namespace ExclusiveStoreOperation

/-- Every call of the system succeeds. -/
def noFaults : Faults := fun _ => none

section

variable [Jiff] {op : ExclusiveStoreOperation} {α : Type} {f : StoreError → ExclusiveOperationError} {p : DiskM α}

@[simp] theorem result_onDisk_none : (onDisk none p).result op = (p.result op.disk).mapError .store := rfl

theorem wp_onDisk_none {post : α → ExclusiveStoreOperation → Prop}
    {fail : ExclusiveOperationError → ExclusiveStoreOperation → Prop} :
    (onDisk none p).wp (fun _ => True) post fail op ↔
      p.wp (fun _ => True) (fun a t => post a (op.withDisk t)) (fun e t => fail (.store e) (op.withDisk t)) op.disk :=
  wp_onDiskMapping

variable {q : OperationM α} {post : α → ExclusiveStoreOperation → Prop}
  {fail : ExclusiveOperationError → ExclusiveStoreOperation → Prop}

theorem wp_orInvalidate_ok (h : q.ReadOnly) {a : α} (ha : q.result op = .ok a) :
    (orInvalidate q).wp (fun _ => True) post fail op ↔ post a op := by
  rw [orInvalidate, Program.wp_tryCatch, h.wp, ha]

theorem wp_orInvalidate_error (h : q.ReadOnly) {e : ExclusiveOperationError} (he : q.result op = .error e) :
    (orInvalidate q).wp (fun _ => True) post fail op ↔
      fail e { op with snapshot := none, recovered := false, invalidated := true } := by
  rw [orInvalidate, Program.wp_tryCatch, h.wp, he]
  simp only [Program.wp_bind, invalidate, Program.wp_update, Program.wp_throw, true_and]

end

variable [Jiff] [Blake3] {store : Store} {prepared : PreparedBatch} {base : StoreRevisionRef} {s : Disk}

/-- The files of a batch that a preview would publish are not there. -/
theorem files_new (h : Previewed store prepared base s) {files : BTreeMap Bytes Bytes}
    (hfiles : visibleMap s = .ok files) {f : RawFile} (hf : f ∈ prepared.files) : files.get? f.path = none := by
  have hbase : visibleInventory s = .ok (inventoryOf (visibleEntries s)) :=
    visibleInventory_eq_ok.mpr ⟨h.publishable.within, rfl⟩
  rw [visibleMap, hbase] at hfiles
  cases hfiles
  have hnodup := h.nodup_extended
  rw [List.map_append, List.map_append, List.nodup_append] at hnodup
  rw [Option.eq_none_iff_forall_ne_some]
  intro bytes hget
  have hold := (BTreeMap.get?_ofList hnodup.1).mp hget
  exact hnodup.2.2 _ (List.mem_map.mpr ⟨_, hold, rfl⟩) _
    (List.mem_map.mpr ⟨_, List.mem_map.mpr ⟨f, hf, rfl⟩, rfl⟩) rfl

variable [ReadDir]

/-- What a preview predicts, the writes of the append bring about. -/
theorem wp_publish (h : Previewed store prepared base s) (hopen : Opened s) (hrecovery : s .recovery = ∅)
    (hstages : s .stages = ∅) {candidate : StoreSnapshot}
    (hcandidate : Scans store (sortFiles ((inventoryOf (visibleEntries s)).files ++ prepared.files)) candidate) :
    (publish store prepared base).wp (fun _ => True)
      (fun r t => r = (.published prepared.manifest.batchId candidate.revision, candidate) ∧
        Published prepared s t ∧ scanVisible store t = .ok candidate) (fun _ _ => False) s := by
  rw [publish, Program.wp_bind]
  refine Program.wp_mono (h.wp_stageBatch hrecovery hstages) (fun _ h => h) ?_ (fun _ _ h => h)
  rintro _ t ⟨hjournaled, -⟩
  rw [Program.wp_bind]
  refine Program.wp_mono (h.wp_recoverOne hopen hjournaled) (fun _ _ => trivial) ?_ (fun _ _ h => h)
  rintro _ u ⟨hu, -⟩
  have hscan := h.scanVisible_candidate hu.published hu.full hcandidate
  rw [Program.wp_bind, Program.wp_reads_ok hscan, Program.wp_pure]
  exact ⟨rfl, hu, hscan⟩

variable [Url] {op : ExclusiveStoreOperation} {expected : StoreRevisionRef}

theorem result_previewAppendLocked {snapshot : StoreSnapshot} (hr : op.recovered = true)
    (hsnapshot : op.snapshot = some snapshot) :
    (previewAppendLocked store noFaults prepared expected).result op = (do
      (requireAllow none).result op
      (previewFromSnapshot store snapshot prepared expected op.disk).mapError .store) := by
  have hrecovered : requireRecovered.result op = .ok () := by
    rw [requireRecovered, Program.result_reads, if_pos hr]
  have howned : ownedSnapshot.result op = .ok snapshot := by
    rw [ownedSnapshot, Program.result_reads, hsnapshot]
  rw [previewAppendLocked, Program.result_bind (p := requireRecovered) (.reads _), hrecovered]
  change (requireAllow none >>= _).result op = _
  rw [Program.result_bind readOnly_requireAllow]
  refine bind_congr fun _ => ?_
  rw [Program.result_bind (p := ownedSnapshot) (.reads _), howned]
  rfl

/-- What the append returns and leaves is what the preview said. -/
theorem append_as_previewed {registry : DomainRegistry} {records : List Record} {key : String} {disk : Disk}
    (hprepare : prepareBatch records key registry = .ok prepared)
    (hruns : Runs store (fun _ _ => True) (beginOn disk) op) (hr : op.recovered = true) (hopen : Opened op.disk) :
    (∀ revision, (previewAppendLocked store noFaults prepared expected).result op = .ok (.publish revision) →
      ∃ files snapshot, visibleMap op.disk = .ok files ∧
        (appendLocked store noFaults prepared expected).result op =
          .ok (.published prepared.manifest.batchId revision, snapshot) ∧
        scanVisible store ((appendLocked store noFaults prepared expected).final op).disk = .ok snapshot ∧
        visibleMap ((appendLocked store noFaults prepared expected).final op).disk =
          .ok (withFiles files prepared.files) ∧ ∀ f ∈ prepared.files, files.get? f.path = none) ∧
    (∀ batchId revision,
      (previewAppendLocked store noFaults prepared expected).result op = .ok (.replay batchId revision) →
        (∃ snapshot, (appendLocked store noFaults prepared expected).result op =
          .ok (.replay batchId revision, snapshot)) ∧
        ((appendLocked store noFaults prepared expected).final op).disk = op.disk) ∧
    ∀ e, (previewAppendLocked store noFaults prepared expected).result op = .error e →
      (appendLocked store noFaults prepared expected).result op = .error e ∧
        visibleMap ((appendLocked store noFaults prepared expected).final op).disk = visibleMap op.disk := by
  have hcoherent := (Coherent.beginOn disk : Coherent store _).runs hruns
  obtain ⟨snapshot, hsnapshot, hscan⟩ := hcoherent.current hr
  obtain ⟨hrecovery, hstages⟩ := hcoherent.clean hr
  refine ⟨fun revision hpreview => ?_, fun batchId revision hpreview => ?_, fun e hpreview => ?_⟩
  · have hresult := hpreview
    rw [result_previewAppendLocked hr hsnapshot, except_bind_eq_ok] at hresult
    obtain ⟨_, hallow, hpublish⟩ := hresult
    rw [mapError_eq_ok] at hpublish
    have h := previewed_of_publish (prepareBatch_wellFormed hprepare) hscan hpublish
    obtain ⟨candidate, rfl, hcandidate⟩ := scans_of_publish hpublish
    obtain ⟨files, hfiles, -⟩ := h.visibleMap_new
    have hwp : (appendLocked store noFaults prepared expected).wp (fun _ => True)
        (fun r u => r = (.published prepared.manifest.batchId candidate.revision, candidate) ∧
          Published prepared op.disk u.disk ∧ scanVisible store u.disk = .ok candidate) (fun _ _ => False) op := by
      rw [appendLocked, Program.wp_bind, requireRecovered_ok hr, Program.wp_bind,
        wp_orInvalidate_ok readOnly_previewAppendLocked hpreview]
      dsimp only [noFaults]
      rw [Program.wp_bind, wp_orInvalidate_ok readOnly_requireAllow hallow, Program.wp_bind, setSnapshot,
        Program.wp_update]
      refine ⟨trivial, ?_⟩
      rw [Program.wp_bind, orInvalidate, Program.wp_tryCatch]
      refine wp_onDisk_none.mpr (Program.wp_mono (wp_publish h hopen hrecovery hstages hcandidate) (fun _ h => h) ?_
        (fun _ _ h => h.elim))
      rintro _ t ⟨rfl, hpublished, hcommitted⟩
      rw [Program.wp_bind, setSnapshot, Program.wp_update]
      refine ⟨trivial, ?_⟩
      rw [Program.wp_bind, ownedSnapshot_ok rfl]
      exact Program.wp_pure.mpr ⟨rfl, hpublished, hcommitted⟩
    obtain ⟨_, hok, rfl, hpublished, hcommitted⟩ := Program.ok_of_wp hwp
    exact ⟨files, candidate, hfiles, hok, hcommitted, hpublished.visibleMap_eq h hfiles, fun f hf => files_new h hfiles hf⟩
  · have hwp : (appendLocked store noFaults prepared expected).wp (fun _ => True)
        (fun r u => r = (.replay batchId revision, snapshot) ∧ u = op) (fun _ _ => False) op := by
      rw [appendLocked, Program.wp_bind, requireRecovered_ok hr, Program.wp_bind,
        wp_orInvalidate_ok readOnly_previewAppendLocked hpreview]
      dsimp only
      rw [Program.wp_bind, ownedSnapshot_ok hsnapshot]
      exact Program.wp_pure.mpr ⟨rfl, rfl⟩
    obtain ⟨_, hok, rfl, hfinal⟩ := Program.ok_of_wp hwp
    exact ⟨⟨snapshot, hok⟩, by rw [hfinal]⟩
  · have hwp : (appendLocked store noFaults prepared expected).wp (fun _ => True) (fun _ _ => False)
        (fun e' u => e' = e ∧ u.disk = op.disk) op := by
      rw [appendLocked, Program.wp_bind, requireRecovered_ok hr, Program.wp_bind,
        wp_orInvalidate_error readOnly_previewAppendLocked hpreview]
      exact ⟨rfl, rfl⟩
    have hfail := hwp.2
    split at hfail
    · exact hfail.elim
    · rename_i e' he'
      obtain ⟨rfl, hdisk⟩ := hfail
      exact ⟨he', by rw [hdisk]⟩

end ExclusiveStoreOperation

open ExclusiveStoreOperation

attribute [local instance] Sample.jiff Sample.blake3 Sample.url Sample.readDir

/-- The first batch of an empty store, previewed and appended by one operation. -/
theorem append_as_previewed_note :
    ∃ prepared base op revision files snapshot, prepareBatch [Sample.note] "first" Sample.registry = .ok prepared ∧
      visibleMap op.disk = .ok files ∧
      (previewAppendLocked Sample.store noFaults prepared base).result op = .ok (.publish revision) ∧
      (appendLocked Sample.store noFaults prepared base).result op =
        .ok (.published prepared.manifest.batchId revision, snapshot) ∧
      visibleMap ((appendLocked Sample.store noFaults prepared base).final op).disk =
        .ok (withFiles files prepared.files) := by
  obtain ⟨prepared, hprepare, hrecords⟩ :=
    prepareBatch_singleton "first" (Sample.encodeRecord_nested (n := 1) (by decide))
  obtain ⟨base, hscan⟩ := Sample.vacant.scanVisible_ok
  have hreadable := Sample.readable_note hprepare hrecords
  obtain ⟨revision, hpreview⟩ := Sample.vacant.preview_publish hreadable hrecords rfl (by decide) base
  have hallow : (requireAllow none).result ⟨Sample.disk, some ⟨base, [], [], none, []⟩, true, false⟩ = .ok () := by
    have hwp : (requireAllow none).wp (fun _ => True) (fun _ _ => True) (fun _ _ => False)
        ⟨Sample.disk, some ⟨base, [], [], none, []⟩, true, false⟩ := by
      rw [requireAllow, Program.wp_bind, wp_onDisk_none]
      exact (wp_gateWithoutGit_none Sample.clean.syncPending).mpr (Program.wp_pure.mpr trivial)
    obtain ⟨_, hok, -⟩ := Program.ok_of_wp hwp
    exact hok
  have hresult : (previewAppendLocked Sample.store noFaults prepared base).result
      ⟨Sample.disk, some ⟨base, [], [], none, []⟩, true, false⟩ = .ok (.publish revision) := by
    rw [result_previewAppendLocked rfl rfl, hallow, hpreview]
    rfl
  obtain ⟨files, snapshot, hfiles, happend, -, hmap, -⟩ :=
    (append_as_previewed hprepare (Sample.runs_recover hscan) rfl Sample.opened).1 revision hresult
  exact ⟨prepared, base, _, revision, files, snapshot, hprepare, hfiles, hresult, happend, hmap⟩


end Wayjournal
