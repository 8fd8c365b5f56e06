import Wayjournal.Store.StageLaws

namespace Wayjournal

open Collections Crash Fs FileSystem Text

section Reads

variable {crash : Disk → Prop} {fail : StoreError → Disk → Prop} {d : Directory} {name : Name}
variable {s : Disk}

theorem wp_boundedRegular {post : Bytes → Disk → Prop} {bytes : Bytes} {limit : Nat}
    (he : d.child? name s = some (.regular bytes)) (hlimit : bytes.length ≤ limit) :
    (boundedRegular d name limit).wp crash post fail s ↔ post bytes s := by
  rw [boundedRegular, Program.wp_bind, Directory.wp_openFile he, if_neg (by omega), Program.wp_pure]

theorem length_names_le {names : List Name} (h : ∀ n, n ∈ d.names s ↔ n ∈ names) :
    (d.names s).length ≤ names.length :=
  (nodup_names _ _).length_le_of_subset fun n hn => (h n).mp hn

theorem wp_requireNames [ReadDir] {post : Unit → Disk → Prop} {expected : List Name} {message : String}
    (h : ∀ n, n ∈ d.names s ↔ n ∈ expected) (hlimit : expected.length ≤ MAX_LOCAL_ENTRIES) :
    (requireNames d expected message).wp crash post fail s ↔ post () s := by
  have hkeys : BTreeSet.ofKeys ((d.names s).insertionSort (· ≤ ·)) = BTreeSet.ofKeys expected := by
    refine BTreeSet.ofKeys_congr fun n => ?_
    rw [mem_sorted, h]
  rw [requireNames, Program.wp_bind, Directory.wp_boundedNames ((length_names_le h).trans hlimit),
    if_neg (not_not.mpr hkeys), Program.wp_pure]

end Reads

section

variable [Jiff] {prepared : PreparedBatch} {journal : Bytes} {s : Disk}

namespace PreparedBatch

/-- A complete stage and nothing else. -/
structure FullyStaged (prepared : PreparedBatch) (journal : Bytes) (s : Disk) : Prop where
  stages : (s .stages).Holds (prepared.stageEntries journal)
  recovery : (s .recovery).Holds [([prepared.manifest.batchId.journalName], .regular journal)]

theorem mem_recordEntries {stage : Name} {index : Nat} {records : List PreparedRecord}
    {e : List Name × Entry} : e ∈ recordEntries stage index records ↔
      ∃ i r, records[i]? = some r ∧ e = ([stage, .records, ordinalJson (index + i)], .regular r.bytes) := by
  induction records generalizing index with
  | nil => simp [recordEntries]
  | cons record rest ih =>
    rw [recordEntries, List.mem_cons, ih]
    constructor
    · rintro (rfl | ⟨i, r, hr, rfl⟩)
      · exact ⟨0, record, rfl, rfl⟩
      · exact ⟨i + 1, r, hr, by rw [show index + 1 + i = index + (i + 1) by omega]⟩
    · rintro ⟨i, r, hr, rfl⟩
      cases i with
      | zero =>
        cases hr
        exact .inl rfl
      | succ i => exact .inr ⟨i, r, hr, by rw [show index + 1 + i = index + (i + 1) by omega]⟩

theorem mem_stageEntries {e : List Name × Entry} : e ∈ prepared.stageEntries journal ↔
    e = ([prepared.stageName], .directory) ∨ e = ([prepared.stageName, .records], .directory) ∨
      (∃ i r, prepared.records[i]? = some r ∧
        e = ([prepared.stageName, .records, ordinalJson i], .regular r.bytes)) ∨
      e = ([prepared.stageName, .manifestJson], .regular prepared.manifestBytes) ∨
      e = ([prepared.stageName, .journalTmp], .regular journal) := by
  simp only [stageEntries, stageStart, List.mem_append, List.mem_cons, List.not_mem_nil, or_false,
    mem_recordEntries, Nat.zero_add, or_assoc]

namespace FullyStaged

theorem mem_stageNames (h : prepared.FullyStaged journal s) (n : Name) :
    n ∈ (Store.stagesDir.child prepared.stageName).names s ↔
      n ∈ [Name.journalTmp, .manifestJson, .records] := by
  rw [Directory.mem_names]
  change (∃ e, (s .stages).get? [prepared.stageName, n] = some e) ↔ _
  simp only [h.stages _ _, mem_stageEntries, Prod.mk.injEq, List.cons.injEq, List.mem_cons,
    List.not_mem_nil, and_true, true_and, reduceCtorEq, and_false, false_and, exists_false, false_or, or_false]
  constructor
  · rintro ⟨e, ⟨rfl, -⟩ | ⟨rfl, -⟩ | ⟨rfl, -⟩⟩
    · exact .inr (.inr rfl)
    · exact .inr (.inl rfl)
    · exact .inl rfl
  · rintro (rfl | rfl | rfl)
    · exact ⟨_, .inr (.inr ⟨rfl, rfl⟩)⟩
    · exact ⟨_, .inr (.inl ⟨rfl, rfl⟩)⟩
    · exact ⟨_, .inl ⟨rfl, rfl⟩⟩

theorem mem_ordinals (h : prepared.FullyStaged journal s) (n : Name) :
    n ∈ ((Store.stagesDir.child prepared.stageName).child .records).names s ↔
      n ∈ (List.range prepared.records.length).map ordinalJson := by
  rw [Directory.mem_names]
  change (∃ e, (s .stages).get? [prepared.stageName, .records, n] = some e) ↔ _
  simp only [h.stages _ _, mem_stageEntries, Prod.mk.injEq, List.cons.injEq, List.mem_map, List.mem_range,
    and_true, true_and, reduceCtorEq, and_false, false_and, false_or, or_false]
  constructor
  · rintro ⟨e, i, r, hr, rfl, -⟩
    exact ⟨i, (List.getElem?_eq_some_iff.mp hr).1, rfl⟩
  · rintro ⟨i, hi, rfl⟩
    exact ⟨_, i, prepared.records[i], List.getElem?_eq_getElem hi, rfl, rfl⟩

variable {crash : Disk → Prop} {fail : StoreError → Disk → Prop}

theorem wp_loadRecord {store : Store} {path : StorePath} {post : StagedRecord → Disk → Prop} {i : Nat}
    {r : PreparedRecord} {record : Record} (h : prepared.FullyStaged journal s)
    (hr : prepared.records[i]? = some r) (hsize : r.bytes.length ≤ MAX_RECORD_BYTES)
    (hdecode : decodeRecord r.bytes store.registry = .ok record) (hpath : record.canonicalPath = r.path)
    (hpost : post r.staged s) :
    (loadRecord store path ((Store.stagesDir.child prepared.stageName).child .records) i).wp
      crash post fail s := by
  have hentry : ((Store.stagesDir.child prepared.stageName).child .records).child? (ordinalJson i) s =
      some (.regular r.bytes) :=
    (h.stages _ _).mpr (mem_stageEntries.mpr (.inr (.inr (.inl ⟨i, r, hr, rfl⟩))))
  rw [loadRecord, Program.wp_bind, wp_boundedRegular hentry hsize, Program.wp_bind,
    Program.wp_ofExcept_ok (mapError_eq_ok.mpr hdecode), Program.wp_pure, hpath]
  exact hpost

variable [Blake3] [ReadDir] {store : Store} {base : StoreRevisionRef} {start : Disk}

/-- The stage of a previewed batch loads as the batch. -/
theorem wp_loadStage {post : StagedBatch → Disk → Prop}
    (h : prepared.FullyStaged (prepared.journalBytes base) s)
    (hbatch : Previewed store prepared base start)
    (hpost : post ⟨⟨base, prepared.manifest.batchId, manifestHash prepared.manifestBytes, prepared.records.length⟩,
      prepared.stagedManifest, prepared.stagedRecords⟩ s) :
    (loadStage store prepared.manifest.batchId).wp crash post fail s := by
  have hwf := hbatch.wellFormed
  have hcount := hwf.length_records_le
  have hjournal : (prepared.journalBytes base).length ≤ MAX_JOURNAL_BYTES := length_stageJournal_le
  have hrecovery : Store.recoveryDir.child? prepared.manifest.batchId.journalName s =
      some (.regular (prepared.journalBytes base)) := (h.recovery _ _).mpr List.mem_cons_self
  have hdecode : decodeJournal (Store.recoveryDir.join prepared.manifest.batchId.journalName)
      (prepared.journalBytes base) = .ok _ :=
    decode_stageJournal hwf (Nat.mod_eq_of_lt (by omega)) _
  have hstage : Store.stagesDir.child? prepared.manifest.batchId.stageName s = some .directory :=
    (h.stages _ _).mpr (mem_stageEntries.mpr (.inl rfl))
  rw [loadStage, Program.wp_bind, wp_boundedRegular hrecovery hjournal, Program.wp_bind,
    Program.wp_ofExcept_ok hdecode]
  simp only [ne_eq, not_true_eq_false, if_false, Program.wp_bind]
  have hkind : (Store.stagesDir.child prepared.stageName).child? .records s = some .directory :=
    (h.stages _ _).mpr (mem_stageEntries.mpr (.inr (.inl rfl)))
  have htmp : (Store.stagesDir.child prepared.stageName).child? .journalTmp s =
      some (.regular (prepared.journalBytes base)) :=
    (h.stages _ _).mpr (mem_stageEntries.mpr (.inr (.inr (.inr (.inr rfl)))))
  have hmanifest : (Store.stagesDir.child prepared.stageName).child? .manifestJson s =
      some (.regular prepared.manifestBytes) :=
    (h.stages _ _).mpr (mem_stageEntries.mpr (.inr (.inr (.inr (.inl rfl)))))
  have hname : prepared.manifest.batchId.stageName = prepared.stageName := rfl
  rw [Directory.wp_openDir hstage, hname, validateStageRoot, Program.wp_bind, wp_requireNames h.mem_stageNames (by decide), Program.wp_bind,
    Directory.wp_kind hkind]
  simp only [FileType.ofEntry, ne_eq, not_true_eq_false, if_false, Program.wp_pure]
  rw [wp_boundedRegular htmp hjournal]
  simp only [not_true_eq_false, if_false, Program.wp_bind]
  rw [wp_boundedRegular hmanifest (encodeManifest_eq_ok.mp hwf.encoded).2]
  simp only [not_true_eq_false, if_false, Program.wp_bind]
  rw [Program.wp_ofExcept_ok (mapError_eq_ok.mpr hbatch.decodeVisible_manifest.1)]
  simp only [hwf.length_members, not_true_eq_false, decide_false, Bool.or_false, Bool.false_eq_true, if_false,
    Program.wp_bind]
  rw [Directory.wp_openDir hkind, validateOrdinals,
    wp_requireNames h.mem_ordinals (by rw [List.length_map, List.length_range, MAX_LOCAL_ENTRIES, MAX_JOURNAL_MEMBERS]; omega)]
  have hget : ∀ i ∈ List.range prepared.records.length, ∀ post : StagedRecord → Disk → Prop,
      post (prepared.stagedRecords.getD i ⟨"", []⟩) s →
      (loadRecord store (Store.recoveryDir.join prepared.manifest.batchId.journalName)
        ((Store.stagesDir.child prepared.stageName).child .records) i).wp crash post fail s := by
    intro i hi post hpost
    have hi := List.mem_range.mp hi
    have hr : prepared.records[i]? = some prepared.records[i] := List.getElem?_eq_getElem hi
    have hmem : prepared.records[i] ∈ prepared.records := List.getElem_mem hi
    obtain ⟨record, hrecord, hpath, -⟩ := hbatch.decodeVisible_record hmem
    refine h.wp_loadRecord hr (hwf.size _ hmem) hrecord hpath ?_
    rw [List.getD_eq_getElem?_getD, stagedRecords, List.getElem?_map, hr] at hpost
    exact hpost
  refine Program.wp_mapM hget ?_
  have hrange : (List.range prepared.records.length).map (fun i => prepared.stagedRecords.getD i ⟨"", []⟩) =
      prepared.stagedRecords := by
    have hlength : prepared.stagedRecords.length = prepared.records.length := List.length_map ..
    rw [← hlength]
    refine List.ext_getElem (by simp) fun i hi hi' => ?_
    simp [hi']
  have htargets : (prepared.stagedRecords.map StagedRecord.target).Pairwise (· < ·) := by
    rw [stagedRecords, List.map_map]
    exact hwf.sorted
  have hsorted : prepared.stagedRecords.insertionSort (fun a b => a.target ≤ b.target) =
      prepared.stagedRecords :=
    ((List.pairwise_map.mp htargets).imp le_of_lt).insertionSort_eq
  have hascending : ascending (prepared.stagedRecords.map StagedRecord.target) = true :=
    ascending_iff.mpr htargets
  obtain ⟨decoded, hvalid⟩ := hbatch.validateBatchMembers_ok
  rw [hrange, hsorted]
  simp only [hascending, Bool.not_true, Bool.false_eq_true, if_false, Program.wp_bind]
  rw [Program.wp_ofExcept_ok (mapError_eq_ok.mpr hvalid), Program.wp_pure]
  exact hpost

end FullyStaged

end PreparedBatch

end

end Wayjournal
