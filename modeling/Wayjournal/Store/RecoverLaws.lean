import Wayjournal.Store.PublishLaws

namespace Wayjournal

open Collections Crash Fs FileSystem Text

theorem holds_nil {fs : FileSystem Name} : fs.Holds [] ↔ fs = ∅ := by
  constructor
  · intro h
    refine ext_get? fun p => ?_
    rw [get?_empty, Option.eq_none_iff_forall_ne_some]
    exact fun e he => absurd ((h p e).mp he) List.not_mem_nil
  · rintro rfl
    exact .empty

theorem presentIn_of_get? {gs : FileSystem Name} {files : Additions}
    (h : ∀ f ∈ files, gs.get? f.1 = some (.regular f.2)) : presentIn gs files = files := by
  rw [presentIn, List.filter_eq_self]
  intro f hf
  rw [h f hf]
  rfl

theorem Extends.get?_present {fs gs : FileSystem Name} {files : Additions} (h : Extends fs files gs)
    (hfiles : Addable files) (hfull : presentIn gs files = files) {f : List Name × Bytes} (hf : f ∈ files) :
    gs.get? f.1 = some (.regular f.2) := by
  rw [← hfull] at hf
  exact ((h.mem_present hfiles).mp hf).2

/-- Everything a directory holds stands below its one entry. -/
theorem pruned_eq_empty {fs gs : FileSystem Name} {name : Name} (hpruned : fs.Pruned [name] gs)
    (h : ∀ p e, fs.get? p = some e → [name] <+: p) : gs = ∅ := by
  refine ext_get? fun p => ?_
  rw [get?_empty]
  by_cases hp : [name] <+: p
  · exact hpruned.gone p hp
  · rw [hpruned.kept p hp, Option.eq_none_iff_forall_ne_some]
    exact fun e he => hp (h p e he)

section Journals

variable {crash : Disk → Prop} {fail : StoreError → Disk → Prop} {t : Disk}

theorem wp_journalId {post : BatchId → Disk → Prop} {batchId : BatchId} {bytes : Bytes}
    (h : Store.recoveryDir.child? batchId.journalName t = some (.regular bytes)) :
    (journalId batchId.journalName).wp crash post fail t ↔ post batchId t := by
  have hbytes : fromUtf8 batchId.journalName.bytes = some (batchId.display ++ ".json") := fromUtf8_asBytes _
  have hparse : (FromStr.fromStr batchId.display : Except _ BatchId) = .ok batchId := UuidId.parse_display batchId
  simp only [journalId, hbytes, stripJson_append, hparse, Program.wp_bind, Directory.wp_kind h,
    FileType.ofEntry, ne_eq, not_true_eq_false, if_false, Program.wp_pure]

variable [ReadDir]

theorem wp_listedJournals_none {post : List BatchId → Disk → Prop} (h : t .recovery = ∅) :
    listedJournals.wp crash post fail t ↔ post [] t := by
  have hnames : Store.recoveryDir.names t = [] := by
    refine names_eq_nil.mpr fun n => ?_
    change (t .recovery).get? _ = none
    rw [h, get?_empty]
  rw [listedJournals, Program.wp_bind, Directory.wp_boundedNames (by rw [hnames]; exact Nat.zero_le _), hnames]
  simp only [List.insertionSort_nil, List.mapM_nil, Program.wp_bind, Program.wp_pure, ascending,
    Bool.not_true, Bool.false_eq_true, if_false]

theorem wp_listedJournals_one {post : List BatchId → Disk → Prop} {batchId : BatchId} {bytes : Bytes}
    (h : (t .recovery).Holds [([batchId.journalName], .regular bytes)]) :
    listedJournals.wp crash post fail t ↔ post [batchId] t := by
  have hentry : Store.recoveryDir.child? batchId.journalName t = some (.regular bytes) :=
    (h _ _).mpr List.mem_cons_self
  have hnames : Store.recoveryDir.names t = [batchId.journalName] := by
    refine List.perm_singleton.mp ((List.perm_ext_iff_of_nodup (nodup_names _ _)
      (List.nodup_singleton _)).mpr fun n => ?_)
    change n ∈ Store.recoveryDir.names t ↔ _
    rw [Directory.mem_names, List.mem_singleton]
    constructor
    · rintro ⟨e, he⟩
      have hmem := List.mem_singleton.mp ((h [n] e).mp he)
      cases hmem
      rfl
    · rintro rfl
      exact ⟨_, hentry⟩
  rw [listedJournals, Program.wp_bind,
    Directory.wp_boundedNames (by rw [hnames, List.length_singleton]; decide), hnames]
  simp only [List.insertionSort_cons, List.insertionSort_nil, List.orderedInsert_nil, List.mapM_cons, List.mapM_nil,
    Program.wp_bind, Program.wp_pure, wp_journalId hentry, ascending, Bool.not_true, Bool.false_eq_true, if_false]

end Journals

section

variable [Jiff] {prepared : PreparedBatch} {journal : Bytes} {s t : Disk}

theorem PreparedBatch.PartlyStaged.empty : prepared.PartlyStaged ∅ := by
  intro p e he
  cases he

theorem PreparedBatch.PartlyStaged.below {fs : FileSystem Name} (h : prepared.PartlyStaged fs)
    {p : List Name} {e : Entry} (he : fs.get? p = some e) : [prepared.stageName] <+: p := by
  have hp := h p e he
  simp only [stageKeys, List.mem_cons, List.mem_map] at hp
  obtain rfl | rfl | rfl | rfl | ⟨i, -, rfl⟩ := hp
  · exact List.prefix_refl _
  · exact ⟨_, rfl⟩
  · exact ⟨_, rfl⟩
  · exact ⟨_, rfl⟩
  · exact ⟨_, rfl⟩

theorem PreparedBatch.FullyStaged.of_eq (h : prepared.FullyStaged journal s)
    (hstages : t .stages = s .stages) (hrecovery : t .recovery = s .recovery) :
    prepared.FullyStaged journal t where
  stages := hstages ▸ h.stages
  recovery := hrecovery ▸ h.recovery

theorem PreparedBatch.FullyStaged.set_canonical (h : prepared.FullyStaged journal t)
    (gs : FileSystem Name) : prepared.FullyStaged journal (t.set .canonical gs) :=
  h.of_eq (Disk.set_of_ne t (by decide) gs) (Disk.set_of_ne t (by decide) gs)

theorem PreparedBatch.PartlyStaged.of_stageEntries {fs : FileSystem Name}
    (h : fs.Holds (prepared.stageEntries journal)) : prepared.PartlyStaged fs := by
  intro p e he
  have hmem := (h p e).mp he
  simp only [stageKeys, List.mem_cons, List.mem_map, List.mem_range]
  obtain heq | heq | ⟨i, r, hr, heq⟩ | heq | heq := mem_stageEntries.mp hmem
  · exact .inl (congrArg Prod.fst heq)
  · exact .inr (.inl (congrArg Prod.fst heq))
  · exact .inr (.inr (.inr (.inr ⟨i, (List.getElem?_eq_some_iff.mp hr).1, (congrArg Prod.fst heq).symm⟩)))
  · exact .inr (.inr (.inl (congrArg Prod.fst heq)))
  · exact .inr (.inr (.inr (.inl (congrArg Prod.fst heq))))

theorem wp_cleanPartly [ReadDir] {shape : Disk → Prop} (hwf : prepared.WellFormed) (hrecovery : t .recovery = ∅)
    (hstages : prepared.PartlyStaged (t .stages))
    (hshape : ∀ fs, prepared.PartlyStaged fs → shape (t.set .stages fs)) :
    cleanUnpreparedStages.wp shape (fun _ u => shape u ∧ u .recovery = ∅ ∧ u .stages = ∅)
      (fun _ _ => False) t := by
  refine wp_cleanUnpreparedStages (hstages.removable hwf) ?_ ?_
  · rintro u ⟨fs, hfs, rfl⟩
    exact hshape fs (hstages.of_sub hfs)
  · refine ⟨hshape ∅ .empty, ?_, Disk.set_same ..⟩
    rw [Disk.set_of_ne _ (by decide)]
    exact hrecovery

/-- The states of an append by how far it got, `s` being the one it started from. -/
structure Unprepared (prepared : PreparedBatch) (s t : Disk) : Prop where
  canonical : t .canonical = s .canonical
  recovery : t .recovery = ∅
  stages : prepared.PartlyStaged (t .stages)

structure Published (prepared : PreparedBatch) (s t : Disk) : Prop where
  published : Extends (s .canonical) prepared.targets (t .canonical)
  full : presentIn (t .canonical) prepared.targets = prepared.targets
  recovery : t .recovery = ∅
  stages : prepared.PartlyStaged (t .stages)

theorem Published.wp_cleanUnpreparedStages [ReadDir] (hwf : prepared.WellFormed) (h : Published prepared s t) :
    cleanUnpreparedStages.wp (Published prepared s)
      (fun _ u => Published prepared s u ∧ u .recovery = ∅ ∧ u .stages = ∅) (fun _ _ => False) t := by
  refine wp_cleanPartly hwf h.recovery h.stages fun fs hfs => ?_
  have hcanonical : (t.set .stages fs) .canonical = t .canonical := Disk.set_of_ne _ (by decide) _
  refine ⟨hcanonical.symm ▸ h.published, hcanonical.symm ▸ h.full, ?_, ?_⟩
  · rw [Disk.set_of_ne _ (by decide)]
    exact h.recovery
  · rw [Disk.set_same]
    exact hfs

variable [Blake3]

structure Journaled (prepared : PreparedBatch) (base : StoreRevisionRef) (s t : Disk) : Prop where
  staged : prepared.FullyStaged (prepared.journalBytes base) t
  published : Extends (s .canonical) prepared.targets (t .canonical)

/-- The journal has been linked. -/
def Committed (prepared : PreparedBatch) (base : StoreRevisionRef) (s t : Disk) : Prop :=
  Journaled prepared base s t ∨ Published prepared s t

variable {store : Store} {base : StoreRevisionRef}
variable {crash : Disk → Prop} {fail : StoreError → Disk → Prop} {post : Unit → Disk → Prop}

theorem Journaled.set_canonical (h : Journaled prepared base s t) {gs : FileSystem Name}
    (hgs : Extends (s .canonical) prepared.targets gs) : Journaled prepared base s (t.set .canonical gs) where
  staged := h.staged.set_canonical gs
  published := by
    rw [Disk.set_same]
    exact hgs

/-- A stage where there is none, and the journal that makes it count. -/
theorem Previewed.wp_stageBatch (h : Previewed store prepared base s) (hrecovery : s .recovery = ∅)
    (hstages : s .stages = ∅) :
    (stageBatch prepared base).wp (fun _ => True)
      (fun _ t => Journaled prepared base s t ∧ t .canonical = s .canonical) (fun _ _ => False) s := by
  rw [stageBatch, Program.wp_bind]
  refine PreparedBatch.wp_writeStage h.wellFormed hstages (fun _ _ => trivial) fun fs hfs => ?_
  have hempty : ((s.set .stages fs) .recovery).Holds [] := by
    rw [Disk.set_of_ne _ (by decide)]
    exact holds_nil.mpr hrecovery
  have hfree : Store.recoveryDir.child? prepared.manifest.batchId.journalName (s.set .stages fs) = none :=
    hempty.get?_eq_none (by simp)
  refine wp_linkFdNoClobber (.inl rfl) (.inl hfree) (fun gs _ hsets => ⟨trivial, ?_⟩) ?_
  · have hcanonical : ((s.set .stages fs).set .recovery gs) .canonical = s .canonical := by
      rw [Disk.set_of_ne _ (by decide), Disk.set_of_ne _ (by decide)]
    have hjournaled : Journaled prepared base s ((s.set .stages fs).set .recovery gs) := by
      refine ⟨⟨?_, ?_⟩, ?_⟩
      · rw [Disk.set_of_ne _ (by decide), Disk.set_same]
        exact hfs
      · rw [Disk.set_same]
        exact hempty.add (by simp) hsets
      · rw [hcanonical]
        exact .refl h.publishable.fresh
    exact ⟨hjournaled, hcanonical⟩
  · intro hold
    rw [hfree] at hold
    cases hold

/-- The records are linked one after the other; those that are there are left. -/
theorem Previewed.wp_publishRecords (h : Previewed store prepared base s) (hopen : Opened s)
    (ht : Journaled prepared base s t)
    (hpost : ∀ gs, Extends (s .canonical) prepared.targets gs →
      (∀ r ∈ prepared.records, gs.get? r.record.key = some (.regular r.bytes)) →
        post () (t.set .canonical gs)) :
    (prepared.stagedRecords.forM publishRecord).wp (Journaled prepared base s) post fail t := by
  refine Program.wp_forM (fun rest u => ∃ (l : List PreparedRecord) (gs : FileSystem Name), rest = l.map PreparedRecord.staged ∧
      (∀ r ∈ l, r ∈ prepared.records) ∧ u = t.set .canonical gs ∧
      Extends (s .canonical) prepared.targets gs ∧
      ∀ r ∈ prepared.records, r ∈ l ∨ gs.get? r.record.key = some (.regular r.bytes)) ?_ ?_ ?_
  · rintro record rest u ⟨l, gs, hl, hmem, rfl, hgs, hrest⟩
    cases l with
    | nil => cases hl
    | cons r l =>
      cases hl
      have hset : (t.set .canonical gs) .canonical = gs := Disk.set_same ..
      refine h.wp_publishRecord hopen (hset.symm ▸ hgs) (hmem r List.mem_cons_self) ?_ ?_
      · intro hs hhs _
        rw [Disk.set_set]
        exact ht.set_canonical hhs
      · intro hs hhs hsub hr
        rw [hset] at hsub
        rw [Disk.set_set]
        refine ⟨l, hs, rfl, fun r' hr' => hmem r' (List.mem_cons_of_mem _ hr'), rfl, hhs, ?_⟩
        intro r' hr'
        obtain hr' | hr' := hrest r' hr'
        · obtain rfl | hr' := List.mem_cons.mp hr'
          · exact .inr hr
          · exact .inl hr'
        · exact .inr (hsub _ _ hr')
  · refine ⟨prepared.records, t .canonical, rfl, fun _ h => h, (Disk.set_eq_self ..).symm, ht.published, ?_⟩
    exact fun r hr => .inl hr
  · rintro u ⟨l, gs, hl, -, rfl, hgs, hrest⟩
    refine hpost gs hgs fun r hr => ?_
    obtain hr | hr := hrest r hr
    · rw [List.map_eq_nil_iff.mp hl.symm] at hr
      cases hr
    · exact hr

variable [ReadDir]

/-- Taking the stage away leaves nothing in the two directories. -/
theorem wp_discardStage (hwf : prepared.WellFormed)
    (h : prepared.FullyStaged (prepared.journalBytes base) t)
    (hcrash : ∀ gs, prepared.PartlyStaged gs → crash ((t.set .recovery ∅).set .stages gs))
    (hpost : post () ((t.set .recovery ∅).set .stages ∅)) :
    (discardStage prepared.manifest.batchId).wp crash post (fun _ _ => False) t := by
  have hjournal : Store.recoveryDir.child? prepared.manifest.batchId.journalName t =
      some (.regular (prepared.journalBytes base)) := (h.recovery _ _).mpr List.mem_cons_self
  have hpartly : prepared.PartlyStaged (t .stages) := .of_stageEntries h.stages
  rw [discardStage, Program.wp_bind]
  refine Directory.wp_unlinkFile hjournal (by simp) ?_
  intro fs hsets
  have hempty : fs = ∅ := by
    refine ext_get? fun p => ?_
    rw [get?_empty]
    by_cases hp : p = [prepared.manifest.batchId.journalName]
    · rw [hp]
      exact hsets.here
    · rw [hsets.elsewhere p hp, Option.eq_none_iff_forall_ne_some]
      intro e he
      have heq := List.mem_singleton.mp ((h.recovery p e).mp he)
      exact hp (congrArg Prod.fst heq)
  subst hempty
  change crash (t.set .recovery ∅) ∧ (_ : DiskM Unit).wp _ _ _ (t.set .recovery ∅)
  have hstages : (t.set .recovery ∅) .stages = t .stages := Disk.set_of_ne t (by decide) ∅
  have hself : (t.set .recovery ∅).set .stages (t .stages) = t.set .recovery ∅ := by
    rw [← hstages, Disk.set_eq_self]
  refine ⟨?_, ?_⟩
  · have hnow := hcrash (t .stages) hpartly
    rwa [hself] at hnow
  · have hentry : Store.stagesDir.child? prepared.manifest.batchId.stageName (t.set .recovery ∅) =
        some .directory := by
      rw [Directory.child?]
      change ((t.set .recovery ∅) .stages).get? _ = _
      rw [hstages]
      exact (h.stages _ _).mpr (PreparedBatch.mem_stageEntries.mpr (.inl rfl))
    have hremovable := hpartly.removable hwf
    have hnames : (t .stages).names [] = [prepared.stageName] := by
      refine List.perm_singleton.mp ((List.perm_ext_iff_of_nodup (nodup_names _ _)
        (List.nodup_singleton _)).mpr fun n => ?_)
      rw [FileSystem.mem_names, List.mem_singleton]
      constructor
      · rintro ⟨e, he⟩
        obtain ⟨r, hr⟩ := hpartly.below he
        cases hr
        rfl
      · rintro rfl
        exact ⟨_, (h.stages _ _).mpr (PreparedBatch.mem_stageEntries.mpr (.inl rfl))⟩
    have hweight := hremovable.size
    rw [← weight_root, hnames] at hweight
    rw [Program.wp_bind]
    refine Program.wp_mono (removeTree_removes MAX_LOCAL_DEPTH Store.stagesDir 1 _ _ _ hentry ?_ ?_ ?_)
      (fun _ h => h) ?_ (fun _ _ h => h)
    · intro k e hk _
      change ((t.set .recovery ∅) .stages).get? k = some e at hk
      rw [hstages] at hk
      exact (hremovable.depth k e hk).trans (Nat.le_add_left _ _)
    · change 1 + ((t.set .recovery ∅) .stages).weight [] [prepared.stageName] ≤ _
      rw [hstages]
      omega
    · rintro u ⟨gs, hgs, rfl⟩
      change gs.Sub ((t.set .recovery ∅) .stages) at hgs
      rw [hstages] at hgs
      exact hcrash gs (hpartly.of_sub hgs)
    · rintro c u ⟨-, gs, rfl, hpruned⟩
      change ((t.set .recovery ∅) .stages).Pruned [prepared.stageName] gs at hpruned
      rw [hstages] at hpruned
      obtain rfl := pruned_eq_empty hpruned fun p e he => hpartly.below he
      rw [Program.wp_pure]
      exact hpost

/-- Recovery of a linked journal publishes the rest of the batch and takes the stage
away. -/
theorem Previewed.wp_recoverOne (h : Previewed store prepared base s) (hopen : Opened s)
    (ht : Journaled prepared base s t) :
    (recoverOne store prepared.manifest.batchId).wp (Committed prepared base s)
      (fun _ u => Published prepared s u ∧ u .stages = ∅) (fun _ _ => False) t := by
  have haddable := h.publishable.addable
  rw [recoverOne, Program.wp_bind]
  refine ht.staged.wp_loadStage h ?_
  rw [Program.wp_bind, Program.wp_tryCatch,
    Program.wp_reads_ok (h.validateRecoveryBase_ok ht.published rfl), Program.wp_bind]
  refine Program.wp_mono (h.wp_publishRecords hopen ht fun gs hgs hrecords => ?_) (fun _ => .inl)
    (fun _ _ h => h) (fun _ _ h => h)
  have hset : (t.set .canonical gs) .canonical = gs := Disk.set_same ..
  have hmanifest : ([.journal, .batches] ++ [BatchId.journalName prepared.manifest.batchId],
      prepared.manifestBytes) ∈ prepared.targets :=
    PreparedBatch.WellFormed.mem_targets.mpr (.inr rfl)
  have hbatches : ((t.set .canonical gs) .canonical).isDir [.journal, .batches] := by
    rw [hset]
    exact .inr (hgs.sub _ _ hopen.batches)
  rw [Program.wp_bind]
  refine h.wp_linkTarget (hset.symm ▸ hgs) hmanifest hbatches ?_ ?_
  · intro hs hhs _
    rw [Disk.set_set]
    exact .inl (ht.set_canonical hhs)
  · intro hs hhs hsub hlinked
    rw [hset] at hsub
    rw [Disk.set_set]
    have hfull : presentIn hs prepared.targets = prepared.targets := by
      refine presentIn_of_get? fun f hf => ?_
      obtain ⟨r, hr, rfl⟩ | rfl := PreparedBatch.WellFormed.mem_targets.mp hf
      · exact hsub _ _ (hrecords r hr)
      · exact hlinked
    have hdone : ∀ fs, prepared.PartlyStaged fs →
        Published prepared s (((t.set .canonical hs).set .recovery ∅).set .stages fs) := by
      intro fs hfs
      have hcanonical : (((t.set .canonical hs).set .recovery ∅).set .stages fs) .canonical = hs := by
        rw [Disk.set_of_ne _ (by decide), Disk.set_of_ne _ (by decide), Disk.set_same]
      refine ⟨hcanonical.symm ▸ hhs, hcanonical.symm ▸ hfull, ?_, ?_⟩
      · rw [Disk.set_of_ne _ (by decide), Disk.set_same]
      · rw [Disk.set_same]
        exact hfs
    refine wp_discardStage h.wellFormed (ht.staged.set_canonical hs) (fun fs hfs => .inr (hdone fs hfs)) ?_
    exact ⟨hdone ∅ .empty, Disk.set_same ..⟩

theorem Unprepared.wp_recoverLocked (hwf : prepared.WellFormed) (h : Unprepared prepared s t) :
    (recoverLocked store).wp (Unprepared prepared s)
      (fun _ u => Unprepared prepared s u ∧ u .recovery = ∅ ∧ u .stages = ∅) (fun _ _ => False) t := by
  rw [recoverLocked, Program.wp_bind, wp_listedJournals_none h.recovery, Program.wp_bind]
  refine Program.wp_pure.mpr (wp_cleanPartly hwf h.recovery h.stages fun fs hfs => ⟨?_, ?_, ?_⟩)
  · rw [Disk.set_of_ne _ (by decide)]
    exact h.canonical
  · rw [Disk.set_of_ne _ (by decide)]
    exact h.recovery
  · rw [Disk.set_same]
    exact hfs

/-- Once the journal is linked, every recovery goes towards the published batch. -/
theorem Committed.wp_recoverLocked (h : Previewed store prepared base s) (hopen : Opened s)
    (ht : Committed prepared base s t) :
    (recoverLocked store).wp (Committed prepared base s)
      (fun _ u => Published prepared s u ∧ u .recovery = ∅ ∧ u .stages = ∅) (fun _ _ => False) t := by
  have hclean : ∀ u, Published prepared s u → cleanUnpreparedStages.wp (Committed prepared base s)
      (fun _ u => Published prepared s u ∧ u .recovery = ∅ ∧ u .stages = ∅) (fun _ _ => False) u :=
    fun u hu => Program.wp_mono (hu.wp_cleanUnpreparedStages h.wellFormed) (fun _ => .inr)
      (fun _ _ h => h) (fun _ _ h => h)
  rw [recoverLocked, Program.wp_bind]
  obtain ht | ht := ht
  · rw [wp_listedJournals_one ht.staged.recovery, Program.wp_bind]
    change ((do recoverOne store prepared.manifest.batchId; pure ⟨⟩) : DiskM PUnit).wp _ _ _ _
    rw [Program.wp_bind]
    refine Program.wp_mono (h.wp_recoverOne hopen ht) (fun _ h => h) ?_ (fun _ _ h => h)
    rintro _ u ⟨hu, -⟩
    exact Program.wp_pure.mpr (hclean u hu)
  · rw [wp_listedJournals_none ht.recovery, Program.wp_bind]
    exact Program.wp_pure.mpr (hclean t ht)

end

end Wayjournal
