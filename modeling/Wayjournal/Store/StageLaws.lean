import Wayjournal.Store.RecoveryBase
import Wayjournal.Store.RemovalLaws

namespace Wayjournal

open Collections Crash Fs FileSystem Text

theorem ordinalJson_injective {i j : Nat} (hi : i < 2 ^ 64) (hj : j < 2 ^ 64)
    (h : ordinalJson i = ordinalJson j) : i = j :=
  paddedBytes_injective hi hj (congrArg Name.bytes h)

section Files

variable {crash : Disk → Prop} {fail : StoreError → Disk → Prop} {d : Directory} {name : Name} {s : Disk}
variable {l : List (List Name × Entry)}

/-- A new file next to what an area holds. -/
theorem wp_writeNewSynced {bytes : Bytes} {post : Unit → Disk → Prop} (hl : (s d.area).Holds l)
    (hd : (s d.area).isDir d.path) (hnew : d.path ++ [name] ∉ l.map Prod.fst)
    (hcrash : ∀ fs content, fs.Holds (l ++ [(d.path ++ [name], .regular content)]) → crash (s.set d.area fs))
    (hpost : ∀ fs, fs.Holds (l ++ [(d.path ++ [name], .regular bytes)]) → post () (s.set d.area fs)) :
    (writeNewSynced d name bytes).wp crash post fail s := by
  rw [writeNewSynced, Program.wp_bind]
  refine Directory.wp_createFile hd (hl.get?_eq_none hnew) ?_
  intro fs hsets
  have hfs := hl.add hnew hsets
  refine ⟨hcrash fs [] hfs, ?_⟩
  have hempty : d.child? name (s.set d.area fs) = some (.regular []) := by
    rw [Directory.child?, Disk.set_same, hsets.here]
  refine Directory.wp_writeAll hempty ?_
  intro gs hwrite
  rw [Directory.Sets, Disk.set_same] at hwrite
  have hgs := hfs.replace hnew hwrite
  rw [Disk.set_set]
  exact ⟨hcrash gs bytes hgs, hpost gs hgs⟩

/-- A new directory next to what an area holds. -/
theorem wp_ensureDir_add {post : Directory × Bool → Disk → Prop} (hl : (s d.area).Holds l)
    (hd : (s d.area).isDir d.path) (hnew : d.path ++ [name] ∉ l.map Prod.fst)
    (h : ∀ fs, fs.Holds (l ++ [(d.path ++ [name], .directory)]) →
      crash (s.set d.area fs) ∧ post (d.child name, true) (s.set d.area fs)) :
    (d.ensureDir name).wp crash post fail s := by
  refine Directory.wp_ensureDir_new hd (hl.get?_eq_none hnew) ?_
  intro fs hsets
  exact h fs (hl.add hnew hsets)

end Files

section

variable [Jiff] (prepared : PreparedBatch)

namespace PreparedBatch

def stageName : Name := prepared.manifest.batchId.stageName

/-- The staged records from an ordinal on. -/
def recordEntries (stage : Name) : Nat → List PreparedRecord → List (List Name × Entry)
  | _, [] => []
  | index, record :: rest =>
    ([stage, .records, ordinalJson index], .regular record.bytes) :: recordEntries stage (index + 1) rest

def stageStart : List (List Name × Entry) :=
  [([prepared.stageName], .directory), ([prepared.stageName, .records], .directory)]

/-- What a complete stage holds. -/
def stageEntries (journal : Bytes) : List (List Name × Entry) :=
  prepared.stageStart ++ recordEntries prepared.stageName 0 prepared.records ++
    [([prepared.stageName, .manifestJson], .regular prepared.manifestBytes)] ++
    [([prepared.stageName, .journalTmp], .regular journal)]

/-- The paths of a stage. -/
def stageKeys : List (List Name) :=
  [prepared.stageName] :: [prepared.stageName, .records] :: [prepared.stageName, .manifestJson] ::
    [prepared.stageName, .journalTmp] ::
    (List.range prepared.records.length).map (fun i => [prepared.stageName, .records, ordinalJson i])

/-- A stages directory with nothing but parts of the stage. -/
def PartlyStaged (fs : FileSystem Name) : Prop := ∀ p e, fs.get? p = some e → p ∈ prepared.stageKeys

variable {prepared}

theorem PartlyStaged.of_holds {fs : FileSystem Name} {l : List (List Name × Entry)} (h : fs.Holds l)
    (hl : ∀ p ∈ l.map Prod.fst, p ∈ prepared.stageKeys) : prepared.PartlyStaged fs :=
  fun p _ he => hl p (h.mem_keys he)

theorem PartlyStaged.of_sub {fs gs : FileSystem Name} (h : prepared.PartlyStaged fs) (hsub : gs.Sub fs) :
    prepared.PartlyStaged gs :=
  fun p e he => h p e (hsub p e he)

theorem PartlyStaged.removable {fs : FileSystem Name} (h : prepared.PartlyStaged fs)
    (hwf : prepared.WellFormed) : Removable fs := by
  have hlength := hwf.length_records_le
  constructor
  · intro k e he
    have hk := h k e he
    simp only [stageKeys, List.mem_cons, List.mem_map] at hk
    change k.length ≤ 256
    obtain rfl | rfl | rfl | rfl | ⟨i, -, rfl⟩ := hk <;> simp
  · have hsubset : fs.entries.keys.length ≤ prepared.stageKeys.length := by
      refine fs.entries.keys_nodup.length_le_of_subset ?_
      intro k hk
      obtain ⟨e, he⟩ := BTreeMap.mem_keys_iff.mp hk
      exact h k e he
    refine hsubset.trans ?_
    simp only [stageKeys, List.length_cons, List.length_map, List.length_range, MAX_LOCAL_ENTRIES,
      MAX_JOURNAL_MEMBERS]
    omega

theorem mem_stageKeys_ordinal {i : Nat} (h : i < prepared.records.length) :
    [prepared.stageName, .records, ordinalJson i] ∈ prepared.stageKeys := by
  simp only [stageKeys, List.mem_cons, List.mem_map, List.mem_range]
  exact .inr (.inr (.inr (.inr ⟨i, h, rfl⟩)))

theorem keys_recordEntries (stage : Name) (index : Nat) (records : List PreparedRecord) :
    (recordEntries stage index records).map Prod.fst =
      (List.range' index records.length).map (fun i => [stage, .records, ordinalJson i]) := by
  induction records generalizing index with
  | nil => rfl
  | cons record rest ih =>
    rw [recordEntries, List.map_cons, ih, List.length_cons, List.range'_succ, List.map_cons]

theorem wp_stageRecords {crash : Disk → Prop} {fail : StoreError → Disk → Prop} {post : Unit → Disk → Prop}
    {s : Disk} {l : List (List Name × Entry)} {index : Nat} {rest : List PreparedRecord}
    (hl : (s .stages).Holds l) (hdir : ([prepared.stageName, .records], .directory) ∈ l)
    (hfresh : ∀ j, index ≤ j → j < index + rest.length →
      [prepared.stageName, .records, ordinalJson j] ∉ l.map Prod.fst)
    (hbound : index + rest.length ≤ 2 ^ 64)
    (hcrash : ∀ fs l', fs.Holds l' → (∀ p ∈ l'.map Prod.fst, p ∈ l.map Prod.fst ∨
      ∃ j, index ≤ j ∧ j < index + rest.length ∧ p = [prepared.stageName, .records, ordinalJson j]) →
        crash (s.set .stages fs))
    (hpost : ∀ fs, fs.Holds (l ++ recordEntries prepared.stageName index rest) →
      post () (s.set .stages fs)) :
    (stageRecords ⟨.stages, [prepared.stageName, .records]⟩ index rest).wp crash post fail s := by
  induction rest generalizing index l s with
  | nil =>
    rw [stageRecords, Program.wp_pure]
    have hself := hpost (s .stages)
    rw [Disk.set_eq_self, recordEntries, List.append_nil] at hself
    exact hself hl
  | cons record rest ih =>
    rw [List.length_cons] at hfresh hbound hcrash
    rw [stageRecords, Program.wp_bind]
    refine wp_writeNewSynced hl (.inr ((hl _ _).mpr hdir)) (hfresh index (by omega) (by omega)) ?_ ?_
    · intro fs content hfs
      refine hcrash fs _ hfs ?_
      intro p hp
      rw [List.map_append, List.mem_append] at hp
      obtain hp | hp := hp
      · exact .inl hp
      · exact .inr ⟨index, by omega, by omega, List.mem_singleton.mp hp⟩
    · intro fs hfs
      have hset : (s.set .stages fs) .stages = fs := Disk.set_same ..
      refine ih (l := l ++ [([prepared.stageName, .records, ordinalJson index], .regular record.bytes)])
        ?_ (List.mem_append_left _ hdir) ?_ (by omega) ?_ ?_
      · rw [hset]
        exact hfs
      · intro j hmin hmax hmem
        rw [List.map_append, List.mem_append] at hmem
        obtain hmem | hmem := hmem
        · exact hfresh j (by omega) (by omega) hmem
        · have hname := List.mem_singleton.mp hmem
          simp only [List.cons.injEq, and_true, true_and] at hname
          have := ordinalJson_injective (by omega) (by omega) hname
          omega
      · intro gs l' hgs hkeys
        rw [Disk.set_set]
        refine hcrash gs l' hgs ?_
        intro p hp
        obtain hp | ⟨j, hmin, hmax, rfl⟩ := hkeys p hp
        · rw [List.map_append, List.mem_append] at hp
          obtain hp | hp := hp
          · exact .inl hp
          · exact .inr ⟨index, by omega, by omega, List.mem_singleton.mp hp⟩
        · exact .inr ⟨j, by omega, by omega, rfl⟩
      · intro gs hgs
        rw [Disk.set_set]
        refine hpost gs ?_
        rw [List.append_assoc] at hgs
        exact hgs

theorem notMem_recordEntries {stage : Name} {index : Nat} {records : List PreparedRecord} {p : List Name}
    (h : p.length ≤ 2) : p ∉ (recordEntries stage index records).map Prod.fst := by
  intro hp
  rw [keys_recordEntries] at hp
  obtain ⟨i, -, rfl⟩ := List.mem_map.mp hp
  simp at h

variable [Blake3]

/-- The bytes of the journal of a batch. -/
def journalBytes (prepared : PreparedBatch) (base : StoreRevisionRef) : Bytes :=
  Json.compactObject (stageJournal prepared base (Fin.ofNat (2 ^ 64) prepared.records.length)).members

theorem wp_writeStage {crash : Disk → Prop} {fail : StoreError → Disk → Prop} {post : Bytes → Disk → Prop}
    {base : StoreRevisionRef} {s : Disk} (hwf : prepared.WellFormed) (hs : s .stages = ∅)
    (hcrash : ∀ fs, prepared.PartlyStaged fs → crash (s.set .stages fs))
    (hpost : ∀ fs, fs.Holds (prepared.stageEntries (prepared.journalBytes base)) →
      post (prepared.journalBytes base) (s.set .stages fs)) :
    (writeStage prepared base).wp crash post fail s := by
  have hlength := hwf.length_records_le
  have hstart : (s .stages).Holds [] := by
    rw [hs]
    exact .empty
  have hkey₁ : [prepared.stageName] ∈ prepared.stageKeys := List.mem_cons_self
  have hkey₂ : [prepared.stageName, .records] ∈ prepared.stageKeys := .tail _ List.mem_cons_self
  have hkey₃ : [prepared.stageName, .manifestJson] ∈ prepared.stageKeys := .tail _ (.tail _ List.mem_cons_self)
  have hkey₄ : [prepared.stageName, .journalTmp] ∈ prepared.stageKeys :=
    .tail _ (.tail _ (.tail _ List.mem_cons_self))
  have hcrash' : ∀ fs l, fs.Holds l → (∀ p ∈ l.map Prod.fst, p ∈ prepared.stageKeys) →
      crash (s.set .stages fs) := fun fs l hfs hl => hcrash fs (.of_holds hfs hl)
  have hset : ∀ fs, (s.set .stages fs) .stages = fs := fun fs => Disk.set_same ..
  rw [writeStage, Program.wp_bind]
  refine wp_ensureDir_add hstart (.inl rfl) (by simp) fun fs₁ hfs₁ => ⟨hcrash' fs₁ _ hfs₁ ?_, ?_⟩
  · rintro p (_ | ⟨_, ⟨⟩⟩)
    exact hkey₁
  · simp only [Bool.not_true, Bool.false_eq_true, if_false, Program.wp_bind]
    have hl₁ : ((s.set .stages fs₁) .stages).Holds [([prepared.stageName], .directory)] := by
      rw [hset]
      exact hfs₁
    refine wp_ensureDir_add hl₁ (.inr ((hl₁ _ _).mpr List.mem_cons_self)) ?_ fun fs₂ hfs₂ => ?_
    · change [prepared.stageName, Name.records] ∉ [[prepared.stageName]]
      simp
    change fs₂.Holds (prepared.stageStart) at hfs₂
    have hkeys₂ : ∀ p ∈ prepared.stageStart.map Prod.fst, p ∈ prepared.stageKeys := by
      intro p hp
      simp only [stageStart, List.map_cons, List.map_nil, List.mem_cons, List.not_mem_nil, or_false] at hp
      obtain rfl | rfl := hp
      · exact hkey₁
      · exact hkey₂
    have hset₂ : (s.set .stages fs₁).set .stages fs₂ = s.set .stages fs₂ := Disk.set_set ..
    change crash ((s.set .stages fs₁).set .stages fs₂) ∧
      (_ : DiskM Bytes).wp crash post fail ((s.set .stages fs₁).set .stages fs₂)
    rw [hset₂]
    refine ⟨hcrash' fs₂ _ hfs₂ hkeys₂, ?_⟩
    simp only [Bool.not_true, Bool.false_eq_true, if_false, Program.wp_bind]
    have hl₂ : ((s.set .stages fs₂) .stages).Holds prepared.stageStart := by
      rw [hset]
      exact hfs₂
    refine wp_stageRecords hl₂ (.tail _ List.mem_cons_self) ?_ (by omega) ?_ fun fs₃ hfs₃ => ?_
    · intro j _ _ hmem
      simp [stageStart] at hmem
    · intro fs l' hfs hkeys
      rw [Disk.set_set]
      refine hcrash' fs l' hfs fun p hp => ?_
      obtain hp | ⟨j, -, hj, rfl⟩ := hkeys p hp
      · exact hkeys₂ p hp
      · exact mem_stageKeys_ordinal (by omega)
    rw [Disk.set_set]
    have hkeys₃ : ∀ p ∈ (prepared.stageStart ++ recordEntries prepared.stageName 0 prepared.records).map Prod.fst,
        p ∈ prepared.stageKeys := by
      intro p hp
      rw [List.map_append, List.mem_append, keys_recordEntries] at hp
      obtain hp | hp := hp
      · exact hkeys₂ p hp
      · obtain ⟨j, hj, rfl⟩ := List.mem_map.mp hp
        exact mem_stageKeys_ordinal (by simpa using hj)
    have hl₃ : ((s.set .stages fs₃) .stages).Holds _ := (hset fs₃).symm ▸ hfs₃
    refine wp_writeNewSynced hl₃ (.inr ((hl₃ _ _).mpr (List.mem_append_left _ List.mem_cons_self)))
      ?_ ?_ fun fs₄ hfs₄ => ?_
    · rw [List.map_append, List.mem_append, not_or]
      refine ⟨?_, notMem_recordEntries (Nat.le_refl 2)⟩
      change [prepared.stageName, Name.manifestJson] ∉ [[prepared.stageName], [prepared.stageName, .records]]
      simp only [List.mem_cons, List.cons.injEq, List.not_mem_nil]
      decide
    · intro fs content hfs
      change crash ((s.set .stages fs₃).set .stages fs)
      rw [Disk.set_set]
      refine hcrash' fs _ hfs fun p hp => ?_
      rw [List.map_append, List.mem_append] at hp
      obtain hp | hp := hp
      · exact hkeys₃ p hp
      · rw [List.mem_singleton.mp hp]
        exact hkey₃
    change (_ : DiskM Bytes).wp crash post fail ((s.set .stages fs₃).set .stages fs₄)
    rw [Disk.set_set, dif_pos (show prepared.records.length < 2 ^ 64 by omega), Program.wp_bind]
    have hcount : (⟨prepared.records.length, by omega⟩ : Fin (2 ^ 64)) =
        Fin.ofNat (2 ^ 64) prepared.records.length := by
      apply Fin.ext
      exact (Nat.mod_eq_of_lt (by omega)).symm
    have hencode : encodeJournal (stageJournal prepared base ⟨prepared.records.length, by omega⟩)
        (Store.stagesDir.child prepared.manifest.batchId.stageName).display = .ok (prepared.journalBytes base) := by
      rw [hcount, encodeJournal, if_neg (Nat.not_lt.mpr length_stageJournal_le)]
      rfl
    rw [Program.wp_ofExcept_ok hencode, Program.wp_bind]
    have hl₄ : ((s.set .stages fs₄) .stages).Holds _ := (hset fs₄).symm ▸ hfs₄
    have hkeys₄ : ∀ p ∈ (prepared.stageStart ++ recordEntries prepared.stageName 0 prepared.records ++
        [([prepared.stageName, .manifestJson], Entry.regular prepared.manifestBytes)]).map Prod.fst,
        p ∈ prepared.stageKeys := by
      intro p hp
      rw [List.map_append, List.mem_append] at hp
      obtain hp | hp := hp
      · exact hkeys₃ p hp
      · rw [List.mem_singleton.mp hp]
        exact hkey₃
    refine wp_writeNewSynced hl₄
      (.inr ((hl₄ _ _).mpr (List.mem_append_left _ (List.mem_append_left _ List.mem_cons_self))))
      ?_ ?_ fun fs₅ hfs₅ => ?_
    · rw [List.map_append, List.mem_append, List.map_append, List.mem_append, not_or, not_or]
      refine ⟨⟨?_, notMem_recordEntries (Nat.le_refl 2)⟩, ?_⟩
      · change [prepared.stageName, Name.journalTmp] ∉ [[prepared.stageName], [prepared.stageName, .records]]
        simp only [List.mem_cons, List.cons.injEq, List.not_mem_nil]
        decide
      · change [prepared.stageName, Name.journalTmp] ∉ [[prepared.stageName, Name.manifestJson]]
        simp only [List.mem_cons, List.cons.injEq, List.not_mem_nil]
        decide
    · intro fs content hfs
      change crash ((s.set .stages fs₄).set .stages fs)
      rw [Disk.set_set]
      refine hcrash' fs _ hfs fun p hp => ?_
      rw [List.map_append, List.mem_append] at hp
      obtain hp | hp := hp
      · exact hkeys₄ p hp
      · rw [List.mem_singleton.mp hp]
        exact hkey₄
    change (_ : DiskM Bytes).wp crash post fail ((s.set .stages fs₄).set .stages fs₅)
    rw [Disk.set_set, Program.wp_pure]
    exact hpost fs₅ hfs₅

end PreparedBatch

end

end Wayjournal
