import Wayjournal.Federation.CheckpointLaws
import Wayjournal.Store.Replacement

namespace Wayjournal

open Crash Fs FileSystem Text

/-- `Uuid::now_v7`. -/
structure Uuid7 where
  uuid : Uuid
  version : uuid.versionNum = 7
  variant : uuid.isRfc4122 = true

def IsCheckpointTemporary (n : Name) : Prop := ∃ u : Uuid7, n = checkpointTemporary u.uuid

theorem checkpointTemporary_ne (u : Uuid) : checkpointTemporary u ≠ .admissionCheckpoint := by
  intro h
  have hhead := congrArg (fun n : Name => n.bytes.head?) h
  simp [checkpointTemporary, Name.admissionCheckpoint, CHECKPOINT_TEMPORARY, ADMISSION_CHECKPOINT_FILENAME, asBytes,
    Json.utf8, Utf8.encode, Utf8.encodeChar] at hhead

theorem checkpointTemporaryId_temporary (u : Uuid) : checkpointTemporaryId (checkpointTemporary u) = .ok u := by
  unfold checkpointTemporaryId
  rw [checkpointTemporary, fromUtf8_asBytes]
  simp only [String.toList_append, List.dropPrefix?_append_of_beq _ (beq_self_eq_true _), String.ofList_toList,
    Uuid.parseStr_hyphenated]
  rfl

/-- The directory of the checkpoint holds its file, if there is one. -/
def checkpointContent (current : Option Bytes) : List (Name × Entry) :=
  current.toList.map fun bytes => (.admissionCheckpoint, .regular bytes)

theorem mem_checkpointContent {current : Option Bytes} {x : Name × Entry} :
    x ∈ checkpointContent current ↔ ∃ bytes, current = some bytes ∧ x = (.admissionCheckpoint, .regular bytes) := by
  simp [checkpointContent, eq_comm]

theorem notMem_checkpointContent {current : Option Bytes} (u : Uuid) :
    checkpointTemporary u ∉ (checkpointContent current).map Prod.fst := by
  intro h
  obtain ⟨x, hx, hfst⟩ := List.mem_map.mp h
  obtain ⟨bytes, -, rfl⟩ := mem_checkpointContent.mp hx
  exact checkpointTemporary_ne u hfst.symm

theorem nodup_checkpointContent (current : Option Bytes) : ((checkpointContent current).map Prod.fst).Nodup := by
  cases current <;> simp [checkpointContent]

section Recover

variable {s t : Disk} {current : Option Bytes}

/-- The files of the directory while a checkpoint is replaced, since `s`. -/
abbrev CheckpointResidual (s : Disk) (current : Option Bytes) (t : Disk) : Prop :=
  Store.checkpointsDir.Residual IsCheckpointTemporary MAX_ADMISSION_CHECKPOINT_BYTES s (checkpointContent current) t

section

variable {crash : Disk → Prop} {post : Option Name → Disk → Prop} {fail : CheckpointError → Disk → Prop} {bytes : Bytes}

theorem wp_checkResidue_target {temporary : Option Name}
    (h : Store.checkpointsDir.child? .admissionCheckpoint t = some (.regular bytes)) (hpost : post temporary t) :
    (checkResidue temporary .admissionCheckpoint).wp crash post fail t := by
  rw [checkResidue, if_pos rfl, Program.wp_bind, wp_liftCheckpoint, Directory.wp_kind h]
  exact Program.wp_guard.mpr ⟨fun h => absurd rfl h, fun _ => Program.wp_pure.mpr hpost⟩

theorem wp_checkResidue_temporary {u : Uuid7}
    (h : Store.checkpointsDir.child? (checkpointTemporary u.uuid) t = some (.regular bytes))
    (hlimit : bytes.length ≤ MAX_ADMISSION_CHECKPOINT_BYTES) (hpost : post (some (checkpointTemporary u.uuid)) t) :
    (checkResidue none (checkpointTemporary u.uuid)).wp crash post fail t := by
  rw [checkResidue, if_neg (checkpointTemporary_ne u.uuid), Program.wp_bind,
    Program.wp_ofExcept_ok (checkpointTemporaryId_temporary u.uuid)]
  refine Program.wp_guard.mpr ⟨fun h => ?_, fun _ => ?_⟩
  · simp [u.version, u.variant] at h
  · rw [Program.wp_bind, wp_liftCheckpoint, Directory.wp_kind h]
    refine Program.wp_guard.mpr ⟨fun h => absurd rfl h, fun _ => ?_⟩
    rw [Program.wp_bind, wp_liftCheckpoint, Directory.wp_openFile h]
    exact Program.wp_guard.mpr ⟨fun h => absurd h (not_lt.mpr hlimit), fun _ => Program.wp_pure.mpr hpost⟩

end

theorem nodup_residue {residue : Option (Name × Bytes)} (h : ∀ r ∈ residue, IsCheckpointTemporary r.1) :
    ((checkpointContent current ++ residue.toList.map fun r => (r.1, Entry.regular r.2)).map Prod.fst).Nodup := by
  rw [List.map_append, List.map_map, List.nodup_append]
  refine ⟨nodup_checkpointContent current, ?_, ?_⟩
  · cases residue <;> simp
  · rintro a ha _ hb rfl
    obtain ⟨r, hr, rfl⟩ := List.mem_map.mp hb
    obtain ⟨u, hu⟩ := h r (Option.mem_toList.mp hr)
    rw [Function.comp_apply, hu] at ha
    exact notMem_checkpointContent u.uuid ha

theorem filter_names {residue : Option (Name × Bytes)} (h : ∀ r ∈ residue, IsCheckpointTemporary r.1)
    {names : List Name}
    (hnames : names.Perm ((checkpointContent current ++ residue.toList.map fun r => (r.1, Entry.regular r.2)).map Prod.fst)) :
    names.filter (· ≠ .admissionCheckpoint) = residue.toList.map Prod.fst := by
  have hcontent : ((checkpointContent current).map Prod.fst).filter (· ≠ .admissionCheckpoint) = [] := by
    cases current <;> simp [checkpointContent]
  have hfilter := hnames.filter (· ≠ .admissionCheckpoint)
  rw [List.map_append, List.filter_append, hcontent, List.map_map, List.nil_append] at hfilter
  cases residue with
  | none => exact List.perm_nil.mp hfilter
  | some r =>
    obtain ⟨u, hu⟩ := h r rfl
    refine List.perm_singleton.mp (hfilter.trans (.of_eq ?_))
    simp [hu, checkpointTemporary_ne]

variable [ReadDir]

theorem wp_recoverResidue (h : CheckpointResidual s current t) :
    recoverResidue.wp (CheckpointResidual s current)
      (fun _ => Store.checkpointsDir.Becomes s (checkpointContent current)) (fun _ _ => False) t := by
  obtain ⟨residue, hresidue, hbecomes⟩ := h
  have hperm := hbecomes.lists.perm_names (nodup_residue fun r hr => (hresidue r hr).1)
  have hcount : (Store.checkpointsDir.names t).length ≤ 4 := by
    rw [hperm.length_eq]
    cases current <;> cases residue <;> simp [checkpointContent]
  have hsorted := (List.perm_insertionSort (· ≤ ·) (Store.checkpointsDir.names t)).trans hperm
  rw [recoverResidue, Program.wp_bind, wp_liftCheckpoint, Directory.wp_boundedNames hcount, Program.wp_bind]
  refine Program.wp_foldlM (fun rest temporary u => t = u ∧
    (∀ n ∈ rest, ∃ e, (n, e) ∈ checkpointContent current ++ residue.toList.map fun r => (r.1, Entry.regular r.2)) ∧
    temporary.toList ++ rest.filter (· ≠ .admissionCheckpoint) = residue.toList.map Prod.fst) ?_ ?_ ?_
  · rintro temporary n rest _ ⟨rfl, hrest, htemporary⟩
    have hrest' := fun m hm => hrest m (List.mem_cons_of_mem n hm)
    obtain ⟨e, he⟩ := hrest n List.mem_cons_self
    have hchild := (hbecomes.lists n e).mpr he
    obtain he | he := List.mem_append.mp he
    · obtain ⟨bytes, -, heq⟩ := mem_checkpointContent.mp he
      obtain ⟨rfl, rfl⟩ := Prod.mk.inj heq
      rw [List.filter_cons, if_neg (by simp)] at htemporary
      exact wp_checkResidue_target hchild ⟨rfl, hrest', htemporary⟩
    · obtain ⟨r, hr, heq⟩ := List.mem_map.mp he
      obtain ⟨rfl, rfl⟩ := Prod.mk.inj heq
      obtain rfl : residue = some r := Option.mem_toList.mp hr
      obtain ⟨⟨u, hu⟩, hlimit⟩ := hresidue r rfl
      rw [hu] at htemporary hchild ⊢
      rw [List.filter_cons, if_pos (by simp [checkpointTemporary_ne])] at htemporary
      cases temporary with
      | some m => simp at htemporary
      | none =>
        refine wp_checkResidue_temporary hchild hlimit ⟨rfl, hrest', ?_⟩
        simpa [hu] using htemporary
  · refine ⟨rfl, fun n hn => ?_, filter_names (fun r hr => (hresidue r hr).1) hsorted⟩
    obtain ⟨x, hx, rfl⟩ := List.mem_map.mp (hsorted.mem_iff.mp hn)
    exact ⟨x.2, hx⟩
  · rintro temporary _ ⟨rfl, -, htemporary⟩
    cases residue with
    | none =>
      obtain rfl : temporary = none := by simpa using htemporary
      exact Program.wp_pure.mpr (hbecomes.congr fun x => by simp)
    | some r =>
      obtain rfl : temporary = some r.1 := by simpa using htemporary
      obtain ⟨⟨u, hu⟩, -⟩ := hresidue r rfl
      have hfree : r.1 ∉ (checkpointContent current).map Prod.fst := hu ▸ notMem_checkpointContent u.uuid
      dsimp only
      rw [wp_liftCheckpoint]
      exact @Directory.Becomes.wp_unlinkFile _ _ _ _ _ _ _ _ r.2 hbecomes hfree fun v hv => ⟨.of_becomes hv, hv⟩

end Recover

section Files

variable {s t : Disk} {current : Option Bytes} {u : Uuid7}

theorem child_admission (h : Store.checkpointsDir.Becomes s (checkpointContent current) t) :
    Store.checkpointsDir.child? .admissionCheckpoint t = current.map Entry.regular := by
  cases current with
  | none => exact h.child?_eq_none (by simp [checkpointContent])
  | some bytes => exact (h.lists _ _).mpr (mem_checkpointContent.mpr ⟨bytes, rfl, rfl⟩)

theorem filter_checkpointContent :
    (checkpointContent current).filter (·.1 ≠ .admissionCheckpoint) = [] := by
  cases current <;> simp [checkpointContent]

theorem wp_temporary {bytes : Bytes} {fail : StoreError → Disk → Prop} {crash : Disk → Prop} {post : Unit → Disk → Prop}
    (h : Store.checkpointsDir.Becomes s (checkpointContent current) t)
    (hlength : bytes.length ≤ MAX_ADMISSION_CHECKPOINT_BYTES) (hcrash : ∀ v, CheckpointResidual s current v → crash v)
    (hpost : ∀ v, Store.checkpointsDir.Becomes s
      (checkpointContent current ++ [(checkpointTemporary u.uuid, .regular bytes)]) v → post () v) :
    (Store.checkpointsDir.createFile (checkpointTemporary u.uuid)).wp crash
      (fun _ => (Store.checkpointsDir.writeAll (checkpointTemporary u.uuid) bytes).wp crash post fail) fail t := by
  refine h.wp_createFile (.inl rfl) (notMem_checkpointContent u.uuid) fun v hv => ⟨hcrash v ?_, ?_⟩
  · exact .of_temporary hv ⟨u, rfl⟩ (Nat.zero_le _)
  · refine hv.wp_writeAll (notMem_checkpointContent u.uuid) fun w hw => ⟨hcrash w ?_, hpost w hw⟩
    exact .of_temporary hw ⟨u, rfl⟩ hlength

theorem wp_renameCheckpoint {bytes : Bytes} {fail : StoreError → Disk → Prop} {crash : Disk → Prop}
    {post : Unit → Disk → Prop}
    (h : Store.checkpointsDir.Becomes s (checkpointContent current ++ [(checkpointTemporary u.uuid, .regular bytes)]) t)
    (hnext : ∀ v, Store.checkpointsDir.Becomes s (checkpointContent (some bytes)) v → crash v ∧ post () v) :
    (Store.checkpointsDir.renameFile (checkpointTemporary u.uuid) .admissionCheckpoint).wp crash post fail t := by
  refine h.wp_renameFile (notMem_checkpointContent u.uuid) ?_ (checkpointTemporary_ne u.uuid) fun v hv => hnext v ?_
  · intro hmem
    obtain ⟨_, -, heq⟩ := mem_checkpointContent.mp hmem
    exact nomatch (Prod.mk.inj heq).2
  · rwa [filter_checkpointContent, List.nil_append] at hv

theorem wp_readCurrentBytes {bytes : Bytes} {crash : Disk → Prop} {post : Bytes → Disk → Prop}
    {fail : CheckpointError → Disk → Prop}
    (h : Store.checkpointsDir.child? .admissionCheckpoint t = some (.regular bytes))
    (hlength : bytes.length ≤ MAX_ADMISSION_CHECKPOINT_BYTES) (hpost : post bytes t) :
    readCurrentBytes.wp crash post fail t := by
  rw [readCurrentBytes, Program.wp_bind, wp_liftCheckpoint, Directory.wp_openFile h]
  exact Program.wp_guard.mpr ⟨fun h => absurd h (not_lt.mpr hlength), fun _ => Program.wp_pure.mpr hpost⟩

/-- The file of the checkpoint is the one of `t`. -/
def KeepsCheckpoint (t v : Disk) : Prop :=
  Store.checkpointsDir.child? .admissionCheckpoint v = Store.checkpointsDir.child? .admissionCheckpoint t

theorem KeepsCheckpoint.sets {v : Disk} {o : Option Entry} {fs : FileSystem Name} (h : KeepsCheckpoint t v)
    (hsets : (v .checkpoints).Sets [checkpointTemporary u.uuid] o fs) : KeepsCheckpoint t (v.set .checkpoints fs) := by
  have hne : [Name.admissionCheckpoint] ≠ [checkpointTemporary u.uuid] := fun heq =>
    checkpointTemporary_ne u.uuid (List.cons.inj heq).1.symm
  refine Eq.trans ?_ h
  rw [Directory.child?, Directory.child?]
  change (v.set .checkpoints fs .checkpoints).get? [_] = (v .checkpoints).get? [_]
  rw [Disk.set_same]
  exact hsets.elsewhere _ hne

end Files

section Replace

variable [Url] {s t : Disk} {current : Option Bytes} {r : Option AdmissionCheckpoint} {c : AdmissionCheckpoint} {u : Uuid7}

/-- What the file of the checkpoint stands for. -/
inductive Stands : Option AdmissionCheckpoint → Option Bytes → Prop
  | none : Stands none none
  | some {c : AdmissionCheckpoint} {bytes : Bytes} (h : decodeAdmissionCheckpoint bytes = .ok c) : Stands (some c) (some bytes)

theorem decodeAdmissionCheckpoint_nil : decodeAdmissionCheckpoint [] ≠ .ok c := by
  intro h
  obtain ⟨-, value, -, -, hcanonical⟩ := decodeAdmissionCheckpoint_eq_ok.mp h
  have hnil := (encodePretty_eq_ok.mp hcanonical).2
  exact List.append_ne_nil_of_right_ne_nil _ (List.cons_ne_nil _ _) hnil.symm

theorem Stands.proper (h : Stands r current) : Directory.Proper IsCheckpointTemporary (checkpointContent current) where
  full n hn := by
    obtain ⟨bytes, rfl, heq⟩ := mem_checkpointContent.mp hn
    obtain rfl := Entry.regular.inj (Prod.mk.inj heq).2
    cases h with
    | some h => exact decodeAdmissionCheckpoint_nil h
  fixed n hn := by
    obtain ⟨u, rfl⟩ := hn
    exact notMem_checkpointContent u.uuid

theorem wp_readCheckpoint_stands [ReadDir] (hr : Stands r current) (h : CheckpointResidual s current t) :
    readCheckpoint.wp (CheckpointResidual s current)
      (fun found v => found = r ∧ Store.checkpointsDir.Becomes s (checkpointContent current) v) (fun _ _ => False) t := by
  rw [readCheckpoint, Program.wp_bind]
  refine Program.wp_mono (wp_recoverResidue h) (fun _ h => h) ?_ (fun _ _ h => h)
  intro _ v hv
  have hchild := child_admission hv
  rw [Program.wp_bind, openCheckpoint, Program.wp_reads, hchild]
  cases hr with
  | none => exact Program.wp_pure.mpr ⟨rfl, hv⟩
  | some hdecode =>
    have hlength := (decodeAdmissionCheckpoint_eq_ok.mp hdecode).1
    refine Program.wp_guard.mpr ⟨fun h => absurd h (not_lt.mpr hlength), fun _ => ?_⟩
    rw [Program.wp_bind, Program.wp_ofExcept_ok hdecode]
    exact Program.wp_pure.mpr ⟨rfl, hv⟩

/-- The directory between the old file and the new one. -/
def Replacing (s : Disk) (current : Option Bytes) (c : AdmissionCheckpoint) (t : Disk) : Prop :=
  CheckpointResidual s current t ∨ ∃ bytes, encodeAdmissionCheckpoint c = .ok bytes ∧ CheckpointResidual s (some bytes) t

/-- The directory once the new file is there. -/
def Replaced (s : Disk) (c : AdmissionCheckpoint) (t : Disk) : Prop :=
  ∃ bytes, encodeAdmissionCheckpoint c = .ok bytes ∧ Store.checkpointsDir.Becomes s (checkpointContent (some bytes)) t

theorem wp_writeCheckpoint (h : Store.checkpointsDir.Becomes s (checkpointContent current) t) :
    (writeCheckpoint c u.uuid).wp (Replacing s current c) (fun _ => Replaced s c)
      (fun _ => Store.checkpointsDir.Becomes s (checkpointContent current)) t := by
  rw [writeCheckpoint, Program.wp_bind, Program.ofExcept, Program.wp_reads]
  cases hencode : encodeAdmissionCheckpoint c with
  | error e => exact h
  | ok bytes =>
    have hlength := (encodeAdmissionCheckpoint_eq_ok.mp hencode).2
    dsimp only
    simp only [Program.wp_bind, wp_liftCheckpoint]
    refine wp_temporary h hlength (fun v hv => .inl hv) fun v hv => ?_
    exact wp_renameCheckpoint hv fun w hw => ⟨.inr ⟨bytes, hencode, .of_becomes hw⟩, bytes, hencode, hw⟩

theorem wp_replaceExpected {expected : AdmissionCheckpoint} (hr : Stands r current)
    (h : Store.checkpointsDir.Becomes s (checkpointContent current) t) :
    (replaceExpected expected c u.uuid).wp (Replacing s current c) (fun _ => Replaced s c)
      (fun _ => Store.checkpointsDir.Becomes s (checkpointContent current)) t := by
  have hchild := child_admission h
  rw [replaceExpected, Program.wp_bind, Program.ofExcept, Program.wp_reads]
  cases hexpected : encodeAdmissionCheckpoint expected with
  | error e => exact h
  | ok expectedBytes =>
    dsimp only
    rw [Program.wp_bind, Program.ofExcept, Program.wp_reads]
    cases hencode : encodeAdmissionCheckpoint c with
    | error e => exact h
    | ok bytes =>
      dsimp only
      have hlength := (encodeAdmissionCheckpoint_eq_ok.mp hencode).2
      rw [Program.wp_bind]
      cases hr with
      | none =>
        rw [readCurrentBytes, Program.wp_bind, wp_liftCheckpoint, Directory.openFile, Program.wp_reads, hchild]
        exact h
      | @some old oldBytes hdecode =>
        refine wp_readCurrentBytes hchild (decodeAdmissionCheckpoint_eq_ok.mp hdecode).1 ?_
        by_cases hsame : oldBytes = bytes
        · subst hsame
          rw [if_pos rfl, Program.wp_bind, Program.wp_ofExcept_ok (decodeAdmissionCheckpoint_encode hencode)]
          exact Program.wp_pure.mpr ⟨oldBytes, hencode, h⟩
        · rw [if_neg hsame]
          refine Program.wp_guard.mpr ⟨fun _ => h, fun hold => ?_⟩
          simp only [Program.wp_bind, wp_liftCheckpoint]
          refine wp_temporary h hlength (fun v hv => .inl hv) fun v hv => ?_
          have hkept : Store.checkpointsDir.child? .admissionCheckpoint v = some (.regular oldBytes) :=
            (hv.lists _ _).mpr (List.mem_append_left _ (mem_checkpointContent.mpr ⟨_, rfl, rfl⟩))
          refine wp_readCurrentBytes hkept (decodeAdmissionCheckpoint_eq_ok.mp hdecode).1 ?_
          rw [if_neg hold]
          simp only [Program.wp_bind, wp_liftCheckpoint]
          refine wp_renameCheckpoint hv fun w hw => ⟨.inr ⟨bytes, hencode, .of_becomes hw⟩, ?_⟩
          refine wp_readCurrentBytes (child_admission hw) hlength ?_
          refine Program.wp_guard.mpr ⟨fun h => absurd rfl h, fun _ => ?_⟩
          rw [Program.wp_bind, Program.wp_ofExcept_ok (decodeAdmissionCheckpoint_encode hencode), if_neg (not_not.mpr rfl)]
          exact Program.wp_pure.mpr ⟨bytes, hencode, hw⟩

/-- A replacement that finds another checkpoint than expected leaves it as it is, from any state. -/
theorem wp_expectedOldMismatch {expected : AdmissionCheckpoint} :
    (replaceExpected expected c u.uuid).wp (fun _ => True) (fun _ _ => True)
      (fun e v => e = .expectedOldMismatch → KeepsCheckpoint t v) t := by
  have hread : ∀ (v : Disk) (post : Bytes → Disk → Prop), (∀ bytes, post bytes v) →
      readCurrentBytes.wp (fun _ => True) post (fun e v => e = .expectedOldMismatch → KeepsCheckpoint t v) v := by
    intro v post hpost
    rw [readCurrentBytes, Program.wp_bind, wp_liftCheckpoint, Directory.openFile, Program.wp_reads]
    split
    · exact Program.wp_guard.mpr ⟨fun _ h => (by cases h), fun _ => Program.wp_pure.mpr (hpost _)⟩
    · exact fun h => by cases h
  rw [replaceExpected, Program.wp_bind, Program.ofExcept, Program.wp_reads]
  cases encodeAdmissionCheckpoint expected with
  | error e => exact fun _ => rfl
  | ok expectedBytes =>
    dsimp only
    rw [Program.wp_bind, Program.ofExcept, Program.wp_reads]
    cases hencode : encodeAdmissionCheckpoint c with
    | error e => exact fun _ => rfl
    | ok bytes =>
      dsimp only
      rw [Program.wp_bind]
      refine hread t _ fun old => ?_
      by_cases hsame : old = bytes
      · rw [if_pos hsame, hsame, Program.wp_bind, Program.wp_ofExcept_ok (decodeAdmissionCheckpoint_encode hencode)]
        exact Program.wp_pure.mpr trivial
      · rw [if_neg hsame]
        refine Program.wp_guard.mpr ⟨fun _ _ => rfl, fun _ => ?_⟩
        simp only [Program.wp_bind, wp_liftCheckpoint]
        refine Directory.wp_change_any (fun fs hfs => ⟨trivial, ?_⟩) fun _ h => by cases h
        have hcreated : KeepsCheckpoint t (t.set .checkpoints fs) :=
          KeepsCheckpoint.sets (rfl : KeepsCheckpoint t t) (sets_of_create hfs).2.2
        refine Directory.wp_change_any (fun gs hgs => ⟨trivial, ?_⟩) fun _ h => by cases h
        have hwritten := hcreated.sets (sets_of_write hgs).2
        refine hread _ _ fun current => ?_
        split
        · rw [Program.wp_bind, wp_liftCheckpoint]
          refine Directory.wp_change_any (fun fs' hfs' => ⟨trivial, ?_⟩) fun _ h => by cases h
          exact Program.wp_bind.mpr (Program.wp_throw.mpr fun _ => hwritten.sets (sets_of_unlink hfs'))
        · rw [Program.wp_bind, wp_liftCheckpoint]
          refine Directory.wp_change_any (fun fs' _ => ⟨trivial, ?_⟩) fun _ h => by cases h
          rw [Program.wp_bind]
          refine hread _ _ fun published => ?_
          refine Program.wp_guard.mpr ⟨fun _ h => (by cases h), fun hpublished => ?_⟩
          rw [not_not.mp hpublished, Program.wp_bind, Program.wp_ofExcept_ok (decodeAdmissionCheckpoint_encode hencode),
            if_neg (not_not.mpr rfl)]
          exact Program.wp_pure.mpr trivial

end Replace

end Wayjournal
