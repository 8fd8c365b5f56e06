import Wayjournal.Federation.CheckpointReplace

namespace Wayjournal

open Crash Fs FileSystem Text

def IsPendingTemporary (n : Name) : Prop := ∃ u : Uuid7, n = temporaryName u.uuid

theorem head_temporaryName (u : Uuid) : (temporaryName u).bytes.head? = some 0x2e := by
  simp [temporaryName, asBytes, Json.utf8, Utf8.encode, Utf8.encodeChar]

theorem temporaryId_temporary (u : Uuid) : temporaryId (temporaryName u) = .ok u := by
  unfold temporaryId
  rw [temporaryName, fromUtf8_asBytes]
  simp only [String.toList_append, List.dropPrefix?_append_of_beq _ (beq_self_eq_true _), String.ofList_toList,
    Uuid.parseStr_hyphenated]
  rfl

/-- What the directory of an operation holds. -/
def slotContent (bytes : Bytes) : List (Name × Entry) :=
  [(.additions, .directory), (.repoGit, .directory), (.pendingJson, .regular bytes)]

theorem mem_slotContent (bytes : Bytes) : (Name.pendingJson, Entry.regular bytes) ∈ slotContent bytes :=
  List.mem_cons_of_mem _ (List.mem_cons_of_mem _ List.mem_cons_self)

/-- The names of `slotContent`. -/
def slotNames : List Name := [.additions, .repoGit, .pendingJson]

theorem temporaryName_notMem (u : Uuid) : temporaryName u ∉ slotNames := by
  intro h
  have hhead : ∀ n ∈ slotNames, n.bytes.head? ≠ some 0x2e := by decide
  exact hhead _ h (head_temporaryName u)

theorem nodup_slotNames : slotNames.Nodup := by decide

theorem filter_slotContent {bytes : Bytes} (next : Bytes) (x : Name × Entry) :
    x ∈ (slotContent bytes).filter (·.1 ≠ .pendingJson) ++ [(.pendingJson, .regular next)] ↔ x ∈ slotContent next := by
  have hadditions : Name.additions ≠ .pendingJson := by decide
  have hrepo : Name.repoGit ≠ .pendingJson := by decide
  simp [slotContent, hadditions, hrepo]

section Files

variable {d : Directory} {s t : Disk} {bytes old : Bytes} {u : Uuid7}

/-- The directory of an operation while its document is replaced, since `s`. -/
abbrev SlotResidual (d : Directory) (s : Disk) (bytes : Bytes) (t : Disk) : Prop :=
  d.Residual IsPendingTemporary MAX_PENDING_ROOT_BYTES s (slotContent bytes) t

theorem child_of_slotResidual (h : SlotResidual d s bytes t) : d.child? .pendingJson t = some (.regular bytes) := by
  obtain ⟨residue, -, h⟩ := h
  exact (h.lists _ _).mpr (List.mem_append_left _ (mem_slotContent bytes))

theorem perm_slotNames {residue : Option (Name × Bytes)} (hresidue : ∀ r ∈ residue, IsPendingTemporary r.1)
    (h : d.Becomes s (slotContent bytes ++ residue.toList.map fun r => (r.1, .regular r.2)) t) :
    (d.names t).Perm (slotNames ++ residue.toList.map Prod.fst) := by
  have hmap : (slotContent bytes ++ residue.toList.map fun r => (r.1, Entry.regular r.2)).map Prod.fst =
      slotNames ++ residue.toList.map Prod.fst := by
    rw [List.map_append, List.map_map]
    rfl
  rw [← hmap]
  refine h.lists.perm_names ?_
  rw [hmap, List.nodup_append]
  refine ⟨nodup_slotNames, ?_, ?_⟩
  · cases residue <;> simp
  · rintro a ha _ hb rfl
    obtain ⟨r, hr, rfl⟩ := List.mem_map.mp hb
    obtain ⟨u, hu⟩ := hresidue r (Option.mem_toList.mp hr)
    exact temporaryName_notMem u.uuid (hu ▸ ha)

section

variable {crash : Disk → Prop} {post : Unit → Disk → Prop} {fail : PendingError → Disk → Prop} {n : Name}

theorem wp_removeTemporary_fixed (h : n ∈ slotNames) (hpost : post () t) :
    (removeTemporary d n).wp crash post fail t := by
  have hfixed : (n = .additions || n = .pendingJson || n = .repoGit) = true := by
    simp only [slotNames, List.mem_cons, List.not_mem_nil, or_false] at h
    obtain rfl | rfl | rfl := h <;> decide
  rw [removeTemporary, if_pos hfixed]
  exact Program.wp_pure.mpr hpost

theorem wp_removeTemporary (h : d.Becomes s (slotContent bytes ++ [(temporaryName u.uuid, .regular old)]) t)
    (hnext : ∀ v, d.Becomes s (slotContent bytes) v → crash v ∧ post () v) :
    (removeTemporary d (temporaryName u.uuid)).wp crash post fail t := by
  have hfree : ¬ (temporaryName u.uuid = .additions || temporaryName u.uuid = .pendingJson ||
      temporaryName u.uuid = .repoGit) = true := by
    have hnotMem := temporaryName_notMem u.uuid
    simp only [slotNames, List.mem_cons, List.not_mem_nil, or_false, not_or] at hnotMem
    simp [hnotMem]
  have hchild := (h.lists _ _).mpr (List.mem_append_right _ (List.mem_singleton_self _))
  rw [removeTemporary, if_neg hfree, Program.wp_bind, Program.wp_ofExcept_ok (temporaryId_temporary u.uuid)]
  refine Program.wp_guard.mpr ⟨fun h => ?_, fun _ => ?_⟩
  · simp [u.version, u.variant] at h
  · rw [Program.wp_bind, wp_liftPending, Directory.wp_kind hchild]
    refine Program.wp_guard.mpr ⟨fun h => absurd rfl h, fun _ => ?_⟩
    rw [wp_liftPending]
    exact h.wp_unlinkFile (temporaryName_notMem u.uuid) hnext

end

theorem wp_requireDirectory {crash : Disk → Prop} {n : Name} {label : String} (h : d.child? n t = some .directory) :
    (requireDirectory d n label).wp crash (fun _ v => v = t) (fun _ _ => False) t := by
  have hkind : ¬ FileType.ofEntry .directory ≠ .directory := not_not.mpr rfl
  rw [requireDirectory, Program.wp_bind, wp_liftPending, Directory.wp_kind h, if_neg hkind]
  exact Program.wp_pure.mpr rfl

variable [ReadDir]

theorem wp_requireExactNames {crash : Disk → Prop} (h : d.Becomes s (slotContent bytes) t) :
    (requireExactNames d [.additions, .pendingJson, .repoGit]).wp crash (fun _ v => v = t) (fun _ _ => False) t := by
  have hnames : (d.names t).Perm [.additions, .pendingJson, .repoGit] := by
    have hlist : d.Becomes s (slotContent bytes ++ (none : Option (Name × Bytes)).toList.map fun r =>
        (r.1, .regular r.2)) t := h.congr fun x => by simp
    have hperm := perm_slotNames (fun _ hr => absurd hr (Option.not_mem_none _)) hlist
    rw [Option.toList_none, List.map_nil, List.append_nil] at hperm
    exact hperm.trans ((List.Perm.swap _ _ _).cons _)
  have hsorted : (d.names t).insertionSort (· ≤ ·) = [Name.additions, .pendingJson, .repoGit].insertionSort (· ≤ ·) :=
    (((List.perm_insertionSort _ _).trans hnames).trans (List.perm_insertionSort _ _).symm).eq_of_pairwise
      (fun a b _ _ => le_antisymm) (List.pairwise_insertionSort _ _) (List.pairwise_insertionSort _ _)
  rw [requireExactNames, Program.wp_bind, wp_liftPending, Directory.wp_boundedNames (by rw [hnames.length_eq]; decide), hsorted,
    if_neg (not_not.mpr rfl)]
  exact Program.wp_pure.mpr rfl

end Files

section Replace

variable [Url] {s t : Disk} {bytes : Bytes} {pending : DurablePending} {u : Uuid7}

/-- The directory between the old document and the new one. -/
def Advancing (d : Directory) (s : Disk) (bytes : Bytes) (document : PendingDocument) (t : Disk) : Prop :=
  SlotResidual d s bytes t ∨ ∃ next, encodeDocument document = .ok next ∧ SlotResidual d s next t

theorem wp_replaceDocument {document : PendingDocument} (h : pending.directory.Becomes s (slotContent bytes) t)
    (hs : (s pending.directory.area).isDir pending.directory.path) :
    (replaceDocument pending document u.uuid).wp (Advancing pending.directory s bytes document)
      (fun next v => next = { pending with document := document } ∧
        ∃ bytes, encodeDocument document = .ok bytes ∧ pending.directory.Becomes s (slotContent bytes) v)
      (fun _ => pending.directory.Becomes s (slotContent bytes)) t := by
  rw [replaceDocument, Program.wp_bind, Program.ofExcept, Program.wp_reads]
  cases hencode : encodeDocument document with
  | error e => exact h
  | ok next =>
    have hlength := (encodeDocument_eq_ok.mp hencode).2.2
    have hdirectory : (Name.pendingJson, Entry.directory) ∉ slotContent bytes := by
      simp [slotContent, show Name.pendingJson ≠ .additions by decide, show Name.pendingJson ≠ .repoGit by decide]
    have hne : temporaryName u.uuid ≠ .pendingJson := fun heq =>
      temporaryName_notMem u.uuid (heq ▸ by decide : temporaryName u.uuid ∈ slotNames)
    simp only [writeNew, Program.wp_bind, wp_liftPending]
    refine h.wp_createFile hs (temporaryName_notMem u.uuid) fun v hv => ⟨.inl ?_, ?_⟩
    · exact .of_temporary hv ⟨u, rfl⟩ (Nat.zero_le _)
    refine hv.wp_writeAll (temporaryName_notMem u.uuid) fun w hw => ⟨.inl ?_, ?_⟩
    · exact .of_temporary hw ⟨u, rfl⟩ hlength
    refine hw.wp_renameFile (temporaryName_notMem u.uuid) hdirectory hne fun x hx => ?_
    have hlast : pending.directory.Becomes s (slotContent next) x := hx.congr (filter_slotContent next)
    have hchild : pending.directory.child? .pendingJson x = some (.regular next) :=
      (hlast.lists _ _).mpr (mem_slotContent next)
    refine ⟨.inr ⟨next, hencode, .of_becomes hlast⟩, ?_⟩
    rw [Directory.wp_openFile hchild, Program.wp_ofExcept_ok (by rw [readFileBounded, if_neg (not_lt.mpr hlength)]; rfl),
      if_neg (not_not.mpr rfl)]
    exact Program.wp_pure.mpr ⟨rfl, next, rfl, hlast⟩

variable [ReadDir]

theorem wp_validateClosedLayout (h : SlotResidual pending.directory s bytes t) :
    (validateClosedLayout pending).wp (SlotResidual pending.directory s bytes)
      (fun _ => pending.directory.Becomes s (slotContent bytes)) (fun _ _ => False) t := by
  obtain ⟨residue, hresidue, hbecomes⟩ := h
  have hperm := perm_slotNames (fun r hr => (hresidue r hr).1) hbecomes
  have hcount : (pending.directory.names t).length ≤ 4 := by
    rw [hperm.length_eq]
    cases residue <;> simp [slotNames]
  have hsorted := (List.perm_insertionSort (· ≤ ·) (pending.directory.names t)).trans hperm
  rw [validateClosedLayout, Program.wp_bind, wp_liftPending, Directory.wp_boundedNames hcount, Program.wp_bind]
  refine Program.wp_forM (fun rest v => ∃ left : Option (Name × Bytes), (∀ r ∈ left, r ∈ residue) ∧
    pending.directory.Becomes s (slotContent bytes ++ left.toList.map fun r => (r.1, .regular r.2)) v ∧
    rest.Nodup ∧ (∀ n ∈ rest, n ∈ slotNames ∨ n ∈ left.map Prod.fst) ∧ ∀ n ∈ left.map Prod.fst, n ∈ rest) ?_ ?_ ?_
  · rintro n rest v ⟨left, hleft, hv, hnodup, hnames, hall⟩
    obtain ⟨hnotin, htail⟩ := List.nodup_cons.mp hnodup
    have hrest := fun m hm => hnames m (List.mem_cons_of_mem n hm)
    obtain hfixed | hn := hnames n List.mem_cons_self
    · refine wp_removeTemporary_fixed hfixed ⟨left, hleft, hv, htail, hrest, fun m hm => ?_⟩
      refine (List.mem_cons.mp (hall m hm)).resolve_left fun heq => ?_
      obtain ⟨r, hr, rfl⟩ := Option.mem_map.mp hm
      obtain ⟨⟨u, hu⟩, -⟩ := hresidue r (hleft r hr)
      exact temporaryName_notMem u.uuid (hu ▸ heq ▸ hfixed)
    · obtain ⟨r, rfl, rfl⟩ := Option.mem_map.mp hn
      obtain ⟨⟨u, hu⟩, -⟩ := hresidue r (hleft r rfl)
      rw [Option.toList_some, List.map_singleton, hu] at hv
      rw [hu]
      refine wp_removeTemporary hv fun w hw => ⟨.of_becomes hw, none, fun _ h => absurd h (Option.not_mem_none _),
        hw.congr fun x => by simp, htail, fun m hm => ?_, fun _ h => absurd h (Option.not_mem_none _)⟩
      refine (hrest m hm).imp id fun hmem => absurd hm ?_
      obtain rfl := Option.some.inj hmem
      exact hnotin
  · refine ⟨residue, fun _ h => h, hbecomes, ?_, fun n hn => ?_, fun n hn => ?_⟩
    · exact (List.perm_insertionSort _ _).nodup_iff.mpr (nodup_names _ _)
    · exact (List.mem_append.mp (hsorted.mem_iff.mp hn)).imp id fun h => by simpa using h
    · exact hsorted.mem_iff.mpr (List.mem_append_right _ (by simpa using hn))
  · rintro v ⟨left, -, hv, -, -, hall⟩
    have hclean : pending.directory.Becomes s (slotContent bytes) v := by
      cases left with
      | none => exact hv.congr fun x => by simp
      | some r => exact absurd (hall r.1 rfl) List.not_mem_nil
    rw [Program.wp_bind]
    refine Program.wp_mono (wp_requireExactNames hclean) (fun _ h => h) ?_ (fun _ _ h => h)
    rintro _ _ rfl
    rw [Program.wp_bind]
    refine Program.wp_mono (wp_requireDirectory ((hclean.lists _ _).mpr List.mem_cons_self)) (fun _ h => h) ?_
      (fun _ _ h => h)
    rintro _ _ rfl
    refine Program.wp_mono (wp_requireDirectory ((hclean.lists _ _).mpr (List.mem_cons_of_mem _ List.mem_cons_self)))
      (fun _ h => h) ?_ (fun _ _ h => h)
    rintro _ _ rfl
    exact hclean

end Replace

end Wayjournal
