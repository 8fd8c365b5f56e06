import Wayjournal.Store.Paths

namespace Wayjournal

open Collections Fs Text

/-- The file an entry counts as. -/
def RawFile.entry (file : RawFile) : Bytes × Bytes := (file.path, file.bytes)

def fileOf (e : List Name × Entry) : Option RawFile :=
  match e.2 with
  | .directory => if validCanonicalDirectory (relative e.1) then none else some ⟨relative e.1, []⟩
  | .regular bytes => some ⟨relative e.1, bytes⟩
  | .other => none

def nonregularOf (e : List Name × Entry) : Option Bytes :=
  match e.2 with
  | .other => some (relative e.1)
  | _ => none

def entrySize : Entry → Nat
  | .regular bytes => bytes.length
  | _ => 0

def FitsLimit (e : List Name × Entry) : Prop :=
  ∀ bytes, e.2 = .regular bytes → bytes.length ≤ (canonicalFileLimit (classifyPath (relative e.1))).getD 0

def collected (state : VisibleInventory × ScanBudget) (e : List Name × Entry) :
    VisibleInventory × ScanBudget :=
  (⟨state.1.files ++ (fileOf e).toList, state.1.nonregular ++ (nonregularOf e).toList,
      state.1.inventory.insert (relative e.1) ()⟩,
    ⟨state.2.entries + 1, state.2.bytes + entrySize e.2⟩)

section

variable {limits : ScanLimits}

theorem ScanBudget.entryWithin_eq_ok {budget budget' : ScanBudget} {path : StorePath} :
    budget.entryWithin limits path = .ok budget' ↔
      budget.entries + 1 ≤ limits.entries ∧ budget' = ⟨budget.entries + 1, budget.bytes⟩ := by
  refine guard_eq_ok.trans ?_
  rw [Nat.not_lt, Except.ok.injEq, eq_comm (a := budget')]

theorem ScanBudget.reserveWithin_eq_ok {budget budget' : ScanBudget} {length : Nat} {path : StorePath}
    (hbytes : budget.bytes ≤ limits.bytes) :
    budget.reserveWithin limits length path = .ok budget' ↔
      budget.bytes + length ≤ limits.bytes ∧ budget' = ⟨budget.entries, budget.bytes + length⟩ := by
  refine guard_eq_ok.trans ?_
  rw [Nat.not_lt, Nat.le_sub_iff_add_le hbytes, Nat.add_comm, Except.ok.injEq, eq_comm (a := budget')]

theorem collectWithin_eq_ok {state state' : VisibleInventory × ScanBudget} {e : List Name × Entry}
    (hbytes : state.2.bytes ≤ limits.bytes) :
    collectWithin limits state e = .ok state' ↔
      state.2.entries + 1 ≤ limits.entries ∧ FitsLimit e ∧
        state.2.bytes + entrySize e.2 ≤ limits.bytes ∧ state' = collected state e := by
  obtain ⟨found, budget⟩ := state
  obtain ⟨p, e⟩ := e
  simp only [collectWithin, except_bind_eq_ok, ScanBudget.entryWithin_eq_ok, and_assoc, exists_and_left,
    exists_eq_left]
  refine and_congr_right fun _ => ?_
  cases e with
  | directory =>
    by_cases hvalid : validCanonicalDirectory (relative p) = true
    · simp [hvalid, pure_eq_ok, FitsLimit, entrySize, collected, fileOf, nonregularOf, hbytes]
    · simp [hvalid, pure_eq_ok, FitsLimit, entrySize, collected, fileOf, nonregularOf, hbytes]
  | other =>
    simp [pure_eq_ok, FitsLimit, entrySize, collected, fileOf, nonregularOf, hbytes]
  | regular bytes =>
    have hfits : FitsLimit (p, .regular bytes) ↔
        ¬ bytes.length > (canonicalFileLimit (classifyPath (relative p))).getD 0 := by
      simp [FitsLimit]
    simp only [guard_bind_eq_ok, except_bind_eq_ok, pure_eq_ok, hfits]
    refine and_congr_right fun _ => ?_
    have hreserve : ∀ budget', (⟨budget.entries + 1, budget.bytes⟩ : ScanBudget).reserveWithin limits bytes.length
        (p.map Name.bytes) = .ok budget' ↔ _ := fun _ => ScanBudget.reserveWithin_eq_ok hbytes
    simp only [hreserve, and_assoc, exists_and_left, exists_eq_left]
    simp [collected, fileOf, nonregularOf, entrySize]

theorem foldlM_collectWithin {entries : List (List Name × Entry)}
    {state state' : VisibleInventory × ScanBudget} (hcount : state.2.entries ≤ limits.entries)
    (hbytes : state.2.bytes ≤ limits.bytes) :
    entries.foldlM (collectWithin limits) state = .ok state' ↔
      state.2.entries + entries.length ≤ limits.entries ∧ (∀ e ∈ entries, FitsLimit e) ∧
        state.2.bytes + (entries.map (fun e => entrySize e.2)).sum ≤ limits.bytes ∧
        state' = entries.foldl collected state := by
  induction entries generalizing state with
  | nil => simp [pure_eq_ok, hcount, hbytes]
  | cons e r ih =>
    simp only [List.foldlM_cons, except_bind_eq_ok, collectWithin_eq_ok hbytes, List.length_cons,
      List.forall_mem_cons, List.map_cons, List.sum_cons, List.foldl_cons]
    constructor
    · rintro ⟨_, ⟨hroom, hfits, hsize, rfl⟩, h⟩
      obtain ⟨h₁, h₂, h₃, h₄⟩ := (ih hroom hsize).mp h
      exact ⟨by simp only [collected] at h₁; omega, ⟨hfits, h₂⟩,
        by simp only [collected] at h₃; omega, h₄⟩
    · rintro ⟨h₁, ⟨hfits, h₂⟩, h₃, h₄⟩
      have hroom : state.2.entries + 1 ≤ limits.entries := by omega
      have hsize : state.2.bytes + entrySize e.2 ≤ limits.bytes := by omega
      refine ⟨_, ⟨hroom, hfits, hsize, rfl⟩, (ih hroom hsize).mpr ⟨?_, h₂, ?_, h₄⟩⟩
      · simp only [collected]
        omega
      · simp only [collected]
        omega

end

theorem collectWithin_default : collectWithin DEFAULT_SCAN_LIMITS = collectEntry := rfl

/-- Entries the scan has room for. -/
structure WithinLimits (entries : List (List Name × Entry)) : Prop where
  count : entries.length ≤ MAX_CANONICAL_ENTRIES
  fits : ∀ e ∈ entries, FitsLimit e
  size : (entries.map (fun e => entrySize e.2)).sum ≤ MAX_TOTAL_CANONICAL_BYTES

def insertEntries (paths : BTreeSet Bytes) (entries : List (List Name × Entry)) : BTreeSet Bytes :=
  entries.foldl (fun s e => s.insert (relative e.1) ()) paths

theorem foldl_collected (entries : List (List Name × Entry)) (state : VisibleInventory × ScanBudget) :
    (entries.foldl collected state).1 =
      ⟨state.1.files ++ entries.filterMap fileOf, state.1.nonregular ++ entries.filterMap nonregularOf,
        insertEntries state.1.inventory entries⟩ := by
  induction entries generalizing state with
  | nil => simp [insertEntries]
  | cons e r ih =>
    rw [List.foldl_cons, ih]
    cases hf : fileOf e <;> cases hn : nonregularOf e <;> simp [collected, hf, hn, insertEntries]

/-- What the entries amount to, whatever their order. -/
def inventoryOf (entries : List (List Name × Entry)) : VisibleInventory :=
  ⟨sortFiles (entries.filterMap fileOf), (entries.filterMap nonregularOf).insertionSort (· ≤ ·),
    insertEntries ∅ entries⟩

theorem foldlM_collectEntry {entries : List (List Name × Entry)} {state' : VisibleInventory × ScanBudget} :
    entries.foldlM collectEntry (⟨[], [], ∅⟩, ⟨0, 0⟩) = .ok state' ↔
      WithinLimits entries ∧ state' = entries.foldl collected (⟨[], [], ∅⟩, ⟨0, 0⟩) := by
  rw [← collectWithin_default, foldlM_collectWithin (Nat.zero_le _) (Nat.zero_le _)]
  simp only [Nat.zero_add]
  constructor
  · rintro ⟨hcount, hfits, hsize, heq⟩
    exact ⟨⟨hcount, hfits, hsize⟩, heq⟩
  · rintro ⟨⟨hcount, hfits, hsize⟩, heq⟩
    exact ⟨hcount, hfits, hsize, heq⟩

theorem visibleInventory_eq_ok {disk : Disk} {found : VisibleInventory} :
    visibleInventory disk = .ok found ↔
      WithinLimits (visibleEntries disk) ∧ found = inventoryOf (visibleEntries disk) := by
  simp only [visibleInventory, except_bind_eq_ok, pure_eq_ok, Prod.exists, foldlM_collectEntry]
  constructor
  · rintro ⟨found', budget, ⟨hwithin, heq⟩, rfl⟩
    have hfound := congrArg Prod.fst heq
    rw [foldl_collected] at hfound
    simp only [List.nil_append] at hfound
    subst hfound
    exact ⟨hwithin, rfl⟩
  · rintro ⟨hwithin, rfl⟩
    refine ⟨_, _, ⟨hwithin, rfl⟩, ?_⟩
    rw [foldl_collected]
    simp [inventoryOf]

theorem mem_insertEntries {paths : BTreeSet Bytes} {entries : List (List Name × Entry)} {k : Bytes} :
    k ∈ (insertEntries paths entries).keys ↔ k ∈ paths.keys ∨ ∃ e ∈ entries, relative e.1 = k := by
  have hmap : insertEntries paths entries =
      (entries.map (fun e => relative e.1)).foldl (fun s a => s.insert a ()) paths := by
    rw [List.foldl_map]
    rfl
  rw [hmap, BTreeSet.mem_keys_foldl_insert, List.mem_map]

theorem sorted_sortFiles (files : List RawFile) :
    (sortFiles files).Pairwise (fun a b => a.path ≤ b.path) :=
  List.pairwise_insertionSort _ _

theorem sortFiles_perm (files : List RawFile) : (sortFiles files).Perm files :=
  List.perm_insertionSort _ _

/-- Files by path, however they are listed. -/
theorem eq_sortFiles {l files : List RawFile} (hsorted : l.Pairwise (fun a b => a.path ≤ b.path))
    (hperm : l.Perm files) (hnodup : (files.map RawFile.path).Nodup) : l = sortFiles files := by
  refine (hperm.trans (sortFiles_perm files).symm).eq_of_pairwise ?_ hsorted (sorted_sortFiles files)
  intro a b ha hb hab hba
  have ha' := hperm.mem_iff.mp ha
  have hb' := (sortFiles_perm files).mem_iff.mp hb
  exact List.inj_on_of_nodup_map hnodup ha' hb' (le_antisymm hab hba)

theorem sortFiles_congr {l l' : List RawFile} (h : l.Perm l') (hnodup : (l'.map RawFile.path).Nodup) :
    sortFiles l = sortFiles l' :=
  eq_sortFiles (sorted_sortFiles l) ((sortFiles_perm l).trans h) hnodup

theorem mem_visibleEntries {disk : Disk} {e : List Name × Entry} :
    e ∈ visibleEntries disk ↔ (disk .canonical).get? e.1 = some e.2 ∧ isReached e.1 = true := by
  rw [visibleEntries, List.mem_filter, BTreeMap.mem_entries_iff]
  rfl

theorem ne_nil_of_isReached {p : List Name} (h : isReached p = true) : p ≠ [] := by
  rintro rfl
  simp [isReached] at h

theorem nodup_of_keys {α : Type} {entries : List (List Name × α)} (hkeys : (entries.map Prod.fst).Nodup)
    (hne : ∀ e ∈ entries, e.1 ≠ []) : (entries.map (fun e => relative e.1)).Nodup := by
  have hmap : entries.map (fun e => relative e.1) = (entries.map Prod.fst).map relative := by simp
  rw [hmap]
  refine List.Nodup.map_on ?_ hkeys
  intro p hp q hq heq
  obtain ⟨e, he, rfl⟩ := List.mem_map.mp hp
  obtain ⟨f, hf, rfl⟩ := List.mem_map.mp hq
  exact relative_injective (hne e he) (hne f hf) heq

theorem nodup_visibleKeys (disk : Disk) : ((visibleEntries disk).map Prod.fst).Nodup :=
  ((disk .canonical).entries.keys_nodup).sublist (List.filter_sublist.map Prod.fst)

theorem nodup_visible (disk : Disk) : ((visibleEntries disk).map (fun e => relative e.1)).Nodup :=
  nodup_of_keys (nodup_visibleKeys disk) (fun _ he => ne_nil_of_isReached (mem_visibleEntries.mp he).2)

theorem path_of_fileOf {e : List Name × Entry} {file : RawFile} (h : fileOf e = some file) :
    file.path = relative e.1 := by
  unfold fileOf at h
  split at h
  · split at h
    · cases h
    · cases h
      rfl
  · cases h
    rfl
  · cases h

theorem nodup_files {entries : List (List Name × Entry)}
    (h : (entries.map (fun e => relative e.1)).Nodup) :
    ((entries.filterMap fileOf).map RawFile.path).Nodup := by
  refine h.sublist ?_
  rw [List.map_filterMap]
  induction entries with
  | nil => simp
  | cons e r ih =>
    have ih := ih (List.nodup_cons.mp h).2
    cases he : fileOf e with
    | none => simpa [he] using ih.cons _
    | some file =>
      simp only [List.filterMap_cons, he, Option.map_some, List.map_cons, path_of_fileOf he]
      exact ih.cons_cons _

end Wayjournal
