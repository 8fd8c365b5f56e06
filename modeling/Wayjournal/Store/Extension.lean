import Mathlib.Algebra.Order.BigOperators.Group.List
import Wayjournal.Store.VisibleLaws

namespace Wayjournal

open Collections Fs FileSystem Text

/-- Files to be added, by components. -/
abbrev Additions := List (List Name × Bytes)

def Additions.raw (files : Additions) : List RawFile := files.map (fun f => ⟨relative f.1, f.2⟩)

/-- Files with paths of their own that the scan gets to and has room for each. -/
structure Addable (files : Additions) : Prop where
  nodup : (files.map Prod.fst).Nodup
  reached : ∀ f ∈ files, isReached f.1 = true
  leaf : ∀ f ∈ files, validCanonicalDirectory (relative f.1) = false
  fits : ∀ f ∈ files, FitsLimit (f.1, .regular f.2)

/-- `gs` is `fs` with some of the files and of the directories they stand in. -/
structure Extends (fs : FileSystem Name) (files : Additions) (gs : FileSystem Name) : Prop where
  sub : fs.Sub gs
  fresh : ∀ f ∈ files, fs.get? f.1 = none
  added : ∀ p e, gs.get? p = some e → fs.get? p = none →
    (∃ bytes, e = .regular bytes ∧ (p, bytes) ∈ files) ∨
      (e = .directory ∧ 2 ≤ p.length ∧ ∃ f ∈ files, p <+: f.1 ∧ p ≠ f.1)

/-- The files that stand there already. -/
def presentIn (gs : FileSystem Name) (files : Additions) : Additions :=
  files.filter (fun f => (gs.get? f.1).isSome)

theorem presentIn_eq_self {gs : FileSystem Name} {files : Additions}
    (h : (presentIn gs files).length = files.length) : presentIn gs files = files :=
  List.filter_sublist.eq_of_length h

theorem isReached_prefix {p q : List Name} (h : isReached p = true) (hq : q <+: p) (hlength : 2 ≤ q.length) :
    isReached q = true := by
  simp only [isReached, Bool.and_eq_true, decide_eq_true_eq, List.all_eq_true, List.mem_inits,
    Bool.or_eq_true] at h ⊢
  obtain ⟨⟨-, hroot⟩, hvalid⟩ := h
  refine ⟨⟨hlength, ?_⟩, ?_⟩
  · cases q with
    | nil => simp at hlength
    | cons a t =>
      obtain ⟨r, rfl⟩ := hq
      exact hroot
  · intro r hr
    obtain hp := hvalid r (hr.trans hq)
    by_cases heq : r.length = p.length
    · have := hr.length_le
      have := hq.length_le
      exact .inl (.inr (by omega))
    · obtain (h | h) | h := hp
      · exact .inl (.inl h)
      · exact absurd h heq
      · exact .inr h

theorem validCanonicalDirectory_of_prefix {p q : List Name} (h : isReached p = true) (hq : q <+: p)
    (hne : q ≠ p) (hlength : 2 ≤ q.length) : validCanonicalDirectory (relative q) = true := by
  simp only [isReached, Bool.and_eq_true, decide_eq_true_eq, List.all_eq_true, List.mem_inits,
    Bool.or_eq_true] at h
  obtain (h | h) | h := h.2 q hq
  · omega
  · exact absurd (hq.eq_of_length h) hne
  · exact h

namespace Extends

variable {fs gs : FileSystem Name} {files : Additions} {p : List Name} {e : Entry}

theorem refl (h : ∀ f ∈ files, fs.get? f.1 = none) : Extends fs files fs where
  sub := Sub.refl fs
  fresh := h
  added p e hp hnone := by
    rw [hp] at hnone
    cases hnone

theorem reached (h : Extends fs files gs) (hfiles : Addable files) (hp : gs.get? p = some e)
    (hnone : fs.get? p = none) : isReached p = true := by
  obtain ⟨bytes, -, hmem⟩ | ⟨-, hlength, f, hf, hbelow, -⟩ := h.added p e hp hnone
  · exact hfiles.reached _ hmem
  · exact isReached_prefix (hfiles.reached f hf) hbelow hlength

theorem mem_present (h : Extends fs files gs) (hfiles : Addable files) {f : List Name × Bytes} :
    f ∈ presentIn gs files ↔ f ∈ files ∧ gs.get? f.1 = some (.regular f.2) := by
  rw [presentIn, List.mem_filter]
  refine and_congr_right fun hf => ?_
  constructor
  · intro hsome
    obtain ⟨e, he⟩ := Option.isSome_iff_exists.mp hsome
    obtain ⟨bytes, rfl, hmem⟩ | ⟨-, hlength, f', hf', hbelow, hne⟩ := h.added _ _ he (h.fresh f hf)
    · have hpair : (f.1, bytes) = f := List.inj_on_of_nodup_map hfiles.nodup hmem hf rfl
      rw [he, ← hpair]
    · have hvalid := validCanonicalDirectory_of_prefix (hfiles.reached f' hf') hbelow hne hlength
      rw [hfiles.leaf f hf] at hvalid
      cases hvalid
  · intro hget
    rw [hget]
    rfl

end Extends

def addedEntries (fs gs : FileSystem Name) : List (List Name × Entry) :=
  gs.entries.entries.filter (fun e => (fs.get? e.1).isNone)

theorem mem_addedEntries {fs gs : FileSystem Name} {e : List Name × Entry} :
    e ∈ addedEntries fs gs ↔ gs.get? e.1 = some e.2 ∧ fs.get? e.1 = none := by
  rw [addedEntries, List.mem_filter, BTreeMap.mem_entries_iff, Option.isNone_iff_eq_none]
  rfl

theorem sum_entrySize (entries : List (List Name × Entry)) :
    (entries.map (fun e => entrySize e.2)).sum =
      ((entries.filterMap fileOf).map (fun f => f.bytes.length)).sum := by
  induction entries with
  | nil => rfl
  | cons e r ih =>
    obtain ⟨p, e⟩ := e
    rw [List.map_cons, List.sum_cons, ih]
    cases e with
    | directory =>
      by_cases hvalid : validCanonicalDirectory (relative p) = true
      · simp [fileOf, entrySize, hvalid]
      · simp [fileOf, entrySize, hvalid]
    | regular bytes => simp [fileOf, entrySize]
    | other =>
      have hnone : fileOf (p, .other) = none := rfl
      simp [hnone, entrySize]

namespace Extends

variable {s t : Disk} {files : Additions}

theorem visibleEntries_perm (h : Extends (s .canonical) files (t .canonical)) (hfiles : Addable files) :
    (visibleEntries t).Perm (visibleEntries s ++ addedEntries (s .canonical) (t .canonical)) := by
  have hadded : (addedEntries (s .canonical) (t .canonical)).Nodup :=
    ((t .canonical).entries.keys_nodup.of_map).filter _
  refine (List.perm_ext_iff_of_nodup (nodup_visibleKeys t).of_map ?_).mpr ?_
  · refine (nodup_visibleKeys s).of_map.append hadded ?_
    intro e hs ht
    rw [mem_visibleEntries] at hs
    rw [mem_addedEntries, hs.1] at ht
    cases ht.2
  · intro e
    rw [List.mem_append, mem_visibleEntries, mem_visibleEntries, mem_addedEntries]
    constructor
    · rintro ⟨hget, hreached⟩
      cases hs : (s .canonical).get? e.1 with
      | none => exact .inr ⟨hget, rfl⟩
      | some e' =>
        have := (h.sub _ _ hs).symm.trans hget
        exact .inl ⟨this, hreached⟩
    · rintro (⟨hget, hreached⟩ | ⟨hget, hnone⟩)
      · exact ⟨h.sub _ _ hget, hreached⟩
      · exact ⟨hget, h.reached hfiles hget hnone⟩

theorem nodup_added (h : Extends (s .canonical) files (t .canonical)) (hfiles : Addable files) :
    ((addedEntries (s .canonical) (t .canonical)).map (fun e => relative e.1)).Nodup := by
  refine nodup_of_keys ((t .canonical).entries.keys_nodup.sublist (List.filter_sublist.map Prod.fst)) ?_
  intro e he
  obtain ⟨hget, hnone⟩ := mem_addedEntries.mp he
  exact ne_nil_of_isReached (h.reached hfiles hget hnone)

theorem files_added (h : Extends (s .canonical) files (t .canonical)) (hfiles : Addable files) :
    ((addedEntries (s .canonical) (t .canonical)).filterMap fileOf).Perm
      (presentIn (t .canonical) files).raw := by
  have hraw : (presentIn (t .canonical) files).raw.Nodup := by
    refine List.Nodup.of_map RawFile.path ?_
    rw [Additions.raw, List.map_map]
    refine nodup_of_keys (hfiles.nodup.sublist (List.filter_sublist.map Prod.fst)) ?_
    exact fun f hf => ne_nil_of_isReached (hfiles.reached f (List.mem_of_mem_filter hf))
  refine (List.perm_ext_iff_of_nodup (nodup_files (h.nodup_added hfiles)).of_map hraw).mpr ?_
  intro file
  rw [List.mem_filterMap, Additions.raw, List.mem_map]
  constructor
  · rintro ⟨⟨p, e⟩, he, hfile⟩
    obtain ⟨hget, hnone⟩ := mem_addedEntries.mp he
    obtain ⟨bytes, heq, hmem⟩ | ⟨heq, hlength, f, hf, hbelow, hne⟩ := h.added p e hget hnone
    · subst heq
      cases hfile
      exact ⟨(p, bytes), (h.mem_present hfiles).mpr ⟨hmem, hget⟩, rfl⟩
    · subst heq
      have hvalid := validCanonicalDirectory_of_prefix (hfiles.reached f hf) hbelow hne hlength
      rw [fileOf, if_pos hvalid] at hfile
      cases hfile
  · rintro ⟨f, hf, rfl⟩
    obtain ⟨hmem, hget⟩ := (h.mem_present hfiles).mp hf
    exact ⟨(f.1, .regular f.2), mem_addedEntries.mpr ⟨hget, h.fresh f hmem⟩, rfl⟩

theorem nonregular_added (h : Extends (s .canonical) files (t .canonical)) :
    (addedEntries (s .canonical) (t .canonical)).filterMap nonregularOf = [] := by
  rw [List.filterMap_eq_nil_iff]
  rintro ⟨p, e⟩ he
  obtain ⟨hget, hnone⟩ := mem_addedEntries.mp he
  obtain ⟨bytes, rfl, -⟩ | ⟨rfl, -⟩ := h.added p e hget hnone
  · rfl
  · rfl

/-- What is visible after some of the files were added. -/
theorem files_perm (h : Extends (s .canonical) files (t .canonical)) (hfiles : Addable files) :
    ((visibleEntries t).filterMap fileOf).Perm
      ((visibleEntries s).filterMap fileOf ++ (presentIn (t .canonical) files).raw) := by
  have hperm := (h.visibleEntries_perm hfiles).filterMap fileOf
  rw [List.filterMap_append] at hperm
  exact hperm.trans ((h.files_added hfiles).append_left _)

theorem nonregular_perm (h : Extends (s .canonical) files (t .canonical)) (hfiles : Addable files) :
    ((visibleEntries t).filterMap nonregularOf).Perm ((visibleEntries s).filterMap nonregularOf) := by
  have hperm := (h.visibleEntries_perm hfiles).filterMap nonregularOf
  rwa [List.filterMap_append, h.nonregular_added, List.append_nil] at hperm

end Extends

theorem slashPrefixes_append {a t : Bytes} (h : SLASH ∉ a) :
    slashPrefixes (a ++ SLASH :: t) = a :: (slashPrefixes t).map (fun x => a ++ SLASH :: x) := by
  induction a with
  | nil => simp [slashPrefixes]
  | cons b a ih =>
    rw [List.mem_cons, not_or] at h
    obtain ⟨hb, ha⟩ := h
    rw [List.cons_append, slashPrefixes, ih ha, if_neg (fun heq => hb heq.symm)]
    simp

theorem relative_cons {p : List Name} (a : Name) (hp : p ≠ []) :
    relative (a :: p) = a.bytes ++ SLASH :: relative p := by
  rw [relative, List.map_cons, List.intercalate_cons_of_ne_nil (by simpa using hp), List.append_assoc]
  rfl

theorem mem_slashPrefixes {p q : List Name} (hq : q <+: p) (hnil : q ≠ []) (hne : q ≠ p) :
    relative q ∈ slashPrefixes (relative p) := by
  induction p generalizing q with
  | nil => exact absurd (List.prefix_nil.mp hq) hnil
  | cons a p ih =>
    cases q with
    | nil => exact absurd rfl hnil
    | cons c q =>
      obtain ⟨rfl, htail⟩ := List.cons_prefix_cons.mp hq
      have hp : p ≠ [] := by
        rintro rfl
        rw [List.prefix_nil.mp htail] at hne
        exact hne rfl
      rw [relative_cons c hp, slashPrefixes_append c.slash_notMem]
      by_cases hq' : q = []
      · subst hq'
        exact List.mem_cons.mpr (.inl (by simp [relative]))
      · rw [relative_cons c hq']
        refine List.mem_cons_of_mem _ (List.mem_map.mpr ⟨_, ih htail hq' ?_, rfl⟩)
        rintro rfl
        exact hne rfl

theorem isRootPath_append (a t : Bytes) : isRootPath (a ++ SLASH :: t) = false := by
  have hslash : SLASH ∈ a ++ SLASH :: t := by simp
  have hne : ∀ root : Bytes, SLASH ∉ root → a ++ SLASH :: t ≠ root := by
    rintro root h rfl
    exact h hslash
  simp only [isRootPath, hne _ (show SLASH ∉ asBytes "events" by decide),
    hne _ (show SLASH ∉ asBytes "batches" by decide), hne _ (show SLASH ∉ asBytes "journal" by decide),
    decide_false, Bool.or_false]

theorem mem_canonicalParents {p q : List Name} (hq : q <+: p) (hne : q ≠ p) (hlength : 2 ≤ q.length) :
    relative q ∈ canonicalParents (relative p) := by
  cases q with
  | nil => simp at hlength
  | cons a q =>
    obtain ⟨p, rfl⟩ : ∃ r, p = a :: r := by
      obtain ⟨r, rfl⟩ := hq
      exact ⟨q ++ r, rfl⟩
    have hq := (List.cons_prefix_cons.mp hq).2
    have hq' : q ≠ [] := by
      rintro rfl
      simp at hlength
    have hp : p ≠ [] := by
      rintro rfl
      exact hq' (List.prefix_nil.mp hq)
    have hne' : q ≠ p := by
      rintro rfl
      exact hne rfl
    rw [canonicalParents, relative_cons a hp, slashPrefixes_append a.slash_notMem, List.reverse_cons,
      List.takeWhile_append_of_pos ?_]
    · refine List.mem_append_left _ (List.mem_reverse.mpr (List.mem_map.mpr
        ⟨_, mem_slashPrefixes hq hq' hne', ?_⟩))
      rw [relative_cons a hq']
    · intro x hx
      obtain ⟨y, -, rfl⟩ := List.mem_map.mp (List.mem_reverse.mp hx)
      rw [isRootPath_append]
      rfl

theorem mem_addEntry {paths : BTreeSet Bytes} {path k : Bytes} :
    k ∈ (addEntryAndCanonicalParents paths path).keys ↔
      k ∈ paths.keys ∨ k = path ∨ k ∈ canonicalParents path := by
  rw [addEntryAndCanonicalParents, BTreeSet.mem_keys_foldl_insert, BTreeMap.mem_keys_insert, or_comm (a := k = path),
    or_assoc]

/-- The paths of a store with the given files. -/
def limitSet (paths : List Bytes) (existing : BTreeSet Bytes) : BTreeSet Bytes :=
  paths.foldl addEntryAndCanonicalParents existing

theorem mem_limitSet {paths : List Bytes} {existing : BTreeSet Bytes} {k : Bytes} :
    k ∈ (limitSet paths existing).keys ↔
      k ∈ existing.keys ∨ ∃ path ∈ paths, k = path ∨ k ∈ canonicalParents path := by
  induction paths generalizing existing with
  | nil => simp [limitSet]
  | cons path r ih =>
    have hcons : limitSet (path :: r) existing =
        limitSet r (addEntryAndCanonicalParents existing path) := rfl
    rw [hcons, ih, mem_addEntry, List.exists_mem_cons_iff, or_assoc]

theorem enforceLimits_eq_ok {files : List (Bytes × Nat)} {nonregular : List Bytes}
    {existing : BTreeSet Bytes} :
    enforceLimits files nonregular existing = .ok () ↔
      (limitSet (files.map Prod.fst ++ nonregular) existing).keys.length ≤ MAX_CANONICAL_ENTRIES ∧
        (files.map Prod.snd).sum ≤ MAX_TOTAL_CANONICAL_BYTES := by
  simp only [enforceLimits, guard_bind_eq_ok, guard_eq_ok, pure_eq_ok, and_true, Nat.not_lt]
  rw [BTreeMap.keys, List.length_map]
  rfl

theorem keys_length_le {m n : BTreeSet Bytes} (h : ∀ k ∈ m.keys, k ∈ n.keys) :
    m.keys.length ≤ n.keys.length :=
  m.keys_nodup.length_le_of_subset h

def RawFile.sized (file : RawFile) : Bytes × Nat := (file.path, file.bytes.length)

/-- Files that a store has room for next to its own. -/
structure Publishable (s : Disk) (files : Additions) : Prop where
  addable : Addable files
  within : WithinLimits (visibleEntries s)
  fresh : ∀ f ∈ files, (s .canonical).get? f.1 = none
  limits : enforceLimits (((inventoryOf (visibleEntries s)).files ++ files.raw).map RawFile.sized)
    (inventoryOf (visibleEntries s)).nonregular (inventoryOf (visibleEntries s)).inventory = .ok ()

/-- The paths that count when all of the files are there. -/
def fullSet (s : Disk) (files : Additions) : BTreeSet Bytes :=
  limitSet ((((inventoryOf (visibleEntries s)).files ++ files.raw).map RawFile.sized).map Prod.fst ++
    (inventoryOf (visibleEntries s)).nonregular) (inventoryOf (visibleEntries s)).inventory

theorem map_sized_fst (files : List RawFile) :
    (files.map RawFile.sized).map Prod.fst = files.map RawFile.path := by
  rw [List.map_map]
  rfl

theorem map_sized_snd (files : List RawFile) :
    (files.map RawFile.sized).map Prod.snd = files.map (fun f => f.bytes.length) := by
  rw [List.map_map]
  rfl

theorem mem_fullSet_file {s : Disk} {files : Additions} {f : List Name × Bytes} (hf : f ∈ files) {k : Bytes}
    (hk : k = relative f.1 ∨ k ∈ canonicalParents (relative f.1)) : k ∈ (fullSet s files).keys := by
  refine mem_limitSet.mpr (.inr ⟨relative f.1, List.mem_append_left _ ?_, hk⟩)
  rw [map_sized_fst, List.map_append]
  exact List.mem_append_right _ (List.mem_map.mpr ⟨_, List.mem_map.mpr ⟨f, hf, rfl⟩, rfl⟩)

namespace Publishable

variable {s t : Disk} {files : Additions}

theorem mem_fullSet (h : Publishable s files) (hext : Extends (s .canonical) files (t .canonical))
    {e : List Name × Entry} (he : e ∈ visibleEntries t) : relative e.1 ∈ (fullSet s files).keys := by
  obtain he | he := List.mem_append.mp ((hext.visibleEntries_perm h.addable).mem_iff.mp he)
  · exact mem_limitSet.mpr (.inl (mem_insertEntries.mpr (.inr ⟨e, he, rfl⟩)))
  · obtain ⟨hget, hnone⟩ := mem_addedEntries.mp he
    obtain ⟨bytes, -, hmem⟩ | ⟨-, hlength, f, hf, hbelow, hne⟩ := hext.added _ _ hget hnone
    · exact mem_fullSet_file hmem (.inl rfl)
    · exact mem_fullSet_file hf (.inr (mem_canonicalParents hbelow hne hlength))

theorem sum_files_le (h : Publishable s files) (hext : Extends (s .canonical) files (t .canonical)) :
    (((visibleEntries t).filterMap fileOf).map (fun f => f.bytes.length)).sum ≤
      MAX_TOTAL_CANONICAL_BYTES := by
  have hlimit := (enforceLimits_eq_ok.mp h.limits).2
  have hbase := ((sortFiles_perm ((visibleEntries s).filterMap fileOf)).map
    (fun f => f.bytes.length)).sum_nat
  have hpresent : ((presentIn (t .canonical) files).raw.map (fun f => f.bytes.length)).sum ≤
      (files.raw.map (fun f => f.bytes.length)).sum :=
    ((List.filter_sublist.map _).map _).sum_le_sum (fun _ _ => Nat.zero_le _)
  rw [map_sized_snd, List.map_append, List.sum_append] at hlimit
  rw [((hext.files_perm h.addable).map _).sum_nat, List.map_append, List.sum_append]
  change (List.map _ (sortFiles _)).sum + _ ≤ _ at hlimit
  omega

theorem withinLimits (h : Publishable s files) (hext : Extends (s .canonical) files (t .canonical)) :
    WithinLimits (visibleEntries t) where
  count := by
    have hsubset : ((visibleEntries t).map (fun e => relative e.1)).length ≤ (fullSet s files).keys.length := by
      refine (nodup_visible t).length_le_of_subset ?_
      intro k hk
      obtain ⟨e, he, rfl⟩ := List.mem_map.mp hk
      exact h.mem_fullSet hext he
    rw [List.length_map] at hsubset
    exact hsubset.trans (enforceLimits_eq_ok.mp h.limits).1
  fits := by
    intro e he
    obtain he | he := List.mem_append.mp ((hext.visibleEntries_perm h.addable).mem_iff.mp he)
    · exact h.within.fits e he
    · obtain ⟨p, e⟩ := e
      obtain ⟨hget, hnone⟩ := mem_addedEntries.mp he
      obtain ⟨bytes, rfl, hmem⟩ | ⟨rfl, -⟩ := hext.added _ _ hget hnone
      · exact h.addable.fits _ hmem
      · rintro bytes ⟨⟩
  size := by
    rw [sum_entrySize]
    exact h.sum_files_le hext

theorem nodup_raw (h : Publishable s files) :
    (((visibleEntries s).filterMap fileOf ++ files.raw).map RawFile.path).Nodup := by
  have hraw : files.raw.map RawFile.path = files.map (fun f => relative f.1) := by
    rw [Additions.raw, List.map_map]
    rfl
  rw [List.map_append, hraw]
  refine (nodup_files (nodup_visible s)).append (nodup_of_keys h.addable.nodup ?_) ?_
  · exact fun f hf => ne_nil_of_isReached (h.addable.reached f hf)
  · intro k hs hk
    obtain ⟨f, hf, rfl⟩ := List.mem_map.mp hk
    obtain ⟨file, hfile, hpath⟩ := List.mem_map.mp hs
    obtain ⟨e, he, hfile⟩ := List.mem_filterMap.mp hfile
    obtain ⟨hget, hreached⟩ := mem_visibleEntries.mp he
    have hkey : e.1 = f.1 := relative_injective (ne_nil_of_isReached hreached)
      (ne_nil_of_isReached (h.addable.reached f hf)) ((path_of_fileOf hfile).symm.trans hpath)
    rw [hkey, h.fresh f hf] at hget
    cases hget

/-- What the scan finds after some of the files were added. -/
theorem visibleInventory_extended (h : Publishable s files)
    (hext : Extends (s .canonical) files (t .canonical)) :
    ∃ inventory, visibleInventory t = .ok
        ⟨sortFiles ((visibleEntries s).filterMap fileOf ++ (presentIn (t .canonical) files).raw),
          (inventoryOf (visibleEntries s)).nonregular, inventory⟩ ∧
      ∀ k ∈ inventory.keys, k ∈ (fullSet s files).keys := by
  refine ⟨insertEntries ∅ (visibleEntries t),
    visibleInventory_eq_ok.mpr ⟨h.withinLimits hext, ?_⟩, ?_⟩
  · rw [inventoryOf, VisibleInventory.mk.injEq]
    refine ⟨(sortFiles_congr (hext.files_perm h.addable) ?_).symm, ?_, rfl⟩
    · refine h.nodup_raw.sublist (List.Sublist.map _ ?_)
      exact (List.Sublist.refl _).append (List.filter_sublist.map _)
    · have hperm := ((List.perm_insertionSort (· ≤ ·) _).trans (hext.nonregular_perm h.addable)).trans
        (List.perm_insertionSort (· ≤ ·) _).symm
      exact (hperm.eq_of_pairwise (fun a b _ _ => le_antisymm) (List.pairwise_insertionSort _ _)
        (List.pairwise_insertionSort _ _)).symm
  · intro k hk
    obtain hk | ⟨e, he, rfl⟩ := mem_insertEntries.mp hk
    · cases hk
    · exact h.mem_fullSet hext he

end Publishable

end Wayjournal
