import Wayjournal.Store.CrashAtomic
import Wayjournal.Store.PathGrammar
import Wayjournal.Store.Streaming
import Wayjournal.Store.Walk

namespace Wayjournal

open Collections Fs FileSystem Text

theorem mem_slashPrefixes_iff {path dir : Bytes} : dir ∈ slashPrefixes path ↔ dir ++ [SLASH] <+: path := by
  induction path generalizing dir with
  | nil => simp [slashPrefixes]
  | cons b t ih =>
    rw [slashPrefixes, List.mem_append, List.mem_map]
    cases dir with
    | nil =>
      rw [List.nil_append, List.cons_prefix_cons]
      by_cases hb : b = SLASH
      · simp [hb]
      · have hb' : ¬ SLASH = b := fun h => hb h.symm
        simp [hb, hb']
    | cons a dir =>
      rw [List.cons_append, List.cons_prefix_cons]
      constructor
      · rintro (h | ⟨r, hr, heq⟩)
        · split at h
          · simp at h
          · cases h
        · cases heq
          exact ⟨rfl, ih.mp hr⟩
      · rintro ⟨rfl, h⟩
        exact .inr ⟨dir, ih.mpr h, rfl⟩

theorem nodup_slashPrefixes (path : Bytes) : (slashPrefixes path).Nodup := by
  induction path with
  | nil => exact List.nodup_nil
  | cons b t ih =>
    have htail : ((slashPrefixes t).map (b :: ·)).Nodup := ih.map (fun x y h => (List.cons.inj h).2)
    rw [slashPrefixes]
    split
    · refine List.nodup_cons.mpr ⟨?_, htail⟩
      intro h
      obtain ⟨x, -, hx⟩ := List.mem_map.mp h
      cases hx
    · exact htail

/-- Only what stands before the first slash can be a root. -/
theorem canonicalParents_eq (path : Bytes) :
    canonicalParents path = ((slashPrefixes path).filter (!isRootPath ·)).reverse := by
  rw [canonicalParents]
  by_cases hslash : SLASH ∈ path
  · obtain ⟨a, t, rfl, ha⟩ := List.eq_append_cons_of_mem hslash
    have hlong : ∀ x ∈ (slashPrefixes t).map (fun x => a ++ SLASH :: x), (!isRootPath x) = true := by
      intro x hx
      obtain ⟨y, -, rfl⟩ := List.mem_map.mp hx
      rw [isRootPath_append]
      rfl
    rw [slashPrefixes_append ha, List.reverse_cons, List.takeWhile_append_of_pos (fun x hx =>
      hlong x (List.mem_reverse.mp hx)), List.filter_cons, List.filter_eq_self.mpr hlong]
    by_cases hroot : isRootPath a = true
    · simp [hroot]
    · simp [hroot]
  · have hnil : slashPrefixes path = [] := by
      rw [List.eq_nil_iff_forall_not_mem]
      intro dir hdir
      exact hslash ((mem_slashPrefixes_iff.mp hdir).subset (by simp))
    rw [hnil]
    rfl

theorem mem_canonicalParents_iff {path dir : Bytes} :
    dir ∈ canonicalParents path ↔ DirectoryOf dir path ∧ isRootPath dir = false := by
  rw [canonicalParents_eq, List.mem_reverse, List.mem_filter, mem_slashPrefixes_iff, Bool.not_eq_true']
  refine and_congr_left fun _ => ⟨?_, ?_⟩
  · rintro ⟨rest, rfl⟩
    exact ⟨rest, by simp⟩
  · rintro ⟨rest, rfl⟩
    exact ⟨rest, by simp⟩

theorem alreadyCounted_iff {previous : Option Bytes} {dir : Bytes} :
    CanonicalEntryBudget.alreadyCounted previous dir = true ↔ ∃ path, previous = some path ∧ DirectoryOf dir path := by
  cases previous with
  | none => simp [CanonicalEntryBudget.alreadyCounted]
  | some path =>
    simp only [CanonicalEntryBudget.alreadyCounted, Option.any_some, Bool.and_eq_true, List.isPrefixOf_iff_prefix,
      decide_eq_true_eq, Option.some.injEq, exists_eq_left']
    constructor
    · rintro ⟨⟨t, rfl⟩, hslash⟩
      cases t with
      | nil => simp at hslash
      | cons b t =>
        rw [List.getElem?_append_right (Nat.le_refl _), Nat.sub_self] at hslash
        cases hslash
        exact ⟨t, rfl⟩
    · rintro ⟨rest, rfl⟩
      exact ⟨List.prefix_append _ _, by simp⟩

/-- Paths none of which is a directory above another. -/
def Flat (paths : List Bytes) : Prop := ∀ path ∈ paths, ∀ other ∈ paths, ∀ dir, DirectoryOf dir other → path ≠ dir

namespace CanonicalEntryBudget

/-- The directories a path brings that the previous one did not. -/
def newParents (previous : Option Bytes) (path : Bytes) : List Bytes :=
  (slashPrefixes path).filter (fun parent => !isRootPath parent && !alreadyCounted previous parent)

theorem mem_newParents {previous : Option Bytes} {path dir : Bytes} :
    dir ∈ newParents previous path ↔ dir ∈ canonicalParents path ∧ alreadyCounted previous dir = false := by
  rw [newParents, canonicalParents_eq, List.mem_reverse, List.mem_filter, List.mem_filter, Bool.and_eq_true,
    Bool.not_eq_true', Bool.not_eq_true', and_assoc]

theorem limitSet_concat (paths : List Bytes) (path : Bytes) :
    limitSet (paths ++ [path]) ∅ = addEntryAndCanonicalParents (limitSet paths ∅) path := by
  rw [limitSet, List.foldl_append]
  rfl

variable {paths : List Bytes} {path : Bytes}

theorem mem_limitSet_empty {k : Bytes} :
    k ∈ (limitSet paths ∅).keys ↔ ∃ path ∈ paths, k = path ∨ k ∈ canonicalParents path := by
  rw [mem_limitSet]
  exact or_iff_right List.not_mem_nil

/-- A directory of an earlier path and of the next one is one of the last path too. -/
theorem alreadyCounted_of_earlier (hsorted : (paths ++ [path]).Pairwise (· < ·)) {other dir : Bytes}
    (hother : other ∈ paths) (hdir : DirectoryOf dir other) (hpath : DirectoryOf dir path) :
    alreadyCounted paths.getLast? dir = true := by
  have hne : paths ≠ [] := List.ne_nil_of_mem hother
  obtain ⟨last, hlast⟩ : ∃ last, paths.getLast? = some last := ⟨_, List.getLast?_eq_some_getLast hne⟩
  obtain ⟨init, rfl⟩ := List.getLast?_eq_some_iff.mp hlast
  rw [List.pairwise_append] at hsorted
  have hle : other ≤ last := by
    obtain hinit | hlast := List.mem_append.mp hother
    · exact ((List.pairwise_append.mp hsorted.1).2.2 other hinit last (by simp)).le
    · exact (List.mem_singleton.mp hlast).le
  have hlt : last < path := hsorted.2.2 last (by simp) path (by simp)
  have hstart : ∀ {x}, DirectoryOf dir x → dir ++ [SLASH] <+: x := by
    rintro x ⟨rest, rfl⟩
    exact ⟨rest, by simp⟩
  obtain ⟨rest, hrest⟩ := isPrefix_of_between (hstart hdir) (hstart hpath) hle hlt.le
  exact alreadyCounted_iff.mpr ⟨last, hlast, rest, by rw [← hrest]; simp⟩

theorem length_limitSet_concat (hsorted : (paths ++ [path]).Pairwise (· < ·)) (hflat : Flat (paths ++ [path])) :
    (limitSet (paths ++ [path]) ∅).keys.length =
      (limitSet paths ∅).keys.length + (1 + (newParents paths.getLast? path).length) := by
  have hnew : path ∉ (limitSet paths ∅).keys := by
    rw [mem_limitSet_empty]
    rintro ⟨other, hother, rfl | hparent⟩
    · exact lt_irrefl _ ((List.pairwise_append.mp hsorted).2.2 _ hother _ (by simp))
    · exact hflat path (by simp) other (List.mem_append_left _ hother) path (mem_canonicalParents_iff.mp hparent).1 rfl
  have hself : path ∉ newParents paths.getLast? path := by
    intro hmem
    have hdir := (mem_canonicalParents_iff.mp (mem_newParents.mp hmem).1).1
    exact hflat path (by simp) path (by simp) path hdir rfl
  have hdisjoint : ∀ dir ∈ newParents paths.getLast? path, dir ∉ (limitSet paths ∅).keys := by
    intro dir hmem hold
    obtain ⟨hparent, hcounted⟩ := mem_newParents.mp hmem
    have hdir := (mem_canonicalParents_iff.mp hparent).1
    obtain ⟨other, hother, rfl | habove⟩ := mem_limitSet_empty.mp hold
    · exact hflat dir (List.mem_append_left _ hother) path (by simp) dir hdir rfl
    · rw [alreadyCounted_of_earlier hsorted hother (mem_canonicalParents_iff.mp habove).1 hdir] at hcounted
      cases hcounted
  have hperm : (limitSet (paths ++ [path]) ∅).keys.Perm
      ((limitSet paths ∅).keys ++ path :: newParents paths.getLast? path) := by
    refine (List.perm_ext_iff_of_nodup (BTreeMap.keys_nodup _) ?_).mpr ?_
    · refine (BTreeMap.keys_nodup _).append (List.nodup_cons.mpr ⟨hself, (nodup_slashPrefixes path).filter _⟩) ?_
      intro k hold hk
      obtain rfl | hk := List.mem_cons.mp hk
      · exact hnew hold
      · exact hdisjoint k hk hold
    · intro k
      rw [limitSet_concat, mem_addEntry, List.mem_append, List.mem_cons, mem_newParents]
      refine ⟨?_, ?_⟩
      · rintro (hold | rfl | hparent)
        · exact .inl hold
        · exact .inr (.inl rfl)
        · cases hcounted : alreadyCounted paths.getLast? k with
          | false => exact .inr (.inr ⟨hparent, rfl⟩)
          | true =>
            obtain ⟨last, hlast, hdir⟩ := alreadyCounted_iff.mp hcounted
            have hroot := (mem_canonicalParents_iff.mp hparent).2
            exact .inl (mem_limitSet_empty.mpr ⟨last, List.mem_of_getLast? hlast,
              .inr (mem_canonicalParents_iff.mpr ⟨hdir, hroot⟩)⟩)
      · rintro (hold | rfl | ⟨hparent, -⟩)
        · exact .inl hold
        · exact .inr (.inl rfl)
        · exact .inr (.inr hparent)
  rw [hperm.length_eq, List.length_append, List.length_cons, Nat.add_comm (newParents _ _).length]

/-- The stream of sorted paths is counted as the set of them and of their directories. -/
theorem foldlM_pushSortedFile (hsorted : paths.Pairwise (· < ·)) (hflat : Flat paths) (limit : Nat) :
    paths.foldlM (fun budget path => budget.pushSortedFile path limit) new =
      if (limitSet paths ∅).keys.length ≤ limit then some ⟨(limitSet paths ∅).keys.length, paths.getLast?⟩
      else none := by
  induction paths using List.reverseRecOn with
  | nil => rfl
  | append_singleton paths path ih =>
    have hlength := length_limitSet_concat hsorted hflat
    have hordered : ∀ other ∈ paths, other < path :=
      fun other hother => (List.pairwise_append.mp hsorted).2.2 other hother path (by simp)
    have hinit := ih (List.pairwise_append.mp hsorted).1 (fun p hp q hq =>
      hflat p (List.mem_append_left _ hp) q (List.mem_append_left _ hq))
    rw [List.foldlM_append, hinit]
    by_cases hroom : (limitSet paths ∅).keys.length ≤ limit
    · have hprevious : paths.getLast?.any (path ≤ ·) = false := by
        cases hlast : paths.getLast? with
        | none => rfl
        | some last =>
          simpa using hordered last (List.mem_of_getLast? hlast)
      rw [if_pos hroom]
      change (pushSortedFile _ path limit >>= pure) = _
      rw [bind_pure, pushSortedFile, hprevious, if_neg (by simp), List.getLast?_concat]
      change (if _ + (1 + (newParents paths.getLast? path).length) > limit then none
        else some (⟨_ + (1 + (newParents paths.getLast? path).length), some path⟩ : CanonicalEntryBudget)) = _
      rw [← hlength]
      by_cases hfull : (limitSet (paths ++ [path]) ∅).keys.length ≤ limit
      · rw [if_neg (Nat.not_lt.mpr hfull), if_pos hfull]
      · rw [if_pos (Nat.lt_of_not_le hfull), if_neg hfull]
    · rw [if_neg hroom, if_neg (by omega)]
      rfl

end CanonicalEntryBudget

theorem directoryOf_relative {p q : List Name} (hq : q <+: p) (hnil : q ≠ []) (hne : q ≠ p) :
    DirectoryOf (relative q) (relative p) := by
  obtain ⟨rest, hrest⟩ := mem_slashPrefixes_iff.mp (mem_slashPrefixes hq hnil hne)
  exact ⟨rest, by rw [← hrest]; simp⟩

theorem exists_of_directoryOf {p : List Name} {dir : Bytes} (h : DirectoryOf dir (relative p)) :
    ∃ q, q <+: p ∧ q ≠ [] ∧ q ≠ p ∧ dir = relative q := by
  obtain ⟨rest, hrest⟩ := h
  have hfree : ∀ x ∈ p.map Name.bytes, SLASH ∉ x := by
    intro x hx
    obtain ⟨name, -, rfl⟩ := List.mem_map.mp hx
    exact name.slash_notMem
  obtain ⟨k, hk, rfl⟩ := take_of_intercalate hfree hrest
  rw [List.length_map] at hk
  refine ⟨p.take (k + 1), List.take_prefix _ _, ?_, ?_, by rw [relative, List.map_take]⟩
  · intro hnil
    have hlength := congrArg List.length hnil
    rw [List.length_take_of_le hk.le] at hlength
    cases hlength
  · intro heq
    have hlength := congrArg List.length heq
    rw [List.length_take_of_le hk.le] at hlength
    omega

theorem isRootPath_root {root : Name} (h : root ∈ canonicalRoots) : isRootPath (relative [root]) = true := by
  simp only [canonicalRoots, List.mem_cons, List.not_mem_nil, or_false] at h
  obtain rfl | rfl | rfl := h <;> decide

def BelowRoot (p : List Name) : Prop := ∃ root ∈ canonicalRoots, [root] <+: p ∧ [root] ≠ p

theorem BelowRoot.extend {p q : List Name} (h : BelowRoot p) (hpq : p <+: q) : BelowRoot q := by
  obtain ⟨root, hroot, hbelow, hne⟩ := h
  refine ⟨root, hroot, hbelow.trans hpq, ?_⟩
  rintro rfl
  exact hne (hbelow.eq_of_length_le hpq.length_le)

theorem BelowRoot.of_isReached {p : List Name} (h : isReached p = true) : BelowRoot p := by
  obtain ⟨root, hroot, hbelow, hne, -⟩ := isReached_iff.mp h
  exact ⟨root, hroot, hbelow, hne⟩

theorem BelowRoot.two_le {p : List Name} (h : BelowRoot p) : 2 ≤ p.length := by
  obtain ⟨root, -, ⟨t, rfl⟩, hne⟩ := h
  cases t with
  | nil => simp at hne
  | cons a t => simp

theorem BelowRoot.isReached {p : List Name} (h : BelowRoot p)
    (hcanonical : (classifyPath (relative p)).isCanonical = true) : isReached p = true := by
  obtain ⟨root, hroot, hbelow, hne⟩ := h
  refine isReached_iff.mpr ⟨root, hroot, hbelow, hne, fun q hq hlong hqp => ?_⟩
  rw [List.length_singleton] at hlong
  obtain ⟨a, b, t, rfl⟩ : ∃ a b t, q = a :: b :: t := by
    match q, hlong with
    | a :: b :: t, _ => exact ⟨a, b, t, rfl⟩
  refine CanonicalName.canonical_directory hcanonical (directoryOf_relative hq (by simp) hqp) ?_
  rw [relative_cons a (by simp)]
  simp

/-- Below the roots stand exactly these files and no empty directory. -/
structure HoldsExactly (fs : FileSystem Name) (files : Finset Bytes) : Prop where
  mem : ∀ path, path ∈ files ↔ ∃ p bytes, BelowRoot p ∧ fs.get? p = some (.regular bytes) ∧ relative p = path
  regular : ∀ p, BelowRoot p → fs.get? p ≠ some .other
  nonempty : ∀ p, BelowRoot p → fs.get? p = some .directory → fs.names p ≠ []

section

variable {disk : Disk} {files : Finset Bytes} {order : List Bytes}

/-- The entries the walk takes are the files and the directories above them. -/
theorem visibleEntries_perm_limitSet (hcanonical : ∀ path ∈ files, (classifyPath path).isCanonical = true)
    (hholds : HoldsExactly (disk .canonical) files) (horder : order.toFinset = files) :
    ((visibleEntries disk).map (fun e => relative e.1)).Perm (limitSet order ∅).keys := by
  have hmem : ∀ path, path ∈ order ↔ path ∈ files := fun path => by rw [← horder, List.mem_toFinset]
  refine (List.perm_ext_iff_of_nodup (nodup_visible disk) (BTreeMap.keys_nodup _)).mpr fun k => ?_
  rw [List.mem_map, CanonicalEntryBudget.mem_limitSet_empty]
  constructor
  · rintro ⟨⟨p, e⟩, he, rfl⟩
    obtain ⟨hget, hreached⟩ := mem_visibleEntries.mp he
    have hbelow := BelowRoot.of_isReached hreached
    cases e with
    | regular bytes => exact ⟨_, (hmem _).mpr ((hholds.mem _).mpr ⟨p, bytes, hbelow, hget, rfl⟩), .inl rfl⟩
    | other => exact absurd hget (hholds.regular p hbelow)
    | directory =>
      obtain ⟨q, e, hq, hne, hleaf, hdirectory⟩ := exists_leaf (fun k hk => hholds.nonempty k (hbelow.extend hk)) hget
      cases e with
      | directory => exact absurd rfl hdirectory
      | other => exact absurd hleaf (hholds.regular q (hbelow.extend hq))
      | regular bytes =>
        refine ⟨_, (hmem _).mpr ((hholds.mem _).mpr ⟨q, bytes, hbelow.extend hq, hleaf, rfl⟩), .inr ?_⟩
        exact mem_canonicalParents hq hne hbelow.two_le
  · rintro ⟨path, hpath, hk⟩
    obtain ⟨p, bytes, hbelow, hget, rfl⟩ := (hholds.mem path).mp ((hmem path).mp hpath)
    have hreached := hbelow.isReached (hcanonical _ ((hmem _).mp hpath))
    obtain rfl | hparent := hk
    · exact ⟨(p, .regular bytes), mem_visibleEntries.mpr ⟨hget, hreached⟩, rfl⟩
    · obtain ⟨hdir, hroot⟩ := mem_canonicalParents_iff.mp hparent
      obtain ⟨q, hq, hnil, hne, rfl⟩ := exists_of_directoryOf hdir
      have hlong : 2 ≤ q.length := by
        match q, hnil with
        | [a], _ =>
          obtain ⟨root, hmemroot, hbelow, -⟩ := hbelow
          obtain rfl := prefix_child_inj (d := []) hbelow hq
          rw [isRootPath_root hmemroot] at hroot
          cases hroot
        | a :: b :: t, _ => simp
      refine ⟨(q, .directory), mem_visibleEntries.mpr ⟨?_, isReached_prefix hreached hq hlong⟩, rfl⟩
      exact get?_directory_of_below hget hq hne hnil

end

theorem length_limitSet_congr {order order' : List Bytes} (h : order.toFinset = order'.toFinset) :
    (limitSet order ∅).keys.length = (limitSet order' ∅).keys.length := by
  have hmem : ∀ path, path ∈ order ↔ path ∈ order' := fun path => by
    rw [← List.mem_toFinset, h, List.mem_toFinset]
  have hsame : limitSet order ∅ = limitSet order' ∅ := by
    refine BTreeSet.ext_keys fun k => ?_
    simp only [CanonicalEntryBudget.mem_limitSet_empty, hmem]
  rw [hsame]

section

variable [Jiff] [Blake3] [ReadDir]

/-- What the limits admit, the scan has room for while it is published and after. -/
theorem collectVisibleInventory_extended {registry : DomainRegistry} {records : List Record} {key : String}
    {prepared : PreparedBatch} {s t : Disk} {found : VisibleInventory}
    (hprepare : prepareBatch records key registry = .ok prepared) (hfound : visibleInventory s = .ok found)
    (hlimits : enforceLimits ((found.files ++ prepared.files).map RawFile.sized) found.nonregular found.inventory =
      .ok ())
    (hext : Extends (s .canonical) prepared.targets (t .canonical)) :
    ∃ found' budget, collectVisibleInventory DEFAULT_SCAN_LIMITS t = .ok (found', budget) ∧
      budget.entries ≤ MAX_CANONICAL_ENTRIES ∧ budget.bytes ≤ MAX_TOTAL_CANONICAL_BYTES := by
  obtain ⟨hwithin, rfl⟩ := visibleInventory_eq_ok.mp hfound
  have hwf := prepareBatch_wellFormed hprepare
  have hpublishable : Publishable s prepared.targets :=
    ⟨addable_targets hwf hwf.nodup_files, hwithin, hext.fresh, by rw [hwf.raw_targets]; exact hlimits⟩
  obtain ⟨hcount, hfits, hsize⟩ := hpublishable.withinLimits hext
  exact ⟨_, _, collectVisibleInventory_eq_ok.mpr ⟨hcount, hfits, hsize, rfl, rfl⟩, hcount, hsize⟩

/-- The three ways of counting the entries of a store. -/
theorem entry_counters_agree (files : Finset Bytes)
    (hcanonical : ∀ path ∈ files, (classifyPath path).isCanonical = true) :
    (∃ count : Nat,
      (∀ order : List Bytes, order.toFinset = files →
        (order.foldl addEntryAndCanonicalParents ∅).keys.length = count) ∧
      (∀ (sorted : List Bytes) (limit : Nat), sorted.Pairwise (· < ·) → sorted.toFinset = files →
        sorted.foldlM (fun budget path => budget.pushSortedFile path limit) CanonicalEntryBudget.new =
          if count ≤ limit then some ⟨count, sorted.getLast?⟩ else none) ∧
      ∀ (disk : Disk) (limits : ScanLimits), HoldsExactly (disk .canonical) files →
        (∀ found budget, collectVisibleInventory limits disk = .ok (found, budget) →
          budget.entries = count ∧ count ≤ limits.entries) ∧
        (∀ e, collectVisibleInventory limits disk = .error e → e.IsEntryCount → limits.entries < count) ∧
        ((∀ x ∈ visibleEntries disk, FitsLimit x) →
          ((visibleEntries disk).map (fun x => entrySize x.2)).sum ≤ limits.bytes →
            (count ≤ limits.entries → ∃ found budget, collectVisibleInventory limits disk = .ok (found, budget)) ∧
            (limits.entries < count →
              ∃ e, collectVisibleInventory limits disk = .error e ∧ e.IsEntryCount))) ∧
    ∀ (registry : DomainRegistry) (records : List Record) (key : String) (prepared : PreparedBatch) (s t : Disk)
      (found : VisibleInventory), prepareBatch records key registry = .ok prepared → visibleInventory s = .ok found →
      enforceLimits ((found.files ++ prepared.files).map RawFile.sized) found.nonregular found.inventory = .ok () →
      Extends (s .canonical) prepared.targets (t .canonical) →
      ∃ found' budget, collectVisibleInventory DEFAULT_SCAN_LIMITS t = .ok (found', budget) ∧
        budget.entries ≤ MAX_CANONICAL_ENTRIES ∧ budget.bytes ≤ MAX_TOTAL_CANONICAL_BYTES := by
  refine ⟨⟨(limitSet files.toList ∅).keys.length, ?_, ?_, ?_⟩, ?_⟩
  · intro order horder
    exact length_limitSet_congr (horder.trans files.toList_toFinset.symm)
  · intro sorted limit hsorted hmem
    have hfiles : ∀ path ∈ sorted, path ∈ files := fun path hpath => hmem ▸ List.mem_toFinset.mpr hpath
    have hflat : Flat sorted := fun path hpath other hother dir hdir =>
      CanonicalName.canonical_ne_directory (hcanonical path (hfiles path hpath))
        (hcanonical other (hfiles other hother)) hdir
    rw [CanonicalEntryBudget.foldlM_pushSortedFile hsorted hflat,
      length_limitSet_congr (hmem.trans files.toList_toFinset.symm)]
  · intro disk limits hholds
    have hcount : (visibleEntries disk).length = (limitSet files.toList ∅).keys.length := by
      have hperm := visibleEntries_perm_limitSet hcanonical hholds files.toList_toFinset
      rw [← hperm.length_eq, List.length_map]
    refine ⟨?_, ?_, ?_⟩
    · intro found budget hok
      obtain ⟨hle, -, -, -, rfl⟩ := collectVisibleInventory_eq_ok.mp hok
      exact ⟨hcount, hcount ▸ hle⟩
    · intro e he hentry
      exact hcount ▸ (isEntryCount_of_collectVisibleInventory he).1 hentry
    · intro hfits hsize
      refine ⟨fun hle => ⟨_, _, collectVisibleInventory_eq_ok.mpr ⟨hcount ▸ hle, hfits, hsize, rfl, rfl⟩⟩, fun hlt => ?_⟩
      cases hwalk : collectVisibleInventory limits disk with
      | ok r =>
        have hle := (collectVisibleInventory_eq_ok.mp hwalk).1
        omega
      | error e => exact ⟨e, rfl, (isEntryCount_of_collectVisibleInventory hwalk).2 hfits hsize⟩
  · intro registry records key prepared s t found hprepare hfound hlimits hext
    exact collectVisibleInventory_extended hprepare hfound hlimits hext

end

namespace Sample

def batchPath : Bytes := asBytes (CanonicalName.journalBatch batchId).path

def recordPath : Bytes :=
  asBytes (CanonicalName.journalRecord ⟨"example.notes", check_notes⟩ entityId (recordId 1)).path

end Sample

/-- A record and its batch take six entries. -/
theorem record_and_batch_counted :
    Sample.recordPath ≠ Sample.batchPath ∧
      [Sample.batchPath, Sample.recordPath].foldlM (fun budget path => budget.pushSortedFile path 6)
        CanonicalEntryBudget.new = some ⟨6, some Sample.recordPath⟩ ∧
      [Sample.batchPath, Sample.recordPath].foldlM (fun budget path => budget.pushSortedFile path 5)
        CanonicalEntryBudget.new = none := by
  have hclass : ∀ path ∈ [Sample.batchPath, Sample.recordPath].toFinset,
      (classifyPath path).isCanonical = true := by
    intro path hpath
    simp only [List.mem_toFinset, List.mem_cons, List.not_mem_nil, or_false] at hpath
    obtain rfl | rfl := hpath
    · rw [Sample.batchPath, CanonicalName.classifyPath_path]
      rfl
    · rw [Sample.recordPath, CanonicalName.classifyPath_path]
      rfl
  have hlt : Sample.batchPath < Sample.recordPath := by decide +kernel
  have hsorted : [Sample.batchPath, Sample.recordPath].Pairwise (· < ·) := by simpa using hlt
  have hlength : ([Sample.batchPath, Sample.recordPath].foldl addEntryAndCanonicalParents ∅).keys.length = 6 := by
    decide +kernel
  obtain ⟨⟨count, hset, hstream, -⟩, -⟩ :=
    @entry_counters_agree Sample.jiff Sample.blake3 Sample.readDir [Sample.batchPath, Sample.recordPath].toFinset hclass
  obtain rfl : count = 6 := (hset _ rfl).symm.trans hlength
  exact ⟨hlt.ne', hstream _ 6 hsorted rfl, hstream _ 5 hsorted rfl⟩

end Wayjournal
