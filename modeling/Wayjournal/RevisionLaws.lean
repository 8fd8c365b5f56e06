import Wayjournal.Collections.Sorted
import Wayjournal.Control.Except
import Wayjournal.Framing
import Wayjournal.Revision

namespace Wayjournal

open Collections Text

section Repeated

variable {l : List Bytes} {p : Bytes}

theorem firstRepeated_eq_none (h : l.Nodup) : firstRepeated l = none := by
  induction l with
  | nil => rfl
  | cons a t ih =>
    rw [List.nodup_cons] at h
    cases t with
    | nil => rfl
    | cons b t =>
      rw [firstRepeated, if_neg (fun heq : a = b => h.1 (heq ▸ List.mem_cons_self))]
      exact ih h.2

theorem notMem_of_sorted {a b : Bytes} (h : (a :: b :: l).Pairwise (· ≤ ·)) (hne : a ≠ b) : a ∉ b :: l := by
  have hfirst : a < b := lt_of_le_of_ne (List.rel_of_pairwise_cons h List.mem_cons_self) hne
  intro hmem
  obtain heq | hmem := List.mem_cons.mp hmem
  · exact hne heq
  · exact absurd (List.rel_of_pairwise_cons h.tail hmem) (not_le.mpr hfirst)

theorem nodup_of_firstRepeated (h : l.Pairwise (· ≤ ·)) (hnone : firstRepeated l = none) : l.Nodup := by
  fun_induction firstRepeated l with
  | case1 => cases hnone
  | case2 a b l hne ih => exact List.nodup_cons.mpr ⟨notMem_of_sorted h hne, ih h.tail hnone⟩
  | case3 l hl =>
    match l, hl with
    | [], _ => exact List.nodup_nil
    | [a], _ => exact List.nodup_singleton a
    | a :: b :: t, hl => exact absurd rfl (hl a b t)

/-- The least element of a sorted list that is there twice. -/
theorem firstRepeated_eq_some (h : l.Pairwise (· ≤ ·)) :
    firstRepeated l = some p ↔ 1 < l.count p ∧ ∀ q < p, l.count q ≤ 1 := by
  fun_induction firstRepeated l with
  | case1 a l =>
    have hcount : 1 < (a :: a :: l).count a := by
      rw [List.count_cons_self, List.count_cons_self]
      omega
    constructor
    · rintro ⟨⟩
      refine ⟨hcount, fun q hq => ?_⟩
      rw [List.count_eq_zero.mpr]
      · exact Nat.zero_le 1
      · intro hmem
        obtain rfl | hmem := List.mem_cons.mp hmem
        · exact lt_irrefl _ hq
        · exact absurd (List.rel_of_pairwise_cons h hmem) (not_le.mpr hq)
    · rintro ⟨hp, hleast⟩
      have hmem : p ∈ a :: a :: l := List.count_pos_iff.mp (Nat.zero_lt_of_lt hp)
      obtain rfl | hmem := List.mem_cons.mp hmem
      · rfl
      · obtain heq | hlt := eq_or_lt_of_le (List.rel_of_pairwise_cons h hmem)
        · rw [heq]
        · exact absurd hcount (not_lt.mpr (hleast a hlt))
  | case2 a b l hne ih =>
    have hzero : (b :: l).count a = 0 := List.count_eq_zero.mpr (notMem_of_sorted h hne)
    have hcount : ∀ q, (a :: b :: l).count q ≤ 1 ↔ (b :: l).count q ≤ 1 := by
      intro q
      by_cases hq : q = a
      · rw [hq, List.count_cons_self, hzero]
        simp
      · rw [List.count_cons_of_ne (Ne.symm hq)]
    rw [ih h.tail, ← not_le, ← not_le, hcount]
    exact and_congr_right fun _ => forall₂_congr fun q _ => (hcount q).symm
  | case3 l hl =>
    have hlength : l.length ≤ 1 := by
      match l, hl with
      | [], _ => exact Nat.zero_le 1
      | [a], _ => exact le_rfl
      | a :: b :: t, hl => exact absurd rfl (hl a b t)
    constructor
    · exact nofun
    · rintro ⟨hp, -⟩
      exact absurd (hp.trans_le List.count_le_length) (not_lt.mpr hlength)

end Repeated

section Entries

variable {entries other : List RevisionEntry} {acc : StoreRevisionAccumulator}

theorem map_path_insertionSort (entries : List RevisionEntry) :
    (entries.insertionSort fun a b => a.path ≤ b.path).map RevisionEntry.path =
      (entries.map RevisionEntry.path).insertionSort (· ≤ ·) := by
  have hperm := (List.perm_insertionSort (fun a b : RevisionEntry => a.path ≤ b.path) entries).map RevisionEntry.path
  refine (hperm.trans (List.perm_insertionSort _ _).symm).eq_of_pairwise (fun _ _ _ _ => le_antisymm) ?_
    (List.pairwise_insertionSort _ _)
  exact List.pairwise_map.mpr (List.pairwise_insertionSort _ _)

theorem sorted_of_nodup (h : (entries.map RevisionEntry.path).Nodup) :
    ((entries.insertionSort fun a b => a.path ≤ b.path).map RevisionEntry.path).Pairwise (· < ·) := by
  rw [map_path_insertionSort]
  have hnodup := (List.perm_insertionSort (· ≤ ·) (entries.map RevisionEntry.path)).nodup_iff.mpr h
  exact ((List.pairwise_insertionSort _ _).and hnodup).imp fun h => lt_of_le_of_ne h.1 h.2

/-- Entries with different paths are sorted in one way. -/
theorem insertionSort_eq_of_perm (h : entries.Perm other) (hnodup : (entries.map RevisionEntry.path).Nodup) :
    entries.insertionSort (fun a b => a.path ≤ b.path) = other.insertionSort (fun a b => a.path ≤ b.path) := by
  have hperm := ((List.perm_insertionSort (fun a b : RevisionEntry => a.path ≤ b.path) entries).trans h).trans
    (List.perm_insertionSort (fun a b : RevisionEntry => a.path ≤ b.path) other).symm
  have hother : (other.map RevisionEntry.path).Nodup := (h.map RevisionEntry.path).nodup_iff.mp hnodup
  exact hperm.eq_of_pairwise (fun _ _ _ _ hab hba => absurd hab (lt_asymm hba))
    (List.pairwise_map.mp (sorted_of_nodup hnodup)) (List.pairwise_map.mp (sorted_of_nodup hother))

/-- What the fold does not stop at. -/
def RevisionEntry.Admissible (entry : RevisionEntry) : Prop :=
  classifyPath entry.path ≠ .invalidReserved ∧ ((classifyPath entry.path).isCanonical = true → entry.regular = true)

/-- The canonical map of a list of entries. -/
def canonicalFiles (entries : List RevisionEntry) : List (Bytes × Bytes) :=
  (entries.filter fun entry => (classifyPath entry.path).isCanonical).map fun entry => (entry.path, entry.bytes)

theorem mem_canonicalFiles {file : Bytes × Bytes} : file ∈ canonicalFiles entries ↔
    ∃ entry ∈ entries, (classifyPath entry.path).isCanonical = true ∧ (entry.path, entry.bytes) = file := by
  simp [canonicalFiles, and_assoc]

theorem canonical_of_mem (file : Bytes × Bytes) (h : file ∈ canonicalFiles entries) :
    (classifyPath file.1).isCanonical = true := by
  obtain ⟨_, -, hcanonical, rfl⟩ := mem_canonicalFiles.mp h
  exact hcanonical

theorem not_admissible_iff : (¬ ∀ entry ∈ entries, entry.Admissible) ↔
    (∃ e ∈ entries, classifyPath e.path = .invalidReserved) ∨
      ∃ e ∈ entries, (classifyPath e.path).isCanonical = true ∧ e.regular = false := by
  simp only [RevisionEntry.Admissible, not_forall, not_and_or, not_not, exists_prop, Bool.not_eq_true, and_or_left,
    exists_or]

/-- `push` with the files of a store. -/
def pushFile (acc : StoreRevisionAccumulator) (file : Bytes × Bytes) : Except RevisionError StoreRevisionAccumulator :=
  acc.push file.1 file.2

theorem pushRevisionEntry_ne_ok {entry : RevisionEntry} (h : ¬ entry.Admissible) (acc' : StoreRevisionAccumulator) :
    pushRevisionEntry acc entry ≠ .ok acc' := by
  intro hok
  unfold pushRevisionEntry at hok
  refine h ⟨fun hclass => ?_, fun hcanonical => ?_⟩
  · rw [hclass] at hok
    cases hok
  · split at hok
    · cases hok
    · rename_i hclass
      rw [hclass] at hcanonical
      cases hcanonical
    · split at hok
      · cases hok
      · rename_i hregular
        simpa using hregular

theorem pushRevisionEntry_eq {entry : RevisionEntry} (h : entry.Admissible) :
    pushRevisionEntry acc entry =
      if (classifyPath entry.path).isCanonical = true then pushFile acc (entry.path, entry.bytes) else .ok acc := by
  obtain ⟨hreserved, hregular⟩ := h
  unfold pushRevisionEntry
  cases hclass : classifyPath entry.path with
  | invalidReserved => exact absurd hclass hreserved
  | nonCanonical => rfl
  | _ =>
    rw [hclass] at hregular
    rw [hregular rfl]
    rfl

theorem foldlM_pushRevisionEntry_eq (h : ∀ entry ∈ entries, entry.Admissible) (acc : StoreRevisionAccumulator) :
    entries.foldlM pushRevisionEntry acc = (canonicalFiles entries).foldlM pushFile acc := by
  induction entries generalizing acc with
  | nil => rfl
  | cons entry entries ih =>
    have ih := ih fun x hx => h x (List.mem_cons_of_mem _ hx)
    rw [List.foldlM_cons, pushRevisionEntry_eq (h entry List.mem_cons_self), canonicalFiles, List.filter_cons]
    by_cases hcanonical : (classifyPath entry.path).isCanonical = true
    · rw [if_pos hcanonical, if_pos hcanonical, List.map_cons, List.foldlM_cons]
      exact congrArg _ (funext fun next => ih next)
    · rw [if_neg hcanonical, if_neg hcanonical]
      exact ih acc

theorem push_ok {path : Bytes} (bytes : Bytes) (hcanonical : (classifyPath path).isCanonical = true)
    (hprevious : ∀ p, acc.previousPath = some p → p < path) :
    acc.push path bytes = .ok ⟨acc.fed ++ (frame path ++ frame bytes), some path⟩ := by
  have hne : acc.previousPath ≠ some path := fun heq => lt_irrefl _ (hprevious path heq)
  have hnot : acc.previousPath.any (fun p => decide (path < p)) = false := by
    cases hp : acc.previousPath with
    | none => rfl
    | some p => simpa using le_of_lt (hprevious p hp)
  rw [StoreRevisionAccumulator.push, hcanonical, if_neg (by simp), if_neg hne, hnot, if_neg Bool.false_ne_true]

/-- What is hashed when all files were taken. -/
theorem fed_foldlM_pushFile {files : List (Bytes × Bytes)} {acc' : StoreRevisionAccumulator}
    (h : files.foldlM pushFile acc = .ok acc') :
    acc'.fed = acc.fed ++ files.flatMap fun file => frame file.1 ++ frame file.2 := by
  induction files generalizing acc with
  | nil =>
    cases h
    rw [List.flatMap_nil, List.append_nil]
  | cons file files ih =>
    rw [List.foldlM_cons, except_bind_eq_ok] at h
    obtain ⟨next, hnext, h⟩ := h
    have hfed : next.fed = acc.fed ++ (frame file.1 ++ frame file.2) := by
      rw [pushFile, StoreRevisionAccumulator.push] at hnext
      split at hnext
      · cases hnext
      · split at hnext
        · cases hnext
        · split at hnext
          · cases hnext
          · cases hnext
            rfl
    rw [ih h, hfed, List.flatMap_cons, List.append_assoc]

/-- Canonical files in increasing order are all taken. -/
theorem foldlM_pushFile {files : List (Bytes × Bytes)} (acc : StoreRevisionAccumulator)
    (hcanonical : ∀ file ∈ files, (classifyPath file.1).isCanonical = true)
    (hsorted : (files.map Prod.fst).Pairwise (· < ·))
    (hprevious : ∀ p, acc.previousPath = some p → ∀ file ∈ files, p < file.1) :
    ∃ acc', files.foldlM pushFile acc = .ok acc' := by
  induction files generalizing acc with
  | nil => exact ⟨acc, rfl⟩
  | cons file files ih =>
    rw [List.map_cons, List.pairwise_cons] at hsorted
    rw [List.foldlM_cons, pushFile,
      push_ok _ (hcanonical file List.mem_cons_self) fun p hp => hprevious p hp file List.mem_cons_self]
    refine ih _ (fun x hx => hcanonical x (List.mem_cons_of_mem _ hx)) hsorted.2 ?_
    rintro p ⟨⟩ x hx
    exact hsorted.1 _ (List.mem_map.mpr ⟨x, hx, rfl⟩)

end Entries

section Preimage

variable {entries other : List RevisionEntry}

/-- The bytes `compute_store_revision` feeds to its hasher. -/
def storeRevisionPreimage (entries : List RevisionEntry) : Except RevisionError Bytes := do
  let entries := entries.insertionSort (fun a b => a.path ≤ b.path)
  if let some path := firstRepeated (entries.map RevisionEntry.path) then
    throw (.duplicatePath path)
  let acc ← entries.foldlM pushRevisionEntry .new
  return acc.fed

theorem computeStoreRevision_eq [Blake3] (entries : List RevisionEntry) :
    computeStoreRevision entries =
      (storeRevisionPreimage entries).map fun fed => ⟨.wayjournalBlake3FramedV1, Blake3.hash fed⟩ := by
  unfold computeStoreRevision storeRevisionPreimage
  dsimp only
  cases firstRepeated ((entries.insertionSort fun a b => a.path ≤ b.path).map RevisionEntry.path) with
  | some path => rfl
  | none =>
    dsimp only
    cases (entries.insertionSort fun a b => a.path ≤ b.path).foldlM pushRevisionEntry .new with
    | error e => rfl
    | ok acc => rfl

theorem storeRevisionPreimage_of_repeated {path : Bytes}
    (h : firstRepeated ((entries.map RevisionEntry.path).insertionSort (· ≤ ·)) = some path) :
    storeRevisionPreimage entries = .error (.duplicatePath path) := by
  unfold storeRevisionPreimage
  dsimp only
  rw [map_path_insertionSort, h]
  rfl

theorem firstRepeated_insertionSort_eq_none {l : List Bytes} :
    firstRepeated (l.insertionSort (· ≤ ·)) = none ↔ l.Nodup := by
  have hperm := List.perm_insertionSort (· ≤ ·) l
  constructor
  · intro h
    exact hperm.nodup_iff.mp (nodup_of_firstRepeated (List.pairwise_insertionSort _ _) h)
  · exact fun h => firstRepeated_eq_none (hperm.nodup_iff.mpr h)

/-- Which path is reported rests on how often each is there. -/
theorem firstRepeated_congr {l l' : List Bytes} (h : ∀ p, 1 < l.count p ↔ 1 < l'.count p) :
    firstRepeated (l.insertionSort (· ≤ ·)) = firstRepeated (l'.insertionSort (· ≤ ·)) := by
  have hcount : ∀ (l : List Bytes) q, (l.insertionSort (· ≤ ·)).count q = l.count q :=
    fun l q => (List.perm_insertionSort (· ≤ ·) l).count_eq q
  refine Option.ext fun p => ?_
  rw [firstRepeated_eq_some (List.pairwise_insertionSort _ _), firstRepeated_eq_some (List.pairwise_insertionSort _ _)]
  simp only [hcount]
  rw [h p]
  exact and_congr_right fun _ => forall₂_congr fun q _ => by rw [← not_lt, ← not_lt, h q]

theorem storeRevisionPreimage_of_nodup (h : (entries.map RevisionEntry.path).Nodup) :
    storeRevisionPreimage entries =
      ((entries.insertionSort fun a b => a.path ≤ b.path).foldlM pushRevisionEntry .new).map fun acc => acc.fed := by
  unfold storeRevisionPreimage
  dsimp only
  rw [map_path_insertionSort, firstRepeated_insertionSort_eq_none.mpr h]
  dsimp only
  cases (entries.insertionSort fun a b => a.path ≤ b.path).foldlM pushRevisionEntry .new with
  | error e => rfl
  | ok acc => rfl

theorem storeRevisionPreimage_congr
    (hcount : ∀ p, 1 < (entries.map RevisionEntry.path).count p ↔ 1 < (other.map RevisionEntry.path).count p)
    (hnodup : (entries.map RevisionEntry.path).Nodup → (other.map RevisionEntry.path).Nodup →
      storeRevisionPreimage entries = storeRevisionPreimage other) :
    storeRevisionPreimage entries = storeRevisionPreimage other := by
  have hrepeated := firstRepeated_congr hcount
  cases hfirst : firstRepeated ((entries.map RevisionEntry.path).insertionSort (· ≤ ·)) with
  | some path =>
    rw [storeRevisionPreimage_of_repeated hfirst, storeRevisionPreimage_of_repeated (hrepeated ▸ hfirst)]
  | none =>
    exact hnodup (firstRepeated_insertionSort_eq_none.mp hfirst)
      (firstRepeated_insertionSort_eq_none.mp (hrepeated ▸ hfirst))

theorem storeRevisionPreimage_perm (h : entries.Perm other) : storeRevisionPreimage entries = storeRevisionPreimage other := by
  refine storeRevisionPreimage_congr (fun p => by rw [(h.map RevisionEntry.path).count_eq]) fun hnodup hother => ?_
  rw [storeRevisionPreimage_of_nodup hnodup, storeRevisionPreimage_of_nodup hother, insertionSort_eq_of_perm h hnodup]

/-- The fold over one more entry that is not of the store. -/
theorem foldlM_pushRevisionEntry_filter (l : List RevisionEntry) (acc : StoreRevisionAccumulator) :
    (l.filter fun e => classifyPath e.path ≠ .nonCanonical).foldlM pushRevisionEntry acc =
      l.foldlM pushRevisionEntry acc := by
  induction l generalizing acc with
  | nil => rfl
  | cons e l ih =>
    rw [List.filter_cons, List.foldlM_cons]
    by_cases hclass : classifyPath e.path = .nonCanonical
    · have hskip : pushRevisionEntry acc e = .ok acc := by
        unfold pushRevisionEntry
        rw [hclass]
      rw [if_neg (by simpa using hclass), hskip]
      exact ih acc
    · rw [if_pos (by simpa using hclass), List.foldlM_cons]
      exact congrArg _ (funext fun next => ih next)

theorem storeRevisionPreimage_append {extra : List RevisionEntry}
    (hextra : ∀ e ∈ extra, classifyPath e.path = .nonCanonical) (hnodup : (extra.map RevisionEntry.path).Nodup)
    (hunlisted : ∀ e ∈ extra, e.path ∉ entries.map RevisionEntry.path) :
    storeRevisionPreimage (entries ++ extra) = storeRevisionPreimage entries := by
  refine storeRevisionPreimage_congr (fun p => ?_) fun hall hentries => ?_
  · rw [List.map_append, List.count_append]
    by_cases hp : p ∈ extra.map RevisionEntry.path
    · obtain ⟨e, he, rfl⟩ := List.mem_map.mp hp
      rw [List.count_eq_zero.mpr (hunlisted e he), List.count_eq_one_of_mem hnodup hp]
      simp
    · rw [List.count_eq_zero.mpr hp, Nat.add_zero]
  · have hsorted := List.pairwise_map.mp (sorted_of_nodup hall)
    have hsorted' := List.pairwise_map.mp (sorted_of_nodup hentries)
    have hnone : extra.filter (fun e => classifyPath e.path ≠ .nonCanonical) = [] :=
      List.filter_eq_nil_iff.mpr fun e he => by simpa using hextra e he
    have hperm := (List.perm_insertionSort (fun a b : RevisionEntry => a.path ≤ b.path) (entries ++ extra)).filter
      (fun e => classifyPath e.path ≠ .nonCanonical)
    rw [List.filter_append, hnone, List.append_nil] at hperm
    have hperm' := (List.perm_insertionSort (fun a b : RevisionEntry => a.path ≤ b.path) entries).filter
      (fun e => classifyPath e.path ≠ .nonCanonical)
    rw [storeRevisionPreimage_of_nodup hall, storeRevisionPreimage_of_nodup hentries, ← foldlM_pushRevisionEntry_filter,
      ← foldlM_pushRevisionEntry_filter (entries.insertionSort _),
      (hperm.trans hperm'.symm).eq_of_pairwise (fun _ _ _ _ hab hba => absurd hab (lt_asymm hba)) (hsorted.filter _)
        (hsorted'.filter _)]

theorem canonicalFiles_perm (h : entries.Perm other) : (canonicalFiles entries).Perm (canonicalFiles other) :=
  (h.filter _).map _

theorem sorted_canonicalFiles (h : (entries.map RevisionEntry.path).Pairwise (· < ·)) :
    ((canonicalFiles entries).map Prod.fst).Pairwise (· < ·) := by
  rw [canonicalFiles, List.map_map]
  exact h.sublist (List.filter_sublist.map _)

/-- Which lists have a revision, and what is hashed for them. -/
theorem storeRevisionPreimage_eq_ok {fed : Bytes} :
    storeRevisionPreimage entries = .ok fed ↔ (entries.map RevisionEntry.path).Nodup ∧
      (∀ entry ∈ entries, entry.Admissible) ∧
      STORE_REVISION_DOMAIN ++ (canonicalFiles (entries.insertionSort fun a b => a.path ≤ b.path)).flatMap
        (fun file => frame file.1 ++ frame file.2) = fed := by
  by_cases hnodup : (entries.map RevisionEntry.path).Nodup
  · have hperm := List.perm_insertionSort (fun a b : RevisionEntry => a.path ≤ b.path) entries
    rw [storeRevisionPreimage_of_nodup hnodup]
    by_cases hall : ∀ entry ∈ entries, entry.Admissible
    · obtain ⟨acc, hacc⟩ := foldlM_pushFile .new canonical_of_mem
        (sorted_canonicalFiles (sorted_of_nodup hnodup)) (by rintro p ⟨⟩)
      rw [foldlM_pushRevisionEntry_eq (fun e he => hall e (hperm.mem_iff.mp he)), hacc]
      have hfed := fed_foldlM_pushFile hacc
      exact ⟨fun h => ⟨hnodup, hall, hfed ▸ Except.ok.inj h⟩, fun h => congrArg Except.ok (hfed.trans h.2.2)⟩
    · obtain ⟨entry, hentry, hnot⟩ := by simpa using hall
      have hfail := foldlM_ne_ok (f := pushRevisionEntry) (hperm.mem_iff.mpr hentry) fun _ => pushRevisionEntry_ne_ok hnot
      constructor
      · intro h
        cases hfold : (entries.insertionSort fun a b => a.path ≤ b.path).foldlM pushRevisionEntry .new with
        | error e =>
          rw [hfold] at h
          cases h
        | ok acc => exact absurd hfold (hfail _ _)
      · exact fun h => absurd h.2.1 hall
  · cases hfirst : firstRepeated ((entries.map RevisionEntry.path).insertionSort (· ≤ ·)) with
    | none => exact absurd (firstRepeated_insertionSort_eq_none.mp hfirst) hnodup
    | some path =>
      rw [storeRevisionPreimage_of_repeated hfirst]
      exact ⟨nofun, fun h => absurd h.1 hnodup⟩

theorem computeStoreRevision_eq_ok [Blake3] {revision : StoreRevisionRef} :
    computeStoreRevision entries = .ok revision ↔
      ∃ fed, storeRevisionPreimage entries = .ok fed ∧ ⟨.wayjournalBlake3FramedV1, Blake3.hash fed⟩ = revision := by
  rw [computeStoreRevision_eq]
  cases storeRevisionPreimage entries with
  | error e => exact ⟨nofun, nofun⟩
  | ok fed =>
    constructor
    · rintro ⟨⟩
      exact ⟨fed, rfl, rfl⟩
    · rintro ⟨_, ⟨⟩, rfl⟩
      rfl

/-- A set of regular files with canonical paths has a revision. -/
theorem computeStoreRevision_ok [Blake3] (hnodup : (entries.map RevisionEntry.path).Nodup)
    (hcanonical : ∀ e ∈ entries, (classifyPath e.path).isCanonical = true)
    (hregular : ∀ e ∈ entries, e.regular = true) : ∃ revision, computeStoreRevision entries = .ok revision := by
  have hall : ∀ entry ∈ entries, entry.Admissible := by
    refine fun entry hentry => ⟨fun hclass => ?_, fun _ => hregular entry hentry⟩
    have hnot := hcanonical entry hentry
    rw [hclass] at hnot
    cases hnot
  exact ⟨_, computeStoreRevision_eq_ok.mpr ⟨_, storeRevisionPreimage_eq_ok.mpr ⟨hnodup, hall, rfl⟩, rfl⟩⟩

theorem computeStoreRevision_error_iff [Blake3] :
    (∃ e, computeStoreRevision entries = .error e) ↔
      ¬ ((entries.map RevisionEntry.path).Nodup ∧ ∀ entry ∈ entries, entry.Admissible) := by
  rw [computeStoreRevision_eq]
  cases hfed : storeRevisionPreimage entries with
  | error e =>
    refine ⟨fun _ h => ?_, fun _ => ⟨e, rfl⟩⟩
    rw [storeRevisionPreimage_eq_ok.mpr ⟨h.1, h.2, rfl⟩] at hfed
    cases hfed
  | ok fed =>
    obtain ⟨hnodup, hall, -⟩ := storeRevisionPreimage_eq_ok.mp hfed
    exact ⟨nofun, fun h => absurd ⟨hnodup, hall⟩ h⟩

theorem eq_canonicalFiles {files : List (Bytes × Bytes)} (hnodup : (entries.map RevisionEntry.path).Nodup)
    (hsorted : (files.map Prod.fst).Pairwise (· < ·)) (hfiles : ∀ file, file ∈ files ↔ file ∈ canonicalFiles entries) :
    files = canonicalFiles (entries.insertionSort fun a b => a.path ≤ b.path) := by
  have hperm := canonicalFiles_perm (List.perm_insertionSort (fun a b : RevisionEntry => a.path ≤ b.path) entries)
  have hsorted := List.pairwise_map.mp hsorted
  have hsorted' := List.pairwise_map.mp (sorted_canonicalFiles (sorted_of_nodup hnodup))
  have hne : ∀ {a b : Bytes × Bytes}, a.1 < b.1 → a ≠ b := fun hlt heq => absurd (heq ▸ hlt) (lt_irrefl _)
  have hsame := (List.perm_ext_iff_of_nodup (hsorted.imp hne) (hsorted'.imp hne)).mpr fun file =>
    (hfiles file).trans hperm.mem_iff.symm
  exact hsame.eq_of_pairwise (fun _ _ _ _ hab hba => absurd hab (lt_asymm hba)) hsorted hsorted'

/-- The preimage of a revision determines the canonical map. -/
theorem canonicalFiles_of_preimage {fed : Bytes} (h : storeRevisionPreimage entries = .ok fed)
    (h' : storeRevisionPreimage other = .ok fed)
    (hentries : ∀ file ∈ canonicalFiles entries, file ∈ framable ×ˢ framable)
    (hother : ∀ file ∈ canonicalFiles other, file ∈ framable ×ˢ framable) (file : Bytes × Bytes) :
    file ∈ canonicalFiles entries ↔ file ∈ canonicalFiles other := by
  have hperm := canonicalFiles_perm (List.perm_insertionSort (fun a b : RevisionEntry => a.path ≤ b.path) entries)
  have hperm' := canonicalFiles_perm (List.perm_insertionSort (fun a b : RevisionEntry => a.path ≤ b.path) other)
  obtain ⟨-, -, hfed⟩ := storeRevisionPreimage_eq_ok.mp h
  obtain ⟨-, -, hfed'⟩ := storeRevisionPreimage_eq_ok.mp h'
  have hsame := flatMap_frames_injOn (fun e he => hentries e (hperm.mem_iff.mp he))
    (fun e he => hother e (hperm'.mem_iff.mp he)) (List.append_cancel_left (hfed.trans hfed'.symm))
  rw [← hperm.mem_iff, ← hperm'.mem_iff, hsame]

/-- The revision of a store is a function of its canonical map: of neither the order of the entries nor of what else
there is, and the bytes that are hashed determine the map. -/
theorem store_revision_of_canonical_map [Blake3] :
    (∀ entries other, entries.Perm other → computeStoreRevision entries = computeStoreRevision other) ∧
    (∀ entries extra : List RevisionEntry, (∀ e ∈ extra, classifyPath e.path = .nonCanonical) →
      (extra.map RevisionEntry.path).Nodup → (∀ e ∈ extra, e.path ∉ entries.map RevisionEntry.path) →
      computeStoreRevision (entries ++ extra) = computeStoreRevision entries) ∧
    (∀ entries : List RevisionEntry, (∃ e, computeStoreRevision entries = .error e) ↔
      ¬ (entries.map RevisionEntry.path).Nodup ∨ (∃ e ∈ entries, classifyPath e.path = .invalidReserved) ∨
        ∃ e ∈ entries, (classifyPath e.path).isCanonical = true ∧ e.regular = false) ∧
    (∀ entries revision, computeStoreRevision entries = .ok revision → ∃ files : List (Bytes × Bytes),
      (files.map Prod.fst).Pairwise (· < ·) ∧ ∀ file, file ∈ files ↔ file ∈ canonicalFiles entries) ∧
    (∀ entries revision, computeStoreRevision entries = .ok revision → ∀ files : List (Bytes × Bytes),
      (files.map Prod.fst).Pairwise (· < ·) → (∀ file, file ∈ files ↔ file ∈ canonicalFiles entries) →
      ∃ acc, files.foldlM (fun acc file => acc.push file.1 file.2) StoreRevisionAccumulator.new = .ok acc ∧
        storeRevisionPreimage entries = .ok acc.fed ∧ acc.finish = revision) ∧
    (∀ entries other fed, storeRevisionPreimage entries = .ok fed → storeRevisionPreimage other = .ok fed →
      (∀ file ∈ canonicalFiles entries, file ∈ framable ×ˢ framable) →
      (∀ file ∈ canonicalFiles other, file ∈ framable ×ˢ framable) →
      ∀ file, file ∈ canonicalFiles entries ↔ file ∈ canonicalFiles other) := by
  refine ⟨fun entries other h => ?_, fun entries extra hextra hnodup hunlisted => ?_, fun entries => ?_,
    fun entries revision h => ?_, fun entries revision h files hsorted hfiles => ?_,
    fun entries other fed => canonicalFiles_of_preimage⟩
  · rw [computeStoreRevision_eq, computeStoreRevision_eq, storeRevisionPreimage_perm h]
  · rw [computeStoreRevision_eq, computeStoreRevision_eq, storeRevisionPreimage_append hextra hnodup hunlisted]
  · rw [computeStoreRevision_error_iff, not_and_or, not_admissible_iff]
  · obtain ⟨fed, hfed, -⟩ := computeStoreRevision_eq_ok.mp h
    obtain ⟨hnodup, -, -⟩ := storeRevisionPreimage_eq_ok.mp hfed
    exact ⟨_, sorted_canonicalFiles (sorted_of_nodup hnodup),
      fun _ => (canonicalFiles_perm (List.perm_insertionSort _ entries)).mem_iff⟩
  · obtain ⟨fed, hfed, rfl⟩ := computeStoreRevision_eq_ok.mp h
    obtain ⟨hnodup, -, rfl⟩ := storeRevisionPreimage_eq_ok.mp hfed
    obtain rfl := eq_canonicalFiles hnodup hsorted hfiles
    obtain ⟨acc, hacc⟩ := foldlM_pushFile .new canonical_of_mem hsorted (by rintro p ⟨⟩)
    have hfed' : acc.fed = _ := fed_foldlM_pushFile hacc
    refine ⟨acc, hacc, hfed.trans (congrArg Except.ok hfed'.symm), ?_⟩
    rw [StoreRevisionAccumulator.finish, hfed']
    rfl

end Preimage

end Wayjournal
