import Wayjournal.Collections.BTreeMap

namespace Wayjournal.Fs

open Collections

inductive Entry
  | directory
  | regular (bytes : List UInt8)
  | other
  deriving DecidableEq

inductive Errno
  | noent
  | exist
  | notdir
  | isdir
  | notempty
  deriving DecidableEq

/-- A tree of named entries below a root directory: what stands above an entry is
always a directory. -/
structure FileSystem (ν : Type) [LinearOrder ν] where
  entries : BTreeMap (List ν) Entry
  rootless : entries.get? [] = none
  closed : ∀ d n e, entries.get? (d ++ [n]) = some e → d ≠ [] → entries.get? d = some .directory

namespace FileSystem

variable {ν : Type} [LinearOrder ν]

def get? (fs : FileSystem ν) (p : List ν) : Option Entry := fs.entries.get? p

theorem ext_get? {fs gs : FileSystem ν} (h : ∀ p, fs.get? p = gs.get? p) : fs = gs := by
  obtain ⟨m, _, _⟩ := fs
  obtain ⟨n, _, _⟩ := gs
  have hmn : m = n := BTreeMap.ext_get? h
  subst hmn
  rfl

instance : DecidableEq (FileSystem ν) := fun fs gs =>
  decidable_of_iff (fs.entries = gs.entries) (by
    cases fs
    cases gs
    simp)

def empty : FileSystem ν := ⟨∅, rfl, fun _ _ _ h => by cases h⟩

instance : EmptyCollection (FileSystem ν) := ⟨empty⟩

@[simp] theorem get?_root (fs : FileSystem ν) : fs.get? [] = none := fs.rootless

@[simp] theorem get?_empty (p : List ν) : (∅ : FileSystem ν).get? p = none := rfl

/-- The entries of a directory, the root among them. -/
def isDir (fs : FileSystem ν) (d : List ν) : Prop := d = [] ∨ fs.get? d = some .directory

instance (fs : FileSystem ν) (d : List ν) : Decidable (fs.isDir d) :=
  inferInstanceAs (Decidable (_ ∨ _))

theorem isDir_of_get? {fs : FileSystem ν} {d : List ν} {n : ν} {e : Entry}
    (h : fs.get? (d ++ [n]) = some e) : fs.isDir d := by
  by_cases hd : d = []
  · exact .inl hd
  · exact .inr (fs.closed d n e h hd)

/-- The name of a path directly below a directory. -/
def nameIn (d p : List ν) : Option ν := if p.dropLast = d then p.getLast? else none

theorem nameIn_eq_some {d p : List ν} {n : ν} : nameIn d p = some n ↔ p = d ++ [n] := by
  unfold nameIn
  constructor
  · intro h
    split at h
    · rename_i hd
      rw [← hd]
      exact List.getLast?_eq_some_iff.mp h |>.elim (fun ys hys => by simp [hys])
    · cases h
  · rintro rfl
    simp

def names (fs : FileSystem ν) (d : List ν) : List ν := fs.entries.keys.filterMap (nameIn d)

theorem mem_names {fs : FileSystem ν} {d : List ν} {n : ν} :
    n ∈ fs.names d ↔ ∃ e, fs.get? (d ++ [n]) = some e := by
  unfold names
  simp only [List.mem_filterMap, nameIn_eq_some, exists_eq_right, BTreeMap.mem_keys_iff]
  rfl

theorem nodup_names (fs : FileSystem ν) (d : List ν) : (fs.names d).Nodup := by
  refine List.Nodup.filterMap ?_ fs.entries.keys_nodup
  intro p q n hp hq
  rw [Option.mem_def, nameIn_eq_some] at hp hq
  rw [hp, hq]

theorem names_eq_nil {fs : FileSystem ν} {d : List ν} :
    fs.names d = [] ↔ ∀ n, fs.get? (d ++ [n]) = none := by
  rw [List.eq_nil_iff_forall_not_mem]
  simp only [mem_names, not_exists, Option.eq_none_iff_forall_ne_some]

theorem isDir_root_empty : (∅ : FileSystem ν).isDir [] := .inl rfl

/-- An entry put into a directory, over anything but a directory. -/
def place (fs : FileSystem ν) (d : List ν) (n : ν) (e : Entry) (hd : fs.isDir d)
    (hfree : fs.get? (d ++ [n]) ≠ some .directory) : FileSystem ν where
  entries := fs.entries.insert (d ++ [n]) e
  rootless := by
    rw [BTreeMap.get?_insert, if_neg (by simp)]
    exact fs.rootless
  closed := by
    intro d' m e' h hne
    rw [BTreeMap.get?_insert] at h ⊢
    by_cases hd' : d' = d ++ [n]
    · subst hd'
      rw [if_neg (by simp)] at h
      exact absurd (fs.closed _ _ _ h hne) hfree
    · rw [if_neg hd']
      split at h
      · rename_i heq
        obtain ⟨rfl, -⟩ := List.append_inj' heq rfl
        exact hd.resolve_left hne
      · exact fs.closed d' m e' h hne

/-- An entry with nothing below it taken away. -/
def remove (fs : FileSystem ν) (p : List ν) (hleaf : ∀ n, fs.get? (p ++ [n]) = none) :
    FileSystem ν where
  entries := fs.entries.erase p
  rootless := by
    rw [BTreeMap.get?_erase, fs.rootless, ite_self]
  closed := by
    intro d n e h hne
    rw [BTreeMap.get?_erase] at h ⊢
    split at h
    · cases h
    · by_cases hd : d = p
      · subst hd
        exact absurd h (by rw [show fs.entries.get? (d ++ [n]) = none from hleaf n]; simp)
      · rw [if_neg hd]
        exact fs.closed d n e h hne

theorem leaf_of_ne_directory {fs : FileSystem ν} {d : List ν} {n : ν}
    (h : fs.get? (d ++ [n]) ≠ some .directory) (m : ν) : fs.get? (d ++ [n] ++ [m]) = none := by
  rw [Option.eq_none_iff_forall_ne_some]
  exact fun e he => h (fs.closed _ m e he (by simp))

/-- A new entry, refused when the name is taken. -/
def create (fs : FileSystem ν) (d : List ν) (n : ν) (e : Entry) : Except Errno (FileSystem ν) :=
  if hd : fs.isDir d then
    if hfree : fs.get? (d ++ [n]) = none then .ok (fs.place d n e hd (by simp [hfree]))
    else .error .exist
  else .error .noent

/-- New content for a regular file. -/
def write (fs : FileSystem ν) (d : List ν) (n : ν) (bytes : List UInt8) :
    Except Errno (FileSystem ν) :=
  match h : fs.get? (d ++ [n]) with
  | some (.regular _) => .ok (fs.place d n (.regular bytes) (isDir_of_get? h) (by simp [h]))
  | _ => .error .noent

def unlink (fs : FileSystem ν) (d : List ν) (n : ν) : Except Errno (FileSystem ν) :=
  if fs.get? (d ++ [n]) = none then .error .noent
  else if h : fs.get? (d ++ [n]) = some .directory then .error .isdir
  else .ok (fs.remove (d ++ [n]) (leaf_of_ne_directory h))

def rmdir (fs : FileSystem ν) (d : List ν) (n : ν) : Except Errno (FileSystem ν) :=
  match fs.get? (d ++ [n]) with
  | none => .error .noent
  | some .directory =>
    if h : fs.names (d ++ [n]) = [] then .ok (fs.remove (d ++ [n]) (names_eq_nil.mp h))
    else .error .notempty
  | some _ => .error .notdir

/-- A file moved within its directory, over another file. -/
def rename (fs : FileSystem ν) (d : List ν) (old new : ν) : Except Errno (FileSystem ν) :=
  match h : fs.get? (d ++ [old]) with
  | none => .error .noent
  | some .directory => .error .isdir
  | some e =>
    if hnew : fs.get? (d ++ [new]) = some .directory then .error .isdir
    else if old = new then .ok fs
    else ((fs.place d new e (isDir_of_get? h) hnew).unlink d old)

/-- Every entry of `fs` is one of `gs`. -/
def Sub (fs gs : FileSystem ν) : Prop := ∀ p e, fs.get? p = some e → gs.get? p = some e

theorem Sub.refl (fs : FileSystem ν) : fs.Sub fs := fun _ _ h => h

theorem Sub.trans {fs gs hs : FileSystem ν} (h : fs.Sub gs) (h' : gs.Sub hs) : fs.Sub hs :=
  fun p e hp => h' p e (h p e hp)

/-- `gs` is `fs` with another entry, or none, at one path. -/
structure Sets (fs : FileSystem ν) (p : List ν) (e : Option Entry) (gs : FileSystem ν) : Prop where
  here : gs.get? p = e
  elsewhere : ∀ q, q ≠ p → gs.get? q = fs.get? q

section Results

variable {fs gs : FileSystem ν} {d p : List ν} {n m : ν} {e : Entry}

theorem sets_place (hd : fs.isDir d) (hfree : fs.get? (d ++ [n]) ≠ some .directory) :
    fs.Sets (d ++ [n]) (some e) (fs.place d n e hd hfree) := by
  constructor
  · exact (BTreeMap.get?_insert ..).trans (if_pos rfl)
  · intro q hq
    exact (BTreeMap.get?_insert ..).trans (if_neg hq)

theorem sets_remove (hleaf : ∀ n, fs.get? (p ++ [n]) = none) : fs.Sets p none (fs.remove p hleaf) := by
  constructor
  · exact (BTreeMap.get?_erase ..).trans (if_pos rfl)
  · intro q hq
    exact (BTreeMap.get?_erase ..).trans (if_neg hq)

theorem create_ok (hd : fs.isDir d) (hfree : fs.get? (d ++ [n]) = none) (e : Entry) :
    ∃ gs, fs.create d n e = .ok gs ∧ fs.Sets (d ++ [n]) (some e) gs :=
  ⟨_, by rw [create, dif_pos hd, dif_pos hfree], sets_place hd _⟩

theorem unlink_ok (he : fs.get? (d ++ [n]) = some e) (hne : e ≠ .directory) :
    ∃ gs, fs.unlink d n = .ok gs ∧ fs.Sets (d ++ [n]) none gs := by
  have hdir : fs.get? (d ++ [n]) ≠ some .directory := by
    rw [he]
    exact fun h => hne (Option.some.inj h)
  exact ⟨_, by rw [unlink, if_neg (by simp [he]), dif_neg hdir], sets_remove _⟩

theorem rmdir_ok (he : fs.get? (d ++ [n]) = some .directory)
    (hleaf : ∀ m, fs.get? (d ++ [n] ++ [m]) = none) :
    ∃ gs, fs.rmdir d n = .ok gs ∧ fs.Sets (d ++ [n]) none gs := by
  refine ⟨_, ?_, sets_remove hleaf⟩
  rw [rmdir, he]
  exact dif_pos (names_eq_nil.mpr hleaf)

theorem write_ok {old : List UInt8} (he : fs.get? (d ++ [n]) = some (.regular old))
    (bytes : List UInt8) :
    ∃ gs, fs.write d n bytes = .ok gs ∧ fs.Sets (d ++ [n]) (some (.regular bytes)) gs := by
  unfold write
  split
  · exact ⟨_, rfl, sets_place _ _⟩
  · rename_i h
    exact absurd he (h old)

theorem sets_of_create (h : fs.create d n e = .ok gs) :
    fs.isDir d ∧ fs.get? (d ++ [n]) = none ∧ fs.Sets (d ++ [n]) (some e) gs := by
  unfold create at h
  split at h
  · rename_i hd
    split at h
    · rename_i hfree
      cases h
      exact ⟨hd, hfree, sets_place hd _⟩
    · cases h
  · cases h

theorem sets_of_write {bytes : List UInt8} (h : fs.write d n bytes = .ok gs) :
    (∃ old, fs.get? (d ++ [n]) = some (.regular old)) ∧ fs.Sets (d ++ [n]) (some (.regular bytes)) gs := by
  unfold write at h
  split at h
  · rename_i old hold
    cases h
    exact ⟨⟨old, hold⟩, sets_place _ _⟩
  · cases h

theorem sets_of_unlink (h : fs.unlink d n = .ok gs) : fs.Sets (d ++ [n]) none gs := by
  unfold unlink at h
  split at h
  · cases h
  · split at h
    · cases h
    · cases h
      exact sets_remove _

theorem sets_of_rmdir (h : fs.rmdir d n = .ok gs) : fs.Sets (d ++ [n]) none gs := by
  unfold rmdir at h
  split at h
  · cases h
  · split at h
    · cases h
      exact sets_remove _
    · cases h
  · cases h

end Results

/-- Exactly these entries. -/
def Holds (fs : FileSystem ν) (l : List (List ν × Entry)) : Prop := ∀ p e, fs.get? p = some e ↔ (p, e) ∈ l

namespace Holds

variable {fs gs : FileSystem ν} {l : List (List ν × Entry)} {p : List ν} {e e' : Entry}

theorem empty : (∅ : FileSystem ν).Holds [] := by
  intro p e
  simp

theorem get?_eq_none (h : fs.Holds l) (hp : p ∉ l.map Prod.fst) : fs.get? p = none := by
  rw [Option.eq_none_iff_forall_ne_some]
  intro e he
  exact hp (List.mem_map.mpr ⟨_, (h p e).mp he, rfl⟩)

theorem mem_keys (h : fs.Holds l) (he : fs.get? p = some e) : p ∈ l.map Prod.fst :=
  List.mem_map.mpr ⟨_, (h p e).mp he, rfl⟩

theorem add (h : fs.Holds l) (hp : p ∉ l.map Prod.fst) (hsets : fs.Sets p (some e) gs) :
    gs.Holds (l ++ [(p, e)]) := by
  intro q f
  rw [List.mem_append, List.mem_singleton, Prod.mk.injEq]
  by_cases hq : q = p
  · subst hq
    rw [hsets.here, Option.some.injEq]
    constructor
    · exact fun hf => .inr ⟨rfl, hf.symm⟩
    · rintro (hmem | ⟨-, rfl⟩)
      · exact absurd (List.mem_map.mpr ⟨_, hmem, rfl⟩) hp
      · rfl
  · rw [hsets.elsewhere q hq, h q f]
    exact ⟨.inl, fun hor => hor.resolve_right (fun hf => hq hf.1)⟩

theorem replace (h : fs.Holds (l ++ [(p, e)])) (hp : p ∉ l.map Prod.fst)
    (hsets : fs.Sets p (some e') gs) : gs.Holds (l ++ [(p, e')]) := by
  intro q f
  rw [List.mem_append, List.mem_singleton, Prod.mk.injEq]
  by_cases hq : q = p
  · subst hq
    rw [hsets.here, Option.some.injEq]
    constructor
    · exact fun hf => .inr ⟨rfl, hf.symm⟩
    · rintro (hmem | ⟨-, rfl⟩)
      · exact absurd (List.mem_map.mpr ⟨_, hmem, rfl⟩) hp
      · rfl
  · rw [hsets.elsewhere q hq, h q f, List.mem_append, List.mem_singleton, Prod.mk.injEq]
    exact or_congr_right ⟨fun hf => absurd hf.1 hq, fun hf => absurd hf.1 hq⟩

end Holds

end FileSystem

end Wayjournal.Fs
