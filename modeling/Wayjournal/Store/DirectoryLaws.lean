import Wayjournal.Crash.ReadOnly
import Wayjournal.Fs.Subtree
import Wayjournal.Store.Directory

namespace Wayjournal.Directory

open Crash Fs

variable {d : Directory} {name : Name} {s : Disk} {e : Entry} {crash : Disk → Prop}
variable {fail : StoreError → Disk → Prop}

theorem readOnly_kind : (d.kind name).ReadOnly := .reads _

theorem readOnly_openDir : (d.openDir name).ReadOnly := .reads _

theorem readOnly_openFile : (d.openFile name).ReadOnly := .reads _

theorem readOnly_boundedNames [ReadDir] {limit : Nat} : (d.boundedNames limit).ReadOnly := .reads _

theorem wp_kind {post : FileType → Disk → Prop} (he : d.child? name s = some e) :
    (d.kind name).wp crash post fail s ↔ post (.ofEntry e) s := by
  rw [kind, Program.wp_reads, he]

theorem wp_openDir {post : Directory → Disk → Prop} (he : d.child? name s = some .directory) :
    (d.openDir name).wp crash post fail s ↔ post (d.child name) s := by
  rw [openDir, Program.wp_reads, he]

theorem wp_openFile {post : Bytes → Disk → Prop} {bytes : Bytes}
    (he : d.child? name s = some (.regular bytes)) :
    (d.openFile name).wp crash post fail s ↔ post bytes s := by
  rw [openFile, Program.wp_reads, he]

theorem wp_change {post : Unit → Disk → Prop} {operation : String} {fs : FileSystem Name}
    {f : FileSystem Name → Except Errno (FileSystem Name)} (h : f (s d.area) = .ok fs) :
    (d.change operation name f).wp crash post fail s ↔
      crash (s.set d.area fs) ∧ post () (s.set d.area fs) := by
  rw [change, Program.wp_update, h]

/-- A change from any state. -/
theorem wp_change_any {post : Unit → Disk → Prop} {operation : String}
    {f : FileSystem Name → Except Errno (FileSystem Name)}
    (h : ∀ fs, f (s d.area) = .ok fs → crash (s.set d.area fs) ∧ post () (s.set d.area fs))
    (hfail : ∀ e, fail e s) : (d.change operation name f).wp crash post fail s := by
  rw [change, Program.wp_update]
  cases hf : f (s d.area) with
  | error errno => exact hfail _
  | ok fs => exact h fs hf

theorem child_of_openDir {s : Disk} {directory : Directory} (h : (d.openDir name).result s = .ok directory) :
    directory = d.child name := by
  rw [openDir, Program.result_reads] at h
  split at h
  · cases h
  · cases h
    rfl
  · cases h

theorem child_of_ensureDir {s : Disk} {r : Directory × Bool} (h : (d.ensureDir name).result s = .ok r) :
    r.1 = d.child name := by
  have hwp : (d.ensureDir name).wp (fun _ => True) (fun r _ => r.1 = d.child name) (fun _ _ => True) s := by
    rw [ensureDir, Program.wp_bind, Program.wp_reads]
    dsimp only
    split
    · rw [Program.wp_bind]
      refine wp_change_any (fun fs hfs => ⟨trivial, ?_⟩) fun _ => trivial
      rw [Program.wp_bind, openDir, Program.wp_reads]
      split
      · rename_i directory hdirectory
        exact Program.wp_pure.mpr (child_of_openDir hdirectory)
      · trivial
    · split
      · exact Program.wp_bind.mpr (Program.wp_throw.mpr trivial)
      · rw [Program.wp_bind, openDir, Program.wp_reads]
        split
        · rename_i directory hdirectory
          exact Program.wp_pure.mpr (child_of_openDir hdirectory)
        · trivial
  have hpost := hwp.2
  rw [h] at hpost
  exact hpost

/-- The area after one entry was set. -/
def Sets (d : Directory) (name : Name) (e : Option Entry) (s : Disk) (fs : FileSystem Name) : Prop :=
  (s d.area).Sets (d.path ++ [name]) e fs

theorem wp_unlinkFile {post : Unit → Disk → Prop} (he : d.child? name s = some e)
    (hne : e ≠ .directory)
    (h : ∀ fs, Sets d name none s fs → crash (s.set d.area fs) ∧ post () (s.set d.area fs)) :
    (d.unlinkFile name).wp crash post fail s := by
  obtain ⟨fs, hfs, hget⟩ := FileSystem.unlink_ok he hne
  exact (wp_change hfs).mpr (h fs hget)

theorem wp_unlinkDir {post : Unit → Disk → Prop} (he : d.child? name s = some .directory)
    (hleaf : ∀ n, (s d.area).get? (d.path ++ [name] ++ [n]) = none)
    (h : ∀ fs, Sets d name none s fs → crash (s.set d.area fs) ∧ post () (s.set d.area fs)) :
    (d.unlinkDir name).wp crash post fail s := by
  obtain ⟨fs, hfs, hget⟩ := FileSystem.rmdir_ok he hleaf
  exact (wp_change hfs).mpr (h fs hget)

theorem wp_createFile {post : Unit → Disk → Prop} (hd : (s d.area).isDir d.path)
    (he : d.child? name s = none)
    (h : ∀ fs, Sets d name (some (.regular [])) s fs →
      crash (s.set d.area fs) ∧ post () (s.set d.area fs)) :
    (d.createFile name).wp crash post fail s := by
  obtain ⟨fs, hfs, hget⟩ := FileSystem.create_ok hd he _
  exact (wp_change hfs).mpr (h fs hget)

theorem wp_writeAll {post : Unit → Disk → Prop} {old bytes : Bytes}
    (he : d.child? name s = some (.regular old))
    (h : ∀ fs, Sets d name (some (.regular bytes)) s fs →
      crash (s.set d.area fs) ∧ post () (s.set d.area fs)) :
    (d.writeAll name bytes).wp crash post fail s := by
  obtain ⟨fs, hfs, hget⟩ := FileSystem.write_ok he bytes
  exact (wp_change hfs).mpr (h fs hget)

theorem wp_ensureDir_new {post : Directory × Bool → Disk → Prop} (hd : (s d.area).isDir d.path)
    (he : d.child? name s = none)
    (h : ∀ fs, Sets d name (some .directory) s fs →
      crash (s.set d.area fs) ∧ post (d.child name, true) (s.set d.area fs)) :
    (d.ensureDir name).wp crash post fail s := by
  obtain ⟨fs, hfs, hget⟩ := FileSystem.create_ok hd he _
  obtain ⟨hcrash, hpost⟩ := h fs hget
  rw [ensureDir, Program.wp_bind, Program.wp_reads]
  simp only [he, Program.wp_bind, mkdir]
  refine (wp_change hfs).mpr ⟨hcrash, ?_⟩
  rw [wp_openDir (by rw [Directory.child?, Disk.set_same, hget.here]), Program.wp_pure]
  exact hpost

theorem wp_ensureDir_old {post : Directory × Bool → Disk → Prop}
    (he : d.child? name s = some .directory) :
    (d.ensureDir name).wp crash post fail s ↔ post (d.child name, false) s := by
  rw [ensureDir, Program.wp_bind, Program.wp_reads]
  simp only [he, FileType.ofEntry, ne_eq, not_true_eq_false, if_false, Program.wp_bind,
    Program.wp_pure, wp_openDir he]

section

variable [ReadDir]

theorem insertionSort_order (path names : List Name) :
    (ReadDir.order path names).insertionSort (· ≤ ·) = names.insertionSort (· ≤ ·) := by
  have hperm := ((List.perm_insertionSort (· ≤ ·) _).trans (ReadDir.perm path names)).trans
    (List.perm_insertionSort (· ≤ ·) names).symm
  exact hperm.eq_of_pairwise (fun a b _ _ => le_antisymm) (List.pairwise_insertionSort _ _)
    (List.pairwise_insertionSort _ _)

theorem mem_of_boundedNames {limit : Nat} {names : List Name} (h : (d.boundedNames limit).result s = .ok names)
    {n : Name} : n ∈ names ↔ n ∈ d.names s := by
  rw [boundedNames, Program.result_reads] at h
  split at h
  · cases h
  · cases h
    exact (List.perm_insertionSort _ _).mem_iff.trans (ReadDir.perm _ _).mem_iff

theorem wp_boundedNames {post : List Name → Disk → Prop} {limit : Nat}
    (h : (d.names s).length ≤ limit) :
    (d.boundedNames limit).wp crash post fail s ↔ post ((d.names s).insertionSort (· ≤ ·)) s := by
  rw [boundedNames, Program.wp_reads, (ReadDir.perm _ _).length_eq, if_neg (by omega), insertionSort_order]

end

theorem mem_names {n : Name} : n ∈ d.names s ↔ ∃ e, d.child? n s = some e := FileSystem.mem_names

end Wayjournal.Directory
