import Wayjournal.Store.DirectoryLaws
import Wayjournal.Store.Transaction

namespace Wayjournal

open Crash Fs FileSystem

/-- The area is what it was or less. -/
def Shrinks (area : Area) (s t : Disk) : Prop := ∃ gs, gs.Sub (s area) ∧ t = s.set area gs

theorem Shrinks.trans {area : Area} {s t u : Disk} (h : Shrinks area s t) (h' : Shrinks area t u) :
    Shrinks area s u := by
  obtain ⟨gs, hgs, rfl⟩ := h
  obtain ⟨hs, hhs, rfl⟩ := h'
  rw [Disk.set_same] at hhs
  exact ⟨hs, hhs.trans hgs, Disk.set_set ..⟩

theorem mem_sorted {l : List Name} {n : Name} : n ∈ l.insertionSort (· ≤ ·) ↔ n ∈ l :=
  (List.perm_insertionSort _ _).mem_iff

theorem nodup_sorted {l : List Name} (h : l.Nodup) : (l.insertionSort (· ≤ ·)).Nodup :=
  (List.perm_insertionSort _ _).nodup_iff.mpr h

variable {crash : Disk → Prop}

/-- What the removal of one entry promises, for entries that are neither too deep
nor too large. -/
def Removes (levels : Nat) (d : Directory) (crash : Disk → Prop) (f : Nat → Name → DiskM Nat) : Prop :=
  ∀ (c : Nat) (n : Name) (s : Disk) (e : Entry), d.child? n s = some e →
    (∀ k e, (s d.area).get? k = some e → d.path ++ [n] <+: k → k.length ≤ d.path.length + levels) →
    c + (s d.area).weight d.path [n] ≤ MAX_LOCAL_ENTRIES + 1 →
    (∀ t, Shrinks d.area s t → crash t) →
    (f c n).wp crash (fun c' t => c' + 1 = c + (s d.area).weight d.path [n] ∧
      ∃ gs, t = s.set d.area gs ∧ (s d.area).Pruned (d.path ++ [n]) gs) (fun _ _ => False) s

/-- The loop over the entries of a directory, which are counted beforehand. -/
theorem wp_removeNames {levels consumed : Nat} {d : Directory} {f : Nat → Name → DiskM Nat} {s : Disk}
    {post : Nat → Disk → Prop} (hf : Removes levels d crash f)
    (hdepth : ∀ k e, (s d.area).get? k = some e → d.path <+: k → k.length ≤ d.path.length + levels)
    (hbudget : consumed + (s d.area).weight d.path (d.names s) ≤ MAX_LOCAL_ENTRIES)
    (hcrash : ∀ t, Shrinks d.area s t → crash t)
    (hpost : ∀ gs, (s d.area).Clearing d.path [] gs →
      post (consumed + (s d.area).weight d.path (d.names s)) (s.set d.area gs)) :
    (((d.names s).insertionSort (· ≤ ·)).foldlM f
      (consumed + ((d.names s).insertionSort (· ≤ ·)).length)).wp crash post (fun _ _ => False) s := by
  have hnodup : (d.names s).Nodup := nodup_names _ _
  refine Program.wp_foldlM (fun r c t => r.Nodup ∧ (∀ n ∈ r, n ∈ d.names s) ∧
      c + (s d.area).weight d.path r = consumed + (s d.area).weight d.path (d.names s) + r.length ∧
      ∃ gs, t = s.set d.area gs ∧ (s d.area).Clearing d.path r gs) ?_ ?_ ?_
  · rintro c n r t ⟨hr, hmem, hc, gs, rfl, hgs⟩
    rw [List.nodup_cons] at hr
    rw [weight_cons hr.1, List.length_cons] at hc
    obtain ⟨e, he⟩ := Directory.mem_names.mp (hmem n List.mem_cons_self)
    have hrest : r.length ≤ (s d.area).weight d.path r :=
      length_le_weight hr.2 (fun m hm => hmem m (List.mem_cons_of_mem _ hm))
    have hchild : d.child? n (s.set d.area gs) = some e := by
      rw [Directory.child?, Disk.set_same, hgs.get?_child]
      exact he
    have hw : (s.set d.area gs d.area).weight d.path [n] = (s d.area).weight d.path [n] := by
      rw [Disk.set_same, hgs.weight_eq]
    refine Program.wp_mono (hf c n _ e hchild ?_ ?_ ?_) (fun _ h => h) ?_ (fun _ _ h => h)
    · intro k e hk hbelow
      rw [Disk.set_same] at hk
      exact hdepth k e (hgs.sub k e hk) ((List.prefix_append _ _).trans hbelow)
    · rw [hw]
      omega
    · exact fun t ht => hcrash t (Shrinks.trans ⟨gs, hgs.sub, rfl⟩ ht)
    · rintro c' t ⟨hc', hs, rfl, hpruned⟩
      rw [hw] at hc'
      rw [Disk.set_same] at hpruned
      exact ⟨hr.2, fun m hm => hmem m (List.mem_cons_of_mem _ hm), by omega, hs, Disk.set_set ..,
        hgs.step hr.1 hpruned⟩
  · refine ⟨nodup_sorted hnodup, fun n hn => mem_sorted.mp hn, ?_, _, (Disk.set_eq_self ..).symm,
      Clearing.start (fun n hn => mem_sorted.mpr hn)⟩
    rw [weight_perm (List.perm_insertionSort (· ≤ ·) (d.names s))]
    omega
  · rintro c t ⟨-, -, hc, gs, rfl, hgs⟩
    rw [weight_nil, List.length_nil, Nat.add_zero, Nat.add_zero] at hc
    rw [hc]
    exact hpost gs hgs

variable [ReadDir]

theorem removeTree_succ (levels : Nat) (parent : Directory) (consumed : Nat) (name : Name) :
    removeTree (levels + 1) parent consumed name = (do
      if (← parent.kind name) ≠ .directory then
        parent.unlinkFile name
        return consumed
      let directory ← parent.openDir name
      let names ← directory.boundedNames (MAX_LOCAL_ENTRIES - consumed)
      let consumed ← names.foldlM (removeTree levels directory) (consumed + names.length)
      parent.unlinkDir name
      return consumed) := by
  rw [removeTree]

theorem removeTree_removes (levels : Nat) (parent : Directory) :
    Removes levels parent crash (removeTree levels parent) := by
  induction levels generalizing parent with
  | zero =>
    intro c name s e he hdepth
    have := hdepth _ _ he (List.prefix_refl _)
    simp at this
  | succ levels ih =>
    intro c name s e he hdepth hbudget hcrash
    rw [removeTree_succ, Program.wp_bind, Directory.wp_kind he]
    have hweight := weight_singleton he
    by_cases hdir : e = .directory
    · subst hdir
      have hchild : (parent.child name).names s = (s parent.area).names (parent.path ++ [name]) := rfl
      have hlength := length_le_weight (nodup_names (s parent.area) (parent.path ++ [name])) (fun _ h => h)
      simp only [FileType.ofEntry, ne_eq, not_true_eq_false, if_false, Program.wp_bind,
        Directory.wp_openDir he]
      rw [Directory.wp_boundedNames (by rw [hchild]; omega)]
      refine wp_removeNames (ih (parent.child name)) ?_ ?_ hcrash ?_
      · intro k e hk hbelow
        have := hdepth k e hk hbelow
        change k.length ≤ (parent.path ++ [name]).length + levels
        rw [List.length_append, List.length_singleton]
        omega
      · change c + (s parent.area).weight (parent.path ++ [name]) _ ≤ _
        rw [hchild]
        omega
      · intro gs hgs
        refine Directory.wp_unlinkDir ?_ ?_ ?_
        · change (s.set parent.area gs parent.area).get? (parent.path ++ [name]) = _
          rw [Disk.set_same]
          exact hgs.here.trans he
        · intro n
          change (s.set parent.area gs parent.area).get? (parent.path ++ [name] ++ [n]) = _
          rw [Disk.set_same]
          exact hgs.leaf n
        · intro hs hsets
          change (s.set parent.area gs parent.area).Sets _ _ _ at hsets
          rw [Disk.set_same] at hsets
          have hpruned : (s parent.area).Pruned (parent.path ++ [name]) hs := hgs.finish hsets
          change crash ((s.set parent.area gs).set parent.area hs) ∧
            (pure _ : DiskM Nat).wp _ _ _ ((s.set parent.area gs).set parent.area hs)
          rw [Disk.set_set, Program.wp_pure]
          refine ⟨hcrash _ ⟨hs, hpruned.sub, rfl⟩, ?_, hs, rfl, hpruned⟩
          change c + (s parent.area).weight (parent.path ++ [name])
            ((s parent.area).names (parent.path ++ [name])) + 1 = _
          omega
    · have hkind : FileType.ofEntry e ≠ .directory := by
        cases e with
        | directory => exact absurd rfl hdir
        | regular bytes => simp [FileType.ofEntry]
        | other => simp [FileType.ofEntry]
      have hleaf : (s parent.area).names (parent.path ++ [name]) = [] := by
        rw [names_eq_nil]
        exact fun n => get?_below_of_ne_directory he hdir (List.prefix_append _ _) (by simp)
      rw [hleaf, weight_nil] at hweight
      rw [if_pos hkind, Program.wp_bind]
      refine Directory.wp_unlinkFile he hdir ?_
      intro gs hsets
      have hpruned := pruned_of_sets he hdir hsets
      rw [Program.wp_pure]
      exact ⟨hcrash _ ⟨gs, hpruned.sub, rfl⟩, by omega, gs, rfl, hpruned⟩

/-- A stages directory that the cleanup can empty. -/
structure Removable (fs : FileSystem Name) : Prop where
  depth : ∀ k e, fs.get? k = some e → k.length ≤ MAX_LOCAL_DEPTH
  size : fs.entries.keys.length ≤ MAX_LOCAL_ENTRIES

theorem wp_cleanUnpreparedStages {s : Disk} {post : Unit → Disk → Prop} (h : Removable (s .stages))
    (hcrash : ∀ t, Shrinks .stages s t → crash t) (hpost : post () (s.set .stages ∅)) :
    cleanUnpreparedStages.wp crash post (fun _ _ => False) s := by
  have hsize := h.size
  have hlength := length_le_weight (nodup_names (s .stages) []) (fun _ h => h)
  have hnames : Store.stagesDir.names s = (s .stages).names [] := rfl
  rw [← weight_root] at hsize
  rw [cleanUnpreparedStages, Program.wp_bind, Directory.wp_boundedNames (by rw [hnames]; omega),
    Program.wp_bind, ← Nat.zero_add (List.length _)]
  refine wp_removeNames (removeTree_removes MAX_LOCAL_DEPTH Store.stagesDir) ?_ ?_ hcrash ?_
  · intro k e hk _
    have := h.depth k e hk
    change k.length ≤ 0 + MAX_LOCAL_DEPTH
    omega
  · rw [Nat.zero_add]
    exact hsize
  · intro gs hgs
    have hempty : gs = ∅ := by
      apply ext_get?
      intro k
      by_cases hk : [] = k
      · rw [← hk]
        simp
      · exact hgs.cleared k List.nil_prefix hk (under_nil _ _)
    rw [Program.wp_pure, hempty]
    exact hpost

end Wayjournal
