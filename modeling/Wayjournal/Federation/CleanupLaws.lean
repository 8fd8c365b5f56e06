import Wayjournal.Crash.Guarantee
import Wayjournal.Federation.PendingLaws
import Wayjournal.Fs.Subtree
import Wayjournal.Store.CrashAtomic
import Wayjournal.Store.RemovalLaws

namespace Wayjournal

open Crash Fs FileSystem

section Entries

variable {crash : Disk → Prop} {d : Directory} {s : Disk} {descend : Directory → Nat → DiskM Nat}

/-- A directory emptied from a budget, or a budget that did not suffice. -/
def Empties (d : Directory) (levels : Nat) (run : Nat → DiskM Nat) : Prop :=
  ∀ (budget : Nat) (s : Disk), (s d.area).Nested d.path levels →
    (run budget).wp (fun _ => True) (fun left t => left + (s d.area).weight d.path (d.names s) = budget ∧ 0 < left ∧
        ∃ gs, t = s.set d.area gs ∧ (s d.area).Clearing d.path [] gs)
      (fun _ _ => budget ≤ (s d.area).weight d.path (d.names s)) s

theorem wp_removeEntry {levels budget : Nat} {name : Name} {e : Entry}
    (hdescend : ∀ level, levels = level + 1 → Empties (d.child name) level (descend (d.child name))) (he : d.child? name s = some e)
    (hnested : (s d.area).Nested d.path levels) :
    (removeEntry descend d budget name).wp (fun _ => True)
      (fun left t => left + (s d.area).weight d.path [name] = budget ∧
        ∃ gs, t = s.set d.area gs ∧ (s d.area).Pruned (d.path ++ [name]) gs)
      (fun _ _ => budget ≤ (s d.area).weight d.path [name]) s := by
  have hweight := weight_singleton he
  refine Program.wp_guard.mpr ⟨fun hzero => by omega, fun hpositive => ?_⟩
  rw [Program.wp_bind, Directory.wp_kind he]
  by_cases hdir : e = .directory
  · subst hdir
    have hlength := hnested _ he (List.prefix_append _ _)
    rw [List.length_append, List.length_singleton] at hlength
    obtain ⟨level, rfl⟩ : ∃ level, levels = level + 1 := ⟨levels - 1, by omega⟩
    have hbelow : (s (d.child name).area).Nested (d.child name).path level := by
      intro k hk hbelow
      have := hnested k hk ((List.prefix_append _ _).trans hbelow)
      change k.length ≤ (d.path ++ [name]).length + level
      rw [List.length_append, List.length_singleton]
      omega
    rw [if_pos (show FileType.ofEntry .directory = .directory from rfl), Program.wp_bind, Directory.wp_openDir he,
      Program.wp_bind]
    refine Program.wp_mono (hdescend level rfl (budget - 1) s hbelow) (fun _ h => h) ?_ ?_
    · rintro left t ⟨hleft, hpos, gs, rfl, hgs⟩
      have hhere : d.child? name (s.set (d.child name).area gs) = some .directory := by
        change (s.set d.area gs d.area).get? (d.path ++ [name]) = _
        rw [Disk.set_same]
        exact hgs.here.trans he
      rw [Program.wp_bind, Directory.entryIs, Program.wp_reads, hhere]
      simp only [decide_true, Bool.and_self, Bool.not_true, Bool.false_eq_true, if_false, Program.wp_bind]
      refine Directory.wp_unlinkDir hhere ?_ ?_
      · intro n
        change (s.set d.area gs d.area).get? (d.path ++ [name] ++ [n]) = _
        rw [Disk.set_same]
        exact hgs.leaf n
      · intro hs hsets
        change (s.set d.area gs d.area).Sets _ _ _ at hsets
        rw [Disk.set_same] at hsets
        change True ∧ (pure left : DiskM Nat).wp _ _ _ ((s.set d.area gs).set d.area hs)
        rw [Disk.set_set, Program.wp_pure]
        refine ⟨trivial, ?_, hs, rfl, hgs.finish hsets⟩
        change left + (s d.area).weight (d.path ++ [name]) ((s d.area).names (d.path ++ [name])) = _ at hleft
        omega
    · intro _ t hfail
      change budget - 1 ≤ (s d.area).weight (d.path ++ [name]) ((s d.area).names (d.path ++ [name])) at hfail
      omega
  · have hkind : FileType.ofEntry e ≠ .directory := by
      cases e with
      | directory => exact absurd rfl hdir
      | regular bytes => exact fun h => by cases h
      | other => exact fun h => by cases h
    have hleaf : (s d.area).names (d.path ++ [name]) = [] :=
      names_eq_nil.mpr fun n => get?_below_of_ne_directory he hdir (List.prefix_append _ _) (by simp)
    rw [hleaf, weight_nil] at hweight
    rw [if_neg hkind, Program.wp_bind]
    refine Directory.wp_unlinkFile he hdir fun gs hsets => ⟨trivial, Program.wp_pure.mpr ⟨by omega, gs, rfl, ?_⟩⟩
    exact pruned_of_sets he hdir hsets

/-- The entries of a batch, one after the other, with the others still there. -/
theorem wp_removeBatch {levels budget : Nat} {batch others : List Name}
    (hdescend : ∀ name level, levels = level + 1 → Empties (d.child name) level (descend (d.child name)))
    (hnested : (s d.area).Nested d.path levels) (hnames : (batch ++ others).Perm (d.names s)) :
    (batch.foldlM (removeEntry descend d) budget).wp (fun _ => True)
      (fun left t => left + (s d.area).weight d.path batch = budget ∧
        ∃ gs, t = s.set d.area gs ∧ (s d.area).Clearing d.path others gs)
      (fun _ _ => budget ≤ (s d.area).weight d.path (d.names s)) s := by
  have hnodup : (batch ++ others).Nodup := hnames.nodup_iff.mpr (nodup_names _ _)
  have htotal : (s d.area).weight d.path (batch ++ others) = (s d.area).weight d.path (d.names s) := weight_perm hnames
  refine Program.wp_foldlM (fun rest left t => (rest ++ others).Nodup ∧ (∀ n ∈ rest ++ others, n ∈ d.names s) ∧
    left + (s d.area).weight d.path (batch ++ others) = budget + (s d.area).weight d.path (rest ++ others) ∧
    ∃ gs, t = s.set d.area gs ∧ (s d.area).Clearing d.path (rest ++ others) gs) ?_ ?_ ?_
  · rintro left name rest t ⟨hrest, hmem, hleft, gs, rfl, hgs⟩
    rw [List.cons_append] at hrest hmem hleft hgs
    obtain ⟨hnotin, htail⟩ := List.nodup_cons.mp hrest
    rw [weight_cons hnotin] at hleft
    obtain ⟨e, he⟩ := Directory.mem_names.mp (hmem name List.mem_cons_self)
    have hchild : d.child? name (s.set d.area gs) = some e := by
      rw [Directory.child?, Disk.set_same, hgs.get?_child]
      exact he
    have hweight : (s.set d.area gs d.area).weight d.path [name] = (s d.area).weight d.path [name] := by
      rw [Disk.set_same, hgs.weight_eq]
    have hnested' : (s.set d.area gs d.area).Nested d.path levels := by
      rw [Disk.set_same]
      exact hnested.sub hgs.sub
    refine Program.wp_mono (wp_removeEntry (hdescend name) hchild hnested') (fun _ h => h) ?_ ?_
    · rintro left' t ⟨hleft', hs, rfl, hpruned⟩
      rw [Disk.set_same] at hpruned
      rw [hweight] at hleft'
      exact ⟨htail, fun n hn => hmem n (List.mem_cons_of_mem _ hn), by omega, hs, Disk.set_set .., hgs.step hnotin hpruned⟩
    · intro _ t hfail
      rw [hweight] at hfail
      omega
  · exact ⟨hnodup, fun n hn => hnames.mem_iff.mp hn, rfl, _, (Disk.set_eq_self ..).symm,
      Clearing.start fun n hn => hnames.mem_iff.mpr hn⟩
  · rintro left t ⟨-, -, hleft, gs, rfl, hgs⟩
    rw [List.nil_append] at hleft hgs
    have hsplit : (s d.area).weight d.path (batch ++ others) =
        (s d.area).weight d.path batch + (s d.area).weight d.path others := weight_append hnodup
    exact ⟨by omega, gs, rfl, hgs⟩

variable [ReadDir]

/-- The loop over batches, with enough rounds. -/
theorem wp_removeBatches {levels : Nat} {rounds budget : Nat} (hrounds : budget < rounds)
    (hdescend : ∀ name level, levels = level + 1 → Empties (d.child name) level (descend (d.child name)))
    (hnested : (s d.area).Nested d.path levels) :
    (removeBatches descend d rounds budget).wp (fun _ => True)
      (fun left t => left + (s d.area).weight d.path (d.names s) = budget ∧ 0 < left ∧
        ∃ gs, t = s.set d.area gs ∧ (s d.area).Clearing d.path [] gs)
      (fun _ _ => budget ≤ (s d.area).weight d.path (d.names s)) s := by
  induction rounds generalizing budget s with
  | zero => exact absurd hrounds (Nat.not_lt_zero _)
  | succ rounds ih =>
    rw [removeBatches]
    refine Program.wp_guard.mpr ⟨fun hzero => ?_, fun hpositive => ?_⟩
    · have hbatch : CLEANUP_BATCH = 4096 := rfl
      omega
    · have hlimit : 0 < min budget CLEANUP_BATCH := Nat.pos_of_ne_zero hpositive
      have hbudget : 0 < budget := hlimit.trans_le (Nat.min_le_left _ _)
      rw [Program.wp_bind, Directory.nameBatch, Program.wp_reads]
      dsimp only
      have hperm := ReadDir.perm d.path (d.names s)
      by_cases hempty : d.names s = []
      · have hnone : ((ReadDir.order d.path (d.names s)).take (min budget CLEANUP_BATCH)).insertionSort (· ≤ ·) = [] := by
          rw [hempty] at hperm ⊢
          rw [List.perm_nil.mp hperm, List.take_nil]
          rfl
        rw [hnone, if_pos List.isEmpty_nil, Program.wp_pure, hempty, weight_nil]
        refine ⟨rfl, hbudget, _, (Disk.set_eq_self ..).symm, Clearing.start fun n hn => ?_⟩
        have hn : n ∈ d.names s := hn
        rwa [hempty] at hn
      · have hsplit : ((((ReadDir.order d.path (d.names s)).take (min budget CLEANUP_BATCH)).insertionSort (· ≤ ·)) ++
            (ReadDir.order d.path (d.names s)).drop (min budget CLEANUP_BATCH)).Perm (d.names s) := by
          refine ((List.perm_insertionSort _ _).append_right _).trans ?_
          rw [List.take_append_drop]
          exact hperm
        have hsome : 0 < (((ReadDir.order d.path (d.names s)).take (min budget CLEANUP_BATCH)).insertionSort
            (· ≤ ·)).length := by
          rw [List.length_insertionSort, List.length_take, hperm.length_eq]
          exact lt_min hlimit (List.length_pos_of_ne_nil hempty)
        generalize ((ReadDir.order d.path (d.names s)).take (min budget CLEANUP_BATCH)).insertionSort (· ≤ ·) = batch
          at hsplit hsome ⊢
        generalize (ReadDir.order d.path (d.names s)).drop (min budget CLEANUP_BATCH) = others at hsplit
        have hnodup : (batch ++ others).Nodup := hsplit.nodup_iff.mpr (nodup_names _ _)
        have hmem : ∀ n ∈ batch ++ others, n ∈ d.names s := fun n hn => hsplit.mem_iff.mp hn
        have hweight : (s d.area).weight d.path (d.names s) =
            (s d.area).weight d.path batch + (s d.area).weight d.path others :=
          (weight_perm hsplit).symm.trans (weight_append hnodup)
        have hbatch : batch.length ≤ (s d.area).weight d.path batch :=
          length_le_weight hnodup.of_append_left fun n hn => hmem n (List.mem_append_left _ hn)
        rw [if_neg (by simpa using List.ne_nil_of_length_pos hsome), Program.wp_bind]
        refine Program.wp_mono (wp_removeBatch hdescend hnested hsplit) (fun _ h => h) ?_ (fun _ _ h => h)
        rintro left t ⟨hleft, gs, rfl, hgs⟩
        have hnested' : (s.set d.area gs d.area).Nested d.path levels := by
          rw [Disk.set_same]
          exact hnested.sub hgs.sub
        have hothers := hgs.perm_names (List.nodup_append.mp hnodup).2.1 fun n hn => hmem n (List.mem_append_right _ hn)
        have hrest : (s.set d.area gs d.area).weight d.path (d.names (s.set d.area gs)) =
            (s d.area).weight d.path others := by
          rw [Directory.names, Disk.set_same, weight_perm hothers]
          exact weight_congr hgs.kept
        refine Program.wp_mono (ih (by omega) hnested') (fun _ h => h) ?_ ?_
        · rintro left' t ⟨hleft', hpos, hs, rfl, hclear⟩
          rw [Disk.set_same] at hclear
          exact ⟨by omega, hpos, hs, Disk.set_set .., hgs.andThen hclear⟩
        · intro _ t hfail
          omega

theorem empties_removeContents (levels : Nat) (d : Directory) : Empties d levels (removeContents (levels + 1) d) := by
  induction levels generalizing d with
  | zero => exact fun budget s hnested => wp_removeBatches (Nat.lt_succ_self _) (fun _ _ h => absurd h.symm (Nat.succ_ne_zero _)) hnested
  | succ levels ih =>
    refine fun budget s hnested => wp_removeBatches (Nat.lt_succ_self _) ?_ hnested
    rintro name level ⟨⟩
    exact ih (d.child name)

end Entries

section Rounds

variable {descend : Directory → Nat → DiskM Nat} {d : Directory} {s : Disk}

/-- A cleanup that gives back at most what it was given. -/
def Spends (run : Nat → DiskM Nat) : Prop :=
  ∀ budget s, (run budget).wp (fun _ => True) (fun left _ => left ≤ budget) (fun _ _ => True) s

theorem spends_removeEntry (h : ∀ name, Spends (descend (d.child name))) (budget : Nat) (name : Name) :
    (removeEntry descend d budget name).wp (fun _ => True) (fun left _ => left < budget) (fun _ _ => True) s := by
  refine Program.wp_guard.mpr ⟨fun _ => trivial, fun hpositive => ?_⟩
  rw [Program.wp_bind, Directory.readOnly_kind.wp]
  split
  · split
    · rw [Program.wp_bind, Directory.readOnly_openDir.wp]
      split
      · rename_i child hchild
        obtain rfl := Directory.child_of_openDir hchild
        rw [Program.wp_bind]
        refine Program.wp_mono (h name _ s) (fun _ h => h) (fun left t hleft => ?_) (fun _ _ h => h)
        rw [Program.wp_bind, Directory.entryIs, Program.wp_reads]
        split
        · refine Program.wp_guard.mpr ⟨fun _ => trivial, fun _ => ?_⟩
          exact Program.wp_last fun _ _ => Program.wp_pure.mpr (by omega)
        · trivial
      · trivial
    · exact Program.wp_last fun _ _ => Program.wp_pure.mpr (by omega)
  · trivial

theorem spends_batch (h : ∀ name, Spends (descend (d.child name))) (batch : List Name) (budget : Nat) :
    (batch.foldlM (removeEntry descend d) budget).wp (fun _ => True) (fun left _ => left + batch.length ≤ budget)
      (fun _ _ => True) s := by
  refine Program.wp_foldlM (fun rest left _ => left + batch.length ≤ budget + rest.length) ?_ le_rfl fun _ _ h => h
  intro left name rest t hleft
  rw [List.length_cons] at hleft
  refine Program.wp_mono (spends_removeEntry h left name) (fun _ h => h) (fun left' _ hless => ?_) (fun _ _ h => h)
  omega

theorem bind_congr_result {σ ε α β : Type} {p : Program σ ε α} {f g : α → Program σ ε β}
    (h : ∀ s a, p.result s = .ok a → f a = g a) : p >>= f = p >>= g := by
  funext s
  change Program.bind p f s = Program.bind p g s
  cases hr : p.result s with
  | error e => rw [Program.bind_apply_error hr, Program.bind_apply_error hr]
  | ok a => rw [Program.bind_apply_ok hr, Program.bind_apply_ok hr, h s a hr]

variable [ReadDir]

theorem spends_removeBatches (h : ∀ name, Spends (descend (d.child name))) (rounds : Nat) :
    Spends (removeBatches descend d rounds) := by
  induction rounds with
  | zero => exact fun _ _ => Program.wp_throw.mpr trivial
  | succ rounds ih =>
    intro budget s
    refine Program.wp_guard.mpr ⟨fun _ => trivial, fun _ => ?_⟩
    rw [Program.wp_bind, Directory.nameBatch, Program.wp_reads]
    dsimp only
    split
    · exact Program.wp_pure.mpr le_rfl
    · rw [Program.wp_bind]
      refine Program.wp_mono (spends_batch h _ _) (fun _ h => h) (fun left t hleft => ?_) (fun _ _ h => h)
      exact Program.wp_mono (ih left t) (fun _ h => h) (fun left' _ hless => by omega) (fun _ _ h => h)

theorem spends_removeContents (levels : Nat) (d : Directory) : Spends (removeContents levels d) := by
  induction levels generalizing d with
  | zero => exact fun _ _ => Program.wp_throw.mpr trivial
  | succ levels ih => exact fun budget s => spends_removeBatches (fun name => ih (d.child name)) _ budget s

/-- More rounds than the budget allows make no difference. -/
theorem removeBatches_rounds (h : ∀ name, Spends (descend (d.child name))) {rounds budget : Nat} (hrounds : budget < rounds)
    (extra : Nat) : removeBatches descend d (rounds + extra) budget = removeBatches descend d rounds budget := by
  induction rounds generalizing budget with
  | zero => exact absurd hrounds (Nat.not_lt_zero _)
  | succ rounds ih =>
    rw [Nat.add_right_comm, removeBatches, removeBatches]
    split
    · rfl
    · refine bind_congr_result fun s batch hbatch => ?_
      split
      · rfl
      · rename_i hsome
        refine bind_congr_result fun t left hleft => ih ?_
        have hless := Program.post_of_wp (spends_batch h batch budget) hleft
        have hpos := List.length_pos_of_ne_nil (by simpa using hsome : batch ≠ [])
        omega

/-- `remove_contents` with some more rounds in every directory. -/
def removeContentsFor (extra : Nat) : Nat → Directory → Nat → DiskM Nat
  | 0, _, _ => throw (.invalidGitSyncState "disposable pending residue exceeds cleanup depth")
  | levels + 1, directory, budget => removeBatches (removeContentsFor extra levels) directory (budget + 1 + extra) budget

theorem removeContentsFor_eq (extra levels : Nat) : removeContentsFor extra levels = removeContents levels := by
  induction levels with
  | zero => rfl
  | succ levels ih =>
    funext d budget
    rw [removeContentsFor, removeContents, ih]
    exact removeBatches_rounds (fun name => spends_removeContents levels (d.child name)) (Nat.lt_succ_self _) extra

end Rounds

section Frame

variable {descend : Directory → Nat → DiskM Nat} {d : Directory}

/-- Only what stands below the directory may change. -/
def onlyBelow (d : Directory) : Guarantee Disk where
  rel s t := ∀ area k, ¬ (area = d.area ∧ d.path <+: k ∧ d.path ≠ k) → (t area).get? k = (s area).get? k
  refl _ _ _ _ := rfl
  trans h h' area k hk := (h' area k hk).trans (h area k hk)

theorem onlyBelow_child {name : Name} {s t : Disk} (h : (onlyBelow (d.child name)).rel s t) : (onlyBelow d).rel s t := by
  intro area k hk
  refine h area k fun hbelow => hk ⟨hbelow.1, (List.prefix_append _ _).trans hbelow.2.1, ?_⟩
  rintro rfl
  have hlength := hbelow.2.1.length_le
  change (d.path ++ [name]).length ≤ d.path.length at hlength
  rw [List.length_append, List.length_singleton] at hlength
  omega

theorem keeps_onlyBelow_change {operation : String} {name : Name} {f : FileSystem Name → Except Errno (FileSystem Name)}
    (h : ∀ fs gs, f fs = .ok gs → fs.Sets (d.path ++ [name]) none gs) : (d.change operation name f).Keeps (onlyBelow d) := by
  refine .update fun s t ht area k hk => ?_
  split at ht
  · cases ht
  · rename_i fs hfs
    cases ht
    by_cases harea : area = d.area
    · subst harea
      rw [Disk.set_same]
      refine (h _ _ hfs).elsewhere k fun heq => hk ⟨rfl, ?_⟩
      rw [heq]
      exact ⟨List.prefix_append _ _, by simp⟩
    · rw [Disk.set_of_ne _ harea]

theorem keeps_onlyBelow_removeEntry (h : ∀ name budget, (descend (d.child name) budget).Keeps (onlyBelow (d.child name)))
    (budget : Nat) (name : Name) : (removeEntry descend d budget name).Keeps (onlyBelow d) := by
  refine .guard (.bind (.readOnly Directory.readOnly_kind) fun kind => .ite ?_ ?_)
  · refine .bindOf (.readOnly Directory.readOnly_openDir) fun s child hchild => ?_
    obtain rfl := Directory.child_of_openDir hchild
    refine .bind ((h name _).mono fun _ _ => onlyBelow_child) fun _ => .bind (.reads _) fun same => .guard ?_
    exact .bind (keeps_onlyBelow_change fun _ _ => sets_of_rmdir) fun _ => .pure _
  · exact .bind (keeps_onlyBelow_change fun _ _ => sets_of_unlink) fun _ => .pure _

variable [ReadDir]

theorem keeps_onlyBelow_removeBatches
    (h : ∀ name budget, (descend (d.child name) budget).Keeps (onlyBelow (d.child name))) (rounds budget : Nat) :
    (removeBatches descend d rounds budget).Keeps (onlyBelow d) := by
  induction rounds generalizing budget with
  | zero => exact .throw _
  | succ rounds ih =>
    refine .guard (.bind (.reads _) fun names => .ite (.pure _) ?_)
    exact .bind (.foldlM (keeps_onlyBelow_removeEntry h) _ _) fun budget => ih budget

theorem keeps_onlyBelow_removeContents (levels : Nat) (d : Directory) (budget : Nat) :
    (removeContents levels d budget).Keeps (onlyBelow d) := by
  induction levels generalizing d budget with
  | zero => exact .throw _
  | succ levels ih => exact keeps_onlyBelow_removeBatches (fun name budget => ih (d.child name) budget) _ _

end Frame

section Bounds

variable [ReadDir] {root : Directory} {s : Disk} {budget : Nat}

/-- A cleanup that keeps to its bounds: it ends however many rounds it may make, it empties the directory within the
budget, it fails beyond it, and at no point anything outside the directory has changed. -/
structure CleansExactly (root : Directory) (budget : Nat) (s : Disk) : Prop where
  terminates : ∀ extra, removeContentsFor extra CLEANUP_LEVELS root budget = removeContents CLEANUP_LEVELS root budget
  within : (s root.area).descendants root.path ≤ budget →
    (removeContents CLEANUP_LEVELS root budget).result s = .ok (budget - (s root.area).descendants root.path) ∧
      root.names ((removeContents CLEANUP_LEVELS root budget).final s) = []
  beyond : budget < (s root.area).descendants root.path →
    ∃ e, (removeContents CLEANUP_LEVELS root budget).result s = .error e
  frame : ∀ n area k, ¬ (area = root.area ∧ root.path <+: k ∧ root.path ≠ k) →
    ((removeContents CLEANUP_LEVELS root budget).cut s n area).get? k = (s area).get? k

theorem removeContents_spec (hnested : (s root.area).Nested root.path 64) :
    ((s root.area).descendants root.path < budget →
      (removeContents CLEANUP_LEVELS root budget).result s = .ok (budget - (s root.area).descendants root.path) ∧
        root.names ((removeContents CLEANUP_LEVELS root budget).final s) = []) ∧
    (budget ≤ (s root.area).descendants root.path →
      ∃ e, (removeContents CLEANUP_LEVELS root budget).result s = .error e) := by
  rw [descendants_eq]
  obtain ⟨-, hspec⟩ := empties_removeContents 64 root budget s hnested
  rw [show 64 + 1 = CLEANUP_LEVELS from rfl] at hspec
  rw [show (s root.area).names root.path = root.names s from rfl]
  cases hresult : (removeContents CLEANUP_LEVELS root budget).result s with
  | error e =>
    rw [hresult] at hspec
    exact ⟨fun h => absurd hspec (not_le.mpr h), fun _ => ⟨e, rfl⟩⟩
  | ok left =>
    rw [hresult] at hspec
    obtain ⟨hleft, hpos, gs, hfinal, hgs⟩ := hspec
    refine ⟨fun _ => ⟨congrArg _ (by omega), ?_⟩, fun h => absurd h (not_le.mpr (by omega))⟩
    change (removeContents CLEANUP_LEVELS root budget).final s = _ at hfinal
    rw [hfinal, Directory.names, Disk.set_same]
    exact names_eq_nil.mpr hgs.leaf

theorem cleanup_within_bounds_iff (hnested : (s root.area).Nested root.path 64) :
    CleansExactly root budget s ↔ (s root.area).descendants root.path ≠ budget := by
  obtain ⟨hwithin, hbeyond⟩ := removeContents_spec hnested
  constructor
  · intro h heq
    obtain ⟨hok, -⟩ := h.within (le_of_eq heq)
    obtain ⟨e, herror⟩ := hbeyond (le_of_eq heq.symm)
    rw [herror] at hok
    cases hok
  · intro hne
    refine ⟨fun extra => by rw [removeContentsFor_eq], fun hle => hwithin (lt_of_le_of_ne hle hne),
      fun hlt => hbeyond (le_of_lt hlt), fun n area k hk => ?_⟩
    exact (keeps_onlyBelow_removeContents CLEANUP_LEVELS root budget).cut s n area k hk

end Bounds

section Sample

attribute [local instance] Sample.readDir

namespace Sample

def residueName : Name := ⟨asBytes "pending.json.new", by decide +kernel⟩

/-- A directory of one file. -/
def residue : Disk := fun _ => (∅ : FileSystem Name).place [] residueName (.regular []) FileSystem.isDir_root_empty (by simp)

theorem nested_residue (area : Area) : (residue area).Nested [] 64 := by
  intro k hk
  change (Collections.BTreeMap.insert _ _ _).get? k = _ at hk
  rw [Collections.BTreeMap.get?_insert] at hk
  split at hk <;> cases hk

end Sample

/-- One file and a budget of one: the file goes, and the next round finds the budget spent. -/
theorem cleanup_refused_at_budget : ¬ CleansExactly ⟨.syncPending, []⟩ 1 Sample.residue := by
  intro h
  have hcount : (Sample.residue .syncPending).descendants [] = 1 := by decide +kernel
  obtain ⟨hok, -⟩ := h.within (le_of_eq hcount)
  have hspec := @removeContents_spec _ ⟨.syncPending, []⟩ Sample.residue 1 (Sample.nested_residue _)
  obtain ⟨e, herror⟩ := hspec.2 (ge_of_eq hcount)
  rw [herror] at hok
  cases hok

theorem cleanup_below_budget : CleansExactly ⟨.syncPending, []⟩ 2 Sample.residue :=
  (cleanup_within_bounds_iff (Sample.nested_residue _)).mpr (by decide +kernel)

end Sample

end Wayjournal
