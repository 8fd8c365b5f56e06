import Wayjournal.Control.Ensures
import Wayjournal.Store.Streaming

namespace Wayjournal

open Collections Text

/-- In the order of keys and then of values. -/
def SortedFacts (facts : List Fact) : Prop := facts.Pairwise (fun a b => toLex a ≤ toLex b)

theorem sortedFacts_sortFacts (facts : List Fact) : SortedFacts (sortFacts facts) := List.pairwise_insertionSort _ _

theorem sortFacts_perm (facts : List Fact) : (sortFacts facts).Perm facts := List.perm_insertionSort _ _

namespace ExternalSorter

/-- The facts that were pushed. -/
def contents (sorter : ExternalSorter) : List Fact := sorter.runs.flatten ++ sorter.buffered

theorem ensures_flushRun (sorter : ExternalSorter) :
    Ensures sorter.flushRun (fun flushed => flushed.runs = sorter.runs ++ [sortFacts sorter.buffered] ∧
      flushed.buffered = []) :=
  .skip fun _ => .pure ⟨rfl, rfl⟩

/-- The runs are sorted, each in itself. -/
def Sorts (sorter : ExternalSorter) (facts : List Fact) : Prop :=
  (∀ run ∈ sorter.runs, SortedFacts run) ∧ sorter.contents.Perm facts

theorem sorts_new : new.Sorts [] := ⟨fun _ h => absurd h List.not_mem_nil, List.Perm.refl _⟩

theorem Sorts.flushRun {sorter : ExternalSorter} {facts : List Fact} (h : sorter.Sorts facts) :
    Ensures sorter.flushRun (fun flushed => flushed.Sorts facts ∧ flushed.buffered = [] ∧ flushed.runs ≠ []) := by
  refine (ensures_flushRun sorter).mono fun flushed ⟨hruns, hbuffered⟩ => ⟨⟨?_, ?_⟩, hbuffered, ?_⟩
  · intro run hrun
    rw [hruns, List.mem_append, List.mem_singleton] at hrun
    obtain hrun | rfl := hrun
    · exact h.1 run hrun
    · exact sortedFacts_sortFacts _
  · refine List.Perm.trans ?_ h.2
    rw [contents, contents, hruns, hbuffered, List.flatten_append, List.append_nil, List.flatten_singleton]
    exact (sortFacts_perm _).append_left _
  · rw [hruns]
    simp

theorem Sorts.push {sorter : ExternalSorter} {facts : List Fact} (h : sorter.Sorts facts) (fact : Fact) :
    Ensures (sorter.push fact) (fun pushed => pushed.Sorts (facts ++ [fact])) := by
  have hpushed : ∀ flushed : ExternalSorter, flushed.Sorts facts →
      ({ flushed with
        buffered := flushed.buffered ++ [fact]
        bufferedBytes := flushed.bufferedBytes + fact.size } : ExternalSorter).Sorts (facts ++ [fact]) := by
    refine fun flushed hflushed => ⟨hflushed.1, ?_⟩
    rw [contents, ← List.append_assoc]
    exact hflushed.2.append_right _
  refine .guard fun _ => .ite (fun _ => ?_) fun _ => ?_
  · exact .bind h.flushRun fun flushed hflushed => .pure (hpushed flushed hflushed.1)
  · exact .pure (hpushed sorter h)

theorem popLeast_eq_none {readers : List (List Fact)} (h : popLeast readers = none) : readers.flatten = [] := by
  induction readers with
  | nil => rfl
  | cons run readers ih =>
    cases run with
    | nil =>
      rw [popLeast, Option.map_eq_none_iff] at h
      rw [List.flatten_cons, List.nil_append]
      exact ih h
    | cons current run =>
      rw [popLeast] at h
      split at h
      · cases h
      · split at h <;> cases h

/-- One of the facts and the rest of them. -/
theorem popLeast_perm {readers rest : List (List Fact)} {fact : Fact} (h : popLeast readers = some (fact, rest)) :
    readers.flatten.Perm (fact :: rest.flatten) := by
  induction readers generalizing rest fact with
  | nil => cases h
  | cons run readers ih =>
    cases run with
    | nil =>
      rw [popLeast] at h
      obtain ⟨⟨least, others⟩, hleast, heq⟩ := Option.map_eq_some_iff.mp h
      cases heq
      have hperm := ih hleast
      rwa [List.flatten_cons, List.flatten_cons]
    | cons current run =>
      rw [popLeast] at h
      split at h
      · cases h
        exact List.Perm.refl _
      · rename_i least others hleast
        split at h
        · cases h
          exact List.Perm.refl _
        · cases h
          rw [List.flatten_cons, List.flatten_cons]
          exact ((ih hleast).append_left _).trans List.perm_middle

/-- The fact is the least of all. -/
theorem popLeast_eq_some {readers rest : List (List Fact)} {fact : Fact} (h : popLeast readers = some (fact, rest))
    (hsorted : ∀ run ∈ readers, SortedFacts run) :
    (∀ run ∈ rest, SortedFacts run) ∧ ∀ other ∈ rest.flatten, toLex fact ≤ toLex other := by
  induction readers generalizing rest fact with
  | nil => cases h
  | cons run readers ih =>
    obtain ⟨hrun, hreaders⟩ := List.forall_mem_cons.mp hsorted
    cases run with
    | nil =>
      rw [popLeast] at h
      obtain ⟨⟨least, others⟩, hleast, heq⟩ := Option.map_eq_some_iff.mp h
      cases heq
      obtain ⟨hrest, hle⟩ := ih hleast hreaders
      exact ⟨List.forall_mem_cons.mpr ⟨hrun, hrest⟩, hle⟩
    | cons current run =>
      obtain ⟨hcurrent, htail⟩ := List.pairwise_cons.mp hrun
      rw [popLeast] at h
      split at h
      · rename_i hnone
        cases h
        have hempty := popLeast_eq_none hnone
        refine ⟨List.forall_mem_cons.mpr ⟨htail, hreaders⟩, fun other hother => ?_⟩
        rw [List.flatten_cons, hempty, List.append_nil] at hother
        exact hcurrent other hother
      · rename_i least others hleast
        obtain ⟨hrest, hle⟩ := ih hleast hreaders
        split at h
        · rename_i hfirst
          cases h
          refine ⟨List.forall_mem_cons.mpr ⟨htail, hreaders⟩, fun other hother => ?_⟩
          rw [List.flatten_cons, List.mem_append] at hother
          obtain hother | hother := hother
          · exact hcurrent other hother
          · obtain rfl | hother := List.mem_cons.mp ((popLeast_perm hleast).mem_iff.mp hother)
            · exact hfirst
            · exact hfirst.trans (hle other hother)
        · rename_i hlater
          have hlt := (not_le.mp hlater).le
          cases h
          refine ⟨List.forall_mem_cons.mpr ⟨hrun, hrest⟩, fun other hother => ?_⟩
          rw [List.flatten_cons, List.mem_append] at hother
          obtain hother | hother := hother
          · obtain rfl | hother := List.mem_cons.mp hother
            · exact hlt
            · exact hlt.trans (hcurrent other hother)
          · exact hle other hother

theorem ensures_merge {facts : Nat} {readers : List (List Fact)} (hcount : readers.flatten.length ≤ facts)
    (hsorted : ∀ run ∈ readers, SortedFacts run) :
    Ensures (merge facts readers) (fun merged => SortedFacts merged ∧ merged.Perm readers.flatten) := by
  induction facts generalizing readers with
  | zero =>
    rw [List.eq_nil_of_length_eq_zero (Nat.le_zero.mp hcount)]
    exact .pure ⟨List.Pairwise.nil, List.Perm.refl _⟩
  | succ facts ih =>
    rw [merge]
    cases hleast : popLeast readers with
    | none =>
      rw [popLeast_eq_none hleast]
      exact .pure ⟨List.Pairwise.nil, List.Perm.refl _⟩
    | some least =>
      have hperm := popLeast_perm hleast
      obtain ⟨hrest, hle⟩ := popLeast_eq_some hleast hsorted
      have hlength := hperm.length_eq
      rw [List.length_cons] at hlength
      refine .skip fun _ => .bind (ih (by omega) hrest) fun merged ⟨hmerged, hmergedPerm⟩ => .pure ⟨?_, ?_⟩
      · exact List.pairwise_cons.mpr ⟨fun other hother => hle other (hmergedPerm.mem_iff.mp hother), hmerged⟩
      · exact (hmergedPerm.cons _).trans hperm.symm

/-- One run is read as it is, several are merged. -/
def joinRuns : List (List Fact) → ReplayM (List Fact)
  | [run] => pure run
  | runs => merge (runs.map List.length).sum runs

/-- Whatever the runs, the sorter returns what was pushed in order. -/
theorem Sorts.finish {sorter : ExternalSorter} {facts : List Fact} (h : sorter.Sorts facts) :
    Ensures sorter.finish (fun sorted => SortedFacts sorted ∧ sorted.Perm facts) := by
  have hmerged : ∀ flushed : ExternalSorter, flushed.Sorts facts → flushed.buffered = [] →
      Ensures (joinRuns flushed.runs) (fun sorted => SortedFacts sorted ∧ sorted.Perm facts) := by
    intro flushed hflushed hempty
    have hperm := hflushed.2
    rw [contents, hempty, List.append_nil] at hperm
    unfold joinRuns
    split
    · rename_i run hruns
      rw [hruns, List.flatten_singleton] at hperm
      refine .pure ⟨hflushed.1 run ?_, hperm⟩
      rw [hruns]
      exact List.mem_singleton_self run
    · rename_i runs _
      refine (ensures_merge ?_ hflushed.1).mono fun sorted hsorted => ⟨hsorted.1, hsorted.2.trans hperm⟩
      rw [List.length_flatten]
  refine .ite (fun _ => .bind h.flushRun fun flushed hflushed => hmerged flushed hflushed.1 hflushed.2.1) fun hskip => ?_
  simp only [Bool.or_eq_true, Bool.not_eq_true', not_or] at hskip
  exact hmerged sorter h (by simpa using hskip.1)

end ExternalSorter

end Wayjournal
