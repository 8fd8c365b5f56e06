import Wayjournal.Control.Safely
import Wayjournal.Store.SortFilesLaws

namespace Wayjournal

open Collections SortFiles

/-- The failures of a replay that runs out of its own resources. -/
def OutOfScratch (e : StoreError) : Prop :=
  e = .invalidLayout [] "external semantic fact exceeds byte limit" ∨
    e = .invalidLayout [] "semantic replay exceeds temporary-byte amplification limit"

theorem not_outOfScratch_corrupt (issue : StoreCorruption) : ¬ OutOfScratch (.corrupt issue) := by
  rintro (h | h) <;> cases h

theorem not_outOfScratch_here (message : String) : ¬ OutOfScratch (.invalidLayout HERE message) := by
  have hhere : HERE ≠ [] := List.cons_ne_nil _ _
  rintro (h | h) <;> exact hhere (StoreError.invalidLayout.inj h).1

theorem not_outOfScratch_message {path : StorePath} {message : String}
    (hfact : message ≠ "external semantic fact exceeds byte limit")
    (hbytes : message ≠ "semantic replay exceeds temporary-byte amplification limit") :
    ¬ OutOfScratch (.invalidLayout path message) := by
  rintro (h | h)
  · exact hfact (StoreError.invalidLayout.inj h).2
  · exact hbytes (StoreError.invalidLayout.inj h).2

variable {used : Nat}

theorem safely_reserveTemporary {bytes : Nat} (h : used + bytes ≤ MAX_REPLAY_TEMPORARY_BYTES) :
    Safely OutOfScratch (reserveTemporary bytes) used (fun _ used' => used' = used + bytes) := by
  have hget : Safely OutOfScratch (get : ReplayM Nat) used (fun now used' => now = used ∧ used' = used) := by
    refine ⟨.ok _, ?_⟩
    rintro now used' ⟨⟩
    exact ⟨rfl, rfl⟩
  refine .bind hget ?_
  rintro now used' ⟨rfl, rfl⟩
  rw [if_neg (not_lt.mpr h)]
  refine ⟨.ok _, ?_⟩
  rintro _ used' ⟨⟩
  rfl

namespace ExternalSorter

variable {sorter : ExternalSorter}

theorem safely_writeRecords {facts : List Fact} (h : used + bytesOf facts ≤ MAX_REPLAY_TEMPORARY_BYTES) :
    Safely OutOfScratch (facts.forM writeRecord) used (fun _ used' => used' = used + bytesOf facts) := by
  induction facts generalizing used with
  | nil => exact .pure rfl
  | cons fact facts ih =>
    have hcons : bytesOf (fact :: facts) = fact.size + bytesOf facts := rfl
    refine .bind (safely_reserveTemporary (by omega)) ?_
    rintro _ used' rfl
    refine (ih (by omega)).mono ?_
    rintro _ used' rfl
    omega

/-- What is still to be written of the facts of a sorter: those of runs once more and the others twice. -/
def debt (sorter : ExternalSorter) : Nat := 2 * bytesOf sorter.buffered + bytesOf sorter.runs.flatten

theorem safely_flushRun (h : used + sorter.debt ≤ MAX_REPLAY_TEMPORARY_BYTES) :
    Safely OutOfScratch sorter.flushRun used (fun flushed used' => flushed.buffered = [] ∧ used' + flushed.debt = used + sorter.debt) := by
  have hbytes := bytesOf_perm (sortFacts_perm sorter.buffered)
  rw [debt] at h
  refine .bind (safely_writeRecords (by omega)) ?_
  rintro _ used' rfl
  refine .pure ⟨rfl, ?_⟩
  rw [debt, debt, List.flatten_append, List.flatten_singleton, bytesOf_append, hbytes]
  change _ + (2 * 0 + _) = _
  omega

theorem safely_push {fact : Fact} (hfact : Fits fact) (h : used + sorter.debt + 2 * fact.size ≤ MAX_REPLAY_TEMPORARY_BYTES) :
    Safely OutOfScratch (sorter.push fact) used (fun pushed used' => used' + pushed.debt = used + sorter.debt + 2 * fact.size) := by
  have hpushed : ∀ flushed : ExternalSorter, ({ flushed with
        buffered := flushed.buffered ++ [fact]
        bufferedBytes := flushed.bufferedBytes + fact.size } : ExternalSorter).debt = flushed.debt + 2 * fact.size := by
    intro flushed
    have hone : bytesOf [fact] = fact.size := rfl
    change 2 * bytesOf (flushed.buffered ++ [fact]) + bytesOf flushed.runs.flatten = _
    rw [debt, bytesOf_append, hone]
    omega
  unfold ExternalSorter.push
  rw [if_neg (not_lt.mpr hfact)]
  refine .ite (fun _ => ?_) fun _ => .pure ?_
  · refine .bind (safely_flushRun (by omega)) ?_
    rintro flushed used' ⟨-, hflushed⟩
    refine .pure ?_
    rw [hpushed]
    omega
  · rw [hpushed]
    omega

theorem safely_pushAll {facts sorted : List Fact} (hfits : ∀ fact ∈ facts, Fits fact) (hsorts : sorter.Sorts sorted)
    (h : used + sorter.debt + 2 * bytesOf facts ≤ MAX_REPLAY_TEMPORARY_BYTES) :
    Safely OutOfScratch (facts.foldlM ExternalSorter.push sorter) used (fun pushed used' =>
      pushed.Sorts (sorted ++ facts) ∧ used' + pushed.debt = used + sorter.debt + 2 * bytesOf facts) := by
  induction facts generalizing used sorter sorted with
  | nil =>
    rw [List.append_nil]
    exact .pure ⟨hsorts, rfl⟩
  | cons fact facts ih =>
    obtain ⟨hfact, hfacts⟩ := List.forall_mem_cons.mp hfits
    have hcons : bytesOf (fact :: facts) = fact.size + bytesOf facts := rfl
    rw [List.foldlM_cons]
    refine .bind ((safely_push hfact (by omega)).ensures (hsorts.push fact)) ?_
    rintro pushed used' ⟨hpushed, hused⟩
    refine (ih hfacts hpushed (by omega)).mono ?_
    rintro all used' ⟨hall, hused⟩
    rw [List.append_assoc] at hall
    exact ⟨hall, by omega⟩

theorem safely_merge {rounds : Nat} {readers : List (List Fact)} (h : used + bytesOf readers.flatten ≤ MAX_REPLAY_TEMPORARY_BYTES) :
    Safely OutOfScratch (merge rounds readers) used (fun _ used' => used' ≤ used + bytesOf readers.flatten) := by
  induction rounds generalizing readers used with
  | zero => exact .pure (Nat.le_add_right _ _)
  | succ rounds ih =>
    rw [merge]
    cases hleast : popLeast readers with
    | none => exact .pure (Nat.le_add_right _ _)
    | some least =>
      obtain ⟨fact, rest⟩ := least
      have hbytes := bytesOf_perm (popLeast_perm hleast)
      have hcons : bytesOf (fact :: rest.flatten) = fact.size + bytesOf rest.flatten := rfl
      refine .bind (safely_reserveTemporary (by omega)) ?_
      rintro _ used' rfl
      refine .bind (ih (by omega)) fun merged used' hmerged => .pure ?_
      omega

theorem safely_finish (h : used + sorter.debt ≤ MAX_REPLAY_TEMPORARY_BYTES) :
    Safely OutOfScratch sorter.finish used (fun _ used' => used' ≤ used + sorter.debt) := by
  have hmerged : ∀ (flushed : ExternalSorter) (used' : Nat), flushed.buffered = [] → used' + flushed.debt = used + sorter.debt →
      Safely OutOfScratch (joinRuns flushed.runs) used' (fun _ used' => used' ≤ used + sorter.debt) := by
    intro flushed used' hempty hused
    have hdebt : flushed.debt = bytesOf flushed.runs.flatten := by
      rw [debt, hempty]
      exact Nat.zero_add _
    unfold joinRuns
    split
    · exact .pure (by omega)
    · exact (safely_merge (by omega)).mono fun _ _ hle => by omega
  refine .ite (fun _ => ?_) fun hskip => ?_
  · exact .bind (safely_flushRun h) fun flushed used' hflushed => hmerged flushed used' hflushed.1 hflushed.2
  · simp only [Bool.or_eq_true, Bool.not_eq_true', not_or] at hskip
    exact hmerged sorter used (by simpa using hskip.1) rfl

end ExternalSorter

end Wayjournal
