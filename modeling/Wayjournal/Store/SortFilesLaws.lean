import Wayjournal.Control.Total
import Wayjournal.Store.ReplayLaws
import Wayjournal.Store.SortFiles

namespace Wayjournal.SortFiles

open Control BufRead Collections

section Records

variable {ρ : Type} [BufRead ρ UInt8] {r : ρ} {fact : Fact} {rest : Bytes}

/-- A fact that fits. -/
def Fits (fact : Fact) : Prop := fact.size ≤ MAX_FACT_BYTES

theorem Fits.lengths (h : Fits fact) : fact.1.length + fact.2.length + 8 ≤ MAX_FACT_BYTES := h

theorem length_recordBytes (fact : Fact) : (recordBytes fact).length = fact.size := by
  simp only [recordBytes, List.length_append, length_beBytes, Fact.size]
  omega

theorem readFact_append {bytes : Bytes} (hr : unread r = bytes ++ rest) :
    ∃ r', readFact bytes.length r = .ok (bytes, r') ∧ unread r' = rest := by
  obtain ⟨r', hread, hr'⟩ := readExact_of_le (r := r) (n := bytes.length) (by rw [hr, List.length_append]; omega)
  rw [hr, List.take_left] at hread
  rw [hr, List.drop_left] at hr'
  exact ⟨r', by rw [readFact, hread], hr'⟩

theorem readRecord_append (hfact : Fits fact) (hr : unread r = recordBytes fact ++ rest) :
    ∃ r', readRecord r = .ok (some fact, r') ∧ unread r' = rest := by
  have hfits := hfact.lengths
  have hmax : MAX_FACT_BYTES = 2048 := rfl
  obtain ⟨hlengths, hunread⟩ := readUpTo_spec 8 r
  have hheader : (beBytes 4 fact.1.length ++ beBytes 4 fact.2.length).length = 8 := by simp
  rw [hr, recordBytes, List.append_assoc, List.append_assoc, List.take_left' hheader] at hlengths
  rw [hr, recordBytes, List.append_assoc, List.append_assoc, List.drop_left' hheader] at hunread
  obtain ⟨r₁, hkey, hr₁⟩ := readFact_append hunread
  obtain ⟨r₂, hvalue, hr₂⟩ := readFact_append hr₁
  refine ⟨r₂, ?_, hr₂⟩
  unfold readRecord
  dsimp only
  rw [hlengths, if_neg (by rw [hheader]; omega), List.take_left' (length_beBytes ..), List.drop_left' (length_beBytes ..),
    fromBeBytes_beBytes (by omega), fromBeBytes_beBytes (by omega), if_neg (not_lt.mpr hfits), hkey, ok_bind]
  dsimp only
  rw [hvalue, ok_bind]
  rfl

theorem readRecord_nil (hr : unread r = []) : ∃ r', readRecord r = .ok (none, r') := by
  obtain ⟨hlengths, -⟩ := readUpTo_spec 8 r
  refine ⟨(readUpTo 8 r).2, ?_⟩
  rw [hr, List.take_nil] at hlengths
  unfold readRecord
  dsimp only
  rw [hlengths, if_pos (by decide)]
  rfl

/-- Records are read as they were written, one after the other. -/
theorem drains_readRecord {facts : List Fact} (h : ∀ fact ∈ facts, Fits fact) (hr : unread r = facts.flatMap recordBytes) :
    Drains readRecord r facts none :=
  .of_encode (fun fact hfact _ _ hr => readRecord_append (h fact hfact) hr) (fun _ hr => readRecord_nil hr) hr

end Records

section Merge

variable {ρ : Type} [BufRead ρ UInt8] {facts : FactReader ρ} {readers : List (FactReader ρ)} {run : List Fact}
  {runs : List (List Fact)}

/-- A reader that has the facts of a run before it, the first of them read already. -/
def Holds (facts : FactReader ρ) : List Fact → Prop
  | [] => facts.current = none
  | fact :: rest => facts.current = some fact ∧ unread facts.reader = rest.flatMap recordBytes

theorem holds_advance (h : ∀ fact ∈ run, Fits fact) (hr : unread facts.reader = run.flatMap recordBytes) :
    ∃ facts', facts.advance = .ok facts' ∧ Holds facts' run := by
  unfold FactReader.advance
  cases run with
  | nil =>
    obtain ⟨r', hread⟩ := readRecord_nil hr
    exact ⟨⟨r', none⟩, by rw [hread]; rfl, rfl⟩
  | cons fact run =>
    obtain ⟨r', hread, hr'⟩ := readRecord_append (h fact List.mem_cons_self) hr
    exact ⟨⟨r', some fact⟩, by rw [hread]; rfl, rfl, hr'⟩

/-- The facts of a run are taken from its reader in their order. -/
theorem Holds.drains (h : ∀ fact ∈ run, Fits fact) (hholds : Holds facts run) : Drains FactReader.take facts run none := by
  induction run generalizing facts with
  | nil => exact .done (by rw [FactReader.take, show facts.current = none from hholds])
  | cons fact run ih =>
    have hrun := List.forall_mem_cons.mp h
    obtain ⟨facts', hadvance, hfacts'⟩ := holds_advance hrun.2 hholds.2
    exact .more (by rw [FactReader.take, hholds.1]; dsimp only; rw [hadvance]; rfl) (ih hrun.2 hfacts')

theorem minBy_cons (first : Nat × Fact) (others : List (Nat × Fact)) :
    minBy (first :: others) = match minBy others with
      | none => some first
      | some least => if toLex first.2 ≤ toLex least.2 then some first else some least := by
  induction others generalizing first with
  | nil => rfl
  | cons second others ih =>
    have hstep : minBy (first :: second :: others) =
        minBy ((if toLex second.2 < toLex first.2 then second else first) :: others) := rfl
    rw [hstep, ih, ih second]
    cases minBy others with
    | none =>
      dsimp only
      split
      · rename_i hless
        rw [if_neg (not_le.mpr hless)]
      · rename_i hless
        rw [if_pos (not_lt.mp hless)]
    | some least =>
      dsimp only
      by_cases hless : toLex second.2 < toLex first.2
      · rw [if_pos hless]
        by_cases hsecond : toLex second.2 ≤ toLex least.2
        · rw [if_pos hsecond]
          dsimp only
          rw [if_neg (not_le.mpr hless)]
        · rw [if_neg hsecond]
          dsimp only
          rw [if_neg (not_le.mpr ((not_le.mp hsecond).trans hless))]
      · rw [if_neg hless]
        by_cases hsecond : toLex second.2 ≤ toLex least.2
        · rw [if_pos hsecond]
          dsimp only
          rw [if_pos (not_lt.mp hless), if_pos ((not_lt.mp hless).trans hsecond)]
        · rw [if_neg hsecond]

/-- The reader with the first of the least facts is the one that is selected, and it is advanced. -/
theorem selects_popLeast (hfits : ∀ run ∈ runs, ∀ fact ∈ run, Fits fact) (h : List.Forall₂ Holds readers runs) (index : Nat) :
    match Wayjournal.ExternalSorter.popLeast runs with
    | none => minBy (currents index readers) = none
    | some (fact, rest) => ∃ i, minBy (currents index readers) = some (index + i, fact) ∧
        ∃ readers', advanceAt i readers = .ok readers' ∧ List.Forall₂ Holds readers' rest := by
  induction h generalizing index with
  | nil => rfl
  | @cons facts run readers runs hfacts hreaders ih =>
    obtain ⟨hrun, hruns⟩ := List.forall_mem_cons.mp hfits
    have ih := ih hruns (index + 1)
    cases run with
    | nil =>
      have hcurrent : facts.current = none := hfacts
      rw [Wayjournal.ExternalSorter.popLeast, currents, hcurrent, Option.map_none, Option.toList_none, List.nil_append]
      cases hleast : Wayjournal.ExternalSorter.popLeast runs with
      | none =>
        rw [hleast] at ih
        exact ih
      | some least =>
        rw [hleast] at ih
        obtain ⟨i, hmin, readers', hadvance, hreaders'⟩ := ih
        refine ⟨i + 1, by rw [hmin, Nat.add_right_comm, Nat.add_assoc], facts :: readers', ?_, .cons hfacts hreaders'⟩
        rw [advanceAt, hadvance]
        rfl
    | cons current run =>
      obtain ⟨hcurrent, hunread⟩ := hfacts
      obtain ⟨facts', hadvance, hfacts'⟩ := holds_advance (List.forall_mem_cons.mp hrun).2 hunread
      have hfirst : ∃ readers', advanceAt 0 (facts :: readers) = .ok readers' ∧ List.Forall₂ Holds readers' (run :: runs) :=
        ⟨facts' :: readers, by rw [advanceAt, hadvance]; rfl, .cons hfacts' hreaders⟩
      rw [Wayjournal.ExternalSorter.popLeast, currents, hcurrent, Option.map_some, Option.toList_some, List.singleton_append,
        minBy_cons]
      cases hleast : Wayjournal.ExternalSorter.popLeast runs with
      | none =>
        rw [hleast] at ih
        rw [ih]
        exact ⟨0, rfl, hfirst⟩
      | some least =>
        rw [hleast] at ih
        obtain ⟨i, hmin, readers', hadvance', hreaders'⟩ := ih
        rw [hmin]
        dsimp only
        by_cases hle : toLex current ≤ toLex least.1
        · rw [if_pos hle, if_pos hle]
          exact ⟨0, rfl, hfirst⟩
        · have hfacts : Holds facts (current :: run) := ⟨hcurrent, hunread⟩
          rw [if_neg hle, if_neg hle]
          refine ⟨i + 1, by rw [Nat.add_right_comm, Nat.add_assoc], facts :: readers', ?_, .cons hfacts hreaders'⟩
          rw [advanceAt, hadvance']
          rfl

end Merge

section Sorting

variable {maximum used : Nat}

/-- What the records take in files. -/
def bytesOf (facts : List Fact) : Nat := (facts.map Fact.size).sum

theorem bytesOf_append (a b : List Fact) : bytesOf (a ++ b) = bytesOf a + bytesOf b := by
  rw [bytesOf, List.map_append, List.sum_append]
  rfl

theorem bytesOf_perm {a b : List Fact} (h : a.Perm b) : bytesOf a = bytesOf b := (h.map _).sum_nat

theorem returns_reserve {bytes : Nat} (hroom : used + bytes ≤ maximum) :
    Returns (reserve maximum bytes) used (fun _ used' => used' = used + bytes) := by
  have hget : Returns (get : SortM Nat) used (fun now used' => now = used ∧ used' = used) := ⟨used, used, rfl, rfl, rfl⟩
  refine .bind hget ?_
  rintro now used' ⟨rfl, rfl⟩
  exact .guard (not_lt.mpr hroom) ⟨(), _, rfl, rfl⟩

theorem returns_writeRecord {file : Bytes} {fact : Fact} (hfact : Fits fact) (hroom : used + fact.size ≤ maximum) :
    Returns (writeRecord maximum file fact) used
      (fun file' used' => file' = file ++ recordBytes fact ∧ used' = used + fact.size) := by
  have hfits := hfact.lengths
  have hmax : MAX_FACT_BYTES = 2048 := rfl
  exact .guard (by omega) (.guard (by omega) (.bind (returns_reserve hroom) fun _ used' hused => .pure ⟨rfl, hused⟩))

/-- The records at the end of a file. -/
theorem returns_writeRecords {file : Bytes} {facts : List Fact} (hfacts : ∀ fact ∈ facts, Fits fact)
    (hroom : used + bytesOf facts ≤ maximum) :
    Returns (facts.foldlM (writeRecord maximum) file) used
      (fun file' used' => file' = file ++ facts.flatMap recordBytes ∧ used' = used + bytesOf facts) := by
  refine .foldlM (fun done file' used' => file' = file ++ done.flatMap recordBytes ∧ used' = used + bytesOf done)
    ⟨(List.append_nil _).symm, rfl⟩ ?_
  rintro done fact rest file' used' hsplit ⟨rfl, rfl⟩
  rw [← hsplit, bytesOf_append] at hroom
  have hsize : fact.size ≤ bytesOf (fact :: rest) := Nat.le_add_right _ _
  refine (returns_writeRecord (hfacts fact (hsplit ▸ List.mem_append_right _ List.mem_cons_self)) (by omega)).mono ?_
  rintro file' used' ⟨rfl, rfl⟩
  rw [List.flatMap_append, List.flatMap_singleton, List.append_assoc, bytesOf_append, Nat.add_assoc]
  exact ⟨rfl, rfl⟩

/-- All runs merged into one file: every fact once and in order. -/
theorem returns_merge {ρ : Type} [BufRead ρ UInt8] {readers : List (FactReader ρ)} {runs : List (List Fact)}
    (hholds : List.Forall₂ Holds readers runs) (hfits : ∀ run ∈ runs, ∀ fact ∈ run, Fits fact)
    (hsorted : ∀ run ∈ runs, SortedFacts run) {rounds : Nat} (hrounds : runs.flatten.length ≤ rounds)
    (hroom : used + bytesOf runs.flatten ≤ maximum) (output : Bytes) :
    Returns (merge maximum rounds readers output) used (fun file used' =>
      used' = used + bytesOf runs.flatten ∧
        ∃ merged, file = output ++ merged.flatMap recordBytes ∧ SortedFacts merged ∧ merged.Perm runs.flatten) := by
  induction rounds generalizing readers runs used output with
  | zero =>
    rw [List.eq_nil_of_length_eq_zero (Nat.le_zero.mp hrounds)]
    exact .pure ⟨rfl, [], (List.append_nil _).symm, List.Pairwise.nil, .refl _⟩
  | succ rounds ih =>
    have hselect := selects_popLeast hfits hholds 0
    rw [merge]
    cases hleast : Wayjournal.ExternalSorter.popLeast runs with
    | none =>
      rw [hleast] at hselect
      rw [show minBy (currents 0 readers) = none from hselect, Wayjournal.ExternalSorter.popLeast_eq_none hleast]
      exact .pure ⟨rfl, [], (List.append_nil _).symm, List.Pairwise.nil, .refl _⟩
    | some least =>
      obtain ⟨fact, others⟩ := least
      rw [hleast] at hselect
      obtain ⟨i, hmin, readers', hadvance, hholds'⟩ := hselect
      have hperm := Wayjournal.ExternalSorter.popLeast_perm hleast
      obtain ⟨hothers, hle⟩ := Wayjournal.ExternalSorter.popLeast_eq_some hleast hsorted
      have hlength := hperm.length_eq
      have hbytes := bytesOf_perm hperm
      have hcons : bytesOf (fact :: others.flatten) = fact.size + bytesOf others.flatten := rfl
      have hflat : ∀ other ∈ fact :: others.flatten, Fits other := fun other hother => by
        obtain ⟨run, hrun, hmem⟩ := List.mem_flatten.mp (hperm.mem_iff.mpr hother)
        exact hfits run hrun other hmem
      rw [List.length_cons] at hlength
      rw [hmin, Nat.zero_add]
      refine .bind (returns_writeRecord (hflat fact List.mem_cons_self) (by omega)) ?_
      rintro file used' ⟨rfl, rfl⟩
      refine .bind (.lift hadvance ⟨rfl, rfl⟩ : Returns _ _ fun now used' => now = readers' ∧ used' = used + fact.size) ?_
      rintro now used' ⟨rfl, rfl⟩
      have hrest : ∀ run ∈ others, ∀ fact ∈ run, Fits fact := fun run hrun other hother =>
        hflat other (List.mem_cons_of_mem _ (List.mem_flatten_of_mem hrun hother))
      refine (ih hholds' hrest hothers (by omega) (by omega) _).mono ?_
      rintro file used' ⟨rfl, merged, rfl, hmerged, hmergedPerm⟩
      refine ⟨by omega, fact :: merged, ?_, ?_, (hmergedPerm.cons fact).trans hperm.symm⟩
      · rw [List.flatMap_cons, List.append_assoc]
      · exact List.pairwise_cons.mpr ⟨fun other hother => hle other (hmergedPerm.mem_iff.mp hother), hmerged⟩

/-- The sorter has so many facts, some of them in runs that are sorted each in itself; `base` is what was written before. -/
def Sorting (base : Nat) (facts : List Fact) (sorter : ExternalSorter) (used : Nat) : Prop :=
  ∃ runs : List (List Fact), sorter.runs = runs.map (·.flatMap recordBytes) ∧ (∀ run ∈ runs, SortedFacts run) ∧
    (runs.flatten ++ sorter.buffered).Perm facts ∧ used = base + bytesOf runs.flatten

variable {base : Nat} {facts : List Fact} {sorter : ExternalSorter}

theorem returns_flushRun (h : Sorting base facts sorter used) (hfits : ∀ fact ∈ facts, Fits fact)
    (hroom : base + bytesOf facts ≤ maximum) :
    Returns (sorter.flushRun maximum) used (fun flushed used' => Sorting base facts flushed used' ∧ flushed.buffered = []) := by
  obtain ⟨runs, hruns, hsorted, hperm, rfl⟩ := h
  have hbuffered := sortFacts_perm sorter.buffered
  have hbytes := bytesOf_perm hperm
  rw [bytesOf_append] at hbytes
  have hmem : ∀ fact ∈ sortFacts sorter.buffered, Fits fact := fun fact hfact =>
    hfits fact (hperm.mem_iff.mp (List.mem_append_right _ (hbuffered.mem_iff.mp hfact)))
  refine .bind (returns_writeRecords hmem (by rw [bytesOf_perm hbuffered]; omega)) ?_
  rintro file used' ⟨rfl, rfl⟩
  refine .pure ⟨⟨runs ++ [sortFacts sorter.buffered], ?_, ?_, ?_, ?_⟩, rfl⟩
  · rw [List.map_append, hruns]
    rfl
  · intro run hrun
    obtain hrun | hrun := List.mem_append.mp hrun
    · exact hsorted run hrun
    · rw [List.mem_singleton.mp hrun]
      exact sortedFacts_sortFacts _
  · rw [List.flatten_append, List.flatten_singleton, List.append_nil]
    exact (hbuffered.append_left _).trans hperm
  · rw [List.flatten_append, List.flatten_singleton, bytesOf_append, Nat.add_assoc]

theorem returns_push {fact : Fact} (h : Sorting base facts sorter used) (hfits : ∀ other ∈ facts, Fits other) (hfact : Fits fact)
    (hroom : base + bytesOf facts ≤ maximum) :
    Returns (sorter.push maximum fact) used (Sorting base (facts ++ [fact])) := by
  have hpushed : ∀ (flushed : ExternalSorter) (used' : Nat), Sorting base facts flushed used' →
      Sorting base (facts ++ [fact]) { flushed with
        buffered := flushed.buffered ++ [fact]
        bufferedBytes := flushed.bufferedBytes + fact.size } used' := by
    rintro flushed used' ⟨runs, hruns, hsorted, hperm, hused⟩
    refine ⟨runs, hruns, hsorted, ?_, hused⟩
    rw [← List.append_assoc]
    exact hperm.append_right _
  refine .guard (not_lt.mpr hfact) (.ite (fun _ => ?_) fun _ => .pure (hpushed sorter used h))
  exact .bind (returns_flushRun h hfits hroom) fun flushed used' hflushed => .pure (hpushed flushed used' hflushed.1)

theorem returns_pushAll (runBytes : Nat) (hfits : ∀ fact ∈ facts, Fits fact) (hroom : base + bytesOf facts ≤ maximum) :
    Returns (facts.foldlM (ExternalSorter.push maximum) (.withRunBytes runBytes)) base (Sorting base facts) := by
  refine .foldlM (Sorting base) ⟨[], rfl, fun _ h => absurd h List.not_mem_nil, .refl _, rfl⟩ ?_
  intro done fact rest sorter used hsplit h
  rw [← hsplit, bytesOf_append] at hroom
  refine returns_push h (fun other hother => ?_) ?_ (by omega)
  · exact hfits other (hsplit ▸ List.mem_append_left _ hother)
  · exact hfits fact (hsplit ▸ List.mem_append_right _ List.mem_cons_self)

end Sorting

section Finish

variable {ρ : Type} [BufReader ρ] {maximum base used : Nat} {facts : List Fact} {sorter : ExternalSorter}

theorem holds_new {run : List Fact} (h : ∀ fact ∈ run, Fits fact) :
    ∃ reader : FactReader ρ, FactReader.new (run.flatMap recordBytes) = .ok reader ∧ Holds reader run :=
  holds_advance h (BufReader.unread_new _)

theorem holds_mapM_new {runs : List (List Fact)} (h : ∀ run ∈ runs, ∀ fact ∈ run, Fits fact) :
    ∃ readers : List (FactReader ρ), (runs.map (·.flatMap recordBytes)).mapM FactReader.new = .ok readers ∧
      List.Forall₂ Holds readers runs := by
  induction runs with
  | nil => exact ⟨[], rfl, .nil⟩
  | cons run runs ih =>
    obtain ⟨hrun, hruns⟩ := List.forall_mem_cons.mp h
    obtain ⟨reader, hreader, hholds⟩ := holds_new (ρ := ρ) hrun
    obtain ⟨readers, hreaders, hall⟩ := ih hruns
    refine ⟨reader :: readers, ?_, .cons hholds hall⟩
    rw [List.map_cons, List.mapM_cons, hreader, ok_bind, hreaders]
    rfl

theorem length_flatten_le (runs : List (List Fact)) :
    runs.flatten.length ≤ ((runs.map (·.flatMap recordBytes)).map List.length).sum := by
  have hrun : ∀ run : List Fact, run.length ≤ (run.flatMap recordBytes).length := by
    intro run
    induction run with
    | nil => exact Nat.le_refl _
    | cons fact run ih =>
      rw [List.flatMap_cons, List.length_append, length_recordBytes, List.length_cons, Fact.size]
      omega
  induction runs with
  | nil => exact Nat.le_refl _
  | cons run runs ih =>
    rw [List.flatten_cons, List.length_append, List.map_cons, List.map_cons, List.sum_cons]
    exact Nat.add_le_add (hrun run) ih

theorem returns_mergeRuns {runs : List (List Fact)} (hfits : ∀ run ∈ runs, ∀ fact ∈ run, Fits fact)
    (hsorted : ∀ run ∈ runs, SortedFacts run) (hroom : used + bytesOf runs.flatten ≤ maximum) :
    Returns (ExternalSorter.mergeRuns ρ maximum (runs.map (·.flatMap recordBytes))) used (fun file _ =>
      ∃ sorted, file = sorted.flatMap recordBytes ∧ SortedFacts sorted ∧ sorted.Perm runs.flatten) := by
  obtain ⟨readers, hreaders, hholds⟩ := holds_mapM_new (ρ := ρ) hfits
  unfold ExternalSorter.mergeRuns
  split
  · rename_i file hfile
    obtain ⟨run, hrun, rfl⟩ := List.map_eq_singleton_iff.mp hfile
    subst hrun
    rw [List.flatten_singleton]
    exact .pure ⟨run, rfl, hsorted run List.mem_cons_self, .refl _⟩
  · have hreturns : Returns (liftM ((runs.map (·.flatMap recordBytes)).mapM FactReader.new) : SortM (List (FactReader ρ))) used
        (fun now used' => now = readers ∧ used' = used) := .lift hreaders ⟨rfl, rfl⟩
    refine .bind hreturns ?_
    rintro now used' ⟨rfl, rfl⟩
    refine (returns_merge hholds hfits hsorted (length_flatten_le runs) hroom []).mono ?_
    rintro file used' ⟨-, merged, rfl, hmerged, hperm⟩
    exact ⟨merged, rfl, hmerged, hperm⟩

/-- The sorted file has the facts of the sorter, in order. -/
theorem returns_finish (h : Sorting base facts sorter used) (hfits : ∀ fact ∈ facts, Fits fact)
    (hroom : base + 2 * bytesOf facts ≤ maximum) :
    Returns (sorter.finish ρ maximum) used (fun file _ =>
      ∃ sorted, file = sorted.flatMap recordBytes ∧ SortedFacts sorted ∧ sorted.Perm facts) := by
  have hmerged : ∀ (flushed : ExternalSorter) (used' : Nat), Sorting base facts flushed used' → flushed.buffered = [] →
      Returns (ExternalSorter.mergeRuns ρ maximum flushed.runs) used' (fun file _ =>
        ∃ sorted, file = sorted.flatMap recordBytes ∧ SortedFacts sorted ∧ sorted.Perm facts) := by
    rintro flushed used' ⟨runs, hruns, hsorted, hperm, rfl⟩ hempty
    rw [hempty, List.append_nil] at hperm
    have hbytes := bytesOf_perm hperm
    have hall : ∀ run ∈ runs, ∀ fact ∈ run, Fits fact := fun run hrun fact hfact =>
      hfits fact (hperm.mem_iff.mp (List.mem_flatten_of_mem hrun hfact))
    rw [hruns]
    refine (returns_mergeRuns hall hsorted (by omega)).mono ?_
    rintro file used' ⟨sorted, rfl, hsorted, hsortedPerm⟩
    exact ⟨sorted, rfl, hsorted, hsortedPerm.trans hperm⟩
  refine .ite (fun _ => ?_) fun hskip => ?_
  · exact .bind (returns_flushRun h hfits (by omega)) fun flushed used' hflushed =>
      hmerged flushed used' hflushed.1 hflushed.2
  · simp only [Bool.or_eq_true, Bool.not_eq_true', not_or] at hskip
    exact hmerged sorter used h (by simpa using hskip.1)

/-- The facts of a sort are read from its file in order. -/
theorem returns_sort (runBytes : Nat) (hfits : ∀ fact ∈ facts, Fits fact) (hroom : base + 2 * bytesOf facts ≤ maximum) :
    Returns (facts.foldlM (ExternalSorter.push maximum) (.withRunBytes runBytes) >>= ExternalSorter.finish ρ maximum) base
      (fun file _ => ∃ sorted, sorted.Perm facts ∧ SortedFacts sorted ∧
        ∃ reader : FactReader ρ, FactReader.new file = .ok reader ∧ Drains FactReader.take reader sorted none) := by
  refine .bind (returns_pushAll runBytes hfits (by omega)) fun sorter used hsorter => ?_
  refine (returns_finish hsorter hfits hroom).mono ?_
  rintro file used' ⟨sorted, rfl, hsorted, hperm⟩
  have hall : ∀ fact ∈ sorted, Fits fact := fun fact hfact => hfits fact (hperm.mem_iff.mp hfact)
  obtain ⟨reader, hreader, hholds⟩ := holds_new (ρ := ρ) hall
  exact ⟨sorted, hperm, hsorted, reader, hreader, hholds.drains hall⟩

theorem sortedFacts_unique {a b : List Fact} (ha : SortedFacts a) (hb : SortedFacts b) (h : a.Perm b) : a = b :=
  h.eq_of_pairwise (fun _ _ _ _ hab hba => toLex.injective (le_antisymm hab hba)) ha hb

/-- The files give what the sorter of whole facts returns. -/
theorem returns_sorter_facts {used' : Nat} {sorted : List Fact}
    (h : (facts.foldlM Wayjournal.ExternalSorter.push .new >>= Wayjournal.ExternalSorter.finish).run used = .ok (sorted, used'))
    (hfits : ∀ fact ∈ facts, Fits fact) (hroom : base + 2 * bytesOf facts ≤ maximum) (runBytes : Nat) :
    Returns (facts.foldlM (ExternalSorter.push maximum) (.withRunBytes runBytes) >>= ExternalSorter.finish ρ maximum) base
      (fun file _ => ∃ reader : FactReader ρ, FactReader.new file = .ok reader ∧ Drains FactReader.take reader sorted none) := by
  have hpushed : Ensures (facts.foldlM Wayjournal.ExternalSorter.push .new) (fun sorter => sorter.Sorts facts) :=
    .foldlM (fun done sorter => Wayjournal.ExternalSorter.Sorts sorter done) Wayjournal.ExternalSorter.sorts_new
      fun _ fact _ _ h => h.push fact
  obtain ⟨hsorted, hperm⟩ := Ensures.bind hpushed (fun _ h => h.finish) _ _ _ h
  refine (returns_sort runBytes hfits hroom).mono ?_
  rintro file _ ⟨sorted', hperm', hsorted', hread⟩
  rwa [sortedFacts_unique hsorted hsorted' (hperm.trans hperm'.symm)]

end Finish

section Fields

variable {message : String} {values : List Bytes} {value tail : Bytes} {location : Option Location}

theorem takeValue_append (h : value.length < 65536) :
    takeValue message (beBytes 2 value.length ++ value ++ tail) = .ok (value, tail) := by
  have hlength : fromBeBytes ((beBytes 2 value.length ++ value ++ tail).take 2) = value.length := by
    rw [List.append_assoc, List.take_left' (length_beBytes ..), fromBeBytes_beBytes h]
  have htotal : (beBytes 2 value.length ++ value ++ tail).length = 2 + value.length + tail.length := by
    rw [List.length_append, List.length_append, length_beBytes]
  unfold takeValue
  rw [if_neg (by omega)]
  dsimp only
  rw [hlength, if_neg (by omega), List.append_assoc, List.drop_left' (length_beBytes ..), List.take_left,
    ← List.append_assoc, List.drop_left' (by rw [List.length_append, length_beBytes])]

theorem takeValues_fields (message : String) (tail : Bytes) (h : ∀ value ∈ values, value.length < 65536) :
    takeValues message values.length (fields values ++ tail) = .ok (values, tail) := by
  induction values with
  | nil => rfl
  | cons value values ih =>
    obtain ⟨hvalue, hvalues⟩ := List.forall_mem_cons.mp h
    rw [List.length_cons, takeValues, fields, List.flatMap_cons, List.append_assoc, takeValue_append hvalue, ok_bind]
    change (takeValues message values.length (fields values ++ tail) >>= _) = _
    rw [ih hvalues, ok_bind]
    rfl

theorem parseFields_fields (h : ∀ value ∈ values, value.length < 65536) :
    parseFields (fields values) values.length = .ok values := by
  have hvalues := takeValues_fields "truncated semantic fields" [] h
  rw [List.append_nil] at hvalues
  rw [parseFields, hvalues, ok_bind]
  rfl

theorem length_of_takeValue {rest : Bytes} (h : takeValue message value = .ok (tail, rest)) : tail.length < 65536 := by
  unfold takeValue at h
  split at h
  · cases h
  · dsimp only at h
    split at h
    · cases h
    · cases h
      have hlt := fromBeBytes_lt (value.take 2)
      have hpow := Nat.pow_le_pow_right (show 0 < 256 by omega) (show (value.take 2).length ≤ 2 from List.length_take_le _ _)
      rw [List.length_take]
      omega

theorem of_takeValues {expected : Nat} {rest : Bytes} (h : takeValues message expected value = .ok (values, rest)) :
    values.length = expected ∧ ∀ value ∈ values, value.length < 65536 := by
  induction expected generalizing value values with
  | zero =>
    cases h
    exact ⟨rfl, fun _ h => absurd h List.not_mem_nil⟩
  | succ expected ih =>
    obtain ⟨⟨first, value⟩, hfirst, h⟩ := except_bind_eq_ok.mp h
    obtain ⟨⟨others, rest⟩, hothers, h⟩ := except_bind_eq_ok.mp h
    cases h
    obtain ⟨hlength, hall⟩ := ih hothers
    exact ⟨by rw [List.length_cons, hlength], List.forall_mem_cons.mpr ⟨length_of_takeValue hfirst, hall⟩⟩

/-- The end of the value of an enriched fact. -/
def locationBytes : Option Location → Bytes
  | none => [0]
  | some location => 1 :: location.encode

theorem parseStatusLocation_locationBytes (h : ∀ l ∈ location, l.Fits) :
    parseStatusLocation (locationBytes location) = .ok location := by
  cases location with
  | none => rfl
  | some location =>
    have hfits := h location rfl
    have hlength : location.encode.length = 12 := by simp [Location.encode]
    rw [locationBytes, parseStatusLocation, if_pos hlength, Location.encode, List.take_left' (length_beBytes ..),
      List.drop_left' (length_beBytes ..), fromBeBytes_beBytes hfits.1, fromBeBytes_beBytes hfits.2]

theorem parseEnrichedStatus_enrichedFact {claim fact : Fact} (h : enrichedFact claim location = .ok fact)
    (hpath : claim.1.length < 65536) (hlocation : ∀ l ∈ location, l.Fits) :
    ∃ batch values, parseFields claim.2 6 = .ok (batch :: values) ∧
      parseEnrichedStatus fact.2 = .ok ⟨claim.1, claim.1 :: values, location⟩ := by
  obtain ⟨parsed, hparsed, h⟩ := except_bind_eq_ok.mp h
  obtain ⟨⟨taken, rest⟩, htaken, hrest⟩ := except_bind_eq_ok.mp hparsed
  obtain ⟨-, htrailing⟩ := guard_bind_eq_ok.mp hrest
  cases htrailing
  obtain ⟨hlength, hall⟩ := of_takeValues htaken
  match parsed, hlength with
  | [batch, actor, request, recordId, recordSchema, contentDigest], _ =>
    refine ⟨batch, [actor, request, recordId, recordSchema, contentDigest], hparsed, ?_⟩
    have hvalue : fact.2 = fields [claim.1, actor, request, recordId, recordSchema, contentDigest] ++ locationBytes location := by
      cases h
      cases location <;> simp [locationBytes]
    have hvalues := takeValues_fields "truncated enriched status" (locationBytes location)
      (List.forall_mem_cons.mpr ⟨hpath, (List.forall_mem_cons.mp hall).2⟩)
    rw [parseEnrichedStatus, hvalue]
    rw [show takeValues "truncated enriched status" 6 _ = _ from hvalues, ok_bind]
    dsimp only
    rw [parseStatusLocation_locationBytes hlocation]
    rfl

end Fields

/-- Facts come back from the files of a sort as they went in, in order and none of them lost, twice or changed. -/
theorem external_sort_exact (ρ : Type) [BufReader ρ] :
    (∀ (facts : List Fact) (runBytes maximum base : Nat), (∀ fact ∈ facts, Fits fact) → base + 2 * bytesOf facts ≤ maximum →
      Returns (facts.foldlM (ExternalSorter.push maximum) (.withRunBytes runBytes) >>= ExternalSorter.finish ρ maximum) base
        (fun file _ => ∃ sorted, sorted.Perm facts ∧ SortedFacts sorted ∧
          ∃ reader : FactReader ρ, FactReader.new file = .ok reader ∧ Drains FactReader.take reader sorted none)) ∧
    (∀ (facts : List Fact) (maximum base : Nat), (∀ fact ∈ facts, Fits fact) → base + bytesOf facts ≤ maximum →
      Returns (facts.foldlM (writeRecord maximum) []) base
        (fun file _ => Drains readRecord (BufReader.new file : ρ) facts none)) ∧
    (∀ values : List Bytes, (∀ value ∈ values, value.length < 65536) → parseFields (fields values) values.length = .ok values) ∧
    ∀ (claim fact : Fact) (location : Option Location), enrichedFact claim location = .ok fact → claim.1.length < 65536 →
      (∀ l ∈ location, l.Fits) → ∃ batch values, parseFields claim.2 6 = .ok (batch :: values) ∧
        parseEnrichedStatus fact.2 = .ok ⟨claim.1, claim.1 :: values, location⟩ := by
  refine ⟨fun _ runBytes _ _ hfits hroom => returns_sort runBytes hfits hroom, ?_, fun _ h => parseFields_fields h,
    fun _ _ _ h => parseEnrichedStatus_enrichedFact h⟩
  intro facts maximum base hfits hroom
  refine (returns_writeRecords hfits hroom).mono ?_
  rintro file used ⟨rfl, -⟩
  exact drains_readRecord hfits (BufReader.unread_new _)

namespace Sample

@[reducible] def bufReader : BufReader (Chunks UInt8) where
  new := .singles
  unread_new := Chunks.unread_singles

def facts : List Fact := [(asBytes "b", asBytes "1"), (asBytes "a", asBytes "2"), (asBytes "b", asBytes "0")]

end Sample

attribute [local instance] Sample.bufReader in
/-- Every fact in a run of its own. -/
theorem facts_sorted_from_single_runs :
    Returns (Sample.facts.foldlM (ExternalSorter.push 100) (.withRunBytes 0) >>= ExternalSorter.finish (Chunks UInt8) 100) 0
      (fun file _ => ∃ sorted, sorted.Perm Sample.facts ∧ SortedFacts sorted ∧
        ∃ reader : FactReader (Chunks UInt8), FactReader.new file = .ok reader ∧ Drains FactReader.take reader sorted none) :=
  (external_sort_exact (Chunks UInt8)).1 Sample.facts 0 100 0 (by unfold Fits; decide +kernel) (by decide +kernel)

end Wayjournal.SortFiles
