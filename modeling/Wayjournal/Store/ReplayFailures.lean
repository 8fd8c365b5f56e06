import Wayjournal.Store.SorterCost

namespace Wayjournal

open Collections Fs Text

theorem avoids_corrupt {α : Type} (issue : StoreCorruption) : Avoids OutOfScratch (.error (.corrupt issue) : Except StoreError α) :=
  .error (not_outOfScratch_corrupt issue)

theorem avoids_here {α : Type} (message : String) :
    Avoids OutOfScratch (.error (.invalidLayout HERE message) : Except StoreError α) :=
  .error (not_outOfScratch_here message)

theorem avoids_decodeLocation (value : Bytes) : Avoids OutOfScratch (decodeLocation value) :=
  .ite (avoids_here _) (.ok _)

theorem avoids_cursor (replay : CanonicalReplay) : Avoids OutOfScratch replay.cursor :=
  .mapM (fun _ => .bind (avoids_decodeLocation _) fun _ => .ok _) _

theorem avoids_countEntry (budget : CanonicalEntryBudget) (entry : Fact) :
    Avoids OutOfScratch (CanonicalReplayBuilder.countEntry budget entry) := by
  unfold CanonicalReplayBuilder.countEntry
  split
  · exact .error (not_outOfScratch_message (by decide) (by decide))
  · exact .ok _

section Facts

theorem avoids_takeValue (message : String) (value : Bytes) : Avoids OutOfScratch (takeValue message value) :=
  .ite (avoids_here _) (.ite (avoids_here _) (.ok _))

theorem avoids_takeValues (message : String) (expected : Nat) (value : Bytes) :
    Avoids OutOfScratch (takeValues message expected value) := by
  induction expected generalizing value with
  | zero => exact .ok _
  | succ expected ih => exact .bind (avoids_takeValue message value) fun first => .bind (ih first.2) fun _ => .ok _

theorem avoids_parseFields (value : Bytes) (expected : Nat) : Avoids OutOfScratch (parseFields value expected) :=
  .bind (avoids_takeValues _ _ _) fun _ => .guard (not_outOfScratch_here _) (.ok _)

theorem avoids_parseFact (α : Type) [FromStr α] (message : String) (bytes : Bytes) :
    Avoids OutOfScratch (parseFact α message bytes) := by
  unfold parseFact
  split
  · exact avoids_here _
  · exact .ok _

theorem avoids_parseDigestFact (bytes : Bytes) : Avoids OutOfScratch (parseDigestFact bytes) := by
  unfold parseDigestFact
  split
  · exact avoids_here _
  · exact .ok _

theorem avoids_parseUsize (bytes : Bytes) : Avoids OutOfScratch (parseUsize bytes) := by
  unfold parseUsize
  split
  · exact avoids_here _
  · exact .ok _

theorem avoids_validateDuplicateRecordIds (facts : List Fact) : Avoids OutOfScratch (validateDuplicateRecordIds facts) := by
  refine .forM (fun group => ?_) _
  split
  · exact .bind (avoids_parseFact _ _ _) fun _ => avoids_corrupt _
  · exact .ok _

theorem avoids_validateDuplicateIdempotency (facts : List Fact) :
    Avoids OutOfScratch (validateDuplicateIdempotency facts) := by
  refine .forM (fun group => ?_) _
  exact .bind (.mapM (fun _ => avoids_parseFact _ _ _) _) fun _ => .ite (avoids_corrupt _) (.ok _)

theorem avoids_enrichedFact (claim : Fact) (location : Option Location) : Avoids OutOfScratch (enrichedFact claim location) := by
  refine .bind (avoids_parseFields _ _) fun values => ?_
  split
  · exact .ok _
  · exact avoids_here _

theorem avoids_parseStatusLocation (tail : Bytes) : Avoids OutOfScratch (parseStatusLocation tail) := by
  unfold parseStatusLocation
  split
  · exact .ok _
  · exact .ite (.ok _) (avoids_here _)
  · exact avoids_here _

theorem avoids_parseStatus (value : Bytes) : Avoids OutOfScratch (parseStatus value) := by
  refine .bind (avoids_takeValues _ _ _) fun values => .bind (avoids_parseStatusLocation _) fun location => ?_
  split
  · refine .bind (avoids_parseFact _ _ _) fun recordId => ?_
    split
    · exact .bind (avoids_parseDigestFact _) fun _ => .ok _
    · exact avoids_here _
  · exact avoids_here _

end Facts

/-- What a fold reports of its loader is what the loader said. -/
theorem of_loadedLoop_error {ε σ : Type} {load : Nat → Except ε DomainOperation}
    {step : DomainOperation → σ → Reachability → Except FoldError (σ × Reachability)} {headers : List DomainOperationHeader}
    {state : σ} {r : Reachability} {e : ε} (h : loadedLoop load step headers state r = .error (.load e)) :
    ∃ source, load source = .error e := by
  induction headers generalizing state r with
  | nil => cases h
  | cons header rest ih =>
    rw [loadedLoop] at h
    split at h
    · rename_i e' hload
      cases h
      exact ⟨header.source, hload⟩
    · split at h
      · cases h
      · exact ih h

theorem of_validateLoadedBuiltinFold_error {ε : Type} {load : Nat → Except ε DomainOperation}
    {operations : List DomainOperationHeader} {e : ε}
    (h : validateLoadedBuiltinFold operations load = .error (.load e)) : ∃ source, load source = .error e := by
  have hmap : ∀ {σ : Type} {x : Except (FoldLoadError ε) σ}, x.map (fun _ => ()) = .error (.load e) → x = .error (.load e) := by
    intro σ x hx
    cases x with
    | error e' =>
      cases hx
      rfl
    | ok a => cases hx
  unfold validateLoadedBuiltinFold at h
  split at h
  · cases h
  · split at h
    · cases h
    · split at h
      · cases h
      · split at h
        · exact of_loadedLoop_error (hmap h)
        · exact of_loadedLoop_error (hmap h)

theorem avoids_validateLegacyReplay (store : Store) (files : List (RawFile × Location)) :
    Avoids OutOfScratch (validateLegacyReplay store files) :=
  .bind (.mapError fun _ => not_outOfScratch_corrupt _) fun _ => .ite (avoids_corrupt _) (.ok _)

theorem avoids_decodeManifestFile (file : RawFile) : Avoids OutOfScratch (decodeManifestFile file) :=
  .bind (.mapError fun _ => not_outOfScratch_corrupt _) fun _ => .guard (not_outOfScratch_corrupt _) (.ok _)

section

variable [Jiff]

theorem avoids_decodeBuiltinRecord (registry : DomainRegistry) (file : RawFile) :
    Avoids OutOfScratch (decodeBuiltinRecord registry file) :=
  .mapError fun _ => not_outOfScratch_corrupt _

theorem avoids_decodeRecordFile (registry : DomainRegistry) (file : RawFile) :
    Avoids OutOfScratch (decodeRecordFile registry file) :=
  .bind (avoids_decodeBuiltinRecord registry file) fun _ => .guard (not_outOfScratch_corrupt _) (.ok _)

section Batches

variable [Blake3]

theorem avoids_validateStatus (registry : DomainRegistry) (replay : CanonicalReplay) (batchId : BatchId) (actor : String)
    (status : Status) : Avoids OutOfScratch (validateStatus registry replay batchId actor status) := by
  unfold validateStatus
  split
  · refine .ite (avoids_corrupt _) (.bind (.mapError fun _ => not_outOfScratch_corrupt _) fun record => ?_)
    refine .ite (avoids_corrupt _) (.ite (avoids_corrupt _) (.ite (avoids_corrupt _) (.ok _)))
  · exact avoids_corrupt _

theorem avoids_validateBatch (registry : DomainRegistry) (replay : CanonicalReplay) (statuses : List Fact) (header : Fact) :
    Avoids OutOfScratch (validateBatch registry replay statuses header) := by
  refine .bind (avoids_parseFields _ _) fun values => ?_
  split
  · split
    · refine .bind (avoids_parseDigestFact _) fun request => .bind (avoids_parseUsize _) fun count => ?_
      refine .bind (.mapM (fun _ => avoids_parseStatus _) _) fun batchStatuses => .guard (not_outOfScratch_here _) ?_
      split
      · exact avoids_corrupt _
      · refine .bind (avoids_parseFact _ _ _) fun batchId => .bind (.mapM (avoids_validateStatus _ _ _ _) _) fun members => ?_
        exact .ite (avoids_corrupt _) (.ok _)
    · exact avoids_here _
  · exact avoids_here _

theorem avoids_validateBatches (registry : DomainRegistry) (replay : CanonicalReplay) (headers enriched : List Fact) :
    Avoids OutOfScratch (validateBatches registry replay headers enriched) :=
  .bind (.foldlM (avoids_validateBatch registry replay) _ _) fun _ => .ite (avoids_here _) (.ok _)

end Batches

section Folds

theorem avoids_foldOperation (record : Record) : Avoids OutOfScratch (foldOperation record) :=
  .mapError fun _ => not_outOfScratch_corrupt _

theorem avoids_loadOperation (registry : DomainRegistry) (replay : CanonicalReplay) (sources : List (Bytes × Location))
    (source : Nat) : Avoids OutOfScratch (loadOperation registry replay sources source) := by
  unfold loadOperation
  split
  · exact .bind (avoids_decodeBuiltinRecord _ _) fun _ => avoids_foldOperation _
  · exact avoids_here _

theorem avoids_finishFold (registry : DomainRegistry) (replay : CanonicalReplay) (group : FoldGroup) :
    Avoids OutOfScratch (finishFold registry replay group) := by
  unfold finishFold
  split
  · exact .ok _
  · split
    · exact avoids_corrupt _
    · split
      · exact .ok _
      · rename_i e hfold
        obtain ⟨source, hload⟩ := of_validateLoadedBuiltinFold_error hfold
        exact .error (avoids_loadOperation registry replay group.sources source e hload)
      · exact avoids_corrupt _

theorem avoids_foldedRecord (registry : DomainRegistry) (file : RawFile) : Avoids OutOfScratch (foldedRecord registry file) :=
  .ite (.ok _) (.bind (avoids_decodeBuiltinRecord _ _) fun _ => .ok _)

theorem avoids_foldFile (registry : DomainRegistry) (replay : CanonicalReplay) (group : FoldGroup) (file : RawFile × Location) :
    Avoids OutOfScratch (foldFile registry replay group file) := by
  refine .bind (avoids_foldedRecord _ _) fun folded => ?_
  split
  · refine .ite (.bind (avoids_finishFold _ _ _) fun _ => ?_) ?_
    · exact .bind (avoids_foldOperation _) fun _ => .ite (.ok _) (.ok _)
    · exact .bind (avoids_foldOperation _) fun _ => .ite (.ok _) (.ok _)
  · exact .ok _

theorem avoids_validateBuiltinFoldsBounded (registry : DomainRegistry) (replay : CanonicalReplay)
    (files : List (RawFile × Location)) : Avoids OutOfScratch (validateBuiltinFoldsBounded registry replay files) := by
  refine .bind (.forM (fun file => .bind (avoids_foldedRecord _ _) fun folded => ?_) _) fun _ => ?_
  · split
    · exact .bind (avoids_foldOperation _) fun _ => .ok _
    · exact .ok _
  · exact .bind (.foldlM (avoids_foldFile registry replay) _ _) fun group => avoids_finishFold _ _ _

theorem avoids_replayedIdentity [Blake3] (registry : DomainRegistry) (replay : CanonicalReplay)
    (files : List (RawFile × Location)) (collector : ReplayCollector) :
    Avoids OutOfScratch (replayedIdentity registry replay files collector) := by
  have hgenesis : Avoids OutOfScratch (collector.genesis.mapM (decodeGenesis registry replay)) := by
    cases collector.genesis with
    | none => exact .ok _
    | some genesis => exact .bind (.bind (.mapError fun _ => not_outOfScratch_corrupt _) fun _ => .ok _) fun _ => .ok _
  refine .bind hgenesis fun genesis => .bind (.mapError fun _ => not_outOfScratch_corrupt _) fun identity => ?_
  exact .bind (avoids_validateBuiltinFoldsBounded _ _ _) fun _ => .ok _

end Folds

end

end Wayjournal
