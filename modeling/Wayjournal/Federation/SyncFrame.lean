import Wayjournal.Federation.SyncRecover
import Wayjournal.Federation.SyncSteps

namespace Wayjournal

open Collections Crash Fs FileSystem Text

section Staging

variable {H : Guarantee Disk} {γ : Type} {repository : SyncRepository}

theorem keeps_writeNew {d : Directory} {name : Name} {bytes : Bytes} (h : d.Free H) : (writeNew d name bytes).Keeps H :=
  .bind (h.keeps_createFile.mapError _) fun _ => h.keeps_writeAll.mapError _

theorem keeps_stagingStep {α : Type} {p : PendingM α} (h : p.Keeps H) :
    (stagingStep p : Program (World γ) StagingFailure α).Keeps (idle H) :=
  (keeps_onDisk h).mapError _

variable [Git γ]

theorem keeps_nextAddition (hplace : repository.place.Allowed H) (source : TreeAdditionSource) :
    (nextAddition repository source : Program (World γ) StagingFailure _).Keeps (idle H) :=
  .mapError (.bind (SyncRepository.keeps_nextFile hplace source) fun _ => .pure _) _

variable [Blake3]

theorem keeps_stageBlobFrom (hplace : repository.place.Allowed H) {blobChunk : Directory} (h : blobChunk.Free H)
    (number : Nat) (state : SourceStaging TreeAdditionSource) (position : Nat) :
    (stageBlobFrom stagingStep (nextAddition (γ := γ) repository) blobChunk number state position).Keeps (idle H) := by
  refine .bind (keeps_nextAddition hplace _) fun next => ?_
  split
  · refine .ite (.bind (keeps_stagingStep (.throw _)) fun _ => ?_) ?_
    all_goals exact .bind (keeps_stagingStep (keeps_writeNew h)) fun _ => .pure _
  · exact keeps_stagingStep (.throw _)

theorem keeps_stageChunkFrom (hplace : repository.place.Allowed H) {chunksDir blobsDir : Directory} (hchunks : chunksDir.Free H)
    (hblobs : blobsDir.Free H) (count : Nat) (state : SourceStaging TreeAdditionSource) (number : Nat) :
    (stageChunkFrom stagingStep (nextAddition (γ := γ) repository) count chunksDir blobsDir state number).Keeps (idle H) := by
  refine .bindOf (keeps_stagingStep (hblobs.keeps_ensureDir.mapError _)) fun s (blobChunk, created) hmade => ?_
  obtain rfl : blobChunk = _ := Directory.child_of_ensureDir (mapError_eq_ok.mp (mapError_eq_ok.mp hmade))
  refine .ite (.bind (keeps_stagingStep (.throw _)) fun _ => ?_) ?_
  all_goals
    refine .bind (.foldlM (keeps_stageBlobFrom hplace (hblobs.child _) _) _ _) fun state => ?_
    refine .bind (keeps_stagingStep (.ofExcept _)) fun encoded => ?_
    exact .bind (keeps_stagingStep (keeps_writeNew hchunks)) fun _ => .pure _

theorem keeps_stageChunksFrom (hplace : repository.place.Allowed H) {operation : Directory}
    (h : (operation.child .additions).Free H) (count totalBytes : Nat) (source : TreeAdditionSource) :
    (stageChunksFrom stagingStep (nextAddition (γ := γ) repository) operation count totalBytes source).Keeps (idle H) := by
  refine .bind (keeps_stagingStep (.ofExcept _)) fun _ => ?_
  refine .bindOf (keeps_stagingStep ((h.keeps Directory.within_ensureDir).mapError _)) fun s (additions, created) hmade => ?_
  obtain rfl : additions = _ := Directory.child_of_ensureDir (mapError_eq_ok.mp (mapError_eq_ok.mp hmade))
  refine .ite (.bind (keeps_stagingStep (.throw _)) fun _ => ?_) ?_
  all_goals
    refine .bindOf (keeps_stagingStep (h.keeps_ensureDir.mapError _)) fun s (chunks, _) hchunks => ?_
    obtain rfl : chunks = _ := Directory.child_of_ensureDir (mapError_eq_ok.mp (mapError_eq_ok.mp hchunks))
    refine .bindOf (keeps_stagingStep (h.keeps_ensureDir.mapError _)) fun s (blobs, _) hblobs => ?_
    obtain rfl : blobs = _ := Directory.child_of_ensureDir (mapError_eq_ok.mp (mapError_eq_ok.mp hblobs))
    refine .bind (keeps_stagingStep (.ofExcept _)) fun chunks => ?_
    exact .bind (.foldlM (keeps_stageChunkFrom hplace (h.child _) (h.child _) _) _ _) fun _ => .pure _

theorem additionsDir_of_stageChunksFrom {operation : Directory} {count totalBytes : Nat} {source : TreeAdditionSource}
    {w : World γ} {staged : StagedChunks TreeAdditionSource}
    (h : (stageChunksFrom stagingStep (nextAddition repository) operation count totalBytes source).result w = .ok staged) :
    staged.additionsDir = operation.child .additions := by
  obtain ⟨_, -, h⟩ := Program.bind_eq_ok.mp h
  obtain ⟨⟨additions, created⟩, hmade, h⟩ := Program.bind_eq_ok.mp h
  obtain rfl : additions = _ := Directory.child_of_ensureDir (mapError_eq_ok.mp (mapError_eq_ok.mp hmade))
  dsimp only at h
  split at h
  · obtain ⟨_, hthrow, -⟩ := Program.bind_eq_ok.mp h
    cases hthrow
  · obtain ⟨_, -, h⟩ := Program.bind_eq_ok.mp h
    obtain ⟨_, -, h⟩ := Program.bind_eq_ok.mp h
    obtain ⟨_, -, h⟩ := Program.bind_eq_ok.mp h
    obtain ⟨_, -, h⟩ := Program.bind_eq_ok.mp h
    cases h
    rfl

variable [Url]

theorem keeps_finishStaging {document : PendingDocument} {count totalBytes : Nat} {more : Bool} {ρ : Type}
    {staged : StagedChunks ρ} (h : staged.additionsDir.Free H) :
    (finishStaging document count totalBytes staged more).Keeps H := by
  refine .guard (.bind (.ofExcept _) fun index => .bind (keeps_writeNew h) fun _ => ?_)
  exact .bind (.ofExcept _) fun _ => .bind (.ofExcept _) fun _ => .pure _

end Staging

section Recheck

variable [Blake3] [ReadDir] [Url] {σ ε β : Type} {G : Guarantee σ} {lift : {α : Type} → PendingM α → Program σ ε α}
  {visit : β → StagedAddition → Program σ ε β}

/-- The walk over the additions only reads; its visitor decides what else happens. -/
theorem keeps_foldAdditionsIn (hlift : ∀ {α : Type} {p : PendingM α}, p.ReadOnly → (lift p).Keeps G)
    (hvisit : ∀ b a, (visit b a).Keeps G) (pending : DurablePending) (b : β) :
    (foldAdditionsIn lift visit pending b).Keeps G := by
  refine .bind (hlift (sees_readIndex rfl).readOnly) fun index => .bind (.foldlM (fun state entry => ?_) _ _) fun state => ?_
  · refine .bind (hlift readOnly_readChunk) fun _ => .foldlM (fun state entry => ?_) _ _
    refine .bind (hlift (sees_readBlob rfl).readOnly) fun bytes => .ite (.bind (hlift (.throw _)) fun _ => ?_) ?_
    all_goals exact .bind (hvisit _ _) fun _ => .pure _
  · refine .ite (.bind (hlift (.throw _)) fun _ => ?_) ?_
    all_goals exact .pure _

variable {γ : Type} [Git γ] {H : Guarantee Disk} {repository : SyncRepository}

theorem keeps_recheckAdditions (hplace : repository.place.Allowed H) (pending : DurablePending)
    (state : TreeAdditionSource × Nat) :
    (foldAdditionsIn recheckStep (recheckAddition (γ := γ) repository) pending state).Keeps (idle H) := by
  refine keeps_foldAdditionsIn (fun h => .mapError (.readOnly (readOnly_onDisk h)) _) (fun state staged => ?_) _ _
  refine .bind (.mapError (SyncRepository.keeps_nextFile hplace _) _) fun next => ?_
  split
  · exact .guard (.pure _)
  · exact .throw _

end Recheck

end Wayjournal
