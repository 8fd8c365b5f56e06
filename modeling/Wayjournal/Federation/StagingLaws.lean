import Wayjournal.Crash.View
import Wayjournal.Federation.PendingLaws
import Wayjournal.Federation.Staging

namespace Wayjournal

open Crash Fs Text

section Reads

variable {area : Area} {d : Directory} {name : Name}

/-- What one area shows. -/
def Disk.view (area : Area) (s : Disk) : FileSystem Name := s area

theorem Directory.sees_openDir (h : d.area = area) : (d.openDir name).Sees (Disk.view area) := by
  subst h
  refine ⟨readOnly_openDir, fun {s t} heq => ?_⟩
  have harea : s d.area = t d.area := heq
  unfold openDir
  rw [Program.result_reads, Program.result_reads, child?, child?, harea]

theorem Directory.sees_openFile (h : d.area = area) : (d.openFile name).Sees (Disk.view area) := by
  subst h
  refine ⟨readOnly_openFile, fun {s t} heq => ?_⟩
  have harea : s d.area = t d.area := heq
  unfold openFile
  rw [Program.result_reads, Program.result_reads, child?, child?, harea]

theorem Directory.sees_boundedNames [ReadDir] {limit : Nat} (h : d.area = area) :
    (d.boundedNames limit).Sees (Disk.view area) := by
  subst h
  refine ⟨readOnly_boundedNames, fun {s t} heq => ?_⟩
  have harea : s d.area = t d.area := heq
  unfold boundedNames
  rw [Program.result_reads, Program.result_reads, names, names, harea]

theorem sees_liftPending {α : Type} {p : DiskM α} (h : p.Sees (Disk.view area)) :
    (liftM p : PendingM α).Sees (Disk.view area) := h.mapError _

theorem sees_boundedFile {limit : Nat} (h : d.area = area) : (boundedFile d name limit).Sees (Disk.view area) :=
  .bind (sees_liftPending (Directory.sees_openFile h)) fun _ => .ofExcept _

theorem sees_requireExactNames [ReadDir] {expected : List Name} (h : d.area = area) :
    (requireExactNames d expected).Sees (Disk.view area) :=
  .bind (sees_liftPending (Directory.sees_boundedNames h)) fun _ => .ite (.throw _) (.pure _)

variable [Blake3]

theorem sees_readBlob {number position : Nat} {metadata : AdditionEntry} (h : d.area = area) :
    (readBlob d number position metadata).Sees (Disk.view area) := by
  refine .bind (sees_boundedFile h) fun bytes => .ite (.bind (.throw _) fun _ => ?_) ?_
  all_goals exact .pure _

variable [ReadDir]

theorem sees_readChunk {chunks blobs : Directory} {entry : IndexEntry} (hchunks : chunks.area = area)
    (hblobs : blobs.area = area) : (readChunk chunks blobs entry).Sees (Disk.view area) := by
  refine .bind (sees_boundedFile hchunks) fun encoded => .ite (.bind (.throw _) fun _ => ?_) ?_
  all_goals
    refine .bind (.ofExcept _) fun decoded => .ite (.bind (.throw _) fun _ => ?_) ?_
    all_goals
      refine .bindOf (sees_liftPending (Directory.sees_openDir hblobs)) fun s blobChunk h => ?_
      obtain rfl := Directory.child_of_openDir (mapError_eq_ok.mp h)
      exact .bind (sees_requireExactNames hblobs) fun _ => .pure _

theorem readOnly_readChunk {chunks blobs : Directory} {entry : IndexEntry} :
    (readChunk chunks blobs entry).ReadOnly := by
  refine .bind (sees_boundedFile rfl).readOnly fun encoded => .ite (.bind (.throw _) fun _ => ?_) ?_
  all_goals
    refine .bind (.ofExcept _) fun decoded => .ite (.bind (.throw _) fun _ => ?_) ?_
    all_goals
      refine .bind (readOnly_liftPending Directory.readOnly_openDir) fun blobChunk => ?_
      exact .bind (sees_requireExactNames rfl).readOnly fun _ => .pure _

theorem area_of_readChunk {chunks blobs : Directory} {entry : IndexEntry} {s : Disk} {metadata : List AdditionEntry}
    {blobChunk : Directory} (h : (readChunk chunks blobs entry).result s = .ok (metadata, blobChunk)) :
    blobChunk.area = blobs.area := by
  unfold readChunk at h
  obtain ⟨encoded, -, h⟩ := (Program.result_bind_eq_ok (sees_boundedFile rfl).readOnly).mp h
  split at h
  · cases h
  · obtain ⟨⟨number, decoded⟩, -, h⟩ := (Program.result_bind_eq_ok (.ofExcept _)).mp h
    dsimp only at h
    split at h
    · cases h
    · obtain ⟨directory, hdirectory, h⟩ :=
        (Program.result_bind_eq_ok (readOnly_liftPending Directory.readOnly_openDir)).mp h
      obtain ⟨_, -, h⟩ := (Program.result_bind_eq_ok (sees_requireExactNames rfl).readOnly).mp h
      cases h
      obtain rfl := Directory.child_of_openDir (mapError_eq_ok.mp hdirectory)
      rfl

variable [Url] {pending : DurablePending}

theorem sees_readIndex (h : pending.directory.area = area) : (readIndex pending).Sees (Disk.view area) := by
  unfold readIndex
  refine .bindOf (sees_liftPending (Directory.sees_openDir h)) fun s additions hadditions => ?_
  obtain rfl := Directory.child_of_openDir (mapError_eq_ok.mp hadditions)
  refine .bind (sees_boundedFile h) fun index => .ite (.bind (.throw _) fun _ => ?_) ?_
  all_goals
    refine .bind (.ofExcept _) fun decoded => .ite (.bind (.throw _) fun _ => ?_) ?_
    all_goals
      refine .bindOf (sees_liftPending (Directory.sees_openDir h)) fun s chunks hchunks => ?_
      obtain rfl := Directory.child_of_openDir (mapError_eq_ok.mp hchunks)
      refine .bindOf (sees_liftPending (Directory.sees_openDir h)) fun s blobs hblobs => ?_
      obtain rfl := Directory.child_of_openDir (mapError_eq_ok.mp hblobs)
      refine .bind (sees_requireExactNames h) fun _ => .bind (sees_requireExactNames h) fun _ => ?_
      exact .bind (sees_requireExactNames h) fun _ => .pure _

theorem area_of_readIndex {s : Disk} {index : AdditionIndex} (h : (readIndex pending).result s = .ok index) :
    index.chunks.area = pending.directory.area ∧ index.blobs.area = pending.directory.area := by
  unfold readIndex at h
  obtain ⟨additions, hadditions, h⟩ :=
    (Program.result_bind_eq_ok (readOnly_liftPending Directory.readOnly_openDir)).mp h
  obtain rfl := Directory.child_of_openDir (mapError_eq_ok.mp hadditions)
  obtain ⟨bytes, -, h⟩ := (Program.result_bind_eq_ok (sees_boundedFile rfl).readOnly).mp h
  split at h
  · cases h
  · obtain ⟨⟨count, totalBytes, entries⟩, -, h⟩ := (Program.result_bind_eq_ok (.ofExcept _)).mp h
    dsimp only at h
    split at h
    · cases h
    · obtain ⟨chunks, hchunks, h⟩ :=
        (Program.result_bind_eq_ok (readOnly_liftPending Directory.readOnly_openDir)).mp h
      obtain ⟨blobs, hblobs, h⟩ :=
        (Program.result_bind_eq_ok (readOnly_liftPending Directory.readOnly_openDir)).mp h
      obtain rfl := Directory.child_of_openDir (mapError_eq_ok.mp hchunks)
      obtain rfl := Directory.child_of_openDir (mapError_eq_ok.mp hblobs)
      obtain ⟨_, -, h⟩ := (Program.result_bind_eq_ok (sees_requireExactNames rfl).readOnly).mp h
      obtain ⟨_, -, h⟩ := (Program.result_bind_eq_ok (sees_requireExactNames rfl).readOnly).mp h
      obtain ⟨_, -, h⟩ := (Program.result_bind_eq_ok (sees_requireExactNames rfl).readOnly).mp h
      cases h
      exact ⟨rfl, rfl⟩

end Reads

section Visit

variable [Blake3] {β : Type} {visit : β → StagedAddition → PendingM β} {area : Area} {s : Disk}

/-- The loop variables with another captured value. -/
def VisitState.to {γ : Type} (state : VisitState β) (value : γ) : VisitState γ :=
  ⟨state.observedCount, state.observedBytes, state.previousPath, value⟩

/-- The visitor that only remembers what it is shown. -/
def collect (additions : List StagedAddition) (addition : StagedAddition) : PendingM (List StagedAddition) :=
  pure (additions ++ [addition])

theorem readOnly_visitBlob_collect {blobChunk : Directory} {number : Nat} (state : VisitState (List StagedAddition))
    (entry : AdditionEntry × Nat) : (visitBlob collect blobChunk number state entry).ReadOnly := by
  refine .bind (sees_readBlob rfl).readOnly fun bytes => .ite (.bind (.throw _) fun _ => ?_) ?_
  all_goals exact .bind (.pure _) fun _ => .pure _

theorem visitBlob_eq (visit : β → StagedAddition → PendingM β) {blobChunk : Directory} {number : Nat} {entry : AdditionEntry × Nat}
    {state state' : VisitState (List StagedAddition)} (harea : blobChunk.area = area)
    (h : (visitBlob collect blobChunk number state entry).result s = .ok state') :
    ∃ a, state'.value = state.value ++ [a] ∧ ∀ t b, t area = s area →
      visitBlob visit blobChunk number (state.to b) entry t =
        (visit b a >>= fun b' => pure (state'.to b') : PendingM (VisitState β)) t := by
  unfold visitBlob at h
  obtain ⟨bytes, hbytes, h⟩ := (Program.result_bind_eq_ok (sees_readBlob rfl).readOnly).mp h
  split at h
  · cases h
  · rename_i hordered
    cases h
    refine ⟨⟨entry.1.path, bytes⟩, rfl, fun t b ht => ?_⟩
    have hread := (sees_readBlob harea).apply_eq (show Disk.view area t = Disk.view area s from ht) hbytes
    have hrun := Program.bind_congr_at (f := fun bytes => do
      if (state.to b).previousPath.any (fun previous => entry.1.path ≤ previous) then
        throw (.invalid "staged additions are not globally ordered")
      let value ← visit (state.to b).value ⟨entry.1.path, bytes⟩
      return (⟨(state.to b).observedCount + 1, (state.to b).observedBytes + entry.1.byteLength, some entry.1.path,
        value⟩ : VisitState β)) hread fun _ _ => rfl
    refine hrun.trans ?_
    rw [pure_bind]
    exact congrFun (if_neg hordered) t

theorem readOnly_visitBlobs_collect {blobChunk : Directory} {number : Nat} {entries : List (AdditionEntry × Nat)}
    {state : VisitState (List StagedAddition)} :
    (entries.foldlM (visitBlob collect blobChunk number) state).ReadOnly :=
  .foldlM readOnly_visitBlob_collect _ _

theorem visitBlobs_eq {blobChunk : Directory} {number : Nat} {entries : List (AdditionEntry × Nat)}
    {state state' : VisitState (List StagedAddition)} (harea : blobChunk.area = area)
    (hvisit : ∀ b a, (visit b a).Keeps (.same (Disk.view area)))
    (h : (entries.foldlM (visitBlob collect blobChunk number) state).result s = .ok state') :
    ∃ new, state'.value = state.value ++ new ∧ ∀ t b, t area = s area →
      entries.foldlM (visitBlob visit blobChunk number) (state.to b) t =
        (new.foldlM visit b >>= fun b' => pure (state'.to b') : PendingM (VisitState β)) t := by
  induction entries generalizing state with
  | nil =>
    cases h
    refine ⟨[], (List.append_nil _).symm, fun t b ht => ?_⟩
    rw [List.foldlM_nil, List.foldlM_nil, pure_bind]
  | cons entry rest ih =>
    rw [List.foldlM_cons] at h
    obtain ⟨middle, hmiddle, h⟩ := (Program.result_bind_eq_ok (readOnly_visitBlob_collect _ _)).mp h
    obtain ⟨a, ha, hfirst⟩ := visitBlob_eq visit harea hmiddle
    obtain ⟨new, hnew, hrest⟩ := ih h
    refine ⟨a :: new, by rw [hnew, ha, List.append_assoc, List.singleton_append], fun t b ht => ?_⟩
    rw [List.foldlM_cons, List.foldlM_cons, bind_assoc]
    refine (Program.bind_congr_at (hfirst t b ht) fun _ _ => rfl).trans ?_
    rw [bind_assoc]
    refine Program.bind_congr_at rfl fun b' _ => ?_
    rw [pure_bind]
    exact hrest _ b' (((hvisit b a).final t).trans ht)

theorem keeps_visitBlob {G : Guarantee Disk} (hvisit : ∀ b a, (visit b a).Keeps G) {blobChunk : Directory} {number : Nat}
    (state : VisitState β) (entry : AdditionEntry × Nat) :
    (visitBlob visit blobChunk number state entry).Keeps G := by
  refine .bind (.readOnly (sees_readBlob rfl).readOnly) fun bytes => .ite (.bind (.throw _) fun _ => ?_) ?_
  all_goals exact .bind (hvisit _ _) fun _ => .pure _

variable [ReadDir]

theorem keeps_foldAdditions [Url] {pending : DurablePending} {G : Guarantee Disk}
    (hvisit : ∀ b a, (visit b a).Keeps G) (b : β) : (foldAdditions pending visit b).Keeps G := by
  refine .bind (.readOnly (sees_readIndex rfl).readOnly) fun index => .bind (.foldlM (fun state entry => ?_) _ _) ?_
  · exact .bind (.readOnly readOnly_readChunk) fun _ => .foldlM (keeps_visitBlob hvisit) _ _
  · intro state
    refine .ite (.bind (.throw _) fun _ => ?_) ?_
    all_goals exact .pure _

theorem readOnly_visitChunk_collect {chunks blobs : Directory} (state : VisitState (List StagedAddition))
    (entry : IndexEntry) : (visitChunk collect chunks blobs state entry).ReadOnly :=
  .bind readOnly_readChunk fun _ => readOnly_visitBlobs_collect

theorem visitChunk_eq {chunks blobs : Directory} {entry : IndexEntry}
    {state state' : VisitState (List StagedAddition)} (hchunks : chunks.area = area) (hblobs : blobs.area = area)
    (hvisit : ∀ b a, (visit b a).Keeps (.same (Disk.view area)))
    (h : (visitChunk collect chunks blobs state entry).result s = .ok state') :
    ∃ new, state'.value = state.value ++ new ∧ ∀ t b, t area = s area →
      visitChunk visit chunks blobs (state.to b) entry t =
        (new.foldlM visit b >>= fun b' => pure (state'.to b') : PendingM (VisitState β)) t := by
  have hsees : (readChunk chunks blobs entry).Sees (Disk.view area) := sees_readChunk hchunks hblobs
  unfold visitChunk at h
  obtain ⟨⟨metadata, blobChunk⟩, hread, h⟩ := (Program.result_bind_eq_ok hsees.readOnly).mp h
  obtain ⟨new, hnew, hrun⟩ := visitBlobs_eq ((area_of_readChunk hread).trans hblobs) hvisit h
  refine ⟨new, hnew, fun t b ht => ?_⟩
  have happly := hsees.apply_eq (show Disk.view area t = Disk.view area s from ht) hread
  rw [visitChunk]
  refine (Program.bind_congr_at happly fun _ _ => rfl).trans ?_
  rw [pure_bind]
  exact hrun t b ht

theorem visitChunks_eq {chunks blobs : Directory} {entries : List IndexEntry}
    {state state' : VisitState (List StagedAddition)} (hchunks : chunks.area = area) (hblobs : blobs.area = area)
    (hvisit : ∀ b a, (visit b a).Keeps (.same (Disk.view area)))
    (h : (entries.foldlM (visitChunk collect chunks blobs) state).result s = .ok state') :
    ∃ new, state'.value = state.value ++ new ∧ ∀ t b, t area = s area →
      entries.foldlM (visitChunk visit chunks blobs) (state.to b) t =
        (new.foldlM visit b >>= fun b' => pure (state'.to b') : PendingM (VisitState β)) t := by
  induction entries generalizing state with
  | nil =>
    cases h
    refine ⟨[], (List.append_nil _).symm, fun t b ht => ?_⟩
    rw [List.foldlM_nil, List.foldlM_nil, pure_bind]
  | cons entry rest ih =>
    rw [List.foldlM_cons] at h
    obtain ⟨middle, hmiddle, h⟩ := (Program.result_bind_eq_ok (readOnly_visitChunk_collect _ _)).mp h
    obtain ⟨first, hfirst, hrunFirst⟩ := visitChunk_eq hchunks hblobs hvisit hmiddle
    obtain ⟨new, hnew, hrunRest⟩ := ih h
    refine ⟨first ++ new, by rw [hnew, hfirst, List.append_assoc], fun t b ht => ?_⟩
    rw [List.foldlM_cons, List.foldlM_append, bind_assoc]
    refine (Program.bind_congr_at (hrunFirst t b ht) fun _ _ => rfl).trans ?_
    rw [bind_assoc]
    refine Program.bind_congr_at rfl fun b' _ => ?_
    rw [pure_bind]
    exact hrunRest _ b' (((Program.Keeps.foldlM hvisit first b).final t).trans ht)

variable [Url] {pending : DurablePending}

theorem readOnly_stagedAdditions : (stagedAdditions pending).ReadOnly := by
  unfold stagedAdditions foldAdditions
  refine .bind (sees_readIndex rfl).readOnly fun index => .bind (.foldlM readOnly_visitChunk_collect _ _) fun state => ?_
  refine .ite (.bind (.throw _) fun _ => ?_) ?_
  all_goals exact .pure _

/-- A visitor that leaves the slot alone is shown the additions one after another. -/
theorem foldAdditions_eq {additions : List StagedAddition} (hslot : pending.directory.area = area)
    (hvisit : ∀ b a, (visit b a).Keeps (.same (Disk.view area)))
    (h : (stagedAdditions pending).result s = .ok additions) {t : Disk} (ht : t area = s area) (b : β) :
    foldAdditions pending visit b t = (additions.foldlM visit b : PendingM β) t := by
  have hsees : (readIndex pending).Sees (Disk.view area) := sees_readIndex hslot
  unfold stagedAdditions foldAdditions at h
  obtain ⟨index, hindex, h⟩ := (Program.result_bind_eq_ok hsees.readOnly).mp h
  obtain ⟨hchunks, hblobs⟩ := area_of_readIndex hindex
  obtain ⟨state, hstate, h⟩ := (Program.result_bind_eq_ok (.foldlM readOnly_visitChunk_collect _ _)).mp h
  obtain ⟨new, hnew, hrun⟩ := visitChunks_eq (hchunks.trans hslot) (hblobs.trans hslot) hvisit hstate
  split at h
  · cases h
  · rename_i htotals
    cases h
    rw [hnew, List.nil_append, foldAdditions]
    have happly := hsees.apply_eq (show Disk.view area t = Disk.view area s from ht) hindex
    refine (Program.bind_congr_at happly fun _ _ => rfl).trans ?_
    rw [pure_bind]
    refine (Program.bind_congr_at (hrun t b ht) fun _ _ => rfl).trans ?_
    rw [bind_assoc]
    refine (Program.bind_congr_at rfl fun b' _ => ?_).trans (congrFun (bind_pure _) t)
    rw [pure_bind]
    exact congrFun (if_neg htotals) _

end Visit

end Wayjournal
