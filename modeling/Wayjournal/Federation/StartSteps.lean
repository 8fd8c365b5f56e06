import Wayjournal.Federation.DurableReplacement
import Wayjournal.Federation.RecoverSteps

namespace Wayjournal

open Collections Crash Fs FileSystem Relation Text

section Staged

variable [Url] [Blake3] {ρ : Type}

theorem phase_of_finishStaging {document next : PendingDocument} {count totalBytes : Nat} {staged : StagedChunks ρ} {more : Bool}
    {s : Disk} (h : (finishStaging document count totalBytes staged more).result s = .ok next) :
    next.phase = document.phase := by
  obtain ⟨-, h⟩ := Program.guard_eq_ok.mp h
  obtain ⟨index, -, h⟩ := Program.bind_eq_ok.mp h
  obtain ⟨_, -, h⟩ := Program.bind_eq_ok.mp h
  obtain ⟨total, -, h⟩ := Program.bind_eq_ok.mp h
  obtain ⟨bytes, -, h⟩ := Program.bind_eq_ok.mp h
  cases h
  rfl

end Staged

section

variable [Url] [Jiff] [Blake3] [ReadDir] {γ : Type} [Git γ] {store : Store} {request : GitSyncRequest} {left : List Name}
  {draws : Draws} {original advanceFrom : AdmissionCheckpoint} {current : ValidatedStoreState}
  {localRepository : LocalRepository} {repository : SyncRepository} {A : Disk → Prop} (hA : Stable A)

include hA

theorem leads_inspectStart :
    Leads store request left A (inspectStart store request draws original current : SyncM γ _) fun _ => A := by
  refine .bind (.post (.orUnsafe (keeps_inspectLocal _) hA (.quarantineBase hA)) fun _ _ hs => hs.2) fun localRepository => ?_
  refine .bind (.git (keeps_requireLocalCommit _) hA) fun _ => ?_
  refine .bind (.admission (keeps_treeSnapshot allowed_layout _ _ _) hA) fun snapshot => ?_
  refine .bind (.admission (.ofExcept _) hA) fun _ => .ite (fun _ => .never (.failed fun h => by cases h)) fun _ => ?_
  refine .bind (.git (keeps_observeRemoteRef _ _) hA) fun remote => .guard (fun _ => .quarantineBase hA) fun _ => ?_
  exact .pure fun _ hs => hs

theorem leads_admitHistories (hplace : repository.place.Allowed apart) (localTip remoteTip : GitOid) :
    Leads store request left A (admitHistories store request draws original repository localTip remoteTip : SyncM γ Unit)
      fun _ => A := by
  refine .bind (.attempt (SyncRepository.keeps_validateHistories hplace _ _ _ _) hA) fun result => .pre ?_ fun _ hs => hs.2
  cases result with
  | ok => exact .pure fun _ hs => hs
  | error error =>
    cases error with
    | hostile reason => exact .quarantineBase hA
    | operational error => exact .failed fun h => by cases h

theorem leads_chooseCandidate (hplace : repository.place.Allowed apart) (localTip remoteTip : GitOid) :
    Leads store request left A (chooseCandidate request draws original repository localTip remoteTip : SyncM γ GitOid)
      fun _ => A := by
  refine .bind (.attempt (keeps_selectCandidate hplace _ _) hA) fun result => .pre ?_ fun _ hs => hs.2
  cases result with
  | ok candidate => exact .pure fun _ hs => hs
  | error error => exact .ite (fun _ => .quarantineBase hA) fun _ => .failed fun h => by cases h

theorem leads_stageCandidate (hplace : repository.place.Allowed apart) {operation : Directory}
    (h : (operation.child .additions).Free apart) {document : PendingDocument} {count totalBytes : Nat}
    {source : TreeAdditionSource} :
    Leads store request left A (stageCandidate repository operation document count totalBytes source : SyncM γ _)
      fun next s => next.phase = document.phase ∧ A s := by
  refine .bind (.attempt (keeps_stageChunksFrom hplace h _ _ _) hA) fun chunks => .pull fun ⟨w, hchunks⟩ => ?_
  cases chunks with
  | error error =>
    cases error with
    | source error =>
      refine .bind (.attempt (keeps_finishBatch hplace) hA) fun _ => ?_
      exact .failed fun h => by cases h
    | pending error =>
      refine .bind (.git (keeps_finishBatch hplace) hA) fun _ => ?_
      exact .failed fun h => by cases h
  | ok staged =>
    have hadditions := additionsDir_of_stageChunksFrom hchunks
    refine .bind (.attempt (SyncRepository.keeps_nextFile hplace _) hA) fun last => .pull fun _ => ?_
    refine .bind (.attempt (keeps_onDisk (keeps_finishStaging (hadditions ▸ h))) hA) fun staged => .pull fun ⟨v, hstaged⟩ => ?_
    refine .bind (.attempt (keeps_finishBatch hplace) hA) fun finished => .pull fun _ => ?_
    cases last with
    | error error => exact .never (.failed fun h => by cases h)
    | ok last =>
      cases finished with
      | error error => exact .never (.failed fun h => by cases h)
      | ok finished =>
        cases staged with
        | error error => exact .failed fun h => by cases h
        | ok next => exact .pure fun s hs => ⟨phase_of_finishStaging hstaged, hs⟩

/-- The candidate is prepared below its slot, beside everything that is published. -/
theorem leads_prepareCandidate {predecessor : Option GitSyncOperationId} {operation : Directory} {raw : Name}
    (hd : operation = Store.syncPendingDir.child raw) :
    Leads store request left A (prepareCandidate store request draws original advanceFrom current localRepository predecessor
      operation : SyncM γ _) fun document s => document.phase = .prepared ∧ A s := by
  refine .bind (.orUnsafe (keeps_createSyncRepository (Directory.free_slot hd (by decide)) (Directory.free_slot hd (by decide))
    _) hA (.quarantineBase hA)) fun made => ?_
  obtain ⟨repository, localTip, remoteTip⟩ := made
  refine .pull fun hcreated => ?_
  obtain ⟨w, hmade⟩ := hcreated
  have hbare : repository.bare = operation.child .repoGit := bare_of_createSyncRepository hmade
  have hplace : repository.place.Allowed apart := by
    rw [SyncRepository.place, hbare]
    exact allowed_bare (Directory.free_slot hd (by decide))
  have hadditions : (operation.child .additions).Free apart := Directory.free_slot hd (by decide)
  refine .bind (leads_admitHistories hA hplace _ _) fun _ => .bind (leads_chooseCandidate hA hplace _ _) fun candidate => ?_
  refine .bind (.orHostile (keeps_treeSnapshot hplace _ _ _) hA (fun _ => .quarantineBase hA) fun _ _ hs => hs)
    fun snapshot => ?_
  refine .bind (.admission (.ofExcept _) hA) fun _ => ?_
  refine .bind (.git (SyncRepository.keeps_commitParents hplace _) hA) fun parents => ?_
  refine .bind (.orHostile (SyncRepository.keeps_spoolTreeAdditions hplace _ _) hA (fun _ => .quarantineBase hA)
    fun _ _ hs => hs) fun diff => ?_
  refine .bind (.git (SyncRepository.keeps_treeAdditionSource hplace _) hA) fun source => ?_
  refine .bind (.admission (SyncRepository.keeps_totals hplace _) hA) fun totals => ?_
  obtain ⟨count, totalBytes⟩ := totals
  refine .bind (.git (SyncRepository.keeps_treeAdditionSource hplace _) hA) fun source => ?_
  refine .bind (leads_stageCandidate hA hplace hadditions) fun document => .pull fun hphase => ?_
  exact .bind (.git (keeps_syncRepositoryDurable hplace) hA) fun _ => .pure fun s hs => ⟨hphase, hs⟩

end

section Created

variable {s t : Disk} {names : List Name} {raw : Name}

/-- A slot that has no document yet, beside these others. -/
structure Created (raw : Name) (names : List Name) (disk : Disk) : Prop where
  slots : SlotsWithin (raw :: names) disk
  empty : documentEntry raw disk = none

theorem stable_created : Stable (Created raw names) := fun _ _ hapart h =>
  ⟨h.slots.of_apart hapart, (documentEntry_of_preserving (surface_of_apart hapart) raw).trans h.empty⟩

theorem wp_createOperation {id : GitSyncOperationId} (h : SlotsWithin names s) :
    (createOperation id).wp ((preserving IsSurface).rel s)
      (fun operation t => (operation = Store.syncPendingDir.child id.name ∧ documentEntry id.name s = none) ∧
        Created id.name names t) (fun _ _ => True) s := by
  have hresult : (createOperation id).wp (fun _ => True)
      (fun operation _ => operation = Store.syncPendingDir.child id.name ∧ (s .syncPending).get? [id.name] = none)
      (fun _ _ => True) s := Program.wp_of_result fun _ hok => root_of_createOperation hok
  refine Program.wp_mono (Program.wp_and (keeps_createOperation.wp s) hresult) ?_ ?_ fun _ _ _ => trivial
  · exact fun t ht => surface_of_exceptSlot ht.1
  · rintro operation t ⟨hframe, hd, hroot⟩
    have hempty := documentEntry_of_slotRoot hroot
    exact ⟨⟨hd, hempty⟩, h.created hframe,
      (documentEntry_of_preserving (surface_of_exceptSlot hframe) _).trans hempty⟩

variable [Url] [Jiff] [Blake3] {store : Store} {document : PendingDocument}

/-- A first document appears in an empty slot. -/
theorem follows_of_appearance (h : Created raw names s) (hphase : document.phase = .prepared)
    (hframe : (exceptDocument raw).rel s t) (happears : DocumentAppears raw document s t) : Follows store s t := by
  have hfiles : t .canonical = s .canonical := ext_get? fun p => hframe .canonical p ⟨.inl trivial, fun h => by cases h.1⟩
  have hcheckpoint : checkpointEntry t = checkpointEntry s :=
    hframe .checkpoints _ ⟨.inl rfl, fun h => by cases h.1⟩
  have hothers : ∀ other, other ≠ raw → documentEntry other t = documentEntry other s := fun other hother =>
    hframe .syncPending _ ⟨.inl ⟨other, rfl⟩, fun h => hother (List.cons.inj h.2).1⟩
  refine ⟨fun p e hp => hfiles ▸ hp, hcheckpoint ▸ .refl, .inl hcheckpoint, fun other => ?_, fun other => ?_⟩
  · by_cases hraw : other = raw
    · subst hraw
      rw [h.empty]
      obtain heq | ⟨-, htorn | ⟨bytes, hentry, hdecode⟩⟩ := happears
      · exact heq.symm ▸ h.empty ▸ .refl
      · rw [htorn]
        exact .single .create
      · rw [hentry]
        exact .tail (.single .create) (.publish hdecode hphase)
    · exact hothers other hraw ▸ .refl
  · by_cases hraw : other = raw
    · subst hraw
      obtain heq | ⟨-, htorn | ⟨bytes, hentry, hdecode⟩⟩ := happears
      · exact .inl heq
      · right
        rintro bytes found hfound hdecode -
        rw [htorn] at hfound
        obtain rfl := Entry.regular.inj (Option.some.inj hfound)
        exact absurd hdecode decodeDocument_nil
      · right
        intro other found hfound hdecodeFound hlater
        obtain rfl := Entry.regular.inj (Option.some.inj (hentry.symm.trans hfound))
        obtain rfl := Except.ok.inj (hdecode.symm.trans hdecodeFound)
        exact absurd hphase hlater
    · exact .inl (hothers other hraw)

theorem wp_publishDocument_follows {operation : Directory} (hd : operation = Store.syncPendingDir.child raw)
    (h : Created raw names s) (hphase : document.phase = .prepared) :
    (publishDocument operation document).wp (Follows store s)
      (fun _ t => SlotsWithin (raw :: names) t ∧ t.Documents raw document) (fun _ _ => True) s := by
  refine Program.wp_mono (Program.wp_and ((keeps_publishDocument hd).wp s) (wp_publishDocument_entry hd)) ?_ ?_
    fun _ _ _ => trivial
  · exact fun t ht => follows_of_appearance h hphase ht.1 ht.2
  · rintro _ t ⟨hframe, -, hdocument⟩
    exact ⟨h.slots.congr fun n => .inl (hframe .syncPending [n] ⟨.inr ⟨rfl, n, rfl⟩, fun h => by cases h.2⟩), hdocument⟩

end Created

section Start

variable [Url] [Jiff] [Blake3] [ReadDir] {γ : Type} [Git γ] {store : Store} {request : GitSyncRequest} {left : List Name}
  {draws : Draws} {original advanceFrom : AdmissionCheckpoint} {current : ValidatedStoreState}

/-- What a new operation starts from. -/
structure Startable (predecessor : Option DurablePending) (others : List Name) (disk : Disk) : Prop where
  slots : SlotsWithin (predecessor.toList.map (fun slot => slot.name.name) ++ others) disk
  held : ∀ slot ∈ predecessor, HoldsSlot slot disk

theorem leads_startSyncOperation {predecessor : Option DurablePending} {others : List Name} :
    Leads store request left (Startable predecessor others)
      (startSyncOperation store request draws original advanceFrom current predecessor : SyncM γ _)
      fun pending s => pending.document.phase = .prepared ∧ Underway pending others s := by
  have hstable : Stable (Startable predecessor others) := fun _ _ hapart h =>
    ⟨h.slots.of_apart hapart, fun slot hslot => (h.held slot hslot).of_apart hapart⟩
  unfold startSyncOperation
  cases current.identity with
  | none => exact .failed fun h => by cases h
  | some identity =>
    refine .ite (fun _ => .never (.failed fun h => by cases h)) fun _ => ?_
    refine .bind (leads_inspectStart hstable) fun localRepository => ?_
    have hcreate : Leads store request left (Startable predecessor others)
        (SyncM.pending (createOperation draws.operation) : SyncM γ _) fun operation s =>
          (operation = Store.syncPendingDir.child draws.operation.name ∧ ∀ slot ∈ predecessor,
            slot.directory = Store.syncPendingDir.child slot.name.name ∧ slot.name.name ≠ draws.operation.name) ∧
          Created draws.operation.name (predecessor.toList.map (fun slot => slot.name.name) ++ others) s := by
      refine .onDisk (fun _ h => by cases h) fun s hs => Program.wp_mono (wp_createOperation hs.slots)
        (fun _ ht => follows_of_preserving ht) ?_ fun _ _ _ => trivial
      rintro operation t ⟨⟨hd, hempty⟩, hcreated⟩
      refine ⟨⟨hd, fun slot hslot => ⟨(hs.held slot hslot).1, fun heq => ?_⟩⟩, hcreated⟩
      obtain ⟨bytes, hentry, -⟩ := (hs.held slot hslot).2
      rw [heq, hempty] at hentry
      cases hentry
    refine .bind hcreate fun operation => .pull fun ⟨hd, hheld⟩ => ?_
    refine .bind (leads_prepareCandidate stable_created hd) fun document => .pull fun hphase => ?_
    refine .bind (.onDisk (fun _ h => by cases h) fun s hs => wp_publishDocument_follows hd hs hphase) fun _ => ?_
    cases predecessor with
    | none => exact .pure fun s hs => ⟨hphase, ⟨hd, hs.2⟩, hs.1⟩
    | some predecessor =>
      obtain ⟨hplace, hne⟩ := hheld _ rfl
      refine .bind (B := fun _ => Underway ⟨draws.operation, operation, document⟩ others) ?_ fun _ => .pure fun s hs =>
        ⟨hphase, hs⟩
      refine .onDisk (fun _ h => by cases h) fun s hs => Program.wp_mono (wp_retireOperation_follows hplace)
        (fun _ ht => ht) ?_ fun _ _ _ => trivial
      rintro _ t ⟨hretiring, hgone⟩
      refine ⟨⟨hd, documents_congr ?_ hs.2⟩, SlotsWithin.removed ((SlotsWithin.congr ?_ (slotRoot_of_retiring hretiring))) hgone⟩
      · exact (documentEntry_of_retiring hretiring _).resolve_right fun h => hne h.1.symm
      · intro n hn
        have hmem := hs.1 n hn
        simp only [Option.toList_some, List.map_cons, List.map_nil, List.singleton_append, List.mem_cons] at hmem
        rw [List.mem_cons, List.mem_cons]
        obtain hnew | hold | hother := hmem
        · exact .inr (.inl hnew)
        · exact .inl hold
        · exact .inr (.inr hother)

end Start

end Wayjournal
