import Wayjournal.Federation.GitFrame

namespace Wayjournal

open Collections Crash Fs FileSystem Text

/-- Whatever happens in the directory is allowed. -/
def Directory.Free (H : Guarantee Disk) (d : Directory) : Prop :=
  ∀ s t, (within d.area d.path).rel s t → H.rel s t

section

variable {H : Guarantee Disk} {d : Directory} {name : Name}

theorem Directory.Free.child (h : d.Free H) (name : Name) : (d.child name).Free H :=
  fun s t hrel => h s t (within_child hrel)

theorem Directory.Free.keeps {ε α : Type} {p : Program Disk ε α} (h : d.Free H) (hp : p.Keeps (within d.area d.path)) :
    p.Keeps H :=
  hp.mono h

section Files

theorem Directory.Free.keeps_ensureDir (h : d.Free H) : (d.ensureDir name).Keeps H :=
  (h.child name).keeps Directory.within_ensureDir

theorem Directory.Free.keeps_createFile (h : d.Free H) : (d.createFile name).Keeps H :=
  (h.child name).keeps Directory.within_create

theorem Directory.Free.keeps_writeAll {bytes : Bytes} (h : d.Free H) : (d.writeAll name bytes).Keeps H :=
  (h.child name).keeps Directory.within_writeAll

theorem keeps_ensureDirs (h : d.Free H) (names : List Name) : (ensureDirs d names).Keeps H :=
  .forM (fun _ => .bind h.keeps_ensureDir fun _ => .pure _) _

theorem keeps_initializeBareRepository (h : d.Free H) (format : GitObjectFormat) :
    (initializeBareRepository d format).Keeps H := by
  refine .mapError (.bind (keeps_ensureDirs h _) fun _ => ?_) _
  refine .bindOf (.readOnly Directory.readOnly_openDir) fun s objects hobjects => ?_
  obtain rfl := Directory.child_of_openDir hobjects
  refine .bind (keeps_ensureDirs (h.child _) _) fun _ => ?_
  refine .bindOf (.readOnly Directory.readOnly_openDir) fun s refs hrefs => ?_
  obtain rfl := Directory.child_of_openDir hrefs
  refine .bind (keeps_ensureDirs (h.child _) _) fun _ => ?_
  refine .bind h.keeps_createFile fun _ => .bind h.keeps_writeAll fun _ => ?_
  exact .bind h.keeps_createFile fun _ => h.keeps_writeAll

theorem readOnly_reported {α : Type} {operation : String} {p : DiskM α} (h : p.ReadOnly) :
    (reported operation p).ReadOnly :=
  h.mapError _

theorem keeps_auditRepositoryMetadata (d : Directory) : (auditRepositoryMetadata d).Keeps H := by
  have hopen : ∀ (d : Directory) (name : Name), (reported AUDIT (d.openDir name)).Keeps H := fun _ _ =>
    .readOnly (readOnly_reported Directory.readOnly_openDir)
  refine .bind (hopen _ _) fun objects => .bind (hopen _ _) fun info => .bind (.reads _) fun alternates => ?_
  refine .bind (.ite (.pure _) (.reads _)) fun shallow => .guard (.bind (.reads _) fun names => ?_)
  refine .ite (.bind (.reads _) fun grafts => .guard ?_) ?_
  all_goals
    refine .bind (hopen _ _) fun refs => .bind (.reads _) fun names => ?_
    cases names
    case' some names => refine .guard (.guard ?_)
    all_goals
      refine .bind (.reads _) fun bytes => ?_
      cases bytes with
      | none => exact .pure _
      | some bytes => exact .ite (.throw _) (.pure _)

theorem keeps_walkRepository {counting : Bool} {operation : String} (d : Directory) :
    (walkRepository counting operation d).Keeps H :=
  .reads _

variable [ReadDir]

theorem within_removeTreeBatches {descend : Directory → Nat → RepositoryM Nat}
    (h : ∀ name budget, (descend (d.child name) budget).Keeps (within d.area (d.path ++ [name]))) (rounds budget : Nat) :
    (removeTreeBatches descend d rounds budget).Keeps (within d.area d.path) := by
  induction rounds generalizing budget with
  | zero => exact .throw _
  | succ rounds ih =>
    refine .guard (.bind (.readOnly (readOnly_reported (.reads _))) fun names => .ite (.pure _) ?_)
    refine .bind (.foldlM (fun budget name => ?_) _ _) fun budget => ih budget
    refine .bind (.readOnly (readOnly_reported Directory.readOnly_kind)) fun kind => .ite ?_ ?_
    · refine .bindOf (.readOnly (readOnly_reported Directory.readOnly_openDir)) fun s child hchild => ?_
      obtain rfl := Directory.child_of_openDir (mapError_eq_ok.mp hchild)
      refine .bind ((h name _).mono fun _ _ => within_child) fun _ => ?_
      exact .bind ((Directory.within_unlinkDir.mapError _).mono fun _ _ => within_child) fun _ => .pure _
    · exact .bind ((Directory.within_unlinkFile.mapError _).mono fun _ _ => within_child) fun _ => .pure _

theorem within_removeDirectoryTree (levels : Nat) (d : Directory) (budget : Nat) :
    (removeDirectoryTree levels d budget).Keeps (within d.area d.path) := by
  induction levels generalizing d budget with
  | zero => exact .throw _
  | succ levels ih => exact within_removeTreeBatches (fun name budget => ih (d.child name) budget) _ _

end Files

section Transfer

variable {γ : Type} {operation : String} {message : String}

theorem keeps_onFiles {α : Type} {p : RepositoryM α} (h : p.Keeps H) : (onFiles p : GitM γ α).Keeps (idle H) :=
  keeps_onDisk h

theorem keeps_createDirectory (h : (d.child name).Free H) :
    (createDirectory operation message d name : GitM γ Directory).Keeps (idle H) :=
  .bind (keeps_onFiles ((h.keeps Directory.within_ensureDir).mapError _)) fun _ => .guard (.pure _)

theorem child_of_createDirectory {s : World γ} {made : Directory}
    (h : (createDirectory operation message d name : GitM γ Directory).result s = .ok made) : made = d.child name := by
  obtain ⟨⟨directory, created⟩, hdirectory, h⟩ := Program.bind_eq_ok.mp h
  obtain ⟨-, h⟩ := Program.guard_eq_ok.mp h
  cases h
  exact Directory.child_of_ensureDir (mapError_eq_ok.mp hdirectory)

theorem keeps_openSyncRepository (format : GitObjectFormat) :
    (openSyncRepository d format : GitM γ _).Keeps (idle H) := by
  refine .bind (keeps_onFiles (.readOnly (readOnly_reported Directory.readOnly_openDir))) fun bare => ?_
  refine .bind (keeps_onFiles (keeps_auditRepositoryMetadata _)) fun _ => ?_
  exact .bind (keeps_onFiles (keeps_walkRepository _)) fun _ => .pure _

theorem bare_of_openSyncRepository {s : World γ} {format : GitObjectFormat} {repository : SyncRepository}
    (h : (openSyncRepository d format : GitM γ _).result s = .ok repository) : repository.bare = d.child .repoGit := by
  obtain ⟨bare, hbare, h⟩ := Program.bind_eq_ok.mp h
  obtain rfl : bare = _ := Directory.child_of_openDir (mapError_eq_ok.mp hbare)
  obtain ⟨_, -, h⟩ := Program.bind_eq_ok.mp h
  obtain ⟨_, -, h⟩ := Program.bind_eq_ok.mp h
  cases h
  rfl

variable [Git γ]

theorem keeps_verifyReachableObjects {repository : SyncRepository} (h : repository.place.Allowed H) :
    (verifyReachableObjects repository : GitM γ Unit).Keeps (idle H) := by
  refine .bind (SyncRepository.keeps_refOid h _) fun _ => .bind (SyncRepository.keeps_refOid h _) fun _ => ?_
  refine .bind (keeps_gitOutput h rfl) fun _ => .bind (keeps_outputToFile h rfl) fun _ => ?_
  exact .bind (.ofExcept _) fun _ => .pure _

theorem keeps_syncRepositoryDurable {repository : SyncRepository} (h : repository.place.Allowed H) :
    (syncRepositoryDurable repository : GitM γ Unit).Keeps (idle H) := by
  refine .bind (keeps_onFiles (keeps_auditRepositoryMetadata _)) fun _ => ?_
  refine .bind (keeps_onFiles (keeps_walkRepository _)) fun _ => .bind (keeps_onFiles (keeps_walkRepository _)) fun _ => ?_
  exact .forM (fun _ => .bind (SyncRepository.keeps_refOid h _) fun _ => .pure _) _

theorem keeps_mergeTips {repository : SyncRepository} (h : repository.place.Allowed H) (localTip remoteTip : GitOid) :
    (mergeTips repository localTip remoteTip : GitM γ GitOid).Keeps (idle H) := by
  refine .bind (SyncRepository.keeps_isAncestor h _ _) fun _ => .ite (.pure _) ?_
  refine .bind (SyncRepository.keeps_isAncestor h _ _) fun _ => .ite (.pure _) ?_
  refine .bind (keeps_gitOutput h rfl) fun _ => .bind (.ofExcept _) fun _ => ?_
  exact .bind (keeps_gitOutput h rfl) fun _ => .ofExcept _

theorem keeps_selectCandidate {repository : SyncRepository} (h : repository.place.Allowed H) (localTip remoteTip : GitOid) :
    (selectCandidate repository localTip remoteTip : GitM γ GitOid).Keeps (idle H) := by
  refine .bind (keeps_mergeTips h _ _) fun candidate => ?_
  refine .bind (.forM (fun _ => .bind (SyncRepository.keeps_isAncestor h _ _) fun _ => .ite (.throw _) (.pure _)) _)
    fun _ => ?_
  exact .bind (keeps_gitOutput h rfl) fun _ => .bind (keeps_syncRepositoryDurable h) fun _ => .pure _

theorem keeps_hasTips {repository : SyncRepository} (h : repository.place.Allowed H) (localTip remoteTip : GitOid) :
    (hasTips repository localTip remoteTip : GitM γ Bool).Keeps (idle H) :=
  .bind (SyncRepository.keeps_refOid h _) fun _ => .ite (.pure _)
    (.bind (SyncRepository.keeps_refOid h _) fun _ => .pure _)

theorem keeps_compactRepository (h : (d.child .repoGit).Free H) (fetched : SyncRepository) (localTip remoteTip : GitOid) :
    (compactRepository d fetched localTip remoteTip : GitM γ _).Keeps (idle H) := by
  refine .bindOf (keeps_createDirectory h) fun s bare hbare => ?_
  obtain rfl := child_of_createDirectory hbare
  have hplace : GitPlace.Allowed H (.bare (d.child .repoGit)) := allowed_bare h
  refine .bind (keeps_onFiles (keeps_initializeBareRepository h _)) fun _ => ?_
  refine .bind (.forM (fun _ => .bind (keeps_gitOutput hplace rfl) fun _ => .pure _) _) fun _ => ?_
  refine .bind (keeps_gitOutput hplace rfl) fun _ => .bind (keeps_hasTips hplace _ _) fun _ => .guard ?_
  refine .bind (keeps_verifyReachableObjects hplace) fun _ => ?_
  exact .bind (keeps_onFiles (keeps_walkRepository _)) fun _ => .bind (keeps_onFiles (keeps_walkRepository _)) fun _ =>
    .pure _

theorem bare_of_compactRepository {s : World γ} {fetched repository : SyncRepository} {localTip remoteTip : GitOid}
    (h : (compactRepository d fetched localTip remoteTip : GitM γ _).result s = .ok repository) :
    repository.bare = d.child .repoGit := by
  obtain ⟨bare, hbare, h⟩ := Program.bind_eq_ok.mp h
  obtain rfl := child_of_createDirectory hbare
  obtain ⟨_, -, h⟩ := Program.bind_eq_ok.mp h
  obtain ⟨_, -, h⟩ := Program.bind_eq_ok.mp h
  obtain ⟨_, -, h⟩ := Program.bind_eq_ok.mp h
  obtain ⟨_, -, h⟩ := Program.bind_eq_ok.mp h
  obtain ⟨-, h⟩ := Program.guard_eq_ok.mp h
  obtain ⟨_, -, h⟩ := Program.bind_eq_ok.mp h
  obtain ⟨_, -, h⟩ := Program.bind_eq_ok.mp h
  obtain ⟨_, -, h⟩ := Program.bind_eq_ok.mp h
  cases h
  rfl

variable [Url] {request : GitSyncRequest}

theorem keeps_fetchDisposable (h : d.Free H) (format : GitObjectFormat) :
    (fetchDisposable request d format : GitM γ _).Keeps (idle H) := by
  refine .bindOf (keeps_createDirectory (h.child _)) fun s fetched hfetched => ?_
  obtain rfl := child_of_createDirectory hfetched
  have hfree : (d.child .repoGit).Free H := h.child _
  have hplace : GitPlace.Allowed H (.bare (d.child .repoGit)) := allowed_bare hfree
  refine .bind (keeps_onFiles (keeps_initializeBareRepository hfree _)) fun _ => ?_
  refine .bind (keeps_gitOutput hplace rfl) fun _ => .bind (keeps_gitOutput hplace rfl) fun _ => ?_
  refine .bind (keeps_onFiles (keeps_auditRepositoryMetadata _)) fun _ => ?_
  refine .bind (keeps_onFiles (keeps_walkRepository _)) fun _ => ?_
  refine .bind (SyncRepository.keeps_refOid hplace _) fun _ => .bind (SyncRepository.keeps_refOid hplace _) fun _ => ?_
  exact .bind (keeps_verifyReachableObjects hplace) fun _ => .pure _

variable [ReadDir]

theorem keeps_createSyncRepository (hattempt : (d.child .transferAttempt).Free H) (hrepo : (d.child .repoGit).Free H)
    (localRepository : LocalRepository) :
    (createSyncRepository request d localRepository : GitM γ _).Keeps (idle H) := by
  refine .bindOf (keeps_createDirectory hattempt) fun s attempt hmade => ?_
  obtain rfl := child_of_createDirectory hmade
  refine .bind (keeps_fetchDisposable hattempt _) fun _ => .bind (keeps_compactRepository hrepo _ _ _) fun _ => ?_
  refine .bind (keeps_onFiles (hattempt.keeps (within_removeDirectoryTree _ _ _))) fun _ => ?_
  exact .bind (keeps_onFiles (hattempt.keeps (Directory.within_unlinkDir.mapError _))) fun _ => .pure _

theorem bare_of_createSyncRepository {s : World γ} {localRepository : LocalRepository}
    {made : SyncRepository × GitOid × GitOid}
    (h : (createSyncRepository request d localRepository : GitM γ _).result s = .ok made) :
    made.1.bare = d.child .repoGit := by
  obtain ⟨_, -, h⟩ := Program.bind_eq_ok.mp h
  obtain ⟨_, -, h⟩ := Program.bind_eq_ok.mp h
  obtain ⟨repository, hrepository, h⟩ := Program.bind_eq_ok.mp h
  obtain ⟨_, -, h⟩ := Program.bind_eq_ok.mp h
  obtain ⟨_, -, h⟩ := Program.bind_eq_ok.mp h
  cases h
  exact bare_of_compactRepository hrepository

end Transfer

section Local

variable {γ : Type} [Git γ]

theorem keeps_inspectLocal [Url] (request : GitSyncRequest) : (inspectLocal request : GitM γ _).Keeps (idle H) := by
  refine .bind keeps_onLayout fun _ => .bind (.bind (keeps_gitOutput allowed_layout rfl) fun _ => ?_) fun _ => ?_
  · exact .ite (.throw _) (.pure _)
  · refine .bind (keeps_gitOutput allowed_layout rfl) fun _ => .guard ?_
    refine .bind (keeps_gitOutput allowed_layout rfl) fun text => ?_
    split
    · exact .bind (keeps_gitOutput allowed_layout rfl) fun _ => .bind (.ofExcept _) fun _ => .pure _
    · exact .throw _

theorem keeps_inspectLocalRef [Url] (format : GitObjectFormat) (request : GitSyncRequest) :
    (inspectLocalRef format request : GitM γ GitOid).Keeps (idle H) :=
  .bind (keeps_gitOutput allowed_layout rfl) fun _ => .ofExcept _

theorem keeps_requireLocalCommit (oid : GitOid) : (requireLocalCommit oid : GitM γ Unit).Keeps (idle H) :=
  keeps_requireCommitObject allowed_layout oid

theorem keeps_advanceLocalRef [Url] (request : GitSyncRequest) (localRepository : LocalRepository)
    (repository : SyncRepository) (expected candidate : GitOid) :
    (advanceLocalRef request localRepository repository expected candidate : GitM γ Unit).Keeps (idle H) := by
  refine .bind (keeps_inspectLocalRef _ _) fun current => .ite ?_ (.guard ?_)
  · exact .bind keeps_onLayout fun _ => keeps_requireLocalCommit _
  · refine .bind (keeps_gitOutput allowed_layout rfl) fun _ => .bind (keeps_requireLocalCommit _) fun _ => ?_
    refine .bind (keeps_gitOutput allowed_layout rfl) fun _ => .bind keeps_onLayout fun _ => ?_
    exact .bind (keeps_inspectLocalRef _ _) fun _ => .guard (keeps_requireLocalCommit _)

theorem keeps_removeInternalLocalCandidate : (removeInternalLocalCandidate : GitM γ Unit).Keeps (idle H) := by
  refine .bind (keeps_gitSucceeds allowed_layout rfl) fun _ => .bind keeps_onLayout fun _ => ?_
  exact .bind (keeps_gitSucceeds allowed_layout rfl) fun _ => .ite (.throw _) (.pure _)

theorem keeps_observeRemoteRef [Url] (request : GitSyncRequest) (format : GitObjectFormat) :
    (observeRemoteRef request format : GitM γ _).Keeps (idle H) :=
  .bind (keeps_gitOutput allowed_standalone rfl) fun _ => .ofExcept _

end Local

end

end Wayjournal
