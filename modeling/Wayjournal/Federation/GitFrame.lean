import Wayjournal.Crash.Triple
import Wayjournal.Federation.AdditionSource
import Wayjournal.Federation.History
import Wayjournal.Federation.Within

namespace Wayjournal

open Collections Crash Fs FileSystem Text

def GitArgs.isPush : GitArgs → Bool
  | .push .. => true
  | _ => false

/-- The remote may be moving. -/
def World.Pushing {γ : Type} (world : World γ) : Prop :=
  ∃ command, world.running = some command ∧ command.args.isPush

/-- The disk keeps to the guarantee and no push starts. -/
def idle {γ : Type} (H : Guarantee Disk) : Guarantee (World γ) where
  rel s t := H.rel s.disk t.disk ∧ (t.Pushing → t.running = s.running)
  refl s := ⟨H.refl _, fun _ => rfl⟩
  trans h h' := ⟨H.trans h.1 h'.1, fun hpush => by
    have hrunning := h'.2 hpush
    obtain ⟨command, hcommand, hargs⟩ := hpush
    exact hrunning.trans (h.2 ⟨command, hrunning ▸ hcommand, hargs⟩)⟩

/-- What a command may do to the disk where it runs is allowed. -/
def GitPlace.Allowed (H : Guarantee Disk) (place : GitPlace) : Prop :=
  ∀ s t, place.Confines s t → H.rel s t

section

variable {γ ε ε' α β : Type} {H H' : Guarantee Disk} {place : GitPlace}

theorem idle_mono (h : ∀ s t, H'.rel s t → H.rel s t) (s t : World γ) (hrel : (idle H').rel s t) : (idle H).rel s t :=
  ⟨h _ _ hrel.1, hrel.2⟩

theorem not_pushing_of_idle {s t : World γ} (h : (idle H).rel s t) (hs : ¬s.Pushing) : ¬t.Pushing := by
  intro hpush
  have hrunning := h.2 hpush
  obtain ⟨command, hcommand, hargs⟩ := hpush
  exact hs ⟨command, hrunning ▸ hcommand, hargs⟩

theorem keeps_onDisk {p : Program Disk ε α} (h : p.Keeps H) : (onDisk p : Program (World γ) ε α).Keeps (idle H) := by
  intro s t ht
  obtain ⟨disk, hdisk, rfl⟩ := List.mem_map.mp ht
  exact ⟨h _ _ hdisk, fun _ => rfl⟩

theorem readOnly_onDisk {p : Program Disk ε α} (h : p.ReadOnly) : (onDisk p : Program (World γ) ε α).ReadOnly :=
  h.zoom

theorem allowed_layout : GitPlace.Allowed H .layout := by
  rintro s t rfl
  exact H.refl _

theorem allowed_standalone : GitPlace.Allowed H .standalone := by
  rintro s t rfl
  exact H.refl _

theorem allowed_bare {d : Directory} (h : ∀ s t, (within d.area d.path).rel s t → H.rel s t) :
    GitPlace.Allowed H (.bare d) :=
  fun s t hconfines => h s t ⟨hconfines.1, fun k hk => hconfines.2 k fun hbelow => hk hbelow.1⟩

theorem keeps_onLayout {f : γ → Except GitCommandError α} {G : Guarantee (World γ)} : (onLayout f : GitM γ α).Keeps G :=
  .reads _

variable [Git γ]

theorem keeps_runGit {command : GitCommand} (hplace : command.place.Allowed H) (hpush : command.args.isPush = false) :
    (runGit command : Program (World γ) ε GitOutcome).Keeps (idle H) := by
  intro s t ht
  obtain rfl | ht := List.mem_cons.mp ht
  · refine ⟨H.refl _, fun ⟨other, hother, hargs⟩ => ?_⟩
    cases hother
    rw [hpush] at hargs
    cases hargs
  · obtain rfl := List.mem_singleton.mp ht
    refine ⟨hplace _ _ (Git.confined command s.disk s.git), fun ⟨other, hother, _⟩ => ?_⟩
    cases hother

/-- A command is started, and then it has ended. -/
theorem wp_runGit {command : GitCommand} {w : World γ} {crash : World γ → Prop} {post : GitOutcome → World γ → Prop}
    {fail : ε → World γ → Prop} : (runGit command).wp crash post fail w ↔
      (crash { w with running := some command } ∧
        crash ⟨(Git.run command w.disk w.git).2.1, (Git.run command w.disk w.git).2.2, none⟩) ∧
      post (Git.run command w.disk w.git).1 ⟨(Git.run command w.disk w.git).2.1, (Git.run command w.disk w.git).2.2, none⟩ :=
  and_congr_left fun _ => List.forall_mem_cons.trans (and_congr_right fun _ => List.forall_mem_singleton)

/-- What is made of the exit of a command does not touch the world. -/
theorem triple_gitSucceeds {G : Guarantee (World γ)} {pre post : World γ → Prop} {operation : String} {args : GitArgs}
    (h : ∀ {ε : Type}, (runGit ⟨place, args⟩ : Program (World γ) ε GitOutcome).Triple G pre (fun _ => post) fun _ => post) :
    (gitSucceeds operation place args : GitM γ Bool).Triple G pre (fun _ => post) fun _ => post := by
  have hrun : (runBounded operation ⟨place, args⟩ MAX_SMALL_OUTPUT : GitM γ _).Triple G pre (fun _ => post) fun _ => post := by
    refine .bind h fun outcome => ?_
    cases outcome with
    | failed failure => exact .throw fun _ hs => hs
    | running stdout => exact .throw fun _ hs => hs
    | exited code stdout => exact .ite (fun _ => .throwBind fun _ hs => hs) fun _ => .pure fun _ hs => hs
  exact .bind hrun fun _ => .ite (fun _ => .throwBind fun _ hs => hs) fun _ => .pure fun _ hs => hs

variable {operation : String} {args : GitArgs} {limit : Nat}

theorem keeps_runBounded {command : GitCommand} (hplace : command.place.Allowed H)
    (hpush : command.args.isPush = false) : (runBounded operation command limit : GitM γ _).Keeps (idle H) := by
  refine .bind (keeps_runGit hplace hpush) fun outcome => ?_
  cases outcome with
  | failed failure => exact .throw _
  | running stdout => exact .throw _
  | exited code stdout => exact .guard (.pure _)

theorem keeps_gitOutputWithin (hplace : place.Allowed H) (hpush : args.isPush = false) :
    (gitOutputWithin operation place args limit : GitM γ _).Keeps (idle H) :=
  .bind (keeps_runBounded hplace hpush) fun _ => .guard (.pure _)

theorem keeps_gitOutput (hplace : place.Allowed H) (hpush : args.isPush = false) :
    (gitOutput operation place args : GitM γ _).Keeps (idle H) :=
  keeps_gitOutputWithin hplace hpush

theorem keeps_gitSucceeds (hplace : place.Allowed H) (hpush : args.isPush = false) :
    (gitSucceeds operation place args : GitM γ _).Keeps (idle H) :=
  .bind (keeps_runBounded hplace hpush) fun _ => .guard (.pure _)

theorem keeps_exitOneIsFalse (hplace : place.Allowed H) (hpush : args.isPush = false) :
    (exitOneIsFalse operation place args : GitM γ _).Keeps (idle H) :=
  .bind (keeps_runBounded hplace hpush) fun _ => .ite (.pure _) (.ite (.pure _) (.throw _))

theorem keeps_outputToFile {command : GitCommand} (hplace : command.place.Allowed H)
    (hpush : command.args.isPush = false) : (outputToFile operation command limit : GitM γ _).Keeps (idle H) :=
  .bind (keeps_runBounded hplace hpush) fun _ => .guard (.pure _)

section Stream

variable (hplace : place.Allowed H)
include hplace

theorem keeps_startBatch : (startBatch place : GitM γ Unit).Keeps (idle H) := by
  refine .bind (keeps_runGit hplace rfl) fun outcome => ?_
  cases outcome with
  | failed failure => exact .throw _
  | _ => exact .pure _

theorem keeps_finishBatch : (finishBatch place : GitM γ Unit).Keeps (idle H) := by
  refine .bind (keeps_runGit hplace rfl) fun outcome => ?_
  cases outcome with
  | failed failure => exact .throw _
  | running stdout => exact .throw _
  | exited code stdout => exact .ite (.throw _) (.pure _)

theorem keeps_readEntry (buffer : Bytes) (entry : TreeListingEntry) :
    (readEntry place buffer entry : AdmissionM γ _).Keeps (idle H) := by
  unfold readEntry
  split
  · exact .bind (.bind (keeps_runGit hplace rfl) fun _ => .ofExcept _) fun _ => .pure _
  · exact .throw _

theorem keeps_runSnapshotCommandToFile (hpush : args.isPush = false) :
    (runSnapshotCommandToFile operation ⟨place, args⟩ limit : AdmissionM γ _).Keeps (idle H) :=
  (keeps_outputToFile hplace hpush).mapError _

theorem keeps_treeSnapshot [Jiff] [Blake3] (store : Store) (format : GitObjectFormat) (oid : GitOid) :
    (treeSnapshot store place format oid : AdmissionM γ _).Keeps (idle H) := by
  refine .guard (.bind (keeps_runSnapshotCommandToFile hplace rfl) fun listing => ?_)
  refine .bind ((keeps_startBatch hplace).mapError _) fun _ => ?_
  refine .bind (.foldlM (fun scan record => ?_) _ _) fun scan => ?_
  · refine .bind (.ofExcept _) fun next => .bind (keeps_readEntry hplace _ _) fun file => ?_
    exact .guard (.bind (.ofExcept _) fun _ => .pure _)
  · exact .bind (.ofExcept _) fun _ => .bind ((keeps_finishBatch hplace).mapError _) fun _ => .ofExcept _

theorem keeps_requireCommitObject (oid : GitOid) :
    (SyncRepository.requireCommitObject place oid : GitM γ Unit).Keeps (idle H) :=
  .bind (keeps_gitOutput hplace rfl) fun _ => .ite (.throw _) (.pure _)

end Stream

namespace SyncRepository

variable {repository : SyncRepository} (hplace : repository.place.Allowed H)
include hplace

theorem keeps_refOid (reference : String) : (repository.refOid reference : GitM γ GitOid).Keeps (idle H) :=
  .bind (keeps_gitOutput hplace rfl) fun _ => .ofExcept _

theorem keeps_commitParents (commit : GitOid) : (repository.commitParents commit : GitM γ _).Keeps (idle H) :=
  .bind (keeps_gitOutput hplace rfl) fun _ => .ofExcept _

theorem keeps_isAncestor (ancestor descendant : GitOid) :
    (repository.isAncestor ancestor descendant : GitM γ Bool).Keeps (idle H) :=
  keeps_exitOneIsFalse hplace rfl

theorem keeps_immutableEdgeViolation (parent child : GitOid) :
    (repository.immutableEdgeViolation parent child : GitM γ _).Keeps (idle H) :=
  .bind (keeps_outputToFile hplace rfl) fun _ => .ofExcept _

theorem keeps_requireCommitBounded (oid : GitOid) (byteLimit : Nat) :
    (repository.requireCommitBounded oid byteLimit : GitM γ Unit).Keeps (idle H) := by
  refine .bind (keeps_requireCommitObject hplace oid) fun _ => .bind (keeps_gitOutput hplace rfl) fun size => ?_
  split
  · exact .ite (.throw _) (.pure _)
  · exact .throw _

theorem keeps_spoolTreeAdditions (base candidate : GitOid) :
    (repository.spoolTreeAdditions base candidate : AdmissionM γ _).Keeps (idle H) :=
  .guard (keeps_runSnapshotCommandToFile hplace rfl)

theorem keeps_treeAdditionSource (diff : Bytes) : (repository.treeAdditionSource diff : GitM γ _).Keeps (idle H) :=
  .bind (keeps_startBatch hplace) fun _ => .pure _

theorem keeps_nextFile (source : TreeAdditionSource) :
    (repository.nextFile source : AdmissionM γ _).Keeps (idle H) := by
  unfold nextFile
  split
  · exact .bind (.ofExcept _) fun _ => .pure _
  · exact .bind (.ofExcept _) fun _ => .throw _
  · exact .bind (.ofExcept _) fun _ => .bind (keeps_readEntry hplace _ _) fun _ => .pure _

theorem keeps_totals (source : TreeAdditionSource) : (repository.totals source : AdmissionM γ _).Keeps (idle H) := by
  have hloop : ∀ rounds source count totalBytes,
      (repository.totalsFrom rounds source count totalBytes : AdmissionM γ _).Keeps (idle H) := by
    intro rounds
    induction rounds with
    | zero => exact fun _ _ _ => .pure _
    | succ rounds ih =>
      intro source count totalBytes
      refine .bind (keeps_nextFile hplace source) fun next => ?_
      split
      · exact .guard (ih _ _ _)
      · exact .pure _
  exact .bind (hloop _ _ _ _) fun _ => .bind ((keeps_finishBatch hplace).mapError _) fun _ => .pure _

theorem keeps_validateEdge (child parent : GitOid) :
    (validateEdge repository child parent : HistoryM γ Unit).Keeps (idle H) := by
  refine .bind ((keeps_immutableEdgeViolation hplace _ _).mapError _) fun reason => ?_
  cases reason with
  | none => exact .pure _
  | some reason => exact .throw _

theorem keeps_requireAdvancing (boundary tip : GitOid) :
    (requireAdvancing repository boundary tip : HistoryM γ Unit).Keeps (idle H) :=
  .bind ((keeps_isAncestor hplace _ _).mapError _) fun _ => .ite (.throw _) (.pure _)

section

variable [Jiff] [Blake3]

theorem keeps_validateTree (store : Store) (oid : GitOid) :
    (validateTree store repository oid : HistoryM γ Unit).Keeps (idle H) :=
  .bind ((keeps_treeSnapshot hplace store _ _).mapError _) fun _ => .pure _

theorem keeps_validateParent (store : Store) (boundary : GitOid) (newIds validated : BTreeSet GitOid) (parent : GitOid) :
    (validateParent store repository boundary newIds validated parent : HistoryM γ _).Keeps (idle H) := by
  refine .ite (.pure _) (.guard ?_)
  refine .bind ((keeps_isAncestor hplace _ _).mapError _) fun _ => .guard ?_
  refine .bind ((keeps_requireCommitBounded hplace _ _).mapError _) fun _ => ?_
  exact .bind (keeps_validateTree hplace store parent) fun _ => .pure _

theorem keeps_validateLine (store : Store) (boundary : GitOid) (newIds validated : BTreeSet GitOid) (line : CommitLine) :
    (validateLine store repository boundary newIds validated line : HistoryM γ _).Keeps (idle H) := by
  refine .bind ((keeps_requireCommitBounded hplace _ _).mapError _) fun _ => ?_
  refine .bind (.foldlM (fun validated parent => keeps_validateParent hplace store _ _ _ _) _ _) fun _ => ?_
  refine .bind (.forM (fun parent => keeps_validateEdge hplace _ _) _) fun _ => ?_
  exact .bind (keeps_validateTree hplace store _) fun _ => .pure _

theorem keeps_validateHistories (store : Store) (boundary localTip remoteTip : GitOid) :
    (validateHistories store repository boundary localTip remoteTip : HistoryM γ Unit).Keeps (idle H) := by
  refine .bind (keeps_requireAdvancing hplace _ _) fun _ => .bind (keeps_requireAdvancing hplace _ _) fun _ => ?_
  refine .bind ((keeps_gitOutputWithin hplace rfl).mapError _) fun graph => .bind (.ofExcept _) fun lines => ?_
  refine .bind (keeps_validateTree hplace store _) fun _ => ?_
  refine .bind (.foldlM (fun validated line => keeps_validateLine hplace store _ _ _ _) _ _) fun validated => ?_
  exact .ite (.throw _) (.pure _)

end

end SyncRepository

end

end Wayjournal
