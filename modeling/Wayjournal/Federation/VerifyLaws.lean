import Wayjournal.Federation.SyncRules

namespace Wayjournal

open Collections Crash Fs FileSystem Text

/-- Where the repository of an operation stands. -/
theorem allowed_place [Url] {pending : DurablePending} {repository : SyncRepository}
    (hd : pending.directory = Store.syncPendingDir.child pending.name.name)
    (hbare : repository.bare = pending.directory.child .repoGit) : repository.place.Allowed apart := by
  rw [SyncRepository.place, hbare]
  exact allowed_bare (Directory.free_slot hd (by decide))

theorem keeps_isAncestry {γ : Type} [Git γ] {repository : SyncRepository} (hplace : repository.place.Allowed apart)
    (pairs : List (GitOid × GitOid)) : (isAncestry repository pairs : GitM γ Bool).Keeps (idle apart) := by
  induction pairs with
  | nil => exact .pure _
  | cons pair rest ih => exact .bind (SyncRepository.keeps_isAncestor hplace _ _) fun _ => .ite ih (.pure _)

section

variable [Url] [Jiff] [Blake3] [ReadDir] {γ : Type} {store : Store} {request : GitSyncRequest} {left : List Name}
  {draws : Draws} {checkpoint : AdmissionCheckpoint} {pending : DurablePending} {repository : SyncRepository}
  {A : Disk → Prop}

theorem leads_requireOwnOperation :
    Leads store request left A (requireOwnOperation request checkpoint pending : SyncM γ Unit)
      fun _ s => pending.document.approvedRemote = request.approvedRemote ∧ A s := by
  refine .ite (fun _ => .failed fun h => by cases h) fun h => .pure fun s hs => ⟨?_, hs⟩
  simp only [Bool.or_eq_true, decide_eq_true_eq, not_or, not_not] at h
  exact h.1.2

variable [Git γ] (hplace : repository.place.Allowed apart) (hA : Stable A)
include hplace hA

theorem leads_publicationSnapshot (oid : GitOid) :
    Leads store request left A (publicationSnapshot (γ := γ) store request draws checkpoint pending repository oid)
      fun _ => A :=
  .orHostile (keeps_treeSnapshot hplace _ _ _) hA (fun _ => .quarantinePublication hA) fun _ _ hs => hs

theorem leads_verifyCommits :
    Leads store request left A (verifyCommits (γ := γ) store request draws checkpoint pending repository) fun _ => A := by
  have hsnapshot (oid : GitOid) : Leads store request left A
      (publicationSnapshot (γ := γ) store request draws checkpoint pending repository oid) fun _ => A :=
    leads_publicationSnapshot hplace hA oid
  refine .bind (.git (keeps_requireCommitObject hplace _) hA) fun _ => .bind (hsnapshot _) fun candidate => ?_
  refine .bind (.git (SyncRepository.keeps_commitParents hplace _) hA) fun parents => ?_
  refine .bind (.git (keeps_isAncestry hplace _) hA) fun valid => .guard (fun _ => .quarantinePublication hA) fun _ => ?_
  refine .bind (hsnapshot _) fun original => .bind (hsnapshot _) fun advance => ?_
  refine .guard (fun _ => .quarantinePublication hA) fun _ => .bind (hsnapshot _) fun base => ?_
  exact .guard (fun _ => .quarantinePublication hA) fun _ => .pure fun _ hs => hs

theorem leads_verifyAdditions :
    Leads store request left A (verifyAdditions (γ := γ) request draws checkpoint pending repository) fun _ => A := by
  refine .bind (.orHostileSnapshot (SyncRepository.keeps_spoolTreeAdditions hplace _ _) hA) fun diff => ?_
  refine .bind (.admission ((SyncRepository.keeps_treeAdditionSource hplace _).mapError _) hA) fun source => ?_
  refine .bind (.attempt (keeps_recheckAdditions hplace _ _) hA) fun state => .pre ?_ fun _ hs => hs.2
  have hrest : ∀ state : TreeAdditionSource × Nat, Leads store request left A (do
      let next ← orHostileSnapshot request draws checkpoint pending (repository.nextFile state.1)
      if next.1.isSome then hostilePublication request draws checkpoint pending
      SyncM.admission (finishBatch repository.place : GitM γ _)
      if state.2 ≠ pending.document.additionsCount.val then hostilePublication request draws checkpoint pending :
        SyncM γ Unit) fun _ => A := by
    intro state
    refine .bind (.orHostileSnapshot (SyncRepository.keeps_nextFile hplace _) hA) fun next => ?_
    refine .guard (fun _ => .quarantinePublication hA) fun _ => ?_
    refine .bind (.admission ((keeps_finishBatch hplace).mapError _) hA) fun _ => ?_
    exact .ite (fun _ => .quarantinePublication hA) fun _ => .pure fun _ hs => hs
  cases state with
  | ok state => exact .bind (.pure fun _ hs => hs) hrest
  | error error =>
    cases error with
    | source error =>
      refine .ite (fun _ => .bind (.quarantinePublication hA) hrest) fun _ => .bind ?_ hrest
      exact .failed fun h => by cases h
    | mismatch => exact .bind (.quarantinePublication hA) hrest
    | pending error =>
      refine .bind ?_ hrest
      exact .failed fun h => by cases h

end

end Wayjournal
