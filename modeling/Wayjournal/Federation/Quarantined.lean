import Wayjournal.Federation.SyncSafety

namespace Wayjournal

open Collections Crash Fs FileSystem Relation Text

section Areas

/-- The areas of the operations of a store. -/
def storeAreas : List Area := .syncPending :: batchAreas

theorem onlyAreas_of_batch {ε α : Type} {p : Program Disk ε α} (h : p.Keeps (onlyAreas batchAreas)) :
    p.Keeps (onlyAreas storeAreas) :=
  h.mono fun _ _ => onlyAreas_mono (List.subset_cons_self _ _)

variable [ReadDir]

theorem onlyAreas_removeSlot {id : GitSyncOperationId} {d : Directory} (harea : d.area = .syncPending) :
    (removeSlot id d).Keeps (onlyAreas storeAreas) := by
  refine .bind ?_ fun _ => .bind (.reads _) fun same => .ite (.pure _) (.bind ?_ fun _ => .pure _)
  · refine (keeps_onlyBelow_removeContents _ _ _).mono fun s t h => ?_
    exact onlyAreas_of_within (harea ▸ by decide) (within_of_onlyBelow h)
  · exact Directory.within_unlinkDir.mono fun _ _ => onlyAreas_of_within (by decide)

variable [Url]

theorem onlyAreas_cleanDisposableLocked : cleanDisposableLocked.Keeps (onlyAreas storeAreas) := by
  refine .bindOf (.readOnly (readOnly_discover.mapError _)) fun s found hfound => ?_
  obtain ⟨-, -, -, hplaced⟩ := discover_slots (mapError_eq_ok.mp hfound)
  split
  · exact .throwBind
  · refine .forMOf fun slot hslot => .bind (onlyAreas_removeSlot ?_) fun _ => .ite (.throw _) (.pure _)
    rw [(hplaced slot hslot).1]
    rfl

variable [Jiff] [Blake3] {store : Store} {prepared : PreparedBatch} {expected : StoreRevisionRef}

theorem onlyAreas_recoverWithoutSnapshot : (recoverWithoutSnapshot store).Keeps (onlyAreas storeAreas) := by
  refine .bind onlyAreas_cleanDisposableLocked fun _ => .bind (.readOnly readOnly_gateWithoutGit) fun _ => .guard ?_
  exact onlyAreas_of_batch onlyAreas_recoverLocked

theorem onlyAreas_append : (append store prepared expected).Keeps (onlyAreas storeAreas) := by
  refine .bind onlyAreas_recoverWithoutSnapshot fun _ => .bind (.reads _) fun snapshot => ?_
  refine .bind (.readOnly readOnly_requirePendingAllow) fun _ => .bind (.reads _) fun preview => ?_
  cases preview with
  | replay batchId revision => exact .pure _
  | publish revision =>
    refine .bind (.readOnly readOnly_requirePendingAllow) fun _ => .bind (onlyAreas_of_batch onlyAreas_stageBatch) fun _ => ?_
    exact .bind (onlyAreas_of_batch (onlyAreas_recoverOne _)) fun _ => .bind (.reads _) fun _ => .pure _

theorem onlyAreas_previewAppend : (previewAppend store prepared expected).Keeps (onlyAreas storeAreas) := by
  refine .bind onlyAreas_recoverWithoutSnapshot fun _ => .bind (.reads _) fun snapshot => ?_
  exact .bind (.readOnly readOnly_requirePendingAllow) fun _ => .reads _

end Areas

section Incident

theorem sees_liftQuarantine {α : Type} {p : DiskM α} {area : Area} (h : p.Sees (Disk.view area)) :
    (liftM p : QuarantineM α).Sees (Disk.view area) :=
  h.mapError _

variable [Url]

theorem GitSyncRequest.ext_iff {a b : GitSyncRequest} :
    a = b ↔ a.localTrust = b.localTrust ∧ a.approvedRemote = b.approvedRemote := by
  cases a
  cases b
  simp

variable [ReadDir] {request : GitSyncRequest} {incident : QuarantineIncident} {s : Disk}

/-- The incident of a request is looked for among the incidents alone. -/
theorem sees_active : (active request).Sees (Disk.view .quarantine) := by
  refine .bind (sees_liftQuarantine (Directory.sees_boundedNames rfl)) fun names => ?_
  split
  · refine .bind (sees_liftQuarantine (Directory.sees_kind rfl)) fun kind => .ite (.bind (.throw _) fun _ => ?_) ?_
    all_goals
      refine .bind (.ofExcept _) fun id => .bind (sees_liftQuarantine (Directory.sees_openFile rfl)) fun bytes => ?_
      refine .ite (.bind (.throw _) fun _ => ?_) ?_
      all_goals
        refine .bind (.ofExcept _) fun incident => .ite (.bind (.throw _) fun _ => ?_) ?_
        all_goals
          refine .ite (.bind (.throw _) fun _ => ?_) ?_
          all_goals exact .pure _
  · exact .pure _

/-- What stands in the way of one request stands in the way of every other one. -/
theorem active_of_other (h : (active request).result s = .ok (some incident)) (other : GitSyncRequest) :
    (active other).result s = if other = request then .ok (some incident) else .error .authorityMismatch := by
  have hread {α : Type} {p : DiskM α} (h : p.ReadOnly) := readOnly_liftQuarantine h
  unfold active at h ⊢
  obtain ⟨names, hnames, h⟩ := (Program.result_bind_eq_ok (hread Directory.readOnly_boundedNames)).mp h
  rw [(hread Directory.readOnly_boundedNames).result_of_bind hnames]
  cases hhead : names.head? with
  | none =>
    rw [hhead] at h
    cases h
  | some name =>
    rw [hhead] at h
    dsimp only at h ⊢
    obtain ⟨kind, hkind, h⟩ := (Program.result_bind_eq_ok (hread Directory.readOnly_kind)).mp h
    obtain ⟨hregular, h⟩ := Program.guard_eq_ok.mp h
    obtain ⟨id, hid, h⟩ := (Program.result_bind_eq_ok (.ofExcept _)).mp h
    obtain ⟨bytes, hbytes, h⟩ := (Program.result_bind_eq_ok (hread Directory.readOnly_openFile)).mp h
    obtain ⟨hlength, h⟩ := Program.guard_eq_ok.mp h
    obtain ⟨found, hfound, h⟩ := (Program.result_bind_eq_ok (.ofExcept _)).mp h
    obtain ⟨hsame, h⟩ := Program.guard_eq_ok.mp h
    obtain ⟨hauthority, h⟩ := Program.guard_eq_ok.mp h
    cases h
    rw [(hread Directory.readOnly_kind).result_of_bind hkind, if_neg hregular,
      (Program.ReadOnly.ofExcept _).result_of_bind hid, (hread Directory.readOnly_openFile).result_of_bind hbytes,
      if_neg hlength, (Program.ReadOnly.ofExcept _).result_of_bind hfound, if_neg hsame]
    simp only [Bool.or_eq_true, decide_eq_true_eq, not_or, not_not] at hauthority
    by_cases heq : other = request
    · subst heq
      rw [if_neg (by simp [hauthority]), if_pos rfl]
      rfl
    · rw [if_neg heq, if_pos]
      · rfl
      · rw [GitSyncRequest.ext_iff] at heq
        simp only [Bool.or_eq_true, decide_eq_true_eq, hauthority.1, hauthority.2]
        obtain hne | hne := not_and_or.mp heq
        · exact .inl fun h => hne h.symm
        · exact .inr fun h => hne h.symm

end Incident

section Quarantine

variable [Url] [ReadDir] {γ : Type} {store : Store} {request : GitSyncRequest} {incident : QuarantineIncident} {w v : World γ}

theorem requireNoIncident_of_incident (h : (active request).result w.disk = .ok (some incident)) (other : GitSyncRequest) :
    (requireNoIncident other : SyncM γ Unit) w = ⟨[], .error (if other = request
      then .outcome (.quarantined incident.incidentId incident.reason) else .failed (.quarantine .authorityMismatch))⟩ := by
  have hread : (SyncM.quarantine (active other) : SyncM γ _).ReadOnly := (readOnly_onDisk readOnly_active).mapError _
  have hactive := active_of_other h other
  have hresult : (SyncM.quarantine (active other) : SyncM γ _).result w =
      ((active other).result w.disk).mapError fun e => .failed (.quarantine e) := rfl
  unfold requireNoIncident
  by_cases heq : other = request
  · rw [if_pos heq] at hactive ⊢
    rw [hactive] at hresult
    rw [hread.bind_apply_ok hresult]
    rfl
  · rw [if_neg heq] at hactive ⊢
    rw [hactive] at hresult
    rw [hread.bind_apply_error hresult]

variable [Jiff] [Blake3] [Git γ]

/-- Where an incident stands a synchronization does nothing at all. -/
theorem syncGitUnionLocked_of_incident (h : (active request).result w.disk = .ok (some incident)) (other : GitSyncRequest)
    (draws next : Draws) (authorized : Option AdmissionCheckpoint) :
    syncGitUnionLocked store other draws next authorized w = ⟨[], if other = request
      then .ok (.quarantined incident.incidentId incident.reason) else .error (.quarantine .authorityMismatch)⟩ := by
  have hincident := requireNoIncident_of_incident h other
  have hresult : (requireNoIncident other : SyncM γ Unit).result w = .error _ := congrArg Run.result hincident
  have hsync : synchronize store other draws next authorized w = ⟨[], .error (if other = request
      then .outcome (.quarantined incident.incidentId incident.reason) else .failed (.quarantine .authorityMismatch))⟩ := by
    rw [synchronize, show ∀ f, (requireNoIncident other >>= f : SyncM γ GitSyncOutcome) = Program.bind _ f from fun _ => rfl,
      Program.bind_apply_error hresult, hincident]
  rw [syncGitUnionLocked, SyncM.settled, Program.result, hsync]
  by_cases heq : other = request
  · simp only [if_pos heq]
  · simp only [if_neg heq]

theorem SystemStep.quarantine (h : (active request).result w.disk = .ok (some incident)) (hstep : SystemStep store w v) :
    v.disk .quarantine = w.disk .quarantine := by
  cases hstep with
  | append prepared expected n => exact onlyAreas_append.cut w.disk n .quarantine (by decide)
  | preview prepared expected n => exact onlyAreas_previewAppend.cut w.disk n .quarantine (by decide)
  | recover n => exact onlyAreas_recoverWithoutSnapshot.cut w.disk n .quarantine (by decide)
  | checkpoint n => exact onlyAreas_readCheckpoint.cut w.disk n .quarantine (by decide)
  | git git => rfl
  | sync other draws next authorized n =>
    have hcut : (syncGitUnionLocked store other draws next authorized).cut w n = w := by
      rw [Program.cut, syncGitUnionLocked_of_incident h]
      simp
    change ((syncGitUnionLocked store other draws next authorized).cut w n).disk .quarantine = _
    rw [hcut]

theorem incident_of_run (h : (active request).result w.disk = .ok (some incident))
    (hrun : ReflTransGen (SystemStep store) w v) : (active request).result v.disk = .ok (some incident) := by
  induction hrun with
  | refl => exact h
  | tail _ hstep ih => exact (sees_active.result_eq (hstep.quarantine ih)).trans ih

/-- Once a call has told of an incident, no later call does anything but tell of it: it never goes, whatever the store
does and whatever becomes of the Git side. -/
theorem quarantine_is_final {draws next : Draws} {authorized : Option AdmissionCheckpoint} (disk : Disk) (git : γ) :
    (syncGitUnionLocked store request draws next authorized).wp (fun _ => True)
      (fun outcome t => ∀ id reason, outcome = .quarantined id reason → ∀ v, ReflTransGen (SystemStep store) t v →
        ∀ other draws next authorized, syncGitUnionLocked store other draws next authorized v = ⟨[], if other = request
          then .ok (.quarantined id reason) else .error (.quarantine .authorityMismatch)⟩)
      (fun _ _ => True) ⟨disk, git, none⟩ := by
  refine Program.wp_of_result fun outcome hresult id reason houtcome v hrun other draws next authorized => ?_
  subst houtcome
  obtain ⟨incident, hactive, rfl, rfl⟩ := told_of_outcome (w := (⟨disk, git, none⟩ : World γ)) rfl hresult
  exact syncGitUnionLocked_of_incident (incident_of_run hactive hrun) other draws next authorized

end Quarantine

end Wayjournal
