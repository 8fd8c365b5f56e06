import Wayjournal.Federation.PendingLaws
import Wayjournal.Federation.Quarantine

namespace Wayjournal

open Crash Fs FileSystem Text

section

variable {α : Type} {s : Disk} {crash : Disk → Prop}

@[simp] theorem wp_liftQuarantine {p : DiskM α} {post : α → Disk → Prop} {fail : QuarantineError → Disk → Prop} :
    (liftM p : QuarantineM α).wp crash post fail s ↔ p.wp crash post (fun e => fail (.store e)) s :=
  Program.wp_mapError

theorem readOnly_liftQuarantine {p : DiskM α} (h : p.ReadOnly) : (liftM p : QuarantineM α).ReadOnly := h.mapError _

theorem Directory.openFile_eq_ok {d : Directory} {name : Name} {bytes : Bytes} :
    (d.openFile name).result s = .ok bytes ↔ d.child? name s = some (.regular bytes) := by
  rw [Directory.openFile, Program.result_reads]
  cases he : d.child? name s with
  | none => simp
  | some e => cases e <;> simp

end

section

variable [Url] [ReadDir] {request : GitSyncRequest} {s : Disk}

/-- What the first file of the quarantine directory says. -/
structure ActiveIncident (request : GitSyncRequest) (s : Disk) (incident : QuarantineIncident) : Prop where
  intro ::
  file : ∃ name bytes, name ∈ Store.quarantineDir.names s ∧ Store.quarantineDir.child? name s = some (.regular bytes) ∧
    decodeIncident bytes = .ok incident
  authority : incident.localTrustBinding = request.localTrust ∧ incident.approvedRemote = request.approvedRemote

theorem readOnly_active : (active request).ReadOnly := by
  unfold active
  refine .bind (readOnly_liftQuarantine Directory.readOnly_boundedNames) fun names => ?_
  split
  · refine .bind (readOnly_liftQuarantine Directory.readOnly_kind) fun kind => ?_
    refine .ite (.bind (.throw _) fun _ => ?_) ?_
    all_goals
      refine .bind (.ofExcept _) fun id => .bind (readOnly_liftQuarantine Directory.readOnly_openFile) fun bytes => ?_
      refine .ite (.bind (.throw _) fun _ => ?_) ?_
      all_goals
        refine .bind (.ofExcept _) fun incident => ?_
        refine .ite (.bind (.throw _) fun _ => ?_) ?_
        all_goals
          refine .ite (.bind (.throw _) fun _ => .pure _) (.pure _)
  · exact .pure _

/-- Either there is no file, or the first one is an incident of the request. -/
theorem active_spec {found : Option QuarantineIncident} (h : (active request).result s = .ok found) :
    (Store.quarantineDir.names s = [] ∧ found = none) ∨ ∃ incident, found = some incident ∧
      ActiveIncident request s incident := by
  unfold active at h
  obtain ⟨names, hnames, h⟩ :=
    (Program.result_bind_eq_ok (readOnly_liftQuarantine Directory.readOnly_boundedNames)).mp h
  have hmem := fun n => Directory.mem_of_boundedNames (mapError_eq_ok.mp hnames) (n := n)
  split at h
  · rename_i name hhead
    right
    obtain ⟨kind, -, h⟩ := (Program.result_bind_eq_ok (readOnly_liftQuarantine Directory.readOnly_kind)).mp h
    split at h
    · cases h
    · obtain ⟨id, -, h⟩ := (Program.result_bind_eq_ok (.ofExcept _)).mp h
      obtain ⟨bytes, hbytes, h⟩ :=
        (Program.result_bind_eq_ok (readOnly_liftQuarantine Directory.readOnly_openFile)).mp h
      split at h
      · cases h
      · obtain ⟨incident, hincident, h⟩ := (Program.result_bind_eq_ok (.ofExcept _)).mp h
        by_cases hid : incident.incidentId ≠ id
        · rw [if_pos hid] at h
          cases h
        · rw [if_neg hid] at h
          split at h
          · cases h
          · rename_i hauthority
            cases h
            rw [Bool.or_eq_true, not_or, decide_eq_true_eq, decide_eq_true_eq, not_not, not_not] at hauthority
            refine ⟨incident, rfl, ⟨name, bytes, (hmem name).mp (List.mem_of_head? hhead), ?_, hincident⟩, hauthority⟩
            exact Directory.openFile_eq_ok.mp (mapError_eq_ok.mp hbytes)
  · rename_i hhead
    cases h
    left
    refine ⟨List.eq_nil_iff_forall_not_mem.mpr fun n hn => ?_, rfl⟩
    cases names with
    | nil => exact absurd ((hmem n).mpr hn) List.not_mem_nil
    | cons a rest => exact hhead a rfl

end

end Wayjournal
