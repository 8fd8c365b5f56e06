import Wayjournal.Control.Except
import Wayjournal.Crash.ReadOnly
import Wayjournal.Federation.Pending
import Wayjournal.Store.DirectoryLaws

namespace Wayjournal

open Crash Fs FileSystem Text

theorem Directory.names_of_empty {d : Directory} {s : Disk} (h : s d.area = ∅) : d.names s = [] := by
  refine names_eq_nil.mpr fun n => ?_
  rw [h, get?_empty]

variable {s : Disk} {crash : Disk → Prop} {α : Type}

@[simp] theorem wp_liftPending {p : DiskM α} {post : α → Disk → Prop} {fail : PendingError → Disk → Prop} :
    (liftM p : PendingM α).wp crash post fail s ↔ p.wp crash post (fun e => fail (.store e)) s :=
  Program.wp_mapError

theorem readOnly_liftPending {p : DiskM α} (h : p.ReadOnly) : (liftM p : PendingM α).ReadOnly := h.mapError _

theorem result_liftPending {p : DiskM α} : (liftM p : PendingM α).result s = (p.result s).mapError .store := rfl

theorem readOnly_openDocument (directory : Directory) : (openDocument directory).ReadOnly := .reads _

theorem openDocument_eq_ok {directory : Directory} {file : Option Bytes} :
    (openDocument directory).result s = .ok file ↔ directory.child? .pendingJson s = file.map .regular := by
  rw [openDocument, Program.result_reads]
  cases directory.child? .pendingJson s with
  | none =>
    cases file with
    | none => simp
    | some bytes => simp
  | some e =>
    cases e with
    | regular bytes =>
      cases file with
      | none => simp
      | some other => simp
    | _ =>
      cases file with
      | none => simp
      | some other => simp

section

variable [Url]

theorem readOnly_discoverSlot (slots : Slots) (name : Name) : (discoverSlot slots name).ReadOnly := by
  unfold discoverSlot
  split
  · refine .bind (.ofExcept _) fun id => .bind (readOnly_liftPending Directory.readOnly_kind) fun kind => ?_
    refine .ite (.bind (.throw _) fun _ => ?_) ?_
    all_goals
      refine .bind (readOnly_liftPending Directory.readOnly_openDir) fun directory =>
        .bind (readOnly_openDocument directory) fun file => ?_
      split
      · refine .ite (.bind (.throw _) fun _ => ?_) ?_
        all_goals
          refine .bind (.ofExcept _) fun document => .ite (.bind (.throw _) fun _ => .pure _) (.pure _)
      · exact .pure _
  · exact .throw _

/-- A slot as its directory shows it: with the document it holds, or without one. -/
structure IsSlot (s : Disk) (slot : DurablePending) : Prop where
  directory : ∃ raw, slot.directory = Store.syncPendingDir.child raw
  document : ∃ bytes, slot.directory.child? .pendingJson s = some (.regular bytes) ∧
    decodeDocument bytes = .ok slot.document
  operationId : slot.document.operationId = slot.name

structure IsDisposable (s : Disk) (slot : GitSyncOperationId × Directory) : Prop where
  directory : ∃ raw, slot.2 = Store.syncPendingDir.child raw
  document : slot.2.child? .pendingJson s = none

/-- The slots that were found are slots. -/
def AreSlots (s : Disk) (slots : Slots) : Prop :=
  (∀ slot ∈ slots.1, IsSlot s slot) ∧ ∀ slot ∈ slots.2, IsDisposable s slot

theorem discoverSlot_spec {slots slots' : Slots} {rawName : Name} (hslots : AreSlots s slots)
    (h : (discoverSlot slots rawName).result s = .ok slots') : AreSlots s slots' := by
  unfold discoverSlot at h
  split at h
  · obtain ⟨id, -, h⟩ := (Program.result_bind_eq_ok (.ofExcept _)).mp h
    obtain ⟨kind, -, h⟩ := (Program.result_bind_eq_ok (readOnly_liftPending Directory.readOnly_kind)).mp h
    split at h
    · cases h
    · obtain ⟨directory, hdirectory, h⟩ :=
        (Program.result_bind_eq_ok (readOnly_liftPending Directory.readOnly_openDir)).mp h
      obtain rfl := Directory.child_of_openDir (mapError_eq_ok.mp hdirectory)
      obtain ⟨file, hfile, h⟩ := (Program.result_bind_eq_ok (readOnly_openDocument _)).mp h
      have hentry := openDocument_eq_ok.mp hfile
      split at h
      · rename_i bytes
        split at h
        · cases h
        · obtain ⟨document, hdocument, h⟩ := (Program.result_bind_eq_ok (.ofExcept _)).mp h
          split at h
          · cases h
          · rename_i hid
            cases h
            refine ⟨fun slot hslot => ?_, hslots.2⟩
            obtain hslot | hslot := List.mem_append.mp hslot
            · exact hslots.1 slot hslot
            · obtain rfl := List.mem_singleton.mp hslot
              exact ⟨⟨rawName, rfl⟩, ⟨bytes, hentry, hdocument⟩, not_not.mp hid⟩
      · rename_i hnone
        cases file with
        | some bytes => exact absurd rfl (hnone bytes)
        | none =>
          cases h
          refine ⟨hslots.1, fun slot hslot => ?_⟩
          obtain hslot | hslot := List.mem_append.mp hslot
          · exact hslots.2 slot hslot
          · obtain rfl := List.mem_singleton.mp hslot
            exact ⟨⟨rawName, rfl⟩, hentry⟩
  · cases h

theorem mem_of_linkSlots {slots : List DurablePending} {active predecessor : Option DurablePending}
    (h : linkSlots slots = .ok (active, predecessor)) :
    (∀ slot ∈ active, slot ∈ slots) ∧ ∀ slot ∈ predecessor, slot ∈ slots := by
  have hbind : ∀ {a b : DurablePending} {l : List DurablePending}, a ∈ l → b ∈ l →
      bindSuccession a b = .ok (active, predecessor) →
      (∀ slot ∈ active, slot ∈ l) ∧ ∀ slot ∈ predecessor, slot ∈ l := by
    intro a b l ha hb h
    unfold bindSuccession at h
    split at h
    · cases h
      exact ⟨fun slot hslot => Option.some.inj hslot ▸ ha, fun slot hslot => Option.some.inj hslot ▸ hb⟩
    · cases h
  cases slots with
  | nil =>
    cases h
    exact ⟨by simp, by simp⟩
  | cons left rest =>
    cases rest with
    | nil =>
      cases h
      exact ⟨by simp, by simp⟩
    | cons right more =>
      cases more with
      | nil =>
        rw [linkSlots] at h
        split at h
        · exact hbind (by simp) (by simp) h
        · split at h
          · exact hbind (by simp) (by simp) h
          · cases h
      | cons third more => cases h

variable [ReadDir]

theorem readOnly_discover : discover.ReadOnly := by
  unfold discover
  refine .bind (readOnly_liftPending Directory.readOnly_boundedNames) fun names =>
    .bind (.foldlM readOnly_discoverSlot _ _) fun slots => ?_
  refine .ite (.bind (.throw _) fun _ => ?_) ?_
  all_goals exact .bind (.ofExcept _) fun linked => .pure _

theorem readOnly_gateWithoutGit : gateWithoutGit.ReadOnly := by
  refine .bind (readOnly_discover.mapError _) fun ⟨active, disposable, predecessor⟩ => ?_
  cases active with
  | none => exact .ite (.bind (.throw _) fun _ => .pure _) (.pure _)
  | some active =>
    refine .bind (.reads _) fun residue => .ite (.bind (.throw _) fun _ => ?_) ?_
    all_goals exact .bind (.throw _) fun _ => .ite (.bind (.throw _) fun _ => .pure _) (.pure _)

theorem discover_spec {found : PendingDiscovery} (h : discover.result s = .ok found) :
    (∀ slot ∈ found.active, IsSlot s slot) ∧ (∀ slot ∈ found.predecessor, IsSlot s slot) ∧
      ∀ slot ∈ found.disposable, IsDisposable s slot := by
  unfold discover at h
  obtain ⟨names, hnames, h⟩ :=
    (Program.result_bind_eq_ok (readOnly_liftPending Directory.readOnly_boundedNames)).mp h
  obtain ⟨⟨durable, disposable⟩, hslots, h⟩ :=
    (Program.result_bind_eq_ok (.foldlM readOnly_discoverSlot _ _)).mp h
  rw [Program.result_foldlM readOnly_discoverSlot] at hslots
  have hare : AreSlots s (durable, disposable) := foldlM_invariant (fun _ slots => AreSlots s slots)
    (fun _ _ _ _ hslots h => discoverSlot_spec hslots h) ⟨by simp, by simp⟩ hslots
  dsimp only at h
  split at h
  · cases h
  · obtain ⟨⟨active, predecessor⟩, hlinked, h⟩ := (Program.result_bind_eq_ok (.ofExcept _)).mp h
    obtain ⟨hactive, hpredecessor⟩ := mem_of_linkSlots hlinked
    cases h
    exact ⟨fun slot hslot => hare.1 slot (hactive slot hslot),
      fun slot hslot => hare.1 slot (hpredecessor slot hslot), hare.2⟩

theorem wp_discover_none {fail : PendingError → Disk → Prop} {post : PendingDiscovery → Disk → Prop}
    (h : s .syncPending = ∅) : discover.wp crash post fail s ↔ post ⟨none, [], none⟩ s := by
  have hnames : Store.syncPendingDir.names s = [] := Directory.names_of_empty h
  rw [discover, Program.wp_bind, wp_liftPending,
    Directory.wp_boundedNames (by rw [hnames]; exact Nat.zero_le _), hnames, List.insertionSort_nil,
    List.foldlM_nil, Program.wp_bind, Program.wp_pure]
  simp only [List.length_nil, Nat.not_lt_zero, decide_false, Nat.add_zero, Bool.or_false, Bool.false_eq_true,
    if_false, Program.wp_bind]
  rw [Program.wp_ofExcept_ok (linkSlots.eq_1), Program.wp_pure]

theorem wp_gateWithoutGit_none {fail : StoreError → Disk → Prop} {post : GateAction → Disk → Prop}
    (h : s .syncPending = ∅) : gateWithoutGit.wp crash post fail s ↔ post .allow s := by
  rw [gateWithoutGit, Program.wp_bind, Program.wp_mapError, wp_discover_none h]
  exact Program.wp_pure

theorem wp_cleanDisposableLocked_none {fail : StoreError → Disk → Prop} {post : Unit → Disk → Prop}
    (h : s .syncPending = ∅) : cleanDisposableLocked.wp crash post fail s ↔ post () s := by
  rw [cleanDisposableLocked, Program.wp_bind, Program.wp_mapError, wp_discover_none h]
  exact Program.wp_pure

end

end Wayjournal
