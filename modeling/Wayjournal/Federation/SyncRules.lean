import Wayjournal.Federation.SyncFrame

namespace Wayjournal

open Collections Crash Fs FileSystem Text

section Rest

variable {γ : Type} {A B : Disk → Prop}

/-- No push is under way. -/
def Still (A : Disk → Prop) (world : World γ) : Prop := ¬world.Pushing ∧ A world.disk

/-- What work beside the published state does not change. -/
def Stable (A : Disk → Prop) : Prop := ∀ s t, apart.rel s t → A s → A t

theorem Still.mono {world : World γ} (h : Still A world) (hAB : ∀ s, A s → B s) : Still B world := ⟨h.1, hAB _ h.2⟩

theorem not_pushing_set {world : World γ} (h : ¬world.Pushing) (disk : Disk) : ¬World.Pushing { world with disk } := h

theorem failed_of_mapError {ε α : Type} {f : ε → GitSyncError} (hf : ∀ e, f e ≠ .advanceRequired)
    {p : Program (World γ) ε α} (w : World γ) (e : SyncExit)
    (h : (p.mapError fun e => SyncExit.failed (f e)).result w = .error e) :
    ∃ error, e = .failed error ∧ error ≠ .advanceRequired := by
  rw [Program.result_mapError] at h
  cases hr : p.result w with
  | ok a =>
    rw [hr] at h
    cases h
  | error cause =>
    rw [hr] at h
    cases h
    exact ⟨f cause, rfl, hf cause⟩

end Rest

section Ends

variable [Url] [Jiff] [Blake3] [ReadDir] {γ : Type}

/-- What an outcome tells of the disk; `left` are the slots that may still be there after a success. -/
def Told (store : Store) (request : GitSyncRequest) (left : List Name) : GitSyncOutcome → Disk → Prop
  | .upToDate commit revision, disk | .advanced commit revision, disk =>
    disk.Shows store revision ∧ SlotsWithin left disk ∧
      ∃ checkpoint, disk.Accepts checkpoint ∧ checkpoint.acceptedCommit = commit ∧ checkpoint.acceptedRevision = revision
  | .staleRemoteCas candidate observed, disk =>
    ∃ raw document, disk.Documents raw document ∧ document.phase = .remoteCasStale ∧
      document.candidateCommit = candidate ∧ document.staleRemoteOid = some observed ∧
      disk.Shows store document.candidateRevision ∧ disk.Accepts document.candidateCheckpoint
  | .quarantined id reason, disk =>
    ∃ incident, (active request).result disk = .ok (some incident) ∧ incident.incidentId = id ∧ incident.reason = reason

/-- How a synchronization may end early. That the rounds of its loop run out is not among the ways. -/
def Ends (store : Store) (request : GitSyncRequest) (left : List Name) : SyncExit → World γ → Prop
  | .outcome outcome, world => Still (Told store request left outcome) world
  | .failed error, _ => error ≠ .advanceRequired

/-- A part of a synchronization, from what holds before to what holds after. -/
def Leads (store : Store) (request : GitSyncRequest) (left : List Name) (A : Disk → Prop) (p : SyncM γ α)
    (B : α → Disk → Prop) : Prop :=
  p.Triple (protocol store) (Still A) (fun a => Still (B a)) (Ends store request left)

variable {store : Store} {request : GitSyncRequest} {left : List Name} {A A' : Disk → Prop} {α β : Type}

namespace Leads

theorem mono {p : SyncM γ α} {B B' : α → Disk → Prop} (h : Leads store request left A p B) (hA : ∀ s, A' s → A s)
    (hB : ∀ a s, B a s → B' a s) : Leads store request left A' p B' :=
  Program.Triple.mono h (fun _ hs => hs.mono hA) (fun a _ hs => hs.mono (hB a)) fun _ _ hs => hs

theorem pre {p : SyncM γ α} {B : α → Disk → Prop} (h : Leads store request left A p B) (hA : ∀ s, A' s → A s) :
    Leads store request left A' p B :=
  h.mono hA fun _ _ hs => hs

theorem post {p : SyncM γ α} {B B' : α → Disk → Prop} (h : Leads store request left A p B) (hB : ∀ a s, B a s → B' a s) :
    Leads store request left A p B' :=
  h.mono (fun _ hs => hs) hB

theorem bind {p : SyncM γ α} {f : α → SyncM γ β} {B : α → Disk → Prop} {C : β → Disk → Prop}
    (hp : Leads store request left A p B) (hf : ∀ a, Leads store request left (B a) (f a) C) :
    Leads store request left A (p >>= f) C :=
  Program.Triple.bind hp hf

theorem pure {B : α → Disk → Prop} {a : α} (h : ∀ s, A s → B a s) :
    Leads store request left A (Pure.pure a : SyncM γ α) B :=
  Program.Triple.pure fun _ hs => hs.mono h

theorem failed {B : α → Disk → Prop} {error : GitSyncError} (h : error ≠ .advanceRequired) :
    Leads store request left A (throw (.failed error) : SyncM γ α) B :=
  Program.Triple.throw fun _ _ => h

theorem outcome {B : α → Disk → Prop} {outcome : GitSyncOutcome} (h : ∀ s, A s → Told store request left outcome s) :
    Leads store request left A (throw (.outcome outcome) : SyncM γ α) B :=
  Program.Triple.throw fun _ hs => hs.mono h

theorem ite {c : Prop} [Decidable c] {p q : SyncM γ α} {B : α → Disk → Prop} (hp : c → Leads store request left A p B)
    (hq : ¬c → Leads store request left A q B) : Leads store request left A (if c then p else q) B :=
  Program.Triple.ite hp hq

/-- A part that never returns. -/
theorem never {p : SyncM γ α} {f : α → SyncM γ β} {C : β → Disk → Prop}
    (hp : Leads store request left A p fun _ _ => False) : Leads store request left A (p >>= f) C :=
  bind hp fun _ _ hs => hs.2.elim

theorem guard {c : Prop} [Decidable c] {p : SyncM γ α} {f : α → SyncM γ β} {q : SyncM γ β} {C : β → Disk → Prop}
    (hp : c → Leads store request left A p fun _ _ => False) (hq : ¬c → Leads store request left A q C) :
    Leads store request left A (if c then p >>= f else q) C :=
  ite (fun h => never (hp h)) hq

/-- A fact that does not depend on the disk. -/
theorem pull {P : Prop} {p : SyncM γ α} {B : α → Disk → Prop} (h : P → Leads store request left A p B) :
    Leads store request left (fun s => P ∧ A s) p B :=
  fun s hs => h hs.2.1 s ⟨hs.1, hs.2.2⟩

/-- Work beside the published state, with what is known of its result. -/
theorem idleOf {p : SyncM γ α} (h : p.Keeps (idle apart))
    (hfail : ∀ w e, p.result w = .error e → ∃ error, e = .failed error ∧ error ≠ .advanceRequired) (hA : Stable A) :
    Leads store request left A p fun a s => (∃ w, p.result w = .ok a) ∧ A s := by
  intro w hw
  have hrel : ∀ v, (idle apart).rel w v → (protocol store).rel w v := fun v => protocol_of_idle
  have hfinal := h.final w
  have hstill : Still A (p.final w) := ⟨not_pushing_of_idle hfinal hw.1, hA _ _ hfinal.1 hw.2⟩
  refine ⟨fun v hv => hrel v (h w v hv), ?_⟩
  split
  · exact ⟨hstill.1, ⟨w, ‹_›⟩, hstill.2⟩
  · obtain ⟨error, rfl, herror⟩ := hfail w _ ‹_›
    exact herror

theorem idle {p : SyncM γ α} (h : p.Keeps (idle apart))
    (hfail : ∀ w e, p.result w = .error e → ∃ error, e = .failed error ∧ error ≠ .advanceRequired) (hA : Stable A) :
    Leads store request left A p fun _ => A :=
  (idleOf h hfail hA).post fun _ _ hs => hs.2

theorem gitOf {p : GitM γ α} (h : p.Keeps (Wayjournal.idle apart)) (hA : Stable A) :
    Leads store request left A (SyncM.git p) fun a s => (∃ w, p.result w = .ok a) ∧ A s :=
  (idleOf (h.mapError _) (failed_of_mapError fun _ h => by cases h) hA).post fun _ _ hs =>
    ⟨hs.1.imp fun _ hw => mapError_eq_ok.mp hw, hs.2⟩

theorem git {p : GitM γ α} (h : p.Keeps (Wayjournal.idle apart)) (hA : Stable A) :
    Leads store request left A (SyncM.git p) fun _ => A :=
  (gitOf h hA).post fun _ _ hs => hs.2

theorem admission {p : AdmissionM γ α} (h : p.Keeps (Wayjournal.idle apart)) (hA : Stable A) :
    Leads store request left A (SyncM.admission p) fun _ => A :=
  idle (h.mapError _) (failed_of_mapError fun _ h => by cases h) hA

/-- Work on the disk that keeps to what is published. -/
theorem onDisk {ε : Type} {f : ε → GitSyncError} (hf : ∀ e, f e ≠ .advanceRequired) {p : Program Disk ε α}
    {B : α → Disk → Prop} (h : ∀ s, A s → p.wp (Follows store s) B (fun _ _ => True) s) :
    Leads store request left A ((Wayjournal.onDisk p).mapError fun e => .failed (f e) : SyncM γ α) B := by
  intro w hw
  have hput : ({ w with disk := w.disk } : World γ) = w := rfl
  refine Program.wp_mapError.mpr ((Program.wp_zoomed hput).mpr (Program.wp_mono (h w.disk hw.2) ?_ ?_ ?_))
  · exact fun t ht => ⟨ht, fun hpush => absurd hpush (not_pushing_set hw.1 t)⟩
  · exact fun a t ht => ⟨not_pushing_set hw.1 t, ht⟩
  · exact fun e t _ => hf e

theorem keeps {ε : Type} {f : ε → GitSyncError} (hf : ∀ e, f e ≠ .advanceRequired) {p : Program Disk ε α}
    (h : p.Keeps apart) (hA : Stable A) :
    Leads store request left A ((Wayjournal.onDisk p).mapError fun e => (.failed (f e) : SyncExit) : SyncM γ α)
      fun a s => (∃ t, p.result t = .ok a ∧ p.final t = s) ∧ A s := by
  refine onDisk hf fun s hs => ⟨fun t ht => follows_of_apart (h s t ht), ?_⟩
  split
  · exact ⟨⟨s, ‹_›, rfl⟩, hA _ _ (h.final s) hs⟩
  · trivial

/-- What is read off the disk. -/
theorem look {ε : Type} {f : ε → GitSyncError} (hf : ∀ e, f e ≠ .advanceRequired) {p : Program Disk ε α} (h : p.ReadOnly) :
    Leads store request left A ((Wayjournal.onDisk p).mapError fun e => (.failed (f e) : SyncExit) : SyncM γ α)
      fun a s => p.result s = .ok a ∧ A s := by
  refine onDisk hf fun s hs => h.wp.mpr ?_
  split
  · exact ⟨‹_›, hs⟩
  · trivial

theorem attempt {ε : Type} {p : Program (World γ) ε α} (h : p.Keeps (Wayjournal.idle apart)) (hA : Stable A) :
    Leads store request left A (Program.attempt p : SyncM γ _) fun r s => (∃ w, p.result w = r) ∧ A s :=
  (idleOf h.attempt (fun w e h => by cases h) hA).post fun _ _ hs => ⟨hs.1.imp fun _ hw => Except.ok.inj hw, hs.2⟩

/-- Work on the disk whose failure is looked at. -/
theorem attemptDisk {ε : Type} {p : Program Disk ε α} {B : α → Disk → Prop} {F : ε → Disk → Prop}
    (h : ∀ s, A s → p.wp (Follows store s) B F s) :
    Leads store request left A (Program.attempt (Wayjournal.onDisk p) : SyncM γ _)
      fun r s => match r with
        | .ok a => B a s
        | .error e => F e s := by
  intro w hw
  have hput : ({ w with disk := w.disk } : World γ) = w := rfl
  refine Program.wp_attempt.mpr ((Program.wp_zoomed hput).mpr (Program.wp_mono (h w.disk hw.2) ?_ ?_ ?_))
  · exact fun t ht => ⟨ht, fun hpush => absurd hpush (not_pushing_set hw.1 t)⟩
  · exact fun a t ht => ⟨not_pushing_set hw.1 t, ht⟩
  · exact fun e t ht => ⟨not_pushing_set hw.1 t, ht⟩

section Quarantine

variable {draws : Draws} {checkpoint : AdmissionCheckpoint} {reason : GitQuarantineReason}

/-- An incident is durable before it is told. -/
theorem persisted {id : QuarantineIncidentId} {logicalStoreId : LogicalStoreId} {commit : GitOid}
    {revision : StoreRevisionRef} {observed : Option GitOid} {operation : Option GitSyncOperationId} (hA : Stable A)
    {C : β → Disk → Prop} :
    Leads store request left A (do
      let incident ← SyncM.quarantine (persist id logicalStoreId request commit revision reason observed operation)
      throw (.outcome (.quarantined incident.incidentId incident.reason)) : SyncM γ β) C := by
  refine bind (keeps (fun _ h => by cases h) keeps_persist hA) fun incident => outcome ?_
  rintro _ ⟨⟨t, hresult, rfl⟩, -⟩
  exact ⟨incident, active_of_persist hresult, rfl, rfl⟩

theorem quarantinePublication {pending : DurablePending} (hA : Stable A) {C : β → Disk → Prop} :
    Leads store request left A (Wayjournal.quarantinePublication request draws checkpoint pending reason : SyncM γ β) C :=
  persisted hA

theorem quarantineBase {observed : Option GitOid} {operation : Option GitSyncOperationId} (hA : Stable A)
    {C : β → Disk → Prop} :
    Leads store request left A (Wayjournal.quarantineBase request draws checkpoint reason observed operation : SyncM γ β) C :=
  persisted hA

theorem orHostile {p : AdmissionM γ α} {hostile : GitQuarantineReason → SyncM γ α} {C : α → Disk → Prop}
    (h : p.Keeps (Wayjournal.idle apart)) (hA : Stable A) (hhostile : ∀ reason, Leads store request left A (hostile reason) C)
    (hC : ∀ a s, A s → C a s) : Leads store request left A (Wayjournal.orHostile p hostile) C := by
  refine bind (attempt h hA) fun result => pre ?_ fun _ hs => hs.2
  cases result with
  | ok a => exact pure (hC a)
  | error error =>
    dsimp only
    split
    · exact hhostile _
    · exact failed fun h => by cases h

theorem orUnsafe {p : GitM γ α} {hostile : SyncM γ α} (h : p.Keeps (Wayjournal.idle apart)) (hA : Stable A)
    (hhostile : Leads store request left A hostile fun _ _ => False) :
    Leads store request left A (Wayjournal.orUnsafe p hostile) fun a s => (∃ w, p.result w = .ok a) ∧ A s := by
  refine bind (attempt h hA) fun result => ?_
  cases result with
  | ok a => exact pure fun _ hs => hs
  | error error =>
    exact ite (fun _ => hhostile.mono (fun _ hs => hs.2) fun _ _ hs => hs.elim) fun _ => failed fun h => by cases h

theorem orHostileSnapshot {pending : DurablePending} {p : AdmissionM γ α} (h : p.Keeps (Wayjournal.idle apart))
    (hA : Stable A) :
    Leads store request left A (Wayjournal.orHostileSnapshot request draws checkpoint pending p) fun _ => A := by
  refine bind (attempt h hA) fun result => pre ?_ fun _ hs => hs.2
  cases result with
  | ok a => exact pure fun _ hs => hs
  | error error => exact ite (fun _ => quarantinePublication hA) fun _ => failed fun h => by cases h

end Quarantine

end Leads

end Ends

end Wayjournal
