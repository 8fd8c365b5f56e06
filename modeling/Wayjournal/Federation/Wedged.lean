import Wayjournal.Federation.Quarantined

namespace Wayjournal

open Collections Crash Fs FileSystem Relation Text

/-- An end of a synchronization that gets nowhere: an error or an incident. -/
def SyncExit.IsRefusal : SyncExit → Prop
  | .outcome told => ∃ id reason, told = .quarantined id reason
  | .failed _ => True

section Refusal

variable {γ α β : Type} {H H' : Guarantee Disk} {A : Disk → Prop}

/-- A part of a synchronization that keeps to a guarantee and ends it by a refusal, if at all. -/
def Beside (H : Guarantee Disk) (p : SyncM γ α) : Prop :=
  p.Triple (idle H) (fun _ => True) (fun _ _ => True) fun exit _ => exit.IsRefusal

/-- A part that only ever ends with a refusal. -/
def Refuses (H : Guarantee Disk) (A : Disk → Prop) (p : SyncM γ α) : Prop :=
  p.Triple (idle H) (fun w => A w.disk) (fun _ _ => False) fun exit _ => exit.IsRefusal

namespace Refuses

theorem failed (error : GitSyncError) : Refuses H A (throw (.failed error) : SyncM γ α) :=
  Program.Triple.throw fun _ _ => trivial

theorem bind {p : SyncM γ α} (hp : Refuses H A p) (f : α → SyncM γ β) : Refuses H A (p >>= f) :=
  Program.Triple.bind hp fun _ _ hs => hs.elim

theorem beside {p : SyncM γ α} (hp : Refuses H (fun _ => True) p) : Beside H p :=
  Program.Triple.post_mono hp fun _ _ hs => hs.elim

end Refuses

namespace Beside

theorem bind {p : SyncM γ α} {f : α → SyncM γ β} (hp : Beside H p) (hf : ∀ a, Beside H (f a)) : Beside H (p >>= f) :=
  Program.Triple.bind hp hf

theorem pure (a : α) : Beside H (Pure.pure a : SyncM γ α) := Program.Triple.pure fun _ _ => trivial

theorem ite {c : Prop} [Decidable c] {p q : SyncM γ α} (hp : Beside H p) (hq : Beside H q) :
    Beside H (if c then p else q) :=
  Program.Triple.ite (fun _ => hp) fun _ => hq

theorem guard {c : Prop} [Decidable c] {p : SyncM γ α} {f : α → SyncM γ β} {q : SyncM γ β}
    (hp : Refuses H (fun _ => True) p) (hq : Beside H q) : Beside H (if c then p >>= f else q) :=
  ite (hp.bind f).beside hq

theorem of_keeps {ε : Type} {f : ε → GitSyncError} {p : Program (World γ) ε α} (h : p.Keeps (idle H)) :
    Beside H (p.mapError fun e => .failed (f e) : SyncM γ α) :=
  fun s _ => Program.wp_mapError.mpr (Program.wp_mono (h.wp s) (fun _ ht => ht) (fun _ _ _ => trivial) fun _ _ _ => trivial)

theorem attempt {ε : Type} {p : Program (World γ) ε α} (h : p.Keeps (idle H)) :
    Beside H (Program.attempt p : SyncM γ (Except ε α)) :=
  fun s _ => Program.wp_attempt.mpr (Program.wp_mono (h.wp s) (fun _ ht => ht) (fun _ _ _ => trivial) fun _ _ _ => trivial)

/-- What is stable under the guarantee holds after such a part, with what the part returned. -/
theorem frame {p : SyncM γ α} (h : Beside H' p) (hH : ∀ s t, H'.rel s t → H.rel s t)
    (hA : ∀ s t, H'.rel s t → A s → A t) :
    p.Triple (idle H) (fun w => A w.disk) (fun a w => (∃ v, p.result v = .ok a) ∧ A w.disk)
      fun exit _ => exit.IsRefusal := by
  intro w hw
  have hwp := h w trivial
  have hfinal := Program.Triple.final hwp
  refine ⟨fun v hv => idle_mono hH w v (hwp.1 v hv), ?_⟩
  have hresult := hwp.2
  split
  · exact ⟨⟨w, ‹_›⟩, hA _ _ hfinal.1 hw⟩
  · rename_i exit hexit
    rw [hexit] at hresult
    exact hresult

/-- What follows such a part only has to refuse what the part can return. -/
theorem before {p : SyncM γ α} {f : α → SyncM γ β} (h : Beside H' p) (hH : ∀ s t, H'.rel s t → H.rel s t)
    (hA : ∀ s t, H'.rel s t → A s → A t) (hf : ∀ a, (∃ v, p.result v = .ok a) → Refuses H A (f a)) :
    Refuses H A (p >>= f) :=
  Program.Triple.bind (h.frame hH hA) fun a w hw => hf a hw.1 w hw.2

end Beside

end Refusal

section Attempts

variable {γ α : Type}

theorem beside_orHostile {p : AdmissionM γ α} {hostile : GitQuarantineReason → SyncM γ α} (h : p.Keeps (idle apart))
    (hhostile : ∀ reason, Beside apart (hostile reason)) : Beside apart (orHostile p hostile) := by
  refine .bind (.attempt h) fun result => ?_
  cases result with
  | ok a => exact .pure a
  | error error =>
    dsimp only
    split
    · exact hhostile _
    · exact (Refuses.failed _).beside

theorem beside_orUnsafe {p : GitM γ α} {hostile : SyncM γ α} (h : p.Keeps (idle apart)) (hhostile : Beside apart hostile) :
    Beside apart (orUnsafe p hostile) := by
  refine .bind (.attempt h) fun result => ?_
  cases result with
  | ok a => exact .pure a
  | error error => exact .ite hhostile (Refuses.failed _).beside

theorem ok_of_orUnsafe {p : GitM γ α} {hostile : SyncM γ α} {w : World γ} {a : α}
    (hhostile : Refuses apart (fun _ => True) hostile) (h : (orUnsafe p hostile).result w = .ok a) :
    p.result w = .ok a := by
  obtain ⟨result, hresult, h⟩ := Program.bind_eq_ok.mp h
  obtain rfl : p.result w = result := Except.ok.inj hresult
  cases hp : p.result w with
  | ok value =>
    rw [hp] at h
    exact congrArg Except.ok (Except.ok.inj h)
  | error error =>
    rw [hp] at h
    dsimp only at h
    split at h
    · have hrefused := hhostile ((Program.attempt p : SyncM γ _).final w) trivial
      exact (Program.post_of_wp hrefused h).elim
    · cases h

end Attempts

section Verification

variable [Url] [Blake3] [ReadDir] {γ α : Type} {request : GitSyncRequest} {draws : Draws}
  {checkpoint : AdmissionCheckpoint} {pending : DurablePending} {reason : GitQuarantineReason}

theorem refuses_quarantinePublication {A : Disk → Prop} :
    Refuses apart A (quarantinePublication request draws checkpoint pending reason : SyncM γ α) := by
  have hpersist : Beside apart (SyncM.quarantine (persist draws.incident checkpoint.logicalStoreId request
      checkpoint.acceptedCommit checkpoint.acceptedRevision reason (some pending.document.candidateCommit)
      (some pending.name)) : SyncM γ _) := .of_keeps (keeps_onDisk keeps_persist)
  refine Program.Triple.bind (Program.Triple.pre_mono hpersist fun _ _ => trivial) fun incident => ?_
  exact Program.Triple.throw fun _ _ => ⟨_, _, rfl⟩

theorem beside_orHostileSnapshot {p : AdmissionM γ α} (h : p.Keeps (idle apart)) :
    Beside apart (orHostileSnapshot request draws checkpoint pending p) := by
  refine .bind (.attempt h) fun result => ?_
  cases result with
  | ok a => exact .pure a
  | error error => exact .ite refuses_quarantinePublication.beside (Refuses.failed _).beside

variable [Git γ] {repository : SyncRepository} (hplace : repository.place.Allowed apart)
include hplace

theorem beside_verifyCommits [Jiff] {store : Store} :
    Beside apart (verifyCommits (γ := γ) store request draws checkpoint pending repository) := by
  have hsnapshot (oid : GitOid) :
      Beside apart (publicationSnapshot (γ := γ) store request draws checkpoint pending repository oid) :=
    beside_orHostile (keeps_treeSnapshot hplace _ _ _) fun _ => refuses_quarantinePublication.beside
  refine .bind (.of_keeps (keeps_requireCommitObject hplace _)) fun _ => .bind (hsnapshot _) fun candidate => ?_
  refine .bind (.of_keeps (SyncRepository.keeps_commitParents hplace _)) fun parents => ?_
  refine .bind (.of_keeps (keeps_isAncestry hplace _)) fun valid => .guard refuses_quarantinePublication ?_
  refine .bind (hsnapshot _) fun original => .bind (hsnapshot _) fun advance => .guard refuses_quarantinePublication ?_
  exact .bind (hsnapshot _) fun base => .guard refuses_quarantinePublication (.pure _)

theorem beside_verifyAdditions :
    Beside apart (verifyAdditions (γ := γ) request draws checkpoint pending repository) := by
  refine .bind (beside_orHostileSnapshot (SyncRepository.keeps_spoolTreeAdditions hplace _ _)) fun diff => ?_
  refine .bind (.of_keeps ((SyncRepository.keeps_treeAdditionSource hplace _).mapError _)) fun source => ?_
  refine .bind (.attempt (keeps_recheckAdditions hplace _ _)) fun state => ?_
  have hrest : ∀ state : TreeAdditionSource × Nat, Beside apart (do
      let next ← orHostileSnapshot request draws checkpoint pending (repository.nextFile state.1)
      if next.1.isSome then hostilePublication request draws checkpoint pending
      SyncM.admission (finishBatch repository.place : GitM γ _)
      if state.2 ≠ pending.document.additionsCount.val then hostilePublication request draws checkpoint pending :
        SyncM γ Unit) := by
    intro state
    refine .bind (beside_orHostileSnapshot (SyncRepository.keeps_nextFile hplace _)) fun next => ?_
    refine .guard refuses_quarantinePublication (.bind (.of_keeps ((keeps_finishBatch hplace).mapError _)) fun _ => ?_)
    exact .ite refuses_quarantinePublication.beside (.pure _)
  cases state with
  | ok state => exact .bind (.pure _) hrest
  | error error =>
    cases error with
    | source error =>
      exact .ite (.bind refuses_quarantinePublication.beside hrest) (.bind (Refuses.failed _).beside hrest)
    | mismatch => exact .bind refuses_quarantinePublication.beside hrest
    | pending error => exact .bind (Refuses.failed _).beside hrest

end Verification

section Rules

variable {γ α β ε : Type} {H : Guarantee Disk} {A A' : Disk → Prop}

namespace Refuses

theorem pre {p : SyncM γ α} (h : Refuses H A p) (hA : ∀ s, A' s → A s) : Refuses H A' p :=
  Program.Triple.pre_mono h fun w hw => hA w.disk hw

theorem ite {c : Prop} [Decidable c] {p q : SyncM γ α} (hp : c → Refuses H A p) (hq : ¬c → Refuses H A q) :
    Refuses H A (if c then p else q) :=
  Program.Triple.ite hp hq

/-- A fact that does not depend on the disk. -/
theorem pull {P : Prop} {p : SyncM γ α} (h : P → Refuses H A p) : Refuses H (fun s => P ∧ A s) p :=
  fun w hw => h hw.1 w hw.2

/-- What is refused at once. -/
theorem of_error {f : ε → GitSyncError} {p : Program Disk ε α} (h : ∀ s, A s → ∃ e, p s = ⟨[], .error e⟩) :
    Refuses H A ((onDisk p).mapError fun e => .failed (f e) : SyncM γ α) := by
  intro w hw
  have hput : ({ w with disk := w.disk } : World γ) = w := rfl
  obtain ⟨e, he⟩ := h w.disk hw
  refine Program.wp_mapError.mpr ((Program.wp_zoomed hput).mpr ?_)
  rw [Program.wp, Program.result, he]
  exact ⟨fun t ht => absurd ht List.not_mem_nil, trivial⟩

/-- What follows a look at the disk only has to refuse what can be seen. -/
theorem look {f : ε → GitSyncError} {p : Program Disk ε α} (h : p.ReadOnly) {g : α → SyncM γ β}
    (hg : ∀ a, Refuses H (fun s => p.result s = .ok a ∧ A s) (g a)) :
    Refuses H A (((onDisk p).mapError fun e => (.failed (f e) : SyncExit)) >>= g) := by
  refine Program.Triple.bind (fun w hw => ?_) hg
  have hput : ({ w with disk := w.disk } : World γ) = w := rfl
  refine Program.wp_mapError.mpr ((Program.wp_zoomed hput).mpr (h.wp.mpr ?_))
  split
  · exact ⟨‹_›, hw⟩
  · trivial

end Refuses

theorem beside_onDisk {f : ε → GitSyncError} {p : Program Disk ε α} (h : p.Keeps H) :
    Beside H ((onDisk p).mapError fun e => .failed (f e) : SyncM γ α) :=
  .of_keeps (keeps_onDisk h)

end Rules

section Wedges

/-- What is published stands still, and all of the slots do. -/
def standing : Guarantee Disk := preserving fun area p => IsSurface area p ∨ area = .syncPending

variable {s t : Disk}

theorem surface_of_standing (h : standing.rel s t) : (preserving IsSurface).rel s t := fun area p hp => h area p (.inl hp)

theorem syncPending_of_standing (h : standing.rel s t) : t .syncPending = s .syncPending :=
  ext_get? fun p => h .syncPending p (.inr rfl)

/-- Slots without a document do not count among what is published. -/
theorem surface_of_retiring {gone : Name → Prop} (hgone : ∀ raw, gone raw → documentEntry raw s = none)
    (h : (retiring gone).rel s t) : (preserving IsSurface).rel s t := by
  intro area p hp
  obtain heq | ⟨rfl, hnone, raw, hraw, hbelow⟩ := h area p (.inl hp)
  · exact heq
  · obtain ⟨other, rfl⟩ := hp
    obtain rfl := (List.cons_prefix_cons.mp hbelow).1
    exact hnone.trans (hgone raw hraw).symm

variable [Url] [ReadDir] {found : PendingDiscovery} {active pending : DurablePending}

theorem active_of_holdsSlot (h : HoldsSlot pending s) (hfound : discover.result s = .ok found) : found.active.isSome := by
  obtain ⟨hwithin, -, -, hdisposable⟩ := discover_slots hfound
  obtain ⟨bytes, hentry, -⟩ := h.2
  cases hactive : found.active with
  | some active => rfl
  | none =>
    have hmem : pending.name.name ∈ found.names := hwithin _ fun hnone => by
      rw [documentEntry_of_slotRoot hnone] at hentry
      cases hentry
    rw [names_of_discover hfound hactive] at hmem
    obtain ⟨slot, hslot, hname⟩ := List.mem_map.mp hmem
    have hnone := (hdisposable slot hslot).2
    rw [hname, hentry] at hnone
    cases hnone

/-- Beside an active operation there is room for one more slot. -/
theorem disposable_of_active (hfound : discover.result s = .ok found) (hactive : found.active = some active) :
    found.disposable.length ≤ 1 := by
  obtain ⟨names, slots, ⟨linked, predecessor⟩, -, -, hcount, hlinked, rfl⟩ := discover_eq_ok.mp hfound
  have hpos := List.length_pos_of_mem ((mem_of_linkSlots hlinked).1 active hactive)
  simp only [Bool.or_eq_true, decide_eq_true_eq, not_or, not_lt] at hcount
  have hle : slots.2.length ≤ 1 := by omega
  exact hle

/-- The slots cannot be read, or beside the active operation, whose predecessor is another one, stands one without a
document. -/
def SlotsRefused (disk : Disk) : Prop :=
  ∀ found, discover.result disk = .ok found → ∃ active ∈ found.active, ∃ slot ∈ found.disposable,
    active.document.predecessorOperationId.isSome ∧ some slot.1 ≠ active.document.predecessorOperationId

theorem SlotsRefused.of_area (h : SlotsRefused s) (harea : t .syncPending = s .syncPending) : SlotsRefused t :=
  fun found hfound => h found ((sees_discover.result_eq (show Disk.view .syncPending t = Disk.view .syncPending s from harea)) ▸
    hfound)

end Wedges

section Torn

variable [Url] [Jiff] [Blake3] {store : Store} {s t : Disk}

/-- An operation is under way and the files are none of a valid store. -/
structure TornFiles (store : Store) (disk : Disk) : Prop where
  slot : ∃ pending, HoldsSlot pending disk
  invalid : ∀ visible, validateVisible store disk ≠ .ok visible

theorem TornFiles.mono (h : TornFiles store s) (hst : (preserving IsSurface).rel s t) : TornFiles store t := by
  obtain ⟨⟨pending, hslot⟩, hinvalid⟩ := h
  refine ⟨⟨pending, hslot.congr (documentEntry_of_preserving hst _)⟩, ?_⟩
  rw [validateVisible_congr (canonical_of_preserving hst)]
  exact hinvalid

variable [ReadDir] {found : PendingDiscovery}

/-- What no call gets past. -/
def Wedged (store : Store) (disk : Disk) : Prop := SlotsRefused disk ∨ TornFiles store disk

theorem Wedged.active (h : Wedged store s) (hfound : discover.result s = .ok found) : found.active.isSome := by
  obtain h | ⟨⟨pending, hslot⟩, -⟩ := h
  · obtain ⟨active, hactive, -⟩ := h found hfound
    exact Option.isSome_of_mem hactive
  · exact active_of_holdsSlot hslot hfound

theorem Wedged.of_standing (h : Wedged store s) (hst : standing.rel s t) : Wedged store t :=
  h.imp (fun h => h.of_area (syncPending_of_standing hst)) fun h => h.mono (surface_of_standing hst)

end Torn

section Synchronization

variable [Url] [ReadDir] {γ : Type} {request : GitSyncRequest}

theorem beside_requireNoIncident {H : Guarantee Disk} : Beside H (requireNoIncident request : SyncM γ Unit) := by
  refine .bind (beside_onDisk (.readOnly readOnly_active)) fun incident => ?_
  cases incident with
  | some incident =>
    have hthrow : Refuses H (fun _ => True) (throw (.outcome (.quarantined incident.incidentId incident.reason)) :
      SyncM γ PUnit) := Program.Triple.throw fun _ _ => ⟨_, _, rfl⟩
    exact (hthrow.bind _).beside
  | none => exact beside_onDisk (.readOnly readOnly_ensureCapacity)

theorem standing_readCheckpoint : readCheckpoint.Keeps standing := by
  intro s t ht area p hp
  obtain hsurface | rfl := hp
  · exact keeps_readCheckpoint s t ht area p (.inl hsurface)
  · rw [onlyAreas_readCheckpoint s t ht .syncPending (by decide)]

theorem beside_approvedCheckpoint : Beside standing (approvedCheckpoint request : SyncM γ AdmissionCheckpoint) := by
  refine .bind (beside_onDisk standing_readCheckpoint) fun checkpoint => ?_
  cases checkpoint with
  | none => exact (Refuses.failed _).beside
  | some checkpoint =>
    dsimp only
    split
    · exact .pure _
    · exact (Refuses.failed _).beside

omit [Url] in
theorem retireNamedDisposable_of_mismatch {slot : GitSyncOperationId × Directory} {expected : Option GitSyncOperationId}
    (hsome : expected.isSome) (hne : some slot.1 ≠ expected) (s : Disk) :
    retireNamedDisposable [slot] expected s =
      ⟨[], .error (.invalid "disposable pending slot is not the active successor's predecessor")⟩ := by
  obtain ⟨name, directory⟩ := slot
  have hcond : (expected.isSome && decide (some name ≠ expected)) = true := by simp [hsome, hne]
  simp only [retireNamedDisposable, List.forM_eq_forM, List.forM_cons]
  rw [if_pos hcond]
  rfl

variable [Jiff] [Blake3] [Git γ] {store : Store} {draws next : Draws} {checkpoint : AdmissionCheckpoint}
  {authorized : Option AdmissionCheckpoint} {found : PendingDiscovery} {active : DurablePending}

theorem refuses_recoverWith {recover : AdmissionCheckpoint → DurablePending → SyncM γ GitSyncOutcome}
    {predecessor : Option DurablePending} :
    Refuses (preserving IsSurface)
      (fun s => active.directory = Store.syncPendingDir.child active.name.name ∧ TornFiles store s)
      (recoverWith store request draws recover predecessor checkpoint active : SyncM γ GitSyncOutcome) := by
  have hH : ∀ s t, apart.rel s t → (preserving IsSurface).rel s t := fun _ _ => surface_of_apart
  have hstable : ∀ s t, apart.rel s t → TornFiles store s → TornFiles store t := fun s t h hs => hs.mono (hH s t h)
  have hown : Beside apart (requireOwnOperation request checkpoint active : SyncM γ Unit) :=
    .ite (Refuses.failed _).beside (.pure _)
  refine .pull fun hd => ?_
  refine hown.before hH hstable fun _ _ => ?_
  refine (beside_onDisk (keeps_validateClosedLayout hd)).before hH hstable fun _ _ => ?_
  refine (beside_orUnsafe (keeps_openSyncRepository _) refuses_quarantinePublication.beside).before hH hstable ?_
  rintro repository ⟨w, hopened⟩
  have hplace := allowed_place hd (bare_of_openSyncRepository (ok_of_orUnsafe refuses_quarantinePublication hopened))
  refine (beside_verifyCommits hplace).before hH hstable fun base _ => ?_
  refine (beside_verifyAdditions hplace).before hH hstable fun _ _ => ?_
  have hvisible : Refuses (preserving IsSurface) (TornFiles store)
      (SyncM.store (.reads (validateVisible store)) : SyncM γ ValidatedStoreState) := by
    refine .of_error fun s hs => ?_
    cases hv : validateVisible store s with
    | ok visible => exact absurd hv (hs.invalid visible)
    | error e => exact ⟨e, by rw [Program.reads, hv]⟩
  obtain ⟨rounds, hrounds⟩ : ∃ n, active.document.phase.rounds = n + 1 := by
    cases active.document.phase <;> exact ⟨_, rfl⟩
  rw [hrounds]
  exact Refuses.bind (Refuses.bind (Refuses.bind hvisible _) _) _

theorem refuses_found (hactive : found.active = some active) :
    Refuses (preserving IsSurface) (fun s => discover.result s = .ok found ∧ TornFiles store s) (do
      if ← SyncM.store hasTransactionResidue then throw (.failed (.store .conflictingRecoveryState))
      SyncM.pending (retireNamedDisposable found.disposable active.document.predecessorOperationId)
      recoverSyncOperation store request draws next found.predecessor checkpoint active : SyncM γ GitSyncOutcome) := by
  have hretire : (SyncM.pending (retireNamedDisposable found.disposable active.document.predecessorOperationId) :
      SyncM γ Unit).Triple (idle (preserving IsSurface))
      (fun w => discover.result w.disk = .ok found ∧ TornFiles store w.disk)
      (fun _ w => active.directory = Store.syncPendingDir.child active.name.name ∧ TornFiles store w.disk)
      fun exit _ => exit.IsRefusal := by
    rintro w ⟨hfound, htorn⟩
    obtain ⟨-, hheld, -, hdisposable⟩ := discover_slots hfound
    have hput : ({ w with disk := w.disk } : World γ) = w := rfl
    have hkeeps : (retireNamedDisposable found.disposable active.document.predecessorOperationId).Keeps
        (retiring fun raw => documentEntry raw w.disk = none) := keeps_retireNamedDisposable hdisposable
    have hsurface : ∀ t, (retiring fun raw => documentEntry raw w.disk = none).rel w.disk t →
        (preserving IsSurface).rel w.disk t := fun t => surface_of_retiring fun _ h => h
    refine Program.wp_mapError.mpr ((Program.wp_zoomed hput).mpr (Program.wp_mono (hkeeps.wp w.disk) ?_ ?_ fun _ _ _ => trivial))
    · exact fun t ht => ⟨hsurface t ht, fun _ => rfl⟩
    · exact fun _ t ht => ⟨(hheld active hactive).1, htorn.mono (hsurface t ht)⟩
  refine .look (.reads _) fun residue => .ite (fun _ => (Refuses.failed _).bind _) fun _ => .pre ?_ fun s hs => hs.2
  exact Program.Triple.bind hretire fun _ => refuses_recoverWith

theorem refuses_of_tornFiles :
    Refuses (preserving IsSurface) (TornFiles store)
      (synchronize store request draws next authorized : SyncM γ GitSyncOutcome) := by
  have hH : ∀ s t, standing.rel s t → (preserving IsSurface).rel s t := fun _ _ => surface_of_standing
  have hstable : ∀ s t, standing.rel s t → TornFiles store s → TornFiles store t := fun s t h hs => hs.mono (hH s t h)
  refine beside_requireNoIncident.before hH hstable fun _ _ => ?_
  cases authorized
  case' none => refine beside_approvedCheckpoint.before hH hstable fun checkpoint _ => ?_
  case' some checkpoint => refine (Beside.pure checkpoint).before hH hstable fun checkpoint _ => ?_
  all_goals
    refine .look readOnly_discover fun found => ?_
    cases hactive : found.active with
    | none =>
      rintro w ⟨hfound, htorn⟩
      have hsome := Wedged.active (.inr htorn) hfound
      rw [hactive] at hsome
      cases hsome
    | some active => exact refuses_found hactive

theorem refuses_of_slotsRefused :
    Refuses standing SlotsRefused (synchronize store request draws next authorized : SyncM γ GitSyncOutcome) := by
  have hstable : ∀ s t, standing.rel s t → SlotsRefused s → SlotsRefused t := fun s t h hs =>
    hs.of_area (syncPending_of_standing h)
  refine beside_requireNoIncident.before (fun _ _ h => h) hstable fun _ _ => ?_
  cases authorized
  case' none => refine beside_approvedCheckpoint.before (fun _ _ h => h) hstable fun checkpoint _ => ?_
  case' some checkpoint => refine (Beside.pure checkpoint).before (fun _ _ h => h) hstable fun checkpoint _ => ?_
  all_goals
    refine .look readOnly_discover fun found => ?_
    cases hactive : found.active with
    | none =>
      rintro w ⟨hfound, hrefused⟩
      obtain ⟨active, hmem, -⟩ := hrefused found hfound
      rw [hactive] at hmem
      cases hmem
    | some active =>
      refine .look (.reads _) fun residue => .ite (fun _ => (Refuses.failed _).bind _) fun _ => .bind (.of_error ?_) _
      rintro s ⟨-, hfound, hrefused⟩
      obtain ⟨other, hother, slot, hslot, hsome, hne⟩ := hrefused found hfound
      obtain rfl : active = other := Option.some.inj (hactive.symm.trans hother)
      obtain ⟨only, honly⟩ := List.length_eq_one_iff.mp
        (le_antisymm (disposable_of_active hfound hactive) (List.length_pos_of_mem hslot))
      rw [honly] at hslot ⊢
      obtain rfl := List.mem_singleton.mp hslot
      exact ⟨_, retireNamedDisposable_of_mismatch hsome hne s⟩

end Synchronization

section Stopped

variable {ε α β : Type} {p : Program Disk ε α} {s : Disk}

theorem bind_of_error {f : α → Program Disk ε β} {e : ε}
    (h : p s = ⟨[], .error e⟩) : (p >>= f) s = ⟨[], .error e⟩ := by
  have hresult : p.result s = .error e := congrArg Run.result h
  rw [show (p >>= f) = Program.bind p f from rfl, Program.bind_apply_error hresult, h]

theorem cut_eq (h : ∃ e, p s = ⟨[], .error e⟩) (n : Nat) : p.cut s n = s := by
  obtain ⟨e, he⟩ := h
  rw [Program.cut, he, List.take_nil]
  rfl

end Stopped

section Run

variable [Url] [Jiff] [Blake3] [ReadDir] {store : Store} {s : Disk}

namespace Wedged

theorem cleanDisposableLocked (h : Wedged store s) : ∃ e, cleanDisposableLocked s = ⟨[], .error e⟩ := by
  have hread : (discover.mapError mapPendingError : DiskM PendingDiscovery).ReadOnly := readOnly_discover.mapError _
  unfold Wayjournal.cleanDisposableLocked
  cases hfound : discover.result s with
  | error e =>
    have hresult : (discover.mapError mapPendingError : DiskM PendingDiscovery).result s = .error (mapPendingError e) := by
      rw [Program.result_mapError, hfound, mapError_error]
    exact ⟨_, hread.bind_apply_error hresult⟩
  | ok found =>
    obtain ⟨active, hactive⟩ := Option.isSome_iff_exists.mp (h.active hfound)
    have hresult : (discover.mapError mapPendingError : DiskM PendingDiscovery).result s = .ok found := by
      rw [Program.result_mapError, hfound, mapError_ok]
    refine ⟨.gitSyncPending active.name active.document.phase, (hread.bind_apply_ok hresult).trans ?_⟩
    rw [hactive]
    rfl

theorem recoverWithoutSnapshot (h : Wedged store s) : ∃ e, recoverWithoutSnapshot store s = ⟨[], .error e⟩ :=
  h.cleanDisposableLocked.imp fun _ he => bind_of_error he

theorem append (h : Wedged store s) (prepared : PreparedBatch) (expected : StoreRevisionRef) :
    ∃ e, append store prepared expected s = ⟨[], .error e⟩ :=
  h.recoverWithoutSnapshot.imp fun _ he => bind_of_error he

theorem previewAppend (h : Wedged store s) (prepared : PreparedBatch) (expected : StoreRevisionRef) :
    ∃ e, previewAppend store prepared expected s = ⟨[], .error e⟩ :=
  h.recoverWithoutSnapshot.imp fun _ he => bind_of_error he

variable {γ : Type} [Git γ] {w v : World γ} {request : GitSyncRequest} {draws next : Draws}
  {authorized : Option AdmissionCheckpoint}

/-- A synchronization leaves what is published, and the wedge, as they are. -/
theorem synchronize (h : Wedged store w.disk) (n : Nat) :
    (preserving IsSurface).rel w.disk ((syncGitUnionLocked store request draws next authorized).cut w n).disk ∧
      Wedged store ((syncGitUnionLocked store request draws next authorized).cut w n).disk := by
  obtain heq | hmem := Program.cut_mem (syncGitUnionLocked store request draws next authorized) w n
  · rw [heq]
    exact ⟨(preserving IsSurface).refl _, h⟩
  · obtain hslots | htorn := h
    · have hrefuses : Refuses standing SlotsRefused
          (Wayjournal.synchronize store request draws next authorized : SyncM γ GitSyncOutcome) := refuses_of_slotsRefused
      have hrel := ((hrefuses w hslots).1 _ hmem).1
      exact ⟨surface_of_standing hrel, Wedged.of_standing (.inl hslots) hrel⟩
    · have hrel := ((refuses_of_tornFiles w htorn).1 _ hmem).1
      exact ⟨hrel, .inr (htorn.mono hrel)⟩

theorem outcome (h : Wedged store w.disk) {told : GitSyncOutcome}
    (hresult : (syncGitUnionLocked store request draws next authorized).result w = .ok told) :
    ∃ id reason, told = .quarantined id reason := by
  have hends : ∀ exit : Except SyncExit GitSyncOutcome,
      (Wayjournal.synchronize store request draws next authorized).result w = exit →
      ∃ e, exit = .error e ∧ e.IsRefusal := by
    rintro exit rfl
    have hwp : (Wayjournal.synchronize store request draws next authorized).wp (fun _ => True) (fun _ _ => False)
        (fun exit _ => exit.IsRefusal) w := by
      obtain hslots | htorn := h
      · exact Program.wp_mono (refuses_of_slotsRefused w hslots) (fun _ _ => trivial) (fun _ _ ht => ht) fun _ _ ht => ht
      · exact Program.wp_mono (refuses_of_tornFiles w htorn) (fun _ _ => trivial) (fun _ _ ht => ht) fun _ _ ht => ht
    have hend := hwp.2
    split at hend
    · exact hend.elim
    · exact ⟨_, ‹_›, hend⟩
  obtain hr | hr := settled_eq_ok.mp hresult
  · obtain ⟨e, he, -⟩ := hends _ hr
    cases he
  · obtain ⟨e, he, hrefusal⟩ := hends _ hr
    cases he
    exact hrefusal

theorem step (h : Wedged store w.disk) (hstep : SystemStep store w v) :
    (preserving IsSurface).rel w.disk v.disk ∧ Wedged store v.disk := by
  have hrefl := (preserving IsSurface).refl w.disk
  cases hstep with
  | append prepared expected n =>
    dsimp only
    rw [cut_eq (h.append prepared expected)]
    exact ⟨hrefl, h⟩
  | preview prepared expected n =>
    dsimp only
    rw [cut_eq (h.previewAppend prepared expected)]
    exact ⟨hrefl, h⟩
  | recover n =>
    dsimp only
    rw [cut_eq h.recoverWithoutSnapshot]
    exact ⟨hrefl, h⟩
  | checkpoint n =>
    have hrel := standing_readCheckpoint.cut w.disk n
    exact ⟨surface_of_standing hrel, h.of_standing hrel⟩
  | git git => exact ⟨hrefl, h⟩
  | sync request draws next authorized n => exact h.synchronize n

end Wedged

variable {γ : Type} [Git γ] {w v : World γ}

/-- The code does not get out of a wedge by itself: over every run what is published stays as it is, the store's own
operations are refused without a write, and a synchronization ends with an error or an incident. -/
theorem wedged_forever (h : Wedged store w.disk) (hrun : ReflTransGen (SystemStep store) w v) :
    (preserving IsSurface).rel w.disk v.disk ∧ Wedged store v.disk ∧
      (∀ prepared expected, ∃ e, append store prepared expected v.disk = ⟨[], .error e⟩) ∧
      (∃ e, recoverWithoutSnapshot store v.disk = ⟨[], .error e⟩) ∧
      ∀ request draws next authorized outcome,
        (syncGitUnionLocked store request draws next authorized).result v = .ok outcome →
        ∃ id reason, outcome = .quarantined id reason := by
  have hkept : (preserving IsSurface).rel w.disk v.disk ∧ Wedged store v.disk := by
    induction hrun with
    | refl => exact ⟨(preserving IsSurface).refl _, h⟩
    | tail _ hstep ih =>
      obtain ⟨hrel, hwedged⟩ := ih
      obtain ⟨hnext, hwedged⟩ := hwedged.step hstep
      exact ⟨(preserving IsSurface).trans hrel hnext, hwedged⟩
  exact ⟨hkept.1, hkept.2, hkept.2.append, hkept.2.recoverWithoutSnapshot, fun _ _ _ _ _ => hkept.2.outcome⟩

end Run

attribute [local instance] Sample.jiff Sample.blake3 Sample.url Sample.readDir Sample.absentGit

/-- A document whose write was cut off before the first byte. -/
def Sample.tornRoot : World Unit where
  disk := (writeNew (Store.syncPendingDir.child (Sample.operationId 1).name) .pendingJson []).final Sample.slotted
  git := ()
  running := none

theorem wedged_forever_torn_root :
    ∃ v : World Unit, ReflTransGen (SystemStep Sample.store) Sample.tornRoot v ∧
      (preserving IsSurface).rel Sample.tornRoot.disk v.disk ∧
      ∃ e, recoverWithoutSnapshot Sample.store v.disk = ⟨[], .error e⟩ := by
  obtain ⟨bytes, hbytes⟩ := Sample.encode_document
  have htorn : Torn (Store.syncPendingDir.child (Sample.operationId 1).name) .pendingJson bytes Sample.slotted
      Sample.tornRoot.disk := by
    simpa only [Sample.tornRoot] using Sample.torn_nil hbytes
  have hslots : SlotsRefused Sample.tornRoot.disk := fun found hfound =>
    absurd hfound (discover_torn hbytes htorn found)
  have hstep : SystemStep Sample.store Sample.tornRoot _ := .sync _ Sample.syncRequest Sample.draws Sample.draws none 3
  have hforever := wedged_forever (.inl hslots) (.single hstep)
  exact ⟨_, .single hstep, hforever.1, hforever.2.2.2.1⟩

end Wayjournal
