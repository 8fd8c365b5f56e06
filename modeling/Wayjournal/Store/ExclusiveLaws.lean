import Wayjournal.Store.CrashAtomic
import Wayjournal.Store.Exclusive
import Wayjournal.Store.ResidueLaws

namespace Wayjournal

open Crash Fs FileSystem

theorem readOnly_stageId (name : Name) : (stageId name).ReadOnly := by
  unfold stageId
  split
  · refine .bind Directory.readOnly_kind fun kind => .ite (.bind (.throw _) fun _ => ?_) ?_
    all_goals
      split
      · exact .pure _
      · exact .throw _
  · exact .throw _

theorem readOnly_observeTransactionRecovery [ReadDir] : observeTransactionRecovery.ReadOnly := by
  refine .bind readOnly_listedJournals fun journals => .bind ?_ fun stages => .ite (.bind (.throw _) fun _ => ?_) ?_
  · refine .bind Directory.readOnly_boundedNames fun names => .bind (.mapM readOnly_stageId _) fun ids => ?_
    exact .ite (.bind (.throw _) fun _ => .pure _) (.pure _)
  all_goals exact .pure _

namespace ExclusiveStoreOperation

/-- An error that is not about the state of the operation. -/
def StoreFailure (e : ExclusiveOperationError) : Prop := (∃ source, e = .store source) ∨ e = .pendingCleanupRequired

theorem StoreFailure.not_state {e : ExclusiveOperationError} (h : StoreFailure e) :
    e ≠ .stateInvalidated ∧ e ≠ .recoveryRequired := by
  obtain ⟨source, rfl⟩ | rfl := h
  · exact ⟨nofun, nofun⟩
  · exact ⟨nofun, nofun⟩

section

variable [Jiff] {op : ExclusiveStoreOperation} {α : Type} {f : StoreError → ExclusiveOperationError}
  {fault : Option (Fault Disk StoreError)} {p : DiskM α} {q : OperationM α}

theorem wp_onDiskMapping {post : α → ExclusiveStoreOperation → Prop}
    {fail : ExclusiveOperationError → ExclusiveStoreOperation → Prop} :
    (onDiskMapping f fault p).wp (fun _ => True) post fail op ↔
      (p.under fault).wp (fun _ => True) (fun a t => post a (op.withDisk t))
        (fun e t => fail (f e) (op.withDisk t)) op.disk := by
  rw [onDiskMapping, Program.wp_zoom rfl, Program.wp_mapError]

theorem readOnly_onDiskMapping (h : p.ReadOnly) : (onDiskMapping f fault p).ReadOnly := (h.under.mapError f).zoom

theorem readOnly_onDisk (h : p.ReadOnly) : (onDisk fault p).ReadOnly := readOnly_onDiskMapping h

/-- What a disk program that returns says, under whatever faults. -/
theorem wp_onDisk {R : α → ExclusiveStoreOperation → Prop}
    (h : p.wp (fun _ => True) (fun a t => R a (op.withDisk t)) (fun _ _ => True) op.disk) :
    (onDisk fault p).wp (fun _ => True) R (fun e u => (∃ source, e = .store source) ∧ ∃ t, u = op.withDisk t) op := by
  rw [onDisk, wp_onDiskMapping]
  exact Program.wp_mono (Program.wp_under h) (fun _ h => h) (fun _ _ h => h) (fun e t _ => ⟨⟨e, rfl⟩, t, rfl⟩)

/-- The operation has to be recovered again. -/
structure Stale (op : ExclusiveStoreOperation) : Prop where
  snapshot : op.snapshot = none
  recovered : op.recovered = false
  invalidated : op.invalidated = true

theorem wp_orInvalidate {post : α → ExclusiveStoreOperation → Prop} {E : ExclusiveOperationError → Prop}
    (h : q.wp (fun _ => True) post (fun e _ => E e) op) :
    (orInvalidate q).wp (fun _ => True) post (fun e u => E e ∧ Stale u) op := by
  rw [orInvalidate, Program.wp_tryCatch]
  refine Program.wp_mono h (fun _ h => h) (fun _ _ h => h) ?_
  intro e u he
  rw [Program.wp_bind, invalidate, Program.wp_update]
  exact ⟨trivial, Program.wp_throw.mpr ⟨he, rfl, rfl, rfl⟩⟩

theorem requireRecovered_ok (h : op.recovered = true) {post : Unit → ExclusiveStoreOperation → Prop}
    {crash : ExclusiveStoreOperation → Prop} {fail : ExclusiveOperationError → ExclusiveStoreOperation → Prop} :
    requireRecovered.wp crash post fail op ↔ post () op :=
  Program.wp_reads_ok (by rw [if_pos h])

theorem ownedSnapshot_ok {snapshot : StoreSnapshot} (h : op.snapshot = some snapshot)
    {post : StoreSnapshot → ExclusiveStoreOperation → Prop} {crash : ExclusiveStoreOperation → Prop}
    {fail : ExclusiveOperationError → ExclusiveStoreOperation → Prop} :
    ownedSnapshot.wp crash post fail op ↔ post snapshot op :=
  Program.wp_reads_ok (by rw [h])

theorem readOnly_snapshotLocked : snapshotLocked.ReadOnly := .bind (.reads _) fun _ => .reads _

theorem requireRecovered_error (h : op.recovered = false) {post : Unit → ExclusiveStoreOperation → Prop}
    {crash : ExclusiveStoreOperation → Prop} {fail : ExclusiveOperationError → ExclusiveStoreOperation → Prop} :
    requireRecovered.wp crash post fail op ↔ fail op.stateError op := by
  rw [requireRecovered, Program.wp_reads, h]
  rfl

theorem refused_of_not_recovered {q : Unit → OperationM α} (h : op.recovered = false) :
    (requireRecovered >>= q).result op = .error op.stateError := by
  have hresult : requireRecovered.result op = .error op.stateError := by
    rw [requireRecovered, Program.result_reads, h]
    rfl
  rw [Program.result_bind (p := requireRecovered) (.reads _), hresult]
  rfl

theorem wp_readOnly (h : q.ReadOnly) :
    (do let _ ← q : OperationM Unit).wp (fun _ => True) (fun _ u => u = op) (fun _ u => u = op) op := by
  rw [Program.wp_bind, h.wp]
  split
  · exact Program.wp_pure.mpr rfl
  · rfl

variable [ReadDir] [Url]

theorem readOnly_observeRecoveryLocked {faults : Faults} : (observeRecoveryLocked faults).ReadOnly :=
  .bind (.reads _) fun _ => .bind (readOnly_onDiskMapping readOnly_gateWithoutGit) fun _ =>
    .bind (readOnly_onDiskMapping readOnly_observeTransactionRecovery) fun _ => .pure _

theorem readOnly_requireAllow {fault : Option (Fault Disk StoreError)} : (requireAllow fault).ReadOnly :=
  .bind (readOnly_onDisk readOnly_gateWithoutGit) fun _ => .ite (.throw _) (.pure _)

theorem wp_requireAllow {fault : Option (Fault Disk StoreError)} :
    (requireAllow fault).wp (fun _ => True) (fun _ u => u = op) (fun e _ => StoreFailure e) op := by
  rw [requireAllow, Program.wp_bind]
  refine Program.wp_mono (wp_onDisk (R := fun _ u => u = op) ?_) (fun _ h => h) ?_ (fun _ _ h => .inl h.1)
  · rw [readOnly_gateWithoutGit.wp]
    split
    · rfl
    · trivial
  · rintro gate _ rfl
    split
    · exact Program.wp_throw.mpr (.inr rfl)
    · exact Program.wp_pure.mpr rfl

end

section

variable [Jiff] [Blake3] {store : Store} {op op' : ExclusiveStoreOperation}

/-- A snapshot is served only while it is the one a scan of the disk gives. -/
structure Coherent (store : Store) (op : ExclusiveStoreOperation) : Prop where
  valid : op.recovered = true → op.invalidated = false
  current : op.recovered = true → ∃ snapshot, op.snapshot = some snapshot ∧ scanVisible store op.disk = .ok snapshot
  clean : op.recovered = true → op.disk .recovery = ∅ ∧ op.disk .stages = ∅
  stale : op.invalidated = true → op.recovered = false ∧ op.snapshot = none

theorem Coherent.of_fresh (h : op.recovered = false) (hstale : op.invalidated = true → op.snapshot = none) :
    Coherent store op :=
  ⟨fun hr => absurd (hr.symm.trans h) (by decide), fun hr => absurd (hr.symm.trans h) (by decide),
    fun hr => absurd (hr.symm.trans h) (by decide), fun hi => ⟨h, hstale hi⟩⟩

theorem Stale.coherent (h : Stale op) : Coherent store op := .of_fresh h.recovered fun _ => h.snapshot

theorem Coherent.beginOn (disk : Disk) : Coherent store (beginOn disk) :=
  .of_fresh rfl fun _ => rfl

variable [ReadDir]

/-- The batch an append publishes leaves no residue. -/
theorem wp_publish_clean {prepared : PreparedBatch} {expected : StoreRevisionRef} {s : Disk}
    (hrecovery : s .recovery = ∅) (hstages : s .stages = ∅) :
    (publish store prepared expected).wp (fun _ => True)
      (fun r t => scanVisible store t = .ok r.2 ∧ t .recovery = ∅ ∧ t .stages = ∅) (fun _ _ => True) s := by
  rw [publish, Program.wp_bind]
  refine Program.wp_mono (ownResidue_stageBatch.wp s) (fun _ _ => trivial) ?_ (fun _ _ _ => trivial)
  intro _ t ht
  rw [Program.wp_bind]
  refine Program.wp_mono (Program.wp_and (ownResidue_recoverOne.wp t) (wp_recoverOne_gone t)) (fun _ _ => trivial) ?_
    (fun _ _ _ => trivial)
  rintro _ u ⟨hu, hjournal, hstage⟩
  rw [Program.wp_bind, Program.wp_reads]
  split
  · rename_i snapshot hsnapshot
    refine Program.wp_pure.mpr ⟨hsnapshot, ?_⟩
    exact residue_of_recoverOne hrecovery hstages ((ownResidue _).trans ht hu) hjournal hstage
  · trivial

variable [Url]

theorem readOnly_previewAppendLocked {faults : Faults} {prepared : PreparedBatch} {expected : StoreRevisionRef} :
    (previewAppendLocked store faults prepared expected).ReadOnly :=
  .bind (.reads _) fun _ => .bind readOnly_requireAllow fun _ => .bind (.reads _) fun _ => readOnly_onDisk (.reads _)

theorem Coherent.wp_previewAppendLocked (h : Coherent store op) (hr : op.recovered = true) (faults : Faults)
    (prepared : PreparedBatch) (expected : StoreRevisionRef) :
    (previewAppendLocked store faults prepared expected).wp (fun _ => True) (fun _ u => u = op)
      (fun e _ => StoreFailure e) op := by
  obtain ⟨snapshot, hsnapshot, -⟩ := h.current hr
  rw [previewAppendLocked, Program.wp_bind, requireRecovered_ok hr, Program.wp_bind]
  refine Program.wp_mono wp_requireAllow (fun _ h => h) ?_ (fun _ _ h => h)
  rintro _ _ rfl
  rw [Program.wp_bind, ownedSnapshot_ok hsnapshot]
  refine Program.wp_mono (wp_onDisk (R := fun _ u => u = _) ?_) (fun _ h => h) (fun _ _ h => h) (fun _ _ h => .inl h.1)
  rw [Program.wp_reads]
  split
  · rfl
  · trivial

theorem wp_recoverWithoutSnapshot_gone (s : Disk) :
    (recoverWithoutSnapshot store).wp (fun _ => True) (fun _ t => t .recovery = ∅ ∧ t .stages = ∅)
      (fun _ _ => True) s := by
  refine Program.wp_last fun _ _ => Program.wp_last fun _ _ => ?_
  split
  · exact Program.wp_bind.mpr (Program.wp_throw.mpr trivial)
  · exact wp_recoverLocked_gone _

theorem wp_recoverLocked {faults : Faults} :
    (recoverLocked store faults).wp (fun _ => True) (fun _ u => Coherent store u ∧ u.recovered = true)
      (fun _ u => u.recovered = false ∧ u.invalidated = false ∧ u.snapshot = none) op := by
  rw [recoverLocked, Program.wp_bind, Program.wp_update]
  refine ⟨trivial, ?_⟩
  rw [Program.wp_bind]
  refine Program.wp_mono (wp_onDisk (R := fun _ u => (u.disk .recovery = ∅ ∧ u.disk .stages = ∅) ∧
    u.recovered = false ∧ u.invalidated = false ∧ u.snapshot = none) ?_) (fun _ h => h) ?_ ?_
  · refine Program.wp_mono (wp_recoverWithoutSnapshot_gone _) (fun _ h => h) ?_ (fun _ _ h => h)
    exact fun _ t ht => ⟨ht, rfl, rfl, rfl⟩
  · rintro _ u ⟨hclean, hr, hi, hsnapshot⟩
    rw [Program.wp_bind]
    refine Program.wp_mono (wp_onDisk (R := fun snapshot v => v = u ∧ scanVisible store u.disk = .ok snapshot) ?_)
      (fun _ h => h) ?_ ?_
    · rw [Program.wp_reads]
      split
      · rename_i snapshot hscan
        exact ⟨rfl, hscan⟩
      · trivial
    · rintro snapshot _ ⟨rfl, hscan⟩
      rw [Program.wp_update]
      exact ⟨trivial, ⟨fun _ => hi, fun _ => ⟨snapshot, rfl, hscan⟩, fun _ => hclean,
        fun h => absurd (h.symm.trans hi) (by decide)⟩, rfl⟩
    · rintro _ _ ⟨-, t, rfl⟩
      exact ⟨hr, hi, hsnapshot⟩
  · rintro _ _ ⟨-, t, rfl⟩
    exact ⟨rfl, rfl, rfl⟩

/-- An append of a recovered operation either leaves it recovered or takes its snapshot away. -/
theorem Coherent.wp_appendLocked (h : Coherent store op) (hr : op.recovered = true) (faults : Faults)
    (prepared : PreparedBatch) (expected : StoreRevisionRef) :
    (appendLocked store faults prepared expected).wp (fun _ => True)
      (fun _ u => Coherent store u ∧ u.recovered = true) (fun e u => StoreFailure e ∧ Stale u) op := by
  obtain ⟨snapshot, hsnapshot, -⟩ := h.current hr
  have hi := h.valid hr
  rw [appendLocked, Program.wp_bind, requireRecovered_ok hr, Program.wp_bind]
  refine Program.wp_mono (wp_orInvalidate (h.wp_previewAppendLocked hr _ _ _)) (fun _ h => h) ?_ (fun _ _ h => h)
  rintro preview _ rfl
  cases preview with
  | replay batchId revision =>
    rw [Program.wp_bind, ownedSnapshot_ok hsnapshot]
    exact Program.wp_pure.mpr ⟨h, hr⟩
  | publish revision =>
    rw [Program.wp_bind]
    refine Program.wp_mono (wp_orInvalidate wp_requireAllow) (fun _ h => h) ?_ (fun _ _ h => h)
    rintro _ _ rfl
    obtain ⟨hrecovery, hstages⟩ := h.clean hr
    rw [Program.wp_bind, setSnapshot, Program.wp_update]
    refine ⟨trivial, ?_⟩
    rw [Program.wp_bind]
    refine Program.wp_mono (wp_orInvalidate (E := StoreFailure) (Program.wp_mono (wp_onDisk
      (R := fun r u => (scanVisible store u.disk = .ok r.2 ∧ u.disk .recovery = ∅ ∧ u.disk .stages = ∅) ∧
        u.recovered = true ∧ u.invalidated = false) ?_) (fun _ h => h) (fun _ _ h => h) fun _ _ h => .inl h.1))
      (fun _ h => h) ?_ (fun _ _ h => h)
    · refine Program.wp_mono (wp_publish_clean hrecovery hstages) (fun _ h => h) ?_ (fun _ _ h => h)
      exact fun r t ht => ⟨ht, hr, hi⟩
    · rintro ⟨outcome, committed⟩ u ⟨⟨hscan, hclean⟩, hr', hi'⟩
      rw [Program.wp_bind, setSnapshot, Program.wp_update]
      refine ⟨trivial, ?_⟩
      rw [Program.wp_bind, ownedSnapshot_ok rfl]
      refine Program.wp_pure.mpr ⟨⟨fun _ => hi', fun _ => ⟨committed, rfl, hscan⟩, fun _ => hclean, fun h => ?_⟩, hr'⟩
      exact absurd (h.symm.trans hi') (by decide)

/-- What a call can do to an operation. -/
theorem Coherent.wp_perform (h : Coherent store op) (call : Call) (faults : Faults) :
    (call.perform store faults).wp (fun _ => True)
      (fun _ u => u = op ∨ (Coherent store u ∧ u.recovered = true ∧ (call = .recover ∨ op.recovered = true)))
      (fun _ u => u = op ∨ (call = .recover ∧ u.recovered = false ∧ u.invalidated = false ∧ u.snapshot = none) ∨
        (op.recovered = true ∧ Stale u)) op := by
  cases call with
  | recover =>
    refine Program.wp_mono wp_recoverLocked (fun _ h => h) ?_ ?_
    · exact fun _ u hu => .inr ⟨hu.1, hu.2, .inl rfl⟩
    · exact fun _ u hu => .inr (.inl ⟨rfl, hu⟩)
  | append prepared expected =>
    rw [Call.perform, Program.wp_bind]
    cases hr : op.recovered with
    | false =>
      rw [appendLocked, Program.wp_bind, requireRecovered_error hr]
      exact .inl rfl
    | true =>
      refine Program.wp_mono (h.wp_appendLocked hr _ _ _) (fun _ h => h) ?_ ?_
      · exact fun _ u hu => Program.wp_pure.mpr (.inr ⟨hu.1, hu.2, .inr rfl⟩)
      · exact fun _ u hu => .inr (.inr ⟨rfl, hu.2⟩)
  | observeRecovery =>
    exact Program.wp_mono (wp_readOnly readOnly_observeRecoveryLocked) (fun _ h => h) (fun _ _ => .inl) (fun _ _ => .inl)
  | snapshot =>
    exact Program.wp_mono (wp_readOnly readOnly_snapshotLocked) (fun _ h => h) (fun _ _ => .inl) (fun _ _ => .inl)
  | previewAppend prepared expected =>
    exact Program.wp_mono (wp_readOnly readOnly_previewAppendLocked) (fun _ h => h) (fun _ _ => .inl) (fun _ _ => .inl)

theorem Coherent.perform (h : Coherent store op) (call : Call) (faults : Faults) :
    Coherent store ((call.perform store faults).final op) := by
  have hresult := (h.wp_perform call faults).2
  split at hresult
  · obtain hsame | ⟨hcoherent, -⟩ := hresult
    · rwa [hsame]
    · exact hcoherent
  · obtain hsame | ⟨-, hr, hi, -⟩ | ⟨-, hstale⟩ := hresult
    · rwa [hsame]
    · exact .of_fresh hr fun h => absurd (h.symm.trans hi) (by decide)
    · exact hstale.coherent

theorem Coherent.runs {allowed : Call → Except ExclusiveOperationError Unit → Prop} (h : Coherent store op)
    (hruns : Runs store allowed op op') : Coherent store op' := by
  induction hruns with
  | refl => exact h
  | tail _ hstep ih =>
    obtain ⟨call, faults, -, rfl⟩ := hstep
    exact ih.perform call faults

/-- Without a recovery nothing revives an operation. -/
theorem Stale.runs (h : Stale op) (hruns : Runs store (fun call _ => call ≠ .recover) op op') : Stale op' := by
  induction hruns with
  | refl => exact h
  | tail _ hstep ih =>
    obtain ⟨call, faults, hcall, rfl⟩ := hstep
    have hresult := ((ih.coherent : Coherent store _).wp_perform call faults).2
    have hr := ih.recovered
    split at hresult
    · obtain hsame | ⟨-, -, hrecover | hrecovered⟩ := hresult
      · rwa [hsame]
      · exact absurd hrecover hcall
      · exact absurd (hrecovered.symm.trans hr) (by decide)
    · obtain hsame | ⟨hrecover, -⟩ | ⟨hrecovered, -⟩ := hresult
      · rwa [hsame]
      · exact absurd hrecover hcall
      · exact absurd (hrecovered.symm.trans hr) (by decide)

/-- Without a recovery that succeeds nothing revives it either. -/
theorem not_recovered_of_runs (hcoherent : Coherent store op) (h : op.recovered = false)
    (hruns : Runs store (fun call r => ¬(call = .recover ∧ r = .ok ())) op op') : op'.recovered = false := by
  induction hruns with
  | refl => exact h
  | tail hbefore hstep ih =>
    obtain ⟨call, faults, hcall, rfl⟩ := hstep
    have hruns : Runs store (fun call r => ¬(call = .recover ∧ r = .ok ())) op _ := hbefore
    have hresult := ((hcoherent.runs hruns).wp_perform call faults).2
    split at hresult
    · rename_i hok
      obtain hsame | ⟨-, -, hrecover | hrecovered⟩ := hresult
      · rwa [hsame]
      · exact absurd ⟨hrecover, hok⟩ hcall
      · exact absurd (hrecovered.symm.trans ih) (by decide)
    · obtain hsame | ⟨-, hr, -⟩ | ⟨-, hstale⟩ := hresult
      · rwa [hsame]
      · exact hr
      · exact hstale.recovered

/-- The operation refuses to serve a snapshot and to append, with this error. -/
def Refuses (store : Store) (op : ExclusiveStoreOperation) (e : ExclusiveOperationError) : Prop :=
  snapshotLocked.result op = .error e ∧ ∀ faults prepared expected,
    (previewAppendLocked store faults prepared expected).result op = .error e ∧
      (appendLocked store faults prepared expected).result op = .error e

/-- The operation serves the snapshot of its disk, and no call fails for its state. -/
def Serves (store : Store) (op : ExclusiveStoreOperation) : Prop :=
  (∃ snapshot, snapshotLocked.result op = .ok snapshot ∧ scanVisible store op.disk = .ok snapshot) ∧
    ∀ faults prepared expected e, (previewAppendLocked store faults prepared expected).result op = .error e ∨
      (appendLocked store faults prepared expected).result op = .error e →
        e ≠ .stateInvalidated ∧ e ≠ .recoveryRequired

theorem refuses_of_not_recovered (h : op.recovered = false) : Refuses store op op.stateError :=
  ⟨refused_of_not_recovered h, fun _ _ _ => ⟨refused_of_not_recovered h, refused_of_not_recovered h⟩⟩

theorem Coherent.serves (h : Coherent store op) (hr : op.recovered = true) : Serves store op := by
  obtain ⟨snapshot, hsnapshot, hscan⟩ := h.current hr
  refine ⟨⟨snapshot, ?_, hscan⟩, ?_⟩
  · have hwp : snapshotLocked.wp (fun _ => True) (fun a _ => a = snapshot) (fun _ _ => False) op := by
      rw [snapshotLocked, Program.wp_bind, requireRecovered_ok hr, ownedSnapshot_ok hsnapshot]
    obtain ⟨a, ha, rfl⟩ := Program.ok_of_wp hwp
    exact ha
  · rintro faults prepared expected e (he | he)
    · have hfail := (h.wp_previewAppendLocked hr faults prepared expected).2
      rw [he] at hfail
      exact StoreFailure.not_state hfail
    · have hfail := (h.wp_appendLocked hr faults prepared expected).2
      rw [he] at hfail
      exact hfail.1.not_state

/-- An operation never serves a stale snapshot, whatever is called and whatever fails. -/
theorem exclusive_snapshot_current {disk : Disk} (hruns : Runs store (fun _ _ => True) (beginOn disk) op) :
    (op.recovered = true → op.invalidated = false ∧
      ∃ snapshot, op.snapshot = some snapshot ∧ scanVisible store op.disk = .ok snapshot) ∧
    (op.invalidated = true → op.recovered = false ∧ op.snapshot = none) ∧
    (∀ faults prepared expected e, op.recovered = true →
      (appendLocked store faults prepared expected).result op = .error e →
        (∀ op', Runs store (fun call _ => call ≠ .recover)
            ((appendLocked store faults prepared expected).final op) op' →
          Refuses store op' .stateInvalidated ∧
            ∀ faults, (observeRecoveryLocked faults).result op' = .error .stateInvalidated) ∧
        ∀ op', Runs store (fun call r => ¬(call = .recover ∧ r = .ok ()))
            ((appendLocked store faults prepared expected).final op) op' →
          Refuses store op' .stateInvalidated ∨ Refuses store op' .recoveryRequired) ∧
    ∀ faults, (recoverLocked store faults).result op = .ok () → Serves store ((recoverLocked store faults).final op) := by
  have hcoherent := (Coherent.beginOn disk : Coherent store _).runs hruns
  refine ⟨fun hr => ⟨hcoherent.valid hr, hcoherent.current hr⟩, hcoherent.stale, ?_, ?_⟩
  · intro faults prepared expected e hr he
    have hfail := (hcoherent.wp_appendLocked hr faults prepared expected).2
    rw [he] at hfail
    obtain ⟨-, hstale⟩ := hfail
    refine ⟨fun op' hruns' => ?_, fun op' hruns' => ?_⟩
    · have hstale' := hstale.runs hruns'
      have herror : op'.stateError = .stateInvalidated := by rw [stateError, if_pos hstale'.invalidated]
      refine ⟨herror ▸ refuses_of_not_recovered hstale'.recovered, fun faults => ?_⟩
      rw [observeRecoveryLocked, Program.result_bind (.reads _), Program.result_reads, if_pos hstale'.invalidated, herror]
      rfl
    · have hnot := not_recovered_of_runs hstale.coherent hstale.recovered hruns'
      have hrefuses : Refuses store op' _ := refuses_of_not_recovered hnot
      rw [stateError] at hrefuses
      split at hrefuses
      · exact .inl hrefuses
      · exact .inr hrefuses
  · intro faults hok
    obtain ⟨hfinal, hr⟩ := Program.post_of_wp wp_recoverLocked hok
    exact hfinal.serves hr

end

attribute [local instance] Sample.jiff Sample.blake3 Sample.url Sample.readDir

theorem Sample.recoverLocked_ok {snapshot : StoreSnapshot} (hscan : scanVisible Sample.store Sample.disk = .ok snapshot) :
    (ExclusiveStoreOperation.recoverLocked Sample.store (fun _ => none)).result (beginOn Sample.disk) = .ok () ∧
      (ExclusiveStoreOperation.recoverLocked Sample.store (fun _ => none)).final (beginOn Sample.disk) =
        ⟨Sample.disk, some snapshot, true, false⟩ := by
  have hwp : (ExclusiveStoreOperation.recoverLocked Sample.store (fun _ => none)).wp (fun _ => True)
      (fun _ u => u = ⟨Sample.disk, some snapshot, true, false⟩) (fun _ _ => False) (beginOn Sample.disk) := by
    rw [ExclusiveStoreOperation.recoverLocked, Program.wp_bind, Program.wp_update]
    refine ⟨trivial, ?_⟩
    rw [Program.wp_bind, onDisk, wp_onDiskMapping, Program.under_none]
    refine wp_recoverWithoutSnapshot_clean Sample.clean ?_
    rw [Program.wp_bind, onDisk, wp_onDiskMapping, Program.under_none]
    refine (Program.wp_reads_ok hscan).mpr ?_
    rw [Program.wp_update]
    exact ⟨trivial, rfl⟩
  obtain ⟨_, hok, hfinal⟩ := Program.ok_of_wp hwp
  exact ⟨hok, hfinal⟩

theorem Sample.runs_recover {snapshot : StoreSnapshot} (hscan : scanVisible Sample.store Sample.disk = .ok snapshot) :
    Runs Sample.store (fun _ _ => True) (beginOn Sample.disk) ⟨Sample.disk, some snapshot, true, false⟩ :=
  .single ⟨.recover, fun _ => none, trivial, (Sample.recoverLocked_ok hscan).2.symm⟩

/-- The operation of an empty store, recovered. -/
theorem exclusive_snapshot_current_recovered :
    ∃ op snapshot, Runs Sample.store (fun _ _ => True) (beginOn Sample.disk) op ∧ op.recovered = true ∧
      op.snapshot = some snapshot ∧ scanVisible Sample.store op.disk = .ok snapshot := by
  obtain ⟨base, hscan⟩ := Sample.vacant.scanVisible_ok
  have hruns := Sample.runs_recover hscan
  obtain ⟨-, snapshot, hsnapshot, hscan⟩ := (exclusive_snapshot_current hruns).1 rfl
  exact ⟨_, snapshot, hruns, rfl, hsnapshot, hscan⟩

end ExclusiveStoreOperation

end Wayjournal
