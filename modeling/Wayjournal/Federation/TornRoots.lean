import Wayjournal.Federation.DocumentLaws
import Wayjournal.Federation.QuarantineLaws
import Wayjournal.Store.CrashAtomic

namespace Wayjournal

open Crash Fs FileSystem Text

/-- A crash in the middle of `write_new` leaves the new file with a first part of its bytes. -/
def Torn (directory : Directory) (name : Name) (bytes : Bytes) (s t : Disk) : Prop :=
  ∃ cut, cut <+: bytes ∧ cut ≠ bytes ∧ (writeNew directory name cut).result s = .ok () ∧
    t = (writeNew directory name cut).final s

/-- A reader sees the state before the write or the state after it. -/
def SeesOldOrNew {ε α : Type} (reader : Program Disk ε α) (s t u : Disk) : Prop :=
  (∃ found, reader.result t = .ok found) ∧
    (reader.result t = reader.result s ∨ reader.result t = reader.result u)

theorem Torn.sets {directory : Directory} {name : Name} {bytes : Bytes} {s t : Disk}
    (h : Torn directory name bytes s t) :
    ∃ cut, cut <+: bytes ∧ cut ≠ bytes ∧
      (s directory.area).Sets (directory.path ++ [name]) (some (.regular cut)) (t directory.area) := by
  obtain ⟨cut, hcut, hne, hresult, rfl⟩ := h
  refine ⟨cut, hcut, hne, ?_⟩
  have hwp : (writeNew directory name cut).wp (fun _ => True)
      (fun _ t => (s directory.area).Sets (directory.path ++ [name]) (some (.regular cut)) (t directory.area))
      (fun _ _ => True) s := by
    rw [writeNew, Program.wp_bind, wp_liftPending]
    refine Directory.wp_change_any (fun fs hfs => ⟨trivial, ?_⟩) fun _ => trivial
    rw [wp_liftPending]
    refine Directory.wp_change_any (fun gs hgs => ⟨trivial, ?_⟩) fun _ => trivial
    rw [Disk.set_same] at hgs
    rw [Disk.set_same]
    have hcreate := (sets_of_create hfs).2.2
    have hwrite := (sets_of_write hgs).2
    refine ⟨hwrite.here, fun q hq => ?_⟩
    rw [hwrite.elsewhere q hq, hcreate.elsewhere q hq]
  have hpost := hwp.2
  rw [hresult] at hpost
  exact hpost

section

variable [Url]

/-- A slot whose document cannot be decoded stops the loop over the slots. -/
theorem discoverSlot_ne_ok {t : Disk} {operationId : GitSyncOperationId} {bytes : Bytes}
    (hentry : (Store.syncPendingDir.child operationId.name).child? .pendingJson t = some (.regular bytes))
    (hdecode : ∀ document, decodeDocument bytes ≠ .ok document) (slots slots' : Slots) :
    (discoverSlot slots operationId.name).result t ≠ .ok slots' := by
  intro h
  have hopen : ∀ directory, (Store.syncPendingDir.openDir operationId.name).result t = .ok directory →
      directory = Store.syncPendingDir.child operationId.name := by
    intro directory hdirectory
    rw [Directory.openDir, Program.result_reads] at hdirectory
    split at hdirectory
    · cases hdirectory
    · cases hdirectory
      rfl
    · cases hdirectory
  unfold discoverSlot at h
  split at h
  · obtain ⟨id, -, h⟩ := (Program.result_bind_eq_ok (.ofExcept _)).mp h
    obtain ⟨kind, -, h⟩ := (Program.result_bind_eq_ok (readOnly_liftPending Directory.readOnly_kind)).mp h
    split at h
    · cases h
    · obtain ⟨directory, hdirectory, h⟩ :=
        (Program.result_bind_eq_ok (readOnly_liftPending Directory.readOnly_openDir)).mp h
      obtain rfl := hopen directory (mapError_eq_ok.mp hdirectory)
      obtain ⟨file, hfile, h⟩ := (Program.result_bind_eq_ok (readOnly_openDocument _)).mp h
      rw [openDocument, Program.result_reads, hentry] at hfile
      cases hfile
      simp only at h
      split at h
      · cases h
      · obtain ⟨document, hdocument, -⟩ := (Program.result_bind_eq_ok (.ofExcept _)).mp h
        exact hdecode document hdocument
  · cases h

variable [ReadDir]

theorem discover_torn {document : PendingDocument} {bytes : Bytes} {operationId : GitSyncOperationId} {s t : Disk}
    (hencode : encodeDocument document = .ok bytes)
    (htorn : Torn (Store.syncPendingDir.child operationId.name) .pendingJson bytes s t) (found : PendingDiscovery) :
    discover.result t ≠ .ok found := by
  obtain ⟨cut, hcut, hne, hsets⟩ := htorn.sets
  have hentry : (Store.syncPendingDir.child operationId.name).child? .pendingJson t = some (.regular cut) := hsets.here
  have hslot : (t .syncPending).get? [operationId.name] = some .directory :=
    (t .syncPending).closed [operationId.name] .pendingJson _ hentry (List.cons_ne_nil _ _)
  have hname : operationId.name ∈ Store.syncPendingDir.names t := Directory.mem_names.mpr ⟨_, hslot⟩
  intro h
  unfold discover at h
  obtain ⟨names, hnames, h⟩ :=
    (Program.result_bind_eq_ok (readOnly_liftPending Directory.readOnly_boundedNames)).mp h
  obtain ⟨slots, hslots, -⟩ := (Program.result_bind_eq_ok (.foldlM readOnly_discoverSlot _ _)).mp h
  rw [Program.result_foldlM readOnly_discoverSlot] at hslots
  refine foldlM_ne_ok (a := operationId.name) ?_ ?_ _ _ hslots
  · exact (Directory.mem_of_boundedNames (mapError_eq_ok.mp hnames)).mpr hname
  · exact discoverSlot_ne_ok hentry fun document => decodeDocument_cut hencode hcut hne

/-- The only file of the quarantine directory stops its reader when it cannot be decoded. -/
theorem active_torn {request : GitSyncRequest} {incident : QuarantineIncident} {bytes : Bytes} {s t : Disk}
    (hencode : encodeIncident incident = .ok bytes) (hempty : Store.quarantineDir.names s = [])
    (htorn : Torn Store.quarantineDir incident.fileName bytes s t) (found : Option QuarantineIncident) :
    (active request).result t ≠ .ok found := by
  obtain ⟨cut, hcut, hne, hsets⟩ := htorn.sets
  have hfile : incident.fileName ∈ Store.quarantineDir.names t := Directory.mem_names.mpr ⟨_, hsets.here⟩
  intro h
  obtain ⟨hnil, -⟩ | ⟨other, -, ⟨name, bytes', hname, hentry, hdecode⟩, -⟩ := active_spec h
  · rw [hnil] at hfile
    cases hfile
  · have heq : name = incident.fileName := by
      by_contra hname'
      have hold : Store.quarantineDir.child? name s = some (.regular bytes') := by
        rw [← hentry]
        exact (hsets.elsewhere [name] fun heq => hname' (List.cons.inj heq).1).symm
      have hmem : name ∈ Store.quarantineDir.names s := Directory.mem_names.mpr ⟨_, hold⟩
      rw [hempty] at hmem
      cases hmem
    subst heq
    have hcutEntry : Store.quarantineDir.child? incident.fileName t = some (.regular cut) := hsets.here
    rw [hcutEntry] at hentry
    cases hentry
    exact decodeIncident_cut hencode hcut hne hdecode

/-- No crash in the middle of the first write of a root is read as the state before it or the state
after it: the reader fails, and with it the gate of every read and append. -/
theorem torn_root_never_atomic :
    (∀ (document : PendingDocument) (bytes : Bytes) (operationId : GitSyncOperationId) (s t u : Disk),
      encodeDocument document = .ok bytes →
      Torn (Store.syncPendingDir.child operationId.name) .pendingJson bytes s t →
      ¬ SeesOldOrNew discover s t u ∧ ∃ e, gateWithoutGit.result t = .error e) ∧
    (∀ (request reader : GitSyncRequest) (incident : QuarantineIncident) (bytes : Bytes) (s t u : Disk),
      encodeIncident incident = .ok bytes → (active request).result s = .ok none →
      Torn Store.quarantineDir incident.fileName bytes s t → ¬ SeesOldOrNew (active reader) s t u) := by
  refine ⟨?_, ?_⟩
  · intro document bytes operationId s t u hencode htorn
    have hfail := discover_torn hencode htorn
    refine ⟨fun h => ?_, ?_⟩
    · obtain ⟨found, hfound⟩ := h.1
      exact hfail found hfound
    · unfold gateWithoutGit
      rw [Program.result_bind (readOnly_discover.mapError _), Program.result_mapError]
      cases hresult : discover.result t with
      | error e => exact ⟨_, rfl⟩
      | ok found => exact absurd hresult (hfail found)
  · intro request reader incident bytes s t u hencode hnone htorn h
    obtain ⟨found, hfound⟩ := h.1
    obtain ⟨hempty, -⟩ | ⟨_, hsome, -⟩ := active_spec hnone
    · exact active_torn hencode hempty htorn found hfound
    · cases hsome

end

attribute [local instance] Sample.url Sample.readDir Sample.blake3

namespace Sample

def digest : Digest := ⟨⟨List.replicate 64 0, Digest.length_zeros⟩⟩

def revision : StoreRevisionRef := ⟨.wayjournalBlake3FramedV1, digest⟩

/-- An object id that is one digit all through. -/
def oid (n : Fin 16) : GitOid where
  format := .sha1
  hex := String.ofList (List.replicate 40 (hexDigit n))
  length_eq := by simp [GitObjectFormat.hexLen]
  lower := by
    rw [String.toList_ofList]
    revert n
    decide

def operationId (n : Fin 16) : GitSyncOperationId where
  uuid := (recordId n).uuid
  version := by revert n; decide
  variant := by revert n; decide

def logicalStoreId : LogicalStoreId := ⟨storeUuid, digest⟩

def approvedRemote : ApprovedRemote := ⟨⟨"file:///srv/journal.git", by decide⟩, ⟨"refs/heads/main", by decide⟩⟩

/-- A new operation over a checkpoint at `oid 1`. -/
def document : PendingDocument where
  schema := PENDING_SCHEMA
  operationId := operationId 1
  phase := .prepared
  logicalStoreId := logicalStoreId
  localTrustBinding := ⟨digest⟩
  approvedRemote := approvedRemote
  objectFormat := .sha1
  originalBaseCommit := oid 1
  originalBaseRevision := revision
  advanceFromCommit := oid 1
  advanceFromRevision := revision
  observedLocalTip := oid 2
  expectedRemoteTip := oid 3
  candidateCommit := oid 4
  candidateRevision := revision
  candidateParents := [oid 2, oid 3]
  additionsCount := 0
  additionsTotalBytes := 0
  additionsIndexDigest := digest
  predecessorOperationId := none
  staleRemoteOid := none

/-- A slot in which no document has been written. -/
def slotted : Disk := fun area =>
  if area = .syncPending then (∅ : FileSystem Name).place [] (operationId 1).name .directory FileSystem.isDir_root_empty (by decide)
  else disk area

end Sample

theorem Sample.encode_document : ∃ bytes, encodeDocument document = .ok bytes :=
  encodeDocument_ok rfl (by decide) (by decide)

theorem Sample.torn_nil {bytes : Bytes} (h : encodeDocument document = .ok bytes) :
    Torn (Store.syncPendingDir.child (operationId 1).name) .pendingJson bytes slotted
      ((writeNew (Store.syncPendingDir.child (operationId 1).name) .pendingJson []).final slotted) := by
  have hok : ((writeNew (Store.syncPendingDir.child (operationId 1).name) .pendingJson []).result slotted).isOk = true := by
    decide +kernel
  refine ⟨[], List.nil_prefix, ?_, isOk_eq_true.mp hok, rfl⟩
  rintro rfl
  simp only [encodeDocument, except_bind_eq_ok, mapError_eq_ok, encodePretty_eq_ok, guard_bind_eq_ok, pure_eq_ok] at h
  obtain ⟨-, -, _, ⟨-, rfl⟩, -, hnil⟩ := h
  exact List.append_ne_nil_of_right_ne_nil _ (List.cons_ne_nil _ _) hnil.symm

/-- A document whose write was cut off before the first byte. -/
theorem torn_root_blocks_gate :
    ¬ ∀ (document : PendingDocument) (bytes : Bytes) (operationId : GitSyncOperationId) (s t : Disk),
      encodeDocument document = .ok bytes →
      Torn (Store.syncPendingDir.child operationId.name) .pendingJson bytes s t →
      SeesOldOrNew discover s t
        ((publishDocument (Store.syncPendingDir.child operationId.name) document).final s) := by
  intro h
  obtain ⟨bytes, hbytes⟩ := Sample.encode_document
  obtain ⟨⟨found, hfound⟩, -⟩ := h _ _ _ _ _ hbytes (Sample.torn_nil hbytes)
  exact discover_torn hbytes (Sample.torn_nil hbytes) found hfound

theorem torn_root_never_atomic_empty :
    ∃ bytes t e, encodeDocument Sample.document = .ok bytes ∧
      Torn (Store.syncPendingDir.child (Sample.operationId 1).name) .pendingJson bytes Sample.slotted t ∧
      gateWithoutGit.result t = .error e := by
  obtain ⟨bytes, hbytes⟩ := Sample.encode_document
  have htorn := Sample.torn_nil hbytes
  obtain ⟨-, e, he⟩ := torn_root_never_atomic.1 _ _ _ _ _ Sample.slotted hbytes htorn
  exact ⟨bytes, _, e, hbytes, htorn, he⟩

end Wayjournal
