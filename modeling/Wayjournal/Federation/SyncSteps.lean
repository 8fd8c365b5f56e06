import Wayjournal.Federation.QuarantineLaws
import Wayjournal.Federation.SlotSteps
import Wayjournal.Store.Conflict

namespace Wayjournal

open Collections Crash Fs FileSystem Relation Text

section Incidents

/-- A file written to an empty directory is the only one there. -/
theorem child_of_written {t : Disk} {d : Directory} {name : Name} {fs gs : FileSystem Name} {o : Option Entry} {bytes : Bytes}
    (hnone : ∀ n, d.child? n t = none) (hcreated : (t d.area).Sets (d.path ++ [name]) o fs)
    (hwritten : ((t.set d.area fs) d.area).Sets (d.path ++ [name]) (some (.regular bytes)) gs) (n : Name) (e : Entry) :
    d.child? n ((t.set d.area fs).set d.area gs) = some e ↔ n = name ∧ e = .regular bytes := by
  by_cases hn : n = name
  · subst hn
    rw [child_of_sets hwritten, Option.some.injEq]
    exact ⟨fun h => ⟨rfl, h.symm⟩, fun h => h.2.symm⟩
  · have hne : d.path ++ [n] ≠ d.path ++ [name] := fun heq => hn (List.cons.inj (List.append_cancel_left heq)).1
    have hother : d.child? n ((t.set d.area fs).set d.area gs) = d.child? n t := by
      rw [Directory.child?, Disk.set_same]
      refine (hwritten.elsewhere _ hne).trans ?_
      rw [Disk.set_same]
      exact hcreated.elsewhere _ hne
    rw [hother, hnone]
    exact ⟨fun h => (by cases h), fun h => absurd h.1 hn⟩

theorem readOnly_ensureCapacity [ReadDir] : ensureCapacity.ReadOnly :=
  .bind (readOnly_liftQuarantine Directory.readOnly_boundedNames) fun _ => .ite (.throw _) (.pure _)

variable [Url] {s t : Disk} {request : GitSyncRequest} {incident : QuarantineIncident}

theorem incidentIdOfName_fileName (incident : QuarantineIncident) :
    incidentIdOfName incident.fileName = .ok incident.incidentId := by
  have hdisplay : incident.incidentId.uuid.hyphenated = incident.incidentId.display := rfl
  unfold incidentIdOfName QuarantineIncident.fileName uuidJsonName
  rw [fromUtf8_asBytes]
  simp only [String.toList_append, List.reverse_append, List.dropPrefix?_append_of_beq _ (beq_self_eq_true _),
    List.reverse_reverse, String.ofList_toList, hdisplay, LocalId.parse_display]
  rfl

variable [ReadDir]

/-- The one file of the quarantine directory is the active incident. -/
theorem active_of_single {bytes : Bytes} (hfile : ∀ n e, Store.quarantineDir.child? n t = some e ↔
      n = incident.fileName ∧ e = .regular bytes) (hdecode : decodeIncident bytes = .ok incident)
    (htrust : incident.localTrustBinding = request.localTrust) (hremote : incident.approvedRemote = request.approvedRemote) :
    (active request).result t = .ok (some incident) := by
  have hnames : (Store.quarantineDir.names t).Perm [incident.fileName] := by
    refine (List.perm_ext_iff_of_nodup (nodup_names _ _) (List.nodup_singleton _)).mpr fun n => ?_
    rw [List.mem_singleton]
    exact Directory.mem_names.trans ⟨fun ⟨e, he⟩ => ((hfile n e).mp he).1, fun hn => ⟨_, (hfile n _).mpr ⟨hn, rfl⟩⟩⟩
  have hsingle := List.perm_singleton.mp hnames
  have hentry := (hfile incident.fileName _).mpr ⟨rfl, rfl⟩
  have hbounded : (Store.quarantineDir.boundedNames MAX_INCIDENTS).result t = .ok [incident.fileName] := by
    have hlength : ¬(Store.quarantineDir.names t).length > MAX_INCIDENTS := by
      rw [hsingle]
      simp [MAX_INCIDENTS]
    rw [Directory.boundedNames, Program.result_reads, Directory.insertionSort_order, (ReadDir.perm _ _).length_eq,
      if_neg hlength, hsingle]
    rfl
  have hkind : (Store.quarantineDir.kind incident.fileName).result t = .ok .regularFile := by
    rw [Directory.kind, Program.result_reads, hentry]
    rfl
  have hlength := (decodeIncident_eq_ok.mp hdecode).1
  unfold active
  refine (Program.result_bind_eq_ok (readOnly_liftQuarantine Directory.readOnly_boundedNames)).mpr
    ⟨_, mapError_eq_ok.mpr hbounded, ?_⟩
  refine (Program.result_bind_eq_ok (readOnly_liftQuarantine Directory.readOnly_kind)).mpr
    ⟨_, mapError_eq_ok.mpr hkind, ?_⟩
  refine Program.guard_eq_ok.mpr ⟨not_not.mpr rfl, ?_⟩
  refine (Program.result_bind_eq_ok (.ofExcept _)).mpr ⟨_, incidentIdOfName_fileName incident, ?_⟩
  refine (Program.result_bind_eq_ok (readOnly_liftQuarantine Directory.readOnly_openFile)).mpr
    ⟨_, mapError_eq_ok.mpr (Directory.openFile_eq_ok.mpr hentry), ?_⟩
  refine Program.guard_eq_ok.mpr ⟨not_lt.mpr hlength, ?_⟩
  refine (Program.result_bind_eq_ok (.ofExcept _)).mpr ⟨_, hdecode, ?_⟩
  refine Program.guard_eq_ok.mpr ⟨not_not.mpr rfl, ?_⟩
  refine Program.guard_eq_ok.mpr ⟨?_, rfl⟩
  simp [htrust, hremote]

variable [Blake3] {id : QuarantineIncidentId} {logicalStoreId : LogicalStoreId} {commit : GitOid}
  {revision : StoreRevisionRef} {reason : GitQuarantineReason} {observed : Option GitOid}
  {operation : Option GitSyncOperationId}

theorem keeps_persist :
    (persist id logicalStoreId request commit revision reason observed operation).Keeps apart := by
  have hquarantine : ∀ n, ¬(IsSurface Store.quarantineDir.area (Store.quarantineDir.path ++ [n]) ∨
      IsSlotRoot Store.quarantineDir.area (Store.quarantineDir.path ++ [n])) := by
    rintro n (h | ⟨h, -⟩)
    · exact h
    · cases h
  refine .bind (.readOnly readOnly_active) fun existing => ?_
  cases existing with
  | some incident => exact .pure _
  | none =>
    refine .bind (.bind (.readOnly (readOnly_liftQuarantine Directory.readOnly_boundedNames)) fun _ =>
      .ite (.throw _) (.pure _)) fun _ => .bind (.ofExcept _) fun bytes => .bind ?_ fun _ => .bind ?_ fun _ => .pure _
    · exact (Directory.keeps_preserving_change (fun _ _ h => ⟨_, (sets_of_create h).2.2⟩) (hquarantine _)).mapError _
    · exact (Directory.keeps_preserving_change (fun _ _ h => ⟨_, (sets_of_write h).2⟩) (hquarantine _)).mapError _

/-- What was persisted is active. -/
theorem active_of_persist
    (h : (persist id logicalStoreId request commit revision reason observed operation).result s = .ok incident) :
    (active request).result ((persist id logicalStoreId request commit revision reason observed operation).final s) =
      .ok (some incident) := by
  have hwp : (persist id logicalStoreId request commit revision reason observed operation).wp (fun _ => True)
      (fun incident t => (active request).result t = .ok (some incident)) (fun _ _ => True) s := by
    unfold persist
    rw [Program.wp_bind, readOnly_active.wp]
    split
    case h_2 => trivial
    rename_i existing hactive
    cases existing with
    | some found => exact Program.wp_pure.mpr hactive
    | none =>
      have hempty : Store.quarantineDir.names s = [] := by
        obtain ⟨hempty, -⟩ | ⟨_, hsome, -⟩ := active_spec hactive
        · exact hempty
        · cases hsome
      have hnone : ∀ n, Store.quarantineDir.child? n s = none := fun n => names_eq_nil.mp hempty n
      dsimp only
      rw [Program.wp_bind, readOnly_ensureCapacity.wp]
      split
      case h_2 => trivial
      rw [Program.wp_bind, (Program.ReadOnly.ofExcept _).wp, Program.result_ofExcept]
      split
      case h_2 => trivial
      rename_i bytes hencode
      have hdecode := decodeIncident_encodeIncident hencode
      simp only [Program.wp_bind, wp_liftQuarantine]
      refine Directory.wp_change_any (fun fs hfs => ⟨trivial, ?_⟩) fun _ => trivial
      obtain ⟨-, -, hcreated⟩ := sets_of_create hfs
      refine Directory.wp_change_any (fun gs hgs => ⟨trivial, Program.wp_pure.mpr ?_⟩) fun _ => trivial
      exact active_of_single (child_of_written (d := Store.quarantineDir) hnone hcreated (sets_of_write hgs).2) hdecode rfl rfl
  exact Program.post_of_wp hwp h

end Incidents

section NewSlot

variable {s t : Disk} {raw : Name} {id : GitSyncOperationId} {operation : Directory}

/-- Of what is published nothing changes but the root of one slot. -/
def exceptSlot (raw : Name) : Guarantee Disk :=
  preserving fun area p => (IsSurface area p ∨ IsSlotRoot area p) ∧ ¬(area = .syncPending ∧ p = [raw])

theorem surface_of_exceptSlot (h : (exceptSlot raw).rel s t) : (preserving IsSurface).rel s t := by
  refine fun area p hp => h area p ⟨.inl hp, ?_⟩
  rintro ⟨rfl, rfl⟩
  obtain ⟨other, heq⟩ := hp
  cases heq

theorem SlotsWithin.created {names : List Name} (h : SlotsWithin names s) (hst : (exceptSlot raw).rel s t) :
    SlotsWithin (raw :: names) t := by
  intro n hn
  by_cases heq : n = raw
  · exact heq ▸ List.mem_cons_self
  · have hroot : (t .syncPending).get? [n] = (s .syncPending).get? [n] :=
      hst .syncPending [n] ⟨.inr ⟨rfl, n, rfl⟩, fun h => heq (List.cons.inj h.2).1⟩
    exact List.mem_cons_of_mem _ (h n (hroot ▸ hn))

theorem keeps_createOperation : (createOperation id).Keeps (exceptSlot id.name) := by
  refine .bind (.mapError (.bind (.reads _) fun found => ?_) _) fun _ => .guard (.pure _)
  cases found with
  | none =>
    refine .bind ?_ fun _ => .bind (.readOnly Directory.readOnly_openDir) fun _ => .pure _
    exact Directory.keeps_preserving_change (fun _ _ h => ⟨_, (sets_of_create h).2.2⟩) fun h => h.2 ⟨rfl, rfl⟩
  | some e => exact .guard (.bind (.readOnly Directory.readOnly_openDir) fun _ => .pure _)

/-- An operation is created where there was no slot of its name. -/
theorem root_of_createOperation (h : (createOperation id).result s = .ok operation) :
    operation = Store.syncPendingDir.child id.name ∧ (s .syncPending).get? [id.name] = none := by
  obtain ⟨⟨directory, created⟩, hdirectory, h⟩ := Program.bind_eq_ok.mp h
  obtain ⟨hcreated, h⟩ := Program.guard_eq_ok.mp h
  cases h
  have hdirectory := mapError_eq_ok.mp hdirectory
  refine ⟨Directory.child_of_ensureDir hdirectory, ?_⟩
  obtain ⟨found, hfound, hdirectory⟩ := Program.bind_eq_ok.mp hdirectory
  cases hfound
  change Store.syncPendingDir.child? id.name s = none
  split at hdirectory
  · assumption
  · obtain ⟨-, hdirectory⟩ := Program.guard_eq_ok.mp hdirectory
    obtain ⟨_, -, hdirectory⟩ := Program.bind_eq_ok.mp hdirectory
    cases hdirectory
    exact absurd rfl hcreated

end NewSlot

section Slots

theorem predecessor_of_linkSlots [Url] {slots : List DurablePending} {predecessor : Option DurablePending}
    (h : linkSlots slots = .ok (none, predecessor)) : predecessor = none := by
  have hbind : ∀ {a b : DurablePending}, bindSuccession a b ≠ .ok (none, predecessor) := by
    intro a b h
    unfold bindSuccession at h
    split at h
    · cases h
    · cases h
  match slots, h with
  | [], h =>
    cases h
    rfl
  | [only], h => cases h
  | [left, right], h =>
    rw [linkSlots] at h
    split at h
    · exact absurd h hbind
    · split at h
      · exact absurd h hbind
      · cases h
  | _ :: _ :: _ :: _, h => cases h

variable [ReadDir] {s : Disk} {gone : Name → Prop}

theorem keeps_validateClosedLayout [Url] {pending : DurablePending}
    (hd : pending.directory = Store.syncPendingDir.child pending.name.name) : (validateClosedLayout pending).Keeps apart := by
  have hkind : ∀ {d : Directory} {name : Name} {label : String}, (requireDirectory d name label).Keeps apart := fun {_ _ _} =>
    .bind (.readOnly (readOnly_liftPending Directory.readOnly_kind)) fun _ => .ite (.throw _) (.pure _)
  refine .bind (.readOnly (readOnly_liftPending Directory.readOnly_boundedNames)) fun names => ?_
  refine .bind (.forM (fun name => ?_) _) fun _ => ?_
  · unfold removeTemporary
    split
    · exact .pure _
    · rename_i hname
      refine .bind (.ofExcept _) fun id => .guard (.bind (.readOnly (readOnly_liftPending Directory.readOnly_kind)) fun _ => ?_)
      refine .guard (.mapError ?_ _)
      rw [hd]
      refine Directory.keeps_preserving_change (fun _ _ h => ⟨_, sets_of_unlink h⟩) (notSurface_of_ne ?_)
      rintro rfl
      exact hname (by decide)
  · refine .bind (.readOnly (.bind (readOnly_liftPending Directory.readOnly_boundedNames) fun _ => .ite (.throw _) (.pure _)))
      fun _ => ?_
    exact .bind hkind fun _ => hkind

/-- The disposable slots that are removed. -/
theorem keeps_retireNamedDisposable {disposable : List (GitSyncOperationId × Directory)} {expected : Option GitSyncOperationId}
    (h : ∀ slot ∈ disposable, slot.2 = Store.syncPendingDir.child slot.1.name ∧ gone slot.1.name) :
    (retireNamedDisposable disposable expected).Keeps (retiring gone) := by
  refine .forMOf fun slot hslot => .guard (.bind ?_ fun _ => .ite (.throw _) (.pure _))
  exact (keeps_retiring_removeSlot (h slot hslot).1 (h slot hslot).2).mapError _

theorem slots_of_removeSlot {id : GitSyncOperationId} {d : Directory} {names : List Name}
    (hd : d = Store.syncPendingDir.child id.name) (h : SlotsWithin (id.name :: names) s)
    (hremoved : (removeSlot id d).result s = .ok true) : SlotsWithin names ((removeSlot id d).final s) := by
  have hkeeps : (removeSlot id d).Keeps (retiring fun raw => raw = id.name) := keeps_retiring_removeSlot hd rfl
  have hretiring := hkeeps.final s
  exact (h.congr (slotRoot_of_retiring hretiring)).removed (slotRoot_of_removeSlot hremoved)

/-- The slots that are still there while a list of them is removed. -/
theorem wp_removeSlots {ε : Type} {disposable : List (GitSyncOperationId × Directory)} {names : List Name}
    {body : GitSyncOperationId × Directory → Program Disk ε Unit}
    (hbody : ∀ slot t, (body slot).result t = .ok () →
      (removeSlot slot.1 slot.2).result t = .ok true ∧ (body slot).final t = (removeSlot slot.1 slot.2).final t)
    (hplaced : ∀ slot ∈ disposable, slot.2 = Store.syncPendingDir.child slot.1.name)
    (h : SlotsWithin (disposable.map (fun slot => slot.1.name) ++ names) s) :
    (disposable.forM body).wp (fun _ => True) (fun _ => SlotsWithin names) (fun _ _ => True) s := by
  refine Program.wp_forM (fun rest t => (∀ slot ∈ rest, slot.2 = Store.syncPendingDir.child slot.1.name) ∧
    SlotsWithin (rest.map (fun slot => slot.1.name) ++ names) t) ?_ ⟨hplaced, h⟩ fun t ht => ht.2
  rintro slot rest t ⟨hplaced, ht⟩
  refine Program.wp_of_result fun _ hstep => ⟨fun slot hslot => hplaced slot (List.mem_cons_of_mem _ hslot), ?_⟩
  obtain ⟨hremoved, hfinal⟩ := hbody slot t hstep
  rw [hfinal]
  exact slots_of_removeSlot (hplaced slot List.mem_cons_self) ht hremoved

theorem removed_of_step {ε : Type} {f : StoreError → ε} {e : ε} {id : GitSyncOperationId} {d : Directory}
    (h : (do if !(← (removeSlot id d).mapError f) then throw e : Program Disk ε Unit).result s = .ok ()) :
    (removeSlot id d).result s = .ok true ∧
      (do if !(← (removeSlot id d).mapError f) then throw e : Program Disk ε Unit).final s = (removeSlot id d).final s := by
  obtain ⟨removed, hremoved, h⟩ := Program.bind_eq_ok.mp h
  cases removed with
  | false => cases h
  | true => exact ⟨mapError_eq_ok.mp hremoved, Program.final_bind hremoved⟩

theorem wp_retireNamedDisposable_slots {disposable : List (GitSyncOperationId × Directory)}
    {expected : Option GitSyncOperationId} {names : List Name}
    (hplaced : ∀ slot ∈ disposable, slot.2 = Store.syncPendingDir.child slot.1.name)
    (h : SlotsWithin (disposable.map (fun slot => slot.1.name) ++ names) s) :
    (retireNamedDisposable disposable expected).wp (fun _ => True) (fun _ => SlotsWithin names) (fun _ _ => True) s := by
  refine wp_removeSlots (fun slot t hstep => ?_) hplaced h
  obtain ⟨hexpected, hstep⟩ := Program.guard_eq_ok.mp hstep
  have hrun := removed_of_step hstep
  refine ⟨hrun.1, hrun.2 ▸ ?_⟩
  exact congrArg (Program.final · t) (if_neg hexpected)

variable [Url]

/-- Where nothing is active there are only slots to clean. -/
theorem names_of_discover {found : PendingDiscovery} (h : discover.result s = .ok found) (hactive : found.active = none) :
    found.names = found.disposable.map fun slot => slot.1.name := by
  obtain ⟨names, slots, linked, -, -, -, hlinked, rfl⟩ := discover_eq_ok.mp h
  obtain ⟨active, predecessor⟩ := linked
  cases hactive
  obtain rfl := predecessor_of_linkSlots hlinked
  rfl

theorem keeps_retiring_cleanDisposableLocked : cleanDisposableLocked.Keeps (retiring fun _ => True) := by
  refine .bindOf (.readOnly (readOnly_discover.mapError _)) fun s found hfound => ?_
  obtain ⟨-, -, -, hplaced⟩ := discover_slots (mapError_eq_ok.mp hfound)
  have hloop : (found.disposable.forM fun slot => (do
      if !(← removeSlot slot.1 slot.2) then throw (.invalidGitSyncState "disposable pending binding was replaced") :
        DiskM Unit)).Keeps (retiring fun _ => True) :=
    .forMOf fun slot hslot =>
      .bind (keeps_retiring_removeSlot (hplaced slot hslot).1 trivial) fun _ => .ite (.throw _) (.pure _)
  cases hactive : found.active with
  | none => exact hloop
  | some active => exact .throwBind

theorem wp_cleanDisposableLocked_slots :
    cleanDisposableLocked.wp (fun _ => True) (fun _ => SlotsWithin []) (fun _ _ => True) s := by
  unfold cleanDisposableLocked
  rw [Program.wp_bind, (readOnly_discover.mapError _).wp]
  split
  case h_2 => trivial
  rename_i found hfound
  have hfound := mapError_eq_ok.mp hfound
  obtain ⟨hwithin, -, -, hplaced⟩ := discover_slots hfound
  split
  · exact Program.wp_bind.mpr (Program.wp_throw.mpr trivial)
  · rename_i hactive
    rw [names_of_discover hfound (Option.eq_none_iff_forall_ne_some.mpr hactive)] at hwithin
    refine wp_removeSlots (fun slot t hstep => ?_) (fun slot hslot => (hplaced slot hslot).1)
      ((List.append_nil _).symm ▸ hwithin)
    obtain ⟨removed, hremoved, hstep⟩ := Program.bind_eq_ok.mp hstep
    cases removed with
    | false => cases hstep
    | true => exact ⟨hremoved, Program.final_bind hremoved⟩

end Slots

section Seeing

variable {area : Area} {d : Directory} {name : Name}

theorem Directory.sees_kind (h : d.area = area) : (d.kind name).Sees (Disk.view area) := by
  subst h
  refine ⟨readOnly_kind, fun {s t} heq => ?_⟩
  have harea : s d.area = t d.area := heq
  unfold kind
  rw [Program.result_reads, Program.result_reads, child?, child?, harea]

theorem sees_openDocument (h : d.area = area) : (openDocument d).Sees (Disk.view area) := by
  subst h
  refine ⟨.reads _, fun {s t} heq => ?_⟩
  have harea : s d.area = t d.area := heq
  unfold openDocument
  rw [Program.result_reads, Program.result_reads, Directory.child?, Directory.child?, harea]

variable [Url] [ReadDir]

/-- The search for operations looks at nothing but their slots. -/
theorem sees_discover : discover.Sees (Disk.view .syncPending) := by
  refine .bind (sees_liftPending (Directory.sees_boundedNames rfl)) fun names => .bind (.foldlM (fun slots raw => ?_) _ _)
    fun slots => .ite (.bind (.throw _) fun _ => ?_) ?_
  · unfold discoverSlot
    split
    · refine .bind (.ofExcept _) fun id => .bind (sees_liftPending (Directory.sees_kind rfl)) fun kind => ?_
      refine .ite (.bind (.throw _) fun _ => ?_) ?_
      all_goals
        refine .bindOf (sees_liftPending (Directory.sees_openDir rfl)) fun s directory hopened => ?_
        obtain rfl := Directory.child_of_openDir (mapError_eq_ok.mp hopened)
        refine .bind (sees_openDocument rfl) fun file => ?_
        cases file with
        | none => exact .pure _
        | some bytes =>
          refine .ite (.bind (.throw _) fun _ => ?_) ?_
          all_goals
            refine .bind (.ofExcept _) fun document => .ite (.bind (.throw _) fun _ => ?_) ?_
            all_goals exact .pure _
    · exact .throw _
  all_goals exact .bind (.ofExcept _) fun linked => .pure _

end Seeing

section Files

/-- Only these areas change. -/
def onlyAreas (areas : List Area) : Guarantee Disk where
  rel s t := ∀ area, area ∉ areas → t area = s area
  refl _ _ _ := rfl
  trans h h' area harea := (h' area harea).trans (h area harea)

/-- The areas of batches and their recovery. -/
def batchAreas : List Area := [.canonical, .stages, .recovery]

variable {s t : Disk} {areas : List Area}

theorem onlyAreas_of_within {area : Area} {p : List Name} (harea : area ∈ areas) (h : (within area p).rel s t) :
    (onlyAreas areas).rel s t :=
  fun a ha => h.1 a fun heq => ha (heq ▸ harea)

theorem onlyAreas_mono {areas' : List Area} (h : areas' ⊆ areas) (hst : (onlyAreas areas').rel s t) :
    (onlyAreas areas).rel s t :=
  fun a ha => hst a fun hmem => ha (h hmem)

theorem onlyAreas_of_forall {ε α : Type} {p : Program Disk ε α}
    (h : ∀ area, area ∉ areas → p.Keeps (.same (Disk.view area))) : p.Keeps (onlyAreas areas) :=
  fun s t ht area harea => h area harea s t ht

theorem checkpointEntry_of_area (h : t .checkpoints = s .checkpoints) : checkpointEntry t = checkpointEntry s :=
  congrArg (fun fs : FileSystem Name => fs.get? [.admissionCheckpoint]) h

theorem documentEntry_of_area (h : t .syncPending = s .syncPending) (raw : Name) : documentEntry raw t = documentEntry raw s :=
  congrArg (fun fs : FileSystem Name => fs.get? [raw, .pendingJson]) h

/-- What only adds canonical files. -/
theorem follows_of_files [Url] [Jiff] [Blake3] {store : Store} (hgrows : canonicalGrows.rel s t) (hareas : (onlyAreas batchAreas).rel s t) :
    Follows store s t where
  files := hgrows
  checkpoint := by
    rw [checkpointEntry_of_area (hareas .checkpoints (by decide))]
  anchored := .inl (checkpointEntry_of_area (hareas .checkpoints (by decide)))
  documents raw := by
    rw [documentEntry_of_area (hareas .syncPending (by decide))]
  sound raw := .inl (documentEntry_of_area (hareas .syncPending (by decide)) raw)

theorem onlyAreas_stageBatch [Jiff] [Blake3] {prepared : PreparedBatch} {base : StoreRevisionRef} :
    (stageBatch prepared base).Keeps (onlyAreas batchAreas) := by
  refine .bind (within_writeStage.mono fun _ _ => onlyAreas_of_within (by decide)) fun bytes => ?_
  exact within_linkFdNoClobber.mono fun _ _ => onlyAreas_of_within (by decide)

variable [ReadDir]

theorem onlyAreas_cleanUnpreparedStages : cleanUnpreparedStages.Keeps (onlyAreas batchAreas) := by
  refine .bind (.readOnly Directory.readOnly_boundedNames) fun names => .bind (.foldlM (fun consumed name => ?_) _ _) fun _ =>
    .pure _
  exact (within_removeTree _ _ _ _).mono fun _ _ => onlyAreas_of_within (by decide)

theorem onlyAreas_discardStage {batchId : BatchId} : (discardStage batchId).Keeps (onlyAreas batchAreas) := by
  refine .bind (Directory.within_unlinkFile.mono fun _ _ => onlyAreas_of_within (by decide)) fun _ => ?_
  exact .bind ((within_removeTree _ _ _ _).mono fun _ _ => onlyAreas_of_within (by decide)) fun _ => .pure _

section

variable [Jiff] [Blake3] {store : Store}

theorem onlyAreas_recoverOne (batchId : BatchId) : (recoverOne store batchId).Keeps (onlyAreas batchAreas) := by
  refine .bind (.readOnly readOnly_loadStage) fun batch => .bind ?_ fun _ => ?_
  · refine .tryCatch (.reads _) fun e => ?_
    exact .ite (.bind onlyAreas_discardStage fun _ => .throw _) (.throw _)
  · refine .bind (.forM (fun r => (within_publishRecord r).mono fun _ _ => onlyAreas_of_within (by decide)) _) fun _ => ?_
    refine .bind ?_ fun _ => onlyAreas_discardStage
    exact within_linkFdNoClobber.mono fun _ _ => onlyAreas_of_within (by decide)

theorem onlyAreas_recoverLocked : (recoverLocked store).Keeps (onlyAreas batchAreas) :=
  .bind (.readOnly readOnly_listedJournals) fun _ => .bind (.forM onlyAreas_recoverOne _) fun _ =>
    onlyAreas_cleanUnpreparedStages

end

variable [Blake3] [Url]

theorem onlyAreas_publishAdditions {pending : DurablePending} : (publishAdditions pending).Keeps (onlyAreas batchAreas) := by
  refine onlyAreas_of_forall fun area harea => ?_
  have hcanonical : area ≠ .canonical := fun heq => harea (heq ▸ by decide)
  have hrank : ∀ rank, (publishRank pending rank).Keeps (.same (Disk.view area)) := fun rank =>
    keeps_foldAdditions (fun _ addition =>
      .ite (keeps_liftPending (keeps_other_publishAddition hcanonical addition)) (.pure _)) ()
  exact .bind (hrank 0) fun _ => hrank 1

end Files

end Wayjournal
