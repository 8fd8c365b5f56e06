import Wayjournal.Federation.DiscoverLaws
import Wayjournal.Federation.DocumentReplace

namespace Wayjournal

open Crash Fs FileSystem Text

section Directories

variable {d : Directory} {s t : Disk} {l : List (Name × Entry)} {isTemporary : Name → Prop} {limit : Nat}

theorem Directory.Becomes.area_eq (h : d.Becomes s l t) {area : Area} (harea : area ≠ d.area) : t area = s area :=
  ext_get? fun p => h.elsewhere area p fun _ heq => harea (Prod.mk.inj heq).1

theorem Directory.child?_congr (harea : t d.area = s d.area) (n : Name) : d.child? n t = d.child? n s := by
  rw [Directory.child?, Directory.child?, harea]

theorem Directory.Lists.congr (h : d.Lists l s) (harea : t d.area = s d.area) : d.Lists l t := by
  intro n e
  rw [Directory.child?_congr harea]
  exact h n e

theorem Directory.Becomes.rebase (h : d.Becomes s l t) : d.Becomes t l t := h.lists.becomes

theorem Directory.Residual.rebase (h : d.Residual isTemporary limit s l t) : d.Residual isTemporary limit t l t := by
  obtain ⟨residue, hresidue, h⟩ := h
  exact ⟨residue, hresidue, h.rebase⟩

theorem Directory.Residual.congr (h : d.Residual isTemporary limit s l s) (harea : t d.area = s d.area) :
    d.Residual isTemporary limit t l t := by
  obtain ⟨residue, hresidue, h⟩ := h
  exact ⟨residue, hresidue, (h.lists.congr harea).becomes⟩

theorem Directory.Residual.area_eq (h : d.Residual isTemporary limit s l t) {area : Area} (harea : area ≠ d.area) :
    t area = s area := by
  obtain ⟨residue, -, h⟩ := h
  exact h.area_eq harea

end Directories

section Replacements

variable [Url]

/-- A process under the lock: whether it has read the checkpoint, and the operation whose layout it has checked. -/
structure Session where
  checkpointRead : Bool
  active : Option DurablePending

/-- A process that has just started. -/
def Session.fresh : Session := ⟨false, none⟩

inductive Attempt
  | read
  | write (checkpoint : AdmissionCheckpoint) (temporary : Uuid7)
  | replaceExpected (expected candidate : AdmissionCheckpoint) (temporary : Uuid7)
  | validate
  | advance (phase : GitSyncPendingPhase) (stale : Option GitOid) (temporary : Uuid7)

namespace Attempt

section

variable [ReadDir]

/-- The attempt, as the protocol makes it. -/
def run : Attempt → Session → Program Disk Unit Session
  | .read, session => do
    let _ ← readCheckpoint.mapError fun _ => ()
    return { session with checkpointRead := true }
  | .write checkpoint temporary, session => do
    if !session.checkpointRead then throw ()
    (writeCheckpoint checkpoint temporary.uuid).mapError fun _ => ()
    return session
  | .replaceExpected expected candidate temporary, session => do
    if !session.checkpointRead then throw ()
    (Wayjournal.replaceExpected expected candidate temporary.uuid).mapError fun _ => ()
    return session
  | .validate, session => do
    let found ← discover.mapError fun _ => ()
    let some pending := found.active | throw ()
    (validateClosedLayout pending).mapError fun _ => ()
    return { session with active := some pending }
  | .advance phase stale temporary, session => do
    let some pending := session.active | throw ()
    let next ← (replaceDocument pending (pending.document.advance phase stale) temporary.uuid).mapError fun _ => ()
    return { session with active := some next }

end

/-- The checkpoint the attempt is to put in place. -/
def checkpoint? : Attempt → Option AdmissionCheckpoint
  | .write checkpoint _ => some checkpoint
  | .replaceExpected _ candidate _ => some candidate
  | _ => none

/-- The document the attempt is to put in place. -/
def document? : Attempt → Session → Option PendingDocument
  | .advance phase stale _, session => session.active.map fun pending => pending.document.advance phase stale
  | _, _ => none

end Attempt

section States

variable {s t u v w : Disk} {r : Option AdmissionCheckpoint} {current : Option Bytes} {c : AdmissionCheckpoint}

/-- The directory of the checkpoint stands for a checkpoint, with at most one temporary file. -/
def CheckpointIs (r : Option AdmissionCheckpoint) (s : Disk) : Prop :=
  ∃ current, Stands r current ∧ CheckpointResidual s current s

theorem CheckpointIs.length_residue (h : CheckpointIs r s) :
    ((Store.checkpointsDir.names s).filter (· ≠ .admissionCheckpoint)).length ≤ 1 := by
  obtain ⟨current, -, residue, hresidue, h⟩ := h
  have hperm := h.lists.perm_names (nodup_residue fun x hx => (hresidue x hx).1)
  rw [filter_names (fun x hx => (hresidue x hx).1) hperm, List.length_map]
  cases residue <;> simp

theorem CheckpointIs.congr (h : CheckpointIs r s) (harea : t .checkpoints = s .checkpoints) : CheckpointIs r t := by
  obtain ⟨current, hr, h⟩ := h
  exact ⟨current, hr, h.congr harea⟩

theorem tears_checkpointResidual (hr : Stands r current) (u v w : Disk) (hu : CheckpointResidual s current u)
    (hv : CheckpointResidual s current v) (h : Disk.Tears u v w) : CheckpointResidual s current w :=
  hu.tears hv hr.proper hr.proper h

/-- The file stands for the old checkpoint or for the new one. -/
theorem Replacing.stands (hr : Stands r current) (h : Replacing s current c t) :
    ∃ r' current', (r' = r ∨ r' = some c) ∧ Stands r' current' ∧ CheckpointResidual s current' t ∧
      ∀ x, CheckpointResidual s current' x → Replacing s current c x := by
  obtain h | ⟨bytes, hencode, h⟩ := h
  · exact ⟨r, current, .inl rfl, hr, h, fun _ => .inl⟩
  · exact ⟨some c, some bytes, .inr rfl, .some (decodeAdmissionCheckpoint_encode hencode), h,
      fun _ hx => .inr ⟨bytes, hencode, hx⟩⟩

theorem Replacing.tears (hr : Stands r current) (hu : Replacing s current c u) (hv : Replacing s current c v)
    (h : Disk.Tears u v w) : Replacing s current c w := by
  obtain ⟨_, _, -, hold, hu, hback⟩ := hu.stands hr
  obtain ⟨_, _, -, hnew, hv, -⟩ := hv.stands hr
  exact hback w (hu.tears hv hold.proper hnew.proper h)

section

variable {d : Directory} {bytes : Bytes} {document old : PendingDocument}

theorem decodeDocument_nil : decodeDocument [] ≠ .ok document := by
  intro h
  obtain ⟨-, -, value, -, -, hcanonical⟩ := decodeDocument_eq_ok.mp h
  have hnil := (encodePretty_eq_ok.mp hcanonical).2
  exact List.append_ne_nil_of_right_ne_nil _ (List.cons_ne_nil _ _) hnil.symm

theorem proper_slotContent (h : decodeDocument bytes = .ok document) :
    Directory.Proper IsPendingTemporary (slotContent bytes) where
  full n hn := by
    simp only [slotContent, List.mem_cons, Prod.mk.injEq, reduceCtorEq, and_false, false_or, List.not_mem_nil, or_false,
      Entry.regular.injEq] at hn
    exact decodeDocument_nil (hn.2 ▸ h)
  fixed n hn := by
    obtain ⟨u, rfl⟩ := hn
    exact temporaryName_notMem u.uuid

/-- The directory holds the old document or the new one. -/
theorem Advancing.decodes (hold : decodeDocument bytes = .ok old) (h : Advancing d s bytes document t) :
    ∃ found bytes', (found = old ∨ found = document) ∧ decodeDocument bytes' = .ok found ∧ SlotResidual d s bytes' t ∧
      ∀ x, SlotResidual d s bytes' x → Advancing d s bytes document x := by
  obtain h | ⟨next, hencode, h⟩ := h
  · exact ⟨old, bytes, .inl rfl, hold, h, fun _ => .inl⟩
  · exact ⟨document, next, .inr rfl, decodeDocument_encodeDocument hencode, h, fun _ hx => .inr ⟨next, hencode, hx⟩⟩

theorem Advancing.tears (hold : decodeDocument bytes = .ok old) (hu : Advancing d s bytes document u)
    (hv : Advancing d s bytes document v) (h : Disk.Tears u v w) : Advancing d s bytes document w := by
  obtain ⟨_, _, -, hbefore, hu, hback⟩ := hu.decodes hold
  obtain ⟨_, _, -, hafter, hv, -⟩ := hv.decodes hold
  exact hback w (hu.tears hv (proper_slotContent hbefore) (proper_slotContent hafter) h)

end

variable [ReadDir] {found : PendingDiscovery} {pending : DurablePending}

/-- The operations that are found, the active one with a closed layout and at most one temporary file. -/
structure PendingIs (found : PendingDiscovery) (s : Disk) : Prop where
  discovered : discover.result s = .ok found
  closed : ∀ pending ∈ found.active, ∃ bytes, SlotResidual pending.directory s bytes s

theorem CheckpointIs.result (h : CheckpointIs r s) : readCheckpoint.result s = .ok r := by
  obtain ⟨current, hr, h⟩ := h
  obtain ⟨found, hfound, rfl, -⟩ := Program.ok_of_wp (wp_readCheckpoint_stands hr h)
  exact hfound

namespace PendingIs

theorem length_residue (h : PendingIs found s) (hactive : found.active = some pending) :
    ((pending.directory.names s).filter (· ∉ slotNames)).length ≤ 1 := by
  obtain ⟨bytes, residue, hresidue, h⟩ := h.closed pending hactive
  have hperm := (perm_slotNames (fun x hx => (hresidue x hx).1) h).filter (· ∉ slotNames)
  rw [hperm.length_eq, List.filter_append, List.length_append, List.filter_eq_nil_iff.mpr (by simp)]
  refine (Nat.zero_add _).trans_le ((List.length_filter_le _ _).trans ?_)
  cases residue <;> simp

theorem validates (h : PendingIs found s) (hactive : found.active = some pending) :
    (validateClosedLayout pending).result s = .ok () := by
  obtain ⟨bytes, h⟩ := h.closed pending hactive
  obtain ⟨_, hresult, -⟩ := Program.ok_of_wp (wp_validateClosedLayout h)
  exact hresult

theorem place (h : PendingIs found s) (hactive : found.active = some pending) :
    pending.directory = Store.syncPendingDir.child pending.name.name :=
  (active_of_discover h.discovered hactive).1

theorem isDir (h : PendingIs found s) (hactive : found.active = some pending) :
    (s pending.directory.area).isDir pending.directory.path := by
  obtain ⟨hdirectory, hentry⟩ := active_of_discover h.discovered hactive
  rw [hdirectory]
  exact .inr hentry

theorem area_eq (h : PendingIs found s) (hactive : found.active = some pending) {bytes : Bytes}
    (hslot : SlotResidual pending.directory s bytes t) : t .checkpoints = s .checkpoints := by
  refine Directory.Residual.area_eq hslot ?_
  rw [h.place hactive]
  exact nofun

/-- The active document as the directory holds it. -/
theorem decodes (h : PendingIs found s) (hactive : found.active = some pending) :
    ∃ bytes, decodeDocument bytes = .ok pending.document ∧ SlotResidual pending.directory s bytes s := by
  obtain ⟨bytes, hslot⟩ := h.closed pending hactive
  obtain ⟨bytes', hchild, hdecode⟩ := ((discover_spec h.discovered).1 pending hactive).document
  cases hchild.symm.trans (child_of_slotResidual hslot)
  exact ⟨bytes, hdecode, hslot⟩

theorem congr (h : PendingIs found s) (harea : t .syncPending = s .syncPending) : PendingIs found t where
  discovered := discover_congr (Directory.child?_congr harea) (fun _ => Directory.child?_congr harea _) h.discovered
  closed pending hactive := by
    obtain ⟨bytes, hslot⟩ := h.closed pending hactive
    refine ⟨bytes, hslot.congr ?_⟩
    rw [h.place hactive]
    exact harea

/-- With another document in its directory the operation is found with that document. -/
theorem advance (h : PendingIs found s) (hactive : found.active = some pending) {bytes : Bytes}
    {phase : GitSyncPendingPhase} {stale : Option GitOid} (hslot : SlotResidual pending.directory s bytes t)
    (hdecode : decodeDocument bytes = .ok (pending.document.advance phase stale)) :
    PendingIs { found with active := some { pending with document := pending.document.advance phase stale } } t where
  discovered := by
    have hafter := child_of_slotResidual hslot
    obtain ⟨residue, -, hbecomes⟩ := hslot
    have hplace := h.place hactive
    obtain ⟨_, hbefore, -⟩ := ((discover_spec h.discovered).1 pending hactive).document
    rw [hplace] at hbecomes hbefore hafter
    refine discover_redocument h.discovered hactive ⟨fun n => ?_, fun n hn => ?_, ?_, ?_⟩ hdecode
    · refine hbecomes.elsewhere _ _ fun m heq => ?_
      exact absurd (congrArg List.length (Prod.mk.inj heq).2) (by simp [Store.syncPendingDir, Directory.child])
    · refine hbecomes.elsewhere _ _ fun m heq => hn ?_
      exact (List.cons.inj (Prod.mk.inj heq).2).1
    · rw [hbefore]
      exact nofun
    · exact hafter
  closed := by
    rintro _ ⟨⟩
    exact ⟨bytes, hslot.rebase⟩

end PendingIs

end States

theorem keeps_of_expectedOldMismatch {expected c : AdmissionCheckpoint} {u : Uuid7} {s : Disk}
    (h : (replaceExpected expected c u.uuid).result s = .error .expectedOldMismatch) :
    KeepsCheckpoint s ((replaceExpected expected c u.uuid).final s) := by
  have hkeeps : (replaceExpected expected c u.uuid).wp _ _ _ s := wp_expectedOldMismatch
  rw [Program.wp, h] at hkeeps
  exact hkeeps.2 rfl

section Steps

variable [ReadDir] {s t : Disk} {session next : Session} {r r' : Option AdmissionCheckpoint} {found : PendingDiscovery}
  {pending : DurablePending} {attempt : Attempt}

/-- One attempt: it finishes, or the process stops on the way and the next one starts afresh. -/
inductive Attempt.Step : Session × Disk → Attempt → Session × Disk → Prop
  | finishes {attempt : Attempt} {session next : Session} {s : Disk} (h : (attempt.run session).result s = .ok next) :
    Step (session, s) attempt (next, (attempt.run session).final s)
  | stops {attempt : Attempt} {session : Session} {s t : Disk} (h : (attempt.run session).Crashes s t) :
    Step (session, s) attempt (.fresh, t)

/-- What is on disk for a process: a checkpoint and operations, and no temporary file where it has looked. -/
structure Sound (session : Session) (r : Option AdmissionCheckpoint) (found : PendingDiscovery) (s : Disk) : Prop where
  checkpoint : ∃ current, Stands r current ∧ CheckpointResidual s current s ∧
    (session.checkpointRead = true → Store.checkpointsDir.Lists (checkpointContent current) s)
  pending : PendingIs found s
  active : ∀ pending ∈ session.active, found.active = some pending ∧
    ∃ bytes, pending.directory.Lists (slotContent bytes) s

/-- The old checkpoint or the one of the attempt, and the old document or the one of the attempt. -/
def Attempt.Changes (attempt : Attempt) (session : Session) (r : Option AdmissionCheckpoint) (found : PendingDiscovery)
    (r' : Option AdmissionCheckpoint) (found' : PendingDiscovery) : Prop :=
  (r' = r ∨ ∃ c, attempt.checkpoint? = some c ∧ r' = some c) ∧
    (found' = found ∨ ∃ pending document, found.active = some pending ∧ attempt.document? session = some document ∧
      found' = { found with active := some { pending with document := document } })

namespace Sound

theorem checkpointIs (h : Sound session r found s) : CheckpointIs r s := by
  obtain ⟨current, hr, h, -⟩ := h.checkpoint
  exact ⟨current, hr, h⟩

theorem restart (h : Sound session r found s) : Sound .fresh r found s where
  checkpoint := by
    obtain ⟨current, hr, h, -⟩ := h.checkpoint
    exact ⟨current, hr, h, nofun⟩
  pending := h.pending
  active _ h := absurd h (Option.not_mem_none _)

theorem congr (h : Sound session r found s) (hcheckpoints : t .checkpoints = s .checkpoints)
    (hpending : t .syncPending = s .syncPending) : Sound session r found t where
  checkpoint := by
    obtain ⟨current, hr, hcurrent, hread⟩ := h.checkpoint
    exact ⟨current, hr, hcurrent.congr hcheckpoints, fun hr => (hread hr).congr hcheckpoints⟩
  pending := h.pending.congr hpending
  active pending hactive := by
    obtain ⟨hfound, bytes, hlists⟩ := h.active pending hactive
    refine ⟨hfound, bytes, hlists.congr ?_⟩
    rw [h.pending.place hfound]
    exact hpending

/-- The directory of the checkpoint moved on, and nothing else. -/
theorem replaced (h : Sound session r found s) {current : Option Bytes} (hr : Stands r' current)
    (ht : CheckpointResidual s current t)
    (hread : next.checkpointRead = true → Store.checkpointsDir.Lists (checkpointContent current) t)
    (hactive : ∀ pending ∈ next.active, pending ∈ session.active) : Sound next r' found t where
  checkpoint := ⟨current, hr, ht.rebase, hread⟩
  pending := h.pending.congr (ht.area_eq nofun)
  active pending hpending := by
    obtain ⟨hfound, bytes, hlists⟩ := h.active pending (hactive pending hpending)
    refine ⟨hfound, bytes, hlists.congr ?_⟩
    rw [h.pending.place hfound]
    exact ht.area_eq nofun

/-- The directory of the active operation moved on, and nothing else. -/
theorem advanced (h : Sound session r found s) (hfound : found.active = some pending) {bytes : Bytes}
    {phase : GitSyncPendingPhase} {stale : Option GitOid}
    (hdecode : decodeDocument bytes = .ok (pending.document.advance phase stale))
    (ht : SlotResidual pending.directory s bytes t)
    (hread : next.checkpointRead = true → session.checkpointRead = true)
    (hactive : ∀ q ∈ next.active, { pending with document := pending.document.advance phase stale } = q ∧
      pending.directory.Lists (slotContent bytes) t) :
    Sound next r
      { found with active := some { pending with document := pending.document.advance phase stale } } t where
  checkpoint := by
    obtain ⟨current, hr, hcurrent, hlists⟩ := h.checkpoint
    have harea := h.pending.area_eq hfound ht
    exact ⟨current, hr, hcurrent.congr harea, fun hnext => (hlists (hread hnext)).congr harea⟩
  pending := h.pending.advance hfound ht hdecode
  active q hq := by
    obtain ⟨rfl, hlists⟩ := hactive q hq
    exact ⟨rfl, bytes, hlists⟩

end Sound

/-- Every end of an attempt is sound, with what it may have changed. -/
def Attempt.Ends (attempt : Attempt) (session : Session) (r : Option AdmissionCheckpoint) (found : PendingDiscovery)
    (next : Session) (t : Disk) : Prop :=
  ∃ r' found', Sound next r' found' t ∧ attempt.Changes session r found r' found'

theorem ends_of_wp {crash : Disk → Prop}
    (h : (attempt.run session).wp crash (attempt.Ends session r found) (fun _ => crash) s) (hs : crash s)
    (hclosed : ∀ u v w, crash u → crash v → Disk.Tears u v w → crash w)
    (hcrash : ∀ t, crash t → attempt.Ends session r found .fresh t)
    (hstep : Attempt.Step (session, s) attempt (next, t)) : attempt.Ends session r found next t := by
  cases hstep with
  | finishes hresult => exact Program.post_of_wp h hresult
  | stops ht => exact hcrash t (Program.crashes_of_wp h hs hclosed ht)

section

variable {current : Option Bytes}

theorem Sound.ends_of_residual (h : Sound session r found s) (hr : Stands r current)
    (ht : CheckpointResidual s current t) : attempt.Ends session r found .fresh t :=
  ⟨r, found, h.replaced hr ht nofun fun _ h => absurd h (Option.not_mem_none _), .inl rfl, .inl rfl⟩

theorem Sound.ends_of_replacing (h : Sound session r found s) (hr : Stands r current) {c : AdmissionCheckpoint}
    (hc : attempt.checkpoint? = some c) (ht : Replacing s current c t) : attempt.Ends session r found .fresh t := by
  obtain ⟨r', current', hr', hstands, ht, -⟩ := ht.stands hr
  refine ⟨r', found, h.replaced hstands ht nofun fun _ h => absurd h (Option.not_mem_none _), ?_, .inl rfl⟩
  exact hr'.imp id fun h => ⟨c, hc, h⟩

theorem Sound.ends_of_replaced (h : Sound session r found s) {c : AdmissionCheckpoint} (hc : attempt.checkpoint? = some c)
    (ht : Replaced s c t) : attempt.Ends session r found session t := by
  obtain ⟨bytes, hencode, ht⟩ := ht
  have hstands : Stands (some c) (some bytes) := .some (decodeAdmissionCheckpoint_encode hencode)
  exact ⟨some c, found, h.replaced hstands (.of_becomes ht) (fun _ => ht.lists) (fun _ h => h), .inr ⟨c, hc, rfl⟩, .inl rfl⟩

theorem step_read (h : Sound session r found s) (hstep : Attempt.Step (session, s) .read (next, t)) :
    Attempt.read.Ends session r found next t := by
  obtain ⟨current, hr, hcurrent, -⟩ := h.checkpoint
  refine ends_of_wp ?_ hcurrent (tears_checkpointResidual hr) (fun t ht => h.ends_of_residual hr ht) hstep
  rw [Attempt.run, Program.wp_bind, Program.wp_mapError]
  refine Program.wp_mono (wp_readCheckpoint_stands hr hcurrent) (fun _ h => h) ?_ (fun _ _ h => h.elim)
  rintro _ v ⟨rfl, hv⟩
  exact Program.wp_pure.mpr
    ⟨_, found, h.replaced hr (.of_becomes hv) (fun _ => hv.lists) (fun _ h => h), .inl rfl, .inl rfl⟩

/-- A replacement that starts from a directory without temporary files. -/
theorem step_replace {ε : Type} {p : Program Disk ε Unit} {c : AdmissionCheckpoint} (h : Sound session r found s)
    (hc : attempt.checkpoint? = some c)
    (hrun : attempt.run session = do
      if !session.checkpointRead then throw ()
      p.mapError fun _ => ()
      return session)
    (hp : ∀ current, Stands r current → Store.checkpointsDir.Lists (checkpointContent current) s →
      p.wp (Replacing s current c) (fun _ => Replaced s c)
        (fun _ => Store.checkpointsDir.Becomes s (checkpointContent current)) s)
    (hstep : Attempt.Step (session, s) attempt (next, t)) : attempt.Ends session r found next t := by
  obtain ⟨current, hr, hcurrent, hread⟩ := h.checkpoint
  refine ends_of_wp ?_ (.inl hcurrent) (fun _ _ _ => Replacing.tears hr) (fun t ht => h.ends_of_replacing hr hc ht) hstep
  rw [hrun]
  refine Program.wp_guard.mpr ⟨fun _ => .inl hcurrent, fun hguard => ?_⟩
  have hlists := hread (by simpa using hguard)
  rw [Program.wp_bind, Program.wp_mapError]
  refine Program.wp_mono (hp current hr hlists) (fun _ h => h) ?_ (fun _ _ h => .inl (.of_becomes h))
  intro _ v hv
  exact Program.wp_pure.mpr (h.ends_of_replaced hc hv)

end

section

variable {bytes : Bytes}

theorem Sound.ends_of_slot (h : Sound session r found s) (hfound : found.active = some pending)
    (hdecode : decodeDocument bytes = .ok pending.document) (ht : SlotResidual pending.directory s bytes t)
    (hread : next.checkpointRead = true → session.checkpointRead = true)
    (hactive : ∀ q ∈ next.active, pending = q ∧ pending.directory.Lists (slotContent bytes) t) :
    attempt.Ends session r found next t := by
  have hsame : { found with active := some { pending with
      document := pending.document.advance pending.document.phase pending.document.staleRemoteOid } } = found := by
    rw [PendingDiscovery.mk.injEq]
    exact ⟨hfound.symm, rfl, rfl⟩
  have hown : decodeDocument bytes =
      .ok (pending.document.advance pending.document.phase pending.document.staleRemoteOid) := hdecode
  have hsound := h.advanced hfound hown ht hread hactive
  rw [hsame] at hsound
  exact ⟨r, found, hsound, .inl rfl, .inl rfl⟩

theorem step_validate (h : Sound session r found s) (hstep : Attempt.Step (session, s) .validate (next, t)) :
    Attempt.validate.Ends session r found next t := by
  cases hfound : found.active with
  | none =>
    obtain ⟨current, hr, hcurrent, -⟩ := h.checkpoint
    refine ends_of_wp ?_ hcurrent (tears_checkpointResidual hr) (fun t ht => h.ends_of_residual hr ht) hstep
    rw [Attempt.run, Program.wp_bind, (readOnly_discover.mapError _).wp, Program.result_mapError, h.pending.discovered,
      mapError_ok]
    dsimp only
    rw [hfound]
    exact Program.wp_throw.mpr hcurrent
  | some pending =>
    obtain ⟨bytes, hdecode, hslot⟩ := h.pending.decodes hfound
    refine ends_of_wp ?_ hslot (fun u v w hu hv => hu.tears hv (proper_slotContent hdecode) (proper_slotContent hdecode))
      (fun t ht => h.ends_of_slot hfound hdecode ht nofun fun _ h => absurd h (Option.not_mem_none _)) hstep
    rw [Attempt.run, Program.wp_bind, (readOnly_discover.mapError _).wp, Program.result_mapError, h.pending.discovered,
      mapError_ok]
    dsimp only
    rw [hfound]
    dsimp only
    rw [Program.wp_bind, Program.wp_mapError]
    refine Program.wp_mono (wp_validateClosedLayout hslot) (fun _ h => h) ?_ (fun _ _ h => h.elim)
    intro _ v hv
    refine Program.wp_pure.mpr (h.ends_of_slot hfound hdecode (.of_becomes hv) (fun h => h) ?_)
    rintro _ ⟨⟩
    exact ⟨rfl, hv.lists⟩

theorem step_advance {phase : GitSyncPendingPhase} {stale : Option GitOid} {temporary : Uuid7}
    (h : Sound session r found s) (hstep : Attempt.Step (session, s) (.advance phase stale temporary) (next, t)) :
    (Attempt.advance phase stale temporary).Ends session r found next t := by
  cases hactive : session.active with
  | none =>
    obtain ⟨current, hr, hcurrent, -⟩ := h.checkpoint
    refine ends_of_wp ?_ hcurrent (tears_checkpointResidual hr) (fun t ht => h.ends_of_residual hr ht) hstep
    rw [Attempt.run, hactive]
    exact Program.wp_throw.mpr hcurrent
  | some pending =>
    obtain ⟨hfound, bytes, hlists⟩ := h.active pending hactive
    obtain ⟨_, hdecode, hslot⟩ := h.pending.decodes hfound
    cases (child_of_slotResidual hslot).symm.trans ((hlists _ _).mpr (mem_slotContent _))
    have hdocument : (Attempt.advance phase stale temporary).document? session =
        some (pending.document.advance phase stale) := by
      rw [Attempt.document?, hactive]
      rfl
    have hs : Advancing pending.directory s bytes (pending.document.advance phase stale) s := .inl hslot
    refine ends_of_wp ?_ hs (fun _ _ _ => Advancing.tears hdecode) (fun t ht => ?_) hstep
    · rw [Attempt.run, hactive]
      dsimp only
      rw [Program.wp_bind, Program.wp_mapError]
      refine Program.wp_mono (wp_replaceDocument hlists.becomes (h.pending.isDir hfound)) (fun _ h => h) ?_
        (fun _ _ h => .inl (.of_becomes h))
      rintro _ v ⟨rfl, written, hencode, hv⟩
      refine Program.wp_pure.mpr ⟨r, _, h.advanced hfound (decodeDocument_encodeDocument hencode) (.of_becomes hv)
        (fun h => h) ?_, .inl rfl, .inr ⟨pending, _, hfound, hdocument, rfl⟩⟩
      rintro _ ⟨⟩
      exact ⟨rfl, hv.lists⟩
    · obtain ⟨document, written, rfl | rfl, hwritten, ht, -⟩ := ht.decodes hdecode
      · exact h.ends_of_slot hfound hwritten ht nofun fun _ h => absurd h (Option.not_mem_none _)
      · exact ⟨r, _, h.advanced hfound hwritten ht nofun fun _ h => absurd h (Option.not_mem_none _), .inl rfl,
          .inr ⟨pending, _, hfound, hdocument, rfl⟩⟩

theorem Sound.step (h : Sound session r found s) (hstep : Attempt.Step (session, s) attempt (next, t)) :
    attempt.Ends session r found next t := by
  cases attempt with
  | read => exact step_read h hstep
  | write checkpoint temporary =>
    exact step_replace h rfl rfl (fun current _ hlists => wp_writeCheckpoint hlists.becomes) hstep
  | replaceExpected expected candidate temporary =>
    exact step_replace h rfl rfl (fun current hr hlists => wp_replaceExpected hr hlists.becomes) hstep
  | validate => exact step_validate h hstep
  | advance phase stale temporary => exact step_advance h hstep

end

end Steps

/-- The store goes on: an attempt, or a change that leaves both directories alone. -/
inductive Moves [ReadDir] : Session × Disk → Session × Disk → Prop
  | attempt {attempt : Attempt} {x y : Session × Disk} (h : Attempt.Step x attempt y) : Moves x y
  | elsewhere {session : Session} {s t : Disk} (hcheckpoints : t .checkpoints = s .checkpoints)
    (hpending : t .syncPending = s .syncPending) : Moves (session, s) (session, t)

section Runs

variable [ReadDir] {s₀ s t : Disk} {session next : Session} {r₀ : Option AdmissionCheckpoint}
  {found₀ : PendingDiscovery} {attempt : Attempt}

theorem sound_of_run (hcheckpoint : CheckpointIs r₀ s₀) (hpending : PendingIs found₀ s₀) {x : Session × Disk}
    (hrun : Relation.ReflTransGen Moves (.fresh, s₀) x) : ∃ r found, Sound x.1 r found x.2 := by
  induction hrun with
  | refl =>
    obtain ⟨current, hr, hcurrent⟩ := hcheckpoint
    exact ⟨r₀, found₀, ⟨current, hr, hcurrent, nofun⟩, hpending, fun _ h => absurd h (Option.not_mem_none _)⟩
  | tail _ hmove ih =>
    obtain ⟨r, found, hsound⟩ := ih
    cases hmove with
    | attempt hstep =>
      obtain ⟨r', found', hsound, -⟩ := hsound.step hstep
      exact ⟨r', found', hsound⟩
    | elsewhere hcheckpoints hpending => exact ⟨r, found, hsound.congr hcheckpoints hpending⟩

/-- After every attempt of every run, cut off or not, the checkpoint and the document are the old ones or those of the
attempt, and each directory has at most one temporary file, which no reader minds. -/
theorem durable_replacement_old_or_new (hcheckpoint : CheckpointIs r₀ s₀) (hpending : PendingIs found₀ s₀)
    (hrun : Relation.ReflTransGen Moves (.fresh, s₀) (session, s))
    (hstep : Attempt.Step (session, s) attempt (next, t)) :
    (∃ r r', readCheckpoint.result s = .ok r ∧ readCheckpoint.result t = .ok r' ∧
        (r' = r ∨ ∃ c, attempt.checkpoint? = some c ∧ r' = some c)) ∧
      (∃ found found', discover.result s = .ok found ∧ discover.result t = .ok found' ∧
        (found' = found ∨ ∃ pending document, found.active = some pending ∧
          attempt.document? session = some document ∧
          found' = { found with active := some { pending with document := document } }) ∧
        ∀ pending ∈ found'.active, (validateClosedLayout pending).result t = .ok () ∧
          ((pending.directory.names t).filter (· ∉ slotNames)).length ≤ 1) ∧
      ((Store.checkpointsDir.names t).filter (· ≠ .admissionCheckpoint)).length ≤ 1 ∧
      ∀ (disk : Disk) (expected candidate : AdmissionCheckpoint) (temporary : Uuid7),
        (replaceExpected expected candidate temporary.uuid).result disk = .error .expectedOldMismatch →
          Store.checkpointsDir.child? .admissionCheckpoint
              ((replaceExpected expected candidate temporary.uuid).final disk) =
            Store.checkpointsDir.child? .admissionCheckpoint disk := by
  obtain ⟨r, found, hsound⟩ := sound_of_run hcheckpoint hpending hrun
  obtain ⟨r', found', hnext, hr, hfound⟩ := hsound.step hstep
  refine ⟨⟨r, r', hsound.checkpointIs.result, hnext.checkpointIs.result, hr⟩, ?_,
    hnext.checkpointIs.length_residue, ?_⟩
  · refine ⟨found, found', hsound.pending.discovered, hnext.pending.discovered, hfound, fun pending hactive => ?_⟩
    exact ⟨hnext.pending.validates hactive, hnext.pending.length_residue hactive⟩
  · intro disk expected candidate temporary herror
    exact keeps_of_expectedOldMismatch herror

end Runs

end Replacements

section

attribute [local instance] Sample.url Sample.readDir

namespace Sample

def temporary : Uuid7 where
  uuid := storeUuid.uuid
  version := by decide
  variant := by decide

def emptyDisk : Disk := fun _ => ∅

theorem checkpointIs_emptyDisk : CheckpointIs none emptyDisk := by
  refine ⟨none, .none, .of_becomes (Directory.Lists.becomes fun n e => ?_)⟩
  simp [checkpointContent, Directory.child?, emptyDisk]

theorem pendingIs_emptyDisk : PendingIs ⟨none, [], none⟩ emptyDisk where
  discovered := by
    have hwp : discover.wp (fun _ => True) (fun found _ => found = ⟨none, [], none⟩) (fun _ _ => False) emptyDisk :=
      (wp_discover_none rfl).mpr rfl
    obtain ⟨found, hfound, rfl⟩ := Program.ok_of_wp hwp
    exact hfound
  closed _ h := absurd h (Option.not_mem_none _)

theorem reads_emptyDisk : (Attempt.read.run .fresh).result emptyDisk = .ok ⟨true, none⟩ := by
  have hwp : (Attempt.read.run .fresh).wp (fun _ => True) (fun session _ => session = ⟨true, none⟩) (fun _ _ => False)
      emptyDisk := by
    obtain ⟨current, hr, h⟩ := checkpointIs_emptyDisk
    rw [Attempt.run, Program.wp_bind, Program.wp_mapError]
    refine Program.wp_mono (wp_readCheckpoint_stands hr h) (fun _ _ => trivial) ?_ (fun _ _ h => h)
    exact fun _ _ _ => Program.wp_pure.mpr rfl
  obtain ⟨session, hsession, rfl⟩ := Program.ok_of_wp hwp
  exact hsession

end Sample

/-- A first checkpoint whose file was created and not yet written: the next read finds none, or it. -/
theorem first_checkpoint_cut_off :
    ∃ r', readCheckpoint.result (((Attempt.write Sample.checkpoint Sample.temporary).run ⟨true, none⟩).cut
        ((Attempt.read.run .fresh).final Sample.emptyDisk) 1) = .ok r' ∧
      (r' = none ∨ r' = some Sample.checkpoint) := by
  have hfirst : Attempt.Step (.fresh, Sample.emptyDisk) .read (⟨true, none⟩, _) := .finishes Sample.reads_emptyDisk
  have hstep : Attempt.Step (⟨true, none⟩, (Attempt.read.run .fresh).final Sample.emptyDisk)
      (.write Sample.checkpoint Sample.temporary) (.fresh, _) := .stops ⟨1, .inl rfl⟩
  obtain ⟨⟨r, r', hr, hr', hchange⟩, -⟩ := durable_replacement_old_or_new Sample.checkpointIs_emptyDisk
    Sample.pendingIs_emptyDisk (.single (.attempt hfirst)) hstep
  obtain ⟨⟨r₀, r₁, hr₀, hr₁, hsame⟩, -⟩ := durable_replacement_old_or_new Sample.checkpointIs_emptyDisk
    Sample.pendingIs_emptyDisk .refl hfirst
  refine ⟨r', hr', ?_⟩
  rw [Sample.checkpointIs_emptyDisk.result] at hr₀
  obtain rfl := Except.ok.inj hr₀
  obtain rfl := Except.ok.inj (hr₁.symm.trans hr)
  obtain rfl | ⟨c, hc, rfl⟩ := hchange
  · exact .inl (hsame.elim id fun ⟨_, hc, _⟩ => nomatch hc)
  · exact .inr (congrArg _ (Option.some.inj hc).symm)

end

end Wayjournal
