import Wayjournal.Federation.DiscoverLaws
import Wayjournal.Federation.RepositoryFrame
import Wayjournal.Federation.Sync
import Wayjournal.Federation.WireLaws

namespace Wayjournal

open Collections Crash Fs FileSystem Relation Text

/-- What the protocol publishes: the files, the checkpoint and the documents of the operations. -/
def IsSurface : Area → List Name → Prop
  | .canonical, _ => True
  | .checkpoints, p => p = [.admissionCheckpoint]
  | .syncPending, p => ∃ raw, p = [raw, .pendingJson]
  | _, _ => False

def IsSlotRoot (area : Area) (p : List Name) : Prop := area = .syncPending ∧ ∃ raw, p = [raw]

def checkpointEntry (disk : Disk) : Option Entry := Store.checkpointsDir.child? .admissionCheckpoint disk

def documentEntry (raw : Name) (disk : Disk) : Option Entry := (Store.syncPendingDir.child raw).child? .pendingJson disk

/-- Some of the entries stay as they are. -/
def preserving (K : Area → List Name → Prop) : Guarantee Disk where
  rel s t := ∀ area p, K area p → (t area).get? p = (s area).get? p
  refl _ _ _ _ := rfl
  trans h h' area p hp := (h' area p hp).trans (h area p hp)

/-- Nothing that is published changes, and no slot comes or goes. -/
def apart : Guarantee Disk := preserving fun area p => IsSurface area p ∨ IsSlotRoot area p

/-- Nothing that is published changes, but some slots may go. -/
def retiring (gone : Name → Prop) : Guarantee Disk where
  rel s t := ∀ area p, IsSurface area p ∨ IsSlotRoot area p → (t area).get? p = (s area).get? p ∨
    (area = .syncPending ∧ (t area).get? p = none ∧ ∃ raw, gone raw ∧ [raw] <+: p)
  refl _ _ _ _ := .inl rfl
  trans h h' area p hp := by
    obtain heq | hgone := h' area p hp
    · rw [heq]
      exact h area p hp
    · exact .inr hgone

section

variable {s t : Disk} {gone : Name → Prop}

theorem canonical_of_preserving (h : (preserving IsSurface).rel s t) : t .canonical = s .canonical :=
  ext_get? fun p => h .canonical p trivial

theorem checkpointEntry_of_preserving (h : (preserving IsSurface).rel s t) : checkpointEntry t = checkpointEntry s :=
  h .checkpoints _ rfl

theorem documentEntry_of_preserving (h : (preserving IsSurface).rel s t) (raw : Name) :
    documentEntry raw t = documentEntry raw s :=
  h .syncPending _ ⟨raw, rfl⟩

theorem surface_of_apart (h : apart.rel s t) : (preserving IsSurface).rel s t := fun area p hp => h area p (.inl hp)

theorem canonical_of_retiring (h : (retiring gone).rel s t) : t .canonical = s .canonical :=
  ext_get? fun p => (h .canonical p (.inl trivial)).resolve_right fun hgone => by cases hgone.1

theorem checkpointEntry_of_retiring (h : (retiring gone).rel s t) : checkpointEntry t = checkpointEntry s :=
  (h .checkpoints _ (.inl rfl)).resolve_right fun hgone => by cases hgone.1

theorem documentEntry_of_retiring (h : (retiring gone).rel s t) (raw : Name) :
    documentEntry raw t = documentEntry raw s ∨ (gone raw ∧ documentEntry raw t = none) := by
  obtain heq | ⟨-, hnone, other, hother, hbelow⟩ := h .syncPending _ (.inl ⟨raw, rfl⟩)
  · exact .inl heq
  · obtain rfl : other = raw := (List.cons_prefix_cons.mp hbelow).1
    exact .inr ⟨hother, hnone⟩

theorem slotRoot_of_retiring (h : (retiring gone).rel s t) (raw : Name) :
    (t .syncPending).get? [raw] = (s .syncPending).get? [raw] ∨ (t .syncPending).get? [raw] = none :=
  (h .syncPending _ (.inr ⟨rfl, raw, rfl⟩)).imp_right fun hgone => hgone.2.1

end

namespace Directory

variable {d : Directory} {name : Name} {operation : String} {f : FileSystem Name → Except Errno (FileSystem Name)}
  {K : Area → List Name → Prop}

theorem keeps_preserving_change (h : ∀ fs gs, f fs = .ok gs → ∃ e, fs.Sets (d.path ++ [name]) e gs)
    (hname : ¬K d.area (d.path ++ [name])) : (d.change operation name f).Keeps (preserving K) := by
  refine .update fun s t ht area p hp => ?_
  split at ht
  · cases ht
  · rename_i fs hfs
    cases ht
    by_cases harea : area = d.area
    · subst harea
      obtain ⟨e, hsets⟩ := h _ _ hfs
      rw [Disk.set_same]
      exact hsets.elsewhere p fun heq => hname (heq ▸ hp)
    · rw [Disk.set_of_ne _ harea]

theorem keeps_retiring_change {gone : Name → Prop} {raw : Name}
    (h : ∀ fs gs, f fs = .ok gs → fs.Sets (d.path ++ [name]) none gs) (harea : d.area = .syncPending) (hraw : gone raw)
    (hbelow : [raw] <+: d.path ++ [name]) : (d.change operation name f).Keeps (retiring gone) := by
  refine .update fun s t ht area p hp => ?_
  split at ht
  · cases ht
  · rename_i fs hfs
    cases ht
    by_cases hsame : area = d.area
    · subst hsame
      rw [Disk.set_same]
      by_cases heq : p = d.path ++ [name]
      · subst heq
        exact .inr ⟨harea, (h _ _ hfs).here, raw, hraw, hbelow⟩
      · exact .inl ((h _ _ hfs).elsewhere p heq)
    · rw [Disk.set_of_ne _ hsame]
      exact .inl rfl

theorem free_preserving (h : ∀ p, d.path <+: p → ¬K d.area p) : d.Free (preserving K) := by
  intro s t hwithin area p hp
  by_cases harea : area = d.area
  · subst harea
    exact hwithin.2 p fun hbelow => h p hbelow hp
  · rw [hwithin.1 area harea]

/-- What stands in a slot beside the document. -/
theorem free_slot {raw : Name} (hd : d = Store.syncPendingDir.child raw) (hname : name ≠ .pendingJson) :
    (d.child name).Free apart := by
  subst hd
  refine free_preserving ?_
  rintro p hbelow (⟨other, rfl⟩ | ⟨-, other, rfl⟩)
  · obtain ⟨-, hbelow⟩ := List.cons_prefix_cons.mp hbelow
    exact hname (List.cons_prefix_cons.mp hbelow).1
  · obtain ⟨-, hbelow⟩ := List.cons_prefix_cons.mp hbelow
    cases List.prefix_nil.mp hbelow

end Directory

section Facts

variable {s t : Disk}

section

variable [Url]

/-- The checkpoint file holds this checkpoint. -/
def Disk.Accepts (disk : Disk) (checkpoint : AdmissionCheckpoint) : Prop :=
  ∃ bytes, checkpointEntry disk = some (.regular bytes) ∧ decodeAdmissionCheckpoint bytes = .ok checkpoint

/-- The slot holds this document. -/
def Disk.Documents (disk : Disk) (raw : Name) (document : PendingDocument) : Prop :=
  ∃ bytes, documentEntry raw disk = some (.regular bytes) ∧ decodeDocument bytes = .ok document

theorem accepts_congr {checkpoint : AdmissionCheckpoint} (h : checkpointEntry t = checkpointEntry s)
    (hs : s.Accepts checkpoint) : t.Accepts checkpoint := by
  obtain ⟨bytes, hentry, hdecode⟩ := hs
  exact ⟨bytes, h.trans hentry, hdecode⟩

theorem documents_congr {raw : Name} {document : PendingDocument} (h : documentEntry raw t = documentEntry raw s)
    (hs : s.Documents raw document) : t.Documents raw document := by
  obtain ⟨bytes, hentry, hdecode⟩ := hs
  exact ⟨bytes, h.trans hentry, hdecode⟩

end

section

variable [Jiff] [Blake3]

/-- The visible files are those of this revision. -/
def Disk.Shows (store : Store) (revision : StoreRevisionRef) (disk : Disk) : Prop :=
  ∃ visible, validateVisible store disk = .ok visible ∧ visible.revision = revision

/-- Every file of a valid store of this revision is there. -/
def Disk.Reached (store : Store) (revision : StoreRevisionRef) (disk : Disk) : Prop :=
  ∃ earlier : Disk, earlier.Shows store revision ∧ canonicalGrows.rel earlier disk

variable {store : Store} {revision : StoreRevisionRef}

theorem Disk.Shows.reached (h : s.Shows store revision) : s.Reached store revision := ⟨s, h, canonicalGrows.refl s⟩

theorem Disk.Reached.mono (h : s.Reached store revision) (hgrows : canonicalGrows.rel s t) : t.Reached store revision := by
  obtain ⟨earlier, hshows, hearlier⟩ := h
  exact ⟨earlier, hshows, canonicalGrows.trans hearlier hgrows⟩

theorem validateVisible_congr (h : t .canonical = s .canonical) : validateVisible store t = validateVisible store s := by
  have hentries : visibleEntries t = visibleEntries s := by
    unfold visibleEntries
    rw [h]
  unfold validateVisible visibleReplay
  rw [hentries]

theorem shows_congr (h : t .canonical = s .canonical) (hs : s.Shows store revision) : t.Shows store revision := by
  obtain ⟨visible, hvisible, hrevision⟩ := hs
  exact ⟨visible, (validateVisible_congr h).trans hvisible, hrevision⟩

end

end Facts

/-- The phases that may follow a phase. -/
def GitSyncPendingPhase.successors : GitSyncPendingPhase → List GitSyncPendingPhase
  | .prepared => [.filesPublished]
  | .filesPublished => [.localRefPublished]
  | .localRefPublished => [.checkpointPublished]
  | .checkpointPublished => [.remoteCasStale, .remoteCasConfirmed]
  | .remoteCasStale => []
  | .remoteCasConfirmed => []

/-- The phases in which the checkpoint has been replaced. -/
def GitSyncPendingPhase.isAccepted : GitSyncPendingPhase → Bool
  | .prepared | .filesPublished | .localRefPublished => false
  | .checkpointPublished | .remoteCasStale | .remoteCasConfirmed => true

section Moves

variable [Url]

/-- What may happen to the checkpoint file: an operation takes it from the checkpoint it expects to its candidate. -/
inductive CheckpointMove : Option Entry → Option Entry → Prop
  | replace {document : PendingDocument} {expected candidate : Bytes}
      (hexpected : decodeAdmissionCheckpoint expected = .ok document.expectedCheckpoint)
      (hcandidate : decodeAdmissionCheckpoint candidate = .ok document.candidateCheckpoint) :
      CheckpointMove (some (.regular expected)) (some (.regular candidate))

/-- What may happen to the document of a slot. -/
inductive DocumentMove : Option Entry → Option Entry → Prop
  | create : DocumentMove none (some (.regular []))
  | publish {document : PendingDocument} {bytes : Bytes} (h : decodeDocument bytes = .ok document)
      (hphase : document.phase = .prepared) : DocumentMove (some (.regular [])) (some (.regular bytes))
  | advance {document : PendingDocument} {bytes next : Bytes} {phase : GitSyncPendingPhase} {stale : Option GitOid}
      (h : decodeDocument bytes = .ok document) (hnext : decodeDocument next = .ok (document.advance phase stale))
      (hphase : phase ∈ document.phase.successors) : DocumentMove (some (.regular bytes)) (some (.regular next))
  | retire (entry : Option Entry) : DocumentMove entry none

variable [Jiff] [Blake3] (store : Store)

/-- A document beyond its first phase only stands where its candidate is published as far as it says. -/
def SoundDocument (entry : Option Entry) (disk : Disk) : Prop :=
  ∀ bytes document, entry = some (.regular bytes) → decodeDocument bytes = .ok document → document.phase ≠ .prepared →
    disk.Reached store document.candidateRevision ∧
      (document.phase.isAccepted → ∃ accepted, decodeAdmissionCheckpoint accepted = .ok document.candidateCheckpoint ∧
        ReflTransGen CheckpointMove (some (.regular accepted)) (checkpointEntry disk))

/-- What the protocol promises of one state and a later one. -/
structure Follows (s t : Disk) : Prop where
  files : canonicalGrows.rel s t
  checkpoint : ReflTransGen CheckpointMove (checkpointEntry s) (checkpointEntry t)
  anchored : checkpointEntry t = checkpointEntry s ∨
    ∃ checkpoint, t.Accepts checkpoint ∧ t.Reached store checkpoint.acceptedRevision
  documents : ∀ raw, ReflTransGen DocumentMove (documentEntry raw s) (documentEntry raw t)
  sound : ∀ raw, documentEntry raw t = documentEntry raw s ∨ SoundDocument store (documentEntry raw t) t

end Moves

section Protocol

variable [Url] [Jiff] [Blake3] {store : Store} {s t u : Disk}

theorem SoundDocument.mono {entry : Option Entry} (h : SoundDocument store entry s) (hst : Follows store s t) :
    SoundDocument store entry t := by
  intro bytes document hentry hdocument hphase
  obtain ⟨hreached, haccepted⟩ := h bytes document hentry hdocument hphase
  refine ⟨hreached.mono hst.files, fun hlate => ?_⟩
  obtain ⟨accepted, hdecode, hmoves⟩ := haccepted hlate
  exact ⟨accepted, hdecode, hmoves.trans hst.checkpoint⟩

theorem Follows.refl (s : Disk) : Follows store s s :=
  ⟨canonicalGrows.refl s, .refl, .inl rfl, fun _ => .refl, fun _ => .inl rfl⟩

theorem Follows.trans (h : Follows store s t) (h' : Follows store t u) : Follows store s u where
  files := canonicalGrows.trans h.files h'.files
  checkpoint := h.checkpoint.trans h'.checkpoint
  anchored := by
    obtain heq | hanchored := h'.anchored
    · obtain heq' | ⟨checkpoint, ⟨bytes, hentry, hdecode⟩, hreached⟩ := h.anchored
      · exact .inl (heq.trans heq')
      · exact .inr ⟨checkpoint, ⟨bytes, heq.trans hentry, hdecode⟩, hreached.mono h'.files⟩
    · exact .inr hanchored
  documents raw := (h.documents raw).trans (h'.documents raw)
  sound raw := by
    obtain heq | hsound := h'.sound raw
    · obtain heq' | hsound := h.sound raw
      · exact .inl (heq.trans heq')
      · rw [heq]
        exact .inr (hsound.mono h')
    · exact .inr hsound

/-- The disk side of the protocol. -/
def published (store : Store) : Guarantee Disk := ⟨Follows store, .refl, .trans⟩

theorem follows_of_retiring {gone : Name → Prop} (h : (retiring gone).rel s t) : Follows store s t where
  files p e hp := by rwa [canonical_of_retiring h]
  checkpoint := by
    rw [checkpointEntry_of_retiring h]
  anchored := .inl (checkpointEntry_of_retiring h)
  documents raw := by
    obtain heq | ⟨-, hgone⟩ := documentEntry_of_retiring h raw
    · rw [heq]
    · rw [hgone]
      exact .single (.retire _)
  sound raw := by
    obtain heq | ⟨-, hgone⟩ := documentEntry_of_retiring h raw
    · exact .inl heq
    · rw [hgone]
      exact .inr fun bytes document hentry => by cases hentry

theorem follows_of_preserving (h : (preserving IsSurface).rel s t) : Follows store s t where
  files p e hp := by rwa [canonical_of_preserving h]
  checkpoint := by
    rw [checkpointEntry_of_preserving h]
  anchored := .inl (checkpointEntry_of_preserving h)
  documents raw := by
    rw [documentEntry_of_preserving h raw]
  sound raw := .inl (documentEntry_of_preserving h raw)

theorem follows_of_apart (h : apart.rel s t) : Follows store s t := follows_of_preserving (surface_of_apart h)

variable {γ : Type}

/-- A push is only started for an operation that is published everywhere else. -/
structure Ready (store : Store) (world : World γ) : Prop where
  intro ::
  document : ∃ raw document, world.disk.Documents raw document ∧ document.phase = .checkpointPublished ∧
    world.disk.Shows store document.candidateRevision ∧ world.disk.Accepts document.candidateCheckpoint ∧
    world.running = some ⟨.bare ((Store.syncPendingDir.child raw).child .repoGit),
      .push document.approvedRemote.locator.asStr document.approvedRemote.reference.asStr document.expectedRemoteTip⟩

theorem Ready.mono {w v : World γ} (h : Ready store w) (hrunning : v.running = w.running)
    (hapart : apart.rel w.disk v.disk) : Ready store v := by
  obtain ⟨raw, document, hdocument, hphase, hshows, haccepts, hcommand⟩ := h
  have hsame := surface_of_apart hapart
  exact ⟨raw, document, documents_congr (documentEntry_of_preserving hsame raw) hdocument, hphase,
    shows_congr (canonical_of_preserving hsame) hshows, accepts_congr (checkpointEntry_of_preserving hsame) haccepts,
    hrunning.trans hcommand⟩

/-- What the protocol promises of one state of the world and a later one. -/
def protocol (store : Store) : Guarantee (World γ) where
  rel s t := Follows store s.disk t.disk ∧
    (t.Pushing → (t.running = s.running ∧ apart.rel s.disk t.disk) ∨ Ready store t)
  refl s := ⟨.refl s.disk, fun _ => .inl ⟨rfl, apart.refl _⟩⟩
  trans h h' := by
    refine ⟨h.1.trans h'.1, fun hpush => ?_⟩
    obtain ⟨hrunning, hapart⟩ | hready := h'.2 hpush
    · obtain ⟨command, hcommand, hargs⟩ := hpush
      obtain ⟨hrunning', hapart'⟩ | hready := h.2 ⟨command, hrunning ▸ hcommand, hargs⟩
      · exact .inl ⟨hrunning.trans hrunning', apart.trans hapart' hapart⟩
      · exact .inr (hready.mono hrunning hapart)
    · exact .inr hready

theorem protocol_of_idle {w v : World γ} (h : (idle apart).rel w v) : (protocol store).rel w v :=
  ⟨follows_of_apart h.1, fun hpush => .inl ⟨h.2 hpush, h.1⟩⟩

end Protocol

end Wayjournal
