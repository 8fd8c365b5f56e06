import Wayjournal.Federation.WireLaws

namespace Wayjournal

open Crash Fs FileSystem Text

theorem LocalId.name_injective {k : LocalIdKind} : Function.Injective (LocalId.name : LocalId k → Name) := by
  intro a b h
  have hbytes := congrArg (fun n : Name => fromUtf8 n.bytes) h
  simp only [LocalId.name, uuidName, fromUtf8_asBytes, Option.some.injEq] at hbytes
  exact LocalId.display_injective hbytes

variable {s t : Disk}

theorem boundedNames_congr [ReadDir] {d : Directory} {limit : Nat} (h : ∀ n, d.child? n t = d.child? n s) :
    (d.boundedNames limit).result t = (d.boundedNames limit).result s := by
  have hperm : (d.names t).Perm (d.names s) := by
    refine (List.perm_ext_iff_of_nodup (nodup_names _ _) (nodup_names _ _)).mpr fun n => ?_
    exact Directory.mem_names.trans ((exists_congr fun e => by rw [h]).trans Directory.mem_names.symm)
  have hsorted : (d.names t).insertionSort (· ≤ ·) = (d.names s).insertionSort (· ≤ ·) :=
    (((List.perm_insertionSort _ _).trans hperm).trans (List.perm_insertionSort _ _).symm).eq_of_pairwise
      (fun a b _ _ => le_antisymm) (List.pairwise_insertionSort _ _) (List.pairwise_insertionSort _ _)
  rw [Directory.boundedNames, Program.result_reads, Program.result_reads, Directory.insertionSort_order,
    Directory.insertionSort_order, (ReadDir.perm _ _).length_eq, (ReadDir.perm _ _).length_eq, hperm.length_eq, hsorted]

variable [Url]

/-- What one name of the directory gives. -/
theorem discoverSlot_eq_ok {slots slots' : Slots} {rawName : Name} :
    (discoverSlot slots rawName).result s = .ok slots' ↔
      ∃ id : GitSyncOperationId, rawName = id.name ∧ Store.syncPendingDir.child? rawName s = some .directory ∧
        (((Store.syncPendingDir.child rawName).child? .pendingJson s = none ∧
            slots' = (slots.1, slots.2 ++ [(id, Store.syncPendingDir.child rawName)])) ∨
          ∃ bytes document, (Store.syncPendingDir.child rawName).child? .pendingJson s = some (.regular bytes) ∧
            decodeDocument bytes = .ok document ∧ document.operationId = id ∧
              slots' = (slots.1 ++ [⟨id, Store.syncPendingDir.child rawName, document⟩], slots.2)) := by
  unfold discoverSlot
  constructor
  · intro h
    split at h
    · rename_i text htext
      obtain ⟨id, hid, h⟩ := (Program.result_bind_eq_ok (.ofExcept _)).mp h
      have hname : rawName = id.name := by
        apply Name.bytes_injective
        change rawName.bytes = asBytes id.display
        rw [LocalId.display_of_parse (mapError_eq_ok.mp hid), asBytes_of_fromUtf8 htext]
      obtain ⟨kind, hkind, h⟩ := (Program.result_bind_eq_ok (readOnly_liftPending Directory.readOnly_kind)).mp h
      split at h
      · cases h
      · rename_i hdirectory
        obtain rfl := not_not.mp hdirectory
        obtain ⟨directory, hopen, h⟩ := (Program.result_bind_eq_ok (readOnly_liftPending Directory.readOnly_openDir)).mp h
        obtain rfl := Directory.child_of_openDir (mapError_eq_ok.mp hopen)
        have hentry : Store.syncPendingDir.child? rawName s = some .directory := by
          have hopen : (Store.syncPendingDir.openDir rawName).result s = .ok (Store.syncPendingDir.child rawName) :=
            mapError_eq_ok.mp hopen
          rw [Directory.openDir, Program.result_reads] at hopen
          split at hopen
          · cases hopen
          · assumption
          · cases hopen
        refine ⟨id, hname, hentry, ?_⟩
        obtain ⟨file, hfile, h⟩ := (Program.result_bind_eq_ok (readOnly_openDocument _)).mp h
        have hentry := openDocument_eq_ok.mp hfile
        split at h
        · rename_i bytes
          split at h
          · cases h
          · obtain ⟨document, hdocument, h⟩ := (Program.result_bind_eq_ok (.ofExcept _)).mp h
            split at h
            · cases h
            · rename_i hid
              cases h
              exact .inr ⟨bytes, document, hentry, hdocument, not_not.mp hid, rfl⟩
        · rename_i hnone
          cases file with
          | some bytes => exact absurd rfl (hnone bytes)
          | none =>
            cases h
            exact .inl ⟨hentry, rfl⟩
    · cases h
  · rintro ⟨id, rfl, hentry, hslot⟩
    have htext : fromUtf8 id.name.bytes = some id.display := fromUtf8_asBytes _
    have hkind : ¬ FileType.ofEntry .directory ≠ .directory := not_not.mpr rfl
    have hopen : (Store.syncPendingDir.kind id.name).result s = .ok (.ofEntry .directory) := by
      rw [Directory.kind, Program.result_reads, hentry]
    have hdirectory : (Store.syncPendingDir.openDir id.name).result s = .ok (Store.syncPendingDir.child id.name) := by
      rw [Directory.openDir, Program.result_reads, hentry]
    simp only [htext]
    refine (Program.result_bind_eq_ok (.ofExcept _)).mpr ⟨id, mapError_eq_ok.mpr (LocalId.parse_display id), ?_⟩
    refine (Program.result_bind_eq_ok (readOnly_liftPending Directory.readOnly_kind)).mpr
      ⟨_, mapError_eq_ok.mpr hopen, ?_⟩
    rw [if_neg hkind]
    refine (Program.result_bind_eq_ok (readOnly_liftPending Directory.readOnly_openDir)).mpr
      ⟨_, mapError_eq_ok.mpr hdirectory, ?_⟩
    obtain ⟨hnone, rfl⟩ | ⟨bytes, document, hbytes, hdecode, hid, rfl⟩ := hslot
    · exact (Program.result_bind_eq_ok (readOnly_openDocument _)).mpr ⟨none, openDocument_eq_ok.mpr hnone, rfl⟩
    · refine (Program.result_bind_eq_ok (readOnly_openDocument _)).mpr ⟨some bytes, openDocument_eq_ok.mpr hbytes, ?_⟩
      dsimp only
      rw [if_neg (not_lt.mpr (decodeDocument_eq_ok.mp hdecode).1)]
      refine (Program.result_bind_eq_ok (.ofExcept _)).mpr ⟨document, hdecode, ?_⟩
      rw [if_neg (not_not.mpr hid)]
      rfl

/-- Between `s` and `t` the document of one operation became `next`. -/
structure Redocumented (id : GitSyncOperationId) (next : Bytes) (s t : Disk) : Prop where
  root : ∀ n, Store.syncPendingDir.child? n t = Store.syncPendingDir.child? n s
  other : ∀ n, n ≠ id.name →
    (Store.syncPendingDir.child n).child? .pendingJson t = (Store.syncPendingDir.child n).child? .pendingJson s
  before : (Store.syncPendingDir.child id.name).child? .pendingJson s ≠ none
  after : (Store.syncPendingDir.child id.name).child? .pendingJson t = some (.regular next)

/-- The slot with another document if it is the one of the operation. -/
def DurablePending.redocument (id : GitSyncOperationId) (document : PendingDocument) (slot : DurablePending) :
    DurablePending :=
  if slot.name = id then { slot with document := document } else slot

@[simp] theorem DurablePending.name_redocument {id : GitSyncOperationId} {document : PendingDocument}
    {slot : DurablePending} : (slot.redocument id document).name = slot.name := by
  unfold redocument
  split <;> rfl

section

variable {id : GitSyncOperationId} {next : Bytes} {document : PendingDocument}

theorem discoverSlot_redocument (h : Redocumented id next s t) (hnext : decodeDocument next = .ok document)
    (hid : document.operationId = id) {slots slots' : Slots} {rawName : Name}
    (hslot : (discoverSlot slots rawName).result s = .ok slots') :
    (discoverSlot (slots.1.map (.redocument id document), slots.2) rawName).result t =
      .ok (slots'.1.map (.redocument id document), slots'.2) := by
  obtain ⟨other, rfl, hentry, hslot⟩ := discoverSlot_eq_ok.mp hslot
  refine discoverSlot_eq_ok.mpr ⟨other, rfl, (h.root _).trans hentry, ?_⟩
  by_cases hother : other = id
  · subst hother
    obtain ⟨hnone, -⟩ | ⟨_, old, -, -, -, rfl⟩ := hslot
    · exact absurd hnone h.before
    · exact .inr ⟨next, document, h.after, hnext, hid, by simp [DurablePending.redocument]⟩
  · have hsame := h.other other.name fun heq => hother (LocalId.name_injective heq)
    obtain ⟨hnone, rfl⟩ | ⟨bytes, old, hbytes, hdecode, hold, rfl⟩ := hslot
    · exact .inl ⟨hsame.trans hnone, rfl⟩
    · exact .inr ⟨bytes, old, hsame.trans hbytes, hdecode, hold, by simp [DurablePending.redocument, hother]⟩

theorem nodup_of_foldlM {names : List Name} {slots slots' : Slots}
    (hnodup : (slots.1.map (fun slot => slot.name.name) ++ names).Nodup)
    (h : names.foldlM (fun slots n => (discoverSlot slots n).result s) slots = .ok slots') :
    (slots'.1.map (fun slot => slot.name.name)).Nodup := by
  induction names generalizing slots with
  | nil =>
    cases h
    rwa [List.append_nil] at hnodup
  | cons n names ih =>
    rw [List.foldlM_cons, except_bind_eq_ok] at h
    obtain ⟨mid, hmid, h⟩ := h
    refine ih ?_ h
    obtain ⟨other, rfl, -, ⟨-, rfl⟩ | ⟨_, _, -, -, -, rfl⟩⟩ := discoverSlot_eq_ok.mp hmid
    · exact hnodup.sublist ((List.Sublist.refl _).append (List.sublist_cons_self _ _))
    · rwa [List.map_append, List.append_assoc]

/-- The document of an operation one phase on. -/
def PendingDocument.advance (document : PendingDocument) (phase : GitSyncPendingPhase) (stale : Option GitOid) :
    PendingDocument :=
  { document with phase := phase, staleRemoteOid := stale }

theorem linkSlots_redocument {slots : List DurablePending} {active : DurablePending} {predecessor : Option DurablePending}
    {phase : GitSyncPendingPhase} {stale : Option GitOid}
    (hnodup : (slots.map (fun slot => slot.name.name)).Nodup)
    (h : linkSlots slots = .ok (some active, predecessor)) :
    linkSlots (slots.map (.redocument active.name (active.document.advance phase stale))) =
      .ok (some { active with document := active.document.advance phase stale }, predecessor) := by
  cases slots with
  | nil => cases h
  | cons left rest =>
    cases rest with
    | nil =>
      cases h
      simp [linkSlots, DurablePending.redocument]
    | cons right more =>
      cases more with
      | cons third more => cases h
      | nil =>
        have hne : left.name ≠ right.name := by
          intro heq
          rw [List.map_cons, List.map_cons, heq] at hnodup
          simp at hnodup
        have hbound : ∀ a b : PendingDocument, boundSuccession (a.advance phase stale) b = boundSuccession a b :=
          fun _ _ => rfl
        have hpredecessor : ∀ a : PendingDocument,
            (a.advance phase stale).predecessorOperationId = a.predecessorOperationId := fun _ => rfl
        rw [linkSlots] at h
        split at h
        · rename_i hlink
          unfold bindSuccession at h
          split at h
          · rename_i hsuccession
            cases h
            simp [linkSlots, DurablePending.redocument, hne.symm, hpredecessor, hlink, bindSuccession, hbound,
              hsuccession]
          · cases h
        · rename_i hleft
          split at h
          · rename_i hlink
            unfold bindSuccession at h
            split at h
            · rename_i hsuccession
              cases h
              simp [linkSlots, DurablePending.redocument, hne, hleft, hpredecessor, hlink, bindSuccession, hbound,
                hsuccession]
            · cases h
          · cases h

end

section

variable [ReadDir] {found : PendingDiscovery}

theorem discover_eq_ok :
    discover.result s = .ok found ↔ ∃ names slots linked, (Store.syncPendingDir.boundedNames 2).result s = .ok names ∧
      names.foldlM (fun slots n => (discoverSlot slots n).result s) ([], []) = .ok slots ∧
      ¬ (slots.1.length > 2 || slots.1.length + slots.2.length > 2) = true ∧ linkSlots slots.1 = .ok linked ∧
      found = ⟨linked.1, slots.2, linked.2⟩ := by
  unfold discover
  constructor
  · intro h
    obtain ⟨names, hnames, h⟩ := (Program.result_bind_eq_ok (readOnly_liftPending Directory.readOnly_boundedNames)).mp h
    obtain ⟨slots, hslots, h⟩ := (Program.result_bind_eq_ok (.foldlM readOnly_discoverSlot _ _)).mp h
    rw [Program.result_foldlM readOnly_discoverSlot] at hslots
    dsimp only at h
    split at h
    · cases h
    · rename_i hcount
      obtain ⟨linked, hlinked, h⟩ := (Program.result_bind_eq_ok (.ofExcept _)).mp h
      cases h
      exact ⟨names, slots, linked, mapError_eq_ok.mp hnames, hslots, hcount, hlinked, rfl⟩
  · rintro ⟨names, slots, linked, hnames, hslots, hcount, hlinked, rfl⟩
    refine (Program.result_bind_eq_ok (readOnly_liftPending Directory.readOnly_boundedNames)).mpr
      ⟨names, mapError_eq_ok.mpr hnames, ?_⟩
    refine (Program.result_bind_eq_ok (.foldlM readOnly_discoverSlot _ _)).mpr
      ⟨slots, (Program.result_foldlM readOnly_discoverSlot _ _).trans hslots, ?_⟩
    dsimp only
    rw [if_neg hcount]
    exact (Program.result_bind_eq_ok (.ofExcept _)).mpr ⟨linked, hlinked, rfl⟩

/-- What is found rests on the names of the directory and the documents in it. -/
theorem discover_congr (hroot : ∀ n, Store.syncPendingDir.child? n t = Store.syncPendingDir.child? n s)
    (hdocument : ∀ n,
      (Store.syncPendingDir.child n).child? .pendingJson t = (Store.syncPendingDir.child n).child? .pendingJson s)
    (h : discover.result s = .ok found) : discover.result t = .ok found := by
  obtain ⟨names, slots, linked, hnames, hslots, hrest⟩ := discover_eq_ok.mp h
  refine discover_eq_ok.mpr ⟨names, slots, linked, (boundedNames_congr hroot).trans hnames, ?_, hrest⟩
  refine foldlM_simulates id (fun slots n slots' hslot => ?_) hslots
  obtain ⟨id, rfl, hentry, hslot⟩ := discoverSlot_eq_ok.mp hslot
  refine discoverSlot_eq_ok.mpr ⟨id, rfl, (hroot _).trans hentry, ?_⟩
  rw [hdocument]
  exact hslot

/-- The active operation, in its own directory. -/
theorem active_of_discover {active : DurablePending} (h : discover.result s = .ok found) (hactive : found.active = some active) :
    active.directory = Store.syncPendingDir.child active.name.name ∧
      Store.syncPendingDir.child? active.name.name s = some .directory := by
  obtain ⟨names, slots, linked, -, hslots, -, hlinked, rfl⟩ := discover_eq_ok.mp h
  have hplaced : ∀ slot ∈ slots.1, slot.directory = Store.syncPendingDir.child slot.name.name ∧
      Store.syncPendingDir.child? slot.name.name s = some .directory := by
    refine foldlM_invariant (fun _ (slots : Slots) => ∀ slot ∈ slots.1,
      slot.directory = Store.syncPendingDir.child slot.name.name ∧
        Store.syncPendingDir.child? slot.name.name s = some .directory) ?_ (fun _ h => absurd h List.not_mem_nil) hslots
    intro before n rest after hbefore hslot
    obtain ⟨id, rfl, hentry, ⟨-, rfl⟩ | ⟨_, _, -, -, -, rfl⟩⟩ := discoverSlot_eq_ok.mp hslot
    · exact hbefore
    · intro slot hmem
      obtain hmem | hmem := List.mem_append.mp hmem
      · exact hbefore slot hmem
      · obtain rfl := List.mem_singleton.mp hmem
        exact ⟨rfl, hentry⟩
  exact hplaced active ((mem_of_linkSlots hlinked).1 active hactive)

/-- The next look finds the operation one phase on, and everything else as before. -/
theorem discover_redocument {active : DurablePending} {phase : GitSyncPendingPhase}
    {stale : Option GitOid} {next : Bytes} (hfound : discover.result s = .ok found) (hactive : found.active = some active)
    (h : Redocumented active.name next s t) (hnext : decodeDocument next = .ok (active.document.advance phase stale)) :
    discover.result t =
      .ok { found with active := some { active with document := active.document.advance phase stale } } := by
  have hid : (active.document.advance phase stale).operationId = active.name :=
    ((discover_spec hfound).1 active hactive).operationId
  obtain ⟨names, slots, linked, hnames, hslots, hcount, hlinked, rfl⟩ := discover_eq_ok.mp hfound
  have hnodup : names.Nodup := by
    have hperm := hnames
    rw [Directory.boundedNames, Program.result_reads] at hperm
    split at hperm
    · cases hperm
    · cases hperm
      exact (List.perm_insertionSort _ _).nodup_iff.mpr ((ReadDir.perm _ _).nodup_iff.mpr (nodup_names _ _))
  have hslotNames := nodup_of_foldlM (by simpa using hnodup) hslots
  rw [show linked = (some active, linked.2) from Prod.ext hactive rfl] at hlinked
  have hnew := foldlM_simulates (g := fun slots n => (discoverSlot slots n).result t)
    (fun slots : Slots => (slots.1.map (DurablePending.redocument active.name (active.document.advance phase stale)), slots.2))
    (fun _ _ _ hslot => discoverSlot_redocument h hnext hid hslot) hslots
  refine discover_eq_ok.mpr ⟨names, _, _, (boundedNames_congr h.root).trans hnames, hnew, ?_,
    linkSlots_redocument hslotNames hlinked, rfl⟩
  rwa [List.length_map]

end

end Wayjournal
