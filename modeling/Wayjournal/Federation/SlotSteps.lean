import Wayjournal.Federation.ProtocolSteps

namespace Wayjournal

open Collections Crash Fs FileSystem Relation Text

/-- No other slots than these. -/
def SlotsWithin (names : List Name) (disk : Disk) : Prop := ∀ n, (disk .syncPending).get? [n] ≠ none → n ∈ names

section Removal

variable {s t : Disk} {gone : Name → Prop} {raw : Name} {d : Directory}

theorem keeps_retiring_removeEntry {descend : Directory → Nat → DiskM Nat} (harea : d.area = .syncPending)
    (hbelow : [raw] <+: d.path) (hraw : gone raw)
    (h : ∀ name budget, (descend (d.child name) budget).Keeps (retiring gone)) (budget : Nat) (name : Name) :
    (removeEntry descend d budget name).Keeps (retiring gone) := by
  have hkey : [raw] <+: d.path ++ [name] := hbelow.trans (List.prefix_append _ _)
  refine .guard (.bind (.readOnly Directory.readOnly_kind) fun kind => .ite ?_ ?_)
  · refine .bindOf (.readOnly Directory.readOnly_openDir) fun s child hchild => ?_
    obtain rfl := Directory.child_of_openDir hchild
    refine .bind (h name _) fun _ => .bind (.reads _) fun same => .guard (.bind ?_ fun _ => .pure _)
    exact Directory.keeps_retiring_change (fun _ _ => sets_of_rmdir) harea hraw hkey
  · exact .bind (Directory.keeps_retiring_change (fun _ _ => sets_of_unlink) harea hraw hkey) fun _ => .pure _

variable [ReadDir]

theorem keeps_retiring_removeContents (levels : Nat) (d : Directory) (harea : d.area = .syncPending)
    (hbelow : [raw] <+: d.path) (hraw : gone raw) (budget : Nat) :
    (removeContents levels d budget).Keeps (retiring gone) := by
  induction levels generalizing d budget with
  | zero => exact .throw _
  | succ levels ih =>
    have hdescend : ∀ name budget, (removeContents levels (d.child name) budget).Keeps (retiring gone) := fun name budget =>
      ih (d.child name) harea (hbelow.trans (List.prefix_append _ _)) budget
    have hbatches : ∀ rounds budget, (removeBatches (removeContents levels) d rounds budget).Keeps (retiring gone) := by
      intro rounds
      induction rounds with
      | zero => exact fun _ => .throw _
      | succ rounds ih =>
        refine fun budget => .guard (.bind (.reads _) fun names => .ite (.pure _) ?_)
        exact .bind (.foldlM (keeps_retiring_removeEntry harea hbelow hraw hdescend) _ _) fun budget => ih budget
    exact hbatches _ _

theorem keeps_retiring_removeSlot {id : GitSyncOperationId} (hd : d = Store.syncPendingDir.child id.name)
    (hgone : gone id.name) : (removeSlot id d).Keeps (retiring gone) := by
  subst hd
  refine .bind (keeps_retiring_removeContents _ _ rfl (List.prefix_refl _) hgone _) fun _ => .bind (.reads _) fun same => ?_
  refine .ite (.pure _) (.bind ?_ fun _ => .pure _)
  exact Directory.keeps_retiring_change (fun _ _ => sets_of_rmdir) rfl hgone (List.prefix_refl _)

/-- A slot that was removed is not there any more. -/
theorem slotRoot_of_removeSlot {id : GitSyncOperationId} (h : (removeSlot id d).result s = .ok true) :
    ((removeSlot id d).final s .syncPending).get? [id.name] = none := by
  have hwp : (removeSlot id d).wp (fun _ => True)
      (fun removed t => removed = true → Store.syncPendingDir.child? id.name t = none) (fun _ _ => True) s := by
    refine Program.wp_last fun _ _ => Program.wp_last fun same _ => ?_
    split
    · exact Program.wp_pure.mpr fun h => by cases h
    · refine Program.wp_bind.mpr (Program.wp_mono Directory.wp_unlinkDir_gone (fun _ _ => trivial) ?_ (fun _ _ _ => trivial))
      exact fun _ t ht => Program.wp_pure.mpr fun _ => ht
  exact Program.post_of_wp hwp h rfl

theorem keeps_retireOperation [Url] {pending : DurablePending}
    (hd : pending.directory = Store.syncPendingDir.child pending.name.name) (hgone : gone pending.name.name) :
    (retireOperation pending).Keeps (retiring gone) :=
  .bind ((keeps_retiring_removeSlot hd hgone).mapError _) fun _ => .ite (.throw _) (.pure _)

theorem slotRoot_of_retireOperation [Url] {pending : DurablePending} (h : (retireOperation pending).result s = .ok ()) :
    ((retireOperation pending).final s .syncPending).get? [pending.name.name] = none := by
  obtain ⟨removed, hremoved, hrest⟩ := Program.bind_eq_ok.mp h
  have hfinal : (retireOperation pending).final s = (removeSlot pending.name pending.directory).final s := by
    refine (Program.final_bind hremoved).trans ?_
    cases removed with
    | false => rfl
    | true => rfl
  cases removed with
  | false => cases hrest
  | true =>
    rw [hfinal]
    exact slotRoot_of_removeSlot (mapError_eq_ok.mp hremoved)

end Removal

section Slots

variable {s t : Disk} {names : List Name}

theorem SlotsWithin.congr (h : SlotsWithin names s)
    (hroot : ∀ n, (t .syncPending).get? [n] = (s .syncPending).get? [n] ∨ (t .syncPending).get? [n] = none) :
    SlotsWithin names t := by
  intro n hn
  obtain heq | hnone := hroot n
  · exact h n (heq ▸ hn)
  · exact absurd hnone hn

theorem SlotsWithin.of_apart (h : SlotsWithin names s) (hapart : apart.rel s t) : SlotsWithin names t :=
  h.congr fun n => .inl (hapart .syncPending [n] (.inr ⟨rfl, n, rfl⟩))

theorem SlotsWithin.removed {name : Name} (h : SlotsWithin (name :: names) s)
    (hgone : (s .syncPending).get? [name] = none) : SlotsWithin names s := by
  intro n hn
  obtain rfl | hmem := List.mem_cons.mp (h n hn)
  · exact absurd hgone hn
  · exact hmem

theorem syncPending_eq_empty (h : SlotsWithin [] s) : s .syncPending = ∅ :=
  eq_empty_of_root fun n => not_not.mp fun hn => absurd (h n hn) List.not_mem_nil

/-- A slot without a document is found without one. -/
theorem documentEntry_of_slotRoot {raw : Name} (h : (s .syncPending).get? [raw] = none) : documentEntry raw s = none := by
  change (s .syncPending).get? ([raw] ++ [.pendingJson]) = none
  rw [Option.eq_none_iff_forall_ne_some]
  intro e he
  have hdir := isDir_of_get? he
  unfold FileSystem.isDir at hdir
  rw [h] at hdir
  simp at hdir

end Slots

section Discovery

variable [Url] {s t : Disk}

/-- The slot of an operation with its document. -/
def HoldsSlot (pending : DurablePending) (disk : Disk) : Prop :=
  pending.directory = Store.syncPendingDir.child pending.name.name ∧
    disk.Documents pending.name.name pending.document

theorem HoldsSlot.congr {pending : DurablePending} (h : HoldsSlot pending s)
    (heq : documentEntry pending.name.name t = documentEntry pending.name.name s) : HoldsSlot pending t :=
  ⟨h.1, documents_congr heq h.2⟩

theorem HoldsSlot.of_apart {pending : DurablePending} (h : HoldsSlot pending s) (hapart : apart.rel s t) :
    HoldsSlot pending t :=
  h.congr (documentEntry_of_preserving (surface_of_apart hapart) _)

/-- Every durable slot is the active operation or its predecessor. -/
theorem linkSlots_covers {slots : List DurablePending} {active predecessor : Option DurablePending}
    (h : linkSlots slots = .ok (active, predecessor)) :
    ∀ slot ∈ slots, active = some slot ∨ predecessor = some slot := by
  have hbind : ∀ {a b : DurablePending}, bindSuccession a b = .ok (active, predecessor) →
      active = some a ∧ predecessor = some b := by
    intro a b h
    unfold bindSuccession at h
    split at h
    · cases h
      exact ⟨rfl, rfl⟩
    · cases h
  match slots, h with
  | [], _ => exact fun slot hslot => absurd hslot List.not_mem_nil
  | [only], h =>
    cases h
    exact fun slot hslot => .inl (congrArg some (List.mem_singleton.mp hslot).symm)
  | [left, right], h =>
    rw [linkSlots] at h
    split at h
    · obtain ⟨rfl, rfl⟩ := hbind h
      simp
    · split at h
      · obtain ⟨rfl, rfl⟩ := hbind h
        simp
      · cases h
  | _ :: _ :: _ :: _, h => cases h

variable [ReadDir] {found : PendingDiscovery}

def PendingDiscovery.names (found : PendingDiscovery) : List Name :=
  found.active.toList.map (fun slot => slot.name.name) ++
    found.predecessor.toList.map (fun slot => slot.name.name) ++ found.disposable.map fun slot => slot.1.name

/-- What is found is all there is, and every slot is where its name says. -/
theorem discover_slots (h : discover.result s = .ok found) :
    SlotsWithin found.names s ∧ (∀ slot ∈ found.active, HoldsSlot slot s) ∧ (∀ slot ∈ found.predecessor, HoldsSlot slot s) ∧
      ∀ slot ∈ found.disposable, slot.2 = Store.syncPendingDir.child slot.1.name ∧ documentEntry slot.1.name s = none := by
  obtain ⟨names, slots, linked, hnames, hslots, -, hlinked, rfl⟩ := discover_eq_ok.mp h
  have hplaced := foldlM_invariant (fun rest (slots : Slots) =>
    (∀ n ∈ names, n ∈ rest ∨ n ∈ slots.1.map (fun slot => slot.name.name) ∨ n ∈ slots.2.map fun slot => slot.1.name) ∧
      (∀ slot ∈ slots.1, HoldsSlot slot s) ∧ ∀ slot ∈ slots.2,
        slot.2 = Store.syncPendingDir.child slot.1.name ∧ documentEntry slot.1.name s = none)
    ?_ ⟨fun n hn => .inl hn, by simp, by simp⟩ hslots
  · obtain ⟨hcovered, hdurable, hdisposable⟩ := hplaced
    obtain ⟨hactive, hpredecessor⟩ := mem_of_linkSlots hlinked
    refine ⟨fun n hn => ?_, fun slot hslot => hdurable slot (hactive slot hslot),
      fun slot hslot => hdurable slot (hpredecessor slot hslot), hdisposable⟩
    have hmem : n ∈ names :=
      (Directory.mem_of_boundedNames hnames).mpr (Directory.mem_names.mpr (Option.ne_none_iff_exists'.mp hn))
    rw [PendingDiscovery.names, List.mem_append, List.mem_append]
    obtain hnil | hslot | hslot := hcovered n hmem
    · cases hnil
    · obtain ⟨slot, hmember, rfl⟩ := List.mem_map.mp hslot
      left
      obtain heq | heq := linkSlots_covers hlinked slot hmember
      · exact .inl (List.mem_map.mpr ⟨slot, Option.mem_toList.mpr heq, rfl⟩)
      · exact .inr (List.mem_map.mpr ⟨slot, Option.mem_toList.mpr heq, rfl⟩)
    · exact .inr hslot
  · rintro slots n rest slots' ⟨hcovered, hdurable, hdisposable⟩ hstep
    obtain ⟨id, rfl, -, ⟨hnone, rfl⟩ | ⟨bytes, document, hentry, hdecode, -, rfl⟩⟩ := discoverSlot_eq_ok.mp hstep
    · refine ⟨fun m hm => ?_, hdurable, fun slot hslot => ?_⟩
      · have hm := hcovered m hm
        simp only [List.mem_cons, List.map_append, List.mem_append, List.map_cons, List.map_nil, List.not_mem_nil,
          or_false] at hm ⊢
        obtain (heq | hm) | hm | hm := hm
        · exact .inr (.inr (.inr heq))
        · exact .inl hm
        · exact .inr (.inl hm)
        · exact .inr (.inr (.inl hm))
      · obtain hslot | hslot := List.mem_append.mp hslot
        · exact hdisposable slot hslot
        · obtain rfl := List.mem_singleton.mp hslot
          exact ⟨rfl, hnone⟩
    · refine ⟨fun m hm => ?_, fun slot hslot => ?_, hdisposable⟩
      · have hm := hcovered m hm
        simp only [List.mem_cons, List.map_append, List.mem_append, List.map_cons, List.map_nil, List.not_mem_nil,
          or_false] at hm ⊢
        obtain (heq | hm) | hm | hm := hm
        · exact .inr (.inl (.inr heq))
        · exact .inl hm
        · exact .inr (.inl (.inl hm))
        · exact .inr (.inr hm)
      · obtain hslot | hslot := List.mem_append.mp hslot
        · exact hdurable slot hslot
        · obtain rfl := List.mem_singleton.mp hslot
          exact ⟨rfl, bytes, hentry, hdecode⟩

end Discovery

end Wayjournal
