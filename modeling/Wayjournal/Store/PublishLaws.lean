import Wayjournal.Store.LoadLaws

namespace Wayjournal

open Collections Crash Fs FileSystem Text

namespace Extends

variable {fs gs hs : FileSystem Name} {files : Additions} {p : List Name}

theorem sub_of_sets {e : Entry} (hp : gs.get? p = none) (hsets : gs.Sets p (some e) hs) : gs.Sub hs := by
  intro q f hq
  by_cases heq : q = p
  · rw [heq, hp] at hq
    cases hq
  · rw [hsets.elsewhere q heq]
    exact hq

theorem sets_directory (h : Extends fs files gs) (hp : gs.get? p = none)
    (hsets : gs.Sets p (some .directory) hs) (hlength : 2 ≤ p.length)
    (hfile : ∃ f ∈ files, p <+: f.1 ∧ p ≠ f.1) : Extends fs files hs where
  sub := h.sub.trans (sub_of_sets hp hsets)
  fresh := h.fresh
  added q e hq hnone := by
    by_cases heq : q = p
    · subst heq
      rw [hsets.here] at hq
      cases hq
      exact .inr ⟨rfl, hlength, hfile⟩
    · rw [hsets.elsewhere q heq] at hq
      exact h.added q e hq hnone

theorem sets_file {bytes : Bytes} (h : Extends fs files gs) (hp : gs.get? p = none)
    (hsets : gs.Sets p (some (.regular bytes)) hs) (hfile : (p, bytes) ∈ files) : Extends fs files hs where
  sub := h.sub.trans (sub_of_sets hp hsets)
  fresh := h.fresh
  added q e hq hnone := by
    by_cases heq : q = p
    · subst heq
      rw [hsets.here] at hq
      cases hq
      exact .inl ⟨bytes, rfl, hfile⟩
    · rw [hsets.elsewhere q heq] at hq
      exact h.added q e hq hnone

/-- A target that is there has the bytes of the target. -/
theorem get?_file (h : Extends fs files gs) (hfiles : Addable files) {f : List Name × Bytes} (hf : f ∈ files) :
    gs.get? f.1 = none ∨ gs.get? f.1 = some (.regular f.2) := by
  cases hget : gs.get? f.1 with
  | none => exact .inl rfl
  | some e =>
    have hpresent : f ∈ presentIn gs files := by
      rw [presentIn, List.mem_filter, hget]
      exact ⟨hf, rfl⟩
    rw [((h.mem_present hfiles).mp hpresent).2] at hget
    exact .inr hget.symm

end Extends

section Link

variable {crash : Disk → Prop} {fail : StoreError → Disk → Prop} {d : Directory} {name : Name} {s : Disk}
variable {bytes : Bytes} {post : Unit → Disk → Prop}

/-- The link makes the file, or finds it there. -/
theorem wp_linkFdNoClobber (hd : (s d.area).isDir d.path)
    (he : d.child? name s = none ∨ d.child? name s = some (.regular bytes))
    (hnew : ∀ fs, d.child? name s = none → Directory.Sets d name (some (.regular bytes)) s fs →
      crash (s.set d.area fs) ∧ post () (s.set d.area fs))
    (hold : d.child? name s = some (.regular bytes) → post () s) :
    (linkFdNoClobber bytes d name bytes).wp crash post fail s := by
  rw [linkFdNoClobber, Program.wp_bind, Program.wp_reads]
  obtain he | he := he
  · simp only [he]
    obtain ⟨fs, hfs, hget⟩ := create_ok hd he (.regular bytes)
    exact (Directory.wp_change hfs).mpr (hnew fs he hget)
  · simp only [he, ne_eq, not_true_eq_false, if_false, Program.wp_pure]
    exact hold he

theorem wp_ensureSynced {text : String} {post : Directory → Disk → Prop} (hname : Name.parse (asBytes text) = some name)
    (hd : (s d.area).isDir d.path) (he : d.child? name s = none ∨ d.child? name s = some .directory)
    (hnew : ∀ fs, d.child? name s = none → Directory.Sets d name (some .directory) s fs →
      crash (s.set d.area fs) ∧ post (d.child name) (s.set d.area fs))
    (hold : d.child? name s = some .directory → post (d.child name) s) :
    (ensureSynced d text).wp crash post fail s := by
  rw [ensureSynced, Program.wp_bind, component, hname, Program.wp_pure, Program.wp_bind]
  obtain he | he := he
  · exact Directory.wp_ensureDir_new hd he fun fs hfs =>
      ⟨(hnew fs he hfs).1, Program.wp_pure.mpr (hnew fs he hfs).2⟩
  · exact (Directory.wp_ensureDir_old he).mpr (Program.wp_pure.mpr (hold he))

end Link

section

variable [Jiff] [Blake3] {store : Store} {prepared : PreparedBatch} {base : StoreRevisionRef} {s t : Disk}

/-- The directories every open store has. -/
structure Opened (s : Disk) : Prop where
  records : (s .canonical).get? [.journal, .records] = some .directory
  batches : (s .canonical).get? [.journal, .batches] = some .directory

namespace Previewed

/-- A directory on the way to a target is missing or a directory. -/
theorem directory_or_none (h : Previewed store prepared base s)
    (hext : Extends (s .canonical) prepared.targets (t .canonical)) {f : List Name × Bytes} {p : List Name}
    (hf : f ∈ prepared.targets) (hbelow : p <+: f.1) (hne : p ≠ f.1) (hlength : 2 ≤ p.length) :
    (t .canonical).get? p = none ∨ (t .canonical).get? p = some .directory := by
  have haddable := h.publishable.addable
  have hvalid := validCanonicalDirectory_of_prefix (haddable.reached f hf) hbelow hne hlength
  cases hget : (t .canonical).get? p with
  | none => exact .inl rfl
  | some e =>
    right
    rw [Option.some.injEq]
    cases hs : (s .canonical).get? p with
    | some e' =>
      obtain ⟨snapshot, -, hscan⟩ := h.scansBase
      have heq := (hext.sub p e' hs).symm.trans hget
      cases heq
      exact directory_of_scans h.nonregular hscan
        ( isReached_prefix (haddable.reached f hf) hbelow hlength) hvalid hs
    | none =>
      obtain ⟨bytes, -, hmem⟩ | ⟨rfl, -⟩ := hext.added p e hget hs
      · have hleaf := haddable.leaf _ hmem
        rw [hvalid] at hleaf
        cases hleaf
      · rfl

variable {crash : Disk → Prop} {fail : StoreError → Disk → Prop} {post : Unit → Disk → Prop}

/-- One directory on the way to a target. -/
theorem wp_ensureOnWay (h : Previewed store prepared base s)
    (hext : Extends (s .canonical) prepared.targets (t .canonical)) {f : List Name × Bytes}
    (hf : f ∈ prepared.targets) {q : List Name} {name : Name} {text : String}
    {post : Directory → Disk → Prop} (hname : Name.parse (asBytes text) = some name)
    (hdir : (t .canonical).isDir q) (hbelow : q ++ [name] <+: f.1) (hne : q ++ [name] ≠ f.1) (hq : q ≠ [])
    (hcrash : ∀ gs, Extends (s .canonical) prepared.targets gs → (t .canonical).Sub gs →
      crash (t.set .canonical gs))
    (hpost : ∀ gs, Extends (s .canonical) prepared.targets gs → (t .canonical).Sub gs →
      gs.get? (q ++ [name]) = some .directory → post ⟨.canonical, q ++ [name]⟩ (t.set .canonical gs)) :
    (ensureSynced ⟨.canonical, q⟩ text).wp crash post fail t := by
  have hlength : 2 ≤ (q ++ [name]).length := by
    have := List.length_pos_iff.mpr hq
    rw [List.length_append, List.length_singleton]
    omega
  refine wp_ensureSynced hname hdir (h.directory_or_none hext hf hbelow hne hlength) ?_ ?_
  · intro gs hnone hsets
    have hgs := hext.sets_directory hnone hsets hlength ⟨f, hf, hbelow, hne⟩
    have hsub := Extends.sub_of_sets hnone hsets
    exact ⟨hcrash gs hgs hsub, hpost gs hgs hsub hsets.here⟩
  · intro hget
    have hself := hpost (t .canonical) hext (Sub.refl _) hget
    rw [Disk.set_eq_self] at hself
    exact hself

theorem wp_linkTarget (h : Previewed store prepared base s)
    (hext : Extends (s .canonical) prepared.targets (t .canonical)) {q : List Name} {name : Name} {bytes : Bytes}
    (hf : (q ++ [name], bytes) ∈ prepared.targets) (hdir : (t .canonical).isDir q)
    (hcrash : ∀ gs, Extends (s .canonical) prepared.targets gs → (t .canonical).Sub gs →
      crash (t.set .canonical gs))
    (hpost : ∀ gs, Extends (s .canonical) prepared.targets gs → (t .canonical).Sub gs →
      gs.get? (q ++ [name]) = some (.regular bytes) → post () (t.set .canonical gs)) :
    (linkFdNoClobber bytes ⟨.canonical, q⟩ name bytes).wp crash post fail t := by
  refine wp_linkFdNoClobber hdir (hext.get?_file h.publishable.addable hf) ?_ ?_
  · intro gs hnone hsets
    have hgs := hext.sets_file hnone hsets hf
    have hsub := Extends.sub_of_sets hnone hsets
    exact ⟨hcrash gs hgs hsub, hpost gs hgs hsub hsets.here⟩
  · intro hget
    have hself := hpost (t .canonical) hext (Sub.refl _) hget
    rw [Disk.set_eq_self] at hself
    exact hself

theorem wp_publishRecord (h : Previewed store prepared base s) (hopen : Opened s)
    (hext : Extends (s .canonical) prepared.targets (t .canonical)) {r : PreparedRecord}
    (hr : r ∈ prepared.records)
    (hcrash : ∀ gs, Extends (s .canonical) prepared.targets gs → (t .canonical).Sub gs →
      crash (t.set .canonical gs))
    (hpost : ∀ gs, Extends (s .canonical) prepared.targets gs → (t .canonical).Sub gs →
      gs.get? r.record.key = some (.regular r.bytes) → post () (t.set .canonical gs)) :
    (publishRecord r.staged).wp crash post fail t := by
  have htarget : (r.record.key, r.bytes) ∈ prepared.targets :=
    PreparedBatch.WellFormed.mem_targets.mpr (.inl ⟨r, hr, rfl⟩)
  have hroot : (t .canonical).isDir [.journal, .records] := .inr (hext.sub _ _ hopen.records)
  have hsplit : splitPath r.path = r.record.parts := by
    rw [h.wellFormed.path_eq r hr, r.record.splitPath_canonicalPath]
  have hdomain : Name.parse (asBytes r.record.domain.asStr) = some (domainName r.record.domain) :=
    Name.parse_bytes (domainName r.record.domain)
  have hentity : Name.parse (asBytes r.record.entityId.display) = some (uuidName r.record.entityId.uuid) :=
    Name.parse_bytes (uuidName r.record.entityId.uuid)
  have hfile : Name.parse (asBytes (r.record.recordId.display ++ ".json")) =
      some (uuidJsonName r.record.recordId.uuid) :=
    Name.parse_bytes (uuidJsonName r.record.recordId.uuid)
  rw [publishRecord, Program.wp_bind]
  change (recordTargetParent r.path).wp _ _ _ _
  simp only [recordTargetParent, hsplit, Record.parts, ne_eq, not_true_eq_false, decide_false, Bool.or_false,
    Bool.false_eq_true, if_false, Program.wp_bind]
  have hkey : r.record.key = [.journal, .records, domainName r.record.domain, uuidName r.record.entityId.uuid,
      uuidJsonName r.record.recordId.uuid] := rfl
  refine h.wp_ensureOnWay hext htarget hdomain hroot ⟨_, hkey.symm⟩ (by simp [hkey]) (by simp) hcrash ?_
  intro gs₁ hext₁ hsub₁ hget₁
  have hset₁ : (t.set .canonical gs₁) .canonical = gs₁ := Disk.set_same ..
  have hcrash₁ : ∀ gs, Extends (s .canonical) prepared.targets gs → ((t.set .canonical gs₁) .canonical).Sub gs →
      crash ((t.set .canonical gs₁).set .canonical gs) := by
    intro gs hgs hsub
    rw [hset₁] at hsub
    rw [Disk.set_set]
    exact hcrash gs hgs (hsub₁.trans hsub)
  refine h.wp_ensureOnWay (hset₁.symm ▸ hext₁) htarget hentity (.inr (hset₁.symm ▸ hget₁)) ⟨_, hkey.symm⟩
    (by simp [hkey]) (by simp) hcrash₁ ?_
  intro gs₂ hext₂ hsub₂ hget₂
  rw [hset₁] at hsub₂
  rw [Disk.set_set, component, hfile, Program.wp_pure, Program.wp_pure]
  have hset₂ : (t.set .canonical gs₂) .canonical = gs₂ := Disk.set_same ..
  refine h.wp_linkTarget (hset₂.symm ▸ hext₂) htarget (.inr (hset₂.symm ▸ hget₂)) ?_ ?_
  · intro gs hgs hsub
    rw [hset₂] at hsub
    rw [Disk.set_set]
    exact hcrash gs hgs (hsub₁.trans (hsub₂.trans hsub))
  · intro gs hgs hsub hget
    rw [hset₂] at hsub
    rw [Disk.set_set]
    exact hpost gs hgs (hsub₁.trans (hsub₂.trans hsub)) hget

end Previewed

end

end Wayjournal
