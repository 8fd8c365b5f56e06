import Wayjournal.Store.DirectoryLaws

namespace Wayjournal

open Crash Fs FileSystem

/-- The first write of a file just created that was cut off: a first part of the bytes is there. -/
def Disk.Tears (u v w : Disk) : Prop :=
  ∃ area p bytes cut, (u area).get? p = some (.regular []) ∧ (v area).get? p = some (.regular bytes) ∧ cut <+: bytes ∧
    (w area).get? p = some (.regular cut) ∧
    ∀ other q, (other, q) ≠ (area, p) →
      (v other).get? q = (u other).get? q ∧ (w other).get? q = (u other).get? q

/-- What a crash leaves: the state after some writes, or one where the next write was cut off. -/
def Crash.Program.Crashes {ε α : Type} (p : Program Disk ε α) (s t : Disk) : Prop :=
  ∃ n, t = p.cut s n ∨ Disk.Tears (p.cut s n) (p.cut s (n + 1)) t

theorem Crash.Program.crashes_of_wp {ε α : Type} {p : Program Disk ε α} {crash : Disk → Prop} {post : α → Disk → Prop}
    {fail : ε → Disk → Prop} {s t : Disk} (h : p.wp crash post fail s) (hs : crash s)
    (hclosed : ∀ u v w, crash u → crash v → Disk.Tears u v w → crash w) (ht : p.Crashes s t) : crash t := by
  obtain ⟨n, rfl | ht⟩ := ht
  · exact cut_of_wp h hs n
  · exact hclosed _ _ _ (cut_of_wp h hs n) (cut_of_wp h hs (n + 1)) ht

namespace Directory

/-- The entries of a directory are those of a list. -/
def Lists (d : Directory) (l : List (Name × Entry)) (s : Disk) : Prop := ∀ n e, d.child? n s = some e ↔ (n, e) ∈ l

/-- Since `s` only the entries of the directory changed, and now they are those of a list. -/
structure Becomes (d : Directory) (s : Disk) (l : List (Name × Entry)) (t : Disk) : Prop where
  lists : d.Lists l t
  elsewhere : ∀ area p, (∀ n, (area, p) ≠ (d.area, d.path ++ [n])) → (t area).get? p = (s area).get? p

variable {d : Directory} {l l' : List (Name × Entry)} {s t : Disk} {n : Name} {e : Entry}

theorem Lists.becomes (h : d.Lists l s) : d.Becomes s l s := ⟨h, fun _ _ _ => rfl⟩

theorem Lists.perm_names (h : d.Lists l s) (hl : (l.map Prod.fst).Nodup) : (d.names s).Perm (l.map Prod.fst) := by
  refine (List.perm_ext_iff_of_nodup (nodup_names _ _) hl).mpr fun n => ?_
  refine Directory.mem_names.trans ?_
  rw [List.mem_map]
  constructor
  · rintro ⟨e, he⟩
    exact ⟨(n, e), (h n e).mp he, rfl⟩
  · rintro ⟨⟨m, e⟩, he, rfl⟩
    exact ⟨e, (h m e).mpr he⟩

namespace Becomes

theorem congr (h : d.Becomes s l t) (hl : ∀ x, x ∈ l ↔ x ∈ l') : d.Becomes s l' t :=
  ⟨fun n e => (h.lists n e).trans (hl (n, e)), h.elsewhere⟩

theorem child?_eq_none (h : d.Becomes s l t) (hn : n ∉ l.map Prod.fst) : d.child? n t = none := by
  rw [Option.eq_none_iff_forall_ne_some]
  intro e he
  exact hn (List.mem_map.mpr ⟨_, (h.lists n e).mp he, rfl⟩)

theorem isDir (h : d.Becomes s l t) (hs : (s d.area).isDir d.path) : (t d.area).isDir d.path := by
  refine hs.imp id fun hs => ?_
  rw [h.elsewhere d.area d.path fun n hn => ?_]
  · exact hs
  · have hlength := congrArg List.length (Prod.mk.inj hn).2
    rw [List.length_append] at hlength
    exact absurd hlength (Nat.ne_of_lt (Nat.lt_succ_self _))

theorem sets {o : Option Entry} {fs : FileSystem Name} (h : d.Becomes s l t) (hsets : d.Sets n o t fs) :
    d.Becomes s (l.filter (·.1 ≠ n) ++ o.toList.map (n, ·)) (t.set d.area fs) := by
  constructor
  · intro m e
    rw [child?, Disk.set_same, List.mem_append, List.mem_filter, decide_eq_true_eq]
    by_cases hm : m = n
    · subst hm
      rw [hsets.here]
      cases o <;> simp [eq_comm]
    · have hpath : d.path ++ [m] ≠ d.path ++ [n] := fun heq => hm (List.cons.inj (List.append_cancel_left heq)).1
      rw [hsets.elsewhere _ hpath]
      have hlists := h.lists m e
      rw [child?] at hlists
      rw [hlists]
      cases o <;> simp [hm]
  · intro area p hp
    by_cases harea : area = d.area
    · subst harea
      rw [Disk.set_same, hsets.elsewhere p fun heq => hp n (by rw [heq])]
      exact h.elsewhere d.area p hp
    · rw [Disk.set_of_ne _ harea]
      exact h.elsewhere area p hp

end Becomes

section Rules

variable {crash : Disk → Prop} {post : Unit → Disk → Prop} {fail : StoreError → Disk → Prop} {bytes old : Bytes}

theorem filter_of_notMem (hn : n ∉ l.map Prod.fst) : l.filter (·.1 ≠ n) = l := by
  refine List.filter_eq_self.mpr fun x hx => ?_
  rw [decide_eq_true_eq]
  rintro rfl
  exact hn (List.mem_map.mpr ⟨x, hx, rfl⟩)

theorem filter_snoc (hn : n ∉ l.map Prod.fst) : (l ++ [(n, e)]).filter (·.1 ≠ n) = l := by
  rw [List.filter_append, filter_of_notMem hn]
  simp

theorem Becomes.wp_createFile (h : d.Becomes s l t) (hs : (s d.area).isDir d.path) (hn : n ∉ l.map Prod.fst)
    (hnext : ∀ u, d.Becomes s (l ++ [(n, .regular [])]) u → crash u ∧ post () u) :
    (d.createFile n).wp crash post fail t := by
  refine Directory.wp_createFile (h.isDir hs) (h.child?_eq_none hn) fun fs hfs => hnext _ ?_
  have hsets := h.sets hfs
  rwa [filter_of_notMem hn] at hsets

theorem Becomes.wp_writeAll (h : d.Becomes s (l ++ [(n, .regular old)]) t) (hn : n ∉ l.map Prod.fst)
    (hnext : ∀ u, d.Becomes s (l ++ [(n, .regular bytes)]) u → crash u ∧ post () u) :
    (d.writeAll n bytes).wp crash post fail t := by
  have hchild := (h.lists n (.regular old)).mpr (List.mem_append_right _ (List.mem_singleton_self _))
  refine Directory.wp_writeAll hchild fun fs hfs => hnext _ ?_
  have hsets := h.sets hfs
  rwa [filter_snoc hn] at hsets

theorem Becomes.wp_unlinkFile (h : d.Becomes s (l ++ [(n, .regular bytes)]) t) (hn : n ∉ l.map Prod.fst)
    (hnext : ∀ u, d.Becomes s l u → crash u ∧ post () u) : (d.unlinkFile n).wp crash post fail t := by
  have hchild := (h.lists n (.regular bytes)).mpr (List.mem_append_right _ (List.mem_singleton_self _))
  refine Directory.wp_unlinkFile hchild (nomatch ·) fun fs hfs => hnext _ ?_
  have hsets := h.sets hfs
  rw [filter_snoc hn] at hsets
  exact hsets.congr fun x => by simp

theorem rename_ok {fs : FileSystem Name} {p : List Name} {old new : Name} {b : Bytes}
    (hold : fs.get? (p ++ [old]) = some (.regular b)) (hnew : fs.get? (p ++ [new]) ≠ some .directory) (hne : old ≠ new) :
    ∃ mid gs, fs.rename p old new = .ok gs ∧ fs.Sets (p ++ [new]) (some (.regular b)) mid ∧
      mid.Sets (p ++ [old]) none gs := by
  unfold FileSystem.rename
  split
  · rename_i h
    rw [hold] at h
    cases h
  · rename_i h
    rw [hold] at h
    cases h
  · rename_i e' hdir h
    obtain rfl := Option.some.inj (hold.symm.trans h)
    rw [dif_neg hnew, if_neg hne]
    have hplace : fs.Sets (p ++ [new]) (some (.regular b)) (fs.place p new (.regular b) (isDir_of_get? h) hnew) :=
      sets_place _ _
    have hpath : p ++ [old] ≠ p ++ [new] := fun heq => hne (List.cons.inj (List.append_cancel_left heq)).1
    obtain ⟨gs, hgs, hsets⟩ := unlink_ok ((hplace.elsewhere _ hpath).trans hold) (nomatch ·)
    exact ⟨_, gs, hgs, hplace, hsets⟩

theorem Becomes.wp_renameFile {old new : Name} (h : d.Becomes s (l ++ [(old, .regular bytes)]) t)
    (hold : old ∉ l.map Prod.fst) (hnew : (new, .directory) ∉ l) (hne : old ≠ new)
    (hnext : ∀ u, d.Becomes s (l.filter (·.1 ≠ new) ++ [(new, .regular bytes)]) u → crash u ∧ post () u) :
    (d.renameFile old new).wp crash post fail t := by
  have hchild := (h.lists old (.regular bytes)).mpr (List.mem_append_right _ (List.mem_singleton_self _))
  have hdirectory : d.child? new t ≠ some .directory := by
    intro heq
    obtain hmem | hmem := List.mem_append.mp ((h.lists new .directory).mp heq)
    · exact hnew hmem
    · exact nomatch (Prod.mk.inj (List.mem_singleton.mp hmem)).2
  obtain ⟨mid, gs, hgs, hplace, hremove⟩ := rename_ok hchild hdirectory hne
  refine (wp_change hgs).mpr (hnext _ ?_)
  have hmid := h.sets hplace
  have hunlink : d.Sets old none (t.set d.area mid) gs := by
    rwa [Sets, Disk.set_same]
  have hlast := hmid.sets hunlink
  rw [Disk.set_set] at hlast
  refine hlast.congr fun x => ?_
  have hx : x ∈ l → x.1 ≠ old := fun hx heq => hold (List.mem_map.mpr ⟨x, hx, heq⟩)
  obtain ⟨m, e⟩ := x
  simp only [List.mem_append, List.mem_filter, List.mem_map, Option.mem_toList, decide_eq_true_eq, List.mem_singleton,
    Prod.mk.injEq, ne_eq, reduceCtorEq, false_and, exists_false, or_false, Option.some.injEq]
  constructor
  · rintro ⟨⟨hmem | ⟨rfl, rfl⟩, hm⟩ | ⟨f, rfl, rfl, rfl⟩, hlast⟩
    · exact .inl ⟨hmem, hm⟩
    · exact absurd rfl hlast
    · exact .inr ⟨rfl, rfl⟩
  · rintro (⟨hmem, hm⟩ | ⟨rfl, rfl⟩)
    · exact ⟨.inl ⟨.inl hmem, hm⟩, hx hmem⟩
    · exact ⟨.inr ⟨_, rfl, rfl, rfl⟩, fun heq => hne heq.symm⟩

end Rules

/-- The entries the directory is for, and besides them at most one temporary file, which is not too long. -/
def Residual (d : Directory) (isTemporary : Name → Prop) (limit : Nat) (s : Disk) (content : List (Name × Entry))
    (t : Disk) : Prop :=
  ∃ residue : Option (Name × Bytes), (∀ r ∈ residue, isTemporary r.1 ∧ r.2.length ≤ limit) ∧
    d.Becomes s (content ++ residue.toList.map fun r => (r.1, .regular r.2)) t

/-- A content that is never mistaken for a temporary file. -/
structure Proper (isTemporary : Name → Prop) (content : List (Name × Entry)) : Prop where
  full : ∀ n, (n, .regular []) ∉ content
  fixed : ∀ n, isTemporary n → n ∉ content.map Prod.fst

namespace Residual

variable {isTemporary : Name → Prop} {limit : Nat} {content content' : List (Name × Entry)} {u v w : Disk}

theorem of_becomes (h : d.Becomes s content t) : d.Residual isTemporary limit s content t :=
  ⟨none, fun _ h => (nomatch h), h.congr fun x => by simp⟩

theorem of_temporary {bytes : Bytes} (h : d.Becomes s (content ++ [(n, .regular bytes)]) t) (hn : isTemporary n)
    (hlimit : bytes.length ≤ limit) : d.Residual isTemporary limit s content t :=
  ⟨some (n, bytes), fun _ hr => Option.some.inj hr ▸ ⟨hn, hlimit⟩, h⟩

/-- A write that is cut off leaves the temporary file too short, and nothing else. -/
theorem tears (hu : d.Residual isTemporary limit s content u) (hv : d.Residual isTemporary limit s content' v)
    (hcontent : Proper isTemporary content) (hcontent' : Proper isTemporary content') (h : Disk.Tears u v w) :
    d.Residual isTemporary limit s content w := by
  obtain ⟨area, p, bytes, cut, hempty, hbytes, hcut, hpart, helse⟩ := h
  obtain ⟨residue, hresidue, hu⟩ := hu
  obtain ⟨residue', hresidue', hv⟩ := hv
  by_cases hp : ∃ n, (area, p) = (d.area, d.path ++ [n])
  · obtain ⟨n, heq⟩ := hp
    obtain ⟨rfl, rfl⟩ := Prod.mk.inj heq
    have hmem := (hu.lists n _).mp hempty
    have hmem' := (hv.lists n _).mp hbytes
    obtain ⟨r, rfl, hr⟩ : ∃ r, residue = some r ∧ r = (n, []) := by
      obtain hmem | hmem := List.mem_append.mp hmem
      · exact absurd hmem (hcontent.full n)
      · obtain ⟨r, hr, heq⟩ := List.mem_map.mp hmem
        obtain ⟨hname, hfile⟩ := Prod.mk.inj heq
        exact ⟨r, Option.mem_toList.mp hr, Prod.ext hname (Entry.regular.inj hfile)⟩
    subst hr
    have htemporary := (hresidue _ rfl).1
    have hlimit : bytes.length ≤ limit := by
      obtain hmem' | hmem' := List.mem_append.mp hmem'
      · exact absurd (List.mem_map.mpr ⟨_, hmem', rfl⟩) (hcontent'.fixed n htemporary)
      · obtain ⟨r, hr, heq⟩ := List.mem_map.mp hmem'
        obtain ⟨-, hfile⟩ := Prod.mk.inj heq
        rw [← Entry.regular.inj hfile]
        exact (hresidue' r (Option.mem_toList.mp hr)).2
    have htorn : d.Becomes s (content ++ [(n, .regular cut)]) w → d.Residual isTemporary limit s content w :=
      fun h => of_temporary h htemporary (hcut.length_le.trans hlimit)
    refine htorn ⟨?_, ?_⟩
    · intro m e
      by_cases hm : m = n
      · subst hm
        rw [child?, hpart, List.mem_append]
        constructor
        · intro he
          cases he
          exact .inr (List.mem_singleton_self _)
        · rintro (hmem | hmem)
          · exact absurd (List.mem_map.mpr ⟨_, hmem, rfl⟩) (hcontent.fixed m htemporary)
          · rw [(Prod.mk.inj (List.mem_singleton.mp hmem)).2]
      · have hne : (d.area, d.path ++ [m]) ≠ (d.area, d.path ++ [n]) := fun heq =>
          hm (List.cons.inj (List.append_cancel_left (Prod.mk.inj heq).2)).1
        have hlists := hu.lists m e
        rw [child?] at hlists ⊢
        rw [(helse _ _ hne).2, hlists, List.mem_append, List.mem_append]
        simp [hm]
    · intro other q hq
      rw [(helse other q (hq n)).2]
      exact hu.elsewhere other q hq
  · rw [not_exists] at hp
    have hsame : Entry.regular bytes = .regular [] := by
      have := (hv.elsewhere area p hp).trans (hu.elsewhere area p hp).symm
      rw [hempty, hbytes] at this
      exact Option.some.inj this
    have hcut : cut = [] := List.prefix_nil.mp (Entry.regular.inj hsame ▸ hcut)
    subst hcut
    have hall : ∀ other q, (w other).get? q = (u other).get? q := by
      intro other q
      by_cases heq : (other, q) = (area, p)
      · obtain ⟨rfl, rfl⟩ := Prod.mk.inj heq
        rw [hpart, hempty]
      · exact (helse other q heq).2
    refine ⟨residue, hresidue, fun m e => ?_, fun other q hq => (hall other q).trans (hu.elsewhere other q hq)⟩
    rw [child?, hall]
    exact hu.lists m e

end Residual

end Directory

end Wayjournal
