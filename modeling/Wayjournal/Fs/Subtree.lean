import Mathlib.Data.List.Induction
import Wayjournal.Fs.FileSystem

namespace Wayjournal.Fs.FileSystem

open Collections

section

variable {ν : Type} {d k : List ν} {n m : ν}

/-- Below one of the named entries of a directory, or one of them. -/
def Under (d : List ν) (r : List ν) (k : List ν) : Prop := ∃ n ∈ r, d ++ [n] <+: k

instance [DecidableEq ν] (d r k : List ν) : Decidable (Under d r k) := inferInstanceAs (Decidable (∃ n ∈ r, _))

theorem under_nil (d k : List ν) : ¬Under d [] k := by
  rintro ⟨n, hn, -⟩
  cases hn

theorem under_cons {r : List ν} : Under d (n :: r) k ↔ d ++ [n] <+: k ∨ Under d r k := by
  simp [Under]

theorem prefix_child_inj (hn : d ++ [n] <+: k) (hm : d ++ [m] <+: k) : n = m := by
  have hbelow := List.prefix_of_prefix_length_le hn hm (by simp)
  have heq := hbelow.eq_of_length (by simp)
  simpa using heq

theorem length_filter_or {α : Type} (l : List α) (P Q : α → Prop) [DecidablePred P] [DecidablePred Q]
    (h : ∀ a ∈ l, P a → ¬Q a) :
    (l.filter (fun a => decide (P a) || decide (Q a))).length =
      (l.filter (fun a => decide (P a))).length + (l.filter (fun a => decide (Q a))).length := by
  induction l with
  | nil => rfl
  | cons a l ih =>
    have ih := ih (fun b hb => h b (List.mem_cons_of_mem _ hb))
    have ha := h a List.mem_cons_self
    simp only [List.filter_cons]
    by_cases hP : P a
    · simp [hP, ha hP, ih]
      omega
    · by_cases hQ : Q a
      · simp [hP, hQ, ih]
        omega
      · simp [hP, hQ, ih]

end

variable {ν : Type} [LinearOrder ν] {fs gs : FileSystem ν} {d p k : List ν} {n m : ν} {e : Entry}

/-- How many entries stand below the named ones of a directory, these included. -/
def weight (fs : FileSystem ν) (d r : List ν) : Nat :=
  (fs.entries.keys.filter (fun k => decide (Under d r k))).length

theorem mem_keys_iff : k ∈ fs.entries.keys ↔ ∃ e, fs.get? k = some e := BTreeMap.mem_keys_iff

theorem weight_congr {r : List ν} (h : ∀ k, Under d r k → fs.get? k = gs.get? k) :
    fs.weight d r = gs.weight d r := by
  have hsorted : ∀ hs : FileSystem ν,
      (hs.entries.keys.filter (fun k => decide (Under d r k))).Pairwise (· < ·) :=
    fun hs => hs.entries.keys_sorted.sublist List.filter_sublist
  unfold weight
  rw [eq_of_sorted_of_mem_iff (hsorted fs) (hsorted gs)]
  intro k
  simp only [List.mem_filter, mem_keys_iff, decide_eq_true_eq, and_congr_left_iff]
  intro hk
  rw [h k hk]

@[simp] theorem weight_nil (fs : FileSystem ν) (d : List ν) : fs.weight d [] = 0 := by
  simp [weight, under_nil]

theorem weight_cons {r : List ν} (hn : n ∉ r) :
    fs.weight d (n :: r) = fs.weight d [n] + fs.weight d r := by
  have hdisjoint : ∀ k ∈ fs.entries.keys, Under d [n] k → ¬Under d r k := by
    rintro k - ⟨a, ha, hak⟩ ⟨b, hb, hbk⟩
    obtain rfl := List.mem_singleton.mp ha
    exact hn (prefix_child_inj hak hbk ▸ hb)
  have hor := length_filter_or fs.entries.keys (Under d [n]) (Under d r) hdisjoint
  unfold weight
  rw [← hor]
  congr 1
  apply List.filter_congr
  intro k _
  rw [← Bool.decide_or, decide_eq_decide, under_cons, under_cons]
  simp [under_nil]

/-- The length of the longest path. -/
def depth (fs : FileSystem ν) : Nat := (fs.entries.keys.map List.length).foldr max 0

theorem length_le_depth (h : fs.get? p = some e) : p.length ≤ fs.depth := by
  have hmem : p.length ∈ fs.entries.keys.map List.length := List.mem_map_of_mem (mem_keys_iff.mpr ⟨e, h⟩)
  rw [depth]
  generalize fs.entries.keys.map List.length = lengths at hmem
  induction lengths with
  | nil => cases hmem
  | cons a r ih =>
    rw [List.foldr_cons]
    obtain rfl | hmem := List.mem_cons.mp hmem
    · exact le_max_left _ _
    · exact (ih hmem).trans (le_max_right _ _)

/-- Where no directory below is empty, a directory holds something that is none. -/
theorem exists_leaf (hfull : ∀ k, d <+: k → fs.get? k = some .directory → fs.names k ≠ [])
    (hd : fs.get? d = some .directory) :
    ∃ k e, d <+: k ∧ d ≠ k ∧ fs.get? k = some e ∧ e ≠ .directory := by
  induction hmeasure : fs.depth - d.length generalizing d with
  | zero =>
    obtain ⟨n, hn⟩ := List.exists_mem_of_ne_nil _ (hfull d (List.prefix_refl d) hd)
    obtain ⟨e, he⟩ := mem_names.mp hn
    have hdepth := length_le_depth he
    rw [List.length_append, List.length_singleton] at hdepth
    omega
  | succ measure ih =>
    obtain ⟨n, hn⟩ := List.exists_mem_of_ne_nil _ (hfull d (List.prefix_refl d) hd)
    obtain ⟨e, he⟩ := mem_names.mp hn
    by_cases hdir : e = .directory
    · subst hdir
      obtain ⟨k, e, hk, -, hget, hleaf⟩ := ih (fun k hk => hfull k ((List.prefix_append d [n]).trans hk)) he
        (by rw [List.length_append, List.length_singleton]; omega)
      refine ⟨k, e, (List.prefix_append d [n]).trans hk, ?_, hget, hleaf⟩
      rintro rfl
      have := hk.length_le
      rw [List.length_append, List.length_singleton] at this
      omega
    · exact ⟨d ++ [n], e, List.prefix_append d [n], by simp, he, hdir⟩

theorem get?_directory_of_below (hk : fs.get? k = some e) (hp : p <+: k) (hne : p ≠ k)
    (hnil : p ≠ []) : fs.get? p = some .directory := by
  obtain ⟨t, rfl⟩ := hp
  induction t using List.reverseRecOn generalizing e with
  | nil => simp at hne
  | append_singleton t n ih =>
    rw [← List.append_assoc] at hk
    have hparent := fs.closed (p ++ t) n e hk (by simp [hnil])
    cases t with
    | nil => rwa [List.append_nil] at hparent
    | cons a t => exact ih hparent (by simp)

/-- Whatever stands below a directory stands below one of its entries. -/
theorem under_names (h : fs.get? k = some e) (hd : d <+: k) (hne : d ≠ k) : Under d (fs.names d) k := by
  obtain ⟨t, rfl⟩ := hd
  induction t using List.reverseRecOn generalizing e with
  | nil => simp at hne
  | append_singleton t n ih =>
    cases t with
    | nil =>
      rw [List.nil_append] at h ⊢
      exact ⟨n, mem_names.mpr ⟨e, h⟩, List.prefix_refl _⟩
    | cons a t =>
      have hparent := fs.closed (d ++ a :: t) n e (by rw [← h, List.append_assoc]; rfl) (by simp)
      obtain ⟨m, hm, hbelow⟩ := ih hparent (by simp)
      exact ⟨m, hm, hbelow.trans ⟨[n], by simp⟩⟩

/-- An entry weighs one more than what stands below it. -/
theorem weight_singleton (h : fs.get? (d ++ [n]) = some e) :
    fs.weight d [n] = 1 + fs.weight (d ++ [n]) (fs.names (d ++ [n])) := by
  have hself : (fs.entries.keys.filter (fun k => decide (k = d ++ [n]))).length = 1 := by
    have hmem : d ++ [n] ∈ fs.entries.keys := mem_keys_iff.mpr ⟨e, h⟩
    have hcount := List.count_eq_one_of_mem fs.entries.keys_nodup hmem
    rw [List.count_eq_length_filter] at hcount
    rw [← hcount]
    congr
    funext k
    rw [Bool.beq_eq_decide_eq]
  have hor := length_filter_or fs.entries.keys (fun k => k = d ++ [n])
    (Under (d ++ [n]) (fs.names (d ++ [n]))) (by
      rintro k - rfl ⟨m, -, hm⟩
      have := hm.length_le
      simp at this)
  rw [hself] at hor
  unfold weight
  rw [← hor]
  congr 1
  apply List.filter_congr
  intro k hk
  obtain ⟨e', he'⟩ := mem_keys_iff.mp hk
  rw [← Bool.decide_or, decide_eq_decide]
  constructor
  · rintro ⟨a, ha, hak⟩
    obtain rfl := List.mem_singleton.mp ha
    by_cases hne : k = d ++ [a]
    · exact .inl hne
    · exact .inr (under_names he' hak (Ne.symm hne))
  · rintro (rfl | ⟨m, -, hm⟩)
    · exact ⟨n, List.mem_singleton_self n, List.prefix_refl _⟩
    · exact ⟨n, List.mem_singleton_self n, (List.prefix_append _ _).trans hm⟩

theorem weight_pos (h : fs.get? (d ++ [n]) = some e) : 0 < fs.weight d [n] := by
  rw [weight_singleton h]
  omega

theorem weight_root (fs : FileSystem ν) : fs.weight [] (fs.names []) = fs.entries.keys.length := by
  unfold weight
  congr 1
  rw [List.filter_eq_self]
  intro k hk
  obtain ⟨e, he⟩ := mem_keys_iff.mp hk
  rw [decide_eq_true_eq]
  refine under_names he (List.nil_prefix) ?_
  rintro rfl
  simp at he

theorem weight_append {r s : List ν} (h : (r ++ s).Nodup) : fs.weight d (r ++ s) = fs.weight d r + fs.weight d s := by
  induction r with
  | nil => rw [List.nil_append, weight_nil, Nat.zero_add]
  | cons n r ih =>
    rw [List.cons_append, List.nodup_cons] at h
    rw [List.cons_append, weight_cons h.1, weight_cons fun hn => h.1 (List.mem_append_left _ hn), ih h.2, Nat.add_assoc]

theorem weight_perm {r s : List ν} (h : r.Perm s) : fs.weight d r = fs.weight d s := by
  unfold weight
  congr 2
  funext k
  rw [decide_eq_decide]
  simp only [Under, h.mem_iff]

theorem get?_below_of_ne_directory (h : fs.get? p = some e) (hne : e ≠ .directory) (hk : p <+: k)
    (hpk : p ≠ k) : fs.get? k = none := by
  rw [Option.eq_none_iff_forall_ne_some]
  intro e' he'
  obtain ⟨n, hn, -⟩ := under_names he' hk hpk
  obtain ⟨e'', hchild⟩ := mem_names.mp hn
  have hp : p ≠ [] := by
    rintro rfl
    simp at h
  have hdir : fs.get? p = some .directory := fs.closed p n e'' hchild hp
  rw [h] at hdir
  exact hne (Option.some.inj hdir)

theorem length_le_weight {r : List ν} (hnodup : r.Nodup) (hr : ∀ n ∈ r, n ∈ fs.names d) :
    r.length ≤ fs.weight d r := by
  induction r with
  | nil => simp
  | cons n r ih =>
    rw [List.nodup_cons] at hnodup
    obtain ⟨e, he⟩ := mem_names.mp (hr n List.mem_cons_self)
    have hpos := weight_pos he
    have hrest := ih hnodup.2 (fun m hm => hr m (List.mem_cons_of_mem _ hm))
    rw [weight_cons hnodup.1, List.length_cons]
    omega

/-- A whole subtree is gone and nothing else changed. -/
structure Pruned (fs : FileSystem ν) (p : List ν) (gs : FileSystem ν) : Prop where
  gone : ∀ k, p <+: k → gs.get? k = none
  kept : ∀ k, ¬p <+: k → gs.get? k = fs.get? k

/-- Of what stood below a directory only the named entries are left. -/
structure Clearing (fs : FileSystem ν) (p r : List ν) (gs : FileSystem ν) : Prop where
  outside : ∀ k, ¬(p <+: k ∧ p ≠ k) → gs.get? k = fs.get? k
  kept : ∀ k, Under p r k → gs.get? k = fs.get? k
  cleared : ∀ k, p <+: k → p ≠ k → ¬Under p r k → gs.get? k = none

theorem Pruned.sub (h : Pruned fs p gs) : gs.Sub fs := by
  intro k e hk
  by_cases hp : p <+: k
  · rw [h.gone k hp] at hk
    cases hk
  · rwa [← h.kept k hp]

theorem pruned_of_sets (he : fs.get? p = some e) (hne : e ≠ .directory) (h : fs.Sets p none gs) :
    Pruned fs p gs := by
  constructor
  · intro k hk
    by_cases hpk : p = k
    · rw [← hpk]
      exact h.here
    · rw [h.elsewhere k (Ne.symm hpk)]
      exact get?_below_of_ne_directory he hne hk hpk
  · intro k hk
    apply h.elsewhere
    rintro rfl
    exact hk (List.prefix_refl _)

namespace Clearing

variable {r : List ν} {hs : FileSystem ν}

theorem start (hr : ∀ n ∈ fs.names p, n ∈ r) : Clearing fs p r fs := by
  refine ⟨fun _ _ => rfl, fun _ _ => rfl, fun k hk hpk hnot => ?_⟩
  rw [Option.eq_none_iff_forall_ne_some]
  intro e he
  obtain ⟨n, hn, hnk⟩ := under_names he hk hpk
  exact hnot ⟨n, hr n hn, hnk⟩

theorem step (h : Clearing fs p (n :: r) gs) (hn : n ∉ r) (hgs : Pruned gs (p ++ [n]) hs) :
    Clearing fs p r hs := by
  refine ⟨fun k hk => ?_, fun k hk => ?_, fun k hk hpk hnot => ?_⟩
  · rw [hgs.kept k, h.outside k hk]
    intro hbelow
    refine hk ⟨(List.prefix_append _ _).trans hbelow, ?_⟩
    rintro rfl
    have := hbelow.length_le
    simp only [List.length_append, List.length_cons, List.length_nil] at this
    omega
  · obtain ⟨m, hm, hmk⟩ := hk
    rw [hgs.kept k, h.kept k ⟨m, List.mem_cons_of_mem _ hm, hmk⟩]
    exact fun hbelow => hn (prefix_child_inj hbelow hmk ▸ hm)
  · by_cases hbelow : p ++ [n] <+: k
    · exact hgs.gone k hbelow
    · rw [hgs.kept k hbelow]
      apply h.cleared k hk hpk
      rw [under_cons]
      exact fun h => h.elim hbelow hnot

theorem sub (h : Clearing fs p r gs) : gs.Sub fs := by
  intro k e hk
  by_cases hbelow : p <+: k ∧ p ≠ k
  · by_cases hunder : Under p r k
    · rwa [← h.kept k hunder]
    · rw [h.cleared k hbelow.1 hbelow.2 hunder] at hk
      cases hk
  · rwa [← h.outside k hbelow]

theorem weight_eq (h : Clearing fs p (n :: r) gs) : gs.weight p [n] = fs.weight p [n] := by
  apply weight_congr
  rintro k ⟨m, hm, hmk⟩
  obtain rfl := List.mem_singleton.mp hm
  exact h.kept k ⟨m, List.mem_cons_self, hmk⟩

theorem leaf (h : Clearing fs p [] gs) (n : ν) : gs.get? (p ++ [n]) = none :=
  h.cleared _ (List.prefix_append _ _) (by simp) (under_nil _ _)

theorem here (h : Clearing fs p r gs) : gs.get? p = fs.get? p := h.outside p (fun h => h.2 rfl)

theorem get?_child (h : Clearing fs p (n :: r) gs) : gs.get? (p ++ [n]) = fs.get? (p ++ [n]) :=
  h.kept _ ⟨n, List.mem_cons_self, List.prefix_refl _⟩

theorem finish (h : Clearing fs p [] gs) (hgs : gs.Sets p none hs) : Pruned fs p hs := by
  constructor
  · intro k hk
    by_cases hpk : p = k
    · rw [← hpk]
      exact hgs.here
    · rw [hgs.elsewhere k (Ne.symm hpk)]
      exact h.cleared k hk hpk (under_nil _ _)
  · intro k hk
    rw [hgs.elsewhere k, h.outside k (fun hb => hk hb.1)]
    rintro rfl
    exact hk (List.prefix_refl _)

end Clearing

/-- The directories below a path are at most so many levels down. -/
def Nested (fs : FileSystem ν) (p : List ν) (levels : Nat) : Prop :=
  ∀ k, fs.get? k = some .directory → p <+: k → k.length ≤ p.length + levels

theorem Nested.sub {levels : Nat} (h : fs.Nested p levels) (hsub : gs.Sub fs) : gs.Nested p levels :=
  fun k hk hp => h k (hsub k _ hk) hp

/-- Everything strictly below a path. -/
def descendants (fs : FileSystem ν) (p : List ν) : Nat :=
  (fs.entries.keys.filter fun k => decide (p <+: k ∧ p ≠ k)).length

theorem descendants_eq (fs : FileSystem ν) (p : List ν) : fs.descendants p = fs.weight p (fs.names p) := by
  unfold descendants weight
  congr 1
  refine List.filter_congr fun k hk => ?_
  obtain ⟨e, he⟩ := mem_keys_iff.mp hk
  rw [decide_eq_decide]
  constructor
  · exact fun h => under_names he h.1 h.2
  · rintro ⟨n, -, hn⟩
    refine ⟨(List.prefix_append _ _).trans hn, ?_⟩
    rintro rfl
    have hlength := hn.length_le
    rw [List.length_append, List.length_singleton] at hlength
    omega

theorem Clearing.perm_names {r : List ν} (h : Clearing fs p r gs) (hnodup : r.Nodup) (hr : ∀ n ∈ r, n ∈ fs.names p) :
    (gs.names p).Perm r := by
  refine (List.perm_ext_iff_of_nodup (nodup_names _ _) hnodup).mpr fun n => ?_
  rw [mem_names]
  constructor
  · rintro ⟨e, he⟩
    by_contra hn
    rw [h.cleared (p ++ [n]) (List.prefix_append _ _) (by simp) ?_] at he
    · cases he
    · rintro ⟨m, hm, hbelow⟩
      exact hn (prefix_child_inj hbelow (List.prefix_refl _) ▸ hm)
  · intro hn
    obtain ⟨e, he⟩ := mem_names.mp (hr n hn)
    exact ⟨e, (h.kept _ ⟨n, hn, List.prefix_refl _⟩).trans he⟩

theorem Clearing.andThen {r : List ν} {hs : FileSystem ν} (h : Clearing fs p r gs) (h' : Clearing gs p [] hs) : Clearing fs p [] hs :=
  ⟨fun k hk => (h'.outside k hk).trans (h.outside k hk), fun _ hk => absurd hk (under_nil _ _), h'.cleared⟩

end Wayjournal.Fs.FileSystem
