import Mathlib.Data.List.Lex
import Wayjournal.Collections.Sorted

universe u v w

namespace Wayjournal.Collections

/-- An ordered map: a finite association list whose keys increase strictly.
The order is a field, so iteration order and key uniqueness never need a side
condition. -/
structure BTreeMap (κ : Type u) (υ : Type v) [LinearOrder κ] where
  entries : List (κ × υ)
  sorted : (entries.map Prod.fst).Pairwise (· < ·)

namespace BTreeMap

variable {κ : Type u} {υ : Type v} {ω : Type w} [LinearOrder κ]

instance [DecidableEq υ] : DecidableEq (BTreeMap κ υ) := fun m n =>
  decidable_of_iff (m.entries = n.entries) (by cases m; cases n; simp)

theorem entries_inj {m n : BTreeMap κ υ} (h : m.entries = n.entries) : m = n := by
  cases m
  cases n
  cases h
  rfl

def empty : BTreeMap κ υ := ⟨[], List.Pairwise.nil⟩

instance : EmptyCollection (BTreeMap κ υ) := ⟨empty⟩

instance : Inhabited (BTreeMap κ υ) := ⟨empty⟩

def lookup (k : κ) : List (κ × υ) → Option υ
  | [] => none
  | (k', v) :: t => if k = k' then some v else lookup k t

def get? (m : BTreeMap κ υ) (k : κ) : Option υ := lookup k m.entries

def containsKey (m : BTreeMap κ υ) (k : κ) : Bool := (m.get? k).isSome

def keys (m : BTreeMap κ υ) : List κ := m.entries.map Prod.fst

def values (m : BTreeMap κ υ) : List υ := m.entries.map Prod.snd

def insertEntry (k : κ) (v : υ) : List (κ × υ) → List (κ × υ)
  | [] => [(k, v)]
  | (k', v') :: t =>
    if k < k' then (k, v) :: (k', v') :: t
    else if k = k' then (k, v) :: t
    else (k', v') :: insertEntry k v t

theorem mem_keys_insertEntry {k k' : κ} {v : υ} {l : List (κ × υ)} :
    k' ∈ (insertEntry k v l).map Prod.fst ↔ k' = k ∨ k' ∈ l.map Prod.fst := by
  induction l with
  | nil => simp [insertEntry]
  | cons e t ih =>
    obtain ⟨ke, ve⟩ := e
    simp only [insertEntry]
    split
    · simp
    · split
      · rename_i h
        subst h
        simp
      · simp only [List.map_cons, List.mem_cons, ih]
        tauto

theorem sorted_insertEntry {k : κ} {v : υ} {l : List (κ × υ)}
    (h : (l.map Prod.fst).Pairwise (· < ·)) :
    ((insertEntry k v l).map Prod.fst).Pairwise (· < ·) := by
  induction l with
  | nil => simp [insertEntry]
  | cons e t ih =>
    obtain ⟨ke, ve⟩ := e
    simp only [List.map_cons, List.pairwise_cons] at h
    simp only [insertEntry]
    split
    · rename_i hlt
      simp only [List.map_cons, List.pairwise_cons, List.mem_cons]
      refine ⟨?_, h.1, h.2⟩
      rintro a (rfl | ha)
      · exact hlt
      · exact hlt.trans (h.1 a ha)
    · split
      · rename_i heq
        subst heq
        simpa using h
      · rename_i hnlt hne
        simp only [List.map_cons, List.pairwise_cons]
        refine ⟨?_, ih h.2⟩
        intro a ha
        obtain rfl | ha := mem_keys_insertEntry.mp ha
        · exact lt_of_le_of_ne (not_lt.mp hnlt) (Ne.symm hne)
        · exact h.1 a ha

def insert (m : BTreeMap κ υ) (k : κ) (v : υ) : BTreeMap κ υ :=
  ⟨insertEntry k v m.entries, sorted_insertEntry m.sorted⟩

def erase (m : BTreeMap κ υ) (k : κ) : BTreeMap κ υ :=
  ⟨m.entries.filter (fun e => e.1 ≠ k),
    m.sorted.sublist ((List.filter_sublist).map Prod.fst)⟩

/-- `entry(k).or_insert(d)` followed by an in-place update. -/
def update (m : BTreeMap κ υ) (k : κ) (d : υ) (f : υ → υ) : BTreeMap κ υ :=
  m.insert k (f ((m.get? k).getD d))

def ofList (l : List (κ × υ)) : BTreeMap κ υ :=
  l.foldl (fun m e => m.insert e.1 e.2) empty

def mapValues (f : κ → υ → ω) (m : BTreeMap κ υ) : BTreeMap κ ω :=
  ⟨m.entries.map (fun e => (e.1, f e.1 e.2)), by
    have := m.sorted
    simpa [List.map_map, Function.comp_def] using this⟩

theorem lookup_eq_none_of_notMem {k : κ} {l : List (κ × υ)} (h : k ∉ l.map Prod.fst) :
    lookup k l = none := by
  induction l with
  | nil => rfl
  | cons e t ih =>
    simp only [List.map_cons, List.mem_cons, not_or] at h
    simp [lookup, h.1, ih h.2]

theorem lookup_insertEntry {k k' : κ} {v : υ} {l : List (κ × υ)}
    (h : (l.map Prod.fst).Pairwise (· < ·)) :
    lookup k' (insertEntry k v l) = if k' = k then some v else lookup k' l := by
  induction l with
  | nil => simp [insertEntry, lookup]
  | cons e t ih =>
    obtain ⟨ke, ve⟩ := e
    simp only [List.map_cons, List.pairwise_cons] at h
    simp only [insertEntry]
    split
    · simp [lookup]
    · split
      · rename_i heq
        subst heq
        by_cases hk : k' = k <;> simp [lookup, hk]
      · rename_i hne
        simp only [lookup, ih h.2]
        by_cases hk : k' = ke
        · subst hk
          simp [Ne.symm hne]
        · simp [hk]

theorem lookup_filter {k k' : κ} {l : List (κ × υ)} :
    lookup k' (l.filter (fun e => e.1 ≠ k)) = if k' = k then none else lookup k' l := by
  induction l with
  | nil => simp [lookup]
  | cons e t ih =>
    obtain ⟨ke, ve⟩ := e
    by_cases hke : ke = k
    · subst hke
      by_cases hk : k' = ke <;> simp_all [lookup]
    · by_cases hk : k' = ke
      · subst hk
        simp [lookup, hke]
      · simp_all [lookup]

@[simp] theorem get?_empty (k : κ) : (∅ : BTreeMap κ υ).get? k = none := rfl

@[simp] theorem get?_insert (m : BTreeMap κ υ) (k k' : κ) (v : υ) :
    (m.insert k v).get? k' = if k' = k then some v else m.get? k' :=
  lookup_insertEntry m.sorted

@[simp] theorem get?_erase (m : BTreeMap κ υ) (k k' : κ) :
    (m.erase k).get? k' = if k' = k then none else m.get? k' :=
  lookup_filter

@[simp] theorem get?_update (m : BTreeMap κ υ) (k k' : κ) (d : υ) (f : υ → υ) :
    (m.update k d f).get? k' = if k' = k then some (f ((m.get? k).getD d)) else m.get? k' :=
  get?_insert m k k' _

theorem lookup_eq_some_iff {l : List (κ × υ)} (h : (l.map Prod.fst).Pairwise (· < ·))
    {k : κ} {v : υ} : lookup k l = some v ↔ (k, v) ∈ l := by
  induction l with
  | nil => simp [lookup]
  | cons e t ih =>
    obtain ⟨ke, ve⟩ := e
    simp only [List.map_cons, List.pairwise_cons] at h
    by_cases hk : k = ke
    · subst hk
      have hnot : (k, v) ∉ t := by
        intro hm
        exact lt_irrefl k (h.1 k (List.mem_map_of_mem hm))
      simp [lookup, hnot, eq_comm]
    · simp [lookup, hk, ih h.2]

theorem mem_entries_iff {m : BTreeMap κ υ} {k : κ} {v : υ} :
    (k, v) ∈ m.entries ↔ m.get? k = some v :=
  (lookup_eq_some_iff m.sorted).symm

theorem mem_keys_iff {m : BTreeMap κ υ} {k : κ} : k ∈ m.keys ↔ ∃ v, m.get? k = some v := by
  constructor
  · intro h
    obtain ⟨e, he, rfl⟩ := List.mem_map.mp h
    exact ⟨e.2, mem_entries_iff.mp he⟩
  · rintro ⟨v, hv⟩
    exact List.mem_map.mpr ⟨(k, v), mem_entries_iff.mpr hv, rfl⟩

theorem mem_values_iff {m : BTreeMap κ υ} {v : υ} : v ∈ m.values ↔ ∃ k, m.get? k = some v := by
  constructor
  · intro h
    obtain ⟨e, he, rfl⟩ := List.mem_map.mp h
    exact ⟨e.1, mem_entries_iff.mp he⟩
  · rintro ⟨k, hk⟩
    exact List.mem_map.mpr ⟨(k, v), mem_entries_iff.mpr hk, rfl⟩

theorem containsKey_iff {m : BTreeMap κ υ} {k : κ} : m.containsKey k ↔ k ∈ m.keys := by
  rw [mem_keys_iff, containsKey, Option.isSome_iff_exists]

theorem keys_sorted (m : BTreeMap κ υ) : m.keys.Pairwise (· < ·) := m.sorted

theorem keys_nodup (m : BTreeMap κ υ) : m.keys.Nodup := m.sorted.imp ne_of_lt

theorem ext_get? {m n : BTreeMap κ υ} (h : ∀ k, m.get? k = n.get? k) : m = n := by
  apply entries_inj
  have hmem : ∀ e, e ∈ m.entries ↔ e ∈ n.entries := by
    rintro ⟨k, v⟩
    rw [mem_entries_iff, mem_entries_iff, h]
  have hnodup : ∀ m : BTreeMap κ υ, m.entries.Nodup :=
    fun m => List.Nodup.of_map Prod.fst m.keys_nodup
  have hp : m.entries.Perm n.entries := (List.perm_ext_iff_of_nodup (hnodup m) (hnodup n)).mpr hmem
  have hs : ∀ m : BTreeMap κ υ, m.entries.Pairwise (fun a b => a.1 < b.1) :=
    fun m => List.pairwise_map.mp m.sorted
  exact hp.eq_of_pairwise (fun a b _ _ hab hba => absurd hab hba.asymm) (hs m) (hs n)

end BTreeMap

/-- An ordered set. -/
abbrev BTreeSet (κ : Type u) [LinearOrder κ] := BTreeMap κ Unit

namespace BTreeSet

variable {κ : Type u} [LinearOrder κ]

def ofKeys (l : List κ) : BTreeSet κ := BTreeMap.ofList (l.map (fun k => (k, ())))

def popFirst (s : BTreeSet κ) : Option (κ × BTreeSet κ) :=
  match h : s.entries with
  | [] => none
  | e :: t => some (e.1, ⟨t, by
      have := s.sorted
      rw [h, List.map_cons, List.pairwise_cons] at this
      exact this.2⟩)

theorem popFirst_eq_none {s : BTreeSet κ} (h : s.popFirst = none) (k : κ) : k ∉ s.keys := by
  unfold popFirst at h
  split at h
  · rename_i hs
    simp [BTreeMap.keys, hs]
  · cases h

theorem keys_of_popFirst {s t : BTreeSet κ} {k : κ} (h : s.popFirst = some (k, t)) :
    s.keys = k :: t.keys := by
  unfold popFirst at h
  split at h
  · cases h
  · rename_i hs
    cases h
    simp [BTreeMap.keys, hs]

theorem popFirst_mem {s t : BTreeSet κ} {k : κ} (h : s.popFirst = some (k, t)) : k ∈ s.keys := by
  simp [keys_of_popFirst h]

theorem popFirst_le {s t : BTreeSet κ} {k a : κ} (h : s.popFirst = some (k, t)) (ha : a ∈ s.keys) :
    k ≤ a := by
  have hs := s.keys_sorted
  rw [keys_of_popFirst h, List.pairwise_cons] at hs
  rw [keys_of_popFirst h, List.mem_cons] at ha
  obtain rfl | ha := ha
  · exact le_rfl
  · exact (hs.1 a ha).le

theorem mem_keys_popFirst {s t : BTreeSet κ} {k a : κ} (h : s.popFirst = some (k, t)) :
    a ∈ t.keys ↔ a ∈ s.keys ∧ a ≠ k := by
  have hs := s.keys_sorted
  rw [keys_of_popFirst h, List.pairwise_cons] at hs
  rw [keys_of_popFirst h, List.mem_cons]
  constructor
  · intro ha
    exact ⟨.inr ha, (hs.1 a ha).ne'⟩
  · rintro ⟨rfl | ha, hne⟩
    · exact absurd rfl hne
    · exact ha

end BTreeSet

namespace BTreeMap

variable {κ : Type u} {υ : Type v} {ω : Type w} [LinearOrder κ]

theorem mem_keys_insert {m : BTreeMap κ υ} {k a : κ} {v : υ} :
    a ∈ (m.insert k v).keys ↔ a = k ∨ a ∈ m.keys := mem_keys_insertEntry

theorem mem_keys_erase {m : BTreeMap κ υ} {k a : κ} :
    a ∈ (m.erase k).keys ↔ a ∈ m.keys ∧ a ≠ k := by
  simp only [mem_keys_iff, get?_erase]
  by_cases h : a = k <;> simp [h]

theorem lookup_map (f : κ → υ → ω) (k : κ) (l : List (κ × υ)) :
    lookup k (l.map (fun e => (e.1, f e.1 e.2))) = (lookup k l).map (f k) := by
  induction l with
  | nil => rfl
  | cons e t ih =>
    simp only [List.map_cons, lookup, ih]
    split
    · rename_i h
      simp [h]
    · rfl

@[simp] theorem get?_mapValues (f : κ → υ → ω) (m : BTreeMap κ υ) (k : κ) :
    (m.mapValues f).get? k = (m.get? k).map (f k) := lookup_map f k m.entries

theorem get?_foldl_insert {l : List (κ × υ)} (h : (l.map Prod.fst).Nodup) (m : BTreeMap κ υ) {k : κ} {v : υ} :
    (l.foldl (fun m e => m.insert e.1 e.2) m).get? k = some v ↔
      (k, v) ∈ l ∨ (k ∉ l.map Prod.fst ∧ m.get? k = some v) := by
  induction l generalizing m with
  | nil => simp
  | cons e t ih =>
    obtain ⟨ke, ve⟩ := e
    rw [List.map_cons, List.nodup_cons] at h
    rw [List.foldl_cons, ih h.2, get?_insert, List.map_cons]
    have hmem : ∀ w, (k, w) ∈ t → k ∈ t.map Prod.fst := fun w hw => List.mem_map_of_mem hw
    by_cases hk : k = ke
    · subst hk
      have hnot : (k, v) ∉ t := fun hw => h.1 (hmem v hw)
      simp [h.1, hnot, eq_comm]
    · simp [hk]

theorem get?_ofList {l : List (κ × υ)} (h : (l.map Prod.fst).Nodup) {k : κ} {v : υ} :
    (ofList l).get? k = some v ↔ (k, v) ∈ l := by
  rw [ofList, get?_foldl_insert h]
  simp [empty, get?, lookup]

theorem mem_of_mem_foldl_insert {l : List (κ × υ)} {m : BTreeMap κ υ} {e : κ × υ}
    (h : e ∈ (l.foldl (fun m e => m.insert e.1 e.2) m).entries) : e ∈ l ∨ e ∈ m.entries := by
  induction l generalizing m with
  | nil => exact .inr h
  | cons a t ih =>
    rw [List.foldl_cons] at h
    obtain h | h := ih h
    · exact .inl (List.mem_cons_of_mem a h)
    · obtain ⟨k, v⟩ := e
      rw [mem_entries_iff, get?_insert] at h
      split at h
      · rename_i heq
        cases h
        subst heq
        exact .inl List.mem_cons_self
      · exact .inr (mem_entries_iff.mpr h)

theorem mem_of_mem_ofList {l : List (κ × υ)} {e : κ × υ} (h : e ∈ (ofList l).entries) : e ∈ l := by
  obtain h | h := mem_of_mem_foldl_insert h
  · exact h
  · cases h

theorem entries_ofList_of_sorted {l : List (κ × υ)} (h : (l.map Prod.fst).Pairwise (· < ·)) :
    (ofList l).entries = l := by
  have hmap : ofList l = ⟨l, h⟩ := by
    apply ext_get?
    intro k
    apply Option.ext
    intro v
    rw [get?_ofList (h.imp ne_of_lt), ← mem_entries_iff]
  rw [hmap]

theorem entries_ofList_perm {l : List (κ × υ)} (h : (l.map Prod.fst).Nodup) : (ofList l).entries.Perm l := by
  have hentries : (ofList l).entries.Nodup := (ofList l).keys_nodup.of_map
  refine (List.perm_ext_iff_of_nodup hentries h.of_map).mpr fun e => ?_
  obtain ⟨k, v⟩ := e
  rw [mem_entries_iff, get?_ofList h]

theorem notMem_keys_iff {m : BTreeMap κ υ} {k : κ} : k ∉ m.keys ↔ m.get? k = none := by
  rw [mem_keys_iff, Option.eq_none_iff_forall_ne_some]
  simp

end BTreeMap

namespace BTreeSet

variable {κ : Type u} [LinearOrder κ]

theorem mem_keys_foldl_insert {l : List κ} {s : BTreeSet κ} {k : κ} :
    k ∈ (l.foldl (fun s a => s.insert a ()) s).keys ↔ k ∈ s.keys ∨ k ∈ l := by
  induction l generalizing s with
  | nil => simp
  | cons a t ih =>
    simp only [List.foldl_cons, ih, BTreeMap.mem_keys_insert, List.mem_cons]
    tauto

theorem mem_keys_ofKeys {l : List κ} {k : κ} : k ∈ (ofKeys l).keys ↔ k ∈ l := by
  have hempty : k ∉ (∅ : BTreeSet κ).keys := List.not_mem_nil
  rw [ofKeys, BTreeMap.ofList, List.foldl_map]
  exact mem_keys_foldl_insert.trans (or_iff_right hempty)

theorem ext_keys {s t : BTreeSet κ} (h : ∀ k, k ∈ s.keys ↔ k ∈ t.keys) : s = t := by
  refine BTreeMap.ext_get? fun k => ?_
  have hk := h k
  rw [BTreeMap.mem_keys_iff, BTreeMap.mem_keys_iff] at hk
  cases hs : s.get? k with
  | none =>
    cases ht : t.get? k with
    | none => rfl
    | some u =>
      obtain ⟨v, hv⟩ := hk.mpr ⟨u, ht⟩
      rw [hs] at hv
      cases hv
  | some u =>
    obtain ⟨v, hv⟩ := hk.mp ⟨u, hs⟩
    rw [hv]

theorem ofKeys_congr {l l' : List κ} (h : ∀ k, k ∈ l ↔ k ∈ l') : ofKeys l = ofKeys l' :=
  ext_keys fun k => by rw [mem_keys_ofKeys, mem_keys_ofKeys, h]

end BTreeSet

end Wayjournal.Collections
