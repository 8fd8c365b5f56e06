import Mathlib.Data.Finset.Max
import Mathlib.Data.Finset.Filter
import Mathlib.Data.Fintype.EquivFin
import Mathlib.Logic.Relation
import Mathlib.Order.Basic

universe u

namespace Wayjournal.Collections.Dag

variable {ι : Type u}

/-- `a` is a strict ancestor of `c` when a non-empty chain of parent edges leads
from `c` to `a`. -/
def Ancestor (P : ι → List ι) (a c : ι) : Prop := Relation.TransGen (fun p q => p ∈ P q) a c

def ParentClosed (P : ι → List ι) (s : ι → Prop) : Prop := ∀ c, s c → ∀ p ∈ P c, s p

theorem Ancestor.parent {P : ι → List ι} (h : p ∈ P c) : Ancestor P p c := .single h

theorem Ancestor.trans {P : ι → List ι} (h₁ : Ancestor P a b) (h₂ : Ancestor P b c) :
    Ancestor P a c := Relation.TransGen.trans h₁ h₂

theorem Ancestor.cases_parent {P : ι → List ι} (h : Ancestor P a c) :
    ∃ p ∈ P c, a = p ∨ Ancestor P a p := by
  cases h with
  | single h => exact ⟨a, h, .inl rfl⟩
  | tail h hp => exact ⟨_, hp, .inr h⟩

theorem ParentClosed.ancestor {P : ι → List ι} {s : ι → Prop} (hs : ParentClosed P s)
    (h : Ancestor P a c) (hc : s c) : s a := by
  induction h using Relation.TransGen.head_induction_on with
  | single h => exact hs _ hc _ h
  | head h _ ih => exact hs _ ih _ h

theorem Ancestor.congr {P Q : ι → List ι} {s : ι → Prop} (hs : ParentClosed P s)
    (hPQ : ∀ c, s c → P c = Q c) (hc : s c) (h : Ancestor P a c) : Ancestor Q a c := by
  induction h with
  | single h => exact .single (hPQ _ hc ▸ h)
  | tail h hp ih => exact (ih (hs _ hc _ hp)).tail (hPQ _ hc ▸ hp)

theorem ancestor_congr_iff {P Q : ι → List ι} {s : ι → Prop} (hs : ParentClosed P s)
    (hPQ : ∀ c, s c → P c = Q c) (hc : s c) : Ancestor P a c ↔ Ancestor Q a c := by
  constructor
  · exact Ancestor.congr hs hPQ hc
  · refine Ancestor.congr ?_ (fun d hd => (hPQ d hd).symm) hc
    intro d hd p hp
    exact hs d hd p (hPQ d hd ▸ hp)

/-- Every parent of an element is done already or stands before it. -/
def Topological (P : ι → List ι) (done : Finset ι) (l : List ι) : Prop :=
  ∀ l₁ x l₂, l = l₁ ++ x :: l₂ → ∀ p ∈ P x, p ∈ done ∨ p ∈ l₁

theorem Topological.head {P : ι → List ι} {done : Finset ι} {x : ι} {l : List ι}
    (h : Topological P done (x :: l)) : ∀ p ∈ P x, p ∈ done := by
  intro p hp
  obtain hd | hl := h [] x l rfl p hp
  · exact hd
  · cases hl

variable [LinearOrder ι]

def ready (P : ι → List ι) (todo done : Finset ι) : Finset ι :=
  todo.filter (fun c => ∀ p ∈ P c, p ∈ done)

theorem mem_ready {P : ι → List ι} {todo done : Finset ι} :
    c ∈ ready P todo done ↔ c ∈ todo ∧ ∀ p ∈ P c, p ∈ done := Finset.mem_filter

/-- The canonical topological order: always the least identifier whose parents
are done.  It stops early exactly when nothing is ready. -/
def leastOrder (P : ι → List ι) (todo done : Finset ι) : List ι :=
  if h : (ready P todo done).Nonempty then
    (ready P todo done).min' h ::
      leastOrder P (todo.erase ((ready P todo done).min' h))
        (insert ((ready P todo done).min' h) done)
  else []
  termination_by todo.card
  decreasing_by
    exact Finset.card_erase_lt_of_mem (mem_ready.mp (Finset.min'_mem _ h)).1

theorem leastOrder_of_nonempty {P : ι → List ι} {todo done : Finset ι}
    (h : (ready P todo done).Nonempty) :
    leastOrder P todo done = (ready P todo done).min' h ::
      leastOrder P (todo.erase ((ready P todo done).min' h))
        (insert ((ready P todo done).min' h) done) := by
  rw [leastOrder, dif_pos h]

theorem leastOrder_of_empty {P : ι → List ι} {todo done : Finset ι}
    (h : ¬(ready P todo done).Nonempty) : leastOrder P todo done = [] := by
  rw [leastOrder, dif_neg h]

theorem mem_todo_of_mem_leastOrder {P : ι → List ι} (todo done : Finset ι)
    (hx : x ∈ leastOrder P todo done) : x ∈ todo := by
  induction todo, done using leastOrder.induct P with
  | case1 todo done h ih =>
    rw [leastOrder_of_nonempty h, List.mem_cons] at hx
    obtain rfl | hx := hx
    · exact (mem_ready.mp (Finset.min'_mem _ h)).1
    · exact Finset.mem_of_mem_erase (ih hx)
  | case2 todo done h =>
    rw [leastOrder_of_empty h] at hx
    cases hx

theorem nodup_leastOrder (P : ι → List ι) (todo done : Finset ι) :
    (leastOrder P todo done).Nodup := by
  induction todo, done using leastOrder.induct P with
  | case1 todo done h ih =>
    rw [leastOrder_of_nonempty h, List.nodup_cons]
    refine ⟨?_, ih⟩
    intro hmem
    exact Finset.notMem_erase _ _ (mem_todo_of_mem_leastOrder _ _ hmem)
  | case2 todo done h => simp [leastOrder_of_empty h]

/-- Every parent of an element is done already or stands before it. -/
theorem parents_before {P : ι → List ι} (todo done : Finset ι) {l₁ l₂ : List ι} {x : ι}
    (h : leastOrder P todo done = l₁ ++ x :: l₂) : ∀ p ∈ P x, p ∈ done ∨ p ∈ l₁ := by
  induction todo, done using leastOrder.induct P generalizing l₁ with
  | case1 todo done hr ih =>
    rw [leastOrder_of_nonempty hr] at h
    cases l₁ with
    | nil =>
      simp only [List.nil_append, List.cons.injEq] at h
      intro p hp
      have hx := Finset.min'_mem _ hr
      rw [h.1] at hx
      exact .inl ((mem_ready.mp hx).2 p hp)
    | cons y l₁ =>
      simp only [List.cons_append, List.cons.injEq] at h
      intro p hp
      obtain hd | hl := ih h.2 p hp
      · rw [Finset.mem_insert, h.1] at hd
        obtain rfl | hd := hd
        · exact .inr List.mem_cons_self
        · exact .inl hd
      · exact .inr (List.mem_cons_of_mem _ hl)
  | case2 todo done hr =>
    rw [leastOrder_of_empty hr] at h
    simp at h

theorem Topological.tail {P : ι → List ι} {done : Finset ι} {x : ι} {l : List ι}
    (h : Topological P done (x :: l)) : Topological P (insert x done) l := by
  rintro l₁ y l₂ rfl p hp
  obtain hd | hl := h (x :: l₁) y l₂ rfl p hp
  · exact .inl (Finset.mem_insert_of_mem hd)
  · obtain rfl | hl := List.mem_cons.mp hl
    · exact .inl (Finset.mem_insert_self _ _)
    · exact .inr hl

/-- Among all topological orders of `todo` the canonical one is least. -/
theorem leastOrder_le {P : ι → List ι} (todo done : Finset ι) {l : List ι} (hnodup : l.Nodup)
    (hmem : ∀ x, x ∈ l ↔ x ∈ todo) (htop : Topological P done l) :
    leastOrder P todo done = l ∨ List.Lex (· < ·) (leastOrder P todo done) l := by
  induction todo, done using leastOrder.induct P generalizing l with
  | case1 todo done h ih =>
    have hmin := mem_ready.mp (Finset.min'_mem _ h)
    rw [leastOrder_of_nonempty h]
    cases l with
    | nil => cases (hmem _).mpr hmin.1
    | cons x l =>
      have hx : x ∈ ready P todo done := mem_ready.mpr ⟨(hmem x).mp List.mem_cons_self, htop.head⟩
      obtain hlt | heq := (Finset.min'_le _ x hx).lt_or_eq
      · exact .inr (.rel hlt)
      · rw [heq] at ih ⊢
        rw [List.nodup_cons] at hnodup
        have hrest : ∀ y, y ∈ l ↔ y ∈ todo.erase x := by
          intro y
          rw [Finset.mem_erase, ← hmem y, List.mem_cons]
          constructor
          · intro hy
            exact ⟨fun hyx => hnodup.1 (hyx ▸ hy), .inr hy⟩
          · rintro ⟨hne, rfl | hy⟩
            · exact absurd rfl hne
            · exact hy
        obtain hl | hl := ih hnodup.2 hrest htop.tail
        · exact .inl (by rw [hl])
        · exact .inr (.cons hl)
  | case2 todo done h =>
    rw [leastOrder_of_empty h]
    cases l with
    | nil => exact .inl rfl
    | cons x l => exact absurd ⟨x, mem_ready.mpr ⟨(hmem x).mp List.mem_cons_self, htop.head⟩⟩ h

theorem mem_leastOrder {P : ι → List ι} (todo done : Finset ι) (hx : x ∈ todo)
    (hp : ∀ p ∈ P x, p ∈ done ∨ p ∈ leastOrder P todo done) : x ∈ leastOrder P todo done := by
  induction todo, done using leastOrder.induct P with
  | case1 todo done h ih =>
    rw [leastOrder_of_nonempty h] at hp ⊢
    by_cases hmin : x = (ready P todo done).min' h
    · exact hmin ▸ List.mem_cons_self
    · apply List.mem_cons_of_mem
      apply ih (Finset.mem_erase.mpr ⟨hmin, hx⟩)
      intro p hmem
      rw [Finset.mem_insert, or_assoc, or_left_comm, ← List.mem_cons]
      exact hp p hmem
  | case2 todo done h =>
    rw [leastOrder_of_empty h] at hp
    refine absurd ⟨x, mem_ready.mpr ⟨hx, ?_⟩⟩ h
    intro p hmem
    exact (hp p hmem).resolve_right List.not_mem_nil

theorem ready_inter {P : ι → List ι} {s : Finset ι} (hs : ParentClosed P (· ∈ s))
    (todo done : Finset ι) : ready P (todo ∩ s) (done ∩ s) = ready P todo done ∩ s := by
  ext c
  simp only [mem_ready, Finset.mem_inter]
  constructor
  · rintro ⟨⟨ht, hc⟩, hp⟩
    exact ⟨⟨ht, fun p h => (hp p h).1⟩, hc⟩
  · rintro ⟨⟨ht, hp⟩, hc⟩
    exact ⟨⟨ht, hc⟩, fun p h => ⟨hp p h, hs c hc p h⟩⟩

/-- The order of a parent-closed part is the part of the whole order: extra
concurrent elements never change the relative order of the old ones. -/
theorem filter_leastOrder {P : ι → List ι} {s : Finset ι} (hs : ParentClosed P (· ∈ s))
    (todo done : Finset ι) :
    (leastOrder P todo done).filter (· ∈ s) = leastOrder P (todo ∩ s) (done ∩ s) := by
  induction todo, done using leastOrder.induct P with
  | case1 todo done h ih =>
    have hrw := ready_inter hs todo done
    rw [leastOrder_of_nonempty h]
    by_cases hm : (ready P todo done).min' h ∈ s
    · have hne : (ready P (todo ∩ s) (done ∩ s)).Nonempty :=
        ⟨_, hrw ▸ Finset.mem_inter.mpr ⟨Finset.min'_mem _ h, hm⟩⟩
      have hmin : (ready P (todo ∩ s) (done ∩ s)).min' hne = (ready P todo done).min' h := by
        apply le_antisymm
        · exact Finset.min'_le _ _ (hrw ▸ Finset.mem_inter.mpr ⟨Finset.min'_mem _ h, hm⟩)
        · have hmem := Finset.min'_mem _ hne
          generalize (ready P (todo ∩ s) (done ∩ s)).min' hne = x at hmem ⊢
          rw [hrw, Finset.mem_inter] at hmem
          exact Finset.min'_le _ _ hmem.1
      rw [leastOrder_of_nonempty hne, hmin, List.filter_cons_of_pos (by simpa using hm), ih,
        Finset.erase_inter, Finset.insert_inter_of_mem hm]
    · rw [List.filter_cons_of_neg (by simpa using hm), ih, Finset.erase_inter,
        Finset.insert_inter_of_notMem hm, Finset.erase_eq_of_notMem]
      exact fun h' => hm (Finset.mem_inter.mp h').2
  | case2 todo done h =>
    rw [leastOrder_of_empty h, leastOrder_of_empty]
    · rfl
    · rintro ⟨c, hc⟩
      rw [ready_inter hs] at hc
      exact h ⟨c, (Finset.mem_inter.mp hc).1⟩

/-- The order of all elements of `todo` from nothing done. -/
def canonical (P : ι → List ι) (s : Finset ι) : List ι := leastOrder P s ∅

theorem mem_of_mem_canonical {P : ι → List ι} {s : Finset ι} (h : x ∈ canonical P s) : x ∈ s :=
  mem_todo_of_mem_leastOrder _ _ h

theorem nodup_canonical (P : ι → List ι) (s : Finset ι) : (canonical P s).Nodup :=
  nodup_leastOrder P s ∅

theorem canonical_parents {P : ι → List ι} {s : Finset ι} {l₁ l₂ : List ι} {x : ι}
    (h : canonical P s = l₁ ++ x :: l₂) : ∀ p ∈ P x, p ∈ l₁ := by
  intro p hp
  obtain hd | hl := parents_before _ _ h p hp
  · cases Finset.notMem_empty p hd
  · exact hl

theorem filter_canonical {P : ι → List ι} {s t : Finset ι} (hs : ParentClosed P (· ∈ s))
    (hst : s ⊆ t) : (canonical P t).filter (· ∈ s) = canonical P s := by
  have h := filter_leastOrder hs t ∅
  rwa [Finset.empty_inter, Finset.inter_eq_right.mpr hst] at h

theorem leastOrder_congr {P Q : ι → List ι} (todo done : Finset ι) (h : ∀ c ∈ todo, P c = Q c) :
    leastOrder P todo done = leastOrder Q todo done := by
  induction todo, done using leastOrder.induct P with
  | case1 todo done hr ih =>
    have hrq : ready P todo done = ready Q todo done :=
      Finset.filter_congr (fun c hc => by rw [h c hc])
    have hr' : (ready Q todo done).Nonempty := hrq ▸ hr
    have hmin : (ready P todo done).min' hr = (ready Q todo done).min' hr' := by
      simp only [hrq]
    rw [leastOrder_of_nonempty hr, leastOrder_of_nonempty hr', ← hmin,
      ih (fun c hc => h c (Finset.mem_of_mem_erase hc))]
  | case2 todo done hr =>
    have hrq : ready P todo done = ready Q todo done :=
      Finset.filter_congr (fun c hc => by rw [h c hc])
    rw [leastOrder_of_empty hr, leastOrder_of_empty (hrq ▸ hr)]

/-- In a canonical order an ancestor of an element stands before it. -/
theorem canonical_ancestors {P : ι → List ι} {s : Finset ι} {l₁ l₂ : List ι} {x a : ι}
    (h : canonical P s = l₁ ++ x :: l₂) (ha : Ancestor P a x) : a ∈ l₁ := by
  have hclosed : ∀ c ∈ l₁, ∀ p ∈ P c, p ∈ l₁ := by
    intro c hc p hp
    obtain ⟨m₁, m₂, rfl⟩ := List.append_of_mem hc
    rw [List.append_assoc, List.cons_append] at h
    exact List.mem_append_left _ (canonical_parents h p hp)
  obtain ⟨p, hp, rfl | hap⟩ := ha.cases_parent
  · exact canonical_parents h a hp
  · exact ParentClosed.ancestor (s := (· ∈ l₁)) hclosed hap (canonical_parents h p hp)

/-- The canonical order reaches every element of a parent-closed set exactly when
no element is its own ancestor. -/
theorem canonical_covers_iff {P : ι → List ι} {s : Finset ι} (hs : ParentClosed P (· ∈ s)) :
    (∀ x ∈ s, x ∈ canonical P s) ↔ ∀ x ∈ s, ¬Ancestor P x x := by
  constructor
  · intro hall x hx hanc
    obtain ⟨l₁, l₂, h⟩ := List.append_of_mem (hall x hx)
    have hnodup := nodup_canonical P s
    rw [h] at hnodup
    exact (List.nodup_middle.mp hnodup).notMem (List.mem_append_left _ (canonical_ancestors h hanc))
  · intro hacyclic x hx
    let r : s → s → Prop := fun a b => Ancestor P a.1 b.1
    have htrans : IsTrans s r := ⟨fun _ _ _ h₁ h₂ => Ancestor.trans h₁ h₂⟩
    have hirrefl : Std.Irrefl r := ⟨fun a h => hacyclic a.1 a.2 h⟩
    have hwf : WellFounded r := Finite.wellFounded_of_trans_of_irrefl r
    have hmem : ∀ a : s, a.1 ∈ canonical P s := by
      intro a
      induction a using hwf.induction with
      | _ a ih =>
        apply mem_leastOrder _ _ a.2
        intro p hp
        exact .inr (ih ⟨p, hs a.1 a.2 p hp⟩ (Ancestor.parent hp))
    exact hmem ⟨x, hx⟩

end Wayjournal.Collections.Dag
