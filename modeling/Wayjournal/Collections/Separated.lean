import Mathlib.Data.List.Lex

universe u

namespace Wayjournal.Collections

variable {α : Type u}

theorem mem_intercalate {sep a : α} {l : List (List α)} (h : a ∈ [sep].intercalate l) :
    a = sep ∨ ∃ x ∈ l, a ∈ x := by
  induction l with
  | nil => cases h
  | cons x t ih =>
    cases t with
    | nil =>
      rw [List.intercalate_singleton] at h
      exact .inr ⟨x, List.mem_cons_self, h⟩
    | cons y t =>
      rw [List.intercalate_cons_cons, List.append_assoc, List.mem_append, List.mem_append,
        List.mem_singleton] at h
      obtain h | h | h := h
      · exact .inr ⟨x, List.mem_cons_self, h⟩
      · exact .inl h
      · obtain h | ⟨z, hz, ha⟩ := ih h
        · exact .inl h
        · exact .inr ⟨z, List.mem_cons_of_mem _ hz, ha⟩

/-- What stands before a separator is made of the first parts. -/
theorem take_of_intercalate {sep : α} {l : List (List α)} (hfree : ∀ x ∈ l, sep ∉ x) {dir rest : List α}
    (h : [sep].intercalate l = dir ++ sep :: rest) :
    ∃ k, k + 1 < l.length ∧ dir = [sep].intercalate (l.take (k + 1)) := by
  induction l generalizing dir with
  | nil => simp at h
  | cons a t ih =>
    have ha := hfree a List.mem_cons_self
    cases t with
    | nil =>
      rw [List.intercalate_singleton] at h
      exact absurd (h ▸ List.mem_append_right dir List.mem_cons_self) ha
    | cons b t =>
      rw [List.intercalate_cons_cons, List.append_assoc, List.singleton_append, List.append_eq_append_iff] at h
      obtain ⟨m, rfl, hm⟩ | ⟨m, rfl, hm⟩ := h
      · cases m with
        | nil => exact ⟨0, by simp, by simp⟩
        | cons x m =>
          rw [List.cons_append, List.cons.injEq] at hm
          obtain ⟨rfl, hm⟩ := hm
          obtain ⟨k, hk, rfl⟩ := ih (fun y hy => hfree y (List.mem_cons_of_mem _ hy)) hm
          refine ⟨k + 1, by simpa using hk, ?_⟩
          simp only [List.take_succ_cons, List.intercalate_cons_cons, List.append_assoc, List.singleton_append]
      · cases m with
        | nil => exact ⟨0, by simp, by simp⟩
        | cons x m =>
          rw [List.cons_append, List.cons.injEq] at hm
          obtain ⟨rfl, -⟩ := hm
          exact absurd (List.mem_append_right dir List.mem_cons_self) ha

/-- Whatever stands between two lists begins as both of them do. -/
theorem isPrefix_of_between [LinearOrder α] {start a b c : List α} (ha : start <+: a) (hc : start <+: c)
    (hab : a ≤ b) (hbc : b ≤ c) : start <+: b := by
  induction start generalizing a b c with
  | nil => exact List.nil_prefix
  | cons x start ih =>
    obtain ⟨a, rfl⟩ := ha
    obtain ⟨c, rfl⟩ := hc
    cases b with
    | nil => exact absurd (List.nil_lt_cons x (start ++ a)) (not_lt.mpr hab)
    | cons y b =>
      rw [← not_lt, List.cons_append, List.cons_lt_cons_iff, not_or, not_and] at hab hbc
      obtain rfl : x = y := le_antisymm (not_lt.mp hab.1) (not_lt.mp hbc.1)
      refine List.cons_prefix_cons.mpr ⟨rfl, ih (List.prefix_append start a) (List.prefix_append start c) ?_ ?_⟩
      · exact not_lt.mp (hab.2 rfl)
      · exact not_lt.mp (hbc.2 rfl)

end Wayjournal.Collections
