import Mathlib.Data.List.Sort
import Mathlib.Order.Basic

universe u

namespace Wayjournal.Collections

variable {κ : Type u} [LinearOrder κ]

/-- `windows(2).all(|pair| pair[0] < pair[1])`. -/
def ascending : List κ → Bool
  | [] => true
  | [_] => true
  | a :: b :: t => a < b && ascending (b :: t)

theorem ascending_iff {l : List κ} : ascending l = true ↔ l.Pairwise (· < ·) := by
  rw [← List.isChain_iff_pairwise]
  induction l with
  | nil => simp [ascending]
  | cons a t ih =>
    cases t with
    | nil => simp [ascending]
    | cons b t => simp [ascending, ih]

/-- Two strictly increasing lists with the same members are equal. -/
theorem eq_of_sorted_of_mem_iff {l₁ l₂ : List κ} (h₁ : l₁.Pairwise (· < ·))
    (h₂ : l₂.Pairwise (· < ·)) (h : ∀ a, a ∈ l₁ ↔ a ∈ l₂) : l₁ = l₂ := by
  have hp : l₁.Perm l₂ :=
    (List.perm_ext_iff_of_nodup (h₁.imp ne_of_lt) (h₂.imp ne_of_lt)).mpr h
  exact hp.eq_of_pairwise (fun a b _ _ hab hba => absurd hab hba.asymm) h₁ h₂

/-- `dedup`: of equal neighbours only one stays. -/
def dedupAdjacent : List κ → List κ
  | [] => []
  | [a] => [a]
  | a :: b :: t => if a = b then dedupAdjacent (b :: t) else a :: dedupAdjacent (b :: t)

theorem mem_dedupAdjacent {l : List κ} {a : κ} : a ∈ dedupAdjacent l ↔ a ∈ l := by
  fun_induction dedupAdjacent l with
  | case1 => simp
  | case2 => simp
  | case3 b t ih => simp [ih]
  | case4 b c t h ih => simp [ih]

theorem sorted_dedupAdjacent {l : List κ} (h : l.Pairwise (· ≤ ·)) :
    (dedupAdjacent l).Pairwise (· < ·) := by
  fun_induction dedupAdjacent l with
  | case1 => exact .nil
  | case2 => simp
  | case3 b t ih => exact ih h.tail
  | case4 b c t hne ih =>
    rw [List.pairwise_cons] at h ⊢
    refine ⟨?_, ih h.2⟩
    intro a ha
    have hc : b < c := lt_of_le_of_ne (h.1 c List.mem_cons_self) hne
    obtain rfl | hat := List.mem_cons.mp (mem_dedupAdjacent.mp ha)
    · exact hc
    · exact hc.trans_le ((List.pairwise_cons.mp h.2).1 a hat)

/-- `sort` followed by `dedup`. -/
def sortDedup (l : List κ) : List κ := dedupAdjacent (l.insertionSort (· ≤ ·))

theorem sorted_sortDedup (l : List κ) : (sortDedup l).Pairwise (· < ·) :=
  sorted_dedupAdjacent (List.pairwise_insertionSort _ l)

theorem mem_sortDedup {l : List κ} {a : κ} : a ∈ sortDedup l ↔ a ∈ l := by
  rw [sortDedup, mem_dedupAdjacent, List.mem_insertionSort]

end Wayjournal.Collections
