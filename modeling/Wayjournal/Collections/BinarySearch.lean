import Mathlib.Order.Basic
import Wayjournal.Collections.Sorted

namespace Wayjournal.Collections

variable {α κ : Type} [LinearOrder κ]

/-- The position at which `slice::binary_search` ends; as many rounds as there are elements
are more than it takes. -/
def bisect (key : α → κ) (l : List α) (x : κ) : Nat → Nat → Nat → Nat
  | 0, _, base => base
  | rounds + 1, size, base =>
    if size ≤ 1 then base
    else
      let mid := base + size / 2
      bisect key l x rounds (size - size / 2) (if l[mid]?.any (fun a => x < key a) then base else mid)

/-- `binary_search_by_key(..).is_ok()`. -/
def binarySearchBy (key : α → κ) (l : List α) (x : κ) : Bool :=
  l[bisect key l x l.length l.length 0]?.any (fun a => key a = x)

def binarySearch (l : List κ) (x : κ) : Bool := binarySearchBy id l x

theorem getElem_lt_of_sorted {key : α → κ} {l : List α} (h : l.Pairwise (fun a b => key a < key b)) {i j : Nat} {a b : α}
    (hi : l[i]? = some a) (hj : l[j]? = some b) (hlt : i < j) : key a < key b := by
  obtain ⟨hi', rfl⟩ := List.getElem?_eq_some_iff.mp hi
  obtain ⟨hj', rfl⟩ := List.getElem?_eq_some_iff.mp hj
  exact List.pairwise_iff_getElem.mp h i j hi' hj' hlt

/-- The search keeps the element between its bounds. -/
theorem bisect_eq {key : α → κ} {l : List α} (h : l.Pairwise (fun a b => key a < key b)) {i : Nat} {a : α}
    (hi : l[i]? = some a) {rounds size base : Nat} (hrounds : size ≤ rounds + 1)
    (hlength : base + size ≤ l.length) (hlow : base ≤ i) (hhigh : i < base + size) : bisect key l (key a) rounds size base = i := by
  induction rounds generalizing size base with
  | zero =>
    rw [bisect]
    omega
  | succ rounds ih =>
    rw [bisect]
    by_cases hsize : size ≤ 1
    · rw [if_pos hsize]
      omega
    · rw [if_neg hsize]
      dsimp only
      by_cases hmid : l[base + size / 2]?.any (fun b => key a < key b) = true
      · rw [if_pos hmid]
        obtain ⟨b, hb, hlt⟩ := (Option.any_eq_true _ _).mp hmid
        have hbound : i < base + size / 2 := by
          by_contra hle
          obtain heq | hgt := Nat.lt_or_eq_of_le (not_lt.mp hle) |>.symm
          · rw [← heq, hb] at hi
            cases hi
            exact absurd (of_decide_eq_true hlt) (lt_irrefl _)
          · exact absurd (of_decide_eq_true hlt) (getElem_lt_of_sorted h hb hi hgt).asymm
        exact ih (by omega) (by omega) hlow (by omega)
      · rw [if_neg hmid]
        have hbound : base + size / 2 ≤ i := by
          by_contra hlt
          have hb := List.getElem?_eq_getElem (l := l) (i := base + size / 2) (by omega)
          refine hmid ((Option.any_eq_true _ _).mpr ⟨_, hb, decide_eq_true ?_⟩)
          exact getElem_lt_of_sorted h hi hb (not_le.mp hlt)
        exact ih (by omega) (by omega) hbound (by omega)

theorem binarySearchBy_iff {key : α → κ} {l : List α} (h : l.Pairwise (fun a b => key a < key b)) {x : κ} :
    binarySearchBy key l x = true ↔ ∃ a ∈ l, key a = x := by
  constructor
  · intro hfound
    obtain ⟨a, ha, hx⟩ := (Option.any_eq_true _ _).mp hfound
    exact ⟨a, List.mem_of_getElem? ha, of_decide_eq_true hx⟩
  · rintro ⟨a, ha, rfl⟩
    obtain ⟨i, hi⟩ := List.mem_iff_getElem?.mp ha
    have hlength := (List.getElem?_eq_some_iff.mp hi).1
    rw [binarySearchBy, bisect_eq h hi (Nat.le_succ _) (by omega) (Nat.zero_le i) (by omega), hi]
    simp

theorem binarySearch_iff {l : List κ} (h : l.Pairwise (· < ·)) {x : κ} : binarySearch l x = true ↔ x ∈ l := by
  have hiff : binarySearchBy id l x = true ↔ ∃ a ∈ l, id a = x := binarySearchBy_iff h
  rw [binarySearch, hiff]
  simp

/-- The common elements of two sorted slices, by a merge. -/
def intersection : List κ → List κ → List κ
  | [], _ => []
  | _ :: _, [] => []
  | a :: l, b :: r =>
    if a < b then intersection l (b :: r)
    else if b < a then intersection (a :: l) r
    else a :: intersection l r
termination_by l r => l.length + r.length

theorem mem_intersection {l r : List κ} (hl : l.Pairwise (· < ·)) (hr : r.Pairwise (· < ·)) {x : κ} :
    x ∈ intersection l r ↔ x ∈ l ∧ x ∈ r := by
  fun_induction intersection l r with
  | case1 => simp
  | case2 => simp
  | case3 a l b r hlt ih =>
    rw [ih hl.tail hr]
    constructor
    · exact fun h => ⟨List.mem_cons_of_mem a h.1, h.2⟩
    · rintro ⟨hxl, hxr⟩
      obtain rfl | hx := List.mem_cons.mp hxl
      · obtain rfl | hxr := List.mem_cons.mp hxr
        · exact absurd hlt (lt_irrefl _)
        · exact absurd hlt (List.rel_of_pairwise_cons hr hxr).asymm
      · exact ⟨hx, hxr⟩
  | case4 a l b r hlt hgt ih =>
    rw [ih hl hr.tail]
    constructor
    · exact fun h => ⟨h.1, List.mem_cons_of_mem b h.2⟩
    · rintro ⟨hxl, hxr⟩
      obtain rfl | hx := List.mem_cons.mp hxr
      · obtain rfl | hxl := List.mem_cons.mp hxl
        · exact absurd hgt (lt_irrefl _)
        · exact absurd hgt (List.rel_of_pairwise_cons hl hxl).asymm
      · exact ⟨hxl, hx⟩
  | case5 a l b r hlt hgt ih =>
    obtain rfl : a = b := le_antisymm (not_lt.mp hgt) (not_lt.mp hlt)
    rw [List.mem_cons, ih hl.tail hr.tail, List.mem_cons, List.mem_cons]
    constructor
    · rintro (rfl | hx)
      · exact ⟨.inl rfl, .inl rfl⟩
      · exact ⟨.inr hx.1, .inr hx.2⟩
    · rintro ⟨rfl | hxl, hxr⟩
      · exact .inl rfl
      · obtain rfl | hxr := hxr
        · exact .inl rfl
        · exact .inr ⟨hxl, hxr⟩

theorem sorted_intersection {l r : List κ} (hl : l.Pairwise (· < ·)) (hr : r.Pairwise (· < ·)) :
    (intersection l r).Pairwise (· < ·) := by
  fun_induction intersection l r with
  | case1 => exact .nil
  | case2 => exact .nil
  | case3 a l b r hlt ih => exact ih hl.tail hr
  | case4 a l b r hlt hgt ih => exact ih hl hr.tail
  | case5 a l b r hlt hgt ih =>
    refine .cons (fun x hx => ?_) (ih hl.tail hr.tail)
    exact List.rel_of_pairwise_cons hl ((mem_intersection hl.tail hr.tail).mp hx).1

end Wayjournal.Collections
