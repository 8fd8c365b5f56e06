import Wayjournal.Collections.BTreeMap

namespace Wayjournal.Collections

variable {α κ υ : Type} [LinearOrder κ]

/-- The values of a list under their keys, in the order of the list. -/
def groupInto (key : α → κ) (value : α → υ) (l : List α) (m : BTreeMap κ (List υ)) : BTreeMap κ (List υ) :=
  l.foldl (fun m a => m.update (key a) [] (· ++ [value a])) m

variable {key : α → κ} {value : α → υ} {l : List α} {m : BTreeMap κ (List υ)} {k : κ}

theorem get?_groupInto :
    (groupInto key value l m).get? k =
      if l.filter (key · = k) = [] then m.get? k
      else some ((m.get? k).getD [] ++ (l.filter (key · = k)).map value) := by
  induction l generalizing m with
  | nil => rfl
  | cons a r ih =>
    have hcons : groupInto key value (a :: r) m = groupInto key value r (m.update (key a) [] (· ++ [value a])) := rfl
    rw [hcons, ih, BTreeMap.get?_update]
    by_cases hkey : key a = k
    · subst hkey
      simp only [List.filter_cons, decide_true, if_true]
      split <;> simp_all
    · have hkey' : ¬k = key a := fun h => hkey h.symm
      simp only [List.filter_cons, hkey, decide_false, if_neg hkey', Bool.false_eq_true, if_false]

theorem nodup_iff_filter : (l.map key).Nodup ↔ ∀ k, (l.filter (key · = k)).length ≤ 1 := by
  rw [List.nodup_iff_count_le_one]
  refine forall_congr' fun k => ?_
  rw [List.count, List.countP_map, List.countP_eq_length_filter]
  simp only [Function.comp_def, beq_eq_decide]

/-- Every group is a single value exactly when no key occurs twice. -/
theorem groups_le_one_iff :
    (∀ values ∈ (groupInto key value l ∅).values, values.length ≤ 1) ↔ (l.map key).Nodup := by
  rw [nodup_iff_filter]
  constructor
  · intro h k
    by_cases hnil : l.filter (key · = k) = []
    · rw [hnil]
      exact Nat.zero_le 1
    · have hget : (groupInto key value l ∅).get? k = some ((l.filter (key · = k)).map value) := by
        rw [get?_groupInto, if_neg hnil]
        rfl
      have hle := h _ (BTreeMap.mem_values_iff.mpr ⟨k, hget⟩)
      rwa [List.length_map] at hle
  · intro h values hvalues
    obtain ⟨k, hget⟩ := BTreeMap.mem_values_iff.mp hvalues
    rw [get?_groupInto] at hget
    split at hget
    · cases hget
    · cases hget
      rw [BTreeMap.get?_empty, Option.getD_none, List.nil_append, List.length_map]
      exact h k

end Wayjournal.Collections
