import Wayjournal.Json.Print

namespace Wayjournal.Json

open Text

theorem one_le_length_encodeChar (c : Char) : 1 ≤ (Utf8.encodeChar c).length := by
  unfold Utf8.encodeChar
  simp only
  split
  · simp
  · split
    · simp
    · split <;> simp

theorem le_length_ite {α : Type} {c : Prop} [Decidable c] {a b : List α} {n : Nat} (ha : n ≤ a.length)
    (hb : n ≤ b.length) : n ≤ (if c then a else b).length := by
  by_cases hc : c
  · rwa [if_pos hc]
  · rwa [if_neg hc]

theorem length_ite_le {α : Type} {c : Prop} [Decidable c] {a b : List α} {n : Nat} (ha : a.length ≤ n)
    (hb : b.length ≤ n) : (if c then a else b).length ≤ n := by
  by_cases hc : c
  · rwa [if_pos hc]
  · rwa [if_neg hc]

theorem one_le_length_escapeByte (b : UInt8) : 1 ≤ (escapeByte b).length := by
  unfold escapeByte
  repeat refine le_length_ite (Nat.le_add_left 1 _) ?_
  exact Nat.le_refl 1

theorem length_le_flatMap {α β : Type} (f : α → List β) (hf : ∀ a, 1 ≤ (f a).length) (l : List α) :
    l.length ≤ (l.flatMap f).length := by
  induction l with
  | nil => simp
  | cons a t ih =>
    have := hf a
    rw [List.flatMap_cons, List.length_append, List.length_cons]
    omega

theorem length_le_utf8 (s : String) : s.toList.length ≤ (utf8 s).length :=
  length_le_flatMap _ one_le_length_encodeChar _

theorem length_le_printString (s : String) : s.toList.length + 2 ≤ (printString s).length := by
  have hescape := length_le_flatMap escapeByte one_le_length_escapeByte (utf8 s)
  have hutf8 := length_le_utf8 s
  simp only [printString, List.length_cons, List.length_append, List.length_nil]
  omega

theorem sum_le_printItems (indent : Nat) (items : List Raw) :
    (items.map (fun v => (print indent v).length)).sum ≤ (printItems indent items).length := by
  induction items with
  | nil => simp
  | cons v vs ih =>
    simp only [printItems, List.map_cons, List.sum_cons, List.length_cons, List.length_append]
    omega

theorem sum_le_print_array (indent : Nat) (items : List Raw) :
    (items.map (fun v => (print (indent + 1) v).length)).sum ≤ (print indent (.array items)).length := by
  cases items with
  | nil => simp
  | cons v vs =>
    have := sum_le_printItems (indent + 1) vs
    simp only [print, List.map_cons, List.sum_cons, List.length_cons, List.length_append]
    omega

theorem length_le_printMembers_of_mem {indent : Nat} {members : List (String × Raw)} {e : String × Raw}
    (h : e ∈ members) : (print indent e.2).length ≤ (printMembers indent members).length := by
  induction members with
  | nil => cases h
  | cons m ms ih =>
    obtain ⟨k, v⟩ := m
    simp only [printMembers, List.length_cons, List.length_append]
    obtain rfl | h := List.mem_cons.mp h
    · simp only
      omega
    · have := ih h
      omega

theorem length_le_print_object {indent : Nat} {members : List (String × Raw)} {e : String × Raw}
    (h : e ∈ members) : (print (indent + 1) e.2).length ≤ (print indent (.object members)).length := by
  cases members with
  | nil => cases h
  | cons m ms =>
    obtain ⟨k, v⟩ := m
    simp only [print, List.length_cons, List.length_append]
    obtain rfl | h := List.mem_cons.mp h
    · simp only
      omega
    · have hmem : (print (indent + 1) e.2).length ≤ (printMembers (indent + 1) ms).length :=
        length_le_printMembers_of_mem h
      omega

theorem length_escapeByte_le (b : UInt8) : (escapeByte b).length ≤ 6 := by
  unfold escapeByte
  repeat refine length_ite_le (by simp) ?_
  simp

theorem length_flatMap_le {α β : Type} (f : α → List β) (n : Nat) (hf : ∀ a, (f a).length ≤ n)
    (l : List α) : (l.flatMap f).length ≤ n * l.length := by
  induction l with
  | nil => simp
  | cons a t ih =>
    have ha := hf a
    rw [List.flatMap_cons, List.length_append, List.length_cons, Nat.mul_succ]
    omega

theorem length_printString_le (s : String) : (printString s).length ≤ 6 * (utf8 s).length + 2 := by
  have hescape := length_flatMap_le escapeByte 6 length_escapeByte_le (utf8 s)
  simp only [printString, List.length_cons, List.length_append, List.length_nil]
  omega

theorem length_encodeChar_le (c : Char) : (Utf8.encodeChar c).length ≤ 4 := by
  unfold Utf8.encodeChar
  simp only
  split
  · simp
  · split
    · simp
    · split <;> simp

theorem length_printString_le_chars (s : String) : (printString s).length ≤ 24 * s.toList.length + 2 := by
  have hutf8 : (utf8 s).length ≤ 4 * s.toList.length := length_flatMap_le _ 4 length_encodeChar_le _
  have hprint := length_printString_le s
  omega

theorem length_newline (indent : Nat) : (newline indent).length = 2 * indent + 1 := by
  rw [newline, List.length_cons, List.length_replicate]

theorem length_printMembers (indent : Nat) (members : List (String × Raw)) :
    (printMembers indent members).length = (members.map fun e =>
      (printString e.1).length + (print indent e.2).length + (2 * indent + 4)).sum := by
  induction members with
  | nil => rfl
  | cons e es ih =>
    obtain ⟨k, v⟩ := e
    simp only [printMembers, List.map_cons, List.sum_cons, List.length_cons, List.length_append, List.length_nil,
      length_newline, ih]
    omega

theorem length_print_object {indent : Nat} {members : List (String × Raw)} (h : members ≠ []) :
    (print indent (.object members)).length = 2 * indent + 2 + (members.map fun e =>
      (printString e.1).length + (print (indent + 1) e.2).length + (2 * indent + 6)).sum := by
  cases members with
  | nil => exact absurd rfl h
  | cons e es =>
    obtain ⟨k, v⟩ := e
    have hmembers := length_printMembers (indent + 1) es
    rw [show 2 * (indent + 1) + 4 = 2 * indent + 6 by omega] at hmembers
    simp only [print, List.map_cons, List.sum_cons, List.length_cons, List.length_append, List.length_nil,
      length_newline, hmembers]
    omega

theorem length_print_object_le (indent : Nat) (members : List (String × Raw)) :
    (print indent (.object members)).length ≤ 2 * indent + 3 + (members.map fun e =>
      (printString e.1).length + (print (indent + 1) e.2).length + (2 * indent + 6)).sum := by
  by_cases h : members = []
  · rw [h]
    simp [print]
  · rw [length_print_object h]
    omega

theorem length_printItems (indent : Nat) (items : List Raw) :
    (printItems indent items).length = (items.map fun v => (print indent v).length + (2 * indent + 2)).sum := by
  induction items with
  | nil => rfl
  | cons v vs ih =>
    simp only [printItems, List.map_cons, List.sum_cons, List.length_cons, List.length_append, length_newline, ih]
    omega

theorem length_print_array {indent : Nat} {items : List Raw} (h : items ≠ []) :
    (print indent (.array items)).length = 2 * indent + 2 + (items.map fun v =>
      (print (indent + 1) v).length + (2 * indent + 4)).sum := by
  cases items with
  | nil => exact absurd rfl h
  | cons v vs =>
    have hitems := length_printItems (indent + 1) vs
    rw [show 2 * (indent + 1) + 2 = 2 * indent + 4 by omega] at hitems
    simp only [print, List.map_cons, List.sum_cons, List.length_cons, List.length_append, List.length_nil,
      length_newline, hitems]
    omega

theorem length_print_array_le (indent : Nat) (items : List Raw) :
    (print indent (.array items)).length ≤ 2 * indent + 3 + (items.map fun v =>
      (print (indent + 1) v).length + (2 * indent + 4)).sum := by
  by_cases h : items = []
  · rw [h]
    simp [print]
  · rw [length_print_array h]
    omega

/-- A character of one byte that is printed as it is. -/
def isUnescaped (c : Char) : Bool := 0x20 ≤ c.toNat && c.toNat < 0x80 && c ≠ '"' && c ≠ '\\'

theorem escape_encodeChar {c : Char} (h : isUnescaped c = true) :
    ((Utf8.encodeChar c).flatMap escapeByte).length = 1 := by
  simp only [isUnescaped, Bool.and_eq_true, decide_eq_true_eq] at h
  obtain ⟨⟨⟨hlow, hhigh⟩, hquote⟩, hbackslash⟩ := h
  have hnat : (UInt8.ofNat c.toNat).toNat = c.toNat := Utf8.toNat_ofNat_of_lt (by omega)
  have hne : ∀ d : Char, d.toNat < 256 → c ≠ d → UInt8.ofNat c.toNat ≠ UInt8.ofNat d.toNat := by
    intro d hd hcd heq
    have := congrArg UInt8.toNat heq
    rw [hnat, Utf8.toNat_ofNat_of_lt hd] at this
    exact hcd (Char.toNat_inj.mp this)
  have hcontrol : ∀ b : UInt8, b.toNat < 0x20 → UInt8.ofNat c.toNat ≠ b := by
    rintro b hb rfl
    omega
  have hquote : UInt8.ofNat c.toNat ≠ 0x22 := hne '"' (by decide) hquote
  have hbackslash : UInt8.ofNat c.toNat ≠ 0x5c := hne '\\' (by decide) hbackslash
  rw [Utf8.encodeChar, if_pos hhigh, List.flatMap_singleton, escapeByte, if_neg hquote, if_neg hbackslash,
    if_neg (hcontrol _ (by decide)), if_neg (hcontrol _ (by decide)), if_neg (hcontrol _ (by decide)),
    if_neg (hcontrol _ (by decide)), if_neg (hcontrol _ (by decide)), if_neg (by omega)]
  rfl

theorem length_printString {s : String} (h : ∀ c ∈ s.toList, isUnescaped c = true) :
    (printString s).length = s.toList.length + 2 := by
  have hchars : ∀ cs : List Char, (∀ c ∈ cs, isUnescaped c = true) →
      ((Utf8.encode cs).flatMap escapeByte).length = cs.length := by
    intro cs hcs
    induction cs with
    | nil => rfl
    | cons c cs ih =>
      have htail := ih fun a ha => hcs a (List.mem_cons_of_mem c ha)
      have hhead := escape_encodeChar (hcs c List.mem_cons_self)
      rw [Utf8.encode] at htail ⊢
      rw [List.flatMap_cons, List.flatMap_append, List.length_append, hhead, htail, List.length_cons, Nat.add_comm]
  rw [printString, utf8, List.length_cons, List.length_append, hchars _ h, List.length_singleton]

theorem length_decimalAux_le (fuel n : Nat) (acc : List UInt8) :
    (decimalAux fuel n acc).length ≤ fuel + acc.length := by
  induction fuel generalizing n acc with
  | zero => simp [decimalAux]
  | succ fuel ih =>
    rw [decimalAux]
    split
    · rw [List.length_cons]
      omega
    · have := ih (n / 10) (digitByte (n % 10) :: acc)
      rw [List.length_cons] at this
      omega

theorem length_decimal_le (n : Nat) : (decimal n).length ≤ 20 := length_decimalAux_le 20 n []

end Wayjournal.Json
