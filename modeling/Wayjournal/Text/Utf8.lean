import Mathlib.Order.Basic
import Mathlib.Tactic.Conv

namespace Wayjournal.Text.Utf8

def encodeChar (c : Char) : List UInt8 :=
  let n := c.toNat
  if n < 0x80 then [UInt8.ofNat n]
  else if n < 0x800 then [UInt8.ofNat (0xc0 + n / 64), UInt8.ofNat (0x80 + n % 64)]
  else if n < 0x10000 then
    [UInt8.ofNat (0xe0 + n / 4096), UInt8.ofNat (0x80 + n / 64 % 64), UInt8.ofNat (0x80 + n % 64)]
  else
    [UInt8.ofNat (0xf0 + n / 262144), UInt8.ofNat (0x80 + n / 4096 % 64),
      UInt8.ofNat (0x80 + n / 64 % 64), UInt8.ofNat (0x80 + n % 64)]

def encode (cs : List Char) : List UInt8 := cs.flatMap encodeChar

def isContinuation (b : Nat) : Bool := 0x80 ≤ b && b ≤ 0xbf

/-- `str::from_utf8`: no overlong form, no surrogate, nothing above `U+10FFFF`. -/
def decode : List UInt8 → Option (List Char)
  | [] => some []
  | b₀ :: rest =>
    let n₀ := b₀.toNat
    if n₀ < 0x80 then (decode rest).map (Char.ofNat n₀ :: ·)
    else if 0xc2 ≤ n₀ ∧ n₀ ≤ 0xdf then
      match rest with
      | b₁ :: rest =>
        if isContinuation b₁.toNat then
          (decode rest).map (Char.ofNat ((n₀ - 0xc0) * 64 + (b₁.toNat - 0x80)) :: ·)
        else none
      | _ => none
    else if 0xe0 ≤ n₀ ∧ n₀ ≤ 0xef then
      match rest with
      | b₁ :: b₂ :: rest =>
        if isContinuation b₁.toNat ∧ isContinuation b₂.toNat ∧ (n₀ = 0xe0 → 0xa0 ≤ b₁.toNat) ∧
            (n₀ = 0xed → b₁.toNat ≤ 0x9f) then
          (decode rest).map (Char.ofNat ((n₀ - 0xe0) * 4096 + (b₁.toNat - 0x80) * 64 +
            (b₂.toNat - 0x80)) :: ·)
        else none
      | _ => none
    else if 0xf0 ≤ n₀ ∧ n₀ ≤ 0xf4 then
      match rest with
      | b₁ :: b₂ :: b₃ :: rest =>
        if isContinuation b₁.toNat ∧ isContinuation b₂.toNat ∧ isContinuation b₃.toNat ∧
            (n₀ = 0xf0 → 0x90 ≤ b₁.toNat) ∧ (n₀ = 0xf4 → b₁.toNat ≤ 0x8f) then
          (decode rest).map (Char.ofNat ((n₀ - 0xf0) * 262144 + (b₁.toNat - 0x80) * 4096 +
            (b₂.toNat - 0x80) * 64 + (b₃.toNat - 0x80)) :: ·)
        else none
      | _ => none
    else none

theorem toNat_ofNat_of_lt {n : Nat} (h : n < 256) : (UInt8.ofNat n).toNat = n := by
  simp [Nat.mod_eq_of_lt h]

@[simp] theorem isContinuation_low (n : Nat) : isContinuation (0x80 + n % 64) = true := by
  simp only [isContinuation, Bool.and_eq_true, decide_eq_true_eq]
  omega

theorem toNat_low (n : Nat) : (UInt8.ofNat (0x80 + n % 64)).toNat = 0x80 + n % 64 :=
  toNat_ofNat_of_lt (by omega)

theorem char_bounds (c : Char) : c.toNat < 0xd800 ∨ (0xdfff < c.toNat ∧ c.toNat < 0x110000) := by
  have h := c.valid
  simpa [UInt32.isValidChar, Nat.isValidChar] using h

theorem decode_encodeChar (c : Char) (rest : List UInt8) :
    decode (encodeChar c ++ rest) = (decode rest).map (c :: ·) := by
  have hb := char_bounds c
  have hc : Char.ofNat c.toNat = c := Char.ofNat_toNat c
  unfold encodeChar
  generalize hn : c.toNat = n at hb hc
  simp only
  split
  · rename_i h
    rw [List.singleton_append]
    conv_lhs => unfold decode
    simp only [toNat_ofNat_of_lt (show n < 256 by omega), if_pos h, hc]
  · split
    · rename_i h₁ h₂
      have h0 : (UInt8.ofNat (0xc0 + n / 64)).toNat = 0xc0 + n / 64 := toNat_ofNat_of_lt (by omega)
      have hval : (0xc0 + n / 64 - 0xc0) * 64 + (0x80 + n % 64 - 0x80) = n := by omega
      simp only [List.cons_append, List.nil_append]
      conv_lhs => unfold decode
      simp only [h0, toNat_low, isContinuation_low, hval, hc, if_true]
      rw [if_neg (by omega), if_pos (by omega)]
    · split
      · rename_i h₁ h₂ h₃
        have h0 : (UInt8.ofNat (0xe0 + n / 4096)).toNat = 0xe0 + n / 4096 :=
          toNat_ofNat_of_lt (by omega)
        have hval : (0xe0 + n / 4096 - 0xe0) * 4096 + (0x80 + n / 64 % 64 - 0x80) * 64 +
            (0x80 + n % 64 - 0x80) = n := by omega
        simp only [List.cons_append, List.nil_append]
        conv_lhs => unfold decode
        simp only [h0, toNat_low, isContinuation_low, hval, hc, true_and]
        rw [if_neg (by omega), if_neg (by omega), if_pos (by omega), if_pos (by omega)]
      · rename_i h₁ h₂ h₃
        have h0 : (UInt8.ofNat (0xf0 + n / 262144)).toNat = 0xf0 + n / 262144 :=
          toNat_ofNat_of_lt (by omega)
        have hval : (0xf0 + n / 262144 - 0xf0) * 262144 + (0x80 + n / 4096 % 64 - 0x80) * 4096 +
            (0x80 + n / 64 % 64 - 0x80) * 64 + (0x80 + n % 64 - 0x80) = n := by omega
        simp only [List.cons_append, List.nil_append]
        conv_lhs => unfold decode
        simp only [h0, toNat_low, isContinuation_low, hval, hc, true_and]
        rw [if_neg (by omega), if_neg (by omega), if_neg (by omega), if_pos (by omega),
          if_pos (by omega)]

@[simp] theorem decode_encode (cs : List Char) : decode (encode cs) = some cs := by
  induction cs with
  | nil => rfl
  | cons c cs ih =>
    rw [encode, List.flatMap_cons, decode_encodeChar]
    change (decode (encode cs)).map _ = _
    rw [ih]
    rfl

theorem encode_injective : Function.Injective encode := by
  intro a b h
  have ha := decode_encode a
  rw [h, decode_encode] at ha
  cases ha
  rfl

theorem toNat_charOfNat {n : Nat} (h : n < 0xd800 ∨ (0xdfff < n ∧ n < 0x110000)) : (Char.ofNat n).toNat = n := by
  have hv : n.isValidChar := h
  rw [Char.ofNat, dif_pos hv]
  rfl

theorem ofNat_eq {b : UInt8} {n : Nat} (h : n = b.toNat) : UInt8.ofNat n = b := by
  subst h
  exact UInt8.ofNat_toNat

theorem isContinuation_iff {b : Nat} : isContinuation b = true ↔ 0x80 ≤ b ∧ b ≤ 0xbf := by
  simp [isContinuation]

/-- What is read is what is written. -/
theorem encode_of_decode {bytes : List UInt8} {cs : List Char} (h : decode bytes = some cs) : encode cs = bytes := by
  fun_induction decode bytes generalizing cs with
  | case1 =>
    cases h
    rfl
  | case2 b₀ rest n₀ hn =>
    rename_i ih
    obtain ⟨cs, hcs, rfl⟩ := Option.map_eq_some_iff.mp h
    rw [encode, List.flatMap_cons, ← encode, ih hcs, encodeChar, toNat_charOfNat (.inl (by omega))]
    simp only [if_pos hn, List.singleton_append]
    rw [ofNat_eq (b := b₀) rfl]
  | case3 b₀ n₀ hn hn' b₁ rest hb =>
    rename_i ih
    obtain ⟨cs, hcs, rfl⟩ := Option.map_eq_some_iff.mp h
    rw [isContinuation_iff] at hb
    generalize hv : (n₀ - 0xc0) * 64 + (b₁.toNat - 0x80) = v
    rw [encode, List.flatMap_cons, ← encode, ih hcs, encodeChar, toNat_charOfNat (.inl (by omega))]
    simp only [if_neg (show ¬v < 0x80 by omega), if_pos (show v < 0x800 by omega)]
    rw [ofNat_eq (b := b₀) (by omega), ofNat_eq (b := b₁) (by omega)]
    rfl
  | case6 b₀ n₀ hn hn' hn'' b₁ b₂ rest hb =>
    rename_i ih
    obtain ⟨cs, hcs, rfl⟩ := Option.map_eq_some_iff.mp h
    simp only [isContinuation_iff] at hb
    generalize hv : (n₀ - 0xe0) * 4096 + (b₁.toNat - 0x80) * 64 + (b₂.toNat - 0x80) = v
    rw [encode, List.flatMap_cons, ← encode, ih hcs, encodeChar, toNat_charOfNat (by omega)]
    simp only [if_neg (show ¬v < 0x80 by omega), if_neg (show ¬v < 0x800 by omega),
      if_pos (show v < 0x10000 by omega)]
    rw [ofNat_eq (b := b₀) (by omega), ofNat_eq (b := b₁) (by omega), ofNat_eq (b := b₂) (by omega)]
    rfl
  | case9 b₀ n₀ hn hn' hn'' hn''' b₁ b₂ b₃ rest hb =>
    rename_i ih
    obtain ⟨cs, hcs, rfl⟩ := Option.map_eq_some_iff.mp h
    simp only [isContinuation_iff] at hb
    generalize hv : (n₀ - 0xf0) * 262144 + (b₁.toNat - 0x80) * 4096 + (b₂.toNat - 0x80) * 64 + (b₃.toNat - 0x80) = v
    rw [encode, List.flatMap_cons, ← encode, ih hcs, encodeChar, toNat_charOfNat (by omega)]
    simp only [if_neg (show ¬v < 0x80 by omega), if_neg (show ¬v < 0x800 by omega),
      if_neg (show ¬v < 0x10000 by omega)]
    rw [ofNat_eq (b := b₀) (by omega), ofNat_eq (b := b₁) (by omega), ofNat_eq (b := b₂) (by omega),
      ofNat_eq (b := b₃) (by omega)]
    rfl
  | _ => cases h

end Wayjournal.Text.Utf8
