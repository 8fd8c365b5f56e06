import Wayjournal.Ids

namespace Wayjournal

open Text

abbrev Bytes := List UInt8

/-- The 32 bytes of a BLAKE3 hash. -/
structure Digest extends Hex 64

namespace Digest

theorem toHex_injective : Function.Injective Digest.toHex := by
  rintro ⟨a⟩ ⟨b⟩ h
  cases h
  rfl

theorem length_zeros : (List.replicate 64 (0 : Fin 16)).length = 64 := rfl

instance : LinearOrder Digest := LinearOrder.lift' toHex toHex_injective

def isLowerHex (c : Char) : Bool := ('0' ≤ c && c ≤ '9') || ('a' ≤ c && c ≤ 'f')

/-- `Digest::parse`; its error is `DigestError::NonCanonical` with the input. -/
def parse (input : String) : Option Digest :=
  if input.toList.length = 64 ∧ input.toList.all isLowerHex then
    (Hex.ofChars? input.toList).map Digest.mk
  else none

def display (d : Digest) : String := String.ofList d.toChars

theorem isLowerHex_hexDigit (n : Fin 16) : isLowerHex (hexDigit n) = true := by
  revert n
  decide

theorem hexDigit_hexValue? {c : Char} {n : Fin 16} (hc : isLowerHex c = true)
    (h : hexValue? c = some n) : hexDigit n = c := by
  simp only [isLowerHex, Bool.or_eq_true, Bool.and_eq_true, decide_eq_true_eq, Char.le_def,
    UInt32.le_iff_toNat_le] at hc
  change 48 ≤ c.toNat ∧ c.toNat ≤ 57 ∨ 97 ≤ c.toNat ∧ c.toNat ≤ 102 at hc
  unfold hexValue? at h
  split at h
  · rename_i hd
    cases h
    rw [hexDigit, if_pos (show c.toNat - 48 < 10 by omega),
      show 48 + (c.toNat - 48) = c.toNat by omega, Char.ofNat_toNat]
  · split at h
    · rename_i hd
      cases h
      rw [hexDigit, if_neg (show ¬c.toNat - 87 < 10 by omega),
        show 87 + (c.toNat - 87) = c.toNat by omega, Char.ofNat_toNat]
    · omega

theorem map_hexDigit_of_hexValues? {cs : List Char} {ns : List (Fin 16)}
    (hcs : cs.all isLowerHex = true) (h : hexValues? cs = some ns) : ns.map hexDigit = cs := by
  induction cs generalizing ns with
  | nil =>
    simp only [hexValues?, Option.some.injEq] at h
    simp [← h]
  | cons c t ih =>
    simp only [List.all_cons, Bool.and_eq_true] at hcs
    simp only [hexValues?, Option.bind_eq_bind, Option.bind_eq_some_iff, Option.pure_def,
      Option.some.injEq] at h
    obtain ⟨n, hn, ms, hms, rfl⟩ := h
    rw [List.map_cons, ih hcs.2 hms, hexDigit_hexValue? hcs.1 hn]

theorem parse_display (d : Digest) : parse d.display = some d := by
  have hall : d.toChars.all isLowerHex = true := by
    simp [Hex.toChars, isLowerHex_hexDigit]
  have hhex : (Hex.ofChars? d.toChars : Option (Hex 64)) = some d.toHex := Hex.ofChars?_toChars _
  simp only [parse, display, String.toList_ofList, Hex.length_toChars, hall, and_self, if_true, hhex]
  rfl

theorem display_of_parse {s : String} {d : Digest} (h : parse s = some d) : d.display = s := by
  simp only [parse] at h
  split at h
  · rename_i hs
    simp only [Option.map_eq_some_iff, Hex.ofChars?] at h
    obtain ⟨x, hx, rfl⟩ := h
    split at hx
    · cases hx
    · rename_i ns hns
      split at hx
      · cases hx
        simp [display, Hex.toChars, map_hexDigit_of_hexValues? hs.2 hns]
      · cases hx
  · cases h

end Digest

/-- The hash function, as a function of the bytes fed to one hasher. -/
class Blake3 where
  hash : Bytes → Digest

/-- A length as eight big-endian bytes. -/
def toBeBytes (n : Nat) : Bytes :=
  [56, 48, 40, 32, 24, 16, 8, 0].map (fun shift => UInt8.ofNat (n >>> shift))

def frame (bytes : Bytes) : Bytes := toBeBytes bytes.length ++ bytes

section

variable [Blake3]

def hashBytes (domain bytes : Bytes) : Digest := Blake3.hash (domain ++ bytes)

def framedHash (domain : Bytes) (entries : List (Bytes × Bytes)) : Digest :=
  Blake3.hash (domain ++ entries.flatMap (fun e => frame e.1 ++ frame e.2))

end

end Wayjournal
