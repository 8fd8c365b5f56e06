import Mathlib.Algebra.GroupWithZero.Nat
import Mathlib.Data.List.Lex
import Mathlib.Order.Fin.Basic
import Mathlib.Order.Basic

namespace Wayjournal.Text

instance neZeroNibble : NeZero 16 := ⟨by decide⟩

/-- The number of bytes of the UTF-8 form of a text. -/
def byteLen (cs : List Char) : Nat := (cs.map Char.utf8Size).sum

/-- General category `Cc`. -/
def isControl (c : Char) : Bool := c.toNat ≤ 0x1f || (0x7f ≤ c.toNat && c.toNat ≤ 0x9f)

/-- The Unicode `White_Space` property. -/
def isWhitespace (c : Char) : Bool :=
  (0x09 ≤ c.toNat && c.toNat ≤ 0x0d) || c.toNat = 0x20 || c.toNat = 0x85 || c.toNat = 0xa0 ||
  c.toNat = 0x1680 || (0x2000 ≤ c.toNat && c.toNat ≤ 0x200a) || c.toNat = 0x2028 ||
  c.toNat = 0x2029 || c.toNat = 0x202f || c.toNat = 0x205f || c.toNat = 0x3000

/-- `split_once`: the text before and after the first separator. -/
def splitOnce (sep : Char) : List Char → Option (List Char × List Char)
  | [] => none
  | c :: t => if c = sep then some ([], t) else (splitOnce sep t).map (fun p => (c :: p.1, p.2))

theorem splitOnce_eq_some {sep : Char} {cs l r : List Char} (h : splitOnce sep cs = some (l, r)) :
    cs = l ++ sep :: r ∧ sep ∉ l := by
  induction cs generalizing l with
  | nil => simp [splitOnce] at h
  | cons c t ih =>
    simp only [splitOnce] at h
    split at h
    · rename_i hc
      cases h
      simp [hc]
    · rename_i hc
      simp only [Option.map_eq_some_iff, Prod.mk.injEq, Prod.exists] at h
      obtain ⟨l', r', ht, rfl, rfl⟩ := h
      obtain ⟨rfl, hl⟩ := ih ht
      simp [hl, Ne.symm hc]

def hexDigit (n : Fin 16) : Char :=
  if n.val < 10 then Char.ofNat (48 + n.val) else Char.ofNat (87 + n.val)

/-- The value of a hexadecimal digit of either case. -/
def hexValue? (c : Char) : Option (Fin 16) :=
  if h : 48 ≤ c.toNat ∧ c.toNat ≤ 57 then some ⟨c.toNat - 48, by omega⟩
  else if h : 97 ≤ c.toNat ∧ c.toNat ≤ 102 then some ⟨c.toNat - 87, by omega⟩
  else if h : 65 ≤ c.toNat ∧ c.toNat ≤ 70 then some ⟨c.toNat - 55, by omega⟩
  else none

@[simp] theorem hexValue?_hexDigit (n : Fin 16) : hexValue? (hexDigit n) = some n := by
  revert n
  decide

def hexValues? : List Char → Option (List (Fin 16))
  | [] => some []
  | c :: t => do
    let n ← hexValue? c
    let ns ← hexValues? t
    return n :: ns

@[simp] theorem hexValues?_map_hexDigit (ns : List (Fin 16)) :
    hexValues? (ns.map hexDigit) = some ns := by
  induction ns with
  | nil => rfl
  | cons n ns ih => simp [hexValues?, ih]

theorem length_hexValues? {cs : List Char} {ns : List (Fin 16)} (h : hexValues? cs = some ns) :
    ns.length = cs.length := by
  induction cs generalizing ns with
  | nil =>
    simp only [hexValues?, Option.some.injEq] at h
    simp [← h]
  | cons c t ih =>
    simp only [hexValues?, Option.bind_eq_bind, Option.bind_eq_some_iff, Option.pure_def,
      Option.some.injEq] at h
    obtain ⟨n, -, ms, hms, rfl⟩ := h
    simp [ih hms]

/-- A fixed-width hexadecimal number, most significant digit first; the derived
order is the byte order. -/
structure Hex (width : Nat) where
  nibbles : List (Fin 16)
  length_eq : nibbles.length = width

namespace Hex

variable {width : Nat}

theorem nibbles_injective : Function.Injective (nibbles : Hex width → List (Fin 16)) := by
  rintro ⟨a, _⟩ ⟨b, _⟩ h
  cases h
  rfl

instance : LinearOrder (Hex width) := LinearOrder.lift' nibbles nibbles_injective

def toChars (x : Hex width) : List Char := x.nibbles.map hexDigit

def ofChars? (cs : List Char) : Option (Hex width) :=
  match hexValues? cs with
  | none => none
  | some ns => if h : ns.length = width then some ⟨ns, h⟩ else none

@[simp] theorem length_toChars (x : Hex width) : x.toChars.length = width := by
  simp [toChars, x.length_eq]

@[simp] theorem ofChars?_toChars (x : Hex width) : ofChars? x.toChars = some x := by
  simp [ofChars?, toChars, x.length_eq]

end Hex

end Wayjournal.Text
