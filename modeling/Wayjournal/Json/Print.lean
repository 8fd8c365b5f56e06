import Wayjournal.Json.Value
import Wayjournal.Text.Hex
import Wayjournal.Text.Utf8

namespace Wayjournal.Json

open Text

/-- The bytes of a text. -/
def utf8 (s : String) : List UInt8 := Utf8.encode s.toList

def hexByte (n : Nat) : UInt8 := if n < 10 then UInt8.ofNat (48 + n) else UInt8.ofNat (87 + n)

/-- The escape table of the printer: quote, backslash and the control bytes. -/
def escapeByte (b : UInt8) : List UInt8 :=
  if b = 0x22 then [0x5c, 0x22]
  else if b = 0x5c then [0x5c, 0x5c]
  else if b = 0x08 then [0x5c, 0x62]
  else if b = 0x09 then [0x5c, 0x74]
  else if b = 0x0a then [0x5c, 0x6e]
  else if b = 0x0c then [0x5c, 0x66]
  else if b = 0x0d then [0x5c, 0x72]
  else if b.toNat < 0x20 then
    [0x5c, 0x75, 0x30, 0x30, hexByte (b.toNat / 16), hexByte (b.toNat % 16)]
  else [b]

def printString (s : String) : List UInt8 := 0x22 :: ((utf8 s).flatMap escapeByte ++ [0x22])

def digitByte (d : Nat) : UInt8 := UInt8.ofNat (48 + d)

def decimalAux : Nat → Nat → List UInt8 → List UInt8
  | 0, _, acc => acc
  | fuel + 1, n, acc =>
    if n / 10 = 0 then digitByte (n % 10) :: acc
    else decimalAux fuel (n / 10) (digitByte (n % 10) :: acc)

/-- The decimal digits of a `u64`, of which there are at most twenty. -/
def decimal (n : Nat) : List UInt8 := decimalAux 20 n []

/-- A double is never printed: the codec refuses it first. -/
def printNumber : Number → List UInt8
  | .posInt n => decimal n.val
  | .negInt m => 0x2d :: decimal (m.val + 1)
  | .float _ => []

/-- A line break and the indentation of two spaces a level. -/
def newline (indent : Nat) : List UInt8 := 0x0a :: List.replicate (2 * indent) 0x20

mutual

/-- `to_vec_pretty`. -/
def print (indent : Nat) : Raw → List UInt8
  | .null => [0x6e, 0x75, 0x6c, 0x6c]
  | .bool true => [0x74, 0x72, 0x75, 0x65]
  | .bool false => [0x66, 0x61, 0x6c, 0x73, 0x65]
  | .number n => printNumber n
  | .string s => printString s
  | .array [] => [0x5b, 0x5d]
  | .array (v :: vs) =>
    0x5b :: (newline (indent + 1) ++ (print (indent + 1) v ++ (printItems (indent + 1) vs ++
      (newline indent ++ [0x5d]))))
  | .object [] => [0x7b, 0x7d]
  | .object ((k, v) :: es) =>
    0x7b :: (newline (indent + 1) ++ (printString k ++ ([0x3a, 0x20] ++ (print (indent + 1) v ++
      (printMembers (indent + 1) es ++ (newline indent ++ [0x7d]))))))

def printItems (indent : Nat) : List Raw → List UInt8
  | [] => []
  | v :: vs => 0x2c :: (newline indent ++ (print indent v ++ printItems indent vs))

def printMembers (indent : Nat) : List (String × Raw) → List UInt8
  | [] => []
  | (k, v) :: es =>
    0x2c :: (newline indent ++ (printString k ++ ([0x3a, 0x20] ++ (print indent v ++
      printMembers indent es))))

end

def compactMember (member : String × Raw) : List UInt8 :=
  printString member.1 ++ 0x3a :: print 0 member.2

/-- `to_vec` of an object of scalars. -/
def compactObject (members : List (String × Raw)) : List UInt8 :=
  0x7b :: ([0x2c].intercalate (members.map compactMember) ++ [0x7d])

end Wayjournal.Json
