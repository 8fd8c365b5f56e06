import Wayjournal.Json.Print

namespace Wayjournal.Json

open Collections Text

inductive ParseError
  | invalid
  | duplicateKey (key : String)
  | floatNotAllowed
  deriving DecidableEq

def isWs (b : UInt8) : Bool := b = 0x20 || b = 0x0a || b = 0x09 || b = 0x0d

def skipWs : List UInt8 → List UInt8
  | [] => []
  | b :: rest => if isWs b then skipWs rest else b :: rest

def expectIdent : List UInt8 → List UInt8 → Except ParseError (List UInt8)
  | [], rest => .ok rest
  | _ :: _, [] => .error .invalid
  | c :: cs, b :: rest => if b = c then expectIdent cs rest else .error .invalid

def hexByteValue? (b : UInt8) : Option Nat :=
  if 48 ≤ b.toNat ∧ b.toNat ≤ 57 then some (b.toNat - 48)
  else if 97 ≤ b.toNat ∧ b.toNat ≤ 102 then some (b.toNat - 87)
  else if 65 ≤ b.toNat ∧ b.toNat ≤ 70 then some (b.toNat - 55)
  else none

def hexEscape? (a b c d : UInt8) : Option Nat := do
  let a ← hexByteValue? a
  let b ← hexByteValue? b
  let c ← hexByteValue? c
  let d ← hexByteValue? d
  return ((a * 16 + b) * 16 + c) * 16 + d

/-- The byte a one-character escape stands for. -/
def simpleEscape? (e : UInt8) : Option UInt8 :=
  if e = 0x22 then some 0x22
  else if e = 0x5c then some 0x5c
  else if e = 0x2f then some 0x2f
  else if e = 0x62 then some 0x08
  else if e = 0x66 then some 0x0c
  else if e = 0x6e then some 0x0a
  else if e = 0x72 then some 0x0d
  else if e = 0x74 then some 0x09
  else none

/-- The bytes of a string up to its closing quote, most recent first, with the
escapes resolved; a lone surrogate and a raw control byte are refused. -/
def scanString : List UInt8 → List UInt8 → Except ParseError (List UInt8 × List UInt8)
  | _, [] => .error .invalid
  | acc, b :: rest =>
    if b = 0x22 then .ok (acc.reverse, rest)
    else if b = 0x5c then
      match rest with
      | [] => .error .invalid
      | e :: rest =>
        if e = 0x75 then
          match rest with
          | a :: b :: c :: d :: rest =>
            match hexEscape? a b c d with
            | none => .error .invalid
            | some n =>
              if 0xdc00 ≤ n ∧ n ≤ 0xdfff then .error .invalid
              else if 0xd800 ≤ n ∧ n ≤ 0xdbff then
                match rest with
                | s :: u :: a :: b :: c :: d :: rest =>
                  if s = 0x5c ∧ u = 0x75 then
                    match hexEscape? a b c d with
                    | none => .error .invalid
                    | some m =>
                      if 0xdc00 ≤ m ∧ m ≤ 0xdfff then
                        scanString ((Utf8.encodeChar
                          (Char.ofNat (0x10000 + (n - 0xd800) * 1024 + (m - 0xdc00)))).reverse ++ acc) rest
                      else .error .invalid
                  else .error .invalid
                | _ => .error .invalid
              else scanString ((Utf8.encodeChar (Char.ofNat n)).reverse ++ acc) rest
          | _ => .error .invalid
        else
          match simpleEscape? e with
          | none => .error .invalid
          | some x => scanString (x :: acc) rest
    else if b.toNat < 0x20 then .error .invalid
    else scanString (b :: acc) rest

/-- A string after its opening quote. -/
def parseString (bs : List UInt8) : Except ParseError (String × List UInt8) :=
  match scanString [] bs with
  | .error e => .error e
  | .ok (bytes, rest) =>
    match Utf8.decode bytes with
    | none => .error .invalid
    | some cs => .ok (String.ofList cs, rest)

def isDigit (b : UInt8) : Bool := 48 ≤ b.toNat && b.toNat ≤ 57

/-- How a float literal fails after its exponent sign. -/
def exponentError : List UInt8 → ParseError
  | [] => .invalid
  | b :: rest =>
    if b = 0x2b ∨ b = 0x2d then
      match rest with
      | [] => .invalid
      | c :: _ => if isDigit c then .floatNotAllowed else .invalid
    else if isDigit b then .floatNotAllowed
    else .invalid

/-- How a float literal fails after the digits of its fraction. -/
def fractionError : List UInt8 → ParseError
  | [] => .floatNotAllowed
  | b :: rest =>
    if isDigit b then fractionError rest
    else if b = 0x65 ∨ b = 0x45 then exponentError rest
    else .floatNotAllowed

/-- How a float literal fails after its decimal point. -/
def decimalError : List UInt8 → ParseError
  | [] => .invalid
  | b :: rest => if isDigit b then fractionError rest else .invalid

/-- How an integer too large for `u64` fails: it is read as a float. -/
def longIntegerError : List UInt8 → ParseError
  | [] => .floatNotAllowed
  | b :: rest =>
    if isDigit b then longIntegerError rest
    else if b = 0x2e then decimalError rest
    else if b = 0x65 ∨ b = 0x45 then exponentError rest
    else .floatNotAllowed

theorem pred_lt_of_le {n : Nat} (h : 1 ≤ n ∧ n ≤ 2 ^ 63) : n - 1 < 2 ^ 63 := by omega

/-- `parse_number`: what follows the digits decides; `-0` and a negative number
below `i64` are floats. -/
def finishNumber (positive : Bool) (significand : Nat) (bs : List UInt8) :
    Except ParseError (Number × List UInt8) :=
  let done : Except ParseError (Number × List UInt8) :=
    if positive then
      if h : significand < 2 ^ 64 then .ok (.posInt ⟨significand, h⟩, bs) else .error .floatNotAllowed
    else if h : 1 ≤ significand ∧ significand ≤ 2 ^ 63 then
      .ok (.negInt ⟨significand - 1, pred_lt_of_le h⟩, bs)
    else .error .floatNotAllowed
  match bs with
  | [] => done
  | b :: rest =>
    if b = 0x2e then .error (decimalError rest)
    else if b = 0x65 ∨ b = 0x45 then .error (exponentError rest)
    else done

def parseDigits (positive : Bool) : Nat → List UInt8 → Except ParseError (Number × List UInt8)
  | significand, [] => finishNumber positive significand []
  | significand, b :: rest =>
    if isDigit b then
      if significand * 10 + (b.toNat - 48) < 2 ^ 64 then
        parseDigits positive (significand * 10 + (b.toNat - 48)) rest
      else .error (longIntegerError rest)
    else finishNumber positive significand (b :: rest)

/-- `parse_integer`: no leading zero. -/
def parseNumber (positive : Bool) : List UInt8 → Except ParseError (Number × List UInt8)
  | [] => .error .invalid
  | b :: rest =>
    if b = 0x30 then
      match rest with
      | [] => finishNumber positive 0 []
      | c :: rest => if isDigit c then .error .invalid else finishNumber positive 0 (c :: rest)
    else if isDigit b then parseDigits positive (b.toNat - 48) rest
    else .error .invalid

/-- The elements of an array up to its closing bracket.  Each round reads at
least one byte, so as many rounds as there are bytes are enough. -/
def parseItems (element : List UInt8 → Except ParseError (Raw × List UInt8)) :
    Nat → Bool → List UInt8 → Except ParseError (List Raw × List UInt8)
  | 0, _, _ => .error .invalid
  | fuel + 1, first, bs =>
    let next (bs : List UInt8) : Except ParseError (List Raw × List UInt8) :=
      match element bs with
      | .error e => .error e
      | .ok (v, rest) =>
        match parseItems element fuel false rest with
        | .error e => .error e
        | .ok (vs, rest) => .ok (v :: vs, rest)
    match skipWs bs with
    | [] => .error .invalid
    | b :: rest =>
      if b = 0x5d then .ok ([], rest)
      else if first then next (b :: rest)
      else if b = 0x2c then
        match skipWs rest with
        | [] => .error .invalid
        | c :: rest => if c = 0x5d then .error .invalid else next (c :: rest)
      else .error .invalid

/-- The members of an object up to its closing brace, gathered in a map; a key
that is there already is refused. -/
def parseMembers (element : List UInt8 → Except ParseError (Raw × List UInt8)) :
    Nat → Bool → BTreeMap String Raw → List UInt8 →
      Except ParseError (BTreeMap String Raw × List UInt8)
  | 0, _, _, _ => .error .invalid
  | fuel + 1, first, values, bs =>
    let member (bs : List UInt8) : Except ParseError (BTreeMap String Raw × List UInt8) :=
      match parseString bs with
      | .error e => .error e
      | .ok (key, rest) =>
        if values.containsKey key then .error (.duplicateKey key)
        else
          match skipWs rest with
          | [] => .error .invalid
          | c :: rest =>
            if c = 0x3a then
              match element rest with
              | .error e => .error e
              | .ok (v, rest) => parseMembers element fuel false (values.insert key v) rest
            else .error .invalid
    match skipWs bs with
    | [] => .error .invalid
    | b :: rest =>
      if b = 0x7d then .ok (values, rest)
      else if first then (if b = 0x22 then member rest else .error .invalid)
      else if b = 0x2c then
        match skipWs rest with
        | [] => .error .invalid
        | c :: rest => if c = 0x22 then member rest else .error .invalid
      else .error .invalid

def parseScalar (b : UInt8) (rest : List UInt8) : Except ParseError (Raw × List UInt8) :=
  if b = 0x6e then (expectIdent [0x75, 0x6c, 0x6c] rest).map (fun r => (.null, r))
  else if b = 0x74 then (expectIdent [0x72, 0x75, 0x65] rest).map (fun r => (.bool true, r))
  else if b = 0x66 then (expectIdent [0x61, 0x6c, 0x73, 0x65] rest).map (fun r => (.bool false, r))
  else if b = 0x2d then (parseNumber false rest).map (fun r => (.number r.1, r.2))
  else if isDigit b then (parseNumber true (b :: rest)).map (fun r => (.number r.1, r.2))
  else if b = 0x22 then (parseString rest).map (fun r => (.string r.1, r.2))
  else .error .invalid

/-- A value with at most `levels` nested containers. -/
def parseValue : Nat → List UInt8 → Except ParseError (Raw × List UInt8)
  | levels, bs =>
    match skipWs bs with
    | [] => .error .invalid
    | b :: rest =>
      if b = 0x5b then
        match levels with
        | 0 => .error .invalid
        | levels + 1 =>
          (parseItems (parseValue levels) (rest.length + 1) true rest).map (fun r => (.array r.1, r.2))
      else if b = 0x7b then
        match levels with
        | 0 => .error .invalid
        | levels + 1 =>
          (parseMembers (parseValue levels) (rest.length + 1) true ∅ rest).map
            (fun r => (.object r.1.entries, r.2))
      else parseScalar b rest

/-- The recursion limit of 128 leaves room for 127 nested containers. -/
def MAX_NESTING : Nat := 127

/-- A whole document: one value and then only white space. -/
def parse (bs : List UInt8) : Except ParseError Raw :=
  match parseValue MAX_NESTING bs with
  | .error e => .error e
  | .ok (v, rest) => if skipWs rest = [] then .ok v else .error .invalid

end Wayjournal.Json
