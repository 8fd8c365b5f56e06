import Mathlib.Data.String.Basic
import Wayjournal.Text.Hex

namespace Wayjournal

open Text

inductive IdentifierError
  | invalidUuid (kind value : String)
  | invalidToken (kind value : String)
  | invalidActor (value : String)
  | invalidTimestamp (value : String)
  deriving DecidableEq

def IdentifierError.message : IdentifierError → String
  | .invalidUuid kind value => "invalid " ++ kind ++ ": " ++ value
  | .invalidToken kind value => "invalid " ++ kind ++ ": " ++ value
  | .invalidActor value => "invalid actor id: " ++ value
  | .invalidTimestamp value => "timestamp is not canonical RFC3339 UTC: " ++ value

/-- A type with one canonical text per value. -/
class FromStr (α : Type) where
  fromStr : String → Except IdentifierError α
  toText : α → String
  fromStr_toText : ∀ x, fromStr (toText x) = .ok x
  toText_of_fromStr : ∀ {s x}, fromStr s = .ok x → toText x = s

theorem FromStr.toText_injective [FromStr α] : Function.Injective (FromStr.toText : α → String) := by
  intro x y h
  have hx := FromStr.fromStr_toText x
  rw [h, FromStr.fromStr_toText] at hx
  cases hx
  rfl

abbrev Uuid := Hex 32

namespace Uuid

def hyphenate (cs : List Char) : List Char :=
  cs.take 8 ++ '-' :: ((cs.drop 8).take 4 ++ '-' :: ((cs.drop 12).take 4 ++
    '-' :: ((cs.drop 16).take 4 ++ '-' :: cs.drop 20)))

def unhyphenate? (cs : List Char) : Option (List Char) :=
  if cs.length = 36 ∧ cs[8]? = some '-' ∧ cs[13]? = some '-' ∧ cs[18]? = some '-' ∧
      cs[23]? = some '-' then
    some (cs.take 8 ++ ((cs.drop 9).take 4 ++ ((cs.drop 14).take 4 ++ ((cs.drop 19).take 4 ++
      cs.drop 24))))
  else none

theorem length_hyphenate {cs : List Char} (h : cs.length = 32) : (hyphenate cs).length = 36 := by
  simp [hyphenate, h]

theorem unhyphenate?_hyphenate {cs : List Char} (h : cs.length = 32) :
    unhyphenate? (hyphenate cs) = some cs := by
  have hcs : cs = cs.take 8 ++ ((cs.drop 8).take 4 ++ ((cs.drop 12).take 4 ++
      ((cs.drop 16).take 4 ++ cs.drop 20))) := by
    rw [show cs.drop 20 = (cs.drop 16).drop 4 by simp, List.take_append_drop,
      show cs.drop 16 = (cs.drop 12).drop 4 by simp, List.take_append_drop,
      show cs.drop 12 = (cs.drop 8).drop 4 by simp, List.take_append_drop, List.take_append_drop]
  have ha : (cs.take 8).length = 8 := by simp [h]
  have hb : ((cs.drop 8).take 4).length = 4 := by simp [h]
  have hc : ((cs.drop 12).take 4).length = 4 := by simp [h]
  have hd : ((cs.drop 16).take 4).length = 4 := by simp [h]
  rw [unhyphenate?, length_hyphenate h]
  conv_rhs => rw [hcs]
  simp only [hyphenate]
  generalize cs.take 8 = a at *
  generalize (cs.drop 8).take 4 = b at *
  generalize (cs.drop 12).take 4 = c at *
  generalize (cs.drop 16).take 4 = d at *
  generalize cs.drop 20 = e at *
  simp [List.getElem?_append, List.drop_append, ha, hb, hc, hd, List.drop_of_length_le]

/-- The encodings `Uuid::parse_str` reads: simple, hyphenated, braced and URN. -/
def parseStr (input : String) : Option Uuid :=
  let cs := input.toList
  if cs.length = 32 then Hex.ofChars? cs
  else if cs.length = 36 then (unhyphenate? cs).bind Hex.ofChars?
  else if cs.length = 38 ∧ cs.head? = some '{' ∧ cs.getLast? = some '}' then
    (unhyphenate? cs.tail.dropLast).bind Hex.ofChars?
  else if cs.length = 45 ∧ cs.take 9 = "urn:uuid:".toList then
    (unhyphenate? (cs.drop 9)).bind Hex.ofChars?
  else none

def hyphenated (u : Uuid) : String := String.ofList (hyphenate u.toChars)

@[simp] theorem parseStr_hyphenated (u : Uuid) : parseStr u.hyphenated = some u := by
  have hlen : (hyphenate u.toChars).length = 36 := length_hyphenate u.length_toChars
  simp [parseStr, hyphenated, hlen, unhyphenate?_hyphenate u.length_toChars]

theorem hyphenated_injective : Function.Injective hyphenated := by
  intro u v h
  have hu := parseStr_hyphenated u
  rw [h, parseStr_hyphenated] at hu
  cases hu
  rfl

def isNil (u : Uuid) : Bool := u.nibbles.all (· = 0)

/-- Variant `Variant::RFC4122`: the two high bits of byte 8 are `10`. -/
def isRfc4122 (u : Uuid) : Bool := u.nibbles[16]?.any (fun n => 8 ≤ n.val && n.val ≤ 11)

def versionNum (u : Uuid) : Nat := (u.nibbles[12]?.map Fin.val).getD 0

def accepted (versions : List Nat) (u : Uuid) : Bool :=
  !u.isNil && u.isRfc4122 && versions.contains u.versionNum

end Uuid

inductive UuidKind
  | record
  | batch
  | store
  | entity
  deriving DecidableEq

def UuidKind.label : UuidKind → String
  | .record => "record id"
  | .batch => "batch id"
  | .store => "store uuid"
  | .entity => "entity id"

def UuidKind.acceptedVersions : UuidKind → List Nat
  | .record => [7]
  | .batch => [7]
  | .store => [7]
  | .entity => [1, 3, 4, 5, 6, 7, 8]

/-- The types of `uuid_id!`: a UUID of an accepted variant and version. -/
structure UuidId (k : UuidKind) where
  uuid : Uuid
  accepted : uuid.accepted k.acceptedVersions = true

abbrev RecordId := UuidId .record
abbrev BatchId := UuidId .batch
abbrev StoreUuid := UuidId .store
abbrev EntityId := UuidId .entity

namespace UuidId

variable {k : UuidKind}

theorem uuid_injective : Function.Injective (uuid : UuidId k → Uuid) := by
  rintro ⟨a, _⟩ ⟨b, _⟩ h
  cases h
  rfl

instance : LinearOrder (UuidId k) := LinearOrder.lift' uuid uuid_injective

def parse (k : UuidKind) (input : String) : Except IdentifierError (UuidId k) :=
  match Uuid.parseStr input with
  | none => .error (.invalidUuid k.label input)
  | some parsed =>
    if h : input = parsed.hyphenated ∧ parsed.accepted k.acceptedVersions = true then
      .ok ⟨parsed, h.2⟩
    else .error (.invalidUuid k.label input)

def display (x : UuidId k) : String := x.uuid.hyphenated

theorem parse_display (x : UuidId k) : parse k x.display = .ok x := by
  simp [parse, display, x.accepted]

theorem display_of_parse {s : String} {x : UuidId k} (h : parse k s = .ok x) : x.display = s := by
  simp only [parse] at h
  split at h
  · cases h
  · split at h
    · rename_i hs
      cases h
      exact hs.1.symm
    · cases h

instance : FromStr (UuidId k) := ⟨parse k, display, parse_display, display_of_parse⟩

end UuidId

def validSegmentByte (first : Bool) (c : Char) : Bool :=
  ('a' ≤ c && c ≤ 'z') || (!first && (('0' ≤ c && c ≤ '9') || c = '_' || c = '-'))

def validSegment (input : List Char) (max : Nat) : Bool :=
  match input with
  | [] => false
  | c :: t => byteLen (c :: t) ≤ max && validSegmentByte true c && t.all (validSegmentByte false)

def validNamespacedToken (input : List Char) (separator : Char) : Bool :=
  byteLen input ≤ 128 && 2 ≤ (input.splitOn separator).length &&
    (input.splitOn separator).all (validSegment · 63)

inductive TokenKind
  | domain
  | kind
  deriving DecidableEq

def TokenKind.label : TokenKind → String
  | .domain => "domain id"
  | .kind => "kind id"

def TokenKind.separator : TokenKind → Char
  | .domain => '.'
  | .kind => '.'

/-- A text that its own check accepts. -/
structure CheckedText (valid : List Char → Bool) where
  asStr : String
  valid : valid asStr.toList = true

namespace CheckedText

variable {valid : List Char → Bool}

theorem asStr_injective : Function.Injective (asStr : CheckedText valid → String) := by
  rintro ⟨a, _⟩ ⟨b, _⟩ h
  cases h
  rfl

instance : LinearOrder (CheckedText valid) := LinearOrder.lift' asStr asStr_injective

def parse (error : String → IdentifierError) (input : String) :
    Except IdentifierError (CheckedText valid) :=
  if h : valid input.toList = true then .ok ⟨input, h⟩ else .error (error input)

theorem parse_asStr (error : String → IdentifierError) (x : CheckedText valid) :
    parse error x.asStr = .ok x := by
  simp [parse, x.valid]

theorem asStr_of_parse {error : String → IdentifierError} {s : String} {x : CheckedText valid}
    (h : parse error s = .ok x) : x.asStr = s := by
  simp only [parse] at h
  split at h
  · cases h
    rfl
  · cases h

end CheckedText

def TokenKind.check (k : TokenKind) (input : List Char) : Bool :=
  validNamespacedToken input k.separator

abbrev TokenId (k : TokenKind) := CheckedText k.check

abbrev DomainId := TokenId .domain
abbrev KindId := TokenId .kind

instance (k : TokenKind) : FromStr (TokenId k) :=
  ⟨CheckedText.parse (.invalidToken k.label), CheckedText.asStr, CheckedText.parse_asStr _,
    CheckedText.asStr_of_parse⟩

def validRecordSchema (input : List Char) : Bool :=
  byteLen input ≤ 128 &&
    match splitOnce '/' input with
    | none => false
    | some (domain, version) =>
      !version.contains '/' && TokenKind.domain.check domain && validSegment version 63

abbrev RecordSchemaId := CheckedText validRecordSchema

instance : FromStr RecordSchemaId :=
  ⟨CheckedText.parse (.invalidToken "record schema id"), CheckedText.asStr,
    CheckedText.parse_asStr _, CheckedText.asStr_of_parse⟩

def validActor (input : List Char) : Bool :=
  match splitOnce ':' input with
  | none => false
  | some (ns, value) =>
    validSegment ns 32 && !value.isEmpty && value.length ≤ 96 &&
      value.all (fun c => !isControl c && !isWhitespace c) && input.length ≤ 129

abbrev ActorId := CheckedText validActor

instance : FromStr ActorId :=
  ⟨CheckedText.parse .invalidActor, CheckedText.asStr, CheckedText.parse_asStr _,
    CheckedText.asStr_of_parse⟩

/-- The timestamp library: its type, its reader and its printer. -/
class Jiff where
  Timestamp : Type
  decEq : DecidableEq Timestamp
  parse : String → Option Timestamp
  toText : Timestamp → String

instance [Jiff] : DecidableEq Jiff.Timestamp := Jiff.decEq

/-- A timestamp that is read back from its own text, which ends in `Z`. -/
structure RecordTimestamp [Jiff] where
  value : Jiff.Timestamp
  canonical : Jiff.parse (Jiff.toText value) = some value
  utc : (Jiff.toText value).toList.getLast? = some 'Z'
  deriving DecidableEq

namespace RecordTimestamp

variable [Jiff]

def parse (input : String) : Except IdentifierError RecordTimestamp :=
  match h : Jiff.parse input with
  | none => .error (.invalidTimestamp input)
  | some timestamp =>
    if hc : Jiff.toText timestamp = input ∧ input.toList.getLast? = some 'Z' then
      .ok ⟨timestamp, hc.1 ▸ h, hc.1 ▸ hc.2⟩
    else .error (.invalidTimestamp input)

def display (t : RecordTimestamp) : String := Jiff.toText t.value

theorem parse_display (t : RecordTimestamp) : parse t.display = .ok t := by
  unfold parse
  split
  · rename_i h
    rw [display, t.canonical] at h
    cases h
  · rename_i timestamp h
    rw [display, t.canonical] at h
    cases h
    simp [display, t.utc]

theorem display_of_parse {s : String} {t : RecordTimestamp} (h : parse s = .ok t) :
    t.display = s := by
  unfold parse at h
  split at h
  · cases h
  · split at h
    · rename_i hc
      cases h
      exact hc.1
    · cases h

instance : FromStr RecordTimestamp := ⟨parse, display, parse_display, display_of_parse⟩

end RecordTimestamp

end Wayjournal
