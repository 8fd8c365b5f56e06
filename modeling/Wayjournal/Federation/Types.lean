import Mathlib.Data.Prod.Lex
import Mathlib.Order.BooleanAlgebra.Basic
import Wayjournal.Revision

namespace Wayjournal

open Text Serde

inductive GitObjectFormat
  | sha1
  | sha256
  deriving DecidableEq

namespace GitObjectFormat

def asStr : GitObjectFormat → String
  | .sha1 => "sha1"
  | .sha256 => "sha256"

def hexLen : GitObjectFormat → Nat
  | .sha1 => 40
  | .sha256 => 64

def parse (input : String) : Option GitObjectFormat :=
  if input = "sha1" then some .sha1 else if input = "sha256" then some .sha256 else none

theorem parse_asStr (f : GitObjectFormat) : parse f.asStr = some f := by
  cases f <;> decide

end GitObjectFormat

instance : Deserialize GitObjectFormat where
  fromValue v := (fromValue v : Option String).bind GitObjectFormat.parse

structure GitOid where
  format : GitObjectFormat
  hex : String
  length_eq : hex.toList.length = format.hexLen
  lower : hex.toList.all Digest.isLowerHex = true

namespace GitOid

def parse (format : GitObjectFormat) (hex : String) : Option GitOid :=
  if h : hex.toList.length = format.hexLen ∧ hex.toList.all Digest.isLowerHex = true then
    some ⟨format, hex, h.1, h.2⟩
  else none

theorem parse_hex (oid : GitOid) : parse oid.format oid.hex = some oid := by
  simp [parse, oid.length_eq, oid.lower]

/-- The derived order: the format, then the text. -/
def key (oid : GitOid) : Bool ×ₗ String := toLex (oid.format = .sha256, oid.hex)

theorem key_injective : Function.Injective key := by
  rintro ⟨f, a, _, _⟩ ⟨g, b, _, _⟩ h
  have hfg : decide (f = .sha256) = decide (g = .sha256) := congrArg (fun k => (ofLex k).1) h
  have hab : a = b := congrArg (fun k => (ofLex k).2) h
  subst hab
  cases f <;> cases g <;> first | rfl | cases hfg

instance : LinearOrder GitOid := LinearOrder.lift' key key_injective

def toValue (oid : GitOid) : Json :=
  .object (.ofList [("format", .string oid.format.asStr), ("hex", .string oid.hex)])

end GitOid

instance : Deserialize GitOid where
  fromValue v := do
    let [format, hex] ← structFields ["format", "hex"] v | none
    GitOid.parse (← required format) (← required hex)

structure LocalTrustBinding where
  asDigest : Digest
  deriving DecidableEq

instance : Deserialize LocalTrustBinding where
  fromValue v := (fromValue v).map LocalTrustBinding.mk

structure ParsedUrl where
  username : String
  password : Option String
  query : Option String
  fragment : Option String
  scheme : String
  host : Option String
  port : Option Nat
  path : String
  asStr : String

/-- The URL library. -/
class Url where
  parse : String → Option ParsedUrl

/-- What a locator may look like once it is parsed. -/
def ParsedUrl.isApproved (url : ParsedUrl) : Bool :=
  url.username.isEmpty && url.password.isNone && url.query.isNone && url.fragment.isNone &&
    if url.scheme = "https" then url.host.isSome && url.port.isNone
    else url.scheme = "file" && url.host.all (fun host => host.isEmpty || host = "localhost") &&
      startsWith url.path "/"

def validLocator [Url] (value : String) : Bool :=
  !value.toList.contains '%' && (Url.parse value).any (fun url => url.isApproved && url.asStr = value)

def startsWithDot (part : List Char) : Bool := part.head? = some '.'

def endsWithLock (part : List Char) : Bool := ".lock".toList.isSuffixOf (part.map Char.toLower)

def forbiddenRefChar (c : Char) : Bool :=
  c.toNat ≤ 0x20 || c.toNat = 0x7f || ['~', '^', ':', '?', '*', '[', '\\'].contains c

def contains (text part : List Char) : Bool := text.tails.any (part.isPrefixOf ·)

/-- The checks of a branch name. -/
def validBranch (name : List Char) : Bool :=
  !(name.isEmpty || name.head? = some '/' || name.getLast? = some '/' || name.getLast? = some '.' ||
    contains name "..".toList || contains name "@\x7b".toList || name.any forbiddenRefChar ||
    (name.splitOn '/').any (fun part => part.isEmpty || startsWithDot part || endsWithLock part))

def validRef (value : String) : Bool :=
  match value.toList.dropPrefix? "refs/heads/".toList with
  | none => false
  | some name => validBranch name

structure ApprovedRemoteLocator [Url] where
  asStr : String
  valid : validLocator asStr = true
  deriving DecidableEq

structure ApprovedRef where
  asStr : String
  valid : validRef asStr = true
  deriving DecidableEq

structure ApprovedRemote [Url] where
  locator : ApprovedRemoteLocator
  reference : ApprovedRef
  deriving DecidableEq

section

variable [Url]

instance : Deserialize ApprovedRemoteLocator where
  fromValue v := (fromValue v : Option String).bind (fun s =>
    if h : validLocator s = true then some ⟨s, h⟩ else none)

instance : Deserialize ApprovedRef where
  fromValue v := (fromValue v : Option String).bind (fun s =>
    if h : validRef s = true then some ⟨s, h⟩ else none)

instance : Deserialize ApprovedRemote where
  fromValue v := do
    let [locator, reference] ← structFields ["locator", "reference"] v | none
    return ⟨← required locator, ← required reference⟩

end

inductive LocalIdKind
  | operation
  | incident
  deriving DecidableEq

def LocalIdKind.label : LocalIdKind → String
  | .operation => "operation id"
  | .incident => "incident id"

/-- The two local identifiers: a canonical UUIDv7 text. -/
structure LocalId (k : LocalIdKind) where
  uuid : Uuid
  version : uuid.versionNum = 7
  variant : uuid.isRfc4122 = true
  deriving DecidableEq

abbrev GitSyncOperationId := LocalId .operation
abbrev QuarantineIncidentId := LocalId .incident

namespace LocalId

variable {k : LocalIdKind}

def display (id : LocalId k) : String := id.uuid.hyphenated

def parse (k : LocalIdKind) (value : String) : Except String (LocalId k) :=
  match Uuid.parseStr value with
  | none => .error (k.label ++ " is not UUIDv7")
  | some id =>
    if h : id.versionNum = 7 ∧ id.isRfc4122 = true ∧ id.hyphenated = value then .ok ⟨id, h.1, h.2.1⟩
    else .error (k.label ++ " is not canonical UUIDv7")

theorem parse_display (id : LocalId k) : parse k id.display = .ok id := by
  simp [parse, display, id.version, id.variant]

theorem display_of_parse {s : String} {id : LocalId k} (h : parse k s = .ok id) : id.display = s := by
  simp only [parse] at h
  split at h
  · cases h
  · split at h
    · rename_i hs
      cases h
      exact hs.2.2
    · cases h

theorem display_injective : Function.Injective (display : LocalId k → String) := by
  intro a b h
  have ha := parse_display a
  rw [h, parse_display] at ha
  cases ha
  rfl

end LocalId

instance {k : LocalIdKind} : Deserialize (LocalId k) where
  fromValue v := (fromValue v : Option String).bind (fun s => (LocalId.parse k s).toOption)

inductive GitSyncPendingPhase
  | prepared
  | filesPublished
  | localRefPublished
  | checkpointPublished
  | remoteCasStale
  | remoteCasConfirmed
  deriving DecidableEq

namespace GitSyncPendingPhase

def asStr : GitSyncPendingPhase → String
  | .prepared => "prepared"
  | .filesPublished => "files_published"
  | .localRefPublished => "local_ref_published"
  | .checkpointPublished => "checkpoint_published"
  | .remoteCasStale => "remote_cas_stale"
  | .remoteCasConfirmed => "remote_cas_confirmed"

def all : List GitSyncPendingPhase :=
  [.prepared, .filesPublished, .localRefPublished, .checkpointPublished, .remoteCasStale,
    .remoteCasConfirmed]

def parse (input : String) : Option GitSyncPendingPhase := all.find? (fun p => p.asStr = input)

theorem parse_asStr (p : GitSyncPendingPhase) : parse p.asStr = some p := by
  cases p <;> decide

end GitSyncPendingPhase

/-- A unit variant is read from its name; the object form with a null value is
the other one serde reads. -/
instance : Deserialize GitSyncPendingPhase where
  fromValue v :=
    match v.view with
    | .string s => GitSyncPendingPhase.parse s
    | .object members =>
      match members.entries with
      | [(name, value)] =>
        match value.view with
        | .null => GitSyncPendingPhase.parse name
        | _ => none
      | _ => none
    | _ => none

end Wayjournal
