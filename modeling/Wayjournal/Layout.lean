import Wayjournal.Json.Print
import Wayjournal.LogicalStore
import Wayjournal.Text.Bytes

namespace Wayjournal

open Text

/-- The bytes of a text. -/
def asBytes (s : String) : Bytes := Json.utf8 s

/-- `str::from_utf8`. -/
def fromUtf8 (bytes : Bytes) : Option String := (Utf8.decode bytes).map String.ofList

theorem fromUtf8_asBytes (s : String) : fromUtf8 (asBytes s) = some s := by
  simp [fromUtf8, asBytes, Json.utf8, Utf8.decode_encode]

theorem asBytes_of_fromUtf8 {bytes : Bytes} {s : String} (h : fromUtf8 bytes = some s) : asBytes s = bytes := by
  obtain ⟨cs, hcs, rfl⟩ := Option.map_eq_some_iff.mp h
  rw [asBytes, Json.utf8, String.toList_ofList, Utf8.encode_of_decode hcs]

theorem asBytes_injective : Function.Injective asBytes := by
  intro s t h
  have hs := fromUtf8_asBytes s
  rw [h, fromUtf8_asBytes] at hs
  exact (Option.some.inj hs).symm

inductive PathClass
  | legacyEvent
  | legacyBatch
  | journalRecord
  | journalBatch
  | nonCanonical
  | invalidReserved
  deriving DecidableEq

/-- `path.split('/')`. -/
def splitPath (path : String) : List String := (path.toList.splitOn '/').map String.ofList

def startsWith (path start : String) : Bool := start.toList.isPrefixOf path.toList

/-- `strip_suffix(".json")`. -/
def stripJson (file : String) : Option String :=
  (file.toList.dropSuffix? ".json".toList).map String.ofList

def parses (α : Type) [FromStr α] (s : String) : Bool := (FromStr.fromStr s : Except _ α).isOk

def validLegacyUuid (input : String) (versions : List Nat) : Bool :=
  (Uuid.parseStr input).any (fun id => input = id.hyphenated && id.accepted versions)

def validLegacyEvent (path : String) : Bool :=
  match splitPath path with
  | [root, entity, file] =>
    root = "events" && validLegacyUuid entity [4, 5, 7] && (stripJson file).any (parses RecordId)
  | _ => false

def validLegacyBatch (path : String) : Bool :=
  match splitPath path with
  | [root, file] => root = "batches" && (stripJson file).any (parses BatchId)
  | _ => false

def validateJournalRecordPath (path : String) : Bool :=
  match splitPath path with
  | [root, records, domain, entity, file] =>
    root = "journal" && records = "records" && parses DomainId domain && parses EntityId entity &&
      (stripJson file).any (parses RecordId)
  | _ => false

def validJournalBatch (path : String) : Bool :=
  match splitPath path with
  | [root, batches, file] =>
    root = "journal" && batches = "batches" && (stripJson file).any (parses BatchId)
  | _ => false

def reservedPrefixBytes (path : Bytes) : Bool :=
  ["events", "batches", "journal"].any (fun root =>
    path = asBytes root || (asBytes (root ++ "/")).isPrefixOf path)

def classifyPath (path : Bytes) : PathClass :=
  match fromUtf8 path with
  | none => if reservedPrefixBytes path then .invalidReserved else .nonCanonical
  | some path =>
    if startsWith path "events/" then
      if validLegacyEvent path then .legacyEvent else .invalidReserved
    else if path = "events" then .invalidReserved
    else if startsWith path "batches/" then
      if validLegacyBatch path then .legacyBatch else .invalidReserved
    else if path = "batches" then .invalidReserved
    else if startsWith path "journal/records/" then
      if validateJournalRecordPath path then .journalRecord else .invalidReserved
    else if startsWith path "journal/batches/" then
      if validJournalBatch path then .journalBatch else .invalidReserved
    else if path = "journal" || startsWith path "journal/" then .invalidReserved
    else .nonCanonical

namespace PathClass

/-- The classes of the four canonical roots. -/
def isCanonical : PathClass → Bool
  | .legacyEvent | .legacyBatch | .journalRecord | .journalBatch => true
  | .nonCanonical | .invalidReserved => false

end PathClass

end Wayjournal
