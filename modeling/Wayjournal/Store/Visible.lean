import Wayjournal.Store.Directory

namespace Wayjournal

open Collections Fs Text

/-- A path of components as the text the code builds, joined by slashes. -/
def relative (p : List Name) : Bytes := [SLASH].intercalate (p.map Name.bytes)

def validCanonicalDirectory (path : Bytes) : Bool :=
  match fromUtf8 path with
  | none => false
  | some path =>
    match splitPath path with
    | [root, name] =>
      (root = "events" && validLegacyUuid name [4, 5, 7]) ||
        (root = "journal" && (name = "records" || name = "batches"))
    | [root, records, domain] => root = "journal" && records = "records" && parses DomainId domain
    | [root, records, domain, entity] =>
      root = "journal" && records = "records" && parses DomainId domain && parses EntityId entity
    | _ => false

def canonicalRoots : List Name := [.batches, .events, .journal]

/-- The entries the recursion over directories gets to: below a root and otherwise
only below canonical directories. -/
def isReached (p : List Name) : Bool :=
  2 ≤ p.length && p.head?.any (canonicalRoots.contains ·) &&
    p.inits.all (fun q => q.length < 2 || q.length = p.length || validCanonicalDirectory (relative q))

def canonicalFileLimit : PathClass → Option Nat
  | .legacyEvent | .legacyBatch => some MAX_LEGACY_FILE_BYTES
  | .journalRecord => some MAX_RECORD_BYTES
  | .journalBatch => some MAX_BATCH_BYTES
  | .invalidReserved | .nonCanonical => none

/-- The entries in the order of the recursion, by path. -/
def visibleEntries (disk : Disk) : List (List Name × Entry) :=
  (disk .canonical).entries.entries.filter (fun e => isReached e.1)

structure ScanBudget where
  entries : Nat
  bytes : Nat

namespace ScanBudget

def entry (budget : ScanBudget) (path : StorePath) : Except StoreError ScanBudget :=
  if budget.entries + 1 > MAX_CANONICAL_ENTRIES then
    .error (.invalidLayout path "canonical store exceeds entry-count limit")
  else .ok { budget with entries := budget.entries + 1 }

def reserveBytes (budget : ScanBudget) (length : Nat) (path : StorePath) :
    Except StoreError ScanBudget :=
  if length > MAX_TOTAL_CANONICAL_BYTES - budget.bytes then
    .error (.invalidLayout path "canonical store exceeds aggregate-byte limit")
  else .ok { budget with bytes := budget.bytes + length }

end ScanBudget

structure ScanLimits where
  entries : Nat
  bytes : Nat

def DEFAULT_SCAN_LIMITS : ScanLimits := ⟨MAX_CANONICAL_ENTRIES, MAX_TOTAL_CANONICAL_BYTES⟩

namespace ScanBudget

def entryWithin (limits : ScanLimits) (budget : ScanBudget) (path : StorePath) : Except StoreError ScanBudget :=
  if budget.entries + 1 > limits.entries then
    .error (.invalidLayout path "canonical store exceeds entry-count limit")
  else .ok { budget with entries := budget.entries + 1 }

def reserveWithin (limits : ScanLimits) (budget : ScanBudget) (length : Nat) (path : StorePath) :
    Except StoreError ScanBudget :=
  if length > limits.bytes - budget.bytes then
    .error (.invalidLayout path "canonical store exceeds aggregate-byte limit")
  else .ok { budget with bytes := budget.bytes + length }

end ScanBudget

structure VisibleInventory where
  files : List RawFile
  nonregular : List Bytes
  inventory : BTreeSet Bytes

def collectEntry (state : VisibleInventory × ScanBudget) (e : List Name × Entry) :
    Except StoreError (VisibleInventory × ScanBudget) := do
  let (found, budget) := state
  let path := e.1.map Name.bytes
  let relative := relative e.1
  let budget ← budget.entry path.dropLast
  let found := { found with inventory := found.inventory.insert relative () }
  match e.2 with
  | .directory =>
    if validCanonicalDirectory relative then return (found, budget)
    else return ({ found with files := found.files ++ [⟨relative, []⟩] }, budget)
  | .regular bytes =>
    if bytes.length > (canonicalFileLimit (classifyPath relative)).getD 0 then
      throw (.invalidLayout path "canonical file exceeds its byte limit")
    let budget ← budget.reserveBytes bytes.length path
    return ({ found with files := found.files ++ [⟨relative, bytes⟩] }, budget)
  | .other => return ({ found with nonregular := found.nonregular ++ [relative] }, budget)

/-- The same under given limits. -/
def collectWithin (limits : ScanLimits) (state : VisibleInventory × ScanBudget) (e : List Name × Entry) :
    Except StoreError (VisibleInventory × ScanBudget) := do
  let (found, budget) := state
  let path := e.1.map Name.bytes
  let relative := relative e.1
  let budget ← budget.entryWithin limits path.dropLast
  let found := { found with inventory := found.inventory.insert relative () }
  match e.2 with
  | .directory =>
    if validCanonicalDirectory relative then return (found, budget)
    else return ({ found with files := found.files ++ [⟨relative, []⟩] }, budget)
  | .regular bytes =>
    if bytes.length > (canonicalFileLimit (classifyPath relative)).getD 0 then
      throw (.invalidLayout path "canonical file exceeds its byte limit")
    let budget ← budget.reserveWithin limits bytes.length path
    return ({ found with files := found.files ++ [⟨relative, bytes⟩] }, budget)
  | .other => return ({ found with nonregular := found.nonregular ++ [relative] }, budget)

def sortFiles (files : List RawFile) : List RawFile := files.insertionSort (fun a b => a.path ≤ b.path)

def visibleInventory (disk : Disk) : Except StoreError VisibleInventory := do
  let (found, _) ← (visibleEntries disk).foldlM collectEntry (⟨[], [], ∅⟩, ⟨0, 0⟩)
  return ⟨sortFiles found.files, found.nonregular.insertionSort (· ≤ ·), found.inventory⟩

/-- What stands before each slash of a path, the longest last. -/
def slashPrefixes : Bytes → List Bytes
  | [] => []
  | b :: t => (if b = SLASH then [[]] else []) ++ (slashPrefixes t).map (b :: ·)

def isRootPath (path : Bytes) : Bool :=
  path = asBytes "events" || path = asBytes "batches" || path = asBytes "journal"

def canonicalParents (path : Bytes) : List Bytes :=
  (slashPrefixes path).reverse.takeWhile (!isRootPath ·)

def addEntryAndCanonicalParents (entries : BTreeSet Bytes) (path : Bytes) : BTreeSet Bytes :=
  (canonicalParents path).foldl (fun s p => s.insert p ()) (entries.insert path ())

def enforceLimits (files : List (Bytes × Nat)) (nonregular : List Bytes) (existing : BTreeSet Bytes) :
    Except StoreError Unit := do
  let entries := (files.map Prod.fst ++ nonregular).foldl addEntryAndCanonicalParents existing
  if entries.entries.length > MAX_CANONICAL_ENTRIES then
    throw (.invalidLayout [asBytes "."] "canonical store exceeds entry-count limit")
  if (files.map Prod.snd).sum > MAX_TOTAL_CANONICAL_BYTES then
    throw (.invalidLayout [asBytes "."] "canonical store exceeds aggregate-byte limit")

section

variable [Jiff] [Blake3]

def scanFiles (store : Store) (files : List RawFile) (nonregular : List Bytes) :
    Except StoreError StoreSnapshot :=
  (scanCollected store files nonregular).mapError .corrupt

def scanVisible (store : Store) (disk : Disk) : Except StoreError StoreSnapshot := do
  let found ← visibleInventory disk
  scanFiles store found.files found.nonregular

end

end Wayjournal
