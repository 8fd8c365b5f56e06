import Wayjournal.Control.BufRead
import Wayjournal.Store.Streaming

namespace Wayjournal.SortFiles

open Control BufRead Collections

/-- A buffered reader of a file from its beginning. -/
class BufReader (ρ : Type) extends BufRead ρ UInt8 where
  new : Bytes → ρ
  unread_new : ∀ file, unread (new file) = file

inductive SortError
  | invalidLayout (path : StorePath) (message : String)
  | unexpectedEof (operation : String) (path : StorePath)

/-- The bytes written to temporary files so far. -/
abbrev SortM := StateT Nat (Except SortError)

/-- `ReplayTempBudget::reserve`. -/
def reserve (maximum bytes : Nat) : SortM Unit := do
  let used := (← get) + bytes
  if used > maximum then
    throw (.invalidLayout [] "semantic replay exceeds temporary-byte amplification limit")
  set used

/-- The bytes of a record in a file. -/
def recordBytes (fact : Fact) : Bytes := beBytes 4 fact.1.length ++ beBytes 4 fact.2.length ++ fact.1 ++ fact.2

/-- The file with the record at its end. -/
def writeRecord (maximum : Nat) (file : Bytes) (fact : Fact) : SortM Bytes := do
  if fact.1.length ≥ 2 ^ 32 then throw (.invalidLayout [] "external fact key length overflow")
  if fact.2.length ≥ 2 ^ 32 then throw (.invalidLayout [] "external fact value length overflow")
  reserve maximum fact.size
  return file ++ recordBytes fact

section Reader

variable {ρ : Type} [BufRead ρ UInt8]

def readFact (length : Nat) (reader : ρ) : Except SortError (Bytes × ρ) :=
  match readExact length reader with
  | none => .error (.unexpectedEof "read semantic fact" HERE)
  | some read => .ok read

def readRecord (reader : ρ) : Except SortError (Option Fact × ρ) := do
  let (lengths, reader) := readUpTo 8 reader
  if lengths.length < 8 then
    if lengths.isEmpty then return (none, reader)
    throw (.invalidLayout HERE "truncated semantic fact header")
  let keyLen := fromBeBytes (lengths.take 4)
  let valueLen := fromBeBytes (lengths.drop 4)
  if keyLen + valueLen + 8 > MAX_FACT_BYTES then throw (.invalidLayout HERE "semantic fact exceeds byte limit")
  let (key, reader) ← readFact keyLen reader
  let (value, reader) ← readFact valueLen reader
  return (some (key, value), reader)

structure FactReader (ρ : Type) where
  reader : ρ
  current : Option Fact

namespace FactReader

def advance (facts : FactReader ρ) : Except SortError (FactReader ρ) := do
  let (current, reader) ← readRecord facts.reader
  return ⟨reader, current⟩

def take (facts : FactReader ρ) : Except SortError (Option Fact × FactReader ρ) :=
  match facts.current with
  | none => .ok (none, facts)
  | some fact => do return (some fact, ← facts.advance)

end FactReader

/-- The current records of the readers with the places of these. -/
def currents : Nat → List (FactReader ρ) → List (Nat × Fact)
  | _, [] => []
  | index, facts :: readers => (facts.current.map fun fact => (index, fact)).toList ++ currents (index + 1) readers

/-- `min_by`: the first of the least. -/
def minBy : List (Nat × Fact) → Option (Nat × Fact)
  | [] => none
  | first :: others =>
    some (others.foldl (fun least record => if toLex record.2 < toLex least.2 then record else least) first)

def advanceAt : Nat → List (FactReader ρ) → Except SortError (List (FactReader ρ))
  | _, [] => .ok []
  | 0, facts :: readers => do return (← facts.advance) :: readers
  | index + 1, facts :: readers => do return facts :: (← advanceAt index readers)

/-- The loop of the merge; each round writes a record of a run, so `rounds` is at most what the runs hold. -/
def merge (maximum : Nat) : Nat → List (FactReader ρ) → Bytes → SortM Bytes
  | 0, _, output => pure output
  | rounds + 1, readers, output =>
    match minBy (currents 0 readers) with
    | none => pure output
    | some (index, fact) => do
      let output ← writeRecord maximum output fact
      let readers ← (advanceAt index readers : Except SortError _)
      merge maximum rounds readers output

end Reader

def FactReader.new {ρ : Type} [BufReader ρ] (file : Bytes) : Except SortError (FactReader ρ) :=
  FactReader.advance ⟨BufReader.new file, none⟩

structure ExternalSorter where
  runBytes : Nat
  buffered : List Fact
  bufferedBytes : Nat
  runs : List Bytes

namespace ExternalSorter

def withRunBytes (runBytes : Nat) : ExternalSorter := ⟨runBytes, [], 0, []⟩

def flushRun (maximum : Nat) (sorter : ExternalSorter) : SortM ExternalSorter := do
  let run ← (sortFacts sorter.buffered).foldlM (writeRecord maximum) []
  return { sorter with runs := sorter.runs ++ [run], buffered := [], bufferedBytes := 0 }

def push (maximum : Nat) (sorter : ExternalSorter) (fact : Fact) : SortM ExternalSorter := do
  if fact.size > MAX_FACT_BYTES then throw (.invalidLayout [] "external semantic fact exceeds byte limit")
  let sorter ←
    if sorter.bufferedBytes + fact.size > sorter.runBytes && !sorter.buffered.isEmpty then sorter.flushRun maximum
    else pure sorter
  return { sorter with
    buffered := sorter.buffered ++ [fact]
    bufferedBytes := sorter.bufferedBytes + fact.size }

variable (ρ : Type) [BufReader ρ]

/-- One run is the sorted file already; several are merged into another. -/
def mergeRuns (maximum : Nat) (runs : List Bytes) : SortM Bytes :=
  match runs with
  | [run] => pure run
  | runs => do
    let readers ← (runs.mapM FactReader.new : Except SortError (List (FactReader ρ)))
    merge maximum (runs.map List.length).sum readers []

/-- The file of the sorted facts. -/
def finish (maximum : Nat) (sorter : ExternalSorter) : SortM Bytes := do
  let sorter ← if !sorter.buffered.isEmpty || sorter.runs.isEmpty then sorter.flushRun maximum else pure sorter
  mergeRuns ρ maximum sorter.runs

end ExternalSorter

structure EnrichedStatus where
  path : Bytes
  claim : List Bytes
  location : Option Location

def parseEnrichedStatus (value : Bytes) : Except StoreError EnrichedStatus := do
  let (values, tail) ← takeValues "truncated enriched status" 6 value
  let location ← parseStatusLocation tail
  return ⟨values.getD 0 [], values, location⟩

end Wayjournal.SortFiles
