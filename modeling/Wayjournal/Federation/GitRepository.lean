import Wayjournal.Federation.GitStream

namespace Wayjournal

open Collections Crash Fs Text

def isAsciiWhitespace (c : Char) : Bool := [' ', '\t', '\n', '\x0c', '\r'].contains c

/-- `split_ascii_whitespace`. -/
def words (text : List Char) : List String :=
  ((text.splitOnP isAsciiWhitespace).filter (!·.isEmpty)).map String.ofList

def trim (text : List Char) : List Char :=
  ((text.dropWhile isWhitespace).reverse.dropWhile isWhitespace).reverse

def parseOidOutput (format : GitObjectFormat) (output : Bytes) : Except GitCommandError GitOid := do
  let some text := fromUtf8 output | throw (ioFailure "parse object id" "non-UTF-8 object id")
  let some oid := GitOid.parse format (String.ofList (trim text.toList)) | throw (commandError "parse object id")
  return oid

structure SyncRepository where
  bare : Directory
  format : GitObjectFormat

namespace SyncRepository

variable {γ : Type} [Git γ] (repository : SyncRepository)

def place : GitPlace := .bare repository.bare

def refOid (reference : String) : GitM γ GitOid := do
  let output ← gitOutput "read synchronization ref" repository.place (.revParseVerify reference)
  .ofExcept (parseOidOutput repository.format output)

/-- The parents in a line that starts with the commit itself. -/
def parseParents (commit : GitOid) (output : Bytes) : Except GitCommandError (List GitOid) := do
  let some text := fromUtf8 output | throw (ioFailure "read candidate parents" "parent list is not UTF-8")
  let observed :: parents := words text.toList | throw (ioFailure "read candidate parents" "parent list is empty")
  if observed ≠ commit.hex then
    throw (ioFailure "read candidate parents" "parent list names a different commit")
  let parents ← parents.mapM fun word =>
    match GitOid.parse repository.format word with
    | none => Except.error (commandError "read candidate parents")
    | some oid => .ok oid
  return sortDedup parents

def commitParents (commit : GitOid) : GitM γ (List GitOid) := do
  let output ← gitOutput "read candidate parents" repository.place (.commitParents commit)
  .ofExcept (repository.parseParents commit output)

def isAncestor (ancestor descendant : GitOid) : GitM γ Bool :=
  exitOneIsFalse "validate commit ancestry" repository.place (.isAncestor ancestor descendant)

def EDGE : String := "validate immutable history edge"

def edgeStreamEnd (part : String) : FramingProblem → GitCommandError
  | .truncated => ioFailure EDGE ("immutable edge diff ended inside a " ++ part)
  | .tooLong => ioFailure EDGE ("immutable edge diff " ++ part ++ " exceeds byte limit")

/-- `immutable_edge_violation_from_reader`: the statuses and paths in turn. -/
def edgeViolation (problem : Option FramingProblem) :
    List Bytes → Except GitCommandError (Option GitQuarantineReason)
  | [] =>
    match problem with
    | none => .ok none
    | some problem => .error (edgeStreamEnd "status" problem)
  | [_] =>
    match problem with
    | none => .error (ioFailure EDGE "immutable edge diff ended before a path")
    | some problem => .error (edgeStreamEnd "path" problem)
  | status :: _ :: rest =>
    if status.head? = some 0x44 then .ok (some .deletion)
    else if status.head? = some 0x4d then .ok (some .modification)
    else edgeViolation problem rest

def immutableEdgeViolation (parent child : GitOid) : GitM γ (Option GitQuarantineReason) := do
  let output ← outputToFile EDGE ⟨repository.place, .diffNameStatus parent child⟩ MAX_TREE_OUTPUT
  let (records, problem) := nulRecords output
  .ofExcept (edgeViolation problem records)

def newHistory (boundary localTip remoteTip : GitOid) (outputLimit : Nat) : GitM γ Bytes :=
  gitOutputWithin "enumerate new history" repository.place (.newHistory localTip remoteTip boundary) outputLimit

def requireCommitObject (place : GitPlace) (oid : GitOid) : GitM γ Unit := do
  let objectType ← gitOutput "validate commit object" place (.objectType oid)
  if objectType ≠ asBytes "commit\n" then
    throw (ioFailure "validate commit object" "approved object is not a commit")

/-- `parse::<usize>`, which allows a plus sign. -/
def parseSize (size : Bytes) : Option Nat := do
  let text ← fromUtf8 size
  let digits := trim text.toList
  let value ← parseDecimal (Json.utf8 (String.ofList (if digits.head? = some '+' then digits.tail else digits)))
  if value < 2 ^ 64 then some value else none

def requireCommitBounded (oid : GitOid) (byteLimit : Nat) : GitM γ Unit := do
  requireCommitObject repository.place oid
  let size ← gitOutput "bound commit object" repository.place (.objectSize oid)
  let some size := parseSize size | throw (ioFailure "bound commit object" "commit size is not canonical decimal")
  if size > byteLimit then throw (ioFailure "bound commit object" "commit object exceeds byte limit")

variable [Jiff] [Blake3]

def treeSnapshot (store : Store) (oid : GitOid) : AdmissionM γ ValidatedStoreState :=
  Wayjournal.treeSnapshot store repository.place repository.format oid

end SyncRepository

end Wayjournal
