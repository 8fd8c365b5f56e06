import Wayjournal.Control.BufRead
import Wayjournal.Federation.GitStream

namespace Wayjournal.GitReader

open Control BufRead

variable {ρ ε : Type} [BufRead ρ UInt8]

/-- The loop of both delimited readers; `record` is what earlier chunks have given. -/
def readRecord (fail : FramingProblem → ε) (delimiter : UInt8) (limit : Nat) (record : Bytes) (reader : ρ) :
    Except ε (Option Bytes × ρ) :=
  if _h : (fillBuf reader).1 = [] then
    if record.isEmpty then .ok (none, (fillBuf reader).2) else .error (fail .truncated)
  else
    match (fillBuf reader).1.findIdx? (· == delimiter) with
    | some position =>
      if record.length + position > limit then .error (fail .tooLong)
      else .ok (some (record ++ (fillBuf reader).1.take position), consume (position + 1) (fillBuf reader).2)
    | none =>
      if record.length + (fillBuf reader).1.length > limit then .error (fail .tooLong)
      else
        readRecord fail delimiter limit (record ++ (fillBuf reader).1)
          (consume (fillBuf reader).1.length (fillBuf reader).2)
  termination_by (unread reader).length
  decreasing_by
    obtain ⟨rest, hrest, hconsume⟩ := unread_eq reader
    rw [hconsume _ le_rfl, hrest, List.drop_length, List.nil_append, List.length_append]
    have := List.length_pos_of_ne_nil _h
    omega

/-- The texts of a delimited reader. -/
def framingMessage (truncatedMessage limitMessage : String) : FramingProblem → String
  | .truncated => truncatedMessage
  | .tooLong => limitMessage

def readSnapshotDelimitedRecord (delimiter : UInt8) (limit : Nat) (operation truncatedMessage limitMessage : String) :
    ρ → Except GitAdmissionError (Option Bytes × ρ) :=
  readRecord (fun problem => hostileSnapshotError operation (framingMessage truncatedMessage limitMessage problem))
    delimiter limit []

def readDelimitedRecord (delimiter : UInt8) (limit : Nat) (operation truncatedMessage limitMessage : String) :
    ρ → Except GitCommandError (Option Bytes × ρ) :=
  readRecord (fun problem => ioFailure operation (framingMessage truncatedMessage limitMessage problem))
    delimiter limit []

def readSnapshotExact (length : Nat) (operation truncatedMessage : String) (reader : ρ) :
    Except GitAdmissionError (Bytes × ρ) :=
  match readExact length reader with
  | none => .error (hostileSnapshotError operation truncatedMessage)
  | some read => .ok read

structure CatFileRequest where
  expected : GitOid
  byteLimit : Nat

def problemMessage : ResponseProblem → String
  | .incomplete message => message
  | .hostile message => message

/-- The length in a header that answers the request. -/
def parseHeader (header : Bytes) (request : CatFileRequest) : Except GitAdmissionError Nat := do
  let parts := header.splitOn SPACE
  if parts.getD 0 [] ≠ asBytes request.expected.hex || parts.getD 1 [] ≠ asBytes "blob" || parts.length > 3 then
    throw (hostileSnapshotError BLOB_BATCH "cat-file response does not match the requested blob")
  (parseBlobLength (parts.getD 2 [])).mapError fun problem => hostileSnapshotError BLOB_BATCH (problemMessage problem)

/-- A blob of the announced length and its terminator. -/
def readBlob (length byteLimit : Nat) (reader : ρ) : Except GitAdmissionError (Bytes × ρ) := do
  if length > byteLimit then throw (hostileSnapshotError BLOB_BATCH "cat-file blob exceeds byte limit")
  let (bytes, reader) ← readSnapshotExact length BLOB_BATCH "cat-file blob ended before its declared length" reader
  let (terminator, reader) ← readSnapshotExact 1 BLOB_BATCH "cat-file blob ended before its terminator" reader
  if terminator ≠ [NEWLINE] then throw (hostileSnapshotError BLOB_BATCH "cat-file blob has an invalid terminator")
  return (bytes, reader)

def readCatFileResponse (request : CatFileRequest) (reader : ρ) : Except GitAdmissionError (Bytes × ρ) := do
  let (header, reader) ← readSnapshotDelimitedRecord NEWLINE HEADER_LIMIT BLOB_BATCH
    "cat-file ended inside a response header" "cat-file response header exceeds byte limit" reader
  let some header := header | throw (hostileSnapshotError BLOB_BATCH "cat-file ended before a response header")
  let length ← parseHeader header request
  readBlob length request.byteLimit reader

/-- The responses to the requests of a batch, one after the other. -/
def readCatFileResponses : List CatFileRequest → ρ → Except GitAdmissionError (List Bytes × ρ)
  | [], reader => .ok ([], reader)
  | request :: requests, reader => do
    let (bytes, reader) ← readCatFileResponse request reader
    let (blobs, reader) ← readCatFileResponses requests reader
    return (bytes :: blobs, reader)

end Wayjournal.GitReader
