import Wayjournal.Federation.GitRepository

namespace Wayjournal

open Collections Crash Fs Text

def MAX_NEW_COMMITS : Nat := 10000
def MAX_PARENTS_PER_COMMIT : Nat := 64
def MAX_COMMIT_BYTES : Nat := 1024 * 1024
def MAX_GRAPH_OUTPUT : Nat := 64 * 1024 * 1024

def corruptionQuarantineReason : StoreCorruption → GitQuarantineReason
  | .duplicateGlobalRecordId _ _ => .uuidCollision
  | .genericOwnership (.idempotencyRequestMismatch _) => .idempotencyCollision
  | .genericOwnership (.duplicateIdempotencyOwnership _) => .idempotencyCollision
  | _ => .invalidCommitSnapshot

def admissionQuarantineReason : GitAdmissionError → Option GitQuarantineReason
  | .identityMismatch => some .logicalIdentityMismatch
  | .checkpointIdentityMismatch => some .logicalIdentityMismatch
  | .store (.corrupt issue) => some (corruptionQuarantineReason issue)
  | .nonCanonicalTrackedPath => some .invalidCommitSnapshot
  | .invalidTreeEntry => some .invalidCommitSnapshot
  | .hostileSnapshot _ => some .invalidCommitSnapshot
  | _ => none

/-- A hostile history is only kept with its reason, which is all that is recorded of it. -/
inductive HistoryValidationError
  | hostile (reason : GitQuarantineReason)
  | operational (source : GitAdmissionError)

def classifyAdmissionError (error : GitAdmissionError) : HistoryValidationError :=
  match admissionQuarantineReason error with
  | some reason => .hostile reason
  | none => .operational error

def classifyGitError (error : GitCommandError) : HistoryValidationError :=
  if error.isHostileHistoryBound then .hostile .malformedHistory else .operational (.git error)

abbrev HistoryM (γ : Type) := Program (World γ) HistoryValidationError

instance {γ : Type} : MonadLift (GitM γ) (HistoryM γ) := ⟨Program.mapError classifyGitError⟩

structure CommitLine where
  oid : GitOid
  parents : List GitOid
  deriving DecidableEq

/-- `str::lines`; a carriage return at the end of a line would be whitespace within it. -/
def lines (text : List Char) : List (List Char) :=
  let parts := text.splitOn '\n'
  if parts.getLast? = some [] then parts.dropLast else parts

def parseLine (format : GitObjectFormat) (line : List Char) : Option CommitLine := do
  let oids ← (words line).mapM (GitOid.parse format)
  match oids with
  | [] => none
  | oid :: parents =>
    if parents.isEmpty || parents.length > MAX_PARENTS_PER_COMMIT then none else some ⟨oid, parents⟩

/-- Every failure is a malformed history. -/
def parseGraph (format : GitObjectFormat) (bytes : Bytes) : Except HistoryValidationError (List CommitLine) :=
  match fromUtf8 bytes with
  | none => .error (.hostile .malformedHistory)
  | some text =>
    if (lines text.toList).length > MAX_NEW_COMMITS then .error (.hostile .malformedHistory)
    else
      match (lines text.toList).mapM (parseLine format) with
      | none => .error (.hostile .malformedHistory)
      | some lines => .ok lines

section

variable {γ : Type} [Git γ] [Jiff] [Blake3] (store : Store) (repository : SyncRepository)

def validateTree (oid : GitOid) : HistoryM γ Unit := do
  let _ ← Program.mapError classifyAdmissionError (repository.treeSnapshot store oid : AdmissionM γ _)

def requireAdvancing (boundary tip : GitOid) : HistoryM γ Unit := do
  if !(← (repository.isAncestor boundary tip : GitM γ Bool)) then throw (.hostile .rollbackNonAncestry)

/-- A parent that is not validated yet has to be old. -/
def validateParent (boundary : GitOid) (newIds validated : BTreeSet GitOid) (parent : GitOid) :
    HistoryM γ (BTreeSet GitOid) := do
  if validated.containsKey parent then return validated
  if newIds.containsKey parent then throw (.hostile .malformedHistory)
  if !(← (repository.isAncestor parent boundary : GitM γ Bool)) then throw (.hostile .rollbackNonAncestry)
  (repository.requireCommitBounded parent MAX_COMMIT_BYTES : GitM γ Unit)
  validateTree store repository parent
  return validated.insert parent ()

def validateEdge (child parent : GitOid) : HistoryM γ Unit := do
  if let some reason ← (repository.immutableEdgeViolation parent child : GitM γ _) then throw (.hostile reason)

def validateLine (boundary : GitOid) (newIds validated : BTreeSet GitOid) (line : CommitLine) :
    HistoryM γ (BTreeSet GitOid) := do
  (repository.requireCommitBounded line.oid MAX_COMMIT_BYTES : GitM γ Unit)
  let validated ← line.parents.foldlM (validateParent store repository boundary newIds) validated
  line.parents.forM (validateEdge repository line.oid)
  validateTree store repository line.oid
  return validated.insert line.oid ()

def validateHistories (boundary localTip remoteTip : GitOid) : HistoryM γ Unit := do
  requireAdvancing repository boundary localTip
  requireAdvancing repository boundary remoteTip
  let graph ← (repository.newHistory boundary localTip remoteTip MAX_GRAPH_OUTPUT : GitM γ Bytes)
  let lines ← .ofExcept (parseGraph repository.format graph)
  validateTree store repository boundary
  let newIds := BTreeSet.ofKeys (lines.map CommitLine.oid)
  let validated ← lines.foldlM (validateLine store repository boundary newIds) (BTreeSet.ofKeys [boundary])
  if !validated.containsKey localTip || !validated.containsKey remoteTip then throw (.hostile .malformedHistory)

end

end Wayjournal
