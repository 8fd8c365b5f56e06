import Wayjournal.Federation.GitRepository
import Wayjournal.Federation.RepositoryFiles

namespace Wayjournal

open Collections Crash Fs Text

/-- The repository of the store, as an inspection has found it. -/
structure LocalRepository where
  format : GitObjectFormat
  tip : GitOid

def allowedConfigKeys : List String :=
  ["core.repositoryformatversion", "core.filemode", "core.bare", "core.logallrefupdates", "core.ignorecase",
    "core.precomposeunicode", "extensions.objectformat", "user.name", "user.email"]

def lowerByte (b : UInt8) : UInt8 := if 0x41 ≤ b ∧ b ≤ 0x5a then b + 0x20 else b

/-- A key that is not UTF-8 is none of those that are allowed. -/
def allowedConfigKey (key : Bytes) : Bool := (allowedConfigKeys.map asBytes).contains (key.map lowerByte)

section

variable {γ : Type} [Git γ] [Url]

def auditLocalConfig : GitM γ Unit := do
  let output ← gitOutput "audit local config" .layout .configList
  if ((output.splitOn 0).filter (!·.isEmpty)).any (!allowedConfigKey ·) then
    throw (commandError "audit local config")

def inspectLocal (request : GitSyncRequest) : GitM γ LocalRepository := do
  onLayout Git.inspectLayout
  auditLocalConfig
  let branch ← gitOutput "read local branch" .layout .symbolicRefHead
  if branch ≠ asBytes request.approvedRemote.reference.asStr ++ [NEWLINE] then
    throw (ioFailure "read local branch" "checked-out branch is not the approved ref")
  let formatText ← gitOutput "read object format" .layout .showObjectFormat
  let some format := (fromUtf8 formatText).bind fun text => GitObjectFormat.parse (String.ofList (trim text.toList)) |
    throw (ioFailure "read object format" "unsupported object format")
  let tip ← gitOutput "read local tip" .layout .revParseHead
  return ⟨format, ← .ofExcept (parseOidOutput format tip)⟩

def inspectLocalRef (format : GitObjectFormat) (request : GitSyncRequest) : GitM γ GitOid := do
  let output ← gitOutput "observe approved local ref" .layout (.revParseVerify request.approvedRemote.reference.asStr)
  .ofExcept (parseOidOutput format output)

def requireLocalCommit (oid : GitOid) : GitM γ Unit := SyncRepository.requireCommitObject .layout oid

def syncLocalRepositoryDurable : GitM γ Unit := onLayout Git.syncLayout

def CANDIDATE_REF : String := "refs/wayjournal/candidate"

def ADVANCE_REF : String := "advance approved local ref"

/-- The approved ref goes from the expected commit to the candidate, or is there already. -/
def advanceLocalRef (request : GitSyncRequest) (localRepository : LocalRepository) (repository : SyncRepository)
    (expected candidate : GitOid) : GitM γ Unit := do
  let current ← inspectLocalRef localRepository.format request
  if current = candidate then
    syncLocalRepositoryDurable
    requireLocalCommit candidate
  else
    if current ≠ expected then
      throw (ioFailure ADVANCE_REF "approved local ref is neither expected old nor candidate")
    let _ ← gitOutput "import synchronization candidate" .layout
      (.fetch (.repository repository.place) (CANDIDATE_REF ++ ":" ++ CANDIDATE_REF))
    requireLocalCommit candidate
    let _ ← gitOutput ADVANCE_REF .layout
      (.updateRefExpected request.approvedRemote.reference.asStr candidate expected)
    syncLocalRepositoryDurable
    if (← inspectLocalRef localRepository.format request) ≠ candidate then
      throw (ioFailure ADVANCE_REF "approved local ref did not reach candidate after durable reopen")
    requireLocalCommit candidate

def removeInternalLocalCandidate : GitM γ Unit := do
  let _ ← gitSucceeds "remove internal candidate ref" .layout (.deleteRef CANDIDATE_REF)
  syncLocalRepositoryDurable
  if ← gitSucceeds "verify internal candidate ref removal" .layout (.revParseVerify CANDIDATE_REF) then
    throw (ioFailure "remove internal candidate ref" "internal candidate ref remained after durable removal")

def OBSERVE_REMOTE : String := "observe approved remote ref"

/-- What the remote says about one ref: at most one line that names it. -/
def parseRemoteRef (reference : String) (format : GitObjectFormat) (output : Bytes) :
    Except GitCommandError (Option GitOid) :=
  match (output.splitOn NEWLINE).filter (!·.isEmpty) with
  | [] => .ok none
  | [line] =>
    match line.splitOn TAB with
    | [oid, name] =>
      if name ≠ asBytes reference then .error (ioFailure OBSERVE_REMOTE "remote exact ref observation is malformed")
      else
        match fromUtf8 oid with
        | none => .error (ioFailure OBSERVE_REMOTE "remote object id is not UTF-8")
        | some text =>
          match GitOid.parse format text with
          | none => .error (commandError OBSERVE_REMOTE)
          | some oid => .ok (some oid)
    | _ => .error (ioFailure OBSERVE_REMOTE "remote exact ref observation is malformed")
  | _ => .error (ioFailure OBSERVE_REMOTE "remote returned multiple exact ref observations")

def observeRemoteRef (request : GitSyncRequest) (format : GitObjectFormat) : GitM γ (Option GitOid) := do
  let output ← gitOutput OBSERVE_REMOTE .standalone
    (.listRemote request.approvedRemote.locator.asStr request.approvedRemote.reference.asStr)
  .ofExcept (parseRemoteRef request.approvedRemote.reference.asStr format output)

/-- Whether the remote has taken the candidate in exchange for the expected tip. -/
def pushCandidateExactLease (request : GitSyncRequest) (repository : SyncRepository) (expectedRemote : GitOid) :
    GitM γ Bool :=
  gitSucceeds "push synchronization candidate" repository.place
    (.push request.approvedRemote.locator.asStr request.approvedRemote.reference.asStr expectedRemote)

end

end Wayjournal
