import Wayjournal.Federation.Types
import Wayjournal.Fs.FileSystem
import Wayjournal.Store.Scan

namespace Wayjournal

open Fs

/-- A path below the store root, by components. -/
abbrev StorePath := List Bytes

/-- The message of `InvalidJournal`; the texts of other errors are kept as the
errors they print. -/
inductive JournalProblem
  | text (message : String)
  | malformed
  | batch (source : BatchError)
  | record (source : RecordCodecError)
  deriving DecidableEq

inductive StoreError
  | io (operation : String) (path : StorePath) (errno : Errno)
  | invalidLayout (path : StorePath) (message : String)
  | revisionMismatch (expected actual : StoreRevisionRef)
  | recoveryBaseChanged (expected actual : StoreRevisionRef)
  | invalidJournal (path : StorePath) (problem : JournalProblem)
  | publicationConflict (path : StorePath)
  | gitSyncPending (operationId : GitSyncOperationId) (phase : GitSyncPendingPhase)
  | invalidGitSyncState (message : String)
  | conflictingRecoveryState
  | batch (source : BatchError)
  | corrupt (issue : StoreCorruption)

end Wayjournal
