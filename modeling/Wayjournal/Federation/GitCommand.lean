import Wayjournal.Federation.Quarantine
import Wayjournal.Federation.Staging

namespace Wayjournal

open Collections Crash Fs Text

def MAX_SMALL_OUTPUT : Nat := 64 * 1024
def MAX_TREE_OUTPUT : Nat := 512 * 1024 * 1024
def MAX_TREE_DIFF_OUTPUT : Nat := 1024 * 1024 * 1024

inductive GitCommandFailureKind
  | spawn
  | io
  | timeout
  | nonZeroExit
  | stdoutLimit
  | stderrLimit
  | processControl
  deriving DecidableEq

/-- A text of the code, an exit status, or what the system or a library reports. -/
inductive GitMessage
  | text (message : String)
  | exited (code : Option Nat)
  | reported
  deriving DecidableEq

structure GitCommandError where
  operation : String
  message : GitMessage
  kind : GitCommandFailureKind
  deriving DecidableEq

namespace GitCommandError

def isHostileRepositoryState (error : GitCommandError) : Bool :=
  ["resolve local Git layout", "audit repository metadata", "audit local config", "bound fetched repository",
    "read local branch", "read object format", "validate fetched object graph", "inventory fetched objects",
    "compact reachable synchronization objects", "durably sync Git repository"].contains error.operation

def isHostileHistoryBound (error : GitCommandError) : Bool :=
  (error.operation = "enumerate new history" && error.message = .text "bounded output exceeded") ||
    (error.operation = "bound commit object" && error.message = .text "commit object exceeds byte limit")

end GitCommandError

/-- An error of the code itself, which is of the residual class. -/
def ioFailure (operation message : String) : GitCommandError := ⟨operation, .text message, .io⟩

/-- `command_error`: an error of the system under the name of the operation. -/
def commandError (operation : String) : GitCommandError := ⟨operation, .reported, .io⟩

/-- Where a command runs: in a bare repository, in the repository of the store or in none. -/
inductive GitPlace
  | bare (directory : Directory)
  | layout
  | standalone
  deriving DecidableEq

inductive GitSource
  | remote (locator : String)
  | repository (place : GitPlace)
  deriving DecidableEq

/-- The command lines, without the options that all of them share. -/
inductive GitArgs
  | configList
  | symbolicRefHead
  | showObjectFormat
  | revParseHead
  | revParseVerify (reference : String)
  | fetch (source : GitSource) (refspec : String)
  | fsck (localTip remoteTip : GitOid)
  | revListObjects
  | updateRef (reference value : String)
  | updateRefExpected (reference : String) (value expected : GitOid)
  | deleteRef (reference : String)
  | isAncestor (ancestor descendant : GitOid)
  | commitParents (commit : GitOid)
  | newHistory (localTip remoteTip boundary : GitOid)
  | objectType (oid : GitOid)
  | objectSize (oid : GitOid)
  | diffNameStatus (parent child : GitOid)
  | diffRaw (localTip candidate : GitOid)
  | listTree (oid : GitOid)
  | mergeTree (localTip remoteTip : GitOid)
  | commitTree (tree localTip remoteTip : GitOid)
  | push (locator reference : String) (expected : GitOid)
  | listRemote (locator reference : String)
  | batchStart
  | batchRequest (oid : GitOid)
  | batchEnd
  deriving DecidableEq

structure GitCommand where
  place : GitPlace
  args : GitArgs
  deriving DecidableEq

/-- How running a process can fail, apart from its exit and its output. -/
inductive ProcessFailure
  | spawn
  | io
  | timeout
  | stderrLimit
  | processControl
  deriving DecidableEq

/-- A process ends with an exit code, or by a signal, after its output. Only one that is asked
for blobs still runs when its output is read. -/
inductive GitOutcome
  | failed (failure : ProcessFailure)
  | exited (code : Option Nat) (stdout : Bytes)
  | running (stdout : Bytes)

/-- What stays the same on disk: everything but what stands below the repository a command runs in. -/
def GitPlace.Confines (disk disk' : Disk) : GitPlace → Prop
  | .bare d => (∀ area, area ≠ d.area → disk' area = disk area) ∧
      ∀ p, ¬ (d.path <+: p ∧ p ≠ d.path) → (disk' d.area).get? p = (disk d.area).get? p
  | _ => disk' = disk

/-- The Git executable and everything it keeps outside of the store's own directories: the
repository of the store, the remote and the objects. -/
class Git (γ : Type) where
  run : GitCommand → Disk → γ → GitOutcome × Disk × γ
  confined : ∀ (command : GitCommand) disk git, command.place.Confines disk (run command disk git).2.1
  /-- The resolution of the store's repository and the audits of its files. -/
  inspectLayout : γ → Except GitCommandError Unit
  /-- The audits again and the walk that makes the files durable. -/
  syncLayout : γ → Except GitCommandError Unit

/-- What outlives a process, and the command it is waiting for. -/
structure World (γ : Type) where
  disk : Disk
  git : γ
  running : Option GitCommand

namespace World

variable {γ : Type}

/-- What is left when the process is gone. -/
def halted (world : World γ) : World γ := { world with running := none }

end World

section

variable {γ ε α : Type}

abbrev GitM (γ : Type) := Program (World γ) GitCommandError

/-- A program that only uses the disk. -/
def onDisk (p : Program Disk ε α) : Program (World γ) ε α :=
  p.zoom World.disk fun disk world => { world with disk }

variable [Git γ]

def runGit (command : GitCommand) : Program (World γ) ε GitOutcome := fun world =>
  let result := Git.run command world.disk world.git
  ⟨[{ world with running := some command }, ⟨result.2.1, result.2.2, none⟩], .ok result.1⟩

def ProcessFailure.error (failure : ProcessFailure) (operation : String) : GitCommandError :=
  match failure with
  | .spawn => ⟨operation, .reported, .spawn⟩
  | .io => ⟨operation, .reported, .io⟩
  | .timeout => ⟨operation, .text "operation timed out", .timeout⟩
  | .stderrLimit => ⟨operation, .text "bounded stderr exceeded", .stderrLimit⟩
  | .processControl => ⟨operation, .reported, .processControl⟩

def stdoutLimitError (operation : String) : GitCommandError :=
  ⟨operation, .text "bounded output exceeded", .stdoutLimit⟩

def statusError (operation : String) (code : Option Nat) : GitCommandError :=
  ⟨operation, .exited code, .nonZeroExit⟩

/-- `run_bounded_command_with_input`: the exit code and the output. -/
def runBounded (operation : String) (command : GitCommand) (limit : Nat) : GitM γ (Option Nat × Bytes) := do
  match ← runGit command with
  | .failed failure => throw (failure.error operation)
  | .running _ => throw (ProcessFailure.timeout.error operation)
  | .exited code stdout =>
    if stdout.length > limit then throw (stdoutLimitError operation)
    return (code, stdout)

/-- `output`, `layout_output`, `local_output` and `standalone_output`. -/
def gitOutputWithin (operation : String) (place : GitPlace) (args : GitArgs) (limit : Nat) : GitM γ Bytes := do
  let (code, stdout) ← runBounded operation ⟨place, args⟩ limit
  if code ≠ some 0 then throw (statusError operation code)
  return stdout

def gitOutput (operation : String) (place : GitPlace) (args : GitArgs) : GitM γ Bytes :=
  gitOutputWithin operation place args MAX_SMALL_OUTPUT

/-- `succeeds` and `local_succeeds`. -/
def gitSucceeds (operation : String) (place : GitPlace) (args : GitArgs) : GitM γ Bool := do
  let (code, _) ← runBounded operation ⟨place, args⟩ MAX_SMALL_OUTPUT
  if code = none then throw (statusError operation code)
  return code = some 0

def exitOneIsFalse (operation : String) (place : GitPlace) (args : GitArgs) : GitM γ Bool := do
  let (code, _) ← runBounded operation ⟨place, args⟩ MAX_SMALL_OUTPUT
  if code = some 0 then return true
  if code = some 1 then return false
  throw (statusError operation code)

/-- `run_bounded_command_to_file`, whose message for an exit is what Git printed. -/
def outputToFile (operation : String) (command : GitCommand) (limit : Nat) : GitM γ Bytes := do
  let (code, stdout) ← runBounded operation command limit
  if code ≠ some 0 then throw ⟨operation, .reported, .nonZeroExit⟩
  return stdout

/-- A program that asks the repository of the store. -/
def onLayout (f : γ → Except GitCommandError α) : GitM γ α := .reads fun world => f world.git

end

end Wayjournal
