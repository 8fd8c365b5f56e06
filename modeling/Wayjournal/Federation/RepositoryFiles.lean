import Wayjournal.Federation.GitStream

namespace Wayjournal

open Crash Fs Text

def MAX_PENDING_REPO_OBJECTS : Nat := 7010000
def MAX_PENDING_REPO_BYTES : Nat := 24 * 1024 * 1024 * 1024
def MAX_PENDING_REPO_DEPTH : Nat := 64

namespace Name

def hooks : Name := ⟨asBytes "hooks", by decide⟩
def info : Name := ⟨asBytes "info", by decide⟩
def objects : Name := ⟨asBytes "objects", by decide⟩
def refs : Name := ⟨asBytes "refs", by decide⟩
def pack : Name := ⟨asBytes "pack", by decide⟩
def heads : Name := ⟨asBytes "heads", by decide⟩
def tags : Name := ⟨asBytes "tags", by decide⟩
def gitConfig : Name := ⟨asBytes "config", by decide⟩
def gitHead : Name := ⟨asBytes "HEAD", by decide⟩
def alternates : Name := ⟨asBytes "alternates", by decide⟩
def shallow : Name := ⟨asBytes "shallow", by decide⟩
def grafts : Name := ⟨asBytes "grafts", by decide⟩
def replaceRefs : Name := ⟨asBytes "replace", by decide⟩
def packedRefs : Name := ⟨asBytes "packed-refs", by decide⟩
def transferAttempt : Name := ⟨asBytes "transfer-attempt", by decide⟩

end Name

abbrev RepositoryM := Program Disk GitCommandError

/-- Every error of the system is reported under the name of the operation. -/
def reported (operation : String) (p : DiskM α) : RepositoryM α := p.mapError fun _ => commandError operation

def INITIALIZE : String := "initialize admission repository"

def bareConfig : GitObjectFormat → String
  | .sha1 => "[core]\n\trepositoryformatversion = 0\n\tfilemode = true\n\tbare = true\n"
  | .sha256 =>
    "[extensions]\n\tobjectformat = sha256\n[core]\n\trepositoryformatversion = 1\n\tfilemode = true\n\tbare = true\n"

def ensureDirs (directory : Directory) (names : List Name) : DiskM Unit :=
  names.forM fun name => do
    let _ ← directory.ensureDir name

def initializeBareRepository (bare : Directory) (format : GitObjectFormat) : RepositoryM Unit :=
  reported INITIALIZE do
    ensureDirs bare [.hooks, .info, .objects, .refs]
    let objects ← bare.openDir .objects
    ensureDirs objects [.info, .pack]
    let refs ← bare.openDir .refs
    ensureDirs refs [.heads, .tags]
    bare.createFile .gitConfig
    bare.writeAll .gitConfig (asBytes (bareConfig format))
    bare.createFile .gitHead
    bare.writeAll .gitHead (asBytes "ref: refs/heads/wayjournal\n")

section Audit

def AUDIT : String := "audit repository metadata"

def existsRegular (directory : Directory) (name : Name) : RepositoryM Bool := .reads fun disk =>
  match directory.child? name disk with
  | none => .ok false
  | some (.regular _) => .ok true
  | some _ => .error (commandError AUDIT)

/-- The names in a directory that need not be there. -/
def optionalNames (directory : Directory) (name : Name) : RepositoryM (Option (List Name)) := .reads fun disk =>
  match directory.child? name disk with
  | none => .ok none
  | some .directory => .ok (some ((directory.child name).names disk))
  | some _ => .error (commandError AUDIT)

def optionalFile (directory : Directory) (name : Name) : RepositoryM (Option Bytes) := .reads fun disk =>
  match directory.child? name disk with
  | none => .ok none
  | some (.regular bytes) => .ok (some bytes)
  | some _ => .error (commandError AUDIT)

def containsWindow (window line : Bytes) : Bool := line.tails.any window.isPrefixOf

def auditRepositoryMetadata (gitDir : Directory) : RepositoryM Unit := do
  let objects ← reported AUDIT (gitDir.openDir .objects)
  let info ← reported AUDIT (objects.openDir .info)
  let alternates ← existsRegular info .alternates
  if ← (if alternates then pure true else existsRegular gitDir .shallow) then
    throw (ioFailure AUDIT "alternates or shallow history is not allowed")
  if (← optionalNames gitDir .info).isSome then
    if ← existsRegular (gitDir.child .info) .grafts then throw (ioFailure AUDIT "grafts are not allowed")
  let refs ← reported AUDIT (gitDir.openDir .refs)
  if let some names ← optionalNames refs .replaceRefs then
    if names.length > 1 then throw (commandError AUDIT)
    if !names.isEmpty then throw (ioFailure AUDIT "replace refs are not allowed")
  if let some bytes ← optionalFile gitDir .packedRefs then
    if bytes.length > MAX_SMALL_OUTPUT || (bytes.splitOn NEWLINE).any (containsWindow (asBytes " refs/replace/")) then
      throw (ioFailure AUDIT "packed replace refs or oversized packed refs are not allowed")

end Audit

section Walk

/-- What a walk has counted; no file of the model has two names. -/
structure RepositoryWalk where
  entries : Nat
  bytes : Nat
  objects : Nat
  deriving DecidableEq

def RepositoryWalk.new : RepositoryWalk := ⟨0, 0, 0⟩

/-- The levels a walk may enter, the root among them. -/
def REPOSITORY_LEVELS : Nat := MAX_PENDING_REPO_DEPTH + 1

/-- One entry; `isObject` is given where objects are counted. -/
def walkEntry (descend : List Name → Bool → RepositoryWalk → Option RepositoryWalk) (fs : FileSystem Name) (path : List Name)
    (top isObject : Bool) (state : RepositoryWalk) (name : Name) : Option RepositoryWalk :=
  if state.entries + 1 > MAX_PENDING_REPO_FS_ENTRIES then none
  else
    match fs.get? (path ++ [name]) with
    | some .directory =>
      descend (path ++ [name]) (isObject || (top && name = .objects)) { state with entries := state.entries + 1 }
    | some (.regular bytes) =>
      if state.bytes + bytes.length > MAX_PENDING_REPO_BYTES then none
      else if isObject && state.objects + 1 > MAX_PENDING_REPO_OBJECTS then none
      else
        some ⟨state.entries + 1, state.bytes + bytes.length, if isObject then state.objects + 1 else state.objects⟩
    | _ => none

/-- `audit_repository_walk` and, where nothing counts as an object, `sync_directory_tree`. -/
def repositoryWalk (counting : Bool) (fs : FileSystem Name) : Nat → List Name → Bool → RepositoryWalk → Option RepositoryWalk
  | 0, _, _, _ => none
  | levels + 1, path, isObject, state =>
    (fs.names path).foldlM
      (walkEntry (repositoryWalk counting fs levels) fs path (counting && levels + 1 = REPOSITORY_LEVELS) isObject) state

def walkRepository (counting : Bool) (operation : String) (gitDir : Directory) : RepositoryM Unit := .reads fun disk =>
  match repositoryWalk counting (disk gitDir.area) REPOSITORY_LEVELS gitDir.path false .new with
  | none => .error (commandError operation)
  | some _ => .ok ()

def auditRepositoryPhysicalBounds (gitDir : Directory) : RepositoryM Unit :=
  walkRepository true "bound fetched repository" gitDir

def syncDirectoryTree (gitDir : Directory) : RepositoryM Unit := walkRepository false "durably sync Git repository" gitDir

end Walk

section Removal

variable [ReadDir]

def RETIRE_ATTEMPT : String := "retire disposable synchronization attempt"

def removeTreeEntry (descend : Directory → Nat → RepositoryM Nat) (directory : Directory) (budget : Nat) (name : Name) :
    RepositoryM Nat := do
  if (← reported RETIRE_ATTEMPT (directory.kind name)) = .directory then
    let child ← reported RETIRE_ATTEMPT (directory.openDir name)
    let budget ← descend child (budget - 1)
    reported RETIRE_ATTEMPT (directory.unlinkDir name)
    return budget
  else
    reported RETIRE_ATTEMPT (directory.unlinkFile name)
    return budget - 1

def removeTreeBatches (descend : Directory → Nat → RepositoryM Nat) (directory : Directory) : Nat → Nat → RepositoryM Nat
  | 0, _ => throw (ioFailure RETIRE_ATTEMPT "attempt entry limit exceeded")
  | rounds + 1, budget => do
    if budget = 0 then throw (ioFailure RETIRE_ATTEMPT "attempt entry limit exceeded")
    let names ← reported RETIRE_ATTEMPT (directory.nameBatch (min budget CLEANUP_BATCH))
    if names.isEmpty then return budget
    let budget ← names.foldlM (removeTreeEntry descend directory) budget
    removeTreeBatches descend directory rounds budget

/-- `levels` is one more than the depth that may still be entered. -/
def removeDirectoryTree : Nat → Directory → Nat → RepositoryM Nat
  | 0, _, _ => throw (ioFailure RETIRE_ATTEMPT "attempt depth limit exceeded")
  | levels + 1, directory, budget => removeTreeBatches (removeDirectoryTree levels) directory (budget + 1) budget

end Removal

end Wayjournal
