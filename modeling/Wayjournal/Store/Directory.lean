import Wayjournal.Crash.Program
import Wayjournal.Store.Error
import Wayjournal.Store.Name

namespace Wayjournal

open Crash Fs Text

/-- The directories a store keeps open. -/
inductive Area
  | canonical
  | stages
  | recovery
  | checkpoints
  | syncPending
  | quarantine
  deriving DecidableEq

def LOCAL_DIR : Bytes := asBytes ".wayjournal-local"

def Area.root : Area → StorePath
  | .canonical => []
  | .stages => [LOCAL_DIR, asBytes "stages"]
  | .recovery => [LOCAL_DIR, asBytes "recovery"]
  | .checkpoints => [LOCAL_DIR, asBytes "checkpoints"]
  | .syncPending => [LOCAL_DIR, asBytes "sync-pending"]
  | .quarantine => [LOCAL_DIR, asBytes "quarantine"]

/-- What stands below each of them. A write is durable once it is made, so a
directory sync has nothing to add. -/
abbrev Disk := Area → FileSystem Name

def Disk.set (disk : Disk) (area : Area) (fs : FileSystem Name) : Disk := Function.update disk area fs

@[simp] theorem Disk.set_same (disk : Disk) (area : Area) (fs : FileSystem Name) :
    disk.set area fs area = fs := Function.update_self ..

theorem Disk.set_of_ne (disk : Disk) {area other : Area} (h : other ≠ area) (fs : FileSystem Name) :
    disk.set area fs other = disk other := Function.update_of_ne h ..

@[simp] theorem Disk.set_set (disk : Disk) (area : Area) (fs gs : FileSystem Name) :
    (disk.set area fs).set area gs = disk.set area gs := Function.update_idem ..

@[simp] theorem Disk.set_eq_self (disk : Disk) (area : Area) : disk.set area (disk area) = disk :=
  Function.update_eq_self ..

namespace Name

def events : Name := ⟨asBytes "events", by decide⟩
def batches : Name := ⟨asBytes "batches", by decide⟩
def journal : Name := ⟨asBytes "journal", by decide⟩
def records : Name := ⟨asBytes "records", by decide⟩

end Name

inductive FileType
  | directory
  | regularFile
  | other
  deriving DecidableEq

def FileType.ofEntry : Entry → FileType
  | .directory => .directory
  | .regular _ => .regularFile
  | .other => .other

/-- The order in which the system lists the names of a directory. -/
class ReadDir where
  order : List Name → List Name → List Name
  perm : ∀ path names, (order path names).Perm names

abbrev DiskM := Program Disk StoreError

structure Directory where
  area : Area
  path : List Name
  deriving DecidableEq

namespace Directory

def root (area : Area) : Directory := ⟨area, []⟩

def join (d : Directory) (name : Name) : StorePath := d.area.root ++ (d.path ++ [name]).map Name.bytes

def display (d : Directory) : StorePath := d.area.root ++ d.path.map Name.bytes

def child (d : Directory) (name : Name) : Directory := ⟨d.area, d.path ++ [name]⟩

def child? (d : Directory) (name : Name) (disk : Disk) : Option Entry :=
  (disk d.area).get? (d.path ++ [name])

def names (d : Directory) (disk : Disk) : List Name := (disk d.area).names d.path

def kind (d : Directory) (name : Name) : DiskM FileType := .reads fun disk =>
  match d.child? name disk with
  | none => .error (.io "inspect directory entry" (d.join name) .noent)
  | some e => .ok (.ofEntry e)

def openDir (d : Directory) (name : Name) : DiskM Directory := .reads fun disk =>
  match d.child? name disk with
  | none => .error (.io "open directory component" (d.join name) .noent)
  | some .directory => .ok (d.child name)
  | some _ => .error (.io "open directory component" (d.join name) .notdir)

/-- An open file is its content. -/
def openFile (d : Directory) (name : Name) : DiskM Bytes := .reads fun disk =>
  match d.child? name disk with
  | none => .error (.io "open regular file component" (d.join name) .noent)
  | some (.regular bytes) => .ok bytes
  | some _ => .error (.invalidLayout (d.join name) "path is not an ordinary regular file")

/-- One change of the directory's area. -/
def change (d : Directory) (operation : String) (name : Name)
    (f : FileSystem Name → Except Errno (FileSystem Name)) : DiskM Unit := .update fun disk =>
  match f (disk d.area) with
  | .error errno => .error (.io operation (d.join name) errno)
  | .ok fs => .ok (disk.set d.area fs)

def mkdir (d : Directory) (name : Name) : DiskM Unit :=
  d.change "create directory component" name (·.create d.path name .directory)

/-- The directory and whether it was made. -/
def ensureDir (d : Directory) (name : Name) : DiskM (Directory × Bool) := do
  match ← Program.reads (fun disk => .ok (d.child? name disk)) with
  | none =>
    d.mkdir name
    return (← d.openDir name, true)
  | some e =>
    if FileType.ofEntry e ≠ .directory then
      throw (.invalidLayout (d.join name) "reserved path is not an ordinary directory")
    return (← d.openDir name, false)

def createFile (d : Directory) (name : Name) : DiskM Unit :=
  d.change "create regular file component" name (·.create d.path name (.regular []))

def writeAll (d : Directory) (name : Name) (bytes : Bytes) : DiskM Unit :=
  d.change "write descriptor" name (·.write d.path name bytes)

def unlinkFile (d : Directory) (name : Name) : DiskM Unit :=
  d.change "unlink file" name (·.unlink d.path name)

def unlinkDir (d : Directory) (name : Name) : DiskM Unit :=
  d.change "unlink directory" name (·.rmdir d.path name)

def renameFile (d : Directory) (old new : Name) : DiskM Unit :=
  d.change "replace local file" new (·.rename d.path old new)

/-- Whether the name still stands for the open directory. -/
def entryIs (d : Directory) (name : Name) (child : Directory) : DiskM Bool := .reads fun disk =>
  match d.child? name disk with
  | none => .error (.io "inspect retained directory entry" (d.join name) .noent)
  | some e => .ok (e = .directory && child = d.child name)

section

variable [ReadDir]

def boundedNames (d : Directory) (limit : Nat) : DiskM (List Name) := .reads fun disk =>
  if (ReadDir.order d.path (d.names disk)).length > limit then
    .error (.invalidLayout d.display "directory exceeds entry-count limit")
  else .ok ((ReadDir.order d.path (d.names disk)).insertionSort (· ≤ ·))

def nameBatch (d : Directory) (limit : Nat) : DiskM (List Name) := .reads fun disk =>
  .ok (((ReadDir.order d.path (d.names disk)).take limit).insertionSort (· ≤ ·))

end

end Directory

def readFileBounded (file : Bytes) (limit : Nat) (path : StorePath) : Except StoreError Bytes :=
  if file.length > limit then .error (.invalidLayout path "file exceeds byte limit") else .ok file

namespace Store

def eventsDir : Directory := ⟨.canonical, [.events]⟩
def batchesDir : Directory := ⟨.canonical, [.batches]⟩
def journalDir : Directory := ⟨.canonical, [.journal]⟩
def recordsDir : Directory := ⟨.canonical, [.journal, .records]⟩
def journalBatchesDir : Directory := ⟨.canonical, [.journal, .batches]⟩
def stagesDir : Directory := .root .stages
def recoveryDir : Directory := .root .recovery
def checkpointsDir : Directory := .root .checkpoints
def syncPendingDir : Directory := .root .syncPending
def quarantineDir : Directory := .root .quarantine

end Store

end Wayjournal
