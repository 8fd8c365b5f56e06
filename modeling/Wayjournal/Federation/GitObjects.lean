import Mathlib.Logic.Relation
import Wayjournal.Federation.History

namespace Wayjournal

open Collections Crash Fs Text

/-- The modes that a recursive listing of a tree shows. -/
inductive TreeMode
  | regular
  | executable
  | symlink
  | gitlink
  deriving DecidableEq

namespace TreeMode

def text : TreeMode → String
  | .regular => "100644"
  | .executable => "100755"
  | .symlink => "120000"
  | .gitlink => "160000"

def kind : TreeMode → String
  | .gitlink => "commit"
  | _ => "blob"

/-- A change between the first two is no change of type. -/
def isFile (mode : TreeMode) : Bool := mode = .regular || mode = .executable

def sameType (a b : TreeMode) : Bool := a = b || (a.isFile && b.isFile)

end TreeMode

structure TreeEntry where
  mode : TreeMode
  oid : GitOid
  deriving DecidableEq

/-- The files of a tree by their full paths. -/
structure GitTree where
  entries : BTreeMap Bytes TreeEntry
  nulFree : ∀ path ∈ entries.keys, (0 : UInt8) ∉ path

namespace GitTree

/-- Every file of the first tree is in the second with the same blob. -/
def Within (tree other : GitTree) : Prop :=
  ∀ path entry, tree.entries.get? path = some entry → other.entries.get? path = some entry

theorem Within.refl (tree : GitTree) : tree.Within tree := fun _ _ h => h

theorem Within.trans {a b c : GitTree} (h : a.Within b) (h' : b.Within c) : a.Within c :=
  fun path entry hp => h' path entry (h path entry hp)

def metadata (entry : TreeEntry) : List Bytes :=
  [asBytes entry.mode.text, asBytes entry.mode.kind, asBytes entry.oid.hex]

def record (e : Bytes × TreeEntry) : Bytes := [SPACE].intercalate (metadata e.2) ++ TAB :: e.1

/-- `ls-tree -r -z --full-tree`. -/
def listing (tree : GitTree) : Bytes := (tree.entries.entries.map record).flatMap (· ++ [0])

/-- The status letter of a path that differs: `A`, `D`, `M` or `T`. -/
def status : Option TreeEntry → Option TreeEntry → UInt8
  | none, _ => 0x41
  | some _, none => 0x44
  | some old, some new => if old.mode.sameType new.mode then 0x4d else 0x54

/-- The paths at which two trees differ. -/
def differing (tree other : GitTree) : List Bytes :=
  (BTreeSet.ofKeys (tree.entries.keys ++ other.entries.keys)).keys.filter
    (fun path => tree.entries.get? path ≠ other.entries.get? path)

/-- `diff-tree -r --name-status -z --no-renames`. -/
def nameStatus (tree other : GitTree) : Bytes :=
  ((tree.differing other).flatMap (fun path =>
    [[status (tree.entries.get? path) (other.entries.get? path)], path])).flatMap (· ++ [0])

end GitTree

/-- Commits, trees and blobs. They are named by their hashes: what a name stands for never
changes, and no commit is its own ancestor. -/
structure ObjectStore where
  parents : GitOid → List GitOid
  tree : GitOid → GitTree
  blob : GitOid → Bytes
  acyclic : WellFounded (fun parent child => parent ∈ parents child)
  blobLength : ∀ oid, (blob oid).length < 2 ^ 64

namespace ObjectStore

variable (objects : ObjectStore)

/-- The second commit is the first one or one of its ancestors. -/
def Reaches : GitOid → GitOid → Prop := Relation.ReflTransGen (fun child parent => parent ∈ objects.parents child)

/-- A commit of either tip that the boundary does not have. -/
def IsNew (localTip remoteTip boundary commit : GitOid) : Prop :=
  (objects.Reaches localTip commit ∨ objects.Reaches remoteTip commit) ∧ ¬ objects.Reaches boundary commit

def historyLine (commit : GitOid) : List Char :=
  [' '].intercalate ((commit :: objects.parents commit).map (fun oid => oid.hex.toList))

/-- The lines of `rev-list --parents`. -/
def historyText (commits : List GitOid) : List Char :=
  (commits.map objects.historyLine).flatMap (· ++ ['\n'])

/-- The answer of `cat-file --batch` for a blob. -/
def response (oid : GitOid) : Bytes :=
  [SPACE].intercalate [asBytes oid.hex, asBytes "blob", Json.decimal (objects.blob oid).length] ++
    NEWLINE :: (objects.blob oid ++ [NEWLINE])

def files (commit : GitOid) : List RawFile :=
  (objects.tree commit).entries.entries.map (fun e => ⟨e.1, objects.blob e.2.oid⟩)

variable [Jiff] [Blake3]

/-- The tree of a commit holds regular files only and they make up a store. -/
structure ValidCommit (store : Store) (commit : GitOid) : Prop where
  regular : ∀ path entry, (objects.tree commit).entries.get? path = some entry → entry.mode = .regular
  store : ∃ state, validateStreamed store (objects.files commit) = .ok state

end ObjectStore

/-- Git answers from the objects whenever it answers at all. -/
structure AnswersFrom (γ : Type) [Git γ] (objects : ObjectStore) (place : GitPlace) : Prop where
  isAncestor : ∀ {ancestor descendant disk git stdout},
    (Git.run (γ := γ) ⟨place, .isAncestor ancestor descendant⟩ disk git).1 = .exited (some 0) stdout →
      objects.Reaches descendant ancestor
  newHistory : ∀ {localTip remoteTip boundary disk git stdout},
    (Git.run (γ := γ) ⟨place, .newHistory localTip remoteTip boundary⟩ disk git).1 = .exited (some 0) stdout →
      ∃ commits, stdout = asBytes (String.ofList (objects.historyText commits)) ∧
        ∀ commit, commit ∈ commits ↔ objects.IsNew localTip remoteTip boundary commit
  diffNameStatus : ∀ {parent child disk git stdout},
    (Git.run (γ := γ) ⟨place, .diffNameStatus parent child⟩ disk git).1 = .exited (some 0) stdout →
      stdout = (objects.tree parent).nameStatus (objects.tree child)
  listTree : ∀ {commit disk git stdout},
    (Git.run (γ := γ) ⟨place, .listTree commit⟩ disk git).1 = .exited (some 0) stdout →
      stdout = (objects.tree commit).listing
  batchRequest : ∀ {commit path entry disk git stdout code},
    (objects.tree commit).entries.get? path = some entry → entry.mode = .regular →
    ((Git.run (γ := γ) ⟨place, .batchRequest entry.oid⟩ disk git).1 = .running stdout ∨
      (Git.run (γ := γ) ⟨place, .batchRequest entry.oid⟩ disk git).1 = .exited code stdout) →
      stdout <+: objects.response entry.oid

end Wayjournal
