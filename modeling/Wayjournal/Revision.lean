import Mathlib.Data.List.Sort
import Wayjournal.Json.Serde
import Wayjournal.Layout

namespace Wayjournal

open Text

inductive RevisionAlgorithm
  | wayjournalBlake3FramedV1
  | waytaskBlake3FramedV1
  deriving DecidableEq

namespace RevisionAlgorithm

def asStr : RevisionAlgorithm → String
  | .wayjournalBlake3FramedV1 => "wayjournal.store/blake3-framed-v1"
  | .waytaskBlake3FramedV1 => "waytask.store/blake3-framed-v1"

def parse (input : String) : Option RevisionAlgorithm :=
  if input = wayjournalBlake3FramedV1.asStr then some .wayjournalBlake3FramedV1
  else if input = waytaskBlake3FramedV1.asStr then some .waytaskBlake3FramedV1
  else none

theorem parse_asStr (a : RevisionAlgorithm) : parse a.asStr = some a := by
  cases a <;> decide

theorem asStr_injective : Function.Injective asStr := by
  intro a b h
  have ha := parse_asStr a
  rw [h, parse_asStr] at ha
  exact (Option.some.inj ha).symm

end RevisionAlgorithm

instance : Deserialize RevisionAlgorithm where
  fromValue v := (fromValue v : Option String).bind RevisionAlgorithm.parse

structure StoreRevisionRef where
  algorithm : RevisionAlgorithm
  digest : Digest
  deriving DecidableEq

namespace StoreRevisionRef

def parse (algorithm digest : String) : Option StoreRevisionRef := do
  return ⟨← RevisionAlgorithm.parse algorithm, ← Digest.parse digest⟩

theorem parse_display (r : StoreRevisionRef) :
    parse r.algorithm.asStr r.digest.display = some r := by
  simp [parse, RevisionAlgorithm.parse_asStr, Digest.parse_display]

end StoreRevisionRef

open Serde in
instance : Deserialize StoreRevisionRef where
  fromValue v := do
    let [algorithm, digest] ← structFields ["algorithm", "digest"] v | none
    return ⟨← required algorithm, ← required digest⟩

def STORE_REVISION_DOMAIN : Bytes := asBytes "wayjournal-store-v1\x00"

structure RevisionEntry where
  path : Bytes
  bytes : Bytes
  regular : Bool

inductive RevisionError
  | duplicatePath (path : Bytes)
  | invalidCanonicalPath (path : Bytes)
  | nonRegularCanonicalPath (path : Bytes)
  | nonCanonicalOrder (path : Bytes)
  deriving DecidableEq

/-- The bytes fed to the hasher so far and the last path. -/
structure StoreRevisionAccumulator where
  fed : Bytes
  previousPath : Option Bytes

namespace StoreRevisionAccumulator

def new : StoreRevisionAccumulator := ⟨STORE_REVISION_DOMAIN, none⟩

def push (acc : StoreRevisionAccumulator) (path bytes : Bytes) :
    Except RevisionError StoreRevisionAccumulator :=
  if !(classifyPath path).isCanonical then .error (.invalidCanonicalPath path)
  else if acc.previousPath = some path then .error (.duplicatePath path)
  else if acc.previousPath.any (path < ·) then .error (.nonCanonicalOrder path)
  else .ok ⟨acc.fed ++ (frame path ++ frame bytes), some path⟩

def finish [Blake3] (acc : StoreRevisionAccumulator) : StoreRevisionRef :=
  ⟨.wayjournalBlake3FramedV1, Blake3.hash acc.fed⟩

end StoreRevisionAccumulator

/-- The first path that two neighbours share. -/
def firstRepeated : List Bytes → Option Bytes
  | a :: b :: l => if a = b then some a else firstRepeated (b :: l)
  | _ => none

def pushRevisionEntry (acc : StoreRevisionAccumulator) (entry : RevisionEntry) :
    Except RevisionError StoreRevisionAccumulator :=
  match classifyPath entry.path with
  | .invalidReserved => .error (.invalidCanonicalPath entry.path)
  | .nonCanonical => .ok acc
  | _ =>
    if !entry.regular then .error (.nonRegularCanonicalPath entry.path)
    else acc.push entry.path entry.bytes

def computeStoreRevision [Blake3] (entries : List RevisionEntry) :
    Except RevisionError StoreRevisionRef := do
  let entries := entries.insertionSort (fun a b => a.path ≤ b.path)
  if let some path := firstRepeated (entries.map RevisionEntry.path) then
    throw (.duplicatePath path)
  let acc ← entries.foldlM pushRevisionEntry .new
  return acc.finish

end Wayjournal
