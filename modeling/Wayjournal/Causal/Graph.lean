import Mathlib.Data.List.Sort
import Wayjournal.Collections.BTreeMap
import Wayjournal.Collections.Dag
import Wayjournal.Ids

namespace Wayjournal

open Collections

class CausalNode (α : Type) where
  recordId : α → RecordId
  parents : α → List RecordId

export CausalNode (recordId parents)

inductive CausalError
  | tooManyOperations (maximum actual : Nat)
  | tooManyEdges (maximum actual : Nat)
  | invalidParents (recordId : RecordId)
  | duplicateRecordId (recordId : RecordId)
  | danglingParent (recordId parent : RecordId)
  | reachabilityBudget (maximum : Nat)
  | cycle
  deriving DecidableEq

def MAX_CAUSAL_OPERATIONS : Nat := 4096
def MAX_CAUSAL_EDGES : Nat := 65536
def MAX_REACHABILITY_STEPS : Nat := 1000000

/-- The `budget` and `exceeded` a fold passes to every ancestry query. -/
structure Reachability where
  budget : Nat
  exceeded : Bool
  deriving DecidableEq

def Reachability.initial : Reachability := ⟨MAX_REACHABILITY_STEPS, false⟩

structure CausalGraph (α : Type) where
  ordered : List α
  byId : BTreeMap RecordId α

namespace CausalGraph

variable {α : Type} [CausalNode α]

def edgeCount (nodes : List α) : Nat := (nodes.map (fun n => (parents n).length)).sum

def indexNodes : List α → BTreeMap RecordId α → Except CausalError (BTreeMap RecordId α)
  | [], byId => .ok byId
  | node :: rest, byId =>
    if !ascending (parents node) then .error (.invalidParents (recordId node))
    else if byId.containsKey (recordId node) then .error (.duplicateRecordId (recordId node))
    else indexNodes rest (byId.insert (recordId node) node)

def danglingParent? (byId : BTreeMap RecordId α) (nodes : List α) : Option (RecordId × RecordId) :=
  nodes.findSome? (fun node =>
    ((parents node).find? (fun p => !byId.containsKey p)).map (fun p => (recordId node, p)))

def initialIndegree (byId : BTreeMap RecordId α) : BTreeMap RecordId Nat :=
  byId.mapValues (fun _ node => (parents node).length)

def pushChild (children : BTreeMap RecordId (List RecordId)) (child parent : RecordId) :
    BTreeMap RecordId (List RecordId) :=
  children.update parent [] (· ++ [child])

def childLists (nodes : List α) : BTreeMap RecordId (List RecordId) :=
  nodes.foldl (fun children node =>
    (parents node).foldl (fun children p => pushChild children (recordId node) p) children) ∅

def sortedChildren (nodes : List α) : BTreeMap RecordId (List RecordId) :=
  (childLists nodes).mapValues (fun _ values => values.insertionSort (· ≤ ·))

def initialReady (indegree : BTreeMap RecordId Nat) : BTreeSet RecordId :=
  BTreeSet.ofKeys ((indegree.entries.filter (fun e => e.2 = 0)).map Prod.fst)

/-- The body of the loop over the children of a popped identifier. -/
def release : List RecordId → BTreeMap RecordId Nat → BTreeSet RecordId →
    BTreeMap RecordId Nat × BTreeSet RecordId
  | [], indegree, ready => (indegree, ready)
  | child :: rest, indegree, ready =>
    match indegree.get? child with
    | none => release rest indegree ready
    | some degree =>
      release rest (indegree.insert child (degree - 1))
        (if degree - 1 = 0 then ready.insert child () else ready)

/-- The loop `while let Some(id) = ready.pop_first()`.  Every identifier is
popped at most once, so as many rounds as there are nodes are enough. -/
def drain (byId : BTreeMap RecordId α) (children : BTreeMap RecordId (List RecordId)) :
    Nat → BTreeMap RecordId Nat → BTreeSet RecordId → List α
  | 0, _, _ => []
  | fuel + 1, indegree, ready =>
    match ready.popFirst with
    | none => []
    | some (id, ready) =>
      match byId.get? id with
      | none => []
      | some node =>
        let next := release ((children.get? id).getD []) indegree ready
        node :: drain byId children fuel next.1 next.2

/-- The order of the indexed nodes, as far as it gets. -/
def topological (nodes : List α) (byId : BTreeMap RecordId α) : List α :=
  drain byId (sortedChildren nodes) nodes.length (initialIndegree byId)
    (initialReady (initialIndegree byId))

def new (nodes : List α) : Except CausalError (CausalGraph α) :=
  if nodes.length > MAX_CAUSAL_OPERATIONS then
    .error (.tooManyOperations MAX_CAUSAL_OPERATIONS nodes.length)
  else if edgeCount nodes > MAX_CAUSAL_EDGES then
    .error (.tooManyEdges MAX_CAUSAL_EDGES (edgeCount nodes))
  else
    match indexNodes nodes ∅ with
    | .error e => .error e
    | .ok byId =>
      match danglingParent? byId nodes with
      | some (id, parent) => .error (.danglingParent id parent)
      | none =>
        if (topological nodes byId).length ≠ nodes.length then .error .cycle
        else .ok { ordered := topological nodes byId, byId }

/-- The search of `observes_bounded`: the stack has its top at the head.  It
answers, with the budget that is left and whether the budget ran out. -/
def search (byId : BTreeMap RecordId α) (candidate : RecordId) :
    Nat → List RecordId → BTreeSet RecordId → Bool × Nat × Bool
  | budget, [], _ => (false, budget, false)
  | 0, _ :: _, _ => (false, 0, true)
  | budget + 1, current :: pending, visited =>
    if current = candidate then (true, budget, false)
    else if visited.containsKey current then search byId candidate budget pending visited
    else
      match byId.get? current with
      | none => search byId candidate budget pending (visited.insert current ())
      | some node =>
        search byId candidate budget ((parents node).reverse ++ pending)
          (visited.insert current ())

def parentsOf (byId : BTreeMap RecordId α) (id : RecordId) : List RecordId :=
  ((byId.get? id).map parents).getD []

def observesBounded (graph : CausalGraph α) (observer candidate : RecordId) (r : Reachability) :
    Bool × Reachability :=
  let found := search graph.byId candidate r.budget (parentsOf graph.byId observer).reverse ∅
  (found.1, ⟨found.2.1, r.exceeded || found.2.2⟩)

def observes (graph : CausalGraph α) (observer candidate : RecordId) : Bool :=
  (graph.observesBounded observer candidate .initial).1

end CausalGraph

end Wayjournal
