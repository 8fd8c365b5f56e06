import Wayjournal.Causal.Graph

namespace Wayjournal.CausalGraph

open Collections

section

variable {α β : Type} {f : α → β}

theorem containsKey_mapValues (byId : BTreeMap RecordId α) (id : RecordId) :
    (byId.mapValues (fun _ => f)).containsKey id = byId.containsKey id := by
  simp [BTreeMap.containsKey]

theorem mapValues_insert (byId : BTreeMap RecordId α) (id : RecordId) (a : α) :
    (byId.insert id a).mapValues (fun _ => f) = (byId.mapValues (fun _ => f)).insert id (f a) := by
  apply BTreeMap.ext_get?
  intro k
  rw [BTreeMap.get?_mapValues, BTreeMap.get?_insert, BTreeMap.get?_insert, BTreeMap.get?_mapValues]
  split <;> rfl

theorem drain_map (byId : BTreeMap RecordId α) (children : BTreeMap RecordId (List RecordId)) (fuel : Nat)
    (indegree : BTreeMap RecordId Nat) (ready : BTreeSet RecordId) :
    drain (byId.mapValues (fun _ => f)) children fuel indegree ready =
      (drain byId children fuel indegree ready).map f := by
  induction fuel generalizing indegree ready with
  | zero => rfl
  | succ fuel ih =>
    simp only [drain]
    cases ready.popFirst with
    | none => rfl
    | some popped =>
      obtain ⟨id, rest⟩ := popped
      simp only [BTreeMap.get?_mapValues]
      cases byId.get? id with
      | none => rfl
      | some node => simp only [Option.map_some, ih, List.map_cons]

end

variable {α β : Type} [CausalNode α] [CausalNode β]

/-- A map of nodes that keeps the identifiers and the parents. -/
structure Relabels (f : α → β) : Prop where
  recordId : ∀ a, recordId (f a) = recordId a
  parents : ∀ a, parents (f a) = parents a

def relabel (f : α → β) (graph : CausalGraph α) : CausalGraph β :=
  ⟨graph.ordered.map f, graph.byId.mapValues (fun _ => f)⟩

variable {f : α → β} (h : Relabels f)

include h

theorem edgeCount_map (nodes : List α) : edgeCount (nodes.map f) = edgeCount nodes := by
  rw [edgeCount, edgeCount, List.map_map]
  simp only [Function.comp_def, h.parents]

theorem indexNodes_map (nodes : List α) (byId : BTreeMap RecordId α) :
    indexNodes (nodes.map f) (byId.mapValues (fun _ => f)) =
      (indexNodes nodes byId).map (fun m => m.mapValues (fun _ => f)) := by
  induction nodes generalizing byId with
  | nil => rfl
  | cons a t ih =>
    simp only [List.map_cons, indexNodes, h.recordId, h.parents, containsKey_mapValues]
    rw [← mapValues_insert, ih]
    split
    · rfl
    · split <;> rfl

theorem danglingParent?_map (nodes : List α) (byId : BTreeMap RecordId α) :
    danglingParent? (byId.mapValues (fun _ => f)) (nodes.map f) = danglingParent? byId nodes := by
  rw [danglingParent?, danglingParent?, List.findSome?_map]
  simp only [Function.comp_def, h.recordId, h.parents, containsKey_mapValues]

theorem initialIndegree_map (byId : BTreeMap RecordId α) :
    initialIndegree (byId.mapValues (fun _ => f)) = initialIndegree byId := by
  apply BTreeMap.ext_get?
  intro id
  simp only [initialIndegree, BTreeMap.get?_mapValues, Option.map_map, Function.comp_def, h.parents]

theorem sortedChildren_map (nodes : List α) : sortedChildren (nodes.map f) = sortedChildren nodes := by
  rw [sortedChildren, sortedChildren, childLists, childLists, List.foldl_map]
  simp only [h.recordId, h.parents]

theorem topological_map (nodes : List α) (byId : BTreeMap RecordId α) :
    topological (nodes.map f) (byId.mapValues (fun _ => f)) = (topological nodes byId).map f := by
  rw [topological, topological, sortedChildren_map h, initialIndegree_map h, List.length_map, drain_map]

/-- Only identifiers and parents decide what the graph is, or why there is none. -/
theorem new_map (nodes : List α) : new (nodes.map f) = (new nodes).map (relabel f) := by
  have hindex := indexNodes_map h nodes ∅
  have hempty : (∅ : BTreeMap RecordId α).mapValues (fun _ => f) = ∅ := rfl
  rw [hempty] at hindex
  simp only [new, List.length_map, edgeCount_map h, hindex]
  split
  · rfl
  split
  · rfl
  cases indexNodes nodes ∅ with
  | error e => rfl
  | ok byId =>
    simp only [Except.map, danglingParent?_map h, topological_map h, List.length_map]
    cases danglingParent? byId nodes with
    | some found => rfl
    | none =>
      by_cases hlen : (topological nodes byId).length = nodes.length
      · simp only [hlen, ne_eq, not_true_eq_false, if_false]
        rfl
      · simp only [hlen, ne_eq, not_false_eq_true, if_true]

theorem search_map (byId : BTreeMap RecordId α) (candidate : RecordId) (budget : Nat) (pending : List RecordId)
    (visited : BTreeSet RecordId) :
    search (byId.mapValues (fun _ => f)) candidate budget pending visited =
      search byId candidate budget pending visited := by
  fun_induction search byId candidate budget pending visited with
  | case1 => simp [search]
  | case2 => simp [search]
  | case3 => simp [search]
  | case4 budget current pending visited hc hv ih => simp [search, hc, hv, ih]
  | case5 budget current pending visited hc hv hget ih => simp [search, hc, hv, hget, ih]
  | case6 budget current pending visited hc hv node hget ih => simp [search, hc, hv, hget, ih, h.parents]

theorem observesBounded_relabel (graph : CausalGraph α) (observer candidate : RecordId) (r : Reachability) :
    (graph.relabel f).observesBounded observer candidate r = graph.observesBounded observer candidate r := by
  have hparents : parentsOf (graph.relabel f).byId observer = parentsOf graph.byId observer := by
    simp only [parentsOf, relabel, BTreeMap.get?_mapValues, Option.map_map, Function.comp_def, h.parents]
  simp only [observesBounded, hparents]
  simp only [relabel, search_map h]

end Wayjournal.CausalGraph
