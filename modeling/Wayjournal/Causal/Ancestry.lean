import Wayjournal.Causal.GraphLaws

namespace Wayjournal.CausalGraph

open Collections

variable {α : Type} [CausalNode α]

/-- `p` is listed as a parent by the node of `nodes` that is called `c`. -/
def ParentEdge (nodes : List α) (p c : RecordId) : Prop := ∃ n ∈ nodes, recordId n = c ∧ p ∈ parents n

/-- A non-empty chain of parent edges leads from `c` to `a`. -/
def IsAncestor (nodes : List α) (a c : RecordId) : Prop := Relation.TransGen (ParentEdge nodes) a c

def Acyclic (nodes : List α) : Prop := ∀ id, ¬IsAncestor nodes id id

/-- Every node stands after all its parents. -/
def ParentsFirst (l : List α) : Prop :=
  ∀ l₁ n l₂, l = l₁ ++ n :: l₂ → ∀ p ∈ parents n, p ∈ l₁.map recordId

section Distinct

variable {nodes : List α} (hnodup : (nodes.map recordId).Nodup)

include hnodup

theorem parentEdge_iff {p c : RecordId} : ParentEdge nodes p c ↔ p ∈ parentMap nodes c := by
  constructor
  · rintro ⟨n, hn, rfl, hp⟩
    rwa [parentMap_recordId hnodup hn]
  · intro hp
    rw [parentMap] at hp
    cases hnode : nodeOf nodes c with
    | none =>
      rw [hnode] at hp
      cases hp
    | some n =>
      rw [hnode] at hp
      obtain ⟨hn, hid⟩ := (nodeOf_eq_some hnodup).mp hnode
      exact ⟨n, hn, hid, hp⟩

theorem isAncestor_iff {a c : RecordId} :
    IsAncestor nodes a c ↔ Dag.Ancestor (parentMap nodes) a c := by
  have hrel : ParentEdge nodes = fun p c => p ∈ parentMap nodes c := by
    funext p c
    exact propext (parentEdge_iff hnodup)
  rw [IsAncestor, hrel, Dag.Ancestor]

end Distinct

theorem mem_ids_of_isAncestor {nodes : List α} {a c : RecordId}
    (h : IsAncestor nodes a c) : c ∈ ids nodes := by
  cases h with
  | single h =>
    obtain ⟨n, hn, hid, -⟩ := h
    exact mem_ids.mpr ⟨n, hn, hid⟩
  | tail _ h =>
    obtain ⟨n, hn, hid, -⟩ := h
    exact mem_ids.mpr ⟨n, hn, hid⟩

theorem WellFormed.parentClosed {nodes : List α} (h : WellFormed nodes) :
    Dag.ParentClosed (parentMap nodes) (· ∈ ids nodes) :=
  parentClosed_restrict h.nodup h (fun _ hn => hn)

theorem WellFormed.acyclic_iff {nodes : List α} (h : WellFormed nodes) :
    Acyclic nodes ↔ ∀ n ∈ nodes, recordId n ∈ Dag.canonical (parentMap nodes) (ids nodes) := by
  have hcovers := Dag.canonical_covers_iff h.parentClosed
  constructor
  · intro hacyclic n hn
    refine hcovers.mpr ?_ _ (mem_ids.mpr ⟨n, hn, rfl⟩)
    intro id _ hanc
    exact hacyclic id ((isAncestor_iff h.nodup).mpr hanc)
  · intro hall id hanc
    refine hcovers.mp ?_ id (mem_ids_of_isAncestor hanc) ((isAncestor_iff h.nodup).mp hanc)
    intro x hx
    obtain ⟨n, hn, rfl⟩ := mem_ids.mp hx
    exact hall n hn

theorem valid_iff {nodes : List α} :
    Valid nodes ↔ nodes.length ≤ MAX_CAUSAL_OPERATIONS ∧ edgeCount nodes ≤ MAX_CAUSAL_EDGES ∧
      WellFormed nodes ∧ Acyclic nodes := by
  constructor
  · intro h
    exact ⟨h.operations, h.edges, h.wellFormed, h.wellFormed.acyclic_iff.mpr h.acyclic⟩
  · rintro ⟨hops, hedges, hwf, hacyclic⟩
    exact ⟨hops, hedges, hwf, hwf.acyclic_iff.mp hacyclic⟩

theorem parentsFirst_iff {nodes l : List α} (hnodup : (nodes.map recordId).Nodup) (hl : l ⊆ nodes) :
    ParentsFirst l ↔ Dag.Topological (parentMap nodes) ∅ (l.map recordId) := by
  constructor
  · intro h l₁ x l₂ heq p hp
    obtain ⟨m₁, m₂, rfl, rfl, hm₂⟩ := List.map_eq_append_iff.mp heq
    obtain ⟨n, m₂, rfl, rfl, rfl⟩ := List.map_eq_cons_iff.mp hm₂
    have hn : n ∈ nodes := hl (by simp)
    rw [parentMap_recordId hnodup hn] at hp
    exact .inr (h m₁ n m₂ rfl p hp)
  · rintro h l₁ n l₂ rfl p hp
    have hn : n ∈ nodes := hl (by simp)
    rw [← parentMap_recordId hnodup hn] at hp
    obtain hp | hp := h (l₁.map recordId) (recordId n) (l₂.map recordId) (by simp) p hp
    · cases Finset.notMem_empty p hp
    · exact hp

/-- Among all parents-first arrangements of the nodes the canonical order is least. -/
theorem order_le {nodes l : List α} (hwf : WellFormed nodes) (hperm : l.Perm nodes)
    (hl : ParentsFirst l) :
    (order nodes).map recordId = l.map recordId ∨
      List.Lex (· < ·) ((order nodes).map recordId) (l.map recordId) := by
  rw [map_recordId_order hwf.nodup]
  apply Dag.leastOrder_le
  · exact (hperm.map recordId).nodup_iff.mpr hwf.nodup
  · intro id
    rw [(hperm.map recordId).mem_iff, ids, List.mem_toFinset]
  · exact (parentsFirst_iff hwf.nodup hperm.subset).mp hl

theorem parentsFirst_order {nodes : List α} (hwf : WellFormed nodes) :
    ParentsFirst (order nodes) := by
  rw [parentsFirst_iff hwf.nodup (fun _ hn => mem_of_mem_order hwf.nodup hn),
    map_recordId_order hwf.nodup]
  intro l₁ x l₂ h
  exact Dag.parents_before _ _ h

/-- `CausalGraph::new` accepts exactly the complete acyclic graphs, and lists them
in the least parents-first order whatever the order they are given in. -/
theorem new_ok_iff_complete_dag {nodes : List α} (hops : nodes.length ≤ MAX_CAUSAL_OPERATIONS)
    (hedges : edgeCount nodes ≤ MAX_CAUSAL_EDGES) :
    ((∃ graph, new nodes = .ok graph) ↔
      (∀ n ∈ nodes, (parents n).Pairwise (· < ·)) ∧ (nodes.map recordId).Nodup ∧
        (∀ n ∈ nodes, ∀ p ∈ parents n, ∃ m ∈ nodes, recordId m = p) ∧ Acyclic nodes) ∧
      ∀ graph, new nodes = .ok graph →
        graph.ordered.Perm nodes ∧ ParentsFirst graph.ordered ∧
          (∀ l : List α, l.Perm nodes → ParentsFirst l →
            graph.ordered.map recordId = l.map recordId ∨
              List.Lex (· < ·) (graph.ordered.map recordId) (l.map recordId)) ∧
          ∀ nodes', nodes.Perm nodes' → ∃ graph', new nodes' = .ok graph' ∧
            graph'.ordered.map recordId = graph.ordered.map recordId := by
  constructor
  · constructor
    · rintro ⟨graph, h⟩
      obtain ⟨-, -, hwf, hacyclic⟩ := valid_iff.mp (new_ok h).1
      refine ⟨hwf.sorted, hwf.nodup, ?_, hacyclic⟩
      intro n hn p hp
      exact List.mem_map.mp (hwf.closed n hn p hp)
    · rintro ⟨hsorted, hnodup, hclosed, hacyclic⟩
      have hwf : WellFormed nodes :=
        ⟨hsorted, hnodup, fun n hn p hp => List.mem_map.mpr (hclosed n hn p hp)⟩
      exact (valid_iff.mpr ⟨hops, hedges, hwf, hacyclic⟩).new_ok
  · intro graph h
    obtain ⟨hv, -, hord⟩ := new_ok h
    rw [hord]
    refine ⟨hv.order_perm, parentsFirst_order hv.wellFormed, ?_, ?_⟩
    · intro l hperm hl
      exact order_le hv.wellFormed hperm hl
    · intro nodes' hp
      exact ⟨graph, new_perm h hp, by rw [hord]⟩

/-- How many parent entries the search can still push: those of the listed nodes
it has not visited.  The observer's own are pushed before the search starts. -/
def unexplored (nodes : List α) (observer : RecordId) (visited : BTreeSet RecordId) : Nat :=
  edgeCount (nodes.filter (fun n => recordId n ≠ observer ∧ recordId n ∉ visited.keys))

theorem edgeCount_filter_le (nodes : List α) {f g : α → Bool} (h : ∀ n ∈ nodes, f n = true → g n = true) :
    edgeCount (nodes.filter f) ≤ edgeCount (nodes.filter g) := by
  induction nodes with
  | nil => exact le_rfl
  | cons a t ih =>
    have ih := ih (fun n hn => h n (List.mem_cons_of_mem _ hn))
    have ha := h a List.mem_cons_self
    simp only [edgeCount, List.filter_cons] at ih ⊢
    cases hf : f a with
    | true =>
      simp only [ha hf, if_true, List.map_cons, List.sum_cons]
      omega
    | false =>
      cases hg : g a <;> simp only [if_true, Bool.false_eq_true, if_false, List.map_cons, List.sum_cons] <;> omega

theorem edgeCount_filter_ne {nodes : List α} (hnodup : (nodes.map recordId).Nodup) {n : α} (hn : n ∈ nodes)
    (f : α → Bool) (hf : f n = true) :
    edgeCount (nodes.filter (fun m => f m ∧ recordId m ≠ recordId n)) + (parents n).length =
      edgeCount (nodes.filter f) := by
  induction nodes with
  | nil => cases hn
  | cons a t ih =>
    rw [List.map_cons, List.nodup_cons] at hnodup
    obtain rfl | hn := List.mem_cons.mp hn
    · have hrest : t.filter (fun m => f m ∧ recordId m ≠ recordId n) = t.filter f := by
        apply List.filter_congr
        intro m hm
        have hne : recordId m ≠ recordId n := fun he => hnodup.1 (he ▸ List.mem_map_of_mem hm)
        simp [hne]
      rw [List.filter_cons_of_neg (by simp), List.filter_cons_of_pos hf, hrest]
      simp [edgeCount, Nat.add_comm]
    · have hne : recordId a ≠ recordId n := fun he => hnodup.1 (he ▸ List.mem_map_of_mem hn)
      have ih := ih hnodup.2 hn
      simp only [edgeCount] at ih ⊢
      cases hfa : f a with
      | true =>
        rw [List.filter_cons_of_pos (by simp [hfa, hne]), List.filter_cons_of_pos hfa]
        simp only [List.map_cons, List.sum_cons]
        omega
      | false =>
        rw [List.filter_cons_of_neg (by simp [hfa]), List.filter_cons_of_neg (by simp [hfa])]
        exact ih

theorem unexplored_visit_le (nodes : List α) (observer current : RecordId) (visited : BTreeSet RecordId) :
    unexplored nodes observer (visited.insert current ()) ≤ unexplored nodes observer visited := by
  apply edgeCount_filter_le
  intro n _ h
  simp only [BTreeMap.mem_keys_insert, not_or, decide_eq_true_eq] at h ⊢
  exact ⟨h.1, h.2.2⟩

theorem unexplored_visit {nodes : List α} (hnodup : (nodes.map recordId).Nodup) {observer : RecordId}
    {visited : BTreeSet RecordId} {n : α} (hn : n ∈ nodes) (hobs : recordId n ≠ observer)
    (hv : recordId n ∉ visited.keys) :
    unexplored nodes observer (visited.insert (recordId n) ()) + (parents n).length =
      unexplored nodes observer visited := by
  have hsplit := edgeCount_filter_ne hnodup hn
    (fun m => recordId m ≠ observer ∧ recordId m ∉ visited.keys) (by simp [hobs, hv])
  rw [unexplored, unexplored, ← hsplit]
  congr 2
  apply List.filter_congr
  intro m _
  simp only [BTreeMap.mem_keys_insert, not_or, decide_eq_true_eq, decide_eq_decide]
  tauto

/-- What a search spends is bounded by its pending entries and what it can still push. -/
theorem search_spends {nodes : List α} {byId : BTreeMap RecordId α} {observer : RecordId}
    (hnodup : (nodes.map recordId).Nodup) (hidx : Indexes nodes byId)
    (hself : ¬Dag.Ancestor (parentsOf byId) observer observer) (candidate : RecordId) (budget : Nat)
    (pending : List RecordId) (visited : BTreeSet RecordId)
    (hpending : ∀ p ∈ pending, Dag.Ancestor (parentsOf byId) p observer) :
    budget ≤ (search byId candidate budget pending visited).2.1 +
        (pending.length + unexplored nodes observer visited) ∧
      ((search byId candidate budget pending visited).2.2 = true →
        budget < pending.length + unexplored nodes observer visited) := by
  fun_induction search byId candidate budget pending visited with
  | case1 budget visited => exact ⟨Nat.le_add_right _ _, fun h => by cases h⟩
  | case2 => exact ⟨Nat.zero_le _, fun _ => by simp only [List.length_cons]; omega⟩
  | case3 budget pending visited =>
    exact ⟨by simp only [List.length_cons]; omega, fun h => by cases h⟩
  | case4 budget current pending visited hc hv ih =>
    obtain ⟨hle, hlt⟩ := ih (fun p hp => hpending p (List.mem_cons_of_mem _ hp))
    simp only [List.length_cons]
    exact ⟨by omega, fun h => by have := hlt h; omega⟩
  | case5 budget current pending visited hc hv hget ih =>
    obtain ⟨hle, hlt⟩ := ih (fun p hp => hpending p (List.mem_cons_of_mem _ hp))
    have hvisit := unexplored_visit_le nodes observer current visited
    simp only [List.length_cons]
    exact ⟨by omega, fun h => by have := hlt h; omega⟩
  | case6 budget current pending visited hc hv node hget ih =>
    have hcurrent := hpending current List.mem_cons_self
    obtain ⟨hn, rfl⟩ := (hidx _ _).mp hget
    obtain ⟨hle, hlt⟩ := ih (by
      intro p hp
      rw [List.mem_append, List.mem_reverse] at hp
      obtain hp | hp := hp
      · have hedge : p ∈ parentsOf byId (recordId node) := by rwa [hidx.parentsOf hn]
        exact Dag.Ancestor.trans (.parent hedge) hcurrent
      · exact hpending p (List.mem_cons_of_mem _ hp))
    rw [BTreeMap.containsKey_iff] at hv
    have hobs : recordId node ≠ observer := fun he => hself (he ▸ hcurrent)
    have hvisit := unexplored_visit hnodup hn hobs hv
    simp only [List.length_append, List.length_reverse] at hle hlt
    simp only [List.length_cons]
    exact ⟨by omega, fun h => by have := hlt h; omega⟩

theorem length_parentsOf_add_unexplored_le {nodes : List α} {byId : BTreeMap RecordId α}
    (hnodup : (nodes.map recordId).Nodup) (hidx : Indexes nodes byId) (observer : RecordId) :
    (parentsOf byId observer).length + unexplored nodes observer ∅ ≤ edgeCount nodes := by
  cases hget : byId.get? observer with
  | none =>
    have hle := edgeCount_filter_le nodes (f := fun n => recordId n ≠ observer ∧
      recordId n ∉ (∅ : BTreeSet RecordId).keys) (g := fun _ => true) (fun _ _ _ => rfl)
    rw [List.filter_true] at hle
    rw [unexplored]
    simpa only [parentsOf, hget, Option.map_none, Option.getD_none, List.length_nil, Nat.zero_add] using hle
  | some n =>
    obtain ⟨hn, rfl⟩ := (hidx _ _).mp hget
    have heq := edgeCount_filter_ne hnodup hn (fun _ => true) rfl
    rw [List.filter_true] at heq
    rw [hidx.parentsOf hn, unexplored, Nat.add_comm, ← heq]
    apply le_of_eq
    congr 3
    funext m
    have hempty : recordId m ∉ (∅ : BTreeSet RecordId).keys := fun h => by cases h
    simp [hempty]

/-- One query of an accepted graph pops at most as many entries as the graph has edges. -/
theorem observesBounded_spends {nodes : List α} {graph : CausalGraph α} (h : new nodes = .ok graph)
    (observer candidate : RecordId) (r : Reachability) :
    r.budget ≤ (graph.observesBounded observer candidate r).2.budget + edgeCount nodes ∧
      ((graph.observesBounded observer candidate r).2.exceeded = true →
        r.exceeded = true ∨ r.budget < edgeCount nodes) := by
  obtain ⟨hv, hidx, -⟩ := new_ok h
  have hnodup := hv.wellFormed.nodup
  have hself : ¬Dag.Ancestor (parentsOf graph.byId) observer observer := by
    rw [hidx.parentsOf_eq hnodup, ← isAncestor_iff hnodup]
    exact (valid_iff.mp hv).2.2.2 observer
  obtain ⟨hle, hlt⟩ := search_spends hnodup hidx hself candidate r.budget
    (parentsOf graph.byId observer).reverse ∅ (fun p hp => .parent (List.mem_reverse.mp hp))
  have hbound := length_parentsOf_add_unexplored_le hnodup hidx observer
  rw [List.length_reverse] at hle hlt
  refine ⟨?_, ?_⟩
  · exact hle.trans (Nat.add_le_add_left hbound _)
  · intro hexceeded
    simp only [observesBounded, Bool.or_eq_true] at hexceeded
    obtain hexceeded | hexceeded := hexceeded
    · exact .inl hexceeded
    · exact .inr ((hlt hexceeded).trans_le hbound)

theorem ancestor_of_observesBounded {graph : CausalGraph α} {observer candidate : RecordId}
    {r : Reachability} (h : (graph.observesBounded observer candidate r).1 = true) :
    Dag.Ancestor (parentsOf graph.byId) candidate observer := by
  rw [← reaches_parent_iff]
  simp only [observesBounded] at h
  generalize hs : search graph.byId candidate r.budget (parentsOf graph.byId observer).reverse ∅ =
    found at h
  obtain ⟨b, left, exceeded⟩ := found
  cases h
  obtain ⟨-, p, hp, hr⟩ := search_true hs
  exact ⟨p, List.mem_reverse.mp hp, hr⟩

/-- `observes` decides strict ancestry: its step budget covers every accepted
graph, and a query with a smaller budget errs only by reporting it. -/
theorem observes_iff_isAncestor {nodes : List α} {graph : CausalGraph α} (h : new nodes = .ok graph)
    (observer candidate : RecordId) :
    (graph.observes observer candidate = true ↔ IsAncestor nodes candidate observer) ∧
      (graph.observesBounded observer candidate .initial).2.exceeded = false ∧
      (∀ r, r.budget ≤ (graph.observesBounded observer candidate r).2.budget + edgeCount nodes) ∧
      ∀ r, r.exceeded = false →
        ((graph.observesBounded observer candidate r).1 = true → IsAncestor nodes candidate observer) ∧
        ((graph.observesBounded observer candidate r).1 = false →
          (graph.observesBounded observer candidate r).2.exceeded = false →
            ¬IsAncestor nodes candidate observer) := by
  obtain ⟨hv, hidx, -⟩ := new_ok h
  have hancestor : IsAncestor nodes candidate observer ↔
      Dag.Ancestor (parentsOf graph.byId) candidate observer := by
    rw [isAncestor_iff hv.wellFormed.nodup, hidx.parentsOf_eq hv.wellFormed.nodup]
  have hinitial : (graph.observesBounded observer candidate .initial).2.exceeded = false := by
    rw [← Bool.not_eq_true]
    intro hexceeded
    obtain hset | hlt := (observesBounded_spends h observer candidate .initial).2 hexceeded
    · cases hset
    · have hedges := hv.edges
      simp only [Reachability.initial, MAX_REACHABILITY_STEPS, MAX_CAUSAL_EDGES] at hlt hedges
      omega
  rw [hancestor]
  refine ⟨observesBounded_iff hinitial, hinitial, ?_, ?_⟩
  · intro r
    exact (observesBounded_spends h observer candidate r).1
  · intro r _
    refine ⟨ancestor_of_observesBounded, ?_⟩
    intro hfalse hexceeded hanc
    rw [(observesBounded_iff hexceeded).mpr hanc] at hfalse
    cases hfalse

namespace Sample

/-- The node of the tests of `causal.rs`. -/
structure Node where
  id : RecordId
  parents : List RecordId

instance : CausalNode Node := ⟨Node.id, Node.parents⟩

def id (n : Fin 16) : RecordId where
  uuid := ⟨[0, 1, 9, 1, 3, 15, 1, 13, 8, 14, 2, 10, 7, 12, 3, 0, 8, 15, 4, 10, 0, 0, 0, 0, 0, 0, 0, 0,
    0, 0, 0, n], rfl⟩
  accepted := by simp [Uuid.accepted, Uuid.isNil, Uuid.isRfc4122, Uuid.versionNum, UuidKind.acceptedVersions]

/-- A chain of three, listed with the children first. -/
def chain : List Node := [⟨id 2, [id 1]⟩, ⟨id 1, [id 0]⟩, ⟨id 0, []⟩]

theorem new_chain : ∃ graph, new chain = .ok graph := by
  have hok : (new chain).isOk = true := by decide +kernel
  cases h : new chain with
  | ok graph => exact ⟨graph, rfl⟩
  | error e =>
    rw [h] at hok
    cases hok

end Sample

theorem chain_ordered : ∃ graph, new Sample.chain = .ok graph ∧ graph.ordered.Perm Sample.chain ∧
    ParentsFirst graph.ordered := by
  obtain ⟨graph, h⟩ := Sample.new_chain
  have hordered := (new_ok_iff_complete_dag (show Sample.chain.length ≤ MAX_CAUSAL_OPERATIONS by decide) (by decide)).2 graph h
  exact ⟨graph, h, hordered.1, hordered.2.1⟩

theorem chain_observes : ∃ graph, new Sample.chain = .ok graph ∧
    (graph.observes (Sample.id 2) (Sample.id 0) = true ↔
      IsAncestor Sample.chain (Sample.id 0) (Sample.id 2)) := by
  obtain ⟨graph, h⟩ := Sample.new_chain
  exact ⟨graph, h, (observes_iff_isAncestor h (Sample.id 2) (Sample.id 0)).1⟩

end Wayjournal.CausalGraph
