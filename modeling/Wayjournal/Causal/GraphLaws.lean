import Wayjournal.Causal.Graph

namespace Wayjournal.CausalGraph

open Collections

variable {α : Type} [CausalNode α]

/-- What a node list must satisfy before the topological sort starts. -/
structure WellFormed (nodes : List α) : Prop where
  sorted : ∀ n ∈ nodes, (parents n).Pairwise (· < ·)
  nodup : (nodes.map recordId).Nodup
  closed : ∀ n ∈ nodes, ∀ p ∈ parents n, p ∈ nodes.map recordId

/-- `byId` maps exactly the identifiers of `nodes`, each to its node. -/
def Indexes (nodes : List α) (byId : BTreeMap RecordId α) : Prop :=
  ∀ id n, byId.get? id = some n ↔ n ∈ nodes ∧ recordId n = id

def ids (nodes : List α) : Finset RecordId := (nodes.map recordId).toFinset

theorem mem_ids {nodes : List α} {id : RecordId} : id ∈ ids nodes ↔ ∃ n ∈ nodes, recordId n = id := by
  simp [ids]

theorem eq_of_recordId_eq {nodes : List α} (h : (nodes.map recordId).Nodup) {m n : α}
    (hm : m ∈ nodes) (hn : n ∈ nodes) (hid : recordId m = recordId n) : m = n :=
  List.inj_on_of_nodup_map h hm hn hid

theorem indexNodes_spec (nodes : List α) (byId : BTreeMap RecordId α)
    (hsorted : ∀ n ∈ nodes, (parents n).Pairwise (· < ·)) (hnodup : (nodes.map recordId).Nodup)
    (hfresh : ∀ n ∈ nodes, recordId n ∉ byId.keys) :
    ∃ byId', indexNodes nodes byId = .ok byId' ∧
      ∀ id n, byId'.get? id = some n ↔ (n ∈ nodes ∧ recordId n = id) ∨ byId.get? id = some n := by
  induction nodes generalizing byId with
  | nil => exact ⟨byId, rfl, by simp⟩
  | cons a t ih =>
    simp only [List.map_cons, List.nodup_cons] at hnodup
    have hfa : recordId a ∉ byId.keys := hfresh a List.mem_cons_self
    obtain ⟨byId', hok, hget⟩ := ih (byId.insert (recordId a) a)
      (fun n hn => hsorted n (List.mem_cons_of_mem _ hn)) hnodup.2 (by
        intro n hn hmem
        rw [BTreeMap.mem_keys_insert] at hmem
        obtain heq | hmem := hmem
        · exact hnodup.1 (heq ▸ List.mem_map_of_mem hn)
        · exact hfresh n (List.mem_cons_of_mem _ hn) hmem)
    refine ⟨byId', ?_, ?_⟩
    · have hasc : ascending (parents a) = true := ascending_iff.mpr (hsorted a List.mem_cons_self)
      have hcon : byId.containsKey (recordId a) = false := by
        rw [← Bool.not_eq_true, BTreeMap.containsKey_iff]
        exact hfa
      simp [indexNodes, hasc, hcon, hok]
    · intro id n
      rw [hget, BTreeMap.get?_insert]
      have hnone : byId.get? (recordId a) = none := BTreeMap.notMem_keys_iff.mp hfa
      split
      · rename_i hid
        subst hid
        simp only [List.mem_cons, Option.some.injEq, hnone, reduceCtorEq, or_false]
        constructor
        · rintro (⟨hn, hid⟩ | rfl)
          · exact ⟨.inr hn, hid⟩
          · exact ⟨.inl rfl, rfl⟩
        · rintro ⟨rfl | hn, hid⟩
          · exact .inr rfl
          · exact .inl ⟨hn, hid⟩
      · rename_i hid
        simp only [List.mem_cons]
        constructor
        · rintro (⟨hn, hid⟩ | h)
          · exact .inl ⟨.inr hn, hid⟩
          · exact .inr h
        · rintro (⟨rfl | hn, hid'⟩ | h)
          · exact absurd hid'.symm hid
          · exact .inl ⟨hn, hid'⟩
          · exact .inr h

theorem indexNodes_ok {nodes : List α} {byId byId' : BTreeMap RecordId α}
    (h : indexNodes nodes byId = .ok byId') :
    (∀ n ∈ nodes, (parents n).Pairwise (· < ·)) ∧ (nodes.map recordId).Nodup ∧
      ∀ n ∈ nodes, recordId n ∉ byId.keys := by
  induction nodes generalizing byId with
  | nil => simp
  | cons a t ih =>
    simp only [indexNodes] at h
    split at h
    · cases h
    · rename_i hasc
      split at h
      · cases h
      · rename_i hcon
        obtain ⟨hs, hn, hf⟩ := ih h
        rw [BTreeMap.containsKey_iff] at hcon
        simp only [Bool.not_eq_true', Bool.not_eq_false, ascending_iff] at hasc
        refine ⟨?_, ?_, ?_⟩
        · intro n hmem
          obtain rfl | hmem := List.mem_cons.mp hmem
          · exact hasc
          · exact hs n hmem
        · rw [List.map_cons, List.nodup_cons]
          refine ⟨?_, hn⟩
          intro hmem
          obtain ⟨n, hnt, hid⟩ := List.mem_map.mp hmem
          exact hf n hnt (BTreeMap.mem_keys_insert.mpr (.inl hid))
        · intro n hmem
          obtain rfl | hmem := List.mem_cons.mp hmem
          · exact hcon
          · exact fun hk => hf n hmem (BTreeMap.mem_keys_insert.mpr (.inr hk))

theorem indexes_of_indexNodes {nodes : List α} {byId : BTreeMap RecordId α}
    (h : indexNodes nodes ∅ = .ok byId) : Indexes nodes byId := by
  obtain ⟨hs, hn, hf⟩ := indexNodes_ok h
  obtain ⟨byId', hok, hget⟩ := indexNodes_spec nodes ∅ hs hn hf
  rw [h] at hok
  cases hok
  intro id n
  rw [hget]
  simp

theorem Indexes.mem_keys {nodes : List α} {byId : BTreeMap RecordId α} (h : Indexes nodes byId)
    {id : RecordId} : id ∈ byId.keys ↔ id ∈ ids nodes := by
  rw [BTreeMap.mem_keys_iff, mem_ids]
  exact exists_congr (fun n => h id n)

theorem Indexes.parentsOf {nodes : List α} {byId : BTreeMap RecordId α} (h : Indexes nodes byId)
    {n : α} (hn : n ∈ nodes) : parentsOf byId (recordId n) = parents n := by
  have hget : byId.get? (recordId n) = some n := (h _ _).mpr ⟨hn, rfl⟩
  simp [CausalGraph.parentsOf, hget]

theorem danglingParent?_eq_none {nodes : List α} {byId : BTreeMap RecordId α}
    (h : Indexes nodes byId) :
    danglingParent? byId nodes = none ↔ ∀ n ∈ nodes, ∀ p ∈ parents n, p ∈ nodes.map recordId := by
  have hkey : ∀ p, byId.containsKey p = true ↔ p ∈ nodes.map recordId := by
    intro p
    rw [BTreeMap.containsKey_iff, h.mem_keys, ids, List.mem_toFinset]
  simp only [danglingParent?, List.findSome?_eq_none_iff, Option.map_eq_none_iff,
    List.find?_eq_none, Bool.not_eq_true', Bool.not_eq_false, hkey]

theorem getD_foldl_pushChild (children : BTreeMap RecordId (List RecordId)) (child p : RecordId)
    (ps : List RecordId) (hps : ps.Nodup) :
    (((ps.foldl (fun children q => pushChild children child q) children).get? p).getD []) =
      (children.get? p).getD [] ++ if p ∈ ps then [child] else [] := by
  induction ps generalizing children with
  | nil => simp
  | cons q ps ih =>
    rw [List.nodup_cons] at hps
    rw [List.foldl_cons, ih _ hps.2]
    simp only [pushChild, BTreeMap.get?_update, List.mem_cons]
    by_cases hpq : p = q
    · subst hpq
      simp [hps.1]
    · simp [hpq]

theorem getD_childLists {nodes : List α} (hnodup : ∀ n ∈ nodes, (parents n).Nodup) (p : RecordId) :
    ((childLists nodes).get? p).getD [] =
      (nodes.filter (fun n => p ∈ parents n)).map recordId := by
  have h : ∀ (l : List α) (m : BTreeMap RecordId (List RecordId)), (∀ n ∈ l, (parents n).Nodup) →
      ((l.foldl (fun children node => (parents node).foldl
        (fun children q => pushChild children (recordId node) q) children) m).get? p).getD [] =
        (m.get? p).getD [] ++ (l.filter (fun n => p ∈ parents n)).map recordId := by
    intro l
    induction l with
    | nil => simp
    | cons a t ih =>
      intro m hl
      rw [List.foldl_cons, ih _ (fun n hn => hl n (List.mem_cons_of_mem _ hn)),
        getD_foldl_pushChild _ _ _ _ (hl a List.mem_cons_self)]
      by_cases hp : p ∈ parents a <;> simp [hp]
  simpa [childLists] using h nodes ∅ hnodup

theorem getD_sortedChildren {nodes : List α} (p : RecordId) :
    ((sortedChildren nodes).get? p).getD [] =
      (((childLists nodes).get? p).getD []).insertionSort (· ≤ ·) := by
  rw [sortedChildren, BTreeMap.get?_mapValues]
  cases (childLists nodes).get? p <;> rfl

theorem mem_sortedChildren {nodes : List α} (h : WellFormed nodes) {p c : RecordId} :
    c ∈ ((sortedChildren nodes).get? p).getD [] ↔ ∃ n ∈ nodes, recordId n = c ∧ p ∈ parents n := by
  rw [getD_sortedChildren, List.mem_insertionSort,
    getD_childLists (fun n hn => (h.sorted n hn).imp ne_of_lt)]
  simp only [List.mem_map, List.mem_filter, decide_eq_true_eq]
  constructor
  · rintro ⟨n, ⟨hn, hp⟩, hid⟩
    exact ⟨n, hn, hid, hp⟩
  · rintro ⟨n, hn, hid, hp⟩
    exact ⟨n, ⟨hn, hp⟩, hid⟩

theorem nodup_sortedChildren {nodes : List α} (h : WellFormed nodes) (p : RecordId) :
    (((sortedChildren nodes).get? p).getD []).Nodup := by
  rw [getD_sortedChildren, List.Perm.nodup_iff (List.perm_insertionSort _ _),
    getD_childLists (fun n hn => (h.sorted n hn).imp ne_of_lt)]
  exact h.nodup.sublist (List.filter_sublist.map recordId)

theorem release_spec (l : List RecordId) (indegree : BTreeMap RecordId Nat)
    (ready : BTreeSet RecordId) (hl : l.Nodup) :
    (∀ c, (release l indegree ready).1.get? c =
      if c ∈ l then (indegree.get? c).map (· - 1) else indegree.get? c) ∧
    ∀ c, c ∈ (release l indegree ready).2.keys ↔
      c ∈ ready.keys ∨ (c ∈ l ∧ ∃ d, indegree.get? c = some d ∧ d - 1 = 0) := by
  induction l generalizing indegree ready with
  | nil => simp [release]
  | cons a t ih =>
    rw [List.nodup_cons] at hl
    simp only [release]
    split
    · rename_i hnone
      obtain ⟨ih₁, ih₂⟩ := ih indegree ready hl.2
      constructor
      · intro c
        rw [ih₁]
        by_cases hca : c = a
        · subst hca
          simp [hl.1, hnone]
        · simp [hca]
      · intro c
        rw [ih₂, List.mem_cons]
        by_cases hca : c = a
        · subst hca
          simp [hl.1, hnone]
        · simp [hca]
    · rename_i degree hsome
      obtain ⟨ih₁, ih₂⟩ := ih (indegree.insert a (degree - 1))
        (if degree - 1 = 0 then ready.insert a () else ready) hl.2
      constructor
      · intro c
        rw [ih₁, BTreeMap.get?_insert]
        by_cases hca : c = a
        · subst hca
          simp [hl.1, hsome]
        · simp [hca]
      · intro c
        rw [ih₂, List.mem_cons, BTreeMap.get?_insert]
        by_cases hca : c = a
        · subst hca
          by_cases hd : degree - 1 = 0 <;> simp [hl.1, hsome, hd, BTreeMap.mem_keys_insert]
        · by_cases hd : degree - 1 = 0 <;> simp [hca, hd, BTreeMap.mem_keys_insert]

/-- The state of the loop after the identifiers in `done` were popped. -/
structure DrainInv (nodes : List α) (byId : BTreeMap RecordId α) (done : Finset RecordId)
    (indegree : BTreeMap RecordId Nat) (ready : BTreeSet RecordId) : Prop where
  closed : ∀ c ∈ done, ∀ p ∈ parentsOf byId c, p ∈ done
  degree : ∀ c ∈ ids nodes,
    indegree.get? c = some ((parentsOf byId c).filter (· ∉ done)).length
  ready_iff : ∀ c, c ∈ ready.keys ↔ c ∈ Dag.ready (parentsOf byId) (ids nodes \ done) done

theorem DrainInv.initial {nodes : List α} {byId : BTreeMap RecordId α} (hidx : Indexes nodes byId) :
    DrainInv nodes byId ∅ (initialIndegree byId) (initialReady (initialIndegree byId)) := by
  have hdeg : ∀ c, (initialIndegree byId).get? c = (byId.get? c).map (fun n => (parents n).length) :=
    fun c => BTreeMap.get?_mapValues _ byId c
  refine ⟨by simp, ?_, ?_⟩
  · intro c hc
    obtain ⟨n, hn, rfl⟩ := mem_ids.mp hc
    have hget : byId.get? (recordId n) = some n := (hidx _ _).mpr ⟨hn, rfl⟩
    simp [hdeg, hget, hidx.parentsOf hn]
  · intro c
    rw [initialReady, BTreeSet.mem_keys_ofKeys, Dag.mem_ready]
    simp only [List.mem_map, List.mem_filter, decide_eq_true_eq, Finset.sdiff_empty,
      Finset.notMem_empty, imp_false]
    constructor
    · rintro ⟨⟨c, d⟩, ⟨hmem, rfl⟩, rfl⟩
      rw [BTreeMap.mem_entries_iff, hdeg, Option.map_eq_some_iff] at hmem
      obtain ⟨n, hget, hlen⟩ := hmem
      obtain ⟨hn, rfl⟩ := (hidx _ _).mp hget
      refine ⟨mem_ids.mpr ⟨n, hn, rfl⟩, ?_⟩
      rw [hidx.parentsOf hn, List.length_eq_zero_iff.mp hlen]
      simp
    · rintro ⟨hc, hp⟩
      obtain ⟨n, hn, rfl⟩ := mem_ids.mp hc
      have hget : byId.get? (recordId n) = some n := (hidx _ _).mpr ⟨hn, rfl⟩
      rw [hidx.parentsOf hn] at hp
      refine ⟨(recordId n, 0), ⟨?_, rfl⟩, rfl⟩
      rw [BTreeMap.mem_entries_iff, hdeg, hget, Option.map_some,
        List.eq_nil_iff_forall_not_mem.mpr hp]
      rfl

theorem length_filter_insert {l : List RecordId} (hl : l.Nodup) {done : Finset RecordId}
    {id : RecordId} (hid : id ∉ done) :
    (l.filter (· ∉ insert id done)).length =
      (l.filter (· ∉ done)).length - if id ∈ l then 1 else 0 := by
  have hrw : l.filter (· ∉ insert id done) = (l.filter (· ∉ done)).filter (· != id) := by
    rw [List.filter_filter]
    apply List.filter_congr
    intro a _
    by_cases ha : a = id <;> simp [Finset.mem_insert, ha]
  rw [hrw, ← (hl.filter _).erase_eq_filter, List.length_erase]
  by_cases hm : id ∈ l <;> simp [hm, hid]

theorem DrainInv.step {nodes : List α} {byId : BTreeMap RecordId α} (hwf : WellFormed nodes)
    (hidx : Indexes nodes byId) {done : Finset RecordId} {indegree : BTreeMap RecordId Nat}
    {ready rest : BTreeSet RecordId} {id : RecordId} (hinv : DrainInv nodes byId done indegree ready)
    (hpop : ready.popFirst = some (id, rest)) :
    DrainInv nodes byId (insert id done)
      (release (((sortedChildren nodes).get? id).getD []) indegree rest).1
      (release (((sortedChildren nodes).get? id).getD []) indegree rest).2 := by
  obtain ⟨hrel₁, hrel₂⟩ := release_spec _ indegree rest (nodup_sortedChildren hwf id)
  have hid := Dag.mem_ready.mp ((hinv.ready_iff id).mp (BTreeSet.popFirst_mem hpop))
  rw [Finset.mem_sdiff] at hid
  have hchild : ∀ c ∈ ids nodes, (c ∈ ((sortedChildren nodes).get? id).getD [] ↔
      id ∈ parentsOf byId c) := by
    intro c hc
    obtain ⟨n, hn, rfl⟩ := mem_ids.mp hc
    rw [mem_sortedChildren hwf, hidx.parentsOf hn]
    constructor
    · rintro ⟨m, hm, hmn, hp⟩
      exact eq_of_recordId_eq hwf.nodup hm hn hmn ▸ hp
    · exact fun hp => ⟨n, hn, rfl, hp⟩
  have hnodup : ∀ c ∈ ids nodes, (parentsOf byId c).Nodup := by
    intro c hc
    obtain ⟨n, hn, rfl⟩ := mem_ids.mp hc
    rw [hidx.parentsOf hn]
    exact (hwf.sorted n hn).imp ne_of_lt
  have hdeg : ∀ c ∈ ids nodes,
      (release (((sortedChildren nodes).get? id).getD []) indegree rest).1.get? c =
        some ((parentsOf byId c).filter (· ∉ insert id done)).length := by
    intro c hc
    rw [hrel₁, hinv.degree c hc, length_filter_insert (hnodup c hc) hid.1.2]
    by_cases hm : id ∈ parentsOf byId c
    · simp [(hchild c hc).mpr hm, hm]
    · simp [mt (hchild c hc).mp hm, hm]
  refine ⟨?_, hdeg, ?_⟩
  · intro c hc p hp
    obtain rfl | hc := Finset.mem_insert.mp hc
    · exact Finset.mem_insert_of_mem (hid.2 p hp)
    · exact Finset.mem_insert_of_mem (hinv.closed c hc p hp)
  · intro c
    rw [hrel₂, BTreeSet.mem_keys_popFirst hpop, hinv.ready_iff, Dag.mem_ready, Dag.mem_ready]
    simp only [Finset.mem_sdiff, Finset.mem_insert, not_or]
    constructor
    · rintro (⟨⟨⟨hc, hcd⟩, hp⟩, hne⟩ | ⟨hm, d, hd, hzero⟩)
      · exact ⟨⟨hc, hne, hcd⟩, fun p h => .inr (hp p h)⟩
      · obtain ⟨n, hn, hnc, hp⟩ := (mem_sortedChildren hwf).mp hm
        have hc : c ∈ ids nodes := mem_ids.mpr ⟨n, hn, hnc⟩
        have hpar : id ∈ parentsOf byId c := (hchild c hc).mp hm
        have hempty := hdeg c hc
        rw [hrel₁, if_pos hm, hd, Option.map_some, hzero, Option.some.injEq, eq_comm,
          List.length_eq_zero_iff, List.filter_eq_nil_iff] at hempty
        refine ⟨⟨hc, ?_, ?_⟩, ?_⟩
        · rintro rfl
          exact hid.1.2 (hid.2 c hpar)
        · exact fun hcd => hid.1.2 (hinv.closed c hcd id hpar)
        · intro p hp
          simpa [Finset.mem_insert, or_iff_not_imp_left] using hempty p hp
    · rintro ⟨⟨hc, hne, hcd⟩, hp⟩
      by_cases hpar : id ∈ parentsOf byId c
      · refine .inr ⟨(hchild c hc).mpr hpar, _, hinv.degree c hc, ?_⟩
        have hlen := length_filter_insert (hnodup c hc) hid.1.2
        rw [if_pos hpar] at hlen
        rw [← hlen, List.length_eq_zero_iff, List.filter_eq_nil_iff]
        intro p hmem
        simpa [Finset.mem_insert, or_iff_not_imp_left] using hp p hmem
      · refine .inl ⟨⟨⟨hc, hcd⟩, ?_⟩, hne⟩
        intro p hmem
        obtain rfl | h := hp p hmem
        · exact absurd hmem hpar
        · exact h

/-- The loop computes the canonical order of what is left to do. -/
theorem drain_eq {nodes : List α} {byId : BTreeMap RecordId α} (hwf : WellFormed nodes)
    (hidx : Indexes nodes byId) (fuel : Nat) {done : Finset RecordId}
    {indegree : BTreeMap RecordId Nat} {ready : BTreeSet RecordId}
    (hinv : DrainInv nodes byId done indegree ready) (hfuel : (ids nodes \ done).card ≤ fuel) :
    drain byId (sortedChildren nodes) fuel indegree ready =
      (Dag.leastOrder (parentsOf byId) (ids nodes \ done) done).filterMap byId.get? := by
  induction fuel generalizing done indegree ready with
  | zero =>
    have hempty : ids nodes \ done = ∅ := Finset.card_eq_zero.mp (Nat.le_zero.mp hfuel)
    rw [hempty, Dag.leastOrder_of_empty (by simp [Dag.ready])]
    rfl
  | succ fuel ih =>
    simp only [drain]
    split
    · rename_i hpop
      rw [Dag.leastOrder_of_empty]
      · rfl
      · rintro ⟨c, hc⟩
        exact BTreeSet.popFirst_eq_none hpop c ((hinv.ready_iff c).mpr hc)
    · rename_i id rest hpop
      have hmem := (hinv.ready_iff id).mp (BTreeSet.popFirst_mem hpop)
      have hne : (Dag.ready (parentsOf byId) (ids nodes \ done) done).Nonempty := ⟨id, hmem⟩
      have hmin : (Dag.ready (parentsOf byId) (ids nodes \ done) done).min' hne = id := by
        apply le_antisymm
        · exact Finset.min'_le _ _ hmem
        · apply Finset.le_min'
          intro c hc
          exact BTreeSet.popFirst_le hpop ((hinv.ready_iff c).mpr hc)
      have htodo : id ∈ ids nodes \ done := (Dag.mem_ready.mp hmem).1
      obtain ⟨n, hn, hnid⟩ := mem_ids.mp (Finset.mem_sdiff.mp htodo).1
      have hget : byId.get? id = some n := (hidx _ _).mpr ⟨hn, hnid⟩
      have herase : (ids nodes \ done).erase id = ids nodes \ insert id done := by
        ext c
        simp [Finset.mem_erase, Finset.mem_sdiff, Finset.mem_insert]
        tauto
      rw [Dag.leastOrder_of_nonempty hne, hmin, List.filterMap_cons_some hget, hget, herase]
      simp only
      rw [ih (hinv.step hwf hidx hpop)]
      rw [← herase, Finset.card_erase_of_mem htodo]
      omega

theorem topological_eq {nodes : List α} {byId : BTreeMap RecordId α} (hwf : WellFormed nodes)
    (hidx : Indexes nodes byId) :
    topological nodes byId =
      (Dag.canonical (parentsOf byId) (ids nodes)).filterMap byId.get? := by
  have hcard : (ids nodes \ ∅).card ≤ nodes.length := by
    rw [Finset.sdiff_empty, ids]
    exact (List.toFinset_card_le _).trans (by simp)
  rw [topological, drain_eq hwf hidx _ (DrainInv.initial hidx) hcard, Finset.sdiff_empty]
  rfl

/-- `search` keeps the ancestors it has seen closed over what it still has to visit. -/
def Explored (byId : BTreeMap RecordId α) (candidate : RecordId) (pending : List RecordId)
    (visited : BTreeSet RecordId) : Prop :=
  ∀ v ∈ visited.keys, v ≠ candidate ∧ ∀ p ∈ parentsOf byId v, p ∈ visited.keys ∨ p ∈ pending

def Reaches (byId : BTreeMap RecordId α) (candidate start : RecordId) : Prop :=
  candidate = start ∨ Dag.Ancestor (parentsOf byId) candidate start

theorem Explored.not_reaches {byId : BTreeMap RecordId α} {candidate : RecordId}
    {visited : BTreeSet RecordId} (h : Explored byId candidate [] visited) {v : RecordId}
    (hv : v ∈ visited.keys) : ¬Reaches byId candidate v := by
  have hclosed : Dag.ParentClosed (parentsOf byId) (· ∈ visited.keys) := by
    intro c hc p hp
    obtain hp | hp := (h c hc).2 p hp
    · exact hp
    · cases hp
  rintro (rfl | hanc)
  · exact (h candidate hv).1 rfl
  · exact (h candidate (hclosed.ancestor hanc hv)).1 rfl

theorem Explored.visit {byId : BTreeMap RecordId α} {candidate current : RecordId}
    {pending pending' : List RecordId} {visited : BTreeSet RecordId}
    (h : Explored byId candidate (current :: pending) visited) (hc : current ≠ candidate)
    (hp : ∀ p ∈ parentsOf byId current, p ∈ pending') (hsub : ∀ p ∈ pending, p ∈ pending') :
    Explored byId candidate pending' (visited.insert current ()) := by
  intro v hv
  obtain rfl | hv := BTreeMap.mem_keys_insert.mp hv
  · exact ⟨hc, fun p hmem => .inr (hp p hmem)⟩
  · refine ⟨(h v hv).1, ?_⟩
    intro p hmem
    rw [BTreeMap.mem_keys_insert]
    obtain hvis | hpen := (h v hv).2 p hmem
    · exact .inl (.inr hvis)
    · obtain rfl | hpen := List.mem_cons.mp hpen
      · exact .inl (.inl rfl)
      · exact .inr (hsub p hpen)

theorem search_true {byId : BTreeMap RecordId α} {candidate : RecordId} {budget left : Nat}
    {exceeded : Bool} {pending : List RecordId} {visited : BTreeSet RecordId}
    (h : search byId candidate budget pending visited = (true, left, exceeded)) :
    exceeded = false ∧ ∃ p ∈ pending, Reaches byId candidate p := by
  fun_induction search byId candidate budget pending visited with
  | case1 => cases h
  | case2 => cases h
  | case3 budget pending visited =>
    cases h
    exact ⟨rfl, candidate, List.mem_cons_self, .inl rfl⟩
  | case4 budget current pending visited hc hv ih =>
    obtain ⟨he, p, hp, hr⟩ := ih h
    exact ⟨he, p, List.mem_cons_of_mem _ hp, hr⟩
  | case5 budget current pending visited hc hv hget ih =>
    obtain ⟨he, p, hp, hr⟩ := ih h
    exact ⟨he, p, List.mem_cons_of_mem _ hp, hr⟩
  | case6 budget current pending visited hc hv node hget ih =>
    obtain ⟨he, p, hp, hr⟩ := ih h
    refine ⟨he, ?_⟩
    rw [List.mem_append, List.mem_reverse] at hp
    obtain hp | hp := hp
    · have hstep : p ∈ parentsOf byId current := by simpa [parentsOf, hget] using hp
      refine ⟨current, List.mem_cons_self, .inr ?_⟩
      obtain rfl | hanc := hr
      · exact .parent hstep
      · exact hanc.trans (.parent hstep)
    · exact ⟨p, List.mem_cons_of_mem _ hp, hr⟩

theorem search_false {byId : BTreeMap RecordId α} {candidate : RecordId} {budget left : Nat}
    {pending : List RecordId} {visited : BTreeSet RecordId}
    (h : search byId candidate budget pending visited = (false, left, false))
    (hexp : Explored byId candidate pending visited) :
    (∀ p ∈ pending, ¬Reaches byId candidate p) ∧ ∀ v ∈ visited.keys, ¬Reaches byId candidate v := by
  fun_induction search byId candidate budget pending visited with
  | case1 budget visited => exact ⟨by simp, fun v hv => hexp.not_reaches hv⟩
  | case2 => cases h
  | case3 => cases h
  | case4 budget current pending visited hc hv ih =>
    rw [BTreeMap.containsKey_iff] at hv
    have hexp' : Explored byId candidate pending visited := by
      intro v hmem
      refine ⟨(hexp v hmem).1, ?_⟩
      intro p hp
      obtain hp | hp := (hexp v hmem).2 p hp
      · exact .inl hp
      · obtain rfl | hp := List.mem_cons.mp hp
        · exact .inl hv
        · exact .inr hp
    obtain ⟨h₁, h₂⟩ := ih h hexp'
    refine ⟨?_, h₂⟩
    intro p hp
    obtain rfl | hp := List.mem_cons.mp hp
    · exact h₂ p hv
    · exact h₁ p hp
  | case5 budget current pending visited hc hv hget ih =>
    have hnone : parentsOf byId current = [] := by simp [parentsOf, hget]
    obtain ⟨h₁, h₂⟩ := ih h (hexp.visit hc (by simp [hnone]) (fun _ hp => hp))
    refine ⟨?_, fun v hmem => h₂ v (BTreeMap.mem_keys_insert.mpr (.inr hmem))⟩
    intro p hp
    obtain rfl | hp := List.mem_cons.mp hp
    · exact h₂ p (BTreeMap.mem_keys_insert.mpr (.inl rfl))
    · exact h₁ p hp
  | case6 budget current pending visited hc hv node hget ih =>
    have hsome : parentsOf byId current = parents node := by simp [parentsOf, hget]
    obtain ⟨h₁, h₂⟩ := ih h (hexp.visit hc (by simp +contextual [hsome])
      (fun _ hp => List.mem_append_right _ hp))
    refine ⟨?_, fun v hmem => h₂ v (BTreeMap.mem_keys_insert.mpr (.inr hmem))⟩
    intro p hp
    obtain rfl | hp := List.mem_cons.mp hp
    · exact h₂ p (BTreeMap.mem_keys_insert.mpr (.inl rfl))
    · exact h₁ p (List.mem_append_right _ hp)

theorem reaches_parent_iff {byId : BTreeMap RecordId α} {candidate observer : RecordId} :
    (∃ p ∈ parentsOf byId observer, Reaches byId candidate p) ↔
      Dag.Ancestor (parentsOf byId) candidate observer := by
  constructor
  · rintro ⟨p, hp, rfl | hanc⟩
    · exact .parent hp
    · exact hanc.trans (.parent hp)
  · intro h
    obtain ⟨p, hp, hr⟩ := h.cases_parent
    exact ⟨p, hp, hr⟩

/-- As long as the budget lasts, `observes_bounded` decides strict ancestry. -/
theorem observesBounded_iff {graph : CausalGraph α} {observer candidate : RecordId}
    {r : Reachability} (h : (graph.observesBounded observer candidate r).2.exceeded = false) :
    (graph.observesBounded observer candidate r).1 = true ↔
      Dag.Ancestor (parentsOf graph.byId) candidate observer := by
  rw [← reaches_parent_iff]
  simp only [observesBounded, Bool.or_eq_false_iff] at h ⊢
  generalize hs : search graph.byId candidate r.budget (parentsOf graph.byId observer).reverse ∅ =
    found at h ⊢
  obtain ⟨b, left, exceeded⟩ := found
  cases b with
  | true =>
    obtain ⟨-, p, hp, hr⟩ := search_true hs
    simp only [true_iff]
    exact ⟨p, List.mem_reverse.mp hp, hr⟩
  | false =>
    obtain ⟨-, rfl⟩ := h
    have hexp : Explored graph.byId candidate (parentsOf graph.byId observer).reverse ∅ := by
      intro v hv
      cases hv
    obtain ⟨hnot, -⟩ := search_false hs hexp
    simp only [Bool.false_eq_true, false_iff, not_exists, not_and]
    exact fun p hp => hnot p (List.mem_reverse.mpr hp)

theorem exceeded_of_observesBounded {graph : CausalGraph α} {observer candidate : RecordId}
    {r : Reachability} (h : (graph.observesBounded observer candidate r).2.exceeded = false) :
    r.exceeded = false := (Bool.or_eq_false_iff.mp h).1

def nodeOf (nodes : List α) (id : RecordId) : Option α := nodes.find? (fun n => recordId n = id)

def parentMap (nodes : List α) (id : RecordId) : List RecordId :=
  ((nodeOf nodes id).map parents).getD []

/-- The canonical order of a node list, whatever the order it is given in. -/
def order (nodes : List α) : List α :=
  (Dag.canonical (parentMap nodes) (ids nodes)).filterMap (nodeOf nodes)

/-- What `CausalGraph::new` accepts: in bounds, well formed, and without a cycle. -/
structure Valid (nodes : List α) : Prop where
  operations : nodes.length ≤ MAX_CAUSAL_OPERATIONS
  edges : edgeCount nodes ≤ MAX_CAUSAL_EDGES
  wellFormed : WellFormed nodes
  acyclic : ∀ n ∈ nodes, recordId n ∈ Dag.canonical (parentMap nodes) (ids nodes)

theorem nodeOf_eq_some {nodes : List α} (h : (nodes.map recordId).Nodup) {id : RecordId} {n : α} :
    nodeOf nodes id = some n ↔ n ∈ nodes ∧ recordId n = id := by
  constructor
  · intro hf
    exact ⟨List.mem_of_find?_eq_some hf, by simpa using List.find?_some hf⟩
  · rintro ⟨hn, rfl⟩
    cases hf : nodeOf nodes (recordId n) with
    | none =>
      have := List.find?_eq_none.mp hf n hn
      simp at this
    | some m =>
      have hm : m ∈ nodes := List.mem_of_find?_eq_some hf
      have hid : recordId m = recordId n := by simpa using List.find?_some hf
      rw [eq_of_recordId_eq h hm hn hid]

theorem parentMap_recordId {nodes : List α} (h : (nodes.map recordId).Nodup) {n : α}
    (hn : n ∈ nodes) : parentMap nodes (recordId n) = parents n := by
  simp [parentMap, (nodeOf_eq_some h).mpr ⟨hn, rfl⟩]

theorem Indexes.get?_eq {nodes : List α} {byId : BTreeMap RecordId α} (h : Indexes nodes byId)
    (hnodup : (nodes.map recordId).Nodup) (id : RecordId) : byId.get? id = nodeOf nodes id := by
  ext n
  rw [h id n, nodeOf_eq_some hnodup]

theorem Indexes.parentsOf_eq {nodes : List α} {byId : BTreeMap RecordId α} (h : Indexes nodes byId)
    (hnodup : (nodes.map recordId).Nodup) : CausalGraph.parentsOf byId = parentMap nodes := by
  funext id
  rw [CausalGraph.parentsOf, parentMap, h.get?_eq hnodup]

theorem topological_eq_order {nodes : List α} {byId : BTreeMap RecordId α} (hwf : WellFormed nodes)
    (hidx : Indexes nodes byId) : topological nodes byId = order nodes := by
  rw [topological_eq hwf hidx, hidx.parentsOf_eq hwf.nodup, order]
  congr 1
  funext id
  exact hidx.get?_eq hwf.nodup id

theorem map_recordId_order {nodes : List α} (h : (nodes.map recordId).Nodup) :
    (order nodes).map recordId = Dag.canonical (parentMap nodes) (ids nodes) := by
  rw [order, List.map_filterMap]
  conv_rhs => rw [← List.filterMap_some (l := Dag.canonical (parentMap nodes) (ids nodes))]
  apply List.filterMap_congr
  intro id hid
  obtain ⟨n, hn, rfl⟩ := mem_ids.mp (Dag.mem_of_mem_canonical hid)
  simp [(nodeOf_eq_some h).mpr ⟨hn, rfl⟩]

theorem mem_of_mem_order {nodes : List α} (h : (nodes.map recordId).Nodup) {n : α}
    (hn : n ∈ order nodes) : n ∈ nodes := by
  obtain ⟨id, -, hid⟩ := List.mem_filterMap.mp hn
  exact ((nodeOf_eq_some h).mp hid).1

theorem nodup_order {nodes : List α} (h : (nodes.map recordId).Nodup) : (order nodes).Nodup := by
  apply List.Nodup.of_map recordId
  rw [map_recordId_order h]
  exact Dag.nodup_canonical _ _

theorem mem_order_iff {nodes : List α} (h : (nodes.map recordId).Nodup) {n : α} (hn : n ∈ nodes) :
    n ∈ order nodes ↔ recordId n ∈ Dag.canonical (parentMap nodes) (ids nodes) := by
  rw [← map_recordId_order h]
  constructor
  · exact List.mem_map_of_mem
  · intro hmem
    obtain ⟨m, hm, hid⟩ := List.mem_map.mp hmem
    exact eq_of_recordId_eq h (mem_of_mem_order h hm) hn hid ▸ hm

theorem length_order_eq_iff {nodes : List α} (h : (nodes.map recordId).Nodup) :
    (order nodes).length = nodes.length ↔
      ∀ n ∈ nodes, recordId n ∈ Dag.canonical (parentMap nodes) (ids nodes) := by
  have hsub : order nodes ⊆ nodes := fun n hn => mem_of_mem_order h hn
  have hnd : nodes.Nodup := List.Nodup.of_map recordId h
  constructor
  · intro hlen n hn
    have hperm : (order nodes).Perm nodes :=
      (List.subperm_of_subset (nodup_order h) hsub).perm_of_length_le hlen.ge
    exact (mem_order_iff h hn).mp (hperm.mem_iff.mpr hn)
  · intro hall
    have hperm : (order nodes).Perm nodes := by
      rw [List.perm_ext_iff_of_nodup (nodup_order h) hnd]
      intro n
      exact ⟨fun hn => hsub hn, fun hn => (mem_order_iff h hn).mpr (hall n hn)⟩
    exact hperm.length_eq

theorem Valid.order_perm {nodes : List α} (h : Valid nodes) : (order nodes).Perm nodes := by
  have hsub : order nodes ⊆ nodes := fun n hn => mem_of_mem_order h.wellFormed.nodup hn
  have hlen := (length_order_eq_iff h.wellFormed.nodup).mpr h.acyclic
  exact (List.subperm_of_subset (nodup_order h.wellFormed.nodup) hsub).perm_of_length_le hlen.ge

theorem new_ok {nodes : List α} {graph : CausalGraph α} (h : new nodes = .ok graph) :
    Valid nodes ∧ Indexes nodes graph.byId ∧ graph.ordered = order nodes := by
  simp only [new] at h
  split at h
  · cases h
  rename_i hops
  split at h
  · cases h
  rename_i hedges
  split at h
  · cases h
  rename_i byId hindex
  split at h
  · cases h
  rename_i hdangling
  split at h
  · cases h
  rename_i hlen
  cases h
  have hidx := indexes_of_indexNodes hindex
  obtain ⟨hsorted, hnodup, -⟩ := indexNodes_ok hindex
  have hwf : WellFormed nodes := ⟨hsorted, hnodup, (danglingParent?_eq_none hidx).mp hdangling⟩
  have hord := topological_eq_order hwf hidx
  rw [hord, not_not] at hlen
  exact ⟨⟨not_lt.mp hops, not_lt.mp hedges, hwf, (length_order_eq_iff hnodup).mp hlen⟩, hidx, hord⟩

theorem Valid.new_ok {nodes : List α} (h : Valid nodes) : ∃ graph, new nodes = .ok graph := by
  have hwf := h.wellFormed
  obtain ⟨byId, hindex, -⟩ := indexNodes_spec nodes ∅ hwf.sorted hwf.nodup
    (fun n _ hmem => by cases hmem)
  have hidx := indexes_of_indexNodes hindex
  have hdangling := (danglingParent?_eq_none hidx).mpr hwf.closed
  have hlen : (topological nodes byId).length = nodes.length := by
    rw [topological_eq_order hwf hidx]
    exact (length_order_eq_iff hwf.nodup).mpr h.acyclic
  refine ⟨⟨topological nodes byId, byId⟩, ?_⟩
  simp [new, not_lt.mpr h.operations, not_lt.mpr h.edges, hindex, hdangling, hlen]

theorem nodeOf_perm {nodes nodes' : List α} (hp : nodes.Perm nodes')
    (h : (nodes.map recordId).Nodup) : nodeOf nodes = nodeOf nodes' := by
  have h' : (nodes'.map recordId).Nodup := (hp.map recordId).nodup_iff.mp h
  funext id
  ext n
  rw [nodeOf_eq_some h, nodeOf_eq_some h', hp.mem_iff]

theorem parentMap_perm {nodes nodes' : List α} (hp : nodes.Perm nodes')
    (h : (nodes.map recordId).Nodup) : parentMap nodes = parentMap nodes' := by
  funext id
  rw [parentMap, parentMap, nodeOf_perm hp h]

theorem ids_perm {nodes nodes' : List α} (hp : nodes.Perm nodes') : ids nodes = ids nodes' :=
  List.toFinset_eq_of_perm _ _ (hp.map recordId)

theorem order_eq_of_perm {nodes nodes' : List α} (hp : nodes.Perm nodes')
    (h : (nodes.map recordId).Nodup) : order nodes = order nodes' := by
  rw [order, order, parentMap_perm hp h, ids_perm hp, nodeOf_perm hp h]

theorem Valid.perm {nodes nodes' : List α} (h : Valid nodes) (hp : nodes.Perm nodes') :
    Valid nodes' where
  operations := hp.length_eq ▸ h.operations
  edges := by
    rw [edgeCount, ← (hp.map _).sum_nat]
    exact h.edges
  wellFormed :=
    { sorted := fun n hn => h.wellFormed.sorted n (hp.mem_iff.mpr hn)
      nodup := (hp.map recordId).nodup_iff.mp h.wellFormed.nodup
      closed := fun n hn p hmem =>
        (hp.map recordId).mem_iff.mp (h.wellFormed.closed n (hp.mem_iff.mpr hn) p hmem) }
  acyclic := by
    intro n hn
    rw [← parentMap_perm hp h.wellFormed.nodup, ← ids_perm hp]
    exact h.acyclic n (hp.mem_iff.mpr hn)

/-- The graph does not depend on the order the nodes are given in. -/
theorem new_perm {nodes nodes' : List α} {graph : CausalGraph α} (h : new nodes = .ok graph)
    (hp : nodes.Perm nodes') : new nodes' = .ok graph := by
  obtain ⟨hv, hidx, hord⟩ := new_ok h
  obtain ⟨graph', h'⟩ := (hv.perm hp).new_ok
  obtain ⟨hv', hidx', hord'⟩ := new_ok h'
  have hby : graph'.byId = graph.byId := by
    apply BTreeMap.ext_get?
    intro id
    rw [hidx.get?_eq hv.wellFormed.nodup, hidx'.get?_eq hv'.wellFormed.nodup,
      nodeOf_perm hp hv.wellFormed.nodup]
  have hordered : graph'.ordered = graph.ordered := by
    rw [hord, hord', order_eq_of_perm hp hv.wellFormed.nodup]
  rw [h']
  cases graph
  cases graph'
  cases hby
  cases hordered
  rfl

theorem filterMap_nodeOf_map {nodes l : List α} (h : (nodes.map recordId).Nodup) (hl : l ⊆ nodes) :
    (l.map recordId).filterMap (nodeOf nodes) = l := by
  rw [List.filterMap_map]
  conv_rhs => rw [← List.filterMap_some (l := l)]
  apply List.filterMap_congr
  intro n hn
  exact (nodeOf_eq_some h).mpr ⟨hl hn, rfl⟩

section Restriction

variable {part whole : List α} (hwhole : (whole.map recordId).Nodup) (hpart : WellFormed part)
  (hsub : part ⊆ whole)

include hwhole hpart hsub

theorem parentMap_restrict {c : RecordId} (hc : c ∈ ids part) :
    parentMap whole c = parentMap part c := by
  obtain ⟨n, hn, rfl⟩ := mem_ids.mp hc
  rw [parentMap_recordId hwhole (hsub hn), parentMap_recordId hpart.nodup hn]

theorem parentClosed_restrict : Dag.ParentClosed (parentMap whole) (· ∈ ids part) := by
  intro c hc p hp
  obtain ⟨n, hn, rfl⟩ := mem_ids.mp hc
  rw [parentMap_recordId hwhole (hsub hn)] at hp
  simpa [ids] using hpart.closed n hn p hp

theorem ancestor_restrict {a c : RecordId} (hc : c ∈ ids part) :
    Dag.Ancestor (parentMap whole) a c ↔ Dag.Ancestor (parentMap part) a c :=
  Dag.ancestor_congr_iff (s := (· ∈ ids part)) (parentClosed_restrict hwhole hpart hsub)
    (fun _ hd => parentMap_restrict hwhole hpart hsub hd) hc

theorem canonical_restrict :
    (Dag.canonical (parentMap whole) (ids whole)).filter (· ∈ ids part) =
      Dag.canonical (parentMap part) (ids part) := by
  have hids : ids part ⊆ ids whole := by
    intro id hid
    obtain ⟨n, hn, rfl⟩ := mem_ids.mp hid
    exact mem_ids.mpr ⟨n, hsub hn, rfl⟩
  rw [Dag.filter_canonical (parentClosed_restrict hwhole hpart hsub) hids]
  exact Dag.leastOrder_congr _ _ (fun c hc => parentMap_restrict hwhole hpart hsub hc)

theorem order_restrict : (order whole).filter (fun n => recordId n ∈ ids part) = order part := by
  have hmap : ((order whole).filter (fun n => recordId n ∈ ids part)).map recordId =
      (order part).map recordId := by
    rw [map_recordId_order hpart.nodup, ← canonical_restrict hwhole hpart hsub,
      ← map_recordId_order hwhole, List.filter_map]
    rfl
  have hl : (order whole).filter (fun n => recordId n ∈ ids part) ⊆ whole := by
    intro n hn
    exact mem_of_mem_order hwhole (List.mem_of_mem_filter hn)
  have hr : order part ⊆ whole := fun n hn => hsub (mem_of_mem_order hpart.nodup hn)
  rw [← filterMap_nodeOf_map hwhole hl, hmap, filterMap_nodeOf_map hwhole hr]

end Restriction

end Wayjournal.CausalGraph
