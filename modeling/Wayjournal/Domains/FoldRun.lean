import Wayjournal.Domains.FoldLaws

namespace Wayjournal

open Collections FoldAccumulator

section Run

variable {α σ S : Type} [CausalNode α] [FoldAccumulator S]

/-- A loop body that applies each operation to the accumulator of its target. -/
structure Routes (graph : CausalGraph α) (T : Option LogicalStoreId → Prop)
    (step : DomainOperation → σ → Reachability → Except FoldError (σ × Reachability))
    (view : Option LogicalStoreId → σ → S) : Prop where
  error : ∀ {o st r e}, T o.target → applyOperation graph o (view o.target st) r = .error e →
    step o st r = .error e
  ok : ∀ {o st r s r'}, T o.target → applyOperation graph o (view o.target st) r = .ok (s, r') →
    ∃ st', step o st r = .ok (st', r') ∧ view o.target st' = s ∧
      ∀ t, T t → t ≠ o.target → view t st' = view t st

theorem routes_profile (graph : CausalGraph α) :
    Routes graph (· = none) (applyOperation graph) (fun _ (s : S) => s) where
  error _ h := h
  ok ho h := ⟨_, h, rfl, fun _ ht hne => absurd (ht.trans ho.symm) hne⟩

def catalogView (target : Option LogicalStoreId) (states : BTreeMap LogicalStoreId S) : S :=
  (target.bind states.get?).getD default

theorem routes_catalog (graph : CausalGraph α) :
    Routes graph (fun t => t ≠ none) (applyCatalogOperation (S := S) graph) catalogView where
  error {o st r e} ho h := by
    obtain ⟨t, ht⟩ := Option.ne_none_iff_exists'.mp ho
    rw [ht] at h
    simp only [applyCatalogOperation, ht]
    have h' : applyOperation graph o ((st.get? t).getD default) r = .error e := h
    rw [h']
  ok {o st r s r'} ho h := by
    obtain ⟨t, ht⟩ := Option.ne_none_iff_exists'.mp ho
    rw [ht] at h
    have h' : applyOperation graph o ((st.get? t).getD default) r = .ok (s, r') := h
    refine ⟨st.insert t s, ?_, ?_, ?_⟩
    · simp only [applyCatalogOperation, ht, h']
    · simp [catalogView, ht]
    · intro t' ht' hne
      obtain ⟨u, rfl⟩ := Option.ne_none_iff_exists'.mp ht'
      rw [ht, ne_eq, Option.some.injEq] at hne
      simp [catalogView, hne]

variable (P : RecordId → List RecordId)

/-- The operations of `l` with the target of `o`. -/
def sameTarget (target : Option LogicalStoreId) (l : List DomainOperation) : List DomainOperation :=
  l.filter (fun x => x.target = target)

/-- Every operation of `rest`, run after `done`, names what it observes. -/
def AcceptsFrom (done rest : List DomainOperation) : Prop :=
  ∀ l₁ o l₂, rest = l₁ ++ o :: l₂ → Accepts P (sameTarget o.target (done ++ l₁)) o

/-- Distinct identifiers, each after all of its ancestors. -/
structure Topological (l : List DomainOperation) : Prop where
  nodup : (l.map DomainOperation.recordId).Nodup
  before : ∀ l₁ x l₂, l = l₁ ++ x :: l₂ → ∀ a, Dag.Ancestor P a x.recordId →
    a ∈ l₁.map DomainOperation.recordId

variable {P}

theorem Topological.fresh {l₁ l₂ : List DomainOperation} {o : DomainOperation}
    (h : Topological P (l₁ ++ o :: l₂)) : Fresh P l₁ o := by
  have hn : ((l₁ ++ [o]).map DomainOperation.recordId).Nodup := by
    refine h.nodup.sublist (List.Sublist.map _ ?_)
    exact List.Sublist.append (List.Sublist.refl _) (by simp)
  have hnot : o.recordId ∉ l₁.map DomainOperation.recordId := by
    intro hmem
    rw [List.map_append, List.nodup_append] at hn
    exact hn.2.2 _ hmem _ (by simp) rfl
  refine ⟨hn, ?_⟩
  intro y hy hanc
  rw [List.mem_append, List.mem_singleton] at hy
  obtain hy | rfl := hy
  · obtain ⟨m₁, m₂, rfl⟩ := List.append_of_mem hy
    have hmem := h.before m₁ y (m₂ ++ o :: l₂) (by simp) _ hanc
    exact hnot (by simp only [List.map_append, List.mem_append]; exact .inl hmem)
  · exact hnot (h.before l₁ y l₂ rfl _ hanc)

theorem Fresh.sameTarget {done : List DomainOperation} {o : DomainOperation} (h : Fresh P done o)
    (t : Option LogicalStoreId) : Fresh P (sameTarget t done) o := by
  have hsub : (Wayjournal.sameTarget t done ++ [o]).Sublist (done ++ [o]) :=
    List.Sublist.append List.filter_sublist (List.Sublist.refl _)
  exact ⟨h.nodup.sublist (hsub.map _), fun y hy => h.after y (hsub.subset hy)⟩

/-- An invariant of every accumulator that one operation keeps holds after a run. -/
theorem foldLoop_invariant {graph : CausalGraph α} {T : Option LogicalStoreId → Prop}
    {step : DomainOperation → σ → Reachability → Except FoldError (σ × Reachability)}
    {view : Option LogicalStoreId → σ → S} (hroute : Routes graph T step view)
    {I : List DomainOperation → S → Prop}
    (hI : ∀ done o s r s' r', I done s → applyOperation graph o s r = .ok (s', r') →
      I (done ++ [o]) s')
    (rest : List DomainOperation) {done : List DomainOperation} {st st' : σ} {r r' : Reachability}
    (hT : ∀ o ∈ rest, T o.target) (hinv : ∀ t, T t → I (sameTarget t done) (view t st))
    (hrun : foldLoop step rest st r = .ok (st', r')) :
    ∀ t, T t → I (sameTarget t (done ++ rest)) (view t st') := by
  induction rest generalizing done st r with
  | nil =>
    cases hrun
    simpa using hinv
  | cons o rest ih =>
    have ho : T o.target := hT o List.mem_cons_self
    simp only [foldLoop] at hrun
    cases happ : applyOperation graph o (view o.target st) r with
    | error e =>
      rw [hroute.error ho happ] at hrun
      cases hrun
    | ok res =>
      obtain ⟨s, r₁⟩ := res
      obtain ⟨st₁, hok, hview, hother⟩ := hroute.ok ho happ
      rw [hok] at hrun
      have hnext : ∀ t, T t → I (sameTarget t (done ++ [o])) (view t st₁) := by
        intro t ht
        by_cases hto : t = o.target
        · subst hto
          rw [hview, sameTarget, List.filter_append]
          simpa [sameTarget] using hI _ _ _ _ _ _ (hinv o.target ho) happ
        · rw [hother t ht hto, sameTarget, List.filter_append]
          simpa [sameTarget, Ne.symm hto] using hinv t ht
      simpa using ih (fun x hx => hT x (List.mem_cons_of_mem _ hx)) hnext hrun

variable [LawfulFoldAccumulator S]

theorem tracks_default : Tracks P [] (default : S) where
  register f id := by
    simp [LawfulFoldAccumulator.registerIds_default, ActiveWrite]
  add f k id := by
    simp [LawfulFoldAccumulator.addIds_default, ActiveAdd]
  named y hy := by cases hy

/-- A run of the loop: it ends in a budget error, or it succeeds exactly when
every operation names what it observes. -/
theorem foldLoop_spec {graph : CausalGraph α} (hP : CausalGraph.parentsOf graph.byId = P)
    {T : Option LogicalStoreId → Prop}
    {step : DomainOperation → σ → Reachability → Except FoldError (σ × Reachability)}
    {view : Option LogicalStoreId → σ → S} (hroute : Routes graph T step view)
    (rest : List DomainOperation) {done : List DomainOperation} {st : σ} {r : Reachability}
    (hT : ∀ o ∈ rest, T o.target) (hr : r.exceeded = false)
    (htr : ∀ t, T t → Tracks P (sameTarget t done) (view t st))
    (htopo : Topological P (done ++ rest)) :
    match foldLoop step rest st r with
    | .error e => e = .budget ∨ (e ≠ .budget ∧ ¬AcceptsFrom P done rest)
    | .ok (st', _) => AcceptsFrom P done rest ∧
        ∀ t, T t → Tracks P (sameTarget t (done ++ rest)) (view t st') := by
  induction rest generalizing done st r with
  | nil =>
    refine ⟨?_, ?_⟩
    · intro l₁ o l₂ h
      simp at h
    · simpa using htr
  | cons o rest ih =>
    have ho : T o.target := hT o List.mem_cons_self
    have hstep := applyOperation_spec hP (htr o.target ho) (htopo.fresh.sameTarget o.target) hr
    simp only [foldLoop]
    cases happ : applyOperation graph o (view o.target st) r with
    | error e =>
      rw [happ] at hstep
      rw [hroute.error ho happ]
      obtain rfl | ⟨hne, hacc⟩ := hstep
      · exact .inl rfl
      · refine .inr ⟨hne, ?_⟩
        intro hall
        exact hacc (by simpa using hall [] o rest rfl)
    | ok res =>
      obtain ⟨s, r'⟩ := res
      rw [happ] at hstep
      obtain ⟨hacc, htr', hr'⟩ := hstep
      obtain ⟨st', hok, hview, hother⟩ := hroute.ok ho happ
      rw [hok]
      have htracks : ∀ t, T t → Tracks P (sameTarget t (done ++ [o])) (view t st') := by
        intro t ht
        by_cases hto : t = o.target
        · subst hto
          rw [hview, sameTarget, List.filter_append]
          simpa [sameTarget] using htr'
        · rw [hother t ht hto, sameTarget, List.filter_append]
          simpa [sameTarget, Ne.symm hto] using htr t ht
      have hcons : ∀ l₁ x l₂, o :: rest = l₁ ++ x :: l₂ ↔
          (l₁ = [] ∧ o = x ∧ rest = l₂) ∨ ∃ m, l₁ = o :: m ∧ rest = m ++ x :: l₂ := by
        intro l₁ x l₂
        cases l₁ <;> simp [eq_comm]
      have hiff : AcceptsFrom P done (o :: rest) ↔ AcceptsFrom P (done ++ [o]) rest := by
        constructor
        · intro h l₁ x l₂ hx
          simpa using h (o :: l₁) x l₂ (by simp [hx])
        · intro h l₁ x l₂ hx
          obtain ⟨rfl, rfl, rfl⟩ | ⟨m, rfl, hm⟩ := (hcons l₁ x l₂).mp hx
          · simpa using hacc
          · simpa using h m x l₂ hm
      have hrec := @ih (done ++ [o]) st' r' (fun x hx => hT x (List.mem_cons_of_mem _ hx)) hr' htracks
        (by simpa using htopo)
      simp only [hiff]
      simpa using hrec

end Run

theorem topological_order {operations : List DomainOperation} (h : CausalGraph.Valid operations) :
    Topological (CausalGraph.parentMap operations) (CausalGraph.order operations) := by
  have hmap := CausalGraph.map_recordId_order h.wellFormed.nodup
  refine ⟨?_, ?_⟩
  · change ((CausalGraph.order operations).map recordId).Nodup
    rw [hmap]
    exact Dag.nodup_canonical _ _
  · intro l₁ x l₂ hl a ha
    rw [hl, List.map_append, List.map_cons] at hmap
    exact Dag.canonical_ancestors hmap.symm ha

end Wayjournal
