import Wayjournal.Domains.FoldSpec

namespace Wayjournal

open Collections FoldAccumulator

theorem ScalarValue.text?_eq_some (v : ScalarValue) (a : String) : v.text? = some a ↔ v = .text a := by
  cases v <;> simp [ScalarValue.text?]

theorem ScalarValue.bool?_eq_some (v : ScalarValue) (a : Bool) : v.bool? = some a ↔ v = .bool a := by
  cases v <;> simp [ScalarValue.bool?]

theorem ScalarValue.store?_eq_some (v : ScalarValue) (a : LogicalStoreId) :
    v.store? = some a ↔ v = .store a := by
  cases v <;> simp [ScalarValue.store?]

theorem SetValue.text?_eq_some (v : SetValue) (a : String) : v.text? = some a ↔ v = .text a := by
  cases v <;> simp [SetValue.text?]

theorem SetValue.remote?_eq_some (v : SetValue) (a : RemoteLocator) :
    v.remote? = some a ↔ v = .remote a := by
  cases v <;> simp [SetValue.remote?]

theorem SetValue.qualified?_eq_some (v : SetValue) (a : QualifiedEntityRef) :
    v.qualified? = some a ↔ v = .qualified a := by
  cases v <;> simp [SetValue.qualified?]

theorem SetValue.relation?_eq_some (v : SetValue) (a : CatalogRelation) :
    v.relation? = some a ↔ v = .relation a := by
  cases v <;> simp [SetValue.relation?]

theorem fold_cases {operations : List DomainOperation} {domain : String} {state : FoldState}
    (h : fold operations domain = .ok state) :
    ∃ graph r, CausalGraph.new operations = .ok graph ∧ wrongEntity operations domain = false ∧
      foldLoop (applyOperation graph) graph.ordered FoldAccumulator.default .initial =
        .ok (state, r) := by
  simp only [fold] at h
  split at h
  · cases h
  · rename_i graph hnew
    split at h
    · cases h
    · rename_i hent
      split at h
      · cases h
      · rename_i st r hrun
        cases h
        exact ⟨graph, r, hnew, by simpa using hent, hrun⟩

theorem fold_perm {operations operations' : List DomainOperation} {domain : String}
    {state : FoldState} (h : fold operations domain = .ok state)
    (hp : operations.Perm operations') : fold operations' domain = .ok state := by
  obtain ⟨graph, r, hnew, hent, hrun⟩ := fold_cases h
  simp [fold, CausalGraph.new_perm hnew hp, wrongEntity_perm hp hent, hrun]

theorem fold_folded {operations : List DomainOperation} {state : FoldState}
    (h : fold operations PROFILE_DOMAIN = .ok state) : Folded operations none state := by
  obtain ⟨graph, r, hnew, hent, hrun⟩ := fold_cases h
  have hdom := (wrongEntity_eq_false.mp hent).1
  have hT : ∀ o ∈ operations, o.target = none := fun o ho => DomainOperation.target_of_profile (hdom o ho)
  exact foldLoop_folded hnew (routes_profile graph) hT (fun _ _ => rfl) hrun none rfl

theorem foldProfile_cases {operations : List DomainOperation} {profile : AdvisoryProfile}
    (h : foldProfile operations = .ok profile) :
    ∃ state, fold operations PROFILE_DOMAIN = .ok state ∧
      ∀ operations', fold operations' PROFILE_DOMAIN = .ok state →
        foldProfile operations' = .ok profile := by
  have hp := h
  simp only [foldProfile] at h
  split at h
  · cases h
  · rename_i state hs
    refine ⟨state, hs, ?_⟩
    intro operations' hs'
    rw [← hp, foldProfile, foldProfile, hs, hs']

theorem foldProfile_spec {operations : List DomainOperation} {profile : AdvisoryProfile}
    (h : foldProfile operations = .ok profile) : ProfileSpec operations profile := by
  simp only [foldProfile] at h
  split at h
  · cases h
  · rename_i state hs
    cases h
    have hf := fold_folded hs
    constructor
    all_goals first
      | exact hf.register_spec ScalarValue.text?_eq_some (by intro v; cases v <;> simp [ScalarField.accepts])
      | exact hf.values_spec SetValue.text?_eq_some (by intro v; cases v <;> simp [SetField.accepts])
      | exact hf.values_spec SetValue.remote?_eq_some (by intro v; cases v <;> simp [SetField.accepts])
      | exact hf.values_spec SetValue.qualified?_eq_some
          (by intro v; cases v <;> simp [SetField.accepts])

theorem foldCatalogs_cases {operations : List DomainOperation}
    {catalogs : BTreeMap LogicalStoreId CatalogEntry} (h : foldCatalogs operations = .ok catalogs) :
    ∃ graph states r, CausalGraph.new operations = .ok graph ∧
      wrongEntity operations CATALOG_DOMAIN = false ∧
      foldLoop (applyCatalogOperation (S := FoldState) graph) graph.ordered ∅ .initial =
        .ok (states, r) ∧ catalogs = states.mapValues catalogEntry := by
  simp only [foldCatalogs] at h
  split at h
  · cases h
  · rename_i graph hnew
    split at h
    · cases h
    · rename_i hent
      split at h
      · cases h
      · rename_i states r hrun
        cases h
        exact ⟨graph, states, r, hnew, by simpa using hent, hrun, rfl⟩

theorem foldCatalogs_perm {operations operations' : List DomainOperation}
    {catalogs : BTreeMap LogicalStoreId CatalogEntry} (h : foldCatalogs operations = .ok catalogs)
    (hp : operations.Perm operations') : foldCatalogs operations' = .ok catalogs := by
  obtain ⟨graph, states, r, hnew, hent, hrun, rfl⟩ := foldCatalogs_cases h
  simp [foldCatalogs, CausalGraph.new_perm hnew hp, wrongEntity_perm hp hent, hrun]

theorem mem_keys_foldLoop_catalog {graph : CausalGraph DomainOperation}
    (rest : List DomainOperation) {states states' : BTreeMap LogicalStoreId FoldState}
    {r r' : Reachability}
    (h : foldLoop (applyCatalogOperation graph) rest states r = .ok (states', r'))
    (t : LogicalStoreId) :
    t ∈ states'.keys ↔ t ∈ states.keys ∨ ∃ x ∈ rest, x.target = some t := by
  induction rest generalizing states r with
  | nil =>
    cases h
    simp
  | cons o rest ih =>
    simp only [foldLoop] at h
    split at h
    · cases h
    · rename_i states₁ r₁ hstep
      rw [ih h]
      simp only [applyCatalogOperation] at hstep
      split at hstep
      · cases hstep
      · rename_i target htarget
        split at hstep
        · cases hstep
        · cases hstep
          rw [BTreeMap.mem_keys_insert]
          simp only [List.mem_cons, exists_eq_or_imp, htarget, Option.some.injEq]
          constructor
          · rintro ((rfl | h) | h)
            · exact .inr (.inl rfl)
            · exact .inl h
            · exact .inr (.inr h)
          · rintro (h | rfl | h)
            · exact .inl (.inr h)
            · exact .inl (.inl rfl)
            · exact .inr h

theorem foldCatalogs_targets {operations : List DomainOperation}
    {catalogs : BTreeMap LogicalStoreId CatalogEntry} (h : foldCatalogs operations = .ok catalogs)
    (t : LogicalStoreId) : t ∈ catalogs.keys ↔ ∃ x ∈ operations, x.target = some t := by
  obtain ⟨graph, states, r, hnew, -, hrun, rfl⟩ := foldCatalogs_cases h
  obtain ⟨hvalid, -, hord⟩ := CausalGraph.new_ok hnew
  have hkeys := mem_keys_foldLoop_catalog _ hrun t
  have hempty : t ∉ (∅ : BTreeMap LogicalStoreId FoldState).keys := List.not_mem_nil
  simp only [hempty, false_or, hord, hvalid.order_perm.mem_iff] at hkeys
  rw [← hkeys]
  simp [BTreeMap.mem_keys_iff]

theorem foldCatalogs_spec {operations : List DomainOperation}
    {catalogs : BTreeMap LogicalStoreId CatalogEntry} (h : foldCatalogs operations = .ok catalogs)
    {t : LogicalStoreId} {entry : CatalogEntry} (ht : catalogs.get? t = some entry) :
    CatalogSpec operations t entry := by
  obtain ⟨graph, states, r, hnew, hent, hrun, rfl⟩ := foldCatalogs_cases h
  rw [BTreeMap.get?_mapValues, Option.map_eq_some_iff] at ht
  obtain ⟨state, hget, rfl⟩ := ht
  have hdom := (wrongEntity_eq_false.mp hent).1
  have hT : ∀ o ∈ operations, o.target ≠ none := by
    intro o ho
    obtain ⟨u, hu⟩ := DomainOperation.target_of_catalog (hdom o ho)
    simp [hu]
  have hf := foldLoop_folded hnew (routes_catalog graph) hT
    (fun t _ => by cases t <;> rfl) hrun (some t) (by simp)
  have hview : catalogView (some t) states = state := by simp [catalogView, hget]
  rw [hview] at hf
  refine ⟨rfl, ?_, ?_, ?_, ?_, ?_, ?_, ?_⟩
  · exact hf.register_spec ScalarValue.text?_eq_some (by intro v; cases v <;> simp [ScalarField.accepts])
  · exact hf.register_spec ScalarValue.bool?_eq_some (by intro v; cases v <;> simp [ScalarField.accepts])
  · exact hf.register_spec ScalarValue.store?_eq_some
      (by intro v; cases v <;> simp [ScalarField.accepts])
  · exact hf.values_spec SetValue.text?_eq_some (by intro v; cases v <;> simp [SetField.accepts])
  · exact hf.values_spec SetValue.remote?_eq_some (by intro v; cases v <;> simp [SetField.accepts])
  · exact hf.values_spec SetValue.text?_eq_some (by intro v; cases v <;> simp [SetField.accepts])
  · exact hf.values_spec SetValue.relation?_eq_some (by intro v; cases v <;> simp [SetField.accepts])

/-- A fold that succeeds gives the same result on every permutation of its input,
and the result is the causal specification. -/
theorem folds_eq_causal_spec :
    (∀ operations profile, foldProfile operations = .ok profile →
      (∀ operations', operations.Perm operations' → foldProfile operations' = .ok profile) ∧
      ProfileSpec operations profile) ∧
    (∀ operations catalogs, foldCatalogs operations = .ok catalogs →
      (∀ operations', operations.Perm operations' → foldCatalogs operations' = .ok catalogs) ∧
      (∀ t, t ∈ catalogs.keys ↔ ∃ x ∈ operations, x.target = some t) ∧
      ∀ t entry, catalogs.get? t = some entry → CatalogSpec operations t entry) := by
  refine ⟨?_, ?_⟩
  · intro operations profile h
    refine ⟨?_, foldProfile_spec h⟩
    intro operations' hp
    obtain ⟨state, hs, hall⟩ := foldProfile_cases h
    exact hall operations' (fold_perm hs hp)
  · intro operations catalogs h
    exact ⟨fun _ hp => foldCatalogs_perm h hp, foldCatalogs_targets h,
      fun _ _ ht => foldCatalogs_spec h ht⟩

namespace Sample

def recordId (n : Fin 16) : RecordId where
  uuid := ⟨[0, 1, 9, 1, 3, 15, 1, 13, 8, 14, 2, 10, 7, 12, 3, 0, 8, 15, 4, 10, 4, 2, 6, 6, 1, 4, 1, 7,
    4, 0, 0, n], rfl⟩
  accepted := by revert n; decide

def entityId : EntityId where
  uuid := ⟨[1, 2, 3, 14, 4, 5, 6, 7, 14, 8, 9, 11, 4, 2, 13, 3, 10, 4, 5, 6, 4, 2, 6, 6, 1, 4, 1, 7, 4,
    0, 0, 0], rfl⟩
  accepted := by decide

def profileDomain : DomainId := ⟨PROFILE_DOMAIN, by decide⟩

def profileOperation (n : Fin 16) (parents : List RecordId) (kind : OperationKind)
    (h : kind.typed false = true) : DomainOperation :=
  ⟨recordId n, entityId, parents, profileDomain, none, kind, by simp [wellTyped, profileDomain, h]⟩

/-- A first name. -/
def name : DomainOperation := profileOperation 0 [] (.scalarSet .displayName (.text "a")) rfl

/-- A later name. -/
def rename : DomainOperation :=
  profileOperation 1 [recordId 0] (.scalarSet .displayName (.text "b")) rfl

/-- A concurrent resolution of the first name. -/
def resolution : DomainOperation :=
  profileOperation 2 [recordId 0] (.scalarResolve .displayName (.text "c") [recordId 0]) rfl

def sibling : DomainOperation :=
  profileOperation 3 [recordId 0] (.scalarSet .displayName (.text "d")) rfl

end Sample

theorem folds_eq_causal_spec_conflict :
    ∃ profile, foldProfile [Sample.name, Sample.rename, Sample.sibling] = .ok profile ∧
      profile.displayName.values = ["b", "d"] ∧
      ProfileSpec [Sample.name, Sample.rename, Sample.sibling] profile := by
  refine ⟨⟨⟨["b", "d"]⟩, ⟨[]⟩, ⟨[]⟩, ∅, ∅, ∅, ∅, ∅⟩, rfl, rfl, ?_⟩
  exact (folds_eq_causal_spec.1 _ _ rfl).2

end Wayjournal
