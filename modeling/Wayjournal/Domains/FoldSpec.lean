import Wayjournal.Domains.FoldRun

namespace Wayjournal

open Collections FoldAccumulator

namespace ActiveMap

variable {κ υ : Type} [LinearOrder κ]

/-- The value an active identifier carries. -/
def Entry (m : ActiveMap κ υ) (k : κ) (id : RecordId) (v : υ) : Prop :=
  ∃ ids, m.get? k = some ids ∧ ids.get? id = some v

theorem mem_active {m : ActiveMap κ υ} {k : κ} {id : RecordId} :
    id ∈ m.active k ↔ ∃ v, m.Entry k id v := by
  rw [mem_active_iff]
  constructor
  · rintro ⟨ids, v, h⟩
    exact ⟨v, ids, h⟩
  · rintro ⟨v, ids, h⟩
    exact ⟨ids, v, h⟩

theorem Entry.of_add {m : ActiveMap κ υ} {k k' : κ} {id id' : RecordId} {v v' : υ}
    (h : (m.add k id v).Entry k' id' v') : (k' = k ∧ id' = id ∧ v' = v) ∨ m.Entry k' id' v' := by
  obtain ⟨ids, hget, hid⟩ := h
  rw [add, BTreeMap.get?_update] at hget
  split at hget
  · rename_i hk
    cases hget
    rw [BTreeMap.get?_insert] at hid
    split at hid
    · rename_i hid'
      cases hid
      exact .inl ⟨hk, hid', rfl⟩
    · cases hm : m.get? k with
      | none => simp [hm] at hid
      | some ids =>
        rw [hm] at hid
        exact .inr ⟨ids, hk ▸ hm, hid⟩
  · exact .inr ⟨ids, hget, hid⟩

theorem Entry.of_remove {m : ActiveMap κ υ} {k k' : κ} {id id' : RecordId} {v' : υ}
    (h : (m.remove k id).Entry k' id' v') : m.Entry k' id' v' := by
  unfold remove at h
  split at h
  · exact h
  · rename_i ids hm
    obtain ⟨ids', hget, hid⟩ := h
    rw [BTreeMap.get?_insert] at hget
    split at hget
    · rename_i hk
      cases hget
      rw [BTreeMap.get?_erase] at hid
      split at hid
      · cases hid
      · exact ⟨ids, hk ▸ hm, hid⟩
    · exact ⟨ids', hget, hid⟩

end ActiveMap

/-- Every value in the state was written by the operation it is filed under. -/
structure Holds (done : List DomainOperation) (s : FoldState) : Prop where
  register : ∀ field id v, s.registers.Entry field id v →
    ∃ x ∈ done, x.recordId = id ∧ x.kind.scalarWrite? = some (field, v)
  add : ∀ field key id v, s.adds.Entry (toLex (field, key)) id v →
    ∃ x ∈ done, x.recordId = id ∧ x.kind.add? = some (field, key, v)

theorem Holds.mono {done done' : List DomainOperation} {s : FoldState} (h : Holds done s)
    (hsub : done ⊆ done') : Holds done' s where
  register field id v he := by
    obtain ⟨x, hx, hw⟩ := h.register field id v he
    exact ⟨x, hsub hx, hw⟩
  add field key id v he := by
    obtain ⟨x, hx, hw⟩ := h.add field key id v he
    exact ⟨x, hsub hx, hw⟩

theorem Holds.removeRegister {done : List DomainOperation} {s : FoldState} (h : Holds done s)
    (field : ScalarField) (ids : List RecordId) :
    Holds done (ids.foldl (fun s c => FoldAccumulator.removeRegister s field c) s) := by
  induction ids generalizing s with
  | nil => exact h
  | cons c t ih =>
    apply ih
    exact ⟨fun f id v he => h.register f id v he.of_remove, h.add⟩

theorem Holds.removeAdd {done : List DomainOperation} {s : FoldState} (h : Holds done s)
    (field : SetField) (key : String) (ids : List RecordId) :
    Holds done (ids.foldl (fun s c => FoldAccumulator.removeAdd s field key c) s) := by
  induction ids generalizing s with
  | nil => exact h
  | cons c t ih =>
    apply ih
    exact ⟨h.register, fun f k id v he => h.add f k id v he.of_remove⟩

theorem Holds.insertRegister {done : List DomainOperation} {s : FoldState} (h : Holds done s)
    {o : DomainOperation} {field : ScalarField} {value : ScalarValue}
    (hw : o.kind.scalarWrite? = some (field, value)) :
    Holds (done ++ [o]) (FoldAccumulator.insertRegister s field o.recordId value) where
  register f id v he := by
    obtain ⟨rfl, rfl, rfl⟩ | he := he.of_add
    · exact ⟨o, by simp, rfl, hw⟩
    · exact (h.mono (List.subset_append_left _ _)).register f id v he
  add := (h.mono (List.subset_append_left _ _)).add

theorem Holds.insertAdd {done : List DomainOperation} {s : FoldState} (h : Holds done s)
    {o : DomainOperation} {field : SetField} {key : String} {value : SetValue}
    (hk : o.kind.add? = some (field, key, value)) :
    Holds (done ++ [o]) (FoldAccumulator.insertAdd s field key o.recordId value) where
  register := (h.mono (List.subset_append_left _ _)).register
  add f k id v he := by
    obtain ⟨hfk, rfl, rfl⟩ | he := he.of_add
    · obtain ⟨rfl, rfl⟩ := toLex_pair_eq.mp hfk
      exact ⟨o, by simp, rfl, hk⟩
    · exact (h.mono (List.subset_append_left _ _)).add f k id v he

theorem Holds.applyOperation {α : Type} [CausalNode α] {graph : CausalGraph α}
    {done : List DomainOperation} {o : DomainOperation} {s s' : FoldState} {r r' : Reachability}
    (h : Holds done s) (happ : Wayjournal.applyOperation graph o s r = .ok (s', r')) :
    Holds (done ++ [o]) s' := by
  cases hk : o.kind with
  | scalarSet field value =>
    simp only [Wayjournal.applyOperation, hk] at happ
    split at happ
    · cases happ
    · cases happ
      exact (h.removeRegister field _).insertRegister (by rw [hk]; rfl)
  | scalarResolve field value candidates =>
    simp only [Wayjournal.applyOperation, hk] at happ
    split at happ
    · cases happ
    · split at happ
      · cases happ
      · cases happ
        exact (h.removeRegister field _).insertRegister (by rw [hk]; rfl)
  | add field key value =>
    simp only [Wayjournal.applyOperation, hk] at happ
    cases happ
    exact h.insertAdd (by rw [hk]; rfl)
  | remove field key adds =>
    simp only [Wayjournal.applyOperation, hk] at happ
    split at happ
    · cases happ
    · split at happ
      · cases happ
      · cases happ
        exact (h.removeAdd field key adds).mono (List.subset_append_left _ _)

section Specification

variable (operations : List DomainOperation)

/-- `y` causally descends from `x`, through operations of any target. -/
def Descends (y x : DomainOperation) : Prop :=
  Dag.Ancestor (CausalGraph.parentMap operations) x.recordId y.recordId

/-- A value of a causally maximal set or resolve of the field. -/
def MaximalWrite (target : Option LogicalStoreId) (field : ScalarField) (value : ScalarValue) : Prop :=
  ∃ x ∈ operations, x.target = target ∧ x.kind.scalarWrite? = some (field, value) ∧
    ∀ y ∈ operations, y.target = target → y.Writes field → ¬Descends operations y x

/-- A value of an add that no remove names. -/
def SurvivingAdd (target : Option LogicalStoreId) (field : SetField) (key : String)
    (value : SetValue) : Prop :=
  ∃ x ∈ operations, x.target = target ∧ x.kind.add? = some (field, key, value) ∧
    ∀ y ∈ operations, x.recordId ∉ y.kind.removed

structure RegisterSpec {T : Type} [LinearOrder T] (target : Option LogicalStoreId)
    (field : ScalarField) (embed : T → ScalarValue) (r : MvRegister T) : Prop where
  sorted : r.values.Pairwise (· < ·)
  holds : ∀ v, v ∈ r.values.map embed ↔ MaximalWrite operations target field v

structure ValuesSpec {T : Type} [LinearOrder T] (target : Option LogicalStoreId)
    (field : SetField) (embed : T → SetValue) (m : Values T) : Prop where
  sorted : ∀ key vs, m.get? key = some vs → vs.Pairwise (· < ·) ∧ vs ≠ []
  holds : ∀ key v, v ∈ ((m.get? key).getD []).map embed ↔ SurvivingAdd operations target field key v

structure ProfileSpec (profile : AdvisoryProfile) : Prop where
  displayName : RegisterSpec operations none .displayName .text profile.displayName
  description : RegisterSpec operations none .description .text profile.description
  applicationIdentity : RegisterSpec operations none .application .text profile.applicationIdentity
  recommendedRemotes : ValuesSpec operations none .remote .remote profile.recommendedRemotes
  storeRelations : ValuesSpec operations none .relation .qualified profile.storeRelations
  capabilityHints : ValuesSpec operations none .capability .text profile.capabilityHints
  actorAliases : ValuesSpec operations none .alias .text profile.actorAliases
  advisoryPolicyHints : ValuesSpec operations none .policy .text profile.advisoryPolicyHints

structure CatalogSpec (store : LogicalStoreId) (entry : CatalogEntry) : Prop where
  target : entry.target = store
  entryName : RegisterSpec operations (some store) .entryName .text entry.entryName
  enabled : RegisterSpec operations (some store) .enabled .bool entry.enabled
  contextualDefaultStore :
    RegisterSpec operations (some store) .defaultStore .store entry.contextualDefaultStore
  aliases : ValuesSpec operations (some store) .alias .text entry.aliases
  candidateRemotes : ValuesSpec operations (some store) .remote .remote entry.candidateRemotes
  groups : ValuesSpec operations (some store) .group .text entry.groups
  storeRelations : ValuesSpec operations (some store) .relation .relation entry.storeRelations

/-- `s` is the state a fold of `operations` ends in for `target`. -/
structure Folded (target : Option LogicalStoreId) (s : FoldState) : Prop where
  valid : CausalGraph.Valid operations
  tracks : Tracks (CausalGraph.parentMap operations)
    (sameTarget target (CausalGraph.order operations)) s
  holds : Holds (sameTarget target (CausalGraph.order operations)) s
  named : ∀ x ∈ operations, ∀ y ∈ operations, x.recordId ∈ y.kind.removed → y.target = x.target

end Specification

section Folded

variable {operations : List DomainOperation} {target : Option LogicalStoreId} {s : FoldState}

theorem Folded.mem_done (h : Folded operations target s) {x : DomainOperation} :
    x ∈ sameTarget target (CausalGraph.order operations) ↔ x ∈ operations ∧ x.target = target := by
  rw [sameTarget, List.mem_filter, h.valid.order_perm.mem_iff, decide_eq_true_eq]

theorem Folded.unique (h : Folded operations target s) {x y : DomainOperation}
    (hx : x ∈ operations) (hy : y ∈ operations) (hid : x.recordId = y.recordId) : x = y :=
  CausalGraph.eq_of_recordId_eq h.valid.wellFormed.nodup hx hy hid

theorem Folded.register_entry (h : Folded operations target s) {field : ScalarField}
    {v : ScalarValue} :
    (∃ id, s.registers.Entry field id v) ↔ MaximalWrite operations target field v := by
  constructor
  · rintro ⟨id, he⟩
    obtain ⟨x, hx, rfl, hw⟩ := h.holds.register field id v he
    have hact := (h.tracks.register field x.recordId).mp (ActiveMap.mem_active.mpr ⟨v, he⟩)
    obtain ⟨hxo, hxt⟩ := h.mem_done.mp hx
    refine ⟨x, hxo, hxt, hw, ?_⟩
    intro y hy hyt hyw
    exact hact.2 y (h.mem_done.mpr ⟨hy, hyt⟩) hyw
  · rintro ⟨x, hx, hxt, hw, hmax⟩
    have hact : ActiveWrite (CausalGraph.parentMap operations)
        (sameTarget target (CausalGraph.order operations)) field x.recordId := by
      refine ⟨⟨x, h.mem_done.mpr ⟨hx, hxt⟩, rfl, v, hw⟩, ?_⟩
      intro y hy hyw
      exact hmax y (h.mem_done.mp hy).1 (h.mem_done.mp hy).2 hyw
    obtain ⟨v', he⟩ := ActiveMap.mem_active.mp ((h.tracks.register field x.recordId).mpr hact)
    obtain ⟨x', hx', hid, hw'⟩ := h.holds.register field _ v' he
    have hxx := h.unique (h.mem_done.mp hx').1 hx hid
    rw [hxx, hw, Option.some.injEq, Prod.mk.injEq] at hw'
    exact ⟨x.recordId, hw'.2 ▸ he⟩

theorem Folded.add_entry (h : Folded operations target s) {field : SetField} {key : String}
    {v : SetValue} :
    (∃ id, s.adds.Entry (toLex (field, key)) id v) ↔ SurvivingAdd operations target field key v := by
  constructor
  · rintro ⟨id, he⟩
    obtain ⟨x, hx, rfl, hw⟩ := h.holds.add field key id v he
    have hact := (h.tracks.add field key x.recordId).mp (ActiveMap.mem_active.mpr ⟨v, he⟩)
    obtain ⟨hxo, hxt⟩ := h.mem_done.mp hx
    refine ⟨x, hxo, hxt, hw, ?_⟩
    intro y hy hmem
    exact hact.2 y (h.mem_done.mpr ⟨hy, (h.named x hxo y hy hmem).trans hxt⟩) hmem
  · rintro ⟨x, hx, hxt, hw, hkeep⟩
    have hact : ActiveAdd (sameTarget target (CausalGraph.order operations)) field key x.recordId :=
      ⟨⟨x, h.mem_done.mpr ⟨hx, hxt⟩, rfl, v, hw⟩, fun y hy => hkeep y (h.mem_done.mp hy).1⟩
    obtain ⟨v', he⟩ := ActiveMap.mem_active.mp ((h.tracks.add field key x.recordId).mpr hact)
    obtain ⟨x', hx', hid, hw'⟩ := h.holds.add field key _ v' he
    have hxx := h.unique (h.mem_done.mp hx').1 hx hid
    rw [hxx, hw, Option.some.injEq, Prod.mk.injEq, Prod.mk.injEq] at hw'
    exact ⟨x.recordId, hw'.2.2 ▸ he⟩

theorem mem_register {T : Type} [LinearOrder T] {field : ScalarField}
    {convert : ScalarValue → Option T} {a : T} :
    a ∈ (register s field convert).values ↔
      ∃ v, (∃ id, s.registers.Entry field id v) ∧ convert v = some a := by
  simp only [register, mem_sortDedup, List.mem_filterMap, ActiveMap.Entry]
  cases hm : s.registers.get? field with
  | none => simp
  | some ids => simp [BTreeMap.mem_values_iff]

theorem Folded.register_spec (h : Folded operations target s) {T : Type} [LinearOrder T]
    {field : ScalarField} {embed : T → ScalarValue} {convert : ScalarValue → Option T}
    (hconv : ∀ v a, convert v = some a ↔ v = embed a)
    (htyped : ∀ v, field.accepts v = true → ∃ a, v = embed a) :
    RegisterSpec operations target field embed (register s field convert) where
  sorted := sorted_sortDedup _
  holds v := by
    rw [← h.register_entry, List.mem_map]
    constructor
    · rintro ⟨a, ha, rfl⟩
      obtain ⟨v, he, hv⟩ := mem_register.mp ha
      rwa [← (hconv v a).mp hv]
    · intro he
      obtain ⟨x, hx, -, hw, -⟩ := h.register_entry.mp he
      have hacc : field.accepts v = true := by
        have ht := x.kind_typed
        cases hk : x.kind <;> simp [hk, OperationKind.scalarWrite?] at hw <;>
          obtain ⟨rfl, rfl⟩ := hw <;> simpa [hk, OperationKind.typed] using ht
      obtain ⟨a, rfl⟩ := htyped v hacc
      exact ⟨a, mem_register.mpr ⟨embed a, he, (hconv _ _).mpr rfl⟩, rfl⟩

theorem get?_values {T : Type} [LinearOrder T] {field : SetField} {convert : SetValue → Option T}
    {key : String} {vs : List T} :
    (values s field convert).get? key = some vs ↔
      ∃ adds, s.adds.get? (toLex (field, key)) = some adds ∧
        vs = sortDedup (adds.values.filterMap convert) ∧ vs ≠ [] := by
  rw [values, BTreeMap.get?_ofList]
  · simp only [List.mem_filterMap, List.mem_filter, decide_eq_true_eq, Prod.exists]
    constructor
    · rintro ⟨fk, adds, ⟨hmem, rfl⟩, hvs⟩
      split at hvs
      · cases hvs
      · rename_i hne
        cases hvs
        exact ⟨adds, BTreeMap.mem_entries_iff.mp hmem, rfl, by simpa using hne⟩
    · rintro ⟨adds, hget, rfl, hne⟩
      refine ⟨toLex (field, key), adds, ⟨BTreeMap.mem_entries_iff.mpr hget, rfl⟩, ?_⟩
      simp [hne]
  · have hsorted := s.adds.sorted
    rw [List.pairwise_map] at hsorted
    rw [List.map_filterMap, List.Nodup, List.pairwise_filterMap, List.pairwise_filter]
    refine hsorted.imp ?_
    rintro ⟨fk, adds⟩ ⟨fk', adds'⟩ hlt hf hf' k hk k' hk' rfl
    simp only [decide_eq_true_eq] at hf hf'
    simp only [Option.map_eq_some_iff] at hk hk'
    obtain ⟨p, hp, rfl⟩ := hk
    obtain ⟨q, hq, hpq⟩ := hk'
    split at hp
    · cases hp
    · split at hq
      · cases hq
      · cases hp
        cases hq
        apply hlt.ne
        apply ofLex.injective
        exact Prod.ext (hf.trans hf'.symm) hpq.symm

theorem mem_values {T : Type} [LinearOrder T] {field : SetField} {convert : SetValue → Option T}
    {key : String} {a : T} :
    a ∈ ((values s field convert).get? key).getD [] ↔
      ∃ v, (∃ id, s.adds.Entry (toLex (field, key)) id v) ∧ convert v = some a := by
  have hmem : ∀ adds : BTreeMap RecordId SetValue,
      a ∈ sortDedup (adds.values.filterMap convert) ↔
        ∃ v, (∃ id, adds.get? id = some v) ∧ convert v = some a := by
    intro adds
    simp only [mem_sortDedup, List.mem_filterMap, BTreeMap.mem_values_iff]
  constructor
  · intro ha
    cases hv : (values s field convert).get? key with
    | none => simp [hv] at ha
    | some vs =>
      obtain ⟨adds, hget, rfl, -⟩ := get?_values.mp hv
      rw [hv, Option.getD_some, hmem] at ha
      obtain ⟨v, ⟨id, hid⟩, hc⟩ := ha
      exact ⟨v, ⟨id, adds, hget, hid⟩, hc⟩
  · rintro ⟨v, ⟨id, adds, hget, hid⟩, hc⟩
    have ha := (hmem adds).mpr ⟨v, ⟨id, hid⟩, hc⟩
    have hv := get?_values.mpr ⟨adds, hget, rfl, List.ne_nil_of_mem ha⟩
    rw [hv]
    exact ha

theorem Folded.values_spec (h : Folded operations target s) {T : Type} [LinearOrder T]
    {field : SetField} {embed : T → SetValue} {convert : SetValue → Option T}
    (hconv : ∀ v a, convert v = some a ↔ v = embed a)
    (htyped : ∀ v, field.accepts target.isSome v = true → ∃ a, v = embed a) :
    ValuesSpec operations target field embed (values s field convert) where
  sorted key vs hv := by
    obtain ⟨adds, -, rfl, hne⟩ := get?_values.mp hv
    exact ⟨sorted_sortDedup _, hne⟩
  holds key v := by
    rw [← h.add_entry, List.mem_map]
    constructor
    · rintro ⟨a, ha, rfl⟩
      obtain ⟨v, he, hv⟩ := mem_values.mp ha
      rwa [← (hconv v a).mp hv]
    · intro he
      obtain ⟨x, hx, hxt, hw, -⟩ := h.add_entry.mp he
      have hacc : field.accepts target.isSome v = true := by
        have ht := x.kind_typed
        rw [hxt] at ht
        cases hk : x.kind <;> simp [hk, OperationKind.add?] at hw
        obtain ⟨rfl, rfl, rfl⟩ := hw
        simpa [hk, OperationKind.typed] using ht
      obtain ⟨a, rfl⟩ := htyped v hacc
      exact ⟨a, mem_values.mpr ⟨embed a, he, (hconv _ _).mpr rfl⟩, rfl⟩

end Folded

theorem wrongEntity_eq_false {operations : List DomainOperation} {domain : String} :
    wrongEntity operations domain = false ↔
      (∀ x ∈ operations, x.domain.asStr = domain) ∧
        ∀ x ∈ operations, ∀ y ∈ operations, x.entityId = y.entityId := by
  cases operations with
  | nil => simp [wrongEntity]
  | cons a t =>
    simp only [wrongEntity, List.any_eq_false, Bool.or_eq_true, decide_eq_true_eq, not_or, ne_eq,
      not_not, List.head?_cons, Option.map_some, Option.some.injEq]
    constructor
    · intro h
      exact ⟨fun x hx => (h x hx).1, fun x hx y hy => (h x hx).2.trans (h y hy).2.symm⟩
    · rintro ⟨hd, he⟩ x hx
      exact ⟨hd x hx, he x hx a List.mem_cons_self⟩

theorem wrongEntity_perm {operations operations' : List DomainOperation} {domain : String}
    (hp : operations.Perm operations') (h : wrongEntity operations domain = false) :
    wrongEntity operations' domain = false := by
  rw [wrongEntity_eq_false] at h ⊢
  refine ⟨fun x hx => h.1 x (hp.mem_iff.mpr hx), ?_⟩
  exact fun x hx y hy => h.2 x (hp.mem_iff.mpr hx) y (hp.mem_iff.mpr hy)

/-- What the loops of both folds establish. -/
theorem foldLoop_ok {σ S : Type} [FoldAccumulator S] [LawfulFoldAccumulator S]
    {operations : List DomainOperation} {graph : CausalGraph DomainOperation}
    (hnew : CausalGraph.new operations = .ok graph) {T : Option LogicalStoreId → Prop}
    {step : DomainOperation → σ → Reachability → Except FoldError (σ × Reachability)}
    {view : Option LogicalStoreId → σ → S} (hroute : Routes graph T step view)
    (hT : ∀ o ∈ operations, T o.target) {init : σ}
    (hinit : ∀ t, T t → view t init = FoldAccumulator.default) :
    match foldLoop step graph.ordered init .initial with
    | .error e => e = .budget ∨ (e ≠ .budget ∧
        ¬AcceptsFrom (CausalGraph.parentMap operations) [] (CausalGraph.order operations))
    | .ok (st, _) =>
        AcceptsFrom (CausalGraph.parentMap operations) [] (CausalGraph.order operations) ∧
        ∀ t, T t → Tracks (CausalGraph.parentMap operations)
          (sameTarget t (CausalGraph.order operations)) (view t st) := by
  obtain ⟨hvalid, hidx, hord⟩ := CausalGraph.new_ok hnew
  have hP := hidx.parentsOf_eq hvalid.wellFormed.nodup
  have hTo : ∀ o ∈ CausalGraph.order operations, T o.target :=
    fun o ho => hT o (hvalid.order_perm.mem_iff.mp ho)
  have htr : ∀ t, T t → Tracks (CausalGraph.parentMap operations) (sameTarget t []) (view t init) := by
    intro t ht
    rw [hinit t ht]
    exact tracks_default
  rw [hord]
  exact foldLoop_spec hP hroute _ hTo rfl htr (topological_order hvalid)

theorem foldLoop_folded {σ : Type} {operations : List DomainOperation}
    {graph : CausalGraph DomainOperation} (hnew : CausalGraph.new operations = .ok graph)
    {T : Option LogicalStoreId → Prop}
    {step : DomainOperation → σ → Reachability → Except FoldError (σ × Reachability)}
    {view : Option LogicalStoreId → σ → FoldState} (hroute : Routes graph T step view)
    (hT : ∀ o ∈ operations, T o.target) {init st : σ} {r : Reachability}
    (hinit : ∀ t, T t → view t init = FoldAccumulator.default)
    (hrun : foldLoop step graph.ordered init .initial = .ok (st, r)) :
    ∀ t, T t → Folded operations t (view t st) := by
  obtain ⟨hvalid, -, hord⟩ := CausalGraph.new_ok hnew
  have hspec := foldLoop_ok hnew hroute hT hinit
  rw [hrun] at hspec
  have htracks := hspec.2
  have hTo : ∀ o ∈ graph.ordered, T o.target := by
    intro o ho
    rw [hord] at ho
    exact hT o (hvalid.order_perm.mem_iff.mp ho)
  have hempty : Holds [] FoldAccumulator.default := by
    refine ⟨?_, ?_⟩
    · rintro field id v ⟨ids, hget, -⟩
      cases hget
    · rintro field key id v ⟨ids, hget, -⟩
      cases hget
  have hstart : ∀ t, T t → Holds (sameTarget t []) (view t init) := by
    intro t ht
    rw [hinit t ht]
    exact hempty
  have hholds := foldLoop_invariant hroute
    (fun done o s r s' r' h happ => Holds.applyOperation h happ) _ hTo hstart hrun
  intro t ht
  refine ⟨hvalid, htracks t ht, ?_, ?_⟩
  · simpa [hord] using hholds t ht
  · intro x hx y hy hmem
    obtain ⟨field, key, adds, hk, hid⟩ := removed_of_kind hmem
    have hydone : y ∈ sameTarget y.target (CausalGraph.order operations) := by
      rw [sameTarget, List.mem_filter]
      exact ⟨hvalid.order_perm.mem_iff.mpr hy, by simp⟩
    obtain ⟨x', hx', hxid, -⟩ := (htracks y.target (hT y hy)).named y hydone field key adds hk _ hid
    rw [sameTarget, List.mem_filter, decide_eq_true_eq] at hx'
    have hxx := CausalGraph.eq_of_recordId_eq hvalid.wellFormed.nodup
      (hvalid.order_perm.mem_iff.mp hx'.1) hx hxid
    rw [← hxx, hx'.2]

end Wayjournal
